import AieBaremetal.Metadata.ExternalBuffers

/-!
# The section of the shared buffers on targets of two word sizes

The packer writes the addresses of a shared buffer with eight bytes each. The parser reads them as
`std::size_t`, so on the RPU it goes on with the locks in the middle of the addresses. A buffer with
addresses is never read back there: if the words read were its addresses, all words up to the locks would
be zero but the first, the locks would be read as empty, and the parser would stop too early.
-/

namespace AieBaremetal.Metadata

open Common Common.Reader

structure SharedBufferRecord where
  id : Json
  name : List Char
  graphId : Json
  size : Json
  column : Json
  row : Json
  numInputs : Json
  numOutputs : Json
  initialized : Json
  address : List Json
  producerLockIds : List Json
  consumerLockIds : List Json

def SharedBufferRecord.members (b : SharedBufferRecord) : Members :=
  [(.id, b.id), (.name, .text b.name), (.graph_id, b.graphId), (.size, b.size), (.column, b.column), (.row, b.row),
    (.num_inputs, b.numInputs), (.num_outputs, b.numOutputs), (.initialized, b.initialized),
    (.address, .array b.address), (.producer_lock_ids, .array b.producerLockIds),
    (.consumer_lock_ids, .array b.consumerLockIds)]

def SharedBufferRecord.toJson (b : SharedBufferRecord) : Json := .object b.members

/-- Whether a list of numbers with the code is packed. -/
def holdsInts (code : Code) (items : List Json) : Bool := items.all code.holdsInt && items.length < 2 ^ 31

def SharedBufferRecord.wellFormed (b : SharedBufferRecord) : Bool :=
  Code.h.holdsInt b.id && b.name.length ≤ nameMaxLen && Code.i.holdsInt b.graphId && Code.I.holdsInt b.size &&
    Code.h.holdsInt b.column && Code.h.holdsInt b.row && Code.h.holdsInt b.numInputs &&
    Code.h.holdsInt b.numOutputs && Code.B.holdsInt b.initialized && holdsInts .I b.address &&
    holdsInts .i b.producerLockIds && holdsInts .i b.consumerLockIds

structure SharedBufferMatches {target : Target} (b : SharedBufferRecord) (config : SharedBufferConfig target) :
    Prop where
  id : config.id.toInt = b.id.int
  name : config.name = some (encodeUtf8 b.name)
  graphId : config.graphId.toInt = b.graphId.int
  numBytes : (config.numBytes.toNat : ℤ) = b.size.int
  column : config.column.toInt = b.column.int
  row : config.row.toInt = b.row.int
  numInputs : config.numInputs.toInt = b.numInputs.int
  numOutputs : config.numOutputs.toInt = b.numOutputs.int
  initialized : config.initialized = (b.initialized.int != 0)
  addr : (config.addr.map fun a => (a.toNat : ℤ)) = b.address.map Json.int
  producerLocks : config.producerLocks.map BitVec.toInt = b.producerLockIds.map Json.int
  consumerLocks : config.consumerLocks.map BitVec.toInt = b.consumerLockIds.map Json.int

/-- The section is packed, and every buffer is read with all fields, with the pointer at its end each time. -/
def SharedBuffersReadBack (target : Target) (buffers : List SharedBufferRecord) : Prop :=
  ∃ chunks, List.Forall₂ (fun b chunk => packSharedBufferConfig (SharedBufferRecord.toJson b) = some chunk) buffers
    chunks ∧
    parseSharedBuffersConfig (.array (buffers.map SharedBufferRecord.toJson)) = some chunks.flatten ∧
    ∀ outside fuel, buffers.length < fuel → ∃ entries,
      loadRecords (loadNamedSharedBuffer target) (BitVec.ofNat 32 chunks.flatten.length) fuel
          (sectionMemory outside chunks.flatten) 0 =
            .ok (entries.zip (boundaries 0 chunks), chunks.flatten.length) ∧
      loadAllSharedBuffers target (BitVec.ofNat 32 chunks.flatten.length) fuel
        (sectionMemory outside chunks.flatten) 0 =
        .ok (assignAll (fun _ => none) entries, chunks.flatten.length) ∧
      List.Forall₂ (fun b entry => entry.1 = encodeUtf8 b.name ∧ SharedBufferMatches b entry.2) buffers entries

variable {b : SharedBufferRecord} {code : Code} {cursor : ℤ} {mem : ℤ → UInt8} {v : Json}

section Packing

theorem structPackArguments_items (items : List Item) :
    structPackArguments (items.map Item.place) (items.map Item.argument) = structPack items := by
  induction items with
  | nil => rfl
  | cons item rest ih =>
    cases item with
    | value code v =>
      simp only [List.map_cons, Item.place, Item.argument, structPackArguments, structPack, ih]
    | bytes count data =>
      simp only [List.map_cons, Item.place, Item.argument, structPackArguments, structPack, ih]

/-- The places and values of a member are packed as the chunk. -/
def MemberPacked (key : Key) (value : Json) (chunk : List UInt8) : Prop :=
  ∃ items : List Item, sharedBufferMember key value = some (items.map Item.place, items.map Item.argument) ∧
    structPack items = some chunk

theorem packSharedBufferConfig_members {members : Members} {chunks : List (List UInt8)}
    (h : List.Forall₂ (fun entry chunk => MemberPacked entry.1 entry.2 chunk) members chunks) :
    packSharedBufferConfig (.object members) = some chunks.flatten := by
  have hitems : ∃ items : List Item, sharedBufferMembers members =
    some (items.map Item.place, items.map Item.argument) ∧
      structPack items = some chunks.flatten := by
    induction h with
    | nil => exact ⟨[], rfl, rfl⟩
    | @cons entry chunk members chunks hfirst _ ih =>
      obtain ⟨front, hfront, hfrontPack⟩ := hfirst
      obtain ⟨back, hback, hbackPack⟩ := ih
      refine ⟨front ++ back, ?_, ?_⟩
      · simp [sharedBufferMembers, hfront, hback]
      · simp [structPack_append, hfrontPack, hbackPack]
  obtain ⟨items, hmembers, hpack⟩ := hitems
  simp [packSharedBufferConfig, Json.members, hmembers, structPackArguments_items, hpack]

theorem memberPacked_value (key : Key) {width : ℕ} {low high : ℤ} (h : code.holdsInt v = true)
    (hrange : code.range = some (width, low, high)) (hkey : key ∉ vectors ∧ key ∉ keysOf .s)
    (hcode : keyToEncodingMap (if key = .id then .sid else key) = some code) :
    MemberPacked key v (intBytes width v.int) := by
  refine ⟨[.value code v], ?_, structPack_value h hrange⟩
  have hflat : v.flat = [v] := by
    obtain ⟨n, rfl⟩ | ⟨b, rfl⟩ := cases_of_holdsInt h
    · rfl
    · rfl
  simp [sharedBufferMember, hkey.1, hkey.2, hcode, hflat, Item.place, Item.argument]

theorem memberPacked_name (key : Key) {s : List Char} (hlen : s.length ≤ nameMaxLen)
    (hkey : key ∉ vectors ∧ key ∈ keysOf .s) :
    MemberPacked key (.text s) (intBytes 4 (nameBytes s).length ++ nameBytes s) := by
  obtain ⟨items, hitems, hpack⟩ :=
    Option.bind_eq_some_iff.mp (nameItems_structPack hlen (.inr rfl : Code.I = .i ∨ _))
  exact ⟨items, by simp [sharedBufferMember, hkey.1, hkey.2, hitems], hpack⟩

theorem memberPacked_array (key : Key) {items : List Json} (h : holdsInts code items = true)
    (hkey : key ∈ vectors) (hcode : keyToEncodingMap key = some code) :
    MemberPacked key (.array items) (arrayBytes code items) := by
  rw [holdsInts, Bool.and_eq_true, decide_eq_true_eq] at h
  have hfits : items.all code.fits = true := by
    rw [List.all_eq_true] at h ⊢
    exact fun v hv => Bool.or_eq_true_iff.mpr (.inr (h.1 v hv))
  refine ⟨.value .i (.number items.length) :: items.map (Item.value code), ?_, ?_⟩
  · have hplaces : (items.map (Item.value code)).map Item.place = List.replicate items.length (.code code) := by
      rw [List.map_map]
      exact List.map_const' ..
    have harguments : (items.map (Item.value code)).map Item.argument = items.map Argument.json := by
      rw [List.map_map]
      rfl
    simp only [sharedBufferMember, hkey, if_true, Json.len, hcode, Option.bind_eq_bind, Option.bind_some, Json.flat,
      List.map_cons, hplaces, harguments]
    rfl
  · rw [structPack_cons_of_some _ (packItem_length h.2), structPack_items hfits]
    rfl

end Packing

section Reading

def SharedBufferRecord.headBytes (b : SharedBufferRecord) : List UInt8 :=
  intBytes 2 b.id.int ++ ((intBytes 4 (nameBytes b.name).length ++ nameBytes b.name) ++ (intBytes 4 b.graphId.int ++
    (intBytes 8 b.size.int ++ (intBytes 2 b.column.int ++ (intBytes 2 b.row.int ++ (intBytes 2 b.numInputs.int ++
    (intBytes 2 b.numOutputs.int ++ (intBytes 1 b.initialized.int ++ []))))))))

def SharedBufferRecord.vectorBytes (b : SharedBufferRecord) : List UInt8 :=
  arrayBytes .Q b.address ++ (arrayBytes .i b.producerLockIds ++ arrayBytes .i b.consumerLockIds)

def SharedBufferRecord.config (b : SharedBufferRecord) (target : Target) (addr : List (BitVec (8 * target.sizeT)))
    (producerLocks consumerLocks : List (BitVec 32)) : SharedBufferConfig target where
  id := .ofInt 16 b.id.int
  name := some (nameBytes b.name)
  graphId := .ofInt 32 b.graphId.int
  numBytes := (BitVec.ofInt 64 b.size.int).setWidth (8 * target.sizeT)
  column := .ofInt 16 b.column.int
  row := .ofInt 16 b.row.int
  numInputs := .ofInt 16 b.numInputs.int
  numOutputs := .ofInt 16 b.numOutputs.int
  initialized := BitVec.ofInt 8 b.initialized.int != 0
  addr := addr
  producerLocks := producerLocks
  consumerLocks := consumerLocks

/-- What is parsed behind the fixed part of a shared buffer. -/
def SharedBufferRecord.loadVectors (b : SharedBufferRecord) (target : Target) :
    Unpack (SharedBufferConfig target) := do
  let addrLen ← unpackUInt32
  let addr ← unpackVector target.sizeT addrLen
  let producerLocksLen ← unpackUInt32
  let producerLocks ← unpackVector 4 producerLocksLen
  let consumerLocksLen ← unpackUInt32
  let consumerLocks ← unpackVector 4 consumerLocksLen
  pure (b.config target addr producerLocks consumerLocks)

theorem holdsInt_Q (h : Code.I.holdsInt v = true) : Code.Q.holdsInt v = true := by
  obtain ⟨width, low, high, n, hrange, hn, hlow, hhigh⟩ := exists_of_holdsInt h
  obtain ⟨-, rfl, rfl⟩ : 4 = width ∧ 0 = low ∧ 2 ^ 32 - 1 = high := by simpa [Code.range] using hrange
  simp only [Code.holdsInt, Code.range, hn, Bool.and_eq_true, decide_eq_true_eq]
  omega

variable {b : SharedBufferRecord}

theorem leads_loadSharedBuffer (hname : b.name.length ≤ nameMaxLen) (target : Target) :
    Leads (loadSharedBuffer target) b.headBytes (b.loadVectors target) := by
  have hword (n : ℤ) : Reads unpackUInt32 (intBytes 4 n) (BitVec.ofInt 32 n) := reads_unpackValue 4 n
  have hlong (n : ℤ) : Reads unpackUInt64 (intBytes 8 n) (BitVec.ofInt 64 n) := reads_unpackValue 8 n
  have hshort (n : ℤ) : Reads unpackShort (intBytes 2 n) (BitVec.ofInt 16 n) := reads_unpackValue 2 n
  have hflag (n : ℤ) : Reads unpackBool (intBytes 1 n) (BitVec.ofInt 8 n != 0) := (reads_unpackValue 1 n).map
  apply (hshort _).bind_leads
  apply (reads_name hname).bind_leads
  apply (hword _).bind_leads
  apply (hlong _).bind_leads
  apply (hshort _).bind_leads
  apply (hshort _).bind_leads
  apply (hshort _).bind_leads
  apply (hshort _).bind_leads
  apply (hflag _).bind_leads
  exact Leads.refl _

variable (h : b.wellFormed = true)

include h

/-- A well-formed shared buffer is packed as its fixed part and its vectors. -/
theorem packSharedBufferConfig_toJson : packSharedBufferConfig b.toJson = some (b.headBytes ++ b.vectorBytes) := by
  simp only [SharedBufferRecord.wellFormed, Bool.and_eq_true, decide_eq_true_eq] at h
  obtain ⟨⟨⟨⟨⟨⟨⟨⟨⟨⟨⟨hid, hname⟩, hgraph⟩, hsize⟩, hcolumn⟩, hrow⟩, hinputs⟩, houtputs⟩, hinit⟩, haddr⟩, hproducers⟩,
    hconsumers⟩ := h
  have haddrQ : holdsInts .Q b.address = true := by
    simp only [holdsInts, Bool.and_eq_true, List.all_eq_true] at haddr ⊢
    exact ⟨fun v hv => holdsInt_Q (haddr.1 v hv), haddr.2⟩
  have hpack := packSharedBufferConfig_members
    (.cons (memberPacked_value .id hid rfl (by decide) rfl) (.cons (memberPacked_name .name hname (by decide))
    (.cons (memberPacked_value .graph_id hgraph rfl (by decide) rfl)
    (.cons (memberPacked_value .size (holdsInt_Q hsize) rfl (by decide) rfl)
    (.cons (memberPacked_value .column hcolumn rfl (by decide) rfl)
    (.cons (memberPacked_value .row hrow rfl (by decide) rfl)
    (.cons (memberPacked_value .num_inputs hinputs rfl (by decide) rfl)
    (.cons (memberPacked_value .num_outputs houtputs rfl (by decide) rfl)
    (.cons (memberPacked_value .initialized hinit rfl (by decide) rfl)
    (.cons (memberPacked_array .address haddrQ (by decide) rfl)
    (.cons (memberPacked_array .producer_lock_ids hproducers (by decide) rfl)
    (.cons (memberPacked_array .consumer_lock_ids hconsumers (by decide) rfl) .nil)))))))))))
      : List.Forall₂ (fun entry chunk => MemberPacked entry.1 entry.2 chunk) b.members _)
  simpa [SharedBufferRecord.toJson, SharedBufferRecord.members, SharedBufferRecord.headBytes,
    SharedBufferRecord.vectorBytes] using hpack

theorem reads_loadVectors {target : Target} (haddr : target = .apu ∨ b.address = []) :
    Reads (b.loadVectors target) b.vectorBytes
      (b.config target (b.address.map fun v => .ofInt (8 * target.sizeT) v.int)
        (b.producerLockIds.map fun v => .ofInt 32 v.int) (b.consumerLockIds.map fun v => .ofInt 32 v.int)) := by
  simp only [SharedBufferRecord.wellFormed, holdsInts, Bool.and_eq_true, decide_eq_true_eq] at h
  obtain ⟨⟨⟨-, haddrs⟩, hproducers⟩, hconsumers⟩ := h
  have haddrItems : ∀ v ∈ b.address, Reads (unpackValue target.sizeT) (scalarBytes .Q v)
    (.ofInt (8 * target.sizeT) v.int) := by
    intro v hv
    rcases haddr with rfl | hnil
    · exact reads_item rfl
    · exact absurd hv (by simp [hnil])
  have hlockItems (locks : List Json) :
      ∀ v ∈ locks, Reads (unpackValue 4) (scalarBytes .i v) (.ofInt (8 * 4) v.int) := fun v _ => reads_item rfl
  apply Runs.reads
  apply runs_array_bind haddrItems haddrs.2
  apply runs_array_bind (hlockItems _) hproducers.2
  rw [← List.append_nil (arrayBytes .i b.consumerLockIds)]
  apply runs_array_bind (hlockItems _) hconsumers.2
  exact (Reads.pure _).runs

/-- What is read from a shared buffer has its fields if its name is ASCII. -/
theorem sharedBufferMatches_config {target : Target} (hascii : b.name.all isAscii = true) :
    SharedBufferMatches b (b.config target (b.address.map fun v => .ofInt (8 * target.sizeT) v.int)
      (b.producerLockIds.map fun v => .ofInt 32 v.int) (b.consumerLockIds.map fun v => .ofInt 32 v.int)) := by
  simp only [SharedBufferRecord.wellFormed, holdsInts, Bool.and_eq_true, decide_eq_true_eq, List.all_eq_true] at h
  obtain ⟨⟨⟨⟨⟨⟨⟨⟨⟨⟨⟨hid, -⟩, hgraph⟩, hsize⟩, hcolumn⟩, hrow⟩, hinputs⟩, houtputs⟩, hinit⟩, haddr⟩, hproducers⟩,
    hconsumers⟩ := h
  have hwidth : 2 ^ 32 ≤ 2 ^ (8 * target.sizeT) := by cases target <;> decide
  have haddrs : (b.address.map fun v => BitVec.ofInt (8 * target.sizeT) v.int).map (fun a => (a.toNat : ℤ)) =
      b.address.map Json.int := by
    rw [List.map_map]
    apply List.map_congr_left
    intro v hv
    obtain ⟨hlow, hhigh⟩ := bounds_of_holdsInt (haddr.1 v hv) rfl
    exact toNat_unsigned hlow (by zify at hwidth; omega)
  have hlocks {locks : List Json} (hlocks : ∀ v ∈ locks, Code.i.holdsInt v = true) :
      (locks.map fun v => BitVec.ofInt 32 v.int).map BitVec.toInt = locks.map Json.int := by
    rw [List.map_map]
    exact List.map_congr_left fun v hv => toInt_of_i (hlocks v hv)
  exact
    { id := toInt_of_h hid
      name := by rw [SharedBufferRecord.config, nameBytes_ascii hascii, encodeUtf8_ascii hascii]
      graphId := toInt_of_i hgraph
      numBytes := by
        have hsmall := (bounds_of_holdsInt hsize rfl).2
        have hvalue := toNat_holdsInt (holdsInt_Q hsize) rfl
        rw [SharedBufferRecord.config, BitVec.toNat_setWidth, Nat.mod_eq_of_lt (by omega), hvalue]
      column := toInt_of_h hcolumn
      row := toInt_of_h hrow
      numInputs := toInt_of_h hinputs
      numOutputs := toInt_of_h houtputs
      initialized := flag_of_toNat (toNat_holdsInt hinit rfl)
      addr := haddrs
      producerLocks := hlocks hproducers.1
      consumerLocks := hlocks hconsumers.1 }

end Reading

section Shifted

def wordAt (mem : ℤ → UInt8) (cursor : ℤ) : BitVec 32 := BitVec.ofNat 32 (leNat (load mem (fun i => cursor + i) 4))

theorem unpackUInt32_wordAt (mem : ℤ → UInt8) (cursor : ℤ) :
    unpackUInt32 mem cursor = .ok (wordAt mem cursor, cursor + 4) := rfl

theorem wordAt_of_holds {n : ℤ} (h : Holds mem cursor (intBytes 4 n)) :
    wordAt mem cursor = BitVec.ofInt 32 n := by
  have hread : unpackUInt32 mem cursor = .ok (BitVec.ofInt 32 n, _) := reads_unpackValue 4 n mem cursor h
  rw [unpackUInt32_wordAt] at hread
  exact congrArg Prod.fst (Except.ok.inj hread)

theorem times_wordAt (mem : ℤ → UInt8) (cursor : ℤ) (n : ℕ) :
    Reader.times (unpackValue 4) n mem cursor =
      (.ok ((List.range n).map fun k : ℕ => wordAt mem (cursor + 4 * k), cursor + 4 * n) : Except Failure _) := by
  induction n generalizing cursor with
  | zero => simp [Reader.times, Pure.pure]
  | succ n ih =>
    have hcell (k : ℕ) : cursor + 4 + 4 * k = cursor + 4 * (k + 1 : ℕ) := by push_cast; ring
    have hfirst : unpackValue 4 mem cursor = .ok (wordAt mem cursor, cursor + 4) := rfl
    rw [Reader.times, bind_of_ok _ hfirst, bind_of_ok _ (ih (cursor + 4)), List.range_succ_eq_map, List.map_cons,
      List.map_map]
    simp only [hcell]
    simp [Pure.pure, Function.comp_def]

/-- The vector of words at a cursor, behind its length. -/
def vectorAt (mem : ℤ → UInt8) (cursor : ℤ) : List (BitVec 32) :=
  (List.range (wordAt mem cursor).toNat).map fun k : ℕ => wordAt mem (cursor + 4 + 4 * k)

/-- The cursor behind the vector at a cursor. -/
def behindVector (mem : ℤ → UInt8) (cursor : ℤ) : ℤ := cursor + 4 + 4 * (wordAt mem cursor).toNat

theorem unpackVector_bind_ok {A : Type} {f : List (BitVec 32) → Unpack A} {result : A × ℤ}
    (h : (unpackUInt32 >>= fun length => unpackVector 4 length >>= f) mem cursor = .ok result) :
    f (vectorAt mem cursor) mem (behindVector mem cursor) = .ok result := by
  rw [bind_of_ok _ (unpackUInt32_wordAt mem cursor)] at h
  obtain ⟨words, next, hwords, h⟩ := exists_of_bind_ok h
  unfold unpackVector at hwords
  split at hwords
  · exact absurd hwords (by simp [Reader.fail])
  · rw [times_wordAt] at hwords
    obtain ⟨rfl, rfl⟩ := Prod.mk.inj (Except.ok.inj hwords)
    exact h

theorem vectorAt_of_zero (h : wordAt mem cursor = 0) :
    vectorAt mem cursor = [] ∧ behindVector mem cursor = cursor + 4 := by
  simp [vectorAt, behindVector, h]

theorem shifted_words {word entry : ℕ → ℤ} {n : ℕ} (heven : ∀ j < n, word (2 * j) = entry j)
    (hodd : ∀ j < n, word (2 * j + 1) = 0) (hsame : ∀ k < n, word k = entry k) {k : ℕ}
    (hpos : 1 ≤ k) (hk : k < 2 * n) :
    word k = 0 := by
  induction k using Nat.strong_induction_on with
  | _ k ih =>
    obtain ⟨j, rfl | rfl⟩ := Nat.even_or_odd' k
    · rw [heven j (by omega), ← hsame j (by omega)]
      exact ih j (by omega) (by omega) (by omega)
    · exact hodd j (by omega)

theorem scalarBytes_Q (h : Code.I.holdsInt v = true) :
    scalarBytes .Q v = intBytes 4 v.int ++ intBytes 4 0 := by
  obtain ⟨hlow, hhigh⟩ := bounds_of_holdsInt h rfl
  have hwide : scalarBytes .Q v = leBytes (4 + 4) (v.int % 256 ^ 8).toNat := rfl
  have hnarrow : (v.int % 256 ^ 8).toNat = (v.int % 256 ^ 4).toNat := by omega
  have hhigh : (v.int % 256 ^ 4).toNat / 256 ^ 4 = 0 := by omega
  rw [hwide, hnarrow, leBytes_add, hhigh]
  rfl

theorem arrayBytes_length {width : ℕ} {low high : ℤ} (hrange : code.range = some (width, low, high))
    (items : List Json) : (arrayBytes code items).length = 4 + width * items.length := by
  have hitem (v : Json) : (scalarBytes code v).length = width := by simp [scalarBytes, hrange]
  simp [arrayBytes, List.length_flatten, Function.comp_def, hitem, Nat.mul_comm]

theorem wordAt_addresses {addresses : List Json} (h : ∀ v ∈ addresses, Code.I.holdsInt v = true)
    (hmem : Holds mem cursor (addresses.map (scalarBytes .Q)).flatten) {j : ℕ} (hj : addresses[j]? = some v) :
    wordAt mem (cursor + 4 * (2 * j : ℕ)) = BitVec.ofInt 32 v.int ∧
    wordAt mem (cursor + 4 * (2 * j + 1 : ℕ)) = 0 := by
  have hwidth : ∀ chunk ∈ addresses.map (scalarBytes .Q), chunk.length = 8 := by
    simp [scalarBytes, Code.range]
  have hchunk : Holds mem (cursor + 8 * j) (scalarBytes .Q v) := holds_chunk hwidth hmem (by simp [hj])
  rw [scalarBytes_Q (h v (List.mem_of_getElem? hj)), holds_append, intBytes_length] at hchunk
  have hlow : cursor + 4 * (2 * j : ℕ) = cursor + 8 * j := by push_cast; ring
  have hhigh : cursor + 4 * (2 * j + 1 : ℕ) = cursor + 8 * j + (4 : ℕ) := by push_cast; ring
  rw [hlow, hhigh]
  exact ⟨wordAt_of_holds hchunk.1, wordAt_of_holds hchunk.2⟩

theorem wordAt_eq_zero {addresses : List Json} (h : ∀ v ∈ addresses, Code.I.holdsInt v = true)
    (hmem : Holds mem cursor (addresses.map (scalarBytes .Q)).flatten)
    (hsame : (List.range addresses.length).map (fun k : ℕ => ((wordAt mem (cursor + 4 * k)).toNat : ℤ)) =
      addresses.map Json.int) {k : ℕ} (hpos : 1 ≤ k) (hk : k < 2 * addresses.length) :
    wordAt mem (cursor + 4 * k) = 0 := by
  have hentry (j : ℕ) (hj : j < addresses.length) : ∃ v, addresses[j]? = some v ∧ Code.I.holdsInt v = true :=
    ⟨addresses[j], List.getElem?_eq_getElem hj, h _ (List.getElem_mem hj)⟩
  have hzero := @shifted_words (fun k => ((wordAt mem (cursor + 4 * k)).toNat : ℤ))
    (fun j => ((addresses[j]?).map Json.int).getD 0) addresses.length
    (fun j hj => by
      obtain ⟨v, hv, hint⟩ := hentry j hj
      simp only [(wordAt_addresses h hmem hv).1, hv, Option.map_some, Option.getD_some]
      exact toNat_holdsInt hint rfl)
    (fun j hj => by
      obtain ⟨v, hv, -⟩ := hentry j hj
      simp only [(wordAt_addresses h hmem hv).2]
      rfl)
    (fun j hj => by
      have hget := congrArg (fun l : List ℤ => l[j]?) hsame
      simp only [List.getElem?_map, List.getElem?_range hj, Option.map_some] at hget
      rw [← hget, Option.getD_some])
    k hpos hk
  exact BitVec.eq_of_toNat_eq (by simpa using hzero)

/-- On the RPU a shared buffer with addresses is never read back. -/
theorem address_eq_nil_of_matches (h : b.wellFormed = true)
    (hmem : Holds mem cursor b.vectorBytes) {config : SharedBufferConfig .rpu}
    (hload : b.loadVectors .rpu mem cursor = .ok (config, cursor + b.vectorBytes.length))
    (hmatches : SharedBufferMatches b config) : b.address = [] := by
  simp only [SharedBufferRecord.wellFormed, holdsInts, Bool.and_eq_true, decide_eq_true_eq, List.all_eq_true] at h
  obtain ⟨⟨⟨-, haddrs, hcount⟩, -⟩, -⟩ := h
  have hread := unpackVector_bind_ok (unpackVector_bind_ok (unpackVector_bind_ok hload))
  obtain ⟨rfl, hstop⟩ := Prod.mk.inj (Except.ok.inj hread)
  -- Where the lengths and the addresses stand.
  have hwidth : b.vectorBytes.length = 4 + 8 * b.address.length + (4 + 4 * b.producerLockIds.length +
      (4 + 4 * b.consumerLockIds.length)) := by
    rw [SharedBufferRecord.vectorBytes, List.length_append, List.length_append, arrayBytes_length rfl,
      arrayBytes_length rfl, arrayBytes_length rfl]
  rw [SharedBufferRecord.vectorBytes, holds_append] at hmem
  obtain ⟨haddrMem, hlockMem⟩ := hmem
  obtain ⟨hlenMem, haddrMem⟩ := holds_append.mp haddrMem
  have hlocks := wordAt_of_holds (holds_append.mp (holds_append.mp hlockMem).1).1
  rw [arrayBytes_length rfl] at hlocks
  have hlength : (wordAt mem cursor).toNat = b.address.length := by
    rw [wordAt_of_holds hlenMem, toNat_length hcount]
  have hsame : (List.range b.address.length).map (fun k : ℕ => ((wordAt mem (cursor + 4 + 4 * k)).toNat : ℤ)) =
      b.address.map Json.int := by
    have haddr : (vectorAt mem cursor).map (fun word => (word.toNat : ℤ)) = b.address.map Json.int := hmatches.addr
    rwa [vectorAt, hlength, List.map_map] at haddr
  have hzero {k : ℕ} (hpos : 1 ≤ k) (hk : k < 2 * b.address.length) : wordAt mem (cursor + 4 + 4 * k) = 0 :=
    wordAt_eq_zero haddrs haddrMem hsame hpos hk
  by_contra hne
  have hpos : 0 < b.address.length := List.length_pos_iff.mpr hne
  have hbehind : behindVector mem cursor = cursor + 4 + 4 * b.address.length := by rw [behindVector, hlength]
  -- The length of the producer locks is read in the middle of the addresses.
  obtain ⟨hproducers, hnext⟩ :=
    vectorAt_of_zero (hbehind ▸ hzero hpos (by omega) : wordAt mem (behindVector mem cursor) = 0)
  have hnone : b.producerLockIds = [] := by
    have hlist := hmatches.producerLocks
    simpa [SharedBufferRecord.config, hproducers, eq_comm] using hlist
  -- The length of the consumer locks follows; with one address it is the real length of the producer locks.
  have hconsumerWord : wordAt mem (behindVector mem (behindVector mem cursor)) = 0 := by
    have hplace : behindVector mem (behindVector mem cursor) = cursor + 4 + 4 * (b.address.length + 1 : ℕ) := by
      rw [hnext, hbehind]
      push_cast
      ring
    rw [hplace]
    by_cases hone : b.address.length = 1
    · rw [hone, hnone] at hlocks
      rw [hone, add_assoc]
      exact hlocks
    · exact hzero (by omega) (by omega)
  have hlast := (vectorAt_of_zero hconsumerWord).2
  omega

end Shifted

section Names

theorem isAscii_of_utf8Size {c : Char} (h : c.utf8Size = 1) : isAscii c = true := by
  rw [Char.utf8Size] at h
  split at h
  case isTrue hle => exact decide_eq_true (Nat.lt_succ_of_le (UInt32.le_iff_toNat_le.mp hle))
  case isFalse =>
    split at h
    · exact absurd h (by decide)
    · split at h <;> exact absurd h (by decide)

theorem isAscii_of_nameBytes {s : List Char} (h : nameBytes s = encodeUtf8 s) : s.all isAscii = true := by
  have hlength : (encodeUtf8 s).length = s.length := by rw [← h, nameBytes_length]
  clear h
  induction s with
  | nil => rfl
  | cons c rest ih =>
    have hchar := utf8EncodeChar_length_pos c
    have hrest := length_le_encodeUtf8 rest
    have hsplit : (encodeUtf8 (c :: rest)).length = (String.utf8EncodeChar c).length + (encodeUtf8 rest).length :=
      List.length_append
    rw [List.length_cons] at hlength
    have hone : c.utf8Size = 1 := by rw [← String.length_utf8EncodeChar]; omega
    rw [List.all_cons, isAscii_of_utf8Size hone, Bool.true_and]
    exact ih (by omega)

end Names

section Section

variable {target : Target} {buffers : List SharedBufferRecord}

theorem name_length_of_wellFormed (h : b.wellFormed = true) : b.name.length ≤ nameMaxLen := by
  simp only [SharedBufferRecord.wellFormed, Bool.and_eq_true, decide_eq_true_eq] at h
  exact h.1.1.1.1.1.1.1.1.1.1.2

theorem sharedBuffer_readBack (h : b.wellFormed = true) (hascii : b.name.all isAscii = true)
    (haddr : target = .apu ∨ b.address = []) :
    ReadBack (packSharedBufferConfig b.toJson) (loadSharedBuffer target) (SharedBufferMatches b) := by
  have hname := name_length_of_wellFormed h
  refine ⟨b.headBytes ++ b.vectorBytes, ?_, packSharedBufferConfig_toJson h, _,
    (leads_loadSharedBuffer hname target).reads (reads_loadVectors h haddr), sharedBufferMatches_config h hascii⟩
  exact List.append_ne_nil_of_left_ne_nil (List.append_ne_nil_of_left_ne_nil (intBytes_ne_nil _ _) _) _

theorem loadVectors_name {stop : ℤ} {config : SharedBufferConfig target}
    (h : b.loadVectors target mem cursor = .ok (config, stop)) : config.name = some (nameBytes b.name) := by
  obtain ⟨_, _, -, h⟩ := exists_of_bind_ok h
  obtain ⟨addr, _, -, h⟩ := exists_of_bind_ok h
  obtain ⟨_, _, -, h⟩ := exists_of_bind_ok h
  obtain ⟨producers, _, -, h⟩ := exists_of_bind_ok h
  obtain ⟨_, _, -, h⟩ := exists_of_bind_ok h
  obtain ⟨consumers, _, -, h⟩ := exists_of_bind_ok h
  obtain ⟨rfl, -⟩ := Prod.mk.inj (Except.ok.inj h)
  rfl

theorem loadNamed_ok {A : Type} {load : Unpack A} {nameOf : A → StringView} {next : ℤ}
    {entry : List UInt8 × A} (h : loadNamed load nameOf mem cursor = .ok (entry, next)) :
    load mem cursor = .ok (entry.2, next) := by
  obtain ⟨config, c1, hload, h⟩ := exists_of_bind_ok h
  obtain ⟨name, c2, hhash, h⟩ := exists_of_bind_ok h
  obtain ⟨rfl, rfl⟩ := Prod.mk.inj (Except.ok.inj h)
  cases hname : nameOf config with
  | none =>
    rw [hname] at hhash
    exact absurd hhash (by simp [hashView, Reader.fail])
  | some bytes =>
    rw [hname] at hhash
    obtain ⟨-, rfl⟩ := Prod.mk.inj (Except.ok.inj hhash)
    exact hload

/-- A loop that reads the buffers with their fields has met ASCII names only, and no addresses on the RPU. -/
theorem conditions_of_loadRecords {chunks : List (List UInt8)}
    {entries : List (List UInt8 × SharedBufferConfig target)} {stop : ℤ} {size : BitVec 32} {fuel : ℕ}
    (hbuffers : ∀ b ∈ buffers, b.wellFormed = true)
    (hchunks : List.Forall₂ (fun b chunk => packSharedBufferConfig (SharedBufferRecord.toJson b) =
      some chunk) buffers chunks)
    (hmem : Holds mem cursor chunks.flatten)
    (hload : loadRecords (loadNamedSharedBuffer target) size fuel mem cursor =
      .ok (entries.zip (boundaries cursor chunks), stop))
    (hmatches : List.Forall₂ (fun b entry => entry.1 = encodeUtf8 b.name ∧ SharedBufferMatches b entry.2) buffers
      entries) :
    ∀ b ∈ buffers, b.name.all isAscii = true ∧ (target = .apu ∨ b.address = []) := by
  induction hchunks generalizing cursor entries fuel with
  | nil => simp
  | @cons b chunk buffers chunks hchunk _ ih =>
    obtain ⟨entry, entries, ⟨-, hfields⟩, hrest, rfl⟩ := List.forall₂_cons_left_iff.mp hmatches
    have hwf := hbuffers b List.mem_cons_self
    obtain rfl : b.headBytes ++ b.vectorBytes = chunk :=
      Option.some.inj ((packSharedBufferConfig_toJson hwf).symm.trans hchunk)
    obtain ⟨hfront, hback⟩ := holds_append.mp hmem
    obtain ⟨rest, next, hmarked, hload⟩ := readWhile_cons_ok hload
    obtain ⟨first, c, hfirst, hposition⟩ := exists_of_bind_ok hmarked
    obtain ⟨⟨rfl, hend⟩, rfl⟩ : (first = entry ∧ c = cursor + ((b.headBytes ++ b.vectorBytes).length : ℕ)) ∧
      c = next := by
      simpa [position, Bind.bind, Pure.pure] using hposition
    have hvectors := loadNamed_ok hfirst
    rw [leads_loadSharedBuffer (name_length_of_wellFormed hwf) target mem cursor (holds_append.mp hfront).1, hend,
      List.length_append, Nat.cast_add, ← add_assoc] at hvectors
    rw [hend] at hload
    rw [List.forall_mem_cons]
    refine ⟨⟨?_, ?_⟩, ih (fun b hb => hbuffers b (List.mem_cons_of_mem _ hb)) hback hload hrest⟩
    · exact isAscii_of_nameBytes (Option.some.inj ((loadVectors_name hvectors).symm.trans hfields.name))
    · cases target with
      | apu => exact .inl rfl
      | rpu => exact .inr (address_eq_nil_of_matches hwf (holds_append.mp hfront).2 hvectors hfields)

/-- Shared buffers are read back from their section, buffer by buffer with all fields, exactly when their names
are ASCII and, on the RPU, none has an address. -/
theorem sharedBuffers_readBack_iff (target : Target) (hbuffers : ∀ b ∈ buffers, b.wellFormed = true)
    (hsize : ∀ bytes, parseSharedBuffersConfig (.array (buffers.map SharedBufferRecord.toJson)) = some bytes →
      bytes.length < 2 ^ 32) :
    SharedBuffersReadBack target buffers ↔
      (∀ b ∈ buffers, b.name.all isAscii = true) ∧ (target = .apu ∨ ∀ b ∈ buffers, b.address = []) := by
  constructor
  · rintro ⟨chunks, hchunks, -, hload⟩
    obtain ⟨entries, hrecords, -, hmatches⟩ := hload (fun _ => 0) _ (Nat.lt_succ_self _)
    have h := conditions_of_loadRecords hbuffers hchunks (holds_sectionMemory _ _) hrecords hmatches
    refine ⟨fun b hb => (h b hb).1, ?_⟩
    cases target with
    | apu => exact .inl rfl
    | rpu => exact .inr fun b hb => (h b hb).2.resolve_left (by decide)
  · rintro ⟨hascii, haddr⟩
    have haddr' (b : SharedBufferRecord) (hb : b ∈ buffers) : target = .apu ∨ b.address = [] :=
      haddr.imp_right fun h => h b hb
    obtain ⟨chunks, entries, hchunks, hne, hreads, hmatches⟩ := chunks_of_readBack fun b hb =>
      (sharedBuffer_readBack (hbuffers b hb) (hascii b hb) (haddr' b hb)).named fun _ h => h.name
    have hjoined := joined_of_forall₂ hchunks
    have hlength : chunks.length = buffers.length := hchunks.length_eq.symm
    refine ⟨chunks, hchunks, hjoined, fun outside fuel hfuel => ⟨entries, ?_, ?_, hmatches⟩⟩
    · have hfrom := (readsFrom_of_forall₂ hreads (holds_sectionMemory outside chunks.flatten)).marked
      exact readWhile_section hfrom hne (hsize _ hjoined) (hlength ▸ hfuel)
    · have hfrom := readsFrom_of_forall₂ hreads (holds_sectionMemory outside chunks.flatten)
      exact bind_of_ok _ (readWhile_section hfrom hne (hsize _ hjoined) (hlength ▸ hfuel))

end Section

def sampleSharedBuffer (address : List Json) : SharedBufferRecord where
  id := .number 1
  name := ['s', 'b']
  graphId := .number 0
  size := .number 4096
  column := .number 2
  row := .number 1
  numInputs := .number 1
  numOutputs := .number 1
  initialized := .boolean false
  address := address
  producerLockIds := [.number 3]
  consumerLockIds := [.number 4]

theorem sampleSharedBuffer_size {address : List Json}
    (hsmall : (parseSharedBuffersConfig (.array [(sampleSharedBuffer address).toJson])).all
      (fun bytes => bytes.length < 2 ^ 32) = true) :
    ∀ bytes, parseSharedBuffersConfig (.array ([sampleSharedBuffer address].map SharedBufferRecord.toJson)) =
      some bytes →
      bytes.length < 2 ^ 32 := by
  intro bytes hbytes
  rw [List.map_singleton] at hbytes
  rw [hbytes] at hsmall
  simpa using hsmall

/-- A buffer with an address is read back on the APU. -/
theorem sharedBuffers_readBack_sample : SharedBuffersReadBack .apu [sampleSharedBuffer [.number 0x8000]] :=
  (sharedBuffers_readBack_iff .apu (by simp only [List.forall_mem_singleton]; decide)
    (sampleSharedBuffer_size (by decide))).mpr ⟨by simp only [List.forall_mem_singleton]; decide, .inl rfl⟩

/-- A buffer with an address is not read back on the RPU. -/
theorem address_not_readBack_rpu :
    (sampleSharedBuffer [.number 0x8000]).wellFormed = true ∧
      ¬SharedBuffersReadBack .rpu [sampleSharedBuffer [.number 0x8000]] := by
  have hwf : (sampleSharedBuffer [.number 0x8000]).wellFormed = true := by decide
  refine ⟨hwf, ?_⟩
  rintro ⟨chunks, hchunks, -, hload⟩
  obtain ⟨entries, hrecords, -, hmatches⟩ := hload (fun _ => 0) _ (Nat.lt_succ_self _)
  have h := conditions_of_loadRecords (by simpa using hwf) hchunks (holds_sectionMemory _ _) hrecords hmatches
  have hnone := (h _ List.mem_cons_self).2.resolve_left (by decide)
  exact absurd hnone (List.cons_ne_nil _ _)

end AieBaremetal.Metadata
