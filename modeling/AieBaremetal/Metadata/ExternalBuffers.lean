import AieBaremetal.Metadata.Buffers
import AieBaremetal.Metadata.RoundTrip
import AieBaremetal.Metadata.Graphs
import Mathlib.Data.List.Nodup

/-!
# The section of the external buffers is read back

Buffers, ports and descriptors are three levels of one pattern: the children of a level are packed one
after the other behind their number, and the parser counts them down. Each level is read back when the
level below is. A name is cut to as many bytes as it has characters, which changes a name unless it is
ASCII. Nothing is said about the name of a port that is not.
-/

namespace AieBaremetal.Metadata

open Common Common.Reader

inductive Direction where
  | mm2s | s2mm
  deriving DecidableEq, Repr

def Direction.toJson : Direction → Json
  | mm2s => .text "mm2s".toList
  | s2mm => .text "s2mm".toList

def Direction.toInt : Direction → ℤ
  | mm2s => 1
  | s2mm => 0

/-- A port whose members are in the order of `SHIMPORTCONFIGLIST`. -/
structure PortRecord where
  portId : Json
  portName : List Char
  direction : Direction
  shimColumn : Json
  channelNumber : Json
  taskRepetition : Json
  enableTaskCompleteToken : Json
  shimBDInfos : List Members

def PortRecord.members (p : PortRecord) : Members :=
  [(.portId, p.portId), (.portName, .text p.portName), (.direction, p.direction.toJson),
    (.shim_column, p.shimColumn), (.channel_number, p.channelNumber), (.task_repetition, p.taskRepetition),
    (.enable_task_complete_token, p.enableTaskCompleteToken), (.shimBDInfos, .array (p.shimBDInfos.map .object))]

def PortRecord.toJson (p : PortRecord) : Json := .object p.members

/-- An external buffer whose members are in the order of `EXTERNALBUFFERCONFIGLIST`. -/
structure ExternalBufferRecord where
  id : Json
  name : List Char
  shimPortConfigs : List PortRecord

def ExternalBufferRecord.members (b : ExternalBufferRecord) : Members :=
  [(.id, b.id), (.name, .text b.name), (.shimPortConfigs, .array (b.shimPortConfigs.map PortRecord.toJson))]

def ExternalBufferRecord.toJson (b : ExternalBufferRecord) : Json := .object b.members

/-- Whether a dictionary has a number in the range of the code. -/
def holdsMember (members : Members) (code : Code) (key : Key) : Bool := (members.lookup key).any code.holdsInt

/-- A descriptor with numbers in range, in any order. -/
def bdWellFormed (bd : Members) : Bool :=
  holdsMember bd .I .bd_id && holdsMember bd .I .buf_idx && holdsMember bd .I .offset &&
    holdsMember bd .Q .transaction_size

/-- A port with numbers in range, a short name and well-formed descriptors. -/
def PortRecord.wellFormed (p : PortRecord) : Bool :=
  Code.i.holdsInt p.portId && p.portName.length ≤ nameMaxLen && Code.h.holdsInt p.shimColumn &&
    Code.h.holdsInt p.channelNumber && Code.i.holdsInt p.taskRepetition &&
    Code.B.holdsInt p.enableTaskCompleteToken && p.shimBDInfos.length < 2 ^ 31 && p.shimBDInfos.all bdWellFormed

def ExternalBufferRecord.wellFormed (b : ExternalBufferRecord) : Bool :=
  Code.h.holdsInt b.id && isName b.name && b.shimPortConfigs.length < 2 ^ 31 &&
    b.shimPortConfigs.all PortRecord.wellFormed

/-- What is read has the fields of a descriptor. -/
structure BdMatches (bd : Members) (info : ShimBDInfo) : Prop where
  bdId : (info.bdId.toNat : ℤ) = memberInt bd .bd_id
  bufIdx : (info.bufIdx.toNat : ℤ) = memberInt bd .buf_idx
  offset : (info.offset.toNat : ℤ) = memberInt bd .offset
  transactionSize : (info.transactionSize.toNat : ℤ) = memberInt bd .transaction_size

/-- A configuration has the fields of a port, its name included if that is ASCII. -/
structure PortMatches (p : PortRecord) (config : ShimPortConfig) : Prop where
  portId : config.portId.toInt = p.portId.int
  portName : p.portName.all isAscii = true → config.portName = some (asciiBytes p.portName)
  direction : config.S2MMOrMM2S.toInt = p.direction.toInt
  column : config.column.toInt = p.shimColumn.int
  channel : config.channel.toInt = p.channelNumber.int
  taskRepetition : config.taskRepetition.toInt = p.taskRepetition.int
  enableTaskCompleteToken : config.enableTaskCompleteToken = (p.enableTaskCompleteToken.int != 0)
  shimBDInfos : List.Forall₂ BdMatches p.shimBDInfos config.shimBDInfos

structure ExternalBufferMatches (b : ExternalBufferRecord) (config : ExternalBufferConfig) : Prop where
  id : config.id.toInt = b.id.int
  name : config.name = some (asciiBytes b.name)
  shimPortConfigs : List.Forall₂ PortMatches b.shimPortConfigs config.shimPortConfigs

/-- The section is packed, the parser stops at its end, and its map has exactly the buffers of the metadata. -/
def ExternalBuffersReadBack (buffers : List ExternalBufferRecord) : Prop :=
  ∃ bytes, parseExternalbuffersConfig (.array (buffers.map ExternalBufferRecord.toJson)) = some bytes ∧
    ∀ outside fuel, buffers.length < fuel → ∃ map,
      loadAllExternalBuffers (BitVec.ofNat 32 bytes.length) fuel (sectionMemory outside bytes) 0 =
        .ok (map, bytes.length) ∧
      (∀ b ∈ buffers, ∃ config, map (asciiBytes b.name) = some config ∧ ExternalBufferMatches b config) ∧
      ∀ name, (map name).isSome = true → ∃ b ∈ buffers, asciiBytes b.name = name

section Members

variable {code : Code} {v : Json} {width : ℕ} {low high : ℤ}

theorem structPack_value (h : code.holdsInt v = true) (hrange : code.range = some (width, low, high)) :
    structPack [.value code v] = some (intBytes width v.int) := by
  rw [structPack_cons_of_some _ (packItem_of_holdsInt h), scalarBytes, hrange]
  simp [structPack, Json.int]

theorem toInt_of_i (h : Code.i.holdsInt v = true) : (BitVec.ofInt 32 v.int).toInt = v.int := by
  obtain ⟨hlow, hhigh⟩ := bounds_of_holdsInt h rfl
  exact BitVec.toInt_ofInt_eq_self (by decide) hlow (Int.lt_of_le_sub_one hhigh)

theorem toInt_of_h (h : Code.h.holdsInt v = true) : (BitVec.ofInt 16 v.int).toInt = v.int := by
  obtain ⟨hlow, hhigh⟩ := bounds_of_holdsInt h rfl
  exact BitVec.toInt_ofInt_eq_self (by decide) hlow (Int.lt_of_le_sub_one hhigh)

theorem toNat_holdsInt {n : ℕ} (h : code.holdsInt v = true) (hrange : code.range = some (width, 0, 2 ^ n - 1)) :
    ((BitVec.ofInt n v.int).toNat : ℤ) = v.int := by
  obtain ⟨hlow, hhigh⟩ := bounds_of_holdsInt h hrange
  exact toNat_unsigned hlow (Int.lt_of_le_sub_one hhigh)

theorem readBack_i (h : Code.i.holdsInt v = true) :
    ReadBack (structPack [.value .i v]) unpackUInt32 (·.toInt = v.int) :=
  readBack_int 3 (structPack_value h rfl) (toInt_of_i h)

theorem readBack_h (h : Code.h.holdsInt v = true) :
    ReadBack (structPack [.value .h v]) unpackShort (·.toInt = v.int) :=
  readBack_int 1 (structPack_value h rfl) (toInt_of_h h)

theorem readBack_flag (h : Code.B.holdsInt v = true) :
    ReadBack (structPack [.value .B v]) unpackBool (· = (v.int != 0)) :=
  ⟨_, intBytes_ne_nil 0 _, structPack_value h rfl, _, (reads_unpackValue 1 _).map,
    flag_of_toNat (toNat_holdsInt h rfl)⟩

theorem exists_of_holdsMember {members : Members} {key : Key} (h : holdsMember members code key = true) :
    ∃ v, members.lookup key = some v ∧ code.holdsInt v = true ∧ memberInt members key = v.int := by
  rw [holdsMember, Option.any_eq_true] at h
  obtain ⟨v, hv, hint⟩ := h
  exact ⟨v, hv, hint, by rw [memberInt, member, hv, Option.getD_some]⟩

end Members

section Names

/-- A name is cut to as many bytes as it has characters. -/
def nameBytes (s : List Char) : List UInt8 := (encodeUtf8 s).take s.length

theorem utf8EncodeChar_length_pos (c : Char) : 1 ≤ (String.utf8EncodeChar c).length := by
  rw [String.length_utf8EncodeChar]
  exact Char.utf8Size_pos c

theorem length_le_encodeUtf8 (s : List Char) : s.length ≤ (encodeUtf8 s).length := by
  induction s with
  | nil => exact Nat.le_refl 0
  | cons c rest ih =>
    have hchar := utf8EncodeChar_length_pos c
    simp only [encodeUtf8, List.flatMap_cons, List.length_append, List.length_cons] at ih ⊢
    omega

theorem nameBytes_length (s : List Char) : (nameBytes s).length = s.length := by
  rw [nameBytes, List.length_take, Nat.min_eq_left (length_le_encodeUtf8 s)]

theorem nameBytes_ascii {s : List Char} (h : s.all isAscii = true) : nameBytes s = asciiBytes s := by
  rw [nameBytes, encodeUtf8_ascii h]
  exact List.take_of_length_le (Nat.le_of_eq (List.length_map _))

theorem nameItems_structPack {s : List Char} {code : Code} (hlen : s.length ≤ nameMaxLen)
    (hcode : code = .i ∨ code = .I) :
    (nameItems code (.text s)).bind structPack = some (intBytes 4 (nameBytes s).length ++ nameBytes s) := by
  have hsmall : s.length < 2 ^ 31 := lt_of_le_of_lt hlen (by decide)
  have hitems : nameItems code (.text s) =
    some [.value code (.number s.length), .bytes s.length (encodeUtf8 s)] := by
    simp [nameItems, Json.str, getNameLen, hlen]
  have hlength : packItem (.value code (.number s.length)) = some (intBytes 4 s.length) := by
    rcases hcode with rfl | rfl
    · exact packItem_length hsmall
    · have hbounds : 0 ≤ (s.length : ℤ) ∧ (s.length : ℤ) ≤ 2 ^ 32 - 1 := by omega
      exact if_pos hbounds
  have hbytes : packItem (.bytes s.length (encodeUtf8 s)) = some (nameBytes s) := by
    simp [packItem, nameBytes, Nat.sub_eq_zero_of_le (length_le_encodeUtf8 s)]
  rw [hitems, Option.bind_some, structPack_cons_of_some _ hlength, structPack_cons_of_some _
    hbytes, nameBytes_length]
  simp [structPack]

theorem reads_name {s : List Char} (hlen : s.length ≤ nameMaxLen) :
    Reads unpackString (intBytes 4 (nameBytes s).length ++ nameBytes s) (some (nameBytes s)) :=
  reads_unpackString_bytes (by rw [nameBytes_length]; exact lt_of_le_of_lt hlen (by decide))

theorem readBack_name {s : List Char} {code : Code} (hlen : s.length ≤ nameMaxLen) (hcode : code = .i ∨ code = .I) :
    ReadBack ((nameItems code (.text s)).bind structPack) unpackString (· = some (nameBytes s)) :=
  ⟨_, List.append_ne_nil_of_left_ne_nil (intBytes_ne_nil 3 _) _, nameItems_structPack hlen hcode,
    _, reads_name hlen, rfl⟩

end Names

section Levels

variable {R C : Type} {toJson : R → Json} {pack : Json → Option (List UInt8)} {load : Unpack C}
    {fields : R → C → Prop}

theorem joined_of_forall₂ {rs : List R} {chunks : List (List UInt8)}
    (h : List.Forall₂ (fun r chunk => pack (toJson r) = some chunk) rs chunks) :
    joined pack (rs.map toJson) = some chunks.flatten := by
  induction h with
  | nil => rfl
  | cons hfirst _ ih => simp [joined, hfirst, ih]

theorem structPack_count {n : ℕ} (h : n < 2 ^ 31) :
    structPack [.value .i (.number n)] = some (intBytes 4 n) := by
  rw [structPack_cons_of_some _ (packItem_length h)]
  simp [structPack]

theorem readsTo_counted {rs : List R} {chunks : List (List UInt8)} {configs : List C} {A : Type} {f : List C → A}
    {post : A → Prop} (h : List.Forall₂ (Reads load) chunks configs) (hmatches : List.Forall₂ fields rs configs)
    (hlen : rs.length < 2 ^ 31) (hpost : post (f configs)) :
    ReadsTo (unpackUInt32 >>= fun len => Reader.times load len.toInt.toNat >>= fun children => pure (f children))
      (intBytes 4 rs.length ++ chunks.flatten) post := by
  have hlength : rs.length = chunks.length := hmatches.length_eq.trans h.length_eq.symm
  rw [hlength] at hlen ⊢
  have hcount : Reads unpackUInt32 (intBytes 4 chunks.length) (BitVec.ofInt 32 chunks.length) :=
    reads_unpackValue 4 _
  refine ⟨f configs, hcount.bind ?_, hpost⟩
  rw [toInt_length hlen, Int.toNat_natCast]
  exact (reads_times h).map

end Levels

/-- A well-formed descriptor is read back. -/
theorem bd_readBack {bd : Members} (h : bdWellFormed bd = true) :
    ReadBack (packShimBdInfo (.object bd)) loadShimBDInfo (BdMatches bd) := by
  simp only [bdWellFormed, Bool.and_eq_true] at h
  obtain ⟨⟨⟨hid, hidx⟩, hoffset⟩, hsize⟩ := h
  obtain ⟨bdId, hidFound, hid, hidInt⟩ := exists_of_holdsMember hid
  obtain ⟨bufIdx, hidxFound, hidx, hidxInt⟩ := exists_of_holdsMember hidx
  obtain ⟨offset, hoffsetFound, hoffset, hoffsetInt⟩ := exists_of_holdsMember hoffset
  obtain ⟨size, hsizeFound, hsize, hsizeInt⟩ := exists_of_holdsMember hsize
  have hword {v : Json} (hv : Code.I.holdsInt v = true) :
      ReadsTo unpackUInt32 (scalarBytes .I v) fun x => (x.toNat : ℤ) = v.int :=
        ⟨_, reads_item rfl, toNat_holdsInt hv rfl⟩
  have hlong : ReadsTo unpackUInt64 (scalarBytes .Q size) fun x => (x.toNat : ℤ) = size.int :=
    ⟨_, reads_item rfl, toNat_holdsInt hsize rfl⟩
  refine ⟨scalarBytes .I bdId ++ (scalarBytes .I bufIdx ++ (scalarBytes .I offset ++ (scalarBytes .Q size ++ []))),
    List.append_ne_nil_of_left_ne_nil (intBytes_ne_nil _ _) _, ?_, ?_⟩
  · simp [packShimBdInfo, Json.members, hidFound, hidxFound, hoffsetFound, hsizeFound, structPack,
      packItem_of_holdsInt hid, packItem_of_holdsInt hidx, packItem_of_holdsInt hoffset, packItem_of_holdsInt hsize]
  · refine (hword hid).bind fun _ hid => (hword hidx).bind fun _ hidx => (hword hoffset).bind fun _ hoffset => ?_
    refine hlong.bind fun _ hsize => ?_
    exact .pure ⟨hid.trans hidInt.symm, hidx.trans hidxInt.symm, hoffset.trans hoffsetInt.symm,
      hsize.trans hsizeInt.symm⟩

theorem readBack_direction (direction : Direction) :
    ReadBack (structPack [.value .i (directionValue direction.toJson)]) unpackUInt32
      (·.toInt = direction.toInt) := by
  cases direction with
  | mm2s => exact readBack_i rfl
  | s2mm => exact readBack_i rfl

theorem directionValue_of_holdsInt {code : Code} {v : Json} (h : code.holdsInt v = true) :
    directionValue v = v := by
  obtain ⟨n, rfl⟩ | ⟨b, rfl⟩ := cases_of_holdsInt h
  · rfl
  · rfl

/-- A well-formed port is read back. -/
theorem port_readBack {p : PortRecord} (h : p.wellFormed = true) :
    ReadBack (packShimPortConfig p.toJson) loadShimPort (PortMatches p) := by
  simp only [PortRecord.wellFormed, Bool.and_eq_true, decide_eq_true_eq] at h
  obtain ⟨⟨⟨⟨⟨⟨⟨hid, hname⟩, hcolumn⟩, hchannel⟩, hrepetition⟩, htoken⟩, hcount⟩, hbds⟩ := h
  obtain ⟨chunks, infos, hchunks, -, hreads, hmatches⟩ :=
    chunks_of_readBack fun bd hbd => bd_readBack (List.all_eq_true.mp hbds bd hbd)
  have hvalue {code : Code} {v : Json} {A : Type} {read : Unpack A} {post : A → Prop} (hv : code.holdsInt v = true)
      (hread : ReadBack (structPack [.value code v]) read post) :
      ReadBack (structPack [.value code (directionValue v)]) read post := by rwa [directionValue_of_holdsInt hv]
  obtain ⟨idBytes, hne, hidPack, hidRead⟩ := hvalue hid (readBack_i hid)
  obtain ⟨nameChunk, -, hnamePack, hnameRead⟩ := readBack_name hname (.inl rfl)
  obtain ⟨directionBytes, -, hdirectionPack, hdirectionRead⟩ := readBack_direction p.direction
  obtain ⟨columnBytes, -, hcolumnPack, hcolumnRead⟩ := hvalue hcolumn (readBack_h hcolumn)
  obtain ⟨channelBytes, -, hchannelPack, hchannelRead⟩ := hvalue hchannel (readBack_h hchannel)
  obtain ⟨repetitionBytes, -, hrepetitionPack, hrepetitionRead⟩ := hvalue hrepetition (readBack_i hrepetition)
  obtain ⟨tokenBytes, -, htokenPack, htokenRead⟩ := hvalue htoken (readBack_flag htoken)
  have hitems : (memberItems (shimPortItems p.shimBDInfos.length) p.members).bind structPack = some _ :=
    memberItems_structPack
      (.cons hidPack (.cons hnamePack (.cons hdirectionPack (.cons hcolumnPack (.cons hchannelPack
      (.cons hrepetitionPack (.cons htokenPack (.cons (structPack_count hcount) .nil))))))))
  obtain ⟨items, hmembers, hpack⟩ := Option.bind_eq_some_iff.mp hitems
  refine ⟨idBytes ++
    (nameChunk ++ (directionBytes ++ (columnBytes ++ (channelBytes ++ (repetitionBytes ++ (tokenBytes ++
      (intBytes 4 p.shimBDInfos.length ++ chunks.flatten))))))), List.append_ne_nil_of_left_ne_nil hne _, ?_, ?_⟩
  · have hlookup : p.members.lookup .shimBDInfos = some (.array (p.shimBDInfos.map .object)) := rfl
    simp [packShimPortConfig, PortRecord.toJson, Json.members, hlookup, Json.elements, hmembers, hpack,
      joined_of_forall₂ hchunks]
  · refine hidRead.bind fun _ hid => hnameRead.bind fun _ hname => hdirectionRead.bind fun _ hdirection => ?_
    refine hcolumnRead.bind fun _ hcolumn => hchannelRead.bind fun _ hchannel => ?_
    refine hrepetitionRead.bind fun _ hrepetition => htokenRead.bind fun _ htoken => ?_
    refine readsTo_counted hreads hmatches hcount
      ⟨hid, fun hascii => ?_, hdirection, hcolumn, hchannel, hrepetition, htoken,
      hmatches⟩
    rw [hname, nameBytes_ascii hascii]

/-- A well-formed external buffer is read back. -/
theorem externalBuffer_readBack {b : ExternalBufferRecord} (h : b.wellFormed = true) :
    ReadBack (packExternalBufferConfig b.toJson) loadExternalBuffer (ExternalBufferMatches b) := by
  simp only [ExternalBufferRecord.wellFormed, isName, Bool.and_eq_true, decide_eq_true_eq] at h
  obtain ⟨⟨⟨hid, hascii, hname⟩, hcount⟩, hports⟩ := h
  obtain ⟨chunks, ports, hchunks, -, hreads, hmatches⟩ :=
    chunks_of_readBack fun p hp => port_readBack (List.all_eq_true.mp hports p hp)
  obtain ⟨idBytes, hne, hidPack, hidRead⟩ := readBack_h hid
  obtain ⟨nameChunk, -, hnamePack, hnameRead⟩ := readBack_name hname (.inr rfl)
  have hitems : (memberItems (externalBufferItems b.shimPortConfigs.length) b.members).bind structPack = some _ :=
    memberItems_structPack (.cons hidPack (.cons hnamePack (.cons (structPack_count hcount) .nil)))
  obtain ⟨items, hmembers, hpack⟩ := Option.bind_eq_some_iff.mp hitems
  refine ⟨idBytes ++ (nameChunk ++ (intBytes 4 b.shimPortConfigs.length ++ chunks.flatten)),
    List.append_ne_nil_of_left_ne_nil hne _, ?_, ?_⟩
  · have hlookup : b.members.lookup .shimPortConfigs = some (.array (b.shimPortConfigs.map PortRecord.toJson)) :=
      rfl
    simp [packExternalBufferConfig, ExternalBufferRecord.toJson, Json.members, hlookup, Json.elements,
      hmembers, hpack, joined_of_forall₂ hchunks]
  · refine hidRead.bind fun _ hid => hnameRead.bind fun _ hname => ?_
    exact readsTo_counted hreads hmatches hcount ⟨hid, by rw [hname, nameBytes_ascii hascii], hmatches⟩

theorem ReadBack.named {C : Type} {packed : Option (List UInt8)} {load : Unpack C} {fields : C → Prop}
    {nameOf : C → StringView} {name : List UInt8} (h : ReadBack packed load fields)
    (hname : ∀ config, fields config → nameOf config = some name) :
    ReadBack packed (loadNamed load nameOf) fun entry => entry.1 = name ∧ fields entry.2 := by
  obtain ⟨bytes, hne, hpack, hread⟩ := h
  refine ⟨bytes, hne, hpack, ?_⟩
  rw [← List.append_nil bytes]
  refine hread.bind fun config hfields => ?_
  rw [hname config hfields]
  exact .pure ⟨rfl, hfields⟩

theorem ascii_injective {c d : Char} (hc : isAscii c = true) (hd : isAscii d = true)
    (h : UInt8.ofNat c.toNat = UInt8.ofNat d.toNat) : c = d := by
  have hc : c.toNat < 128 := of_decide_eq_true hc
  have hd : d.toNat < 128 := of_decide_eq_true hd
  have hnat := congrArg UInt8.toNat h
  rw [UInt8.toNat_ofNat', UInt8.toNat_ofNat', Nat.mod_eq_of_lt (by omega), Nat.mod_eq_of_lt (by omega)] at hnat
  exact Char.toNat_inj.mp hnat

theorem asciiBytes_injective {s t : List Char} (hs : s.all isAscii = true) (ht : t.all isAscii = true)
    (h : asciiBytes s = asciiBytes t) : s = t := by
  induction s generalizing t with
  | nil => exact (List.map_eq_nil_iff.mp h.symm).symm
  | cons c rest ih =>
    cases t with
    | nil => exact absurd h (List.cons_ne_nil _ _)
    | cons d others =>
      rw [List.all_cons, Bool.and_eq_true] at hs ht
      obtain ⟨hfirst, hrest⟩ := List.cons.inj h
      rw [ascii_injective hs.1 ht.1 hfirst, ih hs.2 ht.2 hrest]

theorem exists_of_forall₂ {R C : Type} {related : R → C → Prop} {rs : List R} {cs : List C}
    (h : List.Forall₂ related rs cs) : (∀ r ∈ rs, ∃ c ∈ cs, related r c) ∧ ∀ c ∈ cs, ∃ r ∈ rs, related r c := by
  induction h with
  | nil => simp
  | cons hfirst _ ih =>
    constructor
    · exact List.forall_mem_cons.mpr ⟨⟨_, List.mem_cons_self, hfirst⟩, fun r hr =>
        (ih.1 r hr).imp fun c hc => ⟨List.mem_cons_of_mem _ hc.1, hc.2⟩⟩
    · exact List.forall_mem_cons.mpr ⟨⟨_, List.mem_cons_self, hfirst⟩, fun c hc =>
        (ih.2 c hc).imp fun r hr => ⟨List.mem_cons_of_mem _ hr.1, hr.2⟩⟩

/-- External buffers with distinct ASCII names are read back from their section: every buffer, port and descriptor
with all its fields, and nothing behind the section. -/
theorem externalBuffers_readBack {buffers : List ExternalBufferRecord}
    (hbuffers : ∀ b ∈ buffers, b.wellFormed = true) (hnames : (buffers.map ExternalBufferRecord.name).Nodup)
    (hsize : ∀ bytes, parseExternalbuffersConfig (.array (buffers.map ExternalBufferRecord.toJson)) = some bytes →
      bytes.length < 2 ^ 32) :
    ExternalBuffersReadBack buffers := by
  have hascii (b : ExternalBufferRecord) (hb : b ∈ buffers) : b.name.all isAscii = true := by
    have h := hbuffers b hb
    simp only [ExternalBufferRecord.wellFormed, isName, Bool.and_eq_true] at h
    exact h.1.1.2.1
  obtain ⟨chunks, entries, hchunks, hne, hreads, hmatches⟩ := chunks_of_readBack fun b hb =>
    (externalBuffer_readBack (hbuffers b hb)).named fun _ h => h.name
  have hjoined := joined_of_forall₂ hchunks
  obtain ⟨hstored, hsource⟩ := exists_of_forall₂ hmatches
  refine ⟨chunks.flatten, hjoined, fun outside fuel hfuel => ⟨assignAll (fun _ => none) entries, ?_, ?_, ?_⟩⟩
  · have hfrom := readsFrom_of_forall₂ hreads (holds_sectionMemory outside chunks.flatten)
    have hlength : chunks.length = buffers.length := hreads.length_eq.trans hmatches.length_eq.symm
    exact bind_of_ok _ (readWhile_section hfrom hne (hsize _ hjoined) (hlength ▸ hfuel))
  · intro b hb
    obtain ⟨entry, hentry, hname, -⟩ := hstored b hb
    obtain ⟨config, hconfig, hmem⟩ := @exists_assignAll _ (fun _ => none) _ _ ⟨entry, hentry, hname⟩
    obtain ⟨other, hother, hsame, hfields⟩ := hsource _ hmem
    -- The names are distinct, so the entry found under the name of `b` is the one of `b`.
    have heq : b = other := List.inj_on_of_nodup_map hnames hb hother
      (asciiBytes_injective (hascii b hb) (hascii other hother) hsame)
    exact ⟨config, hconfig, heq ▸ hfields⟩
  · intro name hfound
    by_contra hnone
    have hmissing : ∀ entry ∈ entries, entry.1 ≠ name := fun entry hentry heq => by
      obtain ⟨b, hb, hname, -⟩ := hsource entry hentry
      exact hnone ⟨b, hb, hname.symm.trans heq⟩
    rw [assignAll_of_not_mem hmissing] at hfound
    exact absurd hfound (by simp)

def sampleExternalBuffers : List ExternalBufferRecord :=
  [{ id := .number 3
     name := ['e', 'b']
     shimPortConfigs :=
      [{ portId := .number 1, portName := ['i', 'n'], direction := .mm2s, shimColumn := .number 6,
         channelNumber := .number 0, taskRepetition := .number 2, enableTaskCompleteToken := .boolean true,
         shimBDInfos :=
          [[(.bd_id, .number 4), (.buf_idx, .number 0), (.offset, .number 16), (.transaction_size, .number 4096)]]
            },
       { portId := .number 2, portName := ['o'], direction := .s2mm, shimColumn := .number 7,
         channelNumber := .number 1, taskRepetition := .number 1, enableTaskCompleteToken := .boolean false,
         shimBDInfos := [] }] },
   { id := .number (-1), name := ['x'], shimPortConfigs := [] }]

/-- The sample buffers are read back. -/
theorem externalBuffers_readBack_sample : ExternalBuffersReadBack sampleExternalBuffers := by
  refine externalBuffers_readBack (by simp only [sampleExternalBuffers, List.forall_mem_cons]; decide)
    (by decide) ?_
  intro bytes hbytes
  have hsmall : (parseExternalbuffersConfig (.array (sampleExternalBuffers.map ExternalBufferRecord.toJson))).all
      (fun bytes => bytes.length < 2 ^ 32) = true := by decide
  rw [hbytes] at hsmall
  simpa using hsmall

end AieBaremetal.Metadata
