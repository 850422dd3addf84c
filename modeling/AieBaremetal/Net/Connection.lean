import AieBaremetal.Net.FileRecv

/-!
# The phases of a connection

A callback goes through its loop at most twice: once for what is missing of the header and once for
data. So a connection is described by the bytes it has looked at, however they were cut. The header
decides how large the image buffer is from then on, and a callback leaves the buffer as soon as the
bytes of the file that have come are more than that.
-/

namespace AieBaremetal.Net

open Common

def announcedSize (header : List UInt8) : BitVec 64 :=
  (ntohl ((header.drop 4).take 4)).setWidth 64 <<< 32 ||| (ntohl ((header.drop 8).take 4)).setWidth 64

/-- The value of `imglen` after a file was announced. -/
def announce (imglen : BitVec 32) (size : BitVec 64) : BitVec 32 :=
  if (imglen.signExtend 64).ult size then ((size + 3) / 4 * 4).setWidth 32 else imglen

/-- The room in the image buffer after a header. -/
def room (imglen : BitVec 32) (header : List UInt8) : ℕ :=
  ((announce imglen (announcedSize header)).signExtend 64).toNat

/-- The bytes of the file among the bytes of a connection. -/
def fileOf (looked : List UInt8) : List UInt8 :=
  (looked.drop headerSize).take (announcedSize (looked.take headerSize)).toNat

/-- More bytes of the file have come than there is room for. -/
def Overflows (imglen : BitVec 32) (looked : List UInt8) : Prop :=
  ntohl (looked.take 4) = magicNumber ∧ room imglen (looked.take headerSize) < (fileOf looked).length

instance (imglen : BitVec 32) (looked : List UInt8) : Decidable (Overflows imglen looked) :=
  inferInstanceAs (Decidable (_ ∧ _))

/-- What the outside world sees when a file is complete. -/
def delivery (env : Env) (data : List UInt8) : List Event :=
  let len := (BitVec.ofNat 32 data.length).toInt
  match env.func with
  | some func => [.callback data len, .write (leBytes 4 (crc32Bitwise (func.leaves data len)).toNat ++
      leBytes 2 (func.type data len).toNat)]
  | none => [.write (leBytes 4 (crc32Bitwise data).toNat ++ leBytes 2 0)]

/-- What the bytes looked at say about a connection, if `imglen` was the size of the buffer at its start. -/
inductive Phase (env : Env) (imglen : BitVec 32) (looked : List UInt8) : Server → Prop
  | header {imgdata : ℕ → UInt8} (hshort : looked.length < headerSize) :
    Phase env imglen looked ⟨imgdata, imglen, ⟨looked, 0, 0⟩, none, []⟩
  | data {imgdata : ℕ → UInt8} {header file : List UInt8} (hlooked : looked = header ++ file)
    (hheader : header.length = headerSize) (hmagic : ntohl (header.take 4) = magicNumber)
    (hmore : file.length < (announcedSize header).toNat ∨ file = []) (hroom : file.length ≤ room imglen header)
    (hfront : load imgdata id file.length = file) :
    Phase env imglen looked ⟨imgdata, announce imglen (announcedSize header),
      ⟨header, announcedSize header, BitVec.ofNat 64 file.length⟩, none, []⟩
  | aborted {s : Server} (hlong : headerSize ≤ looked.length) (hmagic : ntohl (looked.take 4) ≠ magicNumber)
    (hclosed : s.closed = some .abrt) (htrace : s.trace = []) : Phase env imglen looked s
  | finished {s : Server} {header file rest : List UInt8} (hlooked : looked = header ++ (file ++ rest))
    (hheader : header.length = headerSize) (hmagic : ntohl (header.take 4) = magicNumber)
    (hsize : file.length = (announcedSize header).toNat) (hroom : file.length ≤ room imglen header)
    (hbeyond : file ++ rest ≠ []) (hclosed : s.closed = some .ok) (htrace : s.trace = delivery env file) :
    Phase env imglen looked s

section Steps

variable (env : Env) {s : Server}

/-- Taking and dropping stop at the end of a payload by themselves. -/
theorem take_drop_min (payload : List UInt8) (n : ℕ) :
    payload.take (if payload.length < n then payload.length else n) = payload.take n ∧
      payload.drop (if payload.length < n then payload.length else n) = payload.drop n := by
  split
  case isTrue h => simp [List.take_of_length_le h.le, List.drop_of_length_le h.le]
  case isFalse => exact ⟨rfl, rfl⟩

/-- A turn before the header is complete. -/
theorem receiveStep_header (hheader : s.state.headerBuf.length < headerSize) (payload : List UInt8) :
    receiveStep env s payload = some (receiveHeader env s (payload.take (headerSize - s.state.headerBuf.length)),
        payload.drop (headerSize - s.state.headerBuf.length)) := by
  obtain ⟨htake, hdrop⟩ := take_drop_min payload (headerSize - s.state.headerBuf.length)
  simp only [receiveStep, hheader, if_true, htake, hdrop]

/-- A turn after the header. -/
theorem receiveStep_data (hheader : ¬s.state.headerBuf.length < headerSize) (payload : List UInt8) :
    receiveStep env s payload =
      (receiveData env s (payload.take (s.state.fileSize - s.state.bytesReceived).toNat)).map
        fun s' => (s', payload.drop (s.state.fileSize - s.state.bytesReceived).toNat) := by
  obtain ⟨htake, hdrop⟩ := take_drop_min payload (s.state.fileSize - s.state.bytesReceived).toNat
  simp only [receiveStep, hheader, if_false, htake, hdrop]
  cases receiveData env s (payload.take (s.state.fileSize - s.state.bytesReceived).toNat) <;> rfl

/-- The loop makes a turn as long as there is payload. -/
theorem receiveLoop_succ (turns : ℕ) {payload : List UInt8} (hne : payload ≠ []) :
    receiveLoop env (turns + 1) s payload = (receiveStep env s payload).bind fun result =>
      if result.1.closed.isSome then some result.1 else receiveLoop env turns result.1 result.2 := by
  obtain ⟨b, rest, rfl⟩ := List.exists_cons_of_ne_nil hne
  rfl

/-- The loop ends without payload. -/
theorem receiveLoop_nil (turns : ℕ) : receiveLoop env turns s [] = some s := by
  cases turns <;> rfl

/-- A right header sets the size of the file and of the image buffer. -/
theorem parseHeader_eq (hmagic : ntohl (s.state.headerBuf.take 4) = magicNumber) :
    ∃ imgdata, parseHeader env s = { s with
      imgdata
      imglen := announce s.imglen (announcedSize s.state.headerBuf)
      state := { s.state with fileSize := announcedSize s.state.headerBuf, bytesReceived := 0 } } := by
  simp only [parseHeader, hmagic, ne_eq, not_true_eq_false, if_false, announce]
  by_cases hsmall : (s.imglen.signExtend 64).ult (announcedSize s.state.headerBuf) = true
  · exact ⟨env.fresh, by rw [if_pos hsmall]; exact if_pos hsmall⟩
  · exact ⟨s.imgdata, by rw [if_neg hsmall]; exact if_neg hsmall⟩

@[simp] theorem finish_closed : (finish env s).closed = some .ok := rfl

/-- A complete file is delivered. -/
theorem finish_trace : (finish env s).trace = s.trace ++ delivery env s.file := by
  have hlen : s.len = (BitVec.ofNat 32 s.file.length).toInt := by
    rw [Server.len, Server.file, load_length, BitVec.ofNat_toNat]
  unfold finish callFunc delivery
  cases env.func with
  | none => rfl
  | some func =>
    have hfile : load (store s.imgdata id (func.leaves s.file s.len)) id s.state.fileSize.toNat =
        func.leaves s.file s.len := by
      have hlength : (func.leaves s.file s.len).length = s.state.fileSize.toNat := by
        rw [func.leaves_length, Server.file, load_length]
      rw [← hlength]
      exact load_store _ fun i _ j _ heq => heq
    simp only [Server.reply, Server.file, List.append_assoc] at hlen hfile ⊢
    rw [hfile, hlen]
    rfl

end Steps

section Files

variable {looked header file : List UInt8} {imglen : BitVec 32}

/-- Bytes that are stored behind the first ones are read after them. -/
theorem load_store_front (m : ℕ → UInt8) (n : ℕ) (bytes : List UInt8) :
    load (store m (n + ·) bytes) id (n + bytes.length) = load m id n ++ bytes := by
  have hfront : load (store m (n + ·) bytes) id n = load m id n := by
    refine load_store_of_ne m fun i _ j hj heq => ?_
    have : n + i = j := heq
    omega
  rw [load_add, hfront]
  exact congrArg _ (load_store m fun i _ j _ heq => Nat.add_left_cancel heq)

/-- No byte of the file has come before the header is complete. -/
theorem fileOf_of_le (hshort : looked.length ≤ headerSize) : fileOf looked = [] := by
  rw [fileOf, List.drop_of_length_le hshort, List.take_nil]

/-- The file begins behind the header. -/
theorem fileOf_header_append (hheader : header.length = headerSize) (file : List UInt8) :
    fileOf (header ++ file) = file.take (announcedSize header).toNat := by
  rw [fileOf, List.drop_left' hheader, List.take_left' hheader]

/-- The magic number is part of the header. -/
theorem take_four_header (hheader : header.length = headerSize) (file : List UInt8) :
    (header ++ file).take 4 = header.take 4 :=
  List.take_append_of_le_length (by rw [hheader]; decide)

/-- Nothing overflows before the header is complete. -/
theorem not_overflows_of_le (hshort : looked.length ≤ headerSize) : ¬Overflows imglen looked := by
  rintro ⟨-, h⟩
  rw [fileOf_of_le hshort] at h
  exact absurd h (Nat.not_lt_zero _)

/-- Behind a right header the bytes of the file overflow the room it has made. -/
theorem overflows_header_append (hheader : header.length = headerSize)
    (hmagic : ntohl (header.take 4) = magicNumber) (file : List UInt8) :
    Overflows imglen (header ++ file) ↔ room imglen header < (file.take (announcedSize header).toNat).length := by
  rw [Overflows, take_four_header hheader, List.take_left' hheader, fileOf_header_append hheader]
  exact and_iff_right hmagic

/-- Bytes that overflow still do when more have come. -/
theorem Overflows.append (h : Overflows imglen looked) (more : List UInt8) : Overflows imglen (looked ++ more) := by
  have hlong : headerSize ≤ looked.length := by
    by_contra hshort
    exact not_overflows_of_le (Nat.le_of_not_le hshort) h
  obtain ⟨hmagic, hless⟩ := h
  rw [← List.take_append_drop headerSize looked, List.append_assoc]
  have hheader : (looked.take headerSize).length = headerSize := List.length_take_of_le hlong
  have hmagic' : ntohl ((looked.take headerSize).take 4) = magicNumber := by
    rwa [List.take_take]
  rw [overflows_header_append hheader hmagic']
  refine Nat.lt_of_lt_of_le hless ?_
  rw [fileOf, List.length_take, List.length_take, List.length_append]
  omega

end Files

section Receiving

variable (env : Env) {looked header file payload : List UInt8} {imgdata : ℕ → UInt8} {imglen : BitVec 32}

/-- Data that arrive when the header is complete. -/
theorem receiveLoop_data (file : List UInt8) (hheader : header.length = headerSize)
    (hmagic : ntohl (header.take 4) = magicNumber) (hmore : file.length < (announcedSize header).toNat ∨ file = [])
    (hroom : file.length ≤ room imglen header) (hfront : load imgdata id file.length = file) (hne : payload ≠ [])
    (turns : ℕ) {result : Option Server}
    (hresult : receiveLoop env (turns + 1) ⟨imgdata, announce imglen (announcedSize header),
      ⟨header, announcedSize header, BitVec.ofNat 64 file.length⟩, none, []⟩ payload = result) :
    (result = none ↔ Overflows imglen (header ++ (file ++ payload))) ∧
      ∀ s', result = some s' → Phase env imglen (header ++ (file ++ payload)) s' := by
  rw [overflows_header_append hheader hmagic]
  have hcapacity : ((announce imglen (announcedSize header)).signExtend 64).toNat = room imglen header := rfl
  generalize hsize : announcedSize header = size at *
  generalize hlimit : room imglen header = limit at *
  have hle : file.length ≤ size.toNat := by
    rcases hmore with hmore | rfl
    · exact hmore.le
    · exact Nat.zero_le _
  have hlt := size.isLt
  have hreceived : (BitVec.ofNat 64 file.length).toNat = file.length := by
    rw [BitVec.toNat_ofNat]
    omega
  have hremaining : (size - BitVec.ofNat 64 file.length).toNat = size.toNat - file.length := by
    rw [BitVec.toNat_sub_of_le (BitVec.le_def.mpr (by omega)), hreceived]
  rw [receiveLoop_succ env turns hne, receiveStep_data env (by simp [hheader])] at hresult
  simp only [hremaining, receiveData, Server.capacity, hreceived, hcapacity] at hresult
  have hall : (file ++ payload).take size.toNat = file ++ payload.take (size.toNat - file.length) := by
    rw [List.take_append, List.take_of_length_le hle]
  rw [hall, List.length_append]
  generalize hbytes : payload.take (size.toNat - file.length) = bytes at *
  have hlen : bytes.length = min (size.toNat - file.length) payload.length := by rw [← hbytes, List.length_take]
  split at hresult
  case isTrue hbad =>
    rw [Option.map_none, Option.bind_none] at hresult
    subst hresult
    exact ⟨iff_of_true rfl hbad.2, fun s' h => absurd h (by simp)⟩
  case isFalse hfits =>
    have hload : load (store imgdata (file.length + ·) bytes) id (file.length + bytes.length) = file ++ bytes := by
      rw [load_store_front, hfront]
    have hstays : ¬limit < file.length + bytes.length :=
      fun h => hfits ⟨List.length_pos_iff.mp (by omega), h⟩
    rw [Option.map_some, Option.bind_some] at hresult
    by_cases hcomplete : size.toNat - file.length ≤ payload.length
    · have hdone : BitVec.ofNat 64 file.length + BitVec.ofNat 64 bytes.length = size := by
        apply BitVec.eq_of_toNat_eq
        rw [← BitVec.ofNat_add, BitVec.toNat_ofNat]
        omega
      simp only [hdone, if_true, finish_closed, Option.isSome_some] at hresult
      subst hresult
      refine ⟨iff_of_false (by simp) hstays, fun s' h => ?_⟩
      obtain rfl := Option.some.inj h
      have hcount : file.length + bytes.length = size.toNat := by omega
      have hrest : file ++ payload = file ++ bytes ++ payload.drop (size.toNat - file.length) := by
        rw [List.append_assoc, ← hbytes, List.take_append_drop]
      refine .finished (congrArg _ hrest) hheader hmagic (by rw [List.length_append, hcount, hsize])
        (by rw [List.length_append, hlimit]; omega) (hrest ▸ by simp [hne]) rfl ?_
      rw [finish_trace, Server.file, ← hcount, hload, List.nil_append]
    · have hwhole : bytes = payload := by rw [← hbytes, List.take_of_length_le (by omega)]
      subst hwhole
      have hpart : BitVec.ofNat 64 file.length + BitVec.ofNat 64 bytes.length ≠ size := fun heq => by
        have hsum := congrArg BitVec.toNat heq
        rw [← BitVec.ofNat_add, BitVec.toNat_ofNat] at hsum
        omega
      simp only [hpart, if_false, Option.isSome_none, Bool.false_eq_true,
        List.drop_of_length_le (Nat.le_of_not_le hcomplete), receiveLoop_nil] at hresult
      subst hresult
      refine ⟨iff_of_false (by simp) hstays, fun s' h => ?_⟩
      obtain rfl := Option.some.inj h
      rw [← BitVec.ofNat_add, ← List.length_append, ← hsize]
      refine .data rfl hheader hmagic (.inl ?_) ?_ (by rw [List.length_append]; exact hload)
      · rw [List.length_append, hsize]
        omega
      · rw [List.length_append, hlimit]
        omega

/-- Bytes that arrive before the header is complete. -/
theorem receiveLoop_header (hshort : looked.length < headerSize) (hne : payload ≠ []) {turns : ℕ}
    (hturns : payload.length ≤ turns + 1) {result : Option Server}
    (hresult : receiveLoop env (turns + 1) ⟨imgdata, imglen, ⟨looked, 0, 0⟩, none, []⟩ payload = result) :
    (result = none ↔ Overflows imglen (looked ++ payload)) ∧
      ∀ s', result = some s' → Phase env imglen (looked ++ payload) s' := by
  rw [receiveLoop_succ env turns hne, receiveStep_header env hshort, Option.bind_some, receiveHeader] at hresult
  generalize hmissing : headerSize - looked.length = missing at hresult
  have hsplit : looked ++ payload = looked ++ payload.take missing ++ payload.drop missing := by
    rw [List.append_assoc, List.take_append_drop]
  simp only at hresult
  split at hresult
  case isFalse hpart =>
    have hfew : payload.length < missing := by
      rw [List.length_append, List.length_take] at hpart
      omega
    have hall : (looked ++ payload).length < headerSize := by rw [List.length_append]; omega
    rw [List.take_of_length_le hfew.le, List.drop_of_length_le hfew.le, receiveLoop_nil] at hresult
    subst hresult
    refine ⟨iff_of_false (by simp) (not_overflows_of_le hall.le), fun s' h => ?_⟩
    obtain rfl := Option.some.inj h
    exact .header hall
  case isTrue hheader =>
    rw [hsplit]
    generalize hrest : payload.drop missing = rest at *
    generalize hheads : looked ++ payload.take missing = header at *
    by_cases hmagic : ntohl (header.take 4) = magicNumber
    · obtain ⟨imgdata', hparse⟩ := parseHeader_eq env (s := ⟨imgdata, imglen, ⟨header, 0, 0⟩, none, []⟩) hmagic
      simp only [hparse, Option.isSome_none, Bool.false_eq_true, if_false] at hresult
      cases hcases : rest with
      | nil =>
        rw [hcases, receiveLoop_nil] at hresult
        subst hresult
        refine ⟨iff_of_false (by simp) (not_overflows_of_le (by rw [List.append_nil, hheader])), fun s' h => ?_⟩
        obtain rfl := Option.some.inj h
        exact .data rfl hheader hmagic (.inr rfl) (Nat.zero_le _) rfl
      | cons b more =>
        rw [hcases] at hresult
        have hless : rest.length < payload.length := by
          rw [← hrest, List.length_drop]
          have := List.length_pos_iff.mpr hne
          omega
        rw [hcases, List.length_cons] at hless
        obtain ⟨turns, rfl⟩ := Nat.exists_eq_add_one_of_ne_zero (n := turns) (by omega)
        exact receiveLoop_data env [] hheader hmagic (.inr rfl) (Nat.zero_le _) rfl (by simp) turns hresult
    · have hmagic4 : ntohl ((header ++ rest).take 4) ≠ magicNumber := by rwa [take_four_header hheader]
      have hparse : parseHeader env ⟨imgdata, imglen, ⟨header, 0, 0⟩, none, []⟩ =
          ⟨imgdata, imglen, ⟨header, 0, 0⟩, some .abrt, []⟩ := if_pos hmagic
      simp only [hparse, Option.isSome_some, if_true] at hresult
      subst hresult
      refine ⟨iff_of_false (by simp) fun h => hmagic4 h.1, fun s' h => ?_⟩
      obtain rfl := Option.some.inj h
      refine .aborted ?_ hmagic4 rfl rfl
      rw [List.length_append]
      omega

/-- A callback of an open connection leaves the image buffer exactly if the bytes overflow, and otherwise they
describe the connection. -/
theorem receiveLoop_phase {s : Server} (h : Phase env imglen looked s) (hopen : s.closed = none) {turns : ℕ}
    (hturns : payload.length ≤ turns) {result : Option Server}
    (hresult : receiveLoop env turns s payload = result) :
    (result = none ↔ Overflows imglen (looked ++ payload)) ∧
      ∀ s', result = some s' → Phase env imglen (looked ++ payload) s' := by
  by_cases hne : payload = []
  · subst hne
    rw [receiveLoop_nil] at hresult
    subst hresult
    rw [List.append_nil]
    refine ⟨iff_of_false (by simp) ?_, fun s' h' => Option.some.inj h' ▸ h⟩
    cases h with
    | header hshort => exact not_overflows_of_le hshort.le
    | data hlooked hheader hmagic hmore hroom =>
      rw [hlooked, overflows_header_append hheader hmagic, List.length_take]
      omega
    | aborted _ _ hclosed | finished _ _ _ _ _ _ hclosed => exact absurd (hclosed.symm.trans hopen) (by simp)
  · have hpos := List.length_pos_iff.mpr hne
    obtain ⟨turns, rfl⟩ := Nat.exists_eq_add_one_of_ne_zero (n := turns) (by omega)
    cases h with
    | header hshort => exact receiveLoop_header env hshort hne hturns hresult
    | @data _ header file hlooked hheader hmagic hmore hroom hfront =>
      rw [hlooked, List.append_assoc]
      exact receiveLoop_data env file hheader hmagic hmore hroom hfront hne turns hresult
    | aborted _ _ hclosed | finished _ _ _ _ _ _ hclosed => exact absurd (hclosed.symm.trans hopen) (by simp)

/-- Nothing changes or overflows once the connection is closed. -/
theorem Phase.closed_append {s : Server} (h : Phase env imglen looked s) (hclosed : s.closed.isSome = true)
    (more : List UInt8) : ¬Overflows imglen (looked ++ more) ∧ Phase env imglen (looked ++ more) s := by
  cases h with
  | header | data => exact absurd hclosed (by simp)
  | aborted hlong hmagic hclosed htrace =>
    have hmagic' : ntohl ((looked ++ more).take 4) ≠ magicNumber := by
      rwa [List.take_append_of_le_length (le_trans (by decide) hlong)]
    exact ⟨fun h => hmagic' h.1, .aborted (by rw [List.length_append]; omega) hmagic' hclosed htrace⟩
  | @finished _ header file rest hlooked hheader hmagic hsize hroom hbeyond hclosed htrace =>
    have hall : looked ++ more = header ++ (file ++ (rest ++ more)) := by
      rw [hlooked, List.append_assoc, List.append_assoc]
    refine ⟨?_, .finished hall hheader hmagic hsize hroom ?_ hclosed htrace⟩
    · rw [hall, overflows_header_append hheader hmagic, ← hsize, List.take_left]
      omega
    · rw [← List.append_assoc]
      exact List.append_ne_nil_of_left_ne_nil hbeyond more

/-- A run of callbacks leaves the image buffer exactly if its bytes overflow, and otherwise they describe the
connection. -/
theorem runCallbacks_phase {s : Server} (h : Phase env imglen looked s) {chains : List Pbuf}
    {result : Option Server}
    (hresult : runCallbacks env s (chains.map some) = result) (hstart : ¬Overflows imglen looked) :
    (result = none ↔ Overflows imglen (looked ++ (chains.map Pbuf.payload).flatten)) ∧
      ∀ s', result = some s' → Phase env imglen (looked ++ (chains.map Pbuf.payload).flatten) s' := by
  induction chains generalizing s looked with
  | nil =>
    rw [List.map_nil, runCallbacks] at hresult
    subst hresult
    rw [List.map_nil, List.flatten_nil, List.append_nil]
    exact ⟨iff_of_false (by simp) hstart, fun s' h' => Option.some.inj h' ▸ h⟩
  | cons p rest ih =>
    rw [List.map_cons, List.flatten_cons]
    rw [List.map_cons, runCallbacks] at hresult
    by_cases hclosed : s.closed.isSome = true
    · rw [if_pos hclosed] at hresult
      subst hresult
      obtain ⟨hnone, hphase⟩ := h.closed_append env hclosed (p.payload ++ (rest.map Pbuf.payload).flatten)
      exact ⟨iff_of_false (by simp) hnone, fun s' h' => Option.some.inj h' ▸ hphase⟩
    · rw [if_neg hclosed, fileRecvCallback] at hresult
      rw [← List.append_assoc]
      cases hloop : receiveLoop env p.payload.length s p.payload with
      | none =>
        rw [hloop] at hresult
        subst hresult
        have hover := (receiveLoop_phase env h (by simpa using hclosed) le_rfl hloop).1.mp rfl
        exact ⟨iff_of_true rfl (hover.append _), fun s' h' => absurd h' (by simp)⟩
      | some s₁ =>
        rw [hloop] at hresult
        obtain ⟨hnone, hphase⟩ := receiveLoop_phase env h (by simpa using hclosed) le_rfl hloop
        exact ih (hphase s₁ rfl) hresult fun hover => absurd (hnone.mpr hover) (by simp)

end Receiving

end AieBaremetal.Net
