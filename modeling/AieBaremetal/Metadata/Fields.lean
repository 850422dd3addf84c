import AieBaremetal.Metadata.Packer
import AieBaremetal.Metadata.Parser
import Mathlib.Data.List.Forall2

/-!
# What the packer writes for a member and what the parsers read there

The packer is driven by a table and the parsers are written by hand; they meet at the bytes of a
single member. `fieldBytes` says what these bytes are for a value of the right shape, and one
lemma for every unpack function says what it reads from them.
-/

namespace AieBaremetal.Metadata

open Common Common.Reader

/-- The members whose values are lists. -/
def arrayKeys : List Key := .iteration_memory_addresses :: vectors

/-- Whether a character is one byte in UTF-8. -/
def isAscii (c : Char) : Bool := c.toNat < 128

def asciiBytes (s : List Char) : List UInt8 := s.map fun c => UInt8.ofNat c.toNat

def Code.holdsInt (code : Code) (v : Json) : Bool :=
  match code.range, v.asInt with
  | some (_, low, high), some n => low ≤ n && n ≤ high
  | _, _ => false

/-- The code packs the value; `?` packs every one. -/
def Code.fits (code : Code) (v : Json) : Bool := code == .bool || code.holdsInt v

/-- A member has a value of its kind: an ASCII string, or numbers in range. -/
def shaped (key : Key) (v : Json) : Bool :=
  if key ∈ keysOf .s then
    match v with
    | .text s => s.all isAscii
    | _ => false
  else
    match keyToEncodingMap key with
    | none => false
    | some code =>
      if key ∈ arrayKeys then
        match v with
        | .array items => items.all code.fits
        | _ => false
      else code.holdsInt v

/-- Whether a string is not longer than the script allows. -/
def shortText : Json → Bool
  | .text s => s.length ≤ nameMaxLen
  | _ => true

/-- Whether the length of a list fits the code `i`. -/
def shortArray : Json → Bool
  | .array items => items.length < 2 ^ 31
  | _ => true

/-- The bytes of a value under a code that packs it. -/
def scalarBytes (code : Code) (v : Json) : List UInt8 :=
  match code.range with
  | some (width, _, _) => intBytes width (v.asInt.getD 0)
  | none => [if v.truthy then 1 else 0]

/-- The bytes of a list whose items have the code. -/
def arrayBytes (code : Code) (items : List Json) : List UInt8 :=
  intBytes 4 items.length ++ (items.map (scalarBytes code)).flatten

def textBytes (s : List Char) : List UInt8 := intBytes 4 s.length ++ asciiBytes s

def fieldBytes (key : Key) (v : Json) : List UInt8 :=
  match v with
  | .text s => textBytes s
  | .array items => arrayBytes ((keyToEncodingMap key).getD .bool) items
  | v => scalarBytes ((keyToEncodingMap key).getD .bool) v

/-- The elements of a member of the right shape. -/
def fieldItems (key : Key) (v : Json) : List Item :=
  match v with
  | .text s => [.value .i (.number s.length), .bytes s.length (encodeUtf8 s)]
  | .array items => .value .i (.number items.length) :: items.map (Item.value ((keyToEncodingMap key).getD .bool))
  | v => [.value ((keyToEncodingMap key).getD .bool) v]

def recordBytes (convert : Bool) (keys : List Key) (record : Members) : List UInt8 :=
  (keys.map fun key => fieldBytes key (fetched convert record key)).flatten

/-- The three kinds of members. -/
inductive Shaped (key : Key) : Json → Prop
  | text (hkey : key ∈ keysOf .s) (s : List Char) (hascii : s.all isAscii = true) : Shaped key (.text s)
  | array (hkey : key ∉ keysOf .s) (harray : key ∈ arrayKeys) {code : Code}
      (hcode : keyToEncodingMap key = some code)
      (items : List Json) (hfits : items.all code.fits = true) : Shaped key (.array items)
  | scalar (hkey : key ∉ keysOf .s) (harray : key ∉ arrayKeys) {code : Code}
      (hcode : keyToEncodingMap key = some code)
      (v : Json) (hint : code.holdsInt v = true) : Shaped key v

variable {code : Code} {convert : Bool} {high low : ℤ} {keys : List Key} {n width : ℕ} {record : Members}
  {records : List Members} {s : List Char} {v : Json}

theorem shaped_of_true {key : Key} (h : shaped key v = true) : Shaped key v := by
  unfold shaped at h
  split at h
  case isTrue hkey =>
    split at h
    case h_1 s => exact .text hkey s h
    case h_2 => exact absurd h (by decide)
  case isFalse hkey =>
    split at h
    case h_1 => exact absurd h (by decide)
    case h_2 code hcode =>
      split at h
      case isTrue harray =>
        split at h
        case h_1 items => exact .array hkey harray hcode items h
        case h_2 => exact absurd h (by decide)
      case isFalse harray => exact .scalar hkey harray hcode v h

theorem cases_of_holdsInt (h : code.holdsInt v = true) :
    (∃ n, v = .number n) ∨ ∃ b, v = .boolean b := by
  cases v with
  | number n => exact .inl ⟨n, rfl⟩
  | boolean b => exact .inr ⟨b, rfl⟩
  | null | text | array | object => simp [Code.holdsInt, Json.asInt] at h

theorem exists_of_holdsInt (h : code.holdsInt v = true) :
    ∃ width low high n, code.range = some (width, low, high) ∧ v.asInt = some n ∧ low ≤ n ∧ n ≤ high := by
  unfold Code.holdsInt at h
  split at h
  case h_1 width low high n hrange hint =>
    rw [Bool.and_eq_true, decide_eq_true_eq, decide_eq_true_eq] at h
    exact ⟨width, low, high, n, hrange, hint, h.1, h.2⟩
  case h_2 => exact absurd h (by decide)

section Packing

theorem encodeUtf8_ascii (h : s.all isAscii = true) : encodeUtf8 s = asciiBytes s := by
  induction s with
  | nil => rfl
  | cons c rest ih =>
    rw [List.all_cons, Bool.and_eq_true] at h
    have hc : c.val.toNat ≤ 127 := Nat.le_of_lt_succ (by simpa [isAscii] using h.1)
    have hchar : String.utf8EncodeChar c = [UInt8.ofNat c.toNat] := if_pos hc
    simp only [encodeUtf8, asciiBytes, List.flatMap_cons, List.map_cons] at ih ⊢
    rw [hchar, ih h.2]
    rfl

theorem structPack_append (front back : List Item) :
    structPack (front ++ back) = (structPack front).bind fun a => (structPack back).map (a ++ ·) := by
  induction front with
  | nil => simp [structPack]
  | cons item rest ih =>
    cases hitem : packItem item with
    | none => simp [structPack, hitem]
    | some a => cases hrest : structPack rest <;> cases hback : structPack back <;>
        simp [structPack, hitem, ih, hrest, hback]

theorem structPack_cons_of_some {item : Item} {bytes : List UInt8} (rest : List Item)
    (h : packItem item = some bytes) :
    structPack (item :: rest) = (structPack rest).map (bytes ++ ·) := by
  cases hrest : structPack rest <;> simp [structPack, h, hrest]

theorem structPack_cons_of_none {item : Item} (rest : List Item) (h : packItem item = none) :
    structPack (item :: rest) = none := by
  simp [structPack, h]

theorem packItem_of_holdsInt (h : code.holdsInt v = true) :
    packItem (.value code v) = some (scalarBytes code v) := by
  obtain ⟨width, low, high, n, hrange, hint, hlow, hhigh⟩ := exists_of_holdsInt h
  cases code with
  | bool | s | P | D | HEX => simp [Code.range] at hrange
  | B | i | h | Q | I => simp [packItem, scalarBytes, hrange, hint, hlow, hhigh]

theorem packItem_of_fits (h : code.fits v = true) :
    packItem (.value code v) = some (scalarBytes code v) := by
  rw [Code.fits, Bool.or_eq_true, beq_iff_eq] at h
  rcases h with rfl | h
  · rfl
  · exact packItem_of_holdsInt h

theorem structPack_items {items : List Json} (h : items.all code.fits = true) :
    structPack (items.map (Item.value code)) = some (items.map (scalarBytes code)).flatten := by
  induction items with
  | nil => rfl
  | cons v rest ih =>
    rw [List.all_cons, Bool.and_eq_true] at h
    simp [structPack, packItem_of_fits h.1, ih h.2]

theorem packItem_length (h : n < 2 ^ 31) : packItem (.value .i (.number n)) = some (intBytes 4 n) := by
  have hbounds : -2 ^ 31 ≤ (n : ℤ) ∧ (n : ℤ) ≤ 2 ^ 31 - 1 := by omega
  exact if_pos hbounds

theorem packItem_length_of_le (h : 2 ^ 31 ≤ n) : packItem (.value .i (.number n)) = none := by
  have hbounds : ¬(-2 ^ 31 ≤ (n : ℤ) ∧ (n : ℤ) ≤ 2 ^ 31 - 1) := by omega
  exact if_neg hbounds

theorem packItem_bytes (data : List UInt8) : packItem (.bytes data.length data) = some data := by
  simp [packItem]

theorem structPack_text (hascii : s.all isAscii = true) (hlen : s.length ≤ nameMaxLen) :
    structPack [.value .i (.number s.length), .bytes s.length (encodeUtf8 s)] = some (textBytes s) := by
  have hsmall : s.length < 2 ^ 31 := lt_of_le_of_lt hlen (by decide)
  have hbytes : packItem (.bytes s.length (asciiBytes s)) = some (asciiBytes s) := by
    simpa [asciiBytes] using packItem_bytes (asciiBytes s)
  rw [encodeUtf8_ascii hascii, structPack_cons_of_some _ (packItem_length hsmall),
    structPack_cons_of_some _ hbytes]
  simp [structPack, textBytes]

theorem structPack_fieldItems {key : Key} (hshape : Shaped key v) (htext : shortText v = true) :
    structPack (fieldItems key v) = if shortArray v then some (fieldBytes key v) else none := by
  cases hshape with
  | text _ s hascii => exact structPack_text hascii (of_decide_eq_true htext)
  | array _ _ hcode items hfits =>
    rw [fieldItems, fieldBytes, shortArray, hcode, Option.getD_some]
    by_cases hlen : items.length < 2 ^ 31
    · rw [structPack_cons_of_some _ (packItem_length hlen), structPack_items hfits, decide_eq_true hlen]
      rfl
    · rw [structPack_cons_of_none _ (packItem_length_of_le (Nat.le_of_not_lt hlen)), decide_eq_false hlen]
      rfl
  | scalar _ _ hcode v hint =>
    have hpack := packItem_of_holdsInt hint
    obtain ⟨n, rfl⟩ | ⟨b, rfl⟩ := cases_of_holdsInt hint
    · simp [fieldItems, structPack, fieldBytes, hcode, hpack, shortArray]
    · simp [fieldItems, structPack, fieldBytes, hcode, hpack, shortArray]

theorem fetched_of_text {key : Key} (hkey : key ∈ keysOf .s) :
    fetched convert record key = member record key := by
  have hstrings : ∀ key ∈ keysOf .s, key ∉ vectors := by decide
  rw [fetched, if_neg fun h => hstrings key hkey h.2]

/-- One turn of the loop collects the elements of the member and leaves its value in `values`. -/
theorem packKey_of_shaped {values : Json} {key : Key}
    (hshape : Shaped key (fetched convert record key)) (hvalues : key ∈ keysOf .s → values.isArray = false) :
    packKey convert record values key = if shortText (fetched convert record key) then
        some (fieldItems key (fetched convert record key), fetched convert record key) else none := by
  generalize hv : fetched convert record key = v at hshape
  cases hshape with
  | text hkey s hascii =>
    have hmember : member record key = .text s := by rw [← fetched_of_text hkey, hv]
    have hitems : (stringItems (member record key)).map (fun r => (r.1, Json.text r.2)) =
        if shortText (.text s) then some (fieldItems key (.text s), .text s) else none := by
      by_cases hlen : s.length ≤ nameMaxLen
      · simp [hmember, stringItems, Json.str, getNameLen, hlen, shortText, fieldItems]
      · simp [hmember, stringItems, Json.str, getNameLen, hlen, shortText]
    rw [← hitems]
    have hplain := hvalues hkey
    cases values with
    | array => simp [Json.isArray] at hplain
    | null | number | boolean | text | object =>
      simp only [packKey, hkey, if_true]
      cases stringItems (member record key) <;> rfl
  | array hkey _ hcode items _ =>
    simp [packKey, hkey, hv, hcode, fieldItems, shortText]
  | scalar hkey _ hcode v hint =>
    obtain ⟨n, rfl⟩ | ⟨b, rfl⟩ := cases_of_holdsInt hint
    · simp [packKey, hkey, hv, hcode, fieldItems, shortText]
    · simp [packKey, hkey, hv, hcode, fieldItems, shortText]

/-- A string member comes before all list members of a record. -/
def TextsFirst (keys : List Key) : Prop := keys.Pairwise fun first later => later ∈ keysOf .s → first ∉ arrayKeys

instance (keys : List Key) : Decidable (TextsFirst keys) :=
  inferInstanceAs (Decidable (keys.Pairwise fun first later => later ∈ keysOf .s → first ∉ arrayKeys))

theorem isArray_of_shaped {key : Key} (hshape : Shaped key v) (hkey : key ∉ arrayKeys) :
    v.isArray = false := by
  cases hshape with
  | text => rfl
  | array _ harray => exact absurd harray hkey
  | scalar _ _ _ v hint =>
    obtain ⟨n, rfl⟩ | ⟨b, rfl⟩ := cases_of_holdsInt hint
    · rfl
    · rfl

/-- The loop over the members collects the elements of every member, unless a string is too long. -/
theorem packKeys_of_shaped (values : Json) (hshape : ∀ key ∈ keys, Shaped key (fetched convert record key))
    (hkeys : TextsFirst keys) (hvalues : values.isArray = true → ∀ key ∈ keys, key ∉ keysOf .s) :
    packKeys convert record values keys = if keys.all fun key => shortText (fetched convert record key) then
        some (keys.map fun key => fieldItems key (fetched convert record key)).flatten else none := by
  induction keys generalizing values with
  | nil => rfl
  | cons key rest ih =>
    have hfirst := hshape key List.mem_cons_self
    have hlater := List.pairwise_cons.mp hkeys
    have hplain : key ∈ keysOf .s → values.isArray = false := fun hkey =>
      Bool.eq_false_iff.mpr fun harray => hvalues harray key List.mem_cons_self hkey
    -- Once a list has been packed no string follows, so the stale `values` is never a list when it counts.
    have hnext : (fetched convert record key).isArray = true → ∀ later ∈ rest, later ∉ keysOf .s :=
      fun harray later hmem hlaterKey =>
        Bool.noConfusion (harray.symm.trans (isArray_of_shaped hfirst (hlater.1 later hmem hlaterKey)))
    have hrest := ih (fetched convert record key) (fun k hk => hshape k (List.mem_cons_of_mem _ hk)) hlater.2 hnext
    rw [packKeys, packKey_of_shaped hfirst hplain, List.all_cons]
    by_cases htext : shortText (fetched convert record key) = true
    · simp only [htext, if_true, Bool.true_and, List.map_cons, List.flatten_cons, Option.bind_eq_bind,
        Option.bind_some, hrest]
      split <;> rfl
    · simp [htext]

theorem structPack_flatten (hshape : ∀ key ∈ keys, Shaped key (fetched convert record key))
    (htext : ∀ key ∈ keys, shortText (fetched convert record key) = true) :
    structPack (keys.map fun key => fieldItems key (fetched convert record key)).flatten =
      if keys.all fun key => shortArray (fetched convert record key) then some (recordBytes convert keys record)
      else none := by
  induction keys with
  | nil => rfl
  | cons key rest ih =>
    have hrest := ih (fun k hk => hshape k (List.mem_cons_of_mem _ hk)) fun k hk =>
      htext k (List.mem_cons_of_mem _ hk)
    have hfirst := structPack_fieldItems (hshape key List.mem_cons_self) (htext key List.mem_cons_self)
    rw [List.map_cons, List.flatten_cons, structPack_append, hrest, hfirst, List.all_cons]
    by_cases harray : shortArray (fetched convert record key) = true
    · simp only [harray, if_true, Bool.true_and, Option.bind_some]
      split <;> rfl
    · simp [harray]

/-- The script packs a record: no string and no list is too long. -/
def recordFits (convert : Bool) (keys : List Key) (record : Members) : Bool :=
  keys.all fun key => shortText (fetched convert record key) && shortArray (fetched convert record key)

/-- The members of a record all have a value of their kind. -/
def recordShaped (convert : Bool) (keys : List Key) (record : Members) : Bool :=
  keys.all fun key => shaped key (fetched convert record key)

theorem packFields_structPack (hkeys : TextsFirst keys) (hshape : recordShaped convert keys record = true) :
    (packFields convert keys record).bind structPack =
      if recordFits convert keys record then some (recordBytes convert keys record) else none := by
  have hshapes : ∀ key ∈ keys, Shaped key (fetched convert record key) := fun key hkey =>
    shaped_of_true (List.all_eq_true.mp hshape key hkey)
  have hplain : Json.null.isArray = true → ∀ key ∈ keys, key ∉ keysOf .s := fun h => Bool.noConfusion h
  have hfits : recordFits convert keys record =
      ((keys.all fun key => shortText (fetched convert record key)) &&
        keys.all fun key => shortArray (fetched convert record key)) := by
    rw [Bool.eq_iff_iff]
    simp only [recordFits, List.all_eq_true, Bool.and_eq_true, imp_and, forall_and]
  rw [packFields, packKeys_of_shaped .null hshapes hkeys hplain, hfits]
  by_cases htext : (keys.all fun key => shortText (fetched convert record key)) = true
  · rw [if_pos htext, Option.bind_some, structPack_flatten hshapes
      (List.all_eq_true.mp htext), htext, Bool.true_and]
  · simp [htext]

theorem memberItems_structPack {items : Key → Json → Option (List Item)} {members : Members}
    {chunks : List (List UInt8)}
    (h : List.Forall₂ (fun entry chunk => (items entry.1 entry.2).bind structPack = some chunk) members chunks) :
    (memberItems items members).bind structPack = some chunks.flatten := by
  induction h with
  | nil => rfl
  | @cons entry chunk members chunks hfirst _ ih =>
    obtain ⟨front, hfront, hpack⟩ := Option.bind_eq_some_iff.mp hfirst
    obtain ⟨back, hback, hrest⟩ := Option.bind_eq_some_iff.mp ih
    simp [memberItems, hfront, hback, structPack_append, hpack, hrest]

theorem structPack_I {n : ℤ} (hlow : 0 ≤ n) (hhigh : n < 2 ^ 32) :
    structPack [.value .I (.number n)] = some (intBytes 4 n) := by
  have hbounds : 0 ≤ n ∧ n ≤ 2 ^ 32 - 1 := by omega
  have hpack : packItem (.value .I (.number n)) = some (intBytes 4 n) := if_pos hbounds
  rw [structPack_cons_of_some _ hpack]
  simp [structPack]

def packRecords (convert : Bool) (keys : List Key) : List Members → Option (List Item)
  | [] => some []
  | record :: rest => do
    let items ← packFields convert keys record
    let more ← packRecords convert keys rest
    some (items ++ more)

theorem packRecords_cons (record : Members) (rest : List Members) :
    (packRecords convert keys (record :: rest)).bind structPack =
      ((packFields convert keys record).bind structPack).bind fun a =>
        ((packRecords convert keys rest).bind structPack).map (a ++ ·) := by
  rw [packRecords]
  cases packFields convert keys record with
  | none => rfl
  | some items =>
    cases packRecords convert keys rest with
    | none => cases hitems : structPack items <;> simp [hitems]
    | some more => exact structPack_append items more

theorem packRecords_of_forall₂ {chunks : List (List UInt8)}
    (h : List.Forall₂ (fun record chunk => (packFields convert keys record).bind structPack = some chunk) records
      chunks) :
    (packRecords convert keys records).bind structPack = some chunks.flatten := by
  induction h with
  | nil => rfl
  | cons hfirst _ ih =>
    rw [packRecords_cons, hfirst, ih]
    rfl

theorem packRecords_structPack (hkeys : TextsFirst keys)
    (hshape : ∀ record ∈ records, recordShaped convert keys record = true) :
    (packRecords convert keys records).bind structPack =
      if records.all (recordFits convert keys) then
        some (records.map (recordBytes convert keys)).flatten else none := by
  induction records with
  | nil => rfl
  | cons record rest ih =>
    have hfirst := packFields_structPack hkeys (hshape record List.mem_cons_self)
    have hrest := ih fun r hr => hshape r (List.mem_cons_of_mem _ hr)
    rw [packRecords_cons, hfirst, hrest, List.all_cons]
    by_cases hfits : recordFits convert keys record = true
    · simp only [hfits, if_true, Bool.true_and, Option.bind_some]
      split <;> rfl
    · simp [hfits]

theorem packUntilEmpty_eq {configs : List Json} (h : configs.takeWhile Json.truthy = records.map Json.object) :
    packUntilEmpty keys configs = packRecords false keys records := by
  induction configs generalizing records with
  | nil =>
    rw [List.takeWhile_nil, eq_comm, List.map_eq_nil_iff] at h
    rw [h]
    rfl
  | cons config rest ih =>
    rw [List.takeWhile_cons] at h
    by_cases htruthy : config.truthy = true
    · rw [if_pos htruthy] at h
      cases records with
      | nil => exact absurd h (List.cons_ne_nil _ _)
      | cons record records =>
        obtain ⟨rfl, htail⟩ := List.cons.inj h
        rw [packUntilEmpty, if_pos htruthy, packRecords, ih htail]
        rfl
    · rw [if_neg htruthy, eq_comm, List.map_eq_nil_iff] at h
      rw [packUntilEmpty, if_neg htruthy, h]
      rfl

def nonNull : Json → Bool
  | .null => false
  | _ => true

theorem packNonNull_eq {configs : List Json} (h : configs.filter nonNull = records.map Json.object) :
    packNonNull keys configs = packRecords false keys records := by
  induction configs generalizing records with
  | nil =>
    rw [List.filter_nil, eq_comm, List.map_eq_nil_iff] at h
    rw [h]
    rfl
  | cons config rest ih =>
    by_cases hnull : nonNull config = true
    · rw [List.filter_cons_of_pos hnull] at h
      cases records with
      | nil => exact absurd h (List.cons_ne_nil _ _)
      | cons record records =>
        obtain ⟨rfl, htail⟩ := List.cons.inj h
        rw [packRecords, ← ih htail]
        rfl
    · rw [List.filter_cons_of_neg hnull] at h
      cases config with
      | null => exact ih h
      | number | boolean | text | array | object => exact absurd rfl hnull

theorem packGraphs_eq (records : List Members) :
    packGraphs (records.map Json.object) = packRecords true graphConfigList records := by
  induction records with
  | nil => rfl
  | cons record rest ih =>
    rw [List.map_cons, packGraphs, packRecords, ih]
    rfl

end Packing

section Unpacking

def Json.int (v : Json) : ℤ := v.asInt.getD 0

def Json.items : Json → List Json
  | .array items => items
  | _ => []

def Json.ascii : Json → List UInt8
  | .text s => asciiBytes s
  | _ => []

/-- Width and bounds of a member that is a single number. -/
def scalarRange (key : Key) : Option (ℕ × ℤ × ℤ) :=
  if key ∈ keysOf .s ∨ key ∈ arrayKeys then none else (keyToEncodingMap key).bind Code.range

@[simp] theorem intBytes_length (width : ℕ) (n : ℤ) : (intBytes width n).length = width := leBytes_length width _

theorem reads_unpackValue (width : ℕ) (n : ℤ) :
    Reads (unpackValue width) (intBytes width n) (BitVec.ofInt (8 * width) n) := by
  have htake : Reads (Reader.take width : Unpack (List UInt8)) (intBytes width n) (intBytes width n) := by
    have h : Reads (Reader.take (intBytes width n).length : Unpack (List UInt8)) (intBytes width n)
      (intBytes width n) := reads_take (intBytes width n)
    rwa [intBytes_length] at h
  have hpow : 2 ^ (8 * width) = 256 ^ width := by rw [pow_mul]; norm_num
  have hword : BitVec.ofNat (8 * width) (leNat (intBytes width n)) = BitVec.ofInt (8 * width) n := by
    apply BitVec.eq_of_toNat_eq
    have hlt : (n % 256 ^ width).toNat < 256 ^ width := by
      have hmod := Int.emod_lt_of_pos n (by positivity : (0 : ℤ) < 256 ^ width)
      have hnonneg := Int.emod_nonneg n (by positivity : (256 : ℤ) ^ width ≠ 0)
      zify
      rwa [Int.toNat_of_nonneg hnonneg]
    rw [BitVec.toNat_ofNat, BitVec.toNat_ofInt, intBytes, leNat_leBytes_of_lt width _ hlt,
      hpow, Nat.mod_eq_of_lt hlt]
    push_cast
    rfl
  rw [← hword]
  exact htake.map

theorem bounds_of_holdsInt (h : code.holdsInt v = true)
    (hrange : code.range = some (width, low, high)) : low ≤ v.int ∧ v.int ≤ high := by
  obtain ⟨width', low', high', n, hrange', hn, hlow, hhigh⟩ := exists_of_holdsInt h
  obtain ⟨-, rfl, rfl⟩ : width' = width ∧ low' = low ∧ high' = high := by simpa using hrange'.symm.trans hrange
  rw [Json.int, hn]
  exact ⟨hlow, hhigh⟩

theorem fieldBytes_int {key : Key} (hshape : shaped key v = true)
    (hkey : scalarRange key = some (width, low, high)) :
    fieldBytes key v = intBytes width v.int ∧ low ≤ v.int ∧ v.int ≤ high := by
  have hplain : ¬(key ∈ keysOf .s ∨ key ∈ arrayKeys) := fun h => by simp [scalarRange, h] at hkey
  rw [scalarRange, if_neg hplain] at hkey
  cases shaped_of_true hshape with
  | text hs => exact absurd (.inl hs) hplain
  | array _ harray => exact absurd (.inr harray) hplain
  | @scalar _ _ code hcode v hint =>
    rw [hcode, Option.bind_some] at hkey
    have hbytes : fieldBytes key v = scalarBytes code v := by
      obtain ⟨m, rfl⟩ | ⟨b, rfl⟩ := cases_of_holdsInt hint
      · simp only [fieldBytes, hcode, Option.getD_some]
      · simp only [fieldBytes, hcode, Option.getD_some]
    rw [hbytes, scalarBytes, hkey]
    exact ⟨rfl, bounds_of_holdsInt hint hkey⟩

theorem reads_int {key : Key} (hshape : shaped key v = true) (hkey : scalarRange key = some (width, low, high)) :
    Reads (unpackValue width) (fieldBytes key v) (BitVec.ofInt (8 * width) v.int) := by
  rw [(fieldBytes_int hshape hkey).1]
  exact reads_unpackValue width v.int

theorem reads_unpackUInt32 {key : Key} (hshape : shaped key v = true)
    (hkey : scalarRange key = some (4, low, high)) :
    Reads unpackUInt32 (fieldBytes key v) (BitVec.ofInt 32 v.int) := reads_int hshape hkey

theorem toInt_length (h : n < 2 ^ 31) : (BitVec.ofInt 32 (n : ℤ)).toInt = n :=
  BitVec.toInt_ofInt_eq_self (by decide) (by omega) (by omega)

theorem toNat_length (h : n < 2 ^ 31) : (BitVec.ofInt 32 (n : ℤ)).toNat = n := by
  rw [BitVec.toNat_ofInt]
  omega

theorem reads_unpackString_bytes {data : List UInt8} (hlen : data.length < 2 ^ 31) :
    Reads unpackString (intBytes 4 data.length ++ data) (some data) := by
  have hlength : Reads unpackUInt32 (intBytes 4 data.length) (BitVec.ofInt 32 data.length) := reads_unpackValue 4 _
  apply hlength.bind
  have hnonneg : ¬(BitVec.ofInt 32 (data.length : ℤ)).toInt < 0 := by rw [toInt_length hlen]; omega
  rw [if_neg hnonneg, toNat_length hlen]
  exact (reads_take data).map

theorem reads_unpackString_text (hlen : s.length ≤ nameMaxLen) :
    Reads unpackString (textBytes s) (some (asciiBytes s)) := by
  have hlength : (asciiBytes s).length = s.length := List.length_map _
  have hsmall : (asciiBytes s).length < 2 ^ 31 := by rw [hlength]; exact lt_of_le_of_lt hlen (by decide)
  rw [textBytes, ← hlength]
  exact reads_unpackString_bytes hsmall

theorem reads_unpackString {key : Key} (hshape : shaped key v = true) (hkey : key ∈ keysOf .s)
    (htext : shortText v = true) : Reads unpackString (fieldBytes key v) (some v.ascii) := by
  cases shaped_of_true hshape with
  | text _ s _ => exact reads_unpackString_text (of_decide_eq_true htext)
  | array hs => exact absurd hkey hs
  | scalar hs => exact absurd hkey hs

theorem reads_unpackVector {chunks : List (List UInt8)} {values : List (BitVec (8 * width))}
    (h : List.Forall₂ (Reads (unpackValue width)) chunks values) (hlen : chunks.length < 2 ^ 31) :
    Reads (unpackVector width (BitVec.ofInt 32 chunks.length)) chunks.flatten values := by
  have hnonneg : ¬(BitVec.ofInt 32 (chunks.length : ℤ)).toInt < 0 := by rw [toInt_length hlen]; omega
  rw [unpackVector, if_neg hnonneg, toNat_length hlen]
  exact reads_times h

theorem runs_array_bind {A : Type} {items : List Json} {decode : Json → BitVec (8 * width)}
    {f : List (BitVec (8 * width)) → Unpack A} {back : List UInt8} {result : Except Failure A}
    (hitems : ∀ v ∈ items, Reads (unpackValue width) (scalarBytes code v) (decode v)) (hlen : items.length < 2 ^ 31)
    (hback : Runs (f (items.map decode)) back result) :
    Runs (unpackUInt32 >>= fun length => unpackVector width length >>= f)
      (arrayBytes code items ++ back) result := by
  have hlength : Reads unpackUInt32 (intBytes 4 items.length) (BitVec.ofInt 32 items.length) :=
    reads_unpackValue 4 _
  have hchunks : List.Forall₂ (Reads (unpackValue width)) (items.map (scalarBytes code)) (items.map decode) :=
    List.forall₂_map_left_iff.mpr (List.forall₂_map_right_iff.mpr (List.forall₂_same.mpr hitems))
  have hvector := reads_unpackVector hchunks (by rwa [List.length_map])
  rw [List.length_map] at hvector
  rw [arrayBytes, List.append_assoc]
  exact hlength.bind_runs (hvector.bind_runs hback)

theorem fieldBytes_array {key : Key} (hshape : shaped key v = true) (harray : key ∈ arrayKeys)
    (hcode : keyToEncodingMap key = some code) :
    fieldBytes key v = arrayBytes code v.items ∧ v.items.all code.fits = true := by
  have hstrings : ∀ key ∈ keysOf .s, key ∉ arrayKeys := by decide
  cases shaped_of_true hshape with
  | text hkey => exact absurd harray (hstrings key hkey)
  | array _ _ hcode' items hfits =>
    obtain rfl := Option.some.inj (hcode'.symm.trans hcode)
    simp only [fieldBytes, hcode, Option.getD_some]
    exact ⟨rfl, hfits⟩
  | scalar _ hplain => exact absurd harray hplain

theorem length_of_shortArray (h : shortArray v = true) : v.items.length < 2 ^ 31 := by
  cases v with
  | array items => exact of_decide_eq_true h
  | null | number | boolean | text | object => simp [Json.items]

theorem reads_item (hcode : code.range = some (width, low, high)) :
    Reads (unpackValue width) (scalarBytes code v) (BitVec.ofInt (8 * width) v.int) := by
  rw [scalarBytes, hcode]
  exact reads_unpackValue width v.int

end Unpacking

end AieBaremetal.Metadata
