import AieBaremetal.Metadata.Fields

/-!
# Sections of well-formed records

A record is well-formed when its names are short ASCII strings, its numbers within the range of their
format code, and not negative where the parser keeps them without a sign. A section of such records is
read back record by record: after each the pointer of the parser stands where the packer ended it. The
size symbol has 32 bits, so a section has to be smaller than that.
-/

namespace AieBaremetal.Metadata

open Common Common.Reader

def memberInt (record : Members) (key : Key) : ℤ := (member record key).int

def memberText (record : Members) (key : Key) : List UInt8 := (member record key).ascii

def memberInts (record : Members) (key : Key) : List ℤ := (member record key).items.map Json.int

/-- A record within the script's limits, whose members in `unsigned` are not negative. -/
def wellFormed (keys unsigned : List Key) (record : Members) : Bool :=
  recordShaped false keys record && recordFits false keys record && unsigned.all fun key => 0 ≤ memberInt record key

variable {high low : ℤ} {width : ℕ}

theorem toNat_unsigned {n : ℤ} (hlow : 0 ≤ n) (hhigh : n < 2 ^ width) :
    ((BitVec.ofInt width n).toNat : ℤ) = n := by
  rw [BitVec.toNat_ofInt]
  push_cast
  rw [Int.emod_eq_of_lt hlow hhigh, Int.toNat_of_nonneg hlow]

theorem flag_of_toNat {x : BitVec 8} {n : ℤ} (hvalue : (x.toNat : ℤ) = n) : (x != 0) = (n != 0) := by
  have hiff : x = 0 ↔ n = 0 := by
    rw [← hvalue, ← BitVec.toNat_inj]
    exact Int.natCast_eq_zero.symm
  rw [Bool.eq_iff_iff, bne_iff_ne, bne_iff_ne, Ne, hiff]

theorem toInt_items_h {items : List Json} (h : items.all Code.h.fits = true) :
    (items.map fun v => BitVec.ofInt 16 v.int).map BitVec.toInt = items.map Json.int := by
  rw [List.map_map]
  apply List.map_congr_left
  intro v hv
  have hint : Code.h.holdsInt v = true := by simpa [Code.fits] using List.all_eq_true.mp h v hv
  obtain ⟨hlow, hhigh⟩ := bounds_of_holdsInt hint rfl
  exact BitVec.toInt_ofInt_eq_self (by decide) hlow (Int.lt_of_le_sub_one hhigh)

section WellFormed

variable {keys unsigned : List Key} {record : Members}

theorem fetched_false (record : Members) (key : Key) : fetched false record key = member record key :=
  if_neg (by simp)

variable (h : wellFormed keys unsigned record = true)

include h

theorem shaped_of_wellFormed {key : Key} (hkey : key ∈ keys) : shaped key (member record key) = true := by
  simp only [wellFormed, Bool.and_eq_true] at h
  simpa only [fetched_false] using List.all_eq_true.mp h.1.1 key hkey

theorem short_of_wellFormed {key : Key} (hkey : key ∈ keys) :
    shortText (member record key) = true ∧ shortArray (member record key) = true := by
  simp only [wellFormed, Bool.and_eq_true] at h
  simpa only [fetched_false, Bool.and_eq_true] using List.all_eq_true.mp h.1.2 key hkey

theorem nonneg_of_wellFormed {key : Key} (hkey : key ∈ unsigned) : 0 ≤ memberInt record key := by
  simp only [wellFormed, Bool.and_eq_true] at h
  exact of_decide_eq_true (List.all_eq_true.mp h.2 key hkey)

theorem readsTo_scalar {key : Key} {post : BitVec (8 * width) → Prop} (hkey : key ∈ keys)
    (hrange : scalarRange key = some (width, low, high))
    (hpost : low ≤ memberInt record key → memberInt record key ≤ high →
      post (BitVec.ofInt (8 * width) (memberInt record key))) :
    ReadsTo (unpackValue width) (fieldBytes key (member record key)) post := by
  obtain ⟨hbytes, hlow, hhigh⟩ := fieldBytes_int (shaped_of_wellFormed h hkey) hrange
  rw [hbytes]
  exact ⟨_, reads_unpackValue width _, hpost hlow hhigh⟩

-- The conditions on a key are about the tables of the script, and decided when a key is given.

theorem readsTo_i (key : Key) (hkey : key ∈ keys := by decide)
    (hrange : scalarRange key = some (4, -2 ^ 31, 2 ^ 31 - 1) := by rfl) :
    ReadsTo unpackUInt32 (fieldBytes key (member record key)) (·.toInt = memberInt record key) :=
  readsTo_scalar h hkey hrange fun hlow hhigh =>
    BitVec.toInt_ofInt_eq_self (by decide) hlow (Int.lt_of_le_sub_one hhigh)

theorem readsTo_h (key : Key) (hkey : key ∈ keys := by decide)
    (hrange : scalarRange key = some (2, -2 ^ 15, 2 ^ 15 - 1) := by rfl) :
    ReadsTo unpackShort (fieldBytes key (member record key)) (·.toInt = memberInt record key) :=
  readsTo_scalar h hkey hrange fun hlow hhigh =>
    BitVec.toInt_ofInt_eq_self (by decide) hlow (Int.lt_of_le_sub_one hhigh)

theorem readsTo_B (key : Key) (hkey : key ∈ keys := by decide)
    (hrange : scalarRange key = some (1, 0, 2 ^ 8 - 1) := by rfl) :
    ReadsTo unpackUInt8 (fieldBytes key (member record key)) fun x => (x.toNat : ℤ) = memberInt record key :=
  readsTo_scalar h hkey hrange fun hlow hhigh => toNat_unsigned hlow (Int.lt_of_le_sub_one hhigh)

theorem readsTo_Q (key : Key) (hkey : key ∈ keys := by decide)
    (hrange : scalarRange key = some (8, 0, 2 ^ 64 - 1) := by rfl) :
    ReadsTo unpackUInt64 (fieldBytes key (member record key)) fun x => (x.toNat : ℤ) = memberInt record key :=
  readsTo_scalar h hkey hrange fun hlow hhigh => toNat_unsigned hlow (Int.lt_of_le_sub_one hhigh)

theorem readsTo_flag (key : Key) (hkey : key ∈ keys := by decide)
    (hrange : scalarRange key = some (1, 0, 2 ^ 8 - 1) := by rfl) :
    ReadsTo unpackBool (fieldBytes key (member record key)) (· = (memberInt record key != 0)) := by
  obtain ⟨_, hread, hvalue⟩ := readsTo_B h key hkey hrange
  exact ⟨_, hread.map, flag_of_toNat hvalue⟩

theorem readsTo_unsigned_h (key : Key) (hkey : key ∈ keys := by decide) (hunsigned : key ∈ unsigned := by decide)
    (hrange : scalarRange key = some (2, -2 ^ 15, 2 ^ 15 - 1) := by rfl) :
    ReadsTo unpackShort (fieldBytes key (member record key)) fun x => (x.toNat : ℤ) = memberInt record key :=
  readsTo_scalar h hkey hrange fun _ hhigh => toNat_unsigned (nonneg_of_wellFormed h hunsigned) (by omega)

theorem readsTo_unsigned_i (key : Key) (hkey : key ∈ keys := by decide) (hunsigned : key ∈ unsigned := by decide)
    (hrange : scalarRange key = some (4, -2 ^ 31, 2 ^ 31 - 1) := by rfl) :
    ReadsTo unpackUInt32 (fieldBytes key (member record key))
      fun x => ((x.setWidth 64).toNat : ℤ) = memberInt record key := by
  refine readsTo_scalar h hkey hrange fun _ hhigh => ?_
  rw [BitVec.toNat_setWidth_of_le (by decide)]
  exact toNat_unsigned (nonneg_of_wellFormed h hunsigned) (by omega)

theorem readsTo_text (key : Key) (hkey : key ∈ keys := by decide) (htext : key ∈ keysOf .s := by decide) :
    ReadsTo unpackString (fieldBytes key (member record key)) (· = some (memberText record key)) :=
  ⟨_, reads_unpackString (shaped_of_wellFormed h hkey) htext (short_of_wellFormed h hkey).1, rfl⟩

theorem readsTo_shorts {A : Type} {f : List (BitVec 16) → Unpack A} {back : List UInt8} {post : A → Prop}
    (key : Key) (hf : ∀ items, items.map BitVec.toInt = memberInts record key → ReadsTo (f items) back post)
    (hkey : key ∈ keys := by decide) (harray : key ∈ arrayKeys := by decide)
    (hcode : keyToEncodingMap key = some .h := by rfl) :
    ReadsTo (unpackUInt32 >>= fun length => unpackVector 2 length >>= f)
      (fieldBytes key (member record key) ++ back) post := by
  obtain ⟨hbytes, hfits⟩ := fieldBytes_array (shaped_of_wellFormed h hkey) harray hcode
  obtain ⟨a, ha, hpost⟩ := hf _ (toInt_items_h hfits)
  rw [hbytes]
  refine ⟨a, Runs.reads ?_, hpost⟩
  exact runs_array_bind (fun v _ => reads_item rfl) (length_of_shortArray (short_of_wellFormed h hkey).2) ha.runs

end WellFormed

section Records

variable {A C R : Type} {packed : Option (List UInt8)} {p : Unpack A} {post : A → Prop}

/-- What is packed takes up space, and what is read from it has a property. -/
def ReadBack (packed : Option (List UInt8)) (p : Unpack A) (post : A → Prop) : Prop :=
  ∃ bytes, bytes ≠ [] ∧ packed = some bytes ∧ ReadsTo p bytes post

theorem intBytes_ne_nil (width : ℕ) (n : ℤ) : intBytes (width + 1) n ≠ [] := by
  intro hnil
  have hlength := intBytes_length (width + 1) n
  simp [hnil] at hlength

theorem readBack_int (width : ℕ) {n : ℤ} {post : BitVec (8 * (width + 1)) → Prop}
    (h : packed = some (intBytes (width + 1) n))
    (hpost : post (BitVec.ofInt (8 * (width + 1)) n)) : ReadBack packed (unpackValue (width + 1)) post :=
  ⟨_, intBytes_ne_nil width n, h, _, reads_unpackValue (width + 1) n, hpost⟩

theorem chunks_of_readBack {pack : R → Option (List UInt8)} {load : Unpack C} {fields : R → C → Prop} {rs : List R}
    (h : ∀ r ∈ rs, ReadBack (pack r) load (fields r)) :
    ∃ chunks configs, List.Forall₂ (fun r chunk => pack r = some chunk) rs chunks ∧ (∀ chunk ∈ chunks, chunk ≠ []) ∧
      List.Forall₂ (Reads load) chunks configs ∧ List.Forall₂ fields rs configs := by
  induction rs with
  | nil => exact ⟨[], [], .nil, by simp, .nil, .nil⟩
  | cons r rest ih =>
    obtain ⟨bytes, hne, hpack, config, hread, hfields⟩ := h r List.mem_cons_self
    obtain ⟨chunks, configs, hpacks, hnes, hreads, hmatches⟩ := ih fun r hr => h r (List.mem_cons_of_mem _ hr)
    exact ⟨bytes :: chunks, config :: configs, .cons hpack hpacks, List.forall_mem_cons.mpr ⟨hne, hnes⟩,
      .cons hread hreads, .cons hfields hmatches⟩

end Records

section Sections

/-- The section consists of the bytes of the records, which are read with every field equal and the cursor at the
end of each. -/
def SectionReadBack {C : Type} (file : Option (List UInt8)) (keys : List Key) (load : Unpack C)
    (fields : Members → C → Prop) (records : List Members) : Prop :=
  ∃ chunks, List.Forall₂ (fun record chunk => (packFields false keys record).bind structPack = some chunk) records
    chunks ∧
    file = some chunks.flatten ∧
    (chunks.flatten.length < 2 ^ 32 → ∀ outside fuel, records.length < fuel → ∃ configs,
      loadRecords load (BitVec.ofNat 32 chunks.flatten.length) fuel (sectionMemory outside chunks.flatten) 0 =
        .ok (configs.zip (boundaries 0 chunks), chunks.flatten.length) ∧
      List.Forall₂ fields records configs)

theorem holds_sectionMemory (outside : ℤ → UInt8) (bytes : List UInt8) :
    Holds (sectionMemory outside bytes) 0 bytes :=
  holds_store outside bytes

theorem insideSection_of_lt {n : ℕ} {cursor : ℤ} (hsize : n < 2 ^ 32) (hlow : 0 ≤ cursor) (hhigh : cursor < n) :
    insideSection (BitVec.ofNat 32 n) cursor = true := by
  have hcursor := toNat_unsigned hlow (show cursor < 2 ^ 32 by omega)
  rw [insideSection, BitVec.ult, BitVec.toNat_ofNat, Nat.mod_eq_of_lt hsize]
  apply decide_eq_true
  omega

theorem insideSection_end {n : ℕ} (hsize : n < 2 ^ 32) : insideSection (BitVec.ofNat 32 n) n = false := by
  have hcursor := toNat_unsigned (Int.natCast_nonneg n) (show (n : ℤ) < 2 ^ 32 by omega)
  rw [insideSection, BitVec.ult, BitVec.toNat_ofNat, Nat.mod_eq_of_lt hsize]
  apply decide_eq_false
  omega

theorem readWhile_section {C : Type} {load : Unpack C} {chunks : List (List UInt8)} {configs : List C}
    {mem : ℤ → UInt8} {fuel : ℕ} (h : ReadsFrom load mem 0 chunks configs) (hne : ∀ chunk ∈ chunks, chunk ≠ [])
    (hsize : chunks.flatten.length < 2 ^ 32) (hfuel : chunks.length < fuel) :
    Reader.readWhile (insideSection (BitVec.ofNat 32 chunks.flatten.length)) load .outOfFuel fuel mem 0 =
      .ok (configs, chunks.flatten.length) := by
  have hinside (cursor : ℤ) (hlow : 0 ≤ cursor) (hhigh : cursor < 0 + chunks.flatten.length) :=
    insideSection_of_lt hsize hlow (by rwa [zero_add] at hhigh)
  have hend : insideSection (BitVec.ofNat 32 chunks.flatten.length) (0 + chunks.flatten.length) = false := by
    rw [zero_add, insideSection_end hsize]
  simpa only [zero_add] using h.readWhile .outOfFuel hne hinside hend hfuel

theorem recordBytes_ne_nil {convert : Bool} {first : Key} {keys : List Key} {record : Members}
    (hshape : recordShaped convert (first :: keys) record = true)
    (hfirst : scalarRange first = some (width + 1, low, high)) :
    recordBytes convert (first :: keys) record ≠ [] := by
  have hkind := List.all_eq_true.mp hshape first List.mem_cons_self
  have hlength := congrArg List.length (fieldBytes_int hkind hfirst).1
  rw [intBytes_length] at hlength
  intro hnil
  rw [recordBytes, List.map_cons, List.flatten_cons, List.append_eq_nil_iff] at hnil
  simp [hnil.1] at hlength

theorem sectionReadBack {C : Type} {file : Option (List UInt8)} {first : Key} {keys unsigned : List Key}
    {load : Unpack C} {fields : Members → C → Prop} {records : List Members}
    (hkeys : TextsFirst (first :: keys)) (hfirst : scalarRange first = some (width + 1, low, high))
    (hfile : file = (packRecords false (first :: keys) records).bind structPack)
    (hrecords : ∀ record ∈ records, wellFormed (first :: keys) unsigned record = true)
    (hload : ∀ record ∈ records, ReadsTo load (recordBytes false (first :: keys) record) (fields record)) :
    SectionReadBack file (first :: keys) load fields records := by
  have hread (record : Members) (hmem : record ∈ records) :
      ReadBack ((packFields false (first :: keys) record).bind structPack) load (fields record) := by
    have h := hrecords record hmem
    simp only [wellFormed, Bool.and_eq_true] at h
    have hpack := packFields_structPack hkeys h.1.1
    rw [if_pos h.1.2] at hpack
    exact ⟨_, recordBytes_ne_nil h.1.1 hfirst, hpack, hload record hmem⟩
  obtain ⟨chunks, configs, hpacks, hne, hreads, hfields⟩ := chunks_of_readBack hread
  refine ⟨chunks, hpacks, hfile.trans (packRecords_of_forall₂ hpacks), ?_⟩
  intro hsize outside fuel hfuel
  have hfrom := (readsFrom_of_forall₂ hreads (holds_sectionMemory outside _)).marked
  exact ⟨configs, readWhile_section hfrom hne hsize (hpacks.length_eq ▸ hfuel), hfields⟩

end Sections

end AieBaremetal.Metadata
