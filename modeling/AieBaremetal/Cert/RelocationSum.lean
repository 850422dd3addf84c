import AieBaremetal.Cert.ElfPatch
import AieBaremetal.Cert.Relocation
import Mathlib.Data.List.Pairwise
import Mathlib.Data.List.Forall2

/-!
# What relocations leave in a control ELF

A relocation of one of the three address kinds adds the value of its symbol and its addend to the
address field it names. If two relocations are always of the same kind at the same place or have no
byte in common, the additions commute: each field ends with its old value plus everything added to
it, in any order, and no other bit changes.
-/

namespace AieBaremetal.Cert

open Common

variable {elf : Elf} {kind : Kind} {m : SectionMemory} {rela' : RelaPatch} {relas : List RelaPatch} {sec : ℕ}
  {shdr : ElfSection}

section Strings

theorem stringStarts_lt {bytes : List UInt8} {p q : ℕ} {starts : Bool} (h : q ∈ stringStarts bytes p starts) :
    q < p + bytes.length := by
  induction bytes generalizing p starts with
  | nil => exact absurd h List.not_mem_nil
  | cons b rest ih =>
    rw [stringStarts, List.mem_append] at h
    rw [List.length_cons]
    rcases h with h | h
    · split at h
      · rw [List.mem_singleton.mp h]
        omega
      · exact absurd h List.not_mem_nil
    · have := ih h
      omega

theorem names_of_table {name : List Char} (h : name = relaDyn ∨ name = dynsymName ∨ name = dynstrName) :
    isCtrltext name = none ∧ isCtrldata name = none ∧ isPad name = none := by
  rcases h with rfl | rfl | rfl <;> decide

theorem parseSection_dynstr {cc : Ccode} {i : ℕ} {place : ℕ × ℕ} (h : place ∈ (parseSection elf cc i shdr).dynstr) :
    place ∈ cc.dynstr ∨ place.1 = i ∧ shdr.name = dynstrName ∧ ∃ data, shdr.data = some data ∧
    place.2 < data.length := by
  unfold parseSection at h
  split at h
  · exact .inl h
  · rename_i data hdata
    split at h
    · exact .inl h
    · exact .inl h
    · exact .inl h
    · split at h
      · exact .inl h
      · split at h
        · exact .inl h
        · split at h
          · rename_i hname
            rcases List.mem_append.mp h with h | h
            · exact .inl h
            · obtain ⟨p, hp, rfl⟩ := List.mem_map.mp h
              exact .inr ⟨rfl, hname, data, hdata, by simpa using stringStarts_lt hp⟩
          · exact .inl h

theorem parseSections_dynstr {place : ℕ × ℕ} (h : place ∈ (parseSections elf).dynstr) :
    ∃ shdr data, elf.sections[place.1]? = some shdr ∧ shdr.name = dynstrName ∧ shdr.data = some data ∧
      place.2 < data.length := by
  unfold parseSections at h
  revert h
  refine List.foldlRecOn (motive := fun cc => place ∈ Ccode.dynstr cc → _) _ _
    (fun h => absurd h List.not_mem_nil) ?_
  rintro cc ih ⟨shdr, i⟩ hmem h
  rcases parseSection_dynstr h with h | ⟨hi, hname, data, hdata, hlt⟩
  · exact ih h
  · exact ⟨shdr, data, hi ▸ List.mem_zipIdx_iff_getElem?.mp hmem, hname, hdata, hlt⟩

theorem lt_bufferSize {i : ℕ} (h : i < ((elf.contents sec).getD []).length) : i + 1 < elf.bufferSize sec := by
  unfold Elf.bufferSize
  cases hcontents : elf.contents sec with
  | none => simp [hcontents] at h
  | some data => simpa [hcontents] using h

theorem stringAt_of_zero {place : ℕ × ℕ} (h : place ∈ (parseSections elf).dynstr)
    (hzero : m (place.1, ((elf.contents place.1).getD []).length) = 0) :
    ∃ name, stringAt elf m place = some name := by
  obtain ⟨shdr, data, hshdr, -, hdata, hlt⟩ := parseSections_dynstr h
  have hcontents : elf.contents place.1 = some data := by rw [Elf.contents, hshdr, Option.bind_some, hdata]
  have hsize : elf.bufferSize place.1 = data.length + 1 := by rw [Elf.bufferSize, hcontents]
  have hmem : (0 : UInt8) ∈ load m (fun i => (place.1, place.2 + i)) (elf.bufferSize place.1 - place.2) := by
    rw [load, List.mem_map]
    refine ⟨data.length - place.2, ?_, ?_⟩
    · rw [List.mem_range, hsize]
      omega
    · rw [hcontents, Option.getD_some] at hzero
      rw [Nat.add_sub_cancel' hlt.le, hzero]
  exact ⟨_, by rw [stringAt, if_pos hmem]⟩

theorem stringAt_memory {place : ℕ × ℕ} (h : place ∈ (parseSections elf).dynstr) :
    ∃ name, stringAt elf elf.memory place = some name :=
  stringAt_of_zero h (by simp [Elf.memory, List.getD_eq_getElem?_getD])

end Strings

section Fields

def Kind.field : Kind → ℕ → ℕ → BitField (ℕ × ℕ)
  | .scalar32BitKind => scalarField
  | .shimDmaBaseAddrSymbolKind => aie2psField
  | .shimDmaAie4BaseAddrSymbolKind => aie4Field
  | _ => fun _ _ => ⟨0, Fin.elim0, fun i => i.elim0⟩

/-- The kinds that patch an address: scalars and both shim DMAs. -/
def Kind.IsAddress (kind : Kind) : Prop :=
  kind = .scalar32BitKind ∨ kind = .shimDmaBaseAddrSymbolKind ∨ kind = .shimDmaAie4BaseAddrSymbolKind

variable {kind : Kind} (h : kind.IsAddress) (sec pos : ℕ)
include h

theorem Kind.bitOf_patch (m : SectionMemory) (amount : ℤ) :
    bitOf (kind.patch m sec pos (BitVec.ofInt 64 amount)) = (kind.field sec pos).add amount (bitOf m) := by
  rcases h with rfl | rfl | rfl
  · exact bitOf_patchScalar32 ..
  · exact bitOf_aie2psPatch57 ..
  · exact bitOf_aie4Patch57 ..

theorem Kind.field_place (i : Fin (kind.field sec pos).width) : ∃ j ∈ kind.words, ∃ b,
    (kind.field sec pos).place i = (sec, b) ∧ pos + 4 * j ≤ b / 8 ∧ b / 8 < pos + 4 * j + 4 := by
  rcases h with rfl | rfl | rfl
  · have hi : i.val < 32 := i.isLt
    exact ⟨0, by decide, 8 * pos + i, rfl, by omega, by omega⟩
  · have hi : i.val < 57 := i.isLt
    by_cases hlow : i.val < 32
    · exact ⟨1, by decide, 8 * (pos + 4) + i, Prod.ext rfl (if_pos hlow), by omega, by omega⟩
    · by_cases hmid : i.val < 48
      · exact ⟨2, by decide, 8 * (pos + 8) + (i - 32), Prod.ext rfl ((if_neg hlow).trans (if_pos hmid)), by omega,
          by omega⟩
      · exact ⟨8, by decide, 8 * (pos + 32) + (i - 48), Prod.ext rfl ((if_neg hlow).trans (if_neg hmid)), by omega,
          by omega⟩
  · have hi : i.val < 57 := i.isLt
    by_cases hlow : i.val < 32
    · exact ⟨1, by decide, 8 * (pos + 4) + i, Prod.ext rfl (if_pos hlow), by omega, by omega⟩
    · exact ⟨0, by decide, 8 * pos + (i - 32), Prod.ext rfl (if_neg hlow), by omega, by omega⟩

theorem Kind.field_width_pos : 0 < (kind.field sec pos).width := by
  rcases h with rfl | rfl | rfl
  · exact (by decide : 0 < 32)
  · exact (by decide : 0 < 57)
  · exact (by decide : 0 < 57)

theorem Kind.words_ne_nil : kind.words ≠ [] := by
  rcases h with rfl | rfl | rfl <;> decide

end Fields

section Relocatable

def target (elf : Elf) (rela : RelaPatch) : Option ℕ :=
  (parseSections elf).dynsym[rela.symbol.toNat]?.bind fun dynsym =>
    if dynsym.sectionIndex.toNat < elf.sections.length then some dynsym.sectionIndex.toNat else none

/-- What a relocation patches: section, kind and position. -/
def relaPlace (elf : Elf) (rela : RelaPatch) : Option ℕ × Option Kind × ℕ :=
  (target elf rela, relaKind elf rela, relaPos rela)

def foundValue (elf : Elf) (symbolMap : SymbolMap) (rela : RelaPatch) : Option (BitVec 64) :=
  (positionName elf elf.memory rela.symbol.toNat).bind fun name => symbolMap.lookup name

def Touches (elf : Elf) (rela : RelaPatch) (place : ℕ × ℕ) : Prop :=
  ∃ kind, relaKind elf rela = some kind ∧ target elf rela = some place.1 ∧
    ∃ j ∈ kind.words, relaPos rela + 4 * j ≤ place.2 ∧ place.2 < relaPos rela + 4 * j + 4

/-- Relocations are at the same place or have no byte in common. -/
def RelasApart (elf : Elf) (rela rela' : RelaPatch) : Prop :=
  relaPlace elf rela = relaPlace elf rela' ∨ ∀ place, ¬ (Touches elf rela place ∧ Touches elf rela' place)

/-- A control ELF whose relocations patch addresses of control code, apart from each other. -/
structure Relocatable (elf : Elf) : Prop where
  abi : elf.abiVersion = 2#8
  kinds : ∀ rela ∈ (parseSections elf).rela, ∃ kind, relaKind elf rela = some kind ∧ kind.IsAddress
  targets : ∀ rela ∈ (parseSections elf).rela, ∀ sec, target elf rela = some sec →
    ∃ shdr, elf.sections[sec]? = some shdr ∧ ((isCtrltext shdr.name).isSome ∨ (isCtrldata shdr.name).isSome)
  inside : ∀ rela ∈ (parseSections elf).rela, ∀ place, Touches elf rela place →
    place.2 < ((elf.contents place.1).getD []).length
  apart : (parseSections elf).rela.Pairwise (RelasApart elf)

/-- Being apart is symmetric. -/
instance (elf : Elf) : Std.Symm (RelasApart elf) where
  symm _ _ h := h.imp Eq.symm fun hbytes place hboth => hbytes place hboth.symm

variable {elf : Elf} {symbolMap : SymbolMap}

theorem Relocatable.forall_apart (h : Relocatable elf) {rela : RelaPatch} (hmem : rela ∈ (parseSections elf).rela)
    (hmem' : rela' ∈ (parseSections elf).rela) : RelasApart elf rela rela' :=
  h.apart.forall_of_forall (fun _ _ => .inl rfl) hmem hmem'

theorem not_table_of_ctrl {name : List Char} (h : (isCtrltext name).isSome ∨ (isCtrldata name).isSome) :
    name ≠ relaDyn ∧ name ≠ dynstrName := by
  constructor
  · rintro rfl
    revert h
    decide
  · rintro rfl
    revert h
    decide

theorem Relocatable.sparesNames (h : Relocatable elf) : SparesNames elf := by
  intro place hplace rela hrela dynsym hsym heq
  obtain ⟨shdr, -, hshdr, hname, -⟩ := parseSections_dynstr hplace
  have hlt : dynsym.sectionIndex.toNat < elf.sections.length := heq ▸ (List.getElem?_eq_some_iff.mp hshdr).1
  have htarget : target elf rela = some place.1 := by
    rw [target, hsym, Option.bind_some, if_pos hlt, heq]
  obtain ⟨shdr', hshdr', hctrl⟩ := h.targets rela hrela _ htarget
  obtain rfl := Option.some.inj (hshdr.symm.trans hshdr')
  exact (not_table_of_ctrl hctrl).2 hname

/-- What a relocation adds, and to which field. -/
def additionOf (elf : Elf) (symbolMap : SymbolMap) (rela : RelaPatch) : Option (BitField (ℕ × ℕ) × ℤ) :=
  match target elf rela, relaKind elf rela, foundValue elf symbolMap rela with
  | some sec, some kind, some value => some (kind.field sec (relaPos rela), value.toNat + rela.addend.toInt)
  | _, _, _ => none

theorem value_add_addend (habi : elf.abiVersion = 2#8) (value : BitVec 64) (rela : RelaPatch) :
    value + relaAddend elf rela = BitVec.ofInt 64 (value.toNat + rela.addend.toInt) := by
  rw [relaAddend, if_pos habi, BitVec.ofInt_add, BitVec.ofInt_toInt, BitVec.ofInt_natCast, BitVec.ofNat_toNat,
    BitVec.setWidth_eq]

def KeepsStrings (elf : Elf) (m : SectionMemory) : Prop :=
  ∀ place ∈ (parseSections elf).dynstr, ∀ i, m (place.1, i) = elf.memory (place.1, i)

/-- A relocation is skipped and adds nothing, or it is applied with the value that was found for it. -/
theorem Relocatable.resolveRela (h : Relocatable elf) {rela : RelaPatch} (hrela : rela ∈ (parseSections elf).rela)
    (hstrings : KeepsStrings elf m) :
    (resolveRela elf (parseSections elf) symbolMap m rela = .skip ∧ additionOf elf symbolMap rela = none) ∨
      ∃ name value sec kind, kind.IsAddress ∧ target elf rela = some sec ∧ relaKind elf rela = some kind ∧
        resolveRela elf (parseSections elf) symbolMap m rela = .apply ⟨rela, name, value, sec, kind⟩ ∧
        additionOf elf symbolMap rela = some (kind.field sec (relaPos rela), value.toNat + rela.addend.toInt) := by
  obtain ⟨kind, hkind, haddress⟩ := h.kinds rela hrela
  cases hsym : (parseSections elf).dynsym[rela.symbol.toNat]? with
  | none => exact .inl ⟨by simp [Cert.resolveRela, hsym], by simp [additionOf, target, hsym]⟩
  | some dynsym =>
  cases hstr : (parseSections elf).dynstr[rela.symbol.toNat]? with
  | none =>
    exact .inl ⟨by simp [Cert.resolveRela, hsym, hstr], by simp [additionOf, foundValue, positionName, hstr]⟩
  | some place =>
  have hplace := List.mem_of_getElem? hstr
  obtain ⟨name, hname⟩ := stringAt_memory hplace
  have hname' : stringAt elf m place = some name := (stringAt_congr (hstrings place hplace)).trans hname
  have hfound : foundValue elf symbolMap rela = symbolMap.lookup name := by
    simp [foundValue, positionName, hstr, hname]
  cases hvalue : symbolMap.lookup name with
  | none =>
    exact .inl ⟨by simp [Cert.resolveRela, hsym, hstr, hname', hvalue], by simp [additionOf, hfound, hvalue]⟩
  | some value =>
  by_cases hlt : dynsym.sectionIndex.toNat < elf.sections.length
  · have htarget : target elf rela = some dynsym.sectionIndex.toNat := by simp [target, hsym, hlt]
    have hwords : kind.words ≠ [] := Kind.words_ne_nil haddress
    exact .inr ⟨name, value, _, kind, haddress, htarget, hkind,
      by simp [Cert.resolveRela, hsym, hstr, hname', hvalue, hlt, hkind, hwords],
      by simp [additionOf, htarget, hkind, hfound, hvalue]⟩
  · exact .inl
      ⟨by simp [Cert.resolveRela, hsym, hstr, hname', hvalue, hlt], by simp [additionOf, target, hsym, hlt]⟩

theorem Relocatable.patchRela (h : Relocatable elf) {rela : RelaPatch} (hrela : rela ∈ (parseSections elf).rela)
    (hstrings : KeepsStrings elf m) :
    ∃ m', (patchRela elf (parseSections elf) symbolMap m rela).2 = some m' ∧
      bitOf m' = BitField.addAll (additionOf elf symbolMap rela).toList (bitOf m) := by
  rcases h.resolveRela hrela hstrings with ⟨hskip, hnone⟩ | ⟨name, value, sec, kind, haddress, htarget, hkind,
    happly, hadd⟩
  · exact ⟨m, by rw [Cert.patchRela, hskip], by rw [hnone]; rfl⟩
  · have hinside : Applied.InBuffer elf ⟨rela, name, value, sec, kind⟩ := by
      intro j hj
      -- the last byte of the word is inside the contents
      have hlast := h.inside rela hrela (sec, relaPos rela + 4 * j + 3)
        ⟨kind, hkind, htarget, j, hj, Nat.le_add_right _ _, Nat.lt_succ_self _⟩
      exact (lt_bufferSize hlast).le
    have hturn : (Cert.patchRela elf (parseSections elf) symbolMap m rela).2 =
        some (Applied.run elf ⟨rela, name, value, sec, kind⟩ m) := by
      rw [Cert.patchRela, happly]
      exact if_pos hinside
    refine ⟨_, hturn, ?_⟩
    rw [hadd, Applied.run, value_add_addend h.abi]
    exact Kind.bitOf_patch haddress ..

theorem Relocatable.patchRelas (h : Relocatable elf)
    (hrelas : ∀ rela ∈ relas, rela ∈ (parseSections elf).rela) (hstrings : KeepsStrings elf m) :
    ∃ m', (patchRelas elf (parseSections elf) symbolMap relas m).2 = some m' ∧
      bitOf m' = BitField.addAll (relas.filterMap (additionOf elf symbolMap)) (bitOf m) := by
  induction relas generalizing m with
  | nil => exact ⟨m, rfl, rfl⟩
  | cons rela rest ih =>
    have hrela := hrelas rela List.mem_cons_self
    obtain ⟨m₁, hturn, hbits₁⟩ := h.patchRela hrela hstrings
    have hstrings₁ : KeepsStrings elf m₁ := fun place hplace i =>
      (patchRela_spares (fun _ hmem => h.sparesNames place hplace _ (List.mem_singleton.mp hmem ▸ hrela))
        hturn i).trans
        (hstrings place hplace i)
    obtain ⟨m₂, hrest, hbits₂⟩ := ih (fun rela hmem => hrelas rela (List.mem_cons_of_mem _ hmem)) hstrings₁
    refine ⟨m₂, ?_, ?_⟩
    · rw [Cert.patchRelas]
      split
      · rename_i hnone
        rw [hnone] at hturn
        contradiction
      · rename_i hsome
        rw [hsome] at hturn
        obtain rfl := Option.some.inj hturn
        exact hrest
    · rw [hbits₂, hbits₁, List.filterMap_cons]
      cases additionOf elf symbolMap rela <;> rfl

end Relocatable

section Additions

variable {elf : Elf} {symbolMap : SymbolMap}

theorem additionOf_eq_some {rela : RelaPatch} {addition : BitField (ℕ × ℕ) × ℤ}
    (h : additionOf elf symbolMap rela = some addition) :
    ∃ sec kind value, target elf rela = some sec ∧ relaKind elf rela = some kind ∧
      foundValue elf symbolMap rela = some value ∧
      addition = (kind.field sec (relaPos rela), value.toNat + rela.addend.toInt) := by
  unfold additionOf at h
  split at h
  · rename_i sec kind value htarget hkind hvalue
    exact ⟨sec, kind, value, htarget, hkind, hvalue, (Option.some.inj h).symm⟩
  · contradiction

theorem touches_of_place {rela : RelaPatch} (haddress : kind.IsAddress)
    (htarget : target elf rela = some sec) (hkind : relaKind elf rela = some kind)
    (i : Fin (kind.field sec (relaPos rela)).width) : ∃ b, (kind.field sec (relaPos rela)).place i = (sec, b) ∧
      Touches elf rela (sec, b / 8) := by
  obtain ⟨j, hj, b, hplace, hlow, hhigh⟩ := Kind.field_place haddress sec (relaPos rela) i
  exact ⟨b, hplace, kind, hkind, htarget, j, hj, hlow, hhigh⟩

theorem apart_of_touches {rela : RelaPatch} {sec' : ℕ} {kind' : Kind} (haddress : kind.IsAddress)
    (haddress' : kind'.IsAddress) (htarget : target elf rela = some sec) (htarget' : target elf rela' = some sec')
    (hkind : relaKind elf rela = some kind) (hkind' : relaKind elf rela' = some kind')
    (h : ∀ place, ¬ (Touches elf rela place ∧ Touches elf rela' place)) :
    BitField.Apart (kind.field sec (relaPos rela)) (kind'.field sec' (relaPos rela')) := by
  intro i j heq
  obtain ⟨b, hplace, htouch⟩ := touches_of_place haddress htarget hkind i
  obtain ⟨b', hplace', htouch'⟩ := touches_of_place haddress' htarget' hkind' j
  obtain ⟨rfl, rfl⟩ := Prod.mk.inj (hplace.symm.trans (heq.trans hplace'))
  exact h _ ⟨htouch, htouch'⟩

variable (h : Relocatable elf)
include h

theorem Relocatable.field_cases {rela : RelaPatch} (hrela : rela ∈ (parseSections elf).rela)
    (hrela' : rela' ∈ (parseSections elf).rela) {sec' : ℕ} {kind' : Kind}
    (htarget : target elf rela = some sec) (htarget' : target elf rela' = some sec')
    (hkind : relaKind elf rela = some kind) (hkind' : relaKind elf rela' = some kind') :
    (relaPlace elf rela = relaPlace elf rela' ∧ kind.field sec (relaPos rela) = kind'.field sec' (relaPos rela')) ∨
      (relaPlace elf rela ≠ relaPlace elf rela' ∧
        BitField.Apart (kind.field sec (relaPos rela)) (kind'.field sec' (relaPos rela'))) := by
  by_cases hsame : relaPlace elf rela = relaPlace elf rela'
  · refine .inl ⟨hsame, ?_⟩
    simp only [relaPlace, htarget, htarget', hkind, hkind', Prod.mk.injEq, Option.some.injEq] at hsame
    obtain ⟨rfl, rfl, hpos⟩ := hsame
    rw [hpos]
  · obtain ⟨_, heq, haddress⟩ := h.kinds rela hrela
    obtain rfl := Option.some.inj (hkind.symm.trans heq)
    obtain ⟨_, heq', haddress'⟩ := h.kinds rela' hrela'
    obtain rfl := Option.some.inj (hkind'.symm.trans heq')
    exact .inr ⟨hsame, apart_of_touches haddress haddress' htarget htarget' hkind hkind'
      ((h.forall_apart hrela hrela').resolve_left hsame)⟩

theorem Relocatable.compatible (hrelas : ∀ rela ∈ relas, rela ∈ (parseSections elf).rela) :
    ∀ addition ∈ relas.filterMap (additionOf elf symbolMap),
      ∀ addition' ∈ relas.filterMap (additionOf elf symbolMap),
      BitField.Compatible addition.1 addition'.1 := by
  intro addition hmem addition' hmem'
  obtain ⟨rela, hrela, hadd⟩ := List.mem_filterMap.mp hmem
  obtain ⟨rela', hrela', hadd'⟩ := List.mem_filterMap.mp hmem'
  obtain ⟨sec, kind, value, htarget, hkind, -, rfl⟩ := additionOf_eq_some hadd
  obtain ⟨sec', kind', value', htarget', hkind', -, rfl⟩ := additionOf_eq_some hadd'
  exact (h.field_cases (hrelas rela hrela) (hrelas rela' hrela') htarget htarget' hkind hkind').imp And.right
    And.right

end Additions

section Sum

/-- What is added at the place of a relocation: each value and addend whose name is found. -/
def addedTo (elf : Elf) (symbolMap : SymbolMap) (rela : RelaPatch) : ℤ :=
  (((parseSections elf).rela.filter fun rela' => relaPlace elf rela' = relaPlace elf rela).filterMap fun rela' =>
    (foundValue elf symbolMap rela').map fun value => (value.toNat : ℤ) + rela'.addend.toInt).sum

variable {elf : Elf} {symbolMap : SymbolMap} (h : Relocatable elf)
include h

open Classical in
/-- The additions to the field of a relocation are those of the relocations at its place. -/
theorem Relocatable.additions_filter {rela : RelaPatch} (hrela : rela ∈ (parseSections elf).rela)
    (htarget : target elf rela = some sec) (hkind : relaKind elf rela = some kind)
    (hrelas : ∀ rela ∈ relas, rela ∈ (parseSections elf).rela) :
    ((relas.filterMap (additionOf elf symbolMap)).filter fun addition =>
        addition.1 = kind.field sec (relaPos rela)).map Prod.snd =
      (relas.filter fun rela' => relaPlace elf rela' = relaPlace elf rela).filterMap fun rela' =>
        (foundValue elf symbolMap rela').map fun value => (value.toNat : ℤ) + rela'.addend.toInt := by
  induction relas with
  | nil => rfl
  | cons rela' rest ih =>
    have hrest := ih fun rela hmem => hrelas rela (List.mem_cons_of_mem _ hmem)
    have hrela' := hrelas rela' List.mem_cons_self
    cases hadd : additionOf elf symbolMap rela' with
    | none =>
      rw [List.filterMap_cons_none hadd, hrest]
      by_cases hsame : relaPlace elf rela' = relaPlace elf rela
      · -- the relocation has a section and a kind, so no value was found
        have hnone : foundValue elf symbolMap rela' = none := by
          obtain ⟨htarget', hkind', -⟩ : target elf rela' = some sec ∧ relaKind elf rela' = some kind ∧ _ := by
            simpa only [relaPlace, htarget, hkind, Prod.mk.injEq] using hsame
          cases hvalue : foundValue elf symbolMap rela' with
          | none => rfl
          | some value => simp [additionOf, htarget', hkind', hvalue] at hadd
        rw [List.filter_cons_of_pos (by simpa using hsame), List.filterMap_cons_none (by rw [hnone]; rfl)]
      · rw [List.filter_cons_of_neg (by simpa using hsame)]
    | some addition =>
      obtain ⟨sec', kind', value, htarget', hkind', hvalue, rfl⟩ := additionOf_eq_some hadd
      rw [List.filterMap_cons_some hadd]
      rcases h.field_cases hrela' hrela htarget' htarget hkind' hkind with ⟨hsame, hfield⟩ | ⟨hsame, hapart⟩
      · rw [List.filter_cons_of_pos (by simpa using hfield), List.filter_cons_of_pos (by simpa using hsame),
          List.map_cons, hrest, List.filterMap_cons_some (by rw [hvalue]; rfl)]
      · have hfield : kind'.field sec' (relaPos rela') ≠ kind.field sec (relaPos rela) := by
          intro heq
          rw [heq] at hapart
          obtain ⟨_, hkind'', haddress⟩ := h.kinds rela hrela
          obtain rfl := Option.some.inj (hkind.symm.trans hkind'')
          exact hapart ⟨0, Kind.field_width_pos haddress ..⟩ ⟨0, Kind.field_width_pos haddress ..⟩ rfl
        rw [List.filter_cons_of_neg (by simpa using hfield), List.filter_cons_of_neg (by simpa using hsame), hrest]

theorem Relocatable.read_field {rela : RelaPatch} (hrela : rela ∈ (parseSections elf).rela)
    (htarget : target elf rela = some sec) (hkind : relaKind elf rela = some kind) {m₀ : SectionMemory}
    (hbits : bitOf m = BitField.addAll ((parseSections elf).rela.filterMap (additionOf elf symbolMap)) (bitOf m₀)) :
    (kind.field sec (relaPos rela)).read (bitOf m) =
      (kind.field sec (relaPos rela)).read (bitOf m₀) + BitVec.ofInt _ (addedTo elf symbolMap rela) := by
  classical
  rw [hbits, BitField.read_addAll, addedTo, ← h.additions_filter hrela htarget hkind fun _ hmem => hmem]
  intro addition hmem
  obtain ⟨rela', hrela', hadd⟩ := List.mem_filterMap.mp hmem
  obtain ⟨sec', kind', value, htarget', hkind', -, rfl⟩ := additionOf_eq_some hadd
  exact (h.field_cases hrela' hrela htarget' htarget hkind' hkind).imp And.right And.right

end Sum

section Order

/-- Sections that may differ if they hold relocations. -/
def SameButRelas (shdr shdr' : ElfSection) : Prop := shdr' = shdr ∨ (shdr.name = relaDyn ∧ shdr'.name = relaDyn)

/-- Files that differ in the order of the relocations. -/
structure Reordered (elf elf' : Elf) : Prop where
  abi : elf'.abiVersion = elf.abiVersion
  sections : List.Forall₂ SameButRelas elf.sections elf'.sections
  relas : (parseSections elf).rela.Perm (parseSections elf').rela

/-- The same strings, and symbols in the same sections. -/
def SameTables (cc cc' : Ccode) : Prop :=
  cc'.dynstr = cc.dynstr ∧ cc'.dynsym.map DynsymPatch.sectionIndex = cc.dynsym.map DynsymPatch.sectionIndex

variable {elf elf' : Elf} {symbolMap : SymbolMap}

theorem parseSection_relaDyn (elf : Elf) (hname : shdr.name = relaDyn) (cc : Ccode) (i : ℕ) :
    (parseSection elf cc i shdr).dynstr = cc.dynstr ∧ (parseSection elf cc i shdr).dynsym = cc.dynsym := by
  obtain ⟨htext, hdata, hpad⟩ := names_of_table (.inl hname)
  unfold parseSection
  split
  · exact ⟨rfl, rfl⟩
  · rw [htext, hdata, hpad]
    simp only [hname, if_true, and_self]

theorem parseSection_sameTables {cc cc' : Ccode} (h : SameTables cc cc') {shdr' : ElfSection}
    (hsame : SameButRelas shdr shdr') (i : ℕ) :
    SameTables (parseSection elf cc i shdr) (parseSection elf' cc' i shdr') := by
  obtain ⟨hstr, hsym⟩ := h
  rcases hsame with rfl | ⟨hname, hname'⟩
  · unfold parseSection
    split
    · exact ⟨hstr, hsym⟩
    · split
      · exact ⟨hstr, hsym⟩
      · exact ⟨hstr, hsym⟩
      · exact ⟨hstr, hsym⟩
      · split
        · exact ⟨hstr, hsym⟩
        · split
          · refine ⟨hstr, ?_⟩
            simp only [List.map_append, hsym, List.map_map]
            rfl
          · split
            · exact ⟨by rw [hstr], hsym⟩
            · exact ⟨hstr, hsym⟩
  · obtain ⟨hstr₁, hsym₁⟩ := parseSection_relaDyn elf hname cc i
    obtain ⟨hstr₂, hsym₂⟩ := parseSection_relaDyn elf' hname' cc' i
    exact ⟨by rw [hstr₁, hstr₂, hstr], by rw [hsym₁, hsym₂, hsym]⟩

theorem parseSections_sameTables (h : List.Forall₂ SameButRelas elf.sections elf'.sections) :
    SameTables (parseSections elf) (parseSections elf') := by
  have hrun {sections sections' : List ElfSection}
    (hsections : List.Forall₂ SameButRelas sections sections') (k : ℕ)
      {cc cc' : Ccode} (hcc : SameTables cc cc') :
      SameTables ((sections.zipIdx k).foldl (fun cc e => parseSection elf cc e.2 e.1) cc)
        ((sections'.zipIdx k).foldl (fun cc e => parseSection elf' cc e.2 e.1) cc') := by
    induction hsections generalizing k cc cc' with
    | nil => exact hcc
    | cons hsame _ ih => exact ih (k + 1) (parseSection_sameTables hcc hsame k)
  exact hrun h 0 ⟨rfl, rfl⟩

theorem Reordered.sameTables (h : Reordered elf elf') : SameTables (parseSections elf) (parseSections elf') :=
  parseSections_sameTables h.sections

theorem Reordered.getElem? (h : Reordered elf elf') (hshdr : elf.sections[sec]? = some shdr)
    (hname : shdr.name ≠ relaDyn) : elf'.sections[sec]? = some shdr := by
  obtain ⟨hsec, rfl⟩ := List.getElem?_eq_some_iff.mp hshdr
  have hsec' : sec < elf'.sections.length := h.sections.length_eq ▸ hsec
  rcases (List.forall₂_iff_get.mp h.sections).2 sec hsec hsec' with heq | ⟨hrela, -⟩
  · exact List.getElem?_eq_some_iff.mpr ⟨hsec', heq⟩
  · exact absurd hrela hname

theorem Reordered.contents (h : Reordered elf elf') (hshdr : elf.sections[sec]? = some shdr)
    (hname : shdr.name ≠ relaDyn) : elf'.contents sec = elf.contents sec := by
  rw [Elf.contents, Elf.contents, h.getElem? hshdr hname, hshdr]

theorem Reordered.target (h : Reordered elf elf') (rela : RelaPatch) : target elf' rela = target elf rela := by
  have hget := congrArg (fun l => l[rela.symbol.toNat]?) h.sameTables.2
  simp only [List.getElem?_map] at hget
  rw [Cert.target, Cert.target, ← h.sections.length_eq]
  cases hsym : (parseSections elf).dynsym[rela.symbol.toNat]? with
  | none =>
    rw [hsym, Option.map_none, Option.map_eq_none_iff] at hget
    rw [hget]
  | some dynsym =>
    rw [hsym, Option.map_some, Option.map_eq_some_iff] at hget
    obtain ⟨dynsym', hsym', hindex⟩ := hget
    rw [hsym', Option.bind_some, Option.bind_some, hindex]

theorem Reordered.relaKind (h : Reordered elf elf') (rela : RelaPatch) :
    relaKind elf' rela = relaKind elf rela := by
  rw [Cert.relaKind, Cert.relaKind, h.abi]

theorem Reordered.foundValue (h : Reordered elf elf') (rela : RelaPatch) :
    foundValue elf' symbolMap rela = foundValue elf symbolMap rela := by
  have hname : positionName elf' elf'.memory rela.symbol.toNat = positionName elf elf.memory rela.symbol.toNat := by
    rw [positionName, positionName, h.sameTables.1]
    cases hstr : (parseSections elf).dynstr[rela.symbol.toNat]? with
    | none => rfl
    | some place =>
      obtain ⟨shdr, -, hshdr, hdynstr, -⟩ := parseSections_dynstr (List.mem_of_getElem? hstr)
      have hcontents := h.contents hshdr (hdynstr ▸ by decide)
      have hmemory (i : ℕ) : elf'.memory (place.1, i) = elf.memory (place.1, i) := by
        rw [Elf.memory, Elf.memory, hcontents]
      have hsize : elf'.bufferSize place.1 = elf.bufferSize place.1 := by
        rw [Elf.bufferSize, Elf.bufferSize, hcontents]
      simp only [Option.bind_some]
      rw [← stringAt_congr hmemory, stringAt, stringAt, hsize]
  rw [Cert.foundValue, Cert.foundValue, hname]

theorem Reordered.additionOf (h : Reordered elf elf') : additionOf elf' symbolMap = additionOf elf symbolMap := by
  funext rela
  rw [Cert.additionOf, Cert.additionOf, h.target, h.relaKind, h.foundValue]

theorem Reordered.touches (h : Reordered elf elf') : Touches elf' = Touches elf := by
  funext rela place
  rw [Touches, Touches, h.target, h.relaKind]

theorem Relocatable.reordered (hreloc : Relocatable elf) (h : Reordered elf elf') : Relocatable elf' where
  abi := h.abi.trans hreloc.abi
  kinds rela hrela := by
    rw [h.relaKind]
    exact hreloc.kinds rela (h.relas.mem_iff.mpr hrela)
  targets rela hrela sec htarget := by
    obtain ⟨shdr, hshdr, hctrl⟩ := hreloc.targets rela (h.relas.mem_iff.mpr hrela) sec (h.target rela ▸ htarget)
    exact ⟨shdr, h.getElem? hshdr (not_table_of_ctrl hctrl).1, hctrl⟩
  inside rela hrela place htouch := by
    rw [h.touches] at htouch
    have hrela' := h.relas.mem_iff.mpr hrela
    obtain ⟨-, -, htarget, -⟩ := id htouch
    obtain ⟨shdr, hshdr, hctrl⟩ := hreloc.targets rela hrela' place.1 htarget
    rw [h.contents hshdr (not_table_of_ctrl hctrl).1]
    exact hreloc.inside rela hrela' place htouch
  apart := by
    have hsame : RelasApart elf' = RelasApart elf := by
      funext rela rela'
      rw [RelasApart, RelasApart, relaPlace, relaPlace, relaPlace, relaPlace, h.target, h.target, h.relaKind,
        h.relaKind, h.touches]
    rw [hsame]
    exact (h.relas.pairwise_iff fun hapart => Std.Symm.symm _ _ hapart).mp hreloc.apart

theorem Relocatable.addAll_memory (hreloc : Relocatable elf) (h : Reordered elf elf')
    (hrelas : ∀ rela ∈ relas, rela ∈ (parseSections elf).rela)
    (hshdr : elf.sections[sec]? = some shdr) (hname : shdr.name ≠ relaDyn) (b : ℕ) :
    BitField.addAll (relas.filterMap (additionOf elf symbolMap)) (bitOf elf'.memory) (sec, b) =
      BitField.addAll (relas.filterMap (additionOf elf symbolMap)) (bitOf elf.memory) (sec, b) := by
  let shared : Set (ℕ × ℕ) := { place | ∃ shdr, elf.sections[place.1]? = some shdr ∧ shdr.name ≠ relaDyn }
  have hfields : ∀ addition ∈ relas.filterMap (additionOf elf symbolMap), ∀ i, addition.1.place i ∈ shared := by
    intro addition hmem i
    obtain ⟨rela, hrela, hadd⟩ := List.mem_filterMap.mp hmem
    obtain ⟨sec, kind, value, htarget, hkind, -, rfl⟩ := additionOf_eq_some hadd
    obtain ⟨_, hkind', haddress⟩ := hreloc.kinds rela (hrelas rela hrela)
    obtain rfl := Option.some.inj (hkind.symm.trans hkind')
    obtain ⟨b, hplace, -⟩ := touches_of_place haddress htarget hkind i
    obtain ⟨shdr, hshdr, hctrl⟩ := hreloc.targets rela (hrelas rela hrela) sec htarget
    rw [hplace]
    exact ⟨shdr, hshdr, (not_table_of_ctrl hctrl).1⟩
  refine BitField.addAll_congr hfields ?_ (sec, b) ⟨shdr, hshdr, hname⟩
  rintro ⟨sec, b⟩ ⟨shdr, hshdr, hname⟩
  simp only [bitOf, Elf.memory, h.contents hshdr hname]

/-- For every order of the relocations the patched sections are the same; each address field is its old value plus
the values and addends of its relocations whose names are found, modulo its width; and every other bit is the old
one. -/
theorem patchElf_adds (elf : Elf) (symbolMap : SymbolMap) (h : Relocatable elf) :
    ∃ m, (patchElf elf symbolMap).2 = some m ∧
      (∀ elf', Reordered elf elf' → ∃ m', (patchElf elf' symbolMap).2 = some m' ∧
        ∀ sec shdr, elf.sections[sec]? = some shdr → shdr.name ≠ relaDyn → ∀ i, m' (sec, i) = m (sec, i)) ∧
      (∀ rela ∈ (parseSections elf).rela, ∀ sec kind, target elf rela = some sec → relaKind elf rela = some kind →
        (((kind.field sec (relaPos rela)).read (bitOf m)).toNat : ℤ) =
          (((kind.field sec (relaPos rela)).read (bitOf elf.memory)).toNat + addedTo elf symbolMap rela) %
            2 ^ (kind.field sec (relaPos rela)).width) ∧
      ∀ place, (∀ rela ∈ (parseSections elf).rela, ∀ sec kind, target elf rela = some sec →
        relaKind elf rela = some kind →
        (foundValue elf symbolMap rela).isSome → ∀ i, (kind.field sec (relaPos rela)).place i ≠ place) →
        bitOf m place = bitOf elf.memory place := by
  have hloaded : KeepsStrings elf elf.memory := fun _ _ _ => rfl
  obtain ⟨m, hrun, hbits⟩ := h.patchRelas (fun _ hmem => hmem) hloaded
  refine ⟨m, hrun, ?_, ?_, ?_⟩
  · intro elf' hreorder
    have hloaded' : KeepsStrings elf' elf'.memory := fun _ _ _ => rfl
    obtain ⟨m', hrun', hbits'⟩ := (h.reordered hreorder).patchRelas (fun _ hmem => hmem) hloaded'
    refine ⟨m', hrun', fun sec shdr hshdr hname i => eq_of_bitOf_eq fun j _ => ?_⟩
    have hperm := BitField.addAll_perm (hreorder.relas.filterMap (additionOf elf symbolMap))
      (h.compatible fun _ hmem => hmem) (bitOf elf.memory)
    rw [hbits', hbits, hperm, hreorder.additionOf]
    exact h.addAll_memory hreorder (fun rela hrela => hreorder.relas.mem_iff.mpr hrela) hshdr hname _
  · intro rela hrela sec kind htarget hkind
    rw [h.read_field hrela htarget hkind hbits]
    exact BitField.toNat_add_ofInt ..
  · intro place hplace
    rw [hbits]
    refine BitField.addAll_of_ne (fun addition hmem => ?_) _
    obtain ⟨rela, hrela, hadd⟩ := List.mem_filterMap.mp hmem
    obtain ⟨sec, kind, value, htarget, hkind, hvalue, rfl⟩ := additionOf_eq_some hadd
    exact hplace rela hrela sec kind htarget hkind (by rw [hvalue]; rfl)

end Order

section Sample

def summedRelas : List RelaPatch := [⟨0#64, 1#32, 3#32, 4#64⟩, ⟨0#64, 1#32, 3#32, -1#64⟩]

def summedElf : Elf where
  abiVersion := 2#8
  sections :=
    [⟨[], none, 0, [], []⟩,
      ⟨".ctrltext.0.0".toList, some (List.replicate 20 0), 0, [], []⟩,
      ⟨dynsymName, some (List.replicate 48 0), 3, [], [⟨0, 0#16⟩, ⟨1, 1#16⟩]⟩,
      ⟨dynstrName, some [0, 97, 0], 0, [], []⟩, ⟨relaDyn, some (List.replicate 48 0), 2, summedRelas, []⟩]

theorem summedElf_rela : (parseSections summedElf).rela = summedRelas := by decide +kernel

theorem summedElf_place : ∀ rela ∈ summedRelas, relaPlace summedElf rela = (some 1, some .scalar32BitKind, 16) := by
  decide +kernel

theorem summedElf_relocatable : Relocatable summedElf where
  abi := rfl
  kinds rela hrela := by
    rw [summedElf_rela] at hrela
    exact ⟨_, congrArg (·.2.1) (summedElf_place rela hrela), .inl rfl⟩
  targets rela hrela sec htarget := by
    rw [summedElf_rela] at hrela
    obtain rfl : 1 = sec := Option.some.inj ((congrArg (·.1) (summedElf_place rela hrela)).symm.trans htarget)
    exact ⟨_, rfl, .inl (by decide)⟩
  inside rela hrela place htouch := by
    rw [summedElf_rela] at hrela
    obtain ⟨kind, hkind, htarget, j, hj, -, hhigh⟩ := htouch
    obtain ⟨htarget', hkind', hpos⟩ : target summedElf rela = some 1 ∧ relaKind summedElf rela =
      some .scalar32BitKind ∧
        relaPos rela = 16 := by simpa only [relaPlace, Prod.mk.injEq] using summedElf_place rela hrela
    obtain rfl := Option.some.inj (hkind.symm.trans hkind')
    obtain rfl : 0 = j := (List.mem_singleton.mp hj).symm
    have hsec : place.1 = 1 := Option.some.inj (htarget.symm.trans htarget')
    have hlength : ((summedElf.contents 1).getD []).length = 20 := rfl
    rw [hsec, hlength]
    omega
  apart := by
    rw [summedElf_rela]
    have hsame : relaPlace summedElf ⟨0#64, 1#32, 3#32, 4#64⟩ = relaPlace summedElf ⟨0#64, 1#32, 3#32, -1#64⟩ := by
      rw [summedElf_place _ (by decide), summedElf_place _ (by decide)]
    exact List.pairwise_pair.mpr (.inl hsame)

/-- The scalar ends with both sums of value and addend. -/
theorem summedElf_adds : ∃ m, (patchElf summedElf [([97], 0x1000#64)]).2 = some m ∧
    (((scalarField 1 16).read (bitOf m)).toNat : ℤ) = 0x2003 := by
  obtain ⟨m, hrun, -, hfield, -⟩ := patchElf_adds summedElf [([97], 0x1000#64)] summedElf_relocatable
  have hrela : ⟨0#64, 1#32, 3#32, 4#64⟩ ∈ (parseSections summedElf).rela := summedElf_rela ▸ List.mem_cons_self
  have hsum : addedTo summedElf [([97], 0x1000#64)] ⟨0#64, 1#32, 3#32, 4#64⟩ = 0x2003 := by decide +kernel
  have hold : ((scalarField 1 16).read (bitOf summedElf.memory)).toNat = 0 := by decide +kernel
  refine ⟨m, hrun, (hfield _ hrela 1 .scalar32BitKind (by decide +kernel) (by decide +kernel)).trans ?_⟩
  rw [hsum]
  exact (congrArg (fun n : ℕ => ((n : ℤ) + 0x2003) % 2 ^ 32) hold).trans (by decide)

end Sample

end AieBaremetal.Cert
