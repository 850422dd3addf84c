import AieBaremetal.Cert.PatchedAlike

/-!
# Relocations of older files

An ELF with ABI version 2 keeps the kind of a relocation in its type. In other versions the addend
field holds both, the kind in the lower four bits. `parse` does not mask the addend out of the kind,
which is the whole field, cut to 32 bits. So a packed relocation has the kind that was packed only if
its addend is a multiple of `2 ^ 28`; otherwise its kind is unknown and it is skipped.
-/

namespace AieBaremetal.Cert

open Common

section Packing

/-- A relocation of ABI version 2 and its packed form. -/
structure Packed (rela packed : RelaPatch) : Prop where
  offset : packed.offset = rela.offset
  symbol : packed.symbol = rela.symbol
  kind_lt : rela.type.toNat < 16
  addend_lt : rela.addend.toNat < 2 ^ 59
  addend : packed.addend = (rela.addend <<< 4) ||| rela.type.setWidth 64

/-- A section of a file of ABI version 2 and of an older file. -/
def RepackedSection (shdr shdr' : ElfSection) : Prop :=
  shdr.name ≠ relaDyn ∧ shdr' = shdr ∨
    shdr.name = relaDyn ∧ shdr'.name = relaDyn ∧ shdr'.data.map List.length = shdr.data.map List.length ∧
      List.Forall₂ Packed shdr.relas shdr'.relas

/-- Files that differ in the encoding of the relocations only. -/
structure Repacked (elf old : Elf) : Prop where
  abi : elf.abiVersion = 2#8
  abi_old : old.abiVersion ≠ 2#8
  sections : List.Forall₂ RepackedSection elf.sections old.sections

theorem kind_ofValue_of_le {value : BitVec 32} (hle : 16 ≤ value.toNat) : Kind.ofValue value = none := by
  unfold Kind.ofValue
  split <;> first | rfl | omega

variable {rela packed : RelaPatch} (h : Packed rela packed)
include h

theorem Packed.addend_toNat : packed.addend.toNat = rela.addend.toNat * 2 ^ 4 + rela.type.toNat := by
  have hkind := h.kind_lt
  have haddend := h.addend_lt
  have hshift : (rela.addend <<< 4).toNat = rela.addend.toNat <<< 4 := by
    rw [BitVec.toNat_shiftLeft, Nat.mod_eq_of_lt]
    rw [Nat.shiftLeft_eq]
    omega
  have htype : (rela.type.setWidth 64).toNat = rela.type.toNat := by
    rw [BitVec.toNat_setWidth, Nat.mod_eq_of_lt (by omega)]
  rw [h.addend, BitVec.toNat_or, hshift, htype, ← Nat.shiftLeft_add_eq_or_of_lt hkind, Nat.shiftLeft_eq]

variable {elf old : Elf} (hfiles : Repacked elf old)
include hfiles

theorem Packed.relaAddend : relaAddend old packed = relaAddend elf rela := by
  have hkind := h.kind_lt
  rw [Cert.relaAddend, Cert.relaAddend, if_neg hfiles.abi_old, if_pos hfiles.abi]
  apply BitVec.eq_of_toNat_eq
  rw [BitVec.toNat_ushiftRight, h.addend_toNat, Nat.shiftRight_eq_div_pow]
  omega

theorem Packed.relaKind_of_multiple (hmultiple : rela.addend.toNat % 2 ^ 28 = 0) :
    relaKind old packed = relaKind elf rela := by
  have hkind := h.kind_lt
  rw [relaKind, relaKind, if_neg hfiles.abi_old, if_pos hfiles.abi]
  congr 1
  apply BitVec.eq_of_toNat_eq
  rw [BitVec.toNat_setWidth, h.addend_toNat]
  omega

theorem Packed.relaKind_of_not_multiple (hmultiple : rela.addend.toNat % 2 ^ 28 ≠ 0) :
    relaKind old packed = none := by
  have hkind := h.kind_lt
  rw [relaKind, if_neg hfiles.abi_old]
  apply kind_ofValue_of_le
  rw [BitVec.toNat_setWidth, h.addend_toNat]
  omega

theorem Packed.sameRela (hmultiple : rela.addend.toNat % 2 ^ 28 = 0) : SameRela elf old rela packed where
  symbol := h.symbol
  pos := by rw [relaPos, relaPos, h.offset]
  kind := h.relaKind_of_multiple hfiles hmultiple
  addend := h.relaAddend hfiles

end Packing

section Calls

/-- The calls of the patchers, until an access is undefined. -/
def relaCalls (elf : Elf) (cc : Ccode) (symbolMap : SymbolMap) : List RelaPatch → SectionMemory → List (Option Call)
  | [], _ => []
  | rela :: rest, m =>
    (patchRela elf cc symbolMap m rela).1.map (Applied.call elf) ::
      (patchRela elf cc symbolMap m rela).2.elim [] fun m => relaCalls elf cc symbolMap rest m

def parseCalls (elf : Elf) (symbolMap : SymbolMap) : List (Option Call) :=
  relaCalls elf (parseSections elf) symbolMap (parseSections elf).rela elf.memory

/-- Each relocation is applied alike, and the columns get the same code. -/
def AppliedAlike (elf old : Elf) (symbolMap : SymbolMap) : Prop :=
  parseCalls old symbolMap = parseCalls elf symbolMap ∧ parse old symbolMap = parse elf symbolMap

variable {elf old : Elf} (h : Repacked elf old)
include h

omit h in
theorem RepackedSection.sameButRelas {shdr shdr' : ElfSection} (h : RepackedSection shdr shdr') :
    SameButRelas shdr shdr' :=
  h.imp And.right fun ⟨hname, hname', _⟩ => ⟨hname, hname'⟩

omit h in
theorem RepackedSection.length {shdr shdr' : ElfSection} (h : RepackedSection shdr shdr') :
    shdr'.data.map List.length = shdr.data.map List.length := by
  rcases h with ⟨-, rfl⟩ | ⟨-, -, hlength, -⟩
  · rfl
  · exact hlength

theorem Repacked.getElem? (sec : ℕ) : Option.Rel RepackedSection elf.sections[sec]? old.sections[sec]? := by
  have hget {sections sections' : List ElfSection}
    (hsections : List.Forall₂ RepackedSection sections sections') (sec : ℕ) :
      Option.Rel RepackedSection sections[sec]? sections'[sec]? := by
    induction hsections generalizing sec with
    | nil => exact .none
    | cons hsame _ ih =>
      cases sec with
      | zero => exact .some hsame
      | succ sec => exact ih sec
  exact hget h.sections sec

theorem Repacked.collect {A B : Type} {R : A → B → Prop} {f : ℕ → ElfSection → List A}
    {f' : ℕ → ElfSection → List B}
    (hsame : ∀ sec shdr shdr', RepackedSection shdr shdr' → List.Forall₂ R (f sec shdr) (f' sec shdr')) :
    List.Forall₂ R (elf.collect f) (old.collect f') := by
  rw [Elf.collect, Elf.collect, h.sections.length_eq]
  have hrange : List.Forall₂ Eq (List.range old.sections.length) (List.range old.sections.length) :=
    List.forall₂_refl _
  refine List.rel_flatMap hrange ?_
  rintro sec _ rfl
  dsimp only
  generalize hshdr : elf.sections[sec]? = found
  generalize hshdr' : old.sections[sec]? = found'
  have hfound : Option.Rel RepackedSection found found' := hshdr ▸ hshdr' ▸ h.getElem? sec
  cases hfound with
  | none => exact .nil
  | some hsection => exact hsame sec _ _ hsection

theorem Repacked.rela : List.Forall₂ Packed (parseSections elf).rela (parseSections old).rela := by
  rw [parseSections_eq, parseSections_eq]
  refine h.collect fun _ shdr shdr' hsame => ?_
  rw [relasOf, relasOf]
  rcases hsame with ⟨hname, rfl⟩ | ⟨hname, hname', hlength, hrelas⟩
  · rw [if_neg (mt And.right hname)]
    exact .nil
  · have hsome : shdr'.data.isSome = shdr.data.isSome := by rw [← Option.isSome_map, hlength, Option.isSome_map]
    rw [hsome, hname, hname']
    split_ifs
    · exact hrelas
    · exact .nil

theorem Repacked.pieces : old.pieces = elf.pieces := by
  refine (List.forall₂_eq_eq_eq ▸ h.collect fun sec shdr shdr' hsame => ?_ : elf.pieces = old.pieces).symm
  have hname : shdr'.name = shdr.name := by
    rcases hsame.sameButRelas with rfl | ⟨hname, hname'⟩
    · rfl
    · rw [hname, hname']
  rw [pieceOf_eq, pieceOf_eq, hname, hsame.length]
  exact List.forall₂_refl _

theorem Repacked.alike : Alike id elf old where
  injective := Function.injective_id
  bound sec := by rw [id, h.sections.length_eq]
  size sec := by
    rw [Elf.bufferSize_eq, Elf.bufferSize_eq, Elf.contents, Elf.contents, id]
    generalize hshdr : elf.sections[sec]? = found
    generalize hshdr' : old.sections[sec]? = found'
    have hfound : Option.Rel RepackedSection found found' := hshdr ▸ hshdr' ▸ h.getElem? sec
    cases hfound with
    | none => rfl
    | some hsection => rw [Option.bind_some, Option.bind_some, hsection.length]
  dynstr := by
    rw [(parseSections_sameTables (h.sections.imp fun _ _ => RepackedSection.sameButRelas)).1]
    exact (List.map_id _).symm
  dynsym := by
    have hsame := congrArg (List.map BitVec.toNat)
      (parseSections_sameTables (h.sections.imp fun _ _ => RepackedSection.sameButRelas)).2
    rwa [List.map_map, List.map_map] at hsame

theorem Repacked.memory : MemoryAlike id elf elf.memory old.memory := by
  intro sec hlater i
  rw [Elf.memory, Elf.memory, Elf.contents, Elf.contents, id]
  dsimp only
  generalize hshdr : elf.sections[sec]? = found
  generalize hshdr' : old.sections[sec]? = found'
  have hfound : Option.Rel RepackedSection found found' := hshdr ▸ hshdr' ▸ h.getElem? sec
  cases hfound with
  | none => rfl
  | some hsection =>
    rcases hsection with ⟨-, rfl⟩ | ⟨hname, -⟩
    · rfl
    · exact absurd hname (hlater _ hshdr).1

variable (symbolMap : SymbolMap) {m m' : SectionMemory} (hm : MemoryAlike id elf m m') {rela packed : RelaPatch}
  (hpacked : Packed rela packed)
include hm hpacked

theorem Repacked.resolveRela_of_not_multiple (hmultiple : rela.addend.toNat % 2 ^ 28 ≠ 0) :
    resolveRela old (parseSections old) symbolMap m' packed =
      if (lookupSymbol elf (parseSections elf) symbolMap m rela.symbol).isSome then .skip else .fault := by
  rw [resolveRela_eq, hpacked.relaKind_of_not_multiple h hmultiple, hpacked.symbol,
    h.alike.lookupSymbol symbolMap hm]
  rcases lookupSymbol elf (parseSections elf) symbolMap m rela.symbol with _ | _ | _ <;> rfl

theorem Repacked.patchRela (hmultiple : ∀ a, (patchRela elf (parseSections elf) symbolMap m rela).1 = some a →
      rela.addend.toNat % 2 ^ 28 = 0) :
    (patchRela old (parseSections old) symbolMap m' packed).1.map (Applied.call old) =
        (patchRela elf (parseSections elf) symbolMap m rela).1.map (Applied.call elf) ∧
      Option.Rel (MemoryAlike id elf) (patchRela elf (parseSections elf) symbolMap m rela).2
        (patchRela old (parseSections old) symbolMap m' packed).2 := by
  by_cases hzero : rela.addend.toNat % 2 ^ 28 = 0
  · exact h.alike.patchRela symbolMap hm (hpacked.sameRela h hzero)
  · have hold := h.resolveRela_of_not_multiple symbolMap hm hpacked hzero
    have hnot (a : Applied) : resolveRela elf (parseSections elf) symbolMap m rela ≠ .apply a := fun ha =>
      hzero (hmultiple a (patchRela_applied.mpr ha))
    rw [Cert.patchRela, Cert.patchRela, hold, resolveRela_of_not_apply hnot]
    split_ifs
    · exact ⟨rfl, .some hm⟩
    · exact ⟨rfl, .none⟩

theorem Repacked.multiple_of_same {a : Applied}
    (hsame : (Cert.patchRela old (parseSections old) symbolMap m' packed).1.map (Applied.call old) =
      (Cert.patchRela elf (parseSections elf) symbolMap m rela).1.map (Applied.call elf))
    (ha : (Cert.patchRela elf (parseSections elf) symbolMap m rela).1 = some a) :
    rela.addend.toNat % 2 ^ 28 = 0 := by
  by_contra hzero
  have hold := h.resolveRela_of_not_multiple symbolMap hm hpacked hzero
  rw [ha, Option.map_some, Option.map_eq_some_iff] at hsame
  obtain ⟨a', ha', -⟩ := hsame
  rw [patchRela_applied, hold] at ha'
  split_ifs at ha'

omit hm hpacked in
/-- The loop makes the same calls exactly if no relocation that it applies hides its kind. -/
theorem Repacked.relaCalls {relas packeds : List RelaPatch} (hrelas : List.Forall₂ Packed relas packeds)
    {m m' : SectionMemory} (hm : MemoryAlike id elf m m') :
    (relaCalls old (parseSections old) symbolMap packeds m' = relaCalls elf (parseSections elf) symbolMap relas m ↔
        ∀ a ∈ (patchRelas elf (parseSections elf) symbolMap relas m).1, a.rela.addend.toNat % 2 ^ 28 = 0) ∧
      (relaCalls old (parseSections old) symbolMap packeds m' =
        relaCalls elf (parseSections elf) symbolMap relas m →
        Option.Rel (MemoryAlike id elf) (patchRelas elf (parseSections elf) symbolMap relas m).2
          (patchRelas old (parseSections old) symbolMap packeds m').2) := by
  induction hrelas generalizing m m' with
  | nil => exact ⟨⟨fun _ _ ha => absurd ha List.not_mem_nil, fun _ => rfl⟩, fun _ => .some hm⟩
  | @cons rela packed rest packeds hpacked _ ih =>
    rw [Cert.relaCalls, Cert.relaCalls, patchRelas_cons, patchRelas_cons, List.cons.injEq]
    have hrela {a : Applied} (ha : (Cert.patchRela elf (parseSections elf) symbolMap m rela).1 = some a) :
      a.rela = rela :=
      (resolveRela_apply (patchRela_applied.mp ha)).1
    by_cases hfirst : ∀ a, (Cert.patchRela elf (parseSections elf) symbolMap m rela).1 = some a →
        rela.addend.toNat % 2 ^ 28 = 0
    · obtain ⟨hcall, hafter⟩ := h.patchRela symbolMap hm hpacked hfirst
      have happlied : ∀ a ∈ (Cert.patchRela elf (parseSections elf) symbolMap m rela).1.toList,
          a.rela.addend.toNat % 2 ^ 28 = 0 := fun a ha => by
        rw [Option.mem_toList] at ha
        rw [hrela ha]
        exact hfirst a ha
      rw [hcall, eq_self, true_and, List.forall_mem_append, and_iff_right happlied]
      generalize (Cert.patchRela elf (parseSections elf) symbolMap m rela).2 = after at hafter
      generalize (Cert.patchRela old (parseSections old) symbolMap m' packed).2 = after' at hafter
      cases hafter with
      | none => exact ⟨⟨fun _ _ ha => absurd ha List.not_mem_nil, fun _ => rfl⟩, fun _ => .none⟩
      | some hm => exact ih hm
    · -- the kind of this relocation is hidden, and the calls differ
      obtain ⟨a, ha, hhidden⟩ : ∃ a, (Cert.patchRela elf (parseSections elf) symbolMap m rela).1 = some a ∧
          rela.addend.toNat % 2 ^ 28 ≠ 0 := by
        push Not at hfirst
        exact hfirst
      have hdiffer := mt (fun hsame => h.multiple_of_same symbolMap hm hpacked hsame ha) hhidden
      refine ⟨⟨fun hsame => absurd hsame.1 hdiffer, fun hall => absurd (hall a ?_) (hrela ha ▸ hhidden)⟩,
        fun hsame => absurd hsame.1 hdiffer⟩
      rw [ha]
      exact List.mem_append_left _ List.mem_cons_self

end Calls

/-- Files with the same relocations in both encodings apply each of them alike, and give every column the same
code, exactly if the addend of each applied relocation is a multiple of `2 ^ 28`. -/
theorem appliedAlike_iff (elf old : Elf) (symbolMap : SymbolMap) (h : Repacked elf old) :
    AppliedAlike elf old symbolMap ↔ ∀ a ∈ (patchElf elf symbolMap).1, a.rela.addend.toNat % 2 ^ 28 = 0 := by
  obtain ⟨hcalls, hmemory⟩ := h.relaCalls symbolMap h.rela h.memory
  refine Iff.trans ⟨And.left, fun hsame => ⟨hsame, ?_⟩⟩ hcalls
  rw [parse, parse, parseSections_cols, parseSections_cols, h.pieces]
  have hafter := hmemory hsame
  rw [← patchElf, ← patchElf] at hafter
  generalize (patchElf elf symbolMap).2 = after at hafter
  generalize (patchElf old symbolMap).2 = after' at hafter
  cases hafter with
  | none => rfl
  | @some m m' hm =>
    have hbytes : ∀ piece ∈ elf.pieces, bufBytes m' piece.2 = bufBytes m piece.2 := fun piece hpiece =>
      List.map_congr_left fun i _ => hm piece.2.1 (readLater_of_mem hpiece) i
    refine congrArg some (List.map_congr_left fun column hcolumn => ?_)
    obtain ⟨-, hcode⟩ := mem_tabulate.mp hcolumn
    obtain ⟨col, code⟩ := column
    obtain rfl : code = columnOf elf.pieces col := hcode
    exact congrArg (Prod.mk col) (colCode_congr hbytes col)

section Samples

def scalarElf (abi : BitVec 8) (type : BitVec 32) (addend : BitVec 64) : Elf where
  abiVersion := abi
  sections :=
    [⟨[], none, 0, [], []⟩,
      ⟨".ctrltext.0.0".toList, some (List.replicate 20 0), 0, [], []⟩,
      ⟨dynsymName, some (List.replicate 48 0), 3, [], [⟨0, 0#16⟩, ⟨1, 1#16⟩]⟩,
      ⟨dynstrName, some [0, 97, 0], 0, [], []⟩,
      ⟨relaDyn, some (List.replicate 24 0), 2, [⟨0#64, 1#32, type, addend⟩], []⟩]

theorem scalarElf_repacked {addend : BitVec 64} (h : addend.toNat < 2 ^ 59) :
    Repacked (scalarElf 2#8 3#32 addend) (scalarElf 0#8 0#32 ((addend <<< 4) ||| 3#64)) where
  abi := rfl
  abi_old := (by decide : (0#8 : BitVec 8) ≠ 2#8)
  sections := by
    have hsame {shdr : ElfSection} (hname : shdr.name ≠ relaDyn) : RepackedSection shdr shdr := .inl ⟨hname, rfl⟩
    refine .cons (hsame (by decide))
      (.cons (hsame (by decide)) (.cons (hsame (by decide)) (.cons (hsame (by decide))
      (.cons (.inr ⟨rfl, rfl, rfl, ?_⟩) .nil))))
    exact .cons ⟨rfl, rfl, (by decide : (3#32 : BitVec 32).toNat < 16), h, rfl⟩ .nil

/-- An addend of three times `2 ^ 28` is applied in both encodings. -/
theorem scalarElf_appliedAlike : AppliedAlike (scalarElf 2#8 3#32 0x30000000#64)
    (scalarElf 0#8 0#32 ((0x30000000#64 <<< 4) ||| 3#64)) [([97], 0x1000#64)] := by
  refine (appliedAlike_iff _ _ _ (scalarElf_repacked (by decide))).mpr ?_
  decide +kernel

/-- An addend of 4 is applied in ABI version 2 and skipped in the packed form. -/
theorem packedAddend_skipped : Repacked (scalarElf 2#8 3#32 4#64) (scalarElf 0#8 0#32 ((4#64 <<< 4) ||| 3#64)) ∧
    parseCalls (scalarElf 2#8 3#32 4#64) [([97], 0x1000#64)] = [some ⟨.scalar32BitKind, 1, 16, 0x1004#64⟩] ∧
    parseCalls (scalarElf 0#8 0#32 ((4#64 <<< 4) ||| 3#64)) [([97], 0x1000#64)] = [none] ∧
    parse (scalarElf 2#8 3#32 4#64) [([97], 0x1000#64)] = some [(0, List.replicate 16 0 ++ [4, 16, 0, 0])] ∧
    parse (scalarElf 0#8 0#32 ((4#64 <<< 4) ||| 3#64)) [([97], 0x1000#64)] = some [(0, List.replicate 20 0)] :=
  ⟨scalarElf_repacked (by decide), by decide +kernel, by decide +kernel, by decide +kernel, by decide +kernel⟩

end Samples

end AieBaremetal.Cert
