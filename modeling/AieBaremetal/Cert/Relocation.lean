import AieBaremetal.Cert.ElfLoader

/-!
# Which symbol a relocation is resolved with

A relocation names its symbol by number. `parse` takes the string with the same number in `.dynstr`,
which is the symbol's name only if `.dynstr` lists the names in the order of `.dynsym`. The strings
are read while relocations are applied, so what counts is how the earlier relocations have left them;
files that do not relocate `.dynstr` itself keep the strings they have.
-/

namespace AieBaremetal.Cert

open Common

variable {a : Applied} {m m' : SectionMemory} {sec : ℕ}

section Frame

/-- A patch changes nothing outside the words of its kind. -/
theorem Kind.patch_of_outside (kind : Kind) (m : SectionMemory) {sec' pos i : ℕ} (patch : BitVec 64)
    (h : sec' = sec → ∀ j ∈ kind.words, i < pos + 4 * j ∨ pos + 4 * j + 4 ≤ i) :
    kind.patch m sec pos patch (sec', i) = m (sec', i) := by
  have hword (m : SectionMemory) {j : ℕ} (hj : j ∈ kind.words) (word : BitVec 32) :
      storeWord m sec (pos + 4 * j) word (sec', i) = m (sec', i) :=
    storeWord_of_outside m word fun hsec => h hsec j hj
  cases kind with
  | scalar32BitKind => exact hword (j := 0) _ (by decide) _
  | shimDmaBaseAddrSymbolKind =>
    exact (hword (j := 8) _ (by decide) _).trans
      ((hword (j := 2) _ (by decide) _).trans (hword (j := 1) _ (by decide) _))
  | shimDmaAie4BaseAddrSymbolKind => exact (hword (j := 0) _ (by decide) _).trans (hword (j := 1) _ (by decide) _)
  | controlPacket57 => exact (hword (j := 3) _ (by decide) _).trans (hword (j := 2) _ (by decide) _)
  | controlPacket57Aie4 => exact (hword (j := 1) _ (by decide) _).trans (hword (j := 2) _ (by decide) _)
  | ucDmaRemotePtrSymbolKind | controlPacket48 | unknownSymbolKind => rfl

theorem Kind.patch_of_ne (kind : Kind) (m : SectionMemory) {sec' : ℕ} (pos : ℕ) (patch : BitVec 64) (h : sec' ≠ sec)
    (i : ℕ) : kind.patch m sec pos patch (sec', i) = m (sec', i) :=
  kind.patch_of_outside m patch fun hsec => absurd hsec h

variable {elf : Elf} {cc : Ccode} {symbolMap : SymbolMap}

theorem resolveRela_apply {rela : RelaPatch} (h : resolveRela elf cc symbolMap m rela = .apply a) :
    a.rela = rela ∧ ∃ dynsym dynstr, cc.dynsym[rela.symbol.toNat]? = some dynsym ∧
      cc.dynstr[rela.symbol.toNat]? = some dynstr ∧ a.sec = dynsym.sectionIndex.toNat ∧
      stringAt elf m dynstr = some a.name := by
  unfold resolveRela at h
  split at h
  · rename_i dynsym dynstr hsym hstr
    split at h
    · contradiction
    · rename_i name hname
      split at h
      · split at h
        · contradiction
        · obtain rfl := RelaStep.apply.inj h
          exact ⟨rfl, dynsym, dynstr, hsym, hstr, rfl, hname⟩
      · contradiction
  · contradiction

end Frame

section Run

variable {elf : Elf} {cc : Ccode} {symbolMap : SymbolMap}

/-- The loop comes to a relocation with a memory. -/
inductive Reaches (elf : Elf) (cc : Ccode) (symbolMap : SymbolMap) :
    List RelaPatch → SectionMemory → RelaPatch → SectionMemory → Prop
  | here (rela : RelaPatch) (rest : List RelaPatch) (m : SectionMemory) :
    Reaches elf cc symbolMap (rela :: rest) m rela m
  | later {rela rela' : RelaPatch} {rest : List RelaPatch} {m m' m'' : SectionMemory}
    (hturn : (patchRela elf cc symbolMap m rela').2 = some m') (hrest : Reaches elf cc symbolMap rest m' rela m'') :
    Reaches elf cc symbolMap (rela' :: rest) m rela m''

theorem patchRela_applied {rela : RelaPatch} :
    (patchRela elf cc symbolMap m rela).1 = some a ↔ resolveRela elf cc symbolMap m rela = .apply a := by
  unfold patchRela
  cases resolveRela elf cc symbolMap m rela <;> simp

theorem patchRelas_cons (elf : Elf) (cc : Ccode) (symbolMap : SymbolMap) (rela : RelaPatch) (rest : List RelaPatch)
    (m : SectionMemory) : patchRelas elf cc symbolMap (rela :: rest) m =
      ((patchRela elf cc symbolMap m rela).1.toList ++
          (patchRela elf cc symbolMap m rela).2.elim [] fun m => (patchRelas elf cc symbolMap rest m).1,
        (patchRela elf cc symbolMap m rela).2.bind fun m => (patchRelas elf cc symbolMap rest m).2) := by
  rw [patchRelas]
  rcases patchRela elf cc symbolMap m rela with ⟨here, _ | m₁⟩
  · simp
  · rfl

theorem mem_patchRelas {relas : List RelaPatch} :
    a ∈ (patchRelas elf cc symbolMap relas m).1 ↔
      ∃ rela m', Reaches elf cc symbolMap relas m rela m' ∧ resolveRela elf cc symbolMap m' rela = .apply a := by
  induction relas generalizing m with
  | nil =>
    refine ⟨fun h => absurd h List.not_mem_nil, ?_⟩
    rintro ⟨rela, m', hreach, -⟩
    cases hreach
  | cons rela rest ih =>
    have hfirst : a ∈ (patchRela elf cc symbolMap m rela).1.toList ↔
      resolveRela elf cc symbolMap m rela = .apply a := by
      rw [Option.mem_toList, patchRela_applied]
    rw [patchRelas]
    split
    · rename_i here hturn
      rw [hturn] at hfirst
      refine hfirst.trans ⟨fun h => ⟨rela, m, .here .., h⟩, ?_⟩
      rintro ⟨rela', m', hreach, hresolve⟩
      cases hreach with
      | here => exact hresolve
      | later hnext => simp [hturn] at hnext
    · rename_i here m₁ hturn
      rw [hturn] at hfirst
      rw [List.mem_append, hfirst, ih]
      constructor
      · rintro (h | ⟨rela', m', hreach, hresolve⟩)
        · exact ⟨rela, m, .here .., h⟩
        · exact ⟨rela', m', .later (by rw [hturn]) hreach, hresolve⟩
      · rintro ⟨rela', m', hreach, hresolve⟩
        cases hreach with
        | here => exact .inl hresolve
        | later hnext hrest =>
          rw [hturn] at hnext
          obtain rfl := Option.some.inj hnext
          exact .inr ⟨rela', m', hrest, hresolve⟩

/-- No relocation of a list has its symbol in a section. -/
def Spares (cc : Ccode) (relas : List RelaPatch) (sec : ℕ) : Prop :=
  ∀ rela ∈ relas, ∀ dynsym, cc.dynsym[rela.symbol.toNat]? = some dynsym → dynsym.sectionIndex.toNat ≠ sec

theorem patchRela_spares {rela : RelaPatch} (hspares : Spares cc [rela] sec)
    (hturn : (patchRela elf cc symbolMap m rela).2 = some m') (i : ℕ) : m' (sec, i) = m (sec, i) := by
  unfold patchRela at hturn
  split at hturn
  · obtain rfl := Option.some.inj hturn
    rfl
  · contradiction
  · rename_i a hresolve
    obtain ⟨-, dynsym, -, hsym, -, hsec, -⟩ := resolveRela_apply hresolve
    simp only at hturn
    split at hturn
    · obtain rfl := Option.some.inj hturn
      exact a.kind.patch_of_ne m _ _ (hsec ▸ (hspares rela List.mem_cons_self dynsym hsym).symm) i
    · contradiction

theorem Reaches.spares {relas : List RelaPatch} {rela : RelaPatch}
    (h : Reaches elf cc symbolMap relas m rela m') (hspares : Spares cc relas sec) (i : ℕ) :
    m' (sec, i) = m (sec, i) := by
  induction h with
  | here => rfl
  | later hturn _ ih =>
    have hfirst :=
      patchRela_spares (fun rela hmem => hspares rela (List.mem_singleton.mp hmem ▸ List.mem_cons_self)) hturn i
    exact (ih fun rela hmem => hspares rela (List.mem_cons_of_mem _ hmem)).trans hfirst

theorem stringAt_congr {place : ℕ × ℕ} (h : ∀ i, m' (place.1, i) = m (place.1, i)) :
    stringAt elf m' place = stringAt elf m place := by
  have hload : load m' (fun i => (place.1, place.2 + i)) = load m (fun i => (place.1, place.2 + i)) := by
    funext n
    exact List.map_congr_left fun i _ => h _
  rw [stringAt, stringAt, hload]

end Run

section Resolution

def symbolName (elf : Elf) (s : ℕ) : Option (List UInt8) := (parseSections elf).dynsym[s]?.map DynsymPatch.symName

/-- The string of `.dynstr` with a number, in a memory. -/
def positionName (elf : Elf) (m : SectionMemory) (s : ℕ) : Option (List UInt8) :=
  (parseSections elf).dynstr[s]?.bind (stringAt elf m)

/-- Every relocation was looked up by the name of its symbol. -/
def ResolvesSymbols (elf : Elf) (symbolMap : SymbolMap) : Prop :=
  ∀ a ∈ (patchElf elf symbolMap).1, symbolName elf a.rela.symbol.toNat = some a.name

/-- No relocation has its symbol in a section with strings. -/
def SparesNames (elf : Elf) : Prop :=
  ∀ place ∈ (parseSections elf).dynstr, Spares (parseSections elf) (parseSections elf).rela place.1

theorem positionName_of_apply {elf : Elf} {symbolMap : SymbolMap} {rela : RelaPatch}
    (h : resolveRela elf (parseSections elf) symbolMap m rela = .apply a) :
    a.rela = rela ∧ positionName elf m rela.symbol.toNat = some a.name := by
  obtain ⟨hrela, -, dynstr, -, hstr, -, hname⟩ := resolveRela_apply h
  rw [positionName, hstr, Option.bind_some, hname]
  exact ⟨hrela, rfl⟩

/-- The tables and the symbols say that a relocation is applied. -/
def TablesApply (elf : Elf) (symbolMap : SymbolMap) (rela : RelaPatch) (a : Applied) : Prop :=
  resolveRela elf (parseSections elf) symbolMap elf.memory rela = .apply a

/-- They let the loop go on behind a relocation. -/
def TablesPass (elf : Elf) (symbolMap : SymbolMap) (rela : RelaPatch) : Prop :=
  (patchRela elf (parseSections elf) symbolMap elf.memory rela).2.isSome

section Tables

variable {elf : Elf} {symbolMap : SymbolMap} {relas : List RelaPatch} {rela : RelaPatch}

/-- Two memories have the same strings of `.dynstr`. -/
def SameStrings (elf : Elf) (m m' : SectionMemory) : Prop :=
  ∀ place ∈ (parseSections elf).dynstr, ∀ i, m (place.1, i) = m' (place.1, i)

theorem SameStrings.resolveRela_eq (h : SameStrings elf m m') (rela : RelaPatch) :
    resolveRela elf (parseSections elf) symbolMap m rela =
      resolveRela elf (parseSections elf) symbolMap m' rela := by
  unfold resolveRela
  cases (parseSections elf).dynsym[rela.symbol.toNat]? with
  | none => rfl
  | some dynsym =>
    cases hstr : (parseSections elf).dynstr[rela.symbol.toNat]? with
    | none => rfl
    | some place =>
      dsimp only
      rw [stringAt_congr (h place (List.mem_of_getElem? hstr))]

/-- Whether the loop goes on depends on the strings only. -/
theorem SameStrings.passes_iff (h : SameStrings elf m elf.memory) (rela : RelaPatch) :
    (patchRela elf (parseSections elf) symbolMap m rela).2.isSome ↔ TablesPass elf symbolMap rela := by
  unfold TablesPass patchRela
  rw [h.resolveRela_eq]
  cases resolveRela elf (parseSections elf) symbolMap elf.memory rela with
  | skip => exact iff_of_true rfl rfl
  | fault => exact Iff.rfl
  | apply a =>
    dsimp only
    split
    · exact iff_of_true rfl rfl
    · exact Iff.rfl

/-- If `.dynstr` is not relocated, the loop comes to every relocation the tables let it come to. -/
theorem exists_reaches_iff
    (hspares : ∀ place ∈ (parseSections elf).dynstr, Spares (parseSections elf) relas place.1)
    (hm : SameStrings elf m elf.memory) :
    (∃ m', Reaches elf (parseSections elf) symbolMap relas m rela m') ↔
      ∃ before after, relas = before ++ rela :: after ∧ ∀ r ∈ before, TablesPass elf symbolMap r := by
  induction relas generalizing m with
  | nil =>
    constructor
    · rintro ⟨m', hreach⟩
      cases hreach
    · rintro ⟨before, after, hsplit, -⟩
      exact absurd hsplit (by simp)
  | cons first rest ih =>
    have hrest {m₁ : SectionMemory} (hturn : (patchRela elf (parseSections elf) symbolMap m first).2 = some m₁) :=
      @ih m₁ (fun place hplace r hr => hspares place hplace r (List.mem_cons_of_mem _ hr)) fun place hplace i =>
        (patchRela_spares (fun r hr => hspares place hplace r (List.mem_singleton.mp hr ▸ List.mem_cons_self))
          hturn i).trans
          (hm place hplace i)
    constructor
    · rintro ⟨m', hreach⟩
      cases hreach with
      | here => exact ⟨[], rest, rfl, nofun⟩
      | later hturn hlater =>
        obtain ⟨before, after, rfl, hpass⟩ := (hrest hturn).mp ⟨m', hlater⟩
        have hfirst : TablesPass elf symbolMap first := (hm.passes_iff first).mp (by rw [hturn]; rfl)
        exact ⟨first :: before, after, rfl, List.forall_mem_cons.mpr ⟨hfirst, hpass⟩⟩
    · rintro ⟨before, after, hsplit, hpass⟩
      cases before with
      | nil =>
        obtain ⟨rfl, rfl⟩ := List.cons.inj hsplit
        exact ⟨m, .here ..⟩
      | cons r before =>
        obtain ⟨rfl, rfl⟩ := List.cons.inj hsplit
        obtain ⟨hfirst, hpass⟩ := List.forall_mem_cons.mp hpass
        obtain ⟨m₁, hturn⟩ := Option.isSome_iff_exists.mp ((hm.passes_iff first).mpr hfirst)
        obtain ⟨m', hlater⟩ := (hrest hturn).mpr ⟨before, after, rfl, hpass⟩
        exact ⟨m', .later hturn hlater⟩

/-- The loop never changes the strings. -/
theorem Reaches.sameStrings (hspares : SparesNames elf)
    (h : Reaches elf (parseSections elf) symbolMap (parseSections elf).rela elf.memory rela m) :
    SameStrings elf m elf.memory :=
  fun place hplace i => h.spares (hspares place hplace) i

/-- What is applied if `.dynstr` is not relocated, read off the tables. -/
theorem mem_patchElf_iff (hspares : SparesNames elf) :
    a ∈ (patchElf elf symbolMap).1 ↔ ∃ before rela after, (parseSections elf).rela = before ++ rela :: after ∧
      (∀ r ∈ before, TablesPass elf symbolMap r) ∧ TablesApply elf symbolMap rela a := by
  rw [patchElf, mem_patchRelas]
  constructor
  · rintro ⟨rela, m, hreach, hresolve⟩
    obtain ⟨before, after, hsplit, hpass⟩ := (exists_reaches_iff hspares fun _ _ _ => rfl).mp ⟨m, hreach⟩
    exact ⟨before, rela, after, hsplit, hpass,
      ((hreach.sameStrings hspares).resolveRela_eq rela).symm.trans hresolve⟩
  · rintro ⟨before, rela, after, hsplit, hpass, hresolve⟩
    obtain ⟨m, hreach⟩ := (exists_reaches_iff hspares fun _ _ _ => rfl).mpr ⟨before, after, hsplit, hpass⟩
    exact ⟨rela, m, hreach, ((hreach.sameStrings hspares).resolveRela_eq rela).trans hresolve⟩

end Tables

/-- Every relocation is resolved with its own symbol exactly if, whenever one is applied, the string of `.dynstr`
with the number of the symbol, as the relocations before it have left it, is the name of the symbol. If no
relocation changes `.dynstr`, this is a condition on the tables of the file. -/
theorem patchElf_resolves_iff (elf : Elf) (symbolMap : SymbolMap) :
    (ResolvesSymbols elf symbolMap ↔
      ∀ rela m a, Reaches elf (parseSections elf) symbolMap (parseSections elf).rela elf.memory rela m →
        resolveRela elf (parseSections elf) symbolMap m rela = .apply a →
        positionName elf m rela.symbol.toNat = symbolName elf rela.symbol.toNat) ∧
    (SparesNames elf → (ResolvesSymbols elf symbolMap ↔
      ∀ before rela after a, (parseSections elf).rela = before ++ rela :: after →
        (∀ r ∈ before, TablesPass elf symbolMap r) → TablesApply elf symbolMap rela a →
        positionName elf elf.memory rela.symbol.toNat = symbolName elf rela.symbol.toNat)) := by
  constructor
  · constructor
    · intro h rela m a hreach hresolve
      obtain ⟨hrela, hname⟩ := positionName_of_apply hresolve
      rw [hname, ← hrela]
      exact (h a (mem_patchRelas.mpr ⟨rela, m, hreach, hresolve⟩)).symm
    · intro h a ha
      obtain ⟨rela, m, hreach, hresolve⟩ := mem_patchRelas.mp ha
      obtain ⟨hrela, hname⟩ := positionName_of_apply hresolve
      rw [hrela, ← h rela m a hreach hresolve, hname]
  · intro hspares
    constructor
    · intro h before rela after a hsplit hpass hresolve
      obtain ⟨hrela, hname⟩ := positionName_of_apply hresolve
      rw [hname, ← hrela]
      exact (h a ((mem_patchElf_iff hspares).mpr ⟨before, rela, after, hsplit, hpass, hresolve⟩)).symm
    · intro h a ha
      obtain ⟨before, rela, after, hsplit, hpass, hresolve⟩ := (mem_patchElf_iff hspares).mp ha
      obtain ⟨hrela, hname⟩ := positionName_of_apply hresolve
      rw [hrela, ← h before rela after a hsplit hpass hresolve, hname]

/-- The symbols `a` and `b`, the strings `b` and `a`, and a relocation of `a`. -/
def swappedElf : Elf where
  abiVersion := 2#8
  sections :=
    [⟨[], none, 0, [], []⟩,
      ⟨".ctrltext.0.0".toList, some (List.replicate 20 0), 0, [], []⟩,
      ⟨dynsymName, some (List.replicate 72 0), 3, [], [⟨0, 0#16⟩, ⟨3, 1#16⟩, ⟨1, 1#16⟩]⟩,
      ⟨dynstrName, some [0, 98, 0, 97, 0], 0, [], []⟩,
      ⟨relaDyn, some (List.replicate 24 0), 2, [⟨0#64, 1#32, 3#32, 0#64⟩], []⟩]

def swappedSymbols : SymbolMap := [([97], 0x1000#64), ([98], 0x2000#64)]

/-- The relocation of `a` is applied with the value of `b`. -/
theorem swappedElf_not_resolves :
    (patchElf swappedElf swappedSymbols).1 = [⟨⟨0#64, 1#32, 3#32, 0#64⟩, [98], 0x2000#64, 1, .scalar32BitKind⟩] ∧
      symbolName swappedElf 1 = some [97] ∧ ¬ ResolvesSymbols swappedElf swappedSymbols := by
  have happlied : (patchElf swappedElf swappedSymbols).1 =
      [⟨⟨0#64, 1#32, 3#32, 0#64⟩, [98], 0x2000#64, 1, .scalar32BitKind⟩] := by decide +kernel
  have hname : symbolName swappedElf 1 = some [97] := by decide +kernel
  refine ⟨happlied, hname, fun h => ?_⟩
  have hright := h _ (happlied ▸ List.mem_cons_self)
  rw [show symbolName swappedElf (1#32).toNat = some [97] from hname] at hright
  exact absurd hright (by decide)

end Resolution

end AieBaremetal.Cert
