import AieBaremetal.Cert.Assembly
import AieBaremetal.Cert.CtrlPatch

/-!
# Parsing a control ELF again

`parse` patches the sections of the loaded file in place, so a second call decodes the patched
sections and adds the relocations again. The code stays as the first call left it if these change
nothing; for the address kinds they then add a multiple of the size of the field. How the bytes of a
table decode depends on the file and is left open, except that a loaded file has the decoded entries.
-/

namespace AieBaremetal.Cert

open Common

section Neutral

/-- A call that changes nothing, by the words it reads and its patch. -/
def Call.Neutral (call : Call) (m : SectionMemory) : Prop :=
  match call.kind with
  | .scalar32BitKind => call.patch.toNat % 2 ^ 32 = 0
  | .shimDmaBaseAddrSymbolKind | .shimDmaAie4BaseAddrSymbolKind => call.patch.toNat % 2 ^ 57 = 0
  | .controlPacket57 =>
    (ctrlAddr2ps m call.sec call.pos + call.patch.toNat) % 2 ^ 48 / 4 * 4 = ctrlAddr2ps m call.sec call.pos ∧
      packetWord m call.sec call.pos 3 / 2 ^ 16 ||| carry2ps (ctrlAddr2ps m call.sec call.pos) call.patch =
        packetWord m call.sec call.pos 3 / 2 ^ 16
  | .controlPacket57Aie4 => call.patch.toNat % 2 ^ 57 = 0 ∧
    packetWord m call.sec call.pos 0 / 2 ^ 25 = packetWord m call.sec call.pos 1 / 2 ^ 25
  | _ => True

theorem Kind.patch_eq_self_iff {kind : Kind} (h : kind.IsAddress) (m : SectionMemory)
    (sec pos : ℕ) (patch : BitVec 64) :
    kind.patch m sec pos patch = m ↔ patch.toNat % 2 ^ (kind.field sec pos).width = 0 := by
  have hpatch : patch = BitVec.ofInt 64 patch.toNat := by
    rw [BitVec.ofInt_natCast, BitVec.ofNat_toNat, BitVec.setWidth_eq]
  have hbits := Kind.bitOf_patch h sec pos m patch.toNat
  rw [← hpatch] at hbits
  rw [← bitOf_injective.eq_iff, hbits, BitField.add_eq_self_iff, BitVec.ofInt_natCast]
  exact ⟨fun hzero => by
    simpa using congrArg BitVec.toNat hzero, fun hzero => BitVec.eq_of_toNat_eq (by simpa using hzero)⟩

/-- A call changes nothing exactly if it is neutral. -/
theorem Call.run_eq_self_iff (call : Call) (m : SectionMemory) : call.run m = m ↔ call.Neutral m := by
  obtain ⟨kind, sec, pos, patch⟩ := call
  cases kind with
  | scalar32BitKind => exact Kind.patch_eq_self_iff (.inl rfl) ..
  | shimDmaBaseAddrSymbolKind => exact Kind.patch_eq_self_iff (.inr (.inl rfl)) ..
  | shimDmaAie4BaseAddrSymbolKind => exact Kind.patch_eq_self_iff (.inr (.inr rfl)) ..
  | controlPacket57 =>
    obtain ⟨hlow, hhigh, hrest, houtside⟩ := aie2psPatchCtrl57_patched m sec pos patch
    refine (eq_iff_words m sec pos houtside fun _ _ => rfl).trans ?_
    have hword3 : packetWord (aie2psPatchCtrl57 m sec pos patch) sec pos 3 = packetWord m sec pos 3 ↔
        packetWord (aie2psPatchCtrl57 m sec pos patch) sec pos 3 % 2 ^ 16 = packetWord m sec pos 3 % 2 ^ 16 ∧
          packetWord (aie2psPatchCtrl57 m sec pos patch) sec pos 3 / 2 ^ 16 =
            packetWord m sec pos 3 / 2 ^ 16 := by omega
    rw [hword3, hlow, hhigh, hrest, ← and_assoc]
    refine and_congr ?_ Iff.rfl
    dsimp only
    have hbound : packetWord m sec pos 2 < 2 ^ 32 := BitVec.isLt _
    rw [ctrlAddr2ps]
    omega
  | controlPacket57Aie4 =>
    obtain ⟨hlow, hhigh, hrest, houtside⟩ := aie4PatchCtrl57_patched m sec pos patch
    refine (eq_iff_words m sec pos houtside fun _ _ => rfl).trans ?_
    have hbound : packetWord m sec pos 2 < 2 ^ 32 := BitVec.isLt _
    rw [Call.Neutral, hlow]
    simp only [ctrlAddr4, Nat.reduceAdd] at hhigh ⊢
    omega
  | ucDmaRemotePtrSymbolKind | controlPacket48 | unknownSymbolKind => exact iff_of_true rfl trivial

end Neutral

section Loader

/-- How the bytes of a section decode to relocations and symbols. -/
structure Decoder where
  relas : ℕ → List UInt8 → List RelaPatch
  symbols : ℕ → List UInt8 → List ElfSymbol

/-- A section with its bytes in a memory, and what they decode to. -/
def Decoder.refresh (dec : Decoder) (m : SectionMemory) (i : ℕ) (shdr : ElfSection) : ElfSection :=
  match shdr.data with
  | none => shdr
  | some data =>
    let bytes := bufBytes m (i, data.length)
    { shdr with data := some bytes, relas := dec.relas i bytes, symbols := dec.symbols i bytes }

/-- The file as a call of `parse` finds it. -/
def reload (dec : Decoder) (elf : Elf) (m : SectionMemory) : Elf :=
  { elf with sections := elf.sections.mapIdx (dec.refresh m) }

/-- The entries of the tables are those their bytes decode to. -/
def Loaded (dec : Decoder) (elf : Elf) : Prop := reload dec elf elf.memory = elf

/-- A call of `parse`: the code of the columns and the memory it leaves. -/
def parseCall (dec : Decoder) (elf : Elf) (symbolMap : SymbolMap) (m : SectionMemory) :
    Option (Columns × SectionMemory) :=
  let elf := reload dec elf m
  let cc := parseSections elf
  (patchRelas elf cc symbolMap cc.rela m).2.map fun m' =>
    (cc.cols.map fun (col, code) => (col, colCode m' code), m')

/-- What a first and then so many further calls leave. -/
def parseTimes (dec : Decoder) (elf : Elf) (symbolMap : SymbolMap) : ℕ → Option (Columns × SectionMemory)
  | 0 => parseCall dec elf symbolMap elf.memory
  | n + 1 => (parseTimes dec elf symbolMap n).bind fun left => parseCall dec elf symbolMap left.2

/-- Any number of further calls leaves the code of one call. -/
def ParsesSame (dec : Decoder) (elf : Elf) (symbolMap : SymbolMap) : Prop :=
  ∀ n, (parseTimes dec elf symbolMap n).map Prod.fst = parse elf symbolMap

/-- The relocations of a call are in their buffers and change nothing. -/
def Steady (dec : Decoder) (elf : Elf) (symbolMap : SymbolMap) (m : SectionMemory) : Prop :=
  let elf := reload dec elf m
  let cc := parseSections elf
  ∀ rela m', Reaches elf cc symbolMap cc.rela m rela m' → resolveRela elf cc symbolMap m' rela ≠ .fault ∧
    ∀ a, resolveRela elf cc symbolMap m' rela = .apply a → a.InBuffer elf ∧ (a.call elf).Neutral m'

variable {dec : Decoder} {elf : Elf} {symbolMap : SymbolMap} {m : SectionMemory}

theorem reload_getElem? (i : ℕ) : (reload dec elf m).sections[i]? = elf.sections[i]?.map (dec.refresh m i) :=
  List.getElem?_mapIdx ..

theorem refresh_name (i : ℕ) (shdr : ElfSection) : (dec.refresh m i shdr).name = shdr.name := by
  unfold Decoder.refresh
  cases shdr.data <;> rfl

theorem refresh_length (i : ℕ) (shdr : ElfSection) :
    (dec.refresh m i shdr).data.map List.length = shdr.data.map List.length := by
  unfold Decoder.refresh
  cases hdata : shdr.data with
  | none => exact congrArg (Option.map List.length) hdata
  | some data => exact congrArg some (load_length ..)

theorem reload_collect {A : Type} (f : ℕ → ElfSection → List A) :
    (reload dec elf m).collect f = elf.collect fun i shdr => f i (dec.refresh m i shdr) := by
  have hlength : (reload dec elf m).sections.length = elf.sections.length := List.length_mapIdx
  rw [Elf.collect, Elf.collect, hlength]
  congr 1
  funext i
  rw [reload_getElem?]
  cases elf.sections[i]? <;> rfl

theorem reload_pieces : (reload dec elf m).pieces = elf.pieces := by
  rw [Elf.pieces, reload_collect, Elf.pieces]
  simp only [pieceOf_eq, refresh_name, refresh_length]

def codes (elf : Elf) (m : SectionMemory) : Columns :=
  tabulate (columnsOf elf.pieces) fun col => colCode m (columnOf elf.pieces col)

theorem cols_map_colCode (elf : Elf) (m : SectionMemory) :
    ((parseSections elf).cols.map fun (col, code) => (col, colCode m code)) = codes elf m := by
  rw [parseSections_cols, codes, tabulate, tabulate, List.map_map]
  rfl

theorem parseCall_eq : parseCall dec elf symbolMap m =
    (patchRelas (reload dec elf m) (parseSections (reload dec elf m)) symbolMap
      (parseSections (reload dec elf m)).rela m).2.map
      fun m' => (codes elf m', m') := by
  have hcodes (m' : SectionMemory) : codes (reload dec elf m) m' = codes elf m' := by
    rw [codes, codes, reload_pieces]
  simp only [parseCall, cols_map_colCode, hcodes]

theorem parseTimes_zero (symbolMap : SymbolMap) (h : Loaded dec elf) :
    parseTimes dec elf symbolMap 0 = (patchElf elf symbolMap).2.map fun m => (codes elf m, m) := by
  rw [parseTimes, parseCall_eq, h, patchElf]

theorem parse_eq_codes : parse elf symbolMap = (patchElf elf symbolMap).2.map (codes elf) := by
  rw [parse]
  cases (patchElf elf symbolMap).2 with
  | none => rfl
  | some m => exact congrArg some (cols_map_colCode elf m)

theorem patchRelas_of_neutral {cc : Ccode} {relas : List RelaPatch}
    (h : ∀ rela m', Reaches elf cc symbolMap relas m rela m' →
    resolveRela elf cc symbolMap m' rela ≠ .fault ∧
      ∀ a, resolveRela elf cc symbolMap m' rela = .apply a → a.InBuffer elf ∧ (a.call elf).Neutral m') :
    (patchRelas elf cc symbolMap relas m).2 = some m := by
  induction relas with
  | nil => rfl
  | cons rela rest ih =>
    obtain ⟨hends, happly⟩ := h rela m (.here ..)
    have hturn : (patchRela elf cc symbolMap m rela).2 = some m := by
      cases hresolve : resolveRela elf cc symbolMap m rela with
      | skip => rw [patchRela, hresolve]
      | fault => exact absurd hresolve hends
      | apply a =>
        obtain ⟨hbuffer, hneutral⟩ := happly a hresolve
        rw [patchRela_of_apply hresolve, (Call.run_eq_self_iff ..).mpr hneutral]
        exact if_pos hbuffer
    rw [patchRelas_cons, hturn]
    exact ih fun rela' m' hreach => h rela' m' (.later hturn hreach)

theorem parsesSame_of_steady (h : Loaded dec elf)
    (hsteady : ∀ m, (patchElf elf symbolMap).2 = some m → Steady dec elf symbolMap m) :
    ParsesSame dec elf symbolMap := by
  have hzero := parseTimes_zero symbolMap h
  have hall (n : ℕ) : parseTimes dec elf symbolMap n = parseTimes dec elf symbolMap 0 := by
    induction n with
    | zero => rfl
    | succ n ih =>
      rw [hzero] at ih ⊢
      rw [parseTimes, ih]
      cases hrun : (patchElf elf symbolMap).2 with
      | none => rfl
      | some m =>
        have hcall : parseCall dec elf symbolMap m = some (codes elf m, m) := by
          rw [parseCall_eq, patchRelas_of_neutral (hsteady m hrun)]
          rfl
        exact hcall
  intro n
  rw [hall, hzero, parse_eq_codes, Option.map_map]
  rfl

end Loader

section Relocatable

/-- The sections that are neither text nor data are as loaded. -/
def TablesKept (elf : Elf) (m : SectionMemory) : Prop :=
  ∀ sec shdr, elf.sections[sec]? = some shdr → ¬ IsPageName shdr.name → ∀ i, m (sec, i) = elf.memory (sec, i)

variable {dec : Decoder} {elf : Elf} (hloaded : Loaded dec elf) {m : SectionMemory} (hkept : TablesKept elf m)
include hloaded hkept

theorem TablesKept.refresh {i : ℕ} {shdr : ElfSection} (hshdr : elf.sections[i]? = some shdr)
    (hpage : ¬ IsPageName shdr.name) : dec.refresh m i shdr = shdr := by
  have hfirst : dec.refresh elf.memory i shdr = shdr := by
    have hget := congrArg (fun elf => elf.sections[i]?) hloaded
    simp only [reload_getElem?, hshdr, Option.map_some] at hget
    exact Option.some.inj hget
  have hbytes (n : ℕ) : bufBytes m (i, n) = bufBytes elf.memory (i, n) :=
    List.map_congr_left fun j _ => hkept i shdr hshdr hpage j
  have hsame : dec.refresh m i shdr = dec.refresh elf.memory i shdr := by simp only [Decoder.refresh, hbytes]
  rw [hsame, hfirst]

theorem TablesKept.collect {A : Type} {f : ℕ → ElfSection → List A}
    (hf : ∀ i shdr, IsPageName shdr.name → f i shdr = []) : (reload dec elf m).collect f = elf.collect f := by
  rw [reload_collect, Elf.collect, Elf.collect]
  congr 1
  funext i
  cases hshdr : elf.sections[i]? with
  | none => rfl
  | some shdr =>
    by_cases hpage : IsPageName shdr.name
    · have hpage' : IsPageName (dec.refresh m i shdr).name := by rwa [refresh_name]
      exact (hf i _ hpage').trans (hf i shdr hpage).symm
    · exact congrArg (f i) (hkept.refresh hloaded hshdr hpage)

theorem TablesKept.rela : (parseSections (reload dec elf m)).rela = (parseSections elf).rela := by
  rw [parseSections_eq, parseSections_eq]
  refine hkept.collect hloaded fun i shdr hpage => ?_
  obtain ⟨part, hpart, -⟩ := partOf_of_isPageName hpage
  exact (tables_of_partOf elf i hpart).1

theorem TablesKept.alike : Alike id elf (reload dec elf m) where
  injective := Function.injective_id
  bound sec := by rw [id, show (reload dec elf m).sections.length = elf.sections.length from List.length_mapIdx]
  size sec := by
    rw [Elf.bufferSize_eq, Elf.bufferSize_eq, Elf.contents, Elf.contents, id, reload_getElem?]
    cases elf.sections[sec]? with
    | none => rfl
    | some shdr => exact congrArg (fun size => size.elim 0 (· + 1)) (refresh_length sec shdr)
  dynstr := by
    rw [parseSections_eq, parseSections_eq]
    refine (hkept.collect hloaded fun i shdr hpage => ?_).trans (List.map_id _).symm
    obtain ⟨part, hpart, -⟩ := partOf_of_isPageName hpage
    exact (tables_of_partOf elf i hpart).2.2
  dynsym := by
    rw [parseSections_eq, parseSections_eq]
    dsimp only
    rw [Elf.map_collect, Elf.map_collect]
    have hindices (elf : Elf) (shdr : ElfSection) :
      (symbolsOf elf shdr).map (fun dynsym => dynsym.sectionIndex.toNat) =
        if shdr.data.isSome ∧ shdr.name = dynsymName then shdr.symbols.map fun symbol =>
          symbol.sectionIndex.toNat else [] := by
      rw [symbolsOf]
      split_ifs
      · exact List.map_map ..
      · rfl
    simp only [id, hindices]
    refine hkept.collect hloaded fun i shdr hpage => ?_
    obtain ⟨part, hpart, -⟩ := partOf_of_isPageName hpage
    exact if_neg fun hsym => (not_table_of_partOf hpart).2.1 hsym.2

variable (hreloc : Relocatable elf) (symbolMap : SymbolMap)
include hreloc

theorem Relocatable.parseCall : ∃ m', parseCall dec elf symbolMap m = some (codes elf m', m') ∧ TablesKept elf m' ∧
    bitOf m' = BitField.addAll ((parseSections elf).rela.filterMap (additionOf elf symbolMap)) (bitOf m) := by
  have hstrings : KeepsStrings elf m := by
    intro place hplace i
    obtain ⟨shdr, -, hshdr, hname, -⟩ := parseSections_dynstr hplace
    exact hkept place.1 shdr hshdr (hname ▸ by decide) i
  obtain ⟨m', hrun, hbits⟩ :=
    @Relocatable.patchRelas m (parseSections elf).rela elf symbolMap hreloc (fun _ hmem => hmem) hstrings
  refine ⟨m', ?_, ?_, hbits⟩
  · rw [parseCall_eq, hkept.rela hloaded, (hkept.alike hloaded).patchRelas_eq symbolMap rfl, hrun]
    rfl
  · intro sec shdr hshdr hpage i
    rw [← hkept sec shdr hshdr hpage i]
    refine eq_of_bitOf_eq fun j _ => ?_
    rw [hbits]
    refine BitField.addAll_of_ne (fun addition hmem k hplace => ?_) _
    obtain ⟨rela, hrela, hadd⟩ := List.mem_filterMap.mp hmem
    obtain ⟨sec', kind, value, htarget, hkind, -, rfl⟩ := additionOf_eq_some hadd
    obtain ⟨_, hkind', haddress⟩ := hreloc.kinds rela hrela
    obtain rfl := Option.some.inj (hkind.symm.trans hkind')
    obtain ⟨b, hplace', -⟩ := touches_of_place haddress htarget hkind k
    obtain ⟨rfl, -⟩ := Prod.mk.inj (hplace'.symm.trans hplace)
    obtain ⟨shdr', hshdr', hctrl⟩ := hreloc.targets rela hrela _ htarget
    obtain rfl := Option.some.inj (hshdr.symm.trans hshdr')
    exact hpage hctrl

end Relocatable

section Codes

variable {elf : Elf} {m m' : SectionMemory}

theorem flatMap_inj {A B : Type} {f g : A → List B} {l : List A} (hlength : ∀ a ∈ l, (f a).length = (g a).length)
    (h : l.flatMap f = l.flatMap g) : ∀ a ∈ l, f a = g a := by
  induction l with
  | nil => exact fun a ha => absurd ha List.not_mem_nil
  | cons a rest ih =>
    obtain ⟨hfirst, hrest⟩ := List.append_inj h (hlength a List.mem_cons_self)
    exact List.forall_mem_cons.mpr ⟨hfirst, ih (fun a ha => hlength a (List.mem_cons_of_mem _ ha)) hrest⟩

theorem partBytes_length (elf : Elf) (m m' : SectionMemory) (part : Part) :
    (partBytes elf m' part).length = (partBytes elf m part).length := by
  simp [partBytes, List.length_flatMap, bufBytes]

theorem partBytes_of_expectedCode {col : ℤ} (h : expectedCode elf m' col = expectedCode elf m col) {part : Part}
    (hpart : ∃ sec, elf.HasPart sec part) (hcol : part.col = col) :
    partBytes elf m' part = partBytes elf m part := by
  have hlength (page : ℤ) : (partBytes elf m' (.text col page) ++ partBytes elf m' (.data col page)).length =
      (partBytes elf m (.text col page) ++ partBytes elf m (.data col page)).length := by
    rw [List.length_append, List.length_append, partBytes_length elf m m', partBytes_length elf m m']
  obtain ⟨hpages, hpads⟩ := List.append_inj' h (partBytes_length ..)
  have hpage : ∀ page ∈ (pagesOf elf.pieces col).sort, partBytes elf m' (.text col page) =
    partBytes elf m (.text col page) ∧
      partBytes elf m' (.data col page) = partBytes elf m (.data col page) := fun page hmem =>
    List.append_inj (flatMap_inj (fun page _ => hlength page) hpages page hmem) (partBytes_length ..)
  have hmem {page : ℤ} (hin : part.pageIn col = some page) : page ∈ (pagesOf elf.pieces col).sort := by
    obtain ⟨sec, hsec⟩ := hpart
    exact (Finset.mem_sort _).mpr (mem_pagesOf_pieces.mpr ⟨sec, part, hsec, hin⟩)
  subst hcol
  cases part with
  | text col page => exact (hpage page (hmem (if_pos rfl))).1
  | data col page => exact (hpage page (hmem (if_pos rfl))).2
  | pad col => exact hpads

theorem OnePerPage.bufBytes_of_codes (hone : OnePerPage elf) (h : codes elf m' = codes elf m) {piece : CodePiece}
    (hpiece : piece ∈ elf.pieces) : bufBytes m' piece.2 = bufBytes m piece.2 := by
  obtain ⟨part, buf⟩ := piece
  have hpart := hasPart_of_mem hpiece
  have hcolumn : part.col ∈ columnsOf elf.pieces := mem_columnsOf_pieces.mpr ⟨_, _, hpart, rfl⟩
  have hcode : expectedCode elf m' part.col = expectedCode elf m part.col := by
    have hmem : (part.col, Cert.colCode m' (columnOf elf.pieces part.col)) ∈ codes elf m' :=
      mem_tabulate.mpr ⟨hcolumn, rfl⟩
    rw [h] at hmem
    rw [← hone.colCode, ← hone.colCode]
    exact (mem_tabulate.mp hmem).2
  have hlength (buf : ℕ × ℕ) : (bufBytes m' buf).length = (bufBytes m buf).length := by simp [bufBytes]
  exact flatMap_inj (fun buf _ => hlength buf) (partBytes_of_expectedCode hcode ⟨_, hpart⟩ rfl) buf
    (mem_buffersOf.mpr hpiece)

end Codes

section Exact

variable {dec : Decoder} {elf : Elf} (hloaded : Loaded dec elf) (hreloc : Relocatable elf) (symbolMap : SymbolMap)
include hloaded hreloc

theorem Relocatable.parseTimes (n : ℕ) :
    ∃ m, parseTimes dec elf symbolMap n = some (codes elf m, m) ∧ TablesKept elf m ∧
    bitOf m = (BitField.addAll ((parseSections elf).rela.filterMap (additionOf elf symbolMap)))^[n + 1]
      (bitOf elf.memory) := by
  induction n with
  | zero => exact hreloc.parseCall hloaded (fun _ _ _ _ _ => rfl) symbolMap
  | succ n ih =>
    obtain ⟨m, hrun, hkept, hbits⟩ := ih
    obtain ⟨m', hcall, hkept', hbits'⟩ := hreloc.parseCall hloaded hkept symbolMap
    refine ⟨m', ?_, hkept', ?_⟩
    · rw [Cert.parseTimes, hrun]
      exact hcall
    · rw [hbits', hbits, Function.iterate_succ_apply' _ (n + 1)]

omit hloaded in
theorem Relocatable.addAll_eq_self
    (hzero : ∀ rela ∈ (parseSections elf).rela, ∀ sec kind, target elf rela = some sec →
      relaKind elf rela = some kind → addedTo elf symbolMap rela % 2 ^ (kind.field sec (relaPos rela)).width = 0)
    {m m' : SectionMemory}
    (hbits : bitOf m' = BitField.addAll ((parseSections elf).rela.filterMap (additionOf elf symbolMap)) (bitOf m)) :
    m' = m := by
  refine bitOf_injective (funext fun place => ?_)
  by_cases hin : ∃ addition ∈ (parseSections elf).rela.filterMap (additionOf elf symbolMap), ∃ i,
    addition.1.place i = place
  · obtain ⟨addition, hmem, i, hplace⟩ := hin
    obtain ⟨rela, hrela, hadd⟩ := List.mem_filterMap.mp hmem
    obtain ⟨sec, kind, value, htarget, hkind, -, rfl⟩ := additionOf_eq_some hadd
    have hread := hreloc.read_field hrela htarget hkind hbits
    rw [BitField.ofInt_eq_zero_iff.mpr (hzero rela hrela sec kind htarget hkind), BitVec.add_zero] at hread
    rw [← hplace]
    exact (BitField.getLsbD_read _ _ i).symm.trans
      ((congrArg (BitVec.getLsbD · i) hread).trans (BitField.getLsbD_read _ _ i))
  · push Not at hin
    rw [hbits, BitField.addAll_of_ne hin]

omit hloaded in
theorem Relocatable.read_of_codes (hone : OnePerPage elf) {m m' : SectionMemory}
    (hcodes : codes elf m' = codes elf m) {rela : RelaPatch} (hrela : rela ∈ (parseSections elf).rela)
    {sec : ℕ} {kind : Kind} (htarget : target elf rela = some sec) (hkind : relaKind elf rela = some kind) :
    (kind.field sec (relaPos rela)).read (bitOf m') = (kind.field sec (relaPos rela)).read (bitOf m) := by
  obtain ⟨_, hkind', haddress⟩ := hreloc.kinds rela hrela
  obtain rfl := Option.some.inj (hkind.symm.trans hkind')
  obtain ⟨shdr, hshdr, hctrl⟩ := hreloc.targets rela hrela sec htarget
  obtain ⟨part, hpart, -⟩ := partOf_of_isPageName hctrl
  refine BitField.read_congr _ fun i => ?_
  obtain ⟨b, hplace, htouch⟩ := touches_of_place haddress htarget hkind i
  have hinside : b / 8 < ((elf.contents sec).getD []).length := hreloc.inside rela hrela _ htouch
  rw [Elf.contents, hshdr, Option.bind_some] at hinside
  cases hdata : shdr.data with
  | none => simp [hdata] at hinside
  | some data =>
    rw [hdata, Option.getD_some] at hinside
    have hpiece : (part, sec, data.length) ∈ elf.pieces :=
      Elf.mem_pieces.mpr ⟨shdr, data, hshdr, hdata, partOf_eq_some.mp hpart, rfl⟩
    have hbyte := List.map_inj_left.mp (hone.bufBytes_of_codes hcodes hpiece) (b / 8) (List.mem_range.mpr hinside)
    rw [hplace, bitOf, bitOf]
    exact congrArg (fun byte : UInt8 => byte.toNat.testBit (b % 8)) hbyte

/-- The calls leave the same code exactly if every field gets a multiple of its size. -/
theorem Relocatable.parsesSame_iff (hone : OnePerPage elf) : ParsesSame dec elf symbolMap ↔
    ∀ rela ∈ (parseSections elf).rela, ∀ sec kind, target elf rela = some sec → relaKind elf rela = some kind →
      addedTo elf symbolMap rela % 2 ^ (kind.field sec (relaPos rela)).width = 0 := by
  obtain ⟨m₀, hrun₀, -, hbits₀⟩ := hreloc.parseTimes hloaded symbolMap 0
  have hparse : parse elf symbolMap = some (codes elf m₀) := by
    have hzero := parseTimes_zero symbolMap hloaded
    rw [hrun₀] at hzero
    rw [parse_eq_codes]
    cases hpatch : (patchElf elf symbolMap).2 with
    | none => simp [hpatch] at hzero
    | some m =>
      rw [hpatch, Option.map_some] at hzero
      obtain ⟨-, rfl⟩ := Prod.mk.inj (Option.some.inj hzero)
      rfl
  constructor
  · intro h rela hrela sec kind htarget hkind
    obtain ⟨m₁, hrun₁, -, hbits₁⟩ := hreloc.parseTimes hloaded symbolMap 1
    have hcodes : codes elf m₁ = codes elf m₀ := by
      have hone := h 1
      rw [hrun₁, hparse] at hone
      exact Option.some.inj hone
    rw [Function.iterate_succ_apply', ← hbits₀] at hbits₁
    have hread := hreloc.read_field hrela htarget hkind hbits₁
    rw [hreloc.read_of_codes hone hcodes hrela htarget hkind] at hread
    exact BitField.ofInt_eq_zero_iff.mp (BitVec.add_right_inj _ |>.mp ((BitVec.add_zero _).trans hread)).symm
  · intro hzero n
    obtain rfl : m₀ = elf.memory := hreloc.addAll_eq_self symbolMap hzero hbits₀
    obtain ⟨m, hrun, -, hbits⟩ := hreloc.parseTimes hloaded symbolMap n
    have hfixed :
      BitField.addAll ((parseSections elf).rela.filterMap (additionOf elf symbolMap)) (bitOf elf.memory) =
        bitOf elf.memory := hbits₀.symm
    rw [Function.iterate_fixed hfixed] at hbits
    rw [hrun, hparse, bitOf_injective hbits]
    rfl

end Exact

/-- Any number of calls leaves the code of the first one if the relocations that the second call applies change
nothing. A file whose relocations patch addresses of its text and data apart from each other has this property
exactly if what is added to each field is a multiple of the size of the field. -/
theorem parse_again (dec : Decoder) (elf : Elf) (symbolMap : SymbolMap) (hloaded : Loaded dec elf) :
    ((∀ m, (patchElf elf symbolMap).2 = some m → Steady dec elf symbolMap m) → ParsesSame dec elf symbolMap) ∧
      (Relocatable elf → OnePerPage elf → (ParsesSame dec elf symbolMap ↔
        ∀ rela ∈ (parseSections elf).rela, ∀ sec kind, target elf rela = some sec → relaKind elf rela = some kind →
          addedTo elf symbolMap rela % 2 ^ (kind.field sec (relaPos rela)).width = 0)) :=
  ⟨parsesSame_of_steady hloaded, fun hreloc hone => hreloc.parsesSame_iff hloaded symbolMap hone⟩

section Samples

/-- The relocations of a 64-bit file: offset, type and symbol, addend. -/
def elf64Relas (bytes : List UInt8) : List RelaPatch :=
  (List.range (bytes.length / 24)).map fun k =>
    let field (start n : ℕ) : ℕ := leNat ((bytes.drop (24 * k + start)).take n)
    ⟨.ofNat 64 (field 0 8), .ofNat 32 (field 12 4), .ofNat 32 (field 8 4), .ofNat 64 (field 16 8)⟩

def elf64Symbols (bytes : List UInt8) : List ElfSymbol :=
  (List.range (bytes.length / 24)).map fun k =>
    ⟨leNat ((bytes.drop (24 * k)).take 4), .ofNat 16 (leNat ((bytes.drop (24 * k + 6)).take 2))⟩

/-- Decode the two tables; other sections have no entries. -/
def elf64Decoder (dynsym rela : ℕ) : Decoder where
  relas i bytes := if i = rela then elf64Relas bytes else []
  symbols i bytes := if i = dynsym then elf64Symbols bytes else []

def bytesElf : Elf where
  abiVersion := 2#8
  sections :=
    [⟨[], none, 0, [], []⟩,
      ⟨".ctrltext.0.0".toList, some (List.replicate 20 0), 0, [], []⟩,
      ⟨dynsymName, some (List.replicate 24 0 ++ [1, 0, 0, 0, 0, 0, 1, 0] ++ List.replicate 16 0), 3, [],
        [⟨0, 0#16⟩, ⟨1, 1#16⟩]⟩,
      ⟨dynstrName, some [0, 97, 0], 0, [], []⟩,
      ⟨relaDyn, some (List.replicate 8 0 ++ [3, 0, 0, 0, 1, 0, 0, 0] ++ List.replicate 8 0), 2,
        [⟨0#64, 1#32, 3#32, 0#64⟩], []⟩]

theorem bytesElf_loaded : Loaded (elf64Decoder 2 4) bytesElf := by
  rw [Loaded]
  decide +kernel

/-- A multiple of the size of a word can be added any number of times. -/
theorem bytesElf_parsesSame : ParsesSame (elf64Decoder 2 4) bytesElf [([97], 0x100000000#64)] := by
  have hrelas : (parseSections bytesElf).rela = [⟨0#64, 1#32, 3#32, 0#64⟩] := by decide +kernel
  have hresolve : resolveRela bytesElf (parseSections bytesElf) [([97], 0x100000000#64)] bytesElf.memory
      ⟨0#64, 1#32, 3#32, 0#64⟩ = .apply ⟨⟨0#64, 1#32, 3#32, 0#64⟩, [97], 0x100000000#64, 1, .scalar32BitKind⟩ := by
    decide +kernel
  have hsteady : Steady (elf64Decoder 2 4) bytesElf [([97], 0x100000000#64)] bytesElf.memory := by
    intro rela m' hreach
    rw [show reload (elf64Decoder 2 4) bytesElf bytesElf.memory = bytesElf from bytesElf_loaded] at hreach ⊢
    rw [hrelas] at hreach
    cases hreach with
    | here =>
      rw [hresolve]
      refine ⟨nofun, ?_⟩
      rintro a ⟨⟩
      exact ⟨by decide +kernel, (by decide : (0x100000000#64 + 0#64).toNat % 2 ^ 32 = 0)⟩
    | later _ hrest => cases hrest
  refine (parse_again (elf64Decoder 2 4) bytesElf [([97], 0x100000000#64)] bytesElf_loaded).1 fun m hrun => ?_
  have hkept : (patchElf bytesElf [([97], 0x100000000#64)]).2 = some bytesElf.memory := by
    have hneutral := patchRelas_of_neutral hsteady
    rwa [show reload (elf64Decoder 2 4) bytesElf bytesElf.memory = bytesElf from bytesElf_loaded] at hneutral
  obtain rfl := Option.some.inj (hkept.symm.trans hrun)
  exact hsteady

/-- The second call adds the value of the symbol again. -/
theorem bytesElf_added_twice : Loaded (elf64Decoder 2 4) bytesElf ∧
    (parseTimes (elf64Decoder 2 4) bytesElf [([97], 0x1000#64)] 0).map Prod.fst =
      some [(0, List.replicate 16 0 ++ [0, 16, 0, 0])] ∧
    (parseTimes (elf64Decoder 2 4) bytesElf [([97], 0x1000#64)] 1).map Prod.fst =
      some [(0, List.replicate 16 0 ++ [0, 32, 0, 0])] :=
  ⟨bytesElf_loaded, by decide +kernel, by decide +kernel⟩

end Samples

end AieBaremetal.Cert
