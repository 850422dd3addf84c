import AieBaremetal.Cert.PatchedAlike

/-!
# The control code of a column

`parse` puts the code of each column together: for every page, ascending, its text and then its data,
and behind the pages the pads in the order of their sections. If no page has two text or two data
sections, the order of these sections does not matter. Listing them in another order renumbers them,
which the symbols have to follow; that changes the bytes of `.dynsym`, which no column contains.
-/

namespace AieBaremetal.Cert

open Common

variable {A : Type} {m : SectionMemory} {part : Part} {sec : ℕ} {shdr shdr' : ElfSection}

section Expected

def Elf.HasPart (elf : Elf) (sec : ℕ) (part : Part) : Prop :=
  ∃ shdr, elf.sections[sec]? = some shdr ∧ shdr.data.isSome ∧ part.HasName shdr.name

def OnePerPage (elf : Elf) : Prop :=
  ∀ part : Part, (∀ col, part ≠ .pad col) → ∀ sec sec', elf.HasPart sec part → elf.HasPart sec' part → sec = sec'

def partBytes (elf : Elf) (m : SectionMemory) (part : Part) : List UInt8 :=
  (buffersOf elf.pieces part).flatMap (bufBytes m)

/-- The code of a column: pages in ascending order, text and data, then the pads. -/
def expectedCode (elf : Elf) (m : SectionMemory) (col : ℤ) : List UInt8 :=
  ((pagesOf elf.pieces col).sort.flatMap fun page =>
    partBytes elf m (.text col page) ++ partBytes elf m (.data col page)) ++ partBytes elf m (.pad col)

variable {elf : Elf}

theorem hasPart_of_mem {piece : CodePiece} (h : piece ∈ elf.pieces) : elf.HasPart piece.2.1 piece.1 := by
  obtain ⟨shdr, data, hshdr, hdata, hname, -⟩ := Elf.mem_pieces.mp h
  exact ⟨shdr, hshdr, by rw [hdata]; rfl, hname⟩

theorem exists_piece (h : elf.HasPart sec part) : ∃ size, (part, sec, size) ∈ elf.pieces := by
  obtain ⟨shdr, hshdr, hsome, hname⟩ := h
  obtain ⟨data, hdata⟩ := Option.isSome_iff_exists.mp hsome
  exact ⟨data.length, Elf.mem_pieces.mpr ⟨shdr, data, hshdr, hdata, hname, rfl⟩⟩

theorem mem_columnsOf_pieces {col : ℤ} :
    col ∈ columnsOf elf.pieces ↔ ∃ sec part, elf.HasPart sec part ∧ part.col = col := by
  rw [columnsOf, List.mem_toFinset, List.mem_map]
  constructor
  · rintro ⟨piece, hpiece, hcol⟩
    exact ⟨_, _, hasPart_of_mem hpiece, hcol⟩
  · rintro ⟨sec, part, hpart, hcol⟩
    obtain ⟨size, hpiece⟩ := exists_piece hpart
    exact ⟨_, hpiece, hcol⟩

theorem mem_pagesOf_pieces {col page : ℤ} :
    page ∈ pagesOf elf.pieces col ↔ ∃ sec part, elf.HasPart sec part ∧ part.pageIn col = some page := by
  rw [pagesOf, List.mem_toFinset, List.mem_filterMap]
  constructor
  · rintro ⟨piece, hpiece, hpage⟩
    exact ⟨_, _, hasPart_of_mem hpiece, hpage⟩
  · rintro ⟨sec, part, hpart, hpage⟩
    obtain ⟨size, hpiece⟩ := exists_piece hpart
    exact ⟨_, hpiece, hpage⟩

theorem buffersOf_pieces (elf : Elf) (part : Part) :
    buffersOf elf.pieces part = elf.collect fun i shdr => buffersOf (pieceOf i shdr).toList part := by
  rw [buffersOf, Elf.pieces, Elf.collect, Elf.collect, List.filterMap_flatMap]
  congr 1
  funext i
  cases elf.sections[i]? <;> rfl

theorem pieces_nodup (elf : Elf) : (elf.pieces.map fun piece => piece.2.1).Nodup := by
  have hpieces : elf.pieces = (List.range elf.sections.length).filterMap fun i =>
    elf.sections[i]?.bind (pieceOf i) := by
    rw [Elf.pieces, Elf.collect, List.filterMap_eq_flatMap_toList]
    congr 1
    funext i
    cases elf.sections[i]? <;> rfl
  rw [hpieces, List.map_filterMap]
  -- the section number of a piece is the one it was taken from
  have hnumber (i sec : ℕ) (h : sec ∈ (elf.sections[i]?.bind (pieceOf i)).map fun piece => piece.2.1) :
    i = sec := by
    simp only [pieceOf, Option.mem_def, Option.map_eq_some_iff, Option.bind_eq_some_iff] at h
    obtain ⟨piece, ⟨shdr, -, data, -, part, -, rfl⟩, hsec⟩ := h
    exact hsec
  exact List.nodup_range.filterMap fun i i' sec h h' => (hnumber i sec h).trans (hnumber i' sec h').symm

theorem OnePerPage.length_le (h : OnePerPage elf) (hpart : ∀ col, part ≠ .pad col) :
    (buffersOf elf.pieces part).length ≤ 1 := by
  have hnodup : ((buffersOf elf.pieces part).map Prod.fst).Nodup := by
    refine (pieces_nodup elf).sublist ?_
    rw [buffersOf, List.map_filterMap]
    induction elf.pieces with
    | nil => exact .slnil
    | cons piece rest ih =>
      by_cases hpiece : piece.1 = part
      · simpa [hpiece] using ih
      · simpa [hpiece] using ih.cons _
  have hsame : ∀ buf ∈ buffersOf elf.pieces part, ∀ buf' ∈ buffersOf elf.pieces part, buf.1 = buf'.1 :=
    fun buf hbuf buf' hbuf' => h part hpart _ _ (hasPart_of_mem (mem_buffersOf.mp hbuf))
      (hasPart_of_mem (mem_buffersOf.mp hbuf'))
  generalize buffersOf elf.pieces part = bufs at hnodup hsame
  rcases bufs with _ | ⟨buf, _ | ⟨buf', rest⟩⟩
  · simp
  · simp
  · simp [hsame buf (by simp) buf' (by simp)] at hnodup

theorem bytes_of_length_le {bufs : List (ℕ × ℕ)} (h : bufs.length ≤ 1) :
    bufs.getLast?.elim [] (bufBytes m) = bufs.flatMap (bufBytes m) := by
  match bufs, h with
  | [], _ => rfl
  | [buf], _ => simp

theorem OnePerPage.colCode (h : OnePerPage elf) (m : SectionMemory) (col : ℤ) :
    colCode m (columnOf elf.pieces col) = expectedCode elf m col := by
  have hpage (page : ℤ) : ((pageOf elf.pieces col page).textBuf.elim [] (bufBytes m)) ++
      ((pageOf elf.pieces col page).dataBuf.elim [] (bufBytes m)) =
        partBytes elf m (.text col page) ++ partBytes elf m (.data col page) :=
    congrArg₂ (· ++ ·) (bytes_of_length_le (h.length_le nofun)) (bytes_of_length_le (h.length_le nofun))
  simp only [Cert.colCode, columnOf, tabulate, List.flatMap_map, hpage]
  rfl

theorem OnePerPage.parse (h : OnePerPage elf) (symbolMap : SymbolMap) : parse elf symbolMap =
    (patchElf elf symbolMap).2.map fun m => tabulate (columnsOf elf.pieces) (expectedCode elf m) := by
  rw [Cert.parse, parseSections_cols]
  cases (patchElf elf symbolMap).2 with
  | none => rfl
  | some m =>
    refine congrArg some ?_
    rw [tabulate, List.map_map]
    exact List.map_congr_left fun col _ => congrArg (Prod.mk col) (h.colCode m col)

end Expected

section Relisted

def IsPageName (name : List Char) : Prop := (isCtrltext name).isSome ∨ (isCtrldata name).isSome

instance (name : List Char) : Decidable (IsPageName name) := inferInstanceAs (Decidable (_ ∨ _))

/-- The same section after a renumbering. -/
structure SameListed (σ : ℕ → ℕ) (shdr shdr' : ElfSection) : Prop where
  name : shdr'.name = shdr.name
  data : shdr'.data = shdr.data ∨ shdr.name = dynsymName ∧ shdr'.data.map List.length = shdr.data.map List.length
  relas : shdr'.relas = shdr.relas
  symbols : (shdr'.symbols.map fun symbol => symbol.sectionIndex.toNat) =
    shdr.symbols.map fun symbol => σ symbol.sectionIndex.toNat

/-- A file that lists its text and data sections in another order. -/
structure Relisted (σ : Equiv.Perm ℕ) (elf elf' : Elf) : Prop where
  abi : elf'.abiVersion = elf.abiVersion
  bound : ∀ sec, σ sec < elf'.sections.length ↔ sec < elf.sections.length
  same : ∀ sec shdr shdr', elf.sections[sec]? = some shdr → elf'.sections[σ sec]? = some shdr' →
  SameListed σ shdr shdr'
  order : ∀ sec₁ sec₂ shdr₁ shdr₂, elf.sections[sec₁]? = some shdr₁ → elf.sections[sec₂]? = some shdr₂ →
    ¬ IsPageName shdr₁.name → ¬ IsPageName shdr₂.name → sec₁ < sec₂ → σ sec₁ < σ sec₂

/-- The sections that are neither text nor data. -/
def Elf.others (elf : Elf) : List ℕ :=
  (List.range elf.sections.length).filter fun sec => ¬ (elf.sections[sec]?).any fun shdr =>
    decide (IsPageName shdr.name)

variable {σ : Equiv.Perm ℕ} {elf elf' : Elf}

theorem Elf.mem_others :
    sec ∈ elf.others ↔ ∃ shdr, elf.sections[sec]? = some shdr ∧ ¬ IsPageName shdr.name := by
  rw [Elf.others, List.mem_filter, List.mem_range]
  constructor
  · rintro ⟨hlt, hpage⟩
    refine ⟨elf.sections[sec], List.getElem?_eq_getElem hlt, ?_⟩
    simpa [List.getElem?_eq_getElem hlt] using hpage
  · rintro ⟨shdr, hshdr, hpage⟩
    exact ⟨(List.getElem?_eq_some_iff.mp hshdr).1, by simpa [hshdr] using hpage⟩

theorem Elf.collect_others (elf : Elf) {f : ℕ → ElfSection → List A}
    (h : ∀ sec shdr, IsPageName shdr.name → f sec shdr = []) :
    elf.collect f = elf.others.flatMap fun sec => (elf.sections[sec]?).elim [] (f sec) := by
  rw [Elf.collect, Elf.others]
  induction List.range elf.sections.length with
  | nil => rfl
  | cons sec rest ih =>
    rw [List.flatMap_cons, ih]
    cases hshdr : elf.sections[sec]? with
    | none => simp [hshdr]
    | some shdr =>
      by_cases hpage : IsPageName shdr.name
      · simp [hshdr, hpage, h sec shdr hpage]
      · simp [hshdr, hpage]

theorem partOf_of_isPageName {name : List Char} (h : IsPageName name) :
    ∃ part, partOf name = some part ∧ ∀ col, part ≠ .pad col := by
  rcases h with h | h
  · obtain ⟨⟨col, page⟩, htext⟩ := Option.isSome_iff_exists.mp h
    exact ⟨.text col page, partOf_eq_some.mpr htext, nofun⟩
  · obtain ⟨⟨col, page⟩, hdata⟩ := Option.isSome_iff_exists.mp h
    exact ⟨.data col page, partOf_eq_some.mpr hdata, nofun⟩

theorem SameListed.length {σ : ℕ → ℕ} (h : SameListed σ shdr shdr') :
    shdr'.data.map List.length = shdr.data.map List.length := by
  rcases h.data with hdata | ⟨-, hlength⟩
  · rw [hdata]
  · exact hlength

theorem SameListed.isSome {σ : ℕ → ℕ} (h : SameListed σ shdr shdr') :
    shdr'.data.isSome = shdr.data.isSome := by
  rw [← Option.isSome_map, h.length, Option.isSome_map]

theorem SameListed.data_eq {σ : ℕ → ℕ} (h : SameListed σ shdr shdr')
    (hname : shdr.name ≠ dynsymName) : shdr'.data = shdr.data :=
  h.data.resolve_right fun hsym => hname hsym.1

theorem eq_of_length_le_one {l l' : List A} (h : l.length ≤ 1) (h' : l'.length ≤ 1)
    (hmem : ∀ a, a ∈ l ↔ a ∈ l') : l = l' := by
  match l, l', h, h' with
  | [], [], _, _ => rfl
  | [], [a'], _, _ => simpa using hmem a'
  | [a], [], _, _ => simpa using hmem a
  | [a], [a'], _, _ => simpa using hmem a

theorem SameListed.pieceOf {σ : ℕ → ℕ} (h : SameListed σ shdr shdr') (sec : ℕ) :
    pieceOf (σ sec) shdr' = (pieceOf sec shdr).map fun piece => (piece.1, σ piece.2.1, piece.2.2) := by
  rw [pieceOf_eq, pieceOf_eq, h.name, h.length, Option.map_bind]
  cases partOf shdr.name <;> rfl

variable (h : Relisted σ elf elf')
include h

theorem Relisted.exists_section (hshdr : elf.sections[sec]? = some shdr) :
    ∃ shdr', elf'.sections[σ sec]? = some shdr' ∧ SameListed σ shdr shdr' := by
  have hlt := (h.bound sec).mpr (List.getElem?_eq_some_iff.mp hshdr).1
  exact ⟨elf'.sections[σ sec], List.getElem?_eq_getElem hlt, h.same sec _ _ hshdr (List.getElem?_eq_getElem hlt)⟩

theorem Relisted.exists_old (hshdr' : elf'.sections[sec]? = some shdr') :
    ∃ sec₀ shdr, sec = σ sec₀ ∧ elf.sections[sec₀]? = some shdr ∧ SameListed σ shdr shdr' := by
  obtain ⟨sec₀, rfl⟩ := σ.surjective sec
  have hlt := (h.bound sec₀).mp (List.getElem?_eq_some_iff.mp hshdr').1
  exact ⟨sec₀, _, rfl, List.getElem?_eq_getElem hlt, h.same sec₀ _ _ (List.getElem?_eq_getElem hlt) hshdr'⟩

theorem Relisted.others : elf'.others = elf.others.map σ := by
  have hsorted (elf : Elf) : elf.others.Pairwise (· < ·) := List.pairwise_lt_range.filter _
  refine (hsorted elf').eq_of_mem_iff ?_ fun sec => ?_
  · refine List.pairwise_map.mpr ((hsorted elf).imp_of_mem fun hmem₁ hmem₂ hlt => ?_)
    obtain ⟨shdr₁, hshdr₁, hpage₁⟩ := Elf.mem_others.mp hmem₁
    obtain ⟨shdr₂, hshdr₂, hpage₂⟩ := Elf.mem_others.mp hmem₂
    exact h.order _ _ shdr₁ shdr₂ hshdr₁ hshdr₂ hpage₁ hpage₂ hlt
  · rw [Elf.mem_others, List.mem_map]
    constructor
    · rintro ⟨shdr', hshdr', hpage⟩
      obtain ⟨sec₀, shdr, rfl, hshdr, hsame⟩ := h.exists_old hshdr'
      exact ⟨sec₀, Elf.mem_others.mpr ⟨shdr, hshdr, hsame.name ▸ hpage⟩, rfl⟩
    · rintro ⟨sec₀, hmem, rfl⟩
      obtain ⟨shdr, hshdr, hpage⟩ := Elf.mem_others.mp hmem
      obtain ⟨shdr', hshdr', hsame⟩ := h.exists_section hshdr
      exact ⟨shdr', hshdr', hsame.name ▸ hpage⟩

theorem Relisted.collect {f f' : ℕ → ElfSection → List A} (hf : ∀ sec shdr, IsPageName shdr.name → f sec shdr = [])
    (hf' : ∀ sec shdr, IsPageName shdr.name → f' sec shdr = [])
    (hsame : ∀ sec shdr shdr', SameListed σ shdr shdr' → f' (σ sec) shdr' = f sec shdr) :
    elf'.collect f' = elf.collect f := by
  rw [elf'.collect_others hf', elf.collect_others hf, h.others, List.flatMap_map]
  refine List.flatMap_congr fun sec hmem => ?_
  obtain ⟨shdr, hshdr, -⟩ := Elf.mem_others.mp hmem
  obtain ⟨shdr', hshdr', hlisted⟩ := h.exists_section hshdr
  rw [hshdr, hshdr']
  exact hsame sec shdr shdr' hlisted

theorem Relisted.rela : (parseSections elf').rela = (parseSections elf).rela := by
  rw [parseSections_eq, parseSections_eq]
  have hpage (sec : ℕ) (shdr : ElfSection) (hpage : IsPageName shdr.name) : relasOf shdr = [] := by
    obtain ⟨part, hpart, -⟩ := partOf_of_isPageName hpage
    exact (tables_of_partOf elf sec hpart).1
  refine h.collect hpage hpage fun sec shdr shdr' hsame => ?_
  rw [relasOf, relasOf, hsame.isSome, hsame.name, hsame.relas]

theorem Relisted.dynstr :
    (parseSections elf').dynstr = (parseSections elf).dynstr.map fun place => (σ place.1, place.2) := by
  rw [parseSections_eq, parseSections_eq]
  dsimp only
  rw [Elf.map_collect]
  have hpage (sec : ℕ) (shdr : ElfSection) (hpage : IsPageName shdr.name) : stringsOf sec shdr = [] := by
    obtain ⟨part, hpart, -⟩ := partOf_of_isPageName hpage
    exact (tables_of_partOf elf sec hpart).2.2
  refine h.collect (fun sec shdr hname => by rw [hpage sec shdr hname, List.map_nil]) hpage
    fun sec shdr shdr' hsame => ?_
  rw [stringsOf, stringsOf, hsame.name]
  split_ifs with hname
  · have hdata := hsame.data_eq (hname ▸ by decide)
    rw [hdata, List.map_map]
    rfl
  · rfl

theorem Relisted.dynsym : (parseSections elf').dynsym.map (fun dynsym => dynsym.sectionIndex.toNat) =
    (parseSections elf).dynsym.map fun dynsym => σ dynsym.sectionIndex.toNat := by
  rw [parseSections_eq, parseSections_eq]
  dsimp only
  rw [Elf.map_collect, Elf.map_collect]
  have hpage (elf : Elf) (sec : ℕ) (shdr : ElfSection) (hpage : IsPageName shdr.name) :
    symbolsOf elf shdr = [] := by
    obtain ⟨part, hpart, -⟩ := partOf_of_isPageName hpage
    exact (tables_of_partOf elf sec hpart).2.1
  refine h.collect (fun sec shdr hname => by rw [hpage elf sec shdr hname, List.map_nil])
    (fun sec shdr hname => by rw [hpage elf' sec shdr hname, List.map_nil]) fun sec shdr shdr' hsame => ?_
  rw [symbolsOf, symbolsOf, hsame.isSome, hsame.name]
  split_ifs
  · rw [List.map_map, List.map_map]
    exact hsame.symbols
  · rfl

theorem Relisted.length (sec : ℕ) :
    (elf'.contents (σ sec)).map List.length = (elf.contents sec).map List.length := by
  cases hshdr : elf.sections[sec]? with
  | none =>
    have hnone : elf'.sections[σ sec]? = none :=
      List.getElem?_eq_none_iff.mpr
        (not_lt.mp (mt (h.bound sec).mp (not_lt.mpr (List.getElem?_eq_none_iff.mp hshdr))))
    rw [Elf.contents, Elf.contents, hshdr, hnone]
  | some shdr =>
    obtain ⟨shdr', hshdr', hsame⟩ := h.exists_section hshdr
    rw [Elf.contents, Elf.contents, hshdr, hshdr']
    exact hsame.length

theorem Relisted.contents (hlater : ReadLater elf sec) : elf'.contents (σ sec) = elf.contents sec := by
  cases hshdr : elf.sections[sec]? with
  | none =>
    have hnone : elf.contents sec = none := by rw [Elf.contents, hshdr, Option.bind_none]
    have hlength := h.length sec
    rw [hnone, Option.map_none, Option.map_eq_none_iff] at hlength
    rw [hlength, hnone]
  | some shdr =>
    obtain ⟨shdr', hshdr', hsame⟩ := h.exists_section hshdr
    rw [Elf.contents, Elf.contents, hshdr, hshdr']
    exact hsame.data_eq (hlater shdr hshdr).2

theorem Relisted.alike : Alike σ elf elf' where
  injective := σ.injective
  bound := h.bound
  size sec := by
    rw [Elf.bufferSize_eq, Elf.bufferSize_eq, h.length]
  dynstr := h.dynstr
  dynsym := h.dynsym

theorem Relisted.memory : MemoryAlike σ elf elf.memory elf'.memory := by
  intro sec hlater i
  rw [Elf.memory, Elf.memory, h.contents hlater]

theorem Relisted.hasPart : elf'.HasPart (σ sec) part ↔ elf.HasPart sec part := by
  constructor
  · rintro ⟨shdr', hshdr', hsome, hname⟩
    obtain ⟨sec₀, shdr, hsec, hshdr, hsame⟩ := h.exists_old hshdr'
    obtain rfl := σ.injective hsec
    exact ⟨shdr, hshdr, hsame.isSome ▸ hsome, hsame.name ▸ hname⟩
  · rintro ⟨shdr, hshdr, hsome, hname⟩
    obtain ⟨shdr', hshdr', hsame⟩ := h.exists_section hshdr
    exact ⟨shdr', hshdr', hsame.isSome ▸ hsome, hsame.name ▸ hname⟩

theorem Relisted.onePerPage (hone : OnePerPage elf) : OnePerPage elf' := by
  intro part hpart sec sec' hsec hsec'
  obtain ⟨sec, rfl⟩ := σ.surjective sec
  obtain ⟨sec', rfl⟩ := σ.surjective sec'
  rw [hone part hpart sec sec' (h.hasPart.mp hsec) (h.hasPart.mp hsec')]

theorem Relisted.columnsOf : columnsOf elf'.pieces = columnsOf elf.pieces := by
  ext col
  rw [mem_columnsOf_pieces, mem_columnsOf_pieces, σ.surjective.exists]
  simp only [h.hasPart]

theorem Relisted.pagesOf (col : ℤ) : pagesOf elf'.pieces col = pagesOf elf.pieces col := by
  ext page
  rw [mem_pagesOf_pieces, mem_pagesOf_pieces, σ.surjective.exists]
  simp only [h.hasPart]

theorem Relisted.buffersOf_pad (col : ℤ) : buffersOf elf'.pieces (.pad col) =
    (buffersOf elf.pieces (.pad col)).map fun buf => (σ buf.1, buf.2) := by
  have hpage (sec : ℕ) (shdr : ElfSection) (hpage : IsPageName shdr.name) :
      Cert.buffersOf (pieceOf sec shdr).toList (.pad col) = [] := by
    obtain ⟨part, hpart, hpad⟩ := partOf_of_isPageName hpage
    refine buffersOf_eq_nil.mpr fun piece hpiece => ?_
    rw [Option.mem_toList, Cert.pieceOf, hpart, Option.bind_eq_some_iff] at hpiece
    obtain ⟨data, -, hpiece⟩ := hpiece
    rw [← Option.some.inj hpiece]
    exact hpad col
  rw [buffersOf_pieces, buffersOf_pieces, Elf.map_collect]
  refine h.collect (fun sec shdr hname => by rw [hpage sec shdr hname, List.map_nil]) hpage
    fun sec shdr shdr' hsame => ?_
  rw [hsame.pieceOf]
  cases hpiece : Cert.pieceOf sec shdr with
  | none => rfl
  | some piece =>
    by_cases hpart : piece.1 = .pad col <;> simp [Cert.buffersOf, hpart]

theorem Relisted.buffersOf (hone : OnePerPage elf) (part : Part) :
    buffersOf elf'.pieces part = (buffersOf elf.pieces part).map fun buf => (σ buf.1, buf.2) := by
  by_cases hpart : ∀ col, part ≠ .pad col
  · refine eq_of_length_le_one ((h.onePerPage hone).length_le hpart) ?_ fun buf => ?_
    · rw [List.length_map]
      exact hone.length_le hpart
    · rw [mem_buffersOf, List.mem_map]
      constructor
      · intro hmem
        obtain ⟨shdr', data', hshdr', hdata', hname, hsize⟩ := Elf.mem_pieces.mp hmem
        obtain ⟨sec, shdr, hsec, hshdr, hsame⟩ := h.exists_old hshdr'
        obtain ⟨hrela, hsym, -⟩ := not_table_of_partOf (partOf_eq_some.mpr hname)
        have hdata := hsame.data_eq (hsame.name ▸ hsym)
        refine ⟨(sec, buf.2), mem_buffersOf.mpr (Elf.mem_pieces.mpr ?_), Prod.ext hsec.symm rfl⟩
        exact ⟨shdr, data', hshdr, hdata ▸ hdata', hsame.name ▸ hname, hsize⟩
      · rintro ⟨buf, hbuf, rfl⟩
        obtain ⟨shdr, data, hshdr, hdata, hname, hsize⟩ := Elf.mem_pieces.mp (mem_buffersOf.mp hbuf)
        obtain ⟨shdr', hshdr', hsame⟩ := h.exists_section hshdr
        obtain ⟨hrela, hsym, -⟩ := not_table_of_partOf (partOf_eq_some.mpr hname)
        have hdata' := hsame.data_eq hsym
        exact Elf.mem_pieces.mpr ⟨shdr', data, hshdr', hdata'.trans hdata, hsame.name ▸ hname, hsize⟩
  · push Not at hpart
    obtain ⟨col, rfl⟩ := hpart
    exact h.buffersOf_pad col

theorem Relisted.partBytes (hone : OnePerPage elf) {m' : SectionMemory}
    (hm : MemoryAlike σ elf m m') (part : Part) :
    partBytes elf' m' part = partBytes elf m part := by
  rw [Cert.partBytes, Cert.partBytes, h.buffersOf hone, List.flatMap_map]
  refine List.flatMap_congr fun buf hbuf => ?_
  have hlater : ReadLater elf buf.1 := readLater_of_mem (mem_buffersOf.mp hbuf)
  exact List.map_congr_left fun i _ => hm buf.1 hlater i

theorem Relisted.expectedCode (hone : OnePerPage elf) {m' : SectionMemory} (hm : MemoryAlike σ elf m m') :
    expectedCode elf' m' = expectedCode elf m := by
  funext col
  simp only [Cert.expectedCode, h.pagesOf, h.partBytes hone hm]

theorem Relisted.parse (hone : OnePerPage elf) (symbolMap : SymbolMap) :
    parse elf' symbolMap = parse elf symbolMap := by
  have hrelas : List.Forall₂ (SameRela elf elf') (parseSections elf).rela (parseSections elf').rela := by
    rw [h.rela]
    refine List.forall₂_same.mpr fun rela _ => ⟨rfl, rfl, ?_, ?_⟩
    · rw [relaKind, relaKind, h.abi]
    · rw [relaAddend, relaAddend, h.abi]
  have hmemory := h.alike.patchRelas symbolMap hrelas h.memory
  rw [hone.parse, (h.onePerPage hone).parse, h.columnsOf]
  generalize hrun : (patchElf elf symbolMap).2 = after
  generalize hrun' : (patchElf elf' symbolMap).2 = after'
  have hafter : Option.Rel (MemoryAlike σ elf) after after' := hrun ▸ hrun' ▸ hmemory
  cases hafter with
  | some hm => rw [Option.map_some, Option.map_some, h.expectedCode hone hm]
  | none => rfl

end Relisted

/-- Whatever the relocations leave, `parse` returns the columns that have sections with data, each with its pages
in ascending order, text and then data, and then its pads; the order of text and data sections does not matter. -/
theorem parse_assembles (elf : Elf) (symbolMap : SymbolMap) (h : OnePerPage elf) :
    (parse elf symbolMap = (patchElf elf symbolMap).2.map fun m =>
      tabulate (columnsOf elf.pieces) (expectedCode elf m)) ∧
      (∀ col, col ∈ columnsOf elf.pieces ↔ ∃ sec part, elf.HasPart sec part ∧ part.col = col) ∧
      ∀ σ elf', Relisted σ elf elf' → parse elf' symbolMap = parse elf symbolMap :=
  ⟨h.parse symbolMap, fun _ => mem_columnsOf_pieces, fun _ _ hlist => hlist.parse h symbolMap⟩

section Sample

/-- A file with two pages and a pad, in no particular order. -/
def pagesElf : Elf where
  abiVersion := 2#8
  sections :=
    [⟨".ctrltext.0.10".toList, some [1, 2], 0, [], []⟩, ⟨".pad.0".toList, some [3], 0, [], []⟩,
      ⟨".ctrltext.0.2".toList, some [4], 0, [], []⟩, ⟨".ctrldata.0.2".toList, some [5, 6], 0, [], []⟩]

def exchangedElf : Elf where
  abiVersion := 2#8
  sections :=
    [⟨".ctrltext.0.2".toList, some [4], 0, [], []⟩, ⟨".pad.0".toList, some [3], 0, [], []⟩,
      ⟨".ctrltext.0.10".toList, some [1, 2], 0, [], []⟩, ⟨".ctrldata.0.2".toList, some [5, 6], 0, [], []⟩]

theorem pagesElf_onePerPage : OnePerPage pagesElf := by
  rintro part - sec sec' ⟨shdr, hshdr, -, hname⟩ ⟨shdr', hshdr', -, hname'⟩
  have hdiffer : ∀ i < 4, ∀ j < 4, (pagesElf.sections[i]?.bind fun shdr => partOf shdr.name) =
      (pagesElf.sections[j]?.bind fun shdr => partOf shdr.name) → i = j := by decide +kernel
  refine hdiffer sec (List.getElem?_eq_some_iff.mp hshdr).1 sec' (List.getElem?_eq_some_iff.mp hshdr').1 ?_
  rw [hshdr, hshdr', Option.bind_some, Option.bind_some, partOf_eq_some.mpr hname, partOf_eq_some.mpr hname']

theorem exchangedElf_relisted : Relisted (Equiv.swap 0 2) pagesElf exchangedElf where
  abi := rfl
  bound sec := by
    by_cases hzero : sec = 0
    · subst hzero
      decide
    · by_cases htwo : sec = 2
      · subst htwo
        decide
      · rw [Equiv.swap_apply_of_ne_of_ne hzero htwo]
        exact Iff.rfl
  same sec shdr shdr' hshdr hshdr' := by
    have hequal : ∀ i < 4, exchangedElf.sections[Equiv.swap 0 2 i]? = pagesElf.sections[i]? := by decide +kernel
    have hsymbols : ∀ shdr ∈ pagesElf.sections, shdr.symbols = [] := by decide +kernel
    obtain rfl : shdr' = shdr := Option.some.inj
      (hshdr'.symm.trans ((hequal sec (List.getElem?_eq_some_iff.mp hshdr).1).trans hshdr))
    exact ⟨rfl, .inl rfl, rfl, by rw [hsymbols shdr' (List.mem_of_getElem? hshdr)]; rfl⟩
  order sec₁ sec₂ shdr₁ shdr₂ hshdr₁ hshdr₂ hpage₁ hpage₂ hlt := by
    have hpad : ∀ i < 4, (pagesElf.sections[i]?.any fun shdr => ¬ IsPageName shdr.name) → i = 1 := by decide +kernel
    have hone := hpad sec₁ (List.getElem?_eq_some_iff.mp hshdr₁).1 (by simpa [hshdr₁] using hpage₁)
    have htwo := hpad sec₂ (List.getElem?_eq_some_iff.mp hshdr₂).1 (by simpa [hshdr₂] using hpage₂)
    omega

/-- Page 2 comes before page 10, and the pad behind both. -/
theorem pagesElf_assembled : parse pagesElf [] = some [(0, [4, 5, 6, 1, 2, 3])] ∧
    parse exchangedElf [] = some [(0, [4, 5, 6, 1, 2, 3])] := by
  have hparse : parse pagesElf [] = some [(0, [4, 5, 6, 1, 2, 3])] := by decide +kernel
  obtain ⟨-, -, hrelist⟩ := parse_assembles pagesElf [] pagesElf_onePerPage
  exact ⟨hparse, (hrelist _ _ exchangedElf_relisted).trans hparse⟩

end Sample

end AieBaremetal.Cert
