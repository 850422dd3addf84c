import AieBaremetal.Cert.SectionNames
import AieBaremetal.Common.OrderedMap
import Mathlib.Data.List.FinRange

/-!
# What the walk over the sections collects

Relocations, symbols and strings are appended in the order of the sections. Text, data and pads go
into a map of columns that holds a map of pages; a later text or data section of the same page
replaces an earlier one, and pads are appended. Each collection can be told from the section table
alone: the tables as concatenations, the columns as a function on the columns that occur.
-/

namespace AieBaremetal.Cert

open Common

section Maps

variable {V : Type}

theorem mapUpdate_eq_insertKey {m : List (ℤ × V)} (h : Ordered m) {key : ℤ} {fresh : V} (value : V)
    (f : V → V) (hthere : ∀ e ∈ m, e.1 = key → e.2 = value) (hmissing : (∀ e ∈ m, e.1 ≠ key) → value = fresh) :
    mapUpdate key fresh f m = insertKey key (f value) m := by
  induction m with
  | nil => rw [mapUpdate, insertKey, hmissing fun _ he => absurd he List.not_mem_nil]
  | cons e rest ih =>
    obtain ⟨k, v⟩ := e
    obtain ⟨hfirst, hrest⟩ := List.pairwise_cons.mp h
    rw [mapUpdate, insertKey]
    rcases lt_trichotomy k key with hlt | rfl | hgt
    · have hmissing' : (∀ e ∈ rest, e.1 ≠ key) → value = fresh := fun hne =>
        hmissing (List.forall_mem_cons.mpr ⟨hlt.ne, hne⟩)
      rw [if_pos hlt, if_neg hlt.asymm, if_pos hlt,
        ih hrest (fun e he => hthere e (List.mem_cons_of_mem _ he)) hmissing']
    · have hvalue : v = value := hthere (k, v) List.mem_cons_self rfl
      simp only [lt_irrefl, if_false, if_true, hvalue]
    · have hnone : ∀ e ∈ (k, v) :: rest, e.1 ≠ key :=
        List.forall_mem_cons.mpr ⟨hgt.ne', fun e he => (hgt.trans (hfirst e he)).ne'⟩
      rw [if_neg hgt.asymm, if_neg hgt.ne', if_pos hgt, hmissing hnone]

theorem mapUpdate_tabulate {keys : Finset ℤ} {values : ℤ → V} {fresh : V} (h : ∀ k ∉ keys, values k = fresh)
    (key : ℤ) (f : V → V) : mapUpdate key fresh f (tabulate keys values) =
      tabulate (insert key keys) (Function.update values key (f (values key))) := by
  rw [mapUpdate_eq_insertKey (ordered_tabulate keys values) (values key), insertKey_tabulate]
  · rintro e he rfl
    exact (mem_tabulate.mp he).2
  · intro hne
    exact h key fun hkey => hne (key, values key) (mem_tabulate.mpr ⟨hkey, rfl⟩) rfl

end Maps

variable {A : Type} {page : ℤ}

section Parts

/-- A part of the code of a column. -/
inductive Part where
  | text (col page : ℤ)
  | data (col page : ℤ)
  | pad (col : ℤ)
deriving DecidableEq, Repr

def Part.col : Part → ℤ
  | .text col _ | .data col _ | .pad col => col

/-- The page of a part of a column; pads have none. -/
def Part.pageIn (col : ℤ) : Part → Option ℤ
  | .text c page | .data c page => if c = col then some page else none
  | .pad _ => none

def Part.HasName : Part → List Char → Prop
  | .text col page, name => isCtrltext name = some (col, page)
  | .data col page, name => isCtrldata name = some (col, page)
  | .pad col, name => isPad name = some col

def partOf (name : List Char) : Option Part :=
  match isCtrltext name, isCtrldata name, isPad name with
  | some (col, page), _, _ => some (.text col page)
  | none, some (col, page), _ => some (.data col page)
  | none, none, some col => some (.pad col)
  | none, none, none => none

theorem partOf_eq_some {name : List Char} : partOf name = some part ↔ part.HasName name := by
  obtain ⟨htextdata, htextpad, hdatapad⟩ := names_exclusive name
  unfold partOf
  cases part with
  | text col page => grind [Part.HasName]
  | data col page => grind [Part.HasName]
  | pad col => grind [Part.HasName]

/-- A section of code: part, section number and size. -/
abbrev CodePiece := Part × ℕ × ℕ

/-- The piece a section is; without data it is none. -/
def pieceOf (i : ℕ) (shdr : ElfSection) : Option CodePiece :=
  shdr.data.bind fun data => (partOf shdr.name).map fun part => (part, i, data.length)

theorem pieceOf_eq (i : ℕ) (shdr : ElfSection) : pieceOf i shdr =
    (shdr.data.map List.length).bind fun size => (partOf shdr.name).map fun part => (part, i, size) := by
  rw [pieceOf, Option.bind_map]
  rfl

def addPiece (cols : List (ℤ × ColCode)) : CodePiece → List (ℤ × ColCode)
  | (.text col page, buf) => mapUpdate col ⟨[], []⟩
    (fun c => { c with pages := mapUpdate page ⟨none, none⟩ (fun p => { p with textBuf := some buf }) c.pages })
      cols
  | (.data col page, buf) => mapUpdate col ⟨[], []⟩
    (fun c => { c with pages := mapUpdate page ⟨none, none⟩ (fun p => { p with dataBuf := some buf }) c.pages })
      cols
  | (.pad col, buf) => mapUpdate col ⟨[], []⟩ (fun c => { c with pad := c.pad ++ [buf] }) cols

def relasOf (shdr : ElfSection) : List RelaPatch :=
  if shdr.data.isSome ∧ shdr.name = relaDyn then shdr.relas else []

def symbolsOf (elf : Elf) (shdr : ElfSection) : List DynsymPatch :=
  if shdr.data.isSome ∧ shdr.name = dynsymName then shdr.symbols.map (getSymbol elf shdr) else []

def stringsOf (i : ℕ) (shdr : ElfSection) : List (ℕ × ℕ) :=
  if shdr.name = dynstrName then (stringStarts (shdr.data.getD []) 0 true).map (i, ·) else []

theorem not_table_of_partOf {name : List Char} (h : partOf name = some part) :
    name ≠ relaDyn ∧ name ≠ dynsymName ∧ name ≠ dynstrName := by
  have hrela : partOf relaDyn = none := by decide
  have hsym : partOf dynsymName = none := by decide
  have hstr : partOf dynstrName = none := by decide
  refine ⟨?_, ?_, ?_⟩ <;> rintro rfl <;> simp_all

theorem tables_of_partOf (elf : Elf) (i : ℕ) {shdr : ElfSection} (h : partOf shdr.name = some part) :
    relasOf shdr = [] ∧ symbolsOf elf shdr = [] ∧ stringsOf i shdr = [] := by
  obtain ⟨hrela, hsym, hstr⟩ := not_table_of_partOf h
  simp [relasOf, symbolsOf, stringsOf, hrela, hsym, hstr]

/-- What a turn of the loop adds to the collections. -/
theorem parseSection_eq (elf : Elf) (cc : Ccode) (i : ℕ) (shdr : ElfSection) :
    parseSection elf cc i shdr = ⟨(pieceOf i shdr).elim cc.cols (addPiece cc.cols), cc.rela ++ relasOf shdr,
      cc.dynsym ++ symbolsOf elf shdr, cc.dynstr ++ stringsOf i shdr⟩ := by
  cases hdata : shdr.data with
  | none => simp [parseSection, pieceOf, relasOf, symbolsOf, stringsOf, hdata, stringStarts]
  | some data =>
    have hcode {part : Part} (hpart : partOf shdr.name = some part) :
        (⟨(pieceOf i shdr).elim cc.cols (addPiece cc.cols), cc.rela ++ relasOf shdr,
          cc.dynsym ++ symbolsOf elf shdr,
          cc.dynstr ++ stringsOf i shdr⟩ : Ccode) =
            { cc with cols := addPiece cc.cols (part, i, data.length) } := by
      obtain ⟨hrela, hsym, hstr⟩ := tables_of_partOf elf i hpart
      simp [pieceOf, hdata, hpart, hrela, hsym, hstr]
    unfold parseSection
    rw [hdata]
    dsimp only
    split
    · rename_i col page htext
      exact (@hcode (.text col page) (by simp [partOf, htext])).symm
    · rename_i col page htext hctrldata
      exact (@hcode (.data col page) (by simp [partOf, htext, hctrldata])).symm
    · rename_i col htext hctrldata hpad
      exact (@hcode (.pad col) (by simp [partOf, htext, hctrldata, hpad])).symm
    · rename_i htext hctrldata hpad
      have hpiece : pieceOf i shdr = none := by simp [pieceOf, hdata, partOf, htext, hctrldata, hpad]
      have hsyms : relaDyn ≠ dynsymName := by decide
      have hstrs : relaDyn ≠ dynstrName := by decide
      have hsymstr : dynsymName ≠ dynstrName := by decide
      split_ifs with hrela hsym hstr
      · simp [hpiece, relasOf, symbolsOf, stringsOf, hdata, hrela, hsyms, hstrs]
      · simp [hpiece, relasOf, symbolsOf, stringsOf, hdata, hsym, hsyms.symm, hsymstr]
      · simp [hpiece, relasOf, symbolsOf, stringsOf, hdata, hstr, hstrs.symm, hsymstr.symm]
      · simp [hpiece, relasOf, symbolsOf, stringsOf, hdata, hrela, hsym, hstr]

def Elf.collect {A : Type} (elf : Elf) (f : ℕ → ElfSection → List A) : List A :=
  (List.range elf.sections.length).flatMap fun i => (elf.sections[i]?).elim [] (f i)

theorem zipIdx_flatMap (elf : Elf) (f : ℕ → ElfSection → List A) :
    (elf.sections.zipIdx.flatMap fun e => f e.2 e.1) = elf.collect f := by
  have hwalk : elf.sections.zipIdx = (List.finRange elf.sections.length).map fun i => (elf.sections[i], i.val) :=
    List.ext_getElem (by simp) fun i _ _ => by simp
  have hrange : List.range elf.sections.length = (List.finRange elf.sections.length).map Fin.val := by simp
  rw [Elf.collect, hwalk, hrange, List.flatMap_map, List.flatMap_map]
  simp

def Elf.pieces (elf : Elf) : List CodePiece := elf.collect fun i shdr => (pieceOf i shdr).toList

theorem parseSections_eq (elf : Elf) :
    parseSections elf = ⟨elf.pieces.foldl addPiece [], elf.collect fun _ => relasOf,
    elf.collect fun _ => symbolsOf elf, elf.collect stringsOf⟩ := by
  have hrun (walk : List (ElfSection × ℕ)) (cc : Ccode) :
      walk.foldl (fun cc e => parseSection elf cc e.2 e.1) cc =
        ⟨(walk.flatMap fun e => (pieceOf e.2 e.1).toList).foldl addPiece cc.cols, cc.rela ++
          walk.flatMap fun e => relasOf e.1,
          cc.dynsym ++ walk.flatMap fun e => symbolsOf elf e.1, cc.dynstr ++ walk.flatMap fun e =>
            stringsOf e.2 e.1⟩ := by
    induction walk generalizing cc with
    | nil => simp
    | cons e rest ih =>
      obtain ⟨shdr, i⟩ := e
      rw [List.foldl_cons, ih]
      dsimp only
      rw [parseSection_eq]
      cases hpiece : pieceOf i shdr <;> simp [hpiece]
  refine (hrun _ _).trans ?_
  rw [Elf.pieces, ← zipIdx_flatMap, ← zipIdx_flatMap, ← zipIdx_flatMap, ← zipIdx_flatMap]
  rfl

theorem Elf.map_collect {B : Type} (elf : Elf) (f : ℕ → ElfSection → List A) (g : A → B) :
    (elf.collect f).map g = elf.collect fun i shdr => (f i shdr).map g := by
  rw [Elf.collect, Elf.collect, List.map_flatMap]
  congr 1
  funext i
  cases elf.sections[i]? <;> rfl

theorem Elf.mem_collect {elf : Elf} {f : ℕ → ElfSection → List A} {a : A} :
    a ∈ elf.collect f ↔ ∃ i shdr, elf.sections[i]? = some shdr ∧ a ∈ f i shdr := by
  rw [Elf.collect, List.mem_flatMap]
  constructor
  · rintro ⟨i, -, ha⟩
    cases hshdr : elf.sections[i]? with
    | none => simp [hshdr] at ha
    | some shdr => exact ⟨i, shdr, hshdr, by simpa [hshdr] using ha⟩
  · rintro ⟨i, shdr, hshdr, ha⟩
    exact ⟨i, List.mem_range.mpr (List.getElem?_eq_some_iff.mp hshdr).1, by simpa [hshdr] using ha⟩

end Parts

section Columns

/-- The buffers of a part among some pieces. -/
def buffersOf (pieces : List CodePiece) (part : Part) : List (ℕ × ℕ) :=
  pieces.filterMap fun piece => if piece.1 = part then some piece.2 else none

def columnsOf (pieces : List CodePiece) : Finset ℤ := (pieces.map fun piece => piece.1.col).toFinset

def pagesOf (pieces : List CodePiece) (col : ℤ) :
    Finset ℤ := (pieces.filterMap fun piece => piece.1.pageIn col).toFinset

/-- The page that pieces make: the last text and the last data. -/
def pageOf (pieces : List CodePiece) (col page : ℤ) : CtrlPage :=
  ⟨(buffersOf pieces (.text col page)).getLast?, (buffersOf pieces (.data col page)).getLast?⟩

def columnOf (pieces : List CodePiece) (col : ℤ) : ColCode :=
  ⟨tabulate (pagesOf pieces col) (pageOf pieces col), buffersOf pieces (.pad col)⟩

theorem buffersOf_append (pieces : List CodePiece) (part part' : Part) (buf : ℕ × ℕ) :
    buffersOf (pieces ++ [(part', buf)]) part = buffersOf pieces part ++ if part' = part then [buf] else [] := by
  rw [buffersOf, List.filterMap_append, ← buffersOf]
  by_cases h : part' = part <;> simp [h]

theorem pagesOf_append (pieces : List CodePiece) (piece : CodePiece) (col : ℤ) :
    pagesOf (pieces ++ [piece]) col =
      (piece.1.pageIn col).elim (pagesOf pieces col) fun page => insert page (pagesOf pieces col) := by
  cases h : piece.1.pageIn col with
  | none => simp [pagesOf, h]
  | some page => ext; simp [pagesOf, h]

theorem columnsOf_append (pieces : List CodePiece) (piece : CodePiece) :
    columnsOf (pieces ++ [piece]) = insert piece.1.col (columnsOf pieces) := by
  ext
  simp [columnsOf]

theorem buffersOf_eq_nil {pieces : List CodePiece} :
    buffersOf pieces part = [] ↔ ∀ piece ∈ pieces, piece.1 ≠ part := by
  simp [buffersOf]

theorem pageOf_fresh {pieces : List CodePiece} {col : ℤ} (h : page ∉ pagesOf pieces col) :
    pageOf pieces col page = ⟨none, none⟩ := by
  have hnone {part : Part} (hpage : part.pageIn col = some page) : buffersOf pieces part = [] := by
    refine buffersOf_eq_nil.mpr fun piece hpiece heq => h ?_
    exact List.mem_toFinset.mpr (List.mem_filterMap.mpr ⟨piece, hpiece, heq ▸ hpage⟩)
  have htext : buffersOf pieces (.text col page) = [] := hnone (if_pos rfl)
  have hdata : buffersOf pieces (.data col page) = [] := hnone (if_pos rfl)
  rw [pageOf, htext, hdata, List.getLast?_nil]

theorem Part.col_of_pageIn {part : Part} {col : ℤ} (h : part.pageIn col = some page) : part.col = col := by
  cases part with
  | text | data => exact (Option.ite_none_right_eq_some.mp h).1
  | pad => cases h

theorem columnOf_fresh {pieces : List CodePiece} {col : ℤ} (h : col ∉ columnsOf pieces) :
    columnOf pieces col = ⟨[], []⟩ := by
  have hother : ∀ piece ∈ pieces, piece.1.col ≠ col := fun piece hpiece heq =>
    h (List.mem_toFinset.mpr (List.mem_map.mpr ⟨piece, hpiece, heq⟩))
  have hpages : pagesOf pieces col = ∅ := by
    refine Finset.eq_empty_of_forall_notMem fun page hpage => ?_
    obtain ⟨piece, hpiece, hin⟩ := List.mem_filterMap.mp (List.mem_toFinset.mp hpage)
    exact hother piece hpiece (Part.col_of_pageIn hin)
  have hpads : buffersOf pieces (.pad col) = [] :=
    buffersOf_eq_nil.mpr fun piece hpiece heq => hother piece hpiece (heq ▸ rfl)
  rw [columnOf, hpages, hpads, tabulate, Finset.sort_empty, List.map_nil]

theorem buffersOf_append_of_ne (pieces : List CodePiece) {part' : Part} (buf : ℕ × ℕ) (h : part' ≠ part) :
    buffersOf (pieces ++ [(part', buf)]) part = buffersOf pieces part := by
  rw [buffersOf_append, if_neg h, List.append_nil]

theorem columnOf_append_of_ne (pieces : List CodePiece) (buf : ℕ × ℕ) {col : ℤ} (h : part.col ≠ col) :
    columnOf (pieces ++ [(part, buf)]) col = columnOf pieces col := by
  have hpages : pagesOf (pieces ++ [(part, buf)]) col = pagesOf pieces col := by
    have hnone : part.pageIn col = none := Option.eq_none_iff_forall_ne_some.mpr fun _ hin =>
      h (Part.col_of_pageIn hin)
    rw [pagesOf_append, hnone, Option.elim_none]
  have hbuffers {part' : Part} (hcol : part'.col = col) :
      buffersOf (pieces ++ [(part, buf)]) part' = buffersOf pieces part' :=
    buffersOf_append_of_ne pieces buf fun heq => h (heq ▸ hcol)
  have hpage : pageOf (pieces ++ [(part, buf)]) col = pageOf pieces col := by
    funext page
    rw [pageOf, pageOf, hbuffers rfl, hbuffers rfl]
  rw [columnOf, columnOf, hpages, hpage, hbuffers rfl]

theorem columnOf_append_page (pieces : List CodePiece) (buf : ℕ × ℕ) {col : ℤ}
    (hpart : part = .text col page ∨ part = .data col page) {f : CtrlPage → CtrlPage}
    (hhere : f (pageOf pieces col page) = pageOf (pieces ++ [(part, buf)]) col page) :
    { columnOf pieces col with pages := mapUpdate page ⟨none, none⟩ f (columnOf pieces col).pages } =
      columnOf (pieces ++ [(part, buf)]) col := by
  have hpages : pagesOf (pieces ++ [(part, buf)]) col = insert page (pagesOf pieces col) := by
    have hpage : part.pageIn col = some page := by rcases hpart with rfl | rfl <;> exact if_pos rfl
    rw [pagesOf_append, hpage, Option.elim_some]
  have hothers : ∀ p ≠ page, pageOf pieces col p = pageOf (pieces ++ [(part, buf)]) col p := by
    intro p hne
    have htext : part ≠ .text col p := by rcases hpart with rfl | rfl <;> simp [hne.symm]
    have hdata : part ≠ .data col p := by rcases hpart with rfl | rfl <;> simp [hne.symm]
    rw [pageOf, pageOf, buffersOf_append_of_ne pieces buf htext, buffersOf_append_of_ne pieces buf hdata]
  have hpads : part ≠ .pad col := by rcases hpart with rfl | rfl <;> exact Part.noConfusion
  simp only [columnOf]
  rw [mapUpdate_tabulate (fun _ => pageOf_fresh), Function.update_eq_iff.mpr ⟨hhere, hothers⟩, hpages,
    buffersOf_append_of_ne pieces buf hpads]

theorem addPiece_tabulate (pieces : List CodePiece) (piece : CodePiece) :
    addPiece (tabulate (columnsOf pieces) (columnOf pieces)) piece =
      tabulate (columnsOf (pieces ++ [piece])) (columnOf (pieces ++ [piece])) := by
  obtain ⟨part, buf⟩ := piece
  have hothers : ∀ c ≠ part.col, columnOf pieces c = columnOf (pieces ++ [(part, buf)]) c := fun c hne =>
    (columnOf_append_of_ne pieces buf hne.symm).symm
  have hcolumns {f : ColCode → ColCode}
      (hhere : f (columnOf pieces part.col) = columnOf (pieces ++ [(part, buf)]) part.col) :
      mapUpdate part.col ⟨[], []⟩ f (tabulate (columnsOf pieces) (columnOf pieces)) =
        tabulate (columnsOf (pieces ++ [(part, buf)])) (columnOf (pieces ++ [(part, buf)])) := by
    rw [mapUpdate_tabulate (fun _ => columnOf_fresh), columnsOf_append, Function.update_eq_iff.mpr ⟨hhere, hothers⟩]
  cases part with
  | text col page =>
    refine hcolumns (columnOf_append_page pieces buf (.inl rfl) ?_)
    simp [pageOf, buffersOf_append]
  | data col page =>
    refine hcolumns (columnOf_append_page pieces buf (.inr rfl) ?_)
    simp [pageOf, buffersOf_append]
  | pad col =>
    refine hcolumns ?_
    have hpages : pagesOf (pieces ++ [(.pad col, buf)]) col = pagesOf pieces col := pagesOf_append ..
    have hpage : pageOf (pieces ++ [(.pad col, buf)]) col = pageOf pieces col := by
      funext page
      simp [pageOf, buffersOf_append]
    simp [columnOf, Part.col, hpages, hpage, buffersOf_append]

theorem parseSections_cols (elf : Elf) :
    (parseSections elf).cols = tabulate (columnsOf elf.pieces) (columnOf elf.pieces) := by
  rw [parseSections_eq]
  induction elf.pieces using List.reverseRecOn with
  | nil => simp [columnsOf, tabulate]
  | append_singleton pieces piece ih =>
    rw [List.foldl_append, List.foldl_cons, List.foldl_nil]
    exact (congrArg (addPiece · piece) ih).trans (addPiece_tabulate pieces piece)

end Columns

end AieBaremetal.Cert
