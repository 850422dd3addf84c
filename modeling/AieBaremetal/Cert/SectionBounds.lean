import AieBaremetal.Cert.PatchedAlike

/-!
# Accesses to the sections

The loader adds the offset of a relocation to the address of its symbol's section and patches up to
nine words there; nothing compares it with the size of the section, and a section without data has no
address at all. Here every byte of a section is read and written through a check, and `parse` has no
result if one is behind the end. A string may end with the zero the ELF library keeps behind a section.
-/

namespace AieBaremetal.Cert

open Common

section Accesses

/-- Bytes of the contents of a section, if it has data. -/
def Elf.sectionSize (elf : Elf) (sec : ℕ) : ℕ := ((elf.contents sec).getD []).length

def byteAt (elf : Elf) (m : SectionMemory) (place : ℕ × ℕ) : Option UInt8 :=
  if place.2 < elf.sectionSize place.1 then some (m place) else none

def loadWordAt (elf : Elf) (m : SectionMemory) (sec pos : ℕ) : Option (BitVec 32) :=
  ((List.range 4).mapM fun i => byteAt elf m (sec, pos + i)).map fun bytes => BitVec.ofNat 32 (leNat bytes)

def storeWordAt (elf : Elf) (m : SectionMemory) (sec pos : ℕ) (word : BitVec 32) : Option SectionMemory :=
  if ∀ i ∈ List.range 4, (byteAt elf m (sec, pos + i)).isSome then some (storeWord m sec pos word) else none

/-- The characters up to the zero; behind `n` bytes only the zero may follow. -/
def viewFrom (elf : Elf) (m : SectionMemory) (sec : ℕ) : ℕ → ℕ → Option (List UInt8)
  | 0, p => if m (sec, p) = 0 then some [] else none
  | n + 1, p => do
    let c ← byteAt elf m (sec, p)
    if c = 0 then some [] else (viewFrom elf m sec n (p + 1)).map (c :: ·)

def viewAt (elf : Elf) (m : SectionMemory) (place : ℕ × ℕ) : Option (List UInt8) :=
  viewFrom elf m place.1 (elf.sectionSize place.1 - place.2) place.2

def bufBytesAt (elf : Elf) (m : SectionMemory) (buf : ℕ × ℕ) : Option (List UInt8) :=
  (List.range buf.2).mapM fun i => byteAt elf m (buf.1, i)

end Accesses

section Patchers

def patchScalar32At (elf : Elf) (m : SectionMemory) (sec pos : ℕ) (patch : BitVec 64) : Option SectionMemory := do
  let word0 ← loadWordAt elf m sec pos
  let baseAddress := word0.setWidth 64 + patch
  storeWordAt elf m sec pos ((baseAddress &&& 0xFFFFFFFF#64).setWidth 32)

def aie4Patch57At (elf : Elf) (m : SectionMemory) (sec pos : ℕ) (offsetVal : BitVec 64) : Option SectionMemory := do
  let word0 ← loadWordAt elf m sec pos
  let word1 ← loadWordAt elf m sec (pos + 4)
  let baseAddress := ((word0.setWidth 64 &&& 0x1FFFFFF#64) <<< 32 ||| word1.setWidth 64) + offsetVal
  let m ← storeWordAt elf m sec (pos + 4) ((baseAddress &&& 0xFFFFFFFF#64).setWidth 32)
  let word0 ← loadWordAt elf m sec pos
  storeWordAt elf m sec pos ((word0 &&& 0xFE000000#32) ||| ((baseAddress >>> 32) &&& 0x1FFFFFF#64).setWidth 32)

def aie2psPatch57At (elf : Elf) (m : SectionMemory) (sec pos : ℕ) (patch : BitVec 64) : Option SectionMemory := do
  let word8 ← loadWordAt elf m sec (pos + 32)
  let word2 ← loadWordAt elf m sec (pos + 8)
  let word1 ← loadWordAt elf m sec (pos + 4)
  let baseAddress := ((word8.setWidth 64 &&& 0x1FF#64) <<< 48 ||| (word2.setWidth 64 &&& 0xFFFF#64) <<< 32 |||
    word1.setWidth 64) + patch
  let m ← storeWordAt elf m sec (pos + 4) ((baseAddress &&& 0xFFFFFFFF#64).setWidth 32)
  let word2 ← loadWordAt elf m sec (pos + 8)
  let m ← storeWordAt elf m sec (pos + 8)
    ((word2 &&& 0xFFFF0000#32) ||| ((baseAddress >>> 32) &&& 0xFFFF#64).setWidth 32)
  let word8 ← loadWordAt elf m sec (pos + 32)
  storeWordAt elf m sec (pos + 32) ((word8 &&& 0xFFFFFE00#32) ||| ((baseAddress >>> 48) &&& 0x1FF#64).setWidth 32)

def aie2psPatchCtrl57At (elf : Elf) (m : SectionMemory) (sec pos : ℕ) (patch : BitVec 64) :
    Option SectionMemory := do
  let word2 ← loadWordAt elf m sec (pos + 8)
  let word3 ← loadWordAt elf m sec (pos + 12)
  let baseAddress := ((word3.setWidth 64 &&& 0xFFFF#64) <<< 32 ||| word2.setWidth 64) + patch
  let m ← storeWordAt elf m sec (pos + 8) ((baseAddress &&& 0xFFFFFFFC#64).setWidth 32)
  let word3 ← loadWordAt elf m sec (pos + 12)
  storeWordAt elf m sec (pos + 12) ((word3 &&& 0xFFFF0000#32) ||| (baseAddress >>> 32).setWidth 32)

def aie4PatchCtrl57At (elf : Elf) (m : SectionMemory) (sec pos : ℕ) (patch : BitVec 64) : Option SectionMemory := do
  let word1 ← loadWordAt elf m sec (pos + 4)
  let word2 ← loadWordAt elf m sec (pos + 8)
  let baseAddress := ((word1.setWidth 64 &&& 0x1FFFFFF#64) <<< 32 ||| word2.setWidth 64) + patch
  let m ← storeWordAt elf m sec (pos + 8) ((baseAddress &&& 0xFFFFFFFF#64).setWidth 32)
  let word0 ← loadWordAt elf m sec pos
  storeWordAt elf m sec (pos + 4)
    ((word0 &&& 0xFE000000#32) ||| ((baseAddress >>> 32) &&& 0x1FFFFFF#64).setWidth 32)

def Kind.patchAt : Kind → Elf → SectionMemory → ℕ → ℕ → BitVec 64 → Option SectionMemory
  | .scalar32BitKind => patchScalar32At
  | .shimDmaBaseAddrSymbolKind => aie2psPatch57At
  | .shimDmaAie4BaseAddrSymbolKind => aie4Patch57At
  | .controlPacket57 => aie2psPatchCtrl57At
  | .controlPacket57Aie4 => aie4PatchCtrl57At
  | _ => fun _ m _ _ _ => some m

end Patchers

section Parse

/-- The characters read to look up a symbol. -/
def nameAt (elf : Elf) (cc : Ccode) (m : SectionMemory) (symbol : BitVec 32) : Option (List UInt8) :=
  match cc.dynsym[symbol.toNat]?, cc.dynstr[symbol.toNat]? with
  | some _, some dynstr => viewAt elf m dynstr
  | _, _ => some []

/-- A turn of the loop over the relocations. -/
def patchRelaAt (elf : Elf) (cc : Ccode) (symbolMap : SymbolMap) (m : SectionMemory) (rela : RelaPatch) :
    Option SectionMemory := do
  let _ ← nameAt elf cc m rela.symbol
  match resolveRela elf cc symbolMap m rela with
  | .skip => some m
  | .fault => none
  | .apply a => a.kind.patchAt elf m a.sec (relaPos a.rela) (a.value + relaAddend elf a.rela)

def colCodeAt (elf : Elf) (m : SectionMemory) (col : ColCode) : Option (List UInt8) := do
  let pages ← col.pages.mapM fun (_, page) => do
    let text ← page.textBuf.elim (some []) (bufBytesAt elf m)
    let data ← page.dataBuf.elim (some []) (bufBytesAt elf m)
    some (text ++ data)
  let pads ← col.pad.mapM (bufBytesAt elf m)
  some (pages.flatten ++ pads.flatten)

def parseAt (elf : Elf) (symbolMap : SymbolMap) : Option Columns := do
  let cc := parseSections elf
  -- a view is made of each string when the section is read
  let _ ← cc.dynstr.mapM (viewAt elf elf.memory)
  let m ← cc.rela.foldlM (patchRelaAt elf cc symbolMap) elf.memory
  cc.cols.mapM fun (col, code) => (colCodeAt elf m code).map (Prod.mk col)

def Applied.InSection (elf : Elf) (a : Applied) : Prop :=
  ∀ j ∈ a.kind.words, relaPos a.rela + 4 * j + 4 ≤ elf.sectionSize a.sec

instance (elf : Elf) (a : Applied) :
    Decidable (a.InSection elf) := inferInstanceAs (Decidable (∀ j ∈ a.kind.words, _))

end Parse

section Patches

variable {elf : Elf} {sec pos : ℕ}

theorem loadWordAt_of_le (h : pos + 4 ≤ elf.sectionSize sec) (m : SectionMemory) :
    loadWordAt elf m sec pos = some (loadWord m sec pos) := by
  have hbyte (i : ℕ) (hi : i < 4) : byteAt elf m (sec, pos + i) = some (m (sec, pos + i)) :=
    if_pos (lt_of_lt_of_le (Nat.add_lt_add_left hi pos) h)
  have hfirst : byteAt elf m (sec, pos) = some (m (sec, pos)) := hbyte 0 (by decide)
  simp [loadWordAt, loadWord, load, List.range_succ, hbyte, hfirst]

theorem loadWordAt_of_lt (h : elf.sectionSize sec < pos + 4) (m : SectionMemory) :
    loadWordAt elf m sec pos = none := by
  have hlast : byteAt elf m (sec, pos + 3) = none := if_neg (not_lt.mpr (Nat.le_of_lt_succ h))
  cases hloaded : loadWordAt elf m sec pos with
  | none => rfl
  | some word =>
    simp [loadWordAt, List.range_succ, hlast] at hloaded

theorem storeWordAt_of_le (h : pos + 4 ≤ elf.sectionSize sec) (m : SectionMemory) (word : BitVec 32) :
    storeWordAt elf m sec pos word = some (storeWord m sec pos word) := by
  refine if_pos fun i hi => ?_
  rw [byteAt, if_pos (lt_of_lt_of_le (Nat.add_lt_add_left (List.mem_range.mp hi) pos) h)]
  rfl

theorem eq_ite_of_last {A : Type} {words : List ℕ} (last : ℕ) (hlast : last ∈ words)
    (hwords : ∀ j ∈ words, j ≤ last) {x : Option A} {y : A}
    (hin : pos + 4 * last + 4 ≤ elf.sectionSize sec → x = some y)
    (hout : elf.sectionSize sec < pos + 4 * last + 4 → x = none) :
    x = if ∀ j ∈ words, pos + 4 * j + 4 ≤ elf.sectionSize sec then some y else none := by
  by_cases h : pos + 4 * last + 4 ≤ elf.sectionSize sec
  · rw [if_pos fun j hj => ?_, hin h]
    have := hwords j hj
    omega
  · rw [if_neg fun hall => h (hall last hlast), hout (not_le.mp h)]

/-- A patch is made if its words are in the section, of which the last one decides. -/
theorem Kind.patchAt_eq (kind : Kind) (elf : Elf) (m : SectionMemory) (sec pos : ℕ) (patch : BitVec 64) :
    kind.patchAt elf m sec pos patch =
      if ∀ j ∈ kind.words, pos + 4 * j + 4 ≤ elf.sectionSize sec then
        some (kind.patch m sec pos patch) else none := by
  cases kind with
  | scalar32BitKind =>
    refine eq_ite_of_last 0 (by decide) (by decide) (fun h => ?_) fun h => ?_
    · simp (disch := omega) only [Kind.patchAt, patchScalar32At, loadWordAt_of_le, storeWordAt_of_le,
        Option.bind_eq_bind, Option.bind_some]
      rfl
    · simp (disch := omega) [Kind.patchAt, patchScalar32At, loadWordAt_of_lt]
  | shimDmaBaseAddrSymbolKind =>
    refine eq_ite_of_last 8 (by decide) (by decide) (fun h => ?_) fun h => ?_
    · simp (disch := omega) only [Kind.patchAt, aie2psPatch57At, loadWordAt_of_le, storeWordAt_of_le,
        Option.bind_eq_bind, Option.bind_some]
      rfl
    · simp (disch := omega) [Kind.patchAt, aie2psPatch57At, loadWordAt_of_lt]
  | shimDmaAie4BaseAddrSymbolKind =>
    refine eq_ite_of_last 1 (by decide) (by decide) (fun h => ?_) fun h => ?_
    · simp (disch := omega) only [Kind.patchAt, aie4Patch57At, loadWordAt_of_le, storeWordAt_of_le,
        Option.bind_eq_bind, Option.bind_some]
      rfl
    · simp (disch := omega) [Kind.patchAt, aie4Patch57At, loadWordAt_of_lt]
  | controlPacket57 =>
    refine eq_ite_of_last 3 (by decide) (by decide) (fun h => ?_) fun h => ?_
    · simp (disch := omega) only [Kind.patchAt, aie2psPatchCtrl57At, loadWordAt_of_le, storeWordAt_of_le,
        Option.bind_eq_bind, Option.bind_some]
      rfl
    · simp (disch := omega) [Kind.patchAt, aie2psPatchCtrl57At, loadWordAt_of_lt]
  | controlPacket57Aie4 =>
    refine eq_ite_of_last 2 (by decide) (by decide) (fun h => ?_) fun h => ?_
    · simp (disch := omega) only [Kind.patchAt, aie4PatchCtrl57At, loadWordAt_of_le, storeWordAt_of_le,
        Option.bind_eq_bind, Option.bind_some]
      rfl
    · simp (disch := omega) [Kind.patchAt, aie4PatchCtrl57At, loadWordAt_of_lt]
  | ucDmaRemotePtrSymbolKind | controlPacket48 | unknownSymbolKind => rfl

end Patches

section Reads

variable {elf : Elf} {m : SectionMemory}

theorem mapM_eq_some {A B : Type} {f : A → Option B} {g : A → B} {l : List A} (h : ∀ a ∈ l, f a = some (g a)) :
    l.mapM f = some (l.map g) := by
  induction l with
  | nil => rfl
  | cons a rest ih =>
    obtain ⟨ha, hrest⟩ := List.forall_mem_cons.mp h
    rw [List.mapM_cons, ha, ih hrest]
    rfl

/-- The zero behind each section is still there. -/
def Terminated (elf : Elf) (m : SectionMemory) : Prop := ∀ sec, m (sec, elf.sectionSize sec) = 0

theorem terminated_memory (elf : Elf) : Terminated elf elf.memory := by
  intro sec
  simp [Elf.memory, Elf.sectionSize, List.getD_eq_getElem?_getD]

theorem viewAt_isSome (h : Terminated elf m) {place : ℕ × ℕ} (hplace : place.2 ≤ elf.sectionSize place.1) :
    (viewAt elf m place).isSome := by
  obtain ⟨sec, p⟩ := place
  have hview (n p : ℕ) (hend : p + n = elf.sectionSize sec) : (viewFrom elf m sec n p).isSome := by
    induction n generalizing p with
    | zero =>
      obtain rfl : p = elf.sectionSize sec := hend
      rw [viewFrom, if_pos (h sec)]
      rfl
    | succ n ih =>
      have hbyte : byteAt elf m (sec, p) = some (m (sec, p)) := if_pos (by simp only; omega)
      rw [viewFrom, hbyte]
      simp only [Option.bind_eq_bind, Option.bind_some]
      split_ifs
      · rfl
      · rw [Option.isSome_map]
        exact ih (p + 1) (by omega)
  exact hview _ p (Nat.add_sub_cancel' hplace)

theorem dynstr_le {place : ℕ × ℕ} (h : place ∈ (parseSections elf).dynstr) : place.2 ≤ elf.sectionSize place.1 := by
  obtain ⟨shdr, data, hshdr, -, hdata, hlt⟩ := parseSections_dynstr h
  rw [Elf.sectionSize, Elf.contents, hshdr, Option.bind_some, hdata]
  exact hlt.le

theorem bufBytesAt_of_le {buf : ℕ × ℕ} (h : buf.2 ≤ elf.sectionSize buf.1) (m : SectionMemory) :
    bufBytesAt elf m buf = some (bufBytes m buf) :=
  mapM_eq_some fun _ hi => if_pos (lt_of_lt_of_le (List.mem_range.mp hi) h)

theorem piece_le {piece : CodePiece} (h : piece ∈ elf.pieces) : piece.2.2 ≤ elf.sectionSize piece.2.1 := by
  obtain ⟨shdr, data, hshdr, hdata, -, hsize⟩ := Elf.mem_pieces.mp h
  rw [hsize, Elf.sectionSize, Elf.contents, hshdr, Option.bind_some, hdata]
  rfl

/-- The code of a column is read from the sections. -/
theorem colCodeAt_eq (elf : Elf) (m : SectionMemory) (col : ℤ) :
    colCodeAt elf m (columnOf elf.pieces col) = some (colCode m (columnOf elf.pieces col)) := by
  have hbuf {part : Part} {buf : ℕ × ℕ} (hmem : buf ∈ buffersOf elf.pieces part) :
      bufBytesAt elf m buf = some (bufBytes m buf) := bufBytesAt_of_le (piece_le (mem_buffersOf.mp hmem)) m
  have hlast (part : Part) : (buffersOf elf.pieces part).getLast?.elim (some []) (bufBytesAt elf m) =
      some ((buffersOf elf.pieces part).getLast?.elim [] (bufBytes m)) := by
    cases hfound : (buffersOf elf.pieces part).getLast? with
    | none => rfl
    | some buf => exact hbuf (List.mem_of_mem_getLast? hfound)
  have hpads : (buffersOf elf.pieces (.pad col)).mapM (bufBytesAt elf m) =
      some ((buffersOf elf.pieces (.pad col)).map (bufBytes m)) := mapM_eq_some fun _ hmem => hbuf hmem
  have hpages : (columnOf elf.pieces col).pages.mapM (fun (_, page) => do
        let text ← page.textBuf.elim (some []) (bufBytesAt elf m)
        let data ← page.dataBuf.elim (some []) (bufBytesAt elf m)
        some (text ++ data)) =
      some ((columnOf elf.pieces col).pages.map fun (_, page) =>
        (page.textBuf.elim [] (bufBytes m)) ++ (page.dataBuf.elim [] (bufBytes m))) := by
    refine mapM_eq_some fun entry hentry => ?_
    obtain ⟨page, contents⟩ := entry
    obtain rfl : contents = pageOf elf.pieces col page := (mem_tabulate.mp hentry).2
    simp only [pageOf, hlast, Option.bind_eq_bind, Option.bind_some]
  rw [colCodeAt, hpages, Option.bind_eq_bind, Option.bind_some]
  change ((buffersOf elf.pieces (.pad col)).mapM (bufBytesAt elf m)).bind _ = _
  rw [hpads]
  rfl

end Reads

section Run

variable {elf : Elf} (symbolMap : SymbolMap) {m : SectionMemory}

theorem Terminated.name (h : Terminated elf m) (rela : RelaPatch) :
    (nameAt elf (parseSections elf) m rela.symbol).isSome ∧
      resolveRela elf (parseSections elf) symbolMap m rela ≠ .fault := by
  rw [nameAt, resolveRela]
  cases (parseSections elf).dynsym[rela.symbol.toNat]? with
  | none => exact ⟨rfl, by simp⟩
  | some dynsym =>
    cases hstr : (parseSections elf).dynstr[rela.symbol.toNat]? with
    | none => exact ⟨rfl, by simp⟩
    | some place =>
      have hplace := List.mem_of_getElem? hstr
      obtain ⟨name, hname⟩ := stringAt_of_zero hplace (h place.1)
      refine ⟨viewAt_isSome h (dynstr_le hplace), ?_⟩
      simp only [hname]
      split
      · split_ifs <;> simp
      · simp

theorem sectionSize_le_bufferSize (elf : Elf) (sec : ℕ) : elf.sectionSize sec ≤ elf.bufferSize sec := by
  rw [Elf.sectionSize, Elf.bufferSize]
  cases elf.contents sec with
  | none => exact le_rfl
  | some data => exact Nat.le_succ _

theorem Terminated.run (h : Terminated elf m) {a : Applied} (hin : a.InSection elf) :
    Terminated elf (a.run elf m) := by
  intro sec
  refine (a.kind.patch_of_outside m _ fun hsec j hj => ?_).trans (h sec)
  subst hsec
  exact .inr (hin j hj)

theorem patchRelaAt_eq (h : Terminated elf m) (rela : RelaPatch) :
    (∃ m', patchRelaAt elf (parseSections elf) symbolMap m rela = some m' ∧
        (patchRela elf (parseSections elf) symbolMap m rela).2 = some m' ∧ Terminated elf m' ∧
        ∀ a, (patchRela elf (parseSections elf) symbolMap m rela).1 = some a → a.InSection elf) ∨
      patchRelaAt elf (parseSections elf) symbolMap m rela = none ∧
        ∃ a, (patchRela elf (parseSections elf) symbolMap m rela).1 = some a ∧ ¬ a.InSection elf := by
  obtain ⟨hname, hends⟩ := h.name symbolMap rela
  obtain ⟨name, hname⟩ := Option.isSome_iff_exists.mp hname
  rw [patchRelaAt, hname, patchRela, Option.bind_eq_bind, Option.bind_some]
  cases hresolve : resolveRela elf (parseSections elf) symbolMap m rela with
  | skip => exact .inl ⟨m, rfl, rfl, h, by simp⟩
  | fault => exact absurd hresolve hends
  | apply a =>
    dsimp only
    rw [Kind.patchAt_eq]
    by_cases hin : a.InSection elf
    · have hbuffer : a.InBuffer elf := fun j hj => (hin j hj).trans (sectionSize_le_bufferSize elf _)
      refine .inl ⟨a.run elf m, if_pos hin, if_pos hbuffer, h.run hin, ?_⟩
      rintro _ ⟨⟩
      exact hin
    · exact .inr ⟨if_neg hin, a, rfl, hin⟩

theorem patchRelasAt_eq (relas : List RelaPatch) (h : Terminated elf m) :
    (∃ m', relas.foldlM (patchRelaAt elf (parseSections elf) symbolMap) m = some m' ∧
        (patchRelas elf (parseSections elf) symbolMap relas m).2 = some m' ∧
        ∀ a ∈ (patchRelas elf (parseSections elf) symbolMap relas m).1, a.InSection elf) ∨
      relas.foldlM (patchRelaAt elf (parseSections elf) symbolMap) m = none ∧
        ∃ a ∈ (patchRelas elf (parseSections elf) symbolMap relas m).1, ¬ a.InSection elf := by
  induction relas generalizing m with
  | nil => exact .inl ⟨m, rfl, rfl, fun _ ha => absurd ha List.not_mem_nil⟩
  | cons rela rest ih =>
    rw [patchRelas_cons, List.foldlM_cons]
    rcases patchRelaAt_eq symbolMap h rela with ⟨m₁, hat, hturn, hterm, hin⟩ | ⟨hat, a, ha, hout⟩
    · rw [hat, hturn]
      rcases ih hterm with ⟨m₂, hat₂, hrest, hin₂⟩ | ⟨hat₂, a, ha, hout⟩
      · refine .inl ⟨m₂, hat₂, hrest, List.forall_mem_append.mpr ⟨fun a ha => ?_, hin₂⟩⟩
        exact hin a (Option.mem_toList.mp ha)
      · exact .inr ⟨hat₂, a, List.mem_append_right _ ha, hout⟩
    · rw [hat]
      exact .inr ⟨rfl, a, List.mem_append_left _ (Option.mem_toList.mpr ha), hout⟩

end Run

/-- If `.dynstr` is not relocated, every applied relocation is in its section exactly if every one is that the
tables apply. -/
theorem applied_inSection_iff {elf : Elf} (symbolMap : SymbolMap) (hspares : SparesNames elf) :
    (∀ a ∈ (patchElf elf symbolMap).1, a.InSection elf) ↔
      ∀ rela ∈ (parseSections elf).rela, ∀ a, TablesApply elf symbolMap rela a → a.InSection elf := by
  constructor
  · intro h rela hrela a happly
    -- the loop comes to every relocation, since it goes on behind those that are in their section
    have hpass (before after : List RelaPatch) (hsplit : (parseSections elf).rela = before ++ after) :
        ∀ r ∈ before, TablesPass elf symbolMap r := by
      induction before using List.reverseRecOn generalizing after with
      | nil => exact nofun
      | append_singleton before r ih =>
        have hbefore := ih (r :: after) (by rw [hsplit, List.append_assoc, List.singleton_append])
        refine List.forall_mem_append.mpr ⟨hbefore, fun r' hr' => ?_⟩
        obtain rfl := List.mem_singleton.mp hr'
        unfold TablesPass patchRela
        cases hresolve : resolveRela elf (parseSections elf) symbolMap elf.memory r' with
        | skip => rfl
        | fault => exact absurd hresolve ((terminated_memory elf).name symbolMap r').2
        | apply a =>
          have hin := h a ((mem_patchElf_iff hspares).mpr
            ⟨before, r', after, by rw [hsplit, List.append_assoc, List.singleton_append], hbefore, hresolve⟩)
          have hbuffer : a.InBuffer elf := fun j hj => (hin j hj).trans (sectionSize_le_bufferSize elf _)
          dsimp only
          rw [if_pos hbuffer]
          rfl
    obtain ⟨before, after, hsplit⟩ := List.append_of_mem hrela
    exact h a ((mem_patchElf_iff hspares).mpr ⟨before, rela, after, hsplit, hpass before _ hsplit, happly⟩)
  · intro h a ha
    obtain ⟨before, rela, after, hsplit, -, happly⟩ := (mem_patchElf_iff hspares).mp ha
    exact h rela (by rw [hsplit]; simp) a happly

/-- The code of the columns is in the sections. -/
theorem mapM_colCodeAt (elf : Elf) (m : SectionMemory) :
    (parseSections elf).cols.mapM (fun (col, code) => (colCodeAt elf m code).map (Prod.mk col)) =
      some ((parseSections elf).cols.map fun (col, code) => (col, colCode m code)) := by
  refine mapM_eq_some fun entry hentry => ?_
  rw [parseSections_cols] at hentry
  obtain ⟨col, code⟩ := entry
  obtain rfl : code = columnOf elf.pieces col := (mem_tabulate.mp hentry).2
  simp only [colCodeAt_eq, Option.map_some]

/-- With every access checked, `parse` has a result exactly if the words of each relocation it applies are in the
section of its symbol; then it is that of the unchecked `parse`. If no relocation changes `.dynstr`, this is a
condition on the tables of the file. -/
theorem parseAt_iff (elf : Elf) (symbolMap : SymbolMap) :
    ((parseAt elf symbolMap).isSome ↔ ∀ a ∈ (patchElf elf symbolMap).1, a.InSection elf) ∧
      (SparesNames elf → ((parseAt elf symbolMap).isSome ↔
        ∀ rela ∈ (parseSections elf).rela, ∀ a, TablesApply elf symbolMap rela a → a.InSection elf)) ∧
      ∀ columns, parseAt elf symbolMap = some columns → parse elf symbolMap = some columns := by
  have hviews : (parseSections elf).dynstr.mapM (viewAt elf elf.memory) =
      some ((parseSections elf).dynstr.map fun place => (viewAt elf elf.memory place).getD []) :=
    mapM_eq_some fun place hplace => by
      obtain ⟨view, hview⟩ := Option.isSome_iff_exists.mp (viewAt_isSome (terminated_memory elf) (dynstr_le hplace))
      rw [hview, Option.getD_some]
  rw [parseAt, hviews, Option.bind_eq_bind, Option.bind_some]
  rcases patchRelasAt_eq symbolMap (parseSections elf).rela (terminated_memory elf) with
    ⟨m, hat, hrun, hin⟩ | ⟨hat, a, ha, hout⟩
  · rw [hat, Option.bind_eq_bind, Option.bind_some, mapM_colCodeAt]
    refine ⟨iff_of_true rfl hin, fun hspares => ?_, fun columns hcolumns => ?_⟩
    · exact iff_of_true rfl ((applied_inSection_iff symbolMap hspares).mp hin)
    rw [parse, patchElf, hrun]
    exact hcolumns
  · rw [hat]
    have hnot : ¬ ∀ a ∈ (patchElf elf symbolMap).1, a.InSection elf := fun hin => hout (hin a ha)
    refine ⟨iff_of_false Bool.false_ne_true hnot, fun hspares => ?_, fun columns h =>
      absurd h.symm (Option.some_ne_none _)⟩
    exact iff_of_false Bool.false_ne_true fun hin => hnot ((applied_inSection_iff symbolMap hspares).mpr hin)

/-- A file with a scalar relocation of a section of 20 bytes. -/
def offsetElf (offset : BitVec 64) : Elf where
  abiVersion := 2#8
  sections :=
    [⟨[], none, 0, [], []⟩,
      ⟨".ctrltext.0.0".toList, some (List.replicate 20 0), 0, [], []⟩,
      ⟨dynsymName, some (List.replicate 48 0), 3, [], [⟨0, 0#16⟩, ⟨1, 1#16⟩]⟩,
      ⟨dynstrName, some [0, 97], 0, [], []⟩,
      ⟨relaDyn, some (List.replicate 24 0), 2, [⟨offset, 1#32, 3#32, 0#64⟩], []⟩]

/-- At the offset 0 the word is the last of the section; at 4 it is behind the end. -/
theorem offsetElf_outside : (parseAt (offsetElf 0#64) [([97], 0x1000#64)]).isSome ∧
    parseAt (offsetElf 4#64) [([97], 0x1000#64)] = none := by
  constructor <;> decide +kernel

end AieBaremetal.Cert
