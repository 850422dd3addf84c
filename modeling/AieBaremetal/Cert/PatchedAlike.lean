import AieBaremetal.Cert.RelocationSum
import AieBaremetal.Cert.SectionWalk

/-!
# Files that are patched alike

Two control ELFs may number their sections differently and still be patched in the same way, if
strings and sections of symbols correspond and corresponding sections have the same bytes. The bytes
of the symbol and relocation tables do not matter, since the loader takes their entries before it
patches anything and never puts them into the code of a column.
-/

namespace AieBaremetal.Cert

open Common

section Calls

structure Call where
  kind : Kind
  sec : ℕ
  pos : ℕ
  patch : BitVec 64
deriving DecidableEq, Repr

def Call.InBuffer (elf : Elf) (call : Call) :
    Prop := ∀ j ∈ call.kind.words, call.pos + 4 * j + 4 ≤ elf.bufferSize call.sec

instance (elf : Elf) (call : Call) : Decidable (call.InBuffer elf) :=
  inferInstanceAs (Decidable (∀ j ∈ call.kind.words, _))

def Call.run (call : Call) (m : SectionMemory) : SectionMemory := call.kind.patch m call.sec call.pos call.patch

def Call.renumber (σ : ℕ → ℕ) (call : Call) : Call := { call with sec := σ call.sec }

def Applied.call (elf : Elf) (a : Applied) :
    Call := ⟨a.kind, a.sec, relaPos a.rela, a.value + relaAddend elf a.rela⟩

theorem patchRela_of_apply {elf : Elf} {cc : Ccode} {symbolMap : SymbolMap} {m : SectionMemory} {rela : RelaPatch}
    {a : Applied} (h : resolveRela elf cc symbolMap m rela = .apply a) : patchRela elf cc symbolMap m rela =
      (some a, if (a.call elf).InBuffer elf then some ((a.call elf).run m) else none) := by
  rw [patchRela, h]
  rfl

/-- A patch depends on the bytes of its section only. -/
theorem Kind.patch_agree (kind : Kind) {m m' : SectionMemory} {sec sec' : ℕ}
    (h : ∀ i, m' (sec', i) = m (sec, i)) (pos : ℕ)
    (patch : BitVec 64) (i : ℕ) : kind.patch m' sec' pos patch (sec', i) = kind.patch m sec pos patch (sec, i) := by
  -- the words that are loaded are the same, also behind one or two stores
  have hload (pos : ℕ) : loadWord m' sec' pos = loadWord m sec pos := loadWord_agree h pos
  have hstore (pos : ℕ) (word : BitVec 32) := storeWord_agree h pos word
  have hload₁ (pos : ℕ) (word : BitVec 32) (pos' : ℕ) :
      loadWord (storeWord m' sec' pos word) sec' pos' = loadWord (storeWord m sec pos word) sec pos' :=
    loadWord_agree (hstore pos word) pos'
  have hstore₁ (pos : ℕ) (word : BitVec 32) (pos' : ℕ) (word' : BitVec 32) :=
    storeWord_agree (hstore pos word) pos' word'
  have hload₂ (pos : ℕ) (word : BitVec 32) (pos' : ℕ) (word' : BitVec 32) (pos'' : ℕ) :
      loadWord (storeWord (storeWord m' sec' pos word) sec' pos' word') sec' pos'' =
        loadWord (storeWord (storeWord m sec pos word) sec pos' word') sec pos'' :=
    loadWord_agree (hstore₁ pos word pos' word') pos''
  cases kind with
  | scalar32BitKind =>
    simp only [Kind.patch, patchScalar32, hload]
    exact hstore _ _ i
  | shimDmaBaseAddrSymbolKind =>
    simp only [Kind.patch, aie2psPatch57, hload, hload₁, hload₂]
    exact storeWord_agree (hstore₁ _ _ _ _) _ _ i
  | shimDmaAie4BaseAddrSymbolKind =>
    simp only [Kind.patch, aie4Patch57, hload, hload₁]
    exact hstore₁ _ _ _ _ i
  | controlPacket57 =>
    simp only [Kind.patch, aie2psPatchCtrl57, hload, hload₁]
    exact hstore₁ _ _ _ _ i
  | controlPacket57Aie4 =>
    simp only [Kind.patch, aie4PatchCtrl57, hload, hload₁]
    exact hstore₁ _ _ _ _ i
  | ucDmaRemotePtrSymbolKind | controlPacket48 | unknownSymbolKind => exact h i

end Calls

section Lookup

/-- A symbol's name, value and section. -/
structure Found where
  name : List UInt8
  value : BitVec 64
  sec : ℕ
deriving DecidableEq, Repr

/-- What is found in a file with other section numbers. -/
def Found.renumber (σ : ℕ → ℕ) (found : Found) : Found := { found with sec := σ found.sec }

/-- What is found for the symbol of a relocation, if the name ends. -/
def lookupSymbol (elf : Elf) (cc : Ccode) (symbolMap : SymbolMap) (m : SectionMemory) (symbol : BitVec 32) :
    Option (Option Found) :=
  match cc.dynsym[symbol.toNat]?, cc.dynstr[symbol.toNat]? with
  | some dynsym, some dynstr => (stringAt elf m dynstr).map fun name =>
    match symbolMap.lookup name, elf.sections[dynsym.sectionIndex.toNat]? with
    | some value, some _ => some ⟨name, value, dynsym.sectionIndex.toNat⟩
    | _, _ => none
  | _, _ => some none

theorem resolveRela_eq (elf : Elf) (cc : Ccode) (symbolMap : SymbolMap) (m : SectionMemory) (rela : RelaPatch) :
    resolveRela elf cc symbolMap m rela = match lookupSymbol elf cc symbolMap m rela.symbol, relaKind elf rela with
      | none, _ => .fault
      | some (some found), some kind =>
        if kind.words = [] then .skip else .apply ⟨rela, found.name, found.value, found.sec, kind⟩
      | some _, _ => .skip := by
  unfold resolveRela lookupSymbol
  cases cc.dynsym[rela.symbol.toNat]? with
  | none => rfl
  | some dynsym =>
    cases cc.dynstr[rela.symbol.toNat]? with
    | none => rfl
    | some dynstr =>
      cases hname : stringAt elf m dynstr with
      | none => simp [hname]
      | some name =>
        cases hvalue : symbolMap.lookup name with
        | none => simp [hname, hvalue]
        | some value =>
          cases hsec : elf.sections[dynsym.sectionIndex.toNat]? with
          | none => simp [hname, hvalue, hsec]
          | some shdr => cases relaKind elf rela <;> simp [hname, hvalue, hsec]

theorem resolveRela_of_not_apply {elf : Elf} {cc : Ccode} {symbolMap : SymbolMap} {m : SectionMemory}
    {rela : RelaPatch}
    (h : ∀ a, resolveRela elf cc symbolMap m rela ≠ .apply a) : resolveRela elf cc symbolMap m rela =
      if (lookupSymbol elf cc symbolMap m rela.symbol).isSome then .skip else .fault := by
  have hdecide := resolveRela_eq elf cc symbolMap m rela
  generalize lookupSymbol elf cc symbolMap m rela.symbol = lookup at hdecide ⊢
  rcases lookup with _ | _ | found
  · exact hdecide
  · exact hdecide
  · cases hkind : relaKind elf rela with
    | none => rwa [hkind] at hdecide
    | some kind =>
      rw [hkind] at hdecide
      by_cases hwords : kind.words = []
      · exact hdecide.trans (if_pos hwords)
      · exact absurd (hdecide.trans (if_neg hwords)) (h _)

end Lookup

section Alike

/-- A section the loader reads after the walk: any but the tables. -/
def ReadLater (elf : Elf) (sec : ℕ) : Prop :=
  ∀ shdr, elf.sections[sec]? = some shdr → shdr.name ≠ relaDyn ∧ shdr.name ≠ dynsymName

theorem Elf.bufferSize_eq (elf : Elf) (sec : ℕ) :
    elf.bufferSize sec = ((elf.contents sec).map List.length).elim 0 (· + 1) := by
  rw [Elf.bufferSize]
  cases elf.contents sec <;> rfl

/-- Corresponding sections have the same bytes. -/
def MemoryAlike (σ : ℕ → ℕ) (elf : Elf) (m m' : SectionMemory) : Prop :=
  ∀ sec, ReadLater elf sec → ∀ i, m' (σ sec, i) = m (sec, i)

/-- Files that correspond under a renumbering of the sections. -/
structure Alike (σ : ℕ → ℕ) (elf elf' : Elf) : Prop where
  injective : Function.Injective σ
  bound : ∀ sec, σ sec < elf'.sections.length ↔ sec < elf.sections.length
  size : ∀ sec, elf'.bufferSize (σ sec) = elf.bufferSize sec
  dynstr : (parseSections elf').dynstr = (parseSections elf).dynstr.map fun place => (σ place.1, place.2)
  dynsym : (parseSections elf').dynsym.map (fun dynsym => dynsym.sectionIndex.toNat) =
    (parseSections elf).dynsym.map fun dynsym => σ dynsym.sectionIndex.toNat

structure SameRela (elf elf' : Elf) (rela rela' : RelaPatch) : Prop where
  symbol : rela'.symbol = rela.symbol
  pos : relaPos rela' = relaPos rela
  kind : relaKind elf' rela' = relaKind elf rela
  addend : relaAddend elf' rela' = relaAddend elf rela

variable {σ : ℕ → ℕ} {elf elf' : Elf} (h : Alike σ elf elf') (symbolMap : SymbolMap) {m m' : SectionMemory}
include h

theorem Alike.stringAt (hm : MemoryAlike σ elf m m') {place : ℕ × ℕ} (hplace : place ∈ (parseSections elf).dynstr) :
    stringAt elf' m' (σ place.1, place.2) = stringAt elf m place := by
  obtain ⟨shdr, -, hshdr, hname, -⟩ := parseSections_dynstr hplace
  have hlater : ReadLater elf place.1 := by
    rintro shdr' hshdr'
    obtain rfl := Option.some.inj (hshdr.symm.trans hshdr')
    rw [hname]
    decide
  have hload : load m' (fun i => (σ place.1, place.2 + i)) = load m (fun i => (place.1, place.2 + i)) := by
    funext n
    exact List.map_congr_left fun i _ => hm place.1 hlater _
  rw [Cert.stringAt, Cert.stringAt, h.size, hload]

theorem Alike.lookupSymbol (hm : MemoryAlike σ elf m m') (symbol : BitVec 32) :
    lookupSymbol elf' (parseSections elf') symbolMap m' symbol =
      (lookupSymbol elf (parseSections elf) symbolMap m symbol).map (Option.map (Found.renumber σ)) := by
  have hsym := congrArg (·[symbol.toNat]?) h.dynsym
  have hstr := congrArg (·[symbol.toNat]?) h.dynstr
  simp only [List.getElem?_map] at hsym hstr
  unfold Cert.lookupSymbol
  cases hsym₁ : (parseSections elf).dynsym[symbol.toNat]? with
  | none =>
    rw [hsym₁, Option.map_none, Option.map_eq_none_iff] at hsym
    rw [hsym]
    rfl
  | some dynsym =>
    rw [hsym₁, Option.map_some, Option.map_eq_some_iff] at hsym
    obtain ⟨dynsym', hsym₂, hindex⟩ := hsym
    rw [hsym₂, hstr]
    cases hstr₁ : (parseSections elf).dynstr[symbol.toNat]? with
    | none => rfl
    | some place =>
      rw [Option.map_some]
      dsimp only
      rw [h.stringAt hm (List.mem_of_getElem? hstr₁), hindex]
      cases Cert.stringAt elf m place with
      | none => rfl
      | some name =>
        cases hvalue : symbolMap.lookup name with
        | none => simp [hvalue]
        | some value =>
          have hbound := h.bound dynsym.sectionIndex.toNat
          by_cases hlt : dynsym.sectionIndex.toNat < elf.sections.length
          · simp [hvalue, hlt, hbound.mpr hlt, Found.renumber]
          · simp [hlt, mt hbound.mp hlt]

theorem Alike.run (hm : MemoryAlike σ elf m m') (call : Call) :
    ((call.renumber σ).InBuffer elf' ↔ call.InBuffer elf) ∧
    MemoryAlike σ elf (call.run m) ((call.renumber σ).run m') := by
  refine ⟨?_, fun sec hlater i => ?_⟩
  · simp only [Call.InBuffer, Call.renumber, h.size]
  · by_cases hsec : sec = call.sec
    · subst hsec
      exact call.kind.patch_agree (hm _ hlater) _ _ i
    · have hsec' : σ sec ≠ σ call.sec := fun heq => hsec (h.injective heq)
      exact (call.kind.patch_of_ne m' _ _ hsec' i).trans
        ((hm sec hlater i).trans (call.kind.patch_of_ne m _ _ hsec i).symm)

theorem Alike.resolveRela (hm : MemoryAlike σ elf m m') {rela rela' : RelaPatch}
    (hrela : SameRela elf elf' rela rela') :
    resolveRela elf' (parseSections elf') symbolMap m' rela' =
      match resolveRela elf (parseSections elf) symbolMap m rela with
      | .skip => .skip
      | .fault => .fault
      | .apply a => .apply ⟨rela', a.name, a.value, σ a.sec, a.kind⟩ := by
  rw [resolveRela_eq, resolveRela_eq, hrela.symbol, hrela.kind, h.lookupSymbol symbolMap hm]
  cases Cert.lookupSymbol elf (parseSections elf) symbolMap m rela.symbol with
  | none => rfl
  | some lookup =>
    cases lookup with
    | none => rfl
    | some found =>
      cases relaKind elf rela with
      | none => rfl
      | some kind => by_cases hwords : kind.words = [] <;> simp [hwords, Found.renumber]

/-- A turn makes the same call and keeps the memories alike. -/
theorem Alike.patchRela (hm : MemoryAlike σ elf m m') {rela rela' : RelaPatch}
    (hrela : SameRela elf elf' rela rela') :
    (patchRela elf' (parseSections elf') symbolMap m' rela').1.map (Applied.call elf') =
        (patchRela elf (parseSections elf) symbolMap m rela).1.map (fun a => (a.call elf).renumber σ) ∧
      Option.Rel (MemoryAlike σ elf) (patchRela elf (parseSections elf) symbolMap m rela).2
        (patchRela elf' (parseSections elf') symbolMap m' rela').2 := by
  have hresolve' := h.resolveRela symbolMap hm hrela
  cases hresolve : Cert.resolveRela elf (parseSections elf) symbolMap m rela with
  | skip =>
    rw [hresolve] at hresolve'
    rw [Cert.patchRela, Cert.patchRela, hresolve, hresolve']
    exact ⟨rfl, .some hm⟩
  | fault =>
    rw [hresolve] at hresolve'
    rw [Cert.patchRela, Cert.patchRela, hresolve, hresolve']
    exact ⟨rfl, .none⟩
  | apply a =>
    rw [hresolve] at hresolve'
    obtain ⟨hbuffer, hrun⟩ := h.run hm (a.call elf)
    have hcall : Applied.call elf' ⟨rela', a.name, a.value, σ a.sec, a.kind⟩ = (a.call elf).renumber σ := by
      rw [Applied.call, Applied.call, Call.renumber, hrela.pos, hrela.addend, (resolveRela_apply hresolve).1]
    rw [patchRela_of_apply hresolve, patchRela_of_apply hresolve', hcall]
    refine ⟨congrArg some hcall, ?_⟩
    by_cases hin : (a.call elf).InBuffer elf
    · rw [if_pos hin, if_pos (hbuffer.mpr hin)]
      exact .some hrun
    · rw [if_neg hin, if_neg (mt hbuffer.mp hin)]
      exact .none

theorem Alike.patchRelas {relas relas' : List RelaPatch} (hrelas : List.Forall₂ (SameRela elf elf') relas relas')
    (hm : MemoryAlike σ elf m m') :
    Option.Rel (MemoryAlike σ elf) (patchRelas elf (parseSections elf) symbolMap relas m).2
      (patchRelas elf' (parseSections elf') symbolMap relas' m').2 := by
  induction hrelas generalizing m m' with
  | nil => exact .some hm
  | cons hrela _ ih =>
    rw [patchRelas_cons, patchRelas_cons]
    generalize hturn : (Cert.patchRela elf _ symbolMap m _).2 = after
    generalize hturn' : (Cert.patchRela elf' _ symbolMap m' _).2 = after'
    have hafter : Option.Rel (MemoryAlike σ elf) after after' := hturn ▸ hturn' ▸ (h.patchRela symbolMap hm hrela).2
    cases hafter with
    | some hm => exact ih hm
    | none => exact .none

omit h in
/-- Files of the same version whose sections have the same numbers are patched by the same turns. -/
theorem Alike.patchRelas_eq (h : Alike id elf elf') (habi : elf'.abiVersion = elf.abiVersion)
    (relas : List RelaPatch) (m : SectionMemory) : Cert.patchRelas elf' (parseSections elf') symbolMap relas m =
      Cert.patchRelas elf (parseSections elf) symbolMap relas m := by
  have hturn (m : SectionMemory) (rela : RelaPatch) :
      Cert.patchRela elf' (parseSections elf') symbolMap m rela =
        Cert.patchRela elf (parseSections elf) symbolMap m rela := by
    have haddend : relaAddend elf' rela = relaAddend elf rela := by rw [relaAddend, relaAddend, habi]
    have hsame : SameRela elf elf' rela rela := ⟨rfl, rfl, by rw [relaKind, relaKind, habi], haddend⟩
    have hm : MemoryAlike id elf m m := fun _ _ _ => rfl
    have hresolve' := h.resolveRela symbolMap hm hsame
    cases hresolve : Cert.resolveRela elf (parseSections elf) symbolMap m rela with
    | skip | fault =>
      rw [hresolve] at hresolve'
      rw [Cert.patchRela, Cert.patchRela, hresolve, hresolve']
    | apply a =>
      rw [hresolve] at hresolve'
      obtain ⟨rfl, -⟩ := resolveRela_apply hresolve
      have hcall : a.call elf' = a.call elf := by rw [Applied.call, Applied.call, haddend]
      have hbuffer : (a.call elf).InBuffer elf' ↔ (a.call elf).InBuffer elf := (h.run hm (a.call elf)).1
      rw [patchRela_of_apply hresolve, patchRela_of_apply hresolve']
      change (some a, if (a.call elf').InBuffer elf' then some ((a.call elf').run m) else none) = _
      rw [hcall, if_congr hbuffer rfl rfl]
  induction relas generalizing m with
  | nil => rfl
  | cons rela rest ih =>
    rw [patchRelas_cons, patchRelas_cons, hturn]
    simp only [ih]

end Alike

section Code

theorem mem_buffersOf {pieces : List CodePiece} {part : Part} {buf : ℕ × ℕ} :
    buf ∈ buffersOf pieces part ↔ (part, buf) ∈ pieces := by
  rw [buffersOf, List.mem_filterMap]
  constructor
  · rintro ⟨piece, hpiece, hbuf⟩
    obtain ⟨rfl, heq⟩ := Option.ite_none_right_eq_some.mp hbuf
    rwa [← Option.some.inj heq]
  · exact fun h => ⟨_, h, if_pos rfl⟩

theorem Elf.mem_pieces {elf : Elf} {part : Part} {buf : ℕ × ℕ} : (part, buf) ∈ elf.pieces ↔
    ∃ shdr data, elf.sections[buf.1]? = some shdr ∧ shdr.data = some data ∧ part.HasName shdr.name ∧
      buf.2 = data.length := by
  rw [Elf.pieces, Elf.mem_collect]
  constructor
  · rintro ⟨i, shdr, hshdr, hmem⟩
    rw [Option.mem_toList, pieceOf, Option.bind_eq_some_iff] at hmem
    obtain ⟨data, hdata, hmap⟩ := hmem
    obtain ⟨_, hpart, heq⟩ := Option.map_eq_some_iff.mp hmap
    obtain ⟨rfl, rfl⟩ := Prod.mk.inj heq
    exact ⟨shdr, data, hshdr, hdata, partOf_eq_some.mp hpart, rfl⟩
  · rintro ⟨shdr, data, hshdr, hdata, hpart, hsize⟩
    refine ⟨buf.1, shdr, hshdr, ?_⟩
    rw [Option.mem_toList, pieceOf, hdata, Option.bind_some, partOf_eq_some.mpr hpart, Option.map_some, ← hsize]

theorem readLater_of_mem {elf : Elf} {piece : CodePiece} (h : piece ∈ elf.pieces) : ReadLater elf piece.2.1 := by
  intro shdr hshdr
  obtain ⟨shdr', data, hshdr', -, hname, -⟩ := Elf.mem_pieces.mp h
  obtain rfl := Option.some.inj (hshdr.symm.trans hshdr')
  obtain ⟨hrela, hsym, -⟩ := not_table_of_partOf (partOf_eq_some.mpr hname)
  exact ⟨hrela, hsym⟩

theorem colCode_congr {pieces : List CodePiece} {m m' : SectionMemory}
    (h : ∀ piece ∈ pieces, bufBytes m' piece.2 = bufBytes m piece.2) (col : ℤ) :
    colCode m' (columnOf pieces col) = colCode m (columnOf pieces col) := by
  have hbuf {part : Part} {buf : ℕ × ℕ} (hmem : buf ∈ buffersOf pieces part) : bufBytes m' buf = bufBytes m buf :=
    h (part, buf) (mem_buffersOf.mp hmem)
  have hlast (part : Part) : (buffersOf pieces part).getLast?.elim [] (bufBytes m') =
      (buffersOf pieces part).getLast?.elim [] (bufBytes m) := by
    cases hfound : (buffersOf pieces part).getLast? with
    | none => rfl
    | some buf => exact hbuf (List.mem_of_mem_getLast? hfound)
  have hpads : (buffersOf pieces (.pad col)).flatMap (bufBytes m') =
    (buffersOf pieces (.pad col)).flatMap (bufBytes m) :=
    List.flatMap_congr fun _ hmem => hbuf hmem
  simp only [colCode, columnOf, tabulate, List.flatMap_map, pageOf, hlast, hpads]

end Code

end AieBaremetal.Cert
