import AieBaremetal.Generator.Naming
import Mathlib.Data.List.Pairwise

/-!
# Members and ports of a generated class

When the class of a graph has distinct members and binds every port to exactly one element. Members clash
when the names of two ports stand for the same member and not for elements of the same array or kernel. A
port is bound to the element its name stands for, unless a later port has the same one; then, and if its
name stands for none, it is bound only if a vacant element is called like it.
-/

namespace AieBaremetal.Generator

open Gmio (GmioType)

def BindsPort (c : GraphClass) (port : Port) : Prop :=
  ∃ b ∈ c.bindings, b.fullName = port.name ∧ b.type = port.type ∧
    ∀ b' ∈ c.bindings, b'.fullName = port.name → b' = b

instance (c : GraphClass) (port : Port) : Decidable (BindsPort c port) :=
  inferInstanceAs (Decidable (∃ b ∈ c.bindings, _))

/-- The class has distinct members and binds every port of its graph. -/
structure Right (md : Metadata) (graph : GraphEntry) (c : GraphClass) : Prop where
  members : (c.members.map Declaration.member).Nodup
  binds : ∀ port ∈ md.ports, belongs graph port.name = true → BindsPort c port

section MemberNames

variable {placed : List Placement}

/-- Two ports with one member are elements of the same array or kernel. -/
def SharesRightly (e e' : Placement) : Prop :=
  e.place.identifier = e'.place.identifier → e.place.table ≠ none ∧ e.place.table = e'.place.table

/-- The members of ports that are no elements. -/
def ownMembers (placed : List Placement) : List String :=
  placed.filterMap fun e => if e.place.table = none then some e.place.identifier else none

def tables : List Table := [.portArrays, .rtpGraphLevel, .rtpKernels, .rtpKernelArrays]

theorem nodup_tableKeys (t : Table) : (tableKeys t placed).Nodup :=
  (List.perm_insertionSort _ _).nodup_iff.mpr (List.nodup_dedup _)

theorem mem_ownMembers {name : String} :
    name ∈ ownMembers placed ↔ ∃ e ∈ placed, e.place.table = none ∧ e.place.identifier = name := by
  rw [ownMembers, List.mem_filterMap]
  simp only [Option.ite_none_right_eq_some, Option.some.injEq]

theorem declarations_members (hsuits : ∀ e ∈ placed, e.port.Suits e.place) :
    (declarations placed).map Declaration.member = ownMembers placed ++ tables.flatMap fun t =>
      tableKeys t placed := by
  have hown : (placed.filterMap ownDeclaration).map Declaration.member = ownMembers placed := by
    rw [List.map_filterMap, ownMembers]
    refine List.filterMap_congr fun e he => ?_
    have hplace := hsuits e he
    unfold ownDeclaration
    cases heq : e.place <;> simp_all [Port.Suits, Place.table, Place.identifier, Declaration.member]
  simp only [declarations, List.map_append, List.map_map, hown, tables, List.flatMap_cons, List.flatMap_nil,
    List.append_nil, List.append_assoc]
  simp [Function.comp_def, Declaration.member]

/-- Sharing rightly is mutual. -/
instance : Std.Symm SharesRightly :=
  ⟨fun _ _ h hidentifier => ⟨fun hnone => (h hidentifier.symm).1 ((h hidentifier.symm).2.trans hnone),
    (h hidentifier.symm).2.symm⟩⟩

/-- Members are distinct exactly if ports with one member share it rightly. -/
theorem members_nodup_iff :
    (ownMembers placed ++ tables.flatMap fun t => tableKeys t placed).Nodup ↔ placed.Pairwise SharesRightly := by
  rw [List.nodup_append, List.nodup_flatMap]
  constructor
  · rintro ⟨hown, ⟨-, htables⟩, hapart⟩
    have hpairs := List.pairwise_filterMap.mp hown
    refine hpairs.imp_of_mem fun {e e'} he he' hne hidentifier => ?_
    -- a member that a port has for itself is no key of a dictionary
    have hmixed {x y : Placement} {t : Table} (hx : x ∈ placed) (hy : y ∈ placed) (hxnone : x.place.table = none)
        (hyt : y.place.table = some t) : x.place.identifier ≠ y.place.identifier :=
      hapart _ (mem_ownMembers.mpr ⟨x, hx, hxnone, rfl⟩) _
        (List.mem_flatMap.mpr ⟨t, by cases t <;> decide, mem_tableKeys.mpr ⟨y, hy, hyt, rfl⟩⟩)
    cases htable : e.place.table with
    | none =>
      cases htable' : e'.place.table with
      | none => exact absurd hidentifier (hne _ (if_pos htable) _ (if_pos htable'))
      | some t' => exact absurd hidentifier (hmixed he he' htable htable')
    | some t =>
      cases htable' : e'.place.table with
      | none => exact absurd hidentifier.symm (hmixed he' he htable' htable)
      | some t' =>
        refine ⟨nofun, ?_⟩
        by_contra hdiffer
        have : Std.Symm (Function.onFun List.Disjoint fun t => tableKeys t placed) := ⟨fun _ _ h => h.symm⟩
        have hdisjoint := htables.forall (by cases t <;> decide) (by cases t' <;> decide) fun h =>
          hdiffer (congrArg some h)
        exact hdisjoint (mem_tableKeys.mpr ⟨e, he, htable, rfl⟩)
          (mem_tableKeys.mpr ⟨e', he', htable', hidentifier.symm⟩)
  · intro hpairs
    have hshare {x y : Placement} (hx : x ∈ placed) (hy : y ∈ placed) (hdiffer : x.place.table ≠ y.place.table) :
        x.place.identifier ≠ y.place.identifier := by
      intro hidentifier
      have hne : x ≠ y := fun h => hdiffer (by rw [h])
      exact hdiffer (hpairs.forall hx hy hne hidentifier).2
    refine ⟨?_, ⟨fun t _ => nodup_tableKeys t, ?_⟩, ?_⟩
    · refine List.pairwise_filterMap.mpr (hpairs.imp fun {e e'} h name hname name' hname' hsame => ?_)
      simp only [Option.ite_none_right_eq_some, Option.some.injEq] at hname hname'
      exact (h (hname.2.trans (hsame.trans hname'.2.symm))).1 hname.1
    · refine List.Pairwise.imp ?_ (show tables.Pairwise (· ≠ ·) by decide)
      intro t t' hne name hname hname'
      obtain ⟨e, he, htable, rfl⟩ := mem_tableKeys.mp hname
      obtain ⟨e', he', htable', hidentifier⟩ := mem_tableKeys.mp hname'
      refine hshare he he' ?_ hidentifier.symm
      rw [htable, htable']
      exact fun h => hne (Option.some.inj h)
    · intro name hname name' hname' hsame
      obtain ⟨e, he, htable, rfl⟩ := mem_ownMembers.mp hname
      obtain ⟨t, -, hkey⟩ := List.mem_flatMap.mp hname'
      obtain ⟨e', he', htable', rfl⟩ := mem_tableKeys.mp hkey
      refine hshare he he' ?_ hsame
      rw [htable, htable']
      exact nofun

end MemberNames

section Bindings

variable {graph : GraphEntry} {ports : List Port} {placed : List Placement} {place : Place} {port : Port}
    {b : Binding}
  {e : Placement}

theorem ownBinding_eq_some :
    ownBinding e = some b ↔ (∃ member, e.place = .scalar member) ∧
    b = ⟨generatedType e.port, e.place, e.port.name⟩ := by
  unfold ownBinding
  cases e.place <;> simp [eq_comm]

theorem mem_bindings :
    b ∈ bindings graph placed ↔
      (∃ e ∈ placed, (∃ member, e.place = .scalar member) ∧ b = ⟨generatedType e.port, e.place, e.port.name⟩) ∨
      (∃ place, (place ∈ elements placed ∨ ∃ member ∈ bufferMembers placed, place = .bufferStruct member) ∧
        b = elementBinding graph placed place) ∨
      ∃ member ∈ bufferMembers placed, b ∈ structBindings placed member := by
  simp only [bindings, List.mem_append, List.mem_filterMap, ownBinding_eq_some, List.mem_map, List.mem_flatMap,
    List.mem_cons, or_and_right, and_or_left, exists_or, or_assoc]
  refine or_congr_right (or_congr ?_ (or_congr_left ?_))
  · exact exists_congr fun place => and_congr_right fun _ => eq_comm
  · constructor
    · rintro ⟨member, hmember, rfl⟩
      exact ⟨_, ⟨member, hmember, rfl⟩, rfl⟩
    · rintro ⟨_, ⟨member, hmember, rfl⟩, rfl⟩
      exact ⟨member, hmember, rfl⟩

/-- The type of the element that a port was put to. -/
def placedType (placed : List Placement) (port : Port) : Place → PortType
  | .scalar _ => generatedType port
  | place => elementType placed place

/-- A port with a member of its own is the last one there. -/
theorem lastAt_own (hshare : placed.Pairwise SharesRightly) (he : e ∈ placed) (htable : e.place.table = none) :
    lastAt placed e.place = some e.port := by
  cases hlast : lastAt placed e.place with
  | none => exact absurd rfl (lastAt_eq_none.mp hlast e he)
  | some p =>
    by_contra hne
    have hdiffer : Placement.mk e.place p ≠ e := fun h => hne (by rw [← h])
    exact (hshare.forall (mem_of_lastAt hlast) he hdiffer rfl).1 htable

/-- If members are shared rightly, the bindings are those of ports that keep their element, of vacancies and of
ports inside of external buffers. -/
theorem mem_bindings_iff (hports : ports.Nodup) (hshare : (placedOf graph ports).Pairwise SharesRightly) :
    b ∈ bindings graph (placedOf graph ports) ↔
      (∃ port, Keeps graph ports port b.element ∧ b.type = placedType (placedOf graph ports) port b.element ∧
        b.fullName = port.name) ∨
      (Vacancy graph ports b.element b.fullName ∧ b.type = elementType (placedOf graph ports) b.element) ∨
      ∃ member ∈ bufferMembers (placedOf graph ports), b ∈ structBindings (placedOf graph ports) member := by
  rw [mem_bindings]
  simp only [← lastAt_eq_some hports, vacancy_iff]
  constructor
  · rintro (⟨e, he, ⟨member, hscalar⟩, rfl⟩ | ⟨place, hplace, rfl⟩ | hstruct)
    · refine Or.inl ⟨e.port, lastAt_own hshare he (by rw [hscalar]; rfl), ?_, rfl⟩
      rw [hscalar, placedType]
    · cases hlast : lastAt (placedOf graph ports) place with
      | some p =>
        refine Or.inl ⟨p, hlast, ?_, by rw [elementBinding, elementName, hlast]⟩
        have hnot (member : String) : place ≠ .scalar member := by
          rintro rfl
          rcases hplace with hmem | ⟨_, -, hbuffer⟩
          · exact mem_elements.mp hmem
          · exact nomatch hbuffer
        cases place with
        | scalar member => exact absurd rfl (hnot member)
        | _ => rfl
      | none =>
        rcases hplace with hmem | ⟨member, hmember, rfl⟩
        · exact Or.inr (Or.inl ⟨⟨hmem, hlast, by rw [elementBinding, elementName, hlast]⟩, rfl⟩)
        · obtain ⟨e, he, hplace⟩ := mem_bufferMembers.mp hmember
          exact absurd hplace (lastAt_eq_none.mp hlast e he)
    · exact Or.inr (Or.inr hstruct)
  · rintro (⟨p, hlast, htype, hname⟩ | ⟨⟨hmem, hlast, hname⟩, htype⟩ | hstruct)
    · have hin := mem_of_lastAt hlast
      obtain ⟨type, place, fullName⟩ := b
      obtain rfl : fullName = p.name := hname
      have helement : placedType (placedOf graph ports) p place = elementType (placedOf graph ports) place →
          Binding.mk type place p.name = elementBinding graph (placedOf graph ports) place := by
        intro h
        rw [elementBinding, elementName, hlast, ← h, ← htype]
      have hspans (h : Spans (placedOf graph ports) place) : place ∈ elements (placedOf graph ports) :=
        mem_elements.mpr h
      cases place with
      | scalar member => exact Or.inl ⟨_, hin, ⟨member, rfl⟩, by rw [Binding.mk.injEq]; exact ⟨htype, rfl, rfl⟩⟩
      | bufferStruct member =>
        exact Or.inr (Or.inl ⟨_, Or.inr ⟨member, mem_bufferMembers.mpr ⟨_, hin, rfl⟩, rfl⟩, helement rfl⟩)
      | array base i => exact Or.inr (Or.inl ⟨_, Or.inl (hspans ⟨_, hin, i, rfl, le_rfl⟩), helement rfl⟩)
      | rtpArray arrayKey i => exact Or.inr (Or.inl ⟨_, Or.inl (hspans ⟨_, hin, i, rfl, le_rfl⟩), helement rfl⟩)
      | kernel kernel base i => exact Or.inr (Or.inl ⟨_, Or.inl (hspans ⟨_, hin, i, rfl, le_rfl⟩), helement rfl⟩)
      | kernelArray kernel k base i =>
        exact Or.inr (Or.inl ⟨_, Or.inl (hspans ⟨⟨_, hin, base, i, rfl⟩, _, hin, k, rfl⟩), helement rfl⟩)
      | bufferPort member base i => exact (mem_placedOf.mp hin).suits.elim
    · refine Or.inr (Or.inl ⟨b.element, Or.inl hmem, ?_⟩)
      rw [elementBinding, elementName, hlast, ← htype, hname]
    · exact Or.inr (Or.inr hstruct)

/-- The type of a vacancy is the one that its elements have. -/
theorem elementType_eq_iff {name : String} (hports : ports.Nodup)
    (h : Vacancy graph ports place name) (type : PortType) :
    elementType (placedOf graph ports) place = type ↔ Typed graph ports type place := by
  cases h with
  | array hq => exact arrayType_eq_iff hq hports type _
  | rtpArray => exact eq_comm
  | kernel => exact eq_comm
  | kernelArray => exact eq_comm

/-- A port's element has the type of the port if its elements have it. -/
theorem placedType_eq_iff (hports : ports.Nodup) (h : HasHome graph ports port place) :
    placedType (placedOf graph ports) port place = port.type ↔ Typed graph ports port.type place := by
  cases place with
  | array base index => exact arrayType_eq_iff h hports port.type index
  | scalar member => exact iff_of_true ((generatedType_eq port).trans h.suits) trivial
  | bufferStruct member => exact iff_of_true (Eq.symm h.suits) trivial
  | bufferPort member base index => exact h.suits.elim
  | _ => exact eq_comm

theorem Port.type_ne_externalBufferPort (port : Port) : port.type ≠ .externalBufferPort := by
  cases port with
  | gmio name type => cases type <;> simp [Port.type]
  | plio name slaveOrMaster =>
    rw [Port.type]
    split <;> exact nofun
  | rtp portName => exact nofun
  | sharedBuffer name graphId => exact nofun
  | externalBuffer name shimPortNames => exact nofun

/-- No port has a vacant element. -/
theorem Vacancy.free {name : String} (h : Vacancy graph ports place name) : ¬HasHome graph ports port place := by
  cases h with
  | array _ _ hfree => exact hfree port
  | rtpArray _ _ hfree => exact hfree port
  | kernel _ _ hfree => exact hfree port
  | kernelArray _ _ hfree => exact hfree port

/-- A port that keeps its element has it. -/
theorem Keeps.hasHome (h : Keeps graph ports port place) : HasHome graph ports port place := by
  obtain ⟨before, after, hsplit, hbelongs, hhome, -⟩ := h
  exact ⟨before, after, hsplit, hbelongs, hhome⟩

/-- A port has one element. -/
theorem HasHome.unique {place' : Place} (hports : ports.Nodup) (h : HasHome graph ports port place)
    (h' : HasHome graph ports port place') : place = place' := by
  obtain ⟨before, after, rfl, -, hhome⟩ := h
  obtain ⟨before', after', hsplit, -, hhome'⟩ := h'
  obtain ⟨-, hafter, happart⟩ := List.nodup_append.mp hports
  have hbefore : port ∉ before := fun hin => happart port hin port List.mem_cons_self rfl
  obtain ⟨rfl, -⟩ := (List.append_cons_inj_of_notMem hbefore (List.nodup_cons.mp hafter).1).mp hsplit
  exact Option.some.inj (hhome.symm.trans hhome')

/-- The names bound inside of external buffers are those of their inner ports. -/
theorem inner_iff (hshare : (placedOf graph ports).Pairwise SharesRightly) {name : String} :
    (∃ member ∈ bufferMembers (placedOf graph ports),
      ∃ b ∈ structBindings (placedOf graph ports) member, b.fullName = name) ↔
      ∃ q member, HasHome graph ports q (.bufferStruct member) ∧ q.HasInner name := by
  have hlast {q : Port} {member : String} (h : HasHome graph ports q (.bufferStruct member)) :
      lastAt (placedOf graph ports) (.bufferStruct member) = some q := by
    have hin : ⟨.bufferStruct member, q⟩ ∈ placedOf graph ports := mem_placedOf.mpr h
    exact lastAt_own hshare hin rfl
  constructor
  · rintro ⟨member, hmember, hname⟩
    obtain ⟨e, he, hplace⟩ := mem_bufferMembers.mp hmember
    have hhome : HasHome graph ports e.port (.bufferStruct member) := hplace ▸ mem_placedOf.mp he
    exact ⟨e.port, member, hhome, (mem_structBindings (hlast hhome)).mp hname⟩
  · rintro ⟨q, member, hhome, hinner⟩
    have hin : ⟨.bufferStruct member, q⟩ ∈ placedOf graph ports := mem_placedOf.mpr hhome
    exact ⟨member, mem_bufferMembers.mpr ⟨_, hin, rfl⟩, (mem_structBindings (hlast hhome)).mpr hinner⟩

/-- Bindings inside of external buffers have a type of their own. -/
theorem type_of_mem_structBindings {member : String} (h : b ∈ structBindings placed member) :
    b.type = .externalBufferPort := by
  simp only [structBindings, List.mem_flatMap, List.mem_filterMap, Option.map_eq_some_iff] at h
  obtain ⟨_, -, _, -, _, -, rfl⟩ := h
  rfl

/-- If members are shared rightly, the class binds a port exactly if no inner port is called like it and it has
one element. -/
theorem bindsPort_iff (hnames : (ports.map Port.name).Nodup)
    (hshare : (placedOf graph ports).Pairwise SharesRightly)
    (hport : port ∈ ports) (className : String) (members : List Declaration) :
    BindsPort ⟨className, members, bindings graph (placedOf graph ports)⟩ port ↔
      (∀ q member, HasHome graph ports q (.bufferStruct member) → ¬q.HasInner port.name) ∧
        (Settled graph ports port ∨ ByChance graph ports port) := by
  have hports := List.Nodup.of_map _ hnames
  have hsame {p : Port} {place : Place} (h : HasHome graph ports p place) (hname : port.name = p.name) : p = port :=
    List.inj_on_of_nodup_map hnames h.mem hport hname.symm
  have hcases (b : Binding) := mem_bindings_iff (b := b) hports hshare
  have hkept {p : Port} {place : Place} (h : Keeps graph ports p place) :=
    (hcases ⟨placedType (placedOf graph ports) p place, place, p.name⟩).mpr (Or.inl ⟨p, h, rfl, rfl⟩)
  have hvacant {place : Place} {name : String} (h : Vacancy graph ports place name) :=
    (hcases ⟨elementType (placedOf graph ports) place, place, name⟩).mpr (Or.inr (Or.inl ⟨h, rfl⟩))
  constructor
  · rintro ⟨b, hb, hname, htype, hunique⟩
    have hfree (q : Port) (member : String) (hq : HasHome graph ports q (.bufferStruct member)) :
      ¬q.HasInner port.name := by
      intro hin
      obtain ⟨member, hmember, b', hb', hname'⟩ := (inner_iff hshare).mpr ⟨q, member, hq, hin⟩
      have hsameb := hunique b' ((hcases b').mpr (Or.inr (Or.inr ⟨member, hmember, hb'⟩))) hname'
      exact port.type_ne_externalBufferPort (by rw [← htype, ← hsameb, type_of_mem_structBindings hb'])
    refine ⟨hfree, ?_⟩
    rcases (hcases b).mp hb with ⟨p, hkeeps, hkeptType, hkeptName⟩ | ⟨hvacancy, hvacantType⟩ | ⟨member,
      hmember, hstruct⟩
    · obtain rfl := hsame hkeeps.hasHome (hname.symm.trans hkeptName)
      have htyped := (placedType_eq_iff hports hkeeps.hasHome).mp (hkeptType.symm.trans htype)
      refine Or.inl ⟨⟨b.element, hkeeps, htyped⟩, fun place hvacancy => ?_⟩
      have helement : place = b.element := congrArg Binding.element (hunique _ (hvacant hvacancy) rfl)
      exact hvacancy.free (helement ▸ hkeeps.hasHome)
    · rw [hname] at hvacancy
      have htyped := (elementType_eq_iff hports hvacancy _).mp (hvacantType.symm.trans htype)
      refine Or.inr ⟨fun place hkeeps => ?_, b.element, hvacancy, htyped, fun place' hvacancy' => ?_⟩
      · have helement : place = b.element := congrArg Binding.element (hunique _ (hkept hkeeps) rfl)
        exact hvacancy.free (helement ▸ hkeeps.hasHome)
      · exact congrArg Binding.element (hunique _ (hvacant hvacancy') rfl)
    · obtain ⟨q, member, hq, hin⟩ := (inner_iff hshare).mp ⟨member, hmember, b, hstruct, hname⟩
      exact absurd hin (hfree q member hq)
  · rintro ⟨hfree, hseat⟩
    have hnotInner {b : Binding} (hname : b.fullName = port.name) :
      ¬∃ member ∈ bufferMembers (placedOf graph ports),
        b ∈ structBindings (placedOf graph ports) member := by
      rintro ⟨member, hmember, hstruct⟩
      obtain ⟨q, member, hq, hin⟩ := (inner_iff hshare).mp ⟨member, hmember, b, hstruct, hname⟩
      exact hfree q member hq hin
    rcases hseat with ⟨⟨place, hkeeps, htyped⟩, hnone⟩ | ⟨hnone, place, hvacancy, htyped, hone⟩
    · refine ⟨_, hkept hkeeps, rfl, (placedType_eq_iff hports hkeeps.hasHome).mpr htyped, fun b' hb' hname' => ?_⟩
      rcases (hcases b').mp hb' with ⟨p, hkeeps', htype', hname''⟩ | ⟨hvacancy, -⟩ | hstruct
      · obtain rfl := hsame hkeeps'.hasHome (hname'.symm.trans hname'')
        obtain ⟨type, element, fullName⟩ := b'
        obtain rfl : element = place := hkeeps'.hasHome.unique hports hkeeps.hasHome
        rw [Binding.mk.injEq]
        exact ⟨htype', rfl, hname'⟩
      · exact absurd (hname' ▸ hvacancy) (hnone _)
      · exact absurd hstruct (hnotInner hname')
    · refine ⟨_, hvacant hvacancy, rfl, (elementType_eq_iff hports hvacancy _).mpr htyped, fun b' hb' hname' => ?_⟩
      rcases (hcases b').mp hb' with ⟨p, hkeeps', -, hname''⟩ | ⟨hvacancy', htype'⟩ | hstruct
      · obtain rfl := hsame hkeeps'.hasHome (hname'.symm.trans hname'')
        exact absurd hkeeps' (hnone _)
      · obtain ⟨type, element, fullName⟩ := b'
        obtain rfl : fullName = port.name := hname'
        obtain rfl : element = place := hone _ hvacancy'
        rw [Binding.mk.injEq]
        exact ⟨htype', rfl, rfl⟩
      · exact absurd hstruct (hnotInner hname')

/-- Members are shared rightly exactly if ports with one member are elements of one array or kernel. -/
theorem sharesRightly_iff (hports : ports.Nodup) : (placedOf graph ports).Pairwise SharesRightly ↔
    ∀ p q place place', HasHome graph ports p place → HasHome graph ports q place' → p ≠ q →
      place.identifier = place'.identifier → place.table ≠ none ∧ place.table = place'.table := by
  have honce : ((placedOf graph ports).map Placement.port).Nodup := placedOf_ports_sublist.nodup hports
  constructor
  · intro hshare p q place place' hp hq hne
    have hp' : ⟨place, p⟩ ∈ placedOf graph ports := mem_placedOf.mpr hp
    have hq' : ⟨place', q⟩ ∈ placedOf graph ports := mem_placedOf.mpr hq
    exact hshare.forall hp' hq' fun h => hne (congrArg Placement.port h)
  · intro h
    refine (List.Nodup.of_map _ honce).pairwise_of_forall_ne fun e he e' he' hne => ?_
    have hports' : e.port ≠ e'.port := fun hsame => hne (List.inj_on_of_nodup_map honce he he' hsame)
    exact h _ _ _ _ (mem_placedOf.mp he) (mem_placedOf.mp he') hports'

end Bindings

/-- For metadata with distinct port names, the class of a graph is right exactly if the names, types and graph ids
of its ports admit it. -/
theorem generateGraphClass_right_iff (md : Metadata) (hnames : (md.ports.map Port.name).Nodup)
    (graph : GraphEntry) :
    Right md graph (generateGraphClass md graph) ↔ WellNamed graph md.ports := by
  have hports := List.Nodup.of_map _ hnames
  have hmembers : ((generateGraphClass md graph).members.map Declaration.member).Nodup ↔
      (placedOf graph md.ports).Pairwise SharesRightly := by
    rw [generateGraphClass, placements, declarations_members fun e he =>
      (mem_placedOf.mp he).suits, members_nodup_iff]
  constructor
  · rintro ⟨hnodup, hbinds⟩
    have hshare := hmembers.mp hnodup
    have hport {port : Port} (hport : port ∈ md.ports) (hbelongs : belongs graph port.name = true) :=
      (bindsPort_iff hnames hshare hport _ _).mp (hbinds port hport hbelongs)
    exact ⟨(sharesRightly_iff hports).mp hshare, fun port h hbelongs => (hport h hbelongs).1,
      fun port h hbelongs => (hport h hbelongs).2⟩
  · rintro ⟨hshare, hinner, hseats⟩
    have hpairs := (sharesRightly_iff hports).mpr hshare
    refine ⟨hmembers.mpr hpairs, fun port hport hbelongs => ?_⟩
    exact (bindsPort_iff hnames hpairs hport _ _).mpr ⟨hinner port hport hbelongs, hseats port hport hbelongs⟩

def sampleEntry : GraphEntry := { name := "G", id := 0 }

/-- A graph with a GMIO, an indexed PLIO in a subgraph and a parameter of a kernel. -/
def sampleMetadata : Metadata where
  graphs := [sampleEntry]
  gmios := [("G.in", .gm2aie)]
  plios := [("G.sub.out[0]", 1)]
  rtps := ["G.k.gain[0]"]
  sharedBuffers := []
  externalBuffers := []

/-- The names of the sample admit a right class, and its class is right. -/
theorem generateGraphClass_right_sample :
    WellNamed sampleEntry sampleMetadata.ports ∧
      Right sampleMetadata sampleEntry (generateGraphClass sampleMetadata sampleEntry) := by
  have hright : Right sampleMetadata sampleEntry (generateGraphClass sampleMetadata sampleEntry) :=
    ⟨by decide +kernel, by decide +kernel⟩
  exact ⟨(generateGraphClass_right_iff sampleMetadata (by decide +kernel) sampleEntry).mp hright, hright⟩

/-- Two subgraphs, each with a GMIO `in` and a GMIO `v[0]`. -/
def clashMetadata : Metadata where
  graphs := [sampleEntry]
  gmios := [("G.a.in", .gm2aie), ("G.b.in", .gm2aie), ("G.a.v[0]", .gm2aie), ("G.b.v[0]", .gm2aie)]
  plios := []
  rtps := []
  sharedBuffers := []
  externalBuffers := []

/-- The member `in` is declared twice, and `G.a.v[0]` is bound to no element. -/
theorem clashing_subgraphs :
    (clashMetadata.ports.map Port.name).Nodup ∧
      (generateGraphClass clashMetadata sampleEntry).members.map Declaration.member = ["in", "in", "v"] ∧
      (generateGraphClass clashMetadata sampleEntry).bindings.map (fun b => (b.element, b.fullName)) =
        [(.scalar "in", "G.a.in"), (.scalar "in", "G.b.in"), (.array "v" 0, "G.b.v[0]")] ∧
      ¬Right clashMetadata sampleEntry (generateGraphClass clashMetadata sampleEntry) := by
  have hmembers : (generateGraphClass clashMetadata sampleEntry).members.map Declaration.member =
    ["in", "in", "v"] := by
    decide +kernel
  refine ⟨by decide +kernel, hmembers, by decide +kernel, fun h => ?_⟩
  have hnodup := h.members
  rw [hmembers] at hnodup
  exact absurd hnodup (by decide)

end AieBaremetal.Generator
