import AieBaremetal.Generator.GraphClass
import Mathlib.Data.List.Induction

/-!
# Names of ports and elements of classes

The name of a port stands for an element of the class of its graph: its last part for a member or an
array with an index, and the second part of the name of an indexed run-time parameter for a kernel. This
is said of the metadata alone, and the generator's loops put every port there. Elements of an array or a
kernel that no port has are vacant, and the generator makes up a name for each of them.
-/

namespace AieBaremetal.Generator

open Gmio (GmioType)

def Port.type : Port → PortType
  | .gmio _ .gm2aie | .gmio _ .gm2pl => .inputGmio
  | .gmio _ .aie2gm | .gmio _ .pl2gm => .outputGmio
  | .plio _ slaveOrMaster => if slaveOrMaster = 0 then .inputPlio else .outputPlio
  | .rtp _ => .rtp
  | .sharedBuffer _ _ => .sharedBuffer
  | .externalBuffer _ _ => .externalBuffer

section Names

/-- The type a port is declared with; of the GMIOs only those from memory to the array are inputs. -/
def Port.declaredType : Port → PortType
  | .gmio _ .gm2aie => .inputGmio
  | .gmio _ _ => .outputGmio
  | port => port.type

/-- Array and index of a port inside of an external buffer. -/
def innerPort (portName : String) : Option (String × ℕ) :=
  if portName = "" then none else arrayMatch (lastSegment portName)

/-- What the last part of a name stands for. -/
def plainHome (name : String) : Place :=
  (arrayMatch (lastSegment name)).elim (.scalar (lastSegment name)) fun (base, index) => .array base index

/-- The element a port's name stands for. A GMIO to the PL needs an index, a shared buffer the id of the graph. An
indexed run-time parameter belongs to the kernel in the second part of its name if there are three parts or more,
and otherwise to an array that gets another name if its own is used. -/
def home (graph : GraphEntry) (used : String → Bool) : Port → Option Place
  | .gmio name type =>
    if arrayMatch (lastSegment name) = none ∧ (type = .gm2pl ∨ type = .pl2gm) then none else some (plainHome name)
  | .plio name _ => some (plainHome name)
  | .rtp name => (arrayMatch (lastSegment name)).elim (some (plainHome name)) fun (base, index) =>
    if (segments name).length ≤ 2 then some (.rtpArray (if used base then base ++ "_rtp" else base) index)
    else some ((arrayMatch ((segments name).getD 1 "")).elim (.kernel ((segments name).getD 1 "") base index)
      fun (kernel, kernelIndex) => .kernelArray kernel kernelIndex base index)
  | .sharedBuffer name graphId => if graphId = graph.id then some (plainHome name) else none
  | .externalBuffer name shimPortNames =>
    if arrayMatch (lastSegment name) = none ∧ ∃ portName ∈ shimPortNames, innerPort portName ≠ none then
      some (.bufferStruct (lastSegment name))
    else some (plainHome name)

/-- The member of an element is in use by a name; those of kernels and structures do not count. -/
def Place.uses (name : String) : Place → Bool
  | .scalar member => member = name
  | .array base _ => base = name
  | .rtpArray arrayKey _ => arrayKey = name
  | _ => false

/-- The names used for members and arrays, the last port first. -/
def used (graph : GraphEntry) : List Port → String → Bool
  | [], _ => false
  | port :: earlier, name =>
    used graph earlier name ||
      (belongs graph port.name && (home graph (used graph earlier) port).any fun place => place.uses name)

variable (graph : GraphEntry) (ports : List Port)

/-- The name of a port stands for an element, after the names of the ports before it. -/
def HasHome (port : Port) (place : Place) : Prop :=
  ∃ before after, ports = before ++ port :: after ∧ belongs graph port.name = true ∧
    home graph (used graph before.reverse) port = some place

/-- The port has an element that no port behind it has. -/
def Keeps (port : Port) (place : Place) : Prop :=
  ∃ before after, ports = before ++ port :: after ∧ belongs graph port.name = true ∧
    home graph (used graph before.reverse) port = some place ∧ ∀ q ∈ after, ¬HasHome graph ports q place

/-- An element has a type: in an array it is that of the first port. -/
def Typed (type : PortType) : Place → Prop
  | .array base _ =>
    ∃ before q after, ports = before ++ q :: after ∧ (∃ index, HasHome graph ports q (.array base index)) ∧
      (∀ p ∈ before, ∀ index, ¬HasHome graph ports p (.array base index)) ∧ q.declaredType = type
  | .scalar _ | .bufferStruct _ | .bufferPort _ _ _ => True
  | _ => type = .rtp

/-- An element that no port has, between those of its array or kernel, and what it is called. -/
inductive Vacancy : Place → String → Prop
  | array {q : Port} {base : String} {i j : ℕ} (hq : HasHome graph ports q (.array base j)) (hlt : i < j)
    (hfree : ∀ p, ¬HasHome graph ports p (.array base i)) :
    Vacancy (.array base i) (graph.name ++ "." ++ base ++ "[" ++ toString i ++ "]")
  | rtpArray {q : Port} {arrayKey : String} {i j : ℕ}
      (hq : HasHome graph ports q (.rtpArray arrayKey j)) (hlt : i < j)
    (hfree : ∀ p, ¬HasHome graph ports p (.rtpArray arrayKey i)) :
    Vacancy (.rtpArray arrayKey i) (graph.name ++ "." ++ arrayKey ++ "[" ++ toString i ++ "]")
  | kernel {q : Port} {kernel base : String} {i j : ℕ}
      (hq : HasHome graph ports q (.kernel kernel base j)) (hlt : i < j)
    (hfree : ∀ p, ¬HasHome graph ports p (.kernel kernel base i)) :
    Vacancy (.kernel kernel base i) (graph.name ++ "." ++ kernel ++ "." ++ base ++ "[" ++ toString i ++ "]")
  | kernelArray {q q' : Port} {kernel base base' : String} {k k' i i' : ℕ}
    (hq : HasHome graph ports q (.kernelArray kernel k base' i'))
    (hq' : HasHome graph ports q' (.kernelArray kernel k' base i))
    (hfree : ∀ p, ¬HasHome graph ports p (.kernelArray kernel k base i)) :
    Vacancy (.kernelArray kernel k base i)
      (graph.name ++ "." ++ kernel ++ "[" ++ toString k ++ "]." ++ base ++ "[" ++ toString i ++ "]")

/-- An external buffer has a port of that name inside, and no later one has its place. -/
def Port.HasInner (name : String) : Port → Prop
  | .externalBuffer _ shimPortNames => ∃ before after place, shimPortNames = before ++ name :: after ∧
      innerPort name = some place ∧ ∀ portName ∈ after, innerPort portName ≠ some place
  | _ => False

/-- The port has its own element, of its type, and no vacant one has its name. -/
def Settled (port : Port) : Prop :=
  (∃ place, Keeps graph ports port place ∧ Typed graph ports port.type place) ∧
    ∀ place, ¬Vacancy graph ports place port.name

/-- The port has no element of its own, but one vacant element has its name and its type. -/
def ByChance (port : Port) : Prop :=
  (∀ place, ¬Keeps graph ports port place) ∧
    ∃ place, Vacancy graph ports place port.name ∧ Typed graph ports port.type place ∧
      ∀ place', Vacancy graph ports place' port.name → place' = place

/-- The names, types and ids of the ports admit a right class. -/
structure WellNamed : Prop where
  /-- Ports with the same member are elements of one array or kernel. -/
  members : ∀ p q place place', HasHome graph ports p place → HasHome graph ports q place' → p ≠ q →
    place.identifier = place'.identifier → place.table ≠ none ∧ place.table = place'.table
  /-- No port is called like one inside of an external buffer. -/
  inner : ∀ port ∈ ports, belongs graph port.name = true → ∀ q member,
    HasHome graph ports q (.bufferStruct member) → ¬q.HasInner port.name
  /-- Every port of the graph has one element. -/
  seats : ∀ port ∈ ports, belongs graph port.name = true → Settled graph ports port ∨ ByChance graph ports port

end Names

section Homes

variable {graph : GraphEntry} {ports : List Port} {port : Port} {place : Place} {e : Placement}

/-- The names in use after some ports were placed. -/
def usedBy (placed : List Placement) (name : String) :
    Bool := name ∈ arrayNames placed ∨ name ∈ usedPortNames placed

abbrev placedOf (graph : GraphEntry) (ports : List Port) : List Placement := ports.foldl (addPort graph) []

/-- The last part of a name stands for a member or an array element. -/
theorem simplePlace_eq (name : String) : simplePlace name = plainHome name := by
  unfold simplePlace plainHome
  cases arrayMatch (lastSegment name) <;> rfl

/-- A port is put to the element its name stands for. -/
theorem placeOf_eq_home (placed : List Placement) :
    placeOf graph placed port = home graph (usedBy placed) port := by
  cases port with
  | gmio name type =>
    delta placeOf
    dsimp only
    rw [simplePlace_eq, home, plainHome]
    cases arrayMatch (lastSegment name) <;> cases type <;> simp
  | plio name slaveOrMaster => exact congrArg some (simplePlace_eq name)
  | rtp name =>
    change some (rtpPlace placed name) = _
    rw [rtpPlace, home, plainHome]
    cases arrayMatch (lastSegment name) with
    | none => rfl
    | some last =>
      cases arrayMatch ((segments name).getD 1 "") <;> by_cases hlength : (segments name).length ≤ 2 <;>
        simp [hlength, usedBy]
  | sharedBuffer name graphId =>
    change (if graphId = graph.id then some (simplePlace name) else none) = _
    rw [simplePlace_eq, home]
  | externalBuffer name shimPortNames =>
    have hstruct : portStruct shimPortNames = [] ↔ ¬∃ portName ∈ shimPortNames, innerPort portName ≠ none := by
      simp [portStruct, innerPort, List.filterMap_eq_nil_iff]
    delta placeOf
    dsimp only
    rw [simplePlace_eq, home, plainHome]
    cases arrayMatch (lastSegment name) with
    | none => by_cases hinner : ∃ portName ∈ shimPortNames, innerPort portName ≠ none <;> simp [hstruct, hinner]
    | some last => simp

/-- A placement brings the name of its member into use. -/
theorem usedBy_append (placed : List Placement) (name : String) :
    usedBy (placed ++ [⟨place, port⟩]) name = (usedBy placed name || place.uses name) := by
  rw [Bool.eq_iff_iff]
  simp only [usedBy, arrayNames, usedPortNames, List.filterMap_append, List.mem_append,
    decide_eq_true_eq, Bool.or_eq_true]
  cases place with
  | scalar member => simp [Place.uses, or_assoc, @eq_comm _ name]
  | array base index => simp [Place.uses, or_right_comm, @eq_comm _ name]
  | rtpArray arrayKey index => simp [Place.uses, or_assoc, @eq_comm _ name]
  | _ => simp [Place.uses]

/-- The names in use are those of the ports placed before. -/
theorem usedBy_placedOf : usedBy (placedOf graph ports) = used graph ports.reverse := by
  induction ports using List.reverseRecOn with
  | nil => rfl
  | append_singleton ports port ih =>
    funext name
    rw [placedOf, List.foldl_append, List.foldl_cons, List.foldl_nil, addPort, placeOf_eq_home, ih,
      List.reverse_append, List.reverse_singleton, List.singleton_append, used, ← congrFun ih name]
    cases belongs graph port.name with
    | false => simp
    | true =>
      cases home graph (used graph ports.reverse) port with
      | none => simp
      | some place => exact usedBy_append _ name

/-- The loops add to what they have placed. -/
theorem foldl_addPort_append (graph : GraphEntry) (rest : List Port) : ∀ placed, ∃ more,
    rest.foldl (addPort graph) placed = placed ++ more ∧ ∀ e ∈ more, e.port ∈ rest := by
  induction rest with
  | nil => exact fun placed => ⟨[], (List.append_nil _).symm, nofun⟩
  | cons port rest ih =>
    intro placed
    obtain ⟨more, hmore, hports⟩ := ih (addPort graph placed port)
    have hlater (e : Placement) (he : e ∈ more) : e.port ∈ port :: rest := List.mem_cons_of_mem _ (hports e he)
    rw [List.foldl_cons, hmore, addPort]
    split
    · split
      · rename_i place _
        refine ⟨⟨place, port⟩ :: more, List.append_assoc _ _ _, fun e he => ?_⟩
        rcases List.mem_cons.mp he with rfl | hin
        · exact List.mem_cons_self
        · exact hlater e hin
      · exact ⟨more, rfl, hlater⟩
    · exact ⟨more, rfl, hlater⟩

/-- A port that has an element is put there, between the ports before and after it. -/
theorem placedOf_split {before : List Port} (after : List Port) (hbelongs : belongs graph port.name = true)
    (hhome : home graph (used graph before.reverse) port = some place) :
    ∃ more, placedOf graph (before ++ port :: after) = placedOf graph before ++ ⟨place, port⟩ :: more ∧
      ∀ e ∈ more, e.port ∈ after := by
  obtain ⟨more, hmore, hports⟩ := foldl_addPort_append graph after (placedOf graph before ++ [⟨place, port⟩])
  refine ⟨more, ?_, hports⟩
  rw [placedOf, List.foldl_append, List.foldl_cons, addPort, if_pos hbelongs, placeOf_eq_home,
    usedBy_placedOf, hhome]
  exact hmore.trans (List.append_assoc _ _ _)

/-- The placements are the ports with their elements. -/
theorem mem_placedOf : e ∈ placedOf graph ports ↔ HasHome graph ports e.port e.place := by
  constructor
  · induction ports using List.reverseRecOn with
    | nil => exact nofun
    | append_singleton ports port ih =>
      intro he
      have hold (h : e ∈ placedOf graph ports) : HasHome graph (ports ++ [port]) e.port e.place := by
        obtain ⟨before, after, rfl, hhome⟩ := ih h
        exact ⟨before, after ++ [port], by simp, hhome⟩
      rw [placedOf, List.foldl_append, List.foldl_cons, List.foldl_nil, addPort] at he
      split at he
      · rename_i hbelongs
        split at he
        · rename_i place hplace
          rcases List.mem_append.mp he with h | hnew
          · exact hold h
          · rw [List.mem_singleton.mp hnew]
            rw [placeOf_eq_home, usedBy_placedOf] at hplace
            exact ⟨ports, [], rfl, hbelongs, hplace⟩
        · exact hold he
      · exact hold he
  · rintro ⟨before, after, rfl, hbelongs, hhome⟩
    obtain ⟨more, hmore, -⟩ := placedOf_split after hbelongs hhome
    rw [hmore]
    exact List.mem_append_right _ List.mem_cons_self

/-- A port with an element is one of the ports. -/
theorem HasHome.mem (h : HasHome graph ports port place) : port ∈ ports := by
  obtain ⟨before, after, rfl, -⟩ := h
  exact List.mem_append_right _ List.mem_cons_self

/-- Ports are placed once and in their order. -/
theorem placedOf_ports_sublist : ((placedOf graph ports).map Placement.port).Sublist ports := by
  induction ports using List.reverseRecOn with
  | nil => exact List.Sublist.refl _
  | append_singleton ports port ih =>
    have hskip := ih.trans (List.sublist_append_left ports [port])
    rw [placedOf, List.foldl_append, List.foldl_cons, List.foldl_nil, addPort]
    split
    · split
      · rw [List.map_append]
        exact ih.append (List.Sublist.refl _)
      · exact hskip
    · exact hskip

/-- A port may have an element of that kind: a member of its own has its type, only external buffers have
structures, and nothing is put inside of one. -/
def Port.Suits (port : Port) : Place → Prop
  | .scalar _ => port.declaredType = port.type
  | .bufferStruct _ => port.type = .externalBuffer
  | .bufferPort _ _ _ => False
  | _ => True

/-- Ports have elements that suit them. -/
theorem HasHome.suits (h : HasHome graph ports port place) : port.Suits place := by
  obtain ⟨before, after, -, -, hhome⟩ := h
  have hplain {name : String} (hplace : plainHome name = place)
      (htype : arrayMatch (lastSegment name) = none → port.declaredType = port.type) : port.Suits place := by
    subst hplace
    unfold plainHome
    cases hlast : arrayMatch (lastSegment name) with
    | none => exact htype hlast
    | some last => trivial
  cases port with
  | gmio name type =>
    rw [home] at hhome
    split at hhome
    · exact nomatch hhome
    · rename_i hnot
      refine hplain (Option.some.inj hhome) fun hlast => ?_
      cases type with
      | gm2pl => exact absurd ⟨hlast, Or.inl rfl⟩ hnot
      | pl2gm => exact absurd ⟨hlast, Or.inr rfl⟩ hnot
      | gm2aie => rfl
      | aie2gm => rfl
  | plio name slaveOrMaster => exact hplain (Option.some.inj hhome) fun _ => rfl
  | rtp name =>
    rw [home] at hhome
    cases hlast : arrayMatch (lastSegment name) with
    | none =>
      rw [hlast] at hhome
      exact hplain (Option.some.inj hhome) fun _ => rfl
    | some last =>
      obtain ⟨base, index⟩ := last
      simp only [hlast, Option.elim_some] at hhome
      split at hhome
      · obtain rfl := Option.some.inj hhome
        trivial
      · obtain rfl := Option.some.inj hhome
        cases arrayMatch ((segments name).getD 1 "") <;> trivial
  | sharedBuffer name graphId =>
    rw [home] at hhome
    split at hhome
    · exact hplain (Option.some.inj hhome) fun _ => rfl
    · exact nomatch hhome
  | externalBuffer name shimPortNames =>
    rw [home] at hhome
    split at hhome
    · obtain rfl := Option.some.inj hhome
      rfl
    · exact hplain (Option.some.inj hhome) fun _ => rfl

end Homes

section Elements

variable {graph : GraphEntry} {ports : List Port} {port : Port} {place : Place} {placed : List Placement}

/-- No port was put to a place. -/
theorem lastAt_eq_none : lastAt placed place = none ↔ ∀ e ∈ placed, e.place ≠ place := by
  rw [lastAt, Option.map_eq_none_iff, List.findRev?_eq_find?_reverse, List.find?_eq_none]
  simp

/-- The last port at a place was put there. -/
theorem mem_of_lastAt (h : lastAt placed place = some port) : ⟨place, port⟩ ∈ placed := by
  obtain ⟨e, hfind, rfl⟩ := Option.map_eq_some_iff.mp h
  rw [List.findRev?_eq_find?_reverse] at hfind
  have hplace := List.find?_some hfind
  obtain rfl := of_decide_eq_true hplace
  exact List.mem_reverse.mp (List.mem_of_find?_eq_some hfind)

/-- The last port at a place is that one or a later one. -/
theorem lastAt_append_cons (before more : List Placement) :
    lastAt (before ++ ⟨place, port⟩ :: more) place = some ((lastAt more place).getD port) := by
  rw [lastAt, lastAt, List.findRev?_eq_find?_reverse, List.findRev?_eq_find?_reverse, List.reverse_append,
    List.reverse_cons, List.find?_append, List.find?_append]
  cases more.reverse.find? fun e => e.place = place <;> simp

/-- The last port at a place is the one that keeps it. -/
theorem lastAt_eq_some (hports : ports.Nodup) :
    lastAt (placedOf graph ports) place = some port ↔ Keeps graph ports port place := by
  have hsplit {before after : List Port} (heq : ports = before ++ port :: after)
    (hbelongs : belongs graph port.name = true)
      (hhome : home graph (used graph before.reverse) port = some place) :
      lastAt (placedOf graph ports) place = some port ↔ ∀ q ∈ after, ¬HasHome graph ports q place := by
    obtain ⟨more, hmore, hlater⟩ := placedOf_split after hbelongs hhome
    rw [heq] at hports
    have hafter : port ∉ after := (List.nodup_cons.mp (List.nodup_append.mp hports).2.1).1
    rw [heq, hmore, lastAt_append_cons, Option.some.injEq]
    constructor
    · intro hlast q hq hhas
      have hmem :=
        mem_placedOf.mpr (show HasHome graph _ (Placement.mk place q).port (Placement.mk place q).place from hhas)
      rw [hmore] at hmem
      -- the port is not placed before, since it is behind
      have hin : ⟨place, q⟩ ∈ more := by
        rcases List.mem_append.mp hmem with hbefore | hrest
        · have hq' := (mem_placedOf.mp hbefore).mem
          exact absurd rfl ((List.nodup_append.mp hports).2.2 q hq' q (List.mem_cons_of_mem _ hq))
        · rcases List.mem_cons.mp hrest with hsame | hin
          · obtain rfl : q = port := congrArg Placement.port hsame
            exact absurd hq hafter
          · exact hin
      cases hmoreLast : lastAt more place with
      | none => exact lastAt_eq_none.mp hmoreLast _ hin rfl
      | some p =>
        rw [hmoreLast, Option.getD_some] at hlast
        exact hafter (hlast ▸ hlater _ (mem_of_lastAt hmoreLast))
    · intro hfree
      have hnone : lastAt more place = none := by
        refine lastAt_eq_none.mpr fun e he hplace => hfree e.port (hlater e he) ?_
        rw [← hplace, ← mem_placedOf, hmore]
        exact List.mem_append_right _ (List.mem_cons_of_mem _ he)
      rw [hnone, Option.getD_none]
  constructor
  · intro hlast
    obtain ⟨before, after, heq, hbelongs, hhome⟩ := mem_placedOf.mp (mem_of_lastAt hlast)
    exact ⟨before, after, heq, hbelongs, hhome, (hsplit heq hbelongs hhome).mp hlast⟩
  · rintro ⟨before, after, heq, hbelongs, hhome, hfree⟩
    exact (hsplit heq hbelongs hhome).mpr hfree

/-- The generated code gives a port the type it is declared with. -/
theorem generatedType_eq (port : Port) : generatedType port = port.declaredType := by
  cases port with
  | gmio name type => cases type <;> rfl
  | _ => rfl

/-- The type of an array is that of its first port. -/
theorem arrayType_eq {base : String} {before after : List Port} (hports : (before ++ port :: after).Nodup)
    (hport : ∃ index, HasHome graph (before ++ port :: after) port (.array base index))
    (hbefore : ∀ p ∈ before, ∀ index, ¬HasHome graph (before ++ port :: after) p (.array base index)) :
    arrayType (placedOf graph (before ++ port :: after)) base = port.declaredType := by
  obtain ⟨index, before', after', heq, hbelongs, hhome⟩ := hport
  obtain ⟨-, hafter, happart⟩ := List.nodup_append.mp hports
  have hnotBefore : port ∉ before := fun hin => happart port hin port List.mem_cons_self rfl
  obtain ⟨rfl, -, rfl⟩ := (List.append_cons_inj_of_notMem hnotBefore (List.nodup_cons.mp hafter).1).mp heq
  obtain ⟨more, hmore, -⟩ := placedOf_split after hbelongs hhome
  have hnone :
    ((placedOf graph before).find? fun e => e.place.table = some .portArrays ∧ e.place.identifier = base) =
      none := by
    refine List.find?_eq_none.mpr fun e he hdecide => ?_
    obtain ⟨htable, hbase⟩ := of_decide_eq_true hdecide
    obtain ⟨place, p⟩ := e
    cases place with
    | array name i =>
      obtain rfl : name = base := hbase
      have hall : ⟨.array name i, p⟩ ∈ placedOf graph (before ++ port :: after) := by
        rw [hmore]
        exact List.mem_append_left _ he
      exact hbefore p (mem_placedOf.mp he).mem i (mem_placedOf.mp hall)
    | _ => exact nomatch htable
  rw [hmore, arrayType, List.find?_append, hnone, Option.none_or,
    List.find?_cons_of_pos (by simp [Place.table, Place.identifier])]
  exact generatedType_eq port

/-- The type of the array of a port is the one that its elements have. -/
theorem arrayType_eq_iff {base : String} {index : ℕ} (hport : HasHome graph ports port (.array base index))
    (hports : ports.Nodup) (type : PortType) (i : ℕ) :
    arrayType (placedOf graph ports) base = type ↔ Typed graph ports type (.array base i) := by
  constructor
  · classical
    rintro rfl
    have hsome : (ports.find? fun q => ∃ j, HasHome graph ports q (.array base j)).isSome :=
      List.find?_isSome.mpr ⟨port, hport.mem, decide_eq_true ⟨index, hport⟩⟩
    obtain ⟨q, hq⟩ := Option.isSome_iff_exists.mp hsome
    obtain ⟨hhome, before, after, rfl, hbefore⟩ := List.find?_eq_some_iff_append.mp hq
    have hnone (p : Port) (hp : p ∈ before) (j : ℕ) : ¬HasHome graph (before ++ q :: after) p (.array base j) := by
      intro h
      have hfalse := hbefore p hp
      rw [decide_eq_true ⟨j, h⟩] at hfalse
      exact nomatch hfalse
    exact ⟨before, q, after, rfl, of_decide_eq_true hhome, hnone,
      (arrayType_eq hports (of_decide_eq_true hhome) hnone).symm⟩
  · rintro ⟨before, q, after, rfl, hq, hbefore, rfl⟩
    exact arrayType_eq hports hq hbefore

/-- An array goes up to its largest index. -/
theorem lt_arraySize {i : ℕ} {indices : List ℕ} : i < arraySize indices ↔ ∃ j ∈ indices, i ≤ j := by
  have hmax : ∀ rest : List ℕ, i < rest.foldr max 0 + 1 ↔ i = 0 ∨ ∃ j ∈ rest, i ≤ j := by
    intro rest
    induction rest with
    | nil => simp
    | cons first rest ih =>
      have hcons : i < (first :: rest).foldr max 0 + 1 ↔ i ≤ first ∨ i < rest.foldr max 0 + 1 := by
        rw [List.foldr_cons]
        omega
      rw [hcons, ih]
      simp only [List.mem_cons, exists_eq_or_imp]
      tauto
  rw [arraySize]
  split
  · rename_i hnil
    simp [hnil]
  · rename_i hne
    obtain ⟨j, hj⟩ := List.exists_mem_of_ne_nil _ hne
    rw [hmax, or_iff_right_of_imp]
    rintro rfl
    exact ⟨j, hj, Nat.zero_le j⟩

theorem mem_sortedKeys {name : String} {names : List String} : name ∈ sortedKeys names ↔ name ∈ names := by
  rw [sortedKeys, (List.perm_insertionSort _ _).mem_iff, List.mem_dedup]

theorem mem_sortedIndices {index : ℕ} {indices : List ℕ} : index ∈ sortedIndices indices ↔ index ∈ indices := by
  rw [sortedIndices, (List.perm_insertionSort _ _).mem_iff, List.mem_dedup]

/-- The elements the constructor binds, by the ports of the same array or kernel. -/
def Spans (placed : List Placement) : Place → Prop
  | .array base i => ∃ e ∈ placed, ∃ j, e.place = .array base j ∧ i ≤ j
  | .rtpArray arrayKey i => ∃ e ∈ placed, ∃ j, e.place = .rtpArray arrayKey j ∧ i ≤ j
  | .kernel kernel base i => ∃ e ∈ placed, ∃ j, e.place = .kernel kernel base j ∧ i ≤ j
  | .kernelArray kernel k base i => (∃ e ∈ placed, ∃ base' i', e.place = .kernelArray kernel k base' i') ∧
      ∃ e ∈ placed, ∃ k', e.place = .kernelArray kernel k' base i
  | _ => False

/-- An array with a port at an index is one of its dictionary. -/
theorem mem_tableKeys {t : Table} {name : String} :
    name ∈ tableKeys t placed ↔ ∃ e ∈ placed, e.place.table = some t ∧ e.place.identifier = name := by
  rw [tableKeys, mem_sortedKeys, List.mem_filterMap]
  simp only [Option.ite_none_right_eq_some, Option.some.injEq]

/-- The indices of an array are those of the ports put there. -/
theorem mem_indices {t : Table} {key base : String} {j : ℕ} :
    j ∈ indices t key base placed ↔ ∃ e ∈ placed, match t with
      | .portArrays => e.place = .array key j
      | .rtpGraphLevel => e.place = .rtpArray key j
      | .rtpKernels => e.place = .kernel key base j
      | .rtpKernelArrays => ∃ k, e.place = .kernelArray key k base j := by
  rw [indices, List.mem_filterMap]
  refine exists_congr fun e => and_congr_right fun _ => ?_
  cases t <;> cases e.place <;> simp [and_assoc]

/-- The indices of an array of kernels are those of the ports put there. -/
theorem mem_kernelIndices {key : String} {k : ℕ} :
    k ∈ kernelIndices key placed ↔ ∃ e ∈ placed, ∃ base i, e.place = .kernelArray key k base i := by
  rw [kernelIndices, List.mem_filterMap]
  refine exists_congr fun e => and_congr_right fun _ => ?_
  cases e.place <;> simp

/-- The constructor binds these elements. -/
theorem mem_elements : place ∈ elements placed ↔ Spans placed place := by
  simp only [elements, List.mem_append, List.mem_flatMap, List.mem_map, List.mem_range, mem_sortedIndices,
    lt_arraySize, mem_indices, mem_kernelIndices]
  constructor
  · rintro (((⟨base, -, i, ⟨j, ⟨e, he, hplace⟩, hle⟩, rfl⟩ | ⟨arrayKey, -, i, ⟨j, ⟨e, he, hplace⟩, hle⟩, rfl⟩) |
      ⟨kernel, -, base, -, i, ⟨j, ⟨e, he, hplace⟩, hle⟩, rfl⟩) | ⟨kernel, -, k, hk, base, -, i, hi, rfl⟩)
    · exact ⟨e, he, j, hplace, hle⟩
    · exact ⟨e, he, j, hplace, hle⟩
    · exact ⟨e, he, j, hplace, hle⟩
    · exact ⟨hk, hi⟩
  · intro h
    have hkey {e : Placement} {place : Place} {t : Table} (he : e ∈ placed) (hplace : e.place = place)
        (ht : place.table = some t) : place.identifier ∈ tableKeys t placed :=
      mem_tableKeys.mpr ⟨e, he, hplace ▸ ht, by rw [hplace]⟩
    cases place with
    | array base i =>
      obtain ⟨e, he, j, hplace, hle⟩ := h
      exact Or.inl (Or.inl (Or.inl ⟨base, hkey he hplace rfl, i, ⟨j, ⟨e, he, hplace⟩, hle⟩, rfl⟩))
    | rtpArray arrayKey i =>
      obtain ⟨e, he, j, hplace, hle⟩ := h
      exact Or.inl (Or.inl (Or.inr ⟨arrayKey, hkey he hplace rfl, i, ⟨j, ⟨e, he, hplace⟩, hle⟩, rfl⟩))
    | kernel kernel base i =>
      obtain ⟨e, he, j, hplace, hle⟩ := h
      refine Or.inl (Or.inr ⟨kernel, hkey he hplace rfl, base, ?_, i, ⟨j, ⟨e, he, hplace⟩, hle⟩, rfl⟩)
      exact mem_sortedKeys.mpr (List.mem_filterMap.mpr ⟨e, he, by simp [hplace]⟩)
    | kernelArray kernel k base i =>
      obtain ⟨hk, e, he, k', hplace⟩ := h
      refine Or.inr ⟨kernel, hkey he hplace rfl, k, hk, base, ?_, i, ⟨e, he, k', hplace⟩, rfl⟩
      exact mem_sortedKeys.mpr (List.mem_filterMap.mpr ⟨e, he, by simp [hplace]⟩)
    | scalar member => exact h.elim
    | bufferStruct member => exact h.elim
    | bufferPort member base i => exact h.elim

/-- A vacancy is an element that the constructor binds and no port was put to. -/
theorem vacancy_iff {name : String} : Vacancy graph ports place name ↔
    place ∈ elements (placedOf graph ports) ∧ lastAt (placedOf graph ports) place = none ∧
    defaultName graph place = name := by
  have hhome {place : Place} (h : ∃ e ∈ placedOf graph ports, e.place = place) :
    ∃ q, HasHome graph ports q place := by
    obtain ⟨e, he, rfl⟩ := h
    exact ⟨e.port, mem_placedOf.mp he⟩
  have hplaced {q : Port} {place : Place} (h : HasHome graph ports q place) : ⟨place, q⟩ ∈ placedOf graph ports :=
    mem_placedOf.mpr h
  have hfree : lastAt (placedOf graph ports) place = none ↔ ∀ p, ¬HasHome graph ports p place := by
    rw [lastAt_eq_none]
    exact ⟨fun h p hp => h _ (hplaced hp) rfl, fun h e he hplace => h e.port (hplace ▸ mem_placedOf.mp he)⟩
  rw [mem_elements, hfree]
  constructor
  · rintro (⟨hq, hlt, hnone⟩ | ⟨hq, hlt, hnone⟩ | ⟨hq, hlt, hnone⟩ | ⟨hq, hq', hnone⟩)
    · exact ⟨⟨_, hplaced hq, _, rfl, hlt.le⟩, hnone, rfl⟩
    · exact ⟨⟨_, hplaced hq, _, rfl, hlt.le⟩, hnone, rfl⟩
    · exact ⟨⟨_, hplaced hq, _, rfl, hlt.le⟩, hnone, rfl⟩
    · exact ⟨⟨⟨_, hplaced hq, _, _, rfl⟩, _, hplaced hq', _, rfl⟩, hnone, rfl⟩
  · rintro ⟨hspans, hnone, rfl⟩
    -- the index of a port is another one, since no port has this element
    have hlt {q : Port} {i j : ℕ} {element : ℕ → Place} (hplace : place = element i)
      (hq : HasHome graph ports q (element j))
        (hle : i ≤ j) : i < j :=
      lt_of_le_of_ne hle fun hij => hnone q (by rw [hplace, hij]; exact hq)
    cases place with
    | array base i =>
      obtain ⟨e, he, j, hplace, hle⟩ := hspans
      obtain ⟨q, hq⟩ := hhome ⟨e, he, hplace⟩
      exact .array hq (hlt rfl hq hle) hnone
    | rtpArray arrayKey i =>
      obtain ⟨e, he, j, hplace, hle⟩ := hspans
      obtain ⟨q, hq⟩ := hhome ⟨e, he, hplace⟩
      exact .rtpArray hq (hlt rfl hq hle) hnone
    | kernel kernel base i =>
      obtain ⟨e, he, j, hplace, hle⟩ := hspans
      obtain ⟨q, hq⟩ := hhome ⟨e, he, hplace⟩
      exact .kernel hq (hlt rfl hq hle) hnone
    | kernelArray kernel k base i =>
      obtain ⟨⟨e, he, base', i', hplace⟩, e', he', k', hplace'⟩ := hspans
      obtain ⟨q, hq⟩ := hhome ⟨e, he, hplace⟩
      obtain ⟨q', hq'⟩ := hhome ⟨e', he', hplace'⟩
      exact .kernelArray hq hq' hnone
    | scalar member => exact hspans.elim
    | bufferStruct member => exact hspans.elim
    | bufferPort member base i => exact hspans.elim

end Elements

section Inner

variable {placed : List Placement} {member name : String}

/-- The structures are those of the external buffers that were put there. -/
theorem mem_bufferMembers : member ∈ bufferMembers placed ↔ ∃ e ∈ placed, e.place = .bufferStruct member := by
  rw [bufferMembers, List.mem_eraseDups, List.mem_filterMap]
  refine exists_congr fun e => and_congr_right fun _ => ?_
  cases e.place <;> simp

/-- The ports in the structure of an external buffer, by their places. -/
theorem portStruct_eq (shimPortNames : List String) : portStruct shimPortNames =
    shimPortNames.filterMap fun portName => (innerPort portName).map fun place => (place.1, place.2, portName) := by
  refine List.filterMap_congr fun portName _ => ?_
  rw [innerPort]
  split <;> rfl

/-- The last port at a place in an external buffer is the one with no port of that place behind it. -/
theorem portStruct_last_iff {q : Port} :
    (∃ base index, (q.struct.findRev? fun item => item.1 = base ∧ item.2.1 = index) = some (base, index, name)) ↔
      q.HasInner name := by
  cases q with
  | externalBuffer bufferName shimPortNames =>
    simp only [Port.struct, portStruct_eq, List.findRev?_eq_find?_reverse, ← List.filterMap_reverse,
      List.find?_filterMap, Port.HasInner]
    constructor
    · rintro ⟨base, index, hfind⟩
      obtain ⟨portName, hlast, hinner⟩ := Option.bind_eq_some_iff.mp hfind
      obtain ⟨place, hplace, hitem⟩ := Option.map_eq_some_iff.mp hinner
      obtain ⟨rfl, rfl, rfl⟩ : place.1 = base ∧ place.2 = index ∧ portName = name := by simpa using hitem
      obtain ⟨-, later, earlier, hsplit, hlater⟩ := List.find?_eq_some_iff_append.mp hlast
      refine ⟨earlier.reverse, later.reverse, place, ?_, hplace, fun other hother hsame => ?_⟩
      · rw [← List.reverse_reverse shimPortNames, hsplit]
        simp
      · have hfalse := hlater other (List.mem_reverse.mp hother)
        simp [hsame] at hfalse
    · rintro ⟨before, after, place, rfl, hplace, hlater⟩
      have hfirst (other : String) (hother : other ∈ after.reverse) :
          (!((innerPort other).map fun place => (place.1, place.2, other)).any
            fun item => decide (item.1 = place.1 ∧ item.2.1 = place.2)) = true := by
        have hne := hlater other (List.mem_reverse.mp hother)
        cases h : innerPort other with
        | none => rfl
        | some otherPlace =>
          rw [h, Option.some_inj.ne, ne_eq, Prod.ext_iff] at hne
          exact congrArg not (decide_eq_false hne)
      refine ⟨place.1, place.2, Option.bind_eq_some_iff.mpr ⟨name, ?_, by rw [hplace]; rfl⟩⟩
      exact List.find?_eq_some_iff_append.mpr ⟨by simp [hplace], after.reverse, before.reverse, by simp, hfirst⟩
  | _ => simp [Port.struct, Port.HasInner]

/-- Bindings inside of an external buffer have the names of its inner ports. -/
theorem mem_structBindings {q : Port} (hlast : lastAt placed (.bufferStruct member) = some q) :
    (∃ b ∈ structBindings placed member, b.fullName = name) ↔ q.HasInner name := by
  rw [← portStruct_last_iff, structBindings, hlast]
  simp only [Option.map_some, Option.getD_some, List.mem_flatMap, List.mem_filterMap, Option.map_eq_some_iff,
    structBases, structIndices, List.mem_eraseDups, List.mem_map]
  constructor
  · rintro ⟨_, ⟨base, -, index, -, item, hitem, rfl⟩, rfl⟩
    have hsame := List.find?_some (List.findRev?_eq_find?_reverse ▸ hitem)
    obtain ⟨rfl, rfl⟩ := of_decide_eq_true hsame
    exact ⟨_, _, hitem⟩
  · rintro ⟨base, index, hitem⟩
    have hmem := List.mem_reverse.mp (List.mem_of_find?_eq_some (List.findRev?_eq_find?_reverse ▸ hitem))
    exact ⟨_, ⟨base, ⟨_, hmem, rfl⟩, index, ⟨_, hmem, if_pos rfl⟩, _, hitem, rfl⟩, rfl⟩

end Inner

end AieBaremetal.Generator
