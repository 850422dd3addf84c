import AieBaremetal.Gmio.Api
import Mathlib.Data.List.Dedup
import Mathlib.Data.List.Sort

/-!
# Generated graph classes

`generate_graph_class` writes a C++ class for every graph of the metadata: a member for every port whose
name begins with the graph's name, or one array for ports with an index, and a constructor that gives
every member its port's name. A class is its member declarations and the bindings of its constructor, in
order; the fixed text around them is left out.

The dictionaries (`port_arrays`, `rtp_graph_level`, `rtp_kernels`, `rtp_kernel_arrays`,
`external_buffer_ports`) are one list of what was put where, in that order: the type of an array is that
of its first port, and an element has the name of the last port put there. Names are the `name` fields,
or the keys where a field is missing. Word characters are the ASCII ones.
-/

namespace AieBaremetal.Generator

open Gmio (GmioType)

/-- The port classes of `aeg::detail`. -/
inductive PortType where
  | inputGmio
  | outputGmio
  | inputPlio
  | outputPlio
  | rtp
  | sharedBuffer
  | externalBuffer
  | externalBufferPort
  deriving DecidableEq, Repr

inductive Port where
  | gmio (name : String) (type : GmioType)
  | plio (name : String) (slaveOrMaster : ℕ)
  | rtp (portName : String)
  | sharedBuffer (name : String) (graphId : ℤ)
  | externalBuffer (name : String) (shimPortNames : List String)
  deriving DecidableEq, Repr

def Port.name : Port → String
  | .gmio name _ | .plio name _ | .rtp name | .sharedBuffer name _ | .externalBuffer name _ => name

structure GraphEntry where
  name : String
  id : ℤ
  deriving DecidableEq, Repr

/-- The sections of the metadata that the generator reads. -/
structure Metadata where
  graphs : List GraphEntry
  gmios : List (String × GmioType)
  plios : List (String × ℕ)
  rtps : List String
  sharedBuffers : List (String × ℤ)
  externalBuffers : List (String × List String)

def Metadata.ports (md : Metadata) : List Port :=
  md.gmios.map (fun (name, type) => .gmio name type) ++
    md.plios.map (fun (name, slaveOrMaster) => .plio name slaveOrMaster) ++
    md.rtps.map .rtp ++ md.sharedBuffers.map (fun (name, graphId) => .sharedBuffer name graphId) ++
    md.externalBuffers.map fun (name, shimPortNames) => .externalBuffer name shimPortNames

/-- The parts of a name between its dots. -/
def segments (name : String) : List String := (name.toList.splitOn '.').map String.ofList

def lastSegment (name : String) : String := (segments name).getLastD ""

def isWordChar (c : Char) : Bool := c.isAlphanum || c == '_'

def ofDigits (digits : List Char) : ℕ := digits.foldl (fun n c => 10 * n + (c.toNat - '0'.toNat)) 0

/-- The base and the index of an indexed part, `^(\w+)\[(\d+)\]$`. -/
def arrayMatch (segment : String) : Option (String × ℕ) :=
  let base := segment.toList.takeWhile isWordChar
  match segment.toList.dropWhile isWordChar with
  | '[' :: rest =>
    let digits := rest.takeWhile Char.isDigit
    if base ≠ [] ∧ digits ≠ [] ∧ rest.dropWhile Char.isDigit = [']'] then some (String.ofList base, ofDigits digits)
    else none
  | _ => none

/-- The name begins with that of the graph and a dot. -/
def belongs (graph : GraphEntry) (name : String) : Bool := name.startsWith (graph.name ++ ".")

/-- Where a port is put: its own member, or an element of an array or of a kernel's array. -/
inductive Place where
  | scalar (member : String)
  | bufferStruct (member : String)
  | array (base : String) (index : ℕ)
  | rtpArray (arrayKey : String) (index : ℕ)
  | kernel (kernel base : String) (index : ℕ)
  | kernelArray (kernel : String) (kernelIndex : ℕ) (base : String) (index : ℕ)
  | bufferPort (member base : String) (index : ℕ)
  deriving DecidableEq, Repr

/-- The dictionaries whose keys are members. -/
inductive Table where
  | portArrays
  | rtpGraphLevel
  | rtpKernels
  | rtpKernelArrays
  deriving DecidableEq, Repr

def Place.table : Place → Option Table
  | .array _ _ => some .portArrays
  | .rtpArray _ _ => some .rtpGraphLevel
  | .kernel _ _ _ => some .rtpKernels
  | .kernelArray _ _ _ _ => some .rtpKernelArrays
  | _ => none

def Place.identifier : Place → String
  | .scalar member | .bufferStruct member | .bufferPort member _ _ => member
  | .array base _ => base
  | .rtpArray arrayKey _ => arrayKey
  | .kernel name _ _ | .kernelArray name _ _ _ => name

/-- A port and where it was put. -/
structure Placement where
  place : Place
  port : Port
  deriving DecidableEq, Repr

/-- The type a port has by itself in the generated code. -/
def generatedType : Port → PortType
  | .gmio _ type => if type = .gm2aie then .inputGmio else .outputGmio
  | .plio _ slaveOrMaster => if slaveOrMaster = 0 then .inputPlio else .outputPlio
  | .rtp _ => .rtp
  | .sharedBuffer _ _ => .sharedBuffer
  | .externalBuffer _ _ => .externalBuffer

def arrayNames (placed : List Placement) : List String :=
  placed.filterMap fun e => match e.place with
    | .array base _ => some base
    | _ => none

/-- `used_port_names` while parameters are placed. -/
def usedPortNames (placed : List Placement) : List String :=
  placed.filterMap fun e => match e.place with
    | .scalar member => some member
    | .rtpArray arrayKey _ => some arrayKey
    | _ => none

/-- The place of a port by the last part of its name. -/
def simplePlace (name : String) : Place :=
  match arrayMatch (lastSegment name) with
  | some (base, index) => .array base index
  | none => .scalar (lastSegment name)

/-- The place of a parameter; a name of three or more parts has its kernel in the second. -/
def rtpPlace (placed : List Placement) (name : String) : Place :=
  match arrayMatch (lastSegment name) with
  | none => .scalar (lastSegment name)
  | some (base, index) =>
    if 2 < (segments name).length then
      match arrayMatch ((segments name).getD 1 "") with
      | some (kernel, kernelIndex) => .kernelArray kernel kernelIndex base index
      | none => .kernel ((segments name).getD 1 "") base index
    else
      .rtpArray (if base ∈ arrayNames placed ∨ base ∈ usedPortNames placed then base ++ "_rtp" else base) index

def portStruct (shimPortNames : List String) : List (String × ℕ × String) :=
  shimPortNames.filterMap fun portName =>
    if portName = "" then none
    else (arrayMatch (lastSegment portName)).map fun (base, index) => (base, index, portName)

/-- The place of a port; scalar GMIOs to the PL and shared buffers of another id have none. -/
def placeOf (graph : GraphEntry) (placed : List Placement) : Port → Option Place
  | .gmio name type =>
    match simplePlace name, type with
    | .scalar _, .gm2pl | .scalar _, .pl2gm => none
    | place, _ => some place
  | .plio name _ => some (simplePlace name)
  | .rtp portName => some (rtpPlace placed portName)
  | .sharedBuffer name graphId => if graphId = graph.id then some (simplePlace name) else none
  | .externalBuffer name shimPortNames =>
    match simplePlace name with
    | .scalar member => if portStruct shimPortNames = [] then some (.scalar member) else some (.bufferStruct member)
    | place => some place

def addPort (graph : GraphEntry) (placed : List Placement) (port : Port) : List Placement :=
  if belongs graph port.name then
    match placeOf graph placed port with
    | some place => placed ++ [{ place, port }]
    | none => placed
  else placed

def placements (md : Metadata) (graph : GraphEntry) : List Placement := md.ports.foldl (addPort graph) []

def sortedKeys (names : List String) : List String := names.dedup.insertionSort (· ≤ ·)

def sortedIndices (indices : List ℕ) : List ℕ := indices.dedup.insertionSort (· ≤ ·)

def arraySize (indices : List ℕ) : ℕ := if indices = [] then 0 else indices.foldr max 0 + 1

def tableKeys (t : Table) (placed : List Placement) : List String :=
  sortedKeys (placed.filterMap fun e => if e.place.table = some t then some e.place.identifier else none)

/-- The arrays under a key of a dictionary of kernels. -/
def kernelBases (t : Table) (key : String) (placed : List Placement) : List String :=
  sortedKeys (placed.filterMap fun e => match t, e.place with
    | .rtpKernels, .kernel kernel base _ => if kernel = key then some base else none
    | .rtpKernelArrays, .kernelArray kernel _ base _ => if kernel = key then some base else none
    | _, _ => none)

/-- The indices of an array; `base` matters for kernels only. -/
def indices (t : Table) (key base : String) (placed : List Placement) : List ℕ :=
  placed.filterMap fun e => match t, e.place with
    | .portArrays, .array name index => if name = key then some index else none
    | .rtpGraphLevel, .rtpArray name index => if name = key then some index else none
    | .rtpKernels, .kernel kernel name index => if kernel = key ∧ name = base then some index else none
    | .rtpKernelArrays, .kernelArray kernel _ name index => if kernel = key ∧ name = base then some index else none
    | _, _ => none

def kernelIndices (key : String) (placed : List Placement) : List ℕ :=
  placed.filterMap fun e => match e.place with
    | .kernelArray kernel kernelIndex _ _ => if kernel = key then some kernelIndex else none
    | _ => none

def elements (placed : List Placement) : List Place :=
  ((tableKeys .portArrays placed).flatMap fun base =>
    (List.range (arraySize (indices .portArrays base "" placed))).map (Place.array base)) ++
  ((tableKeys .rtpGraphLevel placed).flatMap fun arrayKey =>
    (List.range (arraySize (indices .rtpGraphLevel arrayKey "" placed))).map (Place.rtpArray arrayKey)) ++
  ((tableKeys .rtpKernels placed).flatMap fun kernel =>
    (kernelBases .rtpKernels kernel placed).flatMap fun base =>
      (List.range (arraySize (indices .rtpKernels kernel base placed))).map (Place.kernel kernel base)) ++
  (tableKeys .rtpKernelArrays placed).flatMap fun kernel =>
    (sortedIndices (kernelIndices kernel placed)).flatMap fun kernelIndex =>
      (kernelBases .rtpKernelArrays kernel placed).flatMap fun base =>
        (sortedIndices (indices .rtpKernelArrays kernel base placed)).map
          (Place.kernelArray kernel kernelIndex base)

/-- The structures of external buffers, `external_buffer_ports`. -/
def bufferMembers (placed : List Placement) : List String :=
  (placed.filterMap fun e => match e.place with
    | .bufferStruct member => some member
    | _ => none).eraseDups

/-- The port that was put to a place last. -/
def lastAt (placed : List Placement) (place : Place) : Option Port :=
  (placed.findRev? fun e => e.place = place).map Placement.port

/-- The name of an element that no port was put to. -/
def defaultName (graph : GraphEntry) : Place → String
  | .array name index | .rtpArray name index => graph.name ++ "." ++ name ++ "[" ++ toString index ++ "]"
  | .kernel kernel base index => graph.name ++ "." ++ kernel ++ "." ++ base ++ "[" ++ toString index ++ "]"
  | .kernelArray kernel kernelIndex base index =>
    graph.name ++ "." ++ kernel ++ "[" ++ toString kernelIndex ++ "]." ++ base ++ "[" ++ toString index ++ "]"
  | _ => ""

def elementName (graph : GraphEntry) (placed : List Placement) (place : Place) : String :=
  match lastAt placed place with
  | some port => port.name
  | none => defaultName graph place

/-- The type of an array: that of its first port. -/
def arrayType (placed : List Placement) (base : String) : PortType :=
  match placed.find? fun e => e.place.table = some .portArrays ∧ e.place.identifier = base with
  | some e => generatedType e.port
  | none => .rtp

def elementType (placed : List Placement) : Place → PortType
  | .array base _ => arrayType placed base
  | .bufferStruct _ => .externalBuffer
  | .bufferPort _ _ _ => .externalBufferPort
  | _ => .rtp

inductive Declaration where
  | scalar (type : PortType) (member : String)
  | array (type : PortType) (member : String) (size : ℕ)
  | kernelStruct (fields : List (String × ℕ)) (member : String) (size : Option ℕ)
  | bufferStruct (fields : List (String × ℕ)) (member : String)
  deriving DecidableEq, Repr

/-- The declared member; the type of a kernel's structure is none. -/
def Declaration.member : Declaration → String
  | .scalar _ member | .array _ member _ | .kernelStruct _ member _ | .bufferStruct _ member => member

/-- A member element, its type and its name in the constructor. -/
structure Binding where
  type : PortType
  element : Place
  fullName : String
  deriving DecidableEq, Repr

structure GraphClass where
  className : String
  members : List Declaration
  bindings : List Binding
  deriving DecidableEq, Repr

def structBases (struct : List (String × ℕ × String)) : List String := (struct.map fun item => item.1).eraseDups

def structIndices (struct : List (String × ℕ × String)) (base : String) : List ℕ :=
  struct.filterMap fun (name, index, _) => if name = base then some index else none

def Port.struct : Port → List (String × ℕ × String)
  | .externalBuffer _ shimPortNames => portStruct shimPortNames
  | _ => []

/-- The declaration that is written when a port is placed. -/
def ownDeclaration (e : Placement) : Option Declaration :=
  match e.place with
  | .scalar member => some (.scalar (generatedType e.port) member)
  | .bufferStruct member =>
    some (.bufferStruct
      ((structBases e.port.struct).map fun base => (base, arraySize (structIndices e.port.struct base))) member)
  | _ => none

def declarations (placed : List Placement) : List Declaration :=
  placed.filterMap ownDeclaration ++
  (tableKeys .portArrays placed).map (fun base =>
    .array (arrayType placed base) base (arraySize (indices .portArrays base "" placed))) ++
  (tableKeys .rtpGraphLevel placed).map (fun arrayKey =>
    .array .rtp arrayKey (arraySize (indices .rtpGraphLevel arrayKey "" placed))) ++
  (tableKeys .rtpKernels placed).map (fun kernel =>
    .kernelStruct
      ((kernelBases .rtpKernels kernel placed).map fun base =>
        (base, arraySize (indices .rtpKernels kernel base placed)))
      kernel none) ++
  (tableKeys .rtpKernelArrays placed).map fun kernel =>
    .kernelStruct
      ((kernelBases .rtpKernelArrays kernel placed).map fun base =>
        (base, arraySize (indices .rtpKernelArrays kernel base placed)))
      kernel (some (arraySize (kernelIndices kernel placed)))

def elementBinding (graph : GraphEntry) (placed : List Placement) (place : Place) : Binding where
  type := elementType placed place
  element := place
  fullName := elementName graph placed place

def ownBinding (e : Placement) : Option Binding :=
  match e.place with
  | .scalar _ => some { type := generatedType e.port, element := e.place, fullName := e.port.name }
  | _ => none

/-- The bindings in the structure of an external buffer, each with the last name given. -/
def structBindings (placed : List Placement) (member : String) : List Binding :=
  let struct := ((lastAt placed (.bufferStruct member)).map Port.struct).getD []
  (structBases struct).flatMap fun base =>
    (structIndices struct base).eraseDups.filterMap fun index =>
      (struct.findRev? fun item => item.1 = base ∧ item.2.1 = index).map fun item =>
        { type := .externalBufferPort, element := .bufferPort member base index, fullName := item.2.2 }

def bindings (graph : GraphEntry) (placed : List Placement) : List Binding :=
  placed.filterMap ownBinding ++ (elements placed).map (elementBinding graph placed) ++
  (bufferMembers placed).flatMap fun member =>
    elementBinding graph placed (.bufferStruct member) :: structBindings placed member

def generateGraphClass (md : Metadata) (graph : GraphEntry) : GraphClass where
  className := "aeg_" ++ graph.name
  members := declarations (placements md graph)
  bindings := bindings graph (placements md graph)

end AieBaremetal.Generator
