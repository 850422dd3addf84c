import AieBaremetal.AieGraph.Api

/-!
# GMIO objects behind pointers

A `gmio_api` object is made by every `init` for every GMIO of its graph. The graph finds it by name in a
map, which the next `init` overwrites; a typed port looks it up once and keeps the pointer. Objects are
numbered in the order in which they are made, and a pointer is a number. An object that nothing points to
stays in the list, as its descriptors stay in the channel's queue.

Calls by name are the methods of the graph object, run where the objects are. Ports are made without a
pointer; methods that the class of a port does not have cannot be called. A number that is no graph or no
port stands for a pointer that the application does not have.
-/

namespace AieBaremetal.Ports

open Common AieBaremetal.Runtime Gmio AieGraph
open Cdo (AegErr RegAccess)

/-- An `AIEGraph` object; the map leads from names to pointers. -/
structure GraphInstance extends GraphFields ℕ where
  graph : Option Backend

/-- An `InputGMIO` or `OutputGMIO`. -/
structure TypedPort where
  isInput : Bool
  portName : String
  graphImpl : Option ℕ
  apiImpl : Option ℕ
  deriving DecidableEq, Repr

/-- A process with its graphs, its ports and the GMIO objects made so far. -/
structure PortsState where
  graphs : List GraphInstance
  ports : List TypedPort
  objects : List GmioApiImpl

def PortsState.fresh : PortsState := { graphs := [], ports := [], objects := [] }

/-- A driver call of an object, or a register access of a CDO. -/
inductive PortsEvent where
  | gmio (object : ℕ) (call : DriverCall) (answer : DriverAnswer)
  | cdo (access : RegAccess)

abbrev PortsProgram := Program PortsEvent DriverAnswer PortsState

abbrev PortsWorld := World PortsEvent DriverAnswer PortsState

def objectEvent (object : ℕ) : Event GmioOp → List PortsEvent
  | .driver call answer => [.gmio object call answer]
  | _ => []

/-- Call a method of the object behind a pointer. -/
def callObject (object : ℕ) (method : GmioApiImpl → GmioProgram ErrCode) : PortsProgram ErrCode := do
  let s ← Program.getState
  let impl ← Program.ofOption s.objects[object]?
  Program.runWithin (objectEvent object) id impl.gmioApi
    (fun gmioApi s => { s with objects := s.objects.set object { impl with gmioApi } }) (method impl)

/-- Make a new object. -/
def makeObject (gmioconfig : GmioConfig) : PortsProgram ℕ := do
  let s ← Program.getState
  Program.modifyState fun s => { s with objects := s.objects ++ [{ gmioconfig, gmioApi := .fresh }] }
  pure s.objects.length

/-- A graph whose map holds pointers; an object is made before it is configured. -/
def pointers (g : ℕ) : Site PortsEvent PortsState ℕ where
  fields s := s.graphs[g]?.elim .fresh GraphInstance.toGraphFields
  change f s := { s with graphs := s.graphs.modify g fun o => { o with toGraphFields := f o.toGraphFields } }
  cdo := .cdo
  configure gmioconfig := do
    let object ← makeObject gmioconfig
    let code ← callObject object fun _ => Gmio.configure (some gmioconfig)
    pure (code, object)
  call _ object method := callObject object method

def onGraph (g : ℕ) (method : Option Backend → PortsProgram AegErr) : PortsProgram AegErr := do
  let s ← Program.getState
  let o ← Program.ofOption s.graphs[g]?
  method o.graph

/-- The pointer of a port, looked up once. -/
def apiImpl (p : ℕ) : PortsProgram (Option ℕ) := do
  let s ← Program.getState
  let port ← Program.ofOption s.ports[p]?
  match port.apiImpl, port.graphImpl with
  | none, some g => do
    let o ← Program.ofOption s.graphs[g]?
    let found := o.gmioApiImpls.lookup port.portName
    Program.modifyState fun s => { s with ports := s.ports.set p { port with apiImpl := found } }
    pure found
  | pointer, _ => pure pointer

def onPort (p : ℕ) (method : GmioApiImpl → GmioProgram ErrCode) : PortsProgram AegErr := do
  let pointer ← apiImpl p
  match pointer with
  | none => pure .backendNotReady
  | some object => do
    let code ← callObject object method
    pure (errFromAbr code)

/-- The transfers of the class of a port. -/
def TypedPort.has (port : TypedPort) : TransferKind → Bool
  | .gm2aieNb | .gm2aie => port.isInput
  | .aie2gmNb | .aie2gm => !port.isInput

/-- The transfers of a port, which ask for no initialised graph. -/
def portTransfer (mgr : ConfigManager) (p : ℕ) (kind : TransferKind)
    (data : Option TransferData) (len : BitVec 32) :
    PortsProgram AegErr := do
  let s ← Program.getState
  let port ← Program.ofOption s.ports[p]?
  if port.has kind = false then Program.undefined
  else
    match data with
    | none => pure .nullArgument
    | some data =>
      if len.toInt ≤ 0 then pure .invalidLength
      else onPort p fun impl => transferOn mgr impl kind data len

def portWait (p : ℕ) (syncmode : Bool) : PortsProgram AegErr := do
  let s ← Program.getState
  let port ← Program.ofOption s.ports[p]?
  if port.isInput then Program.undefined
  else if syncmode = false then pure .userError
  else onPort p fun impl => Gmio.wait (some impl.gmioconfig) syncmode

inductive PortsOp where
  | build (graph : Option Backend)
  | makePort (isInput : Bool) (portName : String) (graphImpl : Option ℕ)
  | bind (p : ℕ) (portName : String) (graphImpl : Option ℕ)
  | init (g : ℕ) (blobs : Option (List CdoBlob)) (count : ℕ)
  | transfer (g : ℕ) (kind : TransferKind) (name : Option String) (data : Option TransferData) (len : BitVec 32)
  | gmioWait (g : ℕ) (gmioName : String) (syncmode : Bool)
  | portTransfer (p : ℕ) (kind : TransferKind) (data : Option TransferData) (len : BitVec 32)
  | portWait (p : ℕ) (syncmode : Bool)

/-- The constructors, `bind()` without a pointer, and the methods. -/
def portsMethod (mgr : ConfigManager) : PortsOp → PortsProgram AegErr
  | .build graph => do
    Program.modifyState fun s => { s with graphs := s.graphs ++ [{ GraphFields.fresh with graph }] }
    pure .ok
  | .makePort isInput portName graphImpl => do
    Program.modifyState fun s => { s with ports := s.ports ++ [{ isInput, portName, graphImpl, apiImpl := none }] }
    pure .ok
  | .bind p portName graphImpl => do
    Program.modifyState fun s => { s with ports := s.ports.modify p fun port =>
      { port with portName, graphImpl, apiImpl := none } }
    pure .ok
  | .init g blobs count => onGraph g fun graph => AieGraph.init (pointers g) graph blobs count
  | .transfer g kind name data len => onGraph g fun graph => AieGraph.transfer (pointers g) graph kind name data len
  | .gmioWait g gmioName syncmode => onGraph g fun graph => AieGraph.gmioWait (pointers g) graph gmioName syncmode
  | .portTransfer p kind data len => portTransfer mgr p kind data len
  | .portWait p syncmode => portWait p syncmode

@[irreducible] def portsCalls (mgr : ConfigManager) (ops : List PortsOp) : PortsProgram (List AegErr) :=
  Program.runAll (portsMethod mgr) ops

end AieBaremetal.Ports
