import AieBaremetal.AieGraph.Api
import AieBaremetal.Graph.Rtp
import AieBaremetal.Graph.SharedBuffer
import AieBaremetal.Profiling.Api

/-!
# Several graphs in one process

A process builds `AIEGraph` objects, each with a device instance of its own, and calls their methods, one
after another. Below the objects are statics of the process: `config_manager` keeps the first device
instance it is given, `fal_util` makes a new FAL device for every one, and one set keeps the shared
buffers that were updated. The methods are those of the component models; every call is recorded with its
graph and its device.

The constructor, the CDO loader and the memory object `xaiemem`, whose calls are left out, use the graph's
own instance. A null pointer is the address 0, and a call through it is one on that address.
-/

namespace AieBaremetal.Process

open Common AieBaremetal.Runtime AieBaremetal.Graph AieGraph Profiling
open Cdo (RegAccess)
open Gmio (GmioConfig)

def nullDevInst : DevInst := { address := 0#64 }

/-- A graph's device instance and configuration. -/
structure GraphDescription where
  devInst : DevInst
  devInst_ne_null : devInst ≠ nullDevInst
  cdoDevInst : Cdo.DevInst
  aieBase : BitVec 64
  devGen : BitVec 8
  memNumRows : BitVec 64
  broadcastEnableCore : Bool
  pGraphConfig : Option GraphConfig
  gmioconfigs : List (String × GmioConfig)
  rtpconfigs : List (String × RtpConfig)
  sharedbufferconfigs : List (String × SharedBufferConfig)
  parser : ConfigureParser

/-- A graph object; `isReady` after its constructor. -/
structure GraphObject where
  description : GraphDescription
  isReady : Bool
  hasGraphApi : Bool
  graphApi : GraphState
  aieGraph : AieGraphState
  eventRecords : List EventRecord

/-- The statics, the FAL resources, and the graphs as constructed. -/
structure ProcessState where
  pDevInst : DevInst
  isInitialized : Bool
  mgr : ConfigManager
  pXAieDev : DevInst
  created : ℕ
  reserved : Finset Resource
  readOnlySharedBufferInitialized : List (BitVec 32)
  graphs : List GraphObject

/-- Before the first graph is built. -/
def ProcessState.fresh : ProcessState where
  pDevInst := nullDevInst
  isInitialized := false
  mgr := { devGen := 0#8, numReservedRows := 0#64, broadcastEnableCore := false }
  pXAieDev := nullDevInst
  created := 0
  reserved := ∅
  readOnlySharedBufferInitialized := []
  graphs := []

/-- The calls of a process below the graph objects. -/
inductive ProcessCall where
  | setupPartitionConfig
  | cfgInitialize
  | cdo (access : RegAccess)
  | runtime (call : DriverCall)
  | profile (call : ProfileCall)
  | fal (call : FalCall)

/-- The call names `config_manager::s_pDevInst`. -/
def ProcessCall.viaManager : ProcessCall → Bool
  | .runtime _ | .profile _ => true
  | _ => false

/-- A call, the number of the graph it was made for, and its device. -/
structure ProcessEvent where
  graph : ℕ
  dev : DevInst
  call : ProcessCall

structure ProcessAnswer where
  driver : DriverAnswer
  profiling : Answer
  deriving DecidableEq, Repr

abbrev ProcessProgram := Program ProcessEvent ProcessAnswer ProcessState

abbrev ProcessWorld := World ProcessEvent ProcessAnswer ProcessState

def runtimeEvent {Op : Type} (i : ℕ) (dev : DevInst) : Event Op → List ProcessEvent
  | .driver call _ => [{ graph := i, dev, call := .runtime call }]
  | _ => []

/-- The calls of the application API; the CDO loader has the graph's own device. -/
def aieGraphProcessEvent (i : ℕ) (dev own : DevInst) : AieGraphEvent → List ProcessEvent
  | .driver call _ => [{ graph := i, dev, call := .runtime call }]
  | .cdo access => [{ graph := i, dev := own, call := .cdo access }]
  | _ => []

def profilingProcessEvent (i : ℕ) : ProfilingEvent → List ProcessEvent
  | .fal call _ => [{ graph := i, dev := call.resource.dev, call := .fal call }]
  | .driver dev call _ => [{ graph := i, dev, call := .profile call }]

/-- `fal_util::initialize` keeps the last device. -/
def falUtilInitialize (devInst : DevInst) (s : ProcessState) : ProcessState :=
  if devInst = nullDevInst then s else { s with pXAieDev := devInst }

/-- `config_manager::initialize` keeps the first device. -/
def configManagerInitialize (d : GraphDescription) (s : ProcessState) : ProcessState :=
  if s.isInitialized then s
  else if d.devInst = nullDevInst then s
  else
    { s with
      pDevInst := d.devInst
      isInitialized := true
      mgr := { devGen := d.devGen, numReservedRows := d.memNumRows, broadcastEnableCore := d.broadcastEnableCore } }

/-- The object of a constructor that returned early. -/
def GraphObject.unready (d : GraphDescription) (hasGraphApi : Bool) : GraphObject where
  description := d
  isReady := false
  hasGraphApi := hasGraphApi
  graphApi := GraphState.fresh
  aieGraph := .fresh
  eventRecords := []

def pushGraph (o : GraphObject) :
    ProcessProgram Unit := Program.modifyState fun s => { s with graphs := s.graphs ++ [o] }

/-- The constructor: set the device up, give it to both statics and configure. -/
def build (d : GraphDescription) : ProcessProgram Unit := do
  let s ← Program.getState
  let i := s.graphs.length
  match d.pGraphConfig with
  | none => pushGraph (.unready d false)
  | some _ => do
    let setup ← Program.ask fun _ => { graph := i, dev := d.devInst, call := .setupPartitionConfig }
    if setup.driver.rc ≠ xaieOk then pushGraph (.unready d true)
    else do
      let config ← Program.ask fun _ => { graph := i, dev := d.devInst, call := .cfgInitialize }
      if config.driver.rc ≠ xaieOk then pushGraph (.unready d true)
      else do
        Program.modifyState (falUtilInitialize d.devInst)
        Program.modifyState (configManagerInitialize d)
        let s ← Program.getState
        let (_, graphApi) ← Program.runIn (@runtimeEvent ControlOp i s.pDevInst)
          ProcessAnswer.driver GraphState.fresh
          (Graph.configure d.pGraphConfig s.mgr)
        pushGraph { GraphObject.unready d true with isReady := true, graphApi }

inductive GraphOp where
  | control (op : ControlOp)
  | update (portName : String) (pValue : List UInt8) (numBytes : BitVec 64)
  | read (portName : String) (len : BitVec 32)
  | gmio (op : AieGraphOp)
  | profiling (op : ProfilingOp)

/-- Put a changed object back. -/
def storeGraph (i : ℕ) (o : GraphObject) : ProcessProgram Unit :=
  Program.modifyState fun s => { s with graphs := s.graphs.set i o }

/-- Call a method of the graph's `graph_api` object. -/
def callGraphApi {A : Type} (i : ℕ) (o : GraphObject) (method : ConfigManager → GraphProgram ControlOp A) :
    ProcessProgram Unit := do
  let s ← Program.getState
  if o.aieGraph.isInitialized = false ∨ o.hasGraphApi = false then pure ()
  else do
    let (_, graphApi) ← Program.runIn (runtimeEvent i s.pDevInst) ProcessAnswer.driver o.graphApi (method s.mgr)
    storeGraph i { o with graphApi }

/-- Update a shared buffer; those updated are remembered for the process. -/
def callSharedBuffer (i : ℕ) (o : GraphObject) (buffer : SharedBufferConfig) (pValue : List UInt8)
    (numBytes : BitVec 64) : ProcessProgram Unit := do
  let s ← Program.getState
  if o.aieGraph.isInitialized = false ∨ o.hasGraphApi = false then pure ()
  else do
    let (_, readOnlySharedBufferInitialized) ← Program.runIn
      (@runtimeEvent ControlOp i s.pDevInst) ProcessAnswer.driver
      s.readOnlySharedBufferInitialized
        (updateSharedBuffer o.description.pGraphConfig (some buffer) pValue numBytes)
    Program.modifyState fun s => { s with readOnlySharedBufferInitialized }

/-- `update()`: a shared buffer, or else a run-time parameter. -/
def callUpdate (i : ℕ) (o : GraphObject) (portName : String) (pValue : List UInt8) (numBytes : BitVec 64) :
    ProcessProgram Unit :=
  if portName = "" ∨ numBytes = 0#64 then pure ()
  else
    match o.description.sharedbufferconfigs.lookup portName with
    | some buffer => callSharedBuffer i o buffer pValue numBytes
    | none =>
      match o.description.rtpconfigs.lookup portName with
      | some rtp => callGraphApi i o fun mgr =>
        Graph.update o.description.pGraphConfig mgr (some rtp) pValue numBytes
      | none => pure ()

/-- `read()` of a run-time parameter; its length is an `int32_t`. -/
def callRead (i : ℕ) (o : GraphObject) (portName : String) (len : BitVec 32) : ProcessProgram Unit :=
  if portName = "" ∨ len.toInt ≤ 0 then pure ()
  else
    match o.description.rtpconfigs.lookup portName with
    | some rtp => callGraphApi i o fun mgr =>
      Graph.read o.description.pGraphConfig mgr (some rtp) (len.signExtend 64)
    | none => pure ()

/-- The control methods; a run of no iteration is refused. -/
def callControl (i : ℕ) (o : GraphObject) (op : ControlOp) : ProcessProgram Unit :=
  match op with
  | .runIter num =>
    if num = 0#32 ∨ num.toInt < -1 then pure ()
    else callGraphApi i o fun mgr => controlMethod o.description.pGraphConfig mgr op
  | _ => callGraphApi i o fun mgr => controlMethod o.description.pGraphConfig mgr op

/-- The backend of a graph object, with the statics of `config_manager`. -/
def GraphObject.backend (o : GraphObject) (mgr : ConfigManager) : Backend where
  devInst := o.description.cdoDevInst
  isReady := o.isReady
  aieBase := o.description.aieBase
  mgr := mgr
  hasXaiemem := true
  hasGraphApi := o.hasGraphApi
  gmioconfigs := o.description.gmioconfigs

/-- `init()`, the CDO loader and the GMIO transfers. -/
def callAieGraph (i : ℕ) (o : GraphObject) (op : AieGraphOp) : ProcessProgram Unit := do
  let s ← Program.getState
  let (_, aieGraph) ← Program.runIn (aieGraphProcessEvent i s.pDevInst o.description.devInst)
    ProcessAnswer.driver o.aieGraph
    (aieGraphMethod (some (o.backend s.mgr)) op)
  storeGraph i { o with aieGraph }

def isValidProfilingOption (option : BitVec 32) : Bool :=
  ioTotalStreamRunningToIdleCycles.sle option && option.sle ioStreamRunningEventCount

/-- The arguments that the application API lets through to profiling. -/
def validProfiling : ProfilingOp → Bool
  | .start portName option _ => portName ≠ "" && isValidProfilingOption option
  | .startTwo portName1 portName2 option _ => portName1 ≠ "" && portName2 ≠ "" && isValidProfilingOption option
  | .read h | .stop h => !h.slt 0#32

/-- Profiling, with the resources of the process and the records of the graph. -/
def callProfiling (i : ℕ) (o : GraphObject) (op : ProfilingOp) : ProcessProgram Unit := do
  let s ← Program.getState
  if o.aieGraph.isInitialized = false ∨ validProfiling op = false ∨ o.hasGraphApi = false then pure ()
  else do
    let (_, profiled) ← Program.runIn (profilingProcessEvent i) ProcessAnswer.profiling
      { devInst := s.pDevInst, xaieDev := s.pXAieDev, created := s.created, reserved := s.reserved,
        eventRecords := o.eventRecords }
      (profilingMethod o.description.parser op)
    Program.modifyState fun s => { s with created := profiled.created, reserved := profiled.reserved }
    storeGraph i { o with eventRecords := profiled.eventRecords }

def callGraph (i : ℕ) (o : GraphObject) : GraphOp → ProcessProgram Unit
  | .control op => callControl i o op
  | .update portName pValue numBytes => callUpdate i o portName pValue numBytes
  | .read portName len => callRead i o portName len
  | .gmio op => callAieGraph i o op
  | .profiling op => callProfiling i o op

/-- Build a graph, or call a method of one. -/
inductive ProcessOp where
  | build (d : GraphDescription)
  | call (i : ℕ) (op : GraphOp)

def processMethod : ProcessOp → ProcessProgram Unit
  | .build d => build d
  | .call i op => do
    let s ← Program.getState
    match s.graphs[i]? with
    | some o => callGraph i o op
    | none => pure ()

end AieBaremetal.Process
