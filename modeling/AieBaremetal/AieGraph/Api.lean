import AieBaremetal.Cdo.Parser
import AieBaremetal.Common.Subprogram
import AieBaremetal.Gmio.Api

/-!
# The graph object of the application

`AIEGraph` with the calls that bring a graph up and move data: `init`, `load_cdo` and the GMIO
transfers. The backend is what the constructor made: the device instance, the GMIOs in the order of
the map, and which helper objects exist. Left out are the simulator build, the configuration of
other objects, which calls no driver, up to its failures, cache maintenance and messages. The device
address of the caller's data is an argument; a register read is answered with the low word of a value.

The methods are written once, over a site that says where the fields of the object are and how it
reaches its GMIO objects. Here the object has them to itself.
-/

namespace AieBaremetal.AieGraph

open Common AieBaremetal.Runtime Gmio
open Cdo (AegErr DevInst RegAccess WordMemory)

/-- A CDO blob: the words behind its pointer and its length. -/
structure CdoBlob where
  data : Option WordMemory
  len : ℕ

/-- The data of a transfer: its device address, if there is one. -/
structure TransferData where
  devAddr : Option (BitVec 64)
  deriving DecidableEq, Repr

/-- The direction of a transfer and whether it waits. -/
inductive TransferKind where
  | aie2gmNb
  | gm2aieNb
  | aie2gm
  | gm2aie
  deriving DecidableEq, Repr

inductive AieGraphOp where
  | init (blobs : Option (List CdoBlob)) (count : ℕ)
  | loadCdo (addr : Option WordMemory) (len : ℕ)
  | transfer (kind : TransferKind) (name : Option String) (data : Option TransferData) (len : BitVec 32)
  | gmioWait (gmioName : String) (syncmode : Bool)

/-- An entry of a trace; the end of a call comes with the flag it leaves. -/
inductive AieGraphEvent where
  | enter (op : AieGraphOp)
  | cdo (access : RegAccess)
  | driver (call : DriverCall) (answer : DriverAnswer)
  | leave (code : AegErr) (isInitialized : Bool)

/-- What the constructor made. -/
structure Backend where
  devInst : DevInst
  isReady : Bool
  aieBase : BitVec 64
  mgr : ConfigManager
  hasXaiemem : Bool
  hasGraphApi : Bool
  gmioconfigs : List (String × GmioConfig)

structure GmioApiImpl where
  gmioconfig : GmioConfig
  gmioApi : GmioState
  deriving DecidableEq, Repr

/-- The fields of an `AIEGraph` object, over what its map holds. -/
structure GraphFields (Impl : Type) where
  isInitialized : Bool
  gmioApiImpls : List (String × Impl)
  deriving DecidableEq, Repr

def GraphFields.fresh {Impl : Type} : GraphFields Impl where
  isInitialized := false
  gmioApiImpls := []

/-- Remember a GMIO under its name. -/
def GraphFields.store {Impl : Type} (name : String) (impl : Impl) (s : GraphFields Impl) : GraphFields Impl :=
  { s with gmioApiImpls := (name, impl) :: s.gmioApiImpls.filter fun item => item.1 ≠ name }

/-- Where methods run: the fields of the object, the record of a register access, the making and the calling of
GMIO objects. -/
structure Site (Ev S Impl : Type) where
  fields : S → GraphFields Impl
  change : (GraphFields Impl → GraphFields Impl) → S → S
  cdo : RegAccess → Ev
  configure : GmioConfig → Program Ev DriverAnswer S (ErrCode × Impl)
  call : String → Impl → (GmioApiImpl → GmioProgram ErrCode) → Program Ev DriverAnswer S ErrCode

/-- Runtime codes as codes of the application API. -/
def errFromAbr : ErrCode → AegErr
  | .ok => .ok
  | .userError => .userError
  | .internalError => .internalError
  | .aieDriverError => .aieDriverError
  | .resourceUnavailable => .resourceUnavailable

/-- Errors stay errors. -/
theorem errFromAbr_eq_ok_iff {code : ErrCode} : errFromAbr code = .ok ↔ code = .ok := by
  cases code <;> simp [errFromAbr]

/-- The non-blocking part of a transfer. Towards the array the code of `enqueueBD` is dropped. -/
def transferNb (mgr : ConfigManager) (impl : GmioApiImpl) (kind : TransferKind) (data : TransferData)
    (len : BitVec 32) : GmioProgram ErrCode :=
  match data.devAddr with
  | none => pure .aieDriverError
  | some phyData => do
    let code ← Gmio.enqueueBD (some impl.gmioconfig) mgr phyData (len.signExtend 64)
    match kind with
    | .gm2aieNb | .gm2aie => pure .ok
    | .aie2gmNb | .aie2gm => pure code

/-- A transfer; the blocking ones wait if it was started. -/
def transferOn (mgr : ConfigManager) (impl : GmioApiImpl) (kind : TransferKind) (data : TransferData)
    (len : BitVec 32) : GmioProgram ErrCode := do
  let status ← transferNb mgr impl kind data len
  match kind with
  | .aie2gmNb | .gm2aieNb => pure status
  | .aie2gm | .gm2aie =>
    if status = .ok then do
      let _ ← Gmio.wait (some impl.gmioconfig) true
      pure status
    else pure status

section Methods

variable {Ev S Impl : Type} (site : Site Ev S Impl) (graph : Option Backend)

/-- `load_cdo()`, which does not ask for the flag. -/
def loadCdo (addr : Option WordMemory) (len : ℕ) : Program Ev DriverAnswer S AegErr :=
  match addr with
  | none => pure .backendNotReady
  | some data =>
    if len = 0 then pure .invalidLength
    else
      match graph with
      | none => pure .backendNotReady
      | some backend =>
        if backend.isReady = false then pure .backendNotReady
        else do
          let (code, _) ← Program.runIn (fun access => [site.cdo access])
            (fun answer => answer.value.setWidth 32) ()
            (Cdo.load (some data) len (some backend.devInst) backend.aieBase)
          pure code

/-- The remaining turns of the loop over the blobs. -/
def applyBlobs (blobs : List CdoBlob) : ℕ → ℕ → Program Ev DriverAnswer S AegErr
  | 0, _ => pure .ok
  | turns + 1, i => do
    let blob ← Program.ofOption blobs[i]?
    match blob.data with
    | none => pure .nullArgument
    | some data =>
      if blob.len = 0 then pure .invalidLength
      else do
        let cdoStatus ← loadCdo site graph (some data) blob.len
        if cdoStatus ≠ .ok then pure cdoStatus else applyBlobs blobs turns (i + 1)

/-- The remaining turns of the loop over the GMIOs. -/
def configureGmioList : List (String × GmioConfig) → Program Ev DriverAnswer S AegErr
  | [] => pure .ok
  | (name, gmioconfig) :: rest => do
    let (code, impl) ← site.configure gmioconfig
    if errFromAbr code ≠ .ok then pure (errFromAbr code)
    else do
      Program.modifyState (site.change (.store name impl))
      configureGmioList rest

def configureGmios (backend : Backend) : Program Ev DriverAnswer S AegErr :=
  if backend.hasXaiemem = false then pure .nullArgument else configureGmioList site backend.gmioconfigs

/-- `AIEGraphSim::init()`. Failures of parameters are forgotten. -/
def initBackend (backend : Backend) : Program Ev DriverAnswer S AegErr :=
  -- ConfigureExternalBuffers: null_argument is turned into backend_not_ready
  if backend.hasXaiemem = false then pure .backendNotReady
  else do
    let status ← configureGmios site backend
    if status ≠ .ok then
      if status = .nullArgument ∨ status = .aieDriverError ∨ status = .internalError then pure .backendNotReady
      else pure status
    else if backend.hasGraphApi = false then pure .backendNotReady
    else pure .ok

/-- `init()`: CDO blobs, then GMIOs, then the flag. -/
def init (blobs : Option (List CdoBlob)) (count : ℕ) : Program Ev DriverAnswer S AegErr :=
  match graph with
  | none => pure .backendNotReady
  | some backend =>
    if blobs.isNone ∧ count ≠ 0 then pure .nullArgument
    else do
      let cdoStatus ← applyBlobs site graph (blobs.getD []) count 0
      if cdoStatus ≠ .ok then pure cdoStatus
      else do
        let status ← initBackend site backend
        if status ≠ .ok then pure status
        else do
          Program.modifyState (site.change fun s => { s with isInitialized := true })
          pure .ok

/-- Find a configured GMIO and call it. -/
def onImpl (name : String) (method : GmioApiImpl → GmioProgram ErrCode) : Program Ev DriverAnswer S AegErr := do
  let s ← Program.getState
  match (site.fields s).gmioApiImpls.lookup name with
  | none => pure .backendNotReady
  | some impl => do
    let code ← site.call name impl method
    pure (errFromAbr code)

def transfer (kind : TransferKind) (name : Option String) (data : Option TransferData) (len : BitVec 32) :
    Program Ev DriverAnswer S AegErr := do
  let s ← Program.getState
  if (site.fields s).isInitialized = false then pure .invalidState
  else
    match name, data with
    | none, _ => pure .invalidName
    | some "", _ => pure .invalidName
    | some _, none => pure .nullArgument
    | some name, some data =>
      if len.toInt ≤ 0 then pure .invalidLength
      else do
        let backend ← Program.ofOption graph
        onImpl site name fun impl => transferOn backend.mgr impl kind data len

def gmioWait (gmioName : String) (syncmode : Bool) : Program Ev DriverAnswer S AegErr := do
  let s ← Program.getState
  if (site.fields s).isInitialized = false then pure .invalidState
  else if gmioName = "" then pure .invalidName
  else do
    let _ ← Program.ofOption graph
    onImpl site gmioName fun impl => Gmio.wait (some impl.gmioconfig) syncmode

end Methods

/-- The state of an object with GMIO objects of its own. -/
abbrev AieGraphState := GraphFields GmioApiImpl

abbrev AieGraphProgram := Program AieGraphEvent DriverAnswer AieGraphState

abbrev AieGraphWorld := World AieGraphEvent DriverAnswer AieGraphState

def gmioEvent : Event GmioOp → List AieGraphEvent
  | .driver call answer => [.driver call answer]
  | _ => []

def callGmio {A : Type} (gmioApi : GmioState) (method : GmioProgram A) : AieGraphProgram (A × GmioState) :=
  Program.runIn gmioEvent id gmioApi method

def ownGmios : Site AieGraphEvent AieGraphState GmioApiImpl where
  fields := id
  change := id
  cdo := .cdo
  configure gmioconfig := do
    let (code, gmioApi) ← callGmio .fresh (Gmio.configure (some gmioconfig))
    pure (code, { gmioconfig, gmioApi })
  call name impl method := do
    let (code, gmioApi) ← callGmio impl.gmioApi (method impl)
    Program.modifyState (.store name { impl with gmioApi })
    pure code

def aieGraphMethod (graph : Option Backend) : AieGraphOp → AieGraphProgram AegErr
  | .init blobs count => init ownGmios graph blobs count
  | .loadCdo addr len => loadCdo ownGmios graph addr len
  | .transfer kind name data len => transfer ownGmios graph kind name data len
  | .gmioWait gmioName syncmode => gmioWait ownGmios graph gmioName syncmode

def aieGraphCall (graph : Option Backend) (op : AieGraphOp) : AieGraphProgram AegErr := do
  Program.tell (.enter op)
  let code ← aieGraphMethod graph op
  let s ← Program.getState
  Program.tell (.leave code s.isInitialized)
  pure code

/-- A sequence of calls, kept folded when closed runs are evaluated. -/
@[irreducible] def aieGraphCalls (graph : Option Backend) (ops : List AieGraphOp) : AieGraphProgram (List AegErr) :=
  Program.runAll (aieGraphCall graph) ops

def sampleGmio : GmioConfig := { type := .gm2aie, shimColumn := 2, channelNum := 2, burstLength := 16 }

def sampleBackend : Backend where
  devInst := ⟨0⟩
  isReady := true
  aieBase := 0
  mgr := { devGen := xaieDevGenAieml, numReservedRows := 0, broadcastEnableCore := false }
  hasXaiemem := true
  hasGraphApi := true
  gmioconfigs := [("in0", sampleGmio)]

def sampleCdoWords : List (BitVec 32) :=
  [4#32, Cdo.kCdoHdrIdnWrd, 0x200#32, 3#32, 0xFFB0B9B5#32, 0x00020003#32, 0x10#32, 7#32]

def sampleBlob : CdoBlob where
  data := some fun i => sampleCdoWords[i]?
  len := 32

/-- A driver that succeeds, with queues of four descriptors. -/
def sampleAnswers : List DriverAnswer := List.replicate 20 { rc := xaieOk, value := 4, bytes := [], progress := 0 }

end AieBaremetal.AieGraph
