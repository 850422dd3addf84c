import Mathlib.Data.Finset.Basic
import AieBaremetal.Gmio.Api

/-!
# Profiling of shim streams

`fal_util`, the functions of `profiling` and the records of `event` above them. A session reserves stream
switch ports, performance counters and sometimes a broadcast channel through the resource layer of the
driver (FAL), configures them with driver calls, and keeps them under a handle.

Driver calls name `config_manager::s_pDevInst`, resource objects belong to the device of
`fal_util::s_pXAieDev` when they were made. A resource is reserved from a successful `reserve()` until
`release()`, whatever that answers. Event tables are left symbolic: `portRunning i` is entry `i` of
`COMMON_XAIETILE_EVENT_SHIM_PORT_RUNNING`.
-/

namespace AieBaremetal.Profiling

open Common AieBaremetal.Runtime Gmio

/-- A device instance, known by the address of its `XAie_DevInst`. -/
structure DevInst where
  address : BitVec 64
  deriving DecidableEq, Repr

inductive ResourceKind where
  | streamPortSelect
  | perfCounter
  | pcEvent
  | broadcast
  deriving DecidableEq, Repr

/-- A FAL resource object, told apart by `id` as by its address. -/
structure Resource where
  id : ℕ
  kind : ResourceKind
  dev : DevInst
  locs : List TileLoc
  deriving DecidableEq, Repr

inductive Module where
  | mem
  | core
  | pl
  deriving DecidableEq, Repr

/-- Methods of a FAL resource object. -/
inductive FalCall where
  | reserve (rsc : Resource)
  | getRscId (rsc : Resource)
  | getBc (rsc : Resource)
  | getChannel (rsc : Resource)
  | release (rsc : Resource)
  deriving DecidableEq, Repr

def FalCall.resource : FalCall → Resource
  | .reserve rsc | .getRscId rsc | .getBc rsc | .getChannel rsc | .release rsc => rsc

/-- Side of a stream switch port. -/
inductive StrmPortIntf where
  | slave
  | master
  deriving DecidableEq, Repr

/-- Events of the shim tile that profiling uses. -/
inductive PlEvent where
  | portRunning (i : ℕ)
  | portIdle (i : ℕ)
  | broadcastA (i : ℕ)
  | perfCnt1
  | userEvent0
  deriving DecidableEq, Repr

inductive BroadcastSwitch where
  | a
  | b
  deriving DecidableEq, Repr

inductive BroadcastDir where
  | south
  | west
  | north
  | east
  deriving DecidableEq, Repr

inductive ProfileCall where
  | eventSelectStrmPort (loc : TileLoc) (selectId : BitVec 8) (portIntf : StrmPortIntf) (portNum : BitVec 8)
  | perfCounterControlSet (loc : TileLoc) (counter : BitVec 8) (startEvent stopEvent : PlEvent)
  | perfCounterEventValueSet (loc : TileLoc) (counter : BitVec 8) (value : BitVec 32)
  | eventGenerate (loc : TileLoc) (event : PlEvent)
  | eventBroadcastBlockMapDir (loc : TileLoc) (switch : BroadcastSwitch) (channelBitMap : BitVec 32)
      (dirs : List BroadcastDir)
  | eventBroadcast (loc : TileLoc) (broadcastId : BitVec 8) (event : PlEvent)
  | perfCounterGet (loc : TileLoc) (mod : Module) (counter : BitVec 8)
  | perfCounterReset (loc : TileLoc) (mod : Module) (counter : BitVec 8)
  | perfCounterResetControlReset (loc : TileLoc) (mod : Module) (counter : BitVec 8)
  | eventSelectStrmPortReset (loc : TileLoc) (selectId : BitVec 8)
  | eventPCReset (loc : TileLoc) (pcEventId : BitVec 8)
  | eventBroadcastReset (loc : TileLoc) (broadcastId : BitVec 8)
  | eventBroadcastUnblockDir (loc : TileLoc) (switch : BroadcastSwitch) (broadcastId : BitVec 8)
      (dirs : List BroadcastDir)
  deriving DecidableEq, Repr

/-- A return code, an id or a value, and the place of a resource. -/
structure Answer where
  rc : BitVec 32
  value : BitVec 32
  loc : TileLoc
  mod : Module
  tileLocs : List TileLoc
  endMod : Module
  deriving DecidableEq, Repr

/-- A call of the FAL, or a driver call with its device. -/
inductive ProfilingEvent where
  | fal (call : FalCall) (answer : Answer)
  | driver (dev : DevInst) (call : ProfileCall) (answer : Answer)
  deriving DecidableEq, Repr

structure EventRecord where
  option : BitVec 32
  acquiredResources : List Resource
  deriving DecidableEq, Repr

/-- The two statics, the resource objects, and the records of an `event` object. -/
structure ProfilingState where
  devInst : DevInst
  xaieDev : DevInst
  created : ℕ
  reserved : Finset Resource
  eventRecords : List EventRecord

/-- After construction nothing is reserved or recorded. -/
def ProfilingState.fresh (devInst xaieDev : DevInst) : ProfilingState where
  devInst := devInst
  xaieDev := xaieDev
  created := 0
  reserved := ∅
  eventRecords := []

abbrev ProfilingWorld := World ProfilingEvent Answer ProfilingState

abbrev ProfilingProgram := Program ProfilingEvent Answer ProfilingState

def fal (call : FalCall) : ProfilingProgram Answer := Program.ask (.fal call)

/-- Call the driver on `config_manager::s_pDevInst`. -/
def xaie (call : ProfileCall) : ProfilingProgram Answer := do
  let s ← Program.getState
  Program.ask (.driver s.devInst call)

/-- Driver calls one after another, with their codes joined. -/
def accumulateStatus (driverStatus : BitVec 32) : List ProfileCall → ProfilingProgram (BitVec 32)
  | [] => pure driverStatus
  | call :: rest => do
    let answer ← xaie call
    accumulateStatus (driverStatus ||| answer.rc) rest

/-- A factory method of `fal_util::s_pXAieDev` makes a new resource object. -/
def newResource (kind : ResourceKind) (locs : List TileLoc) : ProfilingProgram Resource := do
  let s ← Program.getState
  Program.modifyState fun s => { s with created := s.created + 1 }
  pure { id := s.created, kind, dev := s.xaieDev, locs }

/-- `reserve()` reserves the resource when it succeeds. -/
def reserve (rsc : Resource) : ProfilingProgram (BitVec 32) := do
  let answer ← fal (.reserve rsc)
  if answer.rc = xaieOk then do
    Program.modifyState fun s => { s with reserved := insert rsc s.reserved }
    pure answer.rc
  else pure answer.rc

/-- The id of a request that failed. -/
def noId : BitVec 32 := -1#32

def request (rsc : Resource) : ProfilingProgram (BitVec 32) := do
  let rc ← reserve rsc
  if rc = xaieOk then
    if rsc.kind = .broadcast then do
      let answer ← fal (.getBc rsc)
      pure answer.value
    else do
      let answer ← fal (.getRscId rsc)
      pure (if answer.rc = xaieOk then answer.value else noId)
  else pure noId

def release (rsc : Resource) : ProfilingProgram Bool := do
  let answer ← fal (.release rsc)
  Program.modifyState fun s => { s with reserved := s.reserved.erase rsc }
  pure (decide (answer.rc = xaieOk))

structure ShimConfig where
  shimColumn : BitVec 32
  streamPortId : BitVec 32
  slaveOrMaster : BitVec 8
  deriving DecidableEq, Repr

/-- The shim tile of a column, cast to eight bits. -/
def shimTile (column : BitVec 32) : TileLoc := xaieTileLoc (column.setWidth 8) 0#8

def invalidTileCoord : BitVec 8 := 0xFF#8

/-- The check in front of every profiling function. -/
def ShimConfig.invalid (shimConfig : ShimConfig) : Bool :=
  (shimTile shimConfig.shimColumn).row = invalidTileCoord ∨
  (shimTile shimConfig.shimColumn).col = invalidTileCoord ∨
    shimConfig.shimColumn.slt 0#32 ∨ shimConfig.streamPortId.slt 0#32

abbrev ProfileResult := ErrCode × List Resource

/-- Make and request a resource; without one the function returns. -/
def requested (kind : ResourceKind) (locs : List TileLoc)
    (next : Resource → BitVec 32 → ProfilingProgram ProfileResult) :
    ProfilingProgram ProfileResult := do
  let rsc ← newResource kind locs
  let id ← request rsc
  if id.slt 0#32 then pure (.resourceUnavailable, []) else next rsc id

/-- A stream switch event port on a shim tile. -/
def sswitchPort (loc : TileLoc) (next : Resource → BitVec 32 → ProfilingProgram ProfileResult) :
    ProfilingProgram ProfileResult := requested .streamPortSelect [loc] next

def perfCounter (loc : TileLoc) (next : Resource → BitVec 32 → ProfilingProgram ProfileResult) :
    ProfilingProgram ProfileResult := requested .perfCounter [loc] next

/-- The end of a profiling function: its driver calls and their code. -/
def configured (calls : List ProfileCall) (acquiredResources : List Resource) : ProfilingProgram ProfileResult := do
  let driverStatus ← accumulateStatus xaieOk calls
  pure (if driverStatus = xaieOk then .ok else .aieDriverError, acquiredResources)

/-- Watch the stream of a shim configuration with an event port. -/
def selectStrmPort (shimConfig : ShimConfig) (eventPortId : BitVec 32) : ProfileCall :=
  .eventSelectStrmPort (shimTile shimConfig.shimColumn) (eventPortId.setWidth 8)
    (if shimConfig.slaveOrMaster = 0#8 then .slave else .master) (shimConfig.streamPortId.setWidth 8)

def profileStreamRunningToIdleCycles (shimConfig : ShimConfig) : ProfilingProgram ProfileResult :=
  let tileLoc := shimTile shimConfig.shimColumn
  if shimConfig.invalid then pure (.internalError, [])
  else
    sswitchPort tileLoc fun pSSwitchPortRsc eventPortId =>
    perfCounter tileLoc fun pPerfCounterRsc counterId =>
    configured
      [selectStrmPort shimConfig eventPortId,
       .perfCounterControlSet tileLoc (counterId.setWidth 8) (.portRunning eventPortId.toNat)
         (.portIdle eventPortId.toNat)]
      [pPerfCounterRsc, pSSwitchPortRsc]

def profileStreamStartToTransferCompleteCycles (shimConfig : ShimConfig) (numBytes : BitVec 32) :
    ProfilingProgram ProfileResult :=
  let tileLoc := shimTile shimConfig.shimColumn
  if shimConfig.invalid then pure (.internalError, [])
  else
    sswitchPort tileLoc fun pSSwitchPortRsc eventPortId =>
    perfCounter tileLoc fun pPerfCounterRsc0 counterId0 =>
    perfCounter tileLoc fun pPerfCounterRsc1 counterId1 =>
    configured
      [selectStrmPort shimConfig eventPortId,
       .perfCounterEventValueSet tileLoc (counterId1.setWidth 8) (numBytes / 4#32),
       .perfCounterControlSet tileLoc (counterId0.setWidth 8) (.portRunning eventPortId.toNat) .perfCnt1,
       .perfCounterControlSet tileLoc (counterId1.setWidth 8) (.portRunning eventPortId.toNat)
        (.portRunning eventPortId.toNat)]
      [pPerfCounterRsc0, pPerfCounterRsc1, pSSwitchPortRsc]

def profileStreamRunningEventCount (shimConfig : ShimConfig) : ProfilingProgram ProfileResult :=
  let tileLoc := shimTile shimConfig.shimColumn
  if shimConfig.invalid then pure (.internalError, [])
  else
    sswitchPort tileLoc fun pSSwitchPortRsc eventPortId =>
    perfCounter tileLoc fun pPerfCounterRsc counterId =>
    configured
      [selectStrmPort shimConfig eventPortId,
       .perfCounterControlSet tileLoc (counterId.setWidth 8) (.portRunning eventPortId.toNat)
        (.portRunning eventPortId.toNat)]
      [pPerfCounterRsc, pSSwitchPortRsc]

def numBcastShimColumns (westShimColumn eastShimColumn : BitVec 32) :
    ℕ := (eastShimColumn - westShimColumn + 1#32).toNat

/-- Block a broadcast outside of the shim row between two columns. -/
def blockBroadcast (westShimColumn eastShimColumn broadcastId : BitVec 32) : List ProfileCall :=
  let bcastMask := ((1#32 <<< (broadcastId.setWidth 8).toNat).setWidth 16).setWidth 32
  let between := (List.range (numBcastShimColumns westShimColumn eastShimColumn - 2)).flatMap fun i =>
    let intermediateTileLoc := shimTile (westShimColumn + BitVec.ofNat 32 (i + 1))
    [.eventBroadcastBlockMapDir intermediateTileLoc .a bcastMask [.north, .south],
     .eventBroadcastBlockMapDir intermediateTileLoc .b bcastMask [.north, .south]]
  [.eventBroadcastBlockMapDir (shimTile westShimColumn) .a bcastMask [.west, .north, .south],
   .eventBroadcastBlockMapDir (shimTile westShimColumn) .b bcastMask [.north, .south]] ++ between ++
  [.eventBroadcastBlockMapDir (shimTile eastShimColumn) .a bcastMask [.east, .north, .south]]

def profileStartTimeDifferenceBtwTwoStreams (shimConfig1 shimConfig2 : ShimConfig) :
    ProfilingProgram ProfileResult :=
  let shimColumn1 := shimConfig1.shimColumn
  let shimColumn2 := shimConfig2.shimColumn
  let tileLoc1 := shimTile shimColumn1
  let tileLoc2 := shimTile shimColumn2
  if shimConfig1.invalid || shimConfig2.invalid then pure (.internalError, [])
  else
    sswitchPort tileLoc1 fun pSSwitchPortRsc1 eventPortId1 =>
    perfCounter tileLoc1 fun pPerfCounterRsc1 counterId1 =>
    sswitchPort tileLoc2 fun pSSwitchPortRsc2 eventPortId2 =>
    perfCounter tileLoc2 fun pPerfCounterRsc2 counterId2 =>
    if shimColumn1 = shimColumn2 then
      configured
        [selectStrmPort shimConfig1 eventPortId1,
         .perfCounterControlSet tileLoc1 (counterId1.setWidth 8) .userEvent0 (.portRunning eventPortId1.toNat),
         selectStrmPort shimConfig2 eventPortId2,
         .perfCounterControlSet tileLoc2 (counterId2.setWidth 8) .userEvent0 (.portRunning eventPortId2.toNat),
         .eventGenerate tileLoc1 .userEvent0]
        [pPerfCounterRsc1, pPerfCounterRsc2, pSSwitchPortRsc1, pSSwitchPortRsc2]
    else do
      let westShimColumn := if shimColumn1.slt shimColumn2 then shimColumn1 else shimColumn2
      let eastShimColumn := if shimColumn1.slt shimColumn2 then shimColumn2 else shimColumn1
      let vLocs := (List.range (numBcastShimColumns westShimColumn eastShimColumn)).map fun i =>
        shimTile (shimColumn1 + BitVec.ofNat 32 i)
      let pBroadcastRsc ← newResource .broadcast vLocs
      let broadcastId ← request pBroadcastRsc
      if broadcastId.slt 0#32 then do
        let _ ← release pPerfCounterRsc1
        let _ ← release pSSwitchPortRsc1
        let _ ← release pPerfCounterRsc2
        let _ ← release pSSwitchPortRsc2
        pure (.resourceUnavailable, [])
      else
        configured
          ([selectStrmPort shimConfig1 eventPortId1,
            .perfCounterControlSet tileLoc1 (counterId1.setWidth 8) .userEvent0 (.portRunning eventPortId1.toNat),
            selectStrmPort shimConfig2 eventPortId2,
            .perfCounterControlSet tileLoc2 (counterId2.setWidth 8) (.broadcastA broadcastId.toNat)
              (.portRunning eventPortId2.toNat)] ++
           blockBroadcast westShimColumn eastShimColumn broadcastId ++
           [.eventBroadcast tileLoc1 (broadcastId.setWidth 8) .userEvent0, .eventGenerate tileLoc1 .userEvent0])
          [pPerfCounterRsc1, pPerfCounterRsc2, pSSwitchPortRsc1, pSSwitchPortRsc2, pBroadcastRsc]

/-- `profiling::read` for the option that takes two counters. -/
def readDifference (acquiredResources : List Resource) : ProfilingProgram (BitVec 64) := do
  let rsc1 ← Program.ofOption acquiredResources[0]?
  let rsc2 ← Program.ofOption acquiredResources[1]?
  if rsc1.kind = .perfCounter ∧ rsc2.kind = .perfCounter then do
    let place1 ← fal (.getRscId rsc1)
    let place2 ← fal (.getRscId rsc2)
    let value1 ← xaie (.perfCounterGet place1.loc place1.mod (place1.value.setWidth 8))
    let value2 ← xaie (.perfCounterGet place2.loc place2.mod (place2.value.setWidth 8))
    let value := value2.value.setWidth 64 - value1.value.setWidth 64
    let numBcastColumns : BitVec 64 :=
      if place1.loc.col.ult place2.loc.col then (place2.loc.col - place1.loc.col).setWidth 64
      else (place1.loc.col - place2.loc.col).setWidth 64
    pure (if place1.loc.col = place2.loc.col then value else value + (numBcastColumns * 2#64 + 2#64))
  else pure 0#64

def read (acquiredResources : List Resource) (startTimeDifference : Bool) : ProfilingProgram (BitVec 64) :=
  if startTimeDifference then readDifference acquiredResources
  else do
    let rsc ← Program.ofOption acquiredResources[0]?
    if rsc.kind = .perfCounter then do
      let place ← fal (.getRscId rsc)
      let value ← xaie (.perfCounterGet place.loc place.mod (place.value.setWidth 8))
      pure (value.value.setWidth 64)
    else pure 0#64

def xaieErr : BitVec 32 := 1#32

/-- Reset what a single tile resource was used for. -/
def resetCalls (kind : ResourceKind) (place : Answer) : List ProfileCall :=
  match kind with
  | .perfCounter =>
    [.perfCounterReset place.loc place.mod (place.value.setWidth 8),
     .perfCounterResetControlReset place.loc place.mod (place.value.setWidth 8)]
  | .streamPortSelect => [.eventSelectStrmPortReset place.loc (place.value.setWidth 8)]
  | .pcEvent => [.eventPCReset place.loc (place.value.setWidth 8)]
  | .broadcast => []

/-- The driver calls that undo `blockBroadcast`. -/
def unblockBroadcast (first last : TileLoc) (broadcastId : BitVec 8) : List ProfileCall :=
  let westShimColumn := if first.col.ult last.col then first.col else last.col
  let eastShimColumn := if first.col.ult last.col then last.col else first.col
  let between := (List.range ((eastShimColumn - westShimColumn).toNat - 1)).flatMap fun j =>
    let intermediateTileLoc := xaieTileLoc (westShimColumn + BitVec.ofNat 8 (j + 1)) 0#8
    [.eventBroadcastUnblockDir intermediateTileLoc .a broadcastId [.north, .south],
     .eventBroadcastUnblockDir intermediateTileLoc .b broadcastId [.north, .south]]
  [.eventBroadcastReset (xaieTileLoc first.col 0#8) broadcastId,
   .eventBroadcastUnblockDir (xaieTileLoc westShimColumn 0#8) .a broadcastId [.west, .north, .south],
   .eventBroadcastUnblockDir (xaieTileLoc westShimColumn 0#8) .b broadcastId [.north, .south]] ++ between ++
  [.eventBroadcastUnblockDir (xaieTileLoc eastShimColumn 0#8) .a broadcastId [.east, .north, .south]]

/-- A broadcast resource is reset only for the option that takes two counters. -/
def resetBroadcast (startTimeDifference : Bool) (rsc : Resource) (driverStatus : BitVec 32) :
    ProfilingProgram (BitVec 32) := do
  let bc ← fal (.getBc rsc)
  let channel ← fal (.getChannel rsc)
  if startTimeDifference ∧ channel.mod = .pl ∧ channel.endMod = .pl then do
    let first ← Program.ofOption channel.tileLocs.head?
    let last ← Program.ofOption channel.tileLocs.getLast?
    accumulateStatus driverStatus (unblockBroadcast first last (bc.value.setWidth 8))
  else pure driverStatus

/-- The loop of `profiling::stop`; an id is asked for in front of the check of the status. -/
def stopResources (startTimeDifference : Bool) : List Resource → BitVec 32 → ProfilingProgram ErrCode
  | [], driverStatus => pure (if driverStatus = xaieOk then .ok else .aieDriverError)
  | rsc :: rest, driverStatus =>
    if rsc.kind = .broadcast then do
      let driverStatus ← resetBroadcast startTimeDifference rsc driverStatus
      let released ← release rsc
      stopResources startTimeDifference rest (if released then driverStatus else xaieErr)
    else do
      let place ← fal (.getRscId rsc)
      if driverStatus ||| place.rc = xaieOk then do
        let driverStatus ← accumulateStatus (driverStatus ||| place.rc) (resetCalls rsc.kind place)
        let released ← release rsc
        stopResources startTimeDifference rest (if released then driverStatus else xaieErr)
      else pure .aieDriverError

def stop (acquiredResources : List Resource) (startTimeDifference : Bool) : ProfilingProgram ErrCode :=
  stopResources startTimeDifference acquiredResources xaieOk

/-- The fields of `gmio_config` that profiling reads. -/
structure GmioPort where
  type : GmioType
  shimColumn : BitVec 16
  streamId : BitVec 16
  deriving DecidableEq, Repr

/-- The fields of `plio_config` that profiling reads. -/
structure PlioPort where
  logicalName : String
  shimColumn : BitVec 16
  slaveOrMaster : BitVec 16
  streamId : BitVec 16
  deriving DecidableEq, Repr

/-- The maps in which profiling looks ports up. -/
structure ConfigureParser where
  gmioconfigs : List (String × GmioPort)
  plioconfigs : List (String × PlioPort)

/-- The shim configuration of no port at all. -/
def ShimConfig.null : ShimConfig := { shimColumn := -1#32, streamPortId := -1#32, slaveOrMaster := 0#8 }

def ShimConfig.ofGmio (pConfig : GmioPort) : ShimConfig where
  shimColumn := pConfig.shimColumn.signExtend 32
  streamPortId := pConfig.streamId.signExtend 32
  slaveOrMaster := if pConfig.type = .aie2gm then 1#8 else 0#8

def ShimConfig.ofPlio (pConfig : PlioPort) : ShimConfig where
  shimColumn := pConfig.shimColumn.signExtend 32
  streamPortId := pConfig.streamId.signExtend 32
  slaveOrMaster := pConfig.slaveOrMaster.setWidth 8

/-- `get_shim_config`: a GMIO, a PLIO, or a PLIO of that logical name. -/
def getShimConfig (cfg : ConfigureParser) (portName : String) : ShimConfig :=
  match cfg.gmioconfigs.lookup portName with
  | some gmio => ShimConfig.ofGmio gmio
  | none =>
    match cfg.plioconfigs.lookup portName with
    | some plio => ShimConfig.ofPlio plio
    | none =>
      match cfg.plioconfigs.find? fun entry => entry.2.logicalName = portName with
      | some entry => ShimConfig.ofPlio entry.2
      | none => ShimConfig.null

def ioTotalStreamRunningToIdleCycles : BitVec 32 := 0x20#32

def ioStreamStartToBytesTransferredCycles : BitVec 32 := 0x21#32

def ioStreamStartDifferenceCycles : BitVec 32 := 0x22#32

def ioStreamRunningEventCount : BitVec 32 := 0x23#32

def recorded (option : BitVec 32) (profile : ProfilingProgram ProfileResult) : ProfilingProgram (BitVec 32) := do
  let result ← profile
  if result.1 = .ok then do
    let s ← Program.getState
    Program.modifyState fun s =>
      { s with eventRecords := s.eventRecords ++ [{ option, acquiredResources := result.2 }] }
    pure (BitVec.ofNat 32 s.eventRecords.length)
  else pure noId

/-- `start_profiling` with two ports; an unknown option is answered with 0. -/
def startProfilingTwo (cfg : ConfigureParser) (portName1 portName2 : String) (option value : BitVec 32) :
    ProfilingProgram (BitVec 32) :=
  if option = ioTotalStreamRunningToIdleCycles then
    recorded option (profileStreamRunningToIdleCycles (getShimConfig cfg portName1))
  else if option = ioStreamStartToBytesTransferredCycles then
    recorded option (profileStreamStartToTransferCompleteCycles (getShimConfig cfg portName1) value)
  else if option = ioStreamStartDifferenceCycles then
    recorded option
      (profileStartTimeDifferenceBtwTwoStreams (getShimConfig cfg portName1) (getShimConfig cfg portName2))
  else if option = ioStreamRunningEventCount then
    recorded option (profileStreamRunningEventCount (getShimConfig cfg portName1))
  else pure 0#32

def startProfiling (cfg : ConfigureParser) (portName : String) (option value : BitVec 32) :
    ProfilingProgram (BitVec 32) :=
  if option = ioStreamStartDifferenceCycles then pure noId else startProfilingTwo cfg portName "" option value

/-- The record a handle selects; the handle is cast to `size_t`. -/
def recordOf (eventRecords : List EventRecord) (h : BitVec 32) : Option EventRecord :=
  eventRecords[(h.signExtend 64).toNat]?

def readProfiling (h : BitVec 32) : ProfilingProgram (BitVec 64) := do
  let s ← Program.getState
  match recordOf s.eventRecords h with
  | some record => read record.acquiredResources (record.option = ioStreamStartDifferenceCycles)
  | none => pure 0#64

/-- `stop_profiling`; the record stays, and `stop` never hears of the option with two counters. -/
def stopProfiling (h : BitVec 32) : ProfilingProgram Unit := do
  let s ← Program.getState
  match recordOf s.eventRecords h with
  | some record => do
    let _ ← stop record.acquiredResources false
    pure ()
  | none => pure ()

def validOption (option : BitVec 32) : Bool :=
  option = ioTotalStreamRunningToIdleCycles ∨ option = ioStreamStartToBytesTransferredCycles ∨
    option = ioStreamStartDifferenceCycles ∨ option = ioStreamRunningEventCount

/-- The methods of an `event` object. -/
inductive ProfilingOp where
  | start (portName : String) (option value : BitVec 32)
  | startTwo (portName1 portName2 : String) (option value : BitVec 32)
  | read (h : BitVec 32)
  | stop (h : BitVec 32)
  deriving DecidableEq, Repr

/-- Call a method; a start returns a handle. -/
def profilingMethod (cfg : ConfigureParser) : ProfilingOp → ProfilingProgram (Option (BitVec 32))
  | .start portName option value => some <$> startProfiling cfg portName option value
  | .startTwo portName1 portName2 option value => some <$> startProfilingTwo cfg portName1 portName2 option value
  | .read h => do
    let _ ← readProfiling h
    pure none
  | .stop h => do
    stopProfiling h
    pure none

section Rules

/-- The end of a start that needs a broadcast channel and releases what it holds without one. -/
def broadcastOrRelease (p₁ c₁ p₂ c₂ : Resource) (locs : List TileLoc) (calls : BitVec 32 → List ProfileCall) :
    ProfilingProgram ProfileResult := do
  let pBroadcastRsc ← newResource .broadcast locs
  let broadcastId ← request pBroadcastRsc
  if broadcastId.slt 0#32 then do
    let _ ← release c₁
    let _ ← release p₁
    let _ ← release c₂
    let _ ← release p₂
    pure (.resourceUnavailable, [])
  else configured (calls broadcastId) [c₁, c₂, p₁, p₂, pBroadcastRsc]

/-- A property of what is left of a start that holds some resources, from the parts of the profiling functions. -/
structure StartRules (P : List Resource → ProfilingProgram ProfileResult → Prop) : Prop where
  invalid : P [] (pure (.internalError, []))
  requested : ∀ {held kind locs next}, kind ≠ .broadcast → (∀ rsc id, P (held ++ [rsc]) (next rsc id)) →
    P held (requested kind locs next)
  configured : ∀ {held acquired} calls, held ≠ [] → acquired.Perm held → P held (configured calls acquired)
  broadcast : ∀ {p₁ c₁ p₂ c₂} locs calls, P [p₁, c₁, p₂, c₂] (broadcastOrRelease p₁ c₁ p₂ c₂ locs calls)

variable {P : List Resource → ProfilingProgram ProfileResult → Prop} (rules : StartRules P)

include rules

theorem StartRules.sswitchPort {held : List Resource} {loc : TileLoc}
    {next : Resource → BitVec 32 → ProfilingProgram ProfileResult}
    (hnext : ∀ rsc id, P (held ++ [rsc]) (next rsc id)) :
    P held (sswitchPort loc next) := rules.requested (by decide) hnext

theorem StartRules.perfCounter {held : List Resource} {loc : TileLoc}
    {next : Resource → BitVec 32 → ProfilingProgram ProfileResult}
    (hnext : ∀ rsc id, P (held ++ [rsc]) (next rsc id)) :
    P held (perfCounter loc next) := rules.requested (by decide) hnext

theorem StartRules.profileStreamRunningToIdleCycles (shimConfig : ShimConfig) :
    P [] (profileStreamRunningToIdleCycles shimConfig) := by
  unfold Profiling.profileStreamRunningToIdleCycles
  split
  · exact rules.invalid
  · refine rules.sswitchPort fun port _ => rules.perfCounter fun counter _ => ?_
    exact rules.configured _ (List.cons_ne_nil _ _) (List.Perm.swap port counter [])

theorem StartRules.profileStreamRunningEventCount (shimConfig : ShimConfig) :
    P [] (profileStreamRunningEventCount shimConfig) := by
  unfold Profiling.profileStreamRunningEventCount
  split
  · exact rules.invalid
  · refine rules.sswitchPort fun port _ => rules.perfCounter fun counter _ => ?_
    exact rules.configured _ (List.cons_ne_nil _ _) (List.Perm.swap port counter [])

theorem StartRules.profileStreamStartToTransferCompleteCycles (shimConfig : ShimConfig) (numBytes : BitVec 32) :
    P [] (profileStreamStartToTransferCompleteCycles shimConfig numBytes) := by
  unfold Profiling.profileStreamStartToTransferCompleteCycles
  split
  · exact rules.invalid
  · refine rules.sswitchPort fun port _ => rules.perfCounter fun counter₀ _ =>
      rules.perfCounter fun counter₁ _ => ?_
    exact rules.configured _ (List.cons_ne_nil _ _) (List.perm_append_singleton port [counter₀, counter₁])

omit rules in
/-- Two ports and two counters in the order of the requests and in the order of the record. -/
theorem perm_counters_ports (p₁ c₁ p₂ c₂ : Resource) (rest : List Resource) :
    (c₁ :: c₂ :: p₁ :: p₂ :: rest).Perm (p₁ :: c₁ :: p₂ :: c₂ :: rest) := by
  rw [List.perm_iff_count]
  intro rsc
  simp only [List.count_cons]
  omega

theorem StartRules.profileStartTimeDifferenceBtwTwoStreams (shimConfig1 shimConfig2 : ShimConfig) :
    P [] (profileStartTimeDifferenceBtwTwoStreams shimConfig1 shimConfig2) := by
  unfold Profiling.profileStartTimeDifferenceBtwTwoStreams
  split
  · exact rules.invalid
  · refine rules.sswitchPort fun p₁ _ => rules.perfCounter fun c₁ _ => ?_
    refine rules.sswitchPort fun p₂ _ => rules.perfCounter fun c₂ _ => ?_
    split
    · exact rules.configured _ (List.cons_ne_nil _ _) (perm_counters_ports p₁ c₁ p₂ c₂ [])
    · exact rules.broadcast _ _

/-- A start with a valid option records a profiling function. -/
theorem StartRules.startProfilingTwo (cfg : ConfigureParser) (portName1 portName2 : String) {option : BitVec 32}
    (value : BitVec 32) (hvalid : validOption option = true) :
    ∃ profile, P [] profile ∧ startProfilingTwo cfg portName1 portName2 option value = recorded option profile := by
  unfold Profiling.startProfilingTwo
  split
  · exact ⟨_, rules.profileStreamRunningToIdleCycles _, rfl⟩
  split
  · exact ⟨_, rules.profileStreamStartToTransferCompleteCycles _ _, rfl⟩
  split
  · exact ⟨_, rules.profileStartTimeDifferenceBtwTwoStreams _ _, rfl⟩
  split
  · exact ⟨_, rules.profileStreamRunningEventCount _, rfl⟩
  · simp_all [validOption]

end Rules

theorem startProfilingTwo_of_invalid (cfg : ConfigureParser) (portName1 portName2 : String) {option : BitVec 32}
    (value : BitVec 32) (hvalid : validOption option = false) :
    startProfilingTwo cfg portName1 portName2 option value = pure 0#32 := by
  simp only [validOption, decide_eq_false_iff_not, not_or] at hvalid
  simp only [startProfilingTwo, hvalid, if_false]

end AieBaremetal.Profiling
