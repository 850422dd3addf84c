import AieBaremetal.Runtime.Driver

/-!
# The GMIO transfer API

`gmio_api` keeps two queues of descriptor numbers of one shim DMA channel: those it may use and those
it handed to the hardware. Taking the front of an empty queue is undefined behaviour. The descriptor
that `enqueueBD` holds in between is a field of the state, so that a waiting call shows it. Debug
output is left out. The bare-metal variant of `enqueueBD`, which takes an address, is the one modelled.
-/

namespace AieBaremetal.Gmio

open Common AieBaremetal.Runtime

inductive GmioType where
  | gm2aie
  | aie2gm
  | gm2pl
  | pl2gm
  deriving DecidableEq, Repr

/-- The fields of `gmio_config` in use; `int16_t` fields are two's complement. -/
structure GmioConfig where
  type : GmioType
  shimColumn : BitVec 16
  channelNum : BitVec 16
  burstLength : BitVec 16
  deriving DecidableEq, Repr

/-- The state of a `gmio_api` object. -/
structure GmioState where
  isConfigured : Bool
  gmioTileLoc : TileLoc
  dmaStartQMaxSize : BitVec 8
  enqueuedBDs : List (BitVec 64)
  availableBDs : List (BitVec 64)
  /-- The local variable of `enqueueBD` that holds a descriptor. -/
  bdNumber : Option (BitVec 64)
  deriving DecidableEq, Repr

def GmioState.fresh : GmioState where
  isConfigured := false
  gmioTileLoc := xaieTileLoc 0 0
  dmaStartQMaxSize := 4#8
  enqueuedBDs := []
  availableBDs := []
  bdNumber := none

/-- The transfer methods of the API. -/
inductive GmioOp where
  | enqueueBD (address size : BitVec 64)
  | wait (syncmode : Bool)
  deriving DecidableEq, Repr

/-- Code of a `gmio_api` object. -/
abbrev GmioProgram := DriverProgram GmioOp GmioState

abbrev GmioWorld := World (Event GmioOp) DriverAnswer GmioState

def convertLogicalToPhysicalDMAChNum (logicalChNum : BitVec 16) : BitVec 8 :=
  let physical := if 1 < logicalChNum.toInt then logicalChNum - 2#16 else logicalChNum
  physical.setWidth 8

/-- Take the front of a queue; an empty queue has none. -/
def frontAndPop : List (BitVec 64) → Option (BitVec 64 × List (BitVec 64))
  | [] => none
  | bd :: rest => some (bd, rest)

def GmioConfig.direction (cfg : GmioConfig) : DmaDirection := if cfg.type = .gm2aie then .mm2s else .s2mm

def GmioConfig.physicalChannel (cfg : GmioConfig) : BitVec 8 := convertLogicalToPhysicalDMAChNum cfg.channelNum

/-- A descriptor number of a channel, an `int32_t` pushed to a queue of `size_t`. -/
def bdNum (channelNum : BitVec 16) (dmaQueueSize : BitVec 8) (j : ℕ) : BitVec 64 :=
  (channelNum.signExtend 32 * dmaQueueSize.setWidth 32 + BitVec.ofNat 32 j).signExtend 64

/-- The loop that hands out the channel's descriptors. -/
def assignBDs (cfg : GmioConfig) (dmaQueueSize : BitVec 8) : ℕ → ℕ → BitVec 32 → GmioProgram (BitVec 32)
  | 0, _, driverStatus => pure driverStatus
  | turns + 1, j, driverStatus => do
    Program.modifyState fun s =>
      { s with availableBDs := s.availableBDs ++ [bdNum cfg.channelNum dmaQueueSize j] }
    let driverStatus ← xaieStatus driverStatus (.dmaSetAxi (cfg.burstLength.setWidth 8))
    assignBDs cfg dmaQueueSize turns (j + 1) driverStatus

def configure (pGMIOConfig : Option GmioConfig) : GmioProgram ErrCode :=
  match pGMIOConfig with
  | none => pure .internalError
  | some cfg =>
    if cfg.type = .gm2aie ∨ cfg.type = .aie2gm then do
      let loc := xaieTileLoc (cfg.shimColumn.setWidth 8) 0#8
      Program.modifyState fun s => { s with gmioTileLoc := loc }
      let driverStatus ← xaieStatus xaieOk (.dmaDescInit loc)
      let driverStatus ← xaieStatus driverStatus (.dmaChannelEnable loc cfg.physicalChannel cfg.direction)
      let answer ← xaie (.dmaGetMaxQueueSize loc)
      let dmaStartQMaxSize := answer.value.setWidth 8
      Program.modifyState fun s => { s with dmaStartQMaxSize }
      let driverStatus ← assignBDs cfg dmaStartQMaxSize dmaStartQMaxSize.toNat 0 (driverStatus ||| answer.rc)
      if driverStatus ≠ xaieOk then pure .aieDriverError
      else do
        Program.modifyState fun s => { s with isConfigured := true }
        pure .ok
    else pure .aieDriverError

/-- Move descriptors from the enqueued to the available ones. -/
def moveBack : ℕ → GmioState → Option GmioState
  | 0, s => some s
  | turns + 1, s =>
    match frontAndPop s.enqueuedBDs with
    | none => none
    | some (bd, rest) =>
      moveBack turns { s with enqueuedBDs := rest, availableBDs := s.availableBDs ++ [bd] }

/-- How many descriptors are moved: a 32-bit difference read as a signed loop bound. -/
def numBDCompleted (dmaStartQMaxSize numPendingBDs : BitVec 8) : ℕ :=
  (dmaStartQMaxSize.setWidth 32 - numPendingBDs.setWidth 32).toInt.toNat

/-- One turn of the refill loop after the driver answered. -/
def refillTurn (driverStatus : BitVec 32) (answer : DriverAnswer) (s : GmioState) :
    Option (BitVec 32 × GmioState) :=
  (moveBack (numBDCompleted s.dmaStartQMaxSize (answer.value.setWidth 8)) s).map
    fun s' => (driverStatus ||| answer.rc, s')

/-- The lock value a descriptor is set up with. -/
def bdLockVal (mgr : ConfigManager) : BitVec 8 :=
  if xaieDevGenAieml ≤ getNormalizedDevGen mgr.devGen then 0#8 else xaieLockWithNoValue

/-- Write a descriptor and push it, waiting for a free one first. -/
def enqueueBD (pGMIOConfig : Option GmioConfig) (mgr : ConfigManager) (address size : BitVec 64) :
    GmioProgram ErrCode := do
  let s ← Program.getState
  match s.isConfigured, pGMIOConfig with
  | true, some cfg => do
    let driverStatus ← Program.whileAsk (fun _ s => s.availableBDs.isEmpty)
      (Event.driver (.dmaGetPendingBdCount s.gmioTileLoc cfg.physicalChannel cfg.direction)) refillTurn xaieOk
    let s ← Program.getState
    let (bd, rest) ← Program.ofOption (frontAndPop s.availableBDs)
    Program.modifyState fun s => { s with availableBDs := rest, bdNumber := some bd }
    let driverStatus ← xaieStatus driverStatus (.dmaSetAddrLen address (size.setWidth 32))
    let lock : Lock := { lockId := bd.setWidth 16, lockVal := bdLockVal mgr }
    let driverStatus ← xaieStatus driverStatus (.dmaSetLock lock lock)
    let driverStatus ← xaieStatus driverStatus .dmaEnableBd
    let driverStatus ← xaieStatus driverStatus (.dmaWriteBd s.gmioTileLoc (bd.setWidth 16))
    let driverStatus ← xaieStatus driverStatus
      (.dmaChannelPushBdToQueue s.gmioTileLoc cfg.physicalChannel cfg.direction (bd.setWidth 16))
    Program.modifyState fun s => { s with enqueuedBDs := s.enqueuedBDs ++ [bd], bdNumber := none }
    if driverStatus ≠ xaieOk then pure .aieDriverError else pure .ok
  | _, _ => pure .internalError

/-- Ask whether the channel is done: until it is, or only once. -/
def waitForDone (call : DriverCall) (syncmode : Bool) : GmioProgram ErrCode :=
  if syncmode then do
    let _ ← Program.askUntil (Event.driver call) fun answer => answer.rc = xaieOk
    pure .ok
  else do
    let answer ← xaie call
    pure (if answer.rc ≠ xaieOk then .resourceUnavailable else .ok)

/-- Wait for the channel and take back every enqueued descriptor. -/
def wait (pGMIOConfig : Option GmioConfig) (syncmode : Bool) : GmioProgram ErrCode := do
  let s ← Program.getState
  match s.isConfigured, pGMIOConfig with
  | true, some cfg =>
    if cfg.type = .gm2pl ∨ cfg.type = .pl2gm then pure .userError
    else do
      let ret ← waitForDone (.dmaWaitForDone s.gmioTileLoc cfg.physicalChannel cfg.direction) syncmode
      let s ← Program.getState
      let s' ← Program.ofOption (moveBack s.enqueuedBDs.length s)
      Program.modifyState fun _ => s'
      pure ret
  | _, _ => pure .internalError

def gmioMethod (pGMIOConfig : Option GmioConfig) (mgr : ConfigManager) : GmioOp → GmioProgram ErrCode
  | .enqueueBD address size => enqueueBD pGMIOConfig mgr address size
  | .wait syncmode => wait pGMIOConfig syncmode

@[irreducible] def gmioCalls (pGMIOConfig : Option GmioConfig) (mgr : ConfigManager) (ops : List GmioOp) :
    GmioProgram (List ErrCode) :=
  Program.runAll (apiCall (gmioMethod pGMIOConfig mgr)) ops

end AieBaremetal.Gmio
