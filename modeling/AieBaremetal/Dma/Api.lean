import AieBaremetal.Runtime.Driver

/-!
# Descriptors and tasks of the DMA API

The functions of `dma_api` call the driver in an order that depends on their arguments only. The
return codes are joined into one status word, which decides about the code of the function. The
memory functions belong to the same platform. There is one device instance and one descriptor under
construction, so they are no arguments of the calls.
-/

namespace AieBaremetal.Dma

open Common AieBaremetal.Runtime

/-- On which side of a dimension zeros are added. -/
inductive ZeroPaddingPos where
  | before
  | after
  deriving DecidableEq, Repr

structure DimDesc where
  stepSize : BitVec 32
  wrap : BitVec 16
  deriving DecidableEq, Repr

/-- The driver calls of `dma_api`. -/
inductive DmaCall where
  | descInit (loc : TileLoc)
  | setMultiDimAddr (numDim : BitVec 8) (dims : List DimDesc) (addr : BitVec 64) (len : BitVec 32)
  | setZeroPadding (dim : BitVec 8) (pos : ZeroPaddingPos) (numZeros : BitVec 8)
  | setPkt (pktId pktType : BitVec 8)
  | setOutofOrderBdId (bdId : BitVec 8)
  | tlastDisable
  | setBdIteration (stepSize : BitVec 32) (wrap : BitVec 16) (iterCurr : BitVec 8)
  | enableCompression
  | setLock (acq rel : Lock)
  | setAxi (smid burstLen qos cache secure : BitVec 8)
  | setNextBd (nextBd : BitVec 16) (enable : BitVec 8)
  | enableBd
  | writeBd (loc : TileLoc) (bdNum : BitVec 16)
  | getPendingBdCount (loc : TileLoc) (chNum : BitVec 8) (dir : BitVec 32)
  | channelSetStartQueue (loc : TileLoc) (chNum : BitVec 8) (dir : BitVec 32) (bdNum : BitVec 16)
      (repeatCount : BitVec 32) (enTokenIssue : BitVec 8)
  | waitForDone (loc : TileLoc) (chNum : BitVec 8) (dir timeOut : BitVec 32)
  | updateBdAddr (loc : TileLoc) (addr : BitVec 64) (bdNum : BitVec 16)
  deriving DecidableEq, Repr

/-- The platform's calls: the driver's DMA functions and `XAieMem`. -/
inductive PlatformCall where
  | dma (call : DmaCall)
  | getDevAddr (vaddr : BitVec 64)
  | syncForDev (vaddr size : BitVec 64)
  | syncForCpu (vaddr size : BitVec 64)
  deriving DecidableEq, Repr

structure PlatformEvent where
  call : PlatformCall
  answer : DriverAnswer
  deriving DecidableEq, Repr

abbrev PlatformProgram (S : Type) := Program PlatformEvent DriverAnswer S

/-- An AIE2 buffer descriptor, with the types of the driver. -/
structure BufferDescriptor where
  address : BitVec 64
  length : BitVec 32
  stepsize : List (BitVec 32)
  wrap : List (BitVec 32)
  padding : List (BitVec 32 × BitVec 32)
  enablePacket : Bool
  packetId : BitVec 8
  outOfOrderBdId : BitVec 8
  tlastSuppress : Bool
  iterationStepsize : BitVec 32
  iterationWrap : BitVec 16
  iterationCurrent : BitVec 8
  enableCompression : Bool
  lockAcqEnable : Bool
  lockAcqValue : BitVec 8
  lockAcqId : BitVec 8
  lockRelValue : BitVec 8
  lockRelId : BitVec 8
  useNextBd : Bool
  nextBd : BitVec 8
  burstLength : BitVec 8
  deriving DecidableEq, Repr

/-- A tile, with its row within the tiles of its type. -/
structure RelativeTile where
  tileType : BitVec 32
  column : BitVec 8
  row : BitVec 8
  deriving DecidableEq, Repr

structure DmaChannel where
  tile : RelativeTile
  dir : BitVec 32
  channel : BitVec 8
  deriving DecidableEq, Repr

structure TaskOptions where
  repeatCount : BitVec 32
  enableTaskCompleteToken : Bool
  deriving DecidableEq, Repr

/-- The row in the array, above the shim row and for AIE tiles the reserved rows. -/
def relativeToAbsoluteRow (mgr : ConfigManager) (tileType : BitVec 32) (row : BitVec 8) : BitVec 8 :=
  if tileType = 0#32 then (row.setWidth 32 + 1#32 + mgr.numReservedRows.setWidth 32).setWidth 8
  else if tileType = 2#32 then (row.setWidth 32 + 1#32).setWidth 8
  else row

/-- The location of a tile in the array. -/
def RelativeTile.loc (mgr : ConfigManager) (tile : RelativeTile) : TileLoc :=
  xaieTileLoc tile.column (relativeToAbsoluteRow mgr tile.tileType tile.row)

section Programs

variable {S : Type}

def platform (call : PlatformCall) : PlatformProgram S DriverAnswer := Program.ask (PlatformEvent.mk call)

/-- Call the driver several times and join the return codes. -/
def dmaStatuses (driverStatus : BitVec 32) : List DmaCall → PlatformProgram S (BitVec 32)
  | [] => pure driverStatus
  | call :: rest => do
    let answer ← platform (.dma call)
    dmaStatuses (driverStatus ||| answer.rc) rest

/-- The code of a function for its status word. -/
def driverCode (driverStatus : BitVec 32) : ErrCode := if driverStatus ≠ xaieOk then .aieDriverError else .ok

/-- The dimensions of a descriptor; a missing wrap is 0. -/
def BufferDescriptor.dimDescs (bdParam : BufferDescriptor) : List DimDesc :=
  bdParam.stepsize.zipIdx.map fun (stepSize, j) => { stepSize, wrap := (bdParam.wrap.getD j 0#32).setWidth 16 }

def BufferDescriptor.paddingCalls (bdParam : BufferDescriptor) : List DmaCall :=
  bdParam.padding.zipIdx.flatMap fun (zeros, j) =>
    [.setZeroPadding (BitVec.ofNat 8 j) .before (zeros.1.setWidth 8),
      .setZeroPadding (BitVec.ofNat 8 j) .after (zeros.2.setWidth 8)]

def configureCalls (mgr : ConfigManager) (tile : RelativeTile) (bdId : BitVec 8) (bdParam : BufferDescriptor) :
    List DmaCall :=
  let tileLoc := tile.loc mgr
  let dimDescs := bdParam.dimDescs
  [.descInit tileLoc,
    .setMultiDimAddr (BitVec.ofNat 8 dimDescs.length) dimDescs bdParam.address bdParam.length] ++
  bdParam.paddingCalls ++
  (if bdParam.enablePacket then [.setPkt bdParam.packetId 0#8, .setOutofOrderBdId bdParam.outOfOrderBdId] else
    []) ++
  (if bdParam.tlastSuppress then [.tlastDisable] else []) ++
  (if 0#32 < bdParam.iterationStepsize ∨ 0#16 < bdParam.iterationWrap ∨ 0#8 < bdParam.iterationCurrent then
    [.setBdIteration bdParam.iterationStepsize bdParam.iterationWrap bdParam.iterationCurrent] else []) ++
  (if bdParam.enableCompression then [.enableCompression] else []) ++
  (if bdParam.lockAcqEnable then
    [.setLock { lockId := bdParam.lockAcqId.setWidth 16, lockVal := bdParam.lockAcqValue }
      { lockId := bdParam.lockRelId.setWidth 16, lockVal := bdParam.lockRelValue }] else []) ++
  (if tileLoc.row = 0#8 then [.setAxi 0#8 bdParam.burstLength 0#8 0#8 0#8] else []) ++
  (if bdParam.useNextBd then [.setNextBd (bdParam.nextBd.setWidth 16) 1#8] else []) ++
  [.enableBd, .writeBd tileLoc (bdId.setWidth 16)]

def startQueueCall (mgr : ConfigManager) (ch : DmaChannel) (task : TaskOptions) (startBdId : BitVec 8) : DmaCall :=
  .channelSetStartQueue (ch.tile.loc mgr) ch.channel ch.dir (startBdId.setWidth 16) task.repeatCount
    (if task.enableTaskCompleteToken then 1#8 else 0#8)

def enqueueTask (mgr : ConfigManager) (ch : DmaChannel) (task : TaskOptions) (startBdId : BitVec 8) :
    PlatformProgram S ErrCode := do
  let driverStatus ← dmaStatuses xaieOk [startQueueCall mgr ch task startBdId]
  pure (driverCode driverStatus)

/-- The pending count as the code reads it. -/
def numPendingBDs (answer : DriverAnswer) : ℕ := (answer.value.setWidth 8).toNat

/-- Wait until the channel is done, however long it takes. -/
def waitDMAChannelDone (mgr : ConfigManager) (ch : DmaChannel) : PlatformProgram S ErrCode := do
  let _ ← Program.askUntil (PlatformEvent.mk (.dma (.waitForDone (ch.tile.loc mgr) ch.channel ch.dir 0#32)))
    fun answer => answer.rc = xaieOk
  pure .ok

def updateBDAddress (mgr : ConfigManager) (tile : RelativeTile) (bdId : BitVec 8) (address : BitVec 64) :
    PlatformProgram S ErrCode := do
  let driverStatus ← dmaStatuses xaieOk [.updateBdAddr (tile.loc mgr) address (bdId.setWidth 16)]
  pure (driverCode driverStatus)

end Programs

end AieBaremetal.Dma
