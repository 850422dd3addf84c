import AieBaremetal.Graph.Api

/-!
# Shared buffers

A shared buffer without input ports is written by the host. Its producer lock keeps readers away, its
consumer lock is free once all of them are done; the first update of a buffer without an initial value
takes both with value 0. Which buffers were updated is a static of the translation unit, the state of
this method. The lock and address vectors are indexed without a check; an empty one is undefined.
-/

namespace AieBaremetal.Graph

open Common Common.Program AieBaremetal.Runtime

variable {Op : Type}

/-- The fields of `shared_buffer_config` the API reads. -/
structure SharedBufferConfig where
  id : BitVec 16
  graphId : BitVec 32
  numBytes : BitVec 64
  column : BitVec 16
  row : BitVec 16
  numInputs : BitVec 16
  numOutputs : BitVec 16
  initialized : Bool
  addr : List (BitVec 64)
  producerLocks : List (BitVec 32)
  consumerLocks : List (BitVec 32)
  deriving DecidableEq, Repr

/-- Code over `readOnlySharedBufferInitialized`, the ids updated before. -/
abbrev SharedBufferProgram (Op : Type) := DriverProgram Op (List (BitVec 32))

/-- May the host write this shared buffer? -/
def checkSharedBufferConfigForUpdate (pSharedBufferConfig : Option SharedBufferConfig)
    (pGraphConfig : Option GraphConfig) (numBytes : BitVec 64) : ErrCode :=
  match pSharedBufferConfig, pGraphConfig with
  | some buffer, some cfg =>
    if buffer.graphId ≠ cfg.id then .userError
    else if buffer.numInputs ≠ 0#16 ∨ buffer.numOutputs = 0#16 then .userError
    else if numBytes ≠ buffer.numBytes then .userError
    else .ok
  | _, _ => .internalError

/-- The tile of a shared buffer, without the reserved rows. -/
def SharedBufferConfig.tile (buffer : SharedBufferConfig) : TileLoc :=
  xaieTileLoc (buffer.column.setWidth 8) (buffer.row.setWidth 8 + 1#8)

/-- The `int16_t` id of a configuration as an `int32_t`. -/
def SharedBufferConfig.key (buffer : SharedBufferConfig) : BitVec 32 := buffer.id.signExtend 32

/-- The first update of a buffer without an initial value. -/
def SharedBufferConfig.acquiresNothing (buffer : SharedBufferConfig)
    (readOnlySharedBufferInitialized : List (BitVec 32)) : Bool :=
  !readOnlySharedBufferInitialized.contains buffer.key && !buffer.initialized

def SharedBufferConfig.prdLockAcqVal (buffer : SharedBufferConfig)
    (readOnlySharedBufferInitialized : List (BitVec 32)) : BitVec 8 :=
  if buffer.acquiresNothing readOnlySharedBufferInitialized then 0#8 else -1#8

/-- The consumer lock is acquired with one unit for each reader. -/
def SharedBufferConfig.cnsLockAcqVal (buffer : SharedBufferConfig)
    (readOnlySharedBufferInitialized : List (BitVec 32)) : BitVec 8 :=
  if buffer.acquiresNothing readOnlySharedBufferInitialized then 0#8 else -buffer.numOutputs.setWidth 8

/-- Take both locks, write and release, whatever the driver answered. -/
def writeSharedBuffer (buffer : SharedBufferConfig) (prdLockAcqVal cnsLockAcqVal : BitVec 8) (pValue : List UInt8)
    (numBytes : BitVec 64) : SharedBufferProgram Op ErrCode := do
  let tile := buffer.tile
  let producer ← Program.ofOption buffer.producerLocks.head?
  let driverStatus ← xaieStatus xaieOk (.lockAcquire tile ⟨producer.setWidth 16, prdLockAcqVal⟩)
  let consumer ← Program.ofOption buffer.consumerLocks.head?
  let driverStatus ← xaieStatus driverStatus (.lockAcquire tile ⟨consumer.setWidth 16, cnsLockAcqVal⟩)
  let addr ← Program.ofOption buffer.addr.head?
  let driverStatus ← xaieStatus driverStatus
    (.dataMemBlockWrite tile (addr.setWidth 32) (pValue.take (numBytes.setWidth 32 : BitVec 32).toNat))
  let driverStatus ← xaieStatus driverStatus (.lockRelease tile ⟨producer.setWidth 16, 1#8⟩)
  let driverStatus ← xaieStatus driverStatus
    (.lockRelease tile ⟨consumer.setWidth 16, buffer.numOutputs.setWidth 8⟩)
  if driverStatus ≠ xaieOk then pure .aieDriverError else pure .ok

/-- `update()` of a shared buffer; its id is remembered before the locks are taken. -/
def updateSharedBuffer (pGraphConfig : Option GraphConfig) (pSharedBufferConfig : Option SharedBufferConfig)
    (pValue : List UInt8) (numBytes : BitVec 64) : SharedBufferProgram Op ErrCode :=
  match pGraphConfig with
  | none => pure .internalError
  | some _ =>
    match checkSharedBufferConfigForUpdate pSharedBufferConfig pGraphConfig numBytes, pSharedBufferConfig with
    | .ok, some buffer => do
      let initialized ← Program.getState
      Program.modifyState (List.insert buffer.key)
      writeSharedBuffer buffer (buffer.prdLockAcqVal initialized) (buffer.cnsLockAcqVal initialized) pValue numBytes
    | ret, _ => pure ret

theorem updateSharedBuffer_of_ok {cfg : GraphConfig} {buffer : SharedBufferConfig} (pValue : List UInt8)
    {numBytes : BitVec 64} (w : World (Event Op) DriverAnswer (List (BitVec 32)))
    (h : checkSharedBufferConfigForUpdate (some buffer) (some cfg) numBytes = .ok) :
    updateSharedBuffer (some cfg) (some buffer) pValue numBytes w =
      writeSharedBuffer buffer (buffer.prdLockAcqVal w.state) (buffer.cnsLockAcqVal w.state) pValue numBytes
        { w with state := w.state.insert buffer.key } := by
  simp only [updateSharedBuffer, h]
  rfl

theorem updateSharedBuffer_of_not_ok {cfg : GraphConfig} {buffer : SharedBufferConfig} (pValue : List UInt8)
    {numBytes : BitVec 64} (w : World (Event Op) DriverAnswer (List (BitVec 32)))
    (h : checkSharedBufferConfigForUpdate (some buffer) (some cfg) numBytes ≠ .ok) :
    updateSharedBuffer (some cfg) (some buffer) pValue numBytes w =
      (.returned (checkSharedBufferConfigForUpdate (some buffer) (some cfg) numBytes), w) := by
  simp only [updateSharedBuffer]
  revert h
  cases checkSharedBufferConfigForUpdate (some buffer) (some cfg) numBytes with
  | ok => exact fun h => absurd rfl h
  | userError => exact fun _ => rfl
  | internalError => exact fun _ => rfl
  | aieDriverError => exact fun _ => rfl
  | resourceUnavailable => exact fun _ => rfl

theorem unblockedBy_writeSharedBuffer (buffer : SharedBufferConfig) (prdLockAcqVal cnsLockAcqVal : BitVec 8)
    (pValue : List UInt8) (numBytes : BitVec 64) :
    UnblockedBy 5
      (writeSharedBuffer buffer prdLockAcqVal cnsLockAcqVal pValue numBytes : SharedBufferProgram Op ErrCode) := by
  have hcall (driverStatus : BitVec 32) (call : DriverCall) :
      UnblockedBy 1 (xaieStatus driverStatus call : SharedBufferProgram Op (BitVec 32)) :=
    (answeredBy_xaieStatus driverStatus call).unblockedBy
  refine (unblockedBy_ofOption _).bind (fun _ => ?_) (Nat.le_refl (0 + 5))
  refine (hcall _ _).bind (fun _ => ?_) (Nat.le_refl (1 + 4))
  refine (unblockedBy_ofOption _).bind (fun _ => ?_) (Nat.le_refl (0 + 4))
  refine (hcall _ _).bind (fun _ => ?_) (Nat.le_refl (1 + 3))
  refine (unblockedBy_ofOption _).bind (fun _ => ?_) (Nat.le_refl (0 + 3))
  refine (hcall _ _).bind (fun _ => ?_) (Nat.le_refl (1 + 2))
  refine (hcall _ _).bind (fun _ => ?_) (Nat.le_refl (1 + 1))
  refine (hcall _ _).bind (fun _ => ?_) (Nat.le_refl (1 + 0))
  split
  · exact (answeredBy_pure 0 _).unblockedBy
  · exact (answeredBy_pure 0 _).unblockedBy

end AieBaremetal.Graph
