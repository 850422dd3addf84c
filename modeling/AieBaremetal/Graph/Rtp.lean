import AieBaremetal.Graph.Api

/-!
# Run-time parameters

A run-time parameter lives in two buffers of tile memory, ping and pong, and a selector word tells
which is valid. The host writes the other buffer and flips the selector; it reads the valid one. Locks
protect selector and buffers, except that an asynchronous parameter is not locked while the graph is
suspended. `pValue` is the memory behind the caller's pointer. The configuration's `size_t` values are
cut as the source casts them. Error texts are left out.
-/

namespace AieBaremetal.Graph

open Common Common.Program AieBaremetal.Runtime

variable {Op : Type}

/-- The fields of `rtp_config` the API reads. -/
structure RtpConfig where
  portId : BitVec 32
  graphId : BitVec 32
  isInput : Bool
  isAsync : Bool
  isConnect : Bool
  numBytes : BitVec 64
  isPL : Bool
  hasLock : Bool
  selectorColumn : BitVec 16
  selectorRow : BitVec 16
  selectorAddr : BitVec 64
  selectorLockId : BitVec 16
  pingColumn : BitVec 16
  pingRow : BitVec 16
  pingAddr : BitVec 64
  pingLockId : BitVec 16
  pongColumn : BitVec 16
  pongRow : BitVec 16
  pongAddr : BitVec 64
  pongLockId : BitVec 16
  deriving DecidableEq, Repr

structure LockedPlace where
  tile : TileLoc
  addr : BitVec 32
  lockId : BitVec 16
  deriving DecidableEq, Repr

/-- A place; its row counts from above the shim row and the reserved rows. -/
def lockedPlace (mgr : ConfigManager) (column row : BitVec 16) (addr : BitVec 64) (lockId : BitVec 16) :
    LockedPlace where
  tile := xaieTileLoc (column.setWidth 8) (rowAbs mgr row)
  addr := addr.setWidth 32
  lockId := lockId

def RtpConfig.selector (rtp : RtpConfig) (mgr : ConfigManager) : LockedPlace :=
  lockedPlace mgr rtp.selectorColumn rtp.selectorRow rtp.selectorAddr rtp.selectorLockId

def RtpConfig.ping (rtp : RtpConfig) (mgr : ConfigManager) : LockedPlace :=
  lockedPlace mgr rtp.pingColumn rtp.pingRow rtp.pingAddr rtp.pingLockId

def RtpConfig.pong (rtp : RtpConfig) (mgr : ConfigManager) : LockedPlace :=
  lockedPlace mgr rtp.pongColumn rtp.pongRow rtp.pongAddr rtp.pongLockId

def RtpConfig.buffer (rtp : RtpConfig) (mgr : ConfigManager) (selector : BitVec 32) : LockedPlace :=
  if selector = 1#32 then rtp.pong mgr else rtp.ping mgr

def acqWrite : BitVec 8 := 0#8

def acqRead : BitVec 8 := 1#8

def relRead : BitVec 8 := 1#8

def relWrite : BitVec 8 := 0#8

def aieMlRelWrite : BitVec 8 := -1#8

/-- Acquires an asynchronous parameter on AIE-ML. -/
def aieMlAsyncAcq : BitVec 8 := -1#8

/-- Acquires an asynchronous parameter on AIE-ML for the first time. -/
def aieMlAsyncAcqFirstTime : BitVec 8 := 0#8

/-- The device counts semaphores instead of setting lock values. -/
def hasSemaphores (mgr : ConfigManager) : Bool :=
  xaieDevGenAieml ≤ getNormalizedDevGen mgr.devGen

/-- May the host write this parameter? -/
def checkRtpConfigForUpdate (pRtpConfig : Option RtpConfig) (pGraphConfig : Option GraphConfig)
    (numBytes : BitVec 64) (isRunning : Bool) : ErrCode :=
  match pRtpConfig, pGraphConfig with
  | some rtp, some cfg =>
    if rtp.graphId ≠ cfg.id then .userError
    else if rtp.isInput = false then .userError
    else if numBytes ≠ rtp.numBytes then .userError
    else if rtp.isConnect then
      if rtp.isPL then .userError
      else if rtp.isAsync then if isRunning then .userError else .ok
      else .userError
    else .ok
  | _, _ => .internalError

def checkRtpConfigForRead (pRtpConfig : Option RtpConfig) (pGraphConfig : Option GraphConfig)
    (numBytes : BitVec 64) :
    ErrCode :=
  match pRtpConfig, pGraphConfig with
  | some rtp, some cfg =>
    if rtp.graphId ≠ cfg.id then .userError
    else if rtp.isInput then .userError
    else if numBytes ≠ rtp.numBytes then .userError
    else if rtp.isConnect then .userError
    else .ok
  | _, _ => .internalError

/-- Make a driver call under a condition. -/
def xaieWhen (needed : Bool) (driverStatus : BitVec 32) (call : DriverCall) : GraphProgram Op (BitVec 32) :=
  if needed then xaieStatus driverStatus call else pure driverStatus

/-- Asynchronous parameters are not locked while the graph is suspended. -/
def RtpConfig.mayLock (rtp : RtpConfig) (isRunning : Bool) : Bool := !(rtp.isAsync && !isRunning)

def RtpConfig.updateAcquireVal (rtp : RtpConfig) (mgr : ConfigManager) (asyncNotFirstTimePorts : List (BitVec 32)) :
    BitVec 8 :=
  if hasSemaphores mgr ∧ rtp.isAsync then
    if rtp.portId ∈ asyncNotFirstTimePorts then aieMlAsyncAcq else aieMlAsyncAcqFirstTime
  else if rtp.isAsync then xaieLockWithNoValue
  else acqWrite

/-- The ports written before, with this one if the device counts semaphores. -/
def RtpConfig.notFirstTime (rtp : RtpConfig) (mgr : ConfigManager) (asyncNotFirstTimePorts : List (BitVec 32)) :
    List (BitVec 32) :=
  if hasSemaphores mgr ∧ rtp.isAsync ∧ rtp.portId ∉ asyncNotFirstTimePorts then
    asyncNotFirstTimePorts ++ [rtp.portId]
  else asyncNotFirstTimePorts

/-- Write the buffer that is not selected and select it; the locks are released in any case. -/
def updateBuffer (mgr : ConfigManager) (rtp : RtpConfig) (lock : Bool) (acquireVal : BitVec 8) (pValue : List UInt8)
    (numBytes : BitVec 64) : GraphProgram Op ErrCode := do
  let selectorPlace := rtp.selector mgr
  let driverStatus ← xaieWhen lock xaieOk
    (.lockAcquire selectorPlace.tile ⟨selectorPlace.lockId, acquireVal⟩)
  let answer ← xaie (.dataMemRdWord selectorPlace.tile selectorPlace.addr)
  let selector := 1#32 - answer.value.setWidth 32
  let buffer := rtp.buffer mgr selector
  let driverStatus ← xaieWhen lock (driverStatus ||| answer.rc)
    (.lockAcquire buffer.tile ⟨buffer.lockId, acquireVal⟩)
  let driverStatus ← xaieStatus driverStatus
    (.dataMemBlockWrite buffer.tile buffer.addr (pValue.take (numBytes.setWidth 32 : BitVec 32).toNat))
  let driverStatus ← xaieStatus driverStatus (.dataMemWrWord selectorPlace.tile selectorPlace.addr selector)
  let driverStatus ← xaieWhen rtp.hasLock driverStatus
    (.lockRelease selectorPlace.tile ⟨selectorPlace.lockId, relRead⟩)
  let driverStatus ← xaieWhen rtp.hasLock driverStatus (.lockRelease buffer.tile ⟨buffer.lockId, relRead⟩)
  if driverStatus ≠ xaieOk then pure .aieDriverError else pure .ok

/-- `update()` after the checks: choose the locks and write. -/
def updateChecked (mgr : ConfigManager) (rtp : RtpConfig) (pValue : List UInt8) (numBytes : BitVec 64)
    (s : GraphState) : GraphProgram Op ErrCode := do
  Program.modifyState fun s =>
    { s with asyncNotFirstTimePorts := rtp.notFirstTime mgr s.asyncNotFirstTimePorts }
  updateBuffer mgr rtp (rtp.hasLock && rtp.mayLock s.isRunning) (rtp.updateAcquireVal mgr s.asyncNotFirstTimePorts)
    pValue numBytes

/-- `update()` of a run-time parameter. -/
def update (pGraphConfig : Option GraphConfig) (mgr : ConfigManager) (pRtpConfig : Option RtpConfig)
    (pValue : List UInt8) (numBytes : BitVec 64) : GraphProgram Op ErrCode :=
  match pGraphConfig with
  | none => pure .internalError
  | some _ => do
    let s ← Program.getState
    match checkRtpConfigForUpdate pRtpConfig pGraphConfig numBytes s.isRunning, pRtpConfig with
    | .ok, some rtp => updateChecked mgr rtp pValue numBytes s
    | ret, _ => pure ret

def RtpConfig.readAcquireVal (rtp : RtpConfig) (mgr : ConfigManager) : BitVec 8 :=
  if hasSemaphores mgr ∧ rtp.isAsync then aieMlAsyncAcq else acqRead

def RtpConfig.readReleaseVal (rtp : RtpConfig) (mgr : ConfigManager) : BitVec 8 :=
  if rtp.isAsync then relRead else if hasSemaphores mgr then aieMlRelWrite else relWrite

def readBuffer (mgr : ConfigManager) (rtp : RtpConfig) (lock : Bool) (numBytes : BitVec 64) :
    GraphProgram Op (ErrCode × Option (List UInt8)) := do
  let acquireVal := rtp.readAcquireVal mgr
  let releaseVal := rtp.readReleaseVal mgr
  let selectorPlace := rtp.selector mgr
  let driverStatus ← xaieWhen lock xaieOk
    (.lockAcquire selectorPlace.tile ⟨selectorPlace.lockId, acquireVal⟩)
  let answer ← xaie (.dataMemRdWord selectorPlace.tile selectorPlace.addr)
  let buffer := rtp.buffer mgr (answer.value.setWidth 32)
  let driverStatus ← xaieWhen lock (driverStatus ||| answer.rc)
    (.lockAcquire buffer.tile ⟨buffer.lockId, acquireVal⟩)
  let driverStatus ← xaieWhen lock driverStatus
    (.lockRelease selectorPlace.tile ⟨selectorPlace.lockId, releaseVal⟩)
  let value ← xaie (.dataMemBlockRead buffer.tile buffer.addr (numBytes.setWidth 32))
  let driverStatus ← xaieWhen lock (driverStatus ||| value.rc)
    (.lockRelease buffer.tile ⟨buffer.lockId, releaseVal⟩)
  if driverStatus ≠ xaieOk then pure (.aieDriverError, some value.bytes) else pure (.ok, some value.bytes)

/-- `read()` of a parameter, with the value behind the caller's pointer. -/
def read (pGraphConfig : Option GraphConfig) (mgr : ConfigManager) (pRtpConfig : Option RtpConfig)
    (numBytes : BitVec 64) : GraphProgram Op (ErrCode × Option (List UInt8)) :=
  match pGraphConfig with
  | none => pure (.internalError, none)
  | some _ => do
    let s ← Program.getState
    match checkRtpConfigForRead pRtpConfig pGraphConfig numBytes, pRtpConfig with
    | .ok, some rtp => readBuffer mgr rtp (rtp.mayLock s.isRunning && rtp.hasLock) numBytes
    | ret, _ => pure (ret, none)

variable {cfg : GraphConfig} {mgr : ConfigManager} {numBytes : BitVec 64} {rtp : RtpConfig}
  {w : GraphWorld Op}

theorem update_of_ok (pValue : List UInt8)
    (h : checkRtpConfigForUpdate (some rtp) (some cfg) numBytes w.state.isRunning = .ok) :
    update (some cfg) mgr (some rtp) pValue numBytes w = updateChecked mgr rtp pValue numBytes w.state w := by
  change (match checkRtpConfigForUpdate (some rtp) (some cfg) numBytes w.state.isRunning, some rtp with
    | .ok, some rtp => updateChecked mgr rtp pValue numBytes w.state
    | ret, _ => pure ret : GraphProgram Op ErrCode) w = _
  rw [h]

theorem update_of_not_ok (pValue : List UInt8)
    (h : checkRtpConfigForUpdate (some rtp) (some cfg) numBytes w.state.isRunning ≠ .ok) :
    update (some cfg) mgr (some rtp) pValue numBytes w =
      (.returned (checkRtpConfigForUpdate (some rtp) (some cfg) numBytes w.state.isRunning), w) := by
  change (match checkRtpConfigForUpdate (some rtp) (some cfg) numBytes w.state.isRunning, some rtp with
    | .ok, some rtp => updateChecked mgr rtp pValue numBytes w.state
    | ret, _ => pure ret : GraphProgram Op ErrCode) w = _
  revert h
  cases checkRtpConfigForUpdate (some rtp) (some cfg) numBytes w.state.isRunning with
  | ok => exact fun h => absurd rfl h
  | userError => exact fun _ => rfl
  | internalError => exact fun _ => rfl
  | aieDriverError => exact fun _ => rfl
  | resourceUnavailable => exact fun _ => rfl

theorem read_of_ok (h : checkRtpConfigForRead (some rtp) (some cfg) numBytes = .ok) :
    read (some cfg) mgr (some rtp) numBytes w =
      readBuffer mgr rtp (rtp.mayLock w.state.isRunning && rtp.hasLock) numBytes w := by
  change (match checkRtpConfigForRead (some rtp) (some cfg) numBytes, some rtp with
    | .ok, some rtp => readBuffer mgr rtp (rtp.mayLock w.state.isRunning && rtp.hasLock) numBytes
    | ret, _ => pure (ret, none) : GraphProgram Op (ErrCode × Option (List UInt8))) w = _
  rw [h]

theorem read_of_not_ok (h : checkRtpConfigForRead (some rtp) (some cfg) numBytes ≠ .ok) :
    read (some cfg) mgr (some rtp) numBytes w =
      (.returned (checkRtpConfigForRead (some rtp) (some cfg) numBytes, none), w) := by
  change (match checkRtpConfigForRead (some rtp) (some cfg) numBytes, some rtp with
    | .ok, some rtp => readBuffer mgr rtp (rtp.mayLock w.state.isRunning && rtp.hasLock) numBytes
    | ret, _ => pure (ret, none) : GraphProgram Op (ErrCode × Option (List UInt8))) w = _
  revert h
  cases checkRtpConfigForRead (some rtp) (some cfg) numBytes with
  | ok => exact fun h => absurd rfl h
  | userError => exact fun _ => rfl
  | internalError => exact fun _ => rfl
  | aieDriverError => exact fun _ => rfl
  | resourceUnavailable => exact fun _ => rfl

theorem answeredBy_xaieWhen (needed : Bool) (driverStatus : BitVec 32) (call : DriverCall) :
    AnsweredBy 1 (xaieWhen needed driverStatus call : GraphProgram Op (BitVec 32)) := by
  cases needed with
  | false => exact answeredBy_pure 1 _
  | true => exact answeredBy_xaieStatus driverStatus call

theorem answeredBy_updateBuffer (mgr : ConfigManager) (rtp : RtpConfig) (lock : Bool) (acquireVal : BitVec 8)
    (pValue : List UInt8) (numBytes : BitVec 64) :
    AnsweredBy 7 (updateBuffer mgr rtp lock acquireVal pValue numBytes : GraphProgram Op ErrCode) := by
  refine (answeredBy_xaieWhen _ _ _).bind (fun _ => ?_) (Nat.le_refl (1 + 6))
  refine (answeredBy_xaie _).bind (fun _ => ?_) (Nat.le_refl (1 + 5))
  refine (answeredBy_xaieWhen _ _ _).bind (fun _ => ?_) (Nat.le_refl (1 + 4))
  refine (answeredBy_xaieStatus _ _).bind (fun _ => ?_) (Nat.le_refl (1 + 3))
  refine (answeredBy_xaieStatus _ _).bind (fun _ => ?_) (Nat.le_refl (1 + 2))
  refine (answeredBy_xaieWhen _ _ _).bind (fun _ => ?_) (Nat.le_refl (1 + 1))
  refine (answeredBy_xaieWhen _ _ _).bind (fun _ => ?_) (Nat.le_refl (1 + 0))
  split
  · exact answeredBy_pure 0 _
  · exact answeredBy_pure 0 _

theorem answeredBy_readBuffer (mgr : ConfigManager) (rtp : RtpConfig) (lock : Bool) (numBytes : BitVec 64) :
    AnsweredBy 6 (readBuffer mgr rtp lock numBytes : GraphProgram Op (ErrCode × Option (List UInt8))) := by
  refine (answeredBy_xaieWhen _ _ _).bind (fun _ => ?_) (Nat.le_refl (1 + 5))
  refine (answeredBy_xaie _).bind (fun _ => ?_) (Nat.le_refl (1 + 4))
  refine (answeredBy_xaieWhen _ _ _).bind (fun _ => ?_) (Nat.le_refl (1 + 3))
  refine (answeredBy_xaieWhen _ _ _).bind (fun _ => ?_) (Nat.le_refl (1 + 2))
  refine (answeredBy_xaie _).bind (fun _ => ?_) (Nat.le_refl (1 + 1))
  refine (answeredBy_xaieWhen _ _ _).bind (fun _ => ?_) (Nat.le_refl (1 + 0))
  split
  · exact answeredBy_pure 0 _
  · exact answeredBy_pure 0 _

/-- An unconnected input parameter of four bytes with locks. -/
def sampleParameter : RtpConfig where
  portId := 7
  graphId := 0
  isInput := true
  isAsync := false
  isConnect := false
  numBytes := 4
  isPL := false
  hasLock := true
  selectorColumn := 1
  selectorRow := 0
  selectorAddr := 0x200
  selectorLockId := 0
  pingColumn := 1
  pingRow := 0
  pingAddr := 0x210
  pingLockId := 1
  pongColumn := 1
  pongRow := 0
  pongAddr := 0x220
  pongLockId := 2

end AieBaremetal.Graph
