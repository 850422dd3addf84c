import AieBaremetal.Common.Program

/-!
# The driver as the runtime API sees it

Every call into the AIE driver is a question: the trace records the call with its arguments and the
answer with its return code and out parameter. What a result needs of the driver is stated with that
result, as a property of the trace. An answer also says how many buffer descriptors the hardware finished
since the previous call, which the code never sees. Calls of the API itself are recorded by `apiCall`.
-/

namespace AieBaremetal.Runtime

open Common Common.Program

/-- Return codes of the runtime API. -/
inductive ErrCode where
  | ok
  | userError
  | internalError
  | aieDriverError
  | resourceUnavailable
  deriving DecidableEq, Repr

structure TileLoc where
  row : BitVec 8
  col : BitVec 8
  deriving DecidableEq, Repr

/-- `XAie_TileLoc` takes the column first. -/
def xaieTileLoc (col row : BitVec 8) : TileLoc := { row, col }

inductive DmaDirection where
  | s2mm
  | mm2s
  deriving DecidableEq, Repr

/-- Module of a tile whose timer is read. -/
inductive ModuleType where
  | coreMod
  | plMod
  deriving DecidableEq, Repr

/-- Events the runtime configures or generates. -/
inductive EventId where
  | broadcast7Core
  | noneCore
  | broadcastA8Pl
  deriving DecidableEq, Repr

/-- A lock with the value it is acquired or released with. -/
structure Lock where
  lockId : BitVec 16
  lockVal : BitVec 8
  deriving DecidableEq, Repr

inductive DriverCall where
  | dmaDescInit (loc : TileLoc)
  | dmaChannelEnable (loc : TileLoc) (chNum : BitVec 8) (dir : DmaDirection)
  | dmaGetMaxQueueSize (loc : TileLoc)
  | dmaSetAxi (burstLen : BitVec 8)
  | dmaGetPendingBdCount (loc : TileLoc) (chNum : BitVec 8) (dir : DmaDirection)
  | dmaSetAddrLen (addr : BitVec 64) (len : BitVec 32)
  | dmaSetLock (acq rel : Lock)
  | dmaEnableBd
  | dmaWriteBd (loc : TileLoc) (bdNum : BitVec 16)
  | dmaChannelPushBdToQueue (loc : TileLoc) (chNum : BitVec 8) (dir : DmaDirection) (bdNum : BitVec 16)
  | dmaWaitForDone (loc : TileLoc) (chNum : BitVec 8) (dir : DmaDirection)
  | readTimer (loc : TileLoc) (mod : ModuleType)
  | waitCycles (loc : TileLoc) (mod : ModuleType) (cycleCnt : BitVec 64)
  | startTransaction
  | submitTransaction
  | clearCoreDisableEventOccurred (loc : TileLoc)
  | coreConfigureEnableEvent (loc : TileLoc) (event : EventId)
  | eventGenerate (loc : TileLoc) (mod : ModuleType) (event : EventId)
  | coreEnable (loc : TileLoc)
  | coreDisable (loc : TileLoc)
  | coreWaitForDone (loc : TileLoc)
  | coreReadDoneBit (loc : TileLoc)
  | dataMemWrWord (loc : TileLoc) (addr data : BitVec 32)
  | dataMemRdWord (loc : TileLoc) (addr : BitVec 32)
  | dataMemBlockWrite (loc : TileLoc) (addr : BitVec 32) (src : List UInt8)
  | dataMemBlockRead (loc : TileLoc) (addr size : BitVec 32)
  | lockAcquire (loc : TileLoc) (lock : Lock)
  | lockRelease (loc : TileLoc) (lock : Lock)
  deriving DecidableEq, Repr

/-- What the driver gives back, and the descriptors finished meanwhile. -/
structure DriverAnswer where
  rc : BitVec 32
  value : BitVec 64
  bytes : List UInt8
  progress : ℕ
  deriving DecidableEq, Repr

/-- `XAIE_OK` as the status word sees it. -/
def xaieOk : BitVec 32 := 0#32

theorem ok_of_status_joined {status rc : BitVec 32} (h : status ||| rc = xaieOk) : status = xaieOk ∧ rc = xaieOk :=
  BitVec.or_eq_zero_iff.mp h

/-- A driver call, or the beginning or end of an API call. -/
inductive Event (Op : Type) where
  | enter (op : Op)
  | driver (call : DriverCall) (answer : DriverAnswer)
  | leave (code : ErrCode)
  deriving DecidableEq, Repr

/-- Code of an API object with state `S` whose methods are `Op`. -/
abbrev DriverProgram (Op S : Type) := Program (Event Op) DriverAnswer S

variable {Op S : Type}

def xaie (call : DriverCall) : DriverProgram Op S DriverAnswer := Program.ask (.driver call)

/-- Call the driver and join its code to a status word. -/
def xaieStatus (driverStatus : BitVec 32) (call : DriverCall) : DriverProgram Op S (BitVec 32) := do
  let answer ← xaie call
  pure (driverStatus ||| answer.rc)

/-- Call a method of the API and record call and result. -/
def apiCall (body : Op → DriverProgram Op S ErrCode) (op : Op) : DriverProgram Op S ErrCode := do
  Program.tell (.enter op)
  let code ← body op
  Program.tell (.leave code)
  pure code

theorem answeredBy_xaie (call : DriverCall) : AnsweredBy 1 (xaie call : DriverProgram Op S DriverAnswer) :=
  answeredBy_ask _

theorem answeredBy_xaieStatus (driverStatus : BitVec 32) (call : DriverCall) :
    AnsweredBy 1 (xaieStatus driverStatus call : DriverProgram Op S (BitVec 32)) :=
  (answeredBy_xaie call).bind (fun _ => answeredBy_pure 0 _) (Nat.le_refl 1)

section Rules

variable {pre mid : World (Event Op) DriverAnswer S → Prop}

theorem triple_xaie (call : DriverCall) {post : DriverAnswer → World (Event Op) DriverAnswer S → Prop}
    (hmid : ∀ w, pre w → mid w) (hpost : ∀ w answer rest, pre w →
      post answer { w with trace := w.trace ++ [.driver call answer], script := rest }) :
    Triple pre (xaie call) post mid :=
  triple_ask _ hmid fun w answer rest hw _ => hpost w answer rest hw

theorem triple_xaieStatus (driverStatus : BitVec 32) (call : DriverCall)
    {post : World (Event Op) DriverAnswer S → Prop} (hmid : ∀ w, pre w → mid w) (hpost : ∀ w answer rest, pre w →
      post { w with trace := w.trace ++ [.driver call answer], script := rest }) :
    Triple pre (xaieStatus driverStatus call) (fun _ w => post w) mid := by
  have hcall : Triple pre (xaie call) (fun _ w => post w) mid := triple_xaie call hmid hpost
  exact hcall.bind fun _ _ h => h

theorem triple_apiCall (body : Op → DriverProgram Op S ErrCode) (op : Op)
    {inner : World (Event Op) DriverAnswer S → Prop} {innerPost : ErrCode → World (Event Op) DriverAnswer S → Prop}
    {post : ErrCode → World (Event Op) DriverAnswer S → Prop}
    (henter : ∀ w, pre w → inner { w with trace := w.trace ++ [.enter op] })
    (hbody : Triple inner (body op) innerPost mid)
    (hleave : ∀ code w, innerPost code w → post code { w with trace := w.trace ++ [.leave code] }) :
    Triple pre (apiCall body op) post mid := by
  have hbegin : Triple pre (Program.tell (.enter op)) (fun _ => inner) mid :=
    triple_tell _ henter
  have hend (code : ErrCode) : Triple (innerPost code) (Program.tell (.leave code)) (fun _ => post code) mid :=
    triple_tell _ (hleave code)
  exact hbegin.bind fun _ => hbody.bind fun code => (hend code).bind fun _ _ h => h

end Rules

/-- The statics of `config_manager` that the runtime reads. -/
structure ConfigManager where
  devGen : BitVec 8
  numReservedRows : BitVec 64
  broadcastEnableCore : Bool
  deriving DecidableEq, Repr

def xaieDevGenAie : BitVec 8 := 1#8

def xaieDevGenAieml : BitVec 8 := 2#8

def xaieDevGenS100 : BitVec 8 := 6#8

def xaieDevGenS200 : BitVec 8 := 7#8

/-- The generations S100 and S200 are variants of AIE. -/
def getNormalizedDevGen (devGen : BitVec 8) : BitVec 8 :=
  if devGen = xaieDevGenS100 ∨ devGen = xaieDevGenS200 then xaieDevGenAie else devGen

/-- The lock value that leaves the value out. -/
def xaieLockWithNoValue : BitVec 8 := -1#8

end AieBaremetal.Runtime
