import AieBaremetal.Runtime.Driver

/-!
# The graph control API

`graph_api` enables and disables the cores of a graph and writes iteration counts and end signals to
the cores' memory. It remembers the flag `isRunning` and the time of the last start. `configure`
refuses per-core vectors of different lengths, so the loops over an index are loops over a list of
cores. Debug output, error texts and return codes cast to `void` are left out.
-/

namespace AieBaremetal.Graph

open Common AieBaremetal.Runtime

/-- The fields of `graph_config` the API reads. -/
structure GraphConfig where
  id : BitVec 32
  coreColumns : List (BitVec 16)
  coreRows : List (BitVec 16)
  iterMemColumns : List (BitVec 16)
  iterMemRows : List (BitVec 16)
  iterMemAddrs : List (BitVec 64)
  triggered : List (BitVec 8)
  broadcastColumn : BitVec 32
  deriving DecidableEq, Repr

/-- A core: its tile, where its iteration count lives, and whether a trigger starts it. -/
structure Core where
  coreTile : TileLoc
  iterMemTile : TileLoc
  iterMemAddr : BitVec 64
  triggered : BitVec 8
  deriving DecidableEq, Repr

/-- The state of a `graph_api` object. -/
structure GraphState where
  isConfigured : Bool
  isRunning : Bool
  startTime : BitVec 64
  cores : List Core
  asyncNotFirstTimePorts : List (BitVec 32)
  deriving DecidableEq, Repr

def GraphState.fresh : GraphState where
  isConfigured := false
  isRunning := false
  startTime := 0
  cores := []
  asyncNotFirstTimePorts := []

inductive ControlOp where
  | run
  | runIter (testIter : BitVec 32)
  | wait
  | waitTimeout (cycleTimeout : BitVec 64)
  | resume
  | endGraph
  deriving DecidableEq, Repr

/-- Code of a `graph_api` object whose methods are `Op`. -/
abbrev GraphProgram (Op : Type) := DriverProgram Op GraphState

abbrev GraphWorld (Op : Type) := World (Event Op) DriverAnswer GraphState

variable {Op : Type}

/-- The row of a tile in the array. -/
def rowAbs (mgr : ConfigManager) (row : BitVec 16) : BitVec 8 :=
  (row.signExtend 32 + mgr.numReservedRows.setWidth 32 + 1#32).setWidth 8

def GraphConfig.cores (cfg : GraphConfig) (mgr : ConfigManager) : List Core :=
  (List.range cfg.coreColumns.length).map fun i =>
    { coreTile := xaieTileLoc ((cfg.coreColumns.getD i 0).setWidth 8) (rowAbs mgr (cfg.coreRows.getD i 0))
      iterMemTile := xaieTileLoc ((cfg.iterMemColumns.getD i 0).setWidth 8) (rowAbs mgr (cfg.iterMemRows.getD i 0))
      iterMemAddr := cfg.iterMemAddrs.getD i 0
      triggered := cfg.triggered.getD i 0 }

def configure (pGraphConfig : Option GraphConfig) (mgr : ConfigManager) : GraphProgram Op ErrCode :=
  match pGraphConfig with
  | none => pure .internalError
  | some cfg =>
    let numCores := cfg.coreColumns.length
    if cfg.coreRows.length ≠ numCores ∨ cfg.iterMemAddrs.length ≠ numCores ∨ cfg.triggered.length ≠ numCores ∨
        cfg.iterMemColumns.length ≠ numCores ∨ cfg.iterMemRows.length ≠ numCores then pure .internalError
    else do
      Program.modifyState fun s => { s with cores := cfg.cores mgr, isConfigured := true }
      pure .ok

def recordStartTime (cores : List Core) (driverStatus : BitVec 32) : GraphProgram Op (BitVec 32) :=
  match cores with
  | [] => pure driverStatus
  | core :: _ => do
    let answer ← xaie (.readTimer core.coreTile .coreMod)
    Program.modifyState fun s => { s with startTime := answer.value }
    pure (driverStatus ||| answer.rc)

/-- Make a driver call for every core and join the codes. -/
def forCores (call : Core → DriverCall) : List Core → BitVec 32 → GraphProgram Op (BitVec 32)
  | [], driverStatus => pure driverStatus
  | core :: rest, driverStatus => do
    let driverStatus ← xaieStatus driverStatus (call core)
    forCores call rest driverStatus

def enableCores (cores : List Core) (driverStatus : BitVec 32) : GraphProgram Op (BitVec 32) := do
  let _ ← xaie .startTransaction
  let driverStatus ← forCores (fun core => .coreEnable core.coreTile) cores driverStatus
  let _ ← xaie .submitTransaction
  pure driverStatus

/-- Let every core be enabled by the broadcast event. -/
def armCores : List Core → GraphProgram Op Unit
  | [] => pure ()
  | core :: rest => do
    let _ ← xaie (.clearCoreDisableEventOccurred core.coreTile)
    let _ ← xaie (.coreConfigureEnableEvent core.coreTile .broadcast7Core)
    armCores rest

def disarmCores : List Core → GraphProgram Op Unit
  | [] => pure ()
  | core :: rest => do
    let _ ← xaie (.coreConfigureEnableEvent core.coreTile .noneCore)
    disarmCores rest

/-- The timer loop goes on up to 150 cycles after the start. -/
def withinEnableWindow (startTime : BitVec 64) (currentTime : Option (BitVec 64)) : Bool :=
  match currentTime with
  | none => true
  | some currentTime => currentTime - startTime ≤ 150#64

/-- Enable the cores by the broadcast event and wait until it is over. -/
def broadcastEnable (cfg : GraphConfig) (cores : List Core) (driverStatus : BitVec 32) :
    GraphProgram Op (BitVec 32) := do
  let shim := xaieTileLoc (cfg.broadcastColumn.setWidth 8) 0#8
  let _ ← xaie .startTransaction
  armCores cores
  let _ ← xaie .submitTransaction
  let _ ← xaie (.eventGenerate shim .plMod .broadcastA8Pl)
  let start ← xaie (.readTimer shim .plMod)
  let (driverStatus, _) ← Program.whileAsk (fun l _ => withinEnableWindow start.value l.2)
    (Event.driver (.readTimer shim .plMod))
    (fun l answer s => some ((l.1 ||| answer.rc, some answer.value), s)) (driverStatus ||| start.rc, none)
  let _ ← xaie .startTransaction
  disarmCores cores
  let _ ← xaie .submitTransaction
  pure driverStatus

/-- Enable the cores, by broadcast or one by one. -/
def startCores (cfg : GraphConfig) (mgr : ConfigManager) (cores : List Core) (driverStatus : BitVec 32) :
    GraphProgram Op (BitVec 32) :=
  if mgr.broadcastEnableCore then broadcastEnable cfg cores driverStatus else enableCores cores driverStatus

/-- Most methods check first that the graph is configured. -/
def whenConfigured (pGraphConfig : Option GraphConfig) (body : GraphConfig → GraphState → GraphProgram Op ErrCode) :
    GraphProgram Op ErrCode := do
  let s ← Program.getState
  match s.isConfigured, pGraphConfig with
  | true, some cfg => body cfg s
  | _, _ => pure .aieDriverError

def run (pGraphConfig : Option GraphConfig) (mgr : ConfigManager) : GraphProgram Op ErrCode :=
  whenConfigured pGraphConfig fun cfg s => do
    let driverStatus ← recordStartTime s.cores xaieOk
    let driverStatus ← startCores cfg mgr s.cores driverStatus
    if driverStatus ≠ xaieOk then pure .aieDriverError
    else do
      Program.modifyState fun s => { s with isRunning := true }
      pure .ok

/-- `run(testIter)`: write the iteration counts and start the graph. -/
def runIter (pGraphConfig : Option GraphConfig) (mgr : ConfigManager) (testIter : BitVec 32) :
    GraphProgram Op ErrCode :=
  whenConfigured pGraphConfig fun _ s => do
    let _ ← xaie .startTransaction
    let driverStatus ← forCores
      (fun core => .dataMemWrWord core.iterMemTile (core.iterMemAddr.setWidth 32) testIter) s.cores xaieOk
    let _ ← xaie .submitTransaction
    if driverStatus ≠ xaieOk then pure .aieDriverError else run pGraphConfig mgr

/-- The driver's code for a core that is not done yet. -/
def xaieCoreStatusTimeout : BitVec 32 := 12#32

/-- Wait until a core is done and disable it. -/
def awaitCore (core : Core) (driverStatus : BitVec 32) : GraphProgram Op (BitVec 32) := do
  let _ ← Program.askUntil (Event.driver (.coreWaitForDone core.coreTile))
    fun answer => answer.rc ≠ xaieCoreStatusTimeout
  xaieStatus driverStatus (.coreDisable core.coreTile)

/-- Wait for every core that no trigger starts. -/
def awaitCores : List Core → BitVec 32 → GraphProgram Op (BitVec 32)
  | [], driverStatus => pure driverStatus
  | core :: rest, driverStatus =>
    if core.triggered = 0#8 then do
      let driverStatus ← awaitCore core driverStatus
      awaitCores rest driverStatus
    else awaitCores rest driverStatus

/-- `wait()`: wait for the cores and disable them. -/
def wait (pGraphConfig : Option GraphConfig) : GraphProgram Op ErrCode :=
  whenConfigured pGraphConfig fun _ s => do
    let driverStatus ← awaitCores s.cores xaieOk
    if driverStatus ≠ xaieOk then pure .aieDriverError
    else do
      Program.modifyState fun s => { s with isRunning := false }
      pure .ok

/-- Let the rest of a cycle budget pass. -/
def spendCycles (cores : List Core) (startTime cycleTimeout : BitVec 64) : GraphProgram Op (BitVec 32) :=
  match cores with
  | [] => pure xaieOk
  | core :: _ => do
    let answer ← xaie (.readTimer core.coreTile .coreMod)
    let elapsedTime := answer.value - startTime
    if elapsedTime < cycleTimeout then
      xaieStatus (xaieOk ||| answer.rc) (.waitCycles core.coreTile .coreMod (cycleTimeout - elapsedTime))
    else pure (xaieOk ||| answer.rc)

/-- `wait(cycleTimeout)`: let the graph run and disable every core. -/
def waitTimeout (cycleTimeout : BitVec 64) : GraphProgram Op ErrCode := do
  let s ← Program.getState
  if s.isConfigured = false then pure .aieDriverError
  else if 0xFFFFFFFFFFFF#64 < cycleTimeout then pure .userError
  else do
    let driverStatus ← spendCycles s.cores s.startTime cycleTimeout
    let driverStatus ← forCores (fun core => .coreDisable core.coreTile) s.cores driverStatus
    if driverStatus ≠ xaieOk then pure .aieDriverError
    else do
      Program.modifyState fun s => { s with isRunning := false }
      pure .ok

/-- Enable every core that is not done. -/
def resumeCores : List Core → BitVec 32 → GraphProgram Op (BitVec 32)
  | [], driverStatus => pure driverStatus
  | core :: rest, driverStatus => do
    let answer ← xaie (.coreReadDoneBit core.coreTile)
    if answer.value.setWidth 8 = 0#8 then do
      let driverStatus ← xaieStatus (driverStatus ||| answer.rc) (.coreEnable core.coreTile)
      resumeCores rest driverStatus
    else resumeCores rest (driverStatus ||| answer.rc)

/-- `resume()`: let a suspended graph go on. -/
def resume : GraphProgram Op ErrCode := do
  let s ← Program.getState
  if s.isConfigured = false then pure .aieDriverError
  else do
    let driverStatus ← recordStartTime s.cores xaieOk
    let driverStatus ← resumeCores s.cores driverStatus
    if driverStatus ≠ xaieOk then pure .aieDriverError else pure .ok

/-- Write a core's end signal, the word in front of its iteration count. -/
def endSignalCall (core : Core) : DriverCall :=
  .dataMemWrWord core.iterMemTile ((core.iterMemAddr - 4#64).setWidth 32) 1#32

/-- Signal the end to a core and let it finish. -/
def endCore (core : Core) (driverStatus : BitVec 32) : GraphProgram Op (BitVec 32) := do
  let driverStatus ← xaieStatus driverStatus (endSignalCall core)
  let driverStatus ← xaieStatus driverStatus (.coreEnable core.coreTile)
  awaitCore core driverStatus

/-- If the graph was running, end every core that no trigger starts. -/
def endCores (isRunningBefore : Bool) : List Core → BitVec 32 → GraphProgram Op (BitVec 32)
  | [], driverStatus => pure driverStatus
  | core :: rest, driverStatus =>
    if isRunningBefore ∧ core.triggered = 0#8 then do
      let driverStatus ← endCore core driverStatus
      endCores isRunningBefore rest driverStatus
    else endCores isRunningBefore rest driverStatus

/-- `end()`: wait for the cores and, if the graph was running, let them end. -/
def endGraph (pGraphConfig : Option GraphConfig) : GraphProgram Op ErrCode :=
  whenConfigured pGraphConfig fun _ s => do
    let ret ← wait pGraphConfig
    if ret ≠ .ok then pure ret
    else do
      let driverStatus ← endCores s.isRunning s.cores xaieOk
      if driverStatus ≠ xaieOk then pure .aieDriverError else pure .ok

def controlMethod (pGraphConfig : Option GraphConfig) (mgr : ConfigManager) : ControlOp → GraphProgram Op ErrCode
  | .run => run pGraphConfig mgr
  | .runIter testIter => runIter pGraphConfig mgr testIter
  | .wait => wait pGraphConfig
  | .waitTimeout cycleTimeout => waitTimeout cycleTimeout
  | .resume => resume
  | .endGraph => endGraph pGraphConfig

@[irreducible] def controlCalls (pGraphConfig : Option GraphConfig) (mgr : ConfigManager) (ops : List ControlOp) :
    GraphProgram ControlOp (List ErrCode) :=
  Program.runAll (apiCall (controlMethod pGraphConfig mgr)) ops

def sampleGraph : GraphConfig where
  id := 0
  coreColumns := [1]
  coreRows := [0]
  iterMemColumns := [1]
  iterMemRows := [0]
  iterMemAddrs := [0x104]
  triggered := [0]
  broadcastColumn := 0

/-- A device without reserved rows that enables cores one by one. -/
def sampleManager : ConfigManager where
  devGen := xaieDevGenAieml
  numReservedRows := 0
  broadcastEnableCore := false

def willingDriver (calls : ℕ) : List DriverAnswer :=
  List.replicate calls { rc := xaieOk, value := 0, bytes := [], progress := 0 }

def sampleGraphWorld (calls : ℕ) : GraphWorld ControlOp :=
  (configure (some sampleGraph) sampleManager { state := .fresh, trace := [], script := willingDriver calls }).2

end AieBaremetal.Graph
