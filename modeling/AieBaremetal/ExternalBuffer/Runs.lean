import AieBaremetal.ExternalBuffer.Api

/-!
# What a call on an external buffer does

Given the answers of the platform, the calls of a transfer and of a ping-pong set-up are fixed. They
are described port by port: lookups and updates, the synchronisation if there is one, and the push. An
update also names the buffer it is meant for. Descriptors whose buffer index is neither 0 nor 1 read
behind the two addresses, so a set-up is only described for ports without them.
-/

namespace AieBaremetal.ExternalBuffer

open Common Common.Program AieBaremetal.Runtime Dma Metadata

/-- A lookup of a buffer, or an update of a descriptor meant for a buffer. -/
inductive BdStep where
  | lookup (vaddr : BitVec 64) (answer : DriverAnswer)
  | update (bd : ShimBDInfo) (vaddr address : BitVec 64) (answer : DriverAnswer)
  deriving DecidableEq, Repr

structure PortRun where
  port : ShimPortConfig
  steps : List BdStep
  sync : Option PlatformEvent
  startBd : BitVec 8
  task : DriverAnswer
  deriving DecidableEq, Repr

def portLoc (mgr : ConfigManager) (port : ShimPortConfig) : TileLoc := (shimChannel port).tile.loc mgr

def BdStep.event (mgr : ConfigManager) (port : ShimPortConfig) : BdStep → PlatformEvent
  | .lookup vaddr answer => ⟨.getDevAddr vaddr, answer⟩
  | .update bd _ address answer =>
    ⟨.dma (.updateBdAddr (portLoc mgr port) address ((bdNum bd).setWidth 16)), answer⟩

def taskCall (mgr : ConfigManager) (port : ShimPortConfig) (startBd : BitVec 8) : DmaCall :=
  startQueueCall mgr (shimChannel port) (shimTask port) startBd

def PortRun.events (mgr : ConfigManager) (r : PortRun) : List PlatformEvent :=
  r.steps.map (BdStep.event mgr r.port) ++ r.sync.toList ++ [⟨.dma (taskCall mgr r.port r.startBd), r.task⟩]

structure TransferReply where
  lookup : DriverAnswer
  updates : List DriverAnswer
  sync : DriverAnswer
  task : DriverAnswer
  deriving DecidableEq, Repr

/-- The answers for one descriptor of a ping-pong set-up. -/
structure BdReply where
  lookup : DriverAnswer
  update : DriverAnswer
  deriving DecidableEq, Repr

/-- The answers for one port of a ping-pong set-up. -/
structure PortReply where
  bds : List BdReply
  sync : DriverAnswer
  task : DriverAnswer
  deriving DecidableEq, Repr

/-- The local variables after a list of descriptors. -/
def BdLocals.countAll (l : BdLocals) (bds : List ShimBDInfo) : BdLocals := bds.foldl BdLocals.count l

def updateSteps (ddrAddress phyAddress : BitVec 64) : List ShimBDInfo → List DriverAnswer → List BdStep
  | bd :: bds, answer :: answers =>
    .update bd ddrAddress (bdAddress phyAddress bd) answer :: updateSteps ddrAddress phyAddress bds answers
  | _, _ => []

def transferRun (port : ShimPortConfig) (ddrAddress : BitVec 64) (r : TransferReply) (sync : Option PlatformEvent) :
    PortRun where
  port := port
  steps := .lookup ddrAddress r.lookup :: updateSteps ddrAddress (lookedUp 0#64 r.lookup) port.shimBDInfos r.updates
  sync := sync
  startBd := ((BdLocals.start 0#64).countAll port.shimBDInfos).startBd.setWidth 8
  task := r.task

def portSize (port : ShimPortConfig) :
    BitVec 64 := ((BdLocals.start 0#64).countAll port.shimBDInfos).transactionSize

/-- A set-up works on its arguments, unless the object has buffers already. -/
def SetupBuffers (s : BufferState) (ptr1 ptr2 ping pong : BitVec 64) : Prop :=
  if s.pingAddress = 0#64 ∧ s.pongAddress = 0#64 then ping = ptr1 ∧ pong = ptr2
  else ping = s.pingAddress ∧ pong = s.pongAddress

/-- The buffer a descriptor selects out of a ping and a pong buffer. -/
def selected (ping pong : BitVec 64) (bd : ShimBDInfo) : BitVec 64 := if bd.bufIdx = 0#32 then ping else pong

/-- The lookups and updates of a ping-pong port. -/
def pingpongSteps (buffer : ShimBDInfo → BitVec 64) (phyAddress : BitVec 64) :
    List ShimBDInfo → List BdReply → List BdStep
  | bd :: bds, r :: rs =>
    .lookup (buffer bd) r.lookup ::
      .update bd (buffer bd) (bdAddress (lookedUp phyAddress r.lookup) bd) r.update ::
      pingpongSteps buffer (lookedUp phyAddress r.lookup) bds rs
  | _, _ => []

/-- The device address after the lookups of a ping-pong port. -/
def phyAfter (phyAddress : BitVec 64) (rs : List BdReply) : BitVec 64 :=
  rs.foldl (fun phyAddress r => lookedUp phyAddress r.lookup) phyAddress

def pingpongRun (buffer : ShimBDInfo → BitVec 64) (synced : Bool) (port : ShimPortConfig) (r : PortReply) :
    PortRun where
  port := port
  steps := pingpongSteps buffer 0#64 port.shimBDInfos r.bds
  sync := if synced then some ⟨.syncForDev (phyAfter 0#64 r.bds) (portSize port), r.sync⟩ else none
  startBd := ((BdLocals.start 0#64).countAll port.shimBDInfos).startBd.setWidth 8
  task := r.task

/-- The answers of a ping-pong port as they come. -/
def PortReply.script (synced : Bool) (r : PortReply) : List DriverAnswer :=
  r.bds.flatMap (fun bd => [bd.lookup, bd.update]) ++ (if synced then [r.sync] else []) ++ [r.task]

def PortReply.Fits (port : ShimPortConfig) (r : PortReply) : Prop :=
  r.bds.length = port.shimBDInfos.length ∧ ∀ bd ∈ port.shimBDInfos, bd.bufIdx = 0#32 ∨ bd.bufIdx = 1#32

/-- The code of a ping-pong set-up is that of its last push. -/
def setupCode (status : ErrCode) (rs : List PortReply) : ErrCode :=
  rs.foldl (fun _ r => driverCode r.task.rc) status

section Locals

variable (l : BdLocals) (bds : List ShimBDInfo)

theorem countAll_phyAddress (phyAddress : BitVec 64) :
    { l with phyAddress }.countAll bds = { l.countAll bds with phyAddress } := by
  induction bds generalizing l with
  | nil => rfl
  | cons bd rest ih => exact ih (l.count bd)

theorem countAll_start (phyAddress : BitVec 64) :
    (BdLocals.start phyAddress).countAll bds = { (BdLocals.start 0#64).countAll bds with phyAddress } :=
  countAll_phyAddress (.start 0#64) bds phyAddress

/-- The first descriptor stays the first one once its number is not negative. -/
theorem startBd_countAll_of_nonneg (hl : 0 ≤ l.startBd.toInt) : (l.countAll bds).startBd = l.startBd := by
  induction bds generalizing l with
  | nil => rfl
  | cons bd rest ih =>
    have hcount : (l.count bd).startBd = l.startBd := if_neg (Int.not_lt.mpr hl)
    refine (ih (l.count bd) ?_).trans hcount
    rwa [hcount]

end Locals

section Calls

variable {mgr : ConfigManager} {aiesim : Bool} {config : ExternalBufferConfig} {port : ShimPortConfig}
  {s : BufferState} {τ : List PlatformEvent} {rest : List DriverAnswer}

theorem platform_run (call : PlatformCall) (answer : DriverAnswer) :
    platform call ⟨s, τ, answer :: rest⟩ = (.returned answer, ⟨s, τ ++ [⟨call, answer⟩], rest⟩) := rfl

theorem getAddress_run (phyAddress vaddr : BitVec 64) (answer : DriverAnswer) :
    getAddress phyAddress vaddr ⟨s, τ, answer :: rest⟩ =
      (.returned (lookedUp phyAddress answer), ⟨s, τ ++ [⟨.getDevAddr vaddr, answer⟩], rest⟩) := rfl

theorem modifyState_run (f : BufferState → BufferState) :
    (modifyState f : BufferProgram Unit) ⟨s, τ, rest⟩ = (.returned (), ⟨f s, τ, rest⟩) := rfl

theorem updateBDAddress_run (bd : ShimBDInfo) (vaddr address : BitVec 64) (answer : DriverAnswer) :
    updateBDAddress mgr (shimChannel port).tile (bdNum bd) address ⟨s, τ, answer :: rest⟩ =
      (.returned (driverCode (xaieOk ||| answer.rc)),
        ⟨s, τ ++ [(BdStep.update bd vaddr address answer).event mgr port], rest⟩) := rfl

theorem enqueuePort_run (l : BdLocals) (answer : DriverAnswer) :
    enqueuePort mgr port l ⟨s, τ, answer :: rest⟩ = (.returned (driverCode answer.rc),
        ⟨s, τ ++ [⟨.dma (taskCall mgr port (l.startBd.setWidth 8)), answer⟩], rest⟩) := by
  have hrc : xaieOk ||| answer.rc = answer.rc := BitVec.zero_or
  rw [← hrc]
  rfl

theorem updateBds_run (ddrAddress : BitVec 64) (l : BdLocals) (bds : List ShimBDInfo) (answers : List DriverAnswer)
    (hlength : answers.length = bds.length) :
    updateBds mgr port l bds ⟨s, τ, answers ++ rest⟩ = (.returned (l.countAll bds),
        ⟨s, τ ++ (updateSteps ddrAddress l.phyAddress bds answers).map (BdStep.event mgr port), rest⟩) := by
  induction bds generalizing l τ answers with
  | nil =>
    obtain rfl := List.length_eq_zero_iff.mp hlength
    simp only [updateBds, updateSteps, List.map_nil, List.append_nil]
    rfl
  | cons bd bds ih =>
    obtain ⟨answer, answers, rfl⟩ := List.exists_cons_of_length_eq_add_one hlength
    rw [updateBds, List.cons_append, bind_of_returned _ (updateBDAddress_run bd ddrAddress _ answer)]
    rw [ih (l.count bd) answers (Nat.succ_injective hlength)]
    simp only [updateSteps, List.map_cons, List.append_assoc]
    rfl

theorem onPort_of_none {portName : List UInt8} (hport : findPort config portName = none)
    (body : ShimPortConfig → BufferProgram ErrCode) : onPort config portName body = pure .ok := by
  rw [onPort, hport]
  exact ite_self _

theorem onPort_of_some {portName : List UInt8} (hport : findPort config portName = some port)
    (body : ShimPortConfig → BufferProgram ErrCode) : onPort config portName body = body port := by
  have hports : ¬config.shimPortConfigs.isEmpty = true := fun h => by
    rw [findPort, List.isEmpty_iff.mp h] at hport
    cases hport
  rw [onPort, if_neg hports, hport]

def BufferState.pushGm2aie (aiesim : Bool) (s : BufferState) (transaction : TransactionInfo) : BufferState :=
  if aiesim then { s with gm2aieBufQueue := s.gm2aieBufQueue ++ [transaction] } else s

def BufferState.pushAie2gm (aiesim : Bool) (s : BufferState) (transaction : TransactionInfo) : BufferState :=
  if aiesim then { s with aie2gmBufQueue := s.aie2gmBufQueue ++ [transaction] } else s

theorem transferNb_run {portName : List UInt8} (hport : findPort config portName = some port) (r : TransferReply)
    (hlength : r.updates.length = port.shimBDInfos.length) {script : List DriverAnswer} {s' : BufferState}
    {synced : Option PlatformEvent} {sync : BitVec 64 → BdLocals → BufferProgram Unit}
    (hsync : ∀ τ, sync s.ddrAddress ((BdLocals.start (lookedUp 0#64 r.lookup)).countAll port.shimBDInfos)
      ⟨s, τ, script⟩ = (.returned (), ⟨s', τ ++ synced.toList, r.task :: rest⟩)) :
    transferNb mgr config portName sync ⟨s, τ, r.lookup :: (r.updates ++ script)⟩ =
      (.returned (driverCode r.task.rc), ⟨s', τ ++ (transferRun port s.ddrAddress r synced).events mgr, rest⟩) := by
  rw [transferNb, onPort_of_some hport, getState_bind, bind_of_returned _ (getAddress_run _ _ _),
    bind_of_returned _ (updateBds_run s.ddrAddress _ _ _ hlength), bind_of_returned _ (hsync _), enqueuePort_run,
    countAll_start]
  simp only [PortRun.events, transferRun, List.append_assoc]
  rfl

theorem gm2aieNb_run {portName : List UInt8} (hport : findPort config portName = some port) (r : TransferReply)
    (hlength : r.updates.length = port.shimBDInfos.length) :
    gm2aieNb aiesim mgr config portName ⟨s, τ, r.lookup :: (r.updates ++ r.sync :: r.task :: rest)⟩ =
      (.returned (driverCode r.task.rc), ⟨s.pushGm2aie aiesim ⟨s.ddrAddress, lookedUp 0#64 r.lookup, portSize port⟩,
          τ ++ (transferRun port s.ddrAddress r (some ⟨.syncForDev s.ddrAddress (portSize port), r.sync⟩)).events
            mgr,
          rest⟩) := by
  refine transferNb_run hport r hlength fun τ => ?_
  rw [countAll_start]
  cases aiesim <;> rfl

/-- What a transfer from the array synchronises: on hardware the device address, taken for a pointer. -/
def aie2gmSync (aiesim : Bool) (port : ShimPortConfig) (r : TransferReply) : Option PlatformEvent :=
  if aiesim then none else some ⟨.syncForDev (lookedUp 0#64 r.lookup) (portSize port), r.sync⟩

theorem aie2gmNb_run {portName : List UInt8} (hport : findPort config portName = some port) (r : TransferReply)
    (hlength : r.updates.length = port.shimBDInfos.length) :
    aie2gmNb aiesim mgr config portName
        ⟨s, τ, r.lookup :: (r.updates ++ ((if aiesim then [] else [r.sync]) ++ r.task :: rest))⟩ =
      (.returned (driverCode r.task.rc), ⟨s.pushAie2gm aiesim ⟨s.ddrAddress, lookedUp 0#64 r.lookup, portSize port⟩,
          τ ++ (transferRun port s.ddrAddress r (aie2gmSync aiesim port r)).events mgr, rest⟩) := by
  refine transferNb_run hport r hlength fun τ => ?_
  rw [countAll_start]
  cases aiesim with
  | false => rfl
  | true =>
    simp only [aie2gmSync, if_true, Option.toList_none, List.append_nil]
    rfl

/-- A descriptor with index 0 or 1 selects the ping or the pong address of the object. -/
theorem pingpongAddress_eq {bd : ShimBDInfo} (hidx : bd.bufIdx = 0#32 ∨ bd.bufIdx = 1#32) :
    s.pingpongAddress bd.bufIdx = some (selected s.pingAddress s.pongAddress bd) := by
  obtain h | h := hidx
  · simp [selected, BufferState.pingpongAddress, h]
  · simp [selected, BufferState.pingpongAddress, h]

/-- The loop over the descriptors of a ping-pong port. -/
theorem updatePingPongBds_run (s₀ : BufferState) (l : BdLocals) (transaction : TransactionInfo)
    (bds : List ShimBDInfo) (rs : List BdReply) (hlength : rs.length = bds.length)
    (hidx : ∀ bd ∈ bds, bd.bufIdx = 0#32 ∨ bd.bufIdx = 1#32) :
    ∃ transaction', updatePingPongBds mgr s₀ port l transaction bds
        ⟨s, τ, rs.flatMap (fun r => [r.lookup, r.update]) ++ rest⟩ =
      (.returned ({ l.countAll bds with phyAddress := phyAfter l.phyAddress rs }, transaction'),
        ⟨s, τ ++ (pingpongSteps (selected s₀.pingAddress s₀.pongAddress) l.phyAddress bds rs).map
          (BdStep.event mgr port), rest⟩) := by
  induction bds generalizing l τ rs transaction with
  | nil =>
    obtain rfl := List.length_eq_zero_iff.mp hlength
    refine ⟨transaction, ?_⟩
    simp only [updatePingPongBds, pingpongSteps, List.map_nil, List.append_nil]
    rfl
  | cons bd bds ih =>
    obtain ⟨r, rs, rfl⟩ := List.exists_cons_of_length_eq_add_one hlength
    obtain ⟨hbd, hbds⟩ := List.forall_mem_cons.mp hidx
    let vaddr := selected s₀.pingAddress s₀.pongAddress bd
    let l' : BdLocals := { l with phyAddress := lookedUp l.phyAddress r.lookup }.count bd
    obtain ⟨transaction', hrest⟩ := @ih
      (τ ++ [⟨.getDevAddr vaddr, r.lookup⟩] ++
        [(BdStep.update bd vaddr (bdAddress (lookedUp l.phyAddress r.lookup) bd) r.update).event mgr port])
      l' ⟨vaddr, l'.phyAddress, l'.transactionSize⟩ rs (Nat.succ_injective hlength) hbds
    refine ⟨transaction', ?_⟩
    rw [updatePingPongBds, ofOption_bind (pingpongAddress_eq hbd), List.flatMap_cons, List.append_assoc,
      List.cons_append, bind_of_returned _ (getAddress_run _ _ _), List.cons_append,
      bind_of_returned _ (updateBDAddress_run bd vaddr _ _)]
    refine hrest.trans ?_
    have hcount : l'.countAll bds =
      { (l.count bd).countAll bds with phyAddress := lookedUp l.phyAddress r.lookup } :=
      countAll_phyAddress (l.count bd) bds _
    rw [hcount]
    simp only [pingpongSteps, List.map_cons, List.append_assoc]
    rfl

/-- One turn of the loop over the ports. -/
theorem setupPort_run (s₀ : BufferState) (syncCache : Bool) (r : PortReply) (hfits : r.Fits port) :
    ∃ s', setupPort aiesim mgr s₀ syncCache port ⟨s, τ, r.script (!aiesim && syncCache) ++ rest⟩ =
      (.returned (driverCode r.task.rc),
        ⟨s', τ ++ (pingpongRun (selected s₀.pingAddress s₀.pongAddress) (!aiesim && syncCache) port r).events mgr,
          rest⟩) := by
  obtain ⟨hlength, hidx⟩ := hfits
  obtain ⟨transaction, hsteps⟩ := @updatePingPongBds_run mgr port s τ
    ((if (!aiesim && syncCache) = true then [r.sync] else []) ++ ([r.task] ++ rest)) s₀ (.start 0#64)
    ⟨0#64, 0#64, 0#64⟩ _ _ hlength hidx
  rw [setupPort, PortReply.script, List.append_assoc, List.append_assoc, bind_of_returned _ hsteps]
  cases aiesim with
  | false =>
    refine ⟨s, ?_⟩
    cases syncCache with
    | false =>
      refine (enqueuePort_run _ _).trans ?_
      simp only [PortRun.events, pingpongRun, List.append_assoc]
      rfl
    | true =>
      refine (bind_of_returned _ (platform_run _ _)).trans ((enqueuePort_run _ _).trans ?_)
      simp only [PortRun.events, pingpongRun, List.append_assoc]
      rfl
  | true =>
    refine ⟨s.remember port transaction, ?_⟩
    refine (bind_of_returned _ (modifyState_run _)).trans ((enqueuePort_run _ _).trans ?_)
    simp only [PortRun.events, pingpongRun, List.append_assoc]
    rfl

/-- One answer for each call of several ports. -/
def SetupFits (ports : List ShimPortConfig) (rs : List PortReply) : Prop :=
  List.Forall₂ (fun port r => PortReply.Fits port r) ports rs

/-- What a ping-pong set-up does, port by port. -/
def pingpongRuns (buffer : ShimBDInfo → BitVec 64) (synced : Bool) (ports : List ShimPortConfig)
    (rs : List PortReply) :
    List PortRun :=
  List.zipWith (pingpongRun buffer synced) ports rs

/-- The loop over the ports of a ping-pong set-up. -/
theorem setupPorts_run (s₀ : BufferState) (syncCache : Bool) (status : ErrCode) {ports : List ShimPortConfig}
    {rs : List PortReply} (hfits : SetupFits ports rs) :
    ∃ s', setupPorts aiesim mgr s₀ syncCache status ports
        ⟨s, τ, rs.flatMap (PortReply.script (!aiesim && syncCache)) ++ rest⟩ = (.returned (setupCode status rs),
        ⟨s', τ ++ (pingpongRuns (selected s₀.pingAddress s₀.pongAddress) (!aiesim && syncCache) ports rs).flatMap
          (PortRun.events mgr), rest⟩) := by
  induction hfits generalizing s τ status with
  | nil =>
    refine ⟨s, ?_⟩
    simp only [pingpongRuns, List.zipWith_nil_left, List.flatMap_nil, List.append_nil]
    rfl
  | @cons port r ports rs hport hports ih =>
    obtain ⟨s₁, hrun₁⟩ := @setupPort_run mgr aiesim port s τ
      (rs.flatMap (PortReply.script (!aiesim && syncCache)) ++ rest) s₀ syncCache r hport
    obtain ⟨s₂, hrun₂⟩ := @ih s₁
      (τ ++ (pingpongRun (selected s₀.pingAddress s₀.pongAddress) (!aiesim && syncCache) port r).events mgr)
      (driverCode r.task.rc)
    refine ⟨s₂, ?_⟩
    rw [setupPorts, List.flatMap_cons, List.append_assoc, bind_of_returned _ hrun₁, hrun₂, List.append_assoc]
    rfl

/-- A ping-pong set-up does its work port by port, on the buffers it works on. -/
theorem setupPingPongBuffers_run {ptr1 ptr2 ping pong : BitVec 64} (hbuffers : SetupBuffers s ptr1 ptr2 ping pong)
    (syncCache : Bool) {rs : List PortReply} (hfits : SetupFits config.shimPortConfigs rs) :
    ∃ s', setupPingPongBuffers aiesim mgr config ptr1 ptr2 syncCache
        ⟨s, τ, rs.flatMap (PortReply.script (!aiesim && syncCache)) ++ rest⟩ = (.returned (setupCode .ok rs),
        ⟨s', τ ++ (pingpongRuns (selected ping pong) (!aiesim && syncCache) config.shimPortConfigs rs).flatMap
          (PortRun.events mgr), rest⟩) := by
  have hstored : (s.setPingPong ptr1 ptr2).pingAddress = ping ∧ (s.setPingPong ptr1 ptr2).pongAddress = pong := by
    unfold SetupBuffers at hbuffers
    unfold BufferState.setPingPong
    split <;> simp_all
  obtain ⟨s', hrun⟩ :=
    @setupPorts_run mgr aiesim (s.setPingPong ptr1 ptr2) τ rest (s.setPingPong ptr1 ptr2) syncCache
    .ok _ _ hfits
  rw [hstored.1, hstored.2] at hrun
  exact ⟨s', hrun⟩

end Calls

end AieBaremetal.ExternalBuffer
