import AieBaremetal.Common.DrainedQueue
import AieBaremetal.Common.Recorded
import AieBaremetal.Graph.Frame
import AieBaremetal.Graph.Rtp
import AieBaremetal.Graph.SharedBuffer

/-!
# Which updates take locks as the first ones

On a device with semaphores the first update of an asynchronous parameter, or of a shared buffer without
initial value, acquires locks with other values than later ones. A graph object remembers the ids of its
parameters, and the process those of the shared buffers of all graphs, as soon as the checks have passed.

Parameters, buffers and graphs are told apart by their identity in the application, not by their ids.
Between updates a graph object may change in every way that keeps its list, as all control methods do.
-/

namespace AieBaremetal.Graph

open Common Common.Program AieBaremetal.Runtime

variable {G P B : Type}

/-- The graphs, parameters and shared buffers of an application. -/
structure Application (G P B : Type) where
  mgr : ConfigManager
  graph : G → Option GraphConfig
  port : P → RtpConfig
  buffer : B → SharedBufferConfig

inductive UpdateTarget (P B : Type) where
  | port (p : P)
  | buffer (b : B)

/-- An update that returned and the values it acquired locks with. -/
structure UpdateRecord (G P B : Type) where
  graph : G
  target : UpdateTarget P B
  numBytes : BitVec 64
  isRunning : Bool
  code : ErrCode
  acquired : List (BitVec 8)

/-- The graph objects and the static of the process. -/
structure UpdateState (G : Type) where
  graphs : G → GraphState
  readOnlySharedBufferInitialized : List (BitVec 32)

section Objects

variable [DecidableEq G] {s : UpdateState G} {g g' : G} {s' : GraphState}

def UpdateState.setGraph (s : UpdateState G) (g : G) (s' : GraphState) : UpdateState G :=
  { s with graphs := Function.update s.graphs g s' }

@[simp] theorem UpdateState.setGraph_self : (s.setGraph g s').graphs g = s' := by simp [UpdateState.setGraph]

theorem UpdateState.setGraph_of_ne (hg : g' ≠ g) : (s.setGraph g s').graphs g' = s.graphs g' := by
  simp [UpdateState.setGraph, hg]

theorem UpdateState.setGraph_ports (hkept : s'.asyncNotFirstTimePorts = (s.graphs g).asyncNotFirstTimePorts)
    (g' : G) :
    ((s.setGraph g s').graphs g').asyncNotFirstTimePorts = (s.graphs g').asyncNotFirstTimePorts := by
  by_cases hg : g' = g
  · rw [hg, UpdateState.setGraph_self, hkept]
  · rw [UpdateState.setGraph_of_ne hg]

end Objects

def acquireOf : DriverCall → Option (BitVec 8)
  | .lockAcquire _ lock => some lock.lockVal
  | _ => none

def acquiredVal : Event ControlOp → Option (BitVec 8)
  | .driver call _ => acquireOf call
  | _ => none

/-- Updates that returned one after another, from new graph objects on. -/
inductive UpdateHistory [DecidableEq G] (app : Application G P B) : List (UpdateRecord G P B) → UpdateState G → Prop
  | nil (graphs : G → GraphState) (hnew : ∀ g, (graphs g).asyncNotFirstTimePorts = []) :
      UpdateHistory app [] ⟨graphs, []⟩
  | other {records : List (UpdateRecord G P B)} {s : UpdateState G} (before : UpdateHistory app records s) (g : G)
      (s' : GraphState) (hkept : s'.asyncNotFirstTimePorts = (s.graphs g).asyncNotFirstTimePorts) :
      UpdateHistory app records (s.setGraph g s')
  | port {records : List (UpdateRecord G P B)} {s : UpdateState G} {s' : GraphState} {g : G} {p : P}
      {pValue : List UInt8} {numBytes : BitVec 64} {code : ErrCode} {events : List (Event ControlOp)}
      {script rest : List DriverAnswer} (before : UpdateHistory app records s)
      (returned : update (app.graph g) app.mgr (some (app.port p)) pValue numBytes ⟨s.graphs g, [], script⟩ =
        (.returned code, ⟨s', events, rest⟩)) :
      UpdateHistory app
        (records ++ [⟨g, .port p, numBytes, (s.graphs g).isRunning, code, events.filterMap acquiredVal⟩])
        (s.setGraph g s')
  | buffer {records : List (UpdateRecord G P B)} {s : UpdateState G} {initialized : List (BitVec 32)}
      {g : G} {b : B}
      {pValue : List UInt8} {numBytes : BitVec 64} {code : ErrCode} {events : List (Event ControlOp)}
      {script rest : List DriverAnswer} (before : UpdateHistory app records s)
      (returned : updateSharedBuffer (app.graph g) (some (app.buffer b)) pValue numBytes
          ⟨s.readOnlySharedBufferInitialized, [], script⟩ = (.returned code, ⟨initialized, events, rest⟩)) :
      UpdateHistory app
        (records ++ [⟨g, .buffer b, numBytes, (s.graphs g).isRunning, code, events.filterMap acquiredVal⟩])
        { s with readOnlySharedBufferInitialized := initialized }

variable {code : ErrCode} {g : G} {ids : List (BitVec 32)} {numBytes : BitVec 64} {pValue : List UInt8}
  {rest : List DriverAnswer} {s' : GraphState}

section Accounts

variable (app : Application G P B)

def UpdateRecord.accepted (r : UpdateRecord G P B) : Bool :=
  match r.target with
  | .port p => checkRtpConfigForUpdate (some (app.port p)) (app.graph r.graph) r.numBytes r.isRunning = .ok
  | .buffer b => checkSharedBufferConfigForUpdate (some (app.buffer b)) (app.graph r.graph) r.numBytes = .ok

/-- An update acquires locks. -/
def UpdateRecord.takesLocks (r : UpdateRecord G P B) : Bool :=
  r.accepted app && match r.target with
    | .port p => (app.port p).hasLock && (app.port p).mayLock r.isRunning
    | .buffer _ => true

def UpdateTarget.acquireVals (again : Bool) : UpdateTarget P B → List (BitVec 8)
  | .port p =>
    let acquireVal := (app.port p).updateAcquireVal app.mgr (if again then [(app.port p).portId] else [])
    [acquireVal, acquireVal]
  | .buffer b =>
    let initialized := if again then [(app.buffer b).key] else []
    [(app.buffer b).prdLockAcqVal initialized, (app.buffer b).cnsLockAcqVal initialized]

/-- The first time is different from later ones. -/
def UpdateTarget.hasFirstTime : UpdateTarget P B → Bool
  | .port p => hasSemaphores app.mgr && (app.port p).isAsync
  | .buffer b => !(app.buffer b).initialized

/-- An asynchronous parameter with this id passed the checks of an update. -/
def PortMarked (records : List (UpdateRecord G P B)) (g : G) (portId : BitVec 32) : Prop :=
  ∃ r ∈ records, r.accepted app = true ∧ r.graph = g ∧
    ∃ p, r.target = .port p ∧ (app.port p).portId = portId ∧ (app.port p).isAsync = true

/-- A shared buffer with this id passed the checks of an update. -/
def BufferMarked (records : List (UpdateRecord G P B)) (key : BitVec 32) : Prop :=
  ∃ r ∈ records, r.accepted app = true ∧ ∃ b, r.target = .buffer b ∧ (app.buffer b).key = key

/-- Before an update, one under the same id passed the checks. -/
def Marked (before : List (UpdateRecord G P B)) (r : UpdateRecord G P B) : Prop :=
  match r.target with
  | .port p => PortMarked app before r.graph (app.port p).portId
  | .buffer b => BufferMarked app before (app.buffer b).key

/-- Before an update, one of the same parameter or buffer of its graph returned ok. -/
def Succeeded (before : List (UpdateRecord G P B)) (r : UpdateRecord G P B) : Prop :=
  ∃ earlier ∈ before, earlier.graph = r.graph ∧ earlier.target = r.target ∧ earlier.code = .ok

/-- Locks are acquired with the first-time values until an update returned ok, and with the steady ones then. -/
def FollowsOutcomes (records : List (UpdateRecord G P B)) : Prop :=
  AtEach (fun before r => r.acquired ≠ [] →
    (Succeeded before r → r.acquired = r.target.acquireVals app true) ∧
      (¬Succeeded before r → r.acquired = r.target.acquireVals app false)) records

/-- Where the first time matters, updates under the same id and successful updates agree. -/
def MarksAreOutcomes (records : List (UpdateRecord G P B)) : Prop :=
  AtEach (fun before r => r.takesLocks app = true → r.target.hasFirstTime app = true →
    (Marked app before r ↔ Succeeded before r)) records

def FollowsMarks (before : List (UpdateRecord G P B)) (r : UpdateRecord G P B) : Prop :=
  if r.takesLocks app then
    (Marked app before r → r.acquired = r.target.acquireVals app true) ∧
      (¬Marked app before r → r.acquired = r.target.acquireVals app false)
  else r.acquired = []

end Accounts

section Values

variable {app : Application G P B} {mgr : ConfigManager} {rtp : RtpConfig} {buffer : SharedBufferConfig}

theorem updateAcquireVal_congr {ports ports' : List (BitVec 32)}
    (h : hasSemaphores mgr = true → (rtp.portId ∈ ports ↔ rtp.portId ∈ ports')) :
    rtp.updateAcquireVal mgr ports = rtp.updateAcquireVal mgr ports' := by
  unfold RtpConfig.updateAcquireVal
  by_cases hsem : hasSemaphores mgr = true
  · simp only [h hsem]
  · simp only [hsem, Bool.false_eq_true, false_and, if_false]

theorem acquiresNothing_congr {ids' : List (BitVec 32)} (h : buffer.key ∈ ids ↔ buffer.key ∈ ids') :
    buffer.acquiresNothing ids = buffer.acquiresNothing ids' := by
  simp only [SharedBufferConfig.acquiresNothing, List.contains_eq_mem, h]

theorem UpdateTarget.acquireVals_ne_nil (again : Bool) (target : UpdateTarget P B) :
    target.acquireVals app again ≠ [] := by
  cases target with
  | port p => exact List.cons_ne_nil _ _
  | buffer b => exact List.cons_ne_nil _ _

theorem UpdateTarget.acquireVals_inj_iff (target : UpdateTarget P B) :
    target.acquireVals app true = target.acquireVals app false ↔ target.hasFirstTime app = false := by
  cases target with
  | port p =>
    simp only [UpdateTarget.acquireVals, UpdateTarget.hasFirstTime, RtpConfig.updateAcquireVal]
    cases hasSemaphores app.mgr <;> cases (app.port p).isAsync <;> simp [aieMlAsyncAcq, aieMlAsyncAcqFirstTime]
  | buffer b =>
    have hagain : (app.buffer b).acquiresNothing [(app.buffer b).key] = false := by
      simp [SharedBufferConfig.acquiresNothing]
    have hfirst : (app.buffer b).acquiresNothing [] = !(app.buffer b).initialized := by
      simp [SharedBufferConfig.acquiresNothing]
    simp only [UpdateTarget.acquireVals, UpdateTarget.hasFirstTime, SharedBufferConfig.prdLockAcqVal,
      SharedBufferConfig.cnsLockAcqVal, if_true, Bool.false_eq_true, if_false, hagain, hfirst]
    generalize (app.buffer b).initialized = initialized
    cases initialized <;> simp

/-- At one update, outcomes are followed exactly when they agree with what is remembered. -/
theorem FollowsMarks.outcomes_iff {before : List (UpdateRecord G P B)} {r : UpdateRecord G P B}
    (h : FollowsMarks app before r) :
    (r.acquired ≠ [] → (Succeeded before r → r.acquired = r.target.acquireVals app true) ∧
        (¬Succeeded before r → r.acquired = r.target.acquireVals app false)) ↔
      (r.takesLocks app = true → r.target.hasFirstTime app = true →
        (Marked app before r ↔ Succeeded before r)) := by
  rw [FollowsMarks] at h
  cases htakes : r.takesLocks app with
  | false =>
    rw [htakes, if_neg Bool.false_ne_true] at h
    exact iff_of_true (fun hne => absurd h hne) nofun
  | true =>
    rw [htakes, if_pos rfl] at h
    obtain ⟨hmarked, hnew⟩ := h
    have hne : r.acquired ≠ [] := by
      by_cases hm : Marked app before r
      · rw [hmarked hm]
        exact r.target.acquireVals_ne_nil true
      · rw [hnew hm]
        exact r.target.acquireVals_ne_nil false
    have hsteady : r.target.acquireVals app true = r.target.acquireVals app false ↔
      r.target.hasFirstTime app = false :=
      r.target.acquireVals_inj_iff
    have hfirst : r.target.acquireVals app false = r.target.acquireVals app true ↔
      r.target.hasFirstTime app = false :=
      eq_comm.trans hsteady
    by_cases hm : Marked app before r
    · by_cases hs : Succeeded before r
      · simp [hm, hs, hmarked hm]
      · simp [hm, hs, hmarked hm, hsteady, UpdateTarget.acquireVals_ne_nil]
    · by_cases hs : Succeeded before r
      · simp [hm, hs, hnew hm, hfirst, UpdateTarget.acquireVals_ne_nil]
      · simp [hm, hs, hnew hm]

end Values

section Steps

variable {S T : Type} {part : S → T} {call : DriverCall} {mgr : ConfigManager} {rtp : RtpConfig}

theorem records_xaie (call : DriverCall) :
    Records acquiredVal part (acquireOf call).toList (xaie call : DriverProgram ControlOp S DriverAnswer) :=
  records_ask fun _ => rfl

theorem records_xaieStatus (driverStatus : BitVec 32) (call : DriverCall) :
    Records acquiredVal part (acquireOf call).toList
      (xaieStatus driverStatus call : DriverProgram ControlOp S (BitVec 32)) := by
  rw [← List.append_nil (acquireOf call).toList]
  exact (records_xaie call).bind fun _ => records_pure _

theorem records_xaieWhen {part : GraphState → T} (needed : Bool) (driverStatus : BitVec 32) (call : DriverCall) :
    Records acquiredVal part (if needed then (acquireOf call).toList else [])
      (xaieWhen needed driverStatus call : GraphProgram ControlOp (BitVec 32)) := by
  cases needed with
  | false => exact records_pure _
  | true => exact records_xaieStatus driverStatus call

theorem records_release {part : GraphState → T} (needed : Bool) (driverStatus : BitVec 32)
    (loc : TileLoc) (lock : Lock) :
    Records acquiredVal part []
      (xaieWhen needed driverStatus (.lockRelease loc lock) : GraphProgram ControlOp (BitVec 32)) := by
  cases needed with
  | false => exact records_pure _
  | true => exact records_xaieStatus driverStatus (.lockRelease loc lock)

theorem records_updateBuffer (lock : Bool) (acquireVal : BitVec 8) (pValue : List UInt8) (numBytes : BitVec 64) :
    Records acquiredVal GraphState.asyncNotFirstTimePorts (if lock then [acquireVal, acquireVal] else [])
      (updateBuffer mgr rtp lock acquireVal pValue numBytes : GraphProgram ControlOp ErrCode) := by
  have hvals : (if lock then [acquireVal, acquireVal] else []) =
      (if lock then [acquireVal] else []) ++ ((if lock then [acquireVal] else []) ++ []) := by cases lock <;> rfl
  rw [hvals]
  refine Records.bind (records_xaieWhen lock _ _) fun _ => ?_
  refine Records.quiet (records_xaie _) fun answer => ?_
  refine Records.bind (records_xaieWhen lock _ _) fun _ => ?_
  refine Records.quiet (records_xaieStatus _ _) fun _ => ?_
  refine Records.quiet (records_xaieStatus _ _) fun _ => ?_
  refine Records.quiet (records_release _ _ _ _) fun _ => ?_
  refine Records.quiet (records_release _ _ _ _) fun _ => ?_
  split
  · exact records_pure _
  · exact records_pure _

theorem records_writeSharedBuffer (buffer : SharedBufferConfig) (prdLockAcqVal cnsLockAcqVal : BitVec 8)
    (pValue : List UInt8) (numBytes : BitVec 64) :
    Records acquiredVal id [prdLockAcqVal, cnsLockAcqVal]
      (writeSharedBuffer buffer prdLockAcqVal cnsLockAcqVal pValue numBytes :
        SharedBufferProgram ControlOp ErrCode) := by
  refine Records.quiet (records_ofOption _) fun producer => ?_
  refine Records.single (records_xaieStatus _ _) fun _ => ?_
  refine Records.quiet (records_ofOption _) fun consumer => ?_
  refine Records.single (records_xaieStatus _ _) fun _ => ?_
  refine Records.quiet (records_ofOption _) fun addr => ?_
  refine Records.quiet (records_xaieStatus _ _) fun _ => ?_
  refine Records.quiet (records_xaieStatus _ _) fun _ => ?_
  refine Records.quiet (records_xaieStatus _ _) fun _ => ?_
  split
  · exact records_pure _
  · exact records_pure _

theorem update_returned {pGraphConfig : Option GraphConfig}
    {s : GraphState} {events : List (Event ControlOp)} {script : List DriverAnswer}
    (h : update pGraphConfig mgr (some rtp) pValue numBytes ⟨s, [], script⟩ =
      (.returned code, ⟨s', events, rest⟩)) :
    if checkRtpConfigForUpdate (some rtp) pGraphConfig numBytes s.isRunning = .ok then
      s'.asyncNotFirstTimePorts = rtp.notFirstTime mgr s.asyncNotFirstTimePorts ∧ events.filterMap acquiredVal =
          if rtp.hasLock && rtp.mayLock s.isRunning then
            [rtp.updateAcquireVal mgr s.asyncNotFirstTimePorts, rtp.updateAcquireVal mgr s.asyncNotFirstTimePorts]
          else [] else s'.asyncNotFirstTimePorts = s.asyncNotFirstTimePorts ∧
          events.filterMap acquiredVal = [] := by
  cases pGraphConfig with
  | none =>
    cases h
    exact ⟨rfl, rfl⟩
  | some cfg =>
    split
    · next hok =>
      rw [update_of_ok pValue hok] at h
      obtain ⟨_, w₁, hmark, h⟩ := exists_of_bind_returned h
      cases hmark
      obtain ⟨hvals, hports⟩ := records_updateBuffer _ _ _ _ _ _ _ h
      exact ⟨hports, hvals⟩
    · next hrefused =>
      rw [update_of_not_ok pValue hrefused] at h
      cases h
      exact ⟨rfl, rfl⟩

theorem updateSharedBuffer_returned {pGraphConfig : Option GraphConfig} {buffer : SharedBufferConfig}
    {ids' : List (BitVec 32)} {events : List (Event ControlOp)} {script : List DriverAnswer}
    (h : updateSharedBuffer pGraphConfig (some buffer) pValue numBytes ⟨ids, [], script⟩ =
      (.returned code, ⟨ids', events, rest⟩)) :
    if checkSharedBufferConfigForUpdate (some buffer) pGraphConfig numBytes = .ok then ids' =
      ids.insert buffer.key ∧
        events.filterMap acquiredVal = [buffer.prdLockAcqVal ids, buffer.cnsLockAcqVal ids]
    else ids' = ids ∧ events.filterMap acquiredVal = [] := by
  cases pGraphConfig with
  | none =>
    cases h
    exact ⟨rfl, rfl⟩
  | some cfg =>
    split
    · next hok =>
      rw [updateSharedBuffer_of_ok pValue _ hok] at h
      obtain ⟨hvals, hids⟩ := records_writeSharedBuffer _ _ _ _ _ _ _ _ h
      exact ⟨hids, hvals⟩
    · next hrefused =>
      rw [updateSharedBuffer_of_not_ok pValue _ hrefused] at h
      cases h
      exact ⟨rfl, rfl⟩

end Steps

section Histories

variable {app : Application G P B} {records : List (UpdateRecord G P B)} {s : UpdateState G}
    {r : UpdateRecord G P B}

theorem portMarked_snoc {portId : BitVec 32} :
    PortMarked app (records ++ [r]) g portId ↔ PortMarked app records g portId ∨
    r.accepted app = true ∧ r.graph = g ∧
        ∃ p, r.target = .port p ∧ (app.port p).portId = portId ∧ (app.port p).isAsync = true := by
  simp only [PortMarked, List.mem_append, List.mem_singleton, or_and_right, exists_or, exists_eq_left]

theorem bufferMarked_snoc {key : BitVec 32} :
    BufferMarked app (records ++ [r]) key ↔ BufferMarked app records key ∨
      r.accepted app = true ∧ ∃ b, r.target = .buffer b ∧ (app.buffer b).key = key := by
  simp only [BufferMarked, List.mem_append, List.mem_singleton, or_and_right, exists_or, exists_eq_left]

/-- The list and the set of a state are what updates marked. -/
structure RemembersMarks (app : Application G P B) (records : List (UpdateRecord G P B)) (s : UpdateState G) :
    Prop where
  ports : hasSemaphores app.mgr = true → ∀ g portId,
    portId ∈ (s.graphs g).asyncNotFirstTimePorts ↔ PortMarked app records g portId
  buffers : ∀ key, key ∈ s.readOnlySharedBufferInitialized ↔ BufferMarked app records key

theorem RtpConfig.mem_notFirstTime_iff {mgr : ConfigManager} {rtp : RtpConfig} {ports : List (BitVec 32)}
    {portId : BitVec 32} (hsem : hasSemaphores mgr = true) :
    portId ∈ rtp.notFirstTime mgr ports ↔ portId ∈ ports ∨ rtp.portId = portId ∧ rtp.isAsync = true := by
  rw [RtpConfig.notFirstTime]
  split
  · next h => simp [h.2.1, eq_comm]
  · next h =>
    refine (or_iff_left_of_imp ?_).symm
    rintro ⟨rfl, hasync⟩
    by_contra hnew
    exact h ⟨hsem, hasync, hnew⟩

/-- An update of a parameter keeps the marks and acquires locks by them. -/
theorem RemembersMarks.port [DecidableEq G] (h : RemembersMarks app records s) {p : P}
    {events : List (Event ControlOp)} {script : List DriverAnswer}
    (returned : update (app.graph g) app.mgr (some (app.port p)) pValue numBytes ⟨s.graphs g, [], script⟩ =
      (.returned code, ⟨s', events, rest⟩)) :
    let r : UpdateRecord G P B := ⟨g, .port p, numBytes, (s.graphs g).isRunning, code, events.filterMap acquiredVal⟩
    RemembersMarks app (records ++ [r]) (s.setGraph g s') ∧
      FollowsMarks app records r := by
  intro r
  have hupdate := update_returned returned
  have hbuffers (key : BitVec 32) : key ∈ s.readOnlySharedBufferInitialized ↔
    BufferMarked app (records ++ [r]) key := by
    rw [bufferMarked_snoc, h.buffers]
    exact (or_iff_left fun ⟨_, b, hb, _⟩ => nomatch hb).symm
  by_cases hok : checkRtpConfigForUpdate (some (app.port p)) (app.graph g) numBytes (s.graphs g).isRunning = .ok
  · have haccepted : r.accepted app = true := decide_eq_true hok
    rw [if_pos hok] at hupdate
    obtain ⟨hports, hvals⟩ := hupdate
    refine ⟨⟨fun hsem g' portId => ?_, hbuffers⟩, ?_⟩
    · rw [portMarked_snoc, ← h.ports hsem]
      by_cases hg : g' = g
      · subst hg
        rw [UpdateState.setGraph_self, hports, RtpConfig.mem_notFirstTime_iff hsem]
        simp [r, haccepted]
      · rw [UpdateState.setGraph_of_ne hg]
        exact (or_iff_left fun hmark => hg hmark.2.1.symm).symm
    · have hval (again : Bool) (hagain : again = true ↔ PortMarked app records g (app.port p).portId) :
          (app.port p).updateAcquireVal app.mgr (s.graphs g).asyncNotFirstTimePorts =
            (app.port p).updateAcquireVal app.mgr (if again then [(app.port p).portId] else []) := by
        refine updateAcquireVal_congr fun hsem => ?_
        rw [h.ports hsem, ← hagain]
        cases again <;> simp
      have htakes : r.takesLocks app = ((app.port p).hasLock && (app.port p).mayLock (s.graphs g).isRunning) := by
        rw [UpdateRecord.takesLocks, haccepted, Bool.true_and]
      rw [FollowsMarks, htakes]
      by_cases hlock : ((app.port p).hasLock && (app.port p).mayLock (s.graphs g).isRunning) = true
      · rw [if_pos hlock] at hvals ⊢
        refine ⟨fun hmarked => hvals.trans ?_, fun hnew => hvals.trans ?_⟩
        · rw [hval true (iff_of_true rfl hmarked)]
          rfl
        · rw [hval false (iff_of_false Bool.false_ne_true hnew)]
          rfl
      · rw [if_neg hlock] at hvals ⊢
        exact hvals
  · have haccepted : r.accepted app = false := decide_eq_false hok
    rw [if_neg hok] at hupdate
    obtain ⟨hports, hvals⟩ := hupdate
    refine ⟨⟨fun hsem g' portId => ?_, hbuffers⟩, ?_⟩
    · rw [portMarked_snoc, ← h.ports hsem, haccepted, UpdateState.setGraph_ports hports]
      simp
    · rw [FollowsMarks, UpdateRecord.takesLocks, haccepted]
      exact hvals

/-- An update of a shared buffer keeps the marks and acquires locks by them. -/
theorem RemembersMarks.buffer (h : RemembersMarks app records s) {b : B} {events : List (Event ControlOp)}
    {script : List DriverAnswer}
    (returned : updateSharedBuffer (app.graph g) (some (app.buffer b)) pValue numBytes
      ⟨s.readOnlySharedBufferInitialized, [], script⟩ = (.returned code, ⟨ids, events, rest⟩)) :
    let r : UpdateRecord G P B :=
      ⟨g, .buffer b, numBytes, (s.graphs g).isRunning, code, events.filterMap acquiredVal⟩
    RemembersMarks app (records ++ [r]) { s with readOnlySharedBufferInitialized := ids } ∧
    FollowsMarks app records r := by
  intro r
  have hupdate := updateSharedBuffer_returned returned
  have hports (hsem : hasSemaphores app.mgr = true) (g' : G) (portId : BitVec 32) :
      portId ∈ (s.graphs g').asyncNotFirstTimePorts ↔ PortMarked app (records ++ [r]) g' portId := by
    rw [portMarked_snoc, h.ports hsem]
    exact (or_iff_left fun ⟨_, _, p, hp, _⟩ => nomatch hp).symm
  by_cases hok : checkSharedBufferConfigForUpdate (some (app.buffer b)) (app.graph g) numBytes = .ok
  · have haccepted : r.accepted app = true := decide_eq_true hok
    rw [if_pos hok] at hupdate
    obtain ⟨rfl, hvals⟩ := hupdate
    refine ⟨⟨hports, fun key => ?_⟩, ?_⟩
    · rw [bufferMarked_snoc, List.mem_insert_iff, h.buffers, or_comm]
      simp [r, haccepted, eq_comm]
    · have hval (again : Bool) (hagain : again = true ↔ BufferMarked app records (app.buffer b).key) :
          (app.buffer b).acquiresNothing s.readOnlySharedBufferInitialized =
            (app.buffer b).acquiresNothing (if again then [(app.buffer b).key] else []) := by
        refine acquiresNothing_congr ?_
        rw [h.buffers, ← hagain]
        cases again <;> simp
      rw [SharedBufferConfig.prdLockAcqVal, SharedBufferConfig.cnsLockAcqVal] at hvals
      rw [FollowsMarks, UpdateRecord.takesLocks, haccepted]
      refine ⟨fun hmarked => hvals.trans ?_, fun hnew => hvals.trans ?_⟩
      · rw [hval true (iff_of_true rfl hmarked)]
        rfl
      · rw [hval false (iff_of_false Bool.false_ne_true hnew)]
        rfl
  · have haccepted : r.accepted app = false := decide_eq_false hok
    rw [if_neg hok] at hupdate
    obtain ⟨rfl, hvals⟩ := hupdate
    refine ⟨⟨hports, fun key => ?_⟩, ?_⟩
    · rw [bufferMarked_snoc, h.buffers, haccepted]
      simp
    · rw [FollowsMarks, UpdateRecord.takesLocks, haccepted]
      exact hvals

theorem UpdateHistory.followsMarks [DecidableEq G] (h : UpdateHistory app records s) :
    RemembersMarks app records s ∧ AtEach (FollowsMarks app) records := by
  induction h with
  | nil graphs hnew =>
    refine ⟨⟨fun _ g portId => ?_, fun key => ?_⟩, atEach_nil⟩
    · rw [hnew g]
      simp [PortMarked]
    · simp [BufferMarked]
  | @other records s before g s' hkept ih =>
    refine ⟨⟨fun hsem g' portId => ?_, ih.1.buffers⟩, ih.2⟩
    rw [← ih.1.ports hsem, UpdateState.setGraph_ports hkept]
  | port before returned ih =>
    obtain ⟨hremembers, hfollows⟩ := ih.1.port returned
    exact ⟨hremembers, atEach_snoc.mpr ⟨ih.2, hfollows⟩⟩
  | buffer before returned ih =>
    obtain ⟨hremembers, hfollows⟩ := ih.1.buffer returned
    exact ⟨hremembers, atEach_snoc.mpr ⟨ih.2, hfollows⟩⟩

end Histories

/-- Control calls on any graph, at any point of a history of updates, leave the accepted updates remembered and no
others. -/
theorem controlMethods_rememberMarks [DecidableEq G] (h : UpdateHistory app records s) {ops : List ControlOp}
    {codes : List ErrCode} {events : List (Event ControlOp)} {script : List DriverAnswer}
    (returned : runAll (controlMethod (app.graph g) app.mgr) ops ⟨s.graphs g, [], script⟩ =
      (.returned codes, ⟨s', events, rest⟩)) : RemembersMarks app records (s.setGraph g s') := by
  have hstable : ControlStable fun w : GraphWorld ControlOp =>
      w.state.asyncNotFirstTimePorts = (s.graphs g).asyncNotFirstTimePorts :=
    { driver := fun _ _ _ _ _ hw => hw, state := fun _ _ _ hw => hw }
  have hruns := triple_runAll _ fun op (_ : op ∈ ops) => hstable.keeps_controlMethod (app.graph g) app.mgr op
  exact (h.other g s' (hruns.of_returned rfl returned)).followsMarks.1

/-- In every history of updates, locks are acquired by the outcomes of earlier updates exactly when, at each
update that acquires locks and whose first time matters, one under the same id passed the checks before if and
only if one of the same parameter or buffer of the same graph returned ok before. -/
theorem followsOutcomes_iff [DecidableEq G] (app : Application G P B) (records : List (UpdateRecord G P B))
    (s : UpdateState G) (h : UpdateHistory app records s) :
    FollowsOutcomes app records ↔ MarksAreOutcomes app records := by
  have hfollows := h.followsMarks.2
  constructor
  · intro houtcomes before r after hsplit
    exact (hfollows before r after hsplit).outcomes_iff.mp (houtcomes before r after hsplit)
  · intro hmarks before r after hsplit
    exact (hfollows before r after hsplit).outcomes_iff.mpr (hmarks before r after hsplit)

section Samples

def asyncApplication : Application Unit Unit Empty where
  mgr := sampleManager
  graph _ := some sampleGraph
  port _ := { sampleParameter with isAsync := true }
  buffer := nofun

def runningGraph (asyncNotFirstTimePorts : List (BitVec 32)) : GraphState :=
  { (sampleGraphWorld 3).state with isRunning := true, asyncNotFirstTimePorts }

def answerOf (rc : BitVec 32) : DriverAnswer where
  rc := rc
  value := 0#64
  bytes := []
  progress := 0

def asyncRecord (code : ErrCode) (acquireVal : BitVec 8) : UpdateRecord Unit Unit Empty :=
  ⟨(), .port (), 4#64, true, code, [acquireVal, acquireVal]⟩

/-- An update whose first lock is answered with a return code. -/
def asyncUpdate (ports : List (BitVec 32)) (rc : BitVec 32) :
    Outcome ErrCode × GraphWorld ControlOp :=
  update (some sampleGraph) sampleManager (some (asyncApplication.port ())) [1, 2, 3, 4] 4#64
    ⟨runningGraph ports, [], answerOf rc :: List.replicate 6 (answerOf 0#32)⟩

/-- Two updates of the parameter, the second after the first was remembered. -/
theorem updateHistory_twice {rc : BitVec 32}
    (hcode : asyncUpdate [] rc = (.returned code, ⟨runningGraph [7#32], (asyncUpdate [] rc).2.trace, []⟩))
    (hvals : (asyncUpdate [] rc).2.trace.filterMap acquiredVal = [aieMlAsyncAcqFirstTime, aieMlAsyncAcqFirstTime]) :
    ∃ s, UpdateHistory asyncApplication [asyncRecord code aieMlAsyncAcqFirstTime, asyncRecord .ok aieMlAsyncAcq] s ∧
      s.graphs () = runningGraph [7#32] := by
  let s₀ : UpdateState Unit := ⟨fun _ => runningGraph [], []⟩
  have hnew : UpdateHistory asyncApplication [] s₀ := .nil _ fun _ => rfl
  have hfirst : UpdateHistory asyncApplication [asyncRecord code aieMlAsyncAcqFirstTime]
      (s₀.setGraph () (runningGraph [7#32])) := by
    rw [asyncRecord, ← hvals]
    exact @UpdateHistory.port _ _ _ _ asyncApplication _ s₀ _ () () _ _ _ _ _ _ hnew hcode
  have hsecond : asyncUpdate [7#32] 0#32 =
    (.returned .ok, ⟨runningGraph [7#32], (asyncUpdate [7#32] 0#32).2.trace, []⟩) := rfl
  exact ⟨_, @UpdateHistory.port _ _ _ _ asyncApplication _
    (s₀.setGraph () (runningGraph [7#32])) _ () () _ _ _ _ _ _
    hfirst hsecond, rfl⟩

/-- After two accepted updates, a wait and an end of the graph, the parameter is still remembered. -/
theorem controlMethods_rememberMarks_sample :
    ∃ (s : UpdateState Unit) (s' : GraphState),
      UpdateHistory asyncApplication [asyncRecord .ok aieMlAsyncAcqFirstTime, asyncRecord .ok aieMlAsyncAcq] s ∧
      RemembersMarks asyncApplication [asyncRecord .ok aieMlAsyncAcqFirstTime, asyncRecord .ok aieMlAsyncAcq]
        (s.setGraph () s') ∧
      s'.isRunning = false ∧ s'.asyncNotFirstTimePorts = [7#32] := by
  have hfirst : asyncUpdate [] 0#32 = (.returned .ok, ⟨runningGraph [7#32], (asyncUpdate [] 0#32).2.trace, []⟩) :=
    rfl
  obtain ⟨s, hhistory, hgraph⟩ := updateHistory_twice hfirst rfl
  have hrun : runAll (controlMethod (some sampleGraph) sampleManager) [.wait, .endGraph]
      (⟨runningGraph [7#32], [], willingDriver 9⟩ : GraphWorld ControlOp) =
        (.returned [.ok, .ok], ⟨{ runningGraph [7#32] with isRunning := false }, _, _⟩) := rfl
  rw [← hgraph] at hrun
  exact ⟨s, _, hhistory, controlMethods_rememberMarks hhistory hrun, rfl,
    congrArg GraphState.asyncNotFirstTimePorts hgraph⟩

/-- The equivalence at a history in which both updates return ok. -/
theorem followsOutcomes_sample :
    ∃ s, UpdateHistory asyncApplication [asyncRecord .ok aieMlAsyncAcqFirstTime, asyncRecord .ok aieMlAsyncAcq] s ∧
      (FollowsOutcomes asyncApplication [asyncRecord .ok aieMlAsyncAcqFirstTime, asyncRecord .ok aieMlAsyncAcq] ↔
        MarksAreOutcomes asyncApplication
          [asyncRecord .ok aieMlAsyncAcqFirstTime, asyncRecord .ok aieMlAsyncAcq]) := by
  have hfirst : asyncUpdate [] 0#32 = (.returned .ok, ⟨runningGraph [7#32], (asyncUpdate [] 0#32).2.trace, []⟩) :=
    rfl
  obtain ⟨s, hhistory, -⟩ := updateHistory_twice hfirst rfl
  exact ⟨s, hhistory, followsOutcomes_iff _ _ _ hhistory⟩

/-- The first update fails at its first lock, and the second takes the steady value. -/
theorem failed_update_is_remembered :
    ∃ s, UpdateHistory asyncApplication
        [asyncRecord .aieDriverError aieMlAsyncAcqFirstTime, asyncRecord .ok aieMlAsyncAcq] s ∧
      ¬FollowsOutcomes asyncApplication
        [asyncRecord .aieDriverError aieMlAsyncAcqFirstTime, asyncRecord .ok aieMlAsyncAcq] := by
  have hfirst : asyncUpdate [] 1#32 =
    (.returned .aieDriverError, ⟨runningGraph [7#32], (asyncUpdate [] 1#32).2.trace, []⟩) := rfl
  obtain ⟨s, hhistory, -⟩ := updateHistory_twice hfirst rfl
  refine ⟨s, hhistory, fun h => ?_⟩
  have hsecond := (h [asyncRecord .aieDriverError aieMlAsyncAcqFirstTime] (asyncRecord .ok aieMlAsyncAcq) [] rfl
    (List.cons_ne_nil _ _)).2
  refine absurd (hsecond ?_) (by decide)
  rintro ⟨earlier, hearlier, -, -, hok⟩
  rw [List.mem_singleton.mp hearlier] at hok
  cases hok

end Samples

end AieBaremetal.Graph
