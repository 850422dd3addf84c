import AieBaremetal.Common.Monitor
import AieBaremetal.Graph.Frame
import AieBaremetal.Graph.Rtp
import Mathlib.Data.Int.Notation

/-!
# The selector semaphore of an asynchronous parameter

On AIE-ML a lock is a counting semaphore. A running update takes one unit of the selector semaphore and
gives it back, except for the first update, which takes none; a suspended update only gives one. While
the host holds its unit the semaphore should be at 0.

An observer replays the semaphore from the calls of a host that updates one parameter and controls the
graph; nobody else takes anything. Each call is recorded with the flag `isRunning` it finds. There is one
unit for every suspended update behind the first update.
-/

namespace AieBaremetal.Graph

open Common Common.Program AieBaremetal.Runtime

/-- Updates of one parameter and control calls. -/
inductive HostOp where
  | update (pValue : List UInt8) (numBytes : BitVec 64)
  | control (op : ControlOp)
  deriving DecidableEq, Repr

/-- A call with the flag `isRunning` it finds. -/
structure HostCall where
  op : HostOp
  isRunning : Bool
  deriving DecidableEq, Repr

def hostMethod (cfg : GraphConfig) (mgr : ConfigManager) (rtp : RtpConfig) (call : HostCall) :
    GraphProgram HostCall ErrCode :=
  match call.op with
  | .update pValue numBytes => update (some cfg) mgr (some rtp) pValue numBytes
  | .control op => controlMethod (some cfg) mgr op

def hostCall (cfg : GraphConfig) (mgr : ConfigManager) (rtp : RtpConfig) (op : HostOp) :
    GraphProgram HostCall ErrCode := do
  let s ← Program.getState
  apiCall (hostMethod cfg mgr rtp) { op, isRunning := s.isRunning }

@[irreducible] def hostCalls (cfg : GraphConfig) (mgr : ConfigManager) (rtp : RtpConfig) (ops : List HostOp) :
    GraphProgram HostCall (List ErrCode) :=
  Program.runAll (hostCall cfg mgr rtp) ops

/-- Where the host is with respect to the semaphore. -/
inductive SemPhase where
  | outside
  | suspended
  | running
  | holding
  deriving DecidableEq, Repr

/-- The semaphore, with the number of updates and of suspended ones behind the first update. -/
structure SemWatch where
  value : ℤ
  updates : ℕ
  extra : ℕ
  phase : SemPhase
  deriving DecidableEq, Repr

def SemWatch.start : SemWatch where
  value := 0
  updates := 0
  extra := 0
  phase := .outside

def HostCall.phase (call : HostCall) : SemPhase :=
  match call.op with
  | .update .. => if call.isRunning then .running else .suspended
  | .control _ => .outside

theorem HostCall.phase_ne_holding (call : HostCall) : call.phase ≠ .holding := by
  unfold HostCall.phase
  split
  · split <;> exact nofun
  · exact nofun

/-- A successful acquire takes units; in a running update the host holds the semaphore from then on. -/
def SemWatch.acquire (m : SemWatch) (lock : Lock) : SemWatch :=
  { m with value := m.value + lock.lockVal.toInt
           phase := if m.phase = .running then .holding else m.phase }

/-- A release gives units; it is the end of an update. -/
def SemWatch.release (m : SemWatch) (lock : Lock) : SemWatch where
  value := m.value + lock.lockVal.toInt
  updates := m.updates + 1
  extra := if m.phase = .suspended ∧ m.updates ≠ 0 then m.extra + 1 else m.extra
  phase := .outside

/-- The semaphore `place` after an event. -/
def SemWatch.step (place : TileLoc × BitVec 16) (m : SemWatch) : Event HostCall → SemWatch
  | .enter call => { m with phase := call.phase }
  | .leave _ => { m with phase := .outside }
  | .driver (.lockAcquire loc lock) answer =>
    if (loc, lock.lockId) = place ∧ answer.rc = xaieOk then m.acquire lock else m
  | .driver (.lockRelease loc lock) answer =>
    if (loc, lock.lockId) = place ∧ answer.rc = xaieOk then m.release lock else m
  | .driver _ _ => m

/-- A release succeeds, and an acquire waits until its units are there. -/
def SemObeys (place : TileLoc × BitVec 16) (m : SemWatch) : Event HostCall → Prop
  | .driver (.lockAcquire loc lock) answer =>
    (loc, lock.lockId) = place → answer.rc = xaieOk ∧ (lock.lockVal = aieMlAsyncAcq → 1 ≤ m.value)
  | .driver (.lockRelease loc lock) answer => (loc, lock.lockId) = place → answer.rc = xaieOk
  | _ => True

instance (place : TileLoc × BitVec 16) (m : SemWatch) (e : Event HostCall) : Decidable (SemObeys place m e) := by
  unfold SemObeys
  split <;> infer_instance

/-- While the host holds the semaphore, it is at 0. -/
def SemWatch.Exclusive (m : SemWatch) : Prop := m.phase = .holding → m.value = 0

/-- While the host holds the semaphore, no suspended update lies behind the first. -/
def SemWatch.Orderly (m : SemWatch) : Prop := m.phase = .holding → m.extra = 0

instance (m : SemWatch) : Decidable m.Exclusive := inferInstanceAs (Decidable (_ → _))

instance (m : SemWatch) : Decidable m.Orderly := inferInstanceAs (Decidable (_ → _))

def RtpConfig.selectorLock (rtp : RtpConfig) (mgr : ConfigManager) : TileLoc × BitVec 16 :=
  ((rtp.selector mgr).tile, (rtp.selector mgr).lockId)

/-- An asynchronous input parameter with locks on a device with semaphores, one of them for each buffer. -/
structure SemPort (mgr : ConfigManager) (rtp : RtpConfig) : Prop where
  semaphores : hasSemaphores mgr = true
  isAsync : rtp.isAsync = true
  isInput : rtp.isInput = true
  hasLock : rtp.hasLock = true
  buffers : ∀ selector, ((rtp.buffer mgr selector).tile, (rtp.buffer mgr selector).lockId) ≠ rtp.selectorLock mgr

/-- What the semaphore counts between two calls. -/
def Counts (first : Prop) (m : SemWatch) : Prop :=
  (first → m.updates = 0 ∧ m.value = 0 ∧ m.extra = 0) ∧ (¬first → m.updates ≠ 0 ∧ m.value = 1 + m.extra)

/-- While the host holds the semaphore, it counts the suspended updates behind the first. -/
def Paired (m : SemWatch) : Prop := m.phase = .holding → m.value = m.extra

def Taken (lock : Bool) (first : Prop) (m : SemWatch) : Prop :=
  if lock then m.phase = .holding ∧ m.value = m.extra else m.phase = .suspended ∧ Counts first m

section Steps

variable {place : TileLoc × BitVec 16} {first : Prop} {lock : Bool} {m : SemWatch}

theorem SemWatch.step_of_usesLock_false {call : DriverCall} (h : usesLock call = false) (answer : DriverAnswer) :
    m.step place (.driver call answer) = m := by
  cases call
  case lockAcquire => cases h
  case lockRelease => cases h
  all_goals rfl

theorem SemWatch.step_acquire_other {loc : TileLoc} {taken : Lock} (h : (loc, taken.lockId) ≠ place)
    (answer : DriverAnswer) : m.step place (.driver (.lockAcquire loc taken) answer) = m :=
  if_neg fun hsame => h hsame.1

theorem SemWatch.step_release_other {loc : TileLoc} {given : Lock} (h : (loc, given.lockId) ≠ place)
    (answer : DriverAnswer) : m.step place (.driver (.lockRelease loc given) answer) = m :=
  if_neg fun hsame => h hsame.1

theorem Counts.acquire [Decidable first] (h : Counts first m) (hphase : m.phase = .running) (lockId : BitVec 16) :
    Taken true first (m.acquire ⟨lockId, if first then aieMlAsyncAcqFirstTime else aieMlAsyncAcq⟩) := by
  refine ⟨if_pos hphase, ?_⟩
  change m.value + BitVec.toInt (if first then aieMlAsyncAcqFirstTime else aieMlAsyncAcq) = m.extra
  by_cases hfirst : first
  · obtain ⟨-, hvalue, hextra⟩ := h.1 hfirst
    rw [if_pos hfirst, hvalue, hextra]
    rfl
  · obtain ⟨-, hvalue⟩ := h.2 hfirst
    have hunit : aieMlAsyncAcq.toInt = -1 := by decide
    rw [if_neg hfirst, hvalue, hunit]
    omega

theorem Taken.release (h : Taken lock first m) (lockId : BitVec 16) :
    Counts False (m.release ⟨lockId, relRead⟩) := by
  refine ⟨False.elim, fun _ => ⟨Nat.succ_ne_zero _, ?_⟩⟩
  have hunit : relRead.toInt = 1 := by decide
  change m.value + relRead.toInt =
    1 + ((if m.phase = .suspended ∧ m.updates ≠ 0 then m.extra + 1 else m.extra : ℕ) : ℤ)
  cases lock with
  | true =>
    obtain ⟨hphase, hvalue⟩ := h
    rw [hunit, hvalue, if_neg (by rw [hphase]; exact fun h => nomatch h.1)]
    omega
  | false =>
    obtain ⟨hphase, hcounts⟩ := h
    by_cases hfirst : first
    · obtain ⟨hupdates, hvalue, hextra⟩ := hcounts.1 hfirst
      rw [hunit, hvalue, if_neg fun h => h.2 hupdates, hextra]
      rfl
    · obtain ⟨hupdates, hvalue⟩ := hcounts.2 hfirst
      rw [hunit, hvalue, if_pos ⟨hphase, hupdates⟩]
      omega

theorem Taken.paired (h : Taken lock first m) : Paired m := by
  cases lock with
  | true => exact fun _ => h.2
  | false => exact fun hholding => absurd (h.1.symm.trans hholding) nofun

end Steps

section Calls

variable {place : TileLoc × BitVec 16} {s : GraphState} {P Q : SemWatch → Prop}

/-- With a driver that counts, the semaphore was paired and now meets a condition. -/
def Seen (place : TileLoc × BitVec 16) (P : SemWatch → Prop) (w : GraphWorld HostCall) :
    Prop :=
  Along (SemWatch.step place) (SemObeys place) .start w.trace →
    Along (SemWatch.step place) (fun m e => Paired (m.step place e)) .start w.trace ∧
      P (replay (SemWatch.step place) .start w.trace)

/-- The same with the object in a known state. -/
def SeenAt (place : TileLoc × BitVec 16) (s : GraphState) (P : SemWatch → Prop)
    (w : GraphWorld HostCall) : Prop := w.state = s ∧ Seen place P w

theorem Seen.imp {w : GraphWorld HostCall} (h : Seen place P w) (hPQ : ∀ m, P m → Q m) :
    Seen place Q w := fun hobeys => ⟨(h hobeys).1, hPQ _ (h hobeys).2⟩

theorem Seen.concat {w w' : GraphWorld HostCall} (h : Seen place P w) {e : Event HostCall}
    (htrace : w'.trace = w.trace ++ [e])
    (hstep : ∀ m, P m → SemObeys place m e → Paired (m.step place e) ∧ Q (m.step place e)) : Seen place Q w' := by
  intro hobeys
  rw [htrace, along_concat] at hobeys
  obtain ⟨hpaired, hP⟩ := h hobeys.1
  obtain ⟨hpaired', hQ⟩ := hstep _ hP hobeys.2
  rw [htrace, along_concat, replay_concat]
  exact ⟨⟨hpaired, hpaired'⟩, hQ⟩

theorem triple_seen (call : DriverCall) (hstep : ∀ m answer, P m → SemObeys place m (.driver call answer) →
      Paired (m.step place (.driver call answer)) ∧ Q (m.step place (.driver call answer))) :
    Triple (SeenAt place s P) (xaie call) (fun _ => SeenAt place s Q) (Seen place fun _ => True) :=
  triple_xaie call (fun _ h => h.2.imp fun _ _ => trivial) fun _ answer _ h =>
    ⟨h.1, h.2.concat rfl fun m => hstep m answer⟩

theorem triple_seen_quiet {call : DriverCall} (hpaired : ∀ m, P m → Paired m)
    (hquiet : ∀ (m : SemWatch) answer, m.step place (.driver call answer) = m) :
    Triple (SeenAt place s P) (xaie call) (fun _ => SeenAt place s P) (Seen place fun _ => True) :=
  triple_seen call fun m answer hP _ => by
    rw [hquiet]
    exact ⟨hpaired m hP, hP⟩

theorem triple_seen_when {call : DriverCall} (needed : Bool) (driverStatus : BitVec 32)
    (hpaired : ∀ m, P m → Paired m) (hquiet : ∀ (m : SemWatch) answer, m.step place (.driver call answer) = m) :
    Triple (SeenAt place s P) (xaieWhen needed driverStatus call) (fun _ => SeenAt place s P)
      (Seen place fun _ => True) := by
  cases needed with
  | false => exact fun _ h => h
  | true => exact (triple_seen_quiet hpaired hquiet).bind fun _ _ h => h

/-- Writing a buffer ends with the semaphore released. -/
theorem triple_updateBuffer_seen {mgr : ConfigManager} {rtp : RtpConfig} (hport : SemPort mgr rtp) (lock : Bool)
    (first : Prop) [Decidable first] (pValue : List UInt8) (numBytes : BitVec 64) :
    Triple
      (SeenAt (rtp.selectorLock mgr) s fun m => m.phase = (if lock then .running else .suspended) ∧ Counts first m)
      (updateBuffer mgr rtp lock (if first then aieMlAsyncAcqFirstTime else aieMlAsyncAcq) pValue numBytes)
      (fun _ => SeenAt (rtp.selectorLock mgr) s fun m => m.phase = .outside ∧ Counts False m)
      (Seen (rtp.selectorLock mgr) fun _ => True) := by
  have hacquire : Triple
      (SeenAt (rtp.selectorLock mgr) s fun m => m.phase = (if lock then .running else .suspended) ∧ Counts first m)
      (xaieWhen lock xaieOk (.lockAcquire (rtp.selector mgr).tile
        ⟨(rtp.selector mgr).lockId, if first then aieMlAsyncAcqFirstTime else aieMlAsyncAcq⟩))
      (fun _ => SeenAt (rtp.selectorLock mgr) s (Taken lock first))
        (Seen (rtp.selectorLock mgr) fun _ => True) := by
    cases lock with
    | false => exact fun _ h => h
    | true =>
      refine (triple_seen _ fun m answer hm hobeys => ?_).bind fun _ _ h => h
      rw [SemWatch.step, if_pos ⟨rfl, (hobeys rfl).1⟩]
      have htaken := hm.2.acquire hm.1 (rtp.selector mgr).lockId
      exact ⟨htaken.paired, htaken⟩
  have hrelease (status : BitVec 32) : Triple (SeenAt (rtp.selectorLock mgr) s (Taken lock first))
      (xaieWhen rtp.hasLock status (.lockRelease (rtp.selector mgr).tile ⟨(rtp.selector mgr).lockId, relRead⟩))
      (fun _ => SeenAt (rtp.selectorLock mgr) s fun m => m.phase = .outside ∧ Counts False m)
      (Seen (rtp.selectorLock mgr) fun _ => True) := by
    rw [hport.hasLock]
    refine (triple_seen _ fun m answer hm hobeys => ?_).bind fun _ _ h => h
    rw [SemWatch.step, if_pos ⟨rfl, hobeys rfl⟩]
    exact ⟨nofun, rfl, hm.release _⟩
  have htaken (m : SemWatch) (hm : Taken lock first m) : Paired m := hm.paired
  apply hacquire.bind
  intro status
  apply (triple_seen_quiet htaken fun _ _ => rfl).bind
  intro answer
  apply (triple_seen_when lock _ htaken fun m answer => m.step_acquire_other (hport.buffers _) answer).bind
  intro status
  apply (triple_seen_when true _ htaken fun _ _ => rfl).bind
  intro status
  apply (triple_seen_when true _ htaken fun _ _ => rfl).bind
  intro status
  apply (hrelease status).bind
  intro status
  refine Triple.bind (triple_seen_when rtp.hasLock _ (fun m hm hholding => ?_) fun m answer =>
    m.step_release_other (hport.buffers _) answer) fun status => ?_
  · rw [hm.1] at hholding
    cases hholding
  · split
    · exact fun _ h => h
    · exact fun _ h => h

variable {cfg : GraphConfig} {mgr : ConfigManager} {rtp : RtpConfig}

/-- Between two calls the semaphore counts what it should. -/
def Ready (mgr : ConfigManager) (rtp : RtpConfig) (w : GraphWorld HostCall) : Prop :=
  Seen (rtp.selectorLock mgr) (Counts (rtp.portId ∉ w.state.asyncNotFirstTimePorts)) w

theorem SemPort.mem_notFirstTime (hport : SemPort mgr rtp) (ports : List (BitVec 32)) :
    rtp.portId ∈ rtp.notFirstTime mgr ports := by
  by_cases hmem : rtp.portId ∈ ports
  · simp [RtpConfig.notFirstTime, hmem]
  · simp [RtpConfig.notFirstTime, hmem, hport.semaphores, hport.isAsync]

theorem SemPort.updateAcquireVal_eq (hport : SemPort mgr rtp) (ports : List (BitVec 32)) :
    rtp.updateAcquireVal mgr ports = if rtp.portId ∉ ports then aieMlAsyncAcqFirstTime else aieMlAsyncAcq := by
  by_cases hmem : rtp.portId ∈ ports <;>
    simp [RtpConfig.updateAcquireVal, hmem, hport.semaphores, hport.isAsync]

theorem SemPort.lock_eq (hport : SemPort mgr rtp) (isRunning : Bool) :
    (rtp.hasLock && rtp.mayLock isRunning) = isRunning := by
  simp [RtpConfig.mayLock, hport.hasLock, hport.isAsync]

theorem triple_update_seen (hport : SemPort mgr rtp) (pValue : List UInt8) (numBytes : BitVec 64) :
    Triple
      (SeenAt (rtp.selectorLock mgr) s fun m => m.phase = (if s.isRunning then .running else .suspended) ∧
        Counts (rtp.portId ∉ s.asyncNotFirstTimePorts) m)
      (update (some cfg) mgr (some rtp) pValue numBytes) (fun _ => Ready mgr rtp)
      (Seen (rtp.selectorLock mgr) fun _ => True) := by
  rintro w ⟨rfl, hseen⟩
  by_cases hcheck : checkRtpConfigForUpdate (some rtp) (some cfg) numBytes w.state.isRunning = .ok
  · rw [update_of_ok pValue hcheck]
    change Meets _ _ (updateBuffer mgr rtp _ _ pValue numBytes { w with state := { w.state with
      asyncNotFirstTimePorts := rtp.notFirstTime mgr w.state.asyncNotFirstTimePorts } })
    rw [hport.lock_eq, hport.updateAcquireVal_eq]
    refine Meets.imp (triple_updateBuffer_seen hport w.state.isRunning
      (rtp.portId ∉ w.state.asyncNotFirstTimePorts) pValue numBytes _ ⟨rfl, hseen⟩) ?_ fun _ h => h
    rintro code w' ⟨hstate, hseen'⟩
    refine hseen'.imp fun m hm => ?_
    have hmem : ¬rtp.portId ∉ w'.state.asyncNotFirstTimePorts := by
      rw [hstate]
      exact not_not.mpr (hport.mem_notFirstTime _)
    simpa only [eq_false hmem] using hm.2
  · rw [update_of_not_ok pValue hcheck]
    exact hseen.imp fun m hm => hm.2

theorem controlStable_seen (place : TileLoc × BitVec 16) (ports : List (BitVec 32)) (first : Prop) :
    ControlStable fun w : GraphWorld HostCall =>
      w.state.asyncNotFirstTimePorts = ports ∧ Seen place (fun m => m.phase = .outside ∧ Counts first m) w where
  driver w call answer rest hcall h := by
    refine ⟨h.1, h.2.concat rfl fun m hm _ => ?_⟩
    rw [m.step_of_usesLock_false hcall]
    exact ⟨fun hholding => (by rw [hm.1] at hholding; cases hholding), hm⟩
  state _ _ _ h := h

theorem triple_hostMethod (hport : SemPort mgr rtp) (op : HostOp) :
    Triple
      (SeenAt (rtp.selectorLock mgr) s fun m => m.phase = HostCall.phase { op, isRunning := s.isRunning } ∧
        Counts (rtp.portId ∉ s.asyncNotFirstTimePorts) m)
      (hostMethod cfg mgr rtp { op, isRunning := s.isRunning }) (fun _ => Ready mgr rtp)
      (Seen (rtp.selectorLock mgr) fun _ => True) := by
  cases op with
  | update pValue numBytes => exact triple_update_seen hport pValue numBytes
  | control op =>
    have hkeeps := (controlStable_seen (rtp.selectorLock mgr) s.asyncNotFirstTimePorts
      (rtp.portId ∉ s.asyncNotFirstTimePorts)).keeps_controlMethod (some cfg) mgr op
    refine hkeeps.consequence ?_ ?_ fun _ h => h.2.imp fun _ _ => trivial
    · rintro w ⟨rfl, hseen⟩
      exact ⟨rfl, hseen⟩
    · rintro code w ⟨hports, hseen⟩
      rw [Ready, hports]
      exact hseen.imp fun _ hm => hm.2

theorem triple_hostCall (hport : SemPort mgr rtp) (op : HostOp) :
    Triple (Ready mgr rtp) (hostCall cfg mgr rtp op) (fun _ => Ready mgr rtp)
      (Seen (rtp.selectorLock mgr) fun _ => True) := by
  intro w hw
  have hcall : Triple (fun w' => w' = w)
      (apiCall (hostMethod cfg mgr rtp) { op, isRunning := w.state.isRunning }) (fun _ => Ready mgr rtp)
      (Seen (rtp.selectorLock mgr) fun _ => True) := by
    refine triple_apiCall _ _ ?_ (triple_hostMethod hport op) fun code w' h => ?_
    · rintro _ rfl
      refine ⟨rfl, hw.concat rfl fun m hm _ => ⟨fun hholding => ?_, rfl, hm⟩⟩
      exact absurd hholding (HostCall.phase_ne_holding _)
    · exact h.concat rfl fun m hm _ => ⟨nofun, hm⟩
  exact hcall w rfl

theorem hostCalls_paired (hport : SemPort mgr rtp) (ops : List HostOp)
    {w : GraphWorld HostCall} (htrace : w.trace = []) (hfirst : rtp.portId ∉ w.state.asyncNotFirstTimePorts) :
    Seen (rtp.selectorLock mgr) (fun _ => True) (hostCalls cfg mgr rtp ops w).2 := by
  have hbegin : Ready mgr rtp w := by
    intro _
    rw [htrace]
    exact ⟨trivial, fun _ => ⟨rfl, rfl, rfl⟩, fun hmem => absurd hfirst hmem⟩
  unfold hostCalls
  have hrun := triple_runAll (hostCall cfg mgr rtp) (fun op (_ : op ∈ ops) => triple_hostCall hport op) w hbegin
  exact (hrun.always (fun _ _ h => h.imp fun _ _ => trivial) fun _ h => h).2

end Calls

/-- In every run of a host against a driver that counts, the semaphore is at 0 whenever the host holds it exactly
if no running update takes it after a suspended update other than the port's first one. -/
theorem hostCalls_exclusive_iff (cfg : GraphConfig) {mgr : ConfigManager} {rtp : RtpConfig}
    (hport : SemPort mgr rtp) (ops : List HostOp) {w : World (Event HostCall) DriverAnswer GraphState}
    (htrace : w.trace = []) (hfirst : rtp.portId ∉ w.state.asyncNotFirstTimePorts)
    (hobeys : Along (SemWatch.step (rtp.selectorLock mgr)) (SemObeys (rtp.selectorLock mgr)) .start
      (hostCalls cfg mgr rtp ops w).2.trace) :
    Along (SemWatch.step (rtp.selectorLock mgr)) (fun m e => (m.step (rtp.selectorLock mgr) e).Exclusive) .start
        (hostCalls cfg mgr rtp ops w).2.trace ↔
      Along (SemWatch.step (rtp.selectorLock mgr)) (fun m e => (m.step (rtp.selectorLock mgr) e).Orderly) .start
        (hostCalls cfg mgr rtp ops w).2.trace := by
  refine along_iff (fun m e hpaired => ?_) (hostCalls_paired hport ops htrace hfirst hobeys).1
  refine forall_congr' fun hholding => ?_
  rw [hpaired hholding]
  exact Int.natCast_eq_zero

/-- A host that writes an asynchronous parameter of the sample graph. -/
def semaphoreWorld (script : List DriverAnswer) : GraphWorld HostCall where
  state := { GraphState.fresh with isConfigured := true, cores := sampleGraph.cores sampleManager }
  trace := []
  script := script

def semaphoreParameter : RtpConfig := { sampleParameter with isAsync := true }

theorem semaphoreParameter_semPort : SemPort sampleManager semaphoreParameter where
  semaphores := by decide
  isAsync := rfl
  isInput := rfl
  hasLock := rfl
  buffers selector := by
    unfold RtpConfig.buffer
    split <;> decide

/-- A suspended update, a start and a running update: the host holds the semaphore alone. -/
theorem hostCalls_exclusive_sample :
    Along (SemWatch.step (semaphoreParameter.selectorLock sampleManager))
      (fun m e => (m.step (semaphoreParameter.selectorLock sampleManager) e).Exclusive) .start
      (hostCalls sampleGraph sampleManager semaphoreParameter
        [.update [1, 2, 3, 4] 4, .control .run, .update [5, 6, 7, 8] 4]
          (semaphoreWorld (willingDriver 16))).2.trace :=
  (hostCalls_exclusive_iff sampleGraph semaphoreParameter_semPort _ rfl (by decide) (by decide +kernel)).mpr
    (by decide +kernel)

/-- The answers to two suspended updates, a start and a running update. -/
def twiceSuspendedDriver : List DriverAnswer :=
  willingDriver 5 ++ { rc := xaieOk, value := 1, bytes := [], progress := 0 } :: willingDriver 15

/-- Two suspended updates leave a second unit while a running update holds the semaphore; all three semaphores
count as they should. -/
theorem twice_suspended_not_exclusive :
    (hostCalls sampleGraph sampleManager semaphoreParameter
      [.update [1, 2, 3, 4] 4, .update [5, 6, 7, 8] 4, .control .run, .update [9, 10, 11, 12] 4]
      (semaphoreWorld twiceSuspendedDriver)).1 = .returned [.ok, .ok, .ok, .ok] ∧
    (∀ place ∈ [semaphoreParameter.selectorLock sampleManager,
        ((semaphoreParameter.ping sampleManager).tile, (semaphoreParameter.ping sampleManager).lockId),
        ((semaphoreParameter.pong sampleManager).tile, (semaphoreParameter.pong sampleManager).lockId)],
      Along (SemWatch.step place) (SemObeys place) .start (hostCalls sampleGraph sampleManager semaphoreParameter
        [.update [1, 2, 3, 4] 4, .update [5, 6, 7, 8] 4, .control .run, .update [9, 10, 11, 12] 4]
        (semaphoreWorld twiceSuspendedDriver)).2.trace) ∧
    ¬Along (SemWatch.step (semaphoreParameter.selectorLock sampleManager))
      (fun m e => (m.step (semaphoreParameter.selectorLock sampleManager) e).Exclusive) .start
      (hostCalls sampleGraph sampleManager semaphoreParameter
        [.update [1, 2, 3, 4] 4, .update [5, 6, 7, 8] 4, .control .run, .update [9, 10, 11, 12] 4]
        (semaphoreWorld twiceSuspendedDriver)).2.trace := by
  refine ⟨?_, ?_, ?_⟩
  · decide +kernel
  · decide +kernel
  · decide +kernel

end AieBaremetal.Graph
