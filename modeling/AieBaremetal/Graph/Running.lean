import AieBaremetal.Graph.Calls
import AieBaremetal.Graph.Rtp
import Mathlib.Data.List.Induction

/-!
# What `isRunning` stands for

The flag decides whether a connected asynchronous parameter may be written and whether the locks of an
asynchronous parameter are taken, so it should be set exactly while the host has the cores enabled,
which is read off the last driver call that switched cores. `resume()` enables cores and leaves the flag
alone: after a wait the two part, until the next run, wait or end.
-/

namespace AieBaremetal.Graph

open Common Common.Program AieBaremetal.Runtime

variable {Op : Type}

/-- The last call that switched cores switched them on. -/
def CoresEnabled (τ : List (Event Op)) : Prop := lastSwitch τ = some true

instance (τ : List (Event Op)) : Decidable (CoresEnabled τ) := inferInstanceAs (Decidable (_ = _))

def callAcquires : DriverCall → List (TileLoc × BitVec 16)
  | .lockAcquire loc lock => [(loc, lock.lockId)]
  | _ => []

def lockAcquires (τ : List (Event Op)) : List (TileLoc × BitVec 16) :=
  τ.flatMap fun
    | .driver call _ => callAcquires call
    | _ => []

/-- The selector's and the buffer's lock. -/
def RtpConfig.locks (rtp : RtpConfig) (mgr : ConfigManager) (selector : BitVec 32) : List (TileLoc × BitVec 16) :=
  [((rtp.selector mgr).tile, (rtp.selector mgr).lockId),
    ((rtp.buffer mgr selector).tile, (rtp.buffer mgr selector).lockId)]

variable {cfg : GraphConfig} {driverStatus : BitVec 32} {enabled : Prop} {op : ControlOp} {w : GraphWorld Op}

section Locks

variable {locks : List (TileLoc × BitVec 16)} {mid : GraphWorld Op → Prop}

def Acquired (locks : List (TileLoc × BitVec 16)) (w : GraphWorld Op) : Prop :=
  lockAcquires w.trace = locks

theorem triple_acquired (call : DriverCall) (hmid : ∀ w, Acquired locks w → mid w) :
    Triple (Acquired locks) (xaie call) (fun _ => Acquired (locks ++ callAcquires call)) mid := by
  refine triple_xaie call hmid fun w answer rest h => ?_
  simpa [Acquired, lockAcquires] using congrArg (· ++ callAcquires call) h

theorem triple_acquired_quiet {call : DriverCall} (hcall : callAcquires call = [])
    (hmid : ∀ w, Acquired locks w → mid w) :
    Triple (Acquired locks) (xaie call) (fun _ => Acquired locks) mid := by
  have h : Triple (Acquired locks) (xaie call) _ mid := triple_acquired call hmid
  simpa [hcall] using h

theorem triple_acquired_status {call : DriverCall} (hcall : callAcquires call = [])
    (hmid : ∀ w, Acquired locks w → mid w) :
    Triple (Acquired locks) (xaieStatus driverStatus call) (fun _ => Acquired locks) mid :=
  (triple_acquired_quiet hcall hmid).bind fun _ _ h => h

theorem triple_acquired_when {needed : Bool} {call : DriverCall} (hmid : ∀ w, Acquired locks w → mid w) :
    Triple (Acquired locks) (xaieWhen needed driverStatus call)
      (fun _ => Acquired (locks ++ if needed then callAcquires call else [])) mid := by
  cases needed with
  | false =>
    simp only [Bool.false_eq_true, if_false, List.append_nil]
    exact fun _ h => h
  | true => exact (triple_acquired call hmid).bind fun _ _ h => h

theorem triple_acquired_when_quiet {needed : Bool} {call : DriverCall}
    (hcall : callAcquires call = []) (hmid : ∀ w, Acquired locks w → mid w) :
    Triple (Acquired locks) (xaieWhen needed driverStatus call) (fun _ => Acquired locks) mid := by
  have h : Triple (Acquired locks) (xaieWhen needed driverStatus call) _ mid := triple_acquired_when hmid
  simpa [hcall] using h

end Locks

section Rtp

variable {rtp : RtpConfig} {mgr : ConfigManager} {locks : List (TileLoc × BitVec 16)}

theorem Acquired.first {lock : Bool} {taken : List (TileLoc × BitVec 16)} (w : GraphWorld Op)
    (h : Acquired (locks ++ if lock then taken else []) w) (hlock : lock = false) : Acquired locks w := by
  simpa [hlock] using h

theorem Acquired.both {lock : Bool} {taken more : List (TileLoc × BitVec 16)} (w : GraphWorld Op)
    (h : Acquired ((locks ++ if lock then taken else []) ++ if lock then more else []) w) (hlock : lock = false) :
    Acquired locks w := by
  simpa [hlock] using h

theorem triple_updateBuffer_locks (lock : Bool) (acquireVal : BitVec 8) (pValue : List UInt8)
    (numBytes : BitVec 64) :
    Triple (Acquired locks) (updateBuffer mgr rtp lock acquireVal pValue numBytes : GraphProgram Op ErrCode)
      (fun code w => code ≠ .userError ∧
        ∃ selector, Acquired (locks ++ if lock then rtp.locks mgr selector else []) w)
      (fun w => lock = false → Acquired locks w) := by
  apply (triple_acquired_when fun w h _ => h).bind
  intro status
  apply (triple_acquired_quiet rfl Acquired.first).bind
  intro answer
  apply (triple_acquired_when Acquired.first).bind
  intro status
  apply (triple_acquired_status rfl Acquired.both).bind
  intro status
  apply (triple_acquired_status rfl Acquired.both).bind
  intro status
  apply (triple_acquired_when_quiet rfl Acquired.both).bind
  intro status
  apply (triple_acquired_when_quiet rfl Acquired.both).bind
  intro status w h
  have htaken : ∃ selector, Acquired (locks ++ if lock then rtp.locks mgr selector else []) w := by
    refine ⟨1#32 - answer.value.setWidth 32, ?_⟩
    cases lock <;> simpa [RtpConfig.locks, callAcquires] using h
  by_cases hstatus : status ≠ xaieOk
  · rw [if_pos hstatus]
    exact ⟨nofun, htaken⟩
  · rw [if_neg hstatus]
    exact ⟨nofun, htaken⟩

theorem triple_readBuffer_locks (lock : Bool) (numBytes : BitVec 64) :
    Triple (Acquired locks) (readBuffer mgr rtp lock numBytes : GraphProgram Op (ErrCode × Option (List UInt8)))
      (fun _ w => ∃ selector, Acquired (locks ++ if lock then rtp.locks mgr selector else []) w)
      (fun w => lock = false → Acquired locks w) := by
  apply (triple_acquired_when fun w h _ => h).bind
  intro status
  apply (triple_acquired_quiet rfl Acquired.first).bind
  intro answer
  apply (triple_acquired_when Acquired.first).bind
  intro status
  apply (triple_acquired_when_quiet rfl Acquired.both).bind
  intro status
  apply (triple_acquired_quiet rfl Acquired.both).bind
  intro value
  apply (triple_acquired_when_quiet rfl Acquired.both).bind
  intro status w h
  have htaken : ∃ selector, Acquired (locks ++ if lock then rtp.locks mgr selector else []) w := by
    refine ⟨answer.value.setWidth 32, ?_⟩
    cases lock <;> simpa [RtpConfig.locks, callAcquires] using h
  by_cases hstatus : status ≠ xaieOk
  · rw [if_pos hstatus]
    exact htaken
  · rw [if_neg hstatus]
    exact htaken

/-- An update or a read takes its locks exactly if the host has the cores enabled, and returns once seven driver
calls are answered. -/
def LocksWhen {A : Type} (rtp : RtpConfig) (mgr : ConfigManager) (enabled : Prop)
    (w : GraphWorld Op) (run : Outcome A × GraphWorld Op) :
    Prop :=
  (enabled → ∀ a, run.1 = .returned a →
    ∃ selector, lockAcquires run.2.trace = lockAcquires w.trace ++ rtp.locks mgr selector) ∧
  (¬enabled → lockAcquires run.2.trace = lockAcquires w.trace) ∧
  (7 ≤ w.script.length → ∃ a, run.1 = .returned a)

theorem locksWhen_of_meets {A : Type} (lock : Bool) {run : Outcome A × GraphWorld Op}
    (hlock : lock = true ↔ enabled)
    (hmeets : Meets
      (fun _ w' => ∃ selector, Acquired (lockAcquires w.trace ++ if lock then rtp.locks mgr selector else []) w')
      (fun w' => lock = false → Acquired (lockAcquires w.trace) w') run)
    (hreturns : 7 ≤ w.script.length → ∃ a, run.1 = .returned a) : LocksWhen rtp mgr enabled w run := by
  refine ⟨?_, ?_, hreturns⟩
  · rintro henabled a ha
    rcases run with ⟨outcome, w'⟩
    cases ha
    obtain ⟨selector, h⟩ := hmeets
    exact ⟨selector, by simpa [hlock.mpr henabled, Acquired] using h⟩
  · intro hdisabled
    have hfalse : lock = false := by simpa using mt hlock.mp hdisabled
    rcases run with ⟨outcome, w'⟩
    cases outcome with
    | returned a =>
      obtain ⟨selector, h⟩ := hmeets
      simpa [hfalse, Acquired] using h
    | blocked => exact hmeets hfalse
    | fault => exact absurd hmeets id

/-- The flag says what the host did to the cores: an update of a connected asynchronous parameter is rejected, and
an update or a read of one with locks takes them, exactly while the host has the cores enabled. -/
structure FlagFaithful (cfg : GraphConfig) (mgr : ConfigManager) (w : GraphWorld Op) :
    Prop where
  flag : w.state.isRunning = true ↔ CoresEnabled w.trace
  rejects : ∀ (rtp : RtpConfig) (pValue : List UInt8) (script : List DriverAnswer), rtp.graphId = cfg.id →
    rtp.isInput = true → rtp.isAsync = true → rtp.isConnect = true → rtp.isPL = false →
    ((update (some cfg) mgr (some rtp) pValue rtp.numBytes { w with script }).1 = .returned .userError ↔
      CoresEnabled w.trace)
  updates : ∀ (rtp : RtpConfig) (pValue : List UInt8) (script : List DriverAnswer), rtp.graphId = cfg.id →
    rtp.isInput = true → rtp.isAsync = true → rtp.isConnect = false → rtp.hasLock = true →
    LocksWhen rtp mgr (CoresEnabled w.trace) { w with script }
      (update (some cfg) mgr (some rtp) pValue rtp.numBytes { w with script })
  reads : ∀ (rtp : RtpConfig) (script : List DriverAnswer), rtp.graphId = cfg.id →
    rtp.isInput = false → rtp.isAsync = true → rtp.isConnect = false → rtp.hasLock = true →
    LocksWhen rtp mgr (CoresEnabled w.trace) { w with script }
      (read (some cfg) mgr (some rtp) rtp.numBytes { w with script })

theorem updateChecked_meets (mgr : ConfigManager) (rtp : RtpConfig) (pValue : List UInt8) (numBytes : BitVec 64)
    (w : GraphWorld Op) :
    Meets (fun code w' => code ≠ .userError ∧ ∃ selector, Acquired
        (lockAcquires w.trace ++ if rtp.hasLock && rtp.mayLock w.state.isRunning then
          rtp.locks mgr selector else []) w')
      (fun w' => (rtp.hasLock && rtp.mayLock w.state.isRunning) = false → Acquired (lockAcquires w.trace) w')
      (updateChecked mgr rtp pValue numBytes w.state w) :=
  triple_updateBuffer_locks _ _ pValue numBytes
    { w with state := { w.state with
        asyncNotFirstTimePorts := rtp.notFirstTime mgr w.state.asyncNotFirstTimePorts } } rfl

theorem update_rejected_iff (pValue : List UInt8)
    (hgraph : rtp.graphId = cfg.id) (hinput : rtp.isInput = true) (hasync : rtp.isAsync = true)
    (hconnect : rtp.isConnect = true) (hpl : rtp.isPL = false) :
    (update (some cfg) mgr (some rtp) pValue rtp.numBytes w).1 = .returned .userError ↔
    w.state.isRunning = true := by
  have hcheck : checkRtpConfigForUpdate (some rtp) (some cfg) rtp.numBytes w.state.isRunning =
      if w.state.isRunning then .userError else .ok := by
    simp [checkRtpConfigForUpdate, hgraph, hinput, hasync, hconnect, hpl]
  by_cases hrunning : w.state.isRunning = true
  · rw [if_pos hrunning] at hcheck
    rw [update_of_not_ok pValue (by rw [hcheck]; simp), hcheck]
    exact iff_of_true rfl hrunning
  · rw [if_neg hrunning] at hcheck
    rw [update_of_ok pValue hcheck]
    refine iff_of_false (fun hrejected => ?_) hrunning
    have hmeets := updateChecked_meets mgr rtp pValue rtp.numBytes w
    rcases hrun : updateChecked mgr rtp pValue rtp.numBytes w.state w with ⟨outcome, w'⟩
    rw [hrun] at hmeets hrejected
    cases hrejected
    exact hmeets.1 rfl

theorem update_locksWhen (pValue : List UInt8) (hflag : w.state.isRunning = true ↔ enabled)
    (hgraph : rtp.graphId = cfg.id) (hinput : rtp.isInput = true) (hasync : rtp.isAsync = true)
    (hconnect : rtp.isConnect = false) (hlock : rtp.hasLock = true) :
    LocksWhen rtp mgr enabled w (update (some cfg) mgr (some rtp) pValue rtp.numBytes w) := by
  have hcheck : checkRtpConfigForUpdate (some rtp) (some cfg) rtp.numBytes w.state.isRunning = .ok := by
    simp [checkRtpConfigForUpdate, hgraph, hinput, hconnect]
  rw [update_of_ok pValue hcheck]
  refine locksWhen_of_meets (rtp.hasLock && rtp.mayLock w.state.isRunning) ?_ ?_ ?_
  · simpa [RtpConfig.mayLock, hasync, hlock] using hflag
  · exact Meets.imp (updateChecked_meets mgr rtp pValue rtp.numBytes w) (fun _ _ h => h.2) fun _ h => h
  · intro hscript
    obtain ⟨code, w', hrun, -⟩ := answeredBy_updateBuffer mgr rtp (rtp.hasLock && rtp.mayLock w.state.isRunning)
      (rtp.updateAcquireVal mgr w.state.asyncNotFirstTimePorts) pValue rtp.numBytes
      { w with state := { w.state with
        asyncNotFirstTimePorts := rtp.notFirstTime mgr w.state.asyncNotFirstTimePorts } } hscript
    exact ⟨code, congrArg Prod.fst hrun⟩

theorem read_locksWhen (hflag : w.state.isRunning = true ↔ enabled) (hgraph : rtp.graphId = cfg.id)
    (hinput : rtp.isInput = false) (hasync : rtp.isAsync = true) (hconnect : rtp.isConnect = false)
    (hlock : rtp.hasLock = true) :
    LocksWhen rtp mgr enabled w (read (some cfg) mgr (some rtp) rtp.numBytes w) := by
  have hcheck : checkRtpConfigForRead (some rtp) (some cfg) rtp.numBytes = .ok := by
    simp [checkRtpConfigForRead, hgraph, hinput, hconnect]
  rw [read_of_ok hcheck]
  refine locksWhen_of_meets (rtp.mayLock w.state.isRunning && rtp.hasLock) ?_ ?_ ?_
  · simpa [RtpConfig.mayLock, hasync, hlock] using hflag
  · exact triple_readBuffer_locks _ _ w rfl
  · intro hscript
    obtain ⟨a, w', hrun, -⟩ := answeredBy_readBuffer mgr rtp (rtp.mayLock w.state.isRunning && rtp.hasLock)
      rtp.numBytes w (by omega)
    exact ⟨a, congrArg Prod.fst hrun⟩

theorem flagFaithful_iff :
    FlagFaithful cfg mgr w ↔ (w.state.isRunning = true ↔ CoresEnabled w.trace) := by
  refine ⟨FlagFaithful.flag, fun hflag => ⟨hflag, ?_, ?_, ?_⟩⟩
  · intro rtp pValue script hgraph hinput hasync hconnect hpl
    exact (update_rejected_iff pValue hgraph hinput hasync hconnect hpl).trans hflag
  · intro rtp pValue script hgraph hinput hasync hconnect hlock
    exact update_locksWhen pValue hflag hgraph hinput hasync hconnect hlock
  · intro rtp script hgraph hinput hasync hconnect hlock
    exact read_locksWhen hflag hgraph hinput hasync hconnect hlock

end Rtp

theorem lastSwitch_append (τ evs : List (Event Op)) :
    lastSwitch (τ ++ evs) = (lastSwitch evs).or (lastSwitch τ) := by
  induction evs using List.reverseRecOn with
  | nil => simp [lastSwitch]
  | append_singleton evs e ih =>
    rw [← List.append_assoc]
    cases e with
    | driver call answer =>
      have hstep (τ : List (Event Op)) :
          lastSwitch (τ ++ [.driver call answer]) = (callSwitch call).or (lastSwitch τ) := by
        simp [lastSwitch]
      rw [hstep, hstep, ih, Option.or_assoc]
    | enter op => simpa [lastSwitch] using ih
    | leave code => simpa [lastSwitch] using ih

/-- The flag after a successful call. -/
def ControlOp.running (before : Bool) : ControlOp → Bool
  | .run | .runIter _ => true
  | .wait | .waitTimeout _ | .endGraph => false
  | .resume => before

/-- The last successful call that is no `resume` is a run. -/
def leftRunning (ops : List ControlOp) : Bool := ops.foldl ControlOp.running false

def ControlOp.enabling : ControlOp → Bool
  | .run | .runIter _ | .resume => true
  | .wait | .waitTimeout _ | .endGraph => false

theorem ControlOp.effect_of_ok {s : GraphState} (h : (op.effect s).code = .ok) :
    (op.effect s).isRunning = op.running s.isRunning ∧ (op.effect s).switch = some op.enabling := by
  cases op with
  | run => exact ⟨rfl, rfl⟩
  | runIter testIter => exact ⟨rfl, rfl⟩
  | wait => exact ⟨rfl, rfl⟩
  | waitTimeout cycleTimeout =>
    by_cases hlimit : 0xFFFFFFFFFFFF#64 < cycleTimeout
    · simp [ControlOp.effect, hlimit] at h
    · simp [ControlOp.effect, hlimit, ControlOp.running, ControlOp.enabling]
  | resume => exact ⟨rfl, rfl⟩
  | endGraph => exact ⟨rfl, rfl⟩

theorem Finished.step {s : GraphState} {τ : List (Event ControlOp)}
    {w : GraphWorld ControlOp} (h : Finished op s τ .ok w) {core : Core}
    (hcore : core ∈ s.cores) (htriggered : core.triggered = 0#8) (hnot : ∀ e ∈ w.trace, NotDone core e) :
    w.state.isRunning = op.running s.isRunning ∧ lastSwitch w.trace = some op.enabling := by
  obtain ⟨evs, htrace, hshown⟩ := h
  have hcode : (op.effect s).code = .ok := by
    by_contra hrefused
    exact hrefused (hshown.refuses hrefused).symm
  obtain ⟨hrunning, hswitch⟩ := ControlOp.effect_of_ok hcode
  obtain ⟨startTime, hstate⟩ := hshown.state hcode.symm
  refine ⟨by rw [hstate]; exact hrunning, ?_⟩
  have hlast := hshown.switch hcode.symm core hcore htriggered fun e he => hnot e (by simp [htrace, he])
  have hcall : lastSwitch (.enter op :: (evs ++ [.leave .ok])) = lastSwitch evs := by
    simp [lastSwitch]
  rw [htrace, lastSwitch_append, hcall, hlast, hswitch, Option.some_or]

/-- The object keeps its tiles and the trace only grows. -/
def Grown (cores : List Core) (τ : List (Event ControlOp)) (w : GraphWorld ControlOp) :
    Prop :=
  w.state.isConfigured = true ∧ w.state.cores = cores ∧ τ <+: w.trace

theorem triple_controlCalls_grown (cfg : GraphConfig) (mgr : ConfigManager) (cores : List Core)
    (τ : List (Event ControlOp)) (ops : List ControlOp) :
    Triple (Grown cores τ) (runAll (apiCall (controlMethod (some cfg) mgr)) ops)
      (fun _ => Grown cores τ) (fun _ => True) := by
  apply triple_runAll
  rintro op - w₀ ⟨hconfigured, rfl, hτ⟩
  refine (triple_controlCall cfg mgr hconfigured w₀.trace op).consequence (fun _ h => h) ?_ (fun _ _ => trivial) w₀
    ⟨rfl, rfl⟩
  rintro code w ⟨evs, htrace, hshown⟩
  obtain ⟨_, _, hkept⟩ := hshown.kept
  refine ⟨by rw [hkept]; exact hconfigured, by rw [hkept], ?_⟩
  rw [htrace]
  exact hτ.trans (List.prefix_append _ _)

section Sequences

variable {cfg : GraphConfig} {mgr : ConfigManager} {w₁ w : GraphWorld ControlOp}
  {ops : List ControlOp} {codes : List ErrCode} {core : Core}

/-- The world after the first calls of a sequence. -/
def boundary (cfg : GraphConfig) (mgr : ConfigManager) (ops : List ControlOp)
    (w₁ : GraphWorld ControlOp) (k : ℕ) :
    GraphWorld ControlOp :=
  (controlCalls (some cfg) mgr (ops.take k) w₁).2

/-- One call of a sequence of successful calls. -/
theorem boundary_step (hbegin : Grown (cfg.cores mgr) [] w₁)
    (hrun : controlCalls (some cfg) mgr ops w₁ = (.returned codes, w)) (hok : ∀ code ∈ codes, code = .ok)
    (hcore : core ∈ cfg.cores mgr) (htriggered : core.triggered = 0#8) (hnot : ∀ e ∈ w.trace, NotDone core e)
    {k : ℕ} (hop : ops[k]? = some op) :
    (boundary cfg mgr ops w₁ (k + 1)).state.isRunning = op.running (boundary cfg mgr ops w₁ k).state.isRunning ∧
      lastSwitch (boundary cfg mgr ops w₁ (k + 1)).trace = some op.enabling := by
  unfold controlCalls at hrun
  simp only [boundary, controlCalls]
  rw [← List.take_append_drop (k + 1) ops] at hrun
  obtain ⟨codes₁, codes₂, w₂, hfirst, hrest, rfl⟩ := exists_of_runAll_append hrun
  have htake : ops.take (k + 1) = ops.take k ++ [op] := by
    rw [List.take_add_one, hop]
    rfl
  have hlast := hfirst
  rw [htake] at hlast
  obtain ⟨codes₀, _, w₀, hbefore, hcall, rfl⟩ := exists_of_runAll_append hlast
  obtain ⟨code, _, hexec, hend⟩ := exists_of_bind_returned hcall
  cases hend
  have hgrown₀ := triple_controlCalls_grown cfg mgr _ [] (ops.take k) w₁ hbegin
  rw [hbefore] at hgrown₀
  obtain ⟨hconfigured, hcores, -⟩ := hgrown₀
  have hfinished := triple_controlCall cfg mgr hconfigured w₀.trace op w₀ ⟨rfl, rfl⟩
  rw [hexec, hok code (by simp)] at hfinished
  have hgrown₂ := triple_controlCalls_grown cfg mgr _ w₂.trace (ops.drop (k + 1)) w₂ ⟨?_, rfl, List.prefix_rfl⟩
  · rw [hrest] at hgrown₂
    rw [hfirst, hbefore]
    apply Finished.step hfinished (hcores ▸ hcore) htriggered
    exact fun e he => hnot e (hgrown₂.2.2.subset he)
  · have hgrown := triple_controlCalls_grown cfg mgr _ [] (ops.take (k + 1)) w₁ hbegin
    rw [hfirst] at hgrown
    exact hgrown.1

/-- The flag after the first calls of a sequence follows from them. -/
theorem boundary_running (hbegin : Grown (cfg.cores mgr) [] w₁) (hstopped : w₁.state.isRunning = false)
    (hrun : controlCalls (some cfg) mgr ops w₁ = (.returned codes, w)) (hok : ∀ code ∈ codes, code = .ok)
    (hcore : core ∈ cfg.cores mgr) (htriggered : core.triggered = 0#8) (hnot : ∀ e ∈ w.trace, NotDone core e)
    {k : ℕ} (hk : k ≤ ops.length) : (boundary cfg mgr ops w₁ k).state.isRunning = leftRunning (ops.take k) := by
  induction k with
  | zero => simpa [boundary, controlCalls, runAll, leftRunning] using hstopped
  | succ k ih =>
    obtain ⟨op, hop⟩ : ∃ op, ops[k]? = some op := ⟨_, List.getElem?_eq_getElem hk⟩
    rw [(boundary_step hbegin hrun hok hcore htriggered hnot hop).1, ih (Nat.le_of_succ_le hk),
      List.take_add_one, hop, leftRunning, leftRunning, List.foldl_append]
    rfl

/-- Flag and cores agree after each call exactly if no call resumes a graph that is not running. -/
theorem boundary_flag_iff (hbegin : Grown (cfg.cores mgr) [] w₁) (hstopped : w₁.state.isRunning = false)
    (htrace : w₁.trace = [])
    (hrun : controlCalls (some cfg) mgr ops w₁ = (.returned codes, w)) (hok : ∀ code ∈ codes, code = .ok)
    (hcore : core ∈ cfg.cores mgr) (htriggered : core.triggered = 0#8) (hnot : ∀ e ∈ w.trace, NotDone core e) :
    (∀ k ≤ ops.length, ((boundary cfg mgr ops w₁ k).state.isRunning = true ↔
        CoresEnabled (boundary cfg mgr ops w₁ k).trace)) ↔
      ∀ k, ops[k]? = some .resume → (boundary cfg mgr ops w₁ k).state.isRunning = true := by
  constructor
  · intro hflag k hresume
    obtain ⟨hrunning, hswitch⟩ := boundary_step hbegin hrun hok hcore htriggered hnot hresume
    have hlt : k + 1 ≤ ops.length := (List.getElem?_eq_some_iff.mp hresume).1
    rw [← show _ = (boundary cfg mgr ops w₁ k).state.isRunning from hrunning]
    exact (hflag (k + 1) hlt).mpr hswitch
  · intro hresumes k hk
    cases k with
    | zero =>
      have hzero : boundary cfg mgr ops w₁ 0 = w₁ := by
        simp [boundary, controlCalls, runAll]
      simp [hzero, hstopped, htrace, CoresEnabled, lastSwitch]
    | succ k =>
      obtain ⟨op, hop⟩ : ∃ op, ops[k]? = some op := ⟨_, List.getElem?_eq_getElem hk⟩
      obtain ⟨hrunning, hswitch⟩ := boundary_step hbegin hrun hok hcore htriggered hnot hop
      rw [hrunning, CoresEnabled, hswitch]
      cases op with
      | run => simp [ControlOp.running, ControlOp.enabling]
      | runIter testIter => simp [ControlOp.running, ControlOp.enabling]
      | wait => simp [ControlOp.running, ControlOp.enabling]
      | waitTimeout cycleTimeout => simp [ControlOp.running, ControlOp.enabling]
      | resume => simp [ControlOp.running, ControlOp.enabling, hresumes k hop]
      | endGraph => simp [ControlOp.running, ControlOp.enabling]

end Sequences

/-- In every sequence of successful control calls on a configured graph with a core that is neither started by a
trigger nor reported done: flag and decisions agree after each call with what the host did to the cores, exactly
if every `resume` comes behind a run, with no wait and no end in between. -/
theorem controlCalls_flagFaithful_iff (cfg : GraphConfig) (mgr : ConfigManager) (script : List DriverAnswer)
    (w₁ : World (Event ControlOp) DriverAnswer GraphState)
    (hconfigure : configure (some cfg) mgr { state := .fresh, trace := [], script } = (.returned .ok, w₁))
    (ops : List ControlOp) (codes : List ErrCode) (w : World (Event ControlOp) DriverAnswer GraphState)
    (hrun : controlCalls (some cfg) mgr ops w₁ = (.returned codes, w)) (hok : ∀ code ∈ codes, code = .ok)
    (core : Core) (hcore : core ∈ cfg.cores mgr) (htriggered : core.triggered = 0#8)
    (hnot : ∀ e ∈ w.trace, NotDone core e) :
    (∀ k ≤ ops.length, FlagFaithful cfg mgr (controlCalls (some cfg) mgr (ops.take k) w₁).2) ↔
      ∀ k, ops[k]? = some .resume → leftRunning (ops.take k) = true := by
  have hw₁ := configure_returned hconfigure
  subst hw₁
  simp only [flagFaithful_iff]
  refine (boundary_flag_iff ⟨rfl, rfl, List.prefix_rfl⟩ rfl rfl hrun hok hcore htriggered hnot).trans
    (forall₂_congr fun k hresume => ?_)
  rw [boundary_running ⟨rfl, rfl, List.prefix_rfl⟩ rfl hrun hok hcore htriggered hnot
    (Nat.le_of_lt (List.getElem?_eq_some_iff.mp hresume).1)]

/-- The sample graph is resumed while it runs. -/
theorem controlCalls_flagFaithful_sample :
    FlagFaithful sampleGraph sampleManager
        (controlCalls (some sampleGraph) sampleManager [.run, .resume] (sampleGraphWorld 12)).2 ∧
      FlagFaithful sampleGraph sampleManager
        (controlCalls (some sampleGraph) sampleManager [.run, .resume, .waitTimeout 5]
          (sampleGraphWorld 12)).2 := by
  have hfaithful :=
    (controlCalls_flagFaithful_iff sampleGraph sampleManager (willingDriver 12) (sampleGraphWorld 12) rfl
    [.run, .resume, .waitTimeout 5] [.ok, .ok, .ok]
    (controlCalls (some sampleGraph) sampleManager [.run, .resume, .waitTimeout 5] (sampleGraphWorld 12)).2
    (Prod.ext (by decide +kernel) rfl) (by decide) ⟨xaieTileLoc 1 1, xaieTileLoc 1 1, 0x104, 0⟩ (by decide) rfl
    (by decide +kernel)).mpr fun
    | 0 => nofun
    | 1 => fun _ => rfl
    | 2 => nofun
    | _ + 3 => nofun
  exact ⟨hfaithful 2 (by decide), hfaithful 3 (by decide)⟩

def asyncParameter : RtpConfig := { sampleParameter with isAsync := true }

/-- A sample graph that is run, suspended and resumed has its core enabled and passes for stopped: a connected
parameter may be written, and without a lock. -/
theorem resumed_graph_passes_for_stopped :
    (controlCalls (some sampleGraph) sampleManager [.run, .waitTimeout 5, .resume] (sampleGraphWorld 18)).1 =
        .returned [.ok, .ok, .ok] ∧
      (∀ e ∈ (controlCalls (some sampleGraph) sampleManager [.run, .waitTimeout 5, .resume]
        (sampleGraphWorld 18)).2.trace, NotDone ⟨xaieTileLoc 1 1, xaieTileLoc 1 1, 0x104, 0⟩ e) ∧
      CoresEnabled (controlCalls (some sampleGraph) sampleManager [.run, .waitTimeout 5, .resume]
        (sampleGraphWorld 18)).2.trace ∧
      (controlCalls (some sampleGraph) sampleManager [.run, .waitTimeout 5, .resume]
        (sampleGraphWorld 18)).2.state.isRunning = false ∧
      (update (some sampleGraph) sampleManager (some { asyncParameter with isConnect := true }) [1, 2, 3, 4] 4
        (controlCalls (some sampleGraph) sampleManager [.run, .waitTimeout 5, .resume] (sampleGraphWorld 18)).2).1 =
          .returned .ok ∧
      lockAcquires (update (some sampleGraph) sampleManager (some asyncParameter)
        [1, 2, 3, 4] 4 (controlCalls (some sampleGraph) sampleManager [.run, .waitTimeout 5, .resume]
          (sampleGraphWorld 18)).2).2.trace = [] :=
  ⟨by decide +kernel, by decide +kernel, by decide +kernel, by decide +kernel, by decide +kernel, by decide +kernel⟩

end AieBaremetal.Graph
