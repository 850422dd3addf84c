import AieBaremetal.Graph.Api

/-!
# What control calls leave alone

Control calls acquire and release no locks, and the only fields of the object they change are
`isRunning` and `startTime`. Stated as a frame rule: a condition on worlds that survives driver
calls without locks and changes of the two fields survives every control call, at every moment.
-/

namespace AieBaremetal.Graph

open Common Common.Program AieBaremetal.Runtime

variable {Op : Type}

/-- A driver call that acquires or releases a lock. -/
def usesLock : DriverCall → Bool
  | .lockAcquire .. | .lockRelease .. => true
  | _ => false

/-- A condition that driver calls without locks and changes of `isRunning` and `startTime` keep. -/
structure ControlStable (inv : GraphWorld Op → Prop) : Prop where
  driver : ∀ w call answer rest, usesLock call = false → inv w →
    inv { w with trace := w.trace ++ [.driver call answer], script := rest }
  state : ∀ w isRunning startTime, inv w → inv { w with state := { w.state with isRunning, startTime } }

namespace ControlStable

variable {inv : GraphWorld Op → Prop} (h : ControlStable inv)

include h

theorem keeps_xaie {call : DriverCall} (hcall : usesLock call = false) :
    Keeps inv (xaie call : GraphProgram Op DriverAnswer) :=
  keeps_ask _ fun w answer rest => h.driver w call answer rest hcall

theorem keeps_xaieStatus {call : DriverCall} (hcall : usesLock call = false) (driverStatus : BitVec 32) :
    Keeps inv (xaieStatus driverStatus call : GraphProgram Op (BitVec 32)) :=
  (h.keeps_xaie hcall).bind fun _ => keeps_pure _

theorem keeps_startTime (startTime : BitVec 64) :
    Keeps inv (modifyState fun s => { s with startTime } : GraphProgram Op Unit) :=
  triple_modifyState _ fun w => h.state w w.state.isRunning startTime

theorem keeps_isRunning (isRunning : Bool) :
    Keeps inv (modifyState fun s => { s with isRunning } : GraphProgram Op Unit) :=
  triple_modifyState _ fun w => h.state w isRunning w.state.startTime

theorem keeps_recordStartTime (cores : List Core) (driverStatus : BitVec 32) :
    Keeps inv (recordStartTime cores driverStatus : GraphProgram Op (BitVec 32)) := by
  cases cores with
  | nil => exact keeps_pure _
  | cons core rest =>
    exact (h.keeps_xaie rfl).bind fun answer => (h.keeps_startTime answer.value).bind fun _ => keeps_pure _

theorem keeps_forCores {call : Core → DriverCall} (hcall : ∀ core, usesLock (call core) = false) (cores : List Core)
    (driverStatus : BitVec 32) :
    Keeps inv (forCores call cores driverStatus : GraphProgram Op (BitVec 32)) := by
  induction cores generalizing driverStatus with
  | nil => exact keeps_pure _
  | cons core rest ih => exact (h.keeps_xaieStatus (hcall core) driverStatus).bind ih

theorem keeps_armCores (cores : List Core) : Keeps inv (armCores cores : GraphProgram Op Unit) := by
  induction cores with
  | nil => exact keeps_pure _
  | cons core rest ih => exact (h.keeps_xaie rfl).bind fun _ => (h.keeps_xaie rfl).bind fun _ => ih

theorem keeps_disarmCores (cores : List Core) : Keeps inv (disarmCores cores : GraphProgram Op Unit) := by
  induction cores with
  | nil => exact keeps_pure _
  | cons core rest ih => exact (h.keeps_xaie rfl).bind fun _ => ih

theorem keeps_broadcastEnable (cfg : GraphConfig) (cores : List Core) (driverStatus : BitVec 32) :
    Keeps inv (broadcastEnable cfg cores driverStatus : GraphProgram Op (BitVec 32)) := by
  refine (h.keeps_xaie rfl).bind fun _ => (h.keeps_armCores cores).bind fun _ => ?_
  refine (h.keeps_xaie rfl).bind fun _ => (h.keeps_xaie rfl).bind fun _ => (h.keeps_xaie rfl).bind fun start => ?_
  refine Keeps.bind (keeps_whileAsk _ _ (fun l answer => (l.1 ||| answer.rc, some answer.value)) _
    fun w answer rest => h.driver w _ answer rest rfl) fun l => ?_
  refine (h.keeps_xaie rfl).bind fun _ => (h.keeps_disarmCores cores).bind fun _ => ?_
  exact (h.keeps_xaie rfl).bind fun _ => keeps_pure _

theorem keeps_startCores (cfg : GraphConfig) (mgr : ConfigManager) (cores : List Core) (driverStatus : BitVec 32) :
    Keeps inv (startCores cfg mgr cores driverStatus : GraphProgram Op (BitVec 32)) := by
  unfold startCores
  split
  · exact h.keeps_broadcastEnable cfg cores driverStatus
  · refine (h.keeps_xaie rfl).bind fun _ => (h.keeps_forCores (fun _ => rfl) cores driverStatus).bind fun _ => ?_
    exact (h.keeps_xaie rfl).bind fun _ => keeps_pure _

theorem keeps_setRunning (driverStatus : BitVec 32) (isRunning : Bool) :
    Keeps inv (if driverStatus ≠ xaieOk then pure .aieDriverError
      else do
        modifyState fun s => { s with isRunning }
        pure .ok : GraphProgram Op ErrCode) := by
  split
  · exact keeps_pure _
  · exact (h.keeps_isRunning isRunning).bind fun _ => keeps_pure _

omit h in
theorem keeps_whenConfigured (pGraphConfig : Option GraphConfig)
    {body : GraphConfig → GraphState → GraphProgram Op ErrCode}
    (hbody : ∀ cfg s, Keeps inv (body cfg s)) : Keeps inv (whenConfigured pGraphConfig body) := by
  refine keeps_getState.bind fun s => ?_
  split
  · exact hbody _ s
  · exact keeps_pure _

theorem keeps_run (pGraphConfig : Option GraphConfig) (mgr : ConfigManager) :
    Keeps inv (run pGraphConfig mgr : GraphProgram Op ErrCode) :=
  keeps_whenConfigured pGraphConfig fun cfg s => (h.keeps_recordStartTime s.cores xaieOk).bind fun status =>
    (h.keeps_startCores cfg mgr s.cores status).bind fun status => h.keeps_setRunning status true

theorem keeps_awaitCore (core : Core) (driverStatus : BitVec 32) :
    Keeps inv (awaitCore core driverStatus : GraphProgram Op (BitVec 32)) :=
  (keeps_askUntil _ _ fun w answer rest => h.driver w _ answer rest rfl).bind fun _ =>
    h.keeps_xaieStatus rfl driverStatus

theorem keeps_awaitCores (cores : List Core) (driverStatus : BitVec 32) :
    Keeps inv (awaitCores cores driverStatus : GraphProgram Op (BitVec 32)) := by
  induction cores generalizing driverStatus with
  | nil => exact keeps_pure _
  | cons core rest ih =>
    unfold awaitCores
    split
    · exact (h.keeps_awaitCore core driverStatus).bind ih
    · exact ih driverStatus

theorem keeps_wait (pGraphConfig : Option GraphConfig) :
    Keeps inv (wait pGraphConfig : GraphProgram Op ErrCode) :=
  keeps_whenConfigured pGraphConfig fun _ s => (h.keeps_awaitCores s.cores xaieOk).bind fun status =>
    h.keeps_setRunning status false

theorem keeps_spendCycles (cores : List Core) (startTime cycleTimeout : BitVec 64) :
    Keeps inv (spendCycles cores startTime cycleTimeout : GraphProgram Op (BitVec 32)) := by
  cases cores with
  | nil => exact keeps_pure _
  | cons core rest =>
    refine (h.keeps_xaie rfl).bind fun answer => ?_
    dsimp only
    split
    · exact h.keeps_xaieStatus rfl _
    · exact keeps_pure _

theorem keeps_waitTimeout (cycleTimeout : BitVec 64) :
    Keeps inv (waitTimeout cycleTimeout : GraphProgram Op ErrCode) := by
  refine keeps_getState.bind fun s => ?_
  split
  · exact keeps_pure _
  · split
    · exact keeps_pure _
    · exact (h.keeps_spendCycles s.cores s.startTime cycleTimeout).bind fun status =>
        (h.keeps_forCores (fun _ => rfl) s.cores status).bind fun status => h.keeps_setRunning status false

theorem keeps_resumeCores (cores : List Core) (driverStatus : BitVec 32) :
    Keeps inv (resumeCores cores driverStatus : GraphProgram Op (BitVec 32)) := by
  induction cores generalizing driverStatus with
  | nil => exact keeps_pure _
  | cons core rest ih =>
    refine (h.keeps_xaie rfl).bind fun answer => ?_
    split
    · exact (h.keeps_xaieStatus rfl _).bind ih
    · exact ih _

omit h in
theorem keeps_report (driverStatus : BitVec 32) :
    Keeps inv (if driverStatus ≠ xaieOk then pure .aieDriverError else pure .ok : GraphProgram Op ErrCode) := by
  split
  · exact keeps_pure _
  · exact keeps_pure _

theorem keeps_resume : Keeps inv (resume : GraphProgram Op ErrCode) := by
  refine keeps_getState.bind fun s => ?_
  split
  · exact keeps_pure _
  · exact (h.keeps_recordStartTime s.cores xaieOk).bind fun status =>
      (h.keeps_resumeCores s.cores status).bind fun status => keeps_report status

theorem keeps_endCores (isRunningBefore : Bool) (cores : List Core) (driverStatus : BitVec 32) :
    Keeps inv (endCores isRunningBefore cores driverStatus : GraphProgram Op (BitVec 32)) := by
  induction cores generalizing driverStatus with
  | nil => exact keeps_pure _
  | cons core rest ih =>
    unfold endCores
    split
    · have hend : Keeps inv (endCore core driverStatus : GraphProgram Op (BitVec 32)) :=
        (h.keeps_xaieStatus rfl _).bind fun status => (h.keeps_xaieStatus rfl status).bind (h.keeps_awaitCore core)
      exact hend.bind ih
    · exact ih driverStatus

theorem keeps_endGraph (pGraphConfig : Option GraphConfig) :
    Keeps inv (endGraph pGraphConfig : GraphProgram Op ErrCode) := by
  refine keeps_whenConfigured pGraphConfig fun _ s => (h.keeps_wait pGraphConfig).bind fun ret => ?_
  split
  · exact keeps_pure _
  · exact (h.keeps_endCores s.isRunning s.cores xaieOk).bind keeps_report

theorem keeps_controlMethod (pGraphConfig : Option GraphConfig) (mgr : ConfigManager) (op : ControlOp) :
    Keeps inv (controlMethod pGraphConfig mgr op : GraphProgram Op ErrCode) := by
  cases op with
  | run => exact h.keeps_run pGraphConfig mgr
  | runIter testIter =>
    refine keeps_whenConfigured pGraphConfig fun _ s => (h.keeps_xaie rfl).bind fun _ => ?_
    refine (h.keeps_forCores (fun _ => rfl) s.cores xaieOk).bind fun status => (h.keeps_xaie rfl).bind fun _ => ?_
    split
    · exact keeps_pure _
    · exact h.keeps_run pGraphConfig mgr
  | wait => exact h.keeps_wait pGraphConfig
  | waitTimeout cycleTimeout => exact h.keeps_waitTimeout cycleTimeout
  | resume => exact h.keeps_resume
  | endGraph => exact h.keeps_endGraph pGraphConfig

end ControlStable

/-- Control calls touch no lock and change nothing of the graph object but whether and since when it runs. -/
theorem controlMethods_touch (pGraphConfig : Option GraphConfig) (mgr : ConfigManager)
    (ops : List ControlOp) (s : GraphState) :
    Keeps (fun w => (∀ call answer, .driver call answer ∈ w.trace → usesLock call = false) ∧
        { w.state with isRunning := false, startTime := 0 } = s)
      (runAll (controlMethod pGraphConfig mgr) ops : GraphProgram Op (List ErrCode)) := by
  refine triple_runAll _ fun op _ => ControlStable.keeps_controlMethod ⟨?_, fun _ _ _ h => h⟩ pGraphConfig mgr op
  rintro w call answer rest hcall ⟨h, hstate⟩
  refine ⟨fun call' answer' hmem => ?_, hstate⟩
  rcases List.mem_append.mp hmem with hmem | hmem
  · exact h call' answer' hmem
  · cases List.mem_singleton.mp hmem
    exact hcall

end AieBaremetal.Graph
