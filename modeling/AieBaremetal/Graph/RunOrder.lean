import AieBaremetal.Graph.Calls

/-!
# Iteration counts before cores

`run(testIter)` first writes the iteration count of every core, in one transaction, and starts the
cores, one by one or by one broadcast event, only if none of these writes failed. A start that the
driver refuses is reported, but not taken back; only then are cores started while `isRunning` stays as
it was. Calls inside a transaction are taken to have their effect in program order.
-/

namespace AieBaremetal.Graph

open Common Common.Program AieBaremetal.Runtime

variable {Op : Type}

/-- A driver call that starts cores, as a list. -/
def startOf (call : DriverCall) : List DriverCall := if callSwitch call = some true then [call] else []

/-- The driver calls of a trace that start cores, in order. -/
def starts (τ : List (Event Op)) : List DriverCall :=
  τ.flatMap fun
    | .driver call _ => startOf call
    | _ => []

def iterWrite (testIter : BitVec 32) (core : Core) : DriverCall :=
  .dataMemWrWord core.iterMemTile (core.iterMemAddr.setWidth 32) testIter

def coreEvents (call : Core → DriverCall) (cores : List Core) (answers : List DriverAnswer) : List (Event Op) :=
  List.zipWith (fun core answer => .driver (call core) answer) cores answers

theorem starts_eq (τ : List (Event Op)) : starts τ = (switches τ).flatMap startOf := by
  rw [starts, switches, List.flatMap_assoc]
  refine List.flatMap_congr fun e _ => ?_
  cases e with
  | driver call answer => cases hcall : callSwitch call <;> simp [switchOf, startOf, hcall]
  | _ => rfl

theorem starts_enables (cfg : GraphConfig) (mgr : ConfigManager) (cores : List Core) :
    (enables cfg mgr cores).flatMap startOf = enables cfg mgr cores := by
  unfold enables
  split
  · rfl
  · rw [List.flatMap_map, List.map_eq_flatMap]
    rfl

/-- A driver call for every core is made in order, and the status is good if it was and every call succeeded. -/
theorem triple_forCores_events (call : Core → DriverCall) (cores : List Core) (s₀ : GraphState)
    (τ₀ : List (Event Op)) (status : BitVec 32) :
    Triple (fun w => w.state = s₀ ∧ w.trace = τ₀) (forCores call cores status)
      (fun status' w => w.state = s₀ ∧ ∃ answers : List DriverAnswer, answers.length = cores.length ∧
        w.trace = τ₀ ++ coreEvents call cores answers ∧
        (status' = xaieOk ↔ status = xaieOk ∧ ∀ answer ∈ answers, answer.rc = xaieOk)) (fun _ => True) := by
  induction cores generalizing τ₀ status with
  | nil =>
    rintro w ⟨hstate, htrace⟩
    exact ⟨hstate, [], rfl, by simp [coreEvents, htrace], by simp⟩
  | cons core rest ih =>
    have hcall : Triple (fun w => w.state = s₀ ∧ w.trace = τ₀) (xaie (call core) : GraphProgram Op DriverAnswer)
        (fun answer w => w.state = s₀ ∧ w.trace = τ₀ ++ [.driver (call core) answer]) (fun _ => True) :=
      triple_xaie _ (fun _ _ => trivial) fun w answer _ h => ⟨h.1, by rw [h.2]⟩
    rw [forCores, xaieStatus, bind_assoc]
    refine hcall.bind fun answer => ?_
    refine (ih (τ₀ ++ [.driver (call core) answer]) (status ||| answer.rc)).consequence
      (fun _ h => h) ?_ fun _ h => h
    rintro status' w ⟨hstate, answers, hlength, htrace, hstatus⟩
    refine ⟨hstate, answer :: answers, by simp [hlength], by simp [htrace, coreEvents], hstatus.trans ?_⟩
    rw [List.forall_mem_cons, ← and_assoc]
    exact and_congr_left' BitVec.or_eq_zero_iff

/-- `run(testIter)` writes the iteration count of every core, starts the cores exactly if every write succeeded,
and sets `isRunning` exactly if it returns ok. -/
theorem runIter_starts_after_writes (cfg : GraphConfig) (mgr : ConfigManager) (testIter : BitVec 32)
    {w w' : World (Event Op) DriverAnswer GraphState} {code : ErrCode} (hconfigured : w.state.isConfigured = true)
    (hrun : runIter (some cfg) mgr testIter w = (.returned code, w')) :
    ∃ (first last : DriverAnswer) (answers : List DriverAnswer) (later : List (Event Op)),
      answers.length = w.state.cores.length ∧
      w'.trace = w.trace ++
        (.driver .startTransaction first :: coreEvents (iterWrite testIter) w.state.cores answers ++
        .driver .submitTransaction last :: later) ∧
      starts later = (if ∀ answer ∈ answers, answer.rc = xaieOk then enables cfg mgr w.state.cores else []) ∧
      w'.state.isRunning = (if code = .ok then true else w.state.isRunning) := by
  have hbody : (do
      let _ ← xaie .startTransaction
      let driverStatus ← forCores (iterWrite testIter) w.state.cores xaieOk
      let _ ← xaie .submitTransaction
      if driverStatus ≠ xaieOk then pure .aieDriverError else run (some cfg) mgr : GraphProgram Op ErrCode) w =
        (.returned code, w') := by
    rw [runIter, whenConfigured, Program.getState_bind, hconfigured] at hrun
    exact hrun
  have hcall (τ : List (Event Op)) (call : DriverCall) : Program.Triple (fun v => v.state = w.state ∧ v.trace = τ)
      (xaie call : GraphProgram Op DriverAnswer)
      (fun answer v => v.state = w.state ∧ v.trace = τ ++ [.driver call answer]) (fun _ => True) :=
    triple_xaie _ (fun _ _ => trivial) fun v answer _ h => ⟨h.1, by rw [h.2]⟩
  obtain ⟨first, w₁, hfirst, hbody⟩ := Program.exists_of_bind_returned hbody
  have h₁ := (hcall w.trace _).of_returned ⟨rfl, rfl⟩ hfirst
  obtain ⟨status, w₂, hwrites, hbody⟩ := Program.exists_of_bind_returned hbody
  obtain ⟨hstate₂, answers, hlength, htrace₂, hstatus⟩ :=
    (triple_forCores_events (iterWrite testIter) w.state.cores w.state _ xaieOk).of_returned h₁ hwrites
  obtain ⟨last, w₃, hlast, hbody⟩ := Program.exists_of_bind_returned hbody
  obtain ⟨hstate₃, htrace₃⟩ := (hcall _ _).of_returned ⟨hstate₂, htrace₂⟩ hlast
  have hwritten : w₃.trace = w.trace ++ (.driver .startTransaction first ::
      coreEvents (iterWrite testIter) w.state.cores answers ++ [.driver .submitTransaction last]) := by
    simp [htrace₃]
  by_cases hok : status = xaieOk
  · have hall := (hstatus.mp hok).2
    rw [if_neg (not_not.mpr hok)] at hbody
    have hpre : Started w₃.state w₃.trace [] w₃ :=
      ⟨⟨w₃.state.startTime, rfl⟩, [], by simp, by simp, rfl, rfl, fun _ => rfl⟩
    obtain ⟨⟨startTime, hstate⟩, later, htrace, -, -, hswitches, -⟩ :=
      (triple_run (hstate₃ ▸ hconfigured) (.inl trivial) cfg mgr).of_returned hpre hbody
    refine ⟨first, last, answers, later, hlength, by simp [htrace, hwritten], ?_, by simp [hstate, hstate₃]⟩
    rw [if_pos hall, starts_eq, hswitches, starts_enables, hstate₃]
  · have hfails : ¬ ∀ answer ∈ answers, answer.rc = xaieOk := fun hall => hok (hstatus.mpr ⟨rfl, hall⟩)
    rw [if_pos hok] at hbody
    obtain ⟨rfl, rfl⟩ : code = .aieDriverError ∧ w' = w₃ := by
      cases hbody
      exact ⟨rfl, rfl⟩
    exact ⟨first, last, answers, [], hlength, by simp [hwritten], by rw [if_neg hfails]; rfl, by simp [hstate₃]⟩

/-- The sample graph starts after its iteration count was written. -/
theorem runIter_starts_after_writes_sample :
    ∃ (first last : DriverAnswer) (answers : List DriverAnswer) (later : List (Event ControlOp)),
      answers.length = 1 ∧
      (runIter (some sampleGraph) sampleManager 3 (sampleGraphWorld 7)).2.trace =
        .driver .startTransaction first :: coreEvents (iterWrite 3) (sampleGraph.cores sampleManager) answers ++
          .driver .submitTransaction last :: later ∧
      starts later = (if ∀ answer ∈ answers, answer.rc = xaieOk then
        enables sampleGraph sampleManager (sampleGraph.cores sampleManager) else []) ∧
      (runIter (some sampleGraph) sampleManager 3 (sampleGraphWorld 7)).2.state.isRunning = true :=
  runIter_starts_after_writes sampleGraph sampleManager 3 rfl
    (show runIter (some sampleGraph) sampleManager 3 (sampleGraphWorld 7) = (.returned .ok, _) from
      Prod.ext (by decide +kernel) rfl)

end AieBaremetal.Graph
