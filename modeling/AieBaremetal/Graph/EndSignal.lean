import AieBaremetal.Graph.Calls
import AieBaremetal.Common.Monitor

/-!
# End signals

A graph that ran is told to end by one word per core that no trigger starts; a later end writes nothing
more. An observer keeps the words written since the latest successful run and whether a wait or an end
returned since. `end()` decides by the flag `isRunning`, which a wait that came first has cleared; then
the end signal is never written. This is the only way to lose it.
-/

namespace AieBaremetal.Graph

open Common AieBaremetal.Runtime

/-- Since the latest run: did a wait or an end return, and which words were written? -/
structure EndObserver where
  current : Option ControlOp
  ran : Bool
  waited : Bool
  ended : Bool
  writes : List WordWrite
  deriving DecidableEq

def EndObserver.idle : EndObserver where
  current := none
  ran := false
  waited := false
  ended := false
  writes := []

/-- What a successful call tells the observer; a wait after the end is nothing new. -/
def EndObserver.called (o : EndObserver) : ControlOp → EndObserver
  | .run | .runIter _ => { o with ran := true, waited := false, ended := false, writes := [] }
  | .wait | .waitTimeout _ => { o with waited := o.waited || !o.ended }
  | .resume => o
  | .endGraph => { o with ended := true }

def EndObserver.step (o : EndObserver) : Event ControlOp → EndObserver
  | .enter op => { o with current := some op }
  | .driver call _ => { o with writes := o.writes ++ callWrites call }
  | .leave code =>
    match o.current, code with
    | some op, .ok => { o.called op with current := none }
    | _, _ => { o with current := none }

/-- An end after a run finds each end signal written once since then, and an end after an end writes nothing. -/
def EndsSignalled (cores : List Core) (o : EndObserver) : Event ControlOp → Prop
  | .leave .ok => o.current = some .endGraph → o.ran = true → o.writes = endSignals cores
  | .driver call _ => o.current = some .endGraph → o.ended = true → callWrites call = []
  | _ => True

/-- No wait came between a run and its end, unless no core has to be told. -/
def EndsUnwaited (cores : List Core) (o : EndObserver) : Event ControlOp → Prop
  | .leave .ok => o.current = some .endGraph → o.ran = true → o.waited = false ∨ endSignals cores = []
  | _ => True

instance (cores : List Core) (o : EndObserver) : (e : Event ControlOp) → Decidable (EndsSignalled cores o e)
  | .leave .ok => inferInstanceAs (Decidable (_ → _ → _))
  | .leave .userError | .leave .internalError | .leave .aieDriverError | .leave .resourceUnavailable | .enter _ =>
    .isTrue trivial
  | .driver _ _ => inferInstanceAs (Decidable (_ → _ → _))

instance (cores : List Core) (o : EndObserver) : (e : Event ControlOp) → Decidable (EndsUnwaited cores o e)
  | .leave .ok => inferInstanceAs (Decidable (_ → _ → _))
  | .leave .userError | .leave .internalError | .leave .aieDriverError | .leave .resourceUnavailable | .enter _ |
    .driver _ _ => .isTrue trivial

/-- Flag and words written follow from what was observed. -/
structure Tracks (cores : List Core) (o : EndObserver) (isRunning : Bool) : Prop where
  idle : o.current = none
  fresh : o.ran = false → isRunning = false
  running : o.ran = true → o.ended = false → isRunning = !o.waited ∧ o.writes = []
  ended : o.ran = true → o.ended = true → isRunning = false ∧ o.writes = if o.waited then [] else endSignals cores

variable {evs : List (Event ControlOp)} {isRunning : Bool} {o : EndObserver}

theorem replay_driver (o : EndObserver) (h : ∀ e ∈ evs, IsDriver e) :
    replay EndObserver.step o evs = { o with writes := o.writes ++ wordWrites evs } := by
  induction evs generalizing o with
  | nil => simp [replay, wordWrites]
  | cons e rest ih =>
    have hrest := ih (o.step e) fun e he => h e (List.mem_cons_of_mem _ he)
    cases e with
    | driver call answer => simpa [replay, wordWrites, EndObserver.step] using hrest
    | enter op => exact absurd (h _ List.mem_cons_self) id
    | leave code => exact absurd (h _ List.mem_cons_self) id

theorem along_driver_signalled (cores : List Core) (o : EndObserver) (h : ∀ e ∈ evs, IsDriver e) :
    Along EndObserver.step (EndsSignalled cores) o evs ↔
      (o.current = some .endGraph → o.ended = true → wordWrites evs = []) := by
  induction evs generalizing o with
  | nil => simp [Along, wordWrites]
  | cons e rest ih =>
    have hrest := ih (o.step e) fun e he => h e (List.mem_cons_of_mem _ he)
    cases e with
    | driver call answer =>
      rw [Along, hrest]
      simp only [EndsSignalled, EndObserver.step, wordWrites, List.flatMap_cons, List.append_eq_nil_iff]
      tauto
    | enter op => exact absurd (h _ List.mem_cons_self) id
    | leave code => exact absurd (h _ List.mem_cons_self) id

theorem along_driver_unwaited (cores : List Core) (o : EndObserver)
    (h : ∀ e ∈ evs, IsDriver e) : Along EndObserver.step (EndsUnwaited cores) o evs := by
  induction evs generalizing o with
  | nil => trivial
  | cons e rest ih =>
    have hrest := ih (o.step e) fun e he => h e (List.mem_cons_of_mem _ he)
    cases e with
    | driver call answer => exact ⟨trivial, hrest⟩
    | enter op => exact absurd (h _ List.mem_cons_self) id
    | leave code => exact absurd (h _ List.mem_cons_self) id

theorem Tracks.not_running {cores : List Core} (h : Tracks cores o isRunning)
    (hended : o.ended = true) : isRunning = false := by
  cases hran : o.ran with
  | false => exact h.fresh hran
  | true => exact (h.ended hran hended).1

theorem Tracks.written {s : GraphState} (h : Tracks s.cores o s.isRunning) (hran : o.ran = true) :
    o.writes ++ (ControlOp.endGraph.effect s).writes = if o.waited then [] else endSignals s.cores := by
  cases hended : o.ended with
  | false =>
    obtain ⟨hrunning, hwrites⟩ := h.running hran hended
    cases hwaited : o.waited <;> simp [ControlOp.effect, hrunning, hwrites, hwaited]
  | true =>
    obtain ⟨hrunning, hwrites⟩ := h.ended hran hended
    simp [ControlOp.effect, hrunning, hwrites]

theorem Tracks.quiet {cores : List Core} (h : Tracks cores o isRunning) :
    Tracks cores { o with current := none } isRunning :=
  ⟨rfl, h.fresh, h.running, h.ended⟩

theorem Tracks.wait {cores : List Core} (h : Tracks cores o isRunning) :
    Tracks cores { o with current := none, waited := o.waited || !o.ended } false where
  idle := rfl
  fresh := fun _ => rfl
  running := fun hran hended => ⟨by simp [show o.ended = false from hended], (h.running hran hended).2⟩
  ended := fun hran hended => ⟨rfl, by simpa [show o.ended = true from hended] using (h.ended hran hended).2⟩

def EndObserver.after (o : EndObserver) (op : ControlOp) (code : ErrCode) (writes : List WordWrite) : EndObserver :=
  ({ o with current := some op, writes := o.writes ++ writes } : EndObserver).step (.leave code)

theorem Tracks.after {s : GraphState} (h : Tracks s.cores o s.isRunning) (op : ControlOp) :
    Tracks s.cores (o.after op (op.effect s).code (op.effect s).writes) (op.effect s).isRunning := by
  cases op with
  | run => exact ⟨rfl, Bool.noConfusion, fun _ _ => ⟨rfl, rfl⟩, fun _ => Bool.noConfusion⟩
  | runIter testIter => exact ⟨rfl, Bool.noConfusion, fun _ _ => ⟨rfl, rfl⟩, fun _ => Bool.noConfusion⟩
  | wait => simpa [ControlOp.effect, EndObserver.after, EndObserver.step, EndObserver.called] using h.wait
  | waitTimeout cycleTimeout =>
    by_cases hlimit : 0xFFFFFFFFFFFF#64 < cycleTimeout
    · simpa [ControlOp.effect, EndObserver.after, EndObserver.step, hlimit] using h.quiet
    · simpa [ControlOp.effect, EndObserver.after, EndObserver.step, EndObserver.called, hlimit] using h.wait
  | resume => simpa [ControlOp.effect, EndObserver.after, EndObserver.step, EndObserver.called] using h.quiet
  | endGraph => exact ⟨rfl, fun _ => rfl, fun _ => Bool.noConfusion, fun hran _ => ⟨rfl, h.written hran⟩⟩

section Calls

variable {o : EndObserver} {s : GraphState} {op : ControlOp} {evs : List (Event ControlOp)} {code : ErrCode}

theorem replay_call (hdriver : ∀ e ∈ evs, IsDriver e) :
    replay EndObserver.step o (.enter op :: (evs ++ [.leave code])) = o.after op code (wordWrites evs) := by
  change replay EndObserver.step (o.step (.enter op)) (evs ++ [.leave code]) = _
  rw [replay_concat, replay_driver _ hdriver]
  rfl

theorem along_inProgress_signalled (h : Tracks s.cores o s.isRunning) (hdriver : ∀ e ∈ evs, IsDriver e)
    (hwrites : op.MayWrite s ∨ wordWrites evs = []) :
    Along EndObserver.step (EndsSignalled s.cores) o (.enter op :: evs) := by
  have hquiet : op = .endGraph → o.ended = true → wordWrites evs = [] := by
    rintro rfl hended
    have hstopped : s.isRunning = false := h.not_running hended
    refine hwrites.resolve_left fun hmay : s.isRunning = true => ?_
    rw [hstopped] at hmay
    exact absurd hmay Bool.false_ne_true
  rw [Along, along_driver_signalled _ _ hdriver]
  exact ⟨trivial, fun hop => hquiet (Option.some.inj hop)⟩

theorem signalled_leave_iff (h : Tracks s.cores o s.isRunning) :
    EndsSignalled s.cores { o with current := some op, writes := o.writes ++ (op.effect s).writes }
        (.leave (op.effect s).code) ↔
      EndsUnwaited s.cores { o with current := some op, writes := o.writes ++ (op.effect s).writes }
        (.leave (op.effect s).code) := by
  by_cases hop : op = .endGraph
  · subst hop
    refine imp_congr_right fun _ => imp_congr_right fun hran => ?_
    rw [h.written hran]
    cases o.waited <;> simp [@eq_comm _ []]
  · generalize (op.effect s).code = code
    cases code <;> simp [EndsSignalled, EndsUnwaited, hop]

theorem along_call_iff (h : Tracks s.cores o s.isRunning) (hdriver : ∀ e ∈ evs, IsDriver e)
    (hwrites : wordWrites evs = (op.effect s).writes) :
    Along EndObserver.step (EndsSignalled s.cores) o (.enter op :: (evs ++ [.leave (op.effect s).code])) ↔
      Along EndObserver.step (EndsUnwaited s.cores) o (.enter op :: (evs ++ [.leave (op.effect s).code])) := by
  have hsignalled : Along EndObserver.step (EndsSignalled s.cores) o (.enter op :: evs) := by
    apply along_inProgress_signalled h hdriver
    rw [hwrites]
    exact op.mayWrite_or_quiet s
  have hunwaited : Along EndObserver.step (EndsUnwaited s.cores) o (.enter op :: evs) :=
    ⟨trivial, along_driver_unwaited _ _ hdriver⟩
  have hreplay : replay EndObserver.step o (.enter op :: evs) =
      { o with current := some op, writes := o.writes ++ (op.effect s).writes } := by
    rw [← hwrites]
    exact replay_driver _ hdriver
  rw [← List.cons_append, along_concat, along_concat, hreplay]
  exact and_congr (iff_of_true hsignalled hunwaited) (signalled_leave_iff h)

end Calls

/-- What holds between calls if every driver call succeeded. -/
structure EndInvariant (cores : List Core) (w : GraphWorld ControlOp) : Prop where
  configured : w.state.isConfigured = true
  cores_eq : w.state.cores = cores
  tracks : (∀ e ∈ w.trace, Succeeds e) → Tracks cores (replay EndObserver.step .idle w.trace) w.state.isRunning ∧
    (Along EndObserver.step (EndsSignalled cores) .idle w.trace ↔
      Along EndObserver.step (EndsUnwaited cores) .idle w.trace)

/-- A control call keeps the invariant, and the property and the condition agree while it is in progress. -/
theorem triple_controlCall_endInvariant (cfg : GraphConfig) (mgr : ConfigManager)
    (cores : List Core) (op : ControlOp) :
    Program.Triple (EndInvariant cores) (apiCall (controlMethod (some cfg) mgr) op)
      (fun _ w => EndInvariant cores w)
      (fun w => (∀ e ∈ w.trace, Succeeds e) → (Along EndObserver.step (EndsSignalled cores) .idle w.trace ↔
        Along EndObserver.step (EndsUnwaited cores) .idle w.trace)) := by
  rintro w₀ ⟨hconfigured, rfl, htracks⟩
  refine (triple_controlCall cfg mgr hconfigured w₀.trace op).consequence (fun _ h => h) ?_ ?_ w₀ ⟨rfl, rfl⟩
  · rintro code w ⟨evs, htrace, hshown⟩
    obtain ⟨_, _, hkept⟩ := hshown.kept
    refine ⟨by rw [hkept]; exact hconfigured, by rw [hkept], fun hall => ?_⟩
    rw [htrace] at hall ⊢
    obtain ⟨hstep, hiff⟩ := htracks fun e he => hall e (List.mem_append_left _ he)
    have hcode : code = (op.effect w₀.state).code := hshown.succeeds fun e he => hall e (by simp [he])
    obtain ⟨_, hstate⟩ := hshown.state hcode
    subst hcode
    rw [replay_append, replay_call hshown.driver, hshown.writes rfl, hstate, along_append, along_append]
    exact ⟨hstep.after op, and_congr hiff (along_call_iff hstep hshown.driver (hshown.writes rfl))⟩
  · rintro w ⟨evs, htrace, hdriver, hwrites⟩ hall
    rw [htrace] at hall ⊢
    obtain ⟨hstep, hiff⟩ := htracks fun e he => hall e (List.mem_append_left _ he)
    rw [along_append, along_append]
    refine and_congr hiff (iff_of_true ?_ ?_)
    · exact along_inProgress_signalled hstep hdriver hwrites
    · exact ⟨trivial, along_driver_unwaited _ _ hdriver⟩

/-- In every run of control calls on a configured graph in which every driver call succeeds, finished or not: each
end that returns after a run has signalled the end once to every core that no trigger starts, and no later end
writes anything, exactly if no such end was preceded by a wait since its run. -/
theorem controlCalls_end_signals_iff (cfg : GraphConfig) (mgr : ConfigManager) (script : List DriverAnswer)
    (w₁ : World (Event ControlOp) DriverAnswer GraphState)
    (hconfigure : configure (some cfg) mgr { state := .fresh, trace := [], script } = (.returned .ok, w₁))
    (ops : List ControlOp) (hsucceeds : ∀ e ∈ (controlCalls (some cfg) mgr ops w₁).2.trace, Succeeds e) :
    Along EndObserver.step (EndsSignalled (cfg.cores mgr)) .idle (controlCalls (some cfg) mgr ops w₁).2.trace ↔
      Along EndObserver.step (EndsUnwaited (cfg.cores mgr)) .idle (controlCalls (some cfg) mgr ops w₁).2.trace := by
  have hbegin : EndInvariant (cfg.cores mgr) w₁ := by
    rw [configure_returned hconfigure]
    exact ⟨rfl, rfl, fun _ => ⟨⟨rfl, fun _ => rfl, nofun, nofun⟩, Iff.rfl⟩⟩
  have hrun := Program.triple_runAll _ (fun op (_ : op ∈ ops) =>
    triple_controlCall_endInvariant cfg mgr (cfg.cores mgr) op) w₁ hbegin
  unfold controlCalls at hsucceeds ⊢
  revert hrun hsucceeds
  rcases Program.runAll (apiCall (controlMethod (some cfg) mgr)) ops w₁ with ⟨outcome, w⟩
  cases outcome with
  | returned codes => exact fun hsucceeds hrun => (hrun.tracks hsucceeds).2
  | blocked => exact fun hsucceeds hrun => hrun hsucceeds
  | fault => exact fun _ hrun => absurd hrun id

/-- Running and ending the sample graph, twice, signals the end. -/
theorem controlCalls_end_signals_sample :
    (controlCalls (some sampleGraph) sampleManager [.run, .endGraph, .endGraph] (sampleGraphWorld 12)).1 =
        .returned [.ok, .ok, .ok] ∧
      Along EndObserver.step (EndsUnwaited (sampleGraph.cores sampleManager)) .idle
        (controlCalls (some sampleGraph) sampleManager [.run, .endGraph, .endGraph] (sampleGraphWorld 12)).2.trace ∧
      Along EndObserver.step (EndsSignalled (sampleGraph.cores sampleManager)) .idle
        (controlCalls (some sampleGraph) sampleManager [.run, .endGraph, .endGraph]
          (sampleGraphWorld 12)).2.trace :=
  ⟨by decide +kernel, by decide +kernel,
    (controlCalls_end_signals_iff sampleGraph sampleManager (willingDriver 12) (sampleGraphWorld 12) rfl
      [.run, .endGraph, .endGraph] (by decide +kernel)).mpr (by decide +kernel)⟩

/-- Running, waiting and ending the sample graph succeeds and never signals the end. -/
theorem waited_end_writes_no_signal :
    (controlCalls (some sampleGraph) sampleManager [.run, .wait, .endGraph] (sampleGraphWorld 8)).1 =
        .returned [.ok, .ok, .ok] ∧
      (∀ e ∈ (controlCalls (some sampleGraph) sampleManager [.run, .wait, .endGraph] (sampleGraphWorld 8)).2.trace,
        Succeeds e) ∧
      wordWrites (controlCalls (some sampleGraph) sampleManager [.run, .wait, .endGraph]
        (sampleGraphWorld 8)).2.trace = [] ∧
      endSignals (sampleGraph.cores sampleManager) = [{ loc := xaieTileLoc 1 1, addr := 0x100, data := 1 }] ∧
      ¬Along EndObserver.step (EndsSignalled (sampleGraph.cores sampleManager)) .idle
        (controlCalls (some sampleGraph) sampleManager [.run, .wait, .endGraph] (sampleGraphWorld 8)).2.trace :=
  ⟨by decide +kernel, by decide +kernel, by decide +kernel, by decide +kernel, by decide +kernel⟩

end AieBaremetal.Graph
