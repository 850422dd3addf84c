import AieBaremetal.Process.Api
import AieBaremetal.Profiling.Devices

/-!
# The device of every call

The driver calls of the runtime API and of profiling name the instance of the graph that was built first;
the FAL objects of a profile belong to the graph that was built last when the profile was started. So a
call is on its graph's instance as long as only the first graph calls the driver and profiles are started
only on the last one, and the first call against this rule is on another instance.
-/

namespace AieBaremetal.Process

open Common Common.Program AieBaremetal.Runtime AieBaremetal.Graph AieGraph Profiling

/-- The instance of an object whose constructor came to its end. -/
def builtInstance (o : GraphObject) : Option DevInst := if o.isReady then some o.description.devInst else none

/-- The instances of the graphs whose constructor came to its end. -/
def built (s : ProcessState) : List DevInst := s.graphs.filterMap builtInstance

def GraphOp.startsProfile : GraphOp → Bool
  | .profiling op => op.isStart
  | _ => false

/-- The instance a step should call. -/
def ownDevice (s : ProcessState) : ProcessOp → Option DevInst
  | .build d => some d.devInst
  | .call i _ => s.graphs[i]?.map fun o => o.description.devInst

/-- The driver is called through the manager for the graph built first only, and profiles that get to the FAL are
started for the graph built last only. -/
def StepKept (s : ProcessState) : ProcessOp → List ProcessEvent → Prop
  | .build _, _ => True
  | .call i op, events => ∀ o, s.graphs[i]? = some o →
    (∀ e ∈ events, e.call.viaManager = true → (built s).head? = some o.description.devInst) ∧
    (op.startsProfile = true → events ≠ [] → (built s).getLast? = some o.description.devInst)

/-- States and calls of runs whose steps meet the condition. -/
inductive Reach : ProcessState → List ProcessEvent → Prop
  | fresh : Reach ProcessState.fresh []
  | step {s τ op script s' events rest} (before : Reach s τ)
      (run : processMethod op { state := s, trace := [], script } =
        (.returned (), { state := s', trace := events, script := rest }))
      (kept : StepKept s op events) : Reach s' (τ ++ events)

/-- The calls a step has made, whether it returned or not. -/
def Makes (s : ProcessState) (op : ProcessOp) (events : List ProcessEvent) : Prop :=
  ∃ script, (processMethod op { state := s, trace := [], script }).2.trace = events

variable {A : Type} {s s' : ProcessState} {i : ℕ} {o o' : GraphObject} {x : DevInst}

section Components

/-- The calls are for graph `i`: on the static instance through the manager, on `x` otherwise. Where `x` is not
the graph's instance, calls begin with one not made through the manager. -/
structure CallsPlaced (s : ProcessState) (i : ℕ) (o : GraphObject) (x : DevInst) (τ : List ProcessEvent) :
    Prop where
  placed : ∀ e ∈ τ, e.graph = i ∧ e.dev = if e.call.viaManager then s.pDevInst else x
  other : x = o.description.devInst ∨ τ = [] ∨ ∃ e ∈ τ, e.call.viaManager = false

/-- At most the object of graph `i` changed, not what it was built from; its new records are of the instance `x`.
-/
structure Changed (s : ProcessState) (i : ℕ) (o : GraphObject) (x : DevInst) (w : ProcessWorld) : Prop where
  pDevInst : w.state.pDevInst = s.pDevInst
  isInitialized : w.state.isInitialized = s.isInitialized
  pXAieDev : w.state.pXAieDev = s.pXAieDev
  graphs : ∃ o', w.state.graphs = s.graphs.set i o' ∧ o'.description = o.description ∧ o'.isReady = o.isReady ∧
    ∀ record ∈ o'.eventRecords, record ∈ o.eventRecords ∨ ∀ rsc ∈ record.acquiredResources,
      rsc.dev = x ∧ w.trace ≠ []

abbrev AtStart (s : ProcessState) (w : ProcessWorld) : Prop := w.state = s ∧ w.trace = []

/-- A method of graph `i` that makes placed calls, and changes at most its object. -/
def Performs (s : ProcessState) (i : ℕ) (o : GraphObject) (x : DevInst) (p : ProcessProgram Unit) : Prop :=
  Leaves (AtStart s) p (fun _ w => CallsPlaced s i o x w.trace ∧ Changed s i o x w)
    (fun w => CallsPlaced s i o x w.trace)

theorem leaves_getState_start {next : ProcessState → ProcessProgram A} {post : A → ProcessWorld → Prop}
    {stop : ProcessWorld → Prop} (h : Leaves (AtStart s) (next s) post stop) :
    Leaves (AtStart s) (getState >>= next) post stop := by
  rintro w ⟨rfl, htrace⟩
  exact h w ⟨rfl, htrace⟩

/-- Nothing changed where the graphs and the device instances are the same. -/
theorem changed_of_graphs_eq {w : ProcessWorld} (hi : s.graphs[i]? = some o) (hdev : w.state.pDevInst = s.pDevInst)
    (hinit : w.state.isInitialized = s.isInitialized) (hxaie : w.state.pXAieDev = s.pXAieDev)
    (hgraphs : w.state.graphs = s.graphs) : Changed s i o x w := by
  obtain ⟨hlt, rfl⟩ := List.getElem?_eq_some_iff.mp hi
  exact ⟨hdev, hinit, hxaie, _, hgraphs.trans (List.set_getElem_self hlt).symm, rfl, rfl, fun _ => .inl⟩

theorem performs_return (hi : s.graphs[i]? = some o) : Performs s i o x (pure ()) := by
  rintro w ⟨rfl, htrace⟩
  exact ⟨⟨by simp [htrace], .inr (.inl htrace)⟩, changed_of_graphs_eq hi rfl rfl rfl rfl⟩

/-- A component run inside the process makes placed calls. -/
theorem performs_component {Ev Ans S : Type} {ev : Ev → List ProcessEvent} {ans : ProcessAnswer → Ans} {st : S}
    {p : Program Ev Ans S A} {inner : World Ev Ans S → Prop} {next : A × S → ProcessProgram Unit}
    (hp : Leaves (fun w => w.state = st ∧ w.trace = []) p (fun _ => inner) inner)
    (hplaced : ∀ w₁, inner w₁ → CallsPlaced s i o x (w₁.trace.flatMap ev))
    (hnext : ∀ a w₁, inner w₁ → ∀ script, ∃ s', next (a, w₁.state) ⟨s, w₁.trace.flatMap ev, script⟩ =
      (.returned (), ⟨s', w₁.trace.flatMap ev, script⟩) ∧ Changed s i o x ⟨s', w₁.trace.flatMap ev, script⟩) :
    Performs s i o x (runIn ev ans st p >>= next) := by
  have hrun : Leaves (AtStart s) (runIn ev ans st p)
      (fun r w => ∃ w₁, inner w₁ ∧ r.2 = w₁.state ∧ w.state = s ∧ w.trace = w₁.trace.flatMap ev)
      (fun w => CallsPlaced s i o x w.trace) := by
    have htrace (w : ProcessWorld) (w₁ : World Ev Ans S) (hw : AtStart s w) :
        (w.resume ev w₁).trace = w₁.trace.flatMap ev := by simp [World.resume, hw.2]
    refine leaves_runIn ev ans st hp ?_ ?_
    · exact fun w a w₁ hw hinner => ⟨w₁, hinner, rfl, hw.1, htrace w w₁ hw⟩
    · exact fun w w₁ hw hinner => htrace w w₁ hw ▸ hplaced w₁ hinner
  refine hrun.bind fun r => ?_
  rintro ⟨_, _, script⟩ ⟨w₁, hinner, hstate, rfl, rfl⟩
  obtain ⟨s', hrun', hchanged⟩ := hnext r.1 w₁ hinner script
  rw [show r = (r.1, w₁.state) from Prod.ext rfl hstate, hrun']
  exact ⟨hplaced w₁ hinner, hchanged⟩

theorem leaves_trivial {Ev Ans S : Type} {pre : World Ev Ans S → Prop} (p : Program Ev Ans S A) :
    Leaves pre p (fun _ _ => True) (fun _ => True) := by
  intro w _
  rcases p w with ⟨outcome, w'⟩
  cases outcome <;> exact trivial

/-- A component that is called through the manager only. -/
theorem performs_runtime {Op S : Type} {ans : ProcessAnswer → DriverAnswer} {st : S}
    {p : Program (Event Op) DriverAnswer S A} (update : S → ProcessState → ProcessState)
    (hupdate : ∀ st τ script, Changed s i o o.description.devInst ⟨update st s, τ, script⟩) :
    Performs s i o o.description.devInst
      (runIn (runtimeEvent i s.pDevInst) ans st p >>= fun (_, st) => modifyState (update st)) := by
  refine performs_component (leaves_trivial p) (fun w₁ _ => ⟨?_, .inl rfl⟩) fun _ w₁ _ _ => ⟨_, rfl, hupdate _ _ _⟩
  refine List.forall_mem_flatMap.mpr fun event _ => ?_
  cases event with
  | driver call answer => exact List.forall_mem_singleton.mpr ⟨rfl, rfl⟩
  | enter _ => exact List.forall_mem_nil _
  | leave _ => exact List.forall_mem_nil _

theorem performs_callGraphApi (hi : s.graphs[i]? = some o) (method : ConfigManager → GraphProgram ControlOp A) :
    Performs s i o o.description.devInst (callGraphApi i o method) := by
  refine leaves_getState_start ?_
  split
  · exact performs_return hi
  · exact performs_runtime (fun graphApi s => { s with graphs := s.graphs.set i { o with graphApi } })
      fun _ _ _ => ⟨rfl, rfl, rfl, _, rfl, rfl, rfl, fun _ => .inl⟩

theorem performs_callSharedBuffer (hi : s.graphs[i]? = some o) (buffer : SharedBufferConfig) (pValue : List UInt8)
    (numBytes : BitVec 64) :
    Performs s i o o.description.devInst (callSharedBuffer i o buffer pValue numBytes) := by
  refine leaves_getState_start ?_
  split
  · exact performs_return hi
  · exact performs_runtime (fun initialized s => { s with readOnlySharedBufferInitialized := initialized })
      fun _ _ _ => changed_of_graphs_eq hi rfl rfl rfl rfl

theorem performs_callAieGraph (op : AieGraphOp) : Performs s i o o.description.devInst (callAieGraph i o op) := by
  refine leaves_getState_start ?_
  refine performs_component (leaves_trivial _) (fun w₁ _ => ⟨?_, .inl rfl⟩) fun _ w₁ _ _ =>
    ⟨_, rfl, rfl, rfl, rfl, { o with aieGraph := w₁.state }, rfl, rfl, rfl, fun _ => .inl⟩
  refine List.forall_mem_flatMap.mpr fun event _ => ?_
  cases event with
  | driver call answer => exact List.forall_mem_singleton.mpr ⟨rfl, rfl⟩
  | cdo access => exact List.forall_mem_singleton.mpr ⟨rfl, rfl⟩
  | enter _ => exact List.forall_mem_nil _
  | leave _ _ => exact List.forall_mem_nil _

theorem placed_profilingProcessEvent {st : ProfilingState} {τ : List ProfilingEvent}
    (h : ∀ e ∈ τ, OnDevice st x e) :
    ∀ e ∈ τ.flatMap (profilingProcessEvent i), e.graph = i ∧ e.dev = if e.call.viaManager then
      st.devInst else x := by
  refine List.forall_mem_flatMap.mpr fun event hmem => ?_
  have hdev := h event hmem
  cases event with
  | fal call answer => exact List.forall_mem_singleton.mpr ⟨rfl, hdev⟩
  | driver dev call answer => exact List.forall_mem_singleton.mpr ⟨rfl, hdev⟩

theorem exists_fal_of_asked {w₁ : ProfilingWorld} (h : Asked w₁) :
    ∃ e ∈ w₁.trace.flatMap (profilingProcessEvent i), e.call.viaManager = false := by
  obtain ⟨event, hmem, hfal⟩ := h
  cases event with
  | fal call answer =>
    exact ⟨_, List.mem_flatMap.mpr ⟨.fal call answer, hmem, List.mem_singleton.mpr rfl⟩, rfl⟩
  | driver dev call answer => exact nomatch hfal

theorem performs_callProfiling_start (hi : s.graphs[i]? = some o) {op : ProfilingOp} (hop : op.isStart = true) :
    Performs s i o s.pXAieDev (callProfiling i o op) := by
  refine leaves_getState_start ?_
  split
  · exact performs_return hi
  · refine performs_component (leaves_start o.description.parser hop)
      (fun w₁ h => ⟨placed_profilingProcessEvent h.calls, .inr ?_⟩) fun _ w₁ h _ => ?_
    · exact h.asked.imp (fun hempty => by rw [hempty]; rfl) exists_fal_of_asked
    · refine ⟨_, rfl, rfl, rfl, rfl, { o with eventRecords := w₁.state.eventRecords }, rfl, rfl, rfl,
        fun record hrecord => ?_⟩
      refine (h.records record hrecord).imp_right fun hnew rsc hrsc => ⟨(hnew rsc hrsc).1, ?_⟩
      obtain ⟨e, he, -⟩ := exists_fal_of_asked (hnew rsc hrsc).2
      exact List.ne_nil_of_mem he

theorem performs_callProfiling_rest (hi : s.graphs[i]? = some o) {op : ProfilingOp} (hop : op.isStart = false)
    (hrecords : ∀ record ∈ o.eventRecords, ∀ rsc ∈ record.acquiredResources, rsc.dev = o.description.devInst) :
    Performs s i o o.description.devInst (callProfiling i o op) := by
  refine leaves_getState_start ?_
  split
  · exact performs_return hi
  · refine performs_component (leaves_read_stop o.description.parser hop hrecords)
      (fun w₁ h => ⟨placed_profilingProcessEvent h.calls, .inl rfl⟩) fun _ w₁ h _ => ?_
    exact ⟨_, rfl, rfl, rfl, rfl, { o with eventRecords := w₁.state.eventRecords }, rfl, rfl, rfl,
      h.eventRecords ▸ fun _ => .inl⟩

theorem performs_callGraph (hi : s.graphs[i]? = some o) (op : GraphOp)
    (hrecords : ∀ record ∈ o.eventRecords, ∀ rsc ∈ record.acquiredResources, rsc.dev = o.description.devInst) :
    Performs s i o (if op.startsProfile then s.pXAieDev else o.description.devInst) (callGraph i o op) := by
  cases op with
  | control op =>
    change Performs s i o o.description.devInst (callControl i o op)
    unfold callControl
    split
    · split
      · exact performs_return hi
      · exact performs_callGraphApi hi _
    · exact performs_callGraphApi hi _
  | update portName pValue numBytes =>
    change Performs s i o o.description.devInst (callUpdate i o portName pValue numBytes)
    unfold callUpdate
    split
    · exact performs_return hi
    · split
      · exact performs_callSharedBuffer hi _ _ _
      · split
        · exact performs_callGraphApi hi _
        · exact performs_return hi
  | read portName len =>
    change Performs s i o o.description.devInst (callRead i o portName len)
    unfold callRead
    split
    · exact performs_return hi
    · split
      · exact performs_callGraphApi hi _
      · exact performs_return hi
  | gmio op => exact performs_callAieGraph op
  | profiling call =>
    rw [GraphOp.startsProfile]
    split
    next hstart => exact performs_callProfiling_start hi hstart
    next hstart => exact performs_callProfiling_rest hi (Bool.not_eq_true _ ▸ hstart) hrecords

end Components

section Building

theorem leaves_configure {st : GraphState} (pGraphConfig : Option GraphConfig) (mgr : ConfigManager) :
    Leaves (fun w : GraphWorld ControlOp => w.state = st ∧ w.trace = [])
      (Graph.configure pGraphConfig mgr) (fun _ w => w.trace = []) (fun w => w.trace = []) := by
  unfold Graph.configure
  split
  · exact fun _ hw => hw.2
  · dsimp only
    split
    · exact fun _ hw => hw.2
    · exact fun _ hw => hw.2

/-- A constructor leaves a new object, and both statics changed if it came to its end. -/
structure Built (s : ProcessState) (d : GraphDescription) (s' : ProcessState) : Prop where
  graphs : ∃ o, s'.graphs = s.graphs ++ [o] ∧ o.description = d ∧ o.eventRecords = [] ∧
    if o.isReady then
      s'.pXAieDev = d.devInst ∧ s'.isInitialized = true ∧ s'.pDevInst = if s.isInitialized then
        s.pDevInst else d.devInst
    else s'.pXAieDev = s.pXAieDev ∧ s'.isInitialized = s.isInitialized ∧ s'.pDevInst = s.pDevInst

/-- The calls of a constructor are on the instance of the new graph. -/
def BuildPlaced (s : ProcessState) (d : GraphDescription) (τ : List ProcessEvent) : Prop :=
  ∀ e ∈ τ, e.graph = s.graphs.length ∧ e.dev = d.devInst

/-- A constructor in the state `st`. -/
abbrev Building (s : ProcessState) (d : GraphDescription) (st : ProcessState) (w : ProcessWorld) : Prop :=
  w.state = st ∧ BuildPlaced s d w.trace

/-- What is left of a constructor. -/
def Builds (s : ProcessState) (d : GraphDescription) (p : ProcessProgram Unit) : Prop :=
  Leaves (Building s d s) p (fun _ w => Built s d w.state ∧ BuildPlaced s d w.trace)
    (fun w => BuildPlaced s d w.trace)

theorem leaves_ask_build (d : GraphDescription) (call : ProcessCall) :
    Leaves (Building s d s) (Program.ask fun _ => { graph := s.graphs.length, dev := d.devInst, call })
      (fun _ => Building s d s) (fun w => BuildPlaced s d w.trace) := by
  refine (triple_ask _ (fun _ hw => hw.2) ?_).leaves
  rintro w _ _ ⟨hstate, hplaced⟩ -
  refine ⟨hstate, ?_⟩
  intro e he
  rcases List.mem_append.mp he with hold | hnew
  · exact hplaced e hold
  · rw [List.mem_singleton.mp hnew]
    exact ⟨rfl, rfl⟩

theorem builds_unready (d : GraphDescription) (hasGraphApi : Bool) :
    Builds s d (pushGraph (.unready d hasGraphApi)) := by
  rintro w ⟨rfl, hplaced⟩
  exact ⟨⟨.unready d hasGraphApi, rfl, rfl, rfl, rfl, rfl, rfl⟩, hplaced⟩

theorem falUtilInitialize_eq (d : GraphDescription) :
    falUtilInitialize d.devInst s = { s with pXAieDev := d.devInst } :=
  if_neg d.devInst_ne_null

theorem configManagerInitialize_fields (d : GraphDescription) :
    (configManagerInitialize d s).graphs = s.graphs ∧ (configManagerInitialize d s).pXAieDev = s.pXAieDev ∧
      (configManagerInitialize d s).isInitialized = true ∧
      (configManagerInitialize d s).pDevInst = if s.isInitialized then s.pDevInst else d.devInst := by
  unfold configManagerInitialize
  cases h : s.isInitialized with
  | true => simp [h]
  | false => simp [d.devInst_ne_null]

/-- Configuring the new graph makes no calls. -/
theorem leaves_configure_new (d : GraphDescription) (st : ProcessState) :
    Leaves (Building s d st)
      (runIn (@runtimeEvent ControlOp s.graphs.length st.pDevInst) ProcessAnswer.driver GraphState.fresh
        (Graph.configure d.pGraphConfig st.mgr))
      (fun _ => Building s d st) (fun w => BuildPlaced s d w.trace) := by
  have hresume (w : ProcessWorld) (w₁ : GraphWorld ControlOp) (hw₁ : w₁.trace = [])
      (hw : BuildPlaced s d w.trace) :
      BuildPlaced s d (w.resume (@runtimeEvent ControlOp s.graphs.length st.pDevInst) w₁).trace := by
    simpa [World.resume, hw₁] using hw
  refine leaves_runIn _ _ _ (leaves_configure _ _) ?_ ?_
  · exact fun w _ w₁ hw hw₁ => ⟨hw.1, hresume w w₁ hw₁ hw.2⟩
  · exact fun w w₁ hw hw₁ => hresume w w₁ hw₁ hw.2

theorem builds_ready (d : GraphDescription) :
    Builds s d (do
      modifyState (falUtilInitialize d.devInst)
      modifyState (configManagerInitialize d)
      let s' ← getState
      let (_, graphApi) ← runIn (@runtimeEvent ControlOp s.graphs.length s'.pDevInst) ProcessAnswer.driver
        GraphState.fresh (Graph.configure d.pGraphConfig s'.mgr)
      pushGraph { GraphObject.unready d true with isReady := true, graphApi }) := by
  rintro w ⟨rfl, hplaced⟩
  let st := configManagerInitialize d (falUtilInitialize d.devInst w.state)
  obtain ⟨hgraphs, hstatics⟩ :
      st.graphs = w.state.graphs ∧ st.pXAieDev = d.devInst ∧ st.isInitialized = true ∧
        st.pDevInst = if w.state.isInitialized then w.state.pDevInst else d.devInst := by
    simp only [st, falUtilInitialize_eq]
    exact configManagerInitialize_fields d
  refine ((leaves_configure_new d st).bind fun result => ?_) { w with state := st } ⟨rfl, hplaced⟩
  rintro w' ⟨hstate, hplaced'⟩
  refine ⟨⟨{ GraphObject.unready d true with isReady := true, graphApi := result.2 }, ?_, rfl, rfl, ?_⟩, hplaced'⟩
  · change w'.state.graphs ++ _ = _
    rw [hstate, hgraphs]
  · change w'.state.pXAieDev = _ ∧ w'.state.isInitialized = _ ∧ w'.state.pDevInst = _
    rw [hstate]
    exact hstatics

theorem leaves_build (d : GraphDescription) :
    Leaves (AtStart s) (build d) (fun _ w => Built s d w.state ∧ BuildPlaced s d w.trace)
      (fun w => BuildPlaced s d w.trace) := by
  have hstart (w : ProcessWorld) (hw : AtStart s w) : Building s d s w := ⟨hw.1, hw.2 ▸ nofun⟩
  refine leaves_getState_start (Leaves.consequence ?_ hstart (fun _ _ hw => hw) fun _ hw => hw)
  dsimp only
  split
  · exact builds_unready d false
  · refine (leaves_ask_build d .setupPartitionConfig).bind fun setup => ?_
    split
    · exact builds_unready d true
    · refine (leaves_ask_build d .cfgInitialize).bind fun config => ?_
      split
      · exact builds_unready d true
      · exact builds_ready d

end Building

section Runs

/-- The statics name the first and the last graph built, and graphs have profiles of their own device only. -/
structure Consistent (s : ProcessState) : Prop where
  pDevInst : s.pDevInst = (built s).head?.getD nullDevInst
  isInitialized : s.isInitialized = true ↔ built s ≠ []
  pXAieDev : s.pXAieDev = (built s).getLast?.getD nullDevInst
  records : ∀ o ∈ s.graphs, ∀ record ∈ o.eventRecords, ∀ rsc ∈ record.acquiredResources,
    rsc.dev = o.description.devInst

theorem Consistent.pDevInst_eq_iff (hs : Consistent s) (d : GraphDescription) :
    s.pDevInst = d.devInst ↔ (built s).head? = some d.devInst := by
  rw [hs.pDevInst]
  cases (built s).head? with
  | none => exact ⟨fun h => absurd h.symm d.devInst_ne_null, nofun⟩
  | some dev => simp

theorem Consistent.pXAieDev_eq_iff (hs : Consistent s) (d : GraphDescription) :
    s.pXAieDev = d.devInst ↔ (built s).getLast? = some d.devInst := by
  rw [hs.pXAieDev]
  cases (built s).getLast? with
  | none => exact ⟨fun h => absurd h.symm d.devInst_ne_null, nofun⟩
  | some dev => simp

theorem Changed.built {w : ProcessWorld} (h : Changed s i o x w) (hi : s.graphs[i]? = some o) :
    built w.state = built s := by
  obtain ⟨o', hgraphs, hdescription, hready, -⟩ := h.graphs
  obtain ⟨hlt, rfl⟩ := List.getElem?_eq_some_iff.mp hi
  have hmap : (s.graphs.set i o').map builtInstance = s.graphs.map builtInstance := by
    rw [List.map_set, show builtInstance o' =
      builtInstance s.graphs[i] by rw [builtInstance, hready, hdescription, builtInstance]]
    have hi' : i < (s.graphs.map builtInstance).length := by rwa [List.length_map]
    rw [← List.getElem_map builtInstance (h := hi'), List.set_getElem_self]
  have hfilter (graphs : List GraphObject) : graphs.filterMap builtInstance =
    (graphs.map builtInstance).filterMap id := by
    rw [List.filterMap_map]
    rfl
  rw [Process.built, hgraphs, hfilter, hmap, ← hfilter, Process.built]

theorem Changed.consistent {w : ProcessWorld} (hs : Consistent s) (hi : s.graphs[i]? = some o)
    (h : Changed s i o x w) (hx : w.trace ≠ [] → x = o.description.devInst) : Consistent w.state where
  pDevInst := by rw [h.pDevInst, h.built hi, hs.pDevInst]
  isInitialized := by rw [h.isInitialized, h.built hi, hs.isInitialized]
  pXAieDev := by rw [h.pXAieDev, h.built hi, hs.pXAieDev]
  records := by
    obtain ⟨o', hgraphs, hdescription, -, hrecords⟩ := h.graphs
    rw [hgraphs]
    intro object hobject record hrecord rsc hrsc
    rcases List.mem_or_eq_of_mem_set hobject with hold | rfl
    · exact hs.records object hold record hrecord rsc hrsc
    · rw [hdescription]
      rcases hrecords record hrecord with hold | hnew
      · exact hs.records o (List.mem_of_getElem? hi) record hold rsc hrsc
      · exact (hnew rsc hrsc).1.trans (hx (hnew rsc hrsc).2)

/-- A consistent process stays consistent over a constructor. -/
theorem Built.consistent (hs : Consistent s) {d : GraphDescription} (h : Built s d s') : Consistent s' := by
  obtain ⟨o, hgraphs, rfl, hrecords, hstatics⟩ := h.graphs
  have hbuilt : built s' = built s ++ (builtInstance o).toList := by
    rw [built, hgraphs, List.filterMap_append, built]
    cases hnew : builtInstance o <;> simp [hnew]
  have hall : ∀ object ∈ s'.graphs, ∀ record ∈ object.eventRecords, ∀ rsc ∈ record.acquiredResources,
      rsc.dev = object.description.devInst := by
    rw [hgraphs]
    intro object hobject
    rcases List.mem_append.mp hobject with hold | hnew
    · exact hs.records object hold
    · rw [List.mem_singleton.mp hnew, hrecords]
      exact nofun
  cases hready : o.isReady with
  | false =>
    rw [hready] at hstatics
    obtain ⟨hxaie, hinit, hdev⟩ := hstatics
    have hsame : built s' = built s := by simp [hbuilt, builtInstance, hready]
    exact ⟨by rw [hdev, hsame, hs.pDevInst], by rw [hinit, hsame, hs.isInitialized], by
      rw [hxaie, hsame, hs.pXAieDev], hall⟩
  | true =>
    rw [hready] at hstatics
    obtain ⟨hxaie, hinit, hdev⟩ := hstatics
    have hnew : built s' = built s ++ [o.description.devInst] := by simp [hbuilt, builtInstance, hready]
    refine ⟨?_, ?_, ?_, hall⟩
    · rw [hdev, hnew]
      cases hempty : built s with
      | nil =>
        have hnot : s.isInitialized = false := by
          rw [← Bool.not_eq_true, hs.isInitialized, hempty]
          exact fun hne => hne rfl
        simp [hnot]
      | cons first rest =>
        have hyes : s.isInitialized = true := hs.isInitialized.mpr (by rw [hempty]; exact List.cons_ne_nil _ _)
        simp [hyes, hs.pDevInst, hempty]
    · rw [hinit, hnew]
      simp
    · rw [hxaie, hnew]
      simp

/-- Objects stay, with what they were built from. -/
def Remain (s s' : ProcessState) : Prop :=
  ∀ (k : ℕ) (o : GraphObject), s.graphs[k]? = some o → ∃ o', s'.graphs[k]? = some o' ∧
  o'.description = o.description

theorem Changed.remain {w : ProcessWorld} (hi : s.graphs[i]? = some o) (h : Changed s i o x w) :
    Remain s w.state := by
  obtain ⟨o', hgraphs, hdescription, -⟩ := h.graphs
  intro k object hk
  rw [hgraphs]
  by_cases hik : i = k
  · subst hik
    cases hi.symm.trans hk
    exact ⟨o', List.getElem?_set_self (List.getElem?_eq_some_iff.mp hi).1, hdescription⟩
  · exact ⟨object, (List.getElem?_set_ne hik).trans hk, rfl⟩

theorem CallsPlaced.own_iff {τ : List ProcessEvent} (h : CallsPlaced s i o x τ) :
    (∀ e ∈ τ, some o.description.devInst = some e.dev) ↔
      (∀ e ∈ τ, e.call.viaManager = true → s.pDevInst = o.description.devInst) ∧
        (τ ≠ [] → x = o.description.devInst) := by
  have hdev {e : ProcessEvent} (he : e ∈ τ) := (h.placed e he).2
  constructor
  · refine fun hown => ⟨fun e he hmanager => ?_, fun hne => ?_⟩
    · rw [Option.some.inj (hown e he), hdev he, if_pos hmanager]
    · rcases h.other with hx | hempty | ⟨e, he, hfal⟩
      · exact hx
      · exact absurd hempty hne
      · rw [Option.some.inj (hown e he), hdev he, hfal]
        rfl
  · rintro ⟨hfirst, hx⟩ e he
    rw [hdev he]
    split
    next hmanager => rw [hfirst e he hmanager]
    next => rw [hx (List.ne_nil_of_mem he)]

theorem leaves_call (hs : Consistent s) (hi : s.graphs[i]? = some o) (op : GraphOp) :
    Leaves (AtStart s) (callGraph i o op)
      (fun _ w => ((∀ e ∈ w.trace, some o.description.devInst = some e.dev) ↔ StepKept s (.call i op) w.trace) ∧
        (∀ e ∈ w.trace, e.graph = i) ∧ Remain s w.state ∧ (StepKept s (.call i op) w.trace → Consistent w.state))
      (fun w => (∀ e ∈ w.trace, some o.description.devInst = some e.dev) ↔ StepKept s (.call i op) w.trace) := by
  have hkept (events : List ProcessEvent) : StepKept s (.call i op) events ↔
      (∀ e ∈ events, e.call.viaManager = true → s.pDevInst = o.description.devInst) ∧
        (events ≠ [] → (if op.startsProfile then s.pXAieDev else o.description.devInst) =
          o.description.devInst) := by
    simp only [StepKept, hi, Option.some.injEq, forall_eq', hs.pDevInst_eq_iff, ← hs.pXAieDev_eq_iff]
    cases op.startsProfile <;> simp
  have hperforms := performs_callGraph hi op (hs.records o (List.mem_of_getElem? hi))
  refine hperforms.consequence (fun _ hw => hw) ?_ fun w hplaced => hplaced.own_iff.trans (hkept w.trace).symm
  rintro _ w ⟨hplaced, hchanged⟩
  refine ⟨hplaced.own_iff.trans (hkept w.trace).symm, fun e he => (hplaced.placed e he).1,
    hchanged.remain hi, fun hstep => ?_⟩
  exact hchanged.consistent hs hi ((hkept w.trace).mp hstep).2

theorem Built.remain {d : GraphDescription} (h : Built s d s') : Remain s s' := by
  intro k object hk
  obtain ⟨o, hgraphs, -⟩ := h.graphs
  rw [hgraphs, List.getElem?_append_left (List.getElem?_eq_some_iff.mp hk).1]
  exact ⟨object, hk, rfl⟩

/-- Every call is on the instance of its graph. -/
def OwnCalls (s : ProcessState) (events : List ProcessEvent) : Prop :=
  ∀ e ∈ events, ∃ o, s.graphs[e.graph]? = some o ∧ e.dev = o.description.devInst

theorem OwnCalls.remain {events : List ProcessEvent} (h : OwnCalls s events) (hremain : Remain s s') :
    OwnCalls s' events := by
  intro e he
  obtain ⟨o, hgraph, hdev⟩ := h e he
  obtain ⟨o', hgraph', hdescription⟩ := hremain e.graph o hgraph
  exact ⟨o', hgraph', by rw [hdescription, hdev]⟩

/-- The calls of a step are on the own instance exactly under the condition, which keeps the process consistent.
-/
theorem leaves_processMethod (hs : Consistent s) (op : ProcessOp) :
    Leaves (AtStart s) (processMethod op)
      (fun _ w => ((∀ e ∈ w.trace, ownDevice s op = some e.dev) ↔ StepKept s op w.trace) ∧ Remain s w.state ∧
        (StepKept s op w.trace → Consistent w.state ∧ OwnCalls w.state w.trace))
      (fun w => (∀ e ∈ w.trace, ownDevice s op = some e.dev) ↔ StepKept s op w.trace) := by
  cases op with
  | build d =>
    have hown (events : List ProcessEvent) (h : BuildPlaced s d events) :
        (∀ e ∈ events, ownDevice s (.build d) = some e.dev) ↔ StepKept s (.build d) events := by
      refine iff_of_true (fun e he => ?_) trivial
      rw [(h e he).2, ownDevice]
    refine (leaves_build d).consequence (fun _ hw => hw) ?_ fun w hplaced => hown w.trace hplaced
    rintro _ w ⟨hbuilt, hplaced⟩
    refine ⟨hown w.trace hplaced, hbuilt.remain, fun _ => ⟨hbuilt.consistent hs, fun e he => ?_⟩⟩
    obtain ⟨o, hgraphs, hdescription, -⟩ := hbuilt.graphs
    refine ⟨o, ?_, by rw [hdescription, (hplaced e he).2]⟩
    rw [(hplaced e he).1, hgraphs, List.getElem?_concat_length]
  | call i op =>
    refine leaves_getState_start ?_
    cases hi : s.graphs[i]? with
    | none =>
      -- there is no such graph, and nothing is called
      rintro w ⟨rfl, htrace⟩
      refine ⟨?_, fun k o hk => ⟨o, hk, rfl⟩, fun _ => ⟨hs, ?_⟩⟩
      · simp [htrace, StepKept, hi]
      · simp [htrace, OwnCalls]
    | some o =>
      have hdev : ownDevice s (.call i op) = some o.description.devInst := by rw [ownDevice, hi, Option.map_some]
      rw [hdev]
      refine (leaves_call hs hi op).consequence (fun _ hw => hw) ?_ fun _ hown => hown
      rintro _ w ⟨hown, hgraph, hremain, hconsistent⟩
      refine ⟨hown, hremain, fun hkept => ⟨hconsistent hkept, fun e he => ?_⟩⟩
      obtain ⟨object, hobject, hdescription⟩ := hremain i o hi
      refine ⟨object, by rw [hgraph e he, hobject], ?_⟩
      rw [hdescription]
      exact (Option.some.inj (hown.mpr hkept e he)).symm

theorem consistent_fresh : Consistent ProcessState.fresh where
  pDevInst := rfl
  isInitialized := ⟨nofun, fun h => absurd rfl h⟩
  pXAieDev := rfl
  records := nofun

theorem Reach.invariant {τ : List ProcessEvent} (h : Reach s τ) : Consistent s ∧ OwnCalls s τ := by
  induction h with
  | fresh => exact ⟨consistent_fresh, nofun⟩
  | step before run kept ih =>
    obtain ⟨hs, hown⟩ := ih
    obtain ⟨-, hremain, hkept⟩ := (leaves_processMethod hs _).of_returned ⟨rfl, rfl⟩ run
    obtain ⟨hs', hevents⟩ := hkept kept
    refine ⟨hs', fun e he => ?_⟩
    rcases List.mem_append.mp he with hold | hnew
    · exact hown.remain hremain e hold
    · exact hevents e hnew

end Runs

/-- In every run in which the driver is called for the graph built first only, and profiles that get to the FAL
are started for the graph built last only, every call is on the instance of the graph it is made for; and from
every such run the calls of a further step are on its graph's instance exactly if the step keeps to this. -/
theorem calls_on_own_device_iff {s : ProcessState} {τ : List ProcessEvent} (h : Reach s τ) :
    (∀ e ∈ τ, ∃ o, s.graphs[e.graph]? = some o ∧ e.dev = o.description.devInst) ∧
      ∀ op events, Makes s op events → ((∀ e ∈ events, ownDevice s op = some e.dev) ↔ StepKept s op events) := by
  obtain ⟨hs, hown⟩ := h.invariant
  refine ⟨hown, ?_⟩
  rintro op _ ⟨script, rfl⟩
  refine (leaves_processMethod hs op).consequence (fun _ hw => hw) (fun _ _ hw => hw.1) (fun _ hw => hw)
    |>.always ⟨rfl, rfl⟩

def sampleDescription (devInst : DevInst) (h : devInst ≠ nullDevInst) : GraphDescription where
  devInst := devInst
  devInst_ne_null := h
  cdoDevInst := ⟨0⟩
  aieBase := 0
  devGen := xaieDevGenAieml
  memNumRows := 0
  broadcastEnableCore := false
  pGraphConfig := some sampleGraph
  gmioconfigs := [("in0", { type := .gm2aie, shimColumn := 2, channelNum := 2, burstLength := 16 })]
  rtpconfigs := []
  sharedbufferconfigs := []
  parser :=
    { gmioconfigs := [("in0", { type := .gm2aie, shimColumn := 2#16, streamId := 3#16 })], plioconfigs := [] }

def firstDescription : GraphDescription := sampleDescription ⟨0x1000#64⟩ (by decide)

def secondDescription : GraphDescription := sampleDescription ⟨0x2000#64⟩ (by decide)

def willingProcess : List ProcessAnswer :=
  List.replicate 20
    { driver := { rc := xaieOk, value := 4, bytes := [], progress := 0 }
      profiling :=
        { rc := xaieOk, value := 0#32, loc := xaieTileLoc 2#8 0#8, mod := .pl, tileLocs := [], endMod := .pl } }

@[irreducible] def willingStep (op : ProcessOp) (s : ProcessState) : Outcome Unit × ProcessWorld :=
  processMethod op { state := s, trace := [], script := willingProcess }

/-- The state after some such steps. -/
def willingRun (ops : List ProcessOp) : ProcessState :=
  ops.foldl (fun s op => (willingStep op s).2.state) ProcessState.fresh

theorem Reach.willing {s : ProcessState} {τ : List ProcessEvent} (h : Reach s τ) {op : ProcessOp}
    (hreturned : (willingStep op s).1 = .returned ()) (hkept : StepKept s op (willingStep op s).2.trace) :
    Reach (willingStep op s).2.state (τ ++ (willingStep op s).2.trace) := by
  unfold willingStep at hreturned hkept ⊢
  exact .step h (Prod.ext hreturned rfl) hkept

/-- A graph without a GMIO, on the second instance. -/
def quietDescription : GraphDescription := { secondDescription with gmioconfigs := [] }

def twoGraphs : List ProcessOp :=
  [.build firstDescription, .build quietDescription, .call 0 (.gmio (.init none 0)),
    .call 1 (.gmio (.init (some [sampleBlob]) 1))]

/-- The calls of a step after the first `k` steps. -/
def twoGraphsCalls (k : ℕ) (op : ProcessOp) : List ProcessEvent :=
  (willingStep op (willingRun (twoGraphs.take k))).2.trace

def twoGraphsTrace : List ProcessEvent :=
  [] ++ twoGraphsCalls 0 (.build firstDescription) ++ twoGraphsCalls 1 (.build quietDescription) ++
    twoGraphsCalls 2 (.call 0 (.gmio (.init none 0))) ++
      twoGraphsCalls 3 (.call 1 (.gmio (.init (some [sampleBlob]) 1)))

/-- The first graph calls the driver, and the second one makes no call through the manager. -/
theorem reach_twoGraphs : Reach (willingRun twoGraphs) twoGraphsTrace := by
  have hfirst : Reach (willingRun (twoGraphs.take 1)) _ := Reach.fresh.willing (by decide +kernel) trivial
  have hsecond : Reach (willingRun (twoGraphs.take 2)) _ := hfirst.willing (by decide +kernel) trivial
  have hown : ((willingRun (twoGraphs.take 2)).graphs[0]?).map (fun o => o.description.devInst) =
      (built (willingRun (twoGraphs.take 2))).head? := by decide +kernel
  have hinit := @Reach.willing _ _ hsecond (.call 0 (.gmio (.init none 0))) (by decide +kernel) fun o ho =>
    ⟨fun _ _ _ => by rw [← hown, ho, Option.map_some], nofun⟩
  have hnone : ∀ e ∈ twoGraphsCalls 3 (.call 1 (.gmio (.init (some [sampleBlob]) 1))),
    e.call.viaManager = false := by
    decide +kernel
  refine hinit.willing (by decide +kernel) fun o _ => ⟨fun e he hmanager => ?_, nofun⟩
  exact absurd ((hnone e he).symm.trans hmanager) Bool.false_ne_true

/-- Two constructors, the GMIO of the first graph and the CDO of the second are on the instances of their graphs.
-/
theorem calls_on_own_device_sample :
    twoGraphsTrace.map (fun e => (e.graph, e.dev.address)) =
        List.replicate 2 (0, 0x1000#64) ++ List.replicate 2 (1, 0x2000#64) ++ List.replicate 7 (0, 0x1000#64) ++
          [(1, 0x2000#64)] ∧
      ∀ e ∈ twoGraphsTrace, ∃ o, (willingRun twoGraphs).graphs[e.graph]? = some o ∧ e.dev = o.description.devInst :=
  ⟨by decide +kernel, (calls_on_own_device_iff reach_twoGraphs).1⟩

/-- Initialising the second of two graphs calls the driver on the instance of the first, and a profile of the
first reserves resources of the second. -/
theorem second_graph_called_on_first :
    ((willingStep (.call 1 (.gmio (.init none 0)))
        (willingRun [.build firstDescription, .build secondDescription])).2.trace.map fun e =>
          (e.graph, e.dev.address)) =
      List.replicate 7 (1, 0x1000#64) ∧
    ((willingStep (.call 0 (.profiling (.start "in0" ioTotalStreamRunningToIdleCycles 0#32)))
        (willingRun [.build firstDescription, .build secondDescription,
          .call 0 (.gmio (.init none 0))])).2.trace.map
          fun e => (e.graph, e.dev.address)) =
      List.replicate 4 (0, 0x2000#64) ++ List.replicate 2 (0, 0x1000#64) := by
  refine ⟨?_, ?_⟩
  · decide +kernel
  · decide +kernel

end AieBaremetal.Process
