import AieBaremetal.Common.Subprogram
import AieBaremetal.Profiling.Api

/-!
# The devices of a profiling call

Driver calls of profiling go to `config_manager::s_pDevInst`, calls of the FAL to the device of the
resource object. A start makes its objects on `fal_util::s_pXAieDev` and calls the FAL first; reading
and stopping use the objects of a record. Both statics can be those of another graph. The results hold
for every run, also for those that do not return.
-/

namespace AieBaremetal.Profiling

open Common Common.Program AieBaremetal.Runtime

def ProfilingEvent.device : ProfilingEvent → DevInst
  | .fal call _ => call.resource.dev
  | .driver dev _ _ => dev

def ProfilingEvent.isFal : ProfilingEvent → Bool
  | .fal _ _ => true
  | .driver _ _ _ => false

variable {A : Type} {rsc : Resource}

section Rules

variable {s : ProfilingState} {x : DevInst} {asked : Bool} {w : ProfilingWorld}

/-- A call on its device: `x` for the FAL, the static one for the driver. -/
def OnDevice (s : ProfilingState) (x : DevInst) (e : ProfilingEvent) :
    Prop := e.device = if e.isFal then x else s.devInst

def Asked (w : ProfilingWorld) : Prop := ∃ e ∈ w.trace, e.isFal = true

/-- The calls were on the right devices, one of the FAL among them if `asked`; statics and records are those of
`s`. -/
structure CallsOn (s : ProfilingState) (x : DevInst) (asked : Bool) (w : ProfilingWorld) : Prop where
  devInst : w.state.devInst = s.devInst
  xaieDev : w.state.xaieDev = s.xaieDev
  eventRecords : w.state.eventRecords = s.eventRecords
  calls : ∀ e ∈ w.trace, OnDevice s x e
  fal : asked = true → Asked w

/-- Code that makes its calls on these devices. -/
def StaysOn {A : Type} (s : ProfilingState) (x : DevInst) (p : ProfilingProgram A) : Prop :=
  ∀ asked, Program.Leaves (CallsOn s x asked) p (fun _ => CallsOn s x asked) (CallsOn s x asked)

theorem CallsOn.snoc (h : CallsOn s x asked w) {e : ProfilingEvent} (he : OnDevice s x e) (script : List Answer) :
    CallsOn s x asked { w with trace := w.trace ++ [e], script } where
  devInst := h.devInst
  xaieDev := h.xaieDev
  eventRecords := h.eventRecords
  calls := by
    intro e' he'
    rcases List.mem_append.mp he' with hold | hnew
    · exact h.calls e' hold
    · rw [List.mem_singleton.mp hnew]
      exact he
  fal := by
    intro hasked
    obtain ⟨e', he', hfal⟩ := h.fal hasked
    exact ⟨e', List.mem_append_left _ he', hfal⟩

theorem staysOn_pure (a : A) : StaysOn s x (pure a) := fun _ _ hw => hw

theorem StaysOn.bind {B : Type} {p : ProfilingProgram A} {next : A → ProfilingProgram B} (h : StaysOn s x p)
    (hnext : ∀ a, StaysOn s x (next a)) : StaysOn s x (p >>= next) :=
  fun asked => (h asked).bind fun a => hnext a asked

theorem staysOn_fal (call : FalCall) (h : call.resource.dev = x) : StaysOn s x (fal call) :=
  fun _ => (triple_ask _ (fun _ hw => hw) fun _ a _ hw _ => hw.snoc (e := .fal call a) h _).leaves

theorem staysOn_xaie (call : ProfileCall) : StaysOn s x (xaie call) := by
  intro asked w hw
  have hask : Leaves (CallsOn s x asked) (Program.ask (ProfilingEvent.driver w.state.devInst call))
      (fun _ => CallsOn s x asked) (CallsOn s x asked) :=
    (triple_ask _ (fun _ hw => hw) fun _ a _ hw' _ =>
      hw'.snoc (e := .driver w.state.devInst call a) hw.devInst _).leaves
  exact hask w hw

theorem staysOn_accumulateStatus (driverStatus : BitVec 32) (calls : List ProfileCall) :
    StaysOn s x (accumulateStatus driverStatus calls) := by
  induction calls generalizing driverStatus with
  | nil => exact staysOn_pure driverStatus
  | cons call rest ih => exact (staysOn_xaie call).bind fun answer => ih _

theorem staysOn_setReserved (g : Finset Resource → Finset Resource) :
    StaysOn s x (modifyState fun s => { s with reserved := g s.reserved }) :=
  fun _ _ hw => ⟨hw.devInst, hw.xaieDev, hw.eventRecords, hw.calls, hw.fal⟩

theorem staysOn_release (h : rsc.dev = x) : StaysOn s x (release rsc) :=
  (staysOn_fal (.release rsc) h).bind fun _ =>
    (staysOn_setReserved fun reserved => reserved.erase rsc).bind fun _ => staysOn_pure _

theorem staysOn_ofOption_bind {B : Type} {o : Option A} {next : A → ProfilingProgram B}
    (h : ∀ a, o = some a → StaysOn s x (next a)) : StaysOn s x (Program.ofOption o >>= next) := by
  cases o with
  | none => exact fun _ _ hw => hw
  | some a => exact h a rfl

end Rules

section Records

variable {s : ProfilingState} {x : DevInst} {resources : List Resource}

theorem staysOn_read (h : ∀ rsc ∈ resources, rsc.dev = x) (startTimeDifference : Bool) :
    StaysOn s x (read resources startTimeDifference) := by
  unfold read
  split
  · refine staysOn_ofOption_bind fun rsc₁ h₁ => staysOn_ofOption_bind fun rsc₂ h₂ => ?_
    have hrsc₁ := h rsc₁ (List.mem_of_getElem? h₁)
    have hrsc₂ := h rsc₂ (List.mem_of_getElem? h₂)
    split
    · refine (staysOn_fal (.getRscId rsc₁) hrsc₁).bind fun _ =>
        (staysOn_fal (.getRscId rsc₂) hrsc₂).bind fun _ => ?_
      exact (staysOn_xaie _).bind fun _ => (staysOn_xaie _).bind fun _ => staysOn_pure _
    · exact staysOn_pure _
  · refine staysOn_ofOption_bind fun rsc hrsc => ?_
    split
    · exact (staysOn_fal (.getRscId rsc) (h rsc (List.mem_of_getElem? hrsc))).bind fun _ =>
        (staysOn_xaie _).bind fun _ => staysOn_pure _
    · exact staysOn_pure _

theorem staysOn_stopResources (h : ∀ rsc ∈ resources, rsc.dev = x) (startTimeDifference : Bool)
    (driverStatus : BitVec 32) : StaysOn s x (stopResources startTimeDifference resources driverStatus) := by
  induction resources generalizing driverStatus with
  | nil => exact staysOn_pure _
  | cons rsc rest ih =>
    obtain ⟨hrsc, hrest⟩ := List.forall_mem_cons.mp h
    unfold stopResources
    split
    · have hreset : StaysOn s x (resetBroadcast startTimeDifference rsc driverStatus) := by
        refine (staysOn_fal (.getBc rsc) hrsc).bind fun _ => (staysOn_fal (.getChannel rsc) hrsc).bind fun _ => ?_
        split
        · exact staysOn_ofOption_bind fun _ _ => staysOn_ofOption_bind fun _ _ => staysOn_accumulateStatus _ _
        · exact staysOn_pure _
      exact hreset.bind fun _ => (staysOn_release hrsc).bind fun _ => ih hrest _
    · refine (staysOn_fal (.getRscId rsc) hrsc).bind fun _ => ?_
      split
      · exact (staysOn_accumulateStatus _ _).bind fun _ => (staysOn_release hrsc).bind fun _ => ih hrest _
      · exact staysOn_pure _

theorem staysOn_recordOf {h : BitVec 32}
    (hrecords : ∀ record ∈ s.eventRecords, ∀ rsc ∈ record.acquiredResources, rsc.dev = x)
    {next : EventRecord → ProfilingProgram A} {default : ProfilingProgram A} (hdefault : StaysOn s x default)
    (hnext : ∀ record, (∀ rsc ∈ record.acquiredResources, rsc.dev = x) → StaysOn s x (next record)) :
    StaysOn s x (do
      let st ← getState
      match recordOf st.eventRecords h with
      | some record => next record
      | none => default) := by
  intro asked w hw
  rw [getState_bind, hw.eventRecords]
  cases hrecord : recordOf s.eventRecords h with
  | none => exact hdefault asked w hw
  | some record => exact hnext record (hrecords record (List.mem_of_getElem? hrecord)) asked w hw

theorem staysOn_readProfiling (h : BitVec 32)
    (hrecords : ∀ record ∈ s.eventRecords, ∀ rsc ∈ record.acquiredResources, rsc.dev = x) :
    StaysOn s x (readProfiling h) :=
  staysOn_recordOf hrecords (staysOn_pure _) fun _ hrsc => staysOn_read hrsc _

theorem staysOn_stopProfiling (h : BitVec 32)
    (hrecords : ∀ record ∈ s.eventRecords, ∀ rsc ∈ record.acquiredResources, rsc.dev = x) :
    StaysOn s x (stopProfiling h) :=
  staysOn_recordOf hrecords (staysOn_pure _) fun _ hrsc => (staysOn_stopResources hrsc _ _).bind
    fun _ => staysOn_pure _

end Records

section Starts

variable {s : ProfilingState} {asked : Bool} {w : ProfilingWorld}

/-- The calls of the FAL are on its static device and come first. -/
def Begun (s : ProfilingState) (asked : Bool) (w : ProfilingWorld) : Prop :=
  CallsOn s s.xaieDev asked w ∧ (w.trace = [] ∨ Asked w)

/-- What a start hands over is of the static device of the FAL. -/
def Handed (s : ProfilingState) (result : ProfileResult) (w : ProfilingWorld) : Prop :=
  Begun s false w ∧ ∀ rsc ∈ result.2, rsc.dev = s.xaieDev ∧ Asked w

theorem Begun.weaken (h : Begun s asked w) : Begun s false w := ⟨{ h.1 with fal := nofun }, h.2⟩

theorem Begun.handed_nil (h : Begun s asked w) (code : ErrCode) : Handed s (code, []) w := ⟨h.weaken, nofun⟩

theorem StaysOn.begun {p : ProfilingProgram A} (h : StaysOn s s.xaieDev p) :
    Leaves (Begun s true) p (fun _ => Begun s true) (Begun s false) := by
  refine (h true).consequence (fun _ hw => hw.1) ?_ ?_
  · exact fun _ w' hw' => ⟨hw', .inr (hw'.fal rfl)⟩
  · exact fun w' hw' => Begun.weaken ⟨hw', .inr (hw'.fal rfl)⟩

theorem leaves_newResource (kind : ResourceKind) (locs : List TileLoc) :
    Leaves (Begun s asked) (newResource kind locs)
      (fun rsc w => Begun s false w ∧ rsc.dev = s.xaieDev) (Begun s false) := by
  intro w hw
  exact ⟨Begun.weaken ⟨⟨hw.1.devInst, hw.1.xaieDev, hw.1.eventRecords, hw.1.calls, hw.1.fal⟩, hw.2⟩, hw.1.xaieDev⟩

theorem leaves_request (h : rsc.dev = s.xaieDev) :
    Leaves (Begun s false) (request rsc) (fun _ => Begun s true) (Begun s false) := by
  have hfal : Leaves (Begun s false) (fal (.reserve rsc)) (fun _ => Begun s true) (Begun s false) := by
    refine (triple_ask _ (fun _ hw => hw) ?_).leaves
    intro w a rest hw _
    have hasked : Asked { w with trace := w.trace ++ [.fal (.reserve rsc) a], script := rest } :=
      ⟨.fal (.reserve rsc) a, by simp, rfl⟩
    exact ⟨{ hw.1.snoc (e := .fal (.reserve rsc) a) h rest with fal := fun _ => hasked }, .inr hasked⟩
  have hreserve : Leaves (Begun s false) (reserve rsc) (fun _ => Begun s true) (Begun s false) := by
    refine hfal.bind fun answer => ?_
    split
    · exact ((staysOn_setReserved (insert rsc)).bind fun _ => staysOn_pure _).begun
    · exact (staysOn_pure _).begun
  refine hreserve.bind fun rc => ?_
  split
  · split
    · exact ((staysOn_fal (.getBc rsc) h).bind fun _ => staysOn_pure _).begun
    · exact ((staysOn_fal (.getRscId rsc) h).bind fun _ => staysOn_pure _).begun
  · exact (staysOn_pure _).begun

/-- The rest of a start makes its calls on the right devices. -/
def HandsOver (s : ProfilingState) (held : List Resource) (p : ProfilingProgram ProfileResult) : Prop :=
  (∀ rsc ∈ held, rsc.dev = s.xaieDev) → Leaves (Begun s !held.isEmpty) p (Handed s) (Begun s false)

/-- The next request of a start, whatever it holds. -/
theorem leaves_newResource_request {kind : ResourceKind} {locs : List TileLoc}
    {next : Resource → BitVec 32 → ProfilingProgram ProfileResult}
    (hnext : ∀ rsc id, rsc.dev = s.xaieDev → Leaves (Begun s true) (next rsc id) (Handed s) (Begun s false)) :
    Leaves (Begun s asked) (newResource kind locs >>= fun rsc => request rsc >>= next rsc)
      (Handed s) (Begun s false) := by
  refine (leaves_newResource kind locs).bind fun rsc => ?_
  rintro w ⟨hw, hdev⟩
  exact ((leaves_request hdev).bind fun id => hnext rsc id hdev) w hw

theorem HandsOver.requested {held : List Resource} {kind : ResourceKind} {locs : List TileLoc}
    {next : Resource → BitVec 32 → ProfilingProgram ProfileResult}
    (hnext : ∀ rsc id, HandsOver s (held ++ [rsc]) (next rsc id)) :
    HandsOver s held (requested kind locs next) := by
  refine fun hheld => leaves_newResource_request fun rsc id hdev => ?_
  split
  · exact fun _ hw => hw.handed_nil _
  · have hrest := hnext rsc id (by simpa [or_imp, forall_and, hdev] using hheld)
    rwa [List.isEmpty_eq_false_iff.mpr (List.append_ne_nil_of_right_ne_nil held (List.cons_ne_nil rsc []))] at hrest

theorem HandsOver.configured {held acquired : List Resource} (calls : List ProfileCall) (hheld : held ≠ [])
    (hperm : acquired.Perm held) : HandsOver s held (configured calls acquired) := by
  intro hdev
  rw [List.isEmpty_eq_false_iff.mpr hheld]
  refine (staysOn_accumulateStatus xaieOk calls).begun.bind fun status => ?_
  exact fun w hw => ⟨hw.weaken, fun rsc hrsc => ⟨hdev rsc (hperm.mem_iff.mp hrsc), hw.1.fal rfl⟩⟩

theorem HandsOver.broadcast {p₁ c₁ p₂ c₂ : Resource} (locs : List TileLoc) (calls : BitVec 32 → List ProfileCall) :
    HandsOver s [p₁, c₁, p₂, c₂] (broadcastOrRelease p₁ c₁ p₂ c₂ locs calls) := by
  refine fun hheld => leaves_newResource_request fun rsc id hdev => ?_
  split
  · simp only [List.mem_cons, List.not_mem_nil, or_false, forall_eq_or_imp, forall_eq] at hheld
    obtain ⟨hp₁, hc₁, hp₂, hc₂⟩ := hheld
    refine (staysOn_release hc₁).begun.bind fun _ => (staysOn_release hp₁).begun.bind fun _ => ?_
    refine (staysOn_release hc₂).begun.bind fun _ => (staysOn_release hp₂).begun.bind fun _ => ?_
    exact fun _ hw => hw.handed_nil _
  · have hheld' : [p₁, c₁, p₂, c₂] ++ [rsc] ≠ [] := List.cons_ne_nil _ _
    refine HandsOver.configured _ hheld' (perm_counters_ports p₁ c₁ p₂ c₂ [rsc]) ?_
    simpa [or_imp, forall_and, hdev] using hheld

theorem startRules_handsOver : StartRules (HandsOver s) where
  invalid := fun _ _ hw => hw.handed_nil _
  requested := fun _ => HandsOver.requested
  configured := HandsOver.configured
  broadcast := HandsOver.broadcast

/-- A record that a start added is of the static device of the FAL. -/
structure Recorded (s : ProfilingState) (w : ProfilingWorld) : Prop where
  calls : ∀ e ∈ w.trace, OnDevice s s.xaieDev e
  asked : w.trace = [] ∨ Asked w
  records : ∀ record ∈ w.state.eventRecords, record ∈ s.eventRecords ∨
    ∀ rsc ∈ record.acquiredResources, rsc.dev = s.xaieDev ∧ Asked w

theorem Begun.recorded (h : Begun s asked w) : Recorded s w where
  calls := h.1.calls
  asked := h.2
  records := by
    rw [h.1.eventRecords]
    exact fun record hrecord => Or.inl hrecord

theorem leaves_recorded {option : BitVec 32} {profile : ProfilingProgram ProfileResult}
    (hprofile : HandsOver s [] profile) :
    Leaves (Begun s false) (recorded option profile) (fun _ => Recorded s) (Recorded s) := by
  have h := hprofile nofun
  refine (h.consequence (fun _ hw => hw) (fun _ _ hw => hw) fun _ hw => hw.recorded).bind fun result => ?_
  split
  · rintro w ⟨hbegun, hhanded⟩
    have hbefore := hbegun.recorded
    refine ⟨hbefore.calls, hbefore.asked, ?_⟩
    intro record hrecord
    rcases List.mem_append.mp hrecord with hold | hnew
    · exact hbefore.records record hold
    · rw [List.mem_singleton.mp hnew]
      exact Or.inr hhanded
  · exact fun w hw => hw.1.recorded

theorem leaves_startProfilingTwo (cfg : ConfigureParser) (portName1 portName2 : String) (option value : BitVec 32) :
    Leaves (Begun s false) (startProfilingTwo cfg portName1 portName2 option value)
      (fun _ => Recorded s) (Recorded s) := by
  cases hvalid : validOption option with
  | true =>
    obtain ⟨profile, hprofile, heq⟩ := startRules_handsOver.startProfilingTwo cfg portName1 portName2 value hvalid
    rw [heq]
    exact leaves_recorded hprofile
  | false =>
    rw [startProfilingTwo_of_invalid cfg portName1 portName2 value hvalid]
    exact fun _ hw => hw.recorded

theorem leaves_startProfiling (cfg : ConfigureParser) (portName : String) (option value : BitVec 32) :
    Leaves (Begun s false) (startProfiling cfg portName option value) (fun _ => Recorded s) (Recorded s) := by
  unfold startProfiling
  split
  · exact fun _ hw => hw.recorded
  · exact leaves_startProfilingTwo cfg portName "" option value

end Starts

section Calls

variable {s : ProfilingState}

def ProfilingOp.isStart : ProfilingOp → Bool
  | .start _ _ _ | .startTwo _ _ _ _ => true
  | .read _ | .stop _ => false

theorem leaves_start (cfg : ConfigureParser) {op : ProfilingOp} (h : op.isStart = true) :
    Leaves (fun w : ProfilingWorld => w.state = s ∧ w.trace = []) (profilingMethod cfg op)
      (fun _ => Recorded s) (Recorded s) := by
  have hbegin : ∀ w : ProfilingWorld, w.state = s ∧ w.trace = [] → Begun s false w := by
    rintro w ⟨rfl, htrace⟩
    exact ⟨⟨rfl, rfl, rfl, by simp [htrace], nofun⟩, Or.inl htrace⟩
  cases op with
  | start portName option value =>
    change Leaves _ (some <$> startProfiling cfg portName option value) _ _
    rw [map_eq_pure_bind]
    exact ((leaves_startProfiling cfg portName option value).consequence hbegin
      (fun _ _ hw => hw) fun _ hw => hw).bind
      fun _ _ hw => hw
  | startTwo portName1 portName2 option value =>
    change Leaves _ (some <$> startProfilingTwo cfg portName1 portName2 option value) _ _
    rw [map_eq_pure_bind]
    exact ((leaves_startProfilingTwo cfg portName1 portName2 option value).consequence hbegin (fun _ _ hw => hw)
      fun _ hw => hw).bind fun _ _ hw => hw
  | read _ => exact nomatch h
  | stop _ => exact nomatch h

theorem leaves_read_stop (cfg : ConfigureParser) {op : ProfilingOp} (h : op.isStart = false) {x : DevInst}
    (hrecords : ∀ record ∈ s.eventRecords, ∀ rsc ∈ record.acquiredResources, rsc.dev = x) :
    Leaves (fun w : ProfilingWorld => w.state = s ∧ w.trace = []) (profilingMethod cfg op)
      (fun _ => CallsOn s x false) (CallsOn s x false) := by
  have hbegin : ∀ w : ProfilingWorld, w.state = s ∧ w.trace = [] → CallsOn s x false w := by
    rintro w ⟨rfl, htrace⟩
    exact ⟨rfl, rfl, rfl, by simp [htrace], nofun⟩
  have hstays : StaysOn s x (profilingMethod cfg op) := by
    cases op with
    | start _ _ _ => exact nomatch h
    | startTwo _ _ _ _ => exact nomatch h
    | read handle => exact (staysOn_readProfiling handle hrecords).bind fun _ => staysOn_pure _
    | stop handle => exact (staysOn_stopProfiling handle hrecords).bind fun _ => staysOn_pure _
  exact (hstays false).consequence hbegin (fun _ _ hw => hw) fun _ hw => hw

end Calls

end AieBaremetal.Profiling
