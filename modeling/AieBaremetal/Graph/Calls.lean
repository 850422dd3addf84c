import AieBaremetal.Graph.Api
import Mathlib.Data.List.Induction

/-!
# What a control call does

Each control method is summarised by the data words it writes, whether it switched cores on or off
last, and what becomes of the flag `isRunning`; a call that waits for the driver by the words it has
written so far. Results about sequences of calls use these summaries only.
-/

namespace AieBaremetal.Graph

open Common Common.Program AieBaremetal.Runtime

variable {Op : Type}

/-- One word written to a tile's data memory. -/
structure WordWrite where
  loc : TileLoc
  addr : BitVec 32
  data : BitVec 32
  deriving DecidableEq, Repr

def callWrites : DriverCall → List WordWrite
  | .dataMemWrWord loc addr data => [{ loc, addr, data }]
  | _ => []

/-- Whether a driver call switches cores on or off. -/
def callSwitch : DriverCall → Option Bool
  | .coreEnable _ | .eventGenerate _ _ _ => some true
  | .coreDisable _ => some false
  | _ => none

def wordWrites (τ : List (Event Op)) : List WordWrite :=
  τ.flatMap fun
    | .driver call _ => callWrites call
    | _ => []

def lastSwitch (τ : List (Event Op)) : Option Bool :=
  τ.foldl (fun before e =>
    match e with
    | .driver call _ => (callSwitch call).or before
    | _ => before) none

/-- A driver call that switches cores, as a list. -/
def switchOf (call : DriverCall) : List DriverCall := if callSwitch call = none then [] else [call]

/-- The calls of a trace that switch cores, in order. -/
def switches (τ : List (Event Op)) : List DriverCall :=
  τ.flatMap fun
    | .driver call _ => switchOf call
    | _ => []

/-- The calls that start the cores: the broadcast event, or an enable for each. -/
def enables (cfg : GraphConfig) (mgr : ConfigManager) (cores : List Core) : List DriverCall :=
  if mgr.broadcastEnableCore then
    [.eventGenerate (xaieTileLoc (cfg.broadcastColumn.setWidth 8) 0#8) .plMod .broadcastA8Pl]
  else cores.map fun core => .coreEnable core.coreTile

/-- The calls that disable the cores a wait has waited for. -/
def disables (cores : List Core) : List DriverCall :=
  (cores.filter fun core => core.triggered = 0#8).map fun core => .coreDisable core.coreTile

/-- The driver call succeeded; waiting for a core may time out and be repeated. -/
def Succeeds : Event Op → Prop
  | .driver (.coreWaitForDone _) _ => True
  | .driver _ answer => answer.rc = xaieOk
  | _ => True

instance (e : Event Op) : Decidable (Succeeds e) :=
  match e with
  | .enter _ | .leave _ => .isTrue trivial
  | .driver call answer => by
    cases call <;> first | exact .isTrue trivial | exact inferInstanceAs (Decidable (answer.rc = xaieOk))

def NotDone (core : Core) : Event Op → Prop
  | .driver (.coreReadDoneBit loc) answer => loc = core.coreTile → (answer.value.setWidth 8 : BitVec 8) = 0#8
  | _ => True

instance (core : Core) (e : Event Op) : Decidable (NotDone core e) :=
  match e with
  | .enter _ | .leave _ => .isTrue trivial
  | .driver call answer => by
    cases call with
    | coreReadDoneBit loc => exact inferInstanceAs (Decidable (loc = core.coreTile → answer.value.setWidth 8 = 0#8))
    | _ => exact .isTrue trivial

/-- Everything between two calls of the API is a driver call. -/
def IsDriver : Event Op → Prop
  | .driver _ _ => True
  | _ => False

/-- The same object up to the time of its last start. -/
def SameGraph (s s' : GraphState) : Prop := ∃ startTime, s' = { s with startTime }

/-- What a part of a method did since `τ₀`, without touching the object. -/
def Doing (s₀ : GraphState) (τ₀ : List (Event Op)) (facts : List (Event Op) → Prop) (w : GraphWorld Op) : Prop :=
  SameGraph s₀ w.state ∧ ∃ evs, w.trace = τ₀ ++ evs ∧ (∀ e ∈ evs, IsDriver e) ∧ facts evs

/-- What a method that waits for the driver did since `τ₀`. -/
def Underway (τ₀ : List (Event Op)) (mayWrite : Prop) (w : GraphWorld Op) : Prop :=
  ∃ evs, w.trace = τ₀ ++ evs ∧ (∀ e ∈ evs, IsDriver e) ∧ (mayWrite ∨ wordWrites evs = [])

/-- Words, switches, and what success of all driver calls implies. -/
def Facts (writes : List WordWrite) (done : List DriverCall) (good : Prop) (evs : List (Event Op)) : Prop :=
  wordWrites evs = writes ∧ switches evs = done ∧ ((∀ e ∈ evs, Succeeds e) → good)

def endSignal (core : Core) : WordWrite where
  loc := core.iterMemTile
  addr := (core.iterMemAddr - 4#64).setWidth 32
  data := 1#32

def endSignals (cores : List Core) : List WordWrite :=
  (cores.filter fun core => core.triggered = 0#8).map endSignal

/-- The iteration counts `run(testIter)` writes. -/
def iterCounts (cores : List Core) (testIter : BitVec 32) : List WordWrite :=
  cores.map fun core => { loc := core.iterMemTile, addr := core.iterMemAddr.setWidth 32, data := testIter }

/-- What a control call amounts to when every driver call succeeds. -/
structure Effect where
  code : ErrCode
  isRunning : Bool
  writes : List WordWrite
  switch : Option Bool

def ControlOp.effect (s : GraphState) : ControlOp → Effect
  | .run => { code := .ok, isRunning := true, writes := [], switch := some true }
  | .runIter testIter =>
    { code := .ok, isRunning := true, writes := iterCounts s.cores testIter, switch := some true }
  | .wait => { code := .ok, isRunning := false, writes := [], switch := some false }
  | .waitTimeout cycleTimeout =>
    if 0xFFFFFFFFFFFF#64 < cycleTimeout then
      { code := .userError, isRunning := s.isRunning, writes := [], switch := none }
    else { code := .ok, isRunning := false, writes := [], switch := some false }
  | .resume => { code := .ok, isRunning := s.isRunning, writes := [], switch := some true }
  | .endGraph =>
    { code := .ok
      isRunning := false
      writes := if s.isRunning then endSignals s.cores else []
      switch := some false }

/-- A finished call shows an effect: it returns the effect's code if every driver call succeeds or the effect is a
refusal, and whenever it returns that code object and events agree with the effect. The switch is known for a
graph with a core that is neither started by a trigger nor reported done. -/
structure Effect.Shown (effect : Effect) (s₀ : GraphState) (evs : List (Event Op)) (code : ErrCode)
    (s : GraphState) : Prop where
  kept : ∃ isRunning, SameGraph { s₀ with isRunning } s
  driver : ∀ e ∈ evs, IsDriver e
  succeeds : (∀ e ∈ evs, Succeeds e) → code = effect.code
  refuses : effect.code ≠ .ok → code = effect.code
  state : code = effect.code → SameGraph { s₀ with isRunning := effect.isRunning } s
  writes : code = effect.code → wordWrites evs = effect.writes
  switch : code = effect.code → ∀ core ∈ s₀.cores, core.triggered = 0#8 → (∀ e ∈ evs, NotDone core e) →
    lastSwitch evs = effect.switch

/-- A method that shows an effect after the trace `τ₀`. -/
def Shows (effect : Effect) (s₀ : GraphState) (τ₀ : List (Event Op)) (code : ErrCode) (w : GraphWorld Op) : Prop :=
  ∃ evs, w.trace = τ₀ ++ evs ∧ effect.Shown s₀ evs code w.state

/-- What a part of a method did whose status word is good as long as the driver is. -/
abbrev SoFar (s₀ : GraphState) (τ₀ : List (Event Op)) (writes : List WordWrite) (done : List DriverCall)
    (status : BitVec 32) : GraphWorld Op → Prop :=
  Doing s₀ τ₀ (Facts writes done (status = xaieOk))

/-- A part of a method takes words and switches to those done after it. -/
abbrev Adds (s₀ : GraphState) (τ₀ : List (Event Op)) (mayWrite : Prop) (writes : List WordWrite)
    (done : List DriverCall) (p : GraphProgram Op (BitVec 32)) (status : BitVec 32) (writes' : List WordWrite)
    (done' : List DriverCall) : Prop :=
  Triple (SoFar s₀ τ₀ writes done status) p (SoFar s₀ τ₀ writes' done') (Underway τ₀ mayWrite)

/-- A part of a method changes nothing of what is known. -/
abbrev Stays {A : Type} (s₀ : GraphState) (τ₀ : List (Event Op)) (mayWrite : Prop) (facts : List (Event Op) → Prop)
    (p : GraphProgram Op A) : Prop :=
  Triple (Doing s₀ τ₀ facts) p (fun _ => Doing s₀ τ₀ facts) (Underway τ₀ mayWrite)

/-- The end of a method that sets `isRunning` if it returns ok. -/
abbrev Settled (s₀ : GraphState) (τ₀ : List (Event Op)) (writes : List WordWrite) (done : List DriverCall)
    (isRunning : Bool) (code : ErrCode) : GraphWorld Op → Prop :=
  Doing { s₀ with isRunning := if code = .ok then isRunning else s₀.isRunning } τ₀ (Facts writes done (code = .ok))

variable {evs : List (Event Op)} {facts : List (Event Op) → Prop} {good : Prop} {seen : List Core}
  {status : BitVec 32} {w : GraphWorld Op}

section Parts

variable {s₀ : GraphState} {τ₀ : List (Event Op)} {mayWrite : Prop} {writes : List WordWrite}
  {done : List DriverCall}

theorem lastSwitch_eq (τ : List (Event Op)) : lastSwitch τ = (switches τ).getLast?.bind callSwitch := by
  induction τ using List.reverseRecOn with
  | nil => rfl
  | append_singleton τ e ih =>
    rw [lastSwitch, List.foldl_append, ← lastSwitch, ih]
    cases e with
    | driver call answer => cases hcall : callSwitch call <;> simp [switches, switchOf, hcall]
    | _ => simp [switches]

theorem Facts.concat {good' : Prop} (h : Facts writes done good evs)
    (call : DriverCall) (answer : DriverAnswer) (hgood : good → Succeeds (.driver call answer : Event Op) → good') :
    Facts (writes ++ callWrites call) (done ++ switchOf call) good' (evs ++ [.driver call answer]) := by
  obtain ⟨hwrites, hswitches, hsucceeds⟩ := h
  refine ⟨by simp [wordWrites, ← hwrites], by simp [switches, ← hswitches], fun hall => ?_⟩
  exact hgood (hsucceeds fun e he => hall e (List.mem_append_left _ he)) (hall _ (by simp))

theorem Facts.join (h : Facts writes done (status = xaieOk) evs) (call : DriverCall) (answer : DriverAnswer)
    (hcall : Succeeds (.driver call answer : Event Op) → answer.rc = xaieOk) :
    Facts (writes ++ callWrites call) (done ++ switchOf call) (status ||| answer.rc = xaieOk)
      (evs ++ [.driver call answer]) := by
  apply h.concat
  intro hstatus hsucceeds
  rw [hstatus, hcall hsucceeds]
  rfl

theorem Doing.concat {facts' : List (Event Op) → Prop}
    (h : Doing s₀ τ₀ facts w) (call : DriverCall) (answer : DriverAnswer) (rest : List DriverAnswer)
    (hstep : ∀ evs, facts evs → facts' (evs ++ [.driver call answer])) :
    Doing s₀ τ₀ facts' { w with trace := w.trace ++ [.driver call answer], script := rest } := by
  obtain ⟨hsame, evs, htrace, hdriver, hfacts⟩ := h
  refine ⟨hsame, evs ++ [.driver call answer], by simp [htrace], ?_, hstep evs hfacts⟩
  simpa [or_imp, forall_and, IsDriver] using hdriver

theorem Doing.underway (h : Doing s₀ τ₀ facts w) (hmid : ∀ evs, facts evs → mayWrite ∨ wordWrites evs = []) :
    Underway τ₀ mayWrite w := by
  obtain ⟨-, evs, htrace, hdriver, hfacts⟩ := h
  exact ⟨evs, htrace, hdriver, hmid evs hfacts⟩

theorem triple_doing {facts' : DriverAnswer → List (Event Op) → Prop}
    (call : DriverCall) (hmid : ∀ evs, facts evs → mayWrite ∨ wordWrites evs = [])
    (hstep : ∀ evs answer, facts evs → facts' answer (evs ++ [.driver call answer])) :
    Triple (Doing s₀ τ₀ facts) (xaie call) (fun answer => Doing s₀ τ₀ (facts' answer))
      (Underway τ₀ mayWrite) :=
  triple_xaie call (fun _ h => h.underway hmid) fun _ answer rest h =>
    h.concat call answer rest fun evs hfacts => hstep evs answer hfacts

section Calls

variable (hmid : mayWrite ∨ writes = [])

include hmid

theorem triple_voidCall (call : DriverCall) :
    Triple (Doing s₀ τ₀ (Facts writes done good)) (xaie call)
      (fun _ => Doing s₀ τ₀ (Facts (writes ++ callWrites call) (done ++ switchOf call) good))
      (Underway τ₀ mayWrite) :=
  triple_doing call (fun _ h => hmid.imp_right h.1.trans) fun _ answer h =>
    h.concat call answer fun hgood _ => hgood

theorem triple_quietCall (call : DriverCall) (hwrites : callWrites call = []) (hswitch : switchOf call = []) :
    Stays s₀ τ₀ mayWrite (Facts writes done good) (xaie call) := by
  have hcall : Triple (Doing s₀ τ₀ (Facts writes done good)) (xaie call) _ (Underway τ₀ mayWrite) :=
    triple_voidCall hmid call
  simpa [hwrites, hswitch] using hcall

theorem triple_joinCall (call : DriverCall)
    (hcall : ∀ answer, Succeeds (.driver call answer : Event Op) → answer.rc = xaieOk) :
    Triple (SoFar s₀ τ₀ writes done status) (xaie call)
      (fun answer => SoFar s₀ τ₀ (writes ++ callWrites call) (done ++ switchOf call) (status ||| answer.rc))
      (Underway τ₀ mayWrite) :=
  triple_doing call (fun _ h => hmid.imp_right h.1.trans) fun _ answer h => h.join call answer (hcall answer)

theorem triple_statusCall (call : DriverCall)
    (hcall : ∀ answer, Succeeds (.driver call answer : Event Op) → answer.rc = xaieOk) :
    Adds s₀ τ₀ mayWrite writes done (xaieStatus status call) status (writes ++ callWrites call)
      (done ++ switchOf call) :=
  (triple_joinCall hmid call hcall).bind fun _ _ h => h

theorem triple_readTimer (loc : TileLoc) (mod : ModuleType) :
    Triple (SoFar s₀ τ₀ writes done status) (xaie (.readTimer loc mod))
      (fun answer => SoFar s₀ τ₀ writes done (status ||| answer.rc)) (Underway τ₀ mayWrite) := by
  have hcall : Triple (SoFar s₀ τ₀ writes done status) (xaie (.readTimer loc mod)) _ (Underway τ₀ mayWrite) :=
    triple_joinCall hmid _ fun _ h => h
  simpa [callWrites, callSwitch, switchOf] using hcall

/-- Waiting for a core ends with the core switched off. -/
theorem triple_awaitCore (core : Core) :
    Adds s₀ τ₀ mayWrite writes done (awaitCore core status) status writes
      (done ++ [.coreDisable core.coreTile]) := by
  have hquiet (w : GraphWorld Op) (answer : DriverAnswer) (rest : List DriverAnswer)
      (h : SoFar s₀ τ₀ writes done status w) :
      SoFar s₀ τ₀ writes done status
        { w with trace := w.trace ++ [.driver (.coreWaitForDone core.coreTile) answer], script := rest } := by
    refine h.concat _ answer rest fun evs hfacts => ?_
    simpa [callWrites, callSwitch, switchOf] using
      hfacts.concat (.coreWaitForDone core.coreTile) answer fun hgood _ => hgood
  have hpoll := triple_askUntil (Event.driver (.coreWaitForDone core.coreTile))
    (fun answer => answer.rc ≠ xaieCoreStatusTimeout)
    (SoFar s₀ τ₀ writes done status) fun w answer rest h _ _ => hquiet w answer rest h
  have hawait : Stays s₀ τ₀ mayWrite (Facts writes done (status = xaieOk))
      (askUntil (Event.driver (.coreWaitForDone core.coreTile)) fun answer => answer.rc ≠
        xaieCoreStatusTimeout) := by
    refine hpoll.consequence (fun _ h => h) ?_ fun _ h => h.underway fun _ hfacts => hmid.imp_right hfacts.1.trans
    rintro _ w ⟨w₀, answer, h, -, -, hw⟩
    rw [hw]
    exact hquiet w₀ answer _ h
  have hdisable : Adds s₀ τ₀ mayWrite writes done (xaieStatus status (.coreDisable core.coreTile)) status
      (writes ++ []) (done ++ [.coreDisable core.coreTile]) := triple_statusCall hmid _ fun _ h => h
  rw [List.append_nil] at hdisable
  exact hawait.bind fun _ => hdisable

theorem triple_awaitCores (cores : List Core) :
    Adds s₀ τ₀ mayWrite writes done (awaitCores cores status) status writes (done ++ disables cores) := by
  induction cores generalizing done status with
  | nil =>
    rw [disables, List.filter_nil, List.map_nil, List.append_nil]
    exact fun _ h => h
  | cons core rest ih =>
    rw [awaitCores]
    by_cases htriggered : core.triggered = 0#8
    · have hdisables : disables (core :: rest) = .coreDisable core.coreTile :: disables rest := by
        simp [disables, htriggered]
      rw [if_pos htriggered, hdisables, List.append_cons]
      exact (triple_awaitCore hmid core).bind fun status => ih
    · have hdisables : disables (core :: rest) = disables rest := by simp [disables, htriggered]
      rw [if_neg htriggered, hdisables]
      exact ih

theorem triple_recordStartTime (cores : List Core) :
    Adds s₀ τ₀ mayWrite writes done (recordStartTime cores status) status writes done := by
  cases cores with
  | nil => exact fun _ h => h
  | cons core rest =>
    have hstore (answer : DriverAnswer) : Stays s₀ τ₀ mayWrite (Facts writes done (status ||| answer.rc = xaieOk))
        (modifyState fun s => { s with startTime := answer.value }) := by
      refine triple_modifyState _ ?_
      rintro w ⟨⟨startTime, hstate⟩, hdone⟩
      exact ⟨⟨answer.value, by simp [hstate]⟩, hdone⟩
    exact (triple_readTimer hmid _ _).bind fun answer => (hstore answer).bind fun _ _ h => h

theorem triple_armCores (cores : List Core) : Stays s₀ τ₀ mayWrite (Facts writes done good) (armCores cores) := by
  induction cores with
  | nil => exact fun _ h => h
  | cons core rest ih =>
    exact (triple_quietCall hmid _ rfl rfl).bind fun _ => (triple_quietCall hmid _ rfl rfl).bind fun _ => ih

theorem triple_disarmCores (cores : List Core) :
    Stays s₀ τ₀ mayWrite (Facts writes done good) (disarmCores cores) := by
  induction cores with
  | nil => exact fun _ h => h
  | cons core rest ih => exact (triple_quietCall hmid _ rfl rfl).bind fun _ => ih

/-- Generating the broadcast event switches the cores on. -/
theorem triple_broadcastEnable (cfg : GraphConfig) (cores : List Core) :
    Adds s₀ τ₀ mayWrite writes done (broadcastEnable cfg cores status) status writes
      (done ++ [.eventGenerate (xaieTileLoc (cfg.broadcastColumn.setWidth 8) 0#8) .plMod .broadcastA8Pl]) := by
  have hgenerate (shim : TileLoc) : Triple (SoFar s₀ τ₀ writes done status)
      (xaie (.eventGenerate shim .plMod .broadcastA8Pl))
      (fun _ => SoFar s₀ τ₀ (writes ++ []) (done ++ [.eventGenerate shim .plMod .broadcastA8Pl]) status)
      (Underway τ₀ mayWrite) := triple_voidCall hmid _
  have hwindow (done : List DriverCall) (shim : TileLoc) (start : BitVec 64) (status : BitVec 32) : Triple
      (SoFar s₀ τ₀ writes done status)
      (whileAsk (fun l _ => withinEnableWindow start l.2) (Event.driver (.readTimer shim .plMod))
        (fun l answer s => some ((l.1 ||| answer.rc, some answer.value), s)) (status, none))
      (fun l w => SoFar s₀ τ₀ writes done l.1 w ∧ withinEnableWindow start l.2 = false) (Underway τ₀ mayWrite) := by
    apply triple_whileAsk _ _ _ (status, none) fun l : BitVec 32 × Option (BitVec 64) => SoFar s₀ τ₀ writes done l.1
    · exact fun l w h => h.underway fun _ hfacts => hmid.imp_right hfacts.1.trans
    · intro l w answer rest h _ _
      refine ⟨_, w.state, rfl, h.concat _ answer rest fun evs hfacts => ?_⟩
      simpa [callWrites, callSwitch, switchOf] using hfacts.join (.readTimer shim .plMod) answer id
  simp only [List.append_nil] at hgenerate
  apply (triple_quietCall hmid .startTransaction rfl rfl).bind
  intro _
  apply (triple_armCores hmid cores).bind
  intro _
  apply (triple_quietCall hmid .submitTransaction rfl rfl).bind
  intro _
  apply (hgenerate _).bind
  intro _
  apply (triple_readTimer hmid _ _).bind
  intro start
  apply (hwindow _ _ _ _).bind
  rintro ⟨status, last⟩
  apply Triple.of_fact
  intro _
  apply (triple_quietCall hmid .startTransaction rfl rfl).bind
  intro _
  apply (triple_disarmCores hmid cores).bind
  intro _
  exact (triple_quietCall hmid .submitTransaction rfl rfl).bind fun _ _ h => h

end Calls

theorem triple_forCores (call : Core → DriverCall)
    (hcall : ∀ core answer, Succeeds (.driver (call core) answer : Event Op) → answer.rc = xaieOk)
    (hmid : mayWrite ∨ writes = [] ∧ ∀ core, callWrites (call core) = []) (cores : List Core) :
    Adds s₀ τ₀ mayWrite writes done (forCores call cores status) status
      (writes ++ cores.flatMap fun core => callWrites (call core))
      (done ++ cores.flatMap fun core => switchOf (call core)) := by
  induction cores generalizing writes done status with
  | nil =>
    rw [List.flatMap_nil, List.append_nil, List.flatMap_nil, List.append_nil]
    exact fun _ h => h
  | cons core rest ih =>
    refine Triple.bind (triple_statusCall (hmid.imp_right And.left) (call core) (hcall core)) fun status => ?_
    rw [List.flatMap_cons, List.flatMap_cons, ← List.append_assoc, ← List.append_assoc]
    refine ih (hmid.imp_right fun h => ⟨?_, h.2⟩)
    rw [h.1, h.2, List.append_nil]

theorem triple_switchCores (hmid : mayWrite ∨ writes = []) (call : Core → DriverCall)
    (hcall : ∀ core answer, Succeeds (.driver (call core) answer : Event Op) → answer.rc = xaieOk)
    (hwrites : ∀ core, callWrites (call core) = []) (hswitch : ∀ core, switchOf (call core) = [call core])
    (cores : List Core) :
    Adds s₀ τ₀ mayWrite writes done (forCores call cores status) status writes (done ++ cores.map call) := by
  have hcores : Adds s₀ τ₀ mayWrite writes done (forCores call cores status) status _ _ :=
    triple_forCores call hcall (hmid.imp_right fun h => ⟨h, hwrites⟩) cores
  have hnone : cores.flatMap (fun core => callWrites (call core)) = [] := by simp [hwrites]
  simpa [hnone, hswitch, List.map_eq_flatMap] using hcores

theorem triple_startCores (hmid : mayWrite ∨ writes = []) (cfg : GraphConfig) (mgr : ConfigManager)
    (cores : List Core) :
    Adds s₀ τ₀ mayWrite writes done (startCores cfg mgr cores status) status writes
      (done ++ enables cfg mgr cores) := by
  unfold startCores enables
  split
  · exact triple_broadcastEnable hmid cfg cores
  · apply (triple_quietCall hmid .startTransaction rfl rfl).bind
    intro _
    apply (triple_switchCores hmid (fun core => .coreEnable core.coreTile) (fun _ _ h => h) (fun _ => rfl)
      (fun _ => rfl) cores).bind
    intro status
    exact (triple_quietCall hmid .submitTransaction rfl rfl).bind fun _ _ h => h

theorem triple_settle (isRunning : Bool) (status : BitVec 32) :
    Triple (SoFar s₀ τ₀ writes done status)
      (if status ≠ xaieOk then pure .aieDriverError
        else do
          modifyState fun s => { s with isRunning := isRunning }
          pure .ok : GraphProgram Op ErrCode)
      (Settled s₀ τ₀ writes done isRunning) (Underway τ₀ mayWrite) := by
  split
  · rename_i hstatus
    rintro w ⟨hsame, evs, htrace, hdriver, hwrites, hswitches, hgood⟩
    exact ⟨hsame, evs, htrace, hdriver, hwrites, hswitches, fun h => absurd (hgood h) hstatus⟩
  · rintro w ⟨⟨startTime, hstate⟩, evs, htrace, hdriver, hwrites, hswitches, -⟩
    exact ⟨⟨startTime, by simp [hstate]⟩, evs, htrace, hdriver, hwrites, hswitches, fun _ => rfl⟩

theorem Doing.shows {effect : Effect} {code : ErrCode} {isRunning : Bool}
    (h : Doing { s₀ with isRunning } τ₀ (Facts writes done (code = effect.code)) w)
    (hrefuses : effect.code ≠ .ok → code = effect.code)
    (hrunning : code = effect.code → isRunning = effect.isRunning)
    (hwrites : code = effect.code → writes = effect.writes)
    (hswitch : ∀ core ∈ s₀.cores, core.triggered = 0#8 → done.getLast?.bind callSwitch = effect.switch) :
    Shows effect s₀ τ₀ code w := by
  obtain ⟨hsame, evs, htrace, hdriver, hfacts, hlast, hgood⟩ := h
  refine ⟨evs, htrace, ⟨_, hsame⟩, hdriver, hgood, hrefuses, fun hcode => ?_, fun hcode =>
    hfacts.trans (hwrites hcode), ?_⟩
  · rw [← hrunning hcode]
    exact hsame
  · intro _ core hcore htriggered _
    rw [lastSwitch_eq, hlast, hswitch core hcore htriggered]

theorem Doing.fails {effect : Effect} {isRunning : Bool} {code : ErrCode}
    (h : Doing { s₀ with isRunning } τ₀ (Facts writes done good) w)
    (hbad : ¬good) (hok : effect.code = .ok) (hcode : code ≠ .ok) : Shows effect s₀ τ₀ code w := by
  obtain ⟨hsame, evs, htrace, hdriver, -, -, hgood⟩ := h
  rw [← hok] at hcode
  exact ⟨evs, htrace, ⟨_, hsame⟩, hdriver, fun hall => absurd (hgood hall) hbad, fun h => absurd hok h,
    fun h => absurd h hcode, fun h => absurd h hcode, fun h => absurd h hcode⟩

theorem triple_object {A : Type} {next : GraphState → GraphProgram Op A} {post : A → GraphWorld Op → Prop}
    (h : ∀ startTime, Triple (Doing s₀ τ₀ facts) (next { s₀ with startTime }) post (Underway τ₀ mayWrite)) :
    Triple (Doing s₀ τ₀ facts) (getState >>= next) post (Underway τ₀ mayWrite) := by
  have hread : Triple (Doing s₀ τ₀ facts) (getState : GraphProgram Op GraphState)
      (fun s w => Doing s₀ τ₀ facts w ∧ SameGraph s₀ s) (Underway τ₀ mayWrite) :=
    triple_getState fun _ h => ⟨h, h.1⟩
  apply hread.bind
  intro s
  apply Triple.of_fact
  rintro ⟨startTime, rfl⟩
  exact h startTime

theorem triple_whenConfigured {cfg : GraphConfig} {body : GraphConfig → GraphState → GraphProgram Op ErrCode}
    {post : ErrCode → GraphWorld Op → Prop} (hconfigured : s₀.isConfigured = true)
    (h : ∀ startTime, Triple (Doing s₀ τ₀ facts) (body cfg { s₀ with startTime }) post (Underway τ₀ mayWrite)) :
    Triple (Doing s₀ τ₀ facts) (whenConfigured (some cfg) body) post (Underway τ₀ mayWrite) := by
  apply triple_object
  intro startTime
  rw [hconfigured]
  simpa only [hconfigured] using h startTime

end Parts

section Methods

variable {s₀ : GraphState} {τ₀ : List (Event Op)} {mayWrite : Prop} {writes : List WordWrite}

/-- A method has switched no core and has no driver error yet. -/
def Started (s₀ : GraphState) (τ₀ : List (Event Op)) (writes : List WordWrite) :
    GraphWorld Op → Prop :=
  Doing s₀ τ₀ (Facts writes [] (xaieOk = xaieOk))

theorem getLast_switch_of_forall {calls : List DriverCall} {on : Bool} (hne : calls ≠ [])
    (hon : ∀ call ∈ calls, callSwitch call = some on) : calls.getLast?.bind callSwitch = some on := by
  rw [List.getLast?_eq_some_getLast hne]
  exact hon _ (List.getLast_mem hne)

theorem getLast_enables (cfg : GraphConfig) (mgr : ConfigManager) {cores : List Core} (hne : cores ≠ []) :
    (enables cfg mgr cores).getLast?.bind callSwitch = some true := by
  unfold enables
  split
  · rfl
  · exact getLast_switch_of_forall (by simpa using hne) (by simp [callSwitch])

theorem getLast_disables {core : Core} {cores : List Core} (hcore : core ∈ cores)
    (htriggered : core.triggered = 0#8) :
    (disables cores).getLast?.bind callSwitch = some false := by
  have hmem : .coreDisable core.coreTile ∈ disables cores :=
    List.mem_map_of_mem (List.mem_filter.mpr ⟨hcore, by simpa using htriggered⟩)
  refine getLast_switch_of_forall (List.ne_nil_of_mem hmem) fun call hcall => ?_
  obtain ⟨_, -, rfl⟩ := List.mem_map.mp hcall
  rfl

section Configured

variable (hconfigured : s₀.isConfigured = true)

include hconfigured

theorem triple_run (hmid : mayWrite ∨ writes = []) (cfg : GraphConfig) (mgr : ConfigManager) :
    Triple (Started s₀ τ₀ writes) (run (some cfg) mgr) (Settled s₀ τ₀ writes (enables cfg mgr s₀.cores) true)
      (Underway τ₀ mayWrite) := by
  apply triple_whenConfigured hconfigured
  intro _
  apply (triple_recordStartTime hmid s₀.cores).bind
  intro status
  apply (triple_startCores hmid cfg mgr s₀.cores).bind
  exact triple_settle true

theorem triple_run_after_writes {effect : Effect} (hmid : mayWrite ∨ writes = []) (cfg : GraphConfig)
    (mgr : ConfigManager) (heffect : effect = { code := .ok, isRunning := true, writes, switch := some true }) :
    Triple (Started s₀ τ₀ writes) (run (some cfg) mgr) (Shows effect s₀ τ₀) (Underway τ₀ mayWrite) := by
  subst heffect
  refine (triple_run hconfigured hmid cfg mgr).consequence (fun _ h => h) ?_ fun _ h => h
  intro code w h
  apply h.shows
  · exact fun hrefused => absurd rfl hrefused
  · exact fun hcode => if_pos hcode
  · exact fun _ => rfl
  · exact fun core hcore _ => getLast_enables cfg mgr (List.ne_nil_of_mem hcore)

theorem triple_runIter (hmid : mayWrite) (cfg : GraphConfig) (mgr : ConfigManager) (testIter : BitVec 32) :
    Triple (Started s₀ τ₀ []) (runIter (some cfg) mgr testIter)
      (Shows ((ControlOp.runIter testIter).effect s₀) s₀ τ₀) (Underway τ₀ mayWrite) := by
  let count (core : Core) : DriverCall :=
    .dataMemWrWord core.iterMemTile (core.iterMemAddr.setWidth 32) testIter
  have hcounts : s₀.cores.flatMap (fun core => callWrites (count core)) = iterCounts s₀.cores testIter :=
    List.map_eq_flatMap.symm
  have hswitches : s₀.cores.flatMap (fun core => switchOf (count core)) =
    [] := by simp [switchOf, callSwitch, count]
  have hwrite : Adds s₀ τ₀ mayWrite [] [] (forCores count s₀.cores xaieOk) xaieOk
      (iterCounts s₀.cores testIter) [] := by
    have hcores : Adds s₀ τ₀ mayWrite [] [] (forCores count s₀.cores xaieOk) xaieOk _ _ :=
      triple_forCores count (fun _ _ h => h) (Or.inl hmid) s₀.cores
    simpa [hcounts, hswitches] using hcores
  apply triple_whenConfigured hconfigured
  intro _
  apply (triple_quietCall (Or.inr rfl) .startTransaction rfl rfl).bind
  intro _
  apply hwrite.bind
  intro status
  apply (triple_quietCall (Or.inl hmid) .submitTransaction rfl rfl).bind
  intro _
  split
  · rename_i hstatus
    exact fun w h => h.fails hstatus rfl nofun
  · rename_i hstatus
    rw [not_not.mp hstatus]
    exact triple_run_after_writes hconfigured (Or.inl hmid) cfg mgr rfl

theorem triple_wait (cfg : GraphConfig) :
    Triple (Started s₀ τ₀ []) (wait (some cfg)) (Settled s₀ τ₀ [] (disables s₀.cores) false)
      (Underway τ₀ mayWrite) := by
  apply triple_whenConfigured hconfigured
  intro _
  apply (triple_awaitCores (Or.inr rfl) s₀.cores).bind
  exact triple_settle false

omit hconfigured in
theorem triple_spendCycles (cores : List Core) (startTime cycleTimeout : BitVec 64) :
    Adds s₀ τ₀ mayWrite [] [] (spendCycles cores startTime cycleTimeout) xaieOk [] [] := by
  cases cores with
  | nil => exact fun _ h => h
  | cons core rest =>
    apply (triple_readTimer (Or.inr rfl) core.coreTile .coreMod).bind
    intro answer
    dsimp only
    split
    · exact triple_statusCall (Or.inr rfl) (.waitCycles core.coreTile .coreMod _) fun _ h => h
    · exact fun _ h => h

theorem triple_waitTimeout {cycleTimeout : BitVec 64} (hlimit : ¬0xFFFFFFFFFFFF#64 < cycleTimeout) :
    Triple (Started s₀ τ₀ []) (waitTimeout cycleTimeout)
      (Settled s₀ τ₀ [] (s₀.cores.map fun core => .coreDisable core.coreTile) false) (Underway τ₀ mayWrite) := by
  apply triple_object
  intro startTime
  rw [if_neg (by simp [hconfigured]), if_neg hlimit]
  apply (triple_spendCycles s₀.cores startTime cycleTimeout).bind
  intro status
  apply (triple_switchCores (Or.inr rfl) (fun core => .coreDisable core.coreTile) (fun _ _ h => h) (fun _ => rfl)
    (fun _ => rfl) s₀.cores).bind
  exact triple_settle false

theorem triple_waitTimeout_refused {cycleTimeout : BitVec 64} (hlimit : 0xFFFFFFFFFFFF#64 < cycleTimeout) :
    Triple (Started s₀ τ₀ []) (waitTimeout cycleTimeout)
      (fun code w => code = .userError ∧ Doing s₀ τ₀ (Facts [] [] (code = .userError)) w)
        (Underway τ₀ mayWrite) := by
  apply triple_object
  intro startTime
  rw [if_neg (by simp [hconfigured]), if_pos hlimit]
  rintro w ⟨hsame, evs, htrace, hdriver, hwrites, hswitches, -⟩
  exact ⟨rfl, hsame, evs, htrace, hdriver, hwrites, hswitches, fun _ => rfl⟩

end Configured

/-- A resumed core that is not done has been switched on last. -/
def Resuming (seen : List Core) (status : BitVec 32) (evs : List (Event Op)) : Prop :=
  ∃ done, Facts [] done (status = xaieOk) evs ∧
    ∀ core ∈ seen, (∀ e ∈ evs, NotDone core e) → done.getLast?.bind callSwitch = some true

theorem Resuming.read (h : Resuming seen status evs) (loc : TileLoc) (answer : DriverAnswer) :
    Resuming seen (status ||| answer.rc) (evs ++ [.driver (.coreReadDoneBit loc) answer]) := by
  obtain ⟨done, hfacts, hseen⟩ := h
  refine ⟨done, by simpa [callWrites, callSwitch, switchOf] using hfacts.join (.coreReadDoneBit loc) answer id, ?_⟩
  exact fun core hcore hnot => hseen core hcore fun e he => hnot e (List.mem_append_left _ he)

theorem Resuming.skip {core : Core}
    (h : Resuming seen status evs) (hdone : ¬∀ e ∈ evs, NotDone core e) : Resuming (seen ++ [core]) status evs := by
  obtain ⟨done, hfacts, hseen⟩ := h
  refine ⟨done, hfacts, fun core' hcore' hnot => ?_⟩
  rcases List.mem_append.mp hcore' with hcore' | hcore'
  · exact hseen core' hcore' hnot
  · rw [List.mem_singleton.mp hcore'] at hnot
    exact absurd hnot hdone

theorem Resuming.enable (h : Resuming seen status evs) (core : Core) (answer : DriverAnswer) :
    Resuming (seen ++ [core]) (status ||| answer.rc) (evs ++ [.driver (.coreEnable core.coreTile) answer]) := by
  obtain ⟨done, hfacts, -⟩ := h
  refine ⟨_, hfacts.join (.coreEnable core.coreTile) answer id, fun _ _ _ => ?_⟩
  simp [switchOf, callSwitch]

/-- Resuming switches on every core that is not done. -/
theorem triple_resumeCores (seen cores : List Core) :
    Triple (Doing s₀ τ₀ (Resuming seen status)) (resumeCores cores status)
      (fun status => Doing s₀ τ₀ (Resuming (seen ++ cores) status)) (Underway τ₀ mayWrite) := by
  induction cores generalizing seen status with
  | nil =>
    rw [List.append_nil]
    exact fun _ h => h
  | cons core rest ih =>
    have hmid (status : BitVec 32) (evs : List (Event Op)) (h : Resuming seen status evs) :
        mayWrite ∨ wordWrites evs = [] := .inr h.choose_spec.1.1
    have hread : Triple (Doing s₀ τ₀ (Resuming seen status)) (xaie (.coreReadDoneBit core.coreTile))
        (fun answer => Doing s₀ τ₀ fun evs => Resuming seen (status ||| answer.rc) evs ∧
          (answer.value.setWidth 8 ≠ 0#8 → ¬∀ e ∈ evs, NotDone core e)) (Underway τ₀ mayWrite) := by
      refine triple_doing _ (hmid status) fun evs answer h => ⟨h.read core.coreTile answer, ?_⟩
      exact fun hdone hnot => hdone (hnot (.driver (.coreReadDoneBit core.coreTile) answer) (by simp) rfl)
    have henable (status : BitVec 32) : Triple (Doing s₀ τ₀ (Resuming seen status))
        (xaieStatus status (.coreEnable core.coreTile))
        (fun status' => Doing s₀ τ₀ (Resuming (seen ++ [core]) status')) (Underway τ₀ mayWrite) := by
      have hcall : Triple (Doing s₀ τ₀ (Resuming seen status)) (xaie (.coreEnable core.coreTile))
          (fun answer => Doing s₀ τ₀ (Resuming (seen ++ [core]) (status ||| answer.rc))) (Underway τ₀ mayWrite) :=
        triple_doing _ (hmid status) fun evs answer h => h.enable core answer
      exact hcall.bind fun _ _ h => h
    rw [List.append_cons]
    apply hread.bind
    intro answer
    split
    · refine Triple.consequence ((henable _).bind fun _ => ih _) (fun w h => ?_) (fun _ _ h => h) fun _ h => h
      exact ⟨h.1, h.2.imp fun evs h => ⟨h.1, h.2.1, h.2.2.1⟩⟩
    · rename_i hdone
      refine Triple.consequence (ih _) (fun w h => ?_) (fun _ _ h => h) fun _ h => h
      exact ⟨h.1, h.2.imp fun evs h => ⟨h.1, h.2.1, h.2.2.1.skip (h.2.2.2 hdone)⟩⟩

theorem triple_resume (hconfigured : s₀.isConfigured = true) :
    Triple (Started s₀ τ₀ []) resume (Shows (ControlOp.resume.effect s₀) s₀ τ₀) (Underway τ₀ mayWrite) := by
  apply triple_object
  intro startTime
  rw [if_neg (by simp [hconfigured])]
  apply (triple_recordStartTime (Or.inr rfl) s₀.cores).bind
  intro status
  have hresume : Triple (SoFar s₀ τ₀ [] [] status) (resumeCores s₀.cores status)
      (fun status => Doing s₀ τ₀ (Resuming s₀.cores status)) (Underway τ₀ mayWrite) := by
    refine (triple_resumeCores [] s₀.cores).consequence (fun w h => ?_) (fun _ _ h => h) fun _ h => h
    exact ⟨h.1, h.2.imp fun evs h => ⟨h.1, h.2.1, [], h.2.2, nofun⟩⟩
  apply hresume.bind
  rintro status w ⟨hsame, evs, htrace, hdriver, done, ⟨hwrites, hswitches, hgood⟩, hseen⟩
  split
  · rename_i hstatus
    exact ⟨evs, htrace, ⟨_, hsame⟩, hdriver, fun hall => absurd (hgood hall) hstatus, fun h => absurd rfl h,
      nofun, nofun, nofun⟩
  · refine ⟨evs, htrace, ⟨_, hsame⟩, hdriver, fun _ => rfl, fun _ => rfl, fun _ => hsame, fun _ => hwrites, ?_⟩
    intro _ core hcore _ hnot
    rw [lastSwitch_eq, hswitches]
    exact hseen core hcore hnot

/-- Ending a core enables and then disables it. -/
def endSwitches (cores : List Core) : List DriverCall :=
  (cores.filter fun core => core.triggered = 0#8).flatMap fun core =>
    [.coreEnable core.coreTile, .coreDisable core.coreTile]

theorem triple_endCore (hmid : mayWrite) (core : Core) {done : List DriverCall} :
    Adds s₀ τ₀ mayWrite writes done (endCore core status) status (writes ++ [endSignal core])
      (done ++ [.coreEnable core.coreTile] ++ [.coreDisable core.coreTile]) := by
  have hsignal : Adds s₀ τ₀ mayWrite writes done (xaieStatus status (endSignalCall core)) status
      (writes ++ [endSignal core]) (done ++ []) := triple_statusCall (Or.inl hmid) _ fun _ h => h
  have henable (status : BitVec 32) : Adds s₀ τ₀ mayWrite (writes ++ [endSignal core]) done
      (xaieStatus status (.coreEnable core.coreTile)) status (writes ++ [endSignal core] ++ [])
      (done ++ [.coreEnable core.coreTile]) := triple_statusCall (Or.inl hmid) _ fun _ h => h
  rw [List.append_nil] at hsignal
  simp only [List.append_nil] at henable
  exact hsignal.bind fun status => (henable status).bind fun status => triple_awaitCore (Or.inl hmid) core

theorem triple_endCores (hmid : mayWrite) (cores : List Core) {done : List DriverCall} :
    Adds s₀ τ₀ mayWrite writes done (endCores true cores status) status (writes ++ endSignals cores)
      (done ++ endSwitches cores) := by
  induction cores generalizing writes done status with
  | nil =>
    rw [show endSignals [] = [] from rfl, show endSwitches [] = [] from rfl, List.append_nil, List.append_nil]
    exact fun _ h => h
  | cons core rest ih =>
    rw [endCores]
    by_cases htriggered : core.triggered = 0#8
    · have hsignals : endSignals (core :: rest) = endSignal core :: endSignals rest := by
        simp [endSignals, htriggered]
      have hswitches : endSwitches (core :: rest) =
          .coreEnable core.coreTile :: .coreDisable core.coreTile :: endSwitches rest := by
        simp [endSwitches, htriggered]
      rw [if_pos ⟨rfl, htriggered⟩, hsignals, hswitches, List.append_cons writes, List.append_cons done,
        List.append_cons (done ++ _)]
      exact (triple_endCore hmid core).bind fun status => ih
    · have hsignals : endSignals (core :: rest) = endSignals rest := by simp [endSignals, htriggered]
      have hswitches : endSwitches (core :: rest) = endSwitches rest := by simp [endSwitches, htriggered]
      rw [if_neg fun h => htriggered h.2, hsignals, hswitches]
      exact ih

theorem endCores_not_running (cores : List Core) (driverStatus : BitVec 32) :
    (endCores false cores driverStatus : GraphProgram Op (BitVec 32)) = pure driverStatus := by
  induction cores with
  | nil => rfl
  | cons core rest ih => simpa [endCores] using ih

theorem triple_endCores_of_running {done : List DriverCall} (isRunningBefore : Bool)
    (hmid : isRunningBefore → mayWrite) (cores : List Core) :
    Adds s₀ τ₀ mayWrite [] done (endCores isRunningBefore cores xaieOk) xaieOk
      (if isRunningBefore then endSignals cores else [])
      (done ++ if isRunningBefore then endSwitches cores else []) := by
  cases isRunningBefore with
  | false =>
    rw [endCores_not_running, if_neg Bool.false_ne_true, if_neg Bool.false_ne_true, List.append_nil]
    exact fun _ h => h
  | true => exact triple_endCores (hmid rfl) cores

theorem getLast_disables_endSwitches {core : Core} {cores : List Core} (hcore : core ∈ cores)
    (htriggered : core.triggered = 0#8) (isRunningBefore : Bool) :
    (disables cores ++ if isRunningBefore then endSwitches cores else []).getLast?.bind
      callSwitch = some false := by
  cases isRunningBefore with
  | false => simpa using getLast_disables hcore htriggered
  | true =>
    have hmem : core ∈ cores.filter fun core => core.triggered = 0#8 :=
      List.mem_filter.mpr ⟨hcore, by simpa using htriggered⟩
    obtain ⟨init, last, hfilter⟩ := (List.eq_nil_or_concat _).resolve_left (List.ne_nil_of_mem hmem)
    simp [endSwitches, hfilter, callSwitch]

theorem triple_endGraph (hmid : s₀.isRunning → mayWrite) (cfg : GraphConfig)
    (hconfigured : s₀.isConfigured = true) :
    Triple (Started s₀ τ₀ []) (endGraph (some cfg)) (Shows (ControlOp.endGraph.effect s₀) s₀ τ₀)
      (Underway τ₀ mayWrite) := by
  apply triple_whenConfigured hconfigured
  intro _
  apply (triple_wait hconfigured cfg).bind
  intro ret
  by_cases hret : ret = .ok
  · subst hret
    rw [if_neg (show ¬ErrCode.ok ≠ .ok from not_not.mpr rfl)]
    have hwaited : ∀ w : GraphWorld Op, Settled s₀ τ₀ [] (disables s₀.cores) false .ok w →
        SoFar { s₀ with isRunning := false } τ₀ [] (disables s₀.cores) xaieOk w := by
      simp [Settled, SoFar]
    refine Triple.consequence ?_ hwaited (fun _ _ h => h) fun _ h => h
    apply (triple_endCores_of_running s₀.isRunning hmid s₀.cores).bind
    intro status w h
    split
    · rename_i hstatus
      exact h.fails hstatus rfl nofun
    · obtain ⟨hsame, evs, htrace, hdriver, hwrites, hswitches, -⟩ := h
      refine ⟨evs, htrace, ⟨_, hsame⟩, hdriver, fun _ => rfl, fun _ => rfl, fun _ => hsame, fun _ => hwrites, ?_⟩
      intro _ core hcore htriggered _
      rw [lastSwitch_eq, hswitches]
      exact getLast_disables_endSwitches hcore htriggered s₀.isRunning
  · rw [if_pos hret]
    exact fun w h => h.fails hret rfl hret

/-- The calls during which words are written. -/
def ControlOp.MayWrite (s : GraphState) : ControlOp → Prop
  | .runIter _ => True
  | .endGraph => s.isRunning = true
  | _ => False

theorem ControlOp.mayWrite_or_quiet (op : ControlOp) (s : GraphState) :
    op.MayWrite s ∨ (op.effect s).writes = [] := by
  cases op with
  | run => exact .inr rfl
  | runIter testIter => exact .inl trivial
  | wait => exact .inr rfl
  | waitTimeout cycleTimeout =>
    by_cases hlimit : 0xFFFFFFFFFFFF#64 < cycleTimeout <;> exact .inr (by simp [ControlOp.effect, hlimit])
  | resume => exact .inr rfl
  | endGraph =>
    cases hrunning : s.isRunning with
    | false => exact .inr (if_neg (by simp [hrunning]))
    | true => exact .inl hrunning

/-- Every control call on a configured graph shows its effect. -/
theorem triple_controlMethod (cfg : GraphConfig) (mgr : ConfigManager) (hconfigured : s₀.isConfigured = true)
    (op : ControlOp) :
    Triple (Started s₀ τ₀ []) (controlMethod (some cfg) mgr op) (Shows (op.effect s₀) s₀ τ₀)
      (Underway τ₀ (op.MayWrite s₀)) := by
  cases op with
  | run => exact triple_run_after_writes hconfigured (Or.inr rfl) cfg mgr rfl
  | runIter testIter => exact triple_runIter hconfigured trivial cfg mgr testIter
  | wait =>
    refine (triple_wait hconfigured cfg).consequence (fun _ h => h) (fun code w h => ?_) fun _ h => h
    exact h.shows (fun h => absurd rfl h) (fun hcode => if_pos hcode) (fun _ => rfl)
      fun core hcore htriggered => getLast_disables hcore htriggered
  | waitTimeout cycleTimeout =>
    by_cases hlimit : 0xFFFFFFFFFFFF#64 < cycleTimeout
    · rw [ControlOp.effect, if_pos hlimit]
      refine (triple_waitTimeout_refused hconfigured hlimit).consequence (fun _ h => h)
        (fun code w h => ?_) fun _ h => h
      exact h.2.shows (fun _ => h.1) (fun _ => rfl) (fun _ => rfl) fun _ _ _ => rfl
    · rw [ControlOp.effect, if_neg hlimit]
      refine (triple_waitTimeout hconfigured hlimit).consequence (fun _ h => h) (fun code w h => ?_) fun _ h => h
      exact h.shows (fun h => absurd rfl h) (fun hcode => if_pos hcode) (fun _ => rfl)
        fun core hcore _ => getLast_switch_of_forall (by simpa using List.ne_nil_of_mem hcore)
          (by simp [callSwitch])
  | resume => exact triple_resume hconfigured
  | endGraph => exact triple_endGraph id cfg hconfigured

end Methods

theorem configure_returned {cfg : GraphConfig} {mgr : ConfigManager}
    {w₁ : GraphWorld Op} (h : configure (some cfg) mgr w = (.returned .ok, w₁)) :
    w₁ = { w with state := { w.state with cores := cfg.cores mgr, isConfigured := true } } := by
  revert h
  simp only [configure]
  split
  · exact fun h => absurd (congrArg Prod.fst h) nofun
  · exact fun h => (congrArg Prod.snd h).symm

/-- A call in progress: the driver calls it made so far. -/
def InProgress (op : ControlOp) (s₀ : GraphState) (τ₀ : List (Event ControlOp)) (w : GraphWorld ControlOp) : Prop :=
  ∃ evs, w.trace = τ₀ ++ .enter op :: evs ∧ (∀ e ∈ evs, IsDriver e) ∧ (op.MayWrite s₀ ∨ wordWrites evs = [])

/-- A finished call: its driver calls between the two events of the call. -/
def Finished (op : ControlOp) (s₀ : GraphState) (τ₀ : List (Event ControlOp)) (code : ErrCode)
    (w : GraphWorld ControlOp) : Prop :=
  ∃ evs, w.trace = τ₀ ++ .enter op :: (evs ++ [.leave code]) ∧ (op.effect s₀).Shown s₀ evs code w.state

theorem triple_controlCall (cfg : GraphConfig) (mgr : ConfigManager) {s₀ : GraphState}
    (hconfigured : s₀.isConfigured = true) (τ₀ : List (Event ControlOp)) (op : ControlOp) :
    Triple (fun w => w.state = s₀ ∧ w.trace = τ₀) (apiCall (controlMethod (some cfg) mgr) op)
      (Finished op s₀ τ₀) (InProgress op s₀ τ₀) := by
  have hmethod : Triple (Started s₀ (τ₀ ++ [.enter op]) []) (controlMethod (some cfg) mgr op) _ _ :=
    triple_controlMethod cfg mgr hconfigured op
  refine triple_apiCall _ op ?_ (hmethod.consequence (fun _ h => h) (fun _ _ h => h) ?_) ?_
  · rintro w ⟨rfl, rfl⟩
    exact ⟨⟨_, rfl⟩, [], by simp, by simp, rfl, rfl, fun _ => rfl⟩
  · rintro w ⟨evs, htrace, hdriver, hwrites⟩
    exact ⟨evs, by simp [htrace], hdriver, hwrites⟩
  · rintro code w ⟨evs, htrace, hshown⟩
    exact ⟨evs, by simp [htrace], hshown⟩

end AieBaremetal.Graph
