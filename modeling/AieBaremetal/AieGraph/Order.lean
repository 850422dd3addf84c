import AieBaremetal.AieGraph.Rules
import AieBaremetal.Common.Monitor
import AieBaremetal.Gmio.Descriptors

/-!
# CDOs and the channels of an initialised graph

A graph that reports itself initialised should have had every channel of its GMIOs enabled after
the last register access of a CDO. `init` keeps that order within one call. It is broken by
`load_cdo` on an initialised graph and by a second `init` that fails after it applied a blob, since
the flag of the first one stays. Where neither happens the order holds at the end of every call.
-/

namespace AieBaremetal.AieGraph

open Common Common.Program AieBaremetal.Runtime Gmio
open Cdo (AegErr DevInst RegAccess WordMemory)

structure Channel where
  loc : TileLoc
  chNum : BitVec 8
  dir : DmaDirection
  deriving DecidableEq, Repr

def gmioChannel (cfg : GmioConfig) : Channel where
  loc := xaieTileLoc (cfg.shimColumn.setWidth 8) 0#8
  chNum := cfg.physicalChannel
  dir := cfg.direction

/-- What an observer knows: the channels enabled since the last register access, whether the present call made
one, whether it is an `init`, and the flag it began with. -/
structure EnableWatch where
  enabled : List Channel
  accessed : Bool
  isInit : Bool
  wasInitialized : Bool
  deriving DecidableEq, Repr

def EnableWatch.start : EnableWatch where
  enabled := []
  accessed := false
  isInit := false
  wasInitialized := false

def AieGraphOp.isInit : AieGraphOp → Bool
  | .init .. => true
  | _ => false

/-- Is a step a register access, rather than a sleep? -/
def isRegister : RegAccess → Bool
  | .read .. | .write .. => true
  | .usleep _ => false

/-- The channel a driver call enables, if it succeeds. -/
def enables : DriverCall → DriverAnswer → List Channel
  | .dmaChannelEnable loc chNum dir, answer => if answer.rc = xaieOk then [{ loc, chNum, dir }] else []
  | _, _ => []

def EnableWatch.step (m : EnableWatch) : AieGraphEvent → EnableWatch
  | .enter op => { m with accessed := false, isInit := op.isInit }
  | .cdo access => if isRegister access then { m with enabled := [], accessed := true } else m
  | .driver call answer => { m with enabled := enables call answer ++ m.enabled }
  | .leave _ isInitialized => { m with wasInitialized := isInitialized }

section Watching

variable (gmios : List (String × GmioConfig))

/-- Every channel was enabled since the last register access. -/
def EnableWatch.AllEnabled (m : EnableWatch) : Prop := ∀ item ∈ gmios, gmioChannel item.2 ∈ m.enabled

def LeavesEnabled (m : EnableWatch) : AieGraphEvent → Prop
  | .leave _ true => m.AllEnabled gmios
  | _ => True

/-- A call on an initialised graph accesses no register or is an `init` that succeeds, unless there are no GMIOs.
-/
def LeavesOrderly (m : EnableWatch) : AieGraphEvent → Prop
  | .leave code _ => m.wasInitialized = false ∨ m.accessed = false ∨ (m.isInit = true ∧ code = .ok) ∨ gmios = []
  | _ => True

instance (m : EnableWatch) : Decidable (m.AllEnabled gmios) := inferInstanceAs (Decidable (∀ item ∈ gmios, _))

instance (m : EnableWatch) (e : AieGraphEvent) : Decidable (LeavesEnabled gmios m e) := by
  unfold LeavesEnabled
  split <;> infer_instance

instance (m : EnableWatch) (e : AieGraphEvent) : Decidable (LeavesOrderly gmios m e) := by
  unfold LeavesOrderly
  split <;> infer_instance

end Watching

/-- Register accesses and driver calls. -/
def IsInner : AieGraphEvent → Prop
  | .cdo _ | .driver _ _ => True
  | _ => False

variable {channel : Channel} {code : AegErr} {evs : List AieGraphEvent} {graph : Option Backend}
  {w : AieGraphWorld}

/-- Two observers agree about the call they are in. -/
def EnableWatch.SameCall (m m' : EnableWatch) : Prop := m.isInit = m'.isInit ∧ m.wasInitialized = m'.wasInitialized

section Inner

variable {gmios : List (String × GmioConfig)}

theorem along_leavesEnabled_of_inner (h : ∀ e ∈ evs, IsInner e) (m : EnableWatch) :
    Along EnableWatch.step (LeavesEnabled gmios) m evs := by
  induction evs generalizing m with
  | nil => trivial
  | cons e rest ih =>
    refine ⟨?_, ih (fun e he => h e (List.mem_cons_of_mem _ he)) _⟩
    have he := h e List.mem_cons_self
    cases e with
    | enter op => exact False.elim he
    | leave code isInitialized => exact False.elim he
    | cdo access => trivial
    | driver call answer => trivial

theorem isInner_of_mem_gmioEvents {trace : List (Event GmioOp)} {e : AieGraphEvent}
    (h : e ∈ trace.flatMap gmioEvent) :
    IsInner e := by
  obtain ⟨e', -, he⟩ := List.mem_flatMap.mp h
  cases e' with
  | driver call answer =>
    cases List.mem_singleton.mp he
    trivial
  | enter op => cases he
  | leave code => cases he

theorem isInner_of_mem_cdo {trace : List RegAccess} {e : AieGraphEvent}
    (h : e ∈ trace.flatMap fun access => [AieGraphEvent.cdo access]) : IsInner e := by
  obtain ⟨access, -, he⟩ := List.mem_flatMap.mp h
  cases List.mem_singleton.mp he
  trivial

/-- Driver calls only add channels. -/
theorem replay_gmioEvents (trace : List (Event GmioOp)) (m : EnableWatch) :
    (replay EnableWatch.step m (trace.flatMap gmioEvent)).accessed = m.accessed ∧
      (replay EnableWatch.step m (trace.flatMap gmioEvent)).SameCall m ∧
      (∀ channel ∈ m.enabled, channel ∈ (replay EnableWatch.step m (trace.flatMap gmioEvent)).enabled) ∧
      ∀ call answer, .driver call answer ∈ trace → ∀ channel ∈ enables call answer,
        channel ∈ (replay EnableWatch.step m (trace.flatMap gmioEvent)).enabled := by
  induction trace generalizing m with
  | nil => exact ⟨rfl, ⟨rfl, rfl⟩, fun _ h => h, nofun⟩
  | cons e rest ih =>
    cases e with
    | driver call answer =>
      obtain ⟨haccessed, hinit, hold, hnew⟩ := ih (m.step (.driver call answer))
      refine ⟨haccessed, hinit, fun channel h => hold channel (List.mem_append_right _ h), ?_⟩
      intro call' answer' hmem channel hchannel
      obtain heq | hrest := List.mem_cons.mp hmem
      · cases heq
        exact hold channel (List.mem_append_left _ hchannel)
      · exact hnew call' answer' hrest channel hchannel
    | enter op =>
      obtain ⟨haccessed, hinit, hold, hnew⟩ := ih m
      refine ⟨haccessed, hinit, hold, fun call answer hmem => hnew call answer ?_⟩
      exact (List.mem_cons.mp hmem).resolve_left nofun
    | leave code =>
      obtain ⟨haccessed, hinit, hold, hnew⟩ := ih m
      refine ⟨haccessed, hinit, hold, fun call answer hmem => hnew call answer ?_⟩
      exact (List.mem_cons.mp hmem).resolve_left nofun

theorem replay_cdo (trace : List RegAccess) (m : EnableWatch) :
    (replay EnableWatch.step m (trace.flatMap fun access => [.cdo access])).SameCall m ∧
      ((replay EnableWatch.step m (trace.flatMap fun access => [.cdo access])).accessed = false →
        m.accessed = false ∧
        (replay EnableWatch.step m (trace.flatMap fun access => [.cdo access])).enabled = m.enabled) := by
  induction trace generalizing m with
  | nil => exact ⟨⟨rfl, rfl⟩, fun h => ⟨h, rfl⟩⟩
  | cons access rest ih =>
    have hstep : (m.step (.cdo access)).SameCall m ∧
        ((m.step (.cdo access)).accessed = false → m.accessed = false ∧
          (m.step (.cdo access)).enabled = m.enabled) := by
      by_cases hregister : isRegister access = true
      · simp [EnableWatch.step, EnableWatch.SameCall, hregister]
      · simp [EnableWatch.step, EnableWatch.SameCall, hregister]
    obtain ⟨hinit, hquiet⟩ := ih (m.step (.cdo access))
    refine ⟨⟨hinit.1.trans hstep.1.1, hinit.2.trans hstep.1.2⟩, fun h => ?_⟩
    obtain ⟨haccessed, henabled⟩ := hquiet h
    exact ⟨(hstep.2 haccessed).1, henabled.trans (hstep.2 haccessed).2⟩

end Inner

theorem exists_enables_of_configure {cfg : GmioConfig} {w : GmioWorld} (h : ConfigureEnds cfg [] .ok w) :
    ∃ call answer, .driver call answer ∈ w.trace ∧ gmioChannel cfg ∈ enables call answer := by
  rw [ConfigureEnds, if_pos rfl] at h
  obtain ⟨w', h, hw⟩ := h
  obtain ⟨answer, hmem, hrc⟩ := h.enabled rfl rfl
  refine ⟨_, answer, by rwa [hw], ?_⟩
  rw [enableCall, enables, if_pos hrc]
  exact List.mem_cons_self

section Calls

variable {gmios : List (String × GmioConfig)} {isInit flag : Bool} {before : List Channel}

def watch (w : AieGraphWorld) :
    EnableWatch := replay EnableWatch.step .start w.trace

/-- Orderly calls left every channel enabled so far. -/
def Kept (gmios : List (String × GmioConfig)) (w : AieGraphWorld) : Prop :=
  Along EnableWatch.step (LeavesOrderly gmios) .start w.trace →
  Along EnableWatch.step (LeavesEnabled gmios) .start w.trace

/-- Inside a call that began with the channels `before` and the flag `flag`. -/
structure Working (gmios : List (String × GmioConfig)) (isInit flag : Bool) (before : List Channel)
    (w : AieGraphWorld) : Prop where
  kept : Kept gmios w
  ready : Along EnableWatch.step (LeavesOrderly gmios) .start w.trace → flag = true →
    ∀ item ∈ gmios, gmioChannel item.2 ∈ before
  call : (watch w).isInit = isInit ∧ (watch w).wasInitialized = flag
  since : (watch w).accessed = false → ∀ channel ∈ before, channel ∈ (watch w).enabled
  state : w.state.isInitialized = flag

/-- The end of a call: a successful `init` enabled every channel, any other call left the flag alone. -/
structure Ending (gmios : List (String × GmioConfig)) (isInit flag : Bool) (before : List Channel) (code : AegErr)
    (w : AieGraphWorld) : Prop where
  kept : Kept gmios w
  ready : Along EnableWatch.step (LeavesOrderly gmios) .start w.trace → flag = true →
    ∀ item ∈ gmios, gmioChannel item.2 ∈ before
  call : (watch w).isInit = isInit ∧ (watch w).wasInitialized = flag
  since : (watch w).accessed = false → ∀ channel ∈ before, channel ∈ (watch w).enabled
  success : isInit = true → code = .ok → (watch w).AllEnabled gmios
  state : ¬(isInit = true ∧ code = .ok) → w.state.isInitialized = flag

/-- After a call: orderly calls leave the channels of an initialised graph enabled. -/
structure Settled (gmios : List (String × GmioConfig)) (w : AieGraphWorld) :
    Prop where
  wasInitialized : (watch w).wasInitialized = w.state.isInitialized
  kept : Kept gmios w
  enabled : Along EnableWatch.step (LeavesOrderly gmios) .start w.trace → w.state.isInitialized = true →
    (watch w).AllEnabled gmios

theorem Kept.append {w' : AieGraphWorld} (h : Kept gmios w)
    (htrace : w'.trace = w.trace ++ evs) (hinner : ∀ e ∈ evs, IsInner e) : Kept gmios w' := by
  intro horderly
  rw [htrace, along_append] at horderly ⊢
  exact ⟨h horderly.1, along_leavesEnabled_of_inner hinner _⟩

theorem Working.ready_append {w' : AieGraphWorld}
    (h : Working gmios isInit flag before w) (htrace : w'.trace = w.trace ++ evs)
    (horderly : Along EnableWatch.step (LeavesOrderly gmios) .start w'.trace) (hflag : flag = true) :
    ∀ item ∈ gmios, gmioChannel item.2 ∈ before := by
  rw [htrace, along_append] at horderly
  exact h.ready horderly.1 hflag

theorem watch_resume {Ev Ans S : Type} (w : AieGraphWorld) (ev : Ev → List AieGraphEvent)
    (w₁ : World Ev Ans S) : watch (w.resume ev w₁) = replay EnableWatch.step (watch w) (w₁.trace.flatMap ev) :=
  replay_append _ _ _ _

theorem Working.resume_gmio (h : Working gmios isInit flag before w) (w₁ : GmioWorld) :
    Working gmios isInit flag before (w.resume gmioEvent w₁) := by
  obtain ⟨haccessed, hinit, hold, -⟩ := replay_gmioEvents w₁.trace (watch w)
  rw [← watch_resume] at haccessed hinit hold
  refine ⟨h.kept.append rfl fun _ => isInner_of_mem_gmioEvents, h.ready_append rfl,
    ⟨hinit.1.trans h.call.1, hinit.2.trans h.call.2⟩, ?_, h.state⟩
  intro hquiet channel hchannel
  exact hold channel (h.since (haccessed ▸ hquiet) channel hchannel)

theorem Working.resume_cdo (h : Working gmios isInit flag before w) (w₁ : World RegAccess (BitVec 32) Unit) :
    Working gmios isInit flag before (w.resume (fun access => [.cdo access]) w₁) := by
  obtain ⟨hinit, hquiet⟩ := replay_cdo w₁.trace (watch w)
  rw [← watch_resume] at hinit hquiet
  refine ⟨h.kept.append rfl fun _ => isInner_of_mem_cdo, h.ready_append rfl,
    ⟨hinit.1.trans h.call.1, hinit.2.trans h.call.2⟩, ?_, h.state⟩
  intro haccessed channel hchannel
  obtain ⟨hbefore, henabled⟩ := hquiet haccessed
  rw [henabled]
  exact h.since hbefore channel hchannel

theorem leaves_callGmio {A : Type} (gmioApi : GmioState) (method : GmioProgram A) :
    Leaves (Working gmios isInit flag before) (callGmio gmioApi method)
      (fun _ => Working gmios isInit flag before) (Kept gmios) := by
  have hany : Leaves (fun w => w.state = gmioApi ∧ w.trace = []) method (fun _ _ => True) fun _ => True := by
    intro w _
    split <;> trivial
  exact leaves_runIn gmioEvent id gmioApi hany (fun _ _ w₁ h _ => h.resume_gmio w₁)
    fun _ w₁ h _ => (h.resume_gmio w₁).kept

/-- A GMIO that is configured has its channel enabled. -/
theorem leaves_configure (done : List GmioConfig) (cfg : GmioConfig) :
    Leaves (fun w => Working gmios isInit flag before w ∧ ∀ cfg ∈ done, gmioChannel cfg ∈ (watch w).enabled)
      (callGmio .fresh (Gmio.configure (some cfg)))
      (fun result w => if result.1 = .ok then Working gmios isInit flag before w ∧
        ∀ other ∈ cfg :: done, gmioChannel other ∈ (watch w).enabled else Working gmios isInit flag
          before w) (Kept gmios) := by
  refine leaves_runIn gmioEvent id GmioState.fresh (triple_configure cfg []).leaves ?_ ?_
  case refine_2 => exact fun w w₁ h _ => (h.1.resume_gmio w₁).kept
  rintro w code w₁ ⟨hworking, hdone⟩ hends
  obtain ⟨-, -, hold, hnew⟩ := replay_gmioEvents w₁.trace (watch w)
  rw [← watch_resume] at hold hnew
  dsimp only
  split
  · rename_i hok
    obtain rfl : code = .ok := hok
    obtain ⟨call, answer, hmem, hchannel⟩ := exists_enables_of_configure hends
    refine ⟨hworking.resume_gmio w₁, fun other hother => ?_⟩
    obtain rfl | hother := List.mem_cons.mp hother
    · exact hnew call answer hmem _ hchannel
    · exact hold _ (hdone other hother)
  · exact hworking.resume_gmio w₁

/-- Register accesses are part of their call. -/
theorem keptByCdo : KeptByCdo ownGmios (Working gmios isInit flag before) (Kept gmios) :=
  ⟨fun _ h => h.kept, fun _ w₁ h => h.resume_cdo w₁⟩

/-- The channels of the GMIOs that are done are enabled. -/
theorem keptByConfigure :
    KeptByConfigure ownGmios
      (fun done w => Working gmios isInit flag before w ∧ ∀ cfg ∈ done, gmioChannel cfg ∈ (watch w).enabled)
      (Working gmios isInit flag before) (Kept gmios) where
  start _ h := ⟨h, nofun⟩
  weaken _ _ h := h.1
  configure done cfg := (leaves_configure done cfg).bind fun ⟨_, _⟩ _ h => h
  store _ _ _ _ h := ⟨⟨h.1.kept, h.1.ready, h.1.call, h.1.since, h.1.state⟩, h.2⟩

/-- A call of a GMIO object enables channels at most. -/
theorem leaves_call (name : String) (impl : GmioApiImpl) (method : GmioApiImpl → GmioProgram ErrCode) :
    Leaves (Working gmios isInit flag before) (ownGmios.call name impl method)
      (fun _ => Working gmios isInit flag before) (Kept gmios) :=
  (leaves_callGmio _ _).bind fun _ _ h => ⟨h.kept, h.ready, h.call, h.since, h.state⟩

theorem Working.ending (h : Working gmios isInit flag before w) (hnot : ¬(isInit = true ∧ code = .ok)) :
    Ending gmios isInit flag before code w :=
  ⟨h.kept, h.ready, h.call, h.since, fun hinit hcode => absurd ⟨hinit, hcode⟩ hnot, fun _ => h.state⟩

/-- Every method keeps the order. -/
theorem leaves_aieGraphMethod
    (hgmios : ∀ backend, graph = some backend → backend.gmioconfigs = gmios) (op : AieGraphOp) :
    Leaves (Working gmios op.isInit flag before) (aieGraphMethod graph op)
      (fun code => Ending gmios op.isInit flag before code) (Kept gmios) := by
  cases op with
  | init blobs count =>
    have hinit : Leaves (Working gmios true flag before) (init ownGmios graph blobs count)
        (fun code w => if code = .ok then Ending gmios true flag before .ok w else Working gmios true flag before w)
        (Kept gmios) := by
      refine leaves_init keptByCdo keptByConfigure (fun backend hgraph w h => ?_) blobs count
      obtain ⟨h, henabled⟩ := h
      refine ⟨h.kept, h.ready, h.call, h.since, fun _ _ item hitem => henabled _ ?_, fun hnot =>
        absurd ⟨rfl, rfl⟩ hnot⟩
      rw [hgmios backend hgraph, List.mem_reverse]
      exact List.mem_map_of_mem hitem
    refine hinit.consequence (fun _ h => h) (fun code w h => ?_) fun _ h => h
    by_cases hok : code = .ok
    · rw [if_pos hok] at h
      rwa [hok]
    · rw [if_neg hok] at h
      exact h.ending fun hsuccess => hok hsuccess.2
  | loadCdo addr len =>
    exact (leaves_loadCdo keptByCdo addr len).consequence (fun _ h => h) (fun _ _ h => h.ending nofun) fun _ h => h
  | transfer kind name data len =>
    exact (leaves_transfer (fun _ h => h.kept) kind name data len fun _ _ _ _ => leaves_call _ _ _).consequence
      (fun _ h => h) (fun _ _ h => h.ending nofun) fun _ h => h
  | gmioWait gmioName syncmode =>
    exact (leaves_gmioWait (fun _ h => h.kept) gmioName syncmode fun _ _ => leaves_call _ _ _).consequence
      (fun _ h => h) (fun _ _ h => h.ending nofun) fun _ h => h

theorem Settled.working (h : Settled gmios w) (op : AieGraphOp) :
    Working gmios op.isInit w.state.isInitialized (watch w).enabled { w with trace := w.trace ++ [.enter op] } where
  kept horderly := by
    rw [along_concat] at horderly ⊢
    exact ⟨h.kept horderly.1, trivial⟩
  ready horderly hflag := by
    rw [along_concat] at horderly
    exact h.enabled horderly.1 hflag
  call := by
    rw [watch, replay_concat]
    exact ⟨rfl, h.wasInitialized⟩
  since _ channel hchannel := by
    rw [watch, replay_concat]
    exact hchannel
  state := rfl

theorem Ending.allEnabled (h : Ending gmios isInit flag before code w)
    (horderly : Along EnableWatch.step (LeavesOrderly gmios) .start w.trace)
    (hleave : LeavesOrderly gmios (watch w) (.leave code w.state.isInitialized))
    (hflag : w.state.isInitialized = true) :
    (watch w).AllEnabled gmios := by
  by_cases hsuccess : isInit = true ∧ code = .ok
  · exact h.success hsuccess.1 hsuccess.2
  · -- the flag is the one from before the call
    have hbefore : flag = true := (h.state hsuccess).symm.trans hflag
    obtain hnot | haccessed | ⟨hinit, hok⟩ | hnone := hleave
    · exact absurd (hnot.symm.trans (h.call.2.trans hbefore)) Bool.false_ne_true
    · intro item hitem
      exact h.since haccessed _ (h.ready horderly hbefore item hitem)
    · exact absurd ⟨h.call.1.symm.trans hinit, hok⟩ hsuccess
    · rw [hnone]
      exact nofun

theorem Ending.settled (h : Ending gmios isInit flag before code w) :
    Settled gmios { w with trace := w.trace ++ [.leave code w.state.isInitialized] } where
  wasInitialized := by
    rw [watch, replay_concat]
    rfl
  kept horderly := by
    rw [along_concat] at horderly ⊢
    refine ⟨h.kept horderly.1, ?_⟩
    change LeavesEnabled gmios (watch w) _
    cases hflag : w.state.isInitialized with
    | false => trivial
    | true => exact h.allEnabled horderly.1 horderly.2 hflag
  enabled horderly hflag := by
    rw [along_concat] at horderly
    rw [watch, replay_concat]
    exact h.allEnabled horderly.1 horderly.2 hflag

theorem leaves_aieGraphCall
    (hgmios : ∀ backend, graph = some backend → backend.gmioconfigs = gmios) (op : AieGraphOp) :
    Leaves (Settled gmios) (aieGraphCall graph op) (fun _ => Settled gmios) (Kept gmios) := by
  intro w hw
  have hcall : Leaves (fun w' => w' = w) (aieGraphCall graph op) (fun _ => Settled gmios) (Kept gmios) := by
    have henter : Leaves (fun w' => w' = w) (Program.tell (.enter op))
        (fun _ => Working gmios op.isInit w.state.isInitialized (watch w).enabled) (Kept gmios) := by
      rintro _ rfl
      exact hw.working op
    refine henter.bind fun _ => (leaves_aieGraphMethod hgmios op).bind fun code => ?_
    exact fun _ h => h.settled
  exact hcall w rfl

end Calls

/-- In every run whose calls are orderly, every call that leaves an initialised graph leaves each GMIO's channel
enabled after the last register access of a CDO. -/
theorem aieGraphCalls_leave_enabled (backend : Backend) (ops : List AieGraphOp) (script : List DriverAnswer)
    (horderly : Along EnableWatch.step (LeavesOrderly backend.gmioconfigs) .start
      (aieGraphCalls (some backend) ops { state := .fresh, trace := [], script }).2.trace) :
    Along EnableWatch.step (LeavesEnabled backend.gmioconfigs) .start
      (aieGraphCalls (some backend) ops { state := .fresh, trace := [], script }).2.trace := by
  have hgmios (other : Backend) (h : some backend = some other) : other.gmioconfigs = backend.gmioconfigs := by
    cases h
    rfl
  have hrun := (Program.leaves_runAll (aieGraphCall (some backend)) (fun op (_ : op ∈ ops) =>
    leaves_aieGraphCall hgmios op)).consequence (fun _ h => h) (fun _ _ h => h.kept) fun _ h => h
  unfold aieGraphCalls at horderly ⊢
  exact hrun.always ⟨rfl, fun _ => trivial, nofun⟩ horderly

/-- An `init` with a CDO and a transfer are orderly. -/
theorem aieGraphCalls_leave_enabled_sample :
    Along EnableWatch.step (LeavesEnabled sampleBackend.gmioconfigs) .start
      (aieGraphCalls (some sampleBackend)
        [.init (some [sampleBlob]) 1, .transfer .gm2aieNb (some "in0") (some ⟨some 0x1000⟩) 64]
        { state := .fresh, trace := [], script := sampleAnswers }).2.trace :=
  aieGraphCalls_leave_enabled sampleBackend _ sampleAnswers (by decide +kernel)

/-- A second `init` applies its first blob and is refused for its second one; the graph still reports itself
initialised, and so it does after `load_cdo`. -/
theorem late_cdo_leaves_channels_reset :
    ((aieGraphCalls (some sampleBackend) [.init none 0, .init (some [sampleBlob, ⟨sampleBlob.data, 0⟩]) 2]
        { state := .fresh, trace := [], script := sampleAnswers }).1 = .returned [.ok, .invalidLength] ∧
      ¬Along EnableWatch.step (LeavesEnabled sampleBackend.gmioconfigs) .start
        (aieGraphCalls (some sampleBackend) [.init none 0, .init (some [sampleBlob, ⟨sampleBlob.data, 0⟩]) 2]
          { state := .fresh, trace := [], script := sampleAnswers }).2.trace) ∧
    (aieGraphCalls (some sampleBackend) [.init none 0, .loadCdo sampleBlob.data 32]
        { state := .fresh, trace := [], script := sampleAnswers }).1 = .returned [.ok, .ok] ∧
      ¬Along EnableWatch.step (LeavesEnabled sampleBackend.gmioconfigs) .start
        (aieGraphCalls (some sampleBackend) [.init none 0, .loadCdo sampleBlob.data 32]
          { state := .fresh, trace := [], script := sampleAnswers }).2.trace := by
  refine ⟨⟨?_, ?_⟩, ?_, ?_⟩
  · decide +kernel
  · decide +kernel
  · decide +kernel
  · decide +kernel

end AieBaremetal.AieGraph
