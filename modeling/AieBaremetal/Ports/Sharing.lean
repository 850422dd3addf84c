import AieBaremetal.AieGraph.Rules
import AieBaremetal.Gmio.Rotation
import AieBaremetal.Ports.Api

/-!
# Objects that share a channel

When an object hands out a descriptor that another object of the same column and channel has enqueued.
Every object goes round the channel's descriptors on its own, so this is a matter of counting: it happens
if, modulo the queue size, the object has handed out as many as the other one had when it enqueued one
that it did not take back yet. A run may end at any driver call, so every moment is covered.
-/

namespace AieBaremetal.Ports

open Common Common.Program AieBaremetal.Runtime Gmio AieGraph

/-- How many descriptors an object has handed to the hardware. -/
def handed (τ : List PortsEvent) (object : ℕ) : ℕ :=
  τ.countP fun
    | .gmio i call _ => i = object && isPush call
    | .cdo _ => false

/-- Two objects use the same channel of the same shim column. -/
def SameChannel (a b : GmioApiImpl) : Prop :=
  (a.gmioconfig.shimColumn.setWidth 8 : BitVec 8) = b.gmioconfig.shimColumn.setWidth 8 ∧
    a.gmioconfig.channelNum = b.gmioconfig.channelNum

/-- No other object of the same column and channel has enqueued what an object hands out. -/
def HandsOutFree (s : PortsState) : Prop :=
  ∀ (a b : ℕ) (oa ob : GmioApiImpl) (bd : BitVec 64), a ≠ b → s.objects[a]? = some oa → s.objects[b]? =
    some ob → SameChannel oa ob →
    ob.gmioApi.bdNumber = some bd → bd ∉ oa.gmioApi.enqueuedBDs

/-- The number of the descriptor that comes after `k` others. -/
def descriptorNumber (o : GmioApiImpl) (k : ℕ) : ℤ :=
  o.gmioconfig.channelNum.toInt * o.gmioApi.dmaStartQMaxSize.toNat + (k % o.gmioApi.dmaStartQMaxSize.toNat : ℕ)

/-- The next number an object hands out is none of the last ones of another object of the same column and channel,
as many as are enqueued there. -/
def KeepsOut (s : PortsState) (τ : List PortsEvent) : Prop :=
  ∀ (a b : ℕ) (oa ob : GmioApiImpl), a ≠ b → s.objects[a]? = some oa → s.objects[b]? = some ob → SameChannel oa ob →
    ob.gmioApi.bdNumber ≠ none →
    ∀ j, handed τ a ≤ j + oa.gmioApi.enqueuedBDs.length → j < handed τ a →
      descriptorNumber oa j ≠ descriptorNumber ob (handed τ b)

section Objects

/-- Every object handed out as many descriptors as the trace says. -/
def Fine (w : PortsWorld) : Prop :=
  ∀ (i : ℕ) (impl : GmioApiImpl), w.state.objects[i]? = some impl →
  Counted impl.gmioconfig (handed w.trace i) impl.gmioApi

structure Still (w : PortsWorld) : Prop where
  fine : Fine w
  bdNumber : ∀ (i : ℕ) (impl : GmioApiImpl), w.state.objects[i]? = some impl → impl.gmioApi.bdNumber = none
  handed : ∀ i, w.state.objects.length ≤ i → handed w.trace i = 0

theorem handed_objectEvent (τ : List PortsEvent) (τ₁ : List (Event GmioOp)) (i j : ℕ) :
    handed (τ ++ τ₁.flatMap (objectEvent i)) j = handed τ j + if i = j then pushes τ₁ else 0 := by
  induction τ₁ generalizing τ with
  | nil => simp [pushes]
  | cons e rest ih =>
    have hcons : pushes (e :: rest) = pushes [e] + pushes rest := @List.countP_append _ _ [e] rest
    have hone : handed (τ ++ objectEvent i e) j = handed τ j + if i = j then pushes [e] else 0 := by
      cases e with
      | driver call answer => by_cases hij : i = j <;> simp [handed, pushes, objectEvent, hij, List.countP_cons]
      | enter _ => simp [pushes, objectEvent]
      | leave _ => simp [pushes, objectEvent]
    rw [List.flatMap_cons, ← List.append_assoc, ih, hone, hcons]
    split <;> omega

theorem handed_cdo (τ : List PortsEvent) (accesses : List Cdo.RegAccess) (j : ℕ) :
    handed (τ ++ accesses.flatMap fun access => [.cdo access]) j = handed τ j := by
  rw [handed, handed, List.countP_append, Nat.add_eq_left, List.countP_eq_zero]
  intro e he
  obtain ⟨access, -, hevent⟩ := List.mem_flatMap.mp he
  rw [List.mem_singleton.mp hevent]
  exact Bool.false_ne_true

def afterCall (w : PortsWorld) (object : ℕ) (impl : GmioApiImpl) (w₁ : GmioWorld) :
    PortsWorld :=
  { w.resume (objectEvent object) w₁ with
    state := { w.state with objects := w.state.objects.set object { impl with gmioApi := w₁.state } } }

variable {w : PortsWorld} {object : ℕ} {impl : GmioApiImpl} {w₁ : GmioWorld}

theorem Still.busy (hw : Still w) (hi : w.state.objects[object]? = some impl)
    (h : Busy impl.gmioconfig (Ports.handed w.trace object) w₁) : Fine (afterCall w object impl w₁) := by
  intro i other hother
  change Counted _ (Ports.handed (w.trace ++ w₁.trace.flatMap (objectEvent object)) i) _
  rw [handed_objectEvent]
  by_cases hne : object = i
  · subst hne
    have hlt := (List.getElem?_eq_some_iff.mp hi).1
    rw [afterCall, List.getElem?_set_self hlt] at hother
    cases hother
    rw [if_pos rfl]
    exact h
  · rw [afterCall, List.getElem?_set_ne hne] at hother
    rw [if_neg hne, Nat.add_zero]
    exact hw.fine i other hother

theorem Still.resting (hw : Still w) (hi : w.state.objects[object]? = some impl)
    (h : Resting impl.gmioconfig (Ports.handed w.trace object) w₁) : Still (afterCall w object impl w₁) where
  fine := hw.busy hi h.1
  bdNumber := by
    intro i other hother
    by_cases hne : object = i
    · subst hne
      rw [afterCall, List.getElem?_set_self (List.getElem?_eq_some_iff.mp hi).1] at hother
      cases hother
      exact h.2
    · rw [afterCall, List.getElem?_set_ne hne] at hother
      exact hw.bdNumber i other hother
  handed := by
    intro i hlength
    have hlt := (List.getElem?_eq_some_iff.mp hi).1
    rw [afterCall, List.length_set] at hlength
    change Ports.handed (w.trace ++ w₁.trace.flatMap (objectEvent object)) i = 0
    rw [handed_objectEvent, hw.handed i hlength, if_neg (by omega)]

theorem leaves_callObject_from (hw : Still w) (method : GmioApiImpl → GmioProgram ErrCode)
    (hmethod : ∀ impl, w.state.objects[object]? = some impl →
      Leaves (fun w₁ => w₁.state = impl.gmioApi ∧ w₁.trace = []) (method impl)
        (fun _ => Resting impl.gmioconfig (handed w.trace object)) (Busy impl.gmioconfig (handed w.trace object))) :
    Leaves (fun w' => w' = w) (callObject object method) (fun _ => Still) Fine := by
  cases hi : w.state.objects[object]? with
  | none =>
    rintro _ rfl
    simp only [callObject, getState_bind, hi, ofOption_none]
    exact hw.fine
  | some impl =>
    have hrun : Leaves (fun w' => w' = w)
        (runWithin (objectEvent object) id impl.gmioApi
          (fun gmioApi s => { s with objects := s.objects.set object { impl with gmioApi } }) (method impl))
        (fun _ => Still) Fine := by
      refine leaves_runWithin _ _ _ _ (hmethod impl hi) ?_ ?_
      · rintro _ _ w₁ rfl h
        exact hw.resting hi h
      · rintro _ w₁ rfl h
        exact hw.busy hi h
    rintro _ rfl
    have hleaves := hrun _ rfl
    simp only [callObject, getState_bind, hi, ofOption_some, pure_bind]
    exact hleaves

theorem leaves_callObject (object : ℕ) {method : GmioApiImpl → GmioProgram ErrCode}
    (hmethod : ∀ impl k, Leaves (Resting impl.gmioconfig k) (method impl) (fun _ => Resting impl.gmioconfig k)
      (Busy impl.gmioconfig k)) :
    Leaves Still (callObject object method) (fun _ => Still) Fine := by
  intro w hw
  refine leaves_callObject_from hw method (fun impl hi => ?_) w rfl
  refine (hmethod impl (handed w.trace object)).consequence ?_ (fun _ _ h => h) fun _ h => h
  rintro w₁ ⟨hstate, htrace⟩
  refine ⟨?_, by rw [hstate, hw.bdNumber object impl hi]⟩
  rw [Busy, hstate, htrace]
  exact hw.fine object impl hi

end Objects

section Calls

theorem leaves_changing {A : Type} {f : PortsState → PortsState} {next : Unit → PortsProgram A}
    {post : A → PortsWorld → Prop} (hf : ∀ s, (f s).objects = s.objects) (h : Leaves Still (next ()) post Fine) :
    Leaves Still (modifyState f >>= next) post Fine := by
  intro w hw
  have hobjects := hf w.state
  refine h { w with state := f w.state } ⟨?_, ?_, ?_⟩
  · intro i impl hi
    exact hw.fine i impl (by rw [← hobjects]; exact hi)
  · intro i impl hi
    exact hw.bdNumber i impl (by rw [← hobjects]; exact hi)
  · intro i hlength
    exact hw.handed i (by rw [← hobjects]; exact hlength)

theorem leaves_reading {A : Type} {next : PortsState → PortsProgram A} {post : A → PortsWorld → Prop}
    (h : ∀ s, Leaves Still (next s) post Fine) : Leaves Still (getState >>= next) post Fine :=
  fun w hw => h w.state w hw

theorem leaves_pointer {A B : Type} (o : Option A) {next : A → PortsProgram B} {post : B → PortsWorld → Prop}
    (h : ∀ a, Leaves Still (next a) post Fine) : Leaves Still (Program.ofOption o >>= next) post Fine := by
  cases o with
  | none => exact fun _ hw => hw.fine
  | some a => exact h a

theorem leaves_errFromAbr {p : PortsProgram ErrCode} (h : Leaves Still p (fun _ => Still) Fine) :
    Leaves Still (p >>= fun code => pure (errFromAbr code)) (fun _ => Still) Fine :=
  h.bind fun _ _ hw => hw

theorem leaves_transferOn (mgr : ConfigManager) (kind : TransferKind) (data : TransferData) (len : BitVec 32)
    (impl : GmioApiImpl) (k : ℕ) :
    Leaves (Resting impl.gmioconfig k) (transferOn mgr impl kind data len) (fun _ => Resting impl.gmioconfig k)
      (Busy impl.gmioconfig k) := by
  have hnb : Leaves (Resting impl.gmioconfig k) (transferNb mgr impl kind data len)
      (fun _ => Resting impl.gmioconfig k) (Busy impl.gmioconfig k) := by
    unfold transferNb
    split
    · exact fun _ h => h
    · refine (leaves_enqueueBD mgr _ _).bind fun code => ?_
      split <;> exact fun _ h => h
  refine hnb.bind fun status => ?_
  split
  · exact fun _ h => h
  · exact fun _ h => h
  all_goals
    split
    · exact (leaves_wait true).bind fun _ _ h => h
    · exact fun _ h => h

/-- A new object has handed out nothing. -/
theorem leaves_makeObject (gmioconfig : GmioConfig) :
    Leaves Still (makeObject gmioconfig)
      (fun object w => Still w ∧ w.state.objects[object]? = some { gmioconfig, gmioApi := .fresh } ∧
        handed w.trace object = 0)
      Fine := by
  intro w hw
  have hunused : Counted gmioconfig (handed w.trace w.state.objects.length) .fresh :=
    Or.inl ⟨hw.handed _ (Nat.le_refl _), rfl, rfl, rfl⟩
  have hcases {i : ℕ} {impl : GmioApiImpl}
      (hi : (w.state.objects ++ [{ gmioconfig, gmioApi := .fresh }])[i]? = some impl) :
      w.state.objects[i]? = some impl ∨ i = w.state.objects.length ∧ impl = { gmioconfig, gmioApi := .fresh } := by
    rcases Nat.lt_trichotomy i w.state.objects.length with hlt | rfl | hgt
    · rw [List.getElem?_append_left hlt] at hi
      exact Or.inl hi
    · rw [List.getElem?_concat_length] at hi
      exact Or.inr ⟨rfl, (Option.some.inj hi).symm⟩
    · rw [List.getElem?_eq_none (by simp; omega)] at hi
      cases hi
  refine ⟨⟨?_, ?_, ?_⟩, List.getElem?_concat_length, hw.handed _ (Nat.le_refl _)⟩
  · intro i impl hi
    rcases hcases hi with hold | ⟨rfl, rfl⟩
    · exact hw.fine i impl hold
    · exact hunused
  · intro i impl hi
    rcases hcases hi with hold | ⟨rfl, rfl⟩
    · exact hw.bdNumber i impl hold
    · rfl
  · intro i hlength
    refine hw.handed i (Nat.le_of_succ_le ?_)
    change (w.state.objects ++ [_]).length ≤ i at hlength
    rwa [List.length_append, List.length_singleton] at hlength

theorem keptByCdo (g : ℕ) : KeptByCdo (pointers g) Still Fine where
  stop _ hw := hw.fine
  resume w w₁ hw := by
    refine ⟨?_, hw.bdNumber, ?_⟩
    · intro i impl hi
      rw [World.resume, pointers, handed_cdo]
      exact hw.fine i impl hi
    · intro i hlength
      rw [World.resume, pointers, handed_cdo]
      exact hw.handed i hlength

theorem keptByConfigure (g : ℕ) : KeptByConfigure (pointers g) (fun _ => Still) Still Fine where
  start _ hw := hw
  weaken _ _ hw := hw
  configure _ gmioconfig := by
    simp only [ite_self]
    refine (leaves_makeObject gmioconfig).bind fun object => ?_
    have hconfigure : Leaves
        (fun w => Still w ∧ w.state.objects[object]? = some { gmioconfig, gmioApi := .fresh } ∧
          handed w.trace object = 0)
        (callObject object fun _ => Gmio.configure (some gmioconfig)) (fun _ => Still) Fine := by
      rintro w ⟨hw, hnew, hhanded⟩
      refine leaves_callObject_from hw _ (fun impl hi => ?_) w rfl
      cases hnew.symm.trans hi
      rw [hhanded]
      exact leaves_configure
    exact hconfigure.bind fun _ _ hw => hw
  store _ _ _ _ hw := ⟨hw.fine, hw.bdNumber, hw.handed⟩

theorem leaves_onGraph (g : ℕ) {method : Option Backend → PortsProgram Cdo.AegErr}
    (h : ∀ graph, Leaves Still (method graph) (fun _ => Still) Fine) :
    Leaves Still (onGraph g method) (fun _ => Still) Fine :=
  leaves_reading fun _ => leaves_pointer _ fun o => h o.graph

theorem leaves_onPort (p : ℕ) {method : GmioApiImpl → GmioProgram ErrCode}
    (hmethod : ∀ impl k, Leaves (Resting impl.gmioconfig k) (method impl) (fun _ => Resting impl.gmioconfig k)
      (Busy impl.gmioconfig k)) :
    Leaves Still (onPort p method) (fun _ => Still) Fine := by
  have hpointer : Leaves Still (apiImpl p) (fun _ => Still) Fine := by
    refine leaves_reading fun s => leaves_pointer _ fun port => ?_
    split
    · exact leaves_pointer _ fun o => leaves_changing (fun _ => rfl) fun _ hw => hw
    · exact fun _ hw => hw
  refine hpointer.bind fun pointer => ?_
  split
  · exact fun _ hw => hw
  · exact leaves_errFromAbr (leaves_callObject _ hmethod)

/-- Everything the application does counts. -/
theorem leaves_portsMethod (mgr : ConfigManager) (op : PortsOp) :
    Leaves Still (portsMethod mgr op) (fun _ => Still) Fine := by
  cases op with
  | build graph => exact leaves_changing (fun _ => rfl) fun _ hw => hw
  | makePort isInput portName graphImpl => exact leaves_changing (fun _ => rfl) fun _ hw => hw
  | bind p portName graphImpl => exact leaves_changing (fun _ => rfl) fun _ hw => hw
  | init g blobs count =>
    rw [portsMethod]
    refine leaves_onGraph g fun graph => ?_
    have hflag (backend : Backend) (_ : graph = some backend) (w : PortsWorld) (hw : Still w) :
        Still { w with state := (pointers g).change (fun s => { s with isInitialized := true }) w.state } :=
      ⟨hw.fine, hw.bdNumber, hw.handed⟩
    simpa only [ite_self] using leaves_init (keptByCdo g) (keptByConfigure g) hflag blobs count
  | transfer g kind name data len =>
    rw [portsMethod]
    exact leaves_onGraph g fun graph => leaves_transfer (fun _ hw => hw.fine) kind name data len
      fun mgr _ object data => leaves_callObject object (leaves_transferOn mgr _ _ _)
  | gmioWait g gmioName syncmode =>
    rw [portsMethod]
    exact leaves_onGraph g fun graph => leaves_gmioWait (fun _ hw => hw.fine) gmioName syncmode
      fun _ object => leaves_callObject object fun _ _ => leaves_wait syncmode
  | portTransfer p kind data len =>
    refine leaves_reading fun s => leaves_pointer _ fun port => ?_
    split
    · exact fun _ hw => hw.fine
    · split
      · exact fun _ hw => hw
      · split
        · exact fun _ hw => hw
        · exact leaves_onPort _ (leaves_transferOn mgr _ _ _)
  | portWait p syncmode =>
    refine leaves_reading fun s => leaves_pointer _ fun port => ?_
    split
    · exact fun _ hw => hw.fine
    · split
      · exact fun _ hw => hw
      · exact leaves_onPort _ fun _ _ => leaves_wait syncmode

theorem fine_portsCalls (mgr : ConfigManager) (ops : List PortsOp) (script : List DriverAnswer) :
    Fine (portsCalls mgr ops { state := .fresh, trace := [], script }).2 := by
  have hrun : Leaves Still (runAll (portsMethod mgr) ops) (fun _ => Still) Fine :=
    leaves_runAll _ fun op _ => leaves_portsMethod mgr op
  have hend := hrun.consequence (fun _ h => h) (fun _ _ h => h.fine) fun _ h => h
  unfold portsCalls
  exact hend.always ⟨nofun, nofun, fun _ _ => rfl⟩

end Calls

theorem descriptorAt_eq_iff {oa ob : GmioApiImpl} (ha : 0 < oa.gmioApi.dmaStartQMaxSize.toNat)
    (hb : 0 < ob.gmioApi.dmaStartQMaxSize.toNat) (j k : ℕ) :
    descriptorAt oa.gmioconfig oa.gmioApi.dmaStartQMaxSize j =
      descriptorAt ob.gmioconfig ob.gmioApi.dmaStartQMaxSize k ↔
      descriptorNumber oa j = descriptorNumber ob k := by
  have hnumber (o : GmioApiImpl) (ho : 0 < o.gmioApi.dmaStartQMaxSize.toNat) (n : ℕ) :
      descriptorNumber o n = (descriptorAt o.gmioconfig o.gmioApi.dmaStartQMaxSize n).toInt :=
    (bdNum_toInt _ _ _ (Nat.mod_lt _ ho)).symm
  rw [hnumber oa ha, hnumber ob hb, BitVec.toInt_inj]

/-- In every run, at every moment: what an object hands out is enqueued by no other object of the same column and
channel exactly if the counts of the objects keep its number out. -/
theorem handsOutFree_iff_keepsOut (mgr : ConfigManager) (ops : List PortsOp) (script : List DriverAnswer) :
    HandsOutFree (portsCalls mgr ops { state := .fresh, trace := [], script }).2.state ↔
      KeepsOut (portsCalls mgr ops { state := .fresh, trace := [], script }).2.state
        (portsCalls mgr ops { state := .fresh, trace := [], script }).2.trace := by
  have hfine := fine_portsCalls mgr ops script
  generalize (portsCalls mgr ops { state := .fresh, trace := [], script }).2 = w at hfine ⊢
  -- one pair of objects, one of which hands out a descriptor
  have hpair {a b : ℕ} {oa ob : GmioApiImpl} {bd : BitVec 64} (ha : w.state.objects[a]? = some oa)
      (hb : w.state.objects[b]? = some ob) (hhand : ob.gmioApi.bdNumber = some bd) :
      bd ∉ oa.gmioApi.enqueuedBDs ↔ ∀ j, handed w.trace a ≤ j + oa.gmioApi.enqueuedBDs.length →
      j < handed w.trace a →
        descriptorNumber oa j ≠ descriptorNumber ob (handed w.trace b) := by
    rcases hfine b ob hb with ⟨-, hunused⟩ | ⟨-, hrotatedb⟩
    · exact nomatch hunused.bdNumber.symm.trans hhand
    · have hbpos : 0 < ob.gmioApi.dmaStartQMaxSize.toNat := hrotatedb.queue_pos hhand
      rcases hfine a oa ha with ⟨hzero, hunused⟩ | ⟨-, hrotateda⟩
      · rw [hunused.enqueuedBDs, hzero]
        exact iff_of_true List.not_mem_nil fun j _ hj => absurd hj (Nat.not_lt_zero j)
      · rw [hrotateda.mem_enqueued_iff, hrotatedb.hand_eq hhand]
        constructor
        · intro hfree j hlow hhigh hsame
          have hapos : 0 < oa.gmioApi.dmaStartQMaxSize.toNat := hrotateda.queue_pos_of_lt hlow hhigh
          exact hfree ⟨j, hlow, hhigh, (descriptorAt_eq_iff hapos hbpos j _).mpr hsame⟩
        · rintro hkeeps ⟨j, hlow, hhigh, hsame⟩
          have hapos : 0 < oa.gmioApi.dmaStartQMaxSize.toNat := hrotateda.queue_pos_of_lt hlow hhigh
          exact hkeeps j hlow hhigh ((descriptorAt_eq_iff hapos hbpos j _).mp hsame)
  constructor
  · intro hfree a b oa ob hne ha hb hsame hhand
    obtain ⟨bd, hbd⟩ := Option.ne_none_iff_exists'.mp hhand
    exact (hpair ha hb hbd).mp (hfree a b oa ob bd hne ha hb hsame hbd)
  · intro hkeeps a b oa ob bd hne ha hb hsame hbd
    exact (hpair ha hb hbd).mpr (hkeeps a b oa ob hne ha hb hsame (by rw [hbd]; exact Option.some_ne_none bd))

def sampleData : Option TransferData := some ⟨some 0x1000⟩

/-- One graph: a typed port transfers, the graph is initialised again and transfers by name. -/
def twiceInitialized : List PortsOp :=
  [.build (some sampleBackend), .makePort true "in0" (some 0), .init 0 none 0,
    .portTransfer 0 .gm2aieNb sampleData 64, .init 0 none 0, .transfer 0 .gm2aieNb (some "in0") sampleData 64]

def twoGraphs : List PortsOp :=
  [.build (some sampleBackend), .build (some sampleBackend), .init 0 none 0, .init 1 none 0,
    .transfer 0 .gm2aieNb (some "in0") sampleData 64, .transfer 1 .gm2aieNb (some "in0") sampleData 64]

def enqueuedEight : GmioApiImpl := ⟨sampleGmio, ⟨true, xaieTileLoc 2 0, 4, [8], [9, 10, 11], none⟩⟩

def handingEight : GmioApiImpl := ⟨sampleGmio, ⟨true, xaieTileLoc 2 0, 4, [], [9, 10, 11], some 8⟩⟩

/-- A typed port keeps the object of the first `init` with descriptor 8 enqueued; after a second `init` a transfer
by name hands it out again. So does the second of two graphs while the first one has it enqueued. -/
theorem second_object_hands_out_enqueued :
    ¬HandsOutFree (portsCalls sampleBackend.mgr twiceInitialized
      { state := .fresh, trace := [], script := sampleAnswers.take 19 }).2.state ∧
    ¬HandsOutFree (portsCalls sampleBackend.mgr twoGraphs
      { state := .fresh, trace := [], script := sampleAnswers.take 19 }).2.state := by
  constructor
  · intro h
    exact h 0 1 enqueuedEight handingEight 8 (by decide) (by decide +kernel) (by decide +kernel) ⟨rfl, rfl⟩ rfl
      List.mem_cons_self
  · intro h
    exact h 0 1 enqueuedEight handingEight 8 (by decide) (by decide +kernel) (by decide +kernel) ⟨rfl, rfl⟩ rfl
      List.mem_cons_self

end AieBaremetal.Ports
