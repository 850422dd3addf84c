import AieBaremetal.Gmio.Descriptors
import AieBaremetal.Common.Monitor

/-!
# Descriptors in flight

An observer keeps the hardware's channel queue: completions in push order, from the progress the answers
report, and failed pushes as gaps, whose descriptors the API counts as enqueued all the same. The
hardware is honest if a successful count is the number of uncompleted descriptors and a successful wait
means there are none.

The API reuses a descriptor in flight in three ways: a failed count reads as zero pending, a gap makes a
correct count take back too many, and a non-blocking `wait` takes back everything. Runs without these
keep away from descriptors in flight.
-/

namespace AieBaremetal.Gmio

open Common AieBaremetal.Runtime

/-- Pushes from the oldest uncompleted one on; a failed push is a gap. -/
abbrev Slots := List (Option (BitVec 16))

/-- Complete descriptors in push order and forget the gaps in front. -/
def complete : ℕ → Slots → Slots
  | progress, none :: rest => complete progress rest
  | 0, slots => slots
  | _ + 1, [] => []
  | progress + 1, some _ :: rest => complete progress rest

def uncompleted (slots : Slots) : List (BitVec 16) := slots.filterMap id

/-- The channel queue and the API call in progress. -/
structure Channel where
  slots : Slots
  current : Option GmioOp
  deriving DecidableEq

def Channel.idle : Channel := { slots := [], current := none }

/-- What an event does to the channel. -/
def Channel.step (channel : Channel) : Event GmioOp → Channel
  | .enter op => { channel with current := some op }
  | .leave _ => { channel with current := none }
  | .driver (.dmaChannelPushBdToQueue _ _ _ bdNum) answer =>
    { channel with slots := complete answer.progress channel.slots ++
        [if answer.rc = xaieOk then some bdNum else none] }
  | .driver _ answer => { channel with slots := complete answer.progress channel.slots }

def Channel.inFlight (channel : Channel) (answer : DriverAnswer) : List (BitVec 16) :=
  uncompleted (complete answer.progress channel.slots)

/-- The hardware reports its uncompleted descriptors as it should. -/
def Honest (channel : Channel) : Event GmioOp → Prop
  | .driver (.dmaGetPendingBdCount _ _ _) answer =>
    answer.rc = xaieOk → (answer.value.setWidth 8 : BitVec 8).toNat = (channel.inFlight answer).length
  | .driver (.dmaWaitForDone _ _ _) answer => answer.rc = xaieOk → channel.inFlight answer = []
  | _ => True

/-- While something is in flight, counts succeed and find no gap, and non-blocking waits succeed. -/
def Undisturbed (channel : Channel) : Event GmioOp → Prop
  | .driver (.dmaGetPendingBdCount _ _ _) answer =>
    channel.inFlight answer = [] ∨ answer.rc = xaieOk ∧ none ∉ complete answer.progress channel.slots
  | .driver (.dmaWaitForDone _ _ _) answer =>
    channel.current = some (.wait false) → channel.inFlight answer = [] ∨ answer.rc = xaieOk
  | _ => True

/-- No descriptor in flight is written or pushed. -/
def LeavesInFlight (channel : Channel) : Event GmioOp → Prop
  | .driver (.dmaWriteBd _ bdNum) answer => bdNum ∉ channel.inFlight answer
  | .driver (.dmaChannelPushBdToQueue _ _ _ bdNum) answer => bdNum ∉ channel.inFlight answer
  | _ => True

instance (channel : Channel) (e : Event GmioOp) : Decidable (Honest channel e) := by
  unfold Honest
  split <;> infer_instance

instance (channel : Channel) (e : Event GmioOp) : Decidable (Undisturbed channel e) := by
  unfold Undisturbed
  split <;> infer_instance

instance (channel : Channel) (e : Event GmioOp) : Decidable (LeavesInFlight channel e) := by
  unfold LeavesInFlight
  split <;> infer_instance

section Alignment

/-- The enqueued descriptors end with those of the channel. -/
def Aligned (enqueued : List (BitVec 64)) (slots : Slots) : Prop :=
  ∃ done tail, enqueued = done ++ tail ∧
    List.Forall₂ (fun bd slot => slot = none ∨ slot = some (bd.setWidth 16)) tail slots

variable {enqueued : List (BitVec 64)} {slots : Slots}

theorem aligned_nil (enqueued : List (BitVec 64)) : Aligned enqueued [] :=
  ⟨enqueued, [], (List.append_nil _).symm, .nil⟩

theorem Aligned.complete (h : Aligned enqueued slots) (progress : ℕ) :
    Aligned enqueued (complete progress slots) := by
  obtain ⟨done, tail, rfl, hmatch⟩ := h
  induction hmatch generalizing done progress with
  | nil => cases progress <;> exact aligned_nil _
  | @cons bd slot tail slots hhead htail ih =>
    have hnext (progress : ℕ) : Aligned (done ++ bd :: tail) (Gmio.complete progress slots) := by
      have hstep := ih progress (done ++ [bd])
      rwa [List.append_assoc] at hstep
    cases slot with
    | none =>
      rw [Gmio.complete]
      exact hnext progress
    | some bdNum =>
      cases progress with
      | zero => exact ⟨done, bd :: tail, rfl, .cons hhead htail⟩
      | succ progress => exact hnext progress

theorem Aligned.concat (h : Aligned enqueued slots) (bd : BitVec 64) (ok : Prop) [Decidable ok] :
    Aligned (enqueued ++ [bd]) (slots ++ [if ok then some (bd.setWidth 16) else none]) := by
  obtain ⟨done, tail, rfl, hmatch⟩ := h
  refine ⟨done, tail ++ [bd], (List.append_assoc ..), List.rel_append hmatch (.cons ?_ .nil)⟩
  split
  · exact .inr rfl
  · exact .inl rfl

theorem Aligned.exists_enqueued (h : Aligned enqueued slots) {bdNum : BitVec 16}
    (hmem : bdNum ∈ uncompleted slots) : ∃ bd ∈ enqueued, bd.setWidth 16 = bdNum := by
  obtain ⟨done, tail, rfl, hmatch⟩ := h
  have htail : ∃ bd ∈ tail, bd.setWidth 16 = bdNum := by
    induction hmatch with
    | nil => exact absurd hmem List.not_mem_nil
    | @cons bd slot tail slots hhead _ ih =>
      obtain ⟨found, hfound, rfl⟩ := List.mem_filterMap.mp hmem
      obtain rfl | hlater := List.mem_cons.mp hfound
      · obtain hgap | hsome := hhead
        · exact nomatch hgap
        · exact ⟨bd, List.mem_cons_self, (Option.some.inj hsome).symm⟩
      · obtain ⟨bd', hbd', hnum⟩ := ih (List.mem_filterMap.mpr ⟨_, hlater, rfl⟩)
        exact ⟨bd', List.mem_cons_of_mem _ hbd', hnum⟩
  obtain ⟨bd, hbd, hnum⟩ := htail
  exact ⟨bd, List.mem_append_right done hbd, hnum⟩

theorem Aligned.drop (h : Aligned enqueued slots) (turns : ℕ)
    (hle : turns + slots.length ≤ enqueued.length) : Aligned (enqueued.drop turns) slots := by
  obtain ⟨done, tail, rfl, hmatch⟩ := h
  have hlen := hmatch.length_eq
  rw [List.length_append] at hle
  exact ⟨done.drop turns, tail, List.drop_append_of_le_length (by omega), hmatch⟩

theorem complete_eq_nil (progress : ℕ) (slots : Slots) (h : uncompleted (complete progress slots) = []) :
    complete progress slots = [] := by
  fun_induction complete progress slots with
  | case1 progress rest ih => exact ih h
  | case2 slots hhead =>
    match slots with
    | [] => rfl
    | none :: rest => exact absurd rfl (hhead rest)
    | some bdNum :: rest => exact nomatch h
  | case3 progress => rfl
  | case4 progress bdNum rest ih => exact ih h

theorem uncompleted_length (slots : Slots) (h : none ∉ slots) : (uncompleted slots).length = slots.length := by
  induction slots with
  | nil => rfl
  | cons slot rest ih =>
    cases slot with
    | none => exact absurd List.mem_cons_self h
    | some bdNum =>
      have hrest := ih fun hmem => h (List.mem_cons_of_mem _ hmem)
      simp only [uncompleted, List.filterMap_cons, id_eq, List.length_cons] at hrest ⊢
      rw [hrest]

end Alignment

section Reuse

def watch (τ : List (Event GmioOp)) : Channel := replay Channel.step .idle τ

theorem bdNum_low_injective (channelNum : BitVec 16) (q : BitVec 8) {i j : ℕ} (hi : i < q.toNat) (hj : j < q.toNat)
    (h : (bdNum channelNum q i).setWidth 16 = (bdNum channelNum q j).setWidth 16) : i = j := by
  have hlow (k : ℕ) : (bdNum channelNum q k).setWidth 16 =
      (channelNum.signExtend 32 * q.setWidth 32).setWidth 16 + BitVec.ofNat 16 k := by
    have hsign (x : BitVec 32) : (x.signExtend 64).setWidth 16 = x.setWidth 16 := by
      apply BitVec.eq_of_getLsbD_eq
      intro b hb
      simp only [BitVec.getLsbD_setWidth, BitVec.getLsbD_signExtend, hb, decide_true, Bool.true_and,
        show b < 64 by omega, show b < 32 by omega, if_true]
    rw [bdNum, hsign, BitVec.setWidth_add _ _ (by decide), BitVec.setWidth_ofNat_of_le (by decide)]
  rw [hlow, hlow, BitVec.add_right_inj] at h
  have hq := q.isLt
  have hnat := congrArg BitVec.toNat h
  rw [BitVec.toNat_ofNat, BitVec.toNat_ofNat] at hnat
  omega

theorem Owns.hand_not_inFlight {cfg : GmioConfig} {q : BitVec 8} {s : GmioState} {slots : Slots} {bd : BitVec 64}
    (h : Owns cfg q s) (hhand : s.bdNumber = some bd) (haligned : Aligned s.enqueuedBDs slots) :
    bd.setWidth 16 ∉ uncompleted slots := by
  intro hmem
  obtain ⟨bd', hbd', hnum⟩ := haligned.exists_enqueued hmem
  have hheld : s.held = s.availableBDs ++ s.enqueuedBDs ++ [bd] := by rw [GmioState.held, hhand, Option.toList_some]
  have hnodup : s.held.Nodup := h.held_perm.nodup_iff.mpr (channelBDs_nodup _ _)
  rw [hheld] at hnodup
  have hin (x : BitVec 64) (hx : x ∈ s.held) : ∃ j < q.toNat, bdNum cfg.channelNum q j = x := by
    obtain ⟨j, hj, hjx⟩ := List.mem_map.mp (h.held_perm.mem_iff.mp hx)
    exact ⟨j, List.mem_range.mp hj, hjx⟩
  obtain ⟨i, hi, rfl⟩ := hin bd (by rw [hheld]; simp)
  obtain ⟨j, hj, rfl⟩ := hin bd' (by rw [hheld]; simp [hbd'])
  obtain rfl := bdNum_low_injective _ _ hj hi hnum
  exact List.disjoint_of_nodup_append hnodup (List.mem_append_right _ hbd') List.mem_cons_self

/-- The observer knows the call in progress, and with honest hardware and nothing disturbed, descriptors in flight
were left alone and are still enqueued. -/
def KeepsAway (op : Option GmioOp) (s : GmioState) (τ : List (Event GmioOp)) : Prop :=
  (watch τ).current = op ∧
    (Along Channel.step Honest .idle τ → Along Channel.step Undisturbed .idle τ →
      Along Channel.step LeavesInFlight .idle τ ∧ Aligned s.enqueuedBDs (watch τ).slots)

theorem KeepsAway.concat {op op' : Option GmioOp} {s s' : GmioState} {τ : List (Event GmioOp)} {e : Event GmioOp}
    (h : KeepsAway op s τ) (hcurrent : (watch τ).current = op → ((watch τ).step e).current = op')
    (hstep : (watch τ).current = op → Honest (watch τ) e → Undisturbed (watch τ) e →
      Aligned s.enqueuedBDs (watch τ).slots →
      LeavesInFlight (watch τ) e ∧ Aligned s'.enqueuedBDs ((watch τ).step e).slots) :
    KeepsAway op' s' (τ ++ [e]) := by
  obtain ⟨hop, hkeeps⟩ := h
  have hwatch : watch (τ ++ [e]) = (watch τ).step e := replay_concat _ _ _ _
  refine ⟨by rw [hwatch, hcurrent hop], ?_⟩
  rw [hwatch, along_concat, along_concat, along_concat]
  rintro ⟨hhonest, hhonest'⟩ ⟨hundisturbed, hundisturbed'⟩
  obtain ⟨hleaves, haligned⟩ := hkeeps hhonest hundisturbed
  obtain ⟨hleaves', haligned'⟩ := hstep hop hhonest' hundisturbed' haligned
  exact ⟨⟨hleaves, hleaves'⟩, haligned'⟩

theorem aligned_of_idle {channel : Channel} {answer : DriverAnswer} (h : channel.inFlight answer = [])
    (enqueued : List (BitVec 64)) : Aligned enqueued (complete answer.progress channel.slots) := by
  rw [complete_eq_nil _ _ h]
  exact aligned_nil enqueued

theorem keepsAway_refill {cfg : GmioConfig} {q : BitVec 8} (op : Option GmioOp) (answer : DriverAnswer)
    (loc : TileLoc) (chNum : BitVec 8) (dir : DmaDirection) (s : GmioState) (τ : List (Event GmioOp))
    (howns : Owns cfg q s) (havailable : s.availableBDs = []) (hhand : s.bdNumber = none) (h : KeepsAway op s τ) :
    KeepsAway op (s.movedBack (numBDCompleted q (answer.value.setWidth 8)))
      (τ ++ [.driver (.dmaGetPendingBdCount loc chNum dir) answer]) := by
  refine h.concat id fun _ hhonest hundisturbed haligned => ⟨trivial, ?_⟩
  obtain hidle | ⟨hok, hgaps⟩ := hundisturbed
  · exact aligned_of_idle hidle _
  · have hcompleted := haligned.complete answer.progress
    refine hcompleted.drop _ ?_
    obtain ⟨done, tail, henqueued, hmatch⟩ := hcompleted
    have htail : (complete answer.progress (watch τ).slots).length ≤ s.enqueuedBDs.length := by
      rw [henqueued, List.length_append, ← hmatch.length_eq]
      exact Nat.le_add_left _ _
    have hcount := hhonest hok
    rw [Channel.inFlight, uncompleted_length _ hgaps] at hcount
    rw [numBDCompleted_eq, hcount, howns.enqueued_length havailable hhand]
    rw [howns.enqueued_length havailable hhand] at htail
    omega

theorem keepsAway_waitDone (syncmode : Bool) (answer : DriverAnswer) (loc : TileLoc) (chNum : BitVec 8)
    (dir : DmaDirection) (s : GmioState) (τ : List (Event GmioOp)) (hsync : syncmode = true → answer.rc = xaieOk)
    (h : KeepsAway (some (.wait syncmode)) s τ) :
    KeepsAway (some (.wait syncmode)) (s.movedBack s.enqueuedBDs.length)
      (τ ++ [.driver (.dmaWaitForDone loc chNum dir) answer]) := by
  refine h.concat id fun hop hhonest hundisturbed _ => ⟨trivial, aligned_of_idle ?_ _⟩
  cases syncmode with
  | true => exact hhonest (hsync rfl)
  | false =>
    obtain hidle | hok := hundisturbed hop
    · exact hidle
    · exact hhonest hok

theorem stepClosed_keepsAway (cfg : GmioConfig) (q : BitVec 8) : StepClosed cfg q KeepsAway where
  enter _ _ _ h := h.concat (fun _ => rfl) fun _ _ _ haligned => ⟨trivial, haligned⟩
  leave _ _ _ _ h := h.concat (fun _ => rfl) fun _ _ _ haligned => ⟨trivial, haligned⟩
  refill := keepsAway_refill
  take _ _ _ _ _ _ _ _ h := h
  setAddrLen _ _ _ _ _ _ h := h.concat id fun _ _ _ haligned => ⟨trivial, haligned.complete _⟩
  setLock _ _ _ _ _ _ h := h.concat id fun _ _ _ haligned => ⟨trivial, haligned.complete _⟩
  enableBd _ _ _ _ h := h.concat id fun _ _ _ haligned => ⟨trivial, haligned.complete _⟩
  writeBd _ _ _ _ _ _ howns hhand h := h.concat id fun _ _ _ haligned =>
    ⟨howns.hand_not_inFlight hhand (haligned.complete _), haligned.complete _⟩
  push _ answer _ _ _ bd _ _ howns hhand h := h.concat id fun _ _ _ haligned =>
    ⟨howns.hand_not_inFlight hhand (haligned.complete _), (haligned.complete _).concat bd (answer.rc = xaieOk)⟩
  waitRetry _ _ _ _ _ _ _ h := h.concat id fun _ _ _ haligned => ⟨trivial, haligned.complete _⟩
  waitDone syncmode answer loc chNum dir s τ hsync _ h :=
    keepsAway_waitDone syncmode answer loc chNum dir s τ hsync h

theorem KeepsAway.setup {τ τ' : List (Event GmioOp)} (h : KeepsAway none .fresh τ)
    (hsetup : Relation.ReflTransGen SetupStep τ τ') : KeepsAway none .fresh τ' := by
  induction hsetup with
  | refl => exact h
  | tail _ hstep ih =>
    obtain ⟨call, answer, hcall, rfl⟩ := hstep
    cases call <;> first
      | exact ih.concat id fun _ _ _ haligned => ⟨trivial, haligned.complete _⟩
      | exact absurd hcall Bool.false_ne_true

theorem KeepsAway.of_fresh {op : Option GmioOp} {τ : List (Event GmioOp)} (h : KeepsAway op .fresh τ)
    (s : GmioState) : KeepsAway op s τ := by
  refine ⟨h.1, fun hhonest hundisturbed => ?_⟩
  obtain ⟨hleaves, done, tail, hnil, hmatch⟩ := h.2 hhonest hundisturbed
  obtain rfl : tail = [] := (List.append_eq_nil_iff.mp hnil.symm).2
  rw [List.forall₂_nil_left_iff.mp hmatch]
  exact ⟨hleaves, aligned_nil _⟩

end Reuse

/-- In every run with honest hardware in which nothing disturbs the API, at every moment no
descriptor in flight was written or pushed. -/
theorem gmioCalls_leave_inFlight (pGMIOConfig : Option GmioConfig) (mgr : ConfigManager)
    (w₀ w₁ : World (Event GmioOp) DriverAnswer GmioState) (hfresh : w₀.state = .fresh) (hstart : w₀.trace = [])
    (hconfigure : configure pGMIOConfig w₀ = (.returned .ok, w₁)) (ops : List GmioOp) (script : List DriverAnswer)
    (hhonest : Along Channel.step Honest .idle (gmioCalls pGMIOConfig mgr ops { w₁ with script }).2.trace)
    (hundisturbed : Along Channel.step Undisturbed .idle
      (gmioCalls pGMIOConfig mgr ops { w₁ with script }).2.trace) :
    Along Channel.step LeavesInFlight .idle (gmioCalls pGMIOConfig mgr ops { w₁ with script }).2.trace := by
  have hidle : KeepsAway none .fresh w₀.trace := by
    rw [hstart]
    exact ⟨rfl, fun _ _ => ⟨trivial, aligned_nil _⟩⟩
  obtain ⟨cfg, rfl, howns, hhand, hsetup⟩ := exists_of_configure_ok hfresh hconfigure
  have hmeets := triple_gmioCalls (stepClosed_keepsAway cfg w₁.state.dmaStartQMaxSize) mgr ops
    { w₁ with script } ⟨howns, hhand, (hidle.setup hsetup).of_fresh _⟩
  revert hmeets hhonest hundisturbed
  rcases gmioCalls (some cfg) mgr ops { w₁ with script } with ⟨outcome, w⟩
  intro hhonest hundisturbed hmeets
  cases outcome with
  | returned codes => exact (hmeets.2.2.2 hhonest hundisturbed).1
  | blocked =>
    obtain ⟨op, hand, -, -, hinside⟩ := hmeets
    exact (hinside.2 hhonest hundisturbed).1
  | fault => exact hmeets.elim

/-- An enqueue, a non-blocking wait that finds the channel busy, and an enqueue. -/
def busyCalls : List GmioOp := [.enqueueBD 0x1000 64, .wait false, .enqueueBD 0x2000 64]

/-- The channel stays busy. -/
def busyScript : List DriverAnswer :=
  List.replicate 5 (okAnswer 0) ++ [{ okAnswer 0 with rc := 1 }] ++ List.replicate 5 (okAnswer 0)

/-- The sample after the three calls on a busy channel. -/
def busyWorld : GmioWorld :=
  (gmioCalls (some sampleConfig) ⟨2, 0, false⟩ busyCalls
    { (configure (some sampleConfig) sampleWorld).2 with script := busyScript }).2

/-- With honest hardware the second enqueue rewrites a descriptor in flight. -/
theorem busyWorld_rewrites_inFlight :
    Along Channel.step Honest .idle busyWorld.trace ∧
    ¬ Along Channel.step LeavesInFlight .idle busyWorld.trace := by
  decide +kernel

/-- The channel has finished when the wait asks. -/
def promptScript : List DriverAnswer :=
  List.replicate 5 (okAnswer 0) ++ [{ okAnswer 0 with progress := 1 }] ++ List.replicate 5 (okAnswer 0)

/-- The sample after the three calls on a prompt channel. -/
def promptWorld : GmioWorld :=
  (gmioCalls (some sampleConfig) ⟨2, 0, false⟩ busyCalls
    { (configure (some sampleConfig) sampleWorld).2 with script := promptScript }).2

/-- On the prompt channel descriptors in flight are left alone. -/
theorem gmioCalls_leave_inFlight_prompt :
    Along Channel.step Honest .idle promptWorld.trace ∧ Along Channel.step Undisturbed .idle promptWorld.trace ∧
      Along Channel.step LeavesInFlight .idle promptWorld.trace :=
  ⟨by decide +kernel, by decide +kernel,
    gmioCalls_leave_inFlight (some sampleConfig) ⟨2, 0, false⟩ sampleWorld
      (configure (some sampleConfig) sampleWorld).2 rfl rfl configure_sampleWorld busyCalls promptScript
      (by decide +kernel) (by decide +kernel)⟩

end AieBaremetal.Gmio
