import AieBaremetal.Common.Subprogram
import AieBaremetal.Gmio.Descriptors

/-!
# The order in which descriptors are handed out

An object takes descriptors from the front of one queue and puts them back in the order in which they
were enqueued, so it goes round its channel's descriptors: after `k` others it hands out number `k`
modulo the queue size. The enqueued ones are the last ones handed out; how many they are depends on
the driver.
-/

namespace AieBaremetal.Gmio

open Common Common.Program AieBaremetal.Runtime

/-- The descriptor an object hands out after `k` others. -/
def descriptorAt (cfg : GmioConfig) (q : BitVec 8) (k : ℕ) : BitVec 64 := bdNum cfg.channelNum q (k % q.toNat)

/-- The descriptors handed out after `k` others until the first one comes again. -/
def round (cfg : GmioConfig) (q : BitVec 8) (k : ℕ) : List (BitVec 64) :=
  (List.range q.toNat).map fun i => descriptorAt cfg q (k + i)

/-- The driver call that hands a descriptor to the hardware. -/
def isPush : DriverCall → Bool
  | .dmaChannelPushBdToQueue _ _ _ _ => true
  | _ => false

/-- How many descriptors were handed to the hardware. -/
def pushes (τ : List (Event GmioOp)) : ℕ :=
  τ.countP fun
    | .driver call _ => isPush call
    | _ => false

/-- After `k` descriptors were handed out, those in hand, available and enqueued make up the next round. -/
structure Rotated (cfg : GmioConfig) (q : BitVec 8) (k : ℕ) (s : GmioState) : Prop where
  enqueued_le : s.enqueuedBDs.length ≤ k
  held_eq : s.bdNumber.toList ++ s.availableBDs ++ s.enqueuedBDs = round cfg q k

section Rounds

variable {cfg : GmioConfig} {q : BitVec 8} {k : ℕ} {s : GmioState}

theorem descriptorAt_add (j : ℕ) : descriptorAt cfg q (j + q.toNat) = descriptorAt cfg q j := by
  rw [descriptorAt, Nat.add_mod_right, descriptorAt]

theorem round_length (k : ℕ) : (round cfg q k).length = q.toNat := by
  rw [round, List.length_map, List.length_range]

theorem getElem?_round {i : ℕ} (hi : i < q.toNat) (k : ℕ) :
    (round cfg q k)[i]? = some (descriptorAt cfg q (k + i)) := by
  rw [round, List.getElem?_map, List.getElem?_range hi, Option.map_some]

theorem round_succ {bd : BitVec 64} {rest : List (BitVec 64)} (h : bd :: rest = round cfg q k) :
    rest ++ [bd] = round cfg q (k + 1) := by
  have hlength : rest.length + 1 = q.toNat := by
    rw [← @round_length cfg q k, ← h, List.length_cons]
  have hnext (i : ℕ) (hi : i < rest.length) : rest[i]? = some (descriptorAt cfg q (k + 1 + i)) := by
    rw [← @List.getElem?_cons_succ _ bd, h, getElem?_round (by omega), Nat.add_assoc, Nat.add_comm 1 i]
  refine List.ext_getElem? fun i => ?_
  rcases Nat.lt_trichotomy i rest.length with hlt | rfl | hgt
  · rw [List.getElem?_append_left hlt, hnext i hlt, getElem?_round (by omega)]
  · have hfirst : (round cfg q k)[0]? = some bd := by rw [← h, List.getElem?_cons_zero]
    rw [getElem?_round (by omega)] at hfirst
    rw [List.getElem?_concat_length, ← hfirst, getElem?_round (by omega), Nat.add_zero, Nat.add_assoc,
      Nat.add_comm 1, hlength, descriptorAt_add]
  · rw [List.getElem?_eq_none (by simp; omega), List.getElem?_eq_none (by rw [round_length]; omega)]

theorem Rotated.mem_enqueued_iff (h : Rotated cfg q k s) (bd : BitVec 64) :
    bd ∈ s.enqueuedBDs ↔ ∃ j, k ≤ j + s.enqueuedBDs.length ∧ j < k ∧ descriptorAt cfg q j = bd := by
  have hle := h.enqueued_le
  have hlength := congrArg List.length h.held_eq
  rw [round_length, List.length_append] at hlength
  -- entry `i` of the enqueued ones is the descriptor a round before it comes up again
  have hget (i : ℕ) (hi : i < s.enqueuedBDs.length) :
      s.enqueuedBDs[i]? = some (descriptorAt cfg q (k - s.enqueuedBDs.length + i)) := by
    have hround := @getElem?_round cfg q ((s.bdNumber.toList ++ s.availableBDs).length + i) (by omega) k
    rw [← h.held_eq, List.getElem?_append_right (Nat.le_add_right _ _), Nat.add_sub_cancel_left] at hround
    rw [hround, ← descriptorAt_add (k - _ + i)]
    congr 2
    omega
  constructor
  · intro hmem
    obtain ⟨i, hi, rfl⟩ := List.mem_iff_getElem.mp hmem
    have hval := hget i hi
    rw [List.getElem?_eq_getElem hi] at hval
    exact ⟨k - s.enqueuedBDs.length + i, by omega, by omega, (Option.some.inj hval).symm⟩
  · rintro ⟨j, hlow, hhigh, rfl⟩
    have hval := hget (j - (k - s.enqueuedBDs.length)) (by omega)
    rw [Nat.add_sub_cancel' (by omega)] at hval
    exact List.mem_of_getElem? hval

theorem Rotated.queue_pos (h : Rotated cfg q k s) {bd : BitVec 64} (hhand : s.bdNumber = some bd) :
    0 < q.toNat := by
  rw [← @round_length cfg q k, ← h.held_eq, hhand]
  exact Nat.zero_lt_succ _

theorem Rotated.queue_pos_of_lt (h : Rotated cfg q k s) {j : ℕ}
    (hlow : k ≤ j + s.enqueuedBDs.length) (hhigh : j < k) :
    0 < q.toNat := by
  rw [← @round_length cfg q k, ← h.held_eq, List.length_append]
  omega

theorem Rotated.hand_eq (h : Rotated cfg q k s) {bd : BitVec 64} (hhand : s.bdNumber = some bd) :
    bd = descriptorAt cfg q k := by
  have hfirst := @getElem?_round cfg q 0 (h.queue_pos hhand) k
  rw [← h.held_eq, hhand] at hfirst
  exact Option.some.inj hfirst

theorem rotated_configured (henqueued : s.enqueuedBDs = []) (hhand : s.bdNumber = none)
    (havailable : s.availableBDs = channelBDs cfg.channelNum q) : Rotated cfg q 0 s where
  enqueued_le := by rw [henqueued, List.length_nil]
  held_eq := by
    rw [henqueued, hhand, havailable, Option.toList_none, List.nil_append, List.append_nil, channelBDs, round]
    refine List.map_congr_left fun i hi => ?_
    rw [descriptorAt, Nat.zero_add, Nat.mod_eq_of_lt (List.mem_range.mp hi)]

theorem Rotated.movedBack (h : Rotated cfg q k s) (turns : ℕ) : Rotated cfg q k (s.movedBack turns) where
  enqueued_le := by
    have hle := h.enqueued_le
    simp only [GmioState.movedBack, List.length_drop]
    omega
  held_eq := by
    rw [← h.held_eq]
    simp only [GmioState.movedBack, List.append_assoc, List.take_append_drop]

theorem Rotated.taken (h : Rotated cfg q k s) {bd : BitVec 64} {rest : List (BitVec 64)}
    (havailable : s.availableBDs = bd :: rest) (hhand : s.bdNumber = none) : Rotated cfg q k (s.taken bd rest) where
  enqueued_le := h.enqueued_le
  held_eq := by
    rw [← h.held_eq, havailable, hhand]
    rfl

theorem Rotated.pushed (h : Rotated cfg q k s) {bd : BitVec 64} (hhand : s.bdNumber = some bd) :
    Rotated cfg q (k + 1) (s.pushed bd) where
  enqueued_le := by
    have hle := h.enqueued_le
    simp only [GmioState.pushed, List.length_append, List.length_singleton]
    omega
  held_eq := by
    have hheld := h.held_eq
    rw [hhand, Option.toList_some, List.append_assoc, List.singleton_append] at hheld
    rw [← round_succ hheld]
    simp only [GmioState.pushed, Option.toList_none, List.nil_append, List.append_assoc]

theorem pushes_concat {call : DriverCall} (hcall : isPush call = false) (τ : List (Event GmioOp))
    (answer : DriverAnswer) :
    pushes (τ ++ [.driver call answer]) = pushes τ := by
  simp [pushes, hcall]

theorem stepClosed_rotated (cfg : GmioConfig) (q : BitVec 8) (k : ℕ) :
    StepClosed cfg q fun _ s τ => Rotated cfg q (k + pushes τ) s where
  enter op s τ h := by simpa [pushes] using h
  leave op code s τ h := by simpa [pushes] using h
  refill op answer loc chNum dir s τ _ _ _ h := by
    rw [pushes_concat rfl]
    exact h.movedBack _
  take op bd rest s τ _ havailable hhand h := h.taken havailable hhand
  setAddrLen op answer addr len s τ h := by rwa [pushes_concat rfl]
  setLock op answer acq rel s τ h := by rwa [pushes_concat rfl]
  enableBd op answer s τ h := by rwa [pushes_concat rfl]
  writeBd op answer loc bd s τ _ _ h := by rwa [pushes_concat rfl]
  push op answer loc chNum dir bd s τ _ hhand h := by
    have hcount : pushes (τ ++ [.driver (.dmaChannelPushBdToQueue loc chNum dir (bd.setWidth 16)) answer]) =
        pushes τ + 1 := by simp [pushes, isPush]
    rw [hcount, ← Nat.add_assoc]
    exact h.pushed hhand
  waitRetry answer loc chNum dir s τ _ h := by rwa [pushes_concat rfl]
  waitDone syncmode answer loc chNum dir s τ _ _ h := by
    rw [pushes_concat rfl]
    exact h.movedBack _

end Rounds

section Methods

variable {cfg : GmioConfig} {k : ℕ}

structure Unused (s : GmioState) : Prop where
  isConfigured : s.isConfigured = false
  enqueuedBDs : s.enqueuedBDs = []
  bdNumber : s.bdNumber = none

/-- An object that has handed out `k` descriptors. -/
def Counted (cfg : GmioConfig) (k : ℕ) (s : GmioState) : Prop :=
  (k = 0 ∧ Unused s) ∨ Owns cfg s.dmaStartQMaxSize s ∧ Rotated cfg s.dmaStartQMaxSize k s

/-- An object in a call, with `k` descriptors handed out in front of the trace. -/
def Busy (cfg : GmioConfig) (k : ℕ) (w : GmioWorld) : Prop :=
  Counted cfg (k + pushes w.trace) w.state

def Resting (cfg : GmioConfig) (k : ℕ) (w : GmioWorld) : Prop :=
  Busy cfg k w ∧ w.state.bdNumber = none

theorem leaves_method {method : GmioProgram ErrCode} (op : GmioOp)
    (hmethod : ∀ q, Moves cfg q (fun _ s τ => Rotated cfg q (k + pushes τ) s) op none method none)
    (hrefuse : ∀ w, w.state.isConfigured = false → method w = (.returned .internalError, w)) :
    Leaves (Resting cfg k) method (fun _ => Resting cfg k) (Busy cfg k) := by
  have hbusy {q : BitVec 8} {w : GmioWorld} (howns : Owns cfg q w.state)
      (hrotated : Rotated cfg q (k + pushes w.trace) w.state) : Busy cfg k w := by
    obtain rfl := howns.queueSize
    exact Or.inr ⟨howns, hrotated⟩
  rintro w ⟨⟨hcount, hunused⟩ | ⟨howns, hrotated⟩, hhand⟩
  · rw [hrefuse w hunused.isConfigured]
    exact ⟨Or.inl ⟨hcount, hunused⟩, hhand⟩
  · refine ((hmethod w.state.dmaStartQMaxSize).leaves.consequence (fun _ h => h) ?_ ?_) w ⟨howns, hhand, hrotated⟩
    · exact fun _ _ h => ⟨hbusy h.1 h.2.2, h.2.1⟩
    · rintro _ ⟨_, _, howns', -, hrotated'⟩
      exact hbusy howns' hrotated'

theorem leaves_enqueueBD (mgr : ConfigManager) (address size : BitVec 64) :
    Leaves (Resting cfg k) (enqueueBD (some cfg) mgr address size) (fun _ => Resting cfg k) (Busy cfg k) := by
  refine leaves_method (.enqueueBD address size)
    (fun q => triple_enqueueBD (stepClosed_rotated cfg q k) mgr address size) ?_
  intro w hw
  simp only [enqueueBD, getState_bind, hw]
  rfl

theorem leaves_wait (syncmode : Bool) :
    Leaves (Resting cfg k) (wait (some cfg) syncmode) (fun _ => Resting cfg k) (Busy cfg k) := by
  refine leaves_method (.wait syncmode) (fun q => triple_wait (stepClosed_rotated cfg q k) syncmode) ?_
  intro w hw
  simp only [wait, getState_bind, hw]
  rfl

theorem pushes_setup {τ τ' : List (Event GmioOp)} (hsetup : Relation.ReflTransGen SetupStep τ τ') :
    pushes τ' = pushes τ := by
  induction hsetup with
  | refl => rfl
  | tail _ hstep ih =>
    obtain ⟨call, answer, hcall, rfl⟩ := hstep
    cases call <;> first | exact (pushes_concat rfl _ answer).trans ih | exact absurd hcall Bool.false_ne_true

theorem Preparing.resting {w : GmioWorld} (h : Preparing cfg [] w) : Resting cfg 0 w := by
  obtain ⟨_, _, _, _, h⟩ := h
  refine ⟨Or.inl ⟨?_, h.isConfigured, h.enqueuedBDs, h.bdNumber⟩, h.bdNumber⟩
  rw [pushes_setup h.trace]
  rfl

theorem leaves_configure :
    Leaves (fun w => w.state = .fresh ∧ w.trace = []) (configure (some cfg)) (fun _ => Resting cfg 0)
      (Busy cfg 0) := by
  refine (triple_configure cfg []).leaves.consequence (fun _ h => h) (fun code w h => ?_) fun _ h => h.resting.1
  rw [ConfigureEnds] at h
  split at h
  · obtain ⟨w', h, hw⟩ := h
    have hpushes : pushes w.trace = 0 := by
      rw [hw]
      exact pushes_setup h.trace
    rw [Resting, Busy, Counted, hpushes]
    generalize w.state.dmaStartQMaxSize = q at h ⊢
    subst hw
    exact ⟨Or.inr ⟨h.owns, rotated_configured h.enqueuedBDs h.bdNumber h.availableBDs⟩, h.bdNumber⟩
  · exact h.resting

/-- The descriptors of a new object go round in one order: those in hand, free and enqueued are the channel's list
turned by the number of pushes, whatever `configure` and the driver answer. -/
theorem gmioMethods_rotate (mgr : ConfigManager) (ops : List GmioOp) :
    Leaves (fun w => w.state = .fresh ∧ w.trace = [])
      (configure (some cfg) >>= fun _ => runAll (gmioMethod (some cfg) mgr) ops)
      (fun _ => Resting cfg 0) (Busy cfg 0) := by
  refine leaves_configure.bind fun _ => leaves_runAll _ fun op _ => ?_
  cases op with
  | enqueueBD address size => exact leaves_enqueueBD mgr address size
  | wait syncmode => exact leaves_wait syncmode

end Methods

end AieBaremetal.Gmio
