import AieBaremetal.Gmio.Api
import Mathlib.Data.List.Perm.Basic
import Mathlib.Data.List.Nodup
import Mathlib.Data.List.Range
import Mathlib.Logic.Relation
import Mathlib.Tactic.Linarith

/-!
# Descriptors are neither lost nor duplicated

Whatever the driver answers, the two queues and the descriptor in the hand of `enqueueBD` together hold
exactly the descriptors of the channel. The refill loop runs only when nothing is available, so its
bound, at most the queue size, never takes more than there are. `StepClosed` lists what an invariant
has to survive next to this ownership, one field for each thing a call can do.
-/

namespace AieBaremetal.Gmio

open Common Common.Program AieBaremetal.Runtime

/-- The descriptor numbers `channel * Q, ..., channel * Q + Q - 1`. -/
def descriptors (channelNum : BitVec 16) (q : BitVec 8) : List ℤ :=
  (List.range q.toNat).map fun j : ℕ => channelNum.toInt * q.toNat + (j : ℤ)

/-- The descriptors `configure` makes available. -/
def channelBDs (channelNum : BitVec 16) (q : BitVec 8) : List (BitVec 64) :=
  (List.range q.toNat).map (bdNum channelNum q)

def GmioState.held (s : GmioState) : List (BitVec 64) := s.availableBDs ++ s.enqueuedBDs ++ s.bdNumber.toList

/-- A configured object that holds exactly its channel's descriptors. -/
structure Owns (cfg : GmioConfig) (q : BitVec 8) (s : GmioState) : Prop where
  configured : s.isConfigured = true
  queueSize : s.dmaStartQMaxSize = q
  held_perm : s.held.Perm (channelBDs cfg.channelNum q)

section Numbers

variable (channelNum : BitVec 16) (q : BitVec 8)

theorem bdNum_toInt (j : ℕ) (hj : j < q.toNat) :
    (bdNum channelNum q j).toInt = channelNum.toInt * q.toNat + (j : ℤ) := by
  have hq := q.isLt
  have hlow := BitVec.le_toInt channelNum
  have hhigh := @BitVec.toInt_lt 16 channelNum
  have hchannel : (channelNum.signExtend 32).toInt = channelNum.toInt :=
    BitVec.toInt_signExtend_of_le (by decide)
  have hsize : (q.setWidth 32).toInt = q.toNat := by
    rw [BitVec.toInt_eq_toNat_of_lt] <;> rw [BitVec.toNat_setWidth] <;> omega
  have hindex : (BitVec.ofNat 32 j).toInt = j := by
    rw [BitVec.toInt_eq_toNat_of_lt] <;> rw [BitVec.toNat_ofNat] <;> omega
  have hprod : -(32768 * 255) ≤ channelNum.toInt * q.toNat ∧ channelNum.toInt * q.toNat ≤ 32768 * 255 := by
    have hpos : (0 : ℤ) ≤ q.toNat := Int.natCast_nonneg _
    have hsmall : (q.toNat : ℤ) ≤ 255 := by omega
    norm_num at hlow hhigh
    constructor <;> nlinarith
  rw [bdNum, BitVec.toInt_signExtend_of_le (by decide), BitVec.toInt_add, BitVec.toInt_mul, hchannel, hsize,
    hindex, Int.bmod_eq_of_le (n := channelNum.toInt * q.toNat) (by omega) (by omega),
    Int.bmod_eq_of_le (by omega) (by omega)]

theorem channelBDs_map_toInt : (channelBDs channelNum q).map BitVec.toInt = descriptors channelNum q := by
  rw [channelBDs, descriptors, List.map_map]
  apply List.map_congr_left
  intro j hj
  exact bdNum_toInt channelNum q j (List.mem_range.mp hj)

theorem descriptors_nodup : (descriptors channelNum q).Nodup := by
  refine List.Nodup.map ?_ List.nodup_range
  intro i j hij
  simpa using hij

theorem channelBDs_nodup : (channelBDs channelNum q).Nodup := by
  apply List.Nodup.of_map BitVec.toInt
  rw [channelBDs_map_toInt]
  exact descriptors_nodup channelNum q

theorem descriptors_disjoint {channelNum channelNum' : BitVec 16} (hne : channelNum ≠ channelNum') :
    (descriptors channelNum q).Disjoint (descriptors channelNum' q) := by
  intro n hn hn'
  obtain ⟨j, hj, rfl⟩ := List.mem_map.mp hn
  obtain ⟨j', hj', heq⟩ := List.mem_map.mp hn'
  rw [List.mem_range] at hj hj'
  have hquot (channel : ℤ) (i : ℕ) (hi : i < q.toNat) : (channel * q.toNat + (i : ℤ)) / q.toNat = channel := by
    rw [Int.add_comm, Int.add_mul_ediv_right _ _ (by omega), Int.ediv_eq_zero_of_lt (by omega) (by omega), zero_add]
  apply hne
  apply BitVec.eq_of_toInt_eq
  rw [← hquot channelNum.toInt j hj, ← heq, hquot channelNum'.toInt j' hj']

end Numbers

section Queues

def GmioState.movedBack (s : GmioState) (turns : ℕ) : GmioState :=
  { s with enqueuedBDs := s.enqueuedBDs.drop turns
           availableBDs := s.availableBDs ++ s.enqueuedBDs.take turns }

/-- The state after `enqueueBD` took a descriptor. -/
def GmioState.taken (s : GmioState) (bd : BitVec 64) (rest : List (BitVec 64)) : GmioState :=
  { s with availableBDs := rest, bdNumber := some bd }

/-- The state after `enqueueBD` pushed its descriptor. -/
def GmioState.pushed (s : GmioState) (bd : BitVec 64) : GmioState :=
  { s with enqueuedBDs := s.enqueuedBDs ++ [bd], bdNumber := none }

theorem moveBack_eq (turns : ℕ) (s : GmioState) (hle : turns ≤ s.enqueuedBDs.length) :
    moveBack turns s = some (s.movedBack turns) := by
  induction turns generalizing s with
  | zero => simp [moveBack, GmioState.movedBack]
  | succ turns ih =>
    obtain ⟨bd, rest, hs⟩ := List.exists_cons_of_length_pos (Nat.lt_of_lt_of_le (Nat.succ_pos _) hle)
    rw [hs] at hle
    simp only [moveBack, frontAndPop, hs]
    rw [ih _ (by simpa using hle)]
    simp [GmioState.movedBack, hs]

theorem numBDCompleted_eq (q pending : BitVec 8) : numBDCompleted q pending = q.toNat - pending.toNat := by
  have hq := q.isLt
  have hpending := pending.isLt
  rw [numBDCompleted, BitVec.toInt_sub, BitVec.toInt_eq_toNat_of_lt, BitVec.toInt_eq_toNat_of_lt,
    Int.bmod_eq_of_le] <;> simp only [BitVec.toNat_setWidth] <;> omega

theorem numBDCompleted_le (q pending : BitVec 8) : numBDCompleted q pending ≤ q.toNat := by
  rw [numBDCompleted_eq]
  omega

variable {cfg : GmioConfig} {q : BitVec 8} {s : GmioState}

theorem Owns.movedBack (h : Owns cfg q s) (turns : ℕ) : Owns cfg q (s.movedBack turns) where
  configured := h.configured
  queueSize := h.queueSize
  held_perm := by
    have hheld : (s.movedBack turns).held = s.held := by
      simp only [GmioState.held, GmioState.movedBack]
      rw [List.append_assoc s.availableBDs, List.take_append_drop]
    rw [hheld]
    exact h.held_perm

theorem Owns.taken (h : Owns cfg q s) {bd : BitVec 64} {rest : List (BitVec 64)}
    (havailable : s.availableBDs = bd :: rest) (hhand : s.bdNumber = none) : Owns cfg q (s.taken bd rest) where
  configured := h.configured
  queueSize := h.queueSize
  held_perm := by
    refine List.Perm.trans ?_ h.held_perm
    simp only [GmioState.held, GmioState.taken, havailable, hhand, Option.toList_some, Option.toList_none,
      List.append_nil, List.cons_append]
    exact List.perm_append_singleton bd (rest ++ s.enqueuedBDs)

theorem Owns.pushed (h : Owns cfg q s) {bd : BitVec 64} (hhand : s.bdNumber = some bd) :
    Owns cfg q (s.pushed bd) where
  configured := h.configured
  queueSize := h.queueSize
  held_perm := by
    have hheld : (s.pushed bd).held = s.held := by
      simp only [GmioState.held, GmioState.pushed, hhand, Option.toList_some, Option.toList_none,
        List.append_nil, List.append_assoc]
    rw [hheld]
    exact h.held_perm

theorem Owns.enqueued_length (h : Owns cfg q s) (havailable : s.availableBDs = []) (hhand : s.bdNumber = none) :
    s.enqueuedBDs.length = q.toNat := by
  have hlen := h.held_perm.length_eq
  rwa [GmioState.held, havailable, hhand, Option.toList_none, List.nil_append, List.append_nil, channelBDs,
    List.length_map, List.length_range] at hlen

theorem refillTurn_eq (h : Owns cfg q s) (havailable : s.availableBDs = []) (hhand : s.bdNumber = none)
    (driverStatus : BitVec 32) (answer : DriverAnswer) :
    refillTurn driverStatus answer s =
      some (driverStatus ||| answer.rc, s.movedBack (numBDCompleted q (answer.value.setWidth 8))) := by
  have hle : numBDCompleted q (answer.value.setWidth 8) ≤ s.enqueuedBDs.length := by
    rw [h.enqueued_length havailable hhand]
    exact numBDCompleted_le q _
  rw [refillTurn, h.queueSize, moveBack_eq _ s hle, Option.map_some]

end Queues

section Runs

/-- What an invariant of object and trace has to survive in a call. -/
structure StepClosed (cfg : GmioConfig) (q : BitVec 8)
    (inv : Option GmioOp → GmioState → List (Event GmioOp) → Prop) : Prop where
  enter : ∀ op s τ, inv none s τ → inv (some op) s (τ ++ [.enter op])
  leave : ∀ op code s τ, inv (some op) s τ → inv none s (τ ++ [.leave code])
  refill : ∀ op answer loc chNum dir s τ, Owns cfg q s → s.availableBDs = [] → s.bdNumber = none → inv op s τ →
    inv op (s.movedBack (numBDCompleted q (answer.value.setWidth 8)))
      (τ ++ [.driver (.dmaGetPendingBdCount loc chNum dir) answer])
  take : ∀ op bd rest s τ, Owns cfg q s → s.availableBDs = bd :: rest → s.bdNumber = none → inv op s τ →
    inv op (s.taken bd rest) τ
  setAddrLen : ∀ op answer addr len s τ, inv op s τ → inv op s (τ ++ [.driver (.dmaSetAddrLen addr len) answer])
  setLock : ∀ op answer acq rel s τ, inv op s τ → inv op s (τ ++ [.driver (.dmaSetLock acq rel) answer])
  enableBd : ∀ op answer s τ, inv op s τ → inv op s (τ ++ [.driver .dmaEnableBd answer])
  writeBd : ∀ op answer loc bd s τ, Owns cfg q s → s.bdNumber = some bd → inv op s τ →
    inv op s (τ ++ [.driver (.dmaWriteBd loc (bd.setWidth 16)) answer])
  push : ∀ op answer loc chNum dir bd s τ, Owns cfg q s → s.bdNumber = some bd → inv op s τ →
    inv op (s.pushed bd) (τ ++ [.driver (.dmaChannelPushBdToQueue loc chNum dir (bd.setWidth 16)) answer])
  waitRetry : ∀ answer loc chNum dir s τ, answer.rc ≠ xaieOk → inv (some (.wait true)) s τ →
    inv (some (.wait true)) s (τ ++ [.driver (.dmaWaitForDone loc chNum dir) answer])
  waitDone : ∀ syncmode answer loc chNum dir s τ, (syncmode = true → answer.rc = xaieOk) → Owns cfg q s →
    inv (some (.wait syncmode)) s τ →
    inv (some (.wait syncmode)) (s.movedBack s.enqueuedBDs.length)
      (τ ++ [.driver (.dmaWaitForDone loc chNum dir) answer])

variable {cfg : GmioConfig} {q : BitVec 8} {inv : Option GmioOp → GmioState → List (Event GmioOp) → Prop}
    {op : GmioOp}

/-- The object between two driver calls of a call in progress. -/
def Inside (cfg : GmioConfig) (q : BitVec 8) (inv : Option GmioOp → GmioState → List (Event GmioOp) → Prop)
    (op : GmioOp) (hand : Option (BitVec 64)) (w : GmioWorld) : Prop :=
  Owns cfg q w.state ∧ w.state.bdNumber = hand ∧ inv (some op) w.state w.trace

/-- The object while a call waits for the driver. -/
def Waiting (cfg : GmioConfig) (q : BitVec 8) (inv : Option GmioOp → GmioState → List (Event GmioOp) → Prop)
    (w : GmioWorld) : Prop :=
  ∃ op hand, Inside cfg q inv op hand w

def Between (cfg : GmioConfig) (q : BitVec 8) (inv : Option GmioOp → GmioState → List (Event GmioOp) → Prop)
    (w : GmioWorld) : Prop :=
  Owns cfg q w.state ∧ w.state.bdNumber = none ∧ inv none w.state w.trace

/-- Part of a call that changes the descriptor in the hand. -/
abbrev Moves {A : Type} (cfg : GmioConfig) (q : BitVec 8)
    (inv : Option GmioOp → GmioState → List (Event GmioOp) → Prop)
    (op : GmioOp) (hand : Option (BitVec 64)) (p : GmioProgram A) (hand' : Option (BitVec 64)) : Prop :=
  Triple (Inside cfg q inv op hand) p (fun _ => Inside cfg q inv op hand') (Waiting cfg q inv)

theorem Inside.waiting {hand : Option (BitVec 64)} {w : GmioWorld} (h : Inside cfg q inv op hand w) :
    Waiting cfg q inv w := ⟨op, hand, h⟩

theorem triple_inside (hand : Option (BitVec 64)) (driverStatus : BitVec 32) (call : DriverCall)
    (hkeep : ∀ answer s τ, Owns cfg q s → s.bdNumber = hand → inv (some op) s τ →
      inv (some op) s (τ ++ [.driver call answer])) :
    Moves cfg q inv op hand (xaieStatus driverStatus call) hand :=
  triple_xaieStatus driverStatus call (fun _ h => h.waiting) fun _ answer _ h =>
    ⟨h.1, h.2.1, hkeep answer _ _ h.1 h.2.1 h.2.2⟩

theorem triple_configured {next : GmioState → GmioProgram ErrCode} (hnext : ∀ s : GmioState, s.isConfigured = true →
      Moves cfg q inv op none (next s) none) : Moves cfg q inv op none (getState >>= next) none := by
  have hstart : Triple (Inside cfg q inv op none) getState
      (fun s w => Inside cfg q inv op none w ∧ s.isConfigured = true) (Waiting cfg q inv) :=
    triple_getState fun w h => ⟨h, h.1.configured⟩
  exact hstart.bind fun s => Triple.of_fact (hnext s)

section Methods

variable (hinv : StepClosed cfg q inv)

include hinv

theorem triple_refill (loc : TileLoc) (chNum : BitVec 8) (dir : DmaDirection) :
    Triple (Inside cfg q inv op none) (whileAsk (fun _ s => s.availableBDs.isEmpty)
        (Event.driver (.dmaGetPendingBdCount loc chNum dir)) refillTurn xaieOk)
      (fun _ w => Inside cfg q inv op none w ∧ w.state.availableBDs.isEmpty = false) (Waiting cfg q inv) := by
  refine triple_whileAsk _ _ _ _ (fun _ => Inside cfg q inv op none) (fun _ _ h => h.waiting) ?_
  intro driverStatus w answer rest h hempty _
  have havailable : w.state.availableBDs = [] := List.isEmpty_iff.mp hempty
  obtain ⟨howns, hhand, hw⟩ := h
  exact ⟨_, _, refillTurn_eq howns havailable hhand driverStatus answer, howns.movedBack _, hhand,
    hinv.refill _ answer loc chNum dir _ _ howns havailable hhand hw⟩

/-- `enqueueBD` keeps the invariant at every driver call and ends with empty hands. -/
theorem triple_enqueueBD (mgr : ConfigManager) (address size : BitVec 64) :
    Moves cfg q inv op none (enqueueBD (some cfg) mgr address size) none := by
  refine triple_configured fun s hconfigured => ?_
  simp only [hconfigured]
  refine (triple_refill hinv _ _ _).bind fun driverStatus => ?_
  have hread : Triple (fun w => Inside cfg q inv op none w ∧ w.state.availableBDs.isEmpty = false)
      getState (fun s w => Inside cfg q inv op none w ∧ s = w.state ∧ s.availableBDs.isEmpty = false)
      (Waiting cfg q inv) :=
    triple_getState fun w h => ⟨h.1, rfl, h.2⟩
  refine hread.bind fun s' => ?_
  cases havailable : s'.availableBDs with
  | nil => exact fun _ h => absurd h.2.2 (by simp)
  | cons bd rest =>
    simp only [frontAndPop, ofOption_some, pure_bind]
    have htake : Triple (fun w => Inside cfg q inv op none w ∧ s' = w.state ∧ (bd :: rest).isEmpty = false)
        (modifyState fun s => { s with availableBDs := rest, bdNumber := some bd })
        (fun _ => Inside cfg q inv op (some bd)) (Waiting cfg q inv) := by
      refine triple_modifyState _ ?_
      rintro w ⟨⟨howns, hhand, hw⟩, rfl, -⟩
      exact ⟨howns.taken havailable hhand, rfl, hinv.take _ bd rest _ _ howns havailable hhand hw⟩
    refine htake.bind fun _ => ?_
    refine (triple_inside (some bd) _ _ fun answer s τ _ _ h =>
      hinv.setAddrLen _ answer _ _ s τ h).bind fun _ => ?_
    refine (triple_inside (some bd) _ _ fun answer s τ _ _ h =>
      hinv.setLock _ answer _ _ s τ h).bind fun _ => ?_
    refine (triple_inside (some bd) _ _ fun answer s τ _ _ h =>
      hinv.enableBd _ answer s τ h).bind fun _ => ?_
    refine (triple_inside (some bd) _ _ fun answer s τ howns hhand h =>
      hinv.writeBd _ answer _ bd s τ howns hhand h).bind fun _ => ?_
    -- The push is answered before the descriptor reaches the queue of enqueued ones.
    have hpush (status : BitVec 32) (loc : TileLoc) (chNum : BitVec 8) (dir : DmaDirection) :
        Triple (Inside cfg q inv op (some bd))
          (xaieStatus status (.dmaChannelPushBdToQueue loc chNum dir (bd.setWidth 16)))
          (fun _ w => Owns cfg q (w.state.pushed bd) ∧ inv (some op) (w.state.pushed bd) w.trace)
          (Waiting cfg q inv) :=
      triple_xaieStatus _ _ (fun _ h => h.waiting) fun w answer _ h =>
        ⟨h.1.pushed h.2.1, hinv.push _ answer loc chNum dir bd _ _ h.1 h.2.1 h.2.2⟩
    refine (hpush _ _ _ _).bind fun status => ?_
    have hput : Triple
        (fun w : GmioWorld => Owns cfg q (w.state.pushed bd) ∧ inv (some op) (w.state.pushed bd) w.trace)
        (modifyState fun s => { s with enqueuedBDs := s.enqueuedBDs ++ [bd], bdNumber := none })
        (fun _ => Inside cfg q inv op none) (Waiting cfg q inv) :=
      triple_modifyState _ fun _ h => ⟨h.1, rfl, h.2⟩
    refine hput.bind fun _ => ?_
    split <;> exact fun _ h => h

/-- The object of a `wait` whose descriptors are still to be moved. -/
def Answered (cfg : GmioConfig) (q : BitVec 8) (inv : Option GmioOp → GmioState → List (Event GmioOp) → Prop)
    (syncmode : Bool) (w : GmioWorld) : Prop :=
  Owns cfg q w.state ∧ w.state.bdNumber = none ∧
    inv (some (.wait syncmode)) (w.state.movedBack w.state.enqueuedBDs.length) w.trace

theorem triple_waitForDone (loc : TileLoc) (chNum : BitVec 8) (dir : DmaDirection) (syncmode : Bool) :
    Triple (Inside cfg q inv (.wait syncmode) none) (waitForDone (.dmaWaitForDone loc chNum dir) syncmode)
      (fun _ => Answered cfg q inv syncmode) (Waiting cfg q inv) := by
  cases syncmode with
  | true =>
    have hloop := triple_askUntil (Event.driver (.dmaWaitForDone loc chNum dir))
      (fun answer => answer.rc = xaieOk) (Inside cfg q inv (.wait true) none) fun w answer rest h _ hretry =>
        ⟨h.1, h.2.1, hinv.waitRetry answer loc chNum dir _ _ (of_decide_eq_false hretry) h.2.2⟩
    refine Triple.bind (hloop.consequence (fun _ h => h) ?_ fun _ h => h.waiting) fun _ _ h => h
    rintro _ w ⟨w₀, answer, h, hstop, -, hw⟩
    rw [hw]
    exact ⟨h.1, h.2.1, hinv.waitDone true answer loc chNum dir _ _ (fun _ => of_decide_eq_true hstop) h.1 h.2.2⟩
  | false =>
    have hcall : Triple (Inside cfg q inv (.wait false) none) (xaie (.dmaWaitForDone loc chNum dir))
        (fun _ => Answered cfg q inv false) (Waiting cfg q inv) :=
      triple_xaie _ (fun _ h => h.waiting) fun w answer _ h =>
        ⟨h.1, h.2.1, hinv.waitDone false answer _ _ _ _ _ (fun hsync => nomatch hsync) h.1 h.2.2⟩
    exact hcall.bind fun _ _ h => h

theorem triple_wait (syncmode : Bool) : Moves cfg q inv (.wait syncmode) none (wait (some cfg) syncmode) none := by
  refine triple_configured fun s hconfigured => ?_
  simp only [hconfigured]
  split
  · exact fun _ h => h
  · refine (triple_waitForDone hinv _ _ _ syncmode).bind fun ret => ?_
    have hread : Triple (Answered cfg q inv syncmode) getState
        (fun s w => Answered cfg q inv syncmode w ∧ s = w.state) (Waiting cfg q inv) :=
      triple_getState fun w h => ⟨h, rfl⟩
    refine hread.bind fun s' => ?_
    rw [moveBack_eq _ s' (Nat.le_refl _), ofOption_some, pure_bind]
    have hmove : Triple (fun w => Answered cfg q inv syncmode w ∧ s' = w.state)
        (modifyState fun _ => s'.movedBack s'.enqueuedBDs.length)
        (fun _ => Inside cfg q inv (.wait syncmode) none) (Waiting cfg q inv) := by
      refine triple_modifyState _ ?_
      rintro w ⟨⟨howns, hhand, hw⟩, rfl⟩
      exact ⟨howns.movedBack _, hhand, hw⟩
    exact hmove.bind fun _ _ h => h

theorem triple_gmioCalls (mgr : ConfigManager) (ops : List GmioOp) :
    Triple (Between cfg q inv) (gmioCalls (some cfg) mgr ops) (fun _ => Between cfg q inv)
      (Waiting cfg q inv) := by
  unfold gmioCalls
  refine triple_runAll _ fun op _ => ?_
  have hbody : Moves cfg q inv op none (gmioMethod (some cfg) mgr op) none := by
    cases op with
    | enqueueBD address size => exact triple_enqueueBD hinv mgr address size
    | wait syncmode => exact triple_wait hinv syncmode
  exact triple_apiCall _ op (fun w h => ⟨h.1, h.2.1, hinv.enter op _ _ h.2.2⟩) hbody
    fun code w h => ⟨h.1, h.2.1, hinv.leave op code _ _ h.2.2⟩

end Methods

end Runs

section Configure

def isSetupCall : DriverCall → Bool
  | .dmaDescInit _ | .dmaChannelEnable _ _ _ | .dmaGetMaxQueueSize _ | .dmaSetAxi _ => true
  | _ => false

/-- The driver call of `configure` that enables the channel. -/
def enableCall (cfg : GmioConfig) : DriverCall :=
  .dmaChannelEnable (xaieTileLoc (cfg.shimColumn.setWidth 8) 0#8) cfg.physicalChannel cfg.direction

/-- A trace that one setup call makes longer. -/
def SetupStep (τ τ' : List (Event GmioOp)) : Prop :=
  ∃ call answer, isSetupCall call = true ∧ τ' = τ ++ [.driver call answer]

/-- An object in `configure` that got the first `count` descriptors of a queue of size `q`. Since `τ₀` there were
setup calls only; if the status word is good the channel may be known to be enabled. -/
structure Assigned (cfg : GmioConfig) (τ₀ : List (Event GmioOp)) (q : BitVec 8) (count : ℕ) (enabled : Bool)
    (status : BitVec 32) (w : GmioWorld) : Prop where
  isConfigured : w.state.isConfigured = false
  availableBDs : w.state.availableBDs = (List.range count).map (bdNum cfg.channelNum q)
  enqueuedBDs : w.state.enqueuedBDs = []
  bdNumber : w.state.bdNumber = none
  queueSize : w.state.dmaStartQMaxSize = q
  trace : Relation.ReflTransGen SetupStep τ₀ w.trace
  enabled : enabled = true → status = xaieOk →
    ∃ answer, .driver (enableCall cfg) answer ∈ w.trace ∧ answer.rc = xaieOk

/-- An object anywhere in `configure`. -/
def Preparing (cfg : GmioConfig) (τ₀ : List (Event GmioOp)) (w : GmioWorld) :
    Prop :=
  ∃ q count enabled status, Assigned cfg τ₀ q count enabled status w

def ConfigureEnds (cfg : GmioConfig) (τ₀ : List (Event GmioOp)) (code : ErrCode) (w : GmioWorld) : Prop :=
  if code = .ok then ∃ w', Assigned cfg τ₀ w.state.dmaStartQMaxSize w.state.dmaStartQMaxSize.toNat true xaieOk w' ∧
    w = { w' with state := { w'.state with isConfigured := true } }
  else Preparing cfg τ₀ w

variable {cfg : GmioConfig} {τ₀ : List (Event GmioOp)} {q : BitVec 8} {count : ℕ} {enabled enabled' : Bool}
  {status : BitVec 32} {w : GmioWorld}

theorem Assigned.call (h : Assigned cfg τ₀ q count enabled status w) {call : DriverCall}
    (hcall : isSetupCall call = true) (henable : enabled' = true → enabled = true ∨ call = enableCall cfg)
    (answer : DriverAnswer) (rest : List DriverAnswer) :
    Assigned cfg τ₀ q count enabled' (status ||| answer.rc)
      { w with trace := w.trace ++ [.driver call answer], script := rest } :=
  { h with
    trace := h.trace.tail ⟨call, answer, hcall, rfl⟩
    enabled := by
      intro henabled hok
      obtain ⟨hstatus, hrc⟩ := ok_of_status_joined hok
      rcases henable henabled with henabled | rfl
      · obtain ⟨answer', hmem, hrc'⟩ := h.enabled henabled hstatus
        exact ⟨answer', List.mem_append_left _ hmem, hrc'⟩
      · exact ⟨answer, List.mem_append_right _ List.mem_cons_self, hrc⟩ }

theorem triple_setup {call : DriverCall} (hcall : isSetupCall call = true)
    (henable : enabled' = true → enabled = true ∨ call = enableCall cfg) :
    Triple (Assigned cfg τ₀ q count enabled status) (xaieStatus status call) (Assigned cfg τ₀ q count enabled')
      (Preparing cfg τ₀) := by
  have hask : Triple (Assigned cfg τ₀ q count enabled status) (xaie call)
      (fun answer => Assigned cfg τ₀ q count enabled' (status ||| answer.rc)) (Preparing cfg τ₀) :=
    triple_xaie _ (fun _ h => ⟨_, _, _, _, h⟩) fun _ answer rest h => h.call hcall henable answer rest
  exact hask.bind fun _ _ h => h

theorem triple_assignBDs (turns j : ℕ) :
    Triple (Assigned cfg τ₀ q j enabled status) (assignBDs cfg q turns j status)
      (Assigned cfg τ₀ q (j + turns) enabled) (Preparing cfg τ₀) := by
  induction turns generalizing j status with
  | zero => exact fun _ h => h
  | succ turns ih =>
    have hgive : Triple (Assigned cfg τ₀ q j enabled status)
        (modifyState fun s => { s with availableBDs := s.availableBDs ++ [bdNum cfg.channelNum q j] })
        (fun _ => Assigned cfg τ₀ q (j + 1) enabled status) (Preparing cfg τ₀) := by
      refine triple_modifyState _ fun w h => { h with availableBDs := ?_ }
      simp only [h.availableBDs, List.range_succ, List.map_append, List.map_cons, List.map_nil]
    refine hgive.bind fun _ => (triple_setup rfl .inl).bind fun status => ?_
    rw [Nat.add_comm turns 1, ← Nat.add_assoc]
    exact ih (j + 1)

/-- A successful `configure` of a fresh object makes it own its channel's descriptors. -/
theorem triple_configure (cfg : GmioConfig) (τ₀ : List (Event GmioOp)) :
    Triple (fun w => w.state = .fresh ∧ w.trace = τ₀) (configure (some cfg)) (ConfigureEnds cfg τ₀)
      (Preparing cfg τ₀) := by
  have hfresh (w : GmioWorld) (h : w.state = .fresh ∧ w.trace = τ₀) :
      Assigned cfg τ₀ 4#8 0 false xaieOk w := by
    obtain ⟨hstate, rfl⟩ := h
    exact ⟨by rw [hstate]; rfl, by rw [hstate]; rfl, by rw [hstate]; rfl, by rw [hstate]; rfl, by rw [hstate]; rfl,
      .refl, nofun⟩
  have hfailed {q : BitVec 8} {count : ℕ} {enabled : Bool} {status : BitVec 32} {w : GmioWorld}
      (h : Assigned cfg τ₀ q count enabled status w) : ConfigureEnds cfg τ₀ .aieDriverError w := by
    rw [ConfigureEnds, if_neg nofun]
    exact ⟨_, _, _, _, h⟩
  have hdone {q : BitVec 8} : Triple (Assigned cfg τ₀ q q.toNat true xaieOk)
      (modifyState fun s => { s with isConfigured := true }) (fun _ => ConfigureEnds cfg τ₀ .ok)
        (Preparing cfg τ₀) := by
    refine triple_modifyState _ fun w h => ?_
    obtain rfl := h.queueSize
    rw [ConfigureEnds, if_pos rfl]
    exact ⟨w, h, rfl⟩
  refine Triple.consequence ?_ hfresh (fun _ _ h => h) fun _ h => h
  rw [configure]
  split
  · have hloc (loc : TileLoc) : Triple (Assigned cfg τ₀ 4#8 0 false xaieOk)
        (modifyState fun s => { s with gmioTileLoc := loc })
        (fun _ => Assigned cfg τ₀ 4#8 0 false xaieOk) (Preparing cfg τ₀) :=
      triple_modifyState _ fun _ h => { h with }
    have hmax (loc : TileLoc) (status : BitVec 32) : Triple (Assigned cfg τ₀ 4#8 0 true status)
        (xaie (.dmaGetMaxQueueSize loc))
        (fun answer => Assigned cfg τ₀ 4#8 0 true (status ||| answer.rc)) (Preparing cfg τ₀) :=
      triple_xaie _ (fun _ h => ⟨_, _, _, _, h⟩) fun _ answer rest h => h.call rfl .inl answer rest
    have hsize (q : BitVec 8) (status : BitVec 32) : Triple (Assigned cfg τ₀ 4#8 0 true status)
        (modifyState fun s => { s with dmaStartQMaxSize := q })
        (fun _ => Assigned cfg τ₀ q 0 true status) (Preparing cfg τ₀) := by
      refine triple_modifyState _ fun w h => ?_
      have havailable : w.state.availableBDs = [] := by rw [h.availableBDs, List.range_zero, List.map_nil]
      exact { h with availableBDs := havailable, queueSize := rfl }
    refine (hloc _).bind fun _ => (triple_setup rfl .inl).bind fun _ => ?_
    refine (triple_setup rfl fun _ : true = true => .inr rfl).bind fun status => ?_
    refine (hmax _ status).bind fun answer => (hsize _ _).bind fun _ => (triple_assignBDs _ 0).bind fun status => ?_
    split
    · exact fun _ h => hfailed h
    · rename_i hok
      rw [not_not.mp hok, Nat.zero_add]
      exact hdone.bind fun _ _ h => h
  · exact fun _ h => hfailed h

theorem Assigned.owns (h : Assigned cfg τ₀ q q.toNat enabled status w) :
    Owns cfg q { w.state with isConfigured := true } where
  configured := rfl
  queueSize := h.queueSize
  held_perm := by
    simp only [GmioState.held, h.availableBDs, h.enqueuedBDs, h.bdNumber, channelBDs, Option.toList_none,
      List.append_nil, List.Perm.refl]

theorem exists_of_configure_ok {pGMIOConfig : Option GmioConfig} {w₀ w₁ : GmioWorld} (hfresh : w₀.state = .fresh)
    (hconfigure : configure pGMIOConfig w₀ = (.returned .ok, w₁)) :
    ∃ cfg, pGMIOConfig = some cfg ∧ Owns cfg w₁.state.dmaStartQMaxSize w₁.state ∧ w₁.state.bdNumber = none ∧
      Relation.ReflTransGen SetupStep w₀.trace w₁.trace := by
  cases pGMIOConfig with
  | none => cases hconfigure
  | some cfg =>
    obtain ⟨w', h, hw⟩ := (triple_configure cfg w₀.trace).of_returned ⟨hfresh, rfl⟩ hconfigure
    refine ⟨cfg, rfl, ?_⟩
    generalize w₁.state.dmaStartQMaxSize = q at h ⊢
    subst hw
    exact ⟨h.owns, h.bdNumber, h.trace⟩

end Configure

theorem stepClosed_true (cfg : GmioConfig) (q : BitVec 8) : StepClosed cfg q fun _ _ _ => True := by
  constructor <;> intros <;> trivial

/-- After a successful `configure`, whatever is called and answered, available, enqueued and held descriptors are
the channel's, each once; between calls none is held. -/
theorem gmioCalls_hold_descriptors (pGMIOConfig : Option GmioConfig) (mgr : ConfigManager)
    (w₀ w₁ : World (Event GmioOp) DriverAnswer GmioState) (hfresh : w₀.state = .fresh)
    (hconfigure : configure pGMIOConfig w₀ = (.returned .ok, w₁)) :
    ∃ cfg, pGMIOConfig = some cfg ∧
      (∀ ops script, ∀ outcome w, gmioCalls pGMIOConfig mgr ops { w₁ with script } = (outcome, w) →
        outcome ≠ .fault ∧
        (w.state.held.map BitVec.toInt).Perm (descriptors cfg.channelNum w₁.state.dmaStartQMaxSize) ∧
        ∀ codes, outcome = .returned codes → w.state.bdNumber = none) ∧
      (descriptors cfg.channelNum w₁.state.dmaStartQMaxSize).Nodup ∧
      ∀ channelNum', channelNum' ≠ cfg.channelNum →
        (descriptors cfg.channelNum w₁.state.dmaStartQMaxSize).Disjoint
          (descriptors channelNum' w₁.state.dmaStartQMaxSize) := by
  obtain ⟨cfg, rfl, howns, hhand, -⟩ := exists_of_configure_ok hfresh hconfigure
  refine ⟨cfg, rfl, ?_, descriptors_nodup _ _, fun _ hne => descriptors_disjoint _ hne.symm⟩
  intro ops script outcome w hcalls
  have hmeets := triple_gmioCalls (stepClosed_true cfg w₁.state.dmaStartQMaxSize) mgr ops { w₁ with script }
    ⟨howns, hhand, trivial⟩
  have hperm (howns' : Owns cfg w₁.state.dmaStartQMaxSize w.state) :
      (w.state.held.map BitVec.toInt).Perm (descriptors cfg.channelNum w₁.state.dmaStartQMaxSize) := by
    rw [← channelBDs_map_toInt]
    exact howns'.held_perm.map _
  rw [hcalls] at hmeets
  cases outcome with
  | returned codes =>
    obtain ⟨howns', hhand', -⟩ := hmeets
    exact ⟨nofun, hperm howns', fun _ _ => hhand'⟩
  | blocked =>
    obtain ⟨op, hand, howns', -, -⟩ := hmeets
    exact ⟨nofun, hperm howns', fun _ h => nomatch h⟩
  | fault => exact hmeets.elim

/-- A GMIO on channel 2 whose driver reports a queue of one descriptor. -/
def sampleConfig : GmioConfig := { type := .gm2aie, shimColumn := 0, channelNum := 2, burstLength := 4 }

def okAnswer (value : BitVec 64) : DriverAnswer := { rc := xaieOk, value, bytes := [], progress := 0 }

def sampleWorld : GmioWorld :=
  ⟨.fresh, [], [okAnswer 0, okAnswer 0, okAnswer 1, okAnswer 0]⟩

theorem configure_sampleWorld :
    configure (some sampleConfig) sampleWorld = (.returned .ok, (configure (some sampleConfig) sampleWorld).2) :=
      rfl

/-- The sample GMIO holds descriptor 2 whatever is called. -/
theorem gmioCalls_hold_descriptors_sample :
    ∃ cfg, some sampleConfig = some cfg ∧
      (∀ ops script, ∀ outcome w,
        gmioCalls (some sampleConfig) ⟨2, 0, false⟩ ops
          { (configure (some sampleConfig) sampleWorld).2 with script } = (outcome, w) →
        outcome ≠ .fault ∧
        (w.state.held.map BitVec.toInt).Perm
          (descriptors cfg.channelNum (configure (some sampleConfig) sampleWorld).2.state.dmaStartQMaxSize) ∧
        ∀ codes, outcome = .returned codes → w.state.bdNumber = none) ∧
      (descriptors cfg.channelNum (configure (some sampleConfig) sampleWorld).2.state.dmaStartQMaxSize).Nodup ∧
      ∀ channelNum', channelNum' ≠ cfg.channelNum →
        (descriptors cfg.channelNum (configure (some sampleConfig) sampleWorld).2.state.dmaStartQMaxSize).Disjoint
          (descriptors channelNum' (configure (some sampleConfig) sampleWorld).2.state.dmaStartQMaxSize) :=
  gmioCalls_hold_descriptors (some sampleConfig) ⟨2, 0, false⟩ sampleWorld _ rfl configure_sampleWorld

end AieBaremetal.Gmio
