import AieBaremetal.Common.Monitor
import AieBaremetal.Graph.Rtp
import AieBaremetal.Graph.SharedBuffer

/-!
# Locks that could not be acquired

An update and a read acquire two locks, work and release both. An observer of one call keeps the locks
it holds and whether an acquire failed; after a failure the call should write nothing and release only
what it holds. The status words are looked at once, at the end, so a failure is always reported and
never heeded. A release needs a matching acquire, also if selector and buffer share one lock.
-/

namespace AieBaremetal.Graph

open Common Common.Program AieBaremetal.Runtime

variable {Op S : Type}

/-- What an observer of one call knows of its locks. -/
structure LockWatch where
  held : List (TileLoc × BitVec 16)
  failed : Bool
  deriving DecidableEq, Repr

def LockWatch.start : LockWatch where
  held := []
  failed := false

def LockWatch.after (o : LockWatch) (call : DriverCall) (answer : DriverAnswer) : LockWatch :=
  match call with
  | .lockAcquire loc lock =>
    if answer.rc = xaieOk then { o with held := (loc, lock.lockId) :: o.held } else { o with failed := true }
  | .lockRelease loc lock => { o with held := o.held.erase (loc, lock.lockId) }
  | _ => o

def LockWatch.step (o : LockWatch) : Event Op → LockWatch
  | .driver call answer => o.after call answer
  | _ => o

/-- Once an acquire failed, a call may write nothing and release only what it holds. -/
def LockWatch.MayCall (o : LockWatch) : DriverCall → Prop
  | .dataMemBlockWrite .. => o.failed = false
  | .dataMemWrWord .. => o.failed = false
  | .lockRelease loc lock => o.failed = true → (loc, lock.lockId) ∈ o.held
  | _ => True

def LockWatch.Accepts (o : LockWatch) : Event Op → Prop
  | .driver call _ => o.MayCall call
  | _ => True

instance (o : LockWatch) (call : DriverCall) : Decidable (o.MayCall call) := by
  apply DriverCall.casesOn (motive := fun call => Decidable (o.MayCall call)) call
  case dataMemBlockWrite => exact fun _ _ _ => inferInstanceAs (Decidable (o.failed = false))
  case dataMemWrWord => exact fun _ _ _ => inferInstanceAs (Decidable (o.failed = false))
  case lockRelease => exact fun loc lock =>
    inferInstanceAs (Decidable (o.failed = true → (loc, lock.lockId) ∈ o.held))
  all_goals
    intros
    exact .isTrue trivial

instance (o : LockWatch) (e : Event Op) : Decidable (o.Accepts e) := by
  unfold LockWatch.Accepts
  split <;> infer_instance

def AcquireFails : Event Op → Prop
  | .driver (.lockAcquire ..) answer => answer.rc ≠ xaieOk
  | _ => False

instance (e : Event Op) : Decidable (AcquireFails e) := by
  unfold AcquireFails
  split <;> infer_instance

/-- If an acquire fails, nothing is written afterwards, no lock is released that is not held, and the call returns
an error. -/
def HeedsFailure (run : Outcome ErrCode × World (Event Op) DriverAnswer S) : Prop :=
  (∃ e ∈ run.2.trace, AcquireFails e) →
    Along LockWatch.step LockWatch.Accepts .start run.2.trace ∧ ∃ code, run.1 = .returned code ∧ code ≠ .ok

theorem replay_failed_iff (o : LockWatch) (trace : List (Event Op)) :
    (replay LockWatch.step o trace).failed = true ↔ o.failed = true ∨ ∃ e ∈ trace, AcquireFails e := by
  induction trace generalizing o with
  | nil => simp [replay]
  | cons e rest ih =>
    have hstep : (o.step e).failed = true ↔ o.failed = true ∨ AcquireFails e := by
      cases e with
      | enter op => simp [LockWatch.step, AcquireFails]
      | leave code => simp [LockWatch.step, AcquireFails]
      | driver call answer =>
        cases call
        case lockAcquire loc lock =>
          by_cases hrc : answer.rc = xaieOk <;> simp [LockWatch.step, LockWatch.after, AcquireFails, hrc]
        all_goals simp [LockWatch.step, LockWatch.after, AcquireFails]
    change (replay LockWatch.step (o.step e) rest).failed = true ↔ _
    rw [ih, hstep, or_assoc]
    simp only [List.mem_cons, exists_eq_or_imp]

section Phases

/-- A condition on the observer and on whether it accepted everything so far. -/
def LockWatched (P : LockWatch → Prop → Prop) (w : World (Event Op) DriverAnswer S) : Prop :=
  P (replay LockWatch.step .start w.trace) (Along LockWatch.step LockWatch.Accepts .start w.trace)

/-- Runs of a program take the observer from one condition to another. -/
abbrev Watches (Op S : Type) {A : Type} (P : LockWatch → Prop → Prop) (p : DriverProgram Op S A)
    (Q : A → LockWatch → Prop → Prop) : Prop :=
  Triple (LockWatched P) p (fun a => LockWatched (Q a)) fun _ => True

/-- Everything was accepted, and after a failure fewer locks are held than were asked for. -/
structure Acquiring (asked : ℕ) (status : BitVec 32) (o : LockWatch) (accepted : Prop) : Prop where
  accepted : accepted
  held : o.held.length ≤ asked
  missing : o.failed = true → o.held.length < asked
  status : status = xaieOk → o.failed = false

/-- Without a failure everything is accepted, and otherwise more releases are to come than locks are held. -/
structure Owing (releases : ℕ) (status : BitVec 32) (o : LockWatch) (accepted : Prop) : Prop where
  accepts : o.failed = false → accepted
  missing : accepted → o.failed = true → o.held.length < releases
  status : status = xaieOk → o.failed = false

variable {n : ℕ} {status : BitVec 32} {o : LockWatch} {accepted : Prop}

theorem Acquiring.owing (h : Acquiring n status o accepted) : Owing n status o accepted where
  accepts _ := h.accepted
  missing _ := h.missing
  status := h.status

theorem Acquiring.acquire (h : Acquiring n status o accepted) (loc : TileLoc) (lock : Lock)
    (answer : DriverAnswer) :
    Acquiring (n + 1) (status ||| answer.rc) (o.after (.lockAcquire loc lock) answer)
      (accepted ∧ o.MayCall (.lockAcquire loc lock)) := by
  have hheld := h.held
  have hmissing := h.missing
  by_cases hrc : answer.rc = xaieOk
  · rw [LockWatch.after, if_pos hrc]
    refine ⟨⟨h.accepted, trivial⟩, Nat.succ_le_succ hheld, fun hfailed => Nat.succ_lt_succ (hmissing hfailed), ?_⟩
    exact fun hstatus => h.status (ok_of_status_joined hstatus).1
  · rw [LockWatch.after, if_neg hrc]
    refine ⟨⟨h.accepted, trivial⟩, Nat.le_succ_of_le hheld, fun _ => Nat.lt_succ_of_le hheld, ?_⟩
    exact fun hstatus => absurd (ok_of_status_joined hstatus).2 hrc

theorem Acquiring.join (h : Acquiring n status o accepted) (rc : BitVec 32) :
    Acquiring n (status ||| rc) o (accepted ∧ True) where
  accepted := ⟨h.accepted, trivial⟩
  held := h.held
  missing := h.missing
  status hstatus := h.status (ok_of_status_joined hstatus).1

theorem Owing.join (h : Owing n status o accepted) (rc : BitVec 32) :
    Owing n (status ||| rc) o (accepted ∧ True) where
  accepts hok := ⟨h.accepts hok, trivial⟩
  missing haccepted := h.missing haccepted.1
  status hstatus := h.status (ok_of_status_joined hstatus).1

theorem Owing.write (h : Owing n status o accepted) (rc : BitVec 32) :
    Owing 0 (status ||| rc) o (accepted ∧ o.failed = false) where
  accepts hok := ⟨h.accepts hok, hok⟩
  missing haccepted hfailed := by simp [haccepted.2] at hfailed
  status hstatus := h.status (ok_of_status_joined hstatus).1

theorem Owing.release (h : Owing n status o accepted) (loc : TileLoc) (lock : Lock) (answer : DriverAnswer) :
    Owing (n - 1) (status ||| answer.rc) (o.after (.lockRelease loc lock) answer)
      (accepted ∧ o.MayCall (.lockRelease loc lock)) where
  accepts hok := ⟨h.accepts hok, fun hfailed => by simp [LockWatch.after] at hok; simp [hok] at hfailed⟩
  missing := by
    rintro ⟨haccepted, hmay⟩ hfailed
    have hmem := hmay hfailed
    have hlength := h.missing haccepted hfailed
    have hpos := List.length_pos_of_mem hmem
    simp only [LockWatch.after, List.length_erase_of_mem hmem]
    omega
  status hstatus := h.status (ok_of_status_joined hstatus).1

theorem triple_of_owing {A : Type} {p : DriverProgram Op S A} {Q : A → LockWatch → Prop → Prop}
    (h : Watches Op S (Owing n status) p Q) : Watches Op S (Acquiring n status) p Q :=
  h.consequence (fun _ hw => hw.owing) (fun _ _ hw => hw) fun _ hw => hw

theorem triple_lockWatched {P : LockWatch → Prop → Prop} {Q : DriverAnswer → LockWatch → Prop → Prop}
    (call : DriverCall)
    (h : ∀ o accepted answer, P o accepted → Q answer (o.after call answer) (accepted ∧ o.MayCall call)) :
    Watches Op S P (xaie call) Q := by
  refine triple_xaie call (fun _ _ => trivial) fun w answer rest hw => ?_
  have hnext := h _ _ answer hw
  simpa [LockWatched, LockWatch.step, LockWatch.Accepts] using hnext

theorem triple_lockWatched_status {P : LockWatch → Prop → Prop} {Q : BitVec 32 → LockWatch → Prop → Prop}
    (call : DriverCall)
    (h : ∀ o accepted answer, P o accepted → Q (status ||| answer.rc) (o.after call answer)
      (accepted ∧ o.MayCall call)) :
    Watches Op S P (xaieStatus status call) Q := by
  have hcall : Watches Op S P (xaie call) _ := triple_lockWatched call h
  exact hcall.bind fun _ _ h => h

theorem triple_acquire (n : ℕ) (status : BitVec 32) (loc : TileLoc) (lock : Lock) :
    Watches Op S (Acquiring n status) (xaieStatus status (.lockAcquire loc lock)) (Acquiring (n + 1)) :=
  triple_lockWatched_status _ fun _ _ answer h => h.acquire loc lock answer

theorem triple_release (n : ℕ) (status : BitVec 32) (loc : TileLoc) (lock : Lock) :
    Watches Op S (Owing n status) (xaieStatus status (.lockRelease loc lock)) (Owing (n - 1)) :=
  triple_lockWatched_status _ fun _ _ answer h => h.release loc lock answer

theorem triple_acquire_when (needed : Bool) (loc : TileLoc) (lock : Lock) :
    Watches Op _ (Acquiring n status) (xaieWhen needed status (.lockAcquire loc lock))
      (Acquiring (n + needed.toNat)) := by
  cases needed with
  | false => exact fun _ h => h
  | true => exact triple_acquire n status loc lock

theorem triple_release_when (needed : Bool) (loc : TileLoc) (lock : Lock) :
    Watches Op _ (Owing n status) (xaieWhen needed status (.lockRelease loc lock)) (Owing (n - needed.toNat)) := by
  cases needed with
  | false => exact fun _ h => h
  | true => exact triple_release n status loc lock

theorem triple_read_acquiring {call : DriverCall} (hafter : ∀ o answer, LockWatch.after o call answer = o)
    (hmay : ∀ o, LockWatch.MayCall o call = True) :
    Watches Op S (Acquiring n status) (xaie call) fun answer => Acquiring n (status ||| answer.rc) :=
  triple_lockWatched call fun o accepted answer h => by
    rw [hafter, hmay]
    exact h.join answer.rc

theorem triple_read_owing {call : DriverCall} (hafter : ∀ o answer, LockWatch.after o call answer = o)
    (hmay : ∀ o, LockWatch.MayCall o call = True) :
    Watches Op S (Owing n status) (xaie call) fun answer => Owing n (status ||| answer.rc) :=
  triple_lockWatched call fun o accepted answer h => by
    rw [hafter, hmay]
    exact h.join answer.rc

theorem triple_write_owing {call : DriverCall} (hafter : ∀ o answer, LockWatch.after o call answer = o)
    (hmay : ∀ o, LockWatch.MayCall o call = (o.failed = false)) :
    Watches Op S (Owing n status) (xaieStatus status call) (Owing 0) :=
  triple_lockWatched_status call fun o accepted answer h => by
    rw [hafter, hmay]
    exact h.write answer.rc

theorem lockWatched_start (s : S) (script : List DriverAnswer) :
    LockWatched (Acquiring 0 xaieOk) ({ state := s, trace := [], script } : World (Event Op) DriverAnswer S) :=
  ⟨trivial, Nat.le_refl 0, fun h => absurd h (by simp [replay, LockWatch.start]), fun _ => rfl⟩

/-- Everything was accepted exactly if nothing failed, and a failure is reported. -/
structure Ended (code : ErrCode) (o : LockWatch) (accepted : Prop) : Prop where
  accepted_iff : accepted ↔ o.failed = false
  reported : code = .ok → o.failed = false

theorem triple_finish_watched :
    Watches Op S (Owing 0 status) (if status ≠ xaieOk then pure .aieDriverError else pure .ok) Ended := by
  intro w h
  have haccepted : Along LockWatch.step LockWatch.Accepts .start w.trace ↔
      (replay LockWatch.step .start w.trace).failed = false := by
    refine ⟨fun haccepted => ?_, h.accepts⟩
    by_contra hfailed
    exact Nat.not_lt_zero _ (h.missing haccepted (by simpa using hfailed))
  by_cases hstatus : status = xaieOk
  · rw [if_neg (not_not.mpr hstatus)]
    exact ⟨haccepted, fun _ => h.status hstatus⟩
  · rw [if_pos hstatus]
    exact ⟨haccepted, nofun⟩

theorem triple_updateBuffer_watched (mgr : ConfigManager) (rtp : RtpConfig) (lock : Bool) (acquireVal : BitVec 8)
    (pValue : List UInt8) (numBytes : BitVec 64) :
    Watches Op _ (Acquiring 0 xaieOk) (updateBuffer mgr rtp lock acquireVal pValue numBytes) Ended := by
  apply (triple_acquire_when lock _ _).bind
  intro status
  apply (triple_read_acquiring (fun _ _ => rfl) (fun _ => rfl)).bind
  intro answer
  apply (triple_acquire_when lock _ _).bind
  intro status
  apply triple_of_owing
  apply (triple_write_owing (fun _ _ => rfl) (fun _ => rfl)).bind
  intro status
  apply (triple_write_owing (fun _ _ => rfl) (fun _ => rfl)).bind
  intro status
  apply (triple_release_when rtp.hasLock _ _).bind
  intro status
  apply (triple_release_when rtp.hasLock _ _).bind
  intro status
  rw [Nat.zero_sub, Nat.zero_sub]
  exact triple_finish_watched

theorem triple_readBuffer_watched (mgr : ConfigManager) (rtp : RtpConfig) (lock : Bool) (numBytes : BitVec 64) :
    Watches Op _ (Acquiring 0 xaieOk) (readBuffer mgr rtp lock numBytes) fun result => Ended result.1 := by
  apply (triple_acquire_when lock _ _).bind
  intro status
  apply (triple_read_acquiring (fun _ _ => rfl) (fun _ => rfl)).bind
  intro answer
  apply (triple_acquire_when lock _ _).bind
  intro status
  apply triple_of_owing
  apply (triple_release_when lock _ _).bind
  intro status
  apply (triple_read_owing (fun _ _ => rfl) (fun _ => rfl)).bind
  intro value
  apply (triple_release_when lock _ _).bind
  intro status
  have hnone : 0 + lock.toNat + lock.toNat - lock.toNat - lock.toNat = 0 := by omega
  rw [hnone]
  have hfinish : Watches Op _ (Owing 0 status)
    (if status ≠ xaieOk then pure .aieDriverError else pure .ok : GraphProgram Op ErrCode)
      Ended := triple_finish_watched
  intro w h
  have hw := hfinish w h
  by_cases hstatus : status = xaieOk
  · rw [if_neg (not_not.mpr hstatus)] at hw ⊢
    exact hw
  · rw [if_pos hstatus] at hw ⊢
    exact hw

/-- `update` of a shared buffer after its checks, if it returns at all. -/
theorem writeSharedBuffer_ended {buffer : SharedBufferConfig} {prdLockAcqVal cnsLockAcqVal : BitVec 8}
    {pValue : List UInt8} {numBytes : BitVec 64} {w w' : World (Event Op) DriverAnswer (List (BitVec 32))}
    {code : ErrCode} (hw : LockWatched (Acquiring 0 xaieOk) w)
    (hrun : writeSharedBuffer buffer prdLockAcqVal cnsLockAcqVal pValue numBytes w = (.returned code, w')) :
    LockWatched (Ended code) w' := by
  obtain ⟨producer, w₁, hproducer, h₁⟩ := exists_of_bind_returned hrun
  obtain ⟨-, rfl⟩ := eq_of_ofOption_returned hproducer
  obtain ⟨status, w₂, hacquire, h₂⟩ := exists_of_bind_returned h₁
  have hw₂ := (triple_acquire 0 xaieOk _ _).of_returned hw hacquire
  obtain ⟨consumer, w₃, hconsumer, h₃⟩ := exists_of_bind_returned h₂
  obtain ⟨-, rfl⟩ := eq_of_ofOption_returned hconsumer
  obtain ⟨status', w₄, hacquire', h₄⟩ := exists_of_bind_returned h₃
  have hw₄ := (triple_acquire 1 status _ _).of_returned hw₂ hacquire'
  obtain ⟨addr, w₅, haddr, h₅⟩ := exists_of_bind_returned h₄
  obtain ⟨-, rfl⟩ := eq_of_ofOption_returned haddr
  -- the three vectors are not empty, so the rest of the call is free of undefined behaviour
  suffices hrest : Watches Op _ (Acquiring (1 + 1) status') _ Ended from hrest.of_returned hw₄ h₅
  apply triple_of_owing
  apply (triple_write_owing (fun _ _ => rfl) (fun _ => rfl)).bind
  intro status
  apply (triple_release 0 status _ _).bind
  intro status
  apply (triple_release 0 status _ _).bind
  intro status
  exact triple_finish_watched

end Phases

section Calls

/-- A call that returns ended, one way or the other. -/
def EndsWatched (run : Outcome ErrCode × World (Event Op) DriverAnswer S) : Prop :=
  ∀ code, run.1 = .returned code → LockWatched (Ended code) run.2

theorem endsWatched_of_meets {run : Outcome ErrCode × World (Event Op) DriverAnswer S}
    (h : Meets (fun code => LockWatched (Ended code)) (fun _ => True) run) : EndsWatched run := by
  rintro code hcode
  rcases run with ⟨outcome, w⟩
  cases hcode
  exact h

theorem EndsWatched.heedsFailure_iff {run : Outcome ErrCode × World (Event Op) DriverAnswer S}
    (h : EndsWatched run) :
    HeedsFailure run ↔ ∀ e ∈ run.2.trace, ¬AcquireFails e := by
  have hfailed := replay_failed_iff .start run.2.trace
  constructor
  · intro hheeds e he hfails
    obtain ⟨haccepted, code, hcode, -⟩ := hheeds ⟨e, he, hfails⟩
    have hnot := (h code hcode).accepted_iff.mp haccepted
    rw [hfailed.mpr (.inr ⟨e, he, hfails⟩)] at hnot
    cases hnot
  · rintro hnone ⟨e, he, hfails⟩
    exact absurd hfails (hnone e he)

theorem EndsWatched.reported {run : Outcome ErrCode × World (Event Op) DriverAnswer S} (h : EndsWatched run)
    {e : Event Op} (he : e ∈ run.2.trace) (hfails : AcquireFails e) : run.1 ≠ .returned .ok := by
  intro hok
  have hnot := (h .ok hok).reported rfl
  rw [(replay_failed_iff .start run.2.trace).mpr (.inr ⟨e, he, hfails⟩)] at hnot
  cases hnot

/-- A call keeps to its locks exactly if no acquire fails, and returns no success if one does. -/
structure ReportsOnly (run : Outcome ErrCode × World (Event Op) DriverAnswer S) : Prop where
  heeds_iff : HeedsFailure run ↔ ∀ e ∈ run.2.trace, ¬AcquireFails e
  reported : ∀ e ∈ run.2.trace, AcquireFails e → run.1 ≠ .returned .ok
  answered : run.1 ≠ .blocked

theorem EndsWatched.reportsOnly {run : Outcome ErrCode × World (Event Op) DriverAnswer S} (h : EndsWatched run)
    (hanswered : run.1 ≠ .blocked) : ReportsOnly run :=
  ⟨h.heedsFailure_iff, fun _ he hfails => h.reported he hfails, hanswered⟩

theorem reportsOnly_quiet (code : ErrCode) (s : S) (script : List DriverAnswer) :
    ReportsOnly (.returned code, ({ state := s, trace := [], script } : World (Event Op) DriverAnswer S)) :=
  EndsWatched.reportsOnly (fun _ _ => ⟨iff_of_true trivial rfl, fun _ => rfl⟩) nofun

variable (pGraphConfig : Option GraphConfig) (mgr : ConfigManager) (pRtpConfig : Option RtpConfig)
  (pValue : List UInt8) (numBytes : BitVec 64) (s : GraphState) {script : List DriverAnswer} (h : 7 ≤ script.length)

include h

theorem update_reportsOnly :
    ReportsOnly (update pGraphConfig mgr pRtpConfig pValue numBytes
      ({ state := s, trace := [], script } : GraphWorld Op)) := by
  cases pGraphConfig with
  | none => exact reportsOnly_quiet _ _ _
  | some cfg =>
    cases pRtpConfig with
    | none => exact reportsOnly_quiet _ _ _
    | some rtp =>
      by_cases hcheck : checkRtpConfigForUpdate (some rtp) (some cfg) numBytes s.isRunning = .ok
      · rw [update_of_ok pValue hcheck]
        apply EndsWatched.reportsOnly
        · exact endsWatched_of_meets
            (triple_updateBuffer_watched mgr rtp _ _ pValue numBytes _ (lockWatched_start _ _))
        · exact ((answeredBy_updateBuffer mgr rtp _ _ pValue numBytes).unblockedBy _ h).1
      · rw [update_of_not_ok pValue hcheck]
        exact reportsOnly_quiet _ _ _

theorem read_reportsOnly :
    ReportsOnly ((Prod.fst <$> read pGraphConfig mgr pRtpConfig numBytes)
      ({ state := s, trace := [], script } : GraphWorld Op)) := by
  cases pGraphConfig with
  | none => exact reportsOnly_quiet _ _ _
  | some cfg =>
    cases pRtpConfig with
    | none => exact reportsOnly_quiet _ _ _
    | some rtp =>
      rw [map_eq_pure_bind]
      by_cases hcheck : checkRtpConfigForRead (some rtp) (some cfg) numBytes = .ok
      · rw [bind_apply, read_of_ok hcheck, ← bind_apply]
        have hread : AnsweredBy 6 (readBuffer mgr rtp _ numBytes : GraphProgram Op _) :=
          answeredBy_readBuffer mgr rtp (rtp.mayLock s.isRunning && rtp.hasLock) numBytes
        have hcode (result : ErrCode × Option (List UInt8)) :
            Watches Op GraphState (Ended result.1) (pure result.1) Ended := fun _ h => h
        apply EndsWatched.reportsOnly
        · exact endsWatched_of_meets
            ((triple_readBuffer_watched mgr rtp _ numBytes).bind hcode _ (lockWatched_start _ _))
        · exact ((hread.bind (fun _ => answeredBy_pure 1 _) (Nat.le_refl 7)).unblockedBy _ h).1
      · rw [bind_of_returned _ (read_of_not_ok hcheck)]
        exact reportsOnly_quiet _ _ _

theorem updateSharedBuffer_reportsOnly (pSharedBufferConfig : Option SharedBufferConfig)
    (initialized : List (BitVec 32)) :
    ReportsOnly (updateSharedBuffer pGraphConfig pSharedBufferConfig pValue numBytes
      ({ state := initialized, trace := [], script } : World (Event Op) DriverAnswer (List (BitVec 32)))) := by
  cases pGraphConfig with
  | none => exact reportsOnly_quiet _ _ _
  | some cfg =>
    cases pSharedBufferConfig with
    | none => exact reportsOnly_quiet _ _ _
    | some buffer =>
      by_cases hcheck : checkSharedBufferConfigForUpdate (some buffer) (some cfg) numBytes = .ok
      · rw [updateSharedBuffer_of_ok pValue _ hcheck]
        apply EndsWatched.reportsOnly
        · exact fun code hcode => writeSharedBuffer_ended (lockWatched_start _ script) (Prod.ext hcode rfl)
        · exact (unblockedBy_writeSharedBuffer buffer _ _ pValue numBytes _ (Nat.le_trans (by omega) h)).1
      · rw [updateSharedBuffer_of_not_ok pValue _ hcheck]
        exact reportsOnly_quiet _ _ _

end Calls

/-- The three calls keep to their locks exactly if no acquire fails, whatever the configuration, the state and the
driver's answers; a failure is reported all the same. -/
theorem lockCalls_reportOnly (pGraphConfig : Option GraphConfig) (mgr : ConfigManager) (pValue : List UInt8)
    (numBytes : BitVec 64) (script : List DriverAnswer) (h : 7 ≤ script.length) :
    (∀ (pRtpConfig : Option RtpConfig) (s : GraphState), ReportsOnly
      (update pGraphConfig mgr pRtpConfig pValue numBytes
        ({ state := s, trace := [], script } : World (Event Op) DriverAnswer GraphState))) ∧
    (∀ (pRtpConfig : Option RtpConfig) (s : GraphState), ReportsOnly
      ((Prod.fst <$> read pGraphConfig mgr pRtpConfig numBytes)
        ({ state := s, trace := [], script } : World (Event Op) DriverAnswer GraphState))) ∧
    (∀ (pSharedBufferConfig : Option SharedBufferConfig) (initialized : List (BitVec 32)), ReportsOnly
      (updateSharedBuffer pGraphConfig pSharedBufferConfig pValue numBytes
        ({ state := initialized, trace := [], script } : World (Event Op) DriverAnswer (List (BitVec 32))))) := by
  refine ⟨fun pRtpConfig s => ?_, fun pRtpConfig s => ?_, fun pSharedBufferConfig initialized => ?_⟩
  · exact update_reportsOnly pGraphConfig mgr pRtpConfig pValue numBytes s h
  · exact read_reportsOnly pGraphConfig mgr pRtpConfig numBytes s h
  · exact updateSharedBuffer_reportsOnly pGraphConfig pValue numBytes h pSharedBufferConfig initialized

def sampleOutput : RtpConfig := { sampleParameter with isInput := false }

def sampleSharedBuffer : SharedBufferConfig where
  id := 3
  graphId := 0
  numBytes := 4
  column := 1
  row := 0
  numInputs := 0
  numOutputs := 1
  initialized := true
  addr := [0x300]
  producerLocks := [4]
  consumerLocks := [5]

def refusingDriver (calls : ℕ) : List DriverAnswer :=
  { rc := 1, value := 0, bytes := [], progress := 0 } :: willingDriver calls

/-- The three calls at a driver that grants everything. -/
theorem lockCalls_reportOnly_sample :
    HeedsFailure (update (some sampleGraph) sampleManager (some sampleParameter) [1, 2, 3, 4] 4
      ({ state := .fresh, trace := [], script := willingDriver 7 } : World (Event Unit) DriverAnswer GraphState)) ∧
    HeedsFailure ((Prod.fst <$> read (some sampleGraph) sampleManager (some sampleOutput) 4)
      ({ state := .fresh, trace := [], script := willingDriver 7 } : World (Event Unit) DriverAnswer GraphState)) ∧
    HeedsFailure (updateSharedBuffer (some sampleGraph) (some sampleSharedBuffer) [1, 2, 3, 4] 4
      ({ state := [], trace := [], script := willingDriver 7 } : World (Event Unit) DriverAnswer
        (List (BitVec 32)))) := by
  obtain ⟨hupdate, hread, hshared⟩ :=
    lockCalls_reportOnly (some sampleGraph) sampleManager [1, 2, 3, 4] 4 (willingDriver 7) (by decide)
  refine ⟨(hupdate _ _).heeds_iff.mpr ?_, (hread _ _).heeds_iff.mpr ?_, (hshared _ _).heeds_iff.mpr ?_⟩
  · decide +kernel
  · decide +kernel
  · decide +kernel

/-- A parameter whose selector lock is refused is written and both locks are released; so is a shared buffer, and
a read releases a lock it does not hold. -/
theorem refused_lock_unheeded :
    ¬HeedsFailure (update (some sampleGraph) sampleManager (some sampleParameter) [1, 2, 3, 4] 4
      ({ state := .fresh, trace := [], script := refusingDriver 6 } : World (Event Unit) DriverAnswer GraphState)) ∧
    ¬HeedsFailure ((Prod.fst <$> read (some sampleGraph) sampleManager (some sampleOutput) 4)
      ({ state := .fresh, trace := [], script := refusingDriver 6 } : World (Event Unit) DriverAnswer GraphState)) ∧
    ¬HeedsFailure (updateSharedBuffer (some sampleGraph) (some sampleSharedBuffer) [1, 2, 3, 4] 4
      ({ state := [], trace := [], script := refusingDriver 6 } : World (Event Unit) DriverAnswer
        (List (BitVec 32)))) := by
  refine ⟨fun h => ?_, fun h => ?_, fun h => ?_⟩
  · exact absurd (h (by decide +kernel)).1 (by decide +kernel)
  · exact absurd (h (by decide +kernel)).1 (by decide +kernel)
  · exact absurd (h (by decide +kernel)).1 (by decide +kernel)

end AieBaremetal.Graph
