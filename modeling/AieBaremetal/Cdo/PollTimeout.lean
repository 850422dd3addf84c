import AieBaremetal.Cdo.Registers
import Mathlib.Data.BitVec

/-!
# Timeouts of bounded polls

`cdo_reg_maskpoll` and the `wait` of a PL kernel read a register, sleep for 200 microseconds when it is not as
wanted, and count down; a last read follows the loop. The count is the timeout divided by 200 and rounded up.
The sum in front of the division has the width of the timeout, so the 199 largest timeouts wrap around to a
count of zero: the largest value means one read and no wait at all.
-/

namespace AieBaremetal.Cdo

open Common

variable {A : Type}

/-- The counted polls with the check after them. -/
def pollFrom (addr : BitVec 64) (done : BitVec 32 → Bool) (ok timedOut : A) : ℕ → RegProgram A
  | 0 => do
    let regval ← xilIn32 addr
    if done regval then pure ok else pure timedOut
  | count + 1 => do
    let regval ← xilIn32 addr
    if done regval then pure ok
    else do
      Program.tell (.usleep minTimeoutUs)
      pollFrom addr done ok timedOut count

/-- The register value is as `cdo_reg_maskpoll` wants it. -/
def maskMatches (mask value regval : BitVec 32) : Bool := regval &&& mask = value

def apDone (ctrl : BitVec 32) : Bool := ctrl &&& 2#32 ≠ 0#32

/-- The counted polls of a kernel, in 64-bit arithmetic. -/
def waitCount (timeoutUs : BitVec 64) : BitVec 64 :=
  (timeoutUs + BitVec.ofNat 64 minTimeoutUs - 1#64) / BitVec.ofNat 64 minTimeoutUs

/-- `pl_kernel_impl::wait`; the register is at offset 0. -/
def plKernelWait (base timeoutUs : BitVec 64) : RegProgram AegErr :=
  pollFrom base apDone .ok .resourceUnavailable (waitCount timeoutUs).toNat

/-- A poll slept between its reads, succeeded exactly if a read was as wanted, and gave up only after the reads
asked for. -/
def PollsAsAsked (addr : BitVec 64) (done : BitVec 32 → Bool) (ok : A) (timeoutUs : ℕ)
    (run : Outcome A × World RegAccess (BitVec 32) Unit) : Prop :=
  ∀ code, run.1 = .returned code → ∃ values : List (BitVec 32),
    run.2.trace = (values.map (RegAccess.read addr)).intersperse (.usleep 200) ∧
    (code = ok ↔ ∃ v ∈ values, done v) ∧ (code ≠ ok → (timeoutUs + 199) / 200 + 1 ≤ values.length)

theorem maskpollFrom_eq_pollFrom (addr : BitVec 64) (mask value : BitVec 32) (count : ℕ) :
    maskpollFrom addr mask value count = pollFrom addr (maskMatches mask value) .xaieOk .xaieErr count := by
  induction count with
  | zero => simp only [maskpollFrom, pollFrom, cdoRegRead32, maskMatches, decide_eq_true_eq]
  | succ count ih => simp only [maskpollFrom, pollFrom, cdoRegRead32, maskMatches, decide_eq_true_eq, ih]

variable {addr : BitVec 64} {done : BitVec 32 → Bool} {ok timedOut : A} {code : A}
  {w w' : World RegAccess (BitVec 32) Unit}

/-- All reads of a poll but the last were not as wanted. -/
theorem exists_of_pollFrom_returned {count : ℕ}
    (h : pollFrom addr done ok timedOut count w = (.returned code, w')) :
    ∃ before last, w'.trace = w.trace ++ ((before ++ [last]).map (RegAccess.read addr)).intersperse (.usleep 200) ∧
      (∀ v ∈ before, done v = false) ∧ w.script.head? = (before ++ [last]).head? ∧
      (done last = true ∧ code = ok ∨ done last = false ∧ code = timedOut ∧ before.length = count) := by
  induction count generalizing w with
  | zero =>
    obtain ⟨regval, w₀, hread, hrest⟩ := Program.exists_of_bind_returned h
    obtain ⟨rest, hscript, rfl⟩ := Program.exists_of_ask_returned hread
    refine ⟨[], regval, ?_⟩
    cases hdone : done regval <;> simp only [hdone, Bool.false_eq_true, if_true, if_false] at hrest <;>
      cases hrest <;>
      simp [hscript]
  | succ count ih =>
    obtain ⟨regval, w₀, hread, hrest⟩ := Program.exists_of_bind_returned h
    obtain ⟨rest, hscript, rfl⟩ := Program.exists_of_ask_returned hread
    cases hdone : done regval with
    | true =>
      simp only [hdone, if_true] at hrest
      cases hrest
      exact ⟨[], regval, by simp [hscript, hdone]⟩
    | false =>
      simp only [hdone, Bool.false_eq_true, if_false] at hrest
      obtain ⟨before, last, htrace, hbefore, -, hend⟩ := ih hrest
      refine ⟨regval :: before, last, ?_, List.forall_mem_cons.mpr ⟨hdone, hbefore⟩, by simp [hscript], ?_⟩
      · obtain ⟨next, tail, hnext⟩ := List.exists_cons_of_ne_nil (List.concat_ne_nil last before)
        rw [htrace, List.cons_append, hnext]
        simp [minTimeoutUs]
      · simpa using hend

/-- A poll counted modulo `M` waits as long as asked unless the sum wrapped and the first read did not settle it.
-/
theorem pollFrom_asked_iff {M timeoutUs count : ℕ} (hM : 200 ≤ M) (hlt : timeoutUs < M)
    (hcount : count = (timeoutUs + 199) % M / 200) (hne : timedOut ≠ ok) (hstart : w.trace = []) :
    PollsAsAsked addr done ok timeoutUs (pollFrom addr done ok timedOut count w) ↔
      timeoutUs + 199 < M ∨ ∀ v ∈ w.script.head?, done v = true := by
  constructor
  · intro h
    by_contra hcon
    obtain ⟨hwrap, hfirst⟩ := not_or.mp hcon
    -- the count is zero, so the poll gives up after its first read
    have hzero : count = 0 := by
      rw [hcount, Nat.mod_eq_sub_mod (Nat.le_of_not_lt hwrap), Nat.mod_eq_of_lt (by omega)]
      omega
    obtain ⟨script, rfl⟩ : ∃ script, w = ⟨(), [], script⟩ := ⟨w.script, by rw [← hstart]⟩
    cases script with
    | nil => simp at hfirst
    | cons v rest =>
      have hdone : done v = false := by simpa using hfirst
      have hrun : pollFrom addr done ok timedOut 0 ⟨(), [], v :: rest⟩ =
        (.returned timedOut, ⟨(), [.read addr v], rest⟩) := by
        have hread : xilIn32 addr ⟨(), [], v :: rest⟩ = (.returned v, ⟨(), [.read addr v], rest⟩) := rfl
        rw [pollFrom, Program.bind_of_returned _ hread, hdone]
        rfl
      rw [hzero, hrun] at h
      obtain ⟨values, htrace, -, hlong⟩ := h timedOut rfl
      have hlength := congrArg List.length htrace
      rw [List.length_intersperse, List.length_map] at hlength
      have hreads := hlong hne
      simp only [List.length_singleton] at hlength
      omega
  · intro h code hcode
    obtain ⟨w', hrun⟩ : ∃ w', pollFrom addr done ok timedOut count w = (.returned code, w') :=
      ⟨_, Prod.ext hcode rfl⟩
    obtain ⟨before, last, htrace, hbefore, hhead, hend⟩ := exists_of_pollFrom_returned hrun
    have hbefore' : ∀ v ∈ before, ¬ done v = true := fun v hv => by simp [hbefore v hv]
    refine ⟨before ++ [last], by rw [hrun, htrace, hstart, List.nil_append], ?_⟩
    rcases hend with ⟨hdone, rfl⟩ | ⟨hdone, rfl, hlength⟩
    · exact ⟨⟨fun _ => ⟨last, by simp, hdone⟩, fun _ => rfl⟩, fun hcon => absurd rfl hcon⟩
    · refine ⟨⟨fun heq => absurd heq hne, ?_⟩, fun _ => ?_⟩
      · rintro ⟨v, hv, hsome⟩
        rcases List.mem_append.mp hv with hv | hv
        · exact absurd hsome (hbefore' v hv)
        · rw [List.mem_singleton.mp hv, hdone] at hsome
          cases hsome
      · rw [List.length_append, hlength, List.length_singleton]
        refine Nat.succ_le_succ ?_
        rcases h with hfits | hfirst
        · rw [Nat.mod_eq_of_lt hfits] at hcount
          exact Nat.le_of_eq hcount.symm
        · -- the first read was as wanted, so the poll did not give up
          cases before with
          | nil => exact absurd (hfirst last (by simp [hhead])) (by simp [hdone])
          | cons v before => exact absurd (hfirst v (by simp [hhead])) (hbefore' v List.mem_cons_self)

theorem cdoRegMaskpoll_asked_iff (addr : BitVec 64) (mask value timeoutUs : BitVec 32) (script : List (BitVec 32)) :
    PollsAsAsked addr (maskMatches mask value) .xaieOk timeoutUs.toNat
        (cdoRegMaskpoll addr mask value timeoutUs ⟨(), [], script⟩) ↔
      timeoutUs.toNat + 199 < 2 ^ 32 ∨ ∀ v ∈ script.head?, maskMatches mask value v = true := by
  have hcount : (maskpollCount timeoutUs).toNat = (timeoutUs.toNat + 199) % 2 ^ 32 / 200 := by
    have hsum : (timeoutUs + 200#32 - 1#32).toNat = (timeoutUs.toNat + 199) % 2 ^ 32 := by bv_omega
    exact congrArg (· / 200) hsum
  rw [cdoRegMaskpoll, maskpollFrom_eq_pollFrom]
  exact pollFrom_asked_iff (by decide) timeoutUs.isLt hcount (by decide) rfl

theorem plKernelWait_asked_iff (base timeoutUs : BitVec 64) (script : List (BitVec 32)) :
    PollsAsAsked base apDone .ok timeoutUs.toNat (plKernelWait base timeoutUs ⟨(), [], script⟩) ↔
      timeoutUs.toNat + 199 < 2 ^ 64 ∨ ∀ v ∈ script.head?, apDone v = true := by
  have hcount : (waitCount timeoutUs).toNat = (timeoutUs.toNat + 199) % 2 ^ 64 / 200 := by
    have hsum : (timeoutUs + 200#64 - 1#64).toNat = (timeoutUs.toNat + 199) % 2 ^ 64 := by bv_omega
    exact congrArg (· / 200) hsum
  exact pollFrom_asked_iff (by decide) timeoutUs.isLt hcount (by decide) rfl

/-- Both polls wait as long as asked if the timeout plus 199 fits its width, and else only if the first read
settles them. -/
theorem polls_asked_iff (addr base : BitVec 64) (mask value timeout32 : BitVec 32) (timeout64 : BitVec 64)
    (script : List (BitVec 32)) :
    (PollsAsAsked addr (maskMatches mask value) .xaieOk timeout32.toNat
        (cdoRegMaskpoll addr mask value timeout32 ⟨(), [], script⟩) ↔
      timeout32.toNat + 199 < 2 ^ 32 ∨ ∀ v ∈ script.head?, maskMatches mask value v = true) ∧
    (PollsAsAsked base apDone .ok timeout64.toNat (plKernelWait base timeout64 ⟨(), [], script⟩) ↔
      timeout64.toNat + 199 < 2 ^ 64 ∨ ∀ v ∈ script.head?, apDone v = true) :=
  ⟨cdoRegMaskpoll_asked_iff addr mask value timeout32 script, plKernelWait_asked_iff base timeout64 script⟩

/-- The largest timeout: one read and no sleep, although the next read would match. -/
theorem maskpoll_largest_timeout :
    cdoRegMaskpoll 0 1 1 0xFFFFFFFF ⟨(), [], [0, 1]⟩ = (.returned .xaieErr, ⟨(), [.read 0 0], [1]⟩) ∧
    ¬ PollsAsAsked 0 (maskMatches 1 1) AieRC.xaieOk (0xFFFFFFFF#32).toNat
      (cdoRegMaskpoll 0 1 1 0xFFFFFFFF ⟨(), [], [0, 1]⟩) := by
  refine ⟨rfl, fun h => ?_⟩
  rcases (cdoRegMaskpoll_asked_iff ..).mp h with hfits | hfirst
  · exact absurd hfits (by simp)
  · exact absurd (hfirst 0 rfl) (by decide)

end AieBaremetal.Cdo
