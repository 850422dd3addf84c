import AieBaremetal.Cdo.Commands

/-!
# Where the parser stops and what it has done by then

Cutting the payload into commands needs no register, so every blob, with arbitrary words behind it,
has one list of entries: what each command asks of the registers, closed by a refused entry if the
parser finds a size, a payload length or an opcode it does not accept. The command loop performs the
entries in order. From this follow the bound on its turns and what an error return leaves behind: the
accesses of the entries before the failing one and the reads of a poll that times out.
-/

namespace AieBaremetal.Cdo

open Common Common.Program

def runActions (dev : DevInst) (cdoBase : BitVec 64) : List Action → RegProgram Bool
  | [] => pure true
  | action :: rest => do
    if ← action.run dev cdoBase then runActions dev cdoBase rest else pure false

/-- Perform entries; a refused one and a failing action end the run. -/
def runEntries (dev : DevInst) (cdoBase : BitVec 64) : List Entry → RegProgram AegErr
  | [] => pure .ok
  | .refused :: _ => pure .userError
  | .perform action :: rest => do
    if ← action.run dev cdoBase then runEntries dev cdoBase rest else pure .aieDriverError

def readable (words : ℕ → BitVec 32) : WordMemory := fun i => some (words i)

def commandAt (words : ℕ → BitVec 32) (buf : ℕ) : DecodedCmd :=
  if shortLen (words buf) = kMaxShortCmdLen then
    { payload := buf + kLongCmdHdrLen.toNat, payloadLen := words (buf + 1),
      size := kLongCmdHdrLen + words (buf + 1) }
  else
    { payload := buf + kShortCmdHdrLen.toNat, payloadLen := shortLen (words buf),
      size := kShortCmdHdrLen + shortLen (words buf) }

/-- The entries of a payload; nothing is read behind a refused one. -/
def entriesOf (words : ℕ → BitVec 32) (buf : ℕ) (remaining : BitVec 32) : List Entry :=
  if remaining = 0 then []
  else if _ : (commandAt words buf).size = 0 ∨ remaining < (commandAt words buf).size then [.refused]
  else
    match actionOf words (commandAt words buf) (words buf &&& kCmdApiIdMask) with
    | .refused => [.refused]
    | .perform action =>
      .perform action :: entriesOf words (buf + (commandAt words buf).size.toNat)
        (remaining - (commandAt words buf).size)
termination_by remaining.toNat
decreasing_by exact remaining_decreases ‹_›

def applyCommandsWithin (mem : WordMemory) (dev : DevInst) (cdoBase : BitVec 64) :
    ℕ → ℕ → BitVec 32 → RegProgram (Option AegErr)
  | turns, buf, remaining =>
    if remaining = 0 then pure (some .ok)
    else
      match turns with
      | 0 => pure none
      | turns + 1 => do
        let cmd ← decodeCmd mem buf
        let word0 ← readWord mem buf
        if cmd.size = 0 ∨ remaining < cmd.size then pure (some .userError)
        else do
          let rc ← applyCommand mem dev cdoBase cmd (word0 &&& kCmdApiIdMask)
          match rc with
          | .error code => pure (some code)
          | .ok .xaieErr => pure (some .aieDriverError)
          | .ok .xaieOk =>
            applyCommandsWithin mem dev cdoBase turns (buf + cmd.size.toNat) (remaining - cmd.size)

theorem applyCommandsWithin_eq (mem : WordMemory) (dev : DevInst) (cdoBase : BitVec 64) (turns buf : ℕ)
    (remaining : BitVec 32) (hturns : remaining.toNat ≤ turns) :
    applyCommandsWithin mem dev cdoBase turns buf remaining =
      some <$> applyCommands mem dev cdoBase buf remaining := by
  induction turns generalizing buf remaining with
  | zero =>
    have hzero : remaining = 0 := BitVec.eq_of_toNat_eq (Nat.le_zero.mp hturns)
    rw [applyCommandsWithin, applyCommands, if_pos hzero, if_pos hzero]
    rfl
  | succ turns ih =>
    rw [applyCommandsWithin, applyCommands]
    by_cases hzero : remaining = 0
    · rw [if_pos hzero, if_pos hzero]
      rfl
    · rw [if_neg hzero, if_neg hzero, map_bind]
      congr 1
      funext cmd
      rw [map_bind]
      congr 1
      funext word0
      by_cases hsize : cmd.size = 0 ∨ remaining < cmd.size
      · rw [if_pos hsize, dif_pos hsize]
        rfl
      · rw [if_neg hsize, dif_neg hsize, map_bind]
        congr 1
        funext rc
        rcases rc with code | _ | _
        · rfl
        · have hless := remaining_decreases hsize
          exact ih _ _ (by omega)
        · rfl

section Entries

variable (words : ℕ → BitVec 32) (dev : DevInst) (cdoBase : BitVec 64)

theorem readWord_readable (i : ℕ) : readWord (readable words) i = pure (words i) := rfl

theorem decodeCmd_readable (buf : ℕ) : decodeCmd (readable words) buf = pure (commandAt words buf) := by
  rw [decodeCmd, readWord_readable, pure_bind, commandAt]
  split <;> rfl

theorem applyCommand_readable (cmd : DecodedCmd) (cmdId : BitVec 32) :
    applyCommand (readable words) dev cdoBase cmd cmdId = (actionOf words cmd cmdId).switch dev cdoBase :=
  (applyCommand_reading (readable words) dev cdoBase cmd cmdId).eq fun _ _ => nofun

theorem applyCommands_readable (buf : ℕ) (remaining : BitVec 32) :
    applyCommands (readable words) dev cdoBase buf remaining =
      runEntries dev cdoBase (entriesOf words buf remaining) := by
  -- Induction on the words left, as in the recursion of both sides.
  induction hn : remaining.toNat using Nat.strong_induction_on generalizing buf remaining with
  | _ n ih =>
    subst hn
    rw [applyCommands, entriesOf, decodeCmd_readable, readWord_readable]
    by_cases hzero : remaining = 0
    · rw [if_pos hzero, if_pos hzero]
      rfl
    · rw [if_neg hzero, if_neg hzero, pure_bind, pure_bind]
      by_cases hsize : (commandAt words buf).size = 0 ∨ remaining < (commandAt words buf).size
      · rw [dif_pos hsize, dif_pos hsize]
        rfl
      · rw [dif_neg hsize, dif_neg hsize, applyCommand_readable]
        cases actionOf words (commandAt words buf) (words buf &&& kCmdApiIdMask) with
        | refused => rfl
        | perform action =>
          have hrest := ih _ (remaining_decreases hsize) (buf + (commandAt words buf).size.toNat) _ rfl
          rw [Entry.switch, bind_map_left, runEntries]
          congr 1
          funext succeeded
          cases succeeded with
          | false => rfl
          | true => exact hrest

theorem entriesOf_length_le (buf : ℕ) (remaining : BitVec 32) :
    (entriesOf words buf remaining).length ≤ remaining.toNat := by
  induction hn : remaining.toNat using Nat.strong_induction_on generalizing buf remaining with
  | _ n ih =>
    subst hn
    rw [entriesOf]
    by_cases hzero : remaining = 0
    · rw [if_pos hzero]
      exact Nat.zero_le _
    · have hpos : remaining.toNat ≠ 0 := fun h => hzero (BitVec.eq_of_toNat_eq h)
      rw [if_neg hzero]
      by_cases hsize : (commandAt words buf).size = 0 ∨ remaining < (commandAt words buf).size
      · rw [dif_pos hsize]
        exact Nat.one_le_iff_ne_zero.mpr hpos
      · rw [dif_neg hsize]
        cases actionOf words (commandAt words buf) (words buf &&& kCmdApiIdMask) with
        | refused => exact Nat.one_le_iff_ne_zero.mpr hpos
        | perform action =>
          have hless := remaining_decreases hsize
          have hrest := ih _ hless (buf + (commandAt words buf).size.toNat) _ rfl
          exact Nat.succ_le_of_lt (Nat.lt_of_le_of_lt hrest hless)

end Entries

variable {w w' : World RegAccess (BitVec 32) Unit}

section Runs

variable (dev : DevInst) (cdoBase : BitVec 64)

theorem answeredBy_writeBlock (base : BitVec 64) (i : ℕ) (data : List (BitVec 32)) :
    (writeBlock base i data).AnsweredBy 0 := by
  induction data generalizing i with
  | nil => exact answeredBy_pure _ _
  | cons word rest ih => exact (answeredBy_tell _).bind (fun _ => ih (i + 1)) (Nat.le_refl _)

theorem answeredBy_pollMatch (addr : BitVec 64) (mask value : BitVec 32) (reads : ℕ) :
    (Command.pollMatch addr mask value reads).AnsweredBy reads := by
  induction reads with
  | zero => exact answeredBy_pure _ _
  | succ reads ih =>
    refine (answeredBy_ask _).bind (m := reads) (fun current => ?_) (Nat.le_of_eq (Nat.add_comm _ _))
    split
    · exact answeredBy_pure _ _
    · split
      · exact answeredBy_pure _ _
      · exact (answeredBy_tell _).bind (fun _ => ih) (Nat.le_of_eq (Nat.zero_add _))

/-- The most register reads one command can make. -/
def maxReads : ℕ := 2 ^ 32

theorem answeredBy_run (action : Action) : (action.run dev cdoBase).AnsweredBy maxReads := by
  cases action with
  | write addr value =>
    exact (answeredBy_tell _).bind (fun _ => answeredBy_pure 0 _) (Nat.zero_le _)
  | update addr mask value =>
    refine AnsweredBy.bind (n := 1) ?_ (fun _ => answeredBy_pure 0 _) (by decide)
    exact (answeredBy_ask _).bind (fun _ => answeredBy_tell _) (Nat.le_refl _)
  | poll addr mask value timeoutUs =>
    exact (answeredBy_pollMatch _ _ _ _).mono (maskpollCount timeoutUs).isLt
  | block addr data =>
    exact (answeredBy_writeBlock _ _ _).bind (fun _ => answeredBy_pure 0 _) (Nat.zero_le _)
  | nothing => exact answeredBy_pure _ _

theorem answeredBy_runEntries (entries : List Entry) :
    (runEntries dev cdoBase entries).AnsweredBy (maxReads * entries.length) := by
  induction entries with
  | nil => exact answeredBy_pure _ _
  | cons entry rest ih =>
    cases entry with
    | refused => exact answeredBy_pure _ _
    | perform action =>
      refine (answeredBy_run dev cdoBase action).bind (m := maxReads * rest.length) (fun succeeded => ?_)
        (by rw [List.length_cons, Nat.mul_succ, Nat.add_comm])
      cases succeeded with
      | false => exact answeredBy_pure _ _
      | true => exact ih

def IsPollMiss (addr : BitVec 64) (mask value : BitVec 32) : RegAccess → Prop
  | .read reg regval => reg = addr ∧ regval &&& mask ≠ value
  | .write _ _ => False
  | .usleep _ => True

/-- What the entry that ended a run in an error did. -/
def Entry.FailsFrom (w w' : World RegAccess (BitVec 32) Unit) (code : AegErr) : Entry → Prop
  | .refused => code = .userError ∧ w' = w
  | .perform (.poll addr mask value _) => code = .aieDriverError ∧
      ∃ misses, w'.trace = w.trace ++ misses ∧ ∀ e ∈ misses, IsPollMiss (cdoRegOff addr dev cdoBase) mask value e
  | .perform _ => False

/-- A run ended in an error at entry `k`: the entries before it succeeded, and it added at most the reads of a
poll. -/
def FailsAt (entries : List Entry) (k : ℕ) (w w' : World RegAccess (BitVec 32) Unit) (code : AegErr) : Prop :=
  ∃ done last rest w₁, entries = done.map .perform ++ last :: rest ∧ done.length + 1 = k ∧
    runActions dev cdoBase done w = (.returned true, w₁) ∧ last.FailsFrom dev cdoBase w₁ w' code

theorem pollMatch_false {addr : BitVec 64} {mask value : BitVec 32} {reads : ℕ}
    (hrun : Command.pollMatch addr mask value reads w = (.returned false, w')) :
    ∃ misses, w'.trace = w.trace ++ misses ∧ ∀ e ∈ misses, IsPollMiss addr mask value e := by
  induction reads generalizing w with
  | zero =>
    cases hrun
    exact ⟨[], (List.append_nil _).symm, fun e he => nomatch he⟩
  | succ reads ih =>
    obtain ⟨state, trace, script⟩ := w
    cases script with
    | nil => exact nomatch hrun
    | cons current rest =>
      change (if current &&& mask = value then pure true else _ : RegProgram Bool)
        ⟨state, trace ++ [.read addr current], rest⟩ = _ at hrun
      by_cases hmatch : current &&& mask = value
      · rw [if_pos hmatch] at hrun
        exact nomatch hrun
      · rw [if_neg hmatch] at hrun
        by_cases hlast : reads = 0
        · rw [if_pos hlast] at hrun
          cases hrun
          exact ⟨[.read addr current], rfl, fun e he => by cases List.mem_singleton.mp he; exact ⟨rfl, hmatch⟩⟩
        · rw [if_neg hlast] at hrun
          obtain ⟨misses, htrace, hmisses⟩ := ih (w := ⟨state, _, rest⟩) hrun
          refine ⟨.read addr current :: .usleep minTimeoutUs :: misses, ?_, ?_⟩
          · rw [htrace]
            simp
          · intro e he
            obtain rfl | rfl | he := by simpa using he
            · exact ⟨rfl, hmatch⟩
            · trivial
            · exact hmisses e he

theorem run_false {action : Action} (hrun : action.run dev cdoBase w = (.returned false, w')) :
    (Entry.perform action).FailsFrom dev cdoBase w w' .aieDriverError := by
  cases action with
  | write addr value => exact nomatch hrun
  | update addr mask value =>
    obtain ⟨_, _, -, hfalse⟩ := exists_of_bind_returned hrun
    exact nomatch hfalse
  | poll addr mask value timeoutUs => exact ⟨rfl, pollMatch_false hrun⟩
  | block addr data =>
    obtain ⟨_, _, -, hfalse⟩ := exists_of_bind_returned hrun
    exact nomatch hfalse
  | nothing => exact nomatch hrun

theorem runEntries_failsAt {entries : List Entry} {code : AegErr}
    (hrun : runEntries dev cdoBase entries w = (.returned code, w')) (hcode : code ≠ .ok) :
    ∃ k ≤ entries.length, FailsAt dev cdoBase entries k w w' code := by
  induction entries generalizing w with
  | nil =>
    cases hrun
    exact absurd rfl hcode
  | cons entry rest ih =>
    cases entry with
    | refused =>
      cases hrun
      exact ⟨1, Nat.le_add_left _ _, [], .refused, rest, _, rfl, rfl, rfl, rfl, rfl⟩
    | perform action =>
      obtain ⟨succeeded, w₀, haction, hrest⟩ := exists_of_bind_returned hrun
      cases succeeded with
      | false =>
        cases hrest
        exact ⟨1, Nat.le_add_left _ _, [], .perform action, rest, w, rfl, rfl, rfl, run_false dev cdoBase haction⟩
      | true =>
        obtain ⟨k, hk, done, last, rest', w₁, hsplit, hlen, hdone, hfails⟩ := ih hrest
        refine ⟨k + 1, Nat.succ_le_succ hk, action :: done, last, rest', w₁, ?_, ?_, ?_, hfails⟩
        · rw [hsplit]
          rfl
        · rw [List.length_cons, hlen]
        · rw [runActions, bind_of_returned _ haction]
          exact hdone

end Runs

/-- The words of a blob, with arbitrary words behind them. -/
def wordsThen (blob : List UInt8) (behind : ℕ → BitVec 32) : ℕ → BitVec 32 :=
  fun i => (byteWords blob).getD i (behind i)

/-- The parser on a blob with arbitrary words behind it. -/
def parseBlob (blob : List UInt8) (behind : ℕ → BitVec 32) (dev : DevInst) (cdoBase : BitVec 64) :
    RegProgram AegErr :=
  parseAndApply (some (readable (wordsThen blob behind))) blob.length (some dev) cdoBase

def blobEntries (blob : List UInt8) (behind : ℕ → BitVec 32) : List Entry :=
  entriesOf (wordsThen blob behind) kCdoHdrLen ((byteWords blob).getD 3 0)

theorem wordsThen_of_lt (blob : List UInt8) (behind : ℕ → BitVec 32) {i : ℕ} (hi : i < (byteWords blob).length) :
    readable (wordsThen blob behind) i = (byteWords blob)[i]? := by
  rw [readable, wordsThen, List.getD_eq_getElem?_getD, List.getElem?_eq_getElem hi, Option.getD_some]

theorem parseBlob_of_headerAccepted (blob : List UInt8) (behind : ℕ → BitVec 32) (dev : DevInst)
    (cdoBase : BitVec 64) (haccept : headerAccepted (byteWords blob)) :
    parseBlob blob behind dev cdoBase =
      applyCommands (readable (wordsThen blob behind)) dev cdoBase kCdoHdrLen ((byteWords blob).getD 3 0) :=
  parseAndApply_of_headerAccepted blob dev cdoBase _
    (fun _ hi => wordsThen_of_lt blob behind (Nat.lt_trans hi haccept.1)) haccept

theorem parseBlob_of_not_headerAccepted (blob : List UInt8) (behind : ℕ → BitVec 32) (dev : DevInst)
    (cdoBase : BitVec 64) (hreject : ¬ headerAccepted (byteWords blob)) :
    parseBlob blob behind dev cdoBase = pure .userError := by
  by_cases hlong : kCdoHdrLen < (byteWords blob).length
  · exact parseAndApply_of_not_headerAccepted blob dev cdoBase _
      (fun _ hi => wordsThen_of_lt blob behind (Nat.lt_trans hi hlong)) hreject
  · rw [parseBlob, parseAndApply, ← byteWords_length, if_pos (Nat.not_lt.mp hlong)]

/-- For every blob, words behind it and register oracle: a bad header means `user_error` without an access;
otherwise the loop takes at most as many turns as words are announced, returns once its reads are answered, and an
error at the `k`-th command leaves the accesses of those before it and at most the reads of a poll. -/
theorem parseBlob_error_exits (blob : List UInt8) (behind : ℕ → BitVec 32) (dev : DevInst) (cdoBase : BitVec 64) :
    (¬ headerAccepted (byteWords blob) → parseBlob blob behind dev cdoBase = pure .userError) ∧
    (headerAccepted (byteWords blob) →
      applyCommandsWithin (readable (wordsThen blob behind)) dev cdoBase (announcedLen (byteWords blob)) kCdoHdrLen
          ((byteWords blob).getD 3 0) = some <$> parseBlob blob behind dev cdoBase ∧
      (parseBlob blob behind dev cdoBase).AnsweredBy (maxReads * announcedLen (byteWords blob)) ∧
      ∀ w w' code, parseBlob blob behind dev cdoBase w = (.returned code, w') → code ≠ .ok →
        ∃ k ≤ announcedLen (byteWords blob), FailsAt dev cdoBase (blobEntries blob behind) k w w' code) := by
  refine ⟨parseBlob_of_not_headerAccepted blob behind dev cdoBase, fun haccept => ?_⟩
  have hloop := parseBlob_of_headerAccepted blob behind dev cdoBase haccept
  have hentries : parseBlob blob behind dev cdoBase = runEntries dev cdoBase (blobEntries blob behind) := by
    rw [hloop, applyCommands_readable, blobEntries]
  have hlength : (blobEntries blob behind).length ≤ announcedLen (byteWords blob) :=
    entriesOf_length_le (wordsThen blob behind) kCdoHdrLen ((byteWords blob).getD 3 0)
  refine ⟨?_, ?_, ?_⟩
  · rw [hloop]
    exact applyCommandsWithin_eq _ _ _ _ _ _ (Nat.le_refl _)
  · rw [hentries]
    exact (answeredBy_runEntries dev cdoBase _).mono (Nat.mul_le_mul_left _ hlength)
  · intro w w' code hrun hcode
    rw [hentries] at hrun
    obtain ⟨k, hk, hfails⟩ := runEntries_failsAt dev cdoBase hrun hcode
    exact ⟨k, Nat.le_trans hk hlength, hfails⟩

end AieBaremetal.Cdo
