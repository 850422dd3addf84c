import AieBaremetal.Cdo.Parser

/-!
# What a command asks of the registers

The parser's `switch` first reads the payload words of a command and then accesses registers. Where
the words are there, it is the program of an action that no longer looks at the blob; where one of them
is missing, it faults. Both are said at once by `Reading`, which is composed along the reads.
-/

namespace AieBaremetal.Cdo

open Common Common.Program

def Command.updateMasked (addr : BitVec 64) (mask value : BitVec 32) : RegProgram Unit := do
  let old ← Program.ask (.read addr)
  Program.tell (.write addr ((old &&& ~~~mask) ||| (value &&& mask)))

/-- Read up to `reads` times, with sleeps, until the masked value matches. -/
def Command.pollMatch (addr : BitVec 64) (mask value : BitVec 32) : ℕ → RegProgram Bool
  | 0 => pure false
  | reads + 1 => do
    let current ← Program.ask (.read addr)
    if current &&& mask = value then pure true
    else if reads = 0 then pure false
    else do
      Program.tell (.usleep minTimeoutUs)
      pollMatch addr mask value reads

/-- What a command asks of the registers, at the blob's addresses. -/
inductive Action where
  | write (addr : BitVec 64) (value : BitVec 32)
  | update (addr : BitVec 64) (mask value : BitVec 32)
  | poll (addr : BitVec 64) (mask value timeoutUs : BitVec 32)
  | block (addr : BitVec 64) (data : List (BitVec 32))
  | nothing
  deriving DecidableEq, Repr

/-- Write words behind an address; the byte offset is a 32-bit product. -/
def writeBlock (base : BitVec 64) : ℕ → List (BitVec 32) → RegProgram Unit
  | _, [] => pure ()
  | i, word :: rest => do
    Program.tell (.write (base + (BitVec.ofNat 32 i * 4#32).setWidth 64) word)
    writeBlock base (i + 1) rest

def Action.run (dev : DevInst) (cdoBase : BitVec 64) : Action → RegProgram Bool
  | write addr value => do
    Program.tell (.write (cdoRegOff addr dev cdoBase) value)
    pure true
  | update addr mask value => do
    Command.updateMasked (cdoRegOff addr dev cdoBase) mask value
    pure true
  | poll addr mask value timeoutUs =>
    Command.pollMatch (cdoRegOff addr dev cdoBase) mask value ((maskpollCount timeoutUs).toNat + 1)
  | block addr data => do
    writeBlock (cdoRegOff addr dev cdoBase) 0 data
    pure true
  | nothing => pure true

/-- What the parser finds at its cursor. -/
inductive Entry where
  | perform (action : Action)
  | refused
  deriving DecidableEq, Repr

/-- The driver code a command's success stands for. -/
def rcOf (succeeded : Bool) : AieRC := if succeeded then .xaieOk else .xaieErr

def Entry.switch (dev : DevInst) (cdoBase : BitVec 64) : Entry → RegProgram (Except AegErr AieRC)
  | .refused => pure (.error .userError)
  | .perform action => (fun b => .ok (rcOf b)) <$> action.run dev cdoBase

/-- The 64-bit address in the first two payload words. -/
def payloadAddr (words : ℕ → BitVec 32) (cmd : DecodedCmd) : BitVec 64 :=
  addrOfWords (words cmd.payload) (words (cmd.payload + 1))

/-- What an opcode asks for, if the parser accepts it. -/
def actionOf (words : ℕ → BitVec 32) (cmd : DecodedCmd) (cmdId : BitVec 32) : Entry :=
  if cmdId = kCmdWrite then
    .perform (.write ((words cmd.payload).setWidth 64) (words (cmd.payload + 1)))
  else if cmdId = kCmdMaskWrite then
    .perform (.update ((words cmd.payload).setWidth 64) (words (cmd.payload + 1)) (words (cmd.payload + 2)))
  else if cmdId = kCmdWrite64 then
    .perform (.write (payloadAddr words cmd) (words (cmd.payload + 2)))
  else if cmdId = kCmdMaskWrite64 then
    .perform (.update (payloadAddr words cmd) (words (cmd.payload + 2)) (words (cmd.payload + 3)))
  else if cmdId = kCmdMaskPoll64 then
    if cmd.payloadLen < 5#32 then .refused
    else .perform (.poll (payloadAddr words cmd) (words (cmd.payload + 2)) (words (cmd.payload + 3))
      (words (cmd.payload + 4)))
  else if cmdId = kCmdDmaWrite then
    if cmd.payloadLen < 2#32 then .refused
    else .perform (.block (payloadAddr words cmd)
      ((List.range (cmd.payloadLen - 2#32).toNat).map fun i => words (cmd.payload + 2 + i)))
  else if cmdId = kCmdNop then .perform .nothing
  else .refused

/-- How many payload words the parser reads for an opcode. -/
def wordsRead (cmdId payloadLen : BitVec 32) : ℕ :=
  if cmdId = kCmdWrite then 2
  else if cmdId = kCmdMaskWrite then 3
  else if cmdId = kCmdWrite64 then 3
  else if cmdId = kCmdMaskWrite64 then 4
  else if cmdId = kCmdMaskPoll64 then if payloadLen < 5#32 then 0 else 5
  else if cmdId = kCmdDmaWrite then if payloadLen < 2#32 then 0 else payloadLen.toNat
  else 0

theorem opcode_cases (cmdId : BitVec 32) :
    cmdId = kCmdWrite ∨ cmdId = kCmdMaskWrite ∨ cmdId = kCmdWrite64 ∨ cmdId = kCmdMaskWrite64 ∨
      cmdId = kCmdMaskPoll64 ∨ cmdId = kCmdDmaWrite ∨ cmdId = kCmdNop ∨
      cmdId ∉ [kCmdWrite, kCmdMaskWrite, kCmdWrite64, kCmdMaskWrite64, kCmdMaskPoll64, kCmdDmaWrite, kCmdNop] := by
  simp only [List.mem_cons, List.not_mem_nil, or_false]
  tauto

theorem dmaWrite_count {payloadLen : BitVec 32} (hlen : ¬ payloadLen < 2#32) :
    payloadLen.toNat = (payloadLen - 2#32).toNat + 2 := by
  have hle : 2#32 ≤ payloadLen := by simpa using hlen
  have htwo : 2 ≤ payloadLen.toNat := by simpa [BitVec.le_def] using hle
  rw [BitVec.toNat_sub_of_le hle]
  exact (Nat.sub_add_cancel htwo).symm

/-- The word at an index, or some word where there is none. -/
def wordAt (mem : WordMemory) (i : ℕ) : BitVec 32 := (mem i).getD 0

/-- A program that reads the next `n` words, and faults if one is missing. -/
structure Reading {A : Type} (mem : WordMemory) (i n : ℕ) (p q : RegProgram A) : Prop where
  eq : (∀ j < n, mem (i + j) ≠ none) → p = q
  faults : (∃ j < n, mem (i + j) = none) → p.Faults

section Reads

variable {A B : Type} {mem : WordMemory} {i n : ℕ} {p q : RegProgram A}

theorem reading_zero (p : RegProgram A) : Reading mem i 0 p p :=
  ⟨fun _ => rfl, fun ⟨_, hj, _⟩ => absurd hj (Nat.not_lt_zero _)⟩

theorem reading_succ {next : BitVec 32 → RegProgram A} (h : Reading mem (i + 1) n (next (wordAt mem i)) q) :
    Reading mem i (n + 1) (readWord mem i >>= next) q := by
  have hshift (j : ℕ) : i + (j + 1) = i + 1 + j := by omega
  cases hword : mem i with
  | none => exact ⟨fun hall => absurd hword (hall 0 (Nat.succ_pos n)), fun _ => by
      rw [readWord, hword]
      exact faults_undefined.bind next⟩
  | some word =>
    have hread : readWord mem i >>= next = next (wordAt mem i) := by rw [readWord, wordAt, hword]; rfl
    rw [hread]
    refine ⟨fun hall => h.eq fun j hj => ?_, fun ⟨j, hj, hnone⟩ => ?_⟩
    · rw [← hshift]
      exact hall (j + 1) (Nat.succ_lt_succ hj)
    · cases j with
      | zero => exact absurd (hword.symm.trans hnone) (by simp)
      | succ j => exact h.faults ⟨j, Nat.lt_of_succ_lt_succ hj, (hshift j) ▸ hnone⟩

theorem Reading.bind (h : Reading mem i n p q) (next : A → RegProgram B) :
    Reading mem i n (p >>= next) (q >>= next) :=
  ⟨fun hall => by rw [h.eq hall], fun hmissing => (h.faults hmissing).bind next⟩

theorem Reading.map (h : Reading mem i n p q) {f : A → B} {q' : RegProgram B} (hq : f <$> q = q') :
    Reading mem i n (f <$> p) q' := by
  rw [← hq, map_eq_pure_bind, map_eq_pure_bind]
  exact h.bind _

theorem Reading.after (h : Reading mem i n p q) (e : RegAccess) :
    Reading mem i n (Program.tell e >>= fun _ => p) (Program.tell e >>= fun _ => q) :=
  ⟨fun hall => by rw [h.eq hall], fun hmissing w => h.faults hmissing ⟨w.state, w.trace ++ [e], w.script⟩⟩

theorem reading_blockwrite (mem : WordMemory) (i : ℕ) (base : BitVec 64) (turns k : ℕ) :
    Reading mem (i + k) turns (blockwriteFrom base (fun j => mem (i + j)) turns k)
      (writeBlock base k ((List.range turns).map fun j => wordAt mem (i + k + j))) := by
  induction turns generalizing k with
  | zero => exact reading_zero _
  | succ turns ih =>
    have hshift : ((fun j => wordAt mem (i + k + j)) ∘ Nat.succ) = fun j => wordAt mem (i + (k + 1) + j) := by
      funext j
      exact congrArg (wordAt mem) (by rw [Nat.succ_eq_add_one]; omega)
    rw [List.range_succ_eq_map, List.map_cons, List.map_map, hshift]
    exact reading_succ ((ih (k + 1)).after _)

theorem maskpollFrom_eq_pollMatch (addr : BitVec 64) (mask value : BitVec 32) (count : ℕ) :
    maskpollFrom addr mask value count = rcOf <$> Command.pollMatch addr mask value (count + 1) := by
  induction count with
  | zero =>
    simp only [maskpollFrom, Command.pollMatch, cdoRegRead32, xilIn32, map_bind, if_true]
    congr 1
    funext current
    split <;> rfl
  | succ count ih =>
    rw [maskpollFrom, Command.pollMatch]
    simp only [cdoRegRead32, xilIn32, map_bind, Nat.succ_ne_zero, if_false]
    congr 1
    funext current
    split
    · rfl
    · rw [map_bind, ← ih]

section Switch

variable (mem : WordMemory) (dev : DevInst) (cdoBase : BitVec 64) (cmd : DecodedCmd)

theorem maskwrite_eq_switch (addr : BitVec 64) (mask value : BitVec 32) :
    Except.ok <$> cdoRegMaskwrite32 (cdoRegOff addr dev cdoBase) mask value =
      (Entry.perform (.update addr mask value)).switch dev cdoBase := by
  have heq (reg : BitVec 64) : cdoRegMaskwrite32 reg mask value =
      (Command.updateMasked reg mask value >>= fun _ => pure .xaieOk) := rfl
  simp only [heq, Entry.switch, Action.run, map_bind]
  rfl

theorem reading_maskPoll64 : Reading mem cmd.payload 5 (Except.ok <$> applyMaskPoll64 mem dev cdoBase cmd)
    ((Entry.perform
      (.poll (payloadAddr (wordAt mem) cmd) (wordAt mem (cmd.payload + 2)) (wordAt mem (cmd.payload + 3))
      (wordAt mem (cmd.payload + 4)))).switch dev cdoBase) := by
  refine Reading.map (p := applyMaskPoll64 mem dev cdoBase cmd)
    (reading_succ (reading_succ (reading_succ (reading_succ (reading_succ (reading_zero _)))))) ?_
  rw [cdoRegMaskpoll, maskpollFrom_eq_pollMatch, Functor.map_map]
  rfl

theorem reading_dmaWrite (hlen : ¬ cmd.payloadLen < 2#32) :
    Reading mem cmd.payload cmd.payloadLen.toNat (Except.ok <$> applyDmaWrite mem dev cdoBase cmd)
      ((Entry.perform (.block (payloadAddr (wordAt mem) cmd) ((List.range (cmd.payloadLen - 2#32).toNat).map
        fun i => wordAt mem (cmd.payload + 2 + i)))).switch dev cdoBase) := by
  have hblock := reading_blockwrite mem (cmd.payload + 2) (cdoRegOff (payloadAddr (wordAt mem) cmd) dev cdoBase)
    (cmd.payloadLen - 2#32).toNat 0
  rw [dmaWrite_count hlen]
  refine Reading.map (p := applyDmaWrite mem dev cdoBase cmd) (reading_succ (reading_succ (hblock.bind _))) ?_
  simp only [Entry.switch, Action.run, map_bind]
  rfl

/-- The switch reads the payload words of its opcode and performs their action. -/
theorem applyCommand_reading (cmdId : BitVec 32) :
    Reading mem cmd.payload (wordsRead cmdId cmd.payloadLen) (applyCommand mem dev cdoBase cmd cmdId)
      ((actionOf (wordAt mem) cmd cmdId).switch dev cdoBase) := by
  obtain rfl | rfl | rfl | rfl | rfl | rfl | rfl | hother := opcode_cases cmdId
  · exact Reading.map (p := applyWrite mem dev cdoBase cmd) (reading_succ (reading_succ (reading_zero _))) rfl
  · exact Reading.map (p := applyMaskWrite mem dev cdoBase cmd)
      (reading_succ (reading_succ (reading_succ (reading_zero _)))) (maskwrite_eq_switch ..)
  · exact Reading.map (p := applyWrite64 mem dev cdoBase cmd)
      (reading_succ (reading_succ (reading_succ (reading_zero _)))) rfl
  · exact Reading.map (p := applyMaskWrite64 mem dev cdoBase cmd)
      (reading_succ (reading_succ (reading_succ (reading_succ (reading_zero _))))) (maskwrite_eq_switch ..)
  · change Reading mem cmd.payload (if cmd.payloadLen < 5#32 then 0 else 5)
      (if cmd.payloadLen < 5#32 then _ else _) (Entry.switch dev cdoBase (if cmd.payloadLen < 5#32 then _ else _))
    by_cases hlen : cmd.payloadLen < 5#32
    · rw [if_pos hlen, if_pos hlen, if_pos hlen]
      exact reading_zero _
    · rw [if_neg hlen, if_neg hlen, if_neg hlen]
      exact reading_maskPoll64 mem dev cdoBase cmd
  · change Reading mem cmd.payload (if cmd.payloadLen < 2#32 then 0 else cmd.payloadLen.toNat)
      (if cmd.payloadLen < 2#32 then _ else _) (Entry.switch dev cdoBase (if cmd.payloadLen < 2#32 then _ else _))
    by_cases hlen : cmd.payloadLen < 2#32
    · rw [if_pos hlen, if_pos hlen, if_pos hlen]
      exact reading_zero _
    · rw [if_neg hlen, if_neg hlen, if_neg hlen]
      exact reading_dmaWrite mem dev cdoBase cmd hlen
  · exact reading_zero _
  · simp only [List.mem_cons, List.not_mem_nil, or_false, not_or] at hother
    simp only [applyCommand, actionOf, wordsRead, hother, if_false]
    exact reading_zero _

end Switch

end Reads

end AieBaremetal.Cdo
