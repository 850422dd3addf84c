import AieBaremetal.Cdo.Bounds
import Mathlib.Tactic.IntervalCases

/-!
# What a blob of well-formed commands means

Commands as a CDO writer thinks of them, their two wire forms and their meaning as register
accesses. The parser over a header, serialised commands and anything behind them is the program that
runs the meanings in order and stops at the first poll that fails; the equality is between programs,
so it covers every register oracle and runs that still wait for a read.

An empty command list is only accepted with a trailing word, although `BufLen = 0` announces nothing.
-/

namespace AieBaremetal.Cdo

open Common

/-- A command with its operands; block writes have fewer than `2 ^ 30` words. -/
inductive Command where
  | write (addr value : BitVec 32)
  | maskWrite (addr mask value : BitVec 32)
  | write64 (addr : BitVec 64) (value : BitVec 32)
  | maskWrite64 (addr : BitVec 64) (mask value : BitVec 32)
  | maskPoll64 (addr : BitVec 64) (mask value timeoutUs : BitVec 32)
  | dmaWrite (addr : BitVec 64) (data : { words : List (BitVec 32) // words.length < 2 ^ 30 })
  | nop (ignored : List (BitVec 32))

namespace Command

def opcode : Command → BitVec 8
  | write .. => 3#8
  | maskWrite .. => 2#8
  | write64 .. => 8#8
  | maskWrite64 .. => 7#8
  | maskPoll64 .. => 6#8
  | dmaWrite .. => 5#8
  | nop .. => 17#8

def addrHi (addr : BitVec 64) : BitVec 32 := addr.extractLsb' 32 32

def addrLo (addr : BitVec 64) : BitVec 32 := addr.extractLsb' 0 32

def payload : Command → List (BitVec 32)
  | write addr value => [addr, value]
  | maskWrite addr mask value => [addr, mask, value]
  | write64 addr value => [addrHi addr, addrLo addr, value]
  | maskWrite64 addr mask value => [addrHi addr, addrLo addr, mask, value]
  | maskPoll64 addr mask value timeoutUs => [addrHi addr, addrLo addr, mask, value, timeoutUs]
  | dmaWrite addr data => addrHi addr :: addrLo addr :: data.val
  | nop ignored => ignored

def writeAll (addr : BitVec 64) : List (BitVec 32) → RegProgram Unit
  | [] => pure ()
  | word :: rest => do
    Program.tell (.write addr word)
    writeAll (addr + 4#64) rest

/-- The accesses a command stands for, and whether it succeeds. -/
def run (dev : DevInst) (cdoBase : BitVec 64) : Command → RegProgram Bool
  | write addr value => do
    Program.tell (.write (cdoRegOff (addr.setWidth 64) dev cdoBase) value)
    pure true
  | maskWrite addr mask value => do
    updateMasked (cdoRegOff (addr.setWidth 64) dev cdoBase) mask value
    pure true
  | write64 addr value => do
    Program.tell (.write (cdoRegOff addr dev cdoBase) value)
    pure true
  | maskWrite64 addr mask value => do
    updateMasked (cdoRegOff addr dev cdoBase) mask value
    pure true
  | maskPoll64 addr mask value timeoutUs =>
    pollMatch (cdoRegOff addr dev cdoBase) mask value ((maskpollCount timeoutUs).toNat + 1)
  | dmaWrite addr data => do
    writeAll (cdoRegOff addr dev cdoBase) data.val
    pure true
  | nop _ => pure true

end Command

def runCommands (dev : DevInst) (cdoBase : BitVec 64) : List Command → RegProgram Bool
  | [] => pure true
  | command :: rest => do
    if ← command.run dev cdoBase then runCommands dev cdoBase rest else pure false

/-- A command in a wire form, with arbitrary unused bits. -/
structure WireCommand where
  command : Command
  isLong : Bool
  unusedHigh : BitVec 8
  unusedLow : BitVec 8
  /-- The short form has room for payloads below 255 words. -/
  short_fits : isLong = false → command.payload.length < 255

namespace WireCommand

/-- The first word: unused, short length, unused, opcode. -/
def firstWord (wire : WireCommand) (lenByte : BitVec 8) : BitVec 32 :=
  wire.unusedHigh ++ lenByte ++ wire.unusedLow ++ wire.command.opcode

def header (wire : WireCommand) : List (BitVec 32) :=
  if wire.isLong then [wire.firstWord 255#8, BitVec.ofNat 32 wire.command.payload.length]
  else [wire.firstWord (BitVec.ofNat 8 wire.command.payload.length)]

def words (wire : WireCommand) : List (BitVec 32) := wire.header ++ wire.command.payload

end WireCommand

def payloadWords (wires : List WireCommand) : List (BitVec 32) := wires.flatMap WireCommand.words

/-- A header: two free words, magic, payload length, checksum. -/
def headerWords (w0 w2 : BitVec 32) (payloadLen : ℕ) : List (BitVec 32) :=
  [w0, kCdoHdrIdnWrd, w2, BitVec.ofNat 32 payloadLen,
    headerChecksum w0 kCdoHdrIdnWrd w2 (BitVec.ofNat 32 payloadLen)]

/-- The bytes of a header and serialised commands. -/
def serialize (w0 w2 : BitVec 32) (wires : List WireCommand) : List UInt8 :=
  (headerWords w0 w2 (payloadWords wires).length ++ payloadWords wires).flatMap wordBytes

def resultCode (succeeded : Bool) : AegErr := if succeeded then .ok else .aieDriverError

section Words

theorem addrOfWords_halves (addr : BitVec 64) :
    addrOfWords (Command.addrHi addr) (Command.addrLo addr) = addr := by
  apply BitVec.eq_of_getLsbD_eq
  intro i hi
  simp only [addrOfWords, Command.addrHi, Command.addrLo, BitVec.getLsbD_or, BitVec.getLsbD_shiftLeft,
    BitVec.getLsbD_setWidth, BitVec.getLsbD_extractLsb', hi, decide_true, Bool.true_and, Nat.zero_add]
  by_cases hlow : i < 32
  · simp [hlow]
  · simp [hlow, show i - 32 < 32 by omega, show i - 32 < 64 by omega, show 32 + (i - 32) = i by omega]

theorem firstWord_getLsbD (wire : WireCommand) (lenByte : BitVec 8) (i : ℕ) :
    (wire.firstWord lenByte).getLsbD i = if i < 8 then wire.command.opcode.getLsbD i
      else if i < 16 then wire.unusedLow.getLsbD (i - 8)
      else if i < 24 then lenByte.getLsbD (i - 16) else wire.unusedHigh.getLsbD (i - 24) := by
  change BitVec.getLsbD (w := 8 + 8 + 8 + 8)
    (wire.unusedHigh ++ lenByte ++ wire.unusedLow ++ wire.command.opcode) i = _
  rw [BitVec.getLsbD_append, BitVec.getLsbD_append, BitVec.getLsbD_append, Nat.sub_sub, Nat.sub_sub]
  split_ifs <;> first | rfl | omega

theorem firstWord_opcode (wire : WireCommand) (lenByte : BitVec 8) :
    wire.firstWord lenByte &&& kCmdApiIdMask = wire.command.opcode.setWidth 32 := by
  apply BitVec.eq_of_getLsbD_eq
  intro i hi
  rw [BitVec.getLsbD_and, firstWord_getLsbD, BitVec.getLsbD_setWidth]
  interval_cases i <;> simp [kCmdApiIdMask]

theorem shortLen_firstWord (wire : WireCommand) (lenByte : BitVec 8) :
    shortLen (wire.firstWord lenByte) = lenByte.setWidth 32 := by
  apply BitVec.eq_of_getLsbD_eq
  intro i hi
  rw [shortLen, BitVec.getLsbD_ushiftRight, BitVec.getLsbD_and, firstWord_getLsbD, BitVec.getLsbD_setWidth]
  interval_cases i <;> simp [kCmdLenMask, kCmdLenShift]

theorem words_length (wire : WireCommand) :
    wire.words.length = wire.header.length + wire.command.payload.length :=
  List.length_append

theorem words_length_pos (wire : WireCommand) : 0 < wire.words.length := by
  rw [words_length, WireCommand.header]
  split <;> simp

theorem commandExtent_words (wire : WireCommand) (rest : List (BitVec 32)) :
    commandExtent (wire.words ++ rest) =
      some { payload := wire.header.length, payloadLen := BitVec.ofNat 32 wire.command.payload.length,
             size := BitVec.ofNat 32 wire.words.length } := by
  rw [words_length]
  by_cases hlong : wire.isLong
  · rw [WireCommand.words, WireCommand.header, if_pos hlong]
    simp only [List.cons_append, List.nil_append, commandExtent, shortLen_firstWord, BitVec.ofNat_add]
    rw [if_pos (by decide)]
    rfl
  · have hfits := wire.short_fits (by simpa using hlong)
    have hbyte : (BitVec.ofNat 8 wire.command.payload.length).setWidth 32 =
        BitVec.ofNat 32 wire.command.payload.length := by
      apply BitVec.eq_of_toNat_eq
      simp only [BitVec.toNat_setWidth, BitVec.toNat_ofNat]
      omega
    have hne : BitVec.ofNat 32 wire.command.payload.length ≠ kMaxShortCmdLen := by
      intro heq
      have hnat := congrArg BitVec.toNat heq
      simp only [BitVec.toNat_ofNat, kMaxShortCmdLen] at hnat
      omega
    rw [WireCommand.words, WireCommand.header, if_neg hlong]
    simp only [List.cons_append, List.nil_append, commandExtent, shortLen_firstWord, BitVec.ofNat_add, hbyte]
    rw [if_neg hne]
    rfl

theorem commandId_words (wire : WireCommand) (rest : List (BitVec 32)) :
    commandId (wire.words ++ rest) = wire.command.opcode.setWidth 32 := by
  by_cases hlong : wire.isLong
  · rw [WireCommand.words, WireCommand.header, if_pos hlong]
    exact firstWord_opcode wire _
  · rw [WireCommand.words, WireCommand.header, if_neg hlong]
    exact firstWord_opcode wire _

end Words

section Meaning

variable (dev : DevInst) (cdoBase : BitVec 64)

theorem writeBlock_eq_writeAll (base : BitVec 64) (data : List (BitVec 32)) (i : ℕ)
    (hlen : i + data.length ≤ 2 ^ 30) :
    writeBlock base i data = Command.writeAll (base + BitVec.ofNat 64 (4 * i)) data := by
  induction data generalizing i with
  | nil => rfl
  | cons word rest ih =>
    rw [List.length_cons] at hlen
    have hoff : (BitVec.ofNat 32 i * 4#32).setWidth 64 = BitVec.ofNat 64 (4 * i) := by
      apply BitVec.eq_of_toNat_eq
      simp only [BitVec.toNat_setWidth, BitVec.toNat_mul, BitVec.toNat_ofNat]
      omega
    have hnext : base + BitVec.ofNat 64 (4 * i) + 4#64 = base + BitVec.ofNat 64 (4 * (i + 1)) := by
      rw [Nat.mul_succ, BitVec.ofNat_add, BitVec.add_assoc]
    rw [writeBlock, hoff, ih (i + 1) (by omega), Command.writeAll, hnext]

theorem wordsRead_le (command : Command) :
    wordsRead (command.opcode.setWidth 32) (BitVec.ofNat 32 command.payload.length) ≤ command.payload.length := by
  cases command with
  | dmaWrite addr data =>
    change (if _ then 0 else (BitVec.ofNat 32 _).toNat) ≤ _
    split
    · exact Nat.zero_le _
    · rw [BitVec.toNat_ofNat]
      exact Nat.mod_le _ _
  | nop ignored => exact Nat.zero_le _
  | _ => exact Nat.le_refl _

/-- The parser's switch performs a well-formed command's meaning. -/
theorem applyCommand_eq_run {mem : WordMemory} {buf : ℕ} {rest : List (BitVec 32)} (command : Command)
    (size : BitVec 32) (h : HoldsAt mem buf (command.payload ++ rest)) :
    applyCommand mem dev cdoBase ⟨buf, BitVec.ofNat 32 command.payload.length, size⟩
        (command.opcode.setWidth 32) = (fun b => .ok (rcOf b)) <$> command.run dev cdoBase := by
  have hfits : 0 + wordsRead (command.opcode.setWidth 32) (BitVec.ofNat 32 command.payload.length) ≤
      (command.payload ++ rest).length := by
    have := wordsRead_le command
    rw [List.length_append]
    omega
  have hword (k : ℕ) {word : BitVec 32} (hk : (command.payload ++ rest)[k]? = some word) :
      wordAt mem (buf + k) = word := by rw [wordAt, h, hk, Option.getD_some]
  have haddr {addr : BitVec 64} (hhi : (command.payload ++ rest)[0]? = some (Command.addrHi addr))
      (hlo : (command.payload ++ rest)[1]? = some (Command.addrLo addr)) :
      addrOfWords (wordAt mem (buf + 0)) (wordAt mem (buf + 1)) = addr := by
    rw [hword 0 hhi, hword 1 hlo, addrOfWords_halves]
  rw [(applyCommand_reading mem dev cdoBase _ _).eq (h.present hfits)]
  cases command with
  | write addr value =>
    change Entry.switch dev cdoBase (.perform (.write ((wordAt mem (buf + 0)).setWidth 64) _)) = _
    rw [hword 0 rfl, hword 1 rfl]
    rfl
  | maskWrite addr mask value =>
    change Entry.switch dev cdoBase (.perform (.update ((wordAt mem (buf + 0)).setWidth 64) _ _)) = _
    rw [hword 0 rfl, hword 1 rfl, hword 2 rfl]
    rfl
  | write64 addr value =>
    change Entry.switch dev cdoBase (.perform (.write (addrOfWords (wordAt mem (buf + 0)) _) _)) = _
    rw [haddr rfl rfl, hword 2 rfl]
    rfl
  | maskWrite64 addr mask value =>
    change Entry.switch dev cdoBase (.perform (.update (addrOfWords (wordAt mem (buf + 0)) _) _ _)) = _
    rw [haddr rfl rfl, hword 2 rfl, hword 3 rfl]
    rfl
  | maskPoll64 addr mask value timeoutUs =>
    change Entry.switch dev cdoBase (.perform (.poll (addrOfWords (wordAt mem (buf + 0)) _) _ _ _)) = _
    rw [haddr rfl rfl, hword 2 rfl, hword 3 rfl, hword 4 rfl]
    rfl
  | dmaWrite addr data =>
    have hdata := data.property
    have htotal : (Command.dmaWrite addr data).payload.length = data.val.length + 2 := rfl
    have hlong : ¬ BitVec.ofNat 32 (Command.dmaWrite addr data).payload.length < 2#32 := by
      rw [BitVec.lt_def, BitVec.toNat_ofNat, BitVec.toNat_ofNat, htotal]
      omega
    have hcount : (BitVec.ofNat 32 (Command.dmaWrite addr data).payload.length - 2#32).toNat = data.val.length := by
      rw [htotal, BitVec.ofNat_add, BitVec.add_sub_cancel, BitVec.toNat_ofNat]
      omega
    have hread : (List.range data.val.length).map (fun i => wordAt mem (buf + 2 + i)) = data.val := by
      refine List.ext_getElem (by simp) fun k _ hk => ?_
      rw [List.getElem_map, List.getElem_range, Nat.add_assoc, Nat.add_comm 2 k]
      exact hword (k + 2) ((List.getElem?_append_left hk).trans (List.getElem?_eq_getElem hk))
    change Entry.switch dev cdoBase
      (if BitVec.ofNat 32 (Command.dmaWrite addr data).payload.length < 2#32 then .refused
      else .perform (.block (addrOfWords (wordAt mem (buf + 0)) _) _)) = _
    rw [if_neg hlong, haddr rfl rfl, hcount, hread]
    simp only [Entry.switch, Action.run, Command.run]
    rw [writeBlock_eq_writeAll _ _ 0 (by omega), Nat.mul_zero, BitVec.add_zero]
  | nop ignored => rfl

/-- The command loop over serialised commands runs their meanings in order. -/
theorem applyCommands_eq_runCommands {mem : WordMemory} {buf : ℕ} {rest : List (BitVec 32)}
    (wires : List WireCommand) (hlen : (payloadWords wires).length < 2 ^ 32)
    (h : HoldsAt mem buf (payloadWords wires ++ rest)) :
    applyCommands mem dev cdoBase buf (BitVec.ofNat 32 (payloadWords wires).length) =
      resultCode <$> runCommands dev cdoBase (wires.map WireCommand.command) := by
  induction wires generalizing buf with
  | nil => rw [applyCommands]; rfl
  | cons wire wires ih =>
    have hsplit : (payloadWords (wire :: wires)).length = wire.words.length + (payloadWords wires).length := by
      rw [payloadWords, List.flatMap_cons, List.length_append, payloadWords]
    have hassoc : payloadWords (wire :: wires) ++ rest = wire.words ++ (payloadWords wires ++ rest) := by
      rw [payloadWords, List.flatMap_cons, List.append_assoc, payloadWords]
    have hpos := words_length_pos wire
    have hsize : (BitVec.ofNat 32 wire.words.length).toNat = wire.words.length := by
      rw [BitVec.toNat_ofNat]
      omega
    rw [hsplit] at hlen
    rw [hassoc] at h
    have hrest : HoldsAt mem (buf + wire.words.length) (payloadWords wires ++ rest) := by
      have hdrop := h.drop wire.words.length
      rwa [List.drop_left] at hdrop
    have hpayload : HoldsAt mem (buf + wire.header.length)
      (wire.command.payload ++ (payloadWords wires ++ rest)) := by
      have hdrop := h.drop wire.header.length
      rwa [WireCommand.words, List.append_assoc, List.drop_left] at hdrop
    have htotal : (BitVec.ofNat 32 (payloadWords (wire :: wires)).length).toNat =
        wire.words.length + (payloadWords wires).length := by
      rw [hsplit, BitVec.toNat_ofNat, Nat.mod_eq_of_lt hlen]
    have hne : BitVec.ofNat 32 (payloadWords (wire :: wires)).length ≠ 0 := by
      intro hzero
      rw [hzero] at htotal
      change 0 = _ at htotal
      omega
    have hfits : ¬ (BitVec.ofNat 32 wire.words.length = 0 ∨
        BitVec.ofNat 32 (payloadWords (wire :: wires)).length < BitVec.ofNat 32 wire.words.length) := by
      rintro (hzero | hlt)
      · rw [hzero] at hsize
        change 0 = _ at hsize
        omega
      · rw [BitVec.lt_def, htotal, hsize] at hlt
        omega
    have hleft : BitVec.ofNat 32 (payloadWords (wire :: wires)).length - BitVec.ofNat 32 wire.words.length =
        BitVec.ofNat 32 (payloadWords wires).length := by
      rw [hsplit, Nat.add_comm, BitVec.ofNat_add, BitVec.add_sub_cancel]
    rw [applyCommands_turn dev cdoBase h hne (commandExtent_words wire _) hfits, commandId_words,
      applyCommand_eq_run dev cdoBase wire.command _ hpayload, List.map_cons, runCommands, map_bind,
      bind_map_left]
    congr 1
    funext succeeded
    cases succeeded with
    | false => rfl
    | true =>
      change applyCommands mem dev cdoBase (buf + (BitVec.ofNat 32 wire.words.length).toNat)
        (BitVec.ofNat 32 (payloadWords (wire :: wires)).length - BitVec.ofNat 32 wire.words.length) = _
      rw [hsize, hleft, ih (by omega) hrest]
      rfl

end Meaning

/-- The parser applies every serialised list of well-formed commands, up to the first failing poll, if a word
stands behind the header. -/
theorem parseAndApply_serialize (w0 w2 : BitVec 32) (wires : List WireCommand) (trailing : List UInt8)
    (dev : DevInst) (cdoBase : BitVec 64) (hlen : (payloadWords wires).length < 2 ^ 32)
    (hword : wires ≠ [] ∨ 4 ≤ trailing.length) :
    parseAndApply (some (blobMemory (serialize w0 w2 wires ++ trailing)))
        (serialize w0 w2 wires ++ trailing).length (some dev) cdoBase =
      resultCode <$> runCommands dev cdoBase (wires.map WireCommand.command) := by
  have hwords : byteWords (serialize w0 w2 wires ++ trailing) =
      headerWords w0 w2 (payloadWords wires).length ++ (payloadWords wires ++ byteWords trailing) := by
    rw [serialize, byteWords_flatMap, List.append_assoc]
  have hbuf : (BitVec.ofNat 32 (payloadWords wires).length).toNat = (payloadWords wires).length := by
    rw [BitVec.toNat_ofNat, Nat.mod_eq_of_lt hlen]
  have hbehind : 0 < (payloadWords wires ++ byteWords trailing).length := by
    rw [List.length_append, byteWords_length]
    obtain hne | hfour := hword
    · obtain ⟨wire, rest, rfl⟩ := List.exists_cons_of_ne_nil hne
      have hpos := words_length_pos wire
      rw [payloadWords, List.flatMap_cons, List.length_append]
      omega
    · omega
  have haccept : headerAccepted (byteWords (serialize w0 w2 wires ++ trailing)) := by
    rw [hwords]
    refine ⟨?_, rfl, rfl, ?_⟩
    · rw [List.length_append]
      exact Nat.lt_add_of_pos_right hbehind
    · change (BitVec.ofNat 32 (payloadWords wires).length).toNat ≤ _
      rw [hbuf, List.length_append, List.length_append]
      exact Nat.le_sub_of_add_le
        (by rw [kCdoHdrLen, headerWords]; simp only [List.length_cons, List.length_nil]; omega)
  have hholds : HoldsAt (blobMemory (serialize w0 w2 wires ++ trailing)) kCdoHdrLen
      (payloadWords wires ++ byteWords trailing) := by
    intro k
    have hheader : (headerWords w0 w2 (payloadWords wires).length).length = kCdoHdrLen := rfl
    rw [blobMemory, hwords, ← hheader, List.getElem?_append_right (Nat.le_add_right _ _), Nat.add_sub_cancel_left]
  have hloop := parseAndApply_of_headerAccepted _ dev cdoBase
    (blobMemory (serialize w0 w2 wires ++ trailing)) (fun _ _ => rfl) haccept
  rw [hloop, hwords]
  exact applyCommands_eq_runCommands dev cdoBase wires hlen hholds

def sampleWrite : WireCommand :=
  { command := .write 0x10#32 7#32, isLong := false, unusedHigh := 0#8, unusedLow := 0#8,
    short_fits := fun _ => by decide }

/-- A short write, a long block write, a long `nop` and a short poll, with unused bits set. -/
def sampleWires : List WireCommand :=
  [sampleWrite,
    { command := .dmaWrite 0x100000020#64 ⟨[1#32, 2#32, 3#32], by decide⟩, isLong := true, unusedHigh := 0xAA#8,
      unusedLow := 0x55#8, short_fits := nofun },
    { command := .nop [9#32], isLong := true, unusedHigh := 0#8, unusedLow := 1#8, short_fits := nofun },
    { command := .maskPoll64 0x30#64 1#32 1#32 400#32, isLong := false, unusedHigh := 0xFF#8, unusedLow := 0#8,
      short_fits := fun _ => by decide }]

/-- Both forms are applied, with bytes behind them. -/
theorem parseAndApply_serialize_sample :
    (payloadWords sampleWires).length = 19 ∧
      parseAndApply (some (blobMemory (serialize 4 0x200 sampleWires ++ [0xEE, 0xEE])))
          (serialize 4 0x200 sampleWires ++ [0xEE, 0xEE]).length (some ⟨0⟩) 0 =
        resultCode <$> runCommands ⟨0⟩ 0 (sampleWires.map WireCommand.command) :=
  ⟨by decide, parseAndApply_serialize 4 0x200 sampleWires [0xEE, 0xEE] ⟨0⟩ 0 (by decide) (.inl
    (List.cons_ne_nil _ _))⟩

/-- An empty list with nothing behind it is rejected. -/
theorem parseAndApply_empty_rejected :
    (parseAndApply (some (blobMemory (serialize 0 0 []))) (serialize 0 0 []).length (some ⟨0⟩) 0
        ⟨(), [], []⟩).1 = .returned .userError ∧
      (resultCode <$> runCommands ⟨0⟩ 0 []) ⟨(), [], []⟩ = (.returned .ok, ⟨(), [], []⟩) :=
  ⟨by decide, rfl⟩

end AieBaremetal.Cdo
