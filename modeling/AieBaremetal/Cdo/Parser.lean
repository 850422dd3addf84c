import AieBaremetal.Cdo.Registers
import AieBaremetal.Common.LittleEndian

/-!
# The CDO blob parser

`aeg::cdo::parse_and_apply` with its command decoder. The blob is seen through a word memory that may
have no value at an index; reading there is undefined behaviour, and which indices are readable is
the caller's choice. Commands advance by their announced size, a 32-bit sum that may wrap. The
simulator build, which ignores CDOs, and all log output are left out.
-/

namespace AieBaremetal.Cdo

open Common

/-- The words behind a pointer; `none` where nothing may be read. -/
abbrev WordMemory := ℕ → Option (BitVec 32)

/-- The field of the device instance the loader uses. -/
structure DevInst where
  baseAddr : BitVec 64
  deriving DecidableEq, Repr

/-- Number of words in the blob header. -/
def kCdoHdrLen : ℕ := 5

/-- The header's identification word. -/
def kCdoHdrIdnWrd : BitVec 32 := 0x004F4443#32

def kCmdApiIdMask : BitVec 32 := 0xFF#32

/-- The short payload length in a first word. -/
def kCmdLenMask : BitVec 32 := 0xFF0000#32

/-- Position of the short payload length in the first word. -/
def kCmdLenShift : ℕ := 16

/-- The short length that announces a length word. -/
def kMaxShortCmdLen : BitVec 32 := 255#32

def kShortCmdHdrLen : BitVec 32 := 1#32

def kLongCmdHdrLen : BitVec 32 := 2#32

/-- Opcode of a read-modify-write at a 32-bit address. -/
def kCmdMaskWrite : BitVec 32 := 2#32

def kCmdWrite : BitVec 32 := 3#32

def kCmdDmaWrite : BitVec 32 := 5#32

def kCmdMaskPoll64 : BitVec 32 := 6#32

/-- Opcode of a read-modify-write at a 64-bit address. -/
def kCmdMaskWrite64 : BitVec 32 := 7#32

def kCmdWrite64 : BitVec 32 := 8#32

/-- Opcode of a command without effect. -/
def kCmdNop : BitVec 32 := 17#32

/-- Payload, its length and the size of a command, in words. -/
structure DecodedCmd where
  payload : ℕ
  payloadLen : BitVec 32
  size : BitVec 32
  deriving DecidableEq, Repr

def readWord (mem : WordMemory) (i : ℕ) : RegProgram (BitVec 32) := Program.ofOption (mem i)

/-- The short payload length in a command's first word. -/
def shortLen (word0 : BitVec 32) : BitVec 32 := (word0 &&& kCmdLenMask) >>> kCmdLenShift

/-- Decode a command's extent from one word or, in the long form, two. -/
def decodeCmd (mem : WordMemory) (buf : ℕ) : RegProgram DecodedCmd := do
  let word0 ← readWord mem buf
  if shortLen word0 = kMaxShortCmdLen then do
    let payloadLen ← readWord mem (buf + 1)
    pure { payload := buf + kLongCmdHdrLen.toNat, payloadLen, size := kLongCmdHdrLen + payloadLen }
  else
    pure { payload := buf + kShortCmdHdrLen.toNat, payloadLen := shortLen word0,
           size := kShortCmdHdrLen + shortLen word0 }

/-- Move a CDO address to the base of the device instance. -/
def cdoRegOff (cdoAddr : BitVec 64) (dev : DevInst) (cdoBase : BitVec 64) : BitVec 64 :=
  if cdoAddr &&& cdoBase ≠ 0 then (cdoAddr &&& ~~~cdoBase) ||| dev.baseAddr else cdoAddr

def addrOfWords (hi lo : BitVec 32) : BitVec 64 := (hi.setWidth 64 <<< 32) ||| lo.setWidth 64

section Switch

variable (mem : WordMemory) (dev : DevInst) (cdoBase : BitVec 64) (cmd : DecodedCmd)

/-- Payload `[addr, value]`. -/
def applyWrite : RegProgram AieRC := do
  let addr ← readWord mem cmd.payload
  let value ← readWord mem (cmd.payload + 1)
  cdoRegWrite32 (cdoRegOff (addr.setWidth 64) dev cdoBase) value

/-- Payload `[addr, mask, value]`. -/
def applyMaskWrite : RegProgram AieRC := do
  let addr ← readWord mem cmd.payload
  let mask ← readWord mem (cmd.payload + 1)
  let value ← readWord mem (cmd.payload + 2)
  cdoRegMaskwrite32 (cdoRegOff (addr.setWidth 64) dev cdoBase) mask value

/-- Payload `[addr_hi, addr_lo, value]`. -/
def applyWrite64 : RegProgram AieRC := do
  let hi ← readWord mem cmd.payload
  let lo ← readWord mem (cmd.payload + 1)
  let value ← readWord mem (cmd.payload + 2)
  cdoRegWrite32 (cdoRegOff (addrOfWords hi lo) dev cdoBase) value

/-- Payload `[addr_hi, addr_lo, mask, value]`. -/
def applyMaskWrite64 : RegProgram AieRC := do
  let hi ← readWord mem cmd.payload
  let lo ← readWord mem (cmd.payload + 1)
  let mask ← readWord mem (cmd.payload + 2)
  let value ← readWord mem (cmd.payload + 3)
  cdoRegMaskwrite32 (cdoRegOff (addrOfWords hi lo) dev cdoBase) mask value

/-- `[addr_hi, addr_lo, mask, value, timeout_us]`, after the length check. -/
def applyMaskPoll64 : RegProgram AieRC := do
  let hi ← readWord mem cmd.payload
  let lo ← readWord mem (cmd.payload + 1)
  let mask ← readWord mem (cmd.payload + 2)
  let value ← readWord mem (cmd.payload + 3)
  let timeoutUs ← readWord mem (cmd.payload + 4)
  cdoRegMaskpoll (cdoRegOff (addrOfWords hi lo) dev cdoBase) mask value timeoutUs

/-- `[addr_hi, addr_lo, data0, data1, ...]`, after the length check. -/
def applyDmaWrite : RegProgram AieRC := do
  let hi ← readWord mem cmd.payload
  let lo ← readWord mem (cmd.payload + 1)
  cdoRegBlockwrite32 (cdoRegOff (addrOfWords hi lo) dev cdoBase)
    (fun i => mem (cmd.payload + 2 + i)) (cmd.payloadLen - 2#32)

/-- The `switch`: a driver code, or an error returned at once. -/
def applyCommand (cmdId : BitVec 32) : RegProgram (Except AegErr AieRC) :=
  if cmdId = kCmdWrite then .ok <$> applyWrite mem dev cdoBase cmd
  else if cmdId = kCmdMaskWrite then .ok <$> applyMaskWrite mem dev cdoBase cmd
  else if cmdId = kCmdWrite64 then .ok <$> applyWrite64 mem dev cdoBase cmd
  else if cmdId = kCmdMaskWrite64 then .ok <$> applyMaskWrite64 mem dev cdoBase cmd
  else if cmdId = kCmdMaskPoll64 then
    if cmd.payloadLen < 5#32 then pure (.error .userError) else .ok <$> applyMaskPoll64 mem dev cdoBase cmd
  else if cmdId = kCmdDmaWrite then
    if cmd.payloadLen < 2#32 then pure (.error .userError) else .ok <$> applyDmaWrite mem dev cdoBase cmd
  else if cmdId = kCmdNop then pure (.ok .xaieOk)
  else pure (.error .userError)

end Switch

/-- An accepted size makes progress and stays in the payload. -/
theorem remaining_decreases {remaining size : BitVec 32} (hsize : ¬ (size = 0 ∨ remaining < size)) :
    (remaining - size).toNat < remaining.toNat := by
  obtain ⟨hzero, hle⟩ := not_or.mp hsize
  have hpos : size.toNat ≠ 0 := fun h => hzero (BitVec.eq_of_toNat_eq h)
  have hfits : size.toNat ≤ remaining.toNat := by
    rw [BitVec.lt_def] at hle
    omega
  rw [BitVec.toNat_sub_of_le (by rwa [BitVec.le_def])]
  omega

def applyCommands (mem : WordMemory) (dev : DevInst) (cdoBase : BitVec 64) (buf : ℕ)
    (remaining : BitVec 32) : RegProgram AegErr :=
  if remaining = 0 then pure .ok
  else do
    let cmd ← decodeCmd mem buf
    let word0 ← readWord mem buf
    if _ : cmd.size = 0 ∨ remaining < cmd.size then pure .userError
    else do
      let rc ← applyCommand mem dev cdoBase cmd (word0 &&& kCmdApiIdMask)
      match rc with
      | .error code => pure code
      | .ok .xaieErr => pure .aieDriverError
      | .ok .xaieOk => applyCommands mem dev cdoBase (buf + cmd.size.toNat) (remaining - cmd.size)
termination_by remaining.toNat
decreasing_by exact remaining_decreases ‹_›

/-- The sum of the first four header words, inverted. -/
def headerChecksum (w0 w1 w2 w3 : BitVec 32) : BitVec 32 := (w0 + w1 + w2 + w3) ^^^ 0xFFFFFFFF#32

/-- Validate a blob's header and apply its commands. -/
def parseAndApply (data : Option WordMemory) (len : ℕ) (dev : Option DevInst) (cdoBase : BitVec 64) :
    RegProgram AegErr :=
  match data, dev with
  | none, _ => pure .userError
  | some _, none => pure .userError
  | some hdr, some dev =>
    if len / 4 ≤ kCdoHdrLen then pure .userError
    else do
      let magic ← readWord hdr 1
      if magic ≠ kCdoHdrIdnWrd then pure .userError
      else do
        let w0 ← readWord hdr 0
        let w1 ← readWord hdr 1
        let w2 ← readWord hdr 2
        let w3 ← readWord hdr 3
        let expected ← readWord hdr 4
        if headerChecksum w0 w1 w2 w3 ≠ expected then pure .userError
        else do
          let bufLen ← readWord hdr 3
          if len / 4 - kCdoHdrLen < bufLen.toNat then pure .userError
          else applyCommands hdr dev cdoBase kCdoHdrLen bufLen

/-- `aeg::cdo::load` forwards to the parser. -/
def load (data : Option WordMemory) (len : ℕ) (dev : Option DevInst) (cdoBase : BitVec 64) :
    RegProgram AegErr := parseAndApply data len dev cdoBase

def blobMemory (blob : List UInt8) : WordMemory := fun i => (byteWords blob)[i]?

end AieBaremetal.Cdo
