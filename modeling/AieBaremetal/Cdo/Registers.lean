import AieBaremetal.Common.Program

/-!
# Register accesses of the CDO loader

The helpers of `aeg_cdo.h` over single 32-bit accesses. `Xil_In32` asks the environment for
the register's value and `Xil_Out32` needs no answer, so a script of read values stands for
an arbitrary register oracle. `uintptr_t` has 64 bits. Sleeping is recorded in the trace;
it moves no register value. Logging is left out.
-/

namespace AieBaremetal.Cdo

open Common

/-- The return codes the loader produces itself. -/
inductive AieRC where
  | xaieOk
  | xaieErr
  deriving DecidableEq, Repr

/-- The runtime's error codes. -/
inductive AegErr where
  | ok
  | userError
  | internalError
  | aieDriverError
  | resourceUnavailable
  | invalidState
  | nullArgument
  | invalidLength
  | invalidName
  | backendNotReady
  | postconditionFailed
  deriving DecidableEq, Repr

/-- A register access with its value, or a sleep. -/
inductive RegAccess where
  | read (addr : BitVec 64) (value : BitVec 32)
  | write (addr : BitVec 64) (value : BitVec 32)
  | usleep (microseconds : ℕ)
  deriving DecidableEq, Repr

/-- Code that accesses registers; an answer is a value read. -/
abbrev RegProgram := Program RegAccess (BitVec 32) Unit

def xilIn32 (addr : BitVec 64) : RegProgram (BitVec 32) := Program.ask (.read addr)

def xilOut32 (addr : BitVec 64) (val : BitVec 32) : RegProgram Unit := Program.tell (.write addr val)

def cdoRegWrite32Raw (addr : BitVec 64) (val : BitVec 32) : RegProgram Unit := xilOut32 addr val

/-- Read a word, replace its masked bits and write it back. -/
def cdoRegMaskwrite32Raw (addr : BitVec 64) (mask val : BitVec 32) : RegProgram Unit := do
  let regval ← xilIn32 addr
  cdoRegWrite32Raw addr ((regval &&& ~~~mask) ||| (val &&& mask))

def cdoRegRead32 (addr : BitVec 64) : RegProgram (BitVec 32) := xilIn32 addr

def cdoRegWrite32 (cdoRegOff : BitVec 64) (val : BitVec 32) : RegProgram AieRC := do
  cdoRegWrite32Raw cdoRegOff val
  pure .xaieOk

/-- Write the masked bits of a word and report success. -/
def cdoRegMaskwrite32 (cdoRegOff : BitVec 64) (mask val : BitVec 32) : RegProgram AieRC := do
  cdoRegMaskwrite32Raw cdoRegOff mask val
  pure .xaieOk

/-- The remaining turns of the block write; the byte offset `i * 4U` is a 32-bit product, widened afterwards. -/
def blockwriteFrom (base : BitVec 64) (src : ℕ → Option (BitVec 32)) : ℕ → ℕ → RegProgram Unit
  | 0, _ => pure ()
  | turns + 1, i => do
    let word ← Program.ofOption (src i)
    cdoRegWrite32Raw (base + (BitVec.ofNat 32 i * 4#32).setWidth 64) word
    blockwriteFrom base src turns (i + 1)

/-- Write `count` words to consecutive registers. -/
def cdoRegBlockwrite32 (cdoRegOff : BitVec 64) (src : ℕ → Option (BitVec 32)) (count : BitVec 32) :
    RegProgram AieRC := do
  blockwriteFrom cdoRegOff src count.toNat 0
  pure .xaieOk

/-- The shortest time between two polls, in microseconds. -/
def minTimeoutUs : ℕ := 200

/-- The counted polls; the last read is the check after the loop. -/
def maskpollFrom (addr : BitVec 64) (mask value : BitVec 32) : ℕ → RegProgram AieRC
  | 0 => do
    let regval ← cdoRegRead32 addr
    if regval &&& mask = value then pure .xaieOk else pure .xaieErr
  | count + 1 => do
    let regval ← cdoRegRead32 addr
    if regval &&& mask = value then pure .xaieOk
    else do
      Program.tell (.usleep minTimeoutUs)
      maskpollFrom addr mask value count

/-- How many polls a timeout buys, in 32-bit arithmetic. -/
def maskpollCount (timeoutUs : BitVec 32) : BitVec 32 :=
  (timeoutUs + BitVec.ofNat 32 minTimeoutUs - 1#32) / BitVec.ofNat 32 minTimeoutUs

/-- Poll until the masked value matches or the count is used up. -/
def cdoRegMaskpoll (cdoRegOff : BitVec 64) (mask value timeoutUs : BitVec 32) : RegProgram AieRC :=
  maskpollFrom cdoRegOff mask value (maskpollCount timeoutUs).toNat

end AieBaremetal.Cdo
