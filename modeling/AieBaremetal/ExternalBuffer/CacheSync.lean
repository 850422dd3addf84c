import AieBaremetal.Common.Tiling
import AieBaremetal.ExternalBuffer.FailClosed

/-!
# Which bytes a ping-pong set-up flushes

Before a port's task is pushed, the bytes its descriptors will transfer should have been flushed, in
both buffers, and nothing else. The code flushes one range for a port, from the device address of the
last lookup, taken for a pointer, as long as all transfers of the port together. Earlier ports of the
call count, since their flush comes before. The lengths of the buffers are known to the caller only.
-/

namespace AieBaremetal.ExternalBuffer

open Common AieBaremetal.Runtime Dma Metadata

/-- The range a descriptor transfers in the buffer it selects. -/
def transaction (ping pong : BitVec 64) (bd : ShimBDInfo) : ℕ × ℕ :=
  ((selected ping pong bd).toNat + 4 * bd.offset.toNat, bd.transactionSize.toNat)

section Setup

variable {mgr : ConfigManager} {config : ExternalBufferConfig} {ping pong : BitVec 64} {ports : List ShimPortConfig}
  {rs : List PortReply}

end Setup

end AieBaremetal.ExternalBuffer
