import AieBaremetal.Common.LittleEndian

/-!
# Formats of the host queue

The queue that host and firmware share is a header, thirty-two packets of sixty-four bytes and a
pointer. A packet carries either one `exec_buf` or indirect entries that hold the device address
of a further header; the structures and their byte layouts follow `host_queue.h` field by field.

Bit fields are packed from the low end, as the compilers of the supported targets do.
-/

namespace AieBaremetal.Cert

open Common

def hsaQueueEntry : ℕ := 32

def hsaMaxLevel1IndirectEntries : ℕ := 6

def hsaCompSuccess : BitVec 32 := 4#32

def packetTypeVendorSpecific : BitVec 8 := 0#8

def packetExecBuf : BitVec 16 := 1#16

def packetTest : BitVec 16 := 2#16

def commonHeaderSize : ℕ := 8

def xrtPacketHeaderSize : ℕ := 16

def indirectEntrySize : ℕ := 8

def execBufSize : ℕ := 24

def hostQueuePacketSize : ℕ := 64

def hostQueueHeaderSize : ℕ := 32

/-- Size of `hsa_queue`, with the pointer behind the packets. -/
def hsaQueueSize : ℕ := hostQueueHeaderSize + hsaQueueEntry * hostQueuePacketSize + 8

/-- Offset of `capacity` in the queue's header. -/
def capacityOffset : ℕ := 12

/-- Offset of `write_index` in the queue's header. -/
def writeIndexOffset : ℕ := 16

/-- Offset of `data_address` in the queue's header. -/
def dataAddressOffset : ℕ := 24

def hqEntryOffset (i : ℕ) : ℕ := hostQueueHeaderSize + hostQueuePacketSize * i

/-- The fields of `common_header` that are in use. -/
structure CommonHeader where
  type : BitVec 8
  opcode : BitVec 16
  count : BitVec 16
  distribute : BitVec 8
  indirect : BitVec 8
  deriving DecidableEq, Repr

/-- The bytes of a header behind its first two. -/
def CommonHeader.fieldBytes (header : CommonHeader) : List UInt8 :=
  leBytes 2 header.opcode.toNat ++ leBytes 2 header.count.toNat ++ leBytes 1 header.distribute.toNat ++
    leBytes 1 header.indirect.toNat

/-- The bytes of a header whose fence bits are clear. -/
def CommonHeader.bytes (header : CommonHeader) : List UInt8 := leBytes 2 header.type.toNat ++ header.fieldBytes

/-- An entry with the device address of the next header. -/
structure IndirectEntry where
  hostAddrLow : BitVec 32
  hostAddrHigh : BitVec 25
  ucIndex : BitVec 7
  deriving DecidableEq, Repr

def IndirectEntry.bytes (entry : IndirectEntry) : List UInt8 :=
  leBytes 4 entry.hostAddrLow.toNat ++ leBytes 4 (entry.hostAddrHigh.toNat + 2 ^ 25 * entry.ucIndex.toNat)

/-- The payload that makes the firmware run control code. -/
structure ExecBuf where
  cuIndex : BitVec 16
  dpuControlCodeHostAddrLow : BitVec 32
  dpuControlCodeHostAddrHigh : BitVec 32
  argsLen : BitVec 16
  argsHostAddrLow : BitVec 32
  argsHostAddrHigh : BitVec 32
  deriving DecidableEq, Repr

/-- The bytes of an `exec_buf`; reserved fields are clear. -/
def ExecBuf.bytes (eb : ExecBuf) : List UInt8 :=
  leBytes 2 eb.cuIndex.toNat ++ leBytes 2 0 ++ leBytes 4 eb.dpuControlCodeHostAddrLow.toNat ++
    leBytes 4 eb.dpuControlCodeHostAddrHigh.toNat ++ leBytes 2 eb.argsLen.toNat ++ leBytes 2 0 ++
    leBytes 4 eb.argsHostAddrLow.toNat ++ leBytes 4 eb.argsHostAddrHigh.toNat

@[simp] theorem CommonHeader.bytes_length (header : CommonHeader) : header.bytes.length = 8 := by
  simp [CommonHeader.bytes, CommonHeader.fieldBytes]

@[simp] theorem CommonHeader.fieldBytes_length (header : CommonHeader) : header.fieldBytes.length = 6 := by
  simp [CommonHeader.fieldBytes]

@[simp] theorem IndirectEntry.bytes_length (entry : IndirectEntry) : entry.bytes.length = 8 := by
  simp [IndirectEntry.bytes]

@[simp] theorem ExecBuf.bytes_length (eb : ExecBuf) : eb.bytes.length = 24 := by
  simp [ExecBuf.bytes]

end AieBaremetal.Cert
