import AieBaremetal.Common.Program
import AieBaremetal.Common.ByteMemory
import AieBaremetal.Cert.HostQueue

/-!
# Submitting control code to the firmware

`cert_api` builds packets in the queue it shares with the firmware and in blocks it allocates per
command. Host memory maps memory instance and offset to bytes, a pointer is an instance with an offset,
and its device address only ever goes into packets. What a fresh block contains is unknown.

Allocations, completion words and the one sync whose result is looked at are answers; other syncs and
wake-ups are only recorded. The firmware writes completion words and `read_index` only. Columns are
what `parse()` leaves in `ccode.cols`, ascending. Of log output only the arguments are evaluated.
-/

namespace AieBaremetal.Cert

open Common

/-- A block of memory: instance, device address and size. -/
structure MemInst where
  id : ℕ
  devAddr : BitVec 64
  size : ℕ
  deriving DecidableEq, Repr

/-- The control code of each column, ascending. -/
abbrev Columns := List (ℤ × List UInt8)

/-- The commands the host submits. -/
inductive CertOp where
  | submitCommand (cols : Columns)
  | submitTestCommand
  deriving DecidableEq, Repr

/-- The fields of the handshake that are not zero. -/
structure Handshake where
  mpaieAlive : BitVec 32
  partitionBaseAddress : BitVec 32
  partitionSize : BitVec 7
  hsaAddrHigh : BitVec 32
  hsaAddrLow : BitVec 32
  deriving DecidableEq, Repr

/-- What the host does. A sync carries its result where it is looked at. -/
inductive HostEvent where
  | enter (op : CertOp)
  | memAllocate (size : ℕ) (devAddr : Option (BitVec 64))
  | memFree (inst : MemInst)
  | memSyncForCpu (inst : MemInst)
  | memSyncForDev (inst : MemInst) (rc : Option (BitVec 32))
  | write (inst : MemInst) (offset : ℕ) (bytes : List UInt8)
  | smpWmb
  | wakeup (col : ℕ)
  | dataMemBlockWrite (col : ℕ) (handshake : Handshake)
  | completion (inst : MemInst) (offset : ℕ) (value : BitVec 32)
  | leave (code : BitVec 32)
  deriving DecidableEq, Repr

/-- An answer: a device address, a return code, a completion word. -/
structure HostAnswer where
  devAddr : Option (BitVec 64)
  rc : BitVec 32
  value : BitVec 32
  deriving DecidableEq, Repr

/-- Device and external buffers of a `cert_api` object. -/
structure CertApi where
  startCol : ℕ
  numCols : ℕ
  colShift : ℕ
  /-- Simulator ids by buffer id, ascending. -/
  externalBufferMap : List (ℤ × ℤ)
  /-- Buffer addresses by simulator id. -/
  externalBufferAddrMap : List (ℤ × BitVec 64)

/-- Bytes of host memory by instance and offset. -/
abbrev HostMemory := ℕ × ℕ → UInt8

/-- The memory and the fields of a `cert_api` object. -/
structure HostState where
  memory : HostMemory
  /-- The instances that are allocated. -/
  live : List MemInst
  nextId : ℕ
  hsaMeminst : Option MemInst
  compSigMeminst : Option MemInst
  hostArgsMeminst : Option MemInst
  hostArgsLow : BitVec 32
  hostArgsHigh : BitVec 32

/-- A fresh object: the memory contains anything. -/
def HostState.fresh (memory : HostMemory) : HostState where
  memory := memory
  live := []
  nextId := 0
  hsaMeminst := none
  compSigMeminst := none
  hostArgsMeminst := none
  hostArgsLow := 0#32
  hostArgsHigh := 0#32

/-- Code of a `cert_api` object. -/
abbrev CertProgram := Program HostEvent HostAnswer HostState

def MemInst.cell (inst : MemInst) (offset i : ℕ) : ℕ × ℕ := (inst.id, offset + i)

def writeBytes (inst : MemInst) (offset : ℕ) (bytes : List UInt8) : CertProgram Unit := do
  Program.modifyState fun s => { s with memory := store s.memory (inst.cell offset) bytes }
  Program.tell (.write inst offset bytes)

def memAllocate (size : ℕ) : CertProgram (Option MemInst) := do
  let answer ← Program.ask fun answer => .memAllocate size answer.devAddr
  match answer.devAddr with
  | none => pure none
  | some devAddr => do
    let s ← Program.getState
    let inst : MemInst := { id := s.nextId, devAddr, size }
    Program.modifyState fun s => { s with live := inst :: s.live, nextId := s.nextId + 1 }
    pure (some inst)

def memFree (inst : MemInst) : CertProgram Unit := do
  Program.modifyState fun s => { s with live := s.live.erase inst }
  Program.tell (.memFree inst)

def memSyncForCpu (inst : MemInst) : CertProgram Unit := Program.tell (.memSyncForCpu inst)

/-- `XAie_MemSyncForDev` whose result is discarded. -/
def memSyncForDev (inst : MemInst) : CertProgram Unit := Program.tell (.memSyncForDev inst none)

/-- Wake up the firmware of every column of the partition. -/
def wakeupCert (host : CertApi) : CertProgram Unit := do
  let _ ← Program.runAll (fun i => Program.tell (.wakeup (host.startCol + i))) (List.range host.numCols)

def aliveMagic : BitVec 32 := 0x404C5645#32

/-- The handshake of a column: only the first learns where the queue is. -/
def handshakeOf (host : CertApi) (hsa : MemInst) (col : ℕ) : Handshake where
  mpaieAlive := aliveMagic
  partitionBaseAddress := BitVec.ofNat 32 host.startCol <<< host.colShift
  partitionSize := BitVec.ofNat 7 host.numCols
  hsaAddrHigh := if col = 0 then (hsa.devAddr >>> 32).setWidth 32 else -1#32
  hsaAddrLow := if col = 0 then hsa.devAddr.setWidth 32 else -1#32

/-- The argument words, high word first; an unknown simulator id has address 0. -/
def hostArgWords (host : CertApi) : List UInt8 :=
  host.externalBufferMap.flatMap fun buffer =>
    let addr := (host.externalBufferAddrMap.lookup buffer.2).getD 0#64
    leBytes 4 (addr >>> 32).toNat ++ leBytes 4 addr.toNat

def HostState.withoutHostArgs (s : HostState) : HostState :=
  { s with hostArgsLow := 0#32, hostArgsHigh := 0#32, hostArgsMeminst := none }

def HostState.withHostArgs (args : MemInst) (s : HostState) : HostState :=
  { s with hostArgsMeminst := some args, hostArgsHigh := (args.devAddr >>> 32).setWidth 32,
           hostArgsLow := args.devAddr.setWidth 32 }

/-- Write the argument block of the external buffers. -/
def parseHostArgs (host : CertApi) : CertProgram Unit :=
  if host.externalBufferMap = [] then Program.modifyState HostState.withoutHostArgs
  else do
    match ← memAllocate (8 * host.externalBufferMap.length) with
    | none => Program.modifyState HostState.withoutHostArgs
    | some args => do
      writeBytes args 0 (hostArgWords host)
      Program.modifyState (HostState.withHostArgs args)
      let answer ← Program.ask fun answer => .memSyncForDev args (some answer.rc)
      if answer.rc ≠ 0#32 then Program.modifyState HostState.withoutHostArgs else pure ()

/-- Clear queue and completion words, write the queue's header and introduce it. -/
def setupQueue (host : CertApi) (hsa comp : MemInst) : CertProgram (BitVec 32) := do
  writeBytes comp 0 (List.replicate (4 * hsaQueueEntry) 0)
  writeBytes hsa 0 (List.replicate hsaQueueSize 0)
  writeBytes hsa capacityOffset (leBytes 4 hsaQueueEntry)
  writeBytes hsa dataAddressOffset (leBytes 8 (hsa.devAddr + BitVec.ofNat 64 (hqEntryOffset 0)).toNat)
  memSyncForDev hsa
  let _ ← Program.runAll (fun col => Program.tell (.dataMemBlockWrite col (handshakeOf host hsa col)))
    (List.range host.numCols)
  parseHostArgs host
  pure 0#32

/-- Allocate queue and completion words and set them up. -/
def initHandshake (host : CertApi) : CertProgram (BitVec 32) := do
  match ← memAllocate hsaQueueSize with
  | none => do
    Program.modifyState fun s => { s with hsaMeminst := none }
    pure (-1#32)
  | some hsa => do
    Program.modifyState fun s => { s with hsaMeminst := some hsa }
    match ← memAllocate (4 * hsaQueueEntry) with
    | none => do
      Program.modifyState fun s => { s with compSigMeminst := none }
      memFree hsa
      Program.modifyState fun s => { s with hsaMeminst := none }
      -- `-ENOMEM`
      pure (-12#32)
    | some comp => do
      Program.modifyState fun s => { s with compSigMeminst := some comp }
      setupQueue host hsa comp

/-- `cols[0]`, evaluated for a log call, inserts an empty column 0. -/
def touchColumn0 : Columns → Columns
  | [] => [(0, [])]
  | (col, code) :: rest =>
    if col < 0 then (col, code) :: touchColumn0 rest
    else if col = 0 then (col, code) :: rest
    else (0, []) :: (col, code) :: rest

/-- The columns when they are counted: the log call is made if there are any. -/
def loggedColumns (cols : Columns) : Columns := if cols = [] then [] else touchColumn0 cols

def columnCode (cols : Columns) (col : ℤ) : List UInt8 := (cols.lookup col).getD []

/-- The header of a packet that makes the firmware run control code. -/
def execBufHeader (count distribute indirect : ℕ) : CommonHeader where
  type := packetTypeVendorSpecific
  opcode := packetExecBuf
  count := BitVec.ofNat 16 count
  distribute := BitVec.ofNat 8 distribute
  indirect := BitVec.ofNat 8 indirect

/-- The `exec_buf` for control code at a device address. -/
def execBufAt (host : CertApi) (s : HostState) (ctrlCodeDma : BitVec 64) : ExecBuf where
  cuIndex := 0#16
  dpuControlCodeHostAddrLow := ctrlCodeDma.setWidth 32
  dpuControlCodeHostAddrHigh := (ctrlCodeDma >>> 32).setWidth 32
  argsLen := BitVec.ofNat 16 (8 * host.externalBufferMap.length)
  argsHostAddrLow := if host.externalBufferMap = [] then 0#32 else s.hostArgsLow
  argsHostAddrHigh := if host.externalBufferMap = [] then 0#32 else s.hostArgsHigh

/-- The entry of a column's header: the low half is masked to 25 bits. -/
def columnEntry (col : ℤ) (entryDma : BitVec 64) : IndirectEntry where
  hostAddrLow := (entryDma &&& (1#64 <<< 25 - 1#64)).setWidth 32
  hostAddrHigh := (entryDma >>> 32).setWidth 25
  ucIndex := BitVec.ofInt 7 col

/-- The entry of the second level: the low half is kept. -/
def firstIndirect (entryDma : BitVec 64) : IndirectEntry where
  hostAddrLow := entryDma.setWidth 32
  hostAddrHigh := (entryDma >>> 32).setWidth 25
  ucIndex := 0#7

/-- The loop over the columns. The cursors are the next indirect entry, the offset and the device address of the
next header, and the code bytes copied so far. -/
def distributeColumns (host : CertApi) (entry ctrlCode indirect : MemInst) :
    Columns → ℕ → ℕ → BitVec 64 → ℕ → CertProgram Unit
  | [], _, _, _, _ => pure ()
  | (col, code) :: rest, indirectOffset, entryVa, entryDma, ctrlSize => do
    let s ← Program.getState
    writeBytes ctrlCode ctrlSize code
    writeBytes indirect indirectOffset (columnEntry col entryDma).bytes
    writeBytes entry entryVa (execBufHeader execBufSize 1 0).bytes
    writeBytes entry (entryVa + commonHeaderSize)
      (execBufAt host s (ctrlCode.devAddr + BitVec.ofNat 64 ctrlSize)).bytes
    distributeColumns host entry ctrlCode indirect rest (indirectOffset + indirectEntrySize)
      (entryVa + (commonHeaderSize + execBufSize)) (entryDma + BitVec.ofNat 64 (commonHeaderSize + execBufSize))
      (ctrlSize + code.length)

def ctrlCodeSize (cols : Columns) : ℕ := (cols.map fun column => column.2.length).sum

def writePacketHeader (hsa : MemInst) (writeIndex compSigDma : BitVec 64) (header : CommonHeader) :
    CertProgram Unit := do
  writeBytes hsa (hqEntryOffset writeIndex.toNat) (List.replicate hostQueuePacketSize 0)
  writeBytes hsa (hqEntryOffset writeIndex.toNat) (header.bytes ++ leBytes 8 compSigDma.toNat)

def nextIndex (writeIndex : BitVec 64) : BitVec 64 := (writeIndex + 1#64) &&& (BitVec.ofNat 64 hsaQueueEntry - 1#64)

/-- Hand the packet over: sync, store the new index behind a barrier, sync again. -/
def publish (hsa : MemInst) (writeIndex : BitVec 64) : CertProgram Unit := do
  memSyncForDev hsa
  Program.tell .smpWmb
  writeBytes hsa writeIndexOffset (leBytes 8 (nextIndex writeIndex).toNat)
  memSyncForDev hsa

/-- Poll the completion word, with a sync and a turn of the firmware each. -/
def pollCompletion (comp : MemInst) (writeIndex : BitVec 64) : CertProgram Unit := do
  let _ ← Program.askUntil (fun answer => .completion comp (4 * writeIndex.toNat) answer.value)
    fun answer => answer.value ≠ 0#32

/-- Read the completion word again and turn it into a code. -/
def completionCode (comp : MemInst) (writeIndex : BitVec 64) : CertProgram (BitVec 32) := do
  let answer ← Program.ask fun answer => .completion comp (4 * writeIndex.toNat) answer.value
  pure (if answer.value = hsaCompSuccess then 0#32 else answer.value)

/-- Case 1: the packet carries the `exec_buf` of the one column. -/
def submitDirect (host : CertApi) (hsa comp : MemInst) (writeIndex compSigDma : BitVec 64) (cols : Columns) :
    CertProgram (BitVec 32) := do
  match ← memAllocate (columnCode cols 0).length with
  | none => pure (-1#32)
  | some ctrlCode => do
    writeBytes ctrlCode 0 (columnCode cols 0)
    memSyncForDev ctrlCode
    writePacketHeader hsa writeIndex compSigDma (execBufHeader execBufSize 0 0)
    let s ← Program.getState
    writeBytes hsa (hqEntryOffset writeIndex.toNat + xrtPacketHeaderSize) (execBufAt host s ctrlCode.devAddr).bytes
    publish hsa writeIndex
    pollCompletion comp writeIndex
    memFree ctrlCode
    completionCode comp writeIndex

/-- Sync the blocks, publish the packet, wait and free the blocks. -/
def publishIndirect (hsa comp entry ctrlCode : MemInst) (writeIndex : BitVec 64) : CertProgram (BitVec 32) := do
  memSyncForDev ctrlCode
  memSyncForDev entry
  publish hsa writeIndex
  pollCompletion comp writeIndex
  memFree ctrlCode
  memFree entry
  completionCode comp writeIndex

/-- Case 3: one indirect entry for each column. -/
def submitOneLevel (host : CertApi) (hsa comp : MemInst) (writeIndex compSigDma : BitVec 64) (cols : Columns) :
    CertProgram (BitVec 32) := do
  match ← memAllocate (cols.length * (commonHeaderSize + execBufSize)) with
  | none => pure (-1#32)
  | some entry => do
    match ← memAllocate (ctrlCodeSize cols) with
    | none => do
      memFree entry
      pure (-1#32)
    | some ctrlCode => do
      writePacketHeader hsa writeIndex compSigDma (execBufHeader (cols.length * indirectEntrySize) 1 1)
      distributeColumns host entry ctrlCode hsa cols (hqEntryOffset writeIndex.toNat + xrtPacketHeaderSize) 0
        entry.devAddr 0
      publishIndirect hsa comp entry ctrlCode writeIndex

/-- Where the headers start behind the second level. -/
def secondLevelSize (n : ℕ) : ℕ := commonHeaderSize + n * indirectEntrySize

/-- Case 4: one entry leads to a second level, whose header is not cleared before its fields are set. -/
def submitTwoLevel (host : CertApi) (hsa comp : MemInst) (writeIndex compSigDma : BitVec 64) (cols : Columns) :
    CertProgram (BitVec 32) := do
  match ← memAllocate (commonHeaderSize + cols.length * (indirectEntrySize + commonHeaderSize + execBufSize)) with
  | none => pure (-1#32)
  | some entry => do
    match ← memAllocate (ctrlCodeSize cols) with
    | none => do
      memFree entry
      pure (-1#32)
    | some ctrlCode => do
      writePacketHeader hsa writeIndex compSigDma (execBufHeader indirectEntrySize 1 1)
      writeBytes hsa (hqEntryOffset writeIndex.toNat + xrtPacketHeaderSize) (firstIndirect entry.devAddr).bytes
      let firstCh := execBufHeader (cols.length * indirectEntrySize) 1 1
      writeBytes entry 0 (leBytes 1 firstCh.type.toNat)
      writeBytes entry 2 firstCh.fieldBytes
      distributeColumns host entry ctrlCode entry cols commonHeaderSize (secondLevelSize cols.length)
        (entry.devAddr + BitVec.ofNat 64 (secondLevelSize cols.length)) 0
      publishIndirect hsa comp entry ctrlCode writeIndex

/-- Build, publish and await the packet the number of columns asks for. -/
def submitColumns (host : CertApi) (hsa comp : MemInst) (writeIndex compSigDma : BitVec 64) (cols : Columns) :
    CertProgram (BitVec 32) :=
  if 24 < cols.length ∨ cols.length = 0 then pure (-1#32)
  else if cols.length = 1 then submitDirect host hsa comp writeIndex compSigDma cols
  else if cols.length ≤ hsaMaxLevel1IndirectEntries then submitOneLevel host hsa comp writeIndex compSigDma cols
  else submitTwoLevel host hsa comp writeIndex compSigDma cols

def HostState.writeIndex (s : HostState) (hsa : MemInst) : BitVec 64 :=
  BitVec.ofNat 64 (leNat (load s.memory (hsa.cell writeIndexOffset) 8))

/-- The device address of a completion word. -/
def compSigDmaAt (comp : MemInst) (writeIndex : BitVec 64) : BitVec 64 := comp.devAddr + 4#64 * writeIndex

def clearCompletion (comp : MemInst) (writeIndex : BitVec 64) : CertProgram Unit := do
  memSyncForCpu comp
  writeBytes comp (4 * writeIndex.toNat) (leBytes 4 0)
  memSyncForDev comp

/-- Submit the columns and wait. A missing queue is a null pointer. -/
def submitCommand (host : CertApi) (parsed : Columns) : CertProgram (BitVec 32) := do
  let s ← Program.getState
  let hsa ← Program.ofOption s.hsaMeminst
  let comp ← Program.ofOption s.compSigMeminst
  memSyncForCpu hsa
  let writeIndex := s.writeIndex hsa
  clearCompletion comp writeIndex
  wakeupCert host
  submitColumns host hsa comp writeIndex (compSigDmaAt comp writeIndex) (loggedColumns parsed)

def testHeader : CommonHeader where
  type := packetTypeVendorSpecific
  opcode := packetTest
  count := 0#16
  distribute := 0#8
  indirect := 0#8

def submitTestCommand : CertProgram (BitVec 32) := do
  let s ← Program.getState
  let hsa ← Program.ofOption s.hsaMeminst
  let comp ← Program.ofOption s.compSigMeminst
  memSyncForCpu hsa
  let writeIndex := s.writeIndex hsa
  clearCompletion comp writeIndex
  writePacketHeader hsa writeIndex (compSigDmaAt comp writeIndex) testHeader
  publish hsa writeIndex
  pollCompletion comp writeIndex
  completionCode comp writeIndex

def certMethod (host : CertApi) : CertOp → CertProgram (BitVec 32)
  | .submitCommand cols => submitCommand host cols
  | .submitTestCommand => submitTestCommand

def certCall (host : CertApi) (op : CertOp) : CertProgram (BitVec 32) := do
  Program.tell (.enter op)
  let code ← certMethod host op
  Program.tell (.leave code)
  pure code

@[irreducible] def certCalls (host : CertApi) (ops : List CertOp) : CertProgram (List (BitVec 32)) :=
  Program.runAll (certCall host) ops

end AieBaremetal.Cert
