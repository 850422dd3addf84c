import AieBaremetal.Common.Emission
import AieBaremetal.Cert.Host
import Mathlib.Data.List.Induction

/-!
# What a call does

Every change to memory and to the allocated blocks is an event, so a call is described by its events:
it clears its completion word, allocates its blocks, writes its packet piece by piece, publishes it,
polls, frees its blocks and reads the completion word once more. The functions of the source for the
forms of a packet differ in the blocks they ask for and in the pieces only. A piece is the structure
or code range that is written; of the header of the second level the fields are assigned one by one.
-/

namespace AieBaremetal.Cert

open Common Common.Program

/-- The world of a `cert_api` object. -/
abbrev HostWorld := World HostEvent HostAnswer HostState

/-- No column, or more than twenty-four. -/
def CertOp.unsupported : CertOp → Bool
  | .submitCommand cols => 24 < (loggedColumns cols).length || (loggedColumns cols).length = 0
  | .submitTestCommand => false

def entryBlockSize (n : ℕ) : ℕ :=
  if n ≤ hsaMaxLevel1IndirectEntries then n * (commonHeaderSize + execBufSize)
  else commonHeaderSize + n * (indirectEntrySize + commonHeaderSize + execBufSize)

/-- Where the headers of the columns start in that block. -/
def leafStart (n : ℕ) : ℕ := if n ≤ hsaMaxLevel1IndirectEntries then 0 else secondLevelSize n

/-- What a command of several columns writes. -/
inductive Piece where
  | packetHeader
  | firstEntry
  | secondHeader
  | indirectEntry (i : ℕ)
  | header (i : ℕ)
  | execBuf (i : ℕ)
  | code (i : ℕ)
  deriving DecidableEq, Repr

/-- The memory of a command: the packet's slot and its two blocks. -/
structure Blocks where
  hsa : MemInst
  slot : ℕ
  entry : MemInst
  ctrlCode : MemInst

def columnAt (cols : Columns) (i : ℕ) : ℤ × List UInt8 := cols.getD i (0, [])

/-- Bytes of code in front of a column's. -/
def codeOffset (cols : Columns) (i : ℕ) : ℕ := ctrlCodeSize (cols.take i)

/-- Offset of a column's header in the entry block. -/
def headerOffset (n i : ℕ) : ℕ := leafStart n + i * (commonHeaderSize + execBufSize)

/-- Offset of a column's entry, in the queue or in the entry block. -/
def entryOffset (slot n i : ℕ) : ℕ :=
  (if n ≤ hsaMaxLevel1IndirectEntries then slot + xrtPacketHeaderSize else commonHeaderSize) + i * indirectEntrySize

def Blocks.entries (b : Blocks) (n : ℕ) : MemInst := if n ≤ hsaMaxLevel1IndirectEntries then b.hsa else b.entry

namespace Piece

def block (b : Blocks) (n : ℕ) : Piece → MemInst
  | packetHeader | firstEntry => b.hsa
  | secondHeader | header _ | execBuf _ => b.entry
  | indirectEntry _ => b.entries n
  | code _ => b.ctrlCode

def offset (slot : ℕ) (cols : Columns) : Piece → ℕ
  | packetHeader => slot
  | firstEntry => slot + xrtPacketHeaderSize
  | secondHeader => 0
  | indirectEntry i => entryOffset slot cols.length i
  | header i => headerOffset cols.length i
  | execBuf i => headerOffset cols.length i + commonHeaderSize
  | code i => codeOffset cols i

/-- The device address of a piece: that of its block, moved alike. -/
def devAddr (b : Blocks) (cols : Columns) (piece : Piece) : BitVec 64 :=
  (piece.block b cols.length).devAddr + BitVec.ofNat 64 (piece.offset b.slot cols)

end Piece

/-- The pieces of one column, in writing order. -/
def columnPieces (i : ℕ) : List Piece := [.code i, .indirectEntry i, .header i, .execBuf i]

def piecesWritten (n : ℕ) : List Piece :=
  (if n ≤ hsaMaxLevel1IndirectEntries then [.packetHeader] else [.packetHeader, .firstEntry, .secondHeader]) ++
    (List.range n).flatMap columnPieces

/-- The writes of a piece; an address in it is that of another piece. -/
def pieceWrites (host : CertApi) (s : HostState) (b : Blocks) (compSigDma : BitVec 64) (cols : Columns) :
    Piece → List HostEvent
  | .packetHeader =>
    let count := if cols.length ≤ hsaMaxLevel1IndirectEntries then cols.length *
      indirectEntrySize else indirectEntrySize
    [.write b.hsa b.slot ((execBufHeader count 1 1).bytes ++ leBytes 8 compSigDma.toNat)]
  | .firstEntry =>
    [.write b.hsa (b.slot + xrtPacketHeaderSize) (firstIndirect (Piece.secondHeader.devAddr b cols)).bytes]
  | .secondHeader =>
    let firstCh := execBufHeader (cols.length * indirectEntrySize) 1 1
    [.write b.entry 0 (leBytes 1 firstCh.type.toNat), .write b.entry 2 firstCh.fieldBytes]
  | .indirectEntry i =>
    [.write (b.entries cols.length) (entryOffset b.slot cols.length i)
      (columnEntry (columnAt cols i).1 ((Piece.header i).devAddr b cols)).bytes]
  | .header i => [.write b.entry (headerOffset cols.length i) (execBufHeader execBufSize 1 0).bytes]
  | .execBuf i =>
    [.write b.entry (headerOffset cols.length i + commonHeaderSize)
      (execBufAt host s ((Piece.code i).devAddr b cols)).bytes]
  | .code i => [.write b.ctrlCode (codeOffset cols i) (columnAt cols i).2]

/-- The blocks of an indirect packet: the next two instances. -/
def entryBlock (s : HostState) (devAddr : BitVec 64) (cols : Columns) : MemInst :=
  ⟨s.nextId, devAddr, entryBlockSize cols.length⟩

def ctrlCodeBlock (s : HostState) (devAddr : BitVec 64) (cols : Columns) : MemInst :=
  ⟨s.nextId + 1, devAddr, ctrlCodeSize cols⟩

/-- What an event changes in memory and among the blocks. -/
def hostStep (s : HostState) : HostEvent → HostState
  | .memAllocate size (some devAddr) =>
    { s with live := ⟨s.nextId, devAddr, size⟩ :: s.live, nextId := s.nextId + 1 }
  | .memFree inst => { s with live := s.live.erase inst }
  | .write inst offset bytes => { s with memory := store s.memory (inst.cell offset) bytes }
  | _ => s

theorem hostStep_write (s : HostState) (inst : MemInst) (offset : ℕ) (bytes : List UInt8) :
    (hostStep s (.write inst offset bytes)).memory = store s.memory (inst.cell offset) bytes := rfl

def wakeups (host : CertApi) : List HostEvent := (List.range host.numCols).map fun i => .wakeup (host.startCol + i)

/-- Before it allocates, a command clears its completion word and wakes up the firmware. -/
def beforePacket (host : CertApi) (hsa comp : MemInst) (s : HostState) : List HostEvent :=
  [.memSyncForCpu hsa, .memSyncForCpu comp, .write comp (4 * (s.writeIndex hsa).toNat) (leBytes 4 0),
    .memSyncForDev comp none] ++ wakeups host

/-- What a command does to publish its packet. -/
def publishing (b : Blocks) (s : HostState) : List HostEvent :=
  [.memSyncForDev b.ctrlCode none, .memSyncForDev b.entry none, .memSyncForDev b.hsa none, .smpWmb,
    .write b.hsa writeIndexOffset (leBytes 8 (nextIndex (s.writeIndex b.hsa)).toNat), .memSyncForDev b.hsa none]

/-- The blocks of a command, from the addresses of its allocations. -/
def commandBlocks (hsa : MemInst) (s : HostState) (entryDma ctrlCodeDma : BitVec 64) (cols : Columns) : Blocks where
  hsa := hsa
  slot := hqEntryOffset (s.writeIndex hsa).toNat
  entry := entryBlock s entryDma cols
  ctrlCode := ctrlCodeBlock s ctrlCodeDma cols

/-- A command until it waits: the allocations, the cleared slot and the pieces. -/
def submitTrace (host : CertApi) (comp : MemInst) (s : HostState) (b : Blocks) (cols : Columns) : List HostEvent :=
  beforePacket host b.hsa comp s ++
    [.memAllocate (entryBlockSize cols.length) (some b.entry.devAddr), .memAllocate (ctrlCodeSize cols)
      (some b.ctrlCode.devAddr)] ++
    [.write b.hsa b.slot (List.replicate hostQueuePacketSize 0)] ++
    (piecesWritten cols.length).flatMap (pieceWrites host s b (compSigDmaAt comp (s.writeIndex b.hsa)) cols) ++
    publishing b s

section Events

variable (host : CertApi) (hsa comp : MemInst) (s : HostState)

/-- A call clears the completion word, and a command wakes up the firmware. -/
def opening (op : CertOp) : List HostEvent :=
  [.memSyncForCpu hsa, .memSyncForCpu comp, .write comp (4 * (s.writeIndex hsa).toNat) (leBytes 4 0),
    .memSyncForDev comp none] ++
    match op with
    | .submitCommand _ => wakeups host
    | .submitTestCommand => []

def blockSizes : CertOp → List ℕ
  | .submitCommand parsed =>
    if (loggedColumns parsed).length = 1 then [(columnCode (loggedColumns parsed) 0).length]
    else [entryBlockSize (loggedColumns parsed).length, ctrlCodeSize (loggedColumns parsed)]
  | .submitTestCommand => []

def headerEvents (header : CommonHeader) : List HostEvent :=
  [.write hsa (hqEntryOffset (s.writeIndex hsa).toNat) (List.replicate hostQueuePacketSize 0),
    .write hsa (hqEntryOffset (s.writeIndex hsa).toNat)
      (header.bytes ++ leBytes 8 (compSigDmaAt comp (s.writeIndex hsa)).toNat)]

/-- The store of the new index between two syncs. -/
def publishEvents : List HostEvent :=
  [.memSyncForDev hsa none, .smpWmb, .write hsa writeIndexOffset (leBytes 8 (nextIndex (s.writeIndex hsa)).toNat),
    .memSyncForDev hsa none]

abbrev slotBlocks (entry ctrlCode : MemInst) :
    Blocks := ⟨hsa, hqEntryOffset (s.writeIndex hsa).toNat, entry, ctrlCode⟩

/-- The packet of a call, given its blocks, the last one first. -/
def preparing : CertOp → List MemInst → List HostEvent
  | .submitTestCommand, _ => headerEvents hsa comp s testHeader
  | .submitCommand _, [] => []
  | .submitCommand parsed, [ctrlCode] =>
    [.write ctrlCode 0 (columnCode (loggedColumns parsed) 0), .memSyncForDev ctrlCode none] ++
      headerEvents hsa comp s (execBufHeader execBufSize 0 0) ++
      [.write hsa (hqEntryOffset (s.writeIndex hsa).toNat + xrtPacketHeaderSize)
        (execBufAt host s ctrlCode.devAddr).bytes]
  | .submitCommand parsed, ctrlCode :: entry :: _ =>
    [.write hsa (hqEntryOffset (s.writeIndex hsa).toNat) (List.replicate hostQueuePacketSize 0)] ++
      (piecesWritten (loggedColumns parsed).length).flatMap (pieceWrites host s (slotBlocks hsa s entry ctrlCode)
        (compSigDmaAt comp (s.writeIndex hsa)) (loggedColumns parsed)) ++
      [.memSyncForDev ctrlCode none, .memSyncForDev entry none]

/-- The writes of the loop over the columns, with its cursors. -/
def columnWrites (eb : BitVec 64 → ExecBuf) (entry ctrlCode indirect : MemInst) :
    Columns → ℕ → ℕ → BitVec 64 → ℕ → List HostEvent
  | [], _, _, _, _ => []
  | (col, code) :: rest, indirectOffset, entryVa, entryDma, ctrlSize =>
    [.write ctrlCode ctrlSize code, .write indirect indirectOffset (columnEntry col entryDma).bytes,
      .write entry entryVa (execBufHeader execBufSize 1 0).bytes,
      .write entry (entryVa + commonHeaderSize) (eb (ctrlCode.devAddr + BitVec.ofNat 64 ctrlSize)).bytes] ++
      columnWrites eb entry ctrlCode indirect rest (indirectOffset + indirectEntrySize)
        (entryVa + (commonHeaderSize + execBufSize)) (entryDma + BitVec.ofNat 64 (commonHeaderSize + execBufSize))
        (ctrlSize + code.length)

/-- Publish the packet, wait, free the blocks and read the completion word. -/
def completing (op : CertOp) (blocks : List MemInst) : CertProgram (BitVec 32) := do
  emit hostStep (preparing host hsa comp s op blocks ++ publishEvents hsa s)
  pollCompletion comp (s.writeIndex hsa)
  emit hostStep (blocks.map .memFree)
  completionCode comp (s.writeIndex hsa)

/-- Allocate blocks; when one is refused, free those in hand. -/
def allocating (next : List MemInst → CertProgram (BitVec 32)) : List ℕ → List MemInst → CertProgram (BitVec 32)
  | [], blocks => next blocks
  | size :: sizes, blocks => do
    match ← memAllocate size with
    | none => do
      emit hostStep (blocks.map .memFree)
      pure (-1#32)
    | some block => allocating next sizes (block :: blocks)

end Events

section Equations

variable {host : CertApi} {hsa comp : MemInst} {s : HostState}

theorem writeBytes_eq (inst : MemInst) (offset : ℕ) (bytes : List UInt8) :
    writeBytes inst offset bytes = emit hostStep [.write inst offset bytes] := rfl

theorem memSyncForDev_eq (inst : MemInst) : memSyncForDev inst = emit hostStep [.memSyncForDev inst none] := rfl

theorem memFree_eq (inst : MemInst) : memFree inst = emit hostStep [.memFree inst] := rfl

theorem writePacketHeader_eq (header : CommonHeader) :
    writePacketHeader hsa (s.writeIndex hsa) (compSigDmaAt comp (s.writeIndex hsa)) header =
      emit hostStep (headerEvents hsa comp s header) := by
  rw [writePacketHeader, writeBytes_eq, writeBytes_eq, emit_emit]
  rfl

theorem publish_eq : publish hsa (s.writeIndex hsa) = emit hostStep (publishEvents hsa s) := by
  have hbarrier : (Program.tell .smpWmb : CertProgram Unit) = emit hostStep [.smpWmb] := rfl
  rw [publish, memSyncForDev_eq, hbarrier, writeBytes_eq]
  simp only [emit_emit]
  rfl

theorem wakeupCert_eq (host : CertApi) : wakeupCert host = emit hostStep (wakeups host) :=
  runAll_tell hostStep (fun i => .wakeup (host.startCol + i)) (fun _ _ => rfl) (List.range host.numCols) (pure ())

theorem replay_fields (s : HostState) (events : List HostEvent) : ∃ memory live nextId, s.nextId ≤ nextId ∧
    replay hostStep s events = { s with memory, live, nextId } := by
  induction events using List.reverseRecOn with
  | nil => exact ⟨_, _, _, Nat.le_refl _, rfl⟩
  | append_singleton events e ih =>
    obtain ⟨memory, live, nextId, hnext, hreplay⟩ := ih
    rw [replay_concat, hreplay]
    rcases e with _ | ⟨size, _ | devAddr⟩ | _ | _ | _ | _ | _ | _ | _ | _ | _
    case memAllocate.some => exact ⟨_, _, nextId + 1, hnext.trans (Nat.le_succ _), rfl⟩
    all_goals exact ⟨_, _, nextId, hnext, rfl⟩

theorem execBufAt_replay (s : HostState) (events : List HostEvent) :
    execBufAt host (replay hostStep s events) = execBufAt host s := by
  obtain ⟨memory, live, nextId, -, hreplay⟩ := replay_fields s events
  rw [hreplay]
  rfl

theorem codeOffset_succ {cols : Columns} {i : ℕ} (hi : i < cols.length) :
    codeOffset cols (i + 1) = codeOffset cols i + (columnAt cols i).2.length := by
  rw [codeOffset, List.take_succ_eq_append_getElem hi, codeOffset, columnAt, List.getD_eq_getElem?_getD,
    List.getElem?_eq_getElem hi]
  simp only [ctrlCodeSize, List.map_append, List.sum_append, List.map_cons, List.map_nil, List.sum_singleton,
    Option.getD_some]

theorem entryOffset_succ (slot n i : ℕ) :
    entryOffset slot n i + indirectEntrySize = entryOffset slot n (i + 1) := by
  rw [entryOffset, entryOffset, Nat.succ_mul, Nat.add_assoc]

theorem headerOffset_succ (n i : ℕ) :
    headerOffset n i + (commonHeaderSize + execBufSize) = headerOffset n (i + 1) := by
  rw [headerOffset, headerOffset, Nat.succ_mul, Nat.add_assoc]

theorem header_devAddr_succ (b : Blocks) (cols : Columns) (i : ℕ) :
    (Piece.header i).devAddr b cols + BitVec.ofNat 64 (commonHeaderSize + execBufSize) =
      (Piece.header (i + 1)).devAddr b cols := by
  change b.entry.devAddr + BitVec.ofNat 64 (headerOffset cols.length i) + _ =
    b.entry.devAddr + BitVec.ofNat 64 (headerOffset cols.length (i + 1))
  rw [BitVec.add_assoc, ← BitVec.ofNat_add, headerOffset_succ]

theorem columnWrites_eq (b : Blocks) (compSigDma : BitVec 64) {cols : Columns} (front rest : Columns)
    (hcols : cols = front ++ rest) :
    columnWrites (execBufAt host s) b.entry b.ctrlCode (b.entries cols.length) rest
        (entryOffset b.slot cols.length front.length) (headerOffset cols.length front.length)
        ((Piece.header front.length).devAddr b cols) (codeOffset cols front.length) =
      (List.range' front.length rest.length).flatMap fun i =>
        (columnPieces i).flatMap (pieceWrites host s b compSigDma cols) := by
  induction rest generalizing front with
  | nil => rfl
  | cons column rest ih =>
    have hcolumn : columnAt cols front.length = column := by
      rw [columnAt, hcols, List.getD_eq_getElem?_getD, List.getElem?_append_right (Nat.le_refl _), Nat.sub_self]
      rfl
    have hlength : (front ++ [column]).length = front.length + 1 := List.length_append
    have hcode : codeOffset cols (front.length + 1) = codeOffset cols front.length + column.2.length := by
      rw [codeOffset_succ (by rw [hcols, List.length_append, List.length_cons]; omega), hcolumn]
    have hrest := ih (front ++ [column]) (by rw [hcols, List.append_assoc]; rfl)
    rw [hlength, ← entryOffset_succ, ← headerOffset_succ, ← header_devAddr_succ, hcode] at hrest
    rw [List.length_cons, List.range'_succ, List.flatMap_cons, ← hrest]
    simp only [columnPieces, List.flatMap_cons, List.flatMap_nil, pieceWrites, hcolumn]
    rfl

theorem columnWrites_all (b : Blocks) (compSigDma : BitVec 64) (cols : Columns) :
    columnWrites (execBufAt host s) b.entry b.ctrlCode (b.entries cols.length) cols
      (entryOffset b.slot cols.length 0)
        (leafStart cols.length) (b.entry.devAddr + BitVec.ofNat 64 (leafStart cols.length)) 0 =
      ((List.range cols.length).flatMap columnPieces).flatMap (pieceWrites host s b compSigDma cols) := by
  have hstart : headerOffset cols.length 0 = leafStart cols.length := by
    rw [headerOffset, Nat.zero_mul, Nat.add_zero]
  have hall := @columnWrites_eq host s b compSigDma cols [] cols rfl
  rw [List.length_nil, ← List.range_eq_range', hstart, Piece.devAddr, Piece.offset, hstart] at hall
  rw [List.flatMap_assoc]
  exact hall

theorem distributeColumns_apply (entry ctrlCode indirect : MemInst) (cols : Columns) (indirectOffset entryVa : ℕ)
    (entryDma : BitVec 64) (ctrlSize : ℕ) {w : HostWorld} (hargs : execBufAt host w.state = execBufAt host s) :
    distributeColumns host entry ctrlCode indirect cols indirectOffset entryVa entryDma ctrlSize w =
      emit hostStep (columnWrites (execBufAt host s) entry ctrlCode indirect cols indirectOffset entryVa entryDma
        ctrlSize) w := by
  induction cols generalizing indirectOffset entryVa entryDma ctrlSize w with
  | nil => rw [columnWrites, emit_nil]; rfl
  | cons column rest ih =>
    rw [distributeColumns, getState_bind, hargs, columnWrites, ← emit_emit]
    simp only [writeBytes_eq, emit_then]
    exact ih _ _ _ _ ((execBufAt_replay w.state _).trans hargs)

theorem memAllocate_congr (size : ℕ) {next next' : Option MemInst → CertProgram (BitVec 32)} {w : HostWorld}
    (hargs : execBufAt host w.state = execBufAt host s) (hnone : next none = next' none)
    (hsome : ∀ block (w' : HostWorld), execBufAt host w'.state = execBufAt host s →
      next (some block) w' = next' (some block) w') :
    (memAllocate size >>= next) w = (memAllocate size >>= next') w := by
  rcases w with ⟨s, trace, _ | ⟨⟨_ | devAddr, rc, value⟩, rest⟩⟩
  · rfl
  · exact congrFun hnone _
  · exact hsome ⟨s.nextId, devAddr, size⟩ _ hargs

theorem publishIndirect_eq (entry ctrlCode : MemInst) :
    publishIndirect hsa comp entry ctrlCode (s.writeIndex hsa) = (do
      emit hostStep (publishing (slotBlocks hsa s entry ctrlCode) s)
      pollCompletion comp (s.writeIndex hsa)
      emit hostStep [.memFree ctrlCode, .memFree entry]
      completionCode comp (s.writeIndex hsa)) := by
  rw [publishIndirect, memSyncForDev_eq, memSyncForDev_eq, publish_eq, memFree_eq, memFree_eq]
  simp only [emit_then]
  rfl

variable {parsed : Columns} {w : HostWorld} (hargs : execBufAt host w.state = execBufAt host s)

include hargs

theorem indirectPacket_apply (entry ctrlCode : MemInst) {n : ℕ} (hn : n = (loggedColumns parsed).length) :
    (do
      emit hostStep
        ([HostEvent.write hsa (hqEntryOffset (s.writeIndex hsa).toNat) (List.replicate hostQueuePacketSize 0)] ++
        (if n ≤ hsaMaxLevel1IndirectEntries then [Piece.packetHeader] else
          [.packetHeader, .firstEntry, .secondHeader]).flatMap
          (pieceWrites host s (slotBlocks hsa s entry ctrlCode) (compSigDmaAt comp (s.writeIndex hsa))
            (loggedColumns parsed)))
      distributeColumns host entry ctrlCode ((slotBlocks hsa s entry ctrlCode).entries n) (loggedColumns parsed)
        (entryOffset (hqEntryOffset (s.writeIndex hsa).toNat) n 0) (leafStart n)
        (entry.devAddr + BitVec.ofNat 64 (leafStart n)) 0
      publishIndirect hsa comp entry ctrlCode (s.writeIndex hsa)) w =
      completing host hsa comp s (.submitCommand parsed) [ctrlCode, entry] w := by
  subst hn
  refine (emit_then_apply hostStep
    (distributeColumns_apply _ _ _ _ _ _ _ _ ((execBufAt_replay w.state _).trans hargs)) _).trans ?_
  rw [columnWrites_all (slotBlocks hsa s entry ctrlCode), publishIndirect_eq, emit_then, completing, preparing,
    piecesWritten, List.flatMap_append]
  simp only [List.append_assoc]
  rfl

theorem submitDirect_apply (hone : (loggedColumns parsed).length = 1) :
    submitDirect host hsa comp (s.writeIndex hsa) (compSigDmaAt comp (s.writeIndex hsa)) (loggedColumns parsed) w =
      allocating (completing host hsa comp s (.submitCommand parsed))
        (blockSizes (.submitCommand parsed)) [] w := by
  rw [blockSizes, if_pos hone, allocating]
  refine memAllocate_congr _ hargs (by rw [List.map_nil, emit_nil]; rfl) fun ctrlCode w' hargs' => ?_
  dsimp only [allocating]
  rw [memSyncForDev_eq, writePacketHeader_eq, publish_eq, memFree_eq, completing]
  simp only [writeBytes_eq, emit_then]
  rw [emit_getState, execBufAt_replay, hargs', emit_then]
  rfl

theorem submitIndirect_apply (hseveral : ¬ (loggedColumns parsed).length = 1)
    {body : MemInst → MemInst → CertProgram (BitVec 32)}
    (hbody : ∀ entry ctrlCode (w' : HostWorld), execBufAt host w'.state = execBufAt host s →
      body entry ctrlCode w' = completing host hsa comp s (.submitCommand parsed) [ctrlCode, entry] w') :
    (do
      match ← memAllocate (entryBlockSize (loggedColumns parsed).length) with
      | none => pure (-1#32)
      | some entry => do
        match ← memAllocate (ctrlCodeSize (loggedColumns parsed)) with
        | none => do
          memFree entry
          pure (-1#32)
        | some ctrlCode => body entry ctrlCode : CertProgram (BitVec 32)) w =
      allocating (completing host hsa comp s (.submitCommand parsed))
        (blockSizes (.submitCommand parsed)) [] w := by
  rw [blockSizes, if_neg hseveral, allocating]
  refine memAllocate_congr _ hargs (by rw [List.map_nil, emit_nil]; rfl) fun entry w' hargs' => ?_
  exact memAllocate_congr _ hargs' rfl fun ctrlCode w'' hargs'' => hbody entry ctrlCode w'' hargs''

/-- The source's functions for the forms of a packet are one program over the pieces. -/
theorem submitColumns_apply (hop : (CertOp.submitCommand parsed).unsupported = false) :
    submitColumns host hsa comp (s.writeIndex hsa) (compSigDmaAt comp (s.writeIndex hsa)) (loggedColumns parsed) w =
      allocating (completing host hsa comp s (.submitCommand parsed))
        (blockSizes (.submitCommand parsed)) [] w := by
  have hsupported : ¬ (24 < (loggedColumns parsed).length ∨ (loggedColumns parsed).length = 0) := by
    simpa [CertOp.unsupported] using hop
  rw [submitColumns, if_neg hsupported]
  split
  · rename_i hone
    exact submitDirect_apply hargs hone
  rename_i hseveral
  split
  · rename_i hfew
    have hsize : (loggedColumns parsed).length * (commonHeaderSize + execBufSize) =
      entryBlockSize (loggedColumns parsed).length := (if_pos hfew).symm
    rw [submitOneLevel, hsize]
    refine submitIndirect_apply hargs hseveral fun entry ctrlCode w' hargs' => ?_
    rw [writePacketHeader_eq, ← indirectPacket_apply hargs' entry ctrlCode rfl]
    simp only [slotBlocks, Blocks.entries, entryOffset, leafStart, if_pos hfew, Nat.zero_mul,
      Nat.add_zero, BitVec.add_zero,
      headerEvents, pieceWrites, List.flatMap_cons, List.flatMap_nil, List.cons_append, List.nil_append]
  · rename_i hmany
    have hsize : commonHeaderSize + (loggedColumns parsed).length *
      (indirectEntrySize + commonHeaderSize + execBufSize) =
      entryBlockSize (loggedColumns parsed).length := (if_neg hmany).symm
    rw [submitTwoLevel, hsize]
    refine submitIndirect_apply hargs hseveral fun entry ctrlCode w' hargs' => ?_
    rw [writePacketHeader_eq, ← indirectPacket_apply hargs' entry ctrlCode rfl]
    have hfirst : Piece.secondHeader.devAddr (slotBlocks hsa s entry ctrlCode)
      (loggedColumns parsed) = entry.devAddr :=
      BitVec.add_zero _
    simp only [writeBytes_eq, emit_then, hfirst, Blocks.entries, entryOffset, leafStart, if_neg hmany, Nat.zero_mul,
      Nat.add_zero, headerEvents, pieceWrites, List.flatMap_cons, List.flatMap_nil,
        List.cons_append, List.nil_append]

end Equations

section Runs

variable (host : CertApi) {hsa comp : MemInst}

theorem clearCompletion_eq (s : HostState) (next : CertProgram (BitVec 32)) :
    (do
      memSyncForCpu hsa
      clearCompletion comp (s.writeIndex hsa)
      next) = (do
      emit hostStep (opening host hsa comp s .submitTestCommand)
      next) := by
  have hsync (inst : MemInst) : memSyncForCpu inst = emit hostStep [.memSyncForCpu inst] := rfl
  rw [clearCompletion, hsync, hsync, writeBytes_eq, memSyncForDev_eq]
  simp only [emit_emit, emit_then]
  rfl

theorem certMethod_apply (op : CertOp) {w : HostWorld} (hhsa : w.state.hsaMeminst = some hsa)
    (hcomp : w.state.compSigMeminst = some comp) :
    certMethod host op w = (do
      emit hostStep (opening host hsa comp w.state op)
      if op.unsupported then pure (-1#32)
      else allocating (completing host hsa comp w.state op) (blockSizes op) []) w := by
  cases op with
  | submitCommand parsed =>
    rw [certMethod, submitCommand, getState_bind, ofOption_bind hhsa, ofOption_bind hcomp]
    refine (congrFun (clearCompletion_eq host w.state _) w).trans ?_
    rw [wakeupCert_eq, emit_then]
    cases hop : (CertOp.submitCommand parsed).unsupported with
    | true =>
      rw [if_pos rfl, submitColumns, if_pos (by simpa [CertOp.unsupported] using hop)]
      rfl
    | false => exact submitColumns_apply (execBufAt_replay w.state _) hop
  | submitTestCommand =>
    rw [certMethod, submitTestCommand, getState_bind, ofOption_bind hhsa, ofOption_bind hcomp]
    refine (congrFun (clearCompletion_eq host w.state _) w).trans ?_
    rw [writePacketHeader_eq, publish_eq]
    simp only [emit_then, CertOp.unsupported, if_neg Bool.false_ne_true, blockSizes, allocating, completing,
      preparing, List.map_nil, emit_nil, pure_bind]

/-- The blocks granted with these sizes and addresses, the last one first. -/
def blocksFrom (next : ℕ) (grants : List (ℕ × BitVec 64)) : List MemInst :=
  ((grants.zipIdx next).map fun grant => ⟨grant.2, grant.1.2, grant.1.1⟩).reverse

def grantEvents (grants : List (ℕ × BitVec 64)) : List HostEvent :=
  grants.map fun grant => .memAllocate grant.1 (some grant.2)

/-- Answers to readings of the completion word. -/
def pollEvents (comp : MemInst) (index : BitVec 64) (answers : List HostAnswer) : List HostEvent :=
  answers.map fun answer => .completion comp (4 * index.toNat) answer.value

theorem blocksFrom_concat (next : ℕ) (grants : List (ℕ × BitVec 64)) (size : ℕ) (devAddr : BitVec 64) :
    blocksFrom next (grants ++ [(size, devAddr)]) = ⟨next + grants.length, devAddr, size⟩ ::
      blocksFrom next grants := by
  simp [blocksFrom, List.zipIdx_append]

theorem blocksFrom_one (next size : ℕ) (devAddr : BitVec 64) :
    blocksFrom next [(size, devAddr)] = [⟨next, devAddr, size⟩] := rfl

theorem blocksFrom_two (s : HostState) (devAddr devAddr' : BitVec 64) (cols : Columns) :
    blocksFrom s.nextId [(entryBlockSize cols.length, devAddr), (ctrlCodeSize cols, devAddr')] =
      [ctrlCodeBlock s devAddr' cols, entryBlock s devAddr cols] := rfl

theorem replay_opening (s₀ s : HostState) (op : CertOp) : replay hostStep s (opening host hsa comp s₀ op) =
    { s with memory := store s.memory (comp.cell (4 * (s₀.writeIndex hsa).toNat)) (leBytes 4 0) } := by
  cases op with
  | submitCommand parsed =>
    refine (replay_append ..).trans (replay_eq_self (fun e he => ?_) _)
    obtain ⟨i, -, rfl⟩ := List.mem_map.mp he
    exact fun _ => rfl
  | submitTestCommand => rfl

theorem replay_grantEvents (s : HostState) (grants : List (ℕ × BitVec 64)) :
    replay hostStep s (grantEvents grants) =
    { s with live := blocksFrom s.nextId grants ++ s.live, nextId := s.nextId + grants.length } := by
  induction grants using List.reverseRecOn with
  | nil => rfl
  | append_singleton grants grant ih =>
    rw [grantEvents, List.map_append, List.map_singleton, replay_concat, ← grantEvents, ih, blocksFrom_concat,
      List.length_append]
    rfl

section Described

variable (hsa comp : MemInst) (s : HostState) (op : CertOp)

/-- Everything a call does until it waits for the firmware. -/
def waitingEvents (grants : List (ℕ × BitVec 64)) : List HostEvent :=
  opening host hsa comp s op ++ grantEvents grants ++
    (preparing host hsa comp s op (blocksFrom s.nextId grants) ++ publishEvents hsa s)

/-- Everything a call does until its blocks are freed. -/
def freedEvents (grants : List (ℕ × BitVec 64)) (answers : List HostAnswer) : List HostEvent :=
  waitingEvents host hsa comp s op grants ++ pollEvents comp (s.writeIndex hsa) answers ++
    (blocksFrom s.nextId grants).map .memFree

/-- Answers of which the last one is the first completion. -/
def Completes (answers : List HostAnswer) : Prop :=
  ∃ zeros last, answers = zeros ++ [last] ∧ (∀ answer ∈ zeros, answer.value = 0#32) ∧ last.value ≠ 0#32

/-- The events of a call that has returned. -/
inductive Returns : List HostEvent → Prop
  | unsupported (hop : op.unsupported = true) : Returns (opening host hsa comp s op)
  | refused (hop : op.unsupported = false) (grants : List (ℕ × BitVec 64)) (size : ℕ)
    (hsizes : grants.map Prod.fst ++ [size] <+: blockSizes op) :
    Returns (opening host hsa comp s op ++ grantEvents grants ++ [.memAllocate size none] ++
      (blocksFrom s.nextId grants).map .memFree)
  | done (hop : op.unsupported = false) (grants : List (ℕ × BitVec 64))
      (hsizes : grants.map Prod.fst = blockSizes op)
    {answers : List HostAnswer} (hanswers : Completes answers) (last : HostAnswer) :
    Returns (freedEvents host hsa comp s op grants answers ++ pollEvents comp (s.writeIndex hsa) [last])

/-- The events of a call that waits for an answer. -/
inductive Pends : List HostEvent → Prop
  | asking (hop : op.unsupported = false) (grants : List (ℕ × BitVec 64))
      (hsizes : grants.map Prod.fst <+: blockSizes op) :
    Pends (opening host hsa comp s op ++ grantEvents grants)
  | polling (hop : op.unsupported = false) (grants : List (ℕ × BitVec 64))
      (hsizes : grants.map Prod.fst = blockSizes op)
    {zeros : List HostAnswer} (hzeros : ∀ answer ∈ zeros, answer.value = 0#32) :
    Pends (waitingEvents host hsa comp s op grants ++ pollEvents comp (s.writeIndex hsa) zeros)
  | freed (hop : op.unsupported = false) (grants : List (ℕ × BitVec 64))
      (hsizes : grants.map Prod.fst = blockSizes op)
    {answers : List HostAnswer} (hanswers : Completes answers) :
    Pends (freedEvents host hsa comp s op grants answers)

end Described

variable {op : CertOp} {w₀ : HostWorld}

/-- What a call has done when it has returned. -/
def Returned (hsa comp : MemInst) (op : CertOp) (w₀ : HostWorld) (_ : BitVec 32) (w : HostWorld) : Prop :=
  ∃ events, Returns host hsa comp w₀.state op events ∧ Since hostStep w₀ events w

/-- What a call has done when it waits. -/
def Pending (hsa comp : MemInst) (op : CertOp) (w₀ w : HostWorld) : Prop :=
  ∃ events, Pends host hsa comp w₀.state op events ∧ Since hostStep w₀ events w

theorem completing_runs (hop : op.unsupported = false) {grants : List (ℕ × BitVec 64)}
    (hsizes : grants.map Prod.fst = blockSizes op) :
    Triple (Since hostStep w₀ (opening host hsa comp w₀.state op ++ grantEvents grants))
      (completing host hsa comp w₀.state op (blocksFrom w₀.state.nextId grants))
      (Returned host hsa comp op w₀) (Pending host hsa comp op w₀) := by
  have hpoll : Triple (Since hostStep w₀ (waitingEvents host hsa comp w₀.state op grants))
      (pollCompletion comp (w₀.state.writeIndex hsa)) (fun _ w => ∃ answers, Completes answers ∧ Since hostStep w₀
        (waitingEvents host hsa comp w₀.state op grants ++ pollEvents comp (w₀.state.writeIndex hsa) answers) w)
      (Pending host hsa comp op w₀) := by
    refine Triple.bind (triple_since_askUntil _ (fun _ _ => rfl) ?_) ?_
    · exact fun zeros w hzeros h => ⟨_, .polling hop grants hsizes (by simpa using hzeros), h⟩
    · rintro _ w ⟨zeros, last, hzeros, hlast, h⟩
      exact ⟨zeros ++ [last], ⟨zeros, last, rfl, by simpa using hzeros, by simpa using hlast⟩, h⟩
  refine (triple_emit _).bind fun _ => hpoll.bind ?_
  rintro _ w ⟨answers, hanswers, h⟩
  refine ((triple_emit _).bind fun _ => Triple.bind (triple_since_ask _ (fun _ _ => rfl) ?_) ?_) w h
  · exact fun w h => ⟨_, .freed hop grants hsizes hanswers, h⟩
  · exact fun last w h => ⟨_, .done hop grants hsizes hanswers last, h⟩

/-- A run of the allocations: all are granted, or the granted ones are freed. -/
theorem allocating_runs (hop : op.unsupported = false) {grants : List (ℕ × BitVec 64)} {sizes : List ℕ}
    (hsizes : grants.map Prod.fst ++ sizes = blockSizes op) :
    Triple (Since hostStep w₀ (opening host hsa comp w₀.state op ++ grantEvents grants))
      (allocating (completing host hsa comp w₀.state op) sizes (blocksFrom w₀.state.nextId grants))
      (Returned host hsa comp op w₀) (Pending host hsa comp op w₀) := by
  induction sizes generalizing grants with
  | nil => exact completing_runs host hop (by rw [← hsizes, List.append_nil])
  | cons size sizes ih =>
    rintro ⟨s, trace, _ | ⟨⟨_ | devAddr, rc, value⟩, rest⟩⟩ h
    · exact ⟨_, .asking hop grants ⟨_, hsizes⟩, h⟩
    · refine ⟨_, .refused hop grants size ⟨sizes, by rw [← hsizes, List.append_assoc]; rfl⟩, ?_⟩
      have hrefused := h.append (w := ⟨s, trace ++ [.memAllocate size none], rest⟩) ⟨rfl, rfl⟩
      exact hrefused.append ⟨rfl, rfl⟩
    · have hnext : s.nextId = w₀.state.nextId + grants.length := by
        have hstate : s = _ := h.state
        rw [hstate, replay_append, replay_opening, replay_grantEvents]
      have hgrants : (grants ++ [(size, devAddr)]).map Prod.fst ++ sizes = blockSizes op := by
        rw [← hsizes, List.map_append, List.append_assoc]
        rfl
      have hrest := ih hgrants
      rw [blocksFrom_concat, ← hnext] at hrest
      refine hrest
        ⟨hostStep s (.memAllocate size (some devAddr)), trace ++ [.memAllocate size (some devAddr)], rest⟩ ?_
      have hgrant :=
        h.append (w :=
          ⟨hostStep s (.memAllocate size (some devAddr)), trace ++ [.memAllocate size (some devAddr)], rest⟩)
            ⟨rfl, rfl⟩
      rw [List.append_assoc] at hgrant
      rwa [grantEvents, List.map_append]

theorem certMethod_runs (op : CertOp) (hhsa : w₀.state.hsaMeminst = some hsa)
    (hcomp : w₀.state.compSigMeminst = some comp) :
    Meets (Returned host hsa comp op w₀) (Pending host hsa comp op w₀) (certMethod host op w₀) := by
  rw [certMethod_apply host op hhsa hcomp]
  refine (triple_emit _).bind (fun _ => ?_) w₀ (since_start w₀)
  cases hop : op.unsupported with
  | true => exact fun w h => ⟨_, .unsupported hop, h⟩
  | false =>
    have hruns := @allocating_runs host hsa comp op w₀ hop [] (blockSizes op) rfl
    rwa [grantEvents, List.map_nil, List.append_nil] at hruns

theorem allocating_granted (next : List MemInst → CertProgram (BitVec 32)) {grants : List (ℕ × BitVec 64)}
    {answers : List HostAnswer} (hanswers : answers.map HostAnswer.devAddr = grants.map fun grant => some grant.2)
    (s : HostState) (trace : List HostEvent) (rest : List HostAnswer) (blocks : List MemInst) :
    allocating next (grants.map Prod.fst) blocks ⟨s, trace, answers ++ rest⟩ =
      next (blocksFrom s.nextId grants ++ blocks)
        ⟨replay hostStep s (grantEvents grants), trace ++ grantEvents grants, rest⟩ := by
  induction grants generalizing answers s trace blocks with
  | nil =>
    obtain rfl := List.map_eq_nil_iff.mp hanswers
    simp only [grantEvents, List.map_nil, List.append_nil]
    rfl
  | cons grant grants ih =>
    obtain ⟨⟨_, rc, value⟩, answers, rfl, rfl, hrest⟩ := List.map_eq_cons_iff.mp hanswers
    refine (ih hrest (hostStep s (.memAllocate grant.1 (some grant.2)))
      (trace ++ [.memAllocate grant.1 (some grant.2)])
      (⟨s.nextId, grant.2, grant.1⟩ :: blocks)).trans ?_
    have hblocks : blocksFrom s.nextId (grant :: grants) = blocksFrom (s.nextId + 1) grants ++
      [⟨s.nextId, grant.2, grant.1⟩] := by
      rw [blocksFrom, List.zipIdx_cons, List.map_cons, List.reverse_cons]
      rfl
    rw [hblocks, List.append_assoc, List.append_assoc]
    rfl

theorem certMethod_waits (hop : op.unsupported = false) (hhsa : w₀.state.hsaMeminst = some hsa)
    (hcomp : w₀.state.compSigMeminst = some comp) {grants : List (ℕ × BitVec 64)}
    (hsizes : grants.map Prod.fst = blockSizes op) {answers zeros : List HostAnswer}
    (hscript : w₀.script = answers ++ zeros)
    (hanswers : answers.map HostAnswer.devAddr = grants.map fun grant => some grant.2)
    (hzeros : ∀ answer ∈ zeros, answer.value = 0#32) :
    certMethod host op w₀ = (.blocked, ⟨replay hostStep w₀.state (waitingEvents host hsa comp w₀.state op grants),
      w₀.trace ++ waitingEvents host hsa comp w₀.state op grants ++
        pollEvents comp (w₀.state.writeIndex hsa) zeros, []⟩) := by
  rw [certMethod_apply host op hhsa hcomp, hop, if_neg Bool.false_ne_true, ← hsizes]
  obtain ⟨s, trace, script⟩ := w₀
  obtain rfl : script = answers ++ zeros := hscript
  have hnext : (replay hostStep s (opening host hsa comp s op)).nextId = s.nextId := by rw [replay_opening]
  have hpoll (s' : HostState) (trace' : List HostEvent) :
    pollCompletion comp (s.writeIndex hsa) ⟨s', trace', zeros⟩ =
      (.blocked, ⟨s', trace' ++ pollEvents comp (s.writeIndex hsa) zeros, []⟩) := by
    rw [pollCompletion, bind_apply, askUntil_blocked _ (by simpa using hzeros)]
    rfl
  refine (allocating_granted _ hanswers (replay hostStep s (opening host hsa comp s op)) _ zeros []).trans ?_
  rw [hnext, List.append_nil]
  change (pollCompletion comp (s.writeIndex hsa) >>= _) ⟨_, _, zeros⟩ = _
  rw [bind_apply, hpoll]
  simp only [waitingEvents, replay_append, List.append_assoc]

end Runs

end AieBaremetal.Cert
