import AieBaremetal.Cert.PacketPieces

/-!
# What an indirect command leaves in memory

The loop over the columns moves four cursors: the place of the next indirect entry, the offset and
the device address of the next header, and the code bytes copied so far. Its effect on memory is
given as a function, and it is the effect of the command's writes. Since no two pieces overlap, each
is there in the end; the bytes of the columns are then described with the cursors of the loop.
-/

namespace AieBaremetal.Cert

open Common Common.Program

def InRange (inst : MemInst) (offset length : ℕ) (place : ℕ × ℕ) : Prop :=
  place.1 = inst.id ∧ offset ≤ place.2 ∧ place.2 < offset + length

variable {inst : MemInst} {m : HostMemory}

theorem store_of_outside (m : HostMemory) {offset : ℕ} {bytes : List UInt8} {place : ℕ × ℕ}
    (h : ¬ InRange inst offset bytes.length place) : store m (inst.cell offset) bytes place = m place := by
  refine store_of_ne m fun i hi heq => h ?_
  subst heq
  exact ⟨rfl, Nat.le_add_right _ _, Nat.add_lt_add_left hi offset⟩

theorem contains_write (m : HostMemory) (inst : MemInst) (offset : ℕ) (bytes : List UInt8) :
    Contains (store m (inst.cell offset) bytes) (inst.cell offset) bytes :=
  load_store m fun _ _ _ _ heq => Nat.add_left_cancel (congrArg Prod.snd heq)

theorem contains_of_range {m' : HostMemory} {offset : ℕ} {bytes : List UInt8}
    (h : Contains m (inst.cell offset) bytes)
    (hagree : ∀ place, InRange inst offset bytes.length place → m' place = m place) :
    Contains m' (inst.cell offset) bytes :=
  h.congr fun _ hi => hagree _ ⟨rfl, Nat.le_add_right _ _, Nat.add_lt_add_left hi offset⟩

theorem contains_cell_append {offset : ℕ} {front back : List UInt8} :
    Contains m (inst.cell offset) (front ++ back) ↔
      Contains m (inst.cell offset) front ∧ Contains m (inst.cell (offset + front.length)) back := by
  have hcell : (fun i => inst.cell offset (front.length + i)) = inst.cell (offset + front.length) := by
    funext i
    simp only [MemInst.cell, Nat.add_assoc]
  rw [contains_append, hcell]

theorem contains_write_of_disjoint {inst' : MemInst} {offset offset' : ℕ}
    {bytes bytes' : List UInt8} (h : Contains m (inst.cell offset) bytes)
    (hother : inst'.id = inst.id → offset + bytes.length ≤ offset' ∨ offset' + bytes'.length ≤ offset) :
    Contains (store m (inst'.cell offset') bytes') (inst.cell offset) bytes := by
  refine contains_of_range h fun place hplace => store_of_outside m fun hplace' => ?_
  have hapart := hother (hplace'.1.symm.trans hplace.1)
  simp only [InRange] at *
  omega

section Loop

variable (eb : BitVec 64 → ExecBuf) (entry ctrlCode indirect : MemInst)

def columnTurn (col : ℤ) (code : List UInt8) (indirectOffset entryVa : ℕ) (entryDma : BitVec 64) (ctrlSize : ℕ)
    (m : HostMemory) : HostMemory :=
  store
    (store
      (store (store m (ctrlCode.cell ctrlSize) code) (indirect.cell indirectOffset)
        (columnEntry col entryDma).bytes)
      (entry.cell entryVa) (execBufHeader execBufSize 1 0).bytes)
    (entry.cell (entryVa + commonHeaderSize)) (eb (ctrlCode.devAddr + BitVec.ofNat 64 ctrlSize)).bytes

def columnMemory : Columns → ℕ → ℕ → BitVec 64 → ℕ → HostMemory → HostMemory
  | [], _, _, _, _, m => m
  | (col, code) :: rest, indirectOffset, entryVa, entryDma, ctrlSize, m =>
    columnMemory rest (indirectOffset + indirectEntrySize) (entryVa + (commonHeaderSize + execBufSize))
      (entryDma + BitVec.ofNat 64 (commonHeaderSize + execBufSize)) (ctrlSize + code.length)
      (columnTurn eb entry ctrlCode indirect col code indirectOffset entryVa entryDma ctrlSize m)

/-- The bytes of the columns: code, the entry of the header, and the header with its `exec_buf`. -/
def ColumnsLaid (m : HostMemory) : Columns → ℕ → ℕ → BitVec 64 → ℕ → Prop
  | [], _, _, _, _ => True
  | (col, code) :: rest, indirectOffset, entryVa, entryDma, ctrlSize =>
    Contains m (ctrlCode.cell ctrlSize) code ∧
      Contains m (indirect.cell indirectOffset) (columnEntry col entryDma).bytes ∧
      Contains m (entry.cell entryVa)
        ((execBufHeader execBufSize 1 0).bytes ++ (eb (ctrlCode.devAddr + BitVec.ofNat 64 ctrlSize)).bytes) ∧
      ColumnsLaid m rest (indirectOffset + indirectEntrySize) (entryVa + (commonHeaderSize + execBufSize))
        (entryDma + BitVec.ofNat 64 (commonHeaderSize + execBufSize)) (ctrlSize + code.length)

end Loop

section Published

variable (host : CertApi) (hsa comp : MemInst)

/-- The memory with a cleared completion word and the packet's header. -/
def headerMemory (s : HostState) (header : CommonHeader) : HostMemory :=
  store
    (store (store s.memory (comp.cell (4 * (s.writeIndex hsa).toNat)) (leBytes 4 0))
      (hsa.cell (hqEntryOffset (s.writeIndex hsa).toNat)) (List.replicate hostQueuePacketSize 0))
    (hsa.cell (hqEntryOffset (s.writeIndex hsa).toNat))
    (header.bytes ++ leBytes 8 (compSigDmaAt comp (s.writeIndex hsa)).toNat)

/-- The memory once the packet of case 3 is built. -/
def oneLevelMemory (s : HostState) (entry ctrlCode : MemInst) (cols : Columns) : HostMemory :=
  columnMemory (execBufAt host s) entry ctrlCode hsa cols
    (hqEntryOffset (s.writeIndex hsa).toNat + xrtPacketHeaderSize) 0 entry.devAddr 0
    (headerMemory hsa comp s (execBufHeader (cols.length * indirectEntrySize) 1 1))

/-- The memory of case 4 before the loop over the columns. -/
def secondLevelMemory (s : HostState) (entry : MemInst) (n : ℕ) : HostMemory :=
  store
    (store
      (store (headerMemory hsa comp s (execBufHeader indirectEntrySize 1 1))
        (hsa.cell (hqEntryOffset (s.writeIndex hsa).toNat + xrtPacketHeaderSize))
          (firstIndirect entry.devAddr).bytes)
      (entry.cell 0) (leBytes 1 (execBufHeader (n * indirectEntrySize) 1 1).type.toNat))
    (entry.cell 2) (execBufHeader (n * indirectEntrySize) 1 1).fieldBytes

/-- The memory once the packet of case 4 is built. -/
def twoLevelMemory (s : HostState) (entry ctrlCode : MemInst) (cols : Columns) : HostMemory :=
  columnMemory (execBufAt host s) entry ctrlCode entry cols commonHeaderSize (secondLevelSize cols.length)
    (entry.devAddr + BitVec.ofNat 64 (secondLevelSize cols.length)) 0
      (secondLevelMemory hsa comp s entry cols.length)

def publishedMemory (s : HostState) (entry ctrlCode : MemInst) (cols : Columns) : HostMemory :=
  store
    (if cols.length ≤ hsaMaxLevel1IndirectEntries then oneLevelMemory host hsa comp s entry ctrlCode cols
     else twoLevelMemory host hsa comp s entry ctrlCode cols)
    (hsa.cell writeIndexOffset) (leBytes 8 (nextIndex (s.writeIndex hsa)).toNat)

def publishedState (s : HostState) (entryDma ctrlCodeDma : BitVec 64) (cols : Columns) : HostState :=
  { s with
    memory := publishedMemory host hsa comp s (entryBlock s entryDma cols) (ctrlCodeBlock s ctrlCodeDma cols) cols
    live := ctrlCodeBlock s ctrlCodeDma cols :: entryBlock s entryDma cols :: s.live
    nextId := s.nextId + 2 }

end Published

section Effect

variable {host : CertApi} {hsa comp : MemInst} {s : HostState} {entryDma ctrlCodeDma : BitVec 64} {cols : Columns}

theorem replay_columnWrites (eb : BitVec 64 → ExecBuf) (entry ctrlCode indirect : MemInst)
    (indirectOffset entryVa : ℕ) (entryDma : BitVec 64) (ctrlSize : ℕ) (s : HostState) :
    replay hostStep s (columnWrites eb entry ctrlCode indirect cols indirectOffset entryVa entryDma ctrlSize) =
      { s with
        memory := columnMemory eb entry ctrlCode indirect cols indirectOffset entryVa entryDma
          ctrlSize s.memory } := by
  induction cols generalizing indirectOffset entryVa entryDma ctrlSize s with
  | nil => rfl
  | cons column rest ih => exact ih _ _ _ _ _

theorem publishedState_eq : publishedState host hsa comp s entryDma ctrlCodeDma cols =
    replay hostStep s (submitTrace host comp s (commandBlocks hsa s entryDma ctrlCodeDma cols) cols) := by
  have hopening : replay hostStep s (beforePacket host hsa comp s) = _ :=
    replay_opening host s s (.submitCommand cols)
  change _ = replay hostStep s (submitTrace host comp s (slotBlocks hsa s (entryBlock s entryDma cols)
    (ctrlCodeBlock s ctrlCodeDma cols)) cols)
  rw [submitTrace, piecesWritten, List.flatMap_append, ← columnWrites_all, publishedState, publishedMemory]
  simp only [replay_append, replay_columnWrites, hopening]
  by_cases hfew : cols.length ≤ hsaMaxLevel1IndirectEntries
  · simp only [Blocks.entries, entryOffset, leafStart, if_pos hfew, Nat.zero_mul, Nat.add_zero, BitVec.add_zero,
      oneLevelMemory, pieceWrites, List.flatMap_cons, List.flatMap_nil]
    rfl
  · have hfirst : Piece.secondHeader.devAddr (slotBlocks hsa s (entryBlock s entryDma cols)
        (ctrlCodeBlock s ctrlCodeDma cols)) cols = entryDma := BitVec.add_zero _
    simp only [Blocks.entries, entryOffset, leafStart, if_neg hfew, Nat.zero_mul, Nat.add_zero, hfirst,
      twoLevelMemory, pieceWrites, List.flatMap_cons, List.flatMap_nil]
    rfl

end Effect

section Contents

variable {host : CertApi} {hsa comp : MemInst} {s : HostState} {entryDma ctrlCodeDma : BitVec 64} {cols : Columns}
  {b : Blocks} {compSigDma : BitVec 64}

/-- What an event writes lies outside a range. -/
def HostEvent.Spares (inst : MemInst) (offset length : ℕ) : HostEvent → Prop
  | .write inst' offset' bytes => inst'.id = inst.id → offset + length ≤ offset' ∨ offset' + bytes.length ≤ offset
  | _ => True

def HostEvent.Stored (m : HostMemory) : HostEvent → Prop
  | .write inst offset bytes => Contains m (inst.cell offset) bytes
  | _ => True

theorem contains_replay {offset : ℕ} {bytes : List UInt8} {events : List HostEvent} {s : HostState}
    (h : Contains s.memory (inst.cell offset) bytes) (hspares : ∀ e ∈ events, e.Spares inst offset bytes.length) :
    Contains (replay hostStep s events).memory (inst.cell offset) bytes := by
  induction events generalizing s with
  | nil => exact h
  | cons e rest ih =>
    obtain ⟨he, hrest⟩ := List.forall_mem_cons.mp hspares
    refine ih ?_ hrest
    rcases e with _ | ⟨_, _ | _⟩ | _ | _ | _ | _ | _ | _ | _ | _ | _
    case write => exact contains_write_of_disjoint h he
    all_goals exact h

theorem pieceWrites_stored (host : CertApi) (s s' : HostState) (piece : Piece) :
    ∀ e ∈ pieceWrites host s b compSigDma cols piece,
      e.Stored (replay hostStep s' (pieceWrites host s b compSigDma cols piece)).memory := by
  by_cases hsecond : piece = .secondHeader
  · subst hsecond
    refine List.forall_mem_cons.mpr ⟨?_, List.forall_mem_singleton.mpr (contains_write _ _ _ _)⟩
    exact contains_write_of_disjoint (contains_write _ _ _ _) fun _ => .inl (by rw [leBytes_length]; decide)
  · obtain ⟨bytes, hwrites, -⟩ := @pieceWrites_of_ne piece host s b compSigDma cols hsecond
    rw [hwrites]
    exact List.forall_mem_singleton.mpr (contains_write _ _ _ _)

theorem writeIndex_before (i : ℕ) : writeIndexOffset + 8 ≤ hqEntryOffset i := by
  simp only [writeIndexOffset, hqEntryOffset, hostQueueHeaderSize]
  omega

section Apart

variable (hqueue : b.hsa.id ≠ b.entry.id) (hcode : b.hsa.id ≠ b.ctrlCode.id) (hblocks : b.entry.id ≠ b.ctrlCode.id)

include hqueue hcode hblocks

theorem pieces_stored {list : List Piece}
    (hlist : ∀ piece ∈ list, piece ∈ piecesWritten cols.length) (s' : HostState) :
    ∀ piece ∈ list, ∀ e ∈ pieceWrites host s b compSigDma cols piece,
      e.Stored (replay hostStep s' (list.flatMap (pieceWrites host s b compSigDma cols))).memory := by
  induction list using List.reverseRecOn with
  | nil => exact nofun
  | append_singleton list last ih =>
    obtain ⟨hlist, hlast⟩ := List.forall_mem_append.mp hlist
    rw [List.flatMap_append, List.flatMap_singleton, replay_append]
    intro piece hpiece e he
    by_cases hsame : piece = last
    · subst hsame
      exact pieceWrites_stored host s _ piece e he
    -- a later piece is written elsewhere
    have hpiece' : piece ∈ list := (List.mem_append.mp hpiece).resolve_right fun h =>
      hsame (List.mem_singleton.mp h)
    have hstored := ih hlist piece hpiece' e he
    obtain ⟨offset, bytes, rfl, hlow, hhigh⟩ := pieceWrites_within host s compSigDma he
    refine contains_replay hstored fun e' he' => ?_
    obtain ⟨offset', bytes', rfl, hlow', hhigh'⟩ := pieceWrites_within host s compSigDma he'
    intro hid
    have hdisjoint := pieces_disjoint hqueue hcode hblocks (hlist piece hpiece')
      (hlast last List.mem_cons_self) hsame hid.symm
    omega

theorem packet_stored {i : ℕ} (hslot : b.slot = hqEntryOffset i) (s' : HostState) :
    ∀ piece ∈ piecesWritten cols.length, ∀ e ∈ pieceWrites host s b compSigDma cols piece,
      e.Stored (replay hostStep s' ((piecesWritten cols.length).flatMap (pieceWrites host s b compSigDma cols) ++
        publishing b s)).memory := by
  intro piece hpiece e he
  have hstored := pieces_stored hqueue hcode hblocks (fun _ h => h) s' piece hpiece e he
  obtain ⟨offset, bytes, rfl, hlow, -⟩ := pieceWrites_within host s compSigDma he
  rw [replay_append]
  refine contains_replay hstored ?_
  simp only [publishing, List.forall_mem_cons, List.not_mem_nil, IsEmpty.forall_iff, implies_true, HostEvent.Spares,
    true_and, and_true]
  -- the index lies in front of the packets
  intro hid
  have hbefore := writeIndex_before i
  have hinside : b.slot ≤ piece.offset b.slot cols := by
    obtain hpiece | hpiece := List.mem_append.mp (mem_piecesWritten.mp hpiece)
    · exact (queuePieces_inside b hpiece).1
    obtain hpiece | hpiece := List.mem_append.mp hpiece
    · exact absurd (hid.trans (by rw [block_of_mem_entryPieces hpiece])) hqueue
    · exact absurd (hid.trans (by rw [block_of_mem_codePieces hpiece])) hcode
  rw [leBytes_length]
  omega

end Apart

theorem published_stored (hid : hsa.id < s.nextId) : ∀ piece ∈ piecesWritten cols.length,
    ∀ e ∈ pieceWrites host s (commandBlocks hsa s entryDma ctrlCodeDma cols)
      (compSigDmaAt comp (s.writeIndex hsa)) cols
      piece, e.Stored (publishedState host hsa comp s entryDma ctrlCodeDma cols).memory := by
  rw [publishedState_eq, submitTrace, List.append_assoc, replay_append]
  exact packet_stored (b := commandBlocks hsa s entryDma ctrlCodeDma cols) hid.ne (Nat.lt_succ_of_lt hid).ne
    (Nat.lt_succ_self _).ne rfl _

theorem columnsLaid_of_stored {eb : BitVec 64 → ExecBuf} {entry ctrlCode indirect : MemInst}
    {indirectOffset entryVa : ℕ} {entryDma : BitVec 64} {ctrlSize : ℕ}
    (h : ∀ e ∈ columnWrites eb entry ctrlCode indirect cols indirectOffset entryVa
      entryDma ctrlSize, e.Stored m) :
    ColumnsLaid eb entry ctrlCode indirect m cols indirectOffset entryVa entryDma ctrlSize := by
  induction cols generalizing indirectOffset entryVa entryDma ctrlSize with
  | nil => trivial
  | cons column rest ih =>
    obtain ⟨hturn, hrest⟩ := List.forall_mem_append.mp h
    simp only [List.forall_mem_cons] at hturn
    obtain ⟨hcode, hentry, hheader, hbuf, -⟩ := hturn
    refine ⟨hcode, hentry, contains_cell_append.mpr ⟨hheader, ?_⟩, ih hrest⟩
    rw [CommonHeader.bytes_length]
    exact hbuf

section Packet

variable (hid : hsa.id < s.nextId)

include hid

theorem published_header : Contains (publishedState host hsa comp s entryDma ctrlCodeDma cols).memory
    (hsa.cell (hqEntryOffset (s.writeIndex hsa).toNat)) (execBufHeader
      (if cols.length ≤ hsaMaxLevel1IndirectEntries then cols.length * indirectEntrySize else indirectEntrySize) 1
        1).bytes := by
  have hmem : Piece.packetHeader ∈ piecesWritten cols.length := by
    rw [piecesWritten]
    split <;> exact List.mem_cons_self
  exact (contains_cell_append.mp (published_stored hid _ hmem _ List.mem_cons_self)).1

/-- A two-level packet leaves its first entry and the header of the second level in memory. -/
theorem published_secondLevel (hmany : ¬ cols.length ≤ hsaMaxLevel1IndirectEntries) :
    Contains (publishedState host hsa comp s entryDma ctrlCodeDma cols).memory
        (hsa.cell (hqEntryOffset (s.writeIndex hsa).toNat + xrtPacketHeaderSize)) (firstIndirect entryDma).bytes ∧
      Contains (publishedState host hsa comp s entryDma ctrlCodeDma cols).memory
        ((entryBlock s entryDma cols).cell 0)
        (leBytes 1 (execBufHeader (cols.length * indirectEntrySize) 1 1).type.toNat) ∧
      Contains (publishedState host hsa comp s entryDma ctrlCodeDma cols).memory
        ((entryBlock s entryDma cols).cell 2)
        (execBufHeader (cols.length * indirectEntrySize) 1 1).fieldBytes := by
  have hmem {piece : Piece} (h : piece ∈ [.packetHeader, .firstEntry, .secondHeader]) :
    piece ∈ piecesWritten cols.length := by
    rw [piecesWritten, if_neg hmany]
    exact List.mem_append_left _ h
  have hfirst : Piece.secondHeader.devAddr (commandBlocks hsa s entryDma ctrlCodeDma cols) cols = entryDma :=
    BitVec.add_zero _
  have hentry := @published_stored host hsa comp s entryDma ctrlCodeDma cols hid .firstEntry (hmem (by decide)) _
    List.mem_cons_self
  have hsecond := @published_stored host hsa comp s entryDma ctrlCodeDma cols hid .secondHeader (hmem (by decide))
  rw [hfirst] at hentry
  exact ⟨hentry, hsecond _ List.mem_cons_self, hsecond _ (List.mem_cons_of_mem _ List.mem_cons_self)⟩

theorem published_columns :
    ColumnsLaid (execBufAt host s) (entryBlock s entryDma cols) (ctrlCodeBlock s ctrlCodeDma cols)
    ((commandBlocks hsa s entryDma ctrlCodeDma cols).entries cols.length)
    (publishedState host hsa comp s entryDma ctrlCodeDma cols).memory cols
    (entryOffset (hqEntryOffset (s.writeIndex hsa).toNat) cols.length 0) (leafStart cols.length)
    (entryDma + BitVec.ofNat 64 (leafStart cols.length)) 0 := by
  refine columnsLaid_of_stored fun e he => ?_
  have hwrites := @columnWrites_all host s (commandBlocks hsa s entryDma ctrlCodeDma cols)
    (compSigDmaAt comp (s.writeIndex hsa)) cols
  obtain ⟨piece, hpiece, he⟩ := List.mem_flatMap.mp (hwrites ▸ he)
  exact published_stored hid piece (List.mem_append_right _ hpiece) e he

end Packet

end Contents

end AieBaremetal.Cert
