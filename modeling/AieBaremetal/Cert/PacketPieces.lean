import AieBaremetal.Common.Tiling
import AieBaremetal.Cert.HostRuns
import AieBaremetal.Cert.PacketWalk

/-!
# Where the pieces of an indirect packet lie

A command of several columns writes a fixed set of pieces: the header of the packet, for each
column its code, the indirect entry that leads to its header, that header and its `exec_buf`,
and in the two-level form the entry of the first level and the header of the second. Each piece
has a place that depends only on the number of columns, the sizes of their code and the packet's
slot. The places tile the two allocated blocks.
-/

namespace AieBaremetal.Cert

open Common Common.Program

namespace Piece

def size (cols : Columns) : Piece → ℕ
  | packetHeader => xrtPacketHeaderSize
  | firstEntry | indirectEntry _ => indirectEntrySize
  | secondHeader | header _ => commonHeaderSize
  | execBuf _ => execBufSize
  | code i => (columnAt cols i).2.length

def range (slot : ℕ) (cols : Columns) (piece : Piece) : ℕ × ℕ := (piece.offset slot cols, piece.size cols)

/-- Two pieces have no byte in common. -/
def Disjoint (b : Blocks) (cols : Columns) (piece piece' : Piece) : Prop :=
  (piece.block b cols.length).id = (piece'.block b cols.length).id →
    piece.offset b.slot cols + piece.size cols ≤ piece'.offset b.slot cols ∨
      piece'.offset b.slot cols + piece'.size cols ≤ piece.offset b.slot cols

end Piece

def queuePieces (n : ℕ) : List Piece :=
  if n ≤ hsaMaxLevel1IndirectEntries then .packetHeader :: (List.range n).flatMap fun i => [.indirectEntry i]
  else [.packetHeader, .firstEntry]

/-- The pieces in front of the headers in the entry block. -/
def secondLevelPieces (n : ℕ) : List Piece :=
  if n ≤ hsaMaxLevel1IndirectEntries then [] else .secondHeader ::
    (List.range n).flatMap fun i => [.indirectEntry i]

def entryPieces (n : ℕ) : List Piece :=
  secondLevelPieces n ++ (List.range n).flatMap fun i => [.header i, .execBuf i]

def codePieces (n : ℕ) : List Piece := (List.range n).flatMap fun i => [.code i]

def pieces (n : ℕ) : List Piece := queuePieces n ++ (entryPieces n ++ codePieces n)

variable {n : ℕ} {piece : Piece}

section Places

variable {b : Blocks} {cols : Columns}

theorem leafStart_add_le : leafStart n + n * (commonHeaderSize + execBufSize) = entryBlockSize n := by
  simp only [leafStart, entryBlockSize, secondLevelSize, commonHeaderSize, execBufSize, indirectEntrySize]
  split <;> omega

theorem tiles_codePieces (b : Blocks) (cols : Columns) :
    Tiles ((codePieces cols.length).map (Piece.range b.slot cols)) 0 (ctrlCodeSize cols) := by
  have htiles := tiles_flatMap_range (fun i => [(codeOffset cols i, (columnAt cols i).2.length)]) (codeOffset cols)
    cols.length fun i hi => ⟨rfl, (codeOffset_succ hi).symm⟩
  rw [show codeOffset cols cols.length = ctrlCodeSize cols by rw [codeOffset, List.take_length]] at htiles
  rw [codePieces, List.map_flatMap]
  exact htiles

theorem tiles_headers (b : Blocks) (cols : Columns) :
    Tiles (((List.range cols.length).flatMap fun i => [Piece.header i, .execBuf i]).map (Piece.range b.slot cols))
      (leafStart cols.length) (entryBlockSize cols.length) := by
  have htiles := tiles_flatMap_range
    (fun i => [(headerOffset cols.length i, commonHeaderSize),
      (headerOffset cols.length i + commonHeaderSize, execBufSize)]) (headerOffset cols.length) cols.length
    fun i _ => ⟨rfl, rfl, by change _ = _; simp only [headerOffset, Nat.succ_mul]; omega⟩
  have hfirst : headerOffset cols.length 0 = leafStart cols.length := by
    rw [headerOffset, Nat.zero_mul, Nat.add_zero]
  rw [List.map_flatMap]
  rw [hfirst, headerOffset, leafStart_add_le] at htiles
  exact htiles

theorem tiles_entries (slot : ℕ) (cols : Columns) :
    Tiles (((List.range cols.length).flatMap fun i => [Piece.indirectEntry i]).map (Piece.range slot cols))
      (entryOffset slot cols.length 0) (entryOffset slot cols.length cols.length) := by
  rw [List.map_flatMap]
  exact tiles_flatMap_range _ (entryOffset slot cols.length) cols.length fun i _ =>
    ⟨rfl, by change _ = _; simp only [entryOffset, Piece.size, Piece.range, Nat.succ_mul]; omega⟩

theorem tiles_entryPieces (b : Blocks) (cols : Columns) :
    Tiles ((entryPieces cols.length).map (Piece.range b.slot cols)) 0 (entryBlockSize cols.length) := by
  rw [entryPieces, List.map_append]
  refine Tiles.append ?_ (tiles_headers b cols)
  have hentries := tiles_entries b.slot cols
  by_cases hfew : cols.length ≤ hsaMaxLevel1IndirectEntries
  · rw [secondLevelPieces, if_pos hfew, leafStart, if_pos hfew]
    rfl
  · rw [secondLevelPieces, if_neg hfew, leafStart, if_neg hfew]
    simp only [entryOffset, if_neg hfew, Nat.zero_mul, Nat.add_zero] at hentries
    exact ⟨rfl, by rw [Nat.zero_add]; exact hentries⟩

theorem tiles_queuePieces (b : Blocks) (cols : Columns) :
    ∃ stop ≤ b.slot + hostQueuePacketSize,
      Tiles ((queuePieces cols.length).map (Piece.range b.slot cols)) b.slot stop := by
  have hentries := tiles_entries b.slot cols
  by_cases hfew : cols.length ≤ hsaMaxLevel1IndirectEntries
  · rw [queuePieces, if_pos hfew]
    simp only [entryOffset, if_pos hfew, Nat.zero_mul, Nat.add_zero] at hentries
    refine ⟨_, ?_, rfl, hentries⟩
    simp only [hsaMaxLevel1IndirectEntries, xrtPacketHeaderSize, indirectEntrySize, hostQueuePacketSize] at *
    omega
  · rw [queuePieces, if_neg hfew]
    exact ⟨b.slot + xrtPacketHeaderSize + indirectEntrySize, by
      simp only [xrtPacketHeaderSize, indirectEntrySize, hostQueuePacketSize]; omega, rfl, rfl, rfl⟩

theorem queuePieces_inside (b : Blocks) (h : piece ∈ queuePieces cols.length) : b.slot ≤ piece.offset b.slot cols ∧
    piece.offset b.slot cols + piece.size cols ≤ b.slot + hostQueuePacketSize := by
  obtain ⟨stop, hstop, htiles⟩ := tiles_queuePieces b cols
  obtain ⟨hlow, hhigh⟩ := htiles.inside _ (List.mem_map_of_mem h)
  exact ⟨hlow, hhigh.trans hstop⟩

theorem block_of_mem_queuePieces (h : piece ∈ queuePieces n) : piece.block b n = b.hsa := by
  rw [queuePieces] at h
  split at h
  · rename_i hfew
    obtain rfl | ⟨i, -, rfl⟩ := by simpa using h
    · rfl
    · exact if_pos hfew
  · obtain rfl | rfl := by simpa using h
    · rfl
    · rfl

theorem block_of_mem_entryPieces (h : piece ∈ entryPieces n) : piece.block b n = b.entry := by
  obtain h | h := List.mem_append.mp h
  · rw [secondLevelPieces] at h
    split at h
    · exact nomatch h
    · rename_i hmany
      obtain rfl | ⟨i, -, rfl⟩ := by simpa using h
      · rfl
      · exact if_neg hmany
  · obtain ⟨i, -, rfl | rfl⟩ := by simpa using h
    · rfl
    · rfl

theorem block_of_mem_codePieces (h : piece ∈ codePieces n) : piece.block b n = b.ctrlCode := by
  obtain ⟨i, -, rfl⟩ := by simpa [codePieces] using h
  rfl

theorem mem_piecesWritten : piece ∈ piecesWritten n ↔ piece ∈ pieces n := by
  have hcolumn (i : ℕ) : piece ∈ columnPieces i ↔
      piece = .code i ∨ piece = .indirectEntry i ∨ piece = .header i ∨ piece = .execBuf i := by simp [columnPieces]
  simp only [piecesWritten, pieces, queuePieces, entryPieces, secondLevelPieces, codePieces]
  split <;> simp [hcolumn] <;> grind

theorem piece_place (hentry : b.entry.size = entryBlockSize cols.length)
    (hctrl : b.ctrlCode.size = ctrlCodeSize cols) (hpiece : piece ∈ piecesWritten cols.length) :
    piece.block b cols.length = b.hsa ∧ b.slot ≤ piece.offset b.slot cols ∧
        piece.offset b.slot cols + piece.size cols ≤ b.slot + hostQueuePacketSize ∨
      piece.block b cols.length ∈ [b.ctrlCode, b.entry] ∧
        piece.offset b.slot cols + piece.size cols ≤ (piece.block b cols.length).size := by
  obtain hpiece | hpiece := List.mem_append.mp (mem_piecesWritten.mp hpiece)
  · exact .inl ⟨block_of_mem_queuePieces hpiece, queuePieces_inside b hpiece⟩
  obtain hpiece | hpiece := List.mem_append.mp hpiece
  · rw [block_of_mem_entryPieces hpiece, hentry]
    exact .inr ⟨List.mem_cons_of_mem _ List.mem_cons_self,
      ((tiles_entryPieces b cols).inside _ (List.mem_map_of_mem hpiece)).2⟩
  · rw [block_of_mem_codePieces hpiece, hctrl]
    exact .inr ⟨List.mem_cons_self, ((tiles_codePieces b cols).inside _ (List.mem_map_of_mem hpiece)).2⟩

theorem pairwise_disjoint_of_tiles {list : List Piece} {start stop : ℕ}
    (h : Tiles (list.map (Piece.range b.slot cols)) start stop) : list.Pairwise (Piece.Disjoint b cols) :=
  (List.pairwise_map.mp h.pairwise).imp fun hle _ => .inl hle

theorem Piece.Disjoint.symm {piece' : Piece} (h : piece.Disjoint b cols piece') : piece'.Disjoint b cols piece :=
  fun hid => (h hid.symm).symm

variable (hqueue : b.hsa.id ≠ b.entry.id) (hcode : b.hsa.id ≠ b.ctrlCode.id) (hblocks : b.entry.id ≠ b.ctrlCode.id)

include hqueue hcode hblocks

theorem pieces_pairwise_disjoint : (pieces cols.length).Pairwise (Piece.Disjoint b cols) := by
  obtain ⟨_, -, htiles⟩ := tiles_queuePieces b cols
  refine List.pairwise_append.mpr ⟨pairwise_disjoint_of_tiles htiles, List.pairwise_append.mpr
    ⟨pairwise_disjoint_of_tiles (tiles_entryPieces b cols), pairwise_disjoint_of_tiles
      (tiles_codePieces b cols), ?_⟩, ?_⟩
  · intro piece hpiece piece' hpiece' hid
    rw [block_of_mem_entryPieces hpiece, block_of_mem_codePieces hpiece'] at hid
    exact absurd hid hblocks
  · intro piece hpiece piece' hpiece' hid
    rw [block_of_mem_queuePieces hpiece] at hid
    obtain hpiece' | hpiece' := List.mem_append.mp hpiece'
    · rw [block_of_mem_entryPieces hpiece'] at hid
      exact absurd hid hqueue
    · rw [block_of_mem_codePieces hpiece'] at hid
      exact absurd hid hcode

theorem pieces_disjoint {piece' : Piece} (hpiece : piece ∈ piecesWritten cols.length)
    (hpiece' : piece' ∈ piecesWritten cols.length) (hne : piece ≠ piece') : piece.Disjoint b cols piece' := by
  have : Std.Symm (Piece.Disjoint b cols) := ⟨fun _ _ h => h.symm⟩
  exact (pieces_pairwise_disjoint hqueue hcode hblocks).forall (mem_piecesWritten.mp hpiece)
    (mem_piecesWritten.mp hpiece') hne

end Places

section Writes

variable (host : CertApi) (s : HostState) {b : Blocks} (compSigDma : BitVec 64) {cols : Columns}

theorem pieceWrites_of_ne (hne : piece ≠ .secondHeader) : ∃ bytes, pieceWrites host s b compSigDma cols piece =
    [.write (piece.block b cols.length) (piece.offset b.slot cols) bytes] ∧ bytes.length = piece.size cols := by
  cases piece with
  | packetHeader => exact ⟨_, rfl, by rw [List.length_append, CommonHeader.bytes_length, leBytes_length]; rfl⟩
  | firstEntry => exact ⟨_, rfl, IndirectEntry.bytes_length _⟩
  | secondHeader => exact absurd rfl hne
  | indirectEntry i => exact ⟨_, rfl, IndirectEntry.bytes_length _⟩
  | header i => exact ⟨_, rfl, CommonHeader.bytes_length _⟩
  | execBuf i => exact ⟨_, rfl, ExecBuf.bytes_length _⟩
  | code i => exact ⟨_, rfl, rfl⟩

theorem pieceWrites_within {e : HostEvent} (he : e ∈ pieceWrites host s b compSigDma cols piece) :
    ∃ offset bytes, e = .write (piece.block b cols.length) offset bytes ∧ piece.offset b.slot cols ≤ offset ∧
      offset + bytes.length ≤ piece.offset b.slot cols + piece.size cols := by
  by_cases hsecond : piece = .secondHeader
  · subst hsecond
    obtain rfl | rfl : e = _ ∨ e = _ := by simpa [pieceWrites] using he
    · exact ⟨_, _, rfl, Nat.le_refl 0, by rw [leBytes_length]; exact Nat.le_of_ble_eq_true rfl⟩
    · exact ⟨_, _, rfl, Nat.zero_le 2, by rw [CommonHeader.fieldBytes_length]; exact Nat.le_refl 8⟩
  · obtain ⟨bytes, hwrites, hlength⟩ := @pieceWrites_of_ne piece host s b compSigDma cols hsecond
    rw [hwrites, List.mem_singleton] at he
    exact ⟨_, bytes, he, Nat.le_refl _, by rw [hlength]⟩

end Writes

section Layout

/-- Two to twenty-four ascending columns with column 0. -/
structure IndirectColumns (cols : Columns) : Prop where
  min : 2 ≤ cols.length
  max : cols.length ≤ 24
  sorted : cols.Pairwise fun column column' => column.1 < column'.1
  zero : ∃ column ∈ cols, column.1 = 0

/-- Where the pieces lie and what they refer to. -/
structure PieceLayout (host : CertApi) (s : HostState) (b : Blocks) (compSigDma : BitVec 64) (cols : Columns) :
    Prop where
  /-- Every piece but the second level's header is one write. -/
  writes : ∀ piece ∈ piecesWritten cols.length, piece ≠ .secondHeader → ∃ bytes,
    pieceWrites host s b compSigDma cols piece =
      [.write (piece.block b cols.length) (piece.offset b.slot cols) bytes] ∧
      bytes.length = piece.size cols
  /-- The fields of that header are written inside it. -/
  secondHeader : ∀ event ∈ pieceWrites host s b compSigDma cols .secondHeader, ∃ offset bytes,
    event = .write b.entry offset bytes ∧ offset + bytes.length ≤ Piece.secondHeader.size cols
  /-- Every piece lies inside its block. -/
  inside : ∀ piece ∈ piecesWritten cols.length,
    piece.offset b.slot cols + piece.size cols ≤ (piece.block b cols.length).size
  /-- The pieces in the queue lie inside the packet's slot. -/
  slot : ∀ piece ∈ piecesWritten cols.length, piece.block b cols.length = b.hsa →
    b.slot ≤ piece.offset b.slot cols ∧ piece.offset b.slot cols + piece.size cols ≤ b.slot + hostQueuePacketSize
  /-- No two pieces overlap. -/
  disjoint : ∀ piece ∈ piecesWritten cols.length, ∀ piece' ∈ piecesWritten cols.length, piece ≠ piece' →
    piece.Disjoint b cols piece'
  /-- The code fills the code block in order. -/
  code : Tiles ((codePieces cols.length).map (Piece.range b.slot cols)) 0 b.ctrlCode.size
  /-- Headers, entries and `exec_buf`s fill the entry block. -/
  entry : Tiles ((entryPieces cols.length).map (Piece.range b.slot cols)) 0 b.entry.size
  /-- The `exec_buf` of a column names its code. -/
  codeAddress : ∀ i, (execBufAt host s ((Piece.code i).devAddr b cols)).codeAddress =
    ((Piece.code i).devAddr b cols).toNat

variable {cols : Columns}

theorem touchColumn0_of_mem (hsorted : cols.Pairwise fun column column' => column.1 < column'.1)
    (hzero : ∃ column ∈ cols, column.1 = 0) : touchColumn0 cols = cols := by
  induction cols with
  | nil => exact absurd hzero (by simp)
  | cons column rest ih =>
    obtain ⟨col, code⟩ := column
    obtain ⟨hfirst, hrest⟩ := List.pairwise_cons.mp hsorted
    obtain ⟨found, hmem, hcol⟩ := hzero
    rcases List.mem_cons.mp hmem with rfl | hmem
    · cases hcol
      rfl
    · have hneg : col < 0 := hcol ▸ hfirst found hmem
      rw [touchColumn0, if_pos hneg, ih hrest ⟨found, hmem, hcol⟩]

theorem IndirectColumns.logged (h : IndirectColumns cols) : loggedColumns cols = cols := by
  have hne : cols ≠ [] := by
    rintro rfl
    exact absurd h.min (by decide)
  rw [loggedColumns, if_neg hne, touchColumn0_of_mem h.sorted h.zero]

theorem execBufAt_codeAddress (host : CertApi) (s : HostState) (ctrlCodeDma : BitVec 64) :
    (execBufAt host s ctrlCodeDma).codeAddress = ctrlCodeDma.toNat := by
  have hlt := ctrlCodeDma.isLt
  rw [ExecBuf.codeAddress, execBufAt, BitVec.toNat_setWidth, BitVec.toNat_setWidth, BitVec.toNat_ushiftRight,
    Nat.shiftRight_eq_div_pow]
  omega

/-- The pieces of blocks that are apart and as large as allocated are laid out well. -/
theorem pieceLayout (host : CertApi) (s : HostState) (compSigDma : BitVec 64) {b : Blocks}
    (hentry : b.entry.size = entryBlockSize cols.length) (hctrl : b.ctrlCode.size = ctrlCodeSize cols)
    (hslot : b.slot + hostQueuePacketSize ≤ b.hsa.size) (hqueue : b.hsa.id ≠ b.entry.id)
    (hcode : b.hsa.id ≠ b.ctrlCode.id) (hblocks : b.entry.id ≠ b.ctrlCode.id) :
    PieceLayout host s b compSigDma cols := by
  refine ⟨?writes, ?secondHeader, ?inside, ?slot, ?disjoint, ?code, ?entry, ?codeAddress⟩
  case writes => exact fun piece _ hne => pieceWrites_of_ne host s compSigDma hne
  case secondHeader =>
    intro event hevent
    obtain ⟨offset, bytes, rfl, -, hbound⟩ := pieceWrites_within host s compSigDma hevent
    exact ⟨offset, bytes, rfl, hbound⟩
  case inside =>
    intro piece hpiece
    obtain ⟨hblock, -, hhigh⟩ | ⟨-, hhigh⟩ := piece_place hentry hctrl hpiece
    · rw [hblock]
      exact hhigh.trans hslot
    · exact hhigh
  case slot =>
    intro piece hpiece hblock
    obtain ⟨-, hplace⟩ | ⟨hother, -⟩ := piece_place hentry hctrl hpiece
    · exact hplace
    · rw [hblock] at hother
      obtain hsame | hsame := by simpa using hother
      · exact absurd (congrArg MemInst.id hsame) hcode
      · exact absurd (congrArg MemInst.id hsame) hqueue
  case disjoint =>
    exact fun piece hpiece piece' hpiece' hne => pieces_disjoint hqueue hcode hblocks hpiece hpiece' hne
  case code =>
    rw [hctrl]
    exact tiles_codePieces b cols
  case entry =>
    rw [hentry]
    exact tiles_entryPieces b cols
  case codeAddress => exact fun i => execBufAt_codeAddress host s _

/-- The numbers and sizes of some columns. -/
def layoutOf (cols : Columns) : List (ℤ × ℕ) := cols.map fun column => (column.1, column.2.length)

/-- A command is submitted whose allocations return the given addresses. -/
structure Submits (hsa comp : MemInst) (entryDma ctrlCodeDma : BitVec 64) (layout : List (ℤ × ℕ))
    (w : HostWorld) (cols : Columns) : Prop where
  layout : layoutOf cols = layout
  hsaMeminst : w.state.hsaMeminst = some hsa
  compSigMeminst : w.state.compSigMeminst = some comp
  hsa_live : hsa ∈ w.state.live
  comp_live : comp ∈ w.state.live
  hsa_lt : hsa.id < w.state.nextId
  comp_lt : comp.id < w.state.nextId
  index_lt : (w.state.writeIndex hsa).toNat < hsaQueueEntry
  script : w.script.map HostAnswer.devAddr = [some entryDma, some ctrlCodeDma]

variable {host : CertApi} {hsa comp : MemInst} {entryDma ctrlCodeDma : BitVec 64} {layout : List (ℤ × ℕ)}
    {index : UInt8}
  {w : HostWorld}

theorem waitingEvents_two (host : CertApi) (hsa comp : MemInst) (s : HostState) (entryDma ctrlCodeDma : BitVec 64)
    (parsed : Columns) :
    waitingEvents host hsa comp s (.submitCommand parsed) [(entryBlockSize (loggedColumns parsed).length, entryDma),
        (ctrlCodeSize (loggedColumns parsed), ctrlCodeDma)] =
      submitTrace host comp s (commandBlocks hsa s entryDma ctrlCodeDma (loggedColumns parsed))
        (loggedColumns parsed) := by
  rw [waitingEvents, blocksFrom_two, preparing, submitTrace]
  simp only [List.append_assoc]
  rfl

theorem submitCommand_blocked (hhsa : w.state.hsaMeminst = some hsa) (hcomp : w.state.compSigMeminst = some comp)
    (hlogged : loggedColumns cols = cols) (hmin : 2 ≤ cols.length) (hmax : cols.length ≤ 24)
    (hscript : w.script.map HostAnswer.devAddr = [some entryDma, some ctrlCodeDma]) :
    submitCommand host cols w = (.blocked,
      ⟨replay hostStep w.state
        (submitTrace host comp w.state (commandBlocks hsa w.state entryDma ctrlCodeDma cols) cols),
        w.trace ++ submitTrace host comp w.state (commandBlocks hsa w.state entryDma ctrlCodeDma cols) cols,
          []⟩) := by
  have hop : (CertOp.submitCommand cols).unsupported = false := by
    simp only [CertOp.unsupported, hlogged, Bool.or_eq_false_iff, decide_eq_false_iff_not]
    omega
  have hsizes : blockSizes (.submitCommand cols) = [entryBlockSize cols.length, ctrlCodeSize cols] := by
    rw [blockSizes, hlogged, if_neg (by omega)]
  have hevents := waitingEvents_two host hsa comp w.state entryDma ctrlCodeDma cols
  rw [hlogged] at hevents
  have hrun := @certMethod_waits host hsa comp (.submitCommand cols) w hop hhsa hcomp
    [(entryBlockSize cols.length, entryDma), (ctrlCodeSize cols, ctrlCodeDma)] hsizes.symm w.script []
    (List.append_nil _).symm hscript (by simp)
  rw [pollEvents, List.map_nil, List.append_nil, hevents] at hrun
  exact hrun

/-- A command of two to twenty-four columns with column 0 writes the pieces of its packet and nothing else into
its slot and its blocks, and the pieces are laid out well. -/
theorem submitCommand_packet_layout {host : CertApi} {hsa comp : MemInst} {entryDma ctrlCodeDma : BitVec 64}
    {w : World HostEvent HostAnswer HostState} (hcols : IndirectColumns cols) (hsize : hsa.size = hsaQueueSize)
    (hsubmit : Submits hsa comp entryDma ctrlCodeDma (layoutOf cols) w cols) :
    (∃ s, submitCommand host cols w = (.blocked, ⟨s, w.trace ++
      submitTrace host comp w.state (commandBlocks hsa w.state entryDma ctrlCodeDma cols) cols, []⟩)) ∧
    PieceLayout host w.state (commandBlocks hsa w.state entryDma ctrlCodeDma cols)
      (compSigDmaAt comp (w.state.writeIndex hsa)) cols := by
  constructor
  · exact ⟨_, submitCommand_blocked hsubmit.hsaMeminst hsubmit.compSigMeminst hcols.logged hcols.min
      hcols.max hsubmit.script⟩
  · refine pieceLayout host w.state _ rfl rfl ?_ ?_ ?_ ?_
    · have hindex := hsubmit.index_lt
      change hqEntryOffset (w.state.writeIndex hsa).toNat + hostQueuePacketSize ≤ hsa.size
      simp only [hsize, hsaQueueSize, hqEntryOffset, hostQueueHeaderSize, hostQueuePacketSize, hsaQueueEntry] at *
      omega
    · exact hsubmit.hsa_lt.ne
    · exact (Nat.lt_succ_of_lt hsubmit.hsa_lt).ne
    · exact (Nat.lt_succ_self _).ne

/-- A queue that is empty but for its index. -/
def emptyState (hsa comp : MemInst) (index : UInt8) : HostState where
  memory place := if place = (hsa.id, writeIndexOffset) then index else 0
  live := [hsa, comp]
  nextId := hsa.id + comp.id + 1
  hsaMeminst := some hsa
  compSigMeminst := some comp
  hostArgsMeminst := none
  hostArgsLow := 0#32
  hostArgsHigh := 0#32

theorem emptyState_writeIndex (hsa comp : MemInst) (index : UInt8) :
    ((emptyState hsa comp index).writeIndex hsa).toNat = index.toNat := by
  have hload : load (emptyState hsa comp index).memory (hsa.cell writeIndexOffset) 8 =
    [index, 0, 0, 0, 0, 0, 0, 0] := by
    simp [load, List.range_succ, emptyState, MemInst.cell]
  have hlt := index.toNat_lt
  rw [HostState.writeIndex, hload, BitVec.toNat_ofNat]
  simp only [leNat, UInt8.toNat_zero, Nat.mul_zero, Nat.add_zero]
  omega

def zeroColumns (layout : List (ℤ × ℕ)) : Columns := layout.map fun column => (column.1, List.replicate column.2 0)

theorem layoutOf_zeroColumns (layout : List (ℤ × ℕ)) : layoutOf (zeroColumns layout) = layout := by
  simp [layoutOf, zeroColumns, Function.comp_def]

def emptyWorld (hsa comp : MemInst) (index : UInt8) (entryDma ctrlCodeDma : BitVec 64) :
    HostWorld :=
  ⟨emptyState hsa comp index, [], [⟨some entryDma, 0, 0⟩, ⟨some ctrlCodeDma, 0, 0⟩]⟩

theorem emptyWorld_submits (hindex : index.toNat < hsaQueueEntry) :
    Submits hsa comp entryDma ctrlCodeDma layout (emptyWorld hsa comp index entryDma ctrlCodeDma)
      (zeroColumns layout) where
  layout := layoutOf_zeroColumns layout
  hsaMeminst := rfl
  compSigMeminst := rfl
  hsa_live := List.mem_cons_self
  comp_live := List.mem_cons_of_mem _ List.mem_cons_self
  hsa_lt := by simp only [emptyWorld, emptyState]; omega
  comp_lt := by simp only [emptyWorld, emptyState]; omega
  index_lt := (emptyState_writeIndex hsa comp index).trans_lt hindex
  script := rfl

def reachHost : CertApi :=
  { startCol := 0, numCols := 2, colShift := 25, externalBufferMap := [], externalBufferAddrMap := [] }

def reachQueue : MemInst := ⟨0, 0x10000, hsaQueueSize⟩

def reachCompletion : MemInst := ⟨1, 0x20000, 4 * hsaQueueEntry⟩

def reachLayout : List (ℤ × ℕ) := [(0, 4), (1, 4)]

/-- Two columns of four bytes, with headers at `0x40000` and code at `0x30000`. -/
theorem submitCommand_packet_layout_sample :
    (∃ s, submitCommand reachHost (zeroColumns reachLayout)
      (emptyWorld reachQueue reachCompletion 5 0x40000 0x30000) =
      (.blocked, ⟨s, submitTrace reachHost reachCompletion (emptyState reachQueue reachCompletion 5)
        (commandBlocks reachQueue (emptyState reachQueue reachCompletion 5) 0x40000 0x30000
          (zeroColumns reachLayout))
        (zeroColumns reachLayout), []⟩)) ∧
    PieceLayout reachHost (emptyState reachQueue reachCompletion 5)
      (commandBlocks reachQueue (emptyState reachQueue reachCompletion 5) 0x40000 0x30000 (zeroColumns reachLayout))
      (compSigDmaAt reachCompletion ((emptyState reachQueue reachCompletion 5).writeIndex reachQueue))
      (zeroColumns reachLayout) := by
  have hcols : IndirectColumns (zeroColumns reachLayout) :=
    ⟨by decide, by decide, by decide, (0, [0, 0, 0, 0]), by decide, rfl⟩
  have hsubmit : Submits reachQueue reachCompletion 0x40000 0x30000 (layoutOf (zeroColumns reachLayout))
      (emptyWorld reachQueue reachCompletion 5 0x40000 0x30000) (zeroColumns reachLayout) := by
    rw [layoutOf_zeroColumns]
    exact emptyWorld_submits (by decide)
  exact submitCommand_packet_layout hcols rfl hsubmit

end Layout

end AieBaremetal.Cert
