import AieBaremetal.Cert.PacketLayout
import Mathlib.Data.List.Pairwise

/-!
# What the firmware reaches from a published packet

The device sees every allocated block at its device address; what lies between the blocks is unknown
to the host. A reader that walks a published indirect packet comes to the `exec_buf` of each column
and to nothing else exactly if the address of each column's header survives. Its low half is masked
to twenty-five bits where the format keeps thirty-two, so bits twenty-five to thirty-one have to be
zero; otherwise the reader is led below the block of headers, to bytes the host does not control.
-/

namespace AieBaremetal.Cert

open Common Common.Program

/-- The device sees every block at its device address. -/
def Views (dev : DeviceMemory) (s : HostState) : Prop :=
  ∀ inst ∈ s.live, ∀ i < inst.size, dev (inst.devAddr.toNat + i) = s.memory (inst.id, i)

variable {P : UInt8 → Prop} {cols : Columns} {entryDma : BitVec 64} {index : UInt8} {n : ℕ} {s : HostState}
  {w : World HostEvent HostAnswer HostState}

theorem Views.holdsAt {dev : DeviceMemory} (h : Views dev s) {inst : MemInst} (hlive : inst ∈ s.live)
    {offset : ℕ} {bytes : List UInt8} (hbytes : Contains s.memory (inst.cell offset) bytes)
    (hbound : offset + bytes.length ≤ inst.size) : HoldsAt dev (inst.devAddr.toNat + offset) bytes := by
  refine hbytes.congr fun i hi => ?_
  rw [Nat.add_assoc, h inst hlive (offset + i) (by omega), MemInst.cell]

section Address

/-- An address survives the way a column's entry stores it. -/
def AddressKept (address : ℕ) : Prop := address % 2 ^ 32 < 2 ^ 25 ∧ address < 2 ^ 57

theorem toNat_highHalf (entryDma : BitVec 64) :
    ((entryDma >>> 32).setWidth 25).toNat = entryDma.toNat / 2 ^ 32 % 2 ^ 25 := by
  rw [BitVec.toNat_setWidth, BitVec.toNat_ushiftRight, Nat.shiftRight_eq_div_pow]

theorem columnEntry_address (col : ℤ) (entryDma : BitVec 64) :
    (columnEntry col entryDma).address = entryDma.toNat / 2 ^ 32 % 2 ^ 25 * 2 ^ 32 + entryDma.toNat % 2 ^ 25 := by
  have hmask : (1#64 <<< 25 - 1#64).toNat = 2 ^ 25 - 1 := by decide
  have hlow : ((entryDma &&& (1#64 <<< 25 - 1#64)).setWidth 32).toNat = entryDma.toNat % 2 ^ 25 := by
    rw [BitVec.toNat_setWidth, BitVec.toNat_and, hmask, Nat.and_two_pow_sub_one_eq_mod]
    omega
  rw [IndirectEntry.address, columnEntry, hlow, toNat_highHalf]

theorem columnEntry_address_of_kept (col : ℤ) (h : AddressKept entryDma.toNat) :
    (columnEntry col entryDma).address = entryDma.toNat := by
  rw [columnEntry_address]
  unfold AddressKept at h
  omega

theorem columnEntry_address_le (col : ℤ) (h : ¬ AddressKept entryDma.toNat) :
    (columnEntry col entryDma).address + 2 ^ 25 ≤ entryDma.toNat := by
  rw [columnEntry_address]
  unfold AddressKept at h
  omega

theorem columnEntry_ucIndex {col : ℤ} (hmin : 0 ≤ col) (hmax : col ≤ 127) (entryDma : BitVec 64) :
    ((columnEntry col entryDma).ucIndex.toNat : ℤ) = col := by
  rw [columnEntry, BitVec.toNat_ofInt]
  omega

theorem firstIndirect_address (h : entryDma.toNat < 2 ^ 57) :
    (firstIndirect entryDma).address = entryDma.toNat := by
  rw [IndirectEntry.address, firstIndirect, toNat_highHalf, BitVec.toNat_setWidth]
  omega

end Address

section Walk

variable {dev : DeviceMemory} {s : HostState} {eb : BitVec 64 → ExecBuf} {entry ctrlCode indirect : MemInst}
  {cols : Columns} {indirectOffset entryVa : ℕ} {entryDma : BitVec 64} {ctrlSize : ℕ}

theorem walk_leaf {address : ℕ} {buf : ExecBuf} (ucIndex : ℕ)
    (h : HoldsAt dev address ((execBufHeader execBufSize 1 0).bytes ++ buf.bytes)) :
    walk dev 0 ucIndex address (address + commonHeaderSize) = some [(ucIndex, buf)] := by
  obtain ⟨hheader, hbuf⟩ := holdsAt_append.mp h
  rw [CommonHeader.bytes_length] at hbuf
  simp only [walk, readHeader_of_bytes hheader, commonHeaderSize, readExecBuf_of_holdsAt hbuf]
  rfl

theorem walk_leaf_none {address : ℕ} (ucIndex payload : ℕ) (h : dev (address + 2) ≠ 1) :
    walk dev 0 ucIndex address payload = none := by
  have hopcode : (readHeader dev address).opcode ≠ packetExecBuf := by
    intro heq
    have hvalue : readNat dev (address + 2) 2 = (dev (address + 2)).toNat + 256 * (dev (address + 3)).toNat := by
      simp [readNat, load, leNat, List.range_succ]
    have hone := congrArg BitVec.toNat heq
    simp only [readHeader, hvalue, BitVec.toNat_ofNat, packetExecBuf] at hone
    have hlow := (dev (address + 2)).toNat_lt
    have hhigh := (dev (address + 3)).toNat_lt
    refine h (UInt8.toNat_inj.mp ?_)
    rw [show (1 : UInt8).toNat = 1 from rfl]
    omega
  simp [walk, CommonHeader.runsCode, hopcode]

def reachedColumns (eb : BitVec 64 → ExecBuf) (ctrlCode : MemInst) : Columns → ℕ → List Reached
  | [], _ => []
  | (col, code) :: rest, ctrlSize =>
    ((columnEntry col 0#64).ucIndex.toNat, eb (ctrlCode.devAddr + BitVec.ofNat 64 ctrlSize)) ::
      reachedColumns eb ctrlCode rest (ctrlSize + code.length)

theorem entryDma_next (h : entryDma.toNat = entry.devAddr.toNat + entryVa)
    (hfit : entry.devAddr.toNat + entryVa + 32 < 2 ^ 64) :
    (entryDma + BitVec.ofNat 64 (commonHeaderSize + execBufSize)).toNat =
      entry.devAddr.toNat + (entryVa + (commonHeaderSize + execBufSize)) := by
  rw [BitVec.toNat_add, h]
  simp only [commonHeaderSize, execBufSize, BitVec.toNat_ofNat]
  omega

section Entries

variable (hviews : Views dev s) (hentry : entry ∈ s.live) (hindirect : indirect ∈ s.live)

include hviews hindirect

theorem walkEntries_cons {col : ℤ}
    (hbytes : Contains s.memory (indirect.cell indirectOffset) (columnEntry col entryDma).bytes)
    (hbound : indirectOffset + indirectEntrySize ≤ indirect.size) (follow : ℕ → ℕ → Option (List Reached)) :
    walkEntries dev follow (n + 1) (indirect.devAddr.toNat + indirectOffset) = (do
      let here ← follow (columnEntry col entryDma).ucIndex.toNat (columnEntry col entryDma).address
      let rest ← walkEntries dev follow n (indirect.devAddr.toNat + (indirectOffset + indirectEntrySize))
      some (here ++ rest)) := by
  have hread := readEntry_of_holdsAt (hviews.holdsAt hindirect hbytes (by rwa [IndirectEntry.bytes_length]))
  rw [walkEntries, hread, Nat.add_assoc]

include hentry in
/-- If every address is kept, the entries of the columns lead to their `exec_buf`s. -/
theorem walkEntries_columns
    (hlaid : ColumnsLaid eb entry ctrlCode indirect s.memory cols indirectOffset entryVa entryDma
      ctrlSize)
    (hdma : entryDma.toNat = entry.devAddr.toNat + entryVa) (hfit : entry.devAddr.toNat + entry.size < 2 ^ 64)
    (hindirectBound : indirectOffset + cols.length * indirectEntrySize ≤ indirect.size)
    (hentryBound : entryVa + cols.length * (commonHeaderSize + execBufSize) ≤ entry.size)
    (hkept : ∀ i < cols.length, AddressKept (entryDma.toNat + i * (commonHeaderSize + execBufSize))) :
    walkEntries dev (fun ucIndex next => walk dev 0 ucIndex next (next + commonHeaderSize)) cols.length
      (indirect.devAddr.toNat + indirectOffset) = some (reachedColumns eb ctrlCode cols ctrlSize) := by
  induction cols generalizing indirectOffset entryVa entryDma ctrlSize with
  | nil => rfl
  | cons column rest ih =>
    obtain ⟨col, code⟩ := column
    obtain ⟨-, hbytes, hleaf, hrest⟩ := hlaid
    rw [List.length_cons, Nat.succ_mul] at hindirectBound hentryBound
    have hsize₁ : indirectEntrySize = 8 := rfl
    have hsize₂ : commonHeaderSize = 8 := rfl
    have hsize₃ : execBufSize = 24 := rfl
    have haddress : (columnEntry col entryDma).address = entry.devAddr.toNat + entryVa := by
      rw [columnEntry_address_of_kept col (by simpa using hkept 0 (Nat.zero_lt_succ _)), hdma]
    have hheld := hviews.holdsAt hentry hleaf (by
      rw [List.length_append, CommonHeader.bytes_length, ExecBuf.bytes_length]
      omega)
    have hnext := entryDma_next hdma (by omega)
    have hafter := ih hrest hnext (by omega) (by omega) fun i hi => by
      have := hkept (i + 1) (Nat.succ_lt_succ hi)
      rw [Nat.succ_mul] at this
      rw [hnext]
      rw [hdma] at this
      convert this using 1
      omega
    rw [List.length_cons, walkEntries_cons hviews hindirect hbytes (by omega), haddress, walk_leaf _ hheld, hafter]
    rfl

theorem walkEntries_none
    (hlaid : ColumnsLaid eb entry ctrlCode indirect s.memory cols indirectOffset entryVa entryDma
      ctrlSize) (hindirectBound : indirectOffset + cols.length * indirectEntrySize ≤ indirect.size)
    (hlost : ∃ i < cols.length, ∀ col,
      dev ((columnEntry col (entryDma + BitVec.ofNat 64 (i * (commonHeaderSize + execBufSize)))).address + 2) ≠ 1) :
    walkEntries dev (fun ucIndex next => walk dev 0 ucIndex next (next + commonHeaderSize)) cols.length
      (indirect.devAddr.toNat + indirectOffset) = none := by
  induction cols generalizing indirectOffset entryVa entryDma ctrlSize with
  | nil => exact absurd hlost.choose_spec.1 (Nat.not_lt_zero _)
  | cons column rest ih =>
    obtain ⟨col, code⟩ := column
    obtain ⟨-, hbytes, -, hrest⟩ := hlaid
    rw [List.length_cons, Nat.succ_mul] at hindirectBound
    rw [List.length_cons, walkEntries_cons hviews hindirect hbytes (by omega)]
    obtain ⟨i, hi, hlost⟩ := hlost
    cases i with
    | zero =>
      have hnone := walk_leaf_none (columnEntry col entryDma).ucIndex.toNat
        ((columnEntry col entryDma).address + commonHeaderSize) (by simpa using hlost col)
      rw [hnone]
      rfl
    | succ i =>
      have hafter := ih hrest (by omega) ⟨i, Nat.lt_of_succ_lt_succ hi, fun col => by
        have := hlost col
        rwa [Nat.succ_mul, Nat.add_comm (i * _), BitVec.ofNat_add, ← BitVec.add_assoc] at this⟩
      rw [hafter]
      cases walk dev 0 _ _ _ <;> rfl

end Entries

theorem walk_indirect {address : ℕ} (levels ucIndex payload : ℕ) (hn : n ≤ 24)
    (h : readHeader dev address = execBufHeader (n * indirectEntrySize) 1 1) :
    walk dev (levels + 1) ucIndex address payload =
      walkEntries dev (fun ucIndex next => walk dev levels ucIndex next (next + commonHeaderSize)) n payload := by
  have hcount : (BitVec.ofNat 16 (n * indirectEntrySize)).toNat / indirectEntrySize = n := by
    simp only [BitVec.toNat_ofNat, indirectEntrySize]
    omega
  simp only [walk, h, execBufHeader, hcount]
  rfl

theorem walkEntries_one (follow : ℕ → ℕ → Option (List Reached)) (address : ℕ) :
    walkEntries dev follow 1 address =
      follow (readEntry dev address).ucIndex.toNat (readEntry dev address).address := by
  simp only [walkEntries]
  cases follow _ _ with
  | none => rfl
  | some here => simp

/-- The `exec_buf`s of the columns are tagged with their columns and lead to their code. -/
theorem reachesColumns_reachedColumns (host : CertApi) (s' : HostState) (hviews : Views dev s)
    (hctrl : ctrlCode ∈ s.live)
    (hlaid : ColumnsLaid (execBufAt host s') entry ctrlCode indirect s.memory cols indirectOffset
      entryVa entryDma ctrlSize)
    (hcols : ∀ column ∈ cols, 0 ≤ column.1 ∧ column.1 ≤ 127) (hbound : ctrlSize + ctrlCodeSize cols ≤ ctrlCode.size)
    (hfit : ctrlCode.devAddr.toNat + ctrlCode.size ≤ 2 ^ 64) :
    List.Forall₂ (fun column r => ((r : Reached).1 : ℤ) = column.1 ∧ HoldsAt dev r.2.codeAddress column.2) cols
      (reachedColumns (execBufAt host s') ctrlCode cols ctrlSize) := by
  induction cols generalizing indirectOffset entryVa entryDma ctrlSize with
  | nil => exact .nil
  | cons column rest ih =>
    obtain ⟨col, code⟩ := column
    obtain ⟨hcode, -, -, hrest⟩ := hlaid
    have hsizes : ctrlCodeSize ((col, code) :: rest) = code.length + ctrlCodeSize rest := rfl
    obtain ⟨hmin, hmax⟩ := hcols (col, code) List.mem_cons_self
    refine .cons ⟨columnEntry_ucIndex hmin hmax 0#64, ?_⟩
      (ih hrest (fun column hmem => hcols column (List.mem_cons_of_mem _ hmem)) (by omega))
    -- the code range of an empty column may start right behind the address space
    cases code with
    | nil => rfl
    | cons byte code =>
      have haddress : (ctrlCode.devAddr + BitVec.ofNat 64 ctrlSize).toNat = ctrlCode.devAddr.toNat + ctrlSize := by
        rw [List.length_cons] at hsizes
        rw [BitVec.toNat_add, BitVec.toNat_ofNat]
        omega
      rw [execBufAt_codeAddress, haddress]
      exact hviews.holdsAt hctrl hcode ((Nat.add_le_add_left (hsizes ▸ Nat.le_add_right _ _) _).trans hbound)

end Walk

section Published

variable {host : CertApi} {hsa comp : MemInst} {s : HostState} {cols : Columns} {entryDma ctrlCodeDma : BitVec 64}
  {dev : DeviceMemory}

def packetAddress (hsa : MemInst) (s : HostState) : ℕ := hsa.devAddr.toNat + hqEntryOffset (s.writeIndex hsa).toNat

/-- Both forms of an indirect packet lead the reader along the entries of the columns. -/
theorem walkPacket_published (hviews : Views dev (publishedState host hsa comp s entryDma ctrlCodeDma cols))
    (hlive : hsa ∈ s.live) (hid : hsa.id < s.nextId) (hsize : hsa.size = hsaQueueSize)
    (hindex : (s.writeIndex hsa).toNat < hsaQueueEntry) (hmax : cols.length ≤ 24)
    (hentry : entryDma.toNat < 2 ^ 57) :
    ∃ indirect ∈ (publishedState host hsa comp s entryDma ctrlCodeDma cols).live, ∃ indirectOffset,
      indirectOffset + cols.length * indirectEntrySize ≤ indirect.size ∧
      ColumnsLaid (execBufAt host s) (entryBlock s entryDma cols) (ctrlCodeBlock s ctrlCodeDma cols) indirect
        (publishedState host hsa comp s entryDma ctrlCodeDma cols).memory cols indirectOffset
          (leafStart cols.length)
        (entryDma + BitVec.ofNat 64 (leafStart cols.length)) 0 ∧
      walkPacket dev (indirectLevels cols.length) (packetAddress hsa s) =
        walkEntries dev (fun ucIndex next => walk dev 0 ucIndex next (next + commonHeaderSize)) cols.length
          (indirect.devAddr.toNat + indirectOffset) := by
  have hhsa : hsa ∈ (publishedState host hsa comp s entryDma ctrlCodeDma cols).live :=
    List.mem_cons_of_mem _ (List.mem_cons_of_mem _ hlive)
  have hentryLive : entryBlock s entryDma cols ∈ (publishedState host hsa comp s entryDma ctrlCodeDma cols).live :=
    List.mem_cons_of_mem _ List.mem_cons_self
  have hslot : hqEntryOffset (s.writeIndex hsa).toNat + 64 ≤ hsa.size := by
    simp only [hsize, hsaQueueSize, hqEntryOffset, hostQueueHeaderSize, hostQueuePacketSize, hsaQueueEntry] at *
    omega
  have hheader := readHeader_of_bytes (hviews.holdsAt hhsa (published_header hid) (by
    rw [CommonHeader.bytes_length]
    omega))
  have hcolumns := @published_columns host hsa comp s entryDma ctrlCodeDma cols hid
  by_cases hfew : cols.length ≤ hsaMaxLevel1IndirectEntries
  · simp only [Blocks.entries, commandBlocks, entryOffset, if_pos hfew, Nat.zero_mul,
      Nat.add_zero] at hcolumns hheader
    refine ⟨hsa, hhsa, _, ?_, hcolumns, ?_⟩
    · simp only [hsaMaxLevel1IndirectEntries, xrtPacketHeaderSize, indirectEntrySize] at *
      omega
    · rw [walkPacket, indirectLevels, if_pos hfew, packetAddress, walk_indirect 0 0 _ hmax hheader, Nat.add_assoc]
  · have hentrySize : (entryBlock s entryDma cols).size = 8 + cols.length * 40 := if_neg hfew
    obtain ⟨hfirst, htype, hfields⟩ := @published_secondLevel host hsa comp s entryDma ctrlCodeDma cols hid hfew
    have hfirst' := readEntry_of_holdsAt (hviews.holdsAt hhsa hfirst (by
      rw [IndirectEntry.bytes_length, xrtPacketHeaderSize]
      omega))
    have hsecond := readHeader_of_holdsAt (hviews.holdsAt hentryLive htype (by
      rw [leBytes_length, hentrySize]
      omega)) (hviews.holdsAt hentryLive hfields (by
      rw [CommonHeader.fieldBytes_length, hentrySize]
      omega))
    simp only [Blocks.entries, commandBlocks, entryOffset, if_neg hfew, Nat.zero_mul,
      Nat.add_zero] at hcolumns hheader
    rw [← Nat.one_mul indirectEntrySize] at hheader
    refine ⟨entryBlock s entryDma cols, hentryLive, commonHeaderSize, ?_, hcolumns, ?_⟩
    · simp only [hentrySize, commonHeaderSize, indirectEntrySize]
      omega
    · rw [walkPacket, indirectLevels, if_neg hfew, packetAddress, walk_indirect 1 0 _ (by decide) hheader,
        walkEntries_one, Nat.add_assoc, hfirst', firstIndirect_address hentry]
      exact walk_indirect 0 _ _ hmax hsecond

end Published

section Reach

/-- The numbers and code sizes of two to twenty-four ascending columns with column 0. -/
structure ColumnLayout (layout : List (ℤ × ℕ)) : Prop where
  min : 2 ≤ layout.length
  max : layout.length ≤ 24
  sorted : layout.Pairwise fun column column' => column.1 < column'.1
  zero : ∃ column ∈ layout, column.1 = 0
  range : ∀ column ∈ layout, 0 ≤ column.1 ∧ column.1 ≤ 127

def layoutSize (layout : List (ℤ × ℕ)) : ℕ := (layout.map Prod.snd).sum

def MemInst.covers (inst : MemInst) (address : ℕ) : Prop :=
  inst.devAddr.toNat ≤ address ∧ address < inst.devAddr.toNat + inst.size

/-- Blocks without a byte in common. -/
def MemInst.Apart (inst inst' : MemInst) : Prop := ∀ address, ¬ (inst.covers address ∧ inst'.covers address)

/-- Where the allocator put the queue, the completion words and the blocks. -/
structure Placement (hsa comp : MemInst) (entryDma ctrlCodeDma : BitVec 64) (layout : List (ℤ × ℕ)) : Prop where
  hsa_size : hsa.size = hsaQueueSize
  comp_size : comp.size = 4 * hsaQueueEntry
  ids : hsa.id ≠ comp.id
  entry_lt : entryDma.toNat < 2 ^ 57
  ctrlCode_lt : ctrlCodeDma.toNat < 2 ^ 57
  ctrlCode_fits : ctrlCodeDma.toNat + layoutSize layout ≤ 2 ^ 64
  apart : [hsa, comp, ⟨0, entryDma, entryBlockSize layout.length⟩, ⟨0, ctrlCodeDma, layoutSize layout⟩].Pairwise
    MemInst.Apart

variable {host : CertApi} {hsa comp : MemInst} {entryDma ctrlCodeDma : BitVec 64} {layout : List (ℤ × ℕ)}

theorem Submits.length_eq (h : Submits hsa comp entryDma ctrlCodeDma layout w cols) :
    cols.length = layout.length := by
  rw [← h.layout, layoutOf, List.length_map]

theorem Submits.ctrlCodeSize_eq
    (h : Submits hsa comp entryDma ctrlCodeDma layout w cols) : ctrlCodeSize cols = layoutSize layout := by
  rw [← h.layout, layoutOf, layoutSize, List.map_map]
  rfl

theorem Submits.published (h : Submits hsa comp entryDma ctrlCodeDma layout w cols)
    (hlayout : ColumnLayout layout) :
    ∃ trace, submitCommand host cols w =
      (.blocked, ⟨publishedState host hsa comp w.state entryDma ctrlCodeDma cols, trace, []⟩) := by
  have hlength : cols.length = layout.length := h.length_eq
  have hcols : IndirectColumns cols := by
    obtain ⟨hmin, hmax, hsorted, ⟨_, hmem, hcol⟩, -⟩ := hlayout
    rw [← h.layout, layoutOf] at hsorted hmem
    obtain ⟨column, hcolumn, rfl⟩ := List.mem_map.mp hmem
    rw [List.pairwise_map] at hsorted
    exact ⟨hlength ▸ hmin, hlength ▸ hmax, hsorted, column, hcolumn, hcol⟩
  rw [publishedState_eq]
  exact ⟨_, submitCommand_blocked h.hsaMeminst h.compSigMeminst hcols.logged hcols.min hcols.max h.script⟩

/-- The packet leads the reader to the columns and to nothing else. -/
def PacketReaches (hsa : MemInst) (w : HostWorld) (cols : Columns) (dev : DeviceMemory) : Prop :=
  ∃ reached, walkPacket dev (indirectLevels cols.length) (packetAddress hsa w.state) = some reached ∧
    ReachesColumns dev reached cols

def headerAddress (entryDma : BitVec 64) (n i : ℕ) : ℕ :=
  entryDma.toNat + leafStart n + i * (commonHeaderSize + execBufSize)

theorem entryBlockSize_lt (h : n ≤ 24) : entryBlockSize n < 1000 := by
  simp only [entryBlockSize, commonHeaderSize, execBufSize, indirectEntrySize]
  split <;> omega

theorem entryDma_leafStart (hn : n ≤ 24) (h : entryDma.toNat < 2 ^ 57) :
    (entryDma + BitVec.ofNat 64 (leafStart n)).toNat = entryDma.toNat + leafStart n := by
  have hsmall := entryBlockSize_lt hn
  have hstart : leafStart n ≤ entryBlockSize n := leafStart_add_le ▸ Nat.le_add_right _ _
  rw [BitVec.toNat_add, BitVec.toNat_ofNat]
  omega

/-- If every header address is kept, the packet leads to the columns. -/
theorem packetReaches_of_kept {dev : DeviceMemory}
    (hlayout : ColumnLayout layout) (hplace : Placement hsa comp entryDma ctrlCodeDma layout)
    (hsubmit : Submits hsa comp entryDma ctrlCodeDma layout w cols)
    (hviews : Views dev (publishedState host hsa comp w.state entryDma ctrlCodeDma cols))
    (hkept : ∀ i < layout.length, AddressKept (headerAddress entryDma layout.length i)) :
    PacketReaches hsa w cols dev := by
  have hlength := hsubmit.length_eq
  have hsizes := hsubmit.ctrlCodeSize_eq
  have hmax : cols.length ≤ 24 := hlength ▸ hlayout.max
  obtain ⟨indirect, hindirect, indirectOffset, hbound, hlaid, hwalk⟩ :=
    walkPacket_published hviews hsubmit.hsa_live hsubmit.hsa_lt hplace.hsa_size
      hsubmit.index_lt hmax hplace.entry_lt
  have hdma := entryDma_leafStart hmax hplace.entry_lt
  have hsmall := entryBlockSize_lt hmax
  have hstart : leafStart cols.length + cols.length * (commonHeaderSize + execBufSize) =
    entryBlockSize cols.length :=
    leafStart_add_le
  have hentrySize : (entryBlock w.state entryDma cols).size = entryBlockSize cols.length := rfl
  have hentryDma : (entryBlock w.state entryDma cols).devAddr = entryDma := rfl
  have hentryLt := hplace.entry_lt
  refine ⟨_, hwalk.trans
    (walkEntries_columns hviews (List.mem_cons_of_mem _ List.mem_cons_self) hindirect hlaid ?_ ?_
    hbound ?_ ?_), _, List.Perm.refl _, ?_⟩
  · rw [hdma, hentryDma]
  · rw [hentryDma, hentrySize]
    omega
  · rw [hentrySize]
    omega
  · intro i hi
    rw [hdma]
    exact hlength ▸ hkept i (hlength ▸ hi)
  · refine reachesColumns_reachedColumns host w.state hviews List.mem_cons_self hlaid ?_ ?_ ?_
    · intro column hmem
      refine hlayout.range (column.1, column.2.length) ?_
      rw [← hsubmit.layout]
      exact List.mem_map_of_mem hmem
    · exact (Nat.zero_add _).le
    · have hctrlSize : (ctrlCodeBlock w.state ctrlCodeDma cols).size = layoutSize layout := hsizes
      rw [hctrlSize]
      exact hplace.ctrlCode_fits

/-- What the device sees, with zeros between the blocks. -/
def deviceOf (s : HostState) : DeviceMemory := fun address =>
  match s.live.find? fun inst => inst.devAddr.toNat ≤ address && address < inst.devAddr.toNat + inst.size with
  | some inst => s.memory (inst.id, address - inst.devAddr.toNat)
  | none => 0

theorem deviceOf_cases (s : HostState) (address : ℕ) :
    (∃ inst ∈ s.live, inst.covers address ∧ deviceOf s address = s.memory (inst.id, address - inst.devAddr.toNat)) ∨
      (∀ inst ∈ s.live, ¬ inst.covers address) ∧ deviceOf s address = 0 := by
  unfold deviceOf
  split
  next inst hfind =>
    exact .inl ⟨inst, List.mem_of_find?_eq_some hfind, by simpa [MemInst.covers] using List.find?_some hfind, rfl⟩
  next hnone =>
    exact .inr ⟨fun inst hmem => by simpa [MemInst.covers] using List.find?_eq_none.mp hnone inst hmem, rfl⟩

theorem views_deviceOf
    (hapart : ∀ inst ∈ s.live, ∀ inst' ∈ s.live, ∀ address, inst.covers address →
      inst'.covers address → inst = inst') :
    Views (deviceOf s) s := by
  intro inst hmem i hi
  have hcovers : inst.covers (inst.devAddr.toNat + i) := ⟨Nat.le_add_right _ _, Nat.add_lt_add_left hi _⟩
  rcases deviceOf_cases s (inst.devAddr.toNat + i) with ⟨inst', hmem', hcovers', heq⟩ | ⟨hnone, -⟩
  · rw [heq, hapart inst' hmem' inst hmem _ hcovers' hcovers, Nat.add_sub_cancel_left]
  · exact absurd hcovers (hnone inst hmem)

/-- The columns of zeros were submitted to the empty queue. -/
abbrev emptyPublished (host : CertApi) (hsa comp : MemInst) (index : UInt8) (entryDma ctrlCodeDma : BitVec 64)
    (layout : List (ℤ × ℕ)) : HostState :=
  publishedState host hsa comp (emptyState hsa comp index) entryDma ctrlCodeDma (zeroColumns layout)

/-- What an event writes meets a condition, or goes elsewhere. -/
def HostEvent.Puts (P : UInt8 → Prop) (place : ℕ × ℕ) : HostEvent → Prop
  | .write inst offset bytes => (∀ byte ∈ bytes, P byte) ∨ ¬ InRange inst offset bytes.length place
  | _ => True

theorem replay_forall {place : ℕ × ℕ} {events : List HostEvent} (h : ∀ e ∈ events, e.Puts P place)
    (hm : P (s.memory place)) : P ((replay hostStep s events).memory place) := by
  induction events generalizing s with
  | nil => exact hm
  | cons e rest ih =>
    obtain ⟨he, hrest⟩ := List.forall_mem_cons.mp h
    refine ih hrest ?_
    rcases e with _ | ⟨_, _ | _⟩ | _ | _ | _ | ⟨inst, offset, bytes⟩ | _ | _ | _ | _ | _
    case write =>
      rcases he with hbytes | houtside
      · exact store_forall hbytes hm
      · change P (store s.memory (inst.cell offset) bytes place)
        rwa [store_of_outside s.memory houtside]
    all_goals exact hm

theorem pieceWrites_puts {b : Blocks} {compSigDma : BitVec 64} {place : ℕ × ℕ}
    (hcode : ∀ column ∈ cols, ∀ byte ∈ column.2, P byte)
    (hslot : ¬ InRange b.hsa b.slot hostQueuePacketSize place) (hentry : place.1 ≠ b.entry.id) {piece : Piece}
    (hpiece : piece ∈ piecesWritten cols.length) :
    ∀ e ∈ pieceWrites host s b compSigDma cols piece, e.Puts P place := by
  intro e he
  obtain ⟨offset, bytes, rfl, hlow, hhigh⟩ := pieceWrites_within host s compSigDma he
  obtain hpiece | hpiece := List.mem_append.mp (mem_piecesWritten.mp hpiece)
  · obtain ⟨hstart, hstop⟩ := queuePieces_inside b hpiece
    refine .inr fun hin => hslot ?_
    rw [block_of_mem_queuePieces hpiece] at hin
    exact ⟨hin.1, by have := hin.2; omega, by have := hin.2; omega⟩
  obtain hpiece | hpiece := List.mem_append.mp hpiece
  · rw [block_of_mem_entryPieces hpiece]
    exact .inr fun hin => hentry hin.1
  · obtain ⟨i, hi, rfl⟩ := by simpa [codePieces] using hpiece
    obtain ⟨-, -, rfl⟩ := HostEvent.write.inj (List.mem_singleton.mp he)
    refine .inl (hcode _ ?_)
    rw [columnAt, List.getD_eq_getElem?_getD, List.getElem?_eq_getElem hi]
    exact List.getElem_mem hi

/-- Outside the packet and the block of headers, a published packet leaves old bytes, zeros, code and the index.
-/
theorem publishedMemory_forall {place : ℕ × ℕ} (hzero : P 0) (hcode : ∀ column ∈ cols, ∀ byte ∈ column.2, P byte)
    (hindex : ∀ byte ∈ leBytes 8 (nextIndex (s.writeIndex hsa)).toNat, P byte)
    (hslot : ¬ InRange hsa (hqEntryOffset (s.writeIndex hsa).toNat) hostQueuePacketSize place)
    (hentry : place.1 ≠ s.nextId) (hm : P (s.memory place)) :
    P ((publishedState host hsa comp s entryDma ctrlCodeDma cols).memory place) := by
  have hzeros {n : ℕ} : ∀ byte ∈ List.replicate n (0 : UInt8), P byte := fun byte hbyte =>
    (List.eq_of_mem_replicate hbyte).symm ▸ hzero
  have hwakeups : ∀ e ∈ wakeups host, e.Puts P place := by
    intro e he
    obtain ⟨i, -, rfl⟩ := List.mem_map.mp he
    trivial
  have hpieces : ∀ e ∈ (piecesWritten cols.length).flatMap (pieceWrites host s
      (commandBlocks hsa s entryDma ctrlCodeDma cols) (compSigDmaAt comp (s.writeIndex hsa))
        cols), e.Puts P place := by
    intro e he
    obtain ⟨piece, hpiece, he⟩ := List.mem_flatMap.mp he
    exact pieceWrites_puts hcode hslot hentry hpiece e he
  rw [publishedState_eq]
  refine replay_forall ?_ hm
  simp only [submitTrace, beforePacket, publishing, List.forall_mem_append, List.forall_mem_cons, List.not_mem_nil,
    IsEmpty.forall_iff, implies_true, and_true]
  exact ⟨⟨⟨⟨⟨⟨trivial, trivial, .inl (hzeros (n := 4)), trivial⟩, hwakeups⟩, trivial, trivial⟩, .inl hzeros⟩,
    hpieces⟩,
    trivial, trivial, trivial, trivial, .inl hindex, trivial⟩

theorem exists_index_outside (hsa : MemInst) (offset : ℕ) :
    ∃ index : UInt8, index.toNat < hsaQueueEntry ∧ index ≠ 1 ∧
    1 ∉ leBytes 8 (nextIndex (BitVec.ofNat 64 index.toNat)).toNat ∧
    ¬ InRange hsa (hqEntryOffset index.toNat) hostQueuePacketSize (hsa.id, offset) := by
  by_cases hin : InRange hsa (hqEntryOffset 5) hostQueuePacketSize (hsa.id, offset)
  · refine ⟨20, by decide, by decide, by decide, fun h => ?_⟩
    simp only [InRange, hqEntryOffset, hostQueueHeaderSize, hostQueuePacketSize, UInt8.reduceToNat] at *
    omega
  · exact ⟨5, by decide, by decide, by decide, hin⟩

/-- The blocks of a published packet share no byte. -/
theorem Placement.eq_of_covers (hplace : Placement hsa comp entryDma ctrlCodeDma layout) (s : HostState)
    (hlength : cols.length = layout.length) (hsizes : ctrlCodeSize cols = layoutSize layout) {live : List MemInst}
    (hlive : live = [ctrlCodeBlock s ctrlCodeDma cols, entryBlock s entryDma cols, hsa, comp]) :
    ∀ inst ∈ live, ∀ inst' ∈ live, ∀ address, inst.covers address → inst'.covers address → inst = inst' := by
  have hapart := hplace.apart
  rw [← hlength, ← hsizes] at hapart
  simp only [List.pairwise_cons, List.forall_mem_cons, List.not_mem_nil, IsEmpty.forall_iff, implies_true, and_true,
    List.Pairwise.nil] at hapart
  obtain ⟨⟨hhc, hhe, hhk⟩, ⟨hce, hck⟩, hek⟩ := hapart
  have hswap {x y : MemInst} (h : MemInst.Apart x y) : MemInst.Apart y x := fun a ha => h a ha.symm
  have hpairwise : live.Pairwise fun inst inst' => inst ≠ inst' → MemInst.Apart inst inst' := by
    rw [hlive]
    simp only [List.pairwise_cons, List.forall_mem_cons, List.not_mem_nil, IsEmpty.forall_iff,
      implies_true, and_true, List.Pairwise.nil]
    exact ⟨⟨fun _ => hswap hek, fun _ => hswap hhk, fun _ => hswap hck⟩, ⟨fun _ => hswap hhe, fun _ => hswap hce⟩,
      fun _ => hhc⟩
  have : Std.Symm fun inst inst' : MemInst => inst ≠ inst' → MemInst.Apart inst inst' :=
    ⟨fun x y h hne => hswap (h hne.symm)⟩
  intro inst hmem inst' hmem' address hcovers hcovers'
  by_contra hne
  exact hpairwise.forall_of_forall (fun x _ hx => absurd rfl hx) hmem hmem' hne address ⟨hcovers, hcovers'⟩

/-- Below the block of headers and outside the packet, a packet published in an empty queue leaves no byte of
value 1. -/
theorem deviceOf_published_ne_one (hne : index ≠ 1)
    (hbytes : 1 ∉ leBytes 8 (nextIndex (BitVec.ofNat 64 index.toNat)).toNat) (hids : hsa.id ≠ comp.id) {address : ℕ}
    (hbelow : address < entryDma.toNat)
    (hslot : ¬ InRange hsa (hqEntryOffset index.toNat) hostQueuePacketSize (hsa.id, address - hsa.devAddr.toNat)) :
    deviceOf (emptyPublished host hsa comp index entryDma ctrlCodeDma layout) address ≠ 1 := by
  have hindex : (emptyState hsa comp index).writeIndex hsa = BitVec.ofNat 64 index.toNat := by
    rw [← emptyState_writeIndex hsa comp index, BitVec.ofNat_toNat, BitVec.setWidth_eq]
  have hold (place : ℕ × ℕ) : (emptyState hsa comp index).memory place ≠ 1 := by
    simp only [emptyState]
    split
    · exact hne
    · decide
  have hplace {place : ℕ × ℕ} (hentry : place.1 ≠ hsa.id + comp.id + 1)
      (hslot : ¬ InRange hsa (hqEntryOffset index.toNat) hostQueuePacketSize place) :
      (emptyPublished host hsa comp index entryDma ctrlCodeDma layout).memory place ≠ 1 := by
    refine publishedMemory_forall (P := (· ≠ 1))
      (by decide) ?_ (fun _ hmem h => hbytes (hindex ▸ h ▸ hmem)) ?_ hentry
      (hold place)
    · intro column hcolumn byte hbyte
      obtain ⟨column, -, rfl⟩ := List.mem_map.mp hcolumn
      rw [List.eq_of_mem_replicate hbyte]
      decide
    · rwa [emptyState_writeIndex]
  rcases deviceOf_cases _ address with ⟨inst, hmem, hcovers, heq⟩ | ⟨-, heq⟩
  case inr => exact heq ▸ by decide
  rw [heq]
  have hlive : inst ∈ [ctrlCodeBlock (emptyState hsa comp index) ctrlCodeDma (zeroColumns layout),
    entryBlock (emptyState hsa comp index) entryDma (zeroColumns layout), hsa, comp] := hmem
  simp only [List.mem_cons, List.not_mem_nil, or_false] at hlive
  rcases hlive with rfl | rfl | rfl | rfl
  · exact hplace (Nat.succ_ne_self _) fun h => absurd h.1 (by
      simp only [ctrlCodeBlock, emptyState]
      omega)
  · exact absurd hcovers.1 (Nat.not_le.mpr hbelow)
  · exact hplace (by omega) hslot
  · exact hplace (by omega) fun h => hids h.1.symm

theorem emptyWorld_views (host : CertApi) (hlayout : ColumnLayout layout)
    (hplace : Placement hsa comp entryDma ctrlCodeDma layout) (hindex : index.toNat < hsaQueueEntry) :
    (submitCommand host (zeroColumns layout) (emptyWorld hsa comp index entryDma ctrlCodeDma)).2.state =
        emptyPublished host hsa comp index entryDma ctrlCodeDma layout ∧
      Views (deviceOf (emptyPublished host hsa comp index entryDma ctrlCodeDma layout))
        (emptyPublished host hsa comp index entryDma ctrlCodeDma layout) := by
  have hsubmit : Submits hsa comp entryDma ctrlCodeDma layout _ _ := emptyWorld_submits hindex
  obtain ⟨trace, hrun⟩ : ∃ trace, submitCommand host _ _ =
    (.blocked, ⟨publishedState host hsa comp _ _ _ _, trace, []⟩) :=
    hsubmit.published hlayout
  exact ⟨by rw [hrun]; rfl,
    views_deviceOf (hplace.eq_of_covers (emptyState hsa comp index) hsubmit.length_eq hsubmit.ctrlCodeSize_eq rfl)⟩

/-- If the address of one header is not kept and the entry leads outside the packet, the empty queue has nothing
there. -/
theorem emptyWorld_not_packetReaches (host : CertApi) (hlayout : ColumnLayout layout)
    (hplace : Placement hsa comp entryDma ctrlCodeDma layout) {i : ℕ} (hi : i < layout.length)
    (hlost : ¬ AddressKept (headerAddress entryDma layout.length i)) (hindex : index.toNat < hsaQueueEntry)
    (hne : index ≠ 1) (hbytes : 1 ∉ leBytes 8 (nextIndex (BitVec.ofNat 64 index.toNat)).toNat)
    (hslot : ¬ InRange hsa (hqEntryOffset index.toNat) hostQueuePacketSize (hsa.id,
      (columnEntry 0 (BitVec.ofNat 64 (headerAddress entryDma layout.length i))).address + 2 - hsa.devAddr.toNat)) :
    ¬ PacketReaches hsa (emptyWorld hsa comp index entryDma ctrlCodeDma) (zeroColumns layout)
      (deviceOf (emptyPublished host hsa comp index entryDma ctrlCodeDma layout)) := by
  have hlength : (zeroColumns layout).length = layout.length := List.length_map ..
  have hdma := entryDma_leafStart hlayout.max hplace.entry_lt
  have hsmall := entryBlockSize_lt hlayout.max
  have hstart : leafStart layout.length + layout.length * (commonHeaderSize + execBufSize) =
    entryBlockSize layout.length :=
    leafStart_add_le
  have hstep : i * (commonHeaderSize + execBufSize) < layout.length * (commonHeaderSize + execBufSize) :=
    Nat.mul_lt_mul_of_pos_right hi (by decide)
  have hentryLt := hplace.entry_lt
  have hheader : entryDma + BitVec.ofNat 64 (leafStart layout.length) +
      BitVec.ofNat 64 (i * (commonHeaderSize + execBufSize)) =
        BitVec.ofNat 64 (headerAddress entryDma layout.length i) := by
    rw [headerAddress, ← hdma, BitVec.ofNat_add, BitVec.ofNat_toNat, BitVec.setWidth_eq]
  have hfits : (BitVec.ofNat 64 (headerAddress entryDma layout.length i)).toNat =
      headerAddress entryDma layout.length i := by
    rw [BitVec.toNat_ofNat, headerAddress]
    omega
  have hbelow : (columnEntry 0 (BitVec.ofNat 64 (headerAddress entryDma layout.length i))).address + 2 <
      entryDma.toNat := by
    have hle := columnEntry_address_le 0 (hfits.symm ▸ hlost)
    rw [hfits] at hle
    simp only [headerAddress] at hle ⊢
    omega
  have hsubmit : Submits hsa comp entryDma ctrlCodeDma layout _ _ := emptyWorld_submits hindex
  have hviews := (emptyWorld_views host hlayout hplace hindex).2
  obtain ⟨indirect, hindirect, indirectOffset, hbound, hlaid, hwalk⟩ := walkPacket_published hviews hsubmit.hsa_live
    hsubmit.hsa_lt hplace.hsa_size hsubmit.index_lt (hlength ▸ hlayout.max) hplace.entry_lt
  rw [hlength] at hlaid
  have hnone := walkEntries_none hviews hindirect hlaid hbound ⟨i, hlength ▸ hi, fun col => by
    -- where the entry of a column leads to does not depend on its tag
    rw [hheader, columnEntry_address, ← columnEntry_address 0]
    exact deviceOf_published_ne_one hne hbytes hplace.ids hbelow hslot⟩
  rintro ⟨reached, hreached, -⟩
  exact absurd (hreached.symm.trans (hwalk.trans hnone)) (by simp)

/-- Whatever the control code and the rest of the memory contain, the published packet leads the reader to the
columns and to nothing else, exactly if the address of each column's header is kept. -/
theorem submitCommand_reaches_iff (host : CertApi) (hlayout : ColumnLayout layout)
    (hplace : Placement hsa comp entryDma ctrlCodeDma layout) :
    (∀ w cols dev, Submits hsa comp entryDma ctrlCodeDma layout w cols →
      Views dev (submitCommand host cols w).2.state →
        (submitCommand host cols w).1 = .blocked ∧ PacketReaches hsa w cols dev) ↔
      ∀ i < layout.length, AddressKept (headerAddress entryDma layout.length i) := by
  constructor
  · intro hreaches i hi
    by_contra hlost
    obtain ⟨index, hindex, hne, hbytes, hslot⟩ := exists_index_outside hsa
      ((columnEntry 0 (BitVec.ofNat 64 (headerAddress entryDma layout.length i))).address + 2 - hsa.devAddr.toNat)
    obtain ⟨hstate, hviews⟩ := emptyWorld_views host hlayout hplace hindex
    rw [← hstate] at hviews
    refine emptyWorld_not_packetReaches host hlayout hplace hi hlost hindex hne hbytes hslot ?_
    rw [← hstate]
    exact (hreaches _ _ _ (emptyWorld_submits hindex) hviews).2
  · intro hkept w cols dev hsubmit hviews
    obtain ⟨trace, hrun⟩ : ∃ trace, submitCommand host cols w =
      (.blocked, ⟨publishedState host hsa comp _ _ _ _, trace, []⟩) :=
      hsubmit.published hlayout
    rw [hrun] at hviews ⊢
    exact ⟨rfl, packetReaches_of_kept hlayout hplace hsubmit hviews hkept⟩

theorem reachLayout_columnLayout : ColumnLayout reachLayout where
  min := by decide
  max := by decide
  sorted := by decide
  zero := ⟨(0, 4), by decide, rfl⟩
  range := by decide

theorem MemInst.apart_of_le {inst inst' : MemInst}
    (h : inst.devAddr.toNat + inst.size ≤ inst'.devAddr.toNat ∨
      inst'.devAddr.toNat + inst'.size ≤ inst.devAddr.toNat) :
    MemInst.Apart inst inst' := by
  rintro address ⟨⟨hlow, hhigh⟩, hlow', hhigh'⟩
  omega

theorem reachLayout_placement (hlow : 0x40000 ≤ entryDma.toNat) (hhigh : entryDma.toNat < 2 ^ 57) :
    Placement reachQueue reachCompletion entryDma 0x30000 reachLayout where
  hsa_size := rfl
  comp_size := rfl
  ids := by decide
  entry_lt := hhigh
  ctrlCode_lt := by decide
  ctrlCode_fits := by decide
  apart := by
    have hqueue : reachQueue.devAddr.toNat + reachQueue.size ≤ 0x20000 := by decide
    have hwords : reachCompletion.devAddr.toNat + reachCompletion.size ≤ 0x30000 := by decide
    have hcode : (0x30000#64).toNat + layoutSize reachLayout ≤ 0x40000 := by decide
    simp only [List.pairwise_cons, List.forall_mem_cons, List.not_mem_nil, IsEmpty.forall_iff,
      implies_true, and_true, List.Pairwise.nil]
    exact ⟨⟨MemInst.apart_of_le (.inl hqueue), MemInst.apart_of_le (.inl ((hqueue.trans (by decide)).trans hlow)),
      MemInst.apart_of_le (.inl (hqueue.trans (by decide)))⟩,
      ⟨MemInst.apart_of_le (.inl ((hwords.trans (by decide)).trans hlow)), MemInst.apart_of_le (.inl hwords)⟩,
      MemInst.apart_of_le (.inr (hcode.trans hlow))⟩

@[irreducible] def reachDevice (entryDma : BitVec 64) : DeviceMemory :=
  deviceOf (publishedState reachHost reachQueue reachCompletion (emptyState reachQueue reachCompletion 5) entryDma
    0x30000 (zeroColumns reachLayout))

theorem reachDevice_views (hlow : 0x40000 ≤ entryDma.toNat) (hhigh : entryDma.toNat < 2 ^ 57) :
    Views (reachDevice entryDma) (submitCommand reachHost (zeroColumns reachLayout)
      (emptyWorld reachQueue reachCompletion 5 entryDma 0x30000)).2.state := by
  obtain ⟨hstate, hviews⟩ := emptyWorld_views reachHost reachLayout_columnLayout (reachLayout_placement hlow hhigh)
    (show (5 : UInt8).toNat < hsaQueueEntry by decide)
  rw [hstate, reachDevice]
  exact hviews

/-- With headers at `0x40000` the packet leads to the columns. -/
theorem submitCommand_reaches_sample :
    PacketReaches reachQueue (emptyWorld reachQueue reachCompletion 5 0x40000 0x30000) (zeroColumns reachLayout)
      (reachDevice 0x40000) := by
  have hplace : Placement reachQueue reachCompletion 0x40000 0x30000 reachLayout :=
    reachLayout_placement (by decide) (by decide)
  have hkept : ∀ i < reachLayout.length, AddressKept (headerAddress 0x40000 reachLayout.length i) := by
    unfold AddressKept
    decide
  exact ((submitCommand_reaches_iff reachHost reachLayout_columnLayout hplace).mpr hkept _ _ _
    (emptyWorld_submits (by decide)) (reachDevice_views (by decide) (by decide))).2

/-- With headers at `0x2000000` the entry of the first column leads to address 0, where there is no packet. -/
theorem submitCommand_not_reaches_sample :
    Placement reachQueue reachCompletion 0x2000000 0x30000 reachLayout ∧
      Submits reachQueue reachCompletion 0x2000000 0x30000 reachLayout
        (emptyWorld reachQueue reachCompletion 5 0x2000000 0x30000) (zeroColumns reachLayout) ∧
      Views (reachDevice 0x2000000) (submitCommand reachHost (zeroColumns reachLayout)
        (emptyWorld reachQueue reachCompletion 5 0x2000000 0x30000)).2.state ∧
      ¬ PacketReaches reachQueue (emptyWorld reachQueue reachCompletion 5 0x2000000 0x30000)
        (zeroColumns reachLayout)
        (reachDevice 0x2000000) := by
  have hplace : Placement reachQueue reachCompletion 0x2000000 0x30000 reachLayout :=
    reachLayout_placement (by decide) (by decide)
  have hlost : ¬ AddressKept (headerAddress 0x2000000 reachLayout.length 0) := by
    unfold AddressKept
    decide
  refine ⟨hplace, emptyWorld_submits (by decide), reachDevice_views (by decide) (by decide), ?_⟩
  rw [reachDevice]
  refine emptyWorld_not_packetReaches reachHost reachLayout_columnLayout hplace (by decide) hlost
    (by decide) (by decide)
    (by decide) fun hin => absurd hin.2.1 (by decide)

end Reach

end AieBaremetal.Cert
