import AieBaremetal.Cert.CallFrame
import AieBaremetal.Cert.PacketReach

/-!
# Which columns a command hands to the firmware

A published packet is read back from host memory: its form from the headers, the tag of each column
from its indirect entry and its code from the `exec_buf`. Headers are taken by their place in the
block, so what an entry keeps of their address does not matter here.

`submit_command` looks up column 0 for a log call. If the parser left no column 0, the lookup adds an
empty one: the packet then has a column too many, or twenty-five columns are refused.
-/

namespace AieBaremetal.Cert

open Common Common.Program

/-- The forms of a packet: an `exec_buf`, or indirect entries at one or two levels. -/
inductive PacketForm where
  | direct
  | oneLevel
  | twoLevel
  deriving DecidableEq, Repr

/-- The form for a number of columns: cases 1, 3 and 4 of `host_queue.h`. -/
def documentedForm (n : ℕ) : PacketForm :=
  if n = 1 then .direct else if n ≤ hsaMaxLevel1IndirectEntries then .oneLevel else .twoLevel

def blockBytes (m : HostMemory) (inst : MemInst) : DeviceMemory := fun offset => m (inst.id, offset)

/-- Where in the code block an `exec_buf` points to. -/
def codeStart (eb : ExecBuf) (ctrlCode : MemInst) : ℕ := (BitVec.ofNat 64 eb.codeAddress - ctrlCode.devAddr).toNat

def execBufBehind (m : HostMemory) (entry : MemInst) (header : ℕ) : ExecBuf :=
  readExecBuf (blockBytes m entry) (header + commonHeaderSize)

/-- The tags and code of columns, read from their entries on. -/
def handedFrom (m : HostMemory) (indirect entry ctrlCode : MemInst) : ℕ → ℕ → ℕ → List (ℕ × List UInt8)
  | 0, _, _ => []
  | n + 1, entryOffset, header =>
    let start := codeStart (execBufBehind m entry header) ctrlCode
    let stop := if n = 0 then ctrlCode.size
      else codeStart (execBufBehind m entry (header + (commonHeaderSize + execBufSize))) ctrlCode
    ((readEntry (blockBytes m indirect) entryOffset).ucIndex.toNat, load m (ctrlCode.cell start) (stop - start)) ::
      handedFrom m indirect entry ctrlCode n (entryOffset + indirectEntrySize)
        (header + (commonHeaderSize + execBufSize))

/-- The form of the packet at an offset of the queue and what it hands over; its blocks are the last ones
allocated. -/
def handedOver (s : HostState) (hsa : MemInst) (slot : ℕ) : Option (PacketForm × List (ℕ × List UInt8)) :=
  let ch := readHeader (blockBytes s.memory hsa) slot
  match s.live with
  | [] => none
  | ctrlCode :: blocks =>
    if ch.indirect = 0#8 then
      let start := codeStart (readExecBuf (blockBytes s.memory hsa) (slot + xrtPacketHeaderSize)) ctrlCode
      some (.direct, [(0, load s.memory (ctrlCode.cell start) (ctrlCode.size - start))])
    else
      match blocks with
      | [] => none
      | entry :: _ =>
        let next := readHeader (blockBytes s.memory entry) 0
        if next.indirect = 0#8 then
          some (.oneLevel, handedFrom s.memory hsa entry ctrlCode (ch.count.toNat / indirectEntrySize)
            (slot + xrtPacketHeaderSize) 0)
        else
          some (.twoLevel, handedFrom s.memory entry entry ctrlCode (next.count.toNat / indirectEntrySize)
            commonHeaderSize (secondLevelSize (next.count.toNat / indirectEntrySize)))

/-- A packet of the documented form hands over the columns and nothing else. -/
def HandsOver (host : CertApi) (hsa : MemInst) (w : HostWorld) (cols : Columns) : Prop :=
  ∃ s trace handed, submitCommand host cols w = (.blocked, ⟨s, trace, []⟩) ∧
    s.writeIndex hsa = nextIndex (w.state.writeIndex hsa) ∧
    handedOver s hsa (hqEntryOffset (w.state.writeIndex hsa).toNat) = some (documentedForm cols.length, handed) ∧
    ∀ column, column ∈ handed.map (fun pair => ((pair.1 : ℤ), pair.2)) ↔ column ∈ cols

section Read

variable {host : CertApi} {s : HostState} {m : HostMemory} {entry ctrlCode indirect : MemInst} {cols : Columns}

theorem holdsAt_blockBytes {inst : MemInst} {offset : ℕ} {bytes : List UInt8}
    (h : Contains m (inst.cell offset) bytes) : HoldsAt (blockBytes m inst) offset bytes := h

theorem codeStart_execBufAt (host : CertApi) (s : HostState) (ctrlCode : MemInst) {offset : ℕ}
    (h : offset < 2 ^ 64) :
    codeStart (execBufAt host s (ctrlCode.devAddr + BitVec.ofNat 64 offset)) ctrlCode = offset := by
  rw [codeStart, execBufAt_codeAddress, BitVec.ofNat_toNat, BitVec.setWidth_eq, BitVec.add_comm,
    BitVec.add_sub_cancel, BitVec.toNat_ofNat, Nat.mod_eq_of_lt h]

theorem codeStart_behind {offset header : ℕ}
    (hleaf : Contains m (entry.cell header) ((execBufHeader execBufSize 1 0).bytes ++
      (execBufAt host s (ctrlCode.devAddr + BitVec.ofNat 64 offset)).bytes)) (h : offset < 2 ^ 64) :
    codeStart (execBufBehind m entry header) ctrlCode = offset := by
  have hbuf := (contains_cell_append.mp hleaf).2
  rw [CommonHeader.bytes_length] at hbuf
  rw [execBufBehind, commonHeaderSize, readExecBuf_of_holdsAt (holdsAt_blockBytes hbuf),
    codeStart_execBufAt host s ctrlCode h]

/-- What the laid out columns hand over. -/
theorem handedFrom_columns {indirectOffset entryVa ctrlSize : ℕ} {entryDma : BitVec 64}
    (hlaid : ColumnsLaid (execBufAt host s) entry ctrlCode indirect m cols indirectOffset entryVa entryDma ctrlSize)
    (hend : ctrlSize + ctrlCodeSize cols = ctrlCode.size) (hsize : ctrlCode.size < 2 ^ 64)
    (hrange : ∀ column ∈ cols, 0 ≤ column.1 ∧ column.1 ≤ 127) :
    (handedFrom m indirect entry ctrlCode cols.length indirectOffset entryVa).map
      (fun pair => ((pair.1 : ℤ), pair.2)) = cols := by
  induction cols generalizing indirectOffset entryVa entryDma ctrlSize with
  | nil => rfl
  | cons column rest ih =>
    obtain ⟨col, code⟩ := column
    obtain ⟨hcode, hentry, hleaf, hrest⟩ := hlaid
    obtain ⟨hmin, hmax⟩ := hrange (col, code) List.mem_cons_self
    have hsizes : ctrlCodeSize ((col, code) :: rest) = code.length + ctrlCodeSize rest := rfl
    have hstart := codeStart_behind hleaf (by omega)
    -- the next column's code starts where this one's ends
    have hstop : (if rest.length = 0 then ctrlCode.size
        else codeStart (execBufBehind m entry (entryVa + (commonHeaderSize + execBufSize))) ctrlCode) =
        ctrlSize + code.length := by
      cases rest with
      | nil => exact hend.symm
      | cons column' rest =>
        rw [List.length_cons, if_neg (Nat.succ_ne_zero _)]
        exact codeStart_behind hrest.2.2.1 (by omega)
    rw [List.length_cons, handedFrom, List.map_cons, hstop, hstart,
      readEntry_of_holdsAt (holdsAt_blockBytes hentry), columnEntry_ucIndex hmin hmax, Nat.add_sub_cancel_left,
      ih hrest (by omega) fun column hmem => hrange column (List.mem_cons_of_mem _ hmem)]
    exact congrArg (fun bytes => (col, bytes) :: rest) hcode

end Read

section Indirect

variable {host : CertApi} {hsa comp : MemInst} {s : HostState} {cols : Columns} {entryDma ctrlCodeDma : BitVec 64}

theorem execBufHeader_count {n : ℕ} (hn : n ≤ 24) :
    (execBufHeader (n * indirectEntrySize) 1 1).count.toNat / indirectEntrySize = n := by
  simp only [execBufHeader, BitVec.toNat_ofNat, indirectEntrySize]
  omega

theorem published_headers (hid : hsa.id < s.nextId) (hmin : 0 < cols.length) :
    readHeader (blockBytes (publishedState host hsa comp s entryDma ctrlCodeDma cols).memory hsa)
        (hqEntryOffset (s.writeIndex hsa).toNat) = execBufHeader
          (if cols.length ≤ hsaMaxLevel1IndirectEntries then cols.length * indirectEntrySize else indirectEntrySize)
            1 1 ∧
      readHeader (blockBytes (publishedState host hsa comp s entryDma ctrlCodeDma cols).memory
        (entryBlock s entryDma cols))
        0 = if cols.length ≤ hsaMaxLevel1IndirectEntries then execBufHeader execBufSize 1 0
          else execBufHeader (cols.length * indirectEntrySize) 1 1 := by
  refine ⟨readHeader_of_bytes (holdsAt_blockBytes (published_header hid)), ?_⟩
  by_cases hfew : cols.length ≤ hsaMaxLevel1IndirectEntries
  · -- the first column's header is the next level
    have hlaid := @published_columns host hsa comp s entryDma ctrlCodeDma cols hid
    rw [leafStart, if_pos hfew] at hlaid
    rw [if_pos hfew]
    obtain ⟨column, rest, rfl⟩ := List.exists_cons_of_length_pos hmin
    exact readHeader_of_bytes (holdsAt_blockBytes (contains_cell_append.mp hlaid.2.2.1).1)
  · rw [if_neg hfew]
    obtain ⟨-, htype, hfields⟩ := @published_secondLevel host hsa comp s entryDma ctrlCodeDma cols hid hfew
    exact readHeader_of_holdsAt (holdsAt_blockBytes htype) (holdsAt_blockBytes hfields)

theorem handedOver_published (hid : hsa.id < s.nextId) (hmin : 2 ≤ cols.length) (hmax : cols.length ≤ 24)
    (hrange : ∀ column ∈ cols, 0 ≤ column.1 ∧ column.1 ≤ 127) (hsize : ctrlCodeSize cols < 2 ^ 64) :
    ∃ handed, handedOver (publishedState host hsa comp s entryDma ctrlCodeDma cols) hsa
        (hqEntryOffset (s.writeIndex hsa).toNat) = some (documentedForm cols.length, handed) ∧
      handed.map (fun pair => ((pair.1 : ℤ), pair.2)) = cols := by
  have hone : ¬ cols.length = 1 := by omega
  have hlive : (publishedState host hsa comp s entryDma ctrlCodeDma cols).live =
      ctrlCodeBlock s ctrlCodeDma cols :: entryBlock s entryDma cols :: s.live := rfl
  obtain ⟨hheader, hnext⟩ :=
    @published_headers host hsa comp s cols entryDma ctrlCodeDma hid (Nat.zero_lt_two.trans_le hmin)
  have hlaid := @published_columns host hsa comp s entryDma ctrlCodeDma cols hid
  refine ⟨_, ?_, handedFrom_columns hlaid (Nat.zero_add _) hsize hrange⟩
  by_cases hfew : cols.length ≤ hsaMaxLevel1IndirectEntries
  · simp only [handedOver, hlive, hheader, hnext, documentedForm, if_neg hone, if_pos hfew,
      execBufHeader_count hmax, Blocks.entries, entryOffset, leafStart, Nat.zero_mul, Nat.add_zero]
    rfl
  · simp only [handedOver, hlive, hheader, hnext, documentedForm, if_neg hone, if_neg hfew,
      execBufHeader_count hmax, Blocks.entries, entryOffset, leafStart, Nat.zero_mul, Nat.add_zero]
    rfl

theorem writeIndex_published (m : HostMemory) (s : HostState) (hsa : MemInst) (index : BitVec 64) :
    ({ s with memory := store m (hsa.cell writeIndexOffset) (leBytes 8 index.toNat) } : HostState).writeIndex hsa =
      index := by
  have hload := contains_write m hsa writeIndexOffset (leBytes 8 index.toNat)
  rw [Contains, leBytes_length] at hload
  rw [HostState.writeIndex, hload, leNat_leBytes_of_lt 8 _ index.isLt, BitVec.ofNat_toNat, BitVec.setWidth_eq]

end Indirect

section Direct

variable {host : CertApi} {hsa comp : MemInst} {s : HostState} {parsed : Columns} {ctrlCodeDma : BitVec 64}

/-- A command of one column that waits for the firmware. -/
abbrev directState (host : CertApi) (hsa comp : MemInst) (s : HostState) (parsed : Columns)
    (ctrlCodeDma : BitVec 64) :
    HostState :=
  replay hostStep s (waitingEvents host hsa comp s (.submitCommand parsed)
    [((columnCode (loggedColumns parsed) 0).length, ctrlCodeDma)])

theorem directState_packet :
    readHeader (blockBytes (directState host hsa comp s parsed ctrlCodeDma).memory hsa)
        (hqEntryOffset (s.writeIndex hsa).toNat) = execBufHeader execBufSize 0 0 ∧
      readExecBuf (blockBytes (directState host hsa comp s parsed ctrlCodeDma).memory hsa)
        (hqEntryOffset (s.writeIndex hsa).toNat + xrtPacketHeaderSize) = execBufAt host s ctrlCodeDma := by
  have hbefore := writeIndex_before (s.writeIndex hsa).toNat
  rw [directState, waitingEvents, replay_append, blocksFrom_one, preparing]
  refine ⟨readHeader_of_bytes (holdsAt_blockBytes (contains_write_of_disjoint (contains_write_of_disjoint
    (contains_cell_append.mp (contains_write _ hsa _ _)).1 fun _ => .inl ?_) fun _ => .inr ?_)),
    readExecBuf_of_holdsAt
      (holdsAt_blockBytes (contains_write_of_disjoint (contains_write _ hsa _ _) fun _ => .inr ?_))⟩
  · rw [CommonHeader.bytes_length, xrtPacketHeaderSize]
    omega
  · rwa [leBytes_length]
  · rw [leBytes_length]
    exact hbefore.trans (Nat.le_add_right _ _)

/-- A published direct packet hands over its code. -/
theorem handedOver_direct (hid : hsa.id < s.nextId) :
    handedOver (directState host hsa comp s parsed ctrlCodeDma) hsa (hqEntryOffset (s.writeIndex hsa).toNat) =
      some (.direct, [(0, columnCode (loggedColumns parsed) 0)]) := by
  have hother {p : Prop} (hsame : s.nextId = hsa.id) : p := absurd hsame hid.ne'
  have hlive : (directState host hsa comp s parsed ctrlCodeDma).live =
      ⟨s.nextId, ctrlCodeDma, (columnCode (loggedColumns parsed) 0).length⟩ :: s.live := by
    rw [directState, waitingEvents, replay_append, replay_append, replay_append, replay_opening]
    rfl
  have hcode : Contains (directState host hsa comp s parsed ctrlCodeDma).memory
      (MemInst.cell ⟨s.nextId, ctrlCodeDma, (columnCode (loggedColumns parsed) 0).length⟩ 0)
      (columnCode (loggedColumns parsed) 0) := by
    rw [directState, waitingEvents, replay_append, blocksFrom_one, preparing]
    exact contains_write_of_disjoint
      (contains_write_of_disjoint (contains_write_of_disjoint (contains_write_of_disjoint
      (contains_write _ _ 0 _) fun h => hother h.symm) fun h => hother h.symm) fun h => hother h.symm) fun h =>
        hother h.symm
  have hstart : codeStart (execBufAt host s ctrlCodeDma)
      ⟨s.nextId, ctrlCodeDma, (columnCode (loggedColumns parsed) 0).length⟩ = 0 := by
    have hzero := codeStart_execBufAt host s ⟨s.nextId, ctrlCodeDma, (columnCode (loggedColumns parsed) 0).length⟩
      (show 0 < 2 ^ 64 by decide)
    rwa [show BitVec.ofNat 64 0 = 0#64 from rfl, BitVec.add_zero] at hzero
  obtain ⟨hheader, hbuf⟩ := @directState_packet host hsa comp s parsed ctrlCodeDma
  simp only [handedOver, hlive, hheader, hbuf, hstart]
  exact congrArg (fun bytes => some (PacketForm.direct, [(0, bytes)])) hcode

end Direct

section Columns

/-- What the parser leaves: one to twenty-four ascending columns from 0 to 127. -/
structure ParsedColumns (cols : Columns) : Prop where
  min : 1 ≤ cols.length
  max : cols.length ≤ 24
  sorted : cols.Pairwise fun column column' => column.1 < column'.1
  range : ∀ column ∈ cols, 0 ≤ column.1 ∧ column.1 ≤ 127

/-- A command gets the memory it asks for and waits: two answers with an address, the second without a completion.
-/
structure Waits (hsa comp : MemInst) (w : HostWorld) : Prop where
  hsaMeminst : w.state.hsaMeminst = some hsa
  compSigMeminst : w.state.compSigMeminst = some comp
  hsa_lt : hsa.id < w.state.nextId
  script : ∃ devAddr rc value devAddr' rc', w.script = [⟨some devAddr, rc, value⟩, ⟨some devAddr', rc', 0#32⟩]

variable (host : CertApi) {hsa comp : MemInst} {w : World HostEvent HostAnswer HostState} {cols : Columns}

theorem touchColumn0_of_missing (hrange : ∀ column ∈ cols, 0 ≤ column.1)
    (hmissing : ∀ column ∈ cols, column.1 ≠ 0) :
    touchColumn0 cols = (0, []) :: cols := by
  cases cols with
  | nil => rfl
  | cons column rest =>
    have hpos := hrange column List.mem_cons_self
    have hne := hmissing column List.mem_cons_self
    rw [touchColumn0, if_neg (by omega), if_neg hne]

theorem submitCommand_congr {cols' : Columns} (h : loggedColumns cols = loggedColumns cols') :
    submitCommand host cols = submitCommand host cols' := by
  rw [submitCommand, submitCommand, h]

theorem submitCommand_refuses (hwaits : Waits hsa comp w) (hmany : 24 < (loggedColumns cols).length) :
    (submitCommand host cols w).1 = .returned (-1#32) := by
  have hop : (CertOp.submitCommand cols).unsupported = true := by
    rw [CertOp.unsupported, decide_eq_true hmany]
    rfl
  change (certMethod host (.submitCommand cols) w).1 = _
  rw [certMethod_apply host _ hwaits.hsaMeminst hwaits.compSigMeminst, hop]
  rfl

theorem handsOver_indirect (hwaits : Waits hsa comp w) (hlogged : loggedColumns cols = cols)
    (hmin : 2 ≤ cols.length) (hmax : cols.length ≤ 24)
    (hrange : ∀ column ∈ cols, 0 ≤ column.1 ∧ column.1 ≤ 127) (hsize : ctrlCodeSize cols < 2 ^ 64) :
    ∃ s trace handed, submitCommand host cols w = (.blocked, ⟨s, trace, []⟩) ∧
      s.writeIndex hsa = nextIndex (w.state.writeIndex hsa) ∧
      handedOver s hsa (hqEntryOffset (w.state.writeIndex hsa).toNat) = some (documentedForm cols.length, handed) ∧
      handed.map (fun pair => ((pair.1 : ℤ), pair.2)) = cols := by
  obtain ⟨devAddr, rc, value, devAddr', rc', hscript⟩ := hwaits.script
  have hrun := @submitCommand_blocked cols host hsa comp devAddr devAddr' w hwaits.hsaMeminst
    hwaits.compSigMeminst hlogged
    hmin hmax (by rw [hscript]; rfl)
  rw [← publishedState_eq] at hrun
  obtain ⟨handed, hread, hmap⟩ := handedOver_published hwaits.hsa_lt hmin hmax hrange hsize
  exact ⟨_, _, handed, hrun, writeIndex_published _ w.state hsa _, hread, hmap⟩

/-- A command hands over exactly the columns the parser left, in the documented form, if and only if column 0 is
among them. -/
theorem submitCommand_hands_over_iff (hcols : ParsedColumns cols) (hsize : ctrlCodeSize cols < 2 ^ 64)
    (hwaits : Waits hsa comp w) : HandsOver host hsa w cols ↔ ∃ column ∈ cols, column.1 = 0 := by
  have hne : cols ≠ [] := List.ne_nil_of_length_pos hcols.min
  constructor
  · rintro ⟨s, trace, handed, hrun, -, hread, hsame⟩
    by_contra hmissing
    push Not at hmissing
    have hlogged : loggedColumns cols = (0, []) :: cols := by
      rw [loggedColumns, if_neg hne,
        touchColumn0_of_missing (fun column hmem => (hcols.range column hmem).1) hmissing]
    by_cases hfull : cols.length = 24
    · have hrefused := @submitCommand_refuses host hsa comp w cols hwaits (by
        rw [hlogged, List.length_cons]
        omega)
      rw [hrun] at hrefused
      cases hrefused
    · -- the packet has one column more than the parser left
      have hlogged' : loggedColumns ((0, []) :: cols) = (0, []) :: cols := rfl
      have hmax := hcols.max
      have hmin := hcols.min
      obtain ⟨s', trace', handed', hrun', -, hread', hmap⟩ := handsOver_indirect host hwaits hlogged'
        (by rw [List.length_cons]; omega) (by rw [List.length_cons]; omega)
        (List.forall_mem_cons.mpr ⟨by decide, hcols.range⟩) (by
          change 0 + ctrlCodeSize cols < _
          omega)
      rw [submitCommand_congr host (hlogged.trans hlogged'.symm), hrun'] at hrun
      obtain rfl : s' = s := congrArg (fun run => run.2.state) hrun
      obtain rfl : handed' = handed := congrArg Prod.snd (Option.some.inj (hread'.symm.trans hread))
      have hzero := (hsame (0, [])).mp (hmap ▸ List.mem_cons_self)
      exact hmissing _ hzero rfl
  · intro hzero
    have hlogged : loggedColumns cols = cols := by
      rw [loggedColumns, if_neg hne, touchColumn0_of_mem hcols.sorted hzero]
    by_cases hone : cols.length = 1
    · obtain ⟨column, rfl⟩ := List.length_eq_one_iff.mp hone
      obtain ⟨col, code⟩ := column
      obtain rfl : col = 0 := by simpa using hzero
      obtain ⟨devAddr, rc, value, devAddr', rc', hscript⟩ := hwaits.script
      have hrun := @certMethod_waits host hsa comp (.submitCommand [(0, code)]) w rfl hwaits.hsaMeminst
        hwaits.compSigMeminst [(code.length, devAddr)] rfl [_] [_] hscript rfl (List.forall_mem_singleton.mpr rfl)
      refine ⟨_, _, [(0, code)], hrun, ?_, handedOver_direct hwaits.hsa_lt, fun _ => Iff.rfl⟩
      rw [waitingEvents, ← List.append_assoc, replay_append]
      exact writeIndex_published _ _ hsa _
    · have hmin := hcols.min
      obtain ⟨s, trace, handed, hrun, hindex, hread, hmap⟩ :=
        handsOver_indirect host hwaits hlogged (by omega) hcols.max hcols.range hsize
      exact ⟨s, trace, handed, hrun, hindex, hread, fun column => by rw [hmap]⟩

def handedWorld : HostWorld := emptyWorld reachQueue reachCompletion 5 0x40000 0x30000

theorem handedWorld_waits : Waits reachQueue reachCompletion handedWorld where
  hsaMeminst := rfl
  compSigMeminst := rfl
  hsa_lt := by decide
  script := ⟨0x40000, 0, 0, 0x30000, 0, rfl⟩

/-- Columns 0 and 3 are handed over. -/
theorem submitCommand_hands_over_sample : HandsOver reachHost reachQueue handedWorld [(0, [7]), (3, [8, 9])] := by
  have hcols : ParsedColumns [(0, [7]), (3, [8, 9])] := ⟨by decide, by decide, by decide, by decide⟩
  exact (submitCommand_hands_over_iff reachHost hcols (by decide) handedWorld_waits).mpr ⟨(0, [7]), by decide, rfl⟩

@[irreducible] def handedBy (cols : Columns) : Option (PacketForm × List (ℕ × List UInt8)) :=
  handedOver (submitCommand reachHost cols handedWorld).2.state reachQueue
    (hqEntryOffset (handedWorld.state.writeIndex reachQueue).toNat)

/-- For column 1 alone the packet has the one-level form and an empty column 0. -/
theorem missing_column0_handed_over :
    ParsedColumns [(1, [7])] ∧ handedBy [(1, [7])] = some (.oneLevel, [(0, []), (1, [7])]) ∧
      ¬ HandsOver reachHost reachQueue handedWorld [(1, [7])] := by
  have hhanded : handedBy [(1, [7])] = some (.oneLevel, [(0, []), (1, [7])]) := by decide +kernel
  refine ⟨⟨by decide, by decide, by decide, by decide⟩, hhanded, ?_⟩
  rintro ⟨s, trace, handed, hrun, -, hread, -⟩
  rw [handedBy, hrun] at hhanded
  exact nomatch hhanded.symm.trans hread

end Columns

end AieBaremetal.Cert
