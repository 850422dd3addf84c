import AieBaremetal.Cert.CallFrame
import AieBaremetal.Cert.PacketLayout

/-!
# The ring of packets

An observer keeps the contents of the queue, the index at the entry of the call under way, whether
that call has stored a new index, whether an allocation failed, and which blocks are not synced yet.
Inside a call only the packet and the completion word of the entry index are written, the new index is
stored once, when nothing is left to sync, and nothing is written after it. Blocks are told apart by
their instance, and every write stays inside its block.
-/

namespace AieBaremetal.Cert

open Common Common.Program

/-- The observer's state. -/
structure RingMonitor where
  queue : ℕ → UInt8
  op : Option CertOp
  entryIndex : ℕ
  published : Bool
  allocFailed : Bool
  dirty : List ℕ

def queueWriteIndex (queue : ℕ → UInt8) : ℕ := leNat (load queue (writeIndexOffset + ·) 8)

/-- The completion address in the header of a packet. -/
def queueCompletion (queue : ℕ → UInt8) (i : ℕ) : ℕ :=
  leNat (load queue (hqEntryOffset i + commonHeaderSize + ·) 8)

/-- The observer before anything happened. -/
def RingMonitor.start (queue : ℕ → UInt8) : RingMonitor where
  queue := queue
  op := none
  entryIndex := 0
  published := false
  allocFailed := false
  dirty := []

def ringStep (hsa : MemInst) (m : RingMonitor) : HostEvent → RingMonitor
  | .enter op =>
    { m with op := some op, entryIndex := queueWriteIndex m.queue, published := false, allocFailed := false }
  | .memAllocate _ devAddr => { m with allocFailed := m.allocFailed || devAddr.isNone }
  | .memSyncForDev inst _ => { m with dirty := m.dirty.filter (· ≠ inst.id) }
  | .write inst offset bytes =>
    { m with
      queue := if inst.id = hsa.id then store m.queue (offset + ·) bytes else m.queue
      published := m.published || (inst.id = hsa.id && offset = writeIndexOffset)
      dirty := inst.id :: m.dirty }
  | .leave _ => { m with op := none }
  | _ => m

def InSlot (index offset : ℕ) (bytes : List UInt8) : Prop :=
  hqEntryOffset index ≤ offset ∧ offset + bytes.length ≤ hqEntryOffset index + hostQueuePacketSize

/-- The store that publishes a packet: it advances the index by one modulo the number of slots, every written
block is synced, and the packet names the completion word of its slot. -/
def Publishes (comp : MemInst) (m : RingMonitor) (offset : ℕ) (bytes : List UInt8) : Prop :=
  offset = writeIndexOffset ∧ bytes = leBytes 8 ((m.entryIndex + 1) % hsaQueueEntry) ∧ m.dirty = [] ∧
    queueCompletion m.queue m.entryIndex = (comp.devAddr.toNat + 4 * m.entryIndex) % 2 ^ 64

/-- What the ring asks of an event. A call that leaves has advanced the index if it published, and it published
unless its command is not supported or an allocation failed. -/
def RingHolds (hsa comp : MemInst) (m : RingMonitor) : HostEvent → Prop
  | .write inst offset bytes =>
    offset + bytes.length ≤ inst.size ∧
      (m.op = none ∨ m.published = false ∧
        (inst.id = hsa.id → InSlot m.entryIndex offset bytes ∨ Publishes comp m offset bytes) ∧
        (inst.id = comp.id → offset = 4 * m.entryIndex ∧ bytes.length = 4))
  | .leave _ =>
    queueWriteIndex m.queue = (if m.published then (m.entryIndex + 1) % hsaQueueEntry else m.entryIndex) ∧
      (m.published = false ↔ m.allocFailed = true ∨ ∃ op, m.op = some op ∧ op.unsupported = true)
  | _ => True

/-- The observer's state in a world. -/
def ringMonitor (hsa : MemInst) (start : ℕ → UInt8) (w : HostWorld) : RingMonitor :=
  replay (ringStep hsa) (.start start) w.trace

section Queue

variable (queue : ℕ → UInt8)

theorem queueWriteIndex_store_of_disjoint {offset : ℕ} {bytes : List UInt8}
    (h : offset + bytes.length ≤ writeIndexOffset ∨ writeIndexOffset + 8 ≤ offset) :
    queueWriteIndex (store queue (offset + ·) bytes) = queueWriteIndex queue := by
  have hsep : ∀ i < bytes.length, ∀ j < 8, offset + i ≠ writeIndexOffset + j := by
    intro i hi j hj
    omega
  rw [queueWriteIndex, load_store_of_ne queue hsep, queueWriteIndex]

theorem queueWriteIndex_store {value : ℕ} (h : value < 2 ^ 64) :
    queueWriteIndex (store queue (writeIndexOffset + ·) (leBytes 8 value)) = value := by
  have hload : load (store queue (writeIndexOffset + ·) (leBytes 8 value)) (writeIndexOffset + ·)
      (leBytes 8 value).length = leBytes 8 value := load_store queue fun i _ j _ heq => Nat.add_left_cancel heq
  rw [leBytes_length] at hload
  rw [queueWriteIndex, hload, leNat_leBytes_of_lt 8 value (by simpa using h)]

end Queue

variable {host : CertApi} {hsa comp : MemInst} {s : HostState} {m : RingMonitor} {op : CertOp} {index : ℕ}
    {failed : Bool}

section Agreement

/-- The observer knows the bytes of the queue. -/
def Agrees (hsa : MemInst) (s : HostState) (m : RingMonitor) : Prop := ∀ i, s.memory (hsa.id, i) = m.queue i

theorem Agrees.step (h : Agrees hsa s m) (e : HostEvent) : Agrees hsa (hostStep s e) (ringStep hsa m e) := by
  rcases e with _ | ⟨_, _ | _⟩ | _ | _ | _ | ⟨inst, offset, bytes⟩ | _ | _ | _ | _ | _
  case write =>
    intro i
    have hbefore : (fun j => s.memory (hsa.id, j)) = m.queue := funext h
    by_cases hid : inst.id = hsa.id
    · have hstep : (ringStep hsa m (.write inst offset bytes)).queue =
        store m.queue (offset + ·) bytes := if_pos hid
      rw [hstep, ← hbefore, ← hid]
      exact store_comp s.memory (Prod.mk_right_injective inst.id) (offset + ·) bytes i
    · have hstep : (ringStep hsa m (.write inst offset bytes)).queue = m.queue := if_neg hid
      rw [hstep, ← h i]
      exact store_of_ne s.memory fun j _ heq => hid (congrArg Prod.fst heq)
  all_goals exact h

theorem Agrees.replay (h : Agrees hsa s m) (events : List HostEvent) :
    Agrees hsa (replay hostStep s events) (replay (ringStep hsa) m events) := by
  induction events generalizing s m with
  | nil => exact h
  | cons e rest ih => exact ih (h.step e)

theorem Agrees.bytes (h : Agrees hsa s m) (offset n : ℕ) :
    load s.memory (hsa.cell offset) n = load m.queue (offset + ·) n :=
  List.map_congr_left fun i _ => h (offset + i)

theorem Agrees.writeIndex (h : Agrees hsa s m) : (s.writeIndex hsa).toNat = queueWriteIndex m.queue := by
  have hlt := leNat_lt (load m.queue (writeIndexOffset + ·) 8)
  rw [load_length] at hlt
  rw [HostState.writeIndex, h.bytes, queueWriteIndex, BitVec.toNat_ofNat, Nat.mod_eq_of_lt (by simpa using hlt)]

theorem Agrees.completion (h : Agrees hsa s m) {header : CommonHeader} {address : BitVec 64}
    (hheader : Contains s.memory (hsa.cell (hqEntryOffset index)) (header.bytes ++ leBytes 8 address.toNat)) :
    queueCompletion m.queue index = address.toNat := by
  have hload := (contains_cell_append.mp hheader).2
  rw [Contains, CommonHeader.bytes_length, leBytes_length, h.bytes] at hload
  rw [queueCompletion, commonHeaderSize, hload, leNat_leBytes_of_lt 8 _ (by simpa using address.isLt)]

end Agreement

section Calling

/-- The index names a slot. -/
def Ring (m : RingMonitor) : Prop := queueWriteIndex m.queue < hsaQueueEntry

/-- In a call: its entry index, whether it published and whether an allocation failed. -/
structure Calling (op : CertOp) (index : ℕ) (done failed : Bool) (m : RingMonitor) : Prop where
  op : m.op = some op
  entryIndex : m.entryIndex = index
  published : m.published = done
  allocFailed : m.allocFailed = failed
  writeIndex : queueWriteIndex m.queue = if done then (index + 1) % hsaQueueEntry else index

theorem Calling.ring {done : Bool} (h : Calling op index done failed m) (hindex : index < hsaQueueEntry) :
    Ring m := by
  rw [Ring, h.writeIndex]
  split
  · exact Nat.mod_lt _ (by decide)
  · exact hindex

/-- What a call may do before it publishes its packet. -/
def HostEvent.Allowed (hsa comp : MemInst) (index : ℕ) : HostEvent → Prop
  | .write inst offset bytes => offset + bytes.length ≤ inst.size ∧ (inst.id = hsa.id → InSlot index offset bytes) ∧
      (inst.id = comp.id → offset = 4 * index ∧ bytes.length = 4)
  | .memAllocate _ devAddr => devAddr.isSome
  | .enter _ | .leave _ => False
  | _ => True

/-- An event that a call may make before it publishes keeps the ring. -/
theorem Calling.step (h : Calling op index false failed m) {e : HostEvent} (he : e.Allowed hsa comp index) :
    RingHolds hsa comp m e ∧ Calling op index false failed (ringStep hsa m e) := by
  rcases e with _ | ⟨_, _ | devAddr⟩ | _ | _ | _ | ⟨inst, offset, bytes⟩ | _ | _ | _ | _ | _
  case enter => exact he.elim
  case leave => exact he.elim
  case memAllocate.none => cases he
  case memAllocate.some => exact ⟨trivial, { h with allocFailed := by simp [ringStep, h.allocFailed] }⟩
  case write =>
    obtain ⟨hbound, hslot, hcomp⟩ := he
    rw [← h.entryIndex] at hslot hcomp
    refine ⟨⟨hbound, .inr ⟨h.published, fun hid => .inl (hslot hid), hcomp⟩⟩, ?_⟩
    by_cases hid : inst.id = hsa.id
    · have hbehind := (writeIndex_before m.entryIndex).trans (hslot hid).1
      have hne : offset ≠ writeIndexOffset := by omega
      have hqueue : (ringStep hsa m (.write inst offset bytes)).queue =
        store m.queue (offset + ·) bytes := if_pos hid
      exact
        { h with
          published := by simp [ringStep, h.published, hne]
          writeIndex := by rw [hqueue, queueWriteIndex_store_of_disjoint _ (.inr hbehind), h.writeIndex] }
    · have hqueue : (ringStep hsa m (.write inst offset bytes)).queue = m.queue := if_neg hid
      exact
        { h with
          published := by simp [ringStep, h.published, hid]
          writeIndex := by rw [hqueue, h.writeIndex] }
  all_goals exact ⟨trivial, { h with }⟩

/-- A trace takes the observer from one property to another. -/
abbrev RingPasses (hsa comp : MemInst) (P : RingMonitor → Prop) (events : List HostEvent) (Q : RingMonitor → Prop) :
    Prop :=
  Passes (ringStep hsa) (RingHolds hsa comp) P events Q

theorem passes_allowed {events : List HostEvent} (h : ∀ e ∈ events, e.Allowed hsa comp index) :
    RingPasses hsa comp (Calling op index false failed) events (Calling op index false failed) :=
  passes_of_step fun e he _ hm => hm.step (h e he)

/-- An event the ring says nothing about. -/
def HostEvent.quiet : HostEvent → Bool
  | .memFree _ | .memSyncForCpu _ | .smpWmb | .wakeup _ | .dataMemBlockWrite _ _ | .completion _ _ _ => true
  | _ => false

theorem ringStep_quiet {e : HostEvent} (he : e.quiet = true) (m : RingMonitor) : ringStep hsa m e = m := by
  cases e <;> first | rfl | cases he

theorem passes_quiet {P : RingMonitor → Prop} {events : List HostEvent} (h : ∀ e ∈ events, e.quiet = true) :
    RingPasses hsa comp P events P := by
  refine passes_of_step fun e he m hm => ?_
  have hquiet := h e he
  rw [ringStep_quiet hquiet]
  refine ⟨?_, hm⟩
  cases e <;> trivial

theorem dirty_replay {P : ℕ → Prop} {events : List HostEvent} (h : ∀ e ∈ events, e.Marks P)
    (hm : ∀ id ∈ m.dirty, P id) :
    ∀ id ∈ (replay (ringStep hsa) m events).dirty, P id := by
  induction events using List.reverseRecOn with
  | nil => exact hm
  | append_singleton events e ih =>
    obtain ⟨hevents, he⟩ := List.forall_mem_append.mp h
    rw [replay_concat]
    rcases e with _ | _ | _ | _ | _ | _ | _ | _ | _ | _ | _
    case write => exact List.forall_mem_cons.mpr ⟨he _ List.mem_cons_self, ih hevents⟩
    case memSyncForDev => exact fun id hid => ih hevents id (List.mem_filter.mp hid).1
    all_goals exact ih hevents

theorem dirty_sync {P : ℕ → Prop} {dirty : List ℕ} {synced : ℕ} (h : ∀ id ∈ dirty, P id ∨ id = synced) :
    ∀ id ∈ dirty.filter (· ≠ synced), P id := by
  intro id hid
  obtain ⟨hid, hne⟩ := List.mem_filter.mp hid
  exact (h id hid).resolve_right (of_decide_eq_true hne)

end Calling

section Phases

/-- Queue and completion words are blocks of the right sizes, and the index names a slot. -/
structure QueueReady (hsa comp : MemInst) (s : HostState) : Prop where
  hsa_lt : hsa.id < s.nextId
  comp_lt : comp.id < s.nextId
  apart : hsa.id ≠ comp.id
  hsa_size : hsa.size = hsaQueueSize
  comp_size : comp.size = 4 * hsaQueueEntry
  index_lt : (s.writeIndex hsa).toNat < hsaQueueEntry

theorem nextIndex_toNat (index : BitVec 64) : (nextIndex index).toNat = (index.toNat + 1) % hsaQueueEntry := by
  have hmask : (BitVec.ofNat 64 hsaQueueEntry - 1#64).toNat = 2 ^ 5 - 1 := by decide
  rw [nextIndex, BitVec.toNat_and, hmask, Nat.and_two_pow_sub_one_eq_mod, BitVec.toNat_add]
  simp only [BitVec.toNat_ofNat, hsaQueueEntry]
  omega

theorem compSigDmaAt_toNat (comp : MemInst) (index : BitVec 64) :
    (compSigDmaAt comp index).toNat = (comp.devAddr.toNat + 4 * index.toNat) % 2 ^ 64 := by
  rw [compSigDmaAt, BitVec.toNat_add, BitVec.toNat_mul]
  simp only [BitVec.toNat_ofNat]
  omega

theorem prepared_header (host : CertApi) (hid : hsa.id < s.nextId) {grants : List (ℕ × BitVec 64)}
    (hsizes : grants.map Prod.fst = blockSizes op) (s' : HostState) : ∃ header : CommonHeader,
      Contains (replay hostStep s' (preparing host hsa comp s op (blocksFrom s.nextId grants))).memory
        (hsa.cell (hqEntryOffset (s.writeIndex hsa).toNat))
        (header.bytes ++ leBytes 8 (compSigDmaAt comp (s.writeIndex hsa)).toNat) := by
  cases op with
  | submitTestCommand => exact ⟨testHeader, contains_write _ _ _ _⟩
  | submitCommand parsed =>
    rcases grants_cases hsizes with ⟨-, devAddr, rfl⟩ | ⟨-, entryDma, ctrlDma, rfl⟩
    · refine ⟨execBufHeader execBufSize 0 0, contains_write_of_disjoint (contains_write _ _ _ _) fun _ => .inl ?_⟩
      rw [List.length_append, CommonHeader.bytes_length, leBytes_length]
      exact Nat.le_refl _
    · have hmem : Piece.packetHeader ∈ piecesWritten (loggedColumns parsed).length := by
        rw [piecesWritten]
        split <;> exact List.mem_cons_self
      apply Exists.intro
      rw [blocksFrom_two, preparing, replay_append, replay_append]
      exact pieces_stored (b := slotBlocks hsa s (entryBlock s entryDma (loggedColumns parsed))
        (ctrlCodeBlock s ctrlDma (loggedColumns parsed))) hid.ne (Nat.lt_succ_of_lt hid).ne (Nat.lt_succ_self _).ne
        (fun _ h => h) _ _ hmem _ List.mem_cons_self

variable {grants : List (ℕ × BitVec 64)}

theorem dirty_preparing (hclean : m.dirty = []) (hsizes : grants.map Prod.fst = blockSizes op) :
    ∀ id ∈ (replay (ringStep hsa) m (preparing host hsa comp s op (blocksFrom s.nextId grants))).dirty, id =
      hsa.id := by
  have hheader (header : CommonHeader) : ∀ e ∈ headerEvents hsa comp s header, e.Marks (· = hsa.id) :=
    List.forall_mem_cons.mpr ⟨rfl, List.forall_mem_singleton.mpr rfl⟩
  cases op with
  | submitTestCommand => exact dirty_replay (hheader _) (hclean ▸ nofun)
  | submitCommand parsed =>
    rcases grants_cases hsizes with ⟨-, devAddr, rfl⟩ | ⟨-, entryDma, ctrlDma, rfl⟩
    · rw [blocksFrom_one, preparing, List.append_assoc, replay_append]
      refine dirty_replay (List.forall_mem_append.mpr ⟨hheader _, List.forall_mem_singleton.mpr rfl⟩) ?_
      simp [replay, ringStep, hclean]
    · have hprepares := @preparing_prepares host hsa comp s _ _ hsizes
      rw [blocksFrom_two, preparing] at hprepares ⊢
      rw [replay_append]
      refine dirty_sync (dirty_sync (P := fun id => id = hsa.id ∨ id = s.nextId)
        (dirty_replay (fun e he => ?_) (hclean ▸ nofun)))
      have hwrites := (List.forall_mem_append.mp hprepares).1 e he
      cases e with
      | write inst offset bytes =>
        obtain ⟨rfl, -⟩ | ⟨hblock, -⟩ := hwrites
        · exact .inl (.inl rfl)
        obtain rfl | rfl : inst = _ ∨ inst = _ := by simpa using hblock
        · exact .inr rfl
        · exact .inl (.inr rfl)
      | _ => trivial

theorem preparing_allowed (host : CertApi) (hready : QueueReady hsa comp s)
    (hsizes : grants.map Prod.fst = blockSizes op) :
    ∀ e ∈ preparing host hsa comp s op (blocksFrom s.nextId grants),
      e.Allowed hsa comp (s.writeIndex hsa).toNat := by
  intro e he
  have hprepares := preparing_prepares host hsizes e he
  cases e with
  | write inst offset bytes =>
    obtain ⟨rfl, hlow, hhigh⟩ | ⟨hblock, hbound⟩ := hprepares
    · refine ⟨hhigh.trans ?_, fun _ => ⟨hlow, hhigh⟩, fun hid => absurd hid hready.apart⟩
      have hindex := hready.index_lt
      simp only [hready.hsa_size, hsaQueueSize, hqEntryOffset, hostQueueHeaderSize,
        hostQueuePacketSize, hsaQueueEntry] at *
      omega
    · have hid := le_id_of_mem_blocksFrom hblock
      exact ⟨hbound, fun h => absurd h (hready.hsa_lt.trans_le hid).ne',
        fun h => absurd h (hready.comp_lt.trans_le hid).ne'⟩
  | memSyncForDev inst rc => trivial
  | _ => exact hprepares.elim

theorem opening_allowed (host : CertApi) (hready : QueueReady hsa comp s) :
    ∀ e ∈ opening host hsa comp s op, e.Allowed hsa comp (s.writeIndex hsa).toNat := by
  refine List.forall_mem_append.mpr ⟨?_, ?_⟩
  · simp only [List.forall_mem_cons]
    refine ⟨trivial, trivial, ⟨?_, fun hid => absurd hid.symm hready.apart, fun _ => ⟨rfl, rfl⟩⟩, trivial, nofun⟩
    have hindex := hready.index_lt
    rw [leBytes_length, hready.comp_size]
    omega
  · cases op with
    | submitCommand parsed =>
      intro e he
      obtain ⟨i, -, rfl⟩ := List.mem_map.mp he
      trivial
    | submitTestCommand => exact nofun

theorem dirty_opening (hdirty : ∀ id ∈ m.dirty, id = comp.id) :
    (replay (ringStep hsa) m (opening host hsa comp s op)).dirty = [] := by
  have hclean : ∀ id ∈ (replay (ringStep hsa) m (opening host hsa comp s .submitTestCommand)).dirty, False :=
    dirty_sync (List.forall_mem_cons.mpr ⟨.inr rfl, fun id hid => .inr (hdirty id hid)⟩)
  cases op with
  | submitCommand parsed =>
    have hsplit : opening host hsa comp s (.submitCommand parsed) =
      opening host hsa comp s .submitTestCommand ++ wakeups host := rfl
    rw [hsplit, replay_append]
    refine List.eq_nil_iff_forall_not_mem.mpr (dirty_replay (fun e he => ?_) hclean)
    obtain ⟨i, -, rfl⟩ := List.mem_map.mp he
    trivial
  | submitTestCommand => exact List.eq_nil_iff_forall_not_mem.mpr hclean

theorem publishEvents_passes (hready : QueueReady hsa comp s) :
    RingPasses hsa comp (fun m => Calling op (s.writeIndex hsa).toNat false false m ∧
      (∀ id ∈ m.dirty, id = hsa.id) ∧
        queueCompletion m.queue (s.writeIndex hsa).toNat = (compSigDmaAt comp (s.writeIndex hsa)).toNat)
      (publishEvents hsa s) (fun m => Calling op (s.writeIndex hsa).toNat true false m ∧ m.dirty = []) := by
  rintro m ⟨h, hdirty, hcompletion⟩
  have hclean : ∀ id ∈ m.dirty.filter (· ≠ hsa.id), False := dirty_sync fun id hid => .inr (hdirty id hid)
  have hqueue : (replay (ringStep hsa) m (publishEvents hsa s)).queue =
    store m.queue (writeIndexOffset + ·) (leBytes 8 (nextIndex (s.writeIndex hsa)).toNat) := if_pos rfl
  refine ⟨⟨trivial, trivial,
    ⟨?_, .inr ⟨h.published, fun _ => .inr ⟨rfl, ?_, ?_, ?_⟩, fun hid => absurd hid hready.apart⟩⟩,
    trivial, trivial⟩, ?_, ?_⟩
  · rw [leBytes_length, hready.hsa_size]
    decide
  · rw [nextIndex_toNat]
    exact congrArg (fun i => leBytes 8 ((i + 1) % hsaQueueEntry)) h.entryIndex.symm
  · exact List.eq_nil_iff_forall_not_mem.mpr hclean
  · rw [compSigDmaAt_toNat, ← h.entryIndex] at hcompletion
    exact hcompletion
  · refine ⟨h.op, h.entryIndex, ?_, h.allocFailed, ?_⟩
    · simp [replay, publishEvents, ringStep]
    · rw [hqueue, queueWriteIndex_store _ (nextIndex _).isLt, nextIndex_toNat, if_pos rfl]
  · exact List.eq_nil_iff_forall_not_mem.mpr (dirty_sync (List.forall_mem_cons.mpr
      ⟨.inr rfl, fun id hid => .inl (hclean id hid)⟩))

/-- A call that was just entered, at the queue's index. -/
structure Entered (hsa comp : MemInst) (s : HostState) (op : CertOp) (m : RingMonitor) : Prop where
  agrees : Agrees hsa s m
  calling : Calling op (s.writeIndex hsa).toNat false false m
  dirty : ∀ id ∈ m.dirty, id = comp.id

theorem asking_passes (host : CertApi) (hready : QueueReady hsa comp s) (grants : List (ℕ × BitVec 64)) :
    RingPasses hsa comp (Entered hsa comp s op) (opening host hsa comp s op ++ grantEvents grants) (fun m =>
      Agrees hsa (replay hostStep s (opening host hsa comp s op ++ grantEvents grants)) m ∧
        Calling op (s.writeIndex hsa).toNat false false m ∧ m.dirty = []) := by
  have hgrants : ∀ e ∈ grantEvents grants, e.Allowed hsa comp (s.writeIndex hsa).toNat ∧
    e.Marks fun _ => False := by
    intro e he
    obtain ⟨grant, -, rfl⟩ := List.mem_map.mp he
    exact ⟨rfl, trivial⟩
  intro m hm
  obtain ⟨halong, hcalling⟩ := (passes_allowed (opening_allowed host hready)).append
    (passes_allowed fun e he => (hgrants e he).1) m hm.calling
  refine ⟨halong, hm.agrees.replay _, hcalling, List.eq_nil_iff_forall_not_mem.mpr ?_⟩
  rw [replay_append]
  exact dirty_replay (fun e he => (hgrants e he).2) (dirty_opening hm.dirty ▸ nofun)

theorem waiting_passes (host : CertApi) (hready : QueueReady hsa comp s)
    (hsizes : grants.map Prod.fst = blockSizes op) :
    RingPasses hsa comp (Entered hsa comp s op) (waitingEvents host hsa comp s op grants)
      (fun m => Calling op (s.writeIndex hsa).toNat true false m ∧ m.dirty = []) := by
  refine (asking_passes host hready grants).append (Passes.append ?_ (publishEvents_passes hready))
  rintro m ⟨hagrees, hcalling, hclean⟩
  obtain ⟨halong, hcalling⟩ := passes_allowed (preparing_allowed host hready hsizes) m hcalling
  obtain ⟨header, hheader⟩ := @prepared_header hsa comp s op host hready.hsa_lt grants hsizes _
  exact ⟨halong, hcalling, dirty_preparing hclean hsizes, (hagrees.replay _).completion hheader⟩

theorem quiet_pollEvents (comp : MemInst) (index : BitVec 64) (answers : List HostAnswer) :
    ∀ e ∈ pollEvents comp index answers, e.quiet = true := by
  intro e he
  obtain ⟨answer, -, rfl⟩ := List.mem_map.mp he
  rfl

theorem quiet_memFree (blocks : List MemInst) : ∀ e ∈ blocks.map HostEvent.memFree, e.quiet = true := by
  intro e he
  obtain ⟨block, -, rfl⟩ := List.mem_map.mp he
  rfl

theorem freed_passes (host : CertApi) (hready : QueueReady hsa comp s)
    (hsizes : grants.map Prod.fst = blockSizes op) (answers : List HostAnswer) :
    RingPasses hsa comp (Entered hsa comp s op) (freedEvents host hsa comp s op grants answers)
      (fun m => Calling op (s.writeIndex hsa).toNat true false m ∧ m.dirty = []) :=
  ((waiting_passes host hready hsizes).append (passes_quiet (quiet_pollEvents _ _ _))).append
    (passes_quiet (quiet_memFree _))

/-- A call ends with its packet published, or because the command is not supported or an allocation failed. -/
def Ended (comp : MemInst) (op : CertOp) (m : RingMonitor) : Prop :=
  (∃ index done failed, index < hsaQueueEntry ∧ Calling op index done failed m ∧
    (done = false ↔ failed = true ∨ op.unsupported = true)) ∧ ∀ id ∈ m.dirty, id = comp.id

/-- A call that returned met the conditions of the ring. -/
theorem Returns.passes {events : List HostEvent} (h : Returns host hsa comp s op events)
    (hready : QueueReady hsa comp s) :
    RingPasses hsa comp (Entered hsa comp s op) events (Ended comp op) := by
  have hindex := hready.index_lt
  cases h with
  | unsupported hop =>
    have hopened := @asking_passes hsa comp s op host hready []
    rw [grantEvents, List.map_nil, List.append_nil] at hopened
    refine hopened.imp (fun _ h => h) ?_
    rintro m ⟨-, hcalling, hclean⟩
    exact ⟨⟨_, _, _, hindex, hcalling, by simp [hop]⟩, by simp [hclean]⟩
  | refused hop grants size hsizes =>
    have hfailed : RingPasses hsa comp (Entered hsa comp s op)
        (opening host hsa comp s op ++ grantEvents grants ++ [.memAllocate size none])
        (fun m => Calling op (s.writeIndex hsa).toNat false true m ∧ m.dirty = []) := by
      refine (asking_passes host hready grants).append ?_
      rintro m ⟨-, hcalling, hclean⟩
      exact ⟨⟨trivial, trivial⟩, { hcalling with allocFailed := by simp [replay, ringStep] }, hclean⟩
    refine (hfailed.append (passes_quiet (quiet_memFree _))).imp (fun _ h => h) ?_
    rintro m ⟨hcalling, hclean⟩
    exact ⟨⟨_, _, _, hindex, hcalling, by simp⟩, by simp [hclean]⟩
  | done hop grants hsizes hanswers last =>
    refine ((freed_passes host hready hsizes _).append (passes_quiet (quiet_pollEvents _ _ _))).imp (fun _ h => h)
      ?_
    rintro m ⟨hcalling, hclean⟩
    exact ⟨⟨_, _, _, hindex, hcalling, by simp [hop]⟩, by simp [hclean]⟩

theorem Pends.passes {events : List HostEvent} (h : Pends host hsa comp s op events)
    (hready : QueueReady hsa comp s) :
    RingPasses hsa comp (Entered hsa comp s op) events Ring := by
  have hindex := hready.index_lt
  cases h with
  | asking hop grants hsizes =>
    exact (asking_passes host hready grants).imp (fun _ h => h) fun _ h => h.2.1.ring hindex
  | polling hop grants hsizes hzeros =>
    exact ((waiting_passes host hready hsizes).append (passes_quiet (quiet_pollEvents _ _ _))).imp (fun _ h => h)
      fun _ h => h.1.ring hindex
  | freed hop grants hsizes hanswers =>
    exact (freed_passes host hready hsizes _).imp (fun _ h => h) fun _ h => h.1.ring hindex

end Phases

section Calls

/-- Between calls only completion words may be unsynced. -/
structure Idle (comp : MemInst) (m : RingMonitor) : Prop where
  ring : Ring m
  op : m.op = none
  dirty : ∀ id ∈ m.dirty, id = comp.id

/-- The trace meets the ring's conditions and the observer knows the queue. -/
structure Watched (hsa comp : MemInst) (start : ℕ → UInt8) (P : RingMonitor → Prop) (w : HostWorld) : Prop where
  along : Along (ringStep hsa) (RingHolds hsa comp) (.start start) w.trace
  hsaMeminst : w.state.hsaMeminst = some hsa
  compSigMeminst : w.state.compSigMeminst = some comp
  hsa_lt : hsa.id < w.state.nextId
  comp_lt : comp.id < w.state.nextId
  agrees : Agrees hsa w.state (ringMonitor hsa start w)
  monitor : P (ringMonitor hsa start w)

variable {start : ℕ → UInt8} {P Q : RingMonitor → Prop} {w w' : HostWorld} {events : List HostEvent}

theorem Watched.since (h : Watched hsa comp start P w) (hsince : Since hostStep w events w')
    (hpasses : Along (ringStep hsa) (RingHolds hsa comp) (ringMonitor hsa start w) events ∧
      Q (replay (ringStep hsa) (ringMonitor hsa start w) events)) : Watched hsa comp start Q w' := by
  obtain ⟨memory, live, nextId, hnext, hreplay⟩ := replay_fields w.state events
  have hmonitor : ringMonitor hsa start w' = replay (ringStep hsa) (ringMonitor hsa start w) events := by
    rw [ringMonitor, hsince.trace, replay_append, ringMonitor]
  have hagrees := h.agrees.replay events
  rw [← hsince.state, ← hmonitor] at hagrees
  refine ⟨?_, ?_, ?_, ?_, ?_, hagrees, hmonitor ▸ hpasses.2⟩
  · rw [hsince.trace, along_append]
    exact ⟨h.along, hpasses.1⟩
  all_goals rw [hsince.state, hreplay]
  · exact h.hsaMeminst
  · exact h.compSigMeminst
  · exact h.hsa_lt.trans_le hnext
  · exact h.comp_lt.trans_le hnext

theorem Watched.imp (h : Watched hsa comp start P w) (himp : ∀ m, P m → Q m) : Watched hsa comp start Q w :=
  { h with monitor := himp _ h.monitor }

/-- A call keeps the ring. -/
theorem triple_certCall (hne : hsa.id ≠ comp.id) (hsize : hsa.size = hsaQueueSize)
    (hcomp : comp.size = 4 * hsaQueueEntry)
    (host : CertApi) (op : CertOp) : Triple (Watched hsa comp start (Idle comp)) (certCall host op)
      (fun _ => Watched hsa comp start (Idle comp)) (Watched hsa comp start Ring) := by
  intro w h
  have hindex := h.agrees.writeIndex
  have hready : QueueReady hsa comp w.state := ⟨h.hsa_lt, h.comp_lt, hne, hsize, hcomp, hindex ▸ h.monitor.ring⟩
  have hentered : Watched hsa comp start (Entered hsa comp w.state op)
    ⟨w.state, w.trace ++ [.enter op], w.script⟩ :=
    h.since ⟨rfl, rfl⟩ ⟨⟨trivial, trivial⟩, h.agrees, ⟨rfl, hindex.symm, rfl, rfl, hindex.symm⟩, h.monitor.dirty⟩
  have hmethod : Triple (fun w' => w' = ⟨w.state, w.trace ++ [.enter op], w.script⟩) (certMethod host op)
      (fun _ => Watched hsa comp start (Ended comp op)) (Watched hsa comp start Ring) := by
    rintro _ rfl
    exact (certMethod_runs host op hentered.hsaMeminst hentered.compSigMeminst).imp
      (fun _ _ ⟨_, hreturns, hsince⟩ => hentered.since hsince (hreturns.passes hready _ hentered.monitor))
      fun _ ⟨_, hpends, hsince⟩ => hentered.since hsince (hpends.passes hready _ hentered.monitor)
  have hleave (code : BitVec 32) : Triple (Watched hsa comp start (Ended comp op))
      (Program.tell (.leave code) : CertProgram Unit) (fun _ => Watched hsa comp start (Idle comp))
      (Watched hsa comp start Ring) := by
    intro w' h'
    obtain ⟨⟨index, done, failed, hlt, hcalling, hiff⟩, hdirty⟩ := h'.monitor
    refine h'.since ⟨rfl, rfl⟩ ⟨⟨⟨?_, ?_⟩, trivial⟩, hcalling.ring hlt, rfl, hdirty⟩
    · rw [hcalling.writeIndex, hcalling.published, hcalling.entryIndex]
    · rw [hcalling.published, hcalling.allocFailed, hcalling.op, hiff]
      simp
  have hcall : Triple (fun w' => w' = w) (certCall host op) (fun _ => Watched hsa comp start (Idle comp))
      (Watched hsa comp start Ring) := by
    refine (triple_tell _ ?_).bind fun _ => hmethod.bind fun code => (hleave code).bind fun _ _ h => h
    rintro _ rfl
    rfl
  exact hcall w rfl

end Calls

section Init

variable {memory : HostMemory} {script : List HostAnswer} {w : HostWorld} {args : Option MemInst}

/-- Every write before the first call stays in its block. -/
def HostEvent.Bounded : HostEvent → Prop
  | .write inst offset bytes => offset + bytes.length ≤ inst.size
  | .enter _ | .leave _ => False
  | _ => True

theorem passes_bounded {events : List HostEvent} (h : ∀ e ∈ events, e.Bounded) :
    RingPasses hsa comp (fun m => m.op = none) events (fun m => m.op = none) := by
  refine passes_of_step fun e he m hm => ?_
  have hbounded := h e he
  cases e with
  | enter op => exact hbounded.elim
  | leave code => exact hbounded.elim
  | write inst offset bytes => exact ⟨⟨hbounded, .inl hm⟩, hm⟩
  | _ => exact ⟨trivial, hm⟩

theorem hostArgWords_length (host : CertApi) : (hostArgWords host).length = 8 * host.externalBufferMap.length := by
  simp [hostArgWords, List.length_flatMap, Nat.mul_comm]

theorem ArgsParsed.bounded {next : ℕ} {events : List HostEvent} (h : ArgsParsed host next script args events) :
    ∀ e ∈ events, e.Bounded := by
  cases h with
  | empty hempty => exact nofun
  | refused rc value rest => exact List.forall_mem_singleton.mpr trivial
  | asked devAddr rc value sync rest =>
    refine List.forall_mem_cons.mpr ⟨trivial, List.forall_mem_cons.mpr ⟨?_, List.forall_mem_singleton.mpr trivial⟩⟩
    exact (Nat.zero_add _).le.trans (hostArgWords_length host).le

theorem ArgsParsed.dirty {next : ℕ} {events : List HostEvent} (h : ArgsParsed host next script args events)
    (hm : ∀ id ∈ m.dirty, id = comp.id) : ∀ id ∈ (replay (ringStep hsa) m events).dirty, id = comp.id := by
  cases h with
  | empty hempty => exact hm
  | refused rc value rest => exact hm
  | asked devAddr rc value sync rest =>
    exact dirty_sync (List.forall_mem_cons.mpr ⟨.inr rfl, fun id hid => .inl (hm id hid)⟩)

theorem ArgsParsed.spares {next : ℕ} {events : List HostEvent} (h : ArgsParsed host next script args events)
    (hid : hsa.id ≠ next) (offset length : ℕ) : ∀ e ∈ events, e.Spares hsa offset length := by
  cases h with
  | empty hempty => exact nofun
  | refused rc value rest => exact List.forall_mem_singleton.mpr trivial
  | asked devAddr rc value sync rest =>
    exact List.forall_mem_cons.mpr ⟨trivial, List.forall_mem_cons.mpr ⟨fun h => absurd h.symm hid,
      List.forall_mem_singleton.mpr trivial⟩⟩

/-- The index of a new queue is 0. -/
theorem Handshaken.writeIndex {w₀ : HostWorld} (h : Handshaken host hsa comp args w₀ w) :
    w.state.writeIndex hsa = 0#64 := by
  obtain ⟨_, _, script', events, -, hparsed, hstate, -⟩ := h.events
  have hsplit : handshakeEvents host hsa comp ++ events =
      [.memAllocate hsaQueueSize (some hsa.devAddr), .memAllocate (4 * hsaQueueEntry) (some comp.devAddr),
        .write comp 0 (List.replicate (4 * hsaQueueEntry) 0)] ++ [.write hsa 0 (List.replicate hsaQueueSize 0)] ++
      ((handshakeEvents host hsa comp).drop 4 ++ events) := rfl
  have hzeros : List.replicate hsaQueueSize (0 : UInt8) =
      List.replicate 16 0 ++ (List.replicate 8 0 ++ List.replicate 2064 0) := by
    rw [List.replicate_append_replicate, List.replicate_append_replicate]
    rfl
  have hclear (m : HostMemory) : Contains (store m (hsa.cell 0) (List.replicate hsaQueueSize 0))
    (hsa.cell writeIndexOffset)
      (List.replicate 8 0) := by
    have hwrite := contains_write m hsa 0 (List.replicate hsaQueueSize 0)
    nth_rewrite 2 [hzeros] at hwrite
    exact (contains_cell_append.mp (contains_cell_append.mp hwrite).2).1
  have hspares : ∀ e ∈ (handshakeEvents host hsa comp).drop 4 ++ events, e.Spares hsa writeIndexOffset 8 := by
    refine List.forall_mem_append.mpr ⟨List.forall_mem_append.mpr ⟨?_, fun e he => ?_⟩, hparsed.spares ?_ _ _⟩
    · simp only [List.forall_mem_cons]
      exact ⟨fun _ => .inr (by rw [leBytes_length]; decide), fun _ => .inl (Nat.le_refl _), trivial, nofun⟩
    · obtain ⟨col, -, rfl⟩ := List.mem_map.mp he
      trivial
    · rw [h.hsa_id]
      omega
  have hload : Contains w.state.memory (hsa.cell writeIndexOffset) (List.replicate 8 0) := by
    rw [hstate, HostState.setHostArgs_memory, hsplit, replay_append, replay_concat]
    refine contains_replay ?_ hspares
    rw [hostStep_write]
    exact hclear _
  rw [Contains, List.length_replicate] at hload
  rw [HostState.writeIndex, hload]
  decide

/-- A successful `init_handshake` leaves the observer with the queue. -/
theorem Handshaken.watched (h : Handshaken host hsa comp args ⟨.fresh memory, [], script⟩ w) :
    Watched hsa comp (fun i => memory (hsa.id, i)) (Idle comp) w := by
  obtain ⟨_, _, script', events, -, hparsed, hstate, htrace⟩ := h.events
  obtain ⟨hhsa, hcomp, hnext⟩ := h.fields
  have hbounded : ∀ e ∈ handshakeEvents host hsa comp ++ events, e.Bounded := by
    refine List.forall_mem_append.mpr
      ⟨List.forall_mem_append.mpr ⟨?_, List.forall_mem_append.mpr ⟨?_, fun e he => ?_⟩⟩,
      hparsed.bounded⟩
    · exact List.forall_mem_cons.mpr ⟨trivial, List.forall_mem_singleton.mpr trivial⟩
    · simp only [List.forall_mem_cons, HostEvent.Bounded, List.length_replicate, leBytes_length,
        h.hsa_size, h.comp_size]
      exact ⟨by decide, by decide, by decide, by decide, trivial, nofun⟩
    · obtain ⟨col, -, rfl⟩ := List.mem_map.mp he
      trivial
  have hagrees : Agrees hsa w.state (ringMonitor hsa (fun i => memory (hsa.id, i)) w) := by
    intro i
    rw [hstate, HostState.setHostArgs_memory, ringMonitor, htrace]
    exact Agrees.replay (fun _ => rfl) _ i
  obtain ⟨halong, hop⟩ := passes_bounded hbounded (.start fun i => memory (hsa.id, i)) rfl
  refine ⟨htrace ▸ halong, hhsa, hcomp, ?_, ?_, hagrees, ?_, ?_, ?_⟩
  · rw [h.hsa_id]
    omega
  · rw [h.comp_id]
    omega
  · rw [Ring, ← hagrees.writeIndex, h.writeIndex]
    decide
  · rw [ringMonitor, htrace]
    exact hop
  · rw [ringMonitor, htrace, List.nil_append, replay_append, handshakeEvents, setupEvents,
      replay_append, replay_append]
    refine hparsed.dirty (dirty_replay (fun e he => ?_) (dirty_sync ?_))
    · obtain ⟨col, -, rfl⟩ := List.mem_map.mp he
      trivial
    · simp [replay, ringStep, RingMonitor.start]

end Init

theorem idle_of_initHandshake {memory : HostMemory} {script : List HostAnswer} {w : HostWorld}
    (h : initHandshake host ⟨.fresh memory, [], script⟩ = (.returned 0#32, w)) :
    ∃ hsa comp, hsa.id ≠ comp.id ∧ hsa.size = hsaQueueSize ∧ comp.size = 4 * hsaQueueEntry ∧
      Watched hsa comp (fun i => memory (hsa.id, i)) (Idle comp) w := by
  obtain ⟨hcode, -⟩ | ⟨hsa, comp, args, hshaken⟩ := exists_of_initHandshake h
  · exact absurd rfl hcode
  refine ⟨hsa, comp, ?_, hshaken.hsa_size, hshaken.comp_size, hshaken.watched⟩
  rw [hshaken.hsa_id, hshaken.comp_id]
  exact (Nat.lt_succ_self _).ne

theorem writeIndex_of_initHandshake {w w' : HostWorld} {code : BitVec 32}
    (h : initHandshake host w = (.returned code, w'))
    (hhsa : w'.state.hsaMeminst = some hsa) : w'.state.writeIndex hsa = 0#64 := by
  obtain ⟨-, hnone⟩ | ⟨hsa', comp, args, hshaken⟩ := exists_of_initHandshake h
  · exact nomatch hnone.symm.trans hhsa
  · obtain rfl := Option.some.inj (hshaken.fields.1.symm.trans hhsa)
    exact hshaken.writeIndex

/-- After a successful `init_handshake`, whatever is submitted, whichever allocations fail and whatever the
firmware answers: no call touches a missing queue, the trace meets the ring's conditions, and the index in memory
is the observer's and names a slot. -/
theorem certCalls_ring {host : CertApi} {memory : HostMemory} {script : List HostAnswer} {w : HostWorld}
    (hinit : initHandshake host ⟨.fresh memory, [], script⟩ = (.returned 0#32, w)) (ops : List CertOp) :
    ∃ hsa comp, w.state.hsaMeminst = some hsa ∧ w.state.compSigMeminst = some comp ∧ hsa.id ≠ comp.id ∧
      (certCalls host ops w).1 ≠ .fault ∧
      Along (ringStep hsa) (RingHolds hsa comp) (.start fun i => memory (hsa.id, i))
        (certCalls host ops w).2.trace ∧
      ((certCalls host ops w).2.state.writeIndex hsa).toNat =
        queueWriteIndex (ringMonitor hsa (fun i => memory (hsa.id, i)) (certCalls host ops w).2).queue ∧
      ((certCalls host ops w).2.state.writeIndex hsa).toNat < hsaQueueEntry := by
  obtain ⟨hsa, comp, hne, hsize, hcomp, hidle⟩ := idle_of_initHandshake hinit
  refine ⟨hsa, comp, hidle.hsaMeminst, hidle.compSigMeminst, hne, ?_⟩
  have hcalls : Program.Triple (Watched hsa comp (fun i => memory (hsa.id, i)) (Idle comp)) (certCalls host ops)
      (fun _ => Watched hsa comp (fun i => memory (hsa.id, i)) (Idle comp))
      (Watched hsa comp (fun i => memory (hsa.id, i)) Ring) := by
    unfold certCalls
    exact Program.triple_runAll (certCall host) fun op _ => triple_certCall hne hsize hcomp host op
  obtain ⟨hsafe, hwatched⟩ := (hcalls w hidle).always (fun _ w h => h.imp fun _ hm => hm.ring) fun _ h => h
  refine ⟨hsafe, hwatched.along, hwatched.agrees.writeIndex, ?_⟩
  rw [hwatched.agrees.writeIndex]
  exact hwatched.monitor

/-- An object of one column without external buffers. -/
def sampleHost : CertApi :=
  { startCol := 0, numCols := 1, colShift := 25, externalBufferMap := [], externalBufferAddrMap := [] }

/-- The queue, a command of two columns that succeeds, one whose allocation fails, and a test. -/
def sampleScript : List HostAnswer :=
  [⟨some 0x10000, 0, 0⟩, ⟨some 0x20000, 0, 0⟩,
    ⟨some 0x30000, 0, 0⟩, ⟨some 0x40000, 0, 0⟩, ⟨none, 0, 0⟩, ⟨none, 0, 4⟩, ⟨none, 0, 4⟩, ⟨none, 0, 0⟩,
    ⟨none, 0, 4⟩, ⟨none, 0, 4⟩]

def sampleCalls : List CertOp :=
  [.submitCommand [(0, [1, 2, 3]), (1, [4, 5])], .submitCommand [(0, [1])], .submitTestCommand]

@[irreducible] def sampleInit : Outcome (BitVec 32) × HostWorld :=
  initHandshake sampleHost ⟨.fresh fun _ => 0, [], sampleScript⟩

/-- In the sample the index stays in the ring. -/
theorem certCalls_ring_sample :
    ∃ hsa, sampleInit.2.state.hsaMeminst = some hsa ∧ (certCalls sampleHost sampleCalls sampleInit.2).1 ≠ .fault ∧
      ((certCalls sampleHost sampleCalls sampleInit.2).2.state.writeIndex hsa).toNat < hsaQueueEntry := by
  have hreturned : sampleInit.1 = .returned 0#32 := by decide +kernel
  have hinit : sampleInit = (.returned 0#32, sampleInit.2) := Prod.ext hreturned rfl
  have hrun : sampleInit = initHandshake sampleHost ⟨.fresh fun _ => 0, [], sampleScript⟩ := by
    rw [sampleInit]
  obtain ⟨hsa, comp, hhsa, -, -, hsafe, -, -, hindex⟩ := certCalls_ring (hrun.symm.trans hinit) sampleCalls
  exact ⟨hsa, hhsa, hsafe, hindex⟩

end AieBaremetal.Cert
