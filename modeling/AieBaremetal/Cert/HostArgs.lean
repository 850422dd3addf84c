import AieBaremetal.Cert.HandedColumns
import AieBaremetal.Cert.Ledger

/-!
# The argument block of the external buffers

`init_handshake` writes the addresses of the external buffers to a block of their own, and every
`exec_buf` names its address and length. When the block cannot be allocated or synced the address is
cleared, but the length is still computed from the map, cut to sixteen bits.

The `exec_buf`s are read back from host memory while the command waits. A simulator id without a
registered address counts as registered with address 0, as the source's lookup leaves it.
-/

namespace AieBaremetal.Cert

open Common Common.Program

/-- The `exec_buf`s of columns, from their headers on. -/
def bufsFrom (m : HostMemory) (entry : MemInst) : ℕ → ℕ → List ExecBuf
  | 0, _ => []
  | n + 1, header => execBufBehind m entry header :: bufsFrom m entry n (header + (commonHeaderSize + execBufSize))

/-- The `exec_buf`s of the packet at an offset of the queue. -/
def packetBufs (s : HostState) (hsa : MemInst) (slot : ℕ) : List ExecBuf :=
  let ch := readHeader (blockBytes s.memory hsa) slot
  if ch.indirect = 0#8 then [readExecBuf (blockBytes s.memory hsa) (slot + xrtPacketHeaderSize)]
  else
    match s.live with
    | _ :: entry :: _ =>
      let next := readHeader (blockBytes s.memory entry) 0
      if next.indirect = 0#8 then bufsFrom s.memory entry (ch.count.toNat / indirectEntrySize) 0
      else bufsFrom s.memory entry (next.count.toNat / indirectEntrySize)
        (secondLevelSize (next.count.toNat / indirectEntrySize))
    | _ => []

def ExecBuf.argsAddress (eb : ExecBuf) : ℕ := eb.argsHostAddrHigh.toNat * 2 ^ 32 + eb.argsHostAddrLow.toNat

/-- The address registered for a simulator id. -/
def CertApi.registered (host : CertApi) (simId : ℤ) :
    BitVec 64 := (host.externalBufferAddrMap.lookup simId).getD 0#64

/-- A block holds the addresses of the external buffers in the order of their ids, high words first. -/
def HoldsArgs (host : CertApi) (m : HostMemory) (args : MemInst) : Prop :=
  ∀ i (h : i < host.externalBufferMap.length),
    leNat (load m (args.cell (8 * i)) 4) = (host.registered host.externalBufferMap[i].2).toNat / 2 ^ 32 ∧
      leNat (load m (args.cell (8 * i + 4)) 4) = (host.registered host.externalBufferMap[i].2).toNat % 2 ^ 32

def HostEvent.WritesTo (block : MemInst) : HostEvent → Prop
  | .write inst _ _ => inst.id = block.id
  | _ => False

/-- A block was synced successfully and not written since. -/
def Synced (trace : List HostEvent) (block : MemInst) : Prop :=
  ∃ before after, trace = before ++ .memSyncForDev block (some 0#32) :: after ∧ ∀ e ∈ after, ¬ e.WritesTo block

/-- An `exec_buf` describes an argument block that exists. -/
def DescribesArgs (host : CertApi) (w : HostWorld) (eb : ExecBuf) : Prop :=
  eb.argsLen = 0#16 ∨
    eb.argsLen.toNat = 8 * host.externalBufferMap.length ∧
      ∃ args ∈ w.state.live, eb.argsAddress = args.devAddr.toNat ∧ Synced w.trace args ∧
        HoldsArgs host w.state.memory args

/-- Answers with an argument block: a third block is allocated, and its sync succeeds. -/
def ArgsGranted (script : List HostAnswer) : Prop :=
  ∃ hsa comp args sync rest, script = hsa :: comp :: args :: sync :: rest ∧ args.devAddr.isSome ∧ sync.rc = 0#32

section Packet

variable {host : CertApi} {hsa comp : MemInst} {s s' : HostState} {m : HostMemory}
    {entry ctrlCode indirect : MemInst}
  {cols : Columns}

theorem bufsFrom_columns {indirectOffset entryVa ctrlSize : ℕ} {entryDma : BitVec 64}
    (hlaid : ColumnsLaid (execBufAt host s) entry ctrlCode indirect m cols indirectOffset
      entryVa entryDma ctrlSize) :
    (bufsFrom m entry cols.length entryVa).length = cols.length ∧
      ∀ eb ∈ bufsFrom m entry cols.length entryVa, ∃ ctrlCodeDma, eb = execBufAt host s ctrlCodeDma := by
  induction cols generalizing indirectOffset entryVa entryDma ctrlSize with
  | nil => exact ⟨rfl, nofun⟩
  | cons column rest ih =>
    obtain ⟨-, -, hleaf, hrest⟩ := hlaid
    obtain ⟨hlength, hall⟩ := ih hrest
    have hbuf := (contains_cell_append.mp hleaf).2
    rw [CommonHeader.bytes_length] at hbuf
    refine ⟨congrArg (· + 1) hlength,
      List.forall_mem_cons.mpr ⟨⟨ctrlCode.devAddr + BitVec.ofNat 64 ctrlSize, ?_⟩, hall⟩⟩
    exact readExecBuf_of_holdsAt (holdsAt_blockBytes hbuf)

/-- While a command waits, its packet has one `exec_buf` for each column. -/
theorem packetBufs_waiting {parsed : Columns} (hop : (CertOp.submitCommand parsed).unsupported = false)
    (hid : hsa.id < s.nextId) {grants : List (ℕ × BitVec 64)}
    (hsizes : grants.map Prod.fst = blockSizes (.submitCommand parsed))
    (hs' : s' = replay hostStep s (waitingEvents host hsa comp s (.submitCommand parsed) grants)) :
    (packetBufs s' hsa (hqEntryOffset (s.writeIndex hsa).toNat)).length = (loggedColumns parsed).length ∧
      ∀ eb ∈ packetBufs s' hsa (hqEntryOffset (s.writeIndex hsa).toNat), ∃ ctrlCodeDma, eb =
        execBufAt host s ctrlCodeDma := by
  rcases grants_cases hsizes with ⟨hone, ctrlCodeDma, rfl⟩ | ⟨hseveral, entryDma, ctrlCodeDma, rfl⟩
  · obtain ⟨hheader, hbuf⟩ := @directState_packet host hsa comp s parsed ctrlCodeDma
    have hread : packetBufs s' hsa (hqEntryOffset (s.writeIndex hsa).toNat) = [execBufAt host s ctrlCodeDma] := by
      simp only [packetBufs, hs', hheader, hbuf]
      rfl
    rw [hread]
    exact ⟨hone.symm, List.forall_mem_singleton.mpr ⟨ctrlCodeDma, rfl⟩⟩
  · rw [waitingEvents_two, ← publishedState_eq] at hs'
    obtain ⟨hmax, hmin⟩ : (loggedColumns parsed).length ≤ 24 ∧ (loggedColumns parsed).length ≠ 0 := by
      simpa [CertOp.unsupported] using hop
    have hlive : s'.live = ctrlCodeBlock s ctrlCodeDma (loggedColumns parsed) ::
      entryBlock s entryDma (loggedColumns parsed) :: s.live := by rw [hs']; rfl
    obtain ⟨hheader, hnext⟩ := @published_headers host hsa comp s (loggedColumns parsed) entryDma ctrlCodeDma hid
      (Nat.pos_of_ne_zero hmin)
    have hlaid := @published_columns host hsa comp s entryDma ctrlCodeDma (loggedColumns parsed) hid
    have hread : packetBufs s' hsa (hqEntryOffset (s.writeIndex hsa).toNat) =
        bufsFrom s'.memory (entryBlock s entryDma (loggedColumns parsed)) (loggedColumns parsed).length
          (leafStart (loggedColumns parsed).length) := by
      rw [← hs'] at hheader hnext
      by_cases hfew : (loggedColumns parsed).length ≤ hsaMaxLevel1IndirectEntries
      · simp only [packetBufs, hlive, hheader, hnext, if_pos hfew, execBufHeader_count hmax, leafStart]
        rfl
      · simp only [packetBufs, hlive, hheader, hnext, if_neg hfew, execBufHeader_count hmax, leafStart]
        rfl
    rw [hread, hs']
    exact bufsFrom_columns hlaid

end Packet

section Block

variable {host : CertApi} {hsa comp : MemInst} {args : Option MemInst} {w w' : HostWorld}

def argsDma (args : Option MemInst) : BitVec 64 := (args.map MemInst.devAddr).getD 0#64

/-- What the object knows of its argument block. -/
structure ArgsKept (host : CertApi) (hsa comp : MemInst) (args : Option MemInst) (w : HostWorld) : Prop where
  hsaMeminst : w.state.hsaMeminst = some hsa
  compSigMeminst : w.state.compSigMeminst = some comp
  low : w.state.hostArgsLow = (argsDma args).setWidth 32
  high : w.state.hostArgsHigh = (argsDma args >>> 32).setWidth 32
  missing : args = none → ∀ inst, .memSyncForDev inst (some 0#32) ∉ w.trace
  live : ∀ block ∈ args, block ∈ w.state.live
  owned : ∀ block ∈ args, ¬ CallOwns hsa comp w.state block
  synced : ∀ block ∈ args, Synced w.trace block
  bytes : ∀ block ∈ args, Contains w.state.memory (block.cell 0) (hostArgWords host)

/-- Calls keep the argument block. -/
theorem ArgsKept.frame (h : ArgsKept host hsa comp args w) (hframe : Frames hsa comp w w') :
    ArgsKept host hsa comp args w' := by
  obtain ⟨events, hevents, hsince⟩ := hframe
  obtain ⟨memory, live, nextId, hnext, hreplay⟩ := replay_fields w.state events
  have hstate := hsince.state.trans hreplay
  refine ⟨by rw [hstate]; exact h.hsaMeminst, by rw [hstate]; exact h.compSigMeminst, by rw [hstate]; exact h.low,
    by rw [hstate]; exact h.high, ?_, ?_, ?_, ?_, ?_⟩
  · intro hnone inst hmem
    rw [hsince.trace, List.mem_append] at hmem
    rcases hmem with hmem | hmem
    · exact h.missing hnone inst hmem
    · exact nomatch hevents _ hmem
  · intro block hblock
    rw [hsince.state, live_replay hevents]
    · exact h.live block hblock
    · exact Nat.lt_of_not_le fun hle => h.owned block hblock (.inr (.inr hle))
  · rintro block hblock (hid | hid | hle)
    · exact h.owned block hblock (.inl hid)
    · exact h.owned block hblock (.inr (.inl hid))
    · rw [hstate] at hle
      exact h.owned block hblock (.inr (.inr (hnext.trans hle)))
  · intro block hblock
    obtain ⟨before, after, hsplit, hafter⟩ := h.synced block hblock
    refine ⟨before, after ++ events, by rw [hsince.trace, hsplit, List.append_assoc, List.cons_append], ?_⟩
    refine List.forall_mem_append.mpr ⟨hafter, fun e he hwrites => ?_⟩
    have hmarks := (hevents e he).marks (h.owned block hblock)
    cases e with
    | write inst offset bytes => exact hmarks hwrites
    | _ => exact hwrites
  · intro block hblock
    rw [hsince.state]
    exact (h.bytes block hblock).congr fun i _ =>
      memory_replay (fun e he => (hevents e he).marks (h.owned block hblock)) _

theorem ArgsKept.certCalls (h : ArgsKept host hsa comp args w) {ops : List CertOp} {codes : List (BitVec 32)}
    (hrun : certCalls host ops w = (.returned codes, w')) : ArgsKept host hsa comp args w' := by
  refine certCalls_keeps (fun {w w'} op code h hcall => ?_) h hrun
  obtain ⟨hsa', comp', hhsa, hcomp, hframes⟩ := certCall_returned hcall
  obtain rfl := Option.some.inj (h.hsaMeminst.symm.trans hhsa)
  obtain rfl := Option.some.inj (h.compSigMeminst.symm.trans hcomp)
  exact h.frame hframes

/-- Syncs whose result is looked at. -/
def HostEvent.checksSync : HostEvent → Bool
  | .memSyncForDev _ (some _) => true
  | _ => false

/-- After an `init_handshake` that made a queue, the argument block is there if and only if it was granted. -/
theorem argsKept_of_initHandshake {memory : HostMemory} {script : List HostAnswer} {code : BitVec 32}
    (h : initHandshake host ⟨.fresh memory, [], script⟩ = (.returned code, w))
    (hhsa : w.state.hsaMeminst = some hsa) (hcomp : w.state.compSigMeminst = some comp) :
    ∃ args, ArgsKept host hsa comp args w ∧ (host.externalBufferMap ≠ [] → (args.isSome ↔ ArgsGranted script)) := by
  obtain ⟨-, hnone⟩ | ⟨hsa', comp', args, hshaken⟩ := exists_of_initHandshake h
  · cases hnone.symm.trans hhsa
  obtain rfl := Option.some.inj (hhsa.symm.trans hshaken.fields.1)
  obtain rfl := Option.some.inj (hcomp.symm.trans hshaken.fields.2.1)
  obtain ⟨answer, answer', script', events, hscript, hparsed, hstate, htrace⟩ := hshaken.events
  obtain rfl : script = answer :: answer' :: script' := hscript
  have hgranted : ArgsGranted (answer :: answer' :: script') ↔
      ∃ block sync rest, script' = block :: sync :: rest ∧ block.devAddr.isSome ∧ sync.rc = 0#32 := by
    constructor
    · rintro ⟨_, _, block, sync, rest, heq, hgrant⟩
      cases heq
      exact ⟨block, sync, rest, rfl, hgrant⟩
    · rintro ⟨block, sync, rest, rfl, hgrant⟩
      exact ⟨answer, answer', block, sync, rest, rfl, hgrant⟩
  have hunchecked (inst : MemInst) (rc : BitVec 32) : .memSyncForDev inst (some rc) ∉
    handshakeEvents host hsa comp := by
    simp [handshakeEvents, setupEvents]
  have hmissing (hargs : args = none) (hevents : ∀ inst, .memSyncForDev inst (some 0#32) ∉ events) :
      ArgsKept host hsa comp args w := by
    subst hargs
    refine ⟨hhsa, hcomp, by rw [hstate]; rfl, by rw [hstate]; rfl, fun _ inst hmem => ?_, by simp, by simp, by
      simp, by simp⟩
    rw [htrace, List.nil_append] at hmem
    rcases List.mem_append.mp hmem with hmem | hmem
    · exact hunchecked inst _ hmem
    · exact hevents inst hmem
  refine ⟨args, ?_⟩
  rw [hgranted]
  cases hparsed with
  | empty hempty => exact ⟨hmissing rfl (by simp), fun hne => absurd hempty hne⟩
  | refused rc value rest =>
    refine ⟨hmissing rfl (by simp), fun _ => ⟨by simp, ?_⟩⟩
    rintro ⟨block, sync, rest', heq, hsome, -⟩
    cases heq
    cases hsome
  | asked devAddr rc value sync rest =>
    by_cases hrc : sync.rc = 0#32
    · have hnext :
        (replay hostStep (HostState.withQueue (.fresh memory) hsa comp) (handshakeEvents host hsa comp)).nextId =
          2 := by
        rw [handshakeEvents, replay_append, setupEvents_nextId]
        rfl
      rw [if_pos hrc] at hstate ⊢
      rw [replay_append] at hstate
      refine ⟨⟨hhsa, hcomp, by rw [hstate]; rfl, by rw [hstate]; rfl, by simp, ?_, ?_, ?_, ?_⟩,
        fun _ => ⟨fun _ => ⟨_, sync, rest, rfl, rfl, hrc⟩, fun _ => rfl⟩⟩
      · rintro block ⟨⟩
        rw [hstate]
        exact List.mem_cons.mpr (.inl (by rw [hnext]; rfl))
      · rintro block ⟨⟩ (hid | hid | hid)
        · cases hid.trans hshaken.hsa_id
        · cases hid.trans hshaken.comp_id
        · rw [hstate] at hid
          change _ + 1 ≤ _ at hid
          rw [hnext] at hid
          exact Nat.not_succ_le_self _ hid
      · rintro block ⟨⟩
        exact ⟨handshakeEvents host hsa comp ++ [_, _], [], by rw [htrace, hrc, List.append_assoc]; rfl, by simp⟩
      · rintro block ⟨⟩
        rw [hstate]
        exact contains_write _ _ 0 _
    · rw [if_neg hrc] at hmissing ⊢
      refine ⟨hmissing rfl (by simp [Ne.symm hrc]), fun _ => ⟨by simp, ?_⟩⟩
      rintro ⟨block, sync', rest', heq, -, hzero⟩
      cases heq
      exact absurd hzero hrc

end Block

section Describe

variable {host : CertApi} {hsa comp : MemInst} {args : Option MemInst} {w w' : HostWorld}

theorem contains_of_flatMap {A : Type} {m : HostMemory} {inst : MemInst} {f : A → List UInt8}
    (hf : ∀ a, (f a).length = 8) {list : List A} {offset : ℕ}
    (h : Contains m (inst.cell offset) (list.flatMap f)) {i : ℕ} (hi : i < list.length) :
    Contains m (inst.cell (offset + 8 * i)) (f list[i]) := by
  induction list generalizing offset i with
  | nil => exact absurd hi (Nat.not_lt_zero i)
  | cons a rest ih =>
    rw [List.flatMap_cons, contains_cell_append, hf] at h
    cases i with
    | zero => exact h.1
    | succ i =>
      have hrest := ih h.2 (Nat.lt_of_succ_lt_succ hi)
      rwa [Nat.add_assoc, Nat.add_comm 8, ← Nat.mul_succ] at hrest

theorem holdsArgs_of_contains {m : HostMemory} {block : MemInst}
    (h : Contains m (block.cell 0) (hostArgWords host)) :
    HoldsArgs host m block := by
  intro i hi
  have hword : Contains m (block.cell (0 + 8 * i))
      (leBytes 4 (host.registered host.externalBufferMap[i].2 >>> 32).toNat ++
        leBytes 4 (host.registered host.externalBufferMap[i].2).toNat) :=
    contains_of_flatMap (fun _ => by simp) h hi
  rw [Nat.zero_add, contains_cell_append, leBytes_length] at hword
  obtain ⟨hhigh, hlow⟩ := hword
  rw [Contains, leBytes_length] at hhigh hlow
  have hlt := (host.registered host.externalBufferMap[i].2).isLt
  rw [hhigh, hlow, leNat_leBytes, leNat_leBytes, BitVec.toNat_ushiftRight, Nat.shiftRight_eq_div_pow]
  exact ⟨Nat.mod_eq_of_lt (by omega), rfl⟩

/-- An `exec_buf` describes an existing argument block if and only if its length wraps to 0, or it fits and the
block is there. -/
theorem ArgsKept.describes_iff (h : ArgsKept host hsa comp args w) (ctrlCodeDma : BitVec 64) {s : HostState}
    (hlow : s.hostArgsLow = w.state.hostArgsLow) (hhigh : s.hostArgsHigh = w.state.hostArgsHigh) :
    DescribesArgs host w (execBufAt host s ctrlCodeDma) ↔ 8 * host.externalBufferMap.length % 2 ^ 16 = 0 ∨
        8 * host.externalBufferMap.length < 2 ^ 16 ∧ args.isSome := by
  have hlen : (execBufAt host s ctrlCodeDma).argsLen.toNat = 8 * host.externalBufferMap.length % 2 ^ 16 :=
    BitVec.toNat_ofNat _ _
  have hzero : (execBufAt host s ctrlCodeDma).argsLen = 0#16 ↔ 8 * host.externalBufferMap.length % 2 ^ 16 = 0 := by
    rw [← BitVec.toNat_inj, hlen]
    rfl
  rw [DescribesArgs, hzero, hlen]
  refine or_congr_right' fun hne => and_congr ⟨fun h => ?_, Nat.mod_eq_of_lt⟩ ?_
  · rw [← h]
    exact Nat.mod_lt _ (by decide)
  have hbuffers : host.externalBufferMap ≠ [] := by
    intro hempty
    rw [hempty] at hne
    exact hne rfl
  constructor
  · rintro ⟨block, -, -, ⟨before, after, htrace, -⟩, -⟩
    rw [Option.isSome_iff_ne_none]
    intro hnone
    exact h.missing hnone block (htrace ▸ List.mem_append_right _ List.mem_cons_self)
  · intro hsome
    obtain ⟨block, rfl⟩ := Option.isSome_iff_exists.mp hsome
    refine ⟨block, h.live block rfl, ?_, h.synced block rfl, holdsArgs_of_contains (h.bytes block rfl)⟩
    have hlt := block.devAddr.isLt
    rw [ExecBuf.argsAddress, execBufAt, if_neg hbuffers, if_neg hbuffers, hlow, hhigh, h.low, h.high,
      BitVec.toNat_setWidth, BitVec.toNat_setWidth, BitVec.toNat_ushiftRight, Nat.shiftRight_eq_div_pow]
    change block.devAddr.toNat / 2 ^ 32 % 2 ^ 32 * 2 ^ 32 + block.devAddr.toNat % 2 ^ 32 = block.devAddr.toNat
    omega

/-- After `init_handshake` of a fresh object and any calls, in every command that waits with its packet published:
there is one `exec_buf` for each column, and each describes an argument block that exists if and only if the
length of the block is a multiple of 2^16, or it is less than 2^16 and the block was allocated and synced. -/
theorem submitCommand_describesArgs_iff {memory : HostMemory} {script : List HostAnswer} {code : BitVec 32}
    {w₀ : HostWorld} (hinit : initHandshake host ⟨.fresh memory, [], script⟩ = (.returned code, w₀))
    (hhsa : w₀.state.hsaMeminst = some hsa) (hcomp : w₀.state.compSigMeminst = some comp) {ops : List CertOp}
    {codes : List (BitVec 32)} (hcalls : certCalls host ops w₀ = (.returned codes, w)) {parsed : Columns}
    (hrun : submitCommand host parsed w = (.blocked, w')) (hpublished : (callLedger hsa comp w w').published = true)
    (hopen : (callLedger hsa comp w w').completed = false) :
    (packetBufs w'.state hsa (hqEntryOffset (w.state.writeIndex hsa).toNat)).length =
      (loggedColumns parsed).length ∧
      ∀ eb ∈ packetBufs w'.state hsa (hqEntryOffset (w.state.writeIndex hsa).toNat), DescribesArgs host w' eb ↔
        8 * host.externalBufferMap.length % 2 ^ 16 = 0 ∨
          8 * host.externalBufferMap.length < 2 ^ 16 ∧ ArgsGranted script := by
  obtain ⟨args, hkept₀, hgranted⟩ := argsKept_of_initHandshake hinit hhsa hcomp
  have hkept := hkept₀.certCalls hcalls
  have hbetween : Between host w := certCalls_keeps .call (.initHandshake (.fresh memory script) hinit) hcalls
  obtain ⟨hne, hlt, -⟩ := hbetween.queueApart hsa comp hkept.hsaMeminst hkept.compSigMeminst
  have hmeets := certMethod_runs host (.submitCommand parsed) hkept.hsaMeminst hkept.compSigMeminst
  change Program.Meets _ _ (submitCommand host parsed w) at hmeets
  rw [hrun] at hmeets
  obtain ⟨events, hpends, hsince⟩ := hmeets
  obtain ⟨grants, hop, hsizes, hstate⟩ := hpends.waiting hne hlt hsince hpublished hopen
  obtain ⟨hlength, hbufs⟩ := packetBufs_waiting hop hlt hsizes hstate
  have hkept' := hkept.frame ⟨events, hpends.callEvents, hsince⟩
  refine ⟨hlength, fun eb heb => ?_⟩
  obtain ⟨ctrlCodeDma, rfl⟩ := hbufs eb heb
  have hiff := hkept'.describes_iff ctrlCodeDma (hkept.low.trans hkept'.low.symm)
    (hkept.high.trans hkept'.high.symm)
  rw [hiff]
  refine or_congr_right' fun hne => and_congr_right' (hgranted ?_)
  intro hempty
  rw [hempty] at hne
  exact hne rfl

def argsHost : CertApi :=
  { startCol := 0, numCols := 1, colShift := 25, externalBufferMap := [(7, 3)],
    externalBufferAddrMap := [(3, 0x1122334455667788)] }

def argsScript (granted : Bool) : List HostAnswer :=
  [⟨some 0x10000, 0, 0⟩, ⟨some 0x20000, 0, 0⟩] ++
    (if granted then [⟨some 0x50000, 0, 0⟩, ⟨none, 0, 0⟩] else [⟨none, 0, 0⟩]) ++ [⟨some 0x30000, 0, 0⟩]

@[irreducible] def argsInit (granted : Bool) : Outcome (BitVec 32) × HostWorld :=
  initHandshake argsHost ⟨.fresh fun _ => 0, [], argsScript granted⟩

@[irreducible] def argsCommand (granted : Bool) : Outcome (BitVec 32) × HostWorld :=
  submitAt argsHost sampleQueue sampleCompletion 0#64 [(0, [7])] (argsInit granted).2

def argsBuf (args : BitVec 32) : ExecBuf := ⟨0, 0x30000, 0, 8, args, 0⟩

theorem argsInit_returned (granted : Bool) :
    initHandshake argsHost ⟨.fresh fun _ => 0, [], argsScript granted⟩ = (.returned 0#32, (argsInit granted).2) ∧
      (argsInit granted).2.state.hsaMeminst = some sampleQueue ∧
      (argsInit granted).2.state.compSigMeminst = some sampleCompletion := by
  have hreturned : (argsInit granted).1 = .returned 0#32 := by
    revert granted
    decide +kernel
  refine ⟨by rw [← hreturned, argsInit], ?_, ?_⟩
  · revert granted
    decide +kernel
  · revert granted
    decide +kernel

theorem argsCommand_waits (granted : Bool) :
    (argsInit granted).2.state.writeIndex sampleQueue = 0#64 ∧
      submitCommand argsHost [(0, [7])] (argsInit granted).2 = (.blocked, (argsCommand granted).2) := by
  obtain ⟨hinit, hhsa, hcomp⟩ := argsInit_returned granted
  have hindex := writeIndex_of_initHandshake hinit hhsa
  have hblocked : ∀ granted, (argsCommand granted).1 = .blocked := by decide +kernel
  exact ⟨hindex, by rw [submitCommand_apply hhsa hcomp hindex, ← hblocked granted, argsCommand]⟩

/-- With its argument block granted the `exec_buf` describes it. -/
theorem submitCommand_describesArgs_sample :
    packetBufs (argsCommand true).2.state sampleQueue (hqEntryOffset 0) = [argsBuf 0x50000] ∧
      DescribesArgs argsHost (argsCommand true).2 (argsBuf 0x50000) := by
  obtain ⟨hinit, hhsa, hcomp⟩ := argsInit_returned true
  obtain ⟨hindex, hrun⟩ := argsCommand_waits true
  have hcalls : certCalls argsHost [] (argsInit true).2 = (.returned [], (argsInit true).2) := by
    rw [certCalls]
    rfl
  have hledger : (callLedger sampleQueue sampleCompletion (argsInit true).2 (argsCommand true).2).published = true ∧
      (callLedger sampleQueue sampleCompletion (argsInit true).2 (argsCommand true).2).completed = false := by
    rw [callLedger, hindex]
    decide +kernel
  have hbufs : packetBufs (argsCommand true).2.state sampleQueue (hqEntryOffset 0) = [argsBuf 0x50000] := by
    decide +kernel
  obtain ⟨-, hiff⟩ := submitCommand_describesArgs_iff hinit hhsa hcomp hcalls hrun hledger.1 hledger.2
  rw [hindex] at hiff
  refine ⟨hbufs, (hiff (argsBuf 0x50000) ?_).mpr (.inr ⟨by decide, ?_⟩)⟩
  · exact hbufs ▸ List.mem_cons_self
  · exact ⟨_, _, _, _, _, rfl, rfl, rfl⟩

/-- With the argument block refused the command still announces eight bytes, at address 0. -/
theorem refused_args_described :
    submitCommand argsHost [(0, [7])] (argsInit false).2 = (.blocked, (argsCommand false).2) ∧
      packetBufs (argsCommand false).2.state sampleQueue
        (hqEntryOffset ((argsInit false).2.state.writeIndex sampleQueue).toNat) = [argsBuf 0] ∧
      (argsBuf 0).argsLen = 8#16 ∧ (argsBuf 0).argsAddress = 0 ∧
      ¬ DescribesArgs argsHost (argsCommand false).2 (argsBuf 0) := by
  obtain ⟨hindex, hrun⟩ := argsCommand_waits false
  have hchecked : (argsCommand false).2.trace.any HostEvent.checksSync = false := by decide +kernel
  refine ⟨hrun, ?_, rfl, rfl, ?_⟩
  · rw [hindex]
    decide +kernel
  rintro (hzero | ⟨-, block, -, -, ⟨before, after, htrace, -⟩, -⟩)
  · exact nomatch hzero
  · rw [htrace, List.any_append, List.any_cons] at hchecked
    simp [HostEvent.checksSync] at hchecked

end Describe

end AieBaremetal.Cert
