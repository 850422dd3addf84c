import AieBaremetal.Cert.Handshake
import AieBaremetal.Cert.PacketPieces

/-!
# What a call leaves alone

A call of a `cert_api` object writes to the queue, to the completion words and to blocks it allocates
itself, and frees only the latter. Every other block keeps its bytes and stays allocated, and the
fields of the object do not change. Between calls queue and completion words are therefore the two
blocks of `init_handshake`, however often it was called.
-/

namespace AieBaremetal.Cert

open Common Common.Program

def submitAt (host : CertApi) (hsa comp : MemInst) (index : BitVec 64) (parsed : Columns) :
    CertProgram (BitVec 32) := do
  memSyncForCpu hsa
  clearCompletion comp index
  wakeupCert host
  submitColumns host hsa comp index (compSigDmaAt comp index) (loggedColumns parsed)

theorem submitCommand_apply {host : CertApi} {w : HostWorld} {hsa comp : MemInst} {index : BitVec 64}
    (hhsa : w.state.hsaMeminst = some hsa) (hcomp : w.state.compSigMeminst = some comp)
    (hindex : w.state.writeIndex hsa = index) (parsed : Columns) :
    submitCommand host parsed w = submitAt host hsa comp index parsed w := by
  subst hindex
  rw [submitCommand, getState_bind, ofOption_bind hhsa, ofOption_bind hcomp]
  rfl

section Packet

/-- The preparation of a packet writes to its slot and to the blocks of the call, and syncs the blocks. -/
def HostEvent.Prepares (hsa : MemInst) (slot : ℕ) (blocks : List MemInst) : HostEvent → Prop
  | .write inst offset bytes =>
    inst = hsa ∧ slot ≤ offset ∧ offset + bytes.length ≤ slot + hostQueuePacketSize ∨
      inst ∈ blocks ∧ offset + bytes.length ≤ inst.size
  | .memSyncForDev inst rc => inst ∈ blocks ∧ rc = none
  | _ => False

variable (host : CertApi) {hsa comp : MemInst} {s : HostState} {op : CertOp} {parsed : Columns}
  {grants : List (ℕ × BitVec 64)}

theorem grants_cases (h : grants.map Prod.fst = blockSizes (.submitCommand parsed)) :
    (loggedColumns parsed).length = 1 ∧
    (∃ devAddr, grants = [((columnCode (loggedColumns parsed) 0).length, devAddr)]) ∨
      (loggedColumns parsed).length ≠ 1 ∧ ∃ devAddr devAddr', grants =
        [(entryBlockSize (loggedColumns parsed).length, devAddr),
          (ctrlCodeSize (loggedColumns parsed), devAddr')] := by
  rw [blockSizes] at h
  split at h
  · obtain ⟨⟨_, devAddr⟩, rfl, rfl⟩ := List.map_eq_singleton_iff.mp h
    exact .inl ⟨by assumption, devAddr, rfl⟩
  · obtain ⟨⟨_, devAddr⟩, rest, rfl, rfl, hrest⟩ := List.map_eq_cons_iff.mp h
    obtain ⟨⟨_, devAddr'⟩, rfl, rfl⟩ := List.map_eq_singleton_iff.mp hrest
    exact .inr ⟨by assumption, devAddr, devAddr', rfl⟩

theorem headerEvents_prepares (header : CommonHeader) (blocks : List MemInst) :
    ∀ e ∈ headerEvents hsa comp s header,
    e.Prepares hsa (hqEntryOffset (s.writeIndex hsa).toNat) blocks := by
  refine List.forall_mem_cons.mpr
    ⟨.inl ⟨rfl, Nat.le_refl _, ?_⟩, List.forall_mem_singleton.mpr (.inl ⟨rfl, Nat.le_refl _, ?_⟩)⟩
  · rw [List.length_replicate]
  · rw [List.length_append, CommonHeader.bytes_length, leBytes_length]
    exact Nat.add_le_add_left (by decide) _

/-- What a call writes before it publishes stays in its slot and its own blocks. -/
theorem preparing_prepares (hsizes : grants.map Prod.fst = blockSizes op) :
    ∀ e ∈ preparing host hsa comp s op (blocksFrom s.nextId grants),
      e.Prepares hsa (hqEntryOffset (s.writeIndex hsa).toNat) (blocksFrom s.nextId grants) := by
  cases op with
  | submitTestCommand => exact headerEvents_prepares _ _
  | submitCommand parsed =>
    rcases grants_cases hsizes with ⟨-, devAddr, rfl⟩ | ⟨-, entryDma, ctrlDma, rfl⟩
    · refine List.forall_mem_append.mpr ⟨List.forall_mem_append.mpr ⟨?_, headerEvents_prepares _ _⟩, ?_⟩
      · refine List.forall_mem_cons.mpr
          ⟨.inr ⟨List.mem_cons_self, ?_⟩, List.forall_mem_singleton.mpr ⟨List.mem_cons_self, rfl⟩⟩
        exact (Nat.zero_add _).le
      · refine List.forall_mem_singleton.mpr (.inl ⟨rfl, Nat.le_add_right _ _, ?_⟩)
        rw [ExecBuf.bytes_length, Nat.add_assoc]
        exact Nat.add_le_add_left (by decide) _
    · refine List.forall_mem_append.mpr ⟨List.forall_mem_append.mpr ⟨?_, ?_⟩, ?_⟩
      · exact List.forall_mem_singleton.mpr (.inl ⟨rfl, Nat.le_refl _, by rw [List.length_replicate]⟩)
      · intro e he
        obtain ⟨piece, hpiece, he⟩ := List.mem_flatMap.mp he
        obtain ⟨offset, bytes, rfl, hlow, hhigh⟩ := pieceWrites_within host s _ he
        obtain ⟨hblock, hlow', hhigh'⟩ | ⟨hblock, hhigh'⟩ := piece_place (b := slotBlocks hsa s
          (entryBlock s entryDma (loggedColumns parsed))
            (ctrlCodeBlock s ctrlDma (loggedColumns parsed))) rfl rfl hpiece
        · exact .inl ⟨hblock, hlow'.trans hlow, hhigh.trans hhigh'⟩
        · exact .inr ⟨hblock, hhigh.trans hhigh'⟩
      · exact List.forall_mem_cons.mpr ⟨⟨List.mem_cons_self, rfl⟩,
          List.forall_mem_singleton.mpr ⟨List.mem_cons_of_mem _ List.mem_cons_self, rfl⟩⟩

end Packet

section Frame

/-- The blocks a call may write to: the queue, the completion words, or later blocks. -/
def CallOwns (hsa comp : MemInst) (s₀ : HostState) (inst : MemInst) : Prop :=
  inst.id = hsa.id ∨ inst.id = comp.id ∨ s₀.nextId ≤ inst.id

/-- A call writes to its own blocks, frees those it allocated and syncs. -/
def CallEvent (hsa comp : MemInst) (s₀ : HostState) : HostEvent → Prop
  | .write inst _ _ => CallOwns hsa comp s₀ inst
  | .memFree inst => s₀.nextId ≤ inst.id
  | .memSyncForDev _ rc => rc = none
  | _ => True

/-- A world of a call that began in `w₀`. -/
def Frames (hsa comp : MemInst) (w₀ w : HostWorld) : Prop :=
  ∃ events, (∀ e ∈ events, CallEvent hsa comp w₀.state e) ∧ Since hostStep w₀ events w

variable {hsa comp : MemInst} {s : HostState} {op : CertOp} {grants : List (ℕ × BitVec 64)}
    {events : List HostEvent}

theorem live_replay (h : ∀ e ∈ events, CallEvent hsa comp s e) {inst : MemInst} (hinst : inst.id < s.nextId) :
    inst ∈ (replay hostStep s events).live ↔ inst ∈ s.live := by
  induction events using List.reverseRecOn with
  | nil => exact Iff.rfl
  | append_singleton events e ih =>
    obtain ⟨hevents, he⟩ := List.forall_mem_append.mp h
    rw [replay_concat, ← ih hevents]
    obtain ⟨memory, live, nextId, hnext, hreplay⟩ := replay_fields s events
    rw [hreplay]
    rcases e with _ | ⟨size, _ | devAddr⟩ | freed | _ | _ | _ | _ | _ | _ | _ | _
    case memAllocate.some =>
      refine List.mem_cons.trans (or_iff_right ?_)
      rintro rfl
      exact absurd hnext (Nat.not_le.mpr hinst)
    case memFree =>
      refine List.mem_erase_of_ne ?_
      rintro rfl
      exact absurd (he _ List.mem_cons_self) (Nat.not_le.mpr hinst)
    all_goals exact Iff.rfl

def HostEvent.Marks (P : ℕ → Prop) : HostEvent → Prop
  | .write inst _ _ => P inst.id
  | _ => True

theorem memory_replay {inst : MemInst} (h : ∀ e ∈ events, e.Marks (· ≠ inst.id)) (i : ℕ) :
    (replay hostStep s events).memory (inst.id, i) = s.memory (inst.id, i) := by
  induction events using List.reverseRecOn with
  | nil => rfl
  | append_singleton events e ih =>
    obtain ⟨hevents, he⟩ := List.forall_mem_append.mp h
    rw [replay_concat, ← ih hevents]
    rcases e with _ | ⟨size, _ | devAddr⟩ | _ | _ | _ | ⟨other, offset, bytes⟩ | _ | _ | _ | _ | _
    case write => exact store_of_ne _ fun j _ heq => he _ List.mem_cons_self (congrArg Prod.fst heq)
    all_goals rfl

theorem CallEvent.marks {e : HostEvent} (h : CallEvent hsa comp s e) {inst : MemInst}
    (hinst : ¬ CallOwns hsa comp s inst) :
    e.Marks (· ≠ inst.id) := by
  cases e with
  | write other offset bytes =>
    intro hid
    rw [CallOwns, ← hid] at hinst
    exact hinst h
  | _ => trivial

theorem le_id_of_mem_blocksFrom {next : ℕ} {block : MemInst} (h : block ∈ blocksFrom next grants) :
    next ≤ block.id := by
  induction grants using List.reverseRecOn with
  | nil => exact nomatch h
  | append_singleton grants grant ih =>
    rw [blocksFrom_concat] at h
    obtain rfl | h := List.mem_cons.mp h
    · exact Nat.le_add_right _ _
    · exact ih h

theorem opening_callEvents (host : CertApi) : ∀ e ∈ opening host hsa comp s op, CallEvent hsa comp s e := by
  refine List.forall_mem_append.mpr ⟨?_, ?_⟩
  · simp only [List.forall_mem_cons]
    exact ⟨trivial, trivial, .inr (.inl rfl), rfl, nofun⟩
  · cases op with
    | submitCommand parsed =>
      intro e he
      obtain ⟨i, -, rfl⟩ := List.mem_map.mp he
      trivial
    | submitTestCommand => exact nofun

theorem grantEvents_callEvents (grants : List (ℕ × BitVec 64)) :
    ∀ e ∈ grantEvents grants, CallEvent hsa comp s e := by
  intro e he
  obtain ⟨grant, -, rfl⟩ := List.mem_map.mp he
  trivial

theorem memFree_callEvents : ∀ e ∈ (blocksFrom s.nextId grants).map HostEvent.memFree, CallEvent hsa comp s e := by
  intro e he
  obtain ⟨block, hblock, rfl⟩ := List.mem_map.mp he
  exact le_id_of_mem_blocksFrom hblock

theorem pollEvents_callEvents (index : BitVec 64) (answers : List HostAnswer) :
    ∀ e ∈ pollEvents comp index answers, CallEvent hsa comp s e := by
  intro e he
  obtain ⟨answer, -, rfl⟩ := List.mem_map.mp he
  trivial

theorem waitingEvents_callEvents (host : CertApi) (hsizes : grants.map Prod.fst = blockSizes op) :
    ∀ e ∈ waitingEvents host hsa comp s op grants, CallEvent hsa comp s e := by
  refine List.forall_mem_append.mpr
    ⟨List.forall_mem_append.mpr ⟨opening_callEvents host, grantEvents_callEvents grants⟩,
    List.forall_mem_append.mpr ⟨fun e he => ?_, ?_⟩⟩
  · have hprepares := preparing_prepares host hsizes e he
    cases e with
    | write inst offset bytes =>
      obtain ⟨rfl, -⟩ | ⟨hblock, -⟩ := hprepares
      · exact .inl rfl
      · exact .inr (.inr (le_id_of_mem_blocksFrom hblock))
    | memSyncForDev inst rc => exact hprepares.2
    | _ => exact hprepares.elim
  · simp only [publishEvents, List.forall_mem_cons]
    exact ⟨rfl, trivial, .inl rfl, rfl, nofun⟩

theorem Returns.callEvents {host : CertApi} (h : Returns host hsa comp s op events) :
    ∀ e ∈ events, CallEvent hsa comp s e := by
  cases h with
  | unsupported hop => exact opening_callEvents host
  | refused hop grants size hsizes =>
    refine List.forall_mem_append.mpr ⟨List.forall_mem_append.mpr ⟨List.forall_mem_append.mpr
      ⟨opening_callEvents host, grantEvents_callEvents grants⟩, ?_⟩, memFree_callEvents⟩
    exact List.forall_mem_singleton.mpr trivial
  | done hop grants hsizes hanswers last =>
    exact List.forall_mem_append.mpr ⟨List.forall_mem_append.mpr ⟨List.forall_mem_append.mpr
      ⟨waitingEvents_callEvents host hsizes, pollEvents_callEvents _ _⟩, memFree_callEvents⟩,
        pollEvents_callEvents _ _⟩

theorem Pends.callEvents {host : CertApi} (h : Pends host hsa comp s op events) :
    ∀ e ∈ events, CallEvent hsa comp s e := by
  cases h with
  | asking hop grants hsizes =>
    exact List.forall_mem_append.mpr ⟨opening_callEvents host, grantEvents_callEvents grants⟩
  | polling hop grants hsizes hzeros =>
    exact List.forall_mem_append.mpr ⟨waitingEvents_callEvents host hsizes, pollEvents_callEvents _ _⟩
  | freed hop grants hsizes hanswers =>
    exact List.forall_mem_append.mpr ⟨List.forall_mem_append.mpr
      ⟨waitingEvents_callEvents host hsizes, pollEvents_callEvents _ _⟩, memFree_callEvents⟩

variable {host : CertApi} {w₀ w w' : HostWorld} {code : BitVec 32}

theorem certMethod_frames (host : CertApi) (op : CertOp) (hhsa : w₀.state.hsaMeminst = some hsa)
    (hcomp : w₀.state.compSigMeminst = some comp) :
    Meets (fun _ => Frames hsa comp w₀) (Frames hsa comp w₀) (certMethod host op w₀) :=
  (certMethod_runs host op hhsa hcomp).imp (fun _ _ ⟨events, h, hsince⟩ => ⟨events, h.callEvents, hsince⟩)
    fun _ ⟨events, h, hsince⟩ => ⟨events, h.callEvents, hsince⟩

theorem exists_queue_of_returned (h : certMethod host op w = (.returned code, w')) :
    ∃ hsa comp, w.state.hsaMeminst = some hsa ∧ w.state.compSigMeminst = some comp := by
  have hqueue {next : HostState → MemInst → MemInst → CertProgram (BitVec 32)}
    (h : (getState >>= fun s : HostState =>
      ofOption s.hsaMeminst >>= fun hsa => ofOption s.compSigMeminst >>= fun comp => next s hsa comp) w =
        (.returned code, w')) :
      ∃ hsa comp, w.state.hsaMeminst = some hsa ∧ w.state.compSigMeminst = some comp := by
    rw [getState_bind] at h
    obtain ⟨hsa, w₁, hhsa, h⟩ := exists_of_bind_returned h
    obtain ⟨comp, w₂, hcomp, -⟩ := exists_of_bind_returned h
    exact ⟨hsa, comp, (eq_of_ofOption_returned hhsa).1, (eq_of_ofOption_returned hcomp).1⟩
  cases op with
  | submitCommand cols => exact hqueue h
  | submitTestCommand => exact hqueue h

theorem certCall_returned (h : certCall host op w = (.returned code, w')) :
    ∃ hsa comp, w.state.hsaMeminst = some hsa ∧ w.state.compSigMeminst = some comp ∧ Frames hsa comp w w' := by
  obtain ⟨_, _, henter, h⟩ := exists_of_bind_returned h
  cases henter
  obtain ⟨code', w₁, hmethod, h⟩ := exists_of_bind_returned h
  cases h
  obtain ⟨hsa, comp, hhsa, hcomp⟩ := exists_queue_of_returned hmethod
  have hframes := @certMethod_frames hsa comp _ host op hhsa hcomp
  rw [hmethod] at hframes
  obtain ⟨events, hevents, hsince⟩ := hframes
  refine ⟨hsa, comp, hhsa, hcomp, [.enter op] ++ events ++ [.leave code], ?_, ?_⟩
  · exact List.forall_mem_append.mpr ⟨List.forall_mem_append.mpr ⟨List.forall_mem_singleton.mpr trivial, hevents⟩,
      List.forall_mem_singleton.mpr trivial⟩
  · exact (Since.append ⟨rfl, rfl⟩ hsince).append ⟨rfl, rfl⟩

end Frame

section Calls

variable {host : CertApi} {w w' : HostWorld} {code : BitVec 32}

/-- Queue and completion words are two allocated blocks. -/
def QueueApart (s : HostState) : Prop :=
  ∀ hsa comp, s.hsaMeminst = some hsa → s.compSigMeminst = some comp →
    hsa.id ≠ comp.id ∧ hsa.id < s.nextId ∧ comp.id < s.nextId

theorem queueApart_of_initHandshake (h : initHandshake host w = (.returned code, w')) : QueueApart w'.state := by
  intro hsa comp hhsa hcomp
  obtain ⟨-, hnone⟩ | ⟨hsa', comp', args, hshaken⟩ := exists_of_initHandshake h
  · exact nomatch hnone.symm.trans hhsa
  obtain ⟨hhsa', hcomp', hnext⟩ := hshaken.fields
  obtain rfl := Option.some.inj (hhsa'.symm.trans hhsa)
  obtain rfl := Option.some.inj (hcomp'.symm.trans hcomp)
  rw [hshaken.hsa_id, hshaken.comp_id]
  omega

/-- The worlds between the calls of an object. -/
inductive Between (host : CertApi) : HostWorld → Prop
  | fresh (memory : HostMemory) (script : List HostAnswer) : Between host ⟨.fresh memory, [], script⟩
  | initHandshake {w w' : HostWorld} {code : BitVec 32} (h : Between host w)
    (hrun : Cert.initHandshake host w = (.returned code, w')) : Between host w'
  | call {w w' : HostWorld} {code : BitVec 32} {op : CertOp} (h : Between host w)
    (hrun : certCall host op w = (.returned code, w')) : Between host w'

theorem Between.queueApart (h : Between host w) : QueueApart w.state := by
  induction h with
  | fresh memory script => exact fun hsa comp hhsa => nomatch hhsa
  | initHandshake _ hrun _ => exact queueApart_of_initHandshake hrun
  | @call w w' code op _ hrun ih =>
    obtain ⟨_, _, -, -, events, -, hsince⟩ := certCall_returned hrun
    obtain ⟨memory, live, nextId, hnext, hreplay⟩ := replay_fields w.state events
    rw [hsince.state, hreplay]
    intro hsa comp hhsa hcomp
    obtain ⟨hne, hlt, hlt'⟩ := ih hsa comp hhsa hcomp
    exact ⟨hne, hlt.trans_le hnext, hlt'.trans_le hnext⟩

theorem certCalls_keeps {P : HostWorld → Prop}
    (hcall : ∀ {w w' : HostWorld} {op : CertOp} {code : BitVec 32}, P w → certCall host op w =
      (.returned code, w') → P w')
    (h : P w) {ops : List CertOp} {codes : List (BitVec 32)} (hrun : certCalls host ops w = (.returned codes, w')) :
    P w' := by
  unfold certCalls at hrun
  induction ops generalizing w codes with
  | nil =>
    cases hrun
    exact h
  | cons op rest ih =>
    obtain ⟨code, w₁, hfirst, hrun⟩ := exists_of_bind_returned hrun
    obtain ⟨codes', w₂, hrest, hrun⟩ := exists_of_bind_returned hrun
    cases hrun
    exact ih (hcall h hfirst) hrest

end Calls

end AieBaremetal.Cert
