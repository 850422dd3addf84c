import AieBaremetal.Cert.HostRuns

/-!
# What `init_handshake` does

It allocates the queue and the completion words, clears both, writes the header of the queue and
introduces it to the firmware, and then asks for the block of arguments. When one of its two blocks
is refused it leaves the object without a queue.
-/

namespace AieBaremetal.Cert

open Common Common.Program

def setupEvents (host : CertApi) (hsa comp : MemInst) : List HostEvent :=
  [.write comp 0 (List.replicate (4 * hsaQueueEntry) 0), .write hsa 0 (List.replicate hsaQueueSize 0),
    .write hsa capacityOffset (leBytes 4 hsaQueueEntry),
    .write hsa dataAddressOffset (leBytes 8 (hsa.devAddr + BitVec.ofNat 64 (hqEntryOffset 0)).toNat),
    .memSyncForDev hsa none] ++
    (List.range host.numCols).map fun col => .dataMemBlockWrite col (handshakeOf host hsa col)

/-- `init_handshake` until it looks at the external buffers. -/
def handshakeEvents (host : CertApi) (hsa comp : MemInst) : List HostEvent :=
  [.memAllocate hsaQueueSize (some hsa.devAddr), .memAllocate (4 * hsaQueueEntry) (some comp.devAddr)] ++
    setupEvents host hsa comp

/-- The argument block that results from some answers. -/
inductive ArgsParsed (host : CertApi) (next : ℕ) : List HostAnswer → Option MemInst → List HostEvent → Prop
  | empty (hempty : host.externalBufferMap = []) (script : List HostAnswer) : ArgsParsed host next script none []
  | refused (rc value : BitVec 32) (rest : List HostAnswer) : ArgsParsed host next (⟨none, rc, value⟩ :: rest) none
    [.memAllocate (8 * host.externalBufferMap.length) none]
  | asked (devAddr : BitVec 64) (rc value : BitVec 32) (sync : HostAnswer) (rest : List HostAnswer) :
    ArgsParsed host next (⟨some devAddr, rc, value⟩ :: sync :: rest)
      (if sync.rc = 0#32 then some ⟨next, devAddr, 8 * host.externalBufferMap.length⟩ else none)
      [.memAllocate (8 * host.externalBufferMap.length) (some devAddr),
        .write ⟨next, devAddr, 8 * host.externalBufferMap.length⟩ 0 (hostArgWords host),
        .memSyncForDev ⟨next, devAddr, 8 * host.externalBufferMap.length⟩ (some sync.rc)]

def HostState.setHostArgs (s : HostState) : Option MemInst → HostState
  | none => s.withoutHostArgs
  | some args => s.withHostArgs args

theorem HostState.setHostArgs_memory (s : HostState) (args : Option MemInst) :
    (s.setHostArgs args).memory = s.memory := by
  cases args <;> rfl

def HostState.withQueue (s : HostState) (hsa comp : MemInst) : HostState :=
  { s with hsaMeminst := some hsa, compSigMeminst := some comp }

/-- An `init_handshake` that got queue and completion words. -/
structure Handshaken (host : CertApi) (hsa comp : MemInst) (args : Option MemInst) (w w' : HostWorld) : Prop where
  hsa_id : hsa.id = w.state.nextId
  hsa_size : hsa.size = hsaQueueSize
  comp_id : comp.id = w.state.nextId + 1
  comp_size : comp.size = 4 * hsaQueueEntry
  events : ∃ answer answer' script events, w.script = answer :: answer' :: script ∧
    ArgsParsed host (w.state.nextId + 2) script args events ∧
    w'.state = (replay hostStep (w.state.withQueue hsa comp) (handshakeEvents host hsa comp ++ events)).setHostArgs
      args ∧
    w'.trace = w.trace ++ (handshakeEvents host hsa comp ++ events)

variable {host : CertApi} {hsa comp : MemInst} {args : Option MemInst} {w w' : HostWorld} {code : BitVec 32}

theorem Handshaken.fields (h : Handshaken host hsa comp args w w') : w'.state.hsaMeminst = some hsa ∧
    w'.state.compSigMeminst = some comp ∧ w.state.nextId + 2 ≤ w'.state.nextId := by
  obtain ⟨_, _, _, events, -, -, hstate, -⟩ := h.events
  rw [handshakeEvents, List.append_assoc, replay_append] at hstate
  obtain ⟨memory, live, nextId, hnext, hreplay⟩ := replay_fields
    (replay hostStep (w.state.withQueue hsa comp) [.memAllocate hsaQueueSize (some hsa.devAddr),
      .memAllocate (4 * hsaQueueEntry) (some comp.devAddr)]) (setupEvents host hsa comp ++ events)
  rw [hstate, hreplay]
  cases args with
  | none => exact ⟨rfl, rfl, hnext⟩
  | some args => exact ⟨rfl, rfl, hnext⟩

theorem parseHostArgs_returned {result : Unit} (h : parseHostArgs host w = (.returned result, w')) :
    ∃ args events, ArgsParsed host w.state.nextId w.script args events ∧
      w'.state = (replay hostStep w.state events).setHostArgs args ∧ w'.trace = w.trace ++ events := by
  unfold parseHostArgs at h
  split at h
  · rename_i hempty
    cases h
    exact ⟨none, [], .empty hempty w.script, rfl, (List.append_nil _).symm⟩
  rcases w with ⟨s, trace, _ | ⟨⟨_ | devAddr, rc, value⟩, rest⟩⟩
  · cases h
  · cases h
    exact ⟨none, _, .refused rc value rest, rfl, rfl⟩
  rcases rest with _ | ⟨sync, rest⟩
  · cases h
  have hasked := @ArgsParsed.asked host s.nextId devAddr rc value sync rest
  change (if sync.rc ≠ 0#32 then modifyState HostState.withoutHostArgs else pure () : CertProgram Unit)
    ⟨_, trace ++ [_] ++ [_] ++ [_], rest⟩ = _ at h
  by_cases hrc : sync.rc = 0#32
  · rw [if_neg (not_not_intro hrc)] at h
    rw [if_pos hrc] at hasked
    cases h
    exact ⟨_, _, hasked, rfl, by simp only [List.append_assoc, List.cons_append, List.nil_append]⟩
  · rw [if_pos hrc] at h
    rw [if_neg hrc] at hasked
    cases h
    exact ⟨_, _, hasked, rfl, by simp only [List.append_assoc, List.cons_append, List.nil_append]⟩

theorem setupQueue_eq : setupQueue host hsa comp = (do
    emit hostStep (setupEvents host hsa comp)
    parseHostArgs host
    pure 0#32) := by
  rw [setupQueue, memSyncForDev_eq, runAll_tell hostStep _ fun _ _ => rfl]
  simp only [writeBytes_eq, emit_then]
  rfl

theorem setupEvents_nextId (host : CertApi) (hsa comp : MemInst) (s : HostState) :
    (replay hostStep s (setupEvents host hsa comp)).nextId = s.nextId := by
  rw [setupEvents, replay_append, replay_eq_self]
  · simp only [replay, List.foldl_cons, List.foldl_nil, hostStep]
  · intro e he
    obtain ⟨col, -, rfl⟩ := List.mem_map.mp he
    exact fun _ => rfl

theorem setupQueue_returned (h : setupQueue host hsa comp w = (.returned code, w')) :
    code = 0#32 ∧ ∃ args events, ArgsParsed host w.state.nextId w.script args events ∧
      w'.state = (replay hostStep w.state (setupEvents host hsa comp ++ events)).setHostArgs args ∧
      w'.trace = w.trace ++ (setupEvents host hsa comp ++ events) := by
  rw [setupQueue_eq] at h
  obtain ⟨_, _, hsetup, h⟩ := exists_of_bind_returned h
  cases hsetup
  obtain ⟨_, _, hargs, h⟩ := exists_of_bind_returned h
  cases h
  obtain ⟨args, events, hparsed, hstate, htrace⟩ := parseHostArgs_returned hargs
  refine ⟨rfl, args, events, ?_, by rw [hstate, replay_append], by rw [htrace, List.append_assoc]⟩
  rw [← setupEvents_nextId host hsa comp]
  exact hparsed

theorem exists_of_initHandshake (h : initHandshake host w = (.returned code, w')) :
    code ≠ 0#32 ∧ w'.state.hsaMeminst = none ∨ ∃ hsa comp args, Handshaken host hsa comp args w w' := by
  rcases w with ⟨s, trace, _ | ⟨⟨_ | hsaDma, rc, value⟩, script⟩⟩
  · cases h
  · cases h
    exact .inl ⟨by decide, rfl⟩
  rcases script with _ | ⟨⟨_ | compDma, rc', value'⟩, script⟩
  · cases h
  · cases h
    exact .inl ⟨by decide, rfl⟩
  obtain ⟨_, _, halloc, h⟩ := exists_of_bind_returned h
  cases halloc
  obtain ⟨_, _, hset, h⟩ := exists_of_bind_returned h
  cases hset
  obtain ⟨_, _, halloc, h⟩ := exists_of_bind_returned h
  cases halloc
  obtain ⟨_, _, hset, h⟩ := exists_of_bind_returned h
  cases hset
  obtain ⟨-, args, events, hparsed, hstate, htrace⟩ := setupQueue_returned h
  refine .inr ⟨⟨s.nextId, hsaDma, hsaQueueSize⟩, ⟨s.nextId + 1, compDma, 4 * hsaQueueEntry⟩,
    args, rfl, rfl, rfl, rfl,
    ⟨some hsaDma, rc, value⟩, ⟨some compDma, rc', value'⟩, script, events, rfl, hparsed, ?_, ?_⟩
  · rw [handshakeEvents, List.append_assoc, replay_append]
    exact hstate
  · rw [htrace, handshakeEvents]
    simp only [List.append_assoc]
    rfl

end AieBaremetal.Cert
