import Mathlib.Data.List.Nodup
import AieBaremetal.Cert.Ring

/-!
# Blocks a command obtains and frees

An observer follows one call of `submit_command` and notes the blocks it obtains and frees, whether an
allocation failed, whether the packet was published and the completion seen after that, and whether a
block was freed before. A published packet's blocks belong to the firmware until it completes. A call
that has not returned has freed nothing and waits, or it has freed everything and only reads the
completion word once more.
-/

namespace AieBaremetal.Cert

open Common Common.Program

/-- What the observer knows of a call. -/
structure Ledger where
  next : ℕ
  obtained : List MemInst
  freed : List MemInst
  allocFailed : Bool
  published : Bool
  completed : Bool
  earlyFree : Bool
  deriving DecidableEq

def Ledger.start (next : ℕ) : Ledger := ⟨next, [], [], false, false, false, false⟩

def ledgerStep (hsa comp : MemInst) (slot : ℕ) (l : Ledger) : HostEvent → Ledger
  | .memAllocate size (some devAddr) =>
    { l with next := l.next + 1, obtained := l.obtained ++ [⟨l.next, devAddr, size⟩] }
  | .memAllocate _ none => { l with allocFailed := true }
  | .memFree inst => { l with freed := l.freed ++ [inst], earlyFree := l.earlyFree || !l.completed }
  | .write inst offset _ => { l with published := l.published || (inst.id = hsa.id && offset = writeIndexOffset) }
  | .completion inst offset value =>
    { l with completed := l.completed || (l.published && inst = comp && offset = 4 * slot && value ≠ 0#32) }
  | _ => l

/-- The observer in a call that began in `w₀`. -/
def callLedger (hsa comp : MemInst) (w₀ w : HostWorld) : Ledger :=
  replay (ledgerStep hsa comp (w₀.state.writeIndex hsa).toNat) (.start w₀.state.nextId)
    (w.trace.drop w₀.trace.length)

/-- Each block obtained was freed once, and no other one was. -/
def Ledger.Settled (l : Ledger) : Prop := (∀ inst ∈ l.obtained, l.freed.count inst = 1) ∧ l.freed ⊆ l.obtained

/-- How a call may return: its blocks are freed, after the completion if it published; unsupported or with a
failed allocation it has published nothing and left the queue alone. -/
structure Releases (hsa comp : MemInst) (w₀ : HostWorld) (cols : Columns) (w : HostWorld) : Prop where
  trace : w₀.trace <+: w.trace
  settled : (callLedger hsa comp w₀ w).Settled
  late : (callLedger hsa comp w₀ w).published = true →
    (callLedger hsa comp w₀ w).completed = true ∧ (callLedger hsa comp w₀ w).earlyFree = false
  refused : (callLedger hsa comp w₀ w).allocFailed = true ∨ (CertOp.submitCommand cols).unsupported = true →
    (callLedger hsa comp w₀ w).published = false ∧
      ∀ i, w.state.memory (hsa.id, i) = w₀.state.memory (hsa.id, i)

/-- A call that has not returned: it has freed nothing and seen no completion, or it has freed its blocks. -/
structure Holds (hsa comp : MemInst) (w₀ w : HostWorld) : Prop where
  trace : w₀.trace <+: w.trace
  waiting : (callLedger hsa comp w₀ w).freed = [] ∧ (callLedger hsa comp w₀ w).completed = false ∨
    (callLedger hsa comp w₀ w).Settled ∧ (callLedger hsa comp w₀ w).completed = true ∧
      (callLedger hsa comp w₀ w).earlyFree = false

section Observer

variable {hsa comp : MemInst} {s : HostState} {op : CertOp} {l : Ledger} {grants : List (ℕ × BitVec 64)}
  {answers : List HostAnswer} {events : List HostEvent}

/-- A call that has obtained these blocks and done nothing else. -/
abbrev Ledger.holding (next : ℕ) (grants : List (ℕ × BitVec 64)) : Ledger :=
  ⟨next + grants.length, (blocksFrom next grants).reverse, [], false, false, false, false⟩

theorem blocksFrom_nodup (next : ℕ) (grants : List (ℕ × BitVec 64)) :
    (blocksFrom next grants).Nodup ∧ ∀ block ∈ blocksFrom next grants, block.id < next + grants.length := by
  induction grants using List.reverseRecOn with
  | nil => exact ⟨List.nodup_nil, nofun⟩
  | append_singleton grants grant ih =>
    rw [blocksFrom_concat, List.length_append]
    refine ⟨List.nodup_cons.mpr ⟨fun hmem => Nat.lt_irrefl _ (ih.2 _ hmem), ih.1⟩,
      List.forall_mem_cons.mpr ⟨?_, ?_⟩⟩
    · exact Nat.lt_succ_self _
    · exact fun block hblock => Nat.lt_succ_of_lt (ih.2 block hblock)

theorem Ledger.settled {next : ℕ} (hobtained : l.obtained = (blocksFrom next grants).reverse)
    (hfreed : l.freed = blocksFrom next grants) : l.Settled := by
  refine ⟨fun inst hinst => ?_, fun inst hinst => ?_⟩
  · rw [hobtained, List.mem_reverse] at hinst
    rw [hfreed, List.count_eq_one_of_mem (blocksFrom_nodup next grants).1 hinst]
  · rwa [hobtained, List.mem_reverse, ← hfreed]

theorem ledger_write (l : Ledger) {inst : MemInst} {offset : ℕ} (h : inst.id ≠ hsa.id ∨ offset ≠ writeIndexOffset)
    (slot : ℕ) (bytes : List UInt8) : ledgerStep hsa comp slot l (.write inst offset bytes) = l := by
  have hother : (decide (inst.id = hsa.id) && decide (offset = writeIndexOffset)) = false := by
    rcases h with h | h
    · rw [decide_eq_false h, Bool.false_and]
    · rw [decide_eq_false h, Bool.and_false]
  rw [ledgerStep, hother, Bool.or_false]

theorem ledger_opening (host : CertApi) (hne : hsa.id ≠ comp.id) (slot : ℕ) (l : Ledger) :
    replay (ledgerStep hsa comp slot) l (opening host hsa comp s op) = l := by
  refine replay_eq_self (List.forall_mem_append.mpr ⟨?_, ?_⟩) l
  · simp only [List.forall_mem_cons]
    exact ⟨fun _ => rfl, fun _ => rfl, fun l => ledger_write l (.inl hne.symm) slot _, fun _ => rfl, nofun⟩
  · cases op with
    | submitCommand parsed =>
      intro e he
      obtain ⟨i, -, rfl⟩ := List.mem_map.mp he
      exact fun _ => rfl
    | submitTestCommand => exact nofun

theorem ledger_grants (slot next : ℕ) (grants : List (ℕ × BitVec 64)) :
    replay (ledgerStep hsa comp slot) (.start next) (grantEvents grants) = .holding next grants := by
  induction grants using List.reverseRecOn with
  | nil => rfl
  | append_singleton grants grant ih =>
    obtain ⟨size, devAddr⟩ := grant
    rw [grantEvents, List.map_append, List.map_singleton, replay_concat, ← grantEvents, ih]
    rw [Ledger.holding, Ledger.holding, blocksFrom_concat, List.reverse_cons, List.length_append]
    rfl

theorem ledger_preparing (host : CertApi) (hlt : hsa.id < s.nextId) (hsizes : grants.map Prod.fst = blockSizes op)
    (slot : ℕ) (l : Ledger) :
    replay (ledgerStep hsa comp slot) l (preparing host hsa comp s op (blocksFrom s.nextId grants)) = l := by
  refine replay_eq_self (fun e he l => ?_) l
  have hprepares := preparing_prepares host hsizes e he
  cases e with
  | write inst offset bytes =>
    refine ledger_write l ?_ slot bytes
    obtain ⟨-, hlow, -⟩ | ⟨hblock, -⟩ := hprepares
    · have hbefore := writeIndex_before (s.writeIndex hsa).toNat
      exact .inr (by omega)
    · exact .inl (hlt.trans_le (le_id_of_mem_blocksFrom hblock)).ne'
  | memSyncForDev inst rc => rfl
  | _ => exact hprepares.elim

theorem ledger_waiting (host : CertApi) (hne : hsa.id ≠ comp.id) (hlt : hsa.id < s.nextId)
    (hsizes : grants.map Prod.fst = blockSizes op) (slot : ℕ) :
    replay (ledgerStep hsa comp slot) (.start s.nextId) (waitingEvents host hsa comp s op grants) =
      { Ledger.holding s.nextId grants with published := true } := by
  have hpublish (l : Ledger) : replay (ledgerStep hsa comp slot) l (publishEvents hsa s) =
    { l with published := true } := by
    simp [replay, publishEvents, ledgerStep]
  rw [waitingEvents, replay_append, replay_append, replay_append, ledger_opening host hne, ledger_grants,
    ledger_preparing host hlt hsizes, hpublish]

theorem ledger_zeros (hzeros : ∀ answer ∈ answers, answer.value = 0#32) (index : BitVec 64)
    (slot : ℕ) (l : Ledger) :
    replay (ledgerStep hsa comp slot) l (pollEvents comp index answers) = l := by
  refine replay_eq_self (fun e he l => ?_) l
  obtain ⟨answer, hmem, rfl⟩ := List.mem_map.mp he
  simp [ledgerStep, hzeros answer hmem]

theorem ledger_completes (hanswers : Completes answers) (hpublished : l.published = true) (index : BitVec 64) :
    replay (ledgerStep hsa comp index.toNat) l (pollEvents comp index answers) = { l with completed := true } := by
  obtain ⟨zeros, last, rfl, hzeros, hlast⟩ := hanswers
  rw [pollEvents, List.map_append, replay_append, ← pollEvents, ledger_zeros hzeros]
  simp [replay, ledgerStep, hpublished, hlast]

theorem ledger_frees (slot : ℕ) (l : Ledger) (blocks : List MemInst) :
    ∃ early, (l.completed = true → early = l.earlyFree) ∧
    replay (ledgerStep hsa comp slot) l (blocks.map .memFree) =
      { l with freed := l.freed ++ blocks, earlyFree := early } := by
  induction blocks using List.reverseRecOn with
  | nil => exact ⟨l.earlyFree, fun _ => rfl, by rw [List.append_nil]; rfl⟩
  | append_singleton blocks block ih =>
    obtain ⟨early, hearly, hreplay⟩ := ih
    rw [List.map_append, List.map_singleton, replay_concat, hreplay]
    refine ⟨early || !l.completed, fun hcompleted => ?_, by rw [ledgerStep, List.append_assoc]⟩
    rw [hearly hcompleted, hcompleted, Bool.not_true, Bool.or_false]

theorem ledger_freed (host : CertApi) (hne : hsa.id ≠ comp.id) (hlt : hsa.id < s.nextId)
    (hsizes : grants.map Prod.fst = blockSizes op) (hanswers : Completes answers) :
    replay (ledgerStep hsa comp (s.writeIndex hsa).toNat) (.start s.nextId)
      (freedEvents host hsa comp s op grants answers) =
      { Ledger.holding s.nextId grants with
        published := true, completed := true, freed := blocksFrom s.nextId grants } := by
  rw [freedEvents, replay_append, replay_append, ledger_waiting host hne hlt hsizes, ledger_completes hanswers rfl]
  obtain ⟨early, hearly, hreplay⟩ := @ledger_frees hsa comp (s.writeIndex hsa).toNat
    { Ledger.holding s.nextId grants with published := true, completed := true } (blocksFrom s.nextId grants)
  rw [hreplay, hearly rfl]
  rfl

end Observer

section Calls

variable {host : CertApi} {hsa comp : MemInst} {w₀ w : HostWorld} {parsed : Columns} {op : CertOp}
    {events : List HostEvent}
  (hne : hsa.id ≠ comp.id) (hlt : hsa.id < w₀.state.nextId) (hsince : Since hostStep w₀ events w)

include hsince in
theorem callLedger_since : callLedger hsa comp w₀ w =
    replay (ledgerStep hsa comp (w₀.state.writeIndex hsa).toNat) (.start w₀.state.nextId) events := by
  rw [callLedger, hsince.trace, List.drop_left]

include hsince in
theorem releases_refused {l : Ledger} (hledger : callLedger hsa comp w₀ w = l) (hsettled : l.Settled)
    (hpublished : l.published = false) (hmarks : ∀ e ∈ events, e.Marks (· ≠ hsa.id)) :
    Releases hsa comp w₀ parsed w where
  trace := ⟨events, hsince.trace.symm⟩
  settled := hledger ▸ hsettled
  late := by
    rw [hledger, hpublished]
    exact nofun
  refused := fun _ => ⟨by rw [hledger, hpublished], by rw [hsince.state]; exact memory_replay hmarks⟩

include hne hlt hsince

/-- A call that returned has freed what it obtained, after the completion if it published. -/
theorem Returns.releases (h : Returns host hsa comp w₀.state (.submitCommand parsed) events) :
    Releases hsa comp w₀ parsed w := by
  have hledger : callLedger hsa comp w₀ w = _ := callLedger_since hsince
  have hopening : ∀ e ∈ opening host hsa comp w₀.state (.submitCommand parsed), e.Marks (· ≠ hsa.id) := by
    refine List.forall_mem_append.mpr ⟨?_, fun e he => ?_⟩
    · simp only [List.forall_mem_cons]
      exact ⟨trivial, trivial, hne.symm, trivial, nofun⟩
    · obtain ⟨i, -, rfl⟩ := List.mem_map.mp he
      trivial
  cases h with
  | unsupported hop =>
    rw [ledger_opening host hne] at hledger
    exact releases_refused hsince hledger ⟨nofun, nofun⟩ rfl hopening
  | refused hop grants size hsizes =>
    rw [replay_append, replay_append, replay_append, ledger_opening host hne, ledger_grants] at hledger
    obtain ⟨early, -, hfrees⟩ := @ledger_frees hsa comp (w₀.state.writeIndex hsa).toNat
      { Ledger.holding w₀.state.nextId grants with allocFailed := true } (blocksFrom w₀.state.nextId grants)
    have hother {A : Type} (list : List A) {f : A → HostEvent} (hf : ∀ a, (f a).Marks (· ≠ hsa.id)) :
        ∀ e ∈ list.map f, e.Marks (· ≠ hsa.id) := by
      intro e he
      obtain ⟨a, -, rfl⟩ := List.mem_map.mp he
      exact hf a
    refine releases_refused hsince (hledger.trans hfrees) (Ledger.settled rfl (List.nil_append _)) rfl ?_
    exact List.forall_mem_append.mpr ⟨List.forall_mem_append.mpr ⟨List.forall_mem_append.mpr ⟨hopening,
      hother grants fun _ => trivial⟩, List.forall_mem_singleton.mpr trivial⟩, hother _ fun _ => trivial⟩
  | done hop grants hsizes hanswers last =>
    rw [replay_append, ledger_freed host hne hlt hsizes hanswers] at hledger
    exact
      { trace := ⟨_, hsince.trace.symm⟩
        settled := by
          rw [hledger]
          exact Ledger.settled rfl rfl
        late := fun _ => by rw [hledger]; exact ⟨rfl, rfl⟩
        refused := by
          rw [hledger, hop]
          exact fun hreason => hreason.elim nofun nofun }

theorem Pends.holds (h : Pends host hsa comp w₀.state op events) : Holds hsa comp w₀ w := by
  refine ⟨⟨events, hsince.trace.symm⟩, ?_⟩
  rw [callLedger_since hsince]
  cases h with
  | asking hop grants hsizes =>
    rw [replay_append, ledger_opening host hne, ledger_grants]
    exact .inl ⟨rfl, rfl⟩
  | polling hop grants hsizes hzeros =>
    rw [replay_append, ledger_waiting host hne hlt hsizes, ledger_zeros hzeros]
    exact .inl ⟨rfl, rfl⟩
  | freed hop grants hsizes hanswers =>
    rw [ledger_freed host hne hlt hsizes hanswers]
    exact .inr ⟨Ledger.settled rfl rfl, rfl, rfl⟩

theorem Pends.waiting (h : Pends host hsa comp w₀.state op events)
    (hpublished : (callLedger hsa comp w₀ w).published = true)
    (hopen : (callLedger hsa comp w₀ w).completed = false) : ∃ grants, op.unsupported = false ∧
      grants.map Prod.fst = blockSizes op ∧
      w.state = replay hostStep w₀.state (waitingEvents host hsa comp w₀.state op grants) := by
  rw [callLedger_since hsince] at hpublished hopen
  cases h with
  | asking hop grants hsizes =>
    rw [replay_append, ledger_opening host hne, ledger_grants] at hpublished
    cases hpublished
  | polling hop grants hsizes hzeros =>
    refine ⟨grants, hop, hsizes, ?_⟩
    rw [hsince.state, replay_append]
    refine replay_eq_self (fun e he => ?_) _
    obtain ⟨answer, -, rfl⟩ := List.mem_map.mp he
    exact fun _ => rfl
  | freed hop grants hsizes hanswers =>
    rw [ledger_freed host hne hlt hsizes hanswers] at hopen
    cases hopen

end Calls

section Releases

variable {hsa comp : MemInst}

/-- Whatever was called before, whatever the columns, the allocations and the answers of the firmware: when
`submit_command` returns, every block it obtained was freed once, after the completion word was seen non-zero if
it published its packet, and a command that is not supported or for which an allocation failed has published
nothing and left the queue as it was. Until it returns it waits with all its blocks, or they are all freed. -/
theorem submitCommand_releases {host : CertApi} {w : HostWorld} (hbetween : Between host w)
    (hhsa : w.state.hsaMeminst = some hsa) (hcomp : w.state.compSigMeminst = some comp) (parsed : Columns) :
    Program.Meets (fun _ => Releases hsa comp w parsed) (Holds hsa comp w) (submitCommand host parsed w) := by
  obtain ⟨hne, hlt, -⟩ := hbetween.queueApart hsa comp hhsa hcomp
  exact (certMethod_runs host (.submitCommand parsed) hhsa hcomp).imp
    (fun _ _ ⟨_, hreturns, hsince⟩ => hreturns.releases hne hlt hsince)
    fun _ ⟨_, hpends, hsince⟩ => hpends.holds hne hlt hsince

def sampleQueue : MemInst := ⟨0, 0x10000, hsaQueueSize⟩

def sampleCompletion : MemInst := ⟨1, 0x20000, 4 * hsaQueueEntry⟩

@[irreducible] def sampleCommand : Outcome (BitVec 32) × HostWorld :=
  submitAt sampleHost sampleQueue sampleCompletion 0#64 [(0, [1, 2, 3]), (1, [4, 5])] sampleInit.2

/-- The sample's command returns with both blocks freed after the completion. -/
theorem submitCommand_releases_sample :
    Program.Meets (fun _ => Releases sampleQueue sampleCompletion sampleInit.2 [(0, [1, 2, 3]), (1, [4, 5])])
      (Holds sampleQueue sampleCompletion sampleInit.2)
      (submitCommand sampleHost [(0, [1, 2, 3]), (1, [4, 5])] sampleInit.2) ∧
    submitCommand sampleHost [(0, [1, 2, 3]), (1, [4, 5])] sampleInit.2 = (.returned 0#32, sampleCommand.2) ∧
    callLedger sampleQueue sampleCompletion sampleInit.2 sampleCommand.2 = ⟨4, [⟨2, 0x30000, 64⟩, ⟨3, 0x40000, 5⟩],
      [⟨3, 0x40000, 5⟩, ⟨2, 0x30000, 64⟩], false, true, true, false⟩ := by
  have hreturned : sampleInit.1 = .returned 0#32 := by decide +kernel
  have hinit : initHandshake sampleHost ⟨.fresh fun _ => 0, [], sampleScript⟩ = (.returned 0#32, sampleInit.2) := by
    rw [← hreturned, sampleInit]
  have hhsa : sampleInit.2.state.hsaMeminst = some sampleQueue := by decide +kernel
  have hcomp : sampleInit.2.state.compSigMeminst = some sampleCompletion := by decide +kernel
  have hindex := writeIndex_of_initHandshake hinit hhsa
  have hcode : sampleCommand.1 = .returned 0#32 := by decide +kernel
  refine ⟨submitCommand_releases (.initHandshake (.fresh _ _) hinit) hhsa hcomp _, ?_, ?_⟩
  · rw [submitCommand_apply hhsa hcomp hindex, ← hcode, sampleCommand]
  · rw [callLedger, hindex]
    decide +kernel

end Releases

end AieBaremetal.Cert
