import AieBaremetal.Common.DrainedQueue
import AieBaremetal.Common.Subprogram
import AieBaremetal.Gmio.Api

/-!
# The GMIO of the simulator build

In the simulator the host memory is not the memory of the array. A transfer from the array remembers
its buffer in a queue, before it is enqueued, and a wait copies back what is in the queue after it
has asked for the channel. The answer for the channel does not matter for the copies.

Each call of a history has its own answers; a call that blocks ends the history.
-/

namespace AieBaremetal.AieGraph

open Common Common.Program AieBaremetal.Runtime Gmio

/-- A buffer that is copied back at the next wait. -/
structure MemMap where
  simPhyAddr : BitVec 64
  hostVirtualAddr : BitVec 64
  len : BitVec 64
  deriving DecidableEq, Repr

structure SimGmio where
  gmioApi : GmioState
  aie2gmBufQueue : List MemMap
  deriving DecidableEq, Repr

/-- A driver call or a call of `XAieMem`. -/
inductive SimGmioEvent where
  | driver (call : DriverCall) (answer : DriverAnswer)
  | getDevAddr (vaddr : BitVec 64) (answer : DriverAnswer)
  | syncForCpu (vaddr size : BitVec 64) (answer : DriverAnswer)
  deriving DecidableEq, Repr

abbrev SimGmioProgram := Program SimGmioEvent DriverAnswer SimGmio

def simGmioEvent : Event GmioOp → List SimGmioEvent
  | .driver call answer => [.driver call answer]
  | _ => []

/-- Call a method of the `gmio_api` object. -/
def callApi {A : Type} (method : GmioProgram A) : SimGmioProgram A := fun w =>
  Program.runWithin simGmioEvent id w.state.gmioApi (fun gmioApi s => { s with gmioApi }) method w

def simAie2gmNb (cfg : GmioConfig) (mgr : ConfigManager) (data : BitVec 64) (len : BitVec 32) :
    SimGmioProgram ErrCode := do
  let answer ← Program.ask (SimGmioEvent.getDevAddr data)
  if answer.rc ≠ 0#32 then pure .aieDriverError
  else do
    Program.modifyState fun s =>
      { s with aie2gmBufQueue := s.aie2gmBufQueue ++ [⟨answer.value, data, len.signExtend 64⟩] }
    callApi (enqueueBD (some cfg) mgr answer.value (len.signExtend 64))

/-- Copy buffers back, taking each from the queue first. -/
def simCopyBack : List MemMap → SimGmioProgram Unit
  | [] => pure ()
  | var :: rest => do
    Program.modifyState fun s => { s with aie2gmBufQueue := s.aie2gmBufQueue.tail }
    let _ ← Program.ask (SimGmioEvent.syncForCpu var.hostVirtualAddr var.len)
    simCopyBack rest

def simWait (cfg : GmioConfig) (syncmode : Bool) : SimGmioProgram ErrCode := do
  let ret ← callApi (Gmio.wait (some cfg) syncmode)
  let s ← Program.getState
  simCopyBack s.aie2gmBufQueue
  pure ret

inductive SimGmioCall where
  | aie2gmNb (data : BitVec 64) (len : BitVec 32)
  | wait (syncmode : Bool)
  deriving DecidableEq, Repr

def SimGmioCall.method (cfg : GmioConfig) (mgr : ConfigManager) : SimGmioCall → SimGmioProgram ErrCode
  | .aie2gmNb data len => simAie2gmNb cfg mgr data len
  | .wait syncmode => simWait cfg syncmode

structure SimGmioRecord where
  call : SimGmioCall
  code : ErrCode
  events : List SimGmioEvent

/-- Calls that returned one after another. -/
inductive SimGmioHistory (cfg : GmioConfig) (mgr : ConfigManager) (s₀ : SimGmio) :
    List SimGmioRecord → SimGmio → Prop
  | nil : SimGmioHistory cfg mgr s₀ [] s₀
  | snoc {s₁ s₂ : SimGmio} {records : List SimGmioRecord} {call : SimGmioCall} {code : ErrCode}
      {events : List SimGmioEvent} {script rest : List DriverAnswer} (before : SimGmioHistory cfg mgr s₀ records s₁)
      (returned : call.method cfg mgr ⟨s₁, [], script⟩ = (.returned code, ⟨s₂, events, rest⟩)) :
      SimGmioHistory cfg mgr s₀ (records ++ [⟨call, code, events⟩]) s₂

/-- The copy an event makes: a host address and a length. -/
def SimGmioEvent.copy : SimGmioEvent → Option (BitVec 64 × BitVec 64)
  | .syncForCpu vaddr size _ => some (vaddr, size)
  | _ => none

def SimGmioEvent.isDone : SimGmioEvent → Bool
  | .driver (.dmaWaitForDone _ _ _) answer => answer.rc = xaieOk
  | _ => false

/-- The channel was seen done before anything was copied. -/
def simObserved (events : List SimGmioEvent) : Bool :=
  (events.takeWhile fun e => e.copy.isNone).any SimGmioEvent.isDone

/-- A call in the account of transfers; one without a device address is none. -/
def SimGmioRecord.queueCall (r : SimGmioRecord) : Option (QueueCall Unit (BitVec 64 × BitVec 64)) :=
  match r.call with
  | .aie2gmNb data len =>
    match r.events with
    | .getDevAddr _ answer :: _ =>
      if answer.rc = 0#32 then some (.start () (data, len.signExtend 64) (r.code = .ok)) else none
    | _ => none
  | .wait _ => some (.wait () (simObserved r.events) true (r.events.filterMap SimGmioEvent.copy))

/-- The host address and length of a remembered buffer. -/
def MemMap.buffer (m : MemMap) : BitVec 64 × BitVec 64 := (m.hostVirtualAddr, m.len)

section Histories

variable {cfg : GmioConfig} {mgr : ConfigManager} {s₀ s s₁ s₂ : SimGmio} {records : List SimGmioRecord}
  {events : List SimGmioEvent} {code : ErrCode} {script rest : List DriverAnswer}

theorem filterMap_copy_flatMap (trace : List (Event GmioOp)) :
    (trace.flatMap simGmioEvent).filterMap SimGmioEvent.copy = [] := by
  rw [List.filterMap_eq_nil_iff]
  intro e he
  obtain ⟨event, -, hevent⟩ := List.mem_flatMap.mp he
  cases event with
  | driver call answer =>
    obtain rfl := List.mem_singleton.mp hevent
    rfl
  | enter op => cases hevent
  | leave code => cases hevent

theorem callApi_returned {A : Type} {method : GmioProgram A} {a : A}
    {w w' : World SimGmioEvent DriverAnswer SimGmio} (h : callApi method w = (.returned a, w')) :
    w'.state.aie2gmBufQueue = w.state.aie2gmBufQueue ∧
      ∃ more, w'.trace = w.trace ++ more ∧ more.filterMap SimGmioEvent.copy = [] := by
  obtain ⟨-, rfl⟩ := Prod.ext_iff.mp h
  exact ⟨rfl, _, rfl, filterMap_copy_flatMap _⟩

theorem simCopyBack_returned {vars : List MemMap} {w w' : World SimGmioEvent DriverAnswer SimGmio} {u : Unit}
    (h : simCopyBack vars w = (.returned u, w')) :
    w'.state.aie2gmBufQueue = w.state.aie2gmBufQueue.drop vars.length ∧
      ∃ more, w'.trace = w.trace ++ more ∧ more.filterMap SimGmioEvent.copy = vars.map MemMap.buffer := by
  induction vars generalizing w with
  | nil =>
    cases h
    exact ⟨rfl, [], (List.append_nil _).symm, rfl⟩
  | cons var vars ih =>
    obtain ⟨_, w₁, hpop, h⟩ := exists_of_bind_returned h
    cases hpop
    obtain ⟨answer, w₂, hask, h⟩ := exists_of_bind_returned h
    obtain ⟨hqueue, more, htrace, hcopies⟩ := ih h
    obtain ⟨script, -, rfl⟩ := exists_of_ask_returned hask
    refine ⟨?_, .syncForCpu var.hostVirtualAddr var.len answer :: more, ?_, ?_⟩
    · rw [hqueue, List.drop_tail, List.length_cons]
    · rw [htrace, List.append_assoc]
      rfl
    · rw [List.map_cons, ← hcopies]
      rfl

theorem simWait_returned {syncmode : Bool}
    (h : simWait cfg syncmode ⟨s₁, [], script⟩ = (.returned code, ⟨s₂, events, rest⟩)) :
    s₂.aie2gmBufQueue = [] ∧ events.filterMap SimGmioEvent.copy = s₁.aie2gmBufQueue.map MemMap.buffer := by
  obtain ⟨ret, w₁, hwait, h⟩ := exists_of_bind_returned h
  obtain ⟨hqueue₁, more₁, htrace₁, hcopies₁⟩ := callApi_returned hwait
  rw [getState_bind] at h
  obtain ⟨_, w₂, hcopy, h⟩ := exists_of_bind_returned h
  obtain ⟨hqueue₂, more₂, htrace₂, hcopies₂⟩ := simCopyBack_returned hcopy
  cases h
  rw [List.drop_length] at hqueue₂
  refine ⟨hqueue₂, ?_⟩
  change events = _ at htrace₂
  rw [htrace₂, htrace₁, List.filterMap_append, List.filterMap_append, hcopies₁, hcopies₂, hqueue₁]
  rfl

theorem simAie2gmNb_returned {data : BitVec 64} {len : BitVec 32}
    (h : simAie2gmNb cfg mgr data len ⟨s₁, [], script⟩ = (.returned code, ⟨s₂, events, rest⟩)) :
    ((⟨.aie2gmNb data len, code, events⟩ : SimGmioRecord).queueCall = none ∧
      s₂.aie2gmBufQueue = s₁.aie2gmBufQueue) ∨
      ((⟨.aie2gmNb data len, code, events⟩ : SimGmioRecord).queueCall =
          some (.start () (data, len.signExtend 64) (code = .ok)) ∧
        s₂.aie2gmBufQueue.map MemMap.buffer = s₁.aie2gmBufQueue.map MemMap.buffer ++
          [(data, len.signExtend 64)]) := by
  obtain ⟨answer, w₁, hask, h⟩ := exists_of_bind_returned h
  obtain ⟨script, -, rfl⟩ := exists_of_ask_returned hask
  by_cases hrc : answer.rc = 0#32
  · right
    rw [if_neg (not_not.mpr hrc)] at h
    obtain ⟨_, w₂, hpush, h⟩ := exists_of_bind_returned h
    cases hpush
    obtain ⟨hqueue, more, htrace, -⟩ := callApi_returned h
    change events = _ at htrace
    subst htrace
    refine ⟨?_, ?_⟩
    · simp [SimGmioRecord.queueCall, hrc]
    · change s₂.aie2gmBufQueue = _ at hqueue
      rw [hqueue, List.map_append]
      rfl
  · left
    rw [if_pos hrc] at h
    cases h
    exact ⟨by simp [SimGmioRecord.queueCall, hrc], rfl⟩

theorem SimGmioHistory.collectsQueue (h : SimGmioHistory cfg mgr s₀ records s) (hempty : s₀.aie2gmBufQueue = []) :
    s.aie2gmBufQueue.map MemMap.buffer = (queued (records.filterMap SimGmioRecord.queueCall)).map QueueItem.entry ∧
      CollectsQueue (records.filterMap SimGmioRecord.queueCall) := by
  induction h with
  | nil => exact ⟨by rw [hempty]; rfl, atEach_nil⟩
  | @snoc s₁ s₂ records call code events script rest before returned ih =>
    obtain ⟨hqueue, hcollects⟩ := ih
    rw [List.filterMap_append]
    cases call with
    | aie2gmNb data len =>
      obtain ⟨hnone, hkept⟩ | ⟨hstart, hpushed⟩ := simAie2gmNb_returned returned
      · rw [List.filterMap_cons_none hnone, List.filterMap_nil, List.append_nil, hkept]
        exact ⟨hqueue, hcollects⟩
      · rw [List.filterMap_cons_some hstart, List.filterMap_nil]
        refine ⟨?_, atEach_snoc.mpr ⟨hcollects, trivial⟩⟩
        rw [hpushed, hqueue, queued_snoc, queueStep, List.map_append]
        rfl
    | wait syncmode =>
      obtain ⟨hdrained, hcopies⟩ := simWait_returned returned
      have hwait : (⟨.wait syncmode, code, events⟩ : SimGmioRecord).queueCall =
          some (.wait () (simObserved events) true (events.filterMap SimGmioEvent.copy)) := rfl
      rw [List.filterMap_cons_some hwait, List.filterMap_nil]
      refine ⟨?_, atEach_snoc.mpr ⟨hcollects, ?_⟩⟩
      · rw [hdrained, queued_snoc]
        rfl
      · exact hcopies.trans hqueue

end Histories

end AieBaremetal.AieGraph
