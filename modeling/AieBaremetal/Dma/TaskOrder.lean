import AieBaremetal.Dma.Api

/-!
# A task is pushed behind its descriptors

`configureBdWaitQueueEnqueueTask` configures descriptors until one reports an error, then waits for
room in the task queue and then pushes a task. What a run did is split into these three parts here.
The part of a descriptor is fixed by the calls its configuration makes, so the split is no choice.

A driver that never reports room keeps the function from returning. Nothing is assumed about its
answers.
-/

namespace AieBaremetal.Dma

open Common Common.Program AieBaremetal.Runtime

/-- Some call of these was answered with an error. -/
def reportsError (events : List PlatformEvent) : Bool := events.any fun e => e.answer.rc ≠ xaieOk

def writtenBd : PlatformCall → Option (BitVec 16)
  | .dma (.writeBd _ bdNum) => some bdNum
  | _ => none

/-- A part for each descriptor, the questions for room, and the push. -/
structure TaskRun where
  configured : List (List PlatformEvent)
  polls : List PlatformEvent
  pushed : List PlatformEvent

def TaskRun.events (r : TaskRun) : List PlatformEvent := r.configured.flatten ++ r.polls ++ r.pushed

/-- No descriptor and no question for room reported an error. -/
def TaskRun.Prepared (r : TaskRun) : Prop :=
  (∀ part ∈ r.configured, reportsError part = false) ∧ reportsError r.polls = false

/-- Descriptors are written in order up to the first error, and the task is pushed behind them. -/
structure TaskRun.Ordered (mgr : ConfigManager) (ch : DmaChannel) (task : TaskOptions) (bdIds : List (BitVec 8))
    (bdParams : List BufferDescriptor) (code : ErrCode) (r : TaskRun) : Prop where
  inOrder : r.configured.map (List.map PlatformEvent.call) =
    ((bdIds.zip bdParams).take r.configured.length).map fun bd =>
      (configureCalls mgr ch.tile bd.1 bd.2).map PlatformCall.dma
  written : r.events.filterMap (fun e => writtenBd e.call) =
    (bdIds.take r.configured.length).map (BitVec.setWidth 16)
  noErrorBefore : ∀ part ∈ r.configured.dropLast, reportsError part = false
  upToError : r.configured.length = bdIds.length ∨ ∃ part, r.configured.getLast? = some part ∧
  reportsError part = true
  polled : ∀ e ∈ r.polls, e.call = .dma (.getPendingBdCount (ch.tile.loc mgr) ch.channel ch.dir)
  pushedOne : r.Prepared → ∃ startBdId e, bdIds.head? = some startBdId ∧ r.pushed = [e] ∧
    e.call = .dma (startQueueCall mgr ch task startBdId)
  pushedNone : ¬r.Prepared → r.pushed = []
  room : r.pushed ≠ [] → ∃ e, r.polls.getLast? = some e ∧ numPendingBDs e.answer ≤ 3
  code_ok_iff : code = .ok ↔ ∃ e, r.pushed = [e] ∧ e.answer.rc = xaieOk

section Parts

variable {S : Type} {mgr : ConfigManager} {ch : DmaChannel} {tile : RelativeTile} {task : TaskOptions}
  {bdId : BitVec 8} {bdParam : BufferDescriptor} {code : ErrCode}
  {w w' : World PlatformEvent DriverAnswer S}

end Parts

end AieBaremetal.Dma
