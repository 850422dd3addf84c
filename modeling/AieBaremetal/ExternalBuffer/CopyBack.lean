import AieBaremetal.AieGraph.SimulatedGmio
import AieBaremetal.ExternalBuffer.Latch

/-!
# Which buffers a wait of the simulator copies back

An external buffer of the simulator has one queue for the transfers from the array of all its ports,
and a wait for any of them copies all of it. A GMIO has a queue of its own, and every wait copies it.
What should be copied is told by the account of started and collected work, with the ports as its
keys. A transfer is started if its last driver call is accepted.
-/

namespace AieBaremetal.ExternalBuffer

open Common Common.Program AieBaremetal.Runtime Dma Metadata
open AieGraph (SimGmio SimGmioHistory SimGmioRecord)

/-- Transfers from the array and waits, by port. -/
inductive PortCall where
  | aie2gmNb (portName : List UInt8)
  | wait (portName : List UInt8)
  deriving DecidableEq, Repr

def PortCall.method (mgr : ConfigManager) (config : ExternalBufferConfig) : PortCall → BufferProgram ErrCode
  | .aie2gmNb portName => ExternalBuffer.aie2gmNb true mgr config portName
  | .wait portName => ExternalBuffer.wait true mgr config portName

def PortCall.portName : PortCall → List UInt8
  | .aie2gmNb portName | .wait portName => portName

structure PortRecord where
  call : PortCall
  code : ErrCode
  events : List PlatformEvent

/-- Calls that returned one after another. -/
inductive PortHistory (mgr : ConfigManager) (config : ExternalBufferConfig) (s₀ : BufferState) :
    List PortRecord → BufferState → Prop
  | nil : PortHistory mgr config s₀ [] s₀
  | snoc {s₁ s₂ : BufferState} {records : List PortRecord} {call : PortCall} {code : ErrCode}
      {events : List PlatformEvent} {script rest : List DriverAnswer}
        (before : PortHistory mgr config s₀ records s₁)
      (returned : call.method mgr config ⟨s₁, [], script⟩ = (.returned code, ⟨s₂, events, rest⟩)) :
      PortHistory mgr config s₀ (records ++ [⟨call, code, events⟩]) s₂

/-- The copy an event makes: a host address and a length. -/
def eventCopy (e : PlatformEvent) : Option (BitVec 64 × BitVec 64) :=
  match e.call with
  | .syncForCpu vaddr size => some (vaddr, size)
  | _ => none

/-- The channel was seen done before anything was copied. -/
def observedDone (mgr : ConfigManager) (port : ShimPortConfig) (events : List PlatformEvent) : Bool :=
  (events.takeWhile fun e => (eventCopy e).isNone).any fun e =>
    e.call = .dma (.waitForDone (portLoc mgr port) (shimChannel port).channel (shimChannel port).dir 0#32) ∧
      e.answer.rc = xaieOk

def PortRecord.queueCall (mgr : ConfigManager) (config : ExternalBufferConfig) (r : PortRecord) :
    Option (QueueCall (List UInt8) (BitVec 64 × BitVec 64)) :=
  match r.call with
  | .aie2gmNb portName =>
    match findPort config portName, lookups r.events with
    | some port, vaddr :: _ => some (.start portName (vaddr, portSize port) (r.code = .ok))
    | _, _ => none
  | .wait portName =>
    (findPort config portName).map fun port =>
      .wait portName (observedDone mgr port r.events) (port.S2MMOrMM2S = 0#32) (r.events.filterMap eventCopy)

/-- The host address and length of a remembered buffer. -/
def TransactionInfo.buffer (t : TransactionInfo) : BitVec 64 × BitVec 64 := (t.virtualAddr, t.size)

variable {w w' : World PlatformEvent DriverAnswer BufferState}

section Histories

variable {mgr : ConfigManager} {config : ExternalBufferConfig} {s₀ s s₁ s₂ : BufferState}
    {records : List PortRecord}
  {events : List PlatformEvent} {code : ErrCode} {script rest : List DriverAnswer} {portName : List UInt8}

theorem copyBack_returned {pop : BufferState → BufferState} {vars : List TransactionInfo} {u : Unit}
    (h : copyBack pop vars w = (.returned u, w')) :
    w'.state = pop^[vars.length] w.state ∧
      ∃ more, w'.trace = w.trace ++ more ∧ more.filterMap eventCopy = vars.map TransactionInfo.buffer := by
  induction vars generalizing w with
  | nil =>
    cases h
    exact ⟨rfl, [], (List.append_nil _).symm, rfl⟩
  | cons var vars ih =>
    obtain ⟨_, w₁, hpop, h⟩ := exists_of_bind_returned h
    cases hpop
    obtain ⟨answer, w₂, hask, h⟩ := exists_of_bind_returned h
    obtain ⟨hstate, more, htrace, hcopies⟩ := ih h
    obtain ⟨script, -, rfl⟩ := exists_of_ask_returned hask
    refine ⟨hstate, ⟨.syncForCpu var.virtualAddr var.size, answer⟩ :: more, ?_, ?_⟩
    · rw [htrace, List.append_assoc]
      rfl
    · rw [List.map_cons, ← hcopies]
      rfl

theorem state_of_dmaStatuses_returned {calls : List DmaCall} {driverStatus result : BitVec 32}
    (h : dmaStatuses driverStatus calls w = (.returned result, w')) : w'.state = w.state := by
  induction calls generalizing driverStatus w with
  | nil =>
    cases h
    rfl
  | cons call calls ih =>
    obtain ⟨answer, w₁, hask, h⟩ := exists_of_bind_returned h
    obtain ⟨script, -, rfl⟩ := exists_of_ask_returned hask
    exact (ih h).trans rfl

theorem updateBds_returned {port : ShimPortConfig} {l l' : BdLocals} {bds : List ShimBDInfo}
    (h : updateBds mgr port l bds w = (.returned l', w')) :
    l' = l.countAll bds ∧ w'.state = w.state := by
  induction bds generalizing l w with
  | nil =>
    cases h
    exact ⟨rfl, rfl⟩
  | cons bd bds ih =>
    obtain ⟨code, w₁, hupdate, h⟩ := exists_of_bind_returned h
    obtain ⟨hl, hstate⟩ := ih h
    obtain ⟨driverStatus, w₂, hcall, hpure⟩ := exists_of_bind_returned hupdate
    cases hpure
    exact ⟨hl, hstate.trans (state_of_dmaStatuses_returned hcall)⟩

theorem aie2gmNb_remembers {port : ShimPortConfig} (hport : findPort config portName = some port)
    (h : ExternalBuffer.aie2gmNb true mgr config portName ⟨s₁, [], script⟩ = (.returned code, ⟨s₂, events, rest⟩)) :
    ∃ phyAddress, s₂ = { s₁ with
      aie2gmBufQueue := s₁.aie2gmBufQueue ++ [⟨s₁.ddrAddress, phyAddress, portSize port⟩] } := by
  rw [ExternalBuffer.aie2gmNb, transferNb, onPort_of_some hport, getState_bind] at h
  obtain ⟨phyAddress, w₁, hlookup, h⟩ := exists_of_bind_returned h
  obtain ⟨answer, w₂, hask, hpure⟩ := exists_of_bind_returned hlookup
  cases hpure
  obtain ⟨l, w₃, hupdates, h⟩ := exists_of_bind_returned h
  obtain ⟨rfl, hstate₃⟩ := updateBds_returned hupdates
  obtain ⟨_, w₄, hpush, h⟩ := exists_of_bind_returned h
  cases hpush
  obtain ⟨driverStatus, w₅, hcall, hpure⟩ := exists_of_bind_returned h
  have hstate₅ := state_of_dmaStatuses_returned hcall
  cases hpure
  obtain ⟨script, -, rfl⟩ := exists_of_ask_returned hask
  refine ⟨((BdLocals.start (lookedUp 0#64 answer)).countAll port.shimBDInfos).phyAddress, ?_⟩
  change s₂ = _ at hstate₅
  change w₃.state = s₁ at hstate₃
  rw [hstate₅, hstate₃, countAll_start]
  rfl

theorem waitDMAChannelDone_returned {ch : DmaChannel} (h : waitDMAChannelDone mgr ch w = (.returned code, w')) :
    w'.state = w.state ∧ ∃ more, w'.trace = w.trace ++ more ∧ more.filterMap eventCopy = [] := by
  obtain ⟨answers, w₁, hask, h⟩ := exists_of_bind_returned h
  cases h
  obtain ⟨htrace, hstate, -⟩ := exists_of_askUntil_returned hask
  refine ⟨hstate, _, htrace, ?_⟩
  rw [List.filterMap_eq_nil_iff]
  simp only [List.mem_map]
  rintro _ ⟨answer, -, rfl⟩
  rfl

theorem iterate_pop_aie2gm (n : ℕ) (s : BufferState) :
    (fun s : BufferState => { s with aie2gmBufQueue := s.aie2gmBufQueue.tail })^[n] s =
      { s with aie2gmBufQueue := s.aie2gmBufQueue.drop n } := by
  induction n generalizing s with
  | zero => rfl
  | succ n ih => rw [Function.iterate_succ_apply, ih, List.drop_tail]

/-- A wait for a port from the array copies the whole queue, any other wait nothing. -/
theorem wait_returned {port : ShimPortConfig} (hport : findPort config portName = some port)
    (hother : s₁.gm2aieBufQueue = [])
    (h : ExternalBuffer.wait true mgr config portName ⟨s₁, [], script⟩ = (.returned code, ⟨s₂, events, rest⟩)) :
    s₂.gm2aieBufQueue = [] ∧ s₂.aie2gmBufQueue = (if port.S2MMOrMM2S = 0#32 then [] else s₁.aie2gmBufQueue) ∧
      events.filterMap eventCopy =
        if port.S2MMOrMM2S = 0#32 then s₁.aie2gmBufQueue.map TransactionInfo.buffer else [] := by
  rw [ExternalBuffer.wait, onPort_of_some hport] at h
  obtain ⟨status, w₁, hwait, h⟩ := exists_of_bind_returned h
  obtain ⟨hstate₁, more₁, htrace₁, hcopies₁⟩ := waitDMAChannelDone_returned hwait
  change w₁.state = s₁ at hstate₁
  simp only [if_true] at h
  rw [getState_bind, hstate₁] at h
  by_cases hdir : port.S2MMOrMM2S = 0#32
  · rw [if_neg (not_not.mpr hdir)] at h
    obtain ⟨_, w₂, hcopy, h⟩ := exists_of_bind_returned h
    obtain ⟨hstate₂, more₂, htrace₂, hcopies₂⟩ := copyBack_returned hcopy
    cases h
    rw [hstate₁, iterate_pop_aie2gm, List.drop_length] at hstate₂
    change s₂ = _ at hstate₂
    change events = _ at htrace₂
    rw [hstate₂, if_pos hdir, if_pos hdir]
    refine ⟨hother, rfl, ?_⟩
    rw [htrace₂, htrace₁, List.filterMap_append, List.filterMap_append, hcopies₁, hcopies₂]
    rfl
  · rw [if_pos hdir, hother] at h
    obtain ⟨_, w₂, hcopy, h⟩ := exists_of_bind_returned h
    cases hcopy
    cases h
    change s₂ = s₁ at hstate₁
    change events = _ at htrace₁
    rw [hstate₁, if_neg hdir, if_neg hdir, htrace₁]
    exact ⟨hother, rfl, hcopies₁⟩

theorem PortCall.method_of_none {call : PortCall} (hport : findPort config call.portName = none) :
    call.method mgr config = pure .ok := by
  cases call with
  | aie2gmNb portName => exact onPort_of_none hport _
  | wait portName => exact onPort_of_none hport _

theorem PortRecord.queueCall_of_none {r : PortRecord} (hport : findPort config r.call.portName = none) :
    r.queueCall mgr config = none := by
  obtain ⟨call, code, events⟩ := r
  cases call <;> simp_all [PortCall.portName, PortRecord.queueCall]

/-- In every history the queue is the account's queue, and waits collect what they drain. -/
theorem PortHistory.collectsQueue (h : PortHistory mgr config s₀ records s) (hempty : s₀.aie2gmBufQueue = [])
    (hother : s₀.gm2aieBufQueue = []) :
    s.gm2aieBufQueue = [] ∧ s.aie2gmBufQueue.map TransactionInfo.buffer =
        (queued (records.filterMap (PortRecord.queueCall mgr config))).map QueueItem.entry ∧
      CollectsQueue (records.filterMap (PortRecord.queueCall mgr config)) := by
  induction h with
  | nil => exact ⟨hother, by rw [hempty]; rfl, atEach_nil⟩
  | @snoc s₁ s₂ records call code events script rest before returned ih =>
    obtain ⟨hother₁, hqueue, hcollects⟩ := ih
    rw [List.filterMap_append]
    cases hport : findPort config call.portName with
    | none =>
      rw [PortCall.method_of_none hport] at returned
      cases returned
      rw [List.filterMap_cons_none (PortRecord.queueCall_of_none hport), List.filterMap_nil, List.append_nil]
      exact ⟨hother₁, hqueue, hcollects⟩
    | some port =>
      cases call with
      | aie2gmNb portName =>
        change findPort config portName = some port at hport
        obtain ⟨phyAddress, rfl⟩ := aie2gmNb_remembers hport returned
        have hlookups : lookups events = [s₁.ddrAddress] := by
          have hpointers := (lookups_aie2gmNb returned).1
          rwa [transferPointers, hport, if_neg (Option.some_ne_none port)] at hpointers
        have hstart : (⟨.aie2gmNb portName, code, events⟩ : PortRecord).queueCall mgr config =
            some (.start portName (s₁.ddrAddress, portSize port) (code = .ok)) := by
          simp [PortRecord.queueCall, hport, hlookups]
        rw [List.filterMap_cons_some hstart, List.filterMap_nil]
        refine ⟨hother₁, ?_, atEach_snoc.mpr ⟨hcollects, trivial⟩⟩
        rw [queued_snoc, queueStep, List.map_append, List.map_append, hqueue]
        rfl
      | wait portName =>
        change findPort config portName = some port at hport
        obtain ⟨hother₂, hqueue₂, hcopies⟩ := wait_returned hport hother₁ returned
        have hwait : (⟨.wait portName, code, events⟩ : PortRecord).queueCall mgr config =
            some (.wait portName (observedDone mgr port events) (port.S2MMOrMM2S = 0#32)
              (events.filterMap eventCopy)) := by
          simp [PortRecord.queueCall, hport]
        rw [List.filterMap_cons_some hwait, List.filterMap_nil]
        refine ⟨hother₂, ?_, atEach_snoc.mpr ⟨hcollects, ?_⟩⟩
        · rw [hqueue₂, queued_snoc, queueStep]
          by_cases hdir : port.S2MMOrMM2S = 0#32
          · simp [hdir]
          · simp [hdir, hqueue]
        · by_cases hdir : port.S2MMOrMM2S = 0#32
          · simp [hcopies, hdir, hqueue]
          · simp [hcopies, hdir]

end Histories

/-- In the simulator, over every history of transfers from the array and waits, a GMIO and an external buffer copy
each started transfer back once, at a wait that saw its channel done, exactly when each wait fits the queue. -/
theorem copiesBack_iff (mgr : ConfigManager) (cfg : Gmio.GmioConfig) (config : ExternalBufferConfig) :
    (∀ (s₀ s : SimGmio) (records : List SimGmioRecord), s₀.aie2gmBufQueue = [] →
      SimGmioHistory cfg mgr s₀ records s →
      (CollectsOwed (records.filterMap SimGmioRecord.queueCall) ↔
        WaitsForQueue (records.filterMap SimGmioRecord.queueCall))) ∧
    ∀ (s₀ s : BufferState) (records : List PortRecord),
      s₀.aie2gmBufQueue = [] → s₀.gm2aieBufQueue = [] → PortHistory mgr config s₀ records s →
      (CollectsOwed (records.filterMap (PortRecord.queueCall mgr config)) ↔
        WaitsForQueue (records.filterMap (PortRecord.queueCall mgr config))) := by
  refine ⟨fun s₀ s records hempty h => ?_, fun s₀ s records hempty hother h => ?_⟩
  · exact collectsOwed_iff (h.collectsQueue hempty).2
  · exact collectsOwed_iff (h.collectsQueue hempty hother).2.2

section Samples

def sampleAie2gm : Gmio.GmioConfig where
  type := .aie2gm
  shimColumn := 3#16
  channelNum := 0#16
  burstLength := 16#16

def configuredGmio : SimGmio where
  gmioApi := { Gmio.GmioState.fresh with isConfigured := true, gmioTileLoc := ⟨0#8, 3#8⟩, availableBDs := [0#64] }
  aie2gmBufQueue := []

/-- The object while the transfer of a buffer at `0x1000` runs. -/
def runningGmio : SimGmio where
  gmioApi := { configuredGmio.gmioApi with enqueuedBDs := [0#64], availableBDs := [] }
  aie2gmBufQueue := [⟨0#64, 0x1000#64, 64#64⟩]

def startedRecord : SimGmioRecord where
  call := .aie2gmNb 0x1000#64 64#32
  code := .ok
  events :=
    [.getDevAddr 0x1000#64 accepted, .driver (.dmaSetAddrLen 0#64 64#32) accepted,
      .driver (.dmaSetLock ⟨0#16, 0#8⟩ ⟨0#16, 0#8⟩) accepted, .driver .dmaEnableBd accepted,
      .driver (.dmaWriteBd ⟨0#8, 3#8⟩ 0#16) accepted,
      .driver (.dmaChannelPushBdToQueue ⟨0#8, 3#8⟩ 0#8 .s2mm 0#16) accepted]

/-- A wait without blocking at which the channel is busy or done. -/
def polledRecord (answer : DriverAnswer) : SimGmioRecord where
  call := .wait false
  code := if answer.rc ≠ xaieOk then .resourceUnavailable else .ok
  events := [.driver (.dmaWaitForDone ⟨0#8, 3#8⟩ 0#8 .s2mm) answer, .syncForCpu 0x1000#64 64#64 accepted]

theorem simGmioHistory_polled (answer : DriverAnswer) :
    SimGmioHistory sampleAie2gm bareManager configuredGmio [startedRecord, polledRecord answer] configuredGmio := by
  have hstart : (startedRecord.call.method sampleAie2gm bareManager)
    ⟨configuredGmio, [], List.replicate 6 accepted⟩ =
      (.returned startedRecord.code, ⟨runningGmio, startedRecord.events, []⟩) := rfl
  have hwait : ((polledRecord answer).call.method sampleAie2gm bareManager) ⟨runningGmio, [], [answer, accepted]⟩ =
      (.returned (polledRecord answer).code, ⟨configuredGmio, (polledRecord answer).events, []⟩) := rfl
  exact .snoc (.snoc .nil hstart) hwait

def aie2gmBuffer : ExternalBufferConfig where
  id := 1#16
  name := some [98]
  shimPortConfigs := [⟨1#32, some [112], 3#16, 0#32, 0#16, 1#32, false, []⟩]

def startedEvents : List PlatformEvent :=
  [⟨.getDevAddr 0x1000#64, accepted⟩, ⟨.dma (.channelSetStartQueue ⟨0#8, 3#8⟩ 0#8 0#32 255#16 1#32 0#8), accepted⟩]

/-- The calls of a wait that sees the port's channel done. -/
def copiedEvents : List PlatformEvent :=
  [⟨.dma (.waitForDone ⟨0#8, 3#8⟩ 0#8 0#32 0#32), accepted⟩, ⟨.syncForCpu 0x1000#64 0#64, accepted⟩]

def portRecords : List PortRecord := [⟨.aie2gmNb [112], .ok, startedEvents⟩, ⟨.wait [112], .ok, copiedEvents⟩]

/-- The equivalence at a GMIO whose channel is done and at a buffer with one port. -/
theorem copiesBack_sample :
    let object := BufferState.fresh.setAddress 0x1000#64
    (SimGmioHistory sampleAie2gm bareManager configuredGmio [startedRecord, polledRecord accepted] configuredGmio ∧
      (CollectsOwed ([startedRecord, polledRecord accepted].filterMap SimGmioRecord.queueCall) ↔
        WaitsForQueue ([startedRecord, polledRecord accepted].filterMap SimGmioRecord.queueCall))) ∧
    PortHistory bareManager aie2gmBuffer object portRecords object ∧
      (CollectsOwed (portRecords.filterMap (PortRecord.queueCall bareManager aie2gmBuffer)) ↔
        WaitsForQueue (portRecords.filterMap (PortRecord.queueCall bareManager aie2gmBuffer))) := by
  intro object
  have hgmio := simGmioHistory_polled accepted
  have hstart : PortCall.method bareManager aie2gmBuffer (.aie2gmNb [112]) ⟨object, [], [accepted, accepted]⟩ =
      (.returned .ok, ⟨{ object with aie2gmBufQueue := [⟨0x1000#64, 0#64, 0#64⟩] }, startedEvents, []⟩) := rfl
  have hwait : PortCall.method bareManager aie2gmBuffer (.wait [112])
      ⟨{ object with aie2gmBufQueue := [⟨0x1000#64, 0#64, 0#64⟩] }, [], [accepted, accepted]⟩ =
      (.returned .ok, ⟨object, copiedEvents, []⟩) := rfl
  have hport : PortHistory bareManager aie2gmBuffer object portRecords object := .snoc (.snoc .nil hstart) hwait
  obtain ⟨hgmioIff, hportIff⟩ := copiesBack_iff bareManager sampleAie2gm aie2gmBuffer
  exact ⟨⟨hgmio, hgmioIff _ _ _ rfl hgmio⟩, hport, hportIff _ _ _ rfl rfl hport⟩

/-- The buffer is copied although the channel answered that it is busy. -/
theorem busy_buffer_is_copied :
    let busy : DriverAnswer := { accepted with rc := 1#32 }
    SimGmioHistory sampleAie2gm bareManager configuredGmio [startedRecord, polledRecord busy] configuredGmio ∧
      ¬CollectsOwed ([startedRecord, polledRecord busy].filterMap SimGmioRecord.queueCall) := by
  intro busy
  refine ⟨simGmioHistory_polled busy, fun h => ?_⟩
  have hcollected := h [.start () (0x1000#64, 64#64) true] (.wait () false true [(0x1000#64, 64#64)]) [] rfl
  exact absurd hcollected.length_eq (by decide)

end Samples

end AieBaremetal.ExternalBuffer
