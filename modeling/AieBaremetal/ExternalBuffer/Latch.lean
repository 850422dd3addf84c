import AieBaremetal.AieGraph.Api
import AieBaremetal.Common.Recorded
import AieBaremetal.ExternalBuffer.Runs

/-!
# Addresses that are set more than once

An application sets the addresses of an external buffer by its name or through a typed object. Both
ways end at one object, which keeps the first address it was given; a later one is an error in the log
only, and ok is returned. The calls run one after another, each with its own answers. Whether the graph
is initialised and whether the object is found may change between calls; a call that blocks is the last.
-/

namespace AieBaremetal.ExternalBuffer

open Common Common.Program AieBaremetal.Runtime Dma Metadata
open AieGraph (errFromAbr)
open Cdo (AegErr)

/-- How a call gets to the object, and what it finds there. -/
structure Route where
  byName : Bool
  isInitialized : Bool
  found : Bool
  deriving DecidableEq, Repr

/-- The calls of an application that set or use addresses. -/
inductive BufferCall where
  | setAddress (route : Route) (ptr : BitVec 64)
  | setupPingPongBuffers (route : Route) (ptr1 ptr2 : BitVec 64) (syncCache : Bool)
  | gm2aieNb (route : Route) (portName : List UInt8)
  | aie2gmNb (route : Route) (portName : List UInt8)
  deriving DecidableEq, Repr

/-- What stops a call before it gets to the object. -/
def Route.refuses (route : Route) (validArgument : Bool) (invalid : AegErr) : Option AegErr :=
  if route.byName && !route.isInitialized then some .invalidState
  else if !validArgument then some invalid
  else if !route.found then some .backendNotReady
  else none

def BufferCall.refused : BufferCall → Option AegErr
  | .setAddress route ptr => route.refuses (ptr ≠ 0#64) .nullArgument
  | .setupPingPongBuffers route ptr1 ptr2 _ => route.refuses (ptr1 ≠ 0#64 ∧ ptr2 ≠ 0#64) .nullArgument
  | .gm2aieNb route portName => route.refuses (portName ≠ []) .invalidName
  | .aie2gmNb route portName => route.refuses (portName ≠ []) .invalidName

section Calls

variable (aiesim : Bool) (mgr : ConfigManager) (config : ExternalBufferConfig)

def BufferCall.method : BufferCall → BufferProgram ErrCode
  | .setAddress _ ptr => do
    Program.modifyState (BufferState.setAddress ptr)
    pure .ok
  | .setupPingPongBuffers _ ptr1 ptr2 syncCache =>
    ExternalBuffer.setupPingPongBuffers aiesim mgr config ptr1 ptr2 syncCache
  | .gm2aieNb _ portName => ExternalBuffer.gm2aieNb aiesim mgr config portName
  | .aie2gmNb _ portName => ExternalBuffer.aie2gmNb aiesim mgr config portName

def applicationCall (call : BufferCall) : BufferProgram AegErr :=
  match call.refused with
  | some code => pure code
  | none => do
    let code ← call.method aiesim mgr config
    pure (errFromAbr code)

structure CallRecord where
  call : BufferCall
  code : AegErr
  events : List PlatformEvent

/-- Calls that returned one after another. -/
inductive CallHistory : BufferState → List CallRecord → BufferState → Prop
  | nil (s : BufferState) : CallHistory s [] s
  | snoc {s s₁ s₂ : BufferState} {records : List CallRecord} {call : BufferCall} {code : AegErr}
      {events : List PlatformEvent} {script rest : List DriverAnswer} (before : CallHistory s records s₁)
      (returned : applicationCall aiesim mgr config call ⟨s₁, [], script⟩ = (.returned code, ⟨s₂, events, rest⟩)) :
      CallHistory s (records ++ [⟨call, code, events⟩]) s₂

end Calls

def lookup (e : PlatformEvent) : Option (BitVec 64) :=
  match e.call with
  | .getDevAddr vaddr => some vaddr
  | _ => none

def lookups (events : List PlatformEvent) : List (BitVec 64) := events.filterMap lookup

def setupPointers (config : ExternalBufferConfig) (pointers : BitVec 64 × BitVec 64) : List (BitVec 64) :=
  (config.shimPortConfigs.flatMap ShimPortConfig.shimBDInfos).map fun bd =>
    if bd.bufIdx = 0#32 then pointers.1 else pointers.2

def CallRecord.addressSet (r : CallRecord) : Option (BitVec 64) :=
  match r.call with
  | .setAddress _ ptr => if r.code = .ok then some ptr else none
  | _ => none

def CallRecord.pointersSet (r : CallRecord) : Option (BitVec 64 × BitVec 64) :=
  match r.call with
  | .setupPingPongBuffers _ ptr1 ptr2 _ => if r.code = .ok then some (ptr1, ptr2) else none
  | _ => none

/-- The two addresses a call brought to the object. -/
def CallRecord.pointersGiven (r : CallRecord) : Option (BitVec 64 × BitVec 64) :=
  match r.call with
  | .setupPingPongBuffers _ ptr1 ptr2 _ => if r.call.refused = none then some (ptr1, ptr2) else none
  | _ => none

/-- The last result of a partial function over a history. -/
def lastOf {A B : Type} (f : A → Option B) (as : List A) : Option B := as.reverse.findSome? f

/-- A call uses the addresses that the last successful call, or for a set-up its own, set. -/
def CallRecord.UsesLast (config : ExternalBufferConfig) (before : List CallRecord) (r : CallRecord) : Prop :=
  match r.call with
  | .setAddress _ _ => True
  | .setupPingPongBuffers _ _ _ _ =>
    ∀ pointers, lastOf CallRecord.pointersSet (before ++ [r]) = some pointers →
      lookups r.events <+: setupPointers config pointers
  | .gm2aieNb _ _ | .aie2gmNb _ _ =>
    ∀ ptr, lastOf CallRecord.addressSet before = some ptr → ∀ vaddr ∈ lookups r.events, vaddr = ptr

/-- In a history every call uses the addresses that were set last. -/
def DeterminesPointers (config : ExternalBufferConfig) (records : List CallRecord) : Prop :=
  ∀ before r after, records = before ++ r :: after → r.UsesLast config before

def CallRecord.LastIsFirst (config : ExternalBufferConfig) (before : List CallRecord) (r : CallRecord) : Prop :=
  match r.call with
  | .setAddress _ _ => True
  | .setupPingPongBuffers _ _ _ _ =>
    r.call.refused = none → ∀ first last, (before ++ [r]).findSome? CallRecord.pointersGiven = some first →
      lastOf CallRecord.pointersSet (before ++ [r]) = some last → setupPointers config first =
        setupPointers config last
  | .gm2aieNb _ portName | .aie2gmNb _ portName =>
    r.call.refused = none → findPort config portName ≠ none →
      ∀ ptr, lastOf CallRecord.addressSet before = some ptr → before.findSome? CallRecord.addressSet = some ptr

section Lookups

variable {A B : Type} {mgr : ConfigManager} {port : ShimPortConfig} {vaddrs more : List (BitVec 64)}

def BufferState.pointers (s : BufferState) : BitVec 64 × BitVec 64 × BitVec 64 :=
  (s.ddrAddress, s.pingAddress, s.pongAddress)

/-- Every run that returns looked up these buffers. -/
abbrev LooksUp (vaddrs : List (BitVec 64)) (p : BufferProgram A) : Prop :=
  Records lookup BufferState.pointers vaddrs p

theorem looksUp_platform (call : PlatformCall) :
    LooksUp (lookup ⟨call, { rc := 0#32, value := 0#64, bytes := [], progress := 0 }⟩).toList (platform call) :=
  records_ask fun _ => rfl

theorem looksUp_dmaStatuses (driverStatus : BitVec 32) (calls : List DmaCall) :
    LooksUp [] (dmaStatuses driverStatus calls : BufferProgram (BitVec 32)) := by
  induction calls generalizing driverStatus with
  | nil => exact records_pure driverStatus
  | cons call rest ih => exact (looksUp_platform (.dma call)).bind fun answer => ih _

theorem looksUp_enqueuePort (l : BdLocals) : LooksUp [] (enqueuePort mgr port l) :=
  (looksUp_dmaStatuses _ _).bind fun _ => records_pure _

theorem looksUp_updateBDAddress (tile : RelativeTile) (bdId : BitVec 8) (address : BitVec 64) :
    LooksUp [] (updateBDAddress mgr tile bdId address : BufferProgram ErrCode) :=
  (looksUp_dmaStatuses _ _).bind fun _ => records_pure _

theorem looksUp_getAddress (phyAddress vaddr : BitVec 64) : LooksUp [vaddr] (getAddress phyAddress vaddr) :=
  (looksUp_platform (.getDevAddr vaddr)).bind fun _ => records_pure _

theorem looksUp_updateBds (l : BdLocals) (bds : List ShimBDInfo) : LooksUp [] (updateBds mgr port l bds) := by
  induction bds generalizing l with
  | nil => exact records_pure l
  | cons bd rest ih => exact (looksUp_updateBDAddress _ _ _).bind fun _ => ih _

theorem looksUp_updatePingPongBds (s : BufferState) (l : BdLocals) (transaction : TransactionInfo)
    (bds : List ShimBDInfo) :
    LooksUp (bds.map fun bd => if bd.bufIdx = 0#32 then s.pingAddress else s.pongAddress)
      (updatePingPongBds mgr s port l transaction bds) := by
  induction bds generalizing l transaction with
  | nil => exact records_pure _
  | cons bd rest ih =>
    intro w a w' h
    obtain ⟨ddrMem, w₁, hselect, hrest⟩ := exists_of_bind_returned h
    obtain ⟨hsome, rfl⟩ := eq_of_ofOption_returned hselect
    have hddrMem : ddrMem = if bd.bufIdx = 0#32 then s.pingAddress else s.pongAddress := by
      rw [BufferState.pingpongAddress] at hsome
      split at hsome
      · next hidx => rw [if_pos hidx, ← Option.some.inj hsome]
      · next hidx =>
        split at hsome
        · rw [if_neg hidx, ← Option.some.inj hsome]
        · cases hsome
    rw [List.map_cons, ← hddrMem]
    refine (looksUp_getAddress l.phyAddress ddrMem).single (fun phyAddress => ?_) _ _ _ hrest
    exact (looksUp_updateBDAddress _ _ _).bind fun _ => ih _ _

theorem looksUp_setupPort (aiesim : Bool) (s : BufferState) (syncCache : Bool) :
    LooksUp (port.shimBDInfos.map fun bd => if bd.bufIdx = 0#32 then s.pingAddress else s.pongAddress)
      (setupPort aiesim mgr s syncCache port) := by
  rw [← List.append_nil (List.map _ _)]
  refine (looksUp_updatePingPongBds s _ _ _).bind fun result => ?_
  obtain ⟨l, transaction⟩ := result
  cases aiesim with
  | true =>
    refine (records_modifyState fun s => ?_).bind fun _ => looksUp_enqueuePort l
    unfold BufferState.remember
    split <;> rfl
  | false =>
    cases syncCache with
    | true => exact (looksUp_platform _).bind fun _ => looksUp_enqueuePort l
    | false => exact looksUp_enqueuePort l

theorem looksUp_setupPorts (aiesim : Bool) (s : BufferState) (syncCache : Bool) (status : ErrCode)
    (ports : List ShimPortConfig) :
    LooksUp ((ports.flatMap ShimPortConfig.shimBDInfos).map fun bd =>
        if bd.bufIdx = 0#32 then s.pingAddress else s.pongAddress)
      (setupPorts aiesim mgr s syncCache status ports) := by
  induction ports generalizing status with
  | nil => exact records_pure status
  | cons port rest ih =>
    rw [List.flatMap_cons, List.map_append]
    exact (looksUp_setupPort aiesim s syncCache).bind ih

end Lookups

variable {ptr1 ptr2 : BitVec 64} {route : Route}

section Methods

variable {aiesim : Bool} {mgr : ConfigManager} {config : ExternalBufferConfig} {portName : List UInt8}
  {port : ShimPortConfig} {w w' : World PlatformEvent DriverAnswer BufferState} {code : ErrCode}

def transferPointers (config : ExternalBufferConfig) (portName : List UInt8) (s : BufferState) : List (BitVec 64) :=
  if findPort config portName = none then [] else [s.ddrAddress]

theorem lookups_transferNb {sync : BitVec 64 → BdLocals → BufferProgram Unit}
    (hsync : ∀ ddrAddress l, LooksUp [] (sync ddrAddress l))
    (h : transferNb mgr config portName sync w = (.returned code, w')) :
    lookups w'.trace = lookups w.trace ++ transferPointers config portName w.state ∧
      w'.state.pointers = w.state.pointers := by
  cases hport : findPort config portName with
  | none =>
    rw [transferNb, onPort_of_none hport] at h
    rw [transferPointers, if_pos hport]
    exact records_pure _ _ _ _ h
  | some port =>
    rw [transferNb, onPort_of_some hport] at h
    rw [transferPointers, hport, if_neg (Option.some_ne_none port)]
    refine (looksUp_getAddress _ _).single (fun phyAddress => ?_) _ _ _ h
    exact (looksUp_updateBds _ _).bind fun l => (hsync _ l).bind fun _ => looksUp_enqueuePort l

theorem lookups_gm2aieNb (h : gm2aieNb aiesim mgr config portName w = (.returned code, w')) :
    lookups w'.trace = lookups w.trace ++ transferPointers config portName w.state ∧
      w'.state.pointers = w.state.pointers := by
  refine lookups_transferNb (fun ddrAddress l => ?_) h
  cases aiesim with
  | true =>
    refine Records.quiet (records_modifyState ?_) fun _ =>
      (looksUp_platform _).bind fun _ => records_pure _
    exact fun _ => rfl
  | false => exact (looksUp_platform _).bind fun _ => records_pure _

theorem lookups_aie2gmNb (h : aie2gmNb aiesim mgr config portName w = (.returned code, w')) :
    lookups w'.trace = lookups w.trace ++ transferPointers config portName w.state ∧
      w'.state.pointers = w.state.pointers := by
  refine lookups_transferNb (fun _ l => ?_) h
  cases aiesim with
  | true =>
    rw [if_pos rfl]
    refine records_modifyState ?_
    exact fun _ => rfl
  | false => exact (looksUp_platform _).bind fun _ => records_pure _

theorem lookups_setupPingPongBuffers {syncCache : Bool}
    (h : setupPingPongBuffers aiesim mgr config ptr1 ptr2 syncCache w = (.returned code, w')) :
    lookups w'.trace = lookups w.trace ++ setupPointers config
        ((w.state.setPingPong ptr1 ptr2).pingAddress, (w.state.setPingPong ptr1 ptr2).pongAddress) ∧
      w'.state.pointers = (w.state.setPingPong ptr1 ptr2).pointers :=
  looksUp_setupPorts aiesim (w.state.setPingPong ptr1 ptr2) syncCache .ok config.shimPortConfigs
    { w with state := w.state.setPingPong ptr1 ptr2 } code w' h

end Methods

section Histories

variable {aiesim : Bool} {mgr : ConfigManager} {config : ExternalBufferConfig} {call : BufferCall} {code : AegErr}
  {s s₁ s₂ : BufferState} {records before : List CallRecord} {r : CallRecord} {events : List PlatformEvent}
  {script rest : List DriverAnswer}

theorem refuses_ne_ok {validArgument : Bool} {invalid : AegErr} (hinvalid : invalid ≠ .ok) :
    route.refuses validArgument invalid ≠ some .ok := by
  unfold Route.refuses
  split
  · exact nofun
  · split
    · exact fun h => hinvalid (Option.some.inj h)
    · split <;> exact nofun

theorem refused_ne_ok (call : BufferCall) : call.refused ≠ some .ok := by
  cases call <;> exact refuses_ne_ok nofun

theorem valid_of_refuses_eq_none {validArgument : Bool} {invalid : AegErr}
    (h : route.refuses validArgument invalid = none) : validArgument = true := by
  unfold Route.refuses at h
  split at h
  · cases h
  · split at h
    · cases h
    · next hvalid => simpa using hvalid

theorem applicationCall_cases
    (h : applicationCall aiesim mgr config call ⟨s₁, [], script⟩ = (.returned code, ⟨s₂, events, rest⟩)) :
    (call.refused = some code ∧ s₂ = s₁ ∧ events = []) ∨ (call.refused = none ∧ ∃ c, code = errFromAbr c ∧
        call.method aiesim mgr config ⟨s₁, [], script⟩ = (.returned c, ⟨s₂, events, rest⟩)) := by
  unfold applicationCall at h
  cases hrefused : call.refused with
  | some stopped =>
    rw [hrefused] at h
    cases h
    exact .inl ⟨rfl, rfl, rfl⟩
  | none =>
    rw [hrefused] at h
    obtain ⟨c, w, hmethod, hpure⟩ := exists_of_bind_returned h
    cases hpure
    exact .inr ⟨rfl, c, rfl, hmethod⟩

theorem findSome?_snoc {A B : Type} (f : A → Option B) (as : List A) (a : A) :
    (as ++ [a]).findSome? f = (as.findSome? f).or (f a) := by
  rw [List.findSome?_append, List.findSome?_singleton]

/-- The object holds the first address set and the first two given. -/
structure Latched (records : List CallRecord) (s : BufferState) : Prop where
  ddr : s.ddrAddress = (records.findSome? CallRecord.addressSet).getD 0#64
  pingpong : (s.pingAddress, s.pongAddress) = (records.findSome? CallRecord.pointersGiven).getD (0#64, 0#64)
  ddr_ne : ∀ first, records.findSome? CallRecord.addressSet = some first → first ≠ 0#64
  pingpong_ne : ∀ first, records.findSome? CallRecord.pointersGiven = some first → first ≠ (0#64, 0#64)

theorem latch_eq_getD {V : Type} [DecidableEq V] {null v given : V} {first : Option V} (hv : v = first.getD null)
    (hfirst : ∀ v, first = some v → v ≠ null) :
    (if v = null then given else v) = (first.or (some given)).getD null := by
  subst hv
  cases first with
  | none => exact if_pos rfl
  | some v => exact if_neg (hfirst v rfl)

theorem or_ne_null {V : Type} {null given : V} {first : Option V} (hgiven : given ≠ null)
    (hfirst : ∀ v, first = some v → v ≠ null) : ∀ v, first.or (some given) = some v → v ≠ null := by
  cases first with
  | none =>
    rintro _ ⟨⟩
    exact hgiven
  | some v => exact hfirst

theorem Latched.keep (h : Latched records s₁) (haddress : r.addressSet = none) (hpointers : r.pointersGiven = none)
    (hs : s₂.pointers = s₁.pointers) : Latched (records ++ [r]) s₂ := by
  simp only [BufferState.pointers, Prod.mk.injEq] at hs
  obtain ⟨hddr, hping, hpong⟩ := hs
  constructor
  · rw [findSome?_snoc, haddress, Option.or_none, hddr, h.ddr]
  · rw [findSome?_snoc, hpointers, Option.or_none, hping, hpong, h.pingpong]
  · rw [findSome?_snoc, haddress, Option.or_none]
    exact h.ddr_ne
  · rw [findSome?_snoc, hpointers, Option.or_none]
    exact h.pingpong_ne

theorem Latched.setAddress {ptr : BitVec 64} (h : Latched records s) (haddress : r.addressSet = some ptr)
    (hpointers : r.pointersGiven = none) (hptr : ptr ≠ 0#64) : Latched (records ++ [r]) (s.setAddress ptr) := by
  have hddr : (s.setAddress ptr).ddrAddress = if s.ddrAddress = 0#64 then ptr else s.ddrAddress := by
    unfold BufferState.setAddress
    split <;> rfl
  have hpingpong : ((s.setAddress ptr).pingAddress, (s.setAddress ptr).pongAddress) =
    (s.pingAddress, s.pongAddress) := by
    unfold BufferState.setAddress
    split <;> rfl
  constructor
  · rw [findSome?_snoc, haddress, hddr]
    exact latch_eq_getD h.ddr h.ddr_ne
  · rw [findSome?_snoc, hpointers, Option.or_none, hpingpong, h.pingpong]
  · rw [findSome?_snoc, haddress]
    exact or_ne_null hptr h.ddr_ne
  · rw [findSome?_snoc, hpointers, Option.or_none]
    exact h.pingpong_ne

theorem Latched.setPingPong (h : Latched records s) (haddress : r.addressSet = none)
    (hpointers : r.pointersGiven = some (ptr1, ptr2)) (hptr : ptr1 ≠ 0#64)
    (hs : s₂.pointers = (s.setPingPong ptr1 ptr2).pointers) : Latched (records ++ [r]) s₂ := by
  have hddr : (s.setPingPong ptr1 ptr2).ddrAddress = s.ddrAddress := by
    unfold BufferState.setPingPong
    split <;> rfl
  have hpingpong : ((s.setPingPong ptr1 ptr2).pingAddress, (s.setPingPong ptr1 ptr2).pongAddress) =
      if (s.pingAddress, s.pongAddress) = (0#64, 0#64) then (ptr1, ptr2) else (s.pingAddress, s.pongAddress) := by
    simp only [BufferState.setPingPong, Prod.mk.injEq]
    split <;> rfl
  simp only [BufferState.pointers, Prod.mk.injEq] at hs
  obtain ⟨hddr₂, hping₂, hpong₂⟩ := hs
  constructor
  · rw [findSome?_snoc, haddress, Option.or_none, hddr₂, hddr, h.ddr]
  · rw [findSome?_snoc, hpointers, hping₂, hpong₂, hpingpong]
    exact latch_eq_getD h.pingpong h.pingpong_ne
  · rw [findSome?_snoc, haddress, Option.or_none]
    exact h.ddr_ne
  · rw [findSome?_snoc, hpointers]
    exact or_ne_null (fun hnull => hptr (congrArg Prod.fst hnull)) h.pingpong_ne

theorem Latched.step (h : Latched records s₁)
    (hcall : applicationCall aiesim mgr config call ⟨s₁, [], script⟩ = (.returned code, ⟨s₂, events, rest⟩)) :
    Latched (records ++ [⟨call, code, events⟩]) s₂ := by
  obtain ⟨hrefused, rfl, rfl⟩ | ⟨hrefused, c, rfl, hmethod⟩ := applicationCall_cases hcall
  · have hcode : code ≠ .ok := fun hok => refused_ne_ok call (hrefused.trans (congrArg some hok))
    refine h.keep ?_ ?_ rfl
    · cases call <;> simp [CallRecord.addressSet, hcode]
    · cases call <;> simp [CallRecord.pointersGiven, hrefused]
  · cases call with
    | setAddress route ptr =>
      cases hmethod
      exact h.setAddress rfl rfl (by simpa using valid_of_refuses_eq_none hrefused)
    | setupPingPongBuffers route ptr1 ptr2 syncCache =>
      have hvalid : ptr1 ≠ 0#64 ∧ ptr2 ≠ 0#64 := by simpa using valid_of_refuses_eq_none hrefused
      exact h.setPingPong rfl (by simp [CallRecord.pointersGiven, hrefused]) hvalid.1
        (lookups_setupPingPongBuffers hmethod).2
    | gm2aieNb route portName => exact h.keep rfl rfl (lookups_gm2aieNb hmethod).2
    | aie2gmNb route portName => exact h.keep rfl rfl (lookups_aie2gmNb hmethod).2

theorem CallHistory.latched (h : CallHistory aiesim mgr config BufferState.fresh records s) :
    Latched records s := by
  generalize hfresh : BufferState.fresh = s₀ at h
  induction h with
  | nil =>
    subst hfresh
    exact ⟨rfl, rfl, nofun, nofun⟩
  | snoc before returned ih => exact ih.step returned

theorem CallHistory.exists_call {after : List CallRecord}
    (h : CallHistory aiesim mgr config BufferState.fresh (before ++ r :: after) s) :
    ∃ s₁ s₂ script rest, CallHistory aiesim mgr config BufferState.fresh before s₁ ∧
      applicationCall aiesim mgr config r.call ⟨s₁, [], script⟩ = (.returned r.code, ⟨s₂, r.events, rest⟩) := by
  generalize hrecords : before ++ r :: after = records at h
  induction h generalizing after with
  | nil => exact absurd hrecords (by simp)
  | @snoc s₁ s₂ records call code events script rest hbefore hreturned ih =>
    obtain rfl | ⟨earlier, last, rfl⟩ := List.eq_nil_or_concat after
    · obtain ⟨rfl, hlast⟩ := List.append_inj' hrecords rfl
      cases hlast
      exact ⟨s₁, s₂, script, rest, hbefore, hreturned⟩
    · rw [List.concat_eq_append, ← List.cons_append, ← List.append_assoc] at hrecords
      exact ih (List.append_inj' hrecords rfl).1

theorem isSome_lastOf_iff {A B : Type} (f : A → Option B) (as : List A) :
    (lastOf f as).isSome ↔ (as.findSome? f).isSome := by
  simp [lastOf, List.findSome?_isSome_iff]

theorem usesLast_transfer_iff (hlatched : Latched before s₁) {portName : List UInt8}
    (hrefused : call.refused = some code ∧ events = [] ∨
      call.refused = none ∧ lookups events = transferPointers config portName s₁) :
    (∀ ptr, lastOf CallRecord.addressSet before = some ptr → ∀ vaddr ∈ lookups events, vaddr = ptr) ↔
      (call.refused = none → findPort config portName ≠ none →
        ∀ ptr, lastOf CallRecord.addressSet before = some ptr →
        before.findSome? CallRecord.addressSet = some ptr) := by
  obtain ⟨hrefused, rfl⟩ | ⟨hrefused, hlookups⟩ := hrefused
  · rw [hrefused]
    exact iff_of_true (fun _ _ => nofun) nofun
  · simp only [hrefused, hlookups, transferPointers, true_imp_iff]
    by_cases hport : findPort config portName = none
    · simp [hport]
    · simp only [hport, if_false, List.mem_singleton, forall_eq, ne_eq, not_false_eq_true, true_imp_iff]
      refine forall₂_congr fun ptr hlast => ?_
      have hfirst : (before.findSome? CallRecord.addressSet).isSome :=
        (isSome_lastOf_iff _ _).mp (by rw [hlast]; rfl)
      obtain ⟨first, hfirst⟩ := Option.isSome_iff_exists.mp hfirst
      rw [hlatched.ddr, hfirst]
      simp

/-- A call that looks up the latched addresses uses the last ones exactly if the first agree with them in every
descriptor. -/
theorem usesLast_setup_iff {syncCache : Bool}
    (hcall : r.call = .setupPingPongBuffers route ptr1 ptr2 syncCache) (hlatched : Latched (before ++ [r]) s₂)
    (hrefused : r.call.refused = some code ∧ r.events = [] ∨
      r.call.refused = none ∧ lookups r.events = setupPointers config (s₂.pingAddress, s₂.pongAddress)) :
    (∀ last, lastOf CallRecord.pointersSet (before ++ [r]) = some last →
      lookups r.events <+: setupPointers config last) ↔
      (r.call.refused = none → ∀ first last, (before ++ [r]).findSome? CallRecord.pointersGiven = some first →
        lastOf CallRecord.pointersSet (before ++ [r]) = some last →
        setupPointers config first = setupPointers config last) := by
  obtain ⟨hrefused, hevents⟩ | ⟨hrefused, hlookups⟩ := hrefused
  · rw [hrefused, hevents]
    exact iff_of_true (fun _ _ => List.nil_prefix) nofun
  · have hgiven : r.pointersGiven = some (ptr1, ptr2) := by
      rw [hcall] at hrefused
      simp [CallRecord.pointersGiven, hcall, hrefused]
    obtain ⟨first, hfirst⟩ : ∃ first, (before ++ [r]).findSome? CallRecord.pointersGiven = some first := by
      rw [findSome?_snoc, hgiven]
      cases before.findSome? CallRecord.pointersGiven with
      | none => exact ⟨_, rfl⟩
      | some first => exact ⟨first, rfl⟩
    have hpointers : (s₂.pingAddress, s₂.pongAddress) = first := by
      rw [hlatched.pingpong, hfirst]
      rfl
    have hlength (last : BitVec 64 × BitVec 64) :
        (setupPointers config first).length = (setupPointers config last).length := by
      simp only [setupPointers, List.length_map]
    rw [hlookups, hpointers, hfirst]
    constructor
    · rintro h - _ last ⟨⟩ hlast
      exact (h last hlast).eq_of_length (hlength last)
    · intro h last hlast
      have hsame := h hrefused first last rfl hlast
      exact hsame ▸ List.prefix_refl _

/-- In every history of a new object the calls use the addresses set last exactly if, at each call that uses them,
the first addresses given are the ones set last. -/
theorem determinesPointers_iff (aiesim : Bool) (mgr : ConfigManager) (config : ExternalBufferConfig)
    (records : List CallRecord) (s : BufferState)
    (h : CallHistory aiesim mgr config BufferState.fresh records s) :
    DeterminesPointers config records ↔
      ∀ before r after, records = before ++ r :: after → r.LastIsFirst config before := by
  refine forall₄_congr fun before r after hrecords => ?_
  subst hrecords
  obtain ⟨s₁, s₂, script, rest, hbefore, hcall⟩ := h.exists_call
  have hlatched₁ : Latched before s₁ := hbefore.latched
  have hlatched₂ : Latched (before ++ [r]) s₂ := hlatched₁.step hcall
  have hcases := applicationCall_cases hcall
  unfold CallRecord.UsesLast CallRecord.LastIsFirst
  cases hkind : r.call with
  | setAddress route ptr => exact Iff.rfl
  | setupPingPongBuffers route ptr1 ptr2 syncCache =>
    simp only []
    rw [← hkind]
    refine usesLast_setup_iff hkind hlatched₂ (hcases.imp (fun hstop => ⟨hstop.1, hstop.2.2⟩) ?_)
    rintro ⟨hrefused, c, -, hmethod⟩
    rw [hkind] at hmethod
    obtain ⟨hlookups, hpointers⟩ := lookups_setupPingPongBuffers hmethod
    simp only [BufferState.pointers, Prod.mk.injEq] at hpointers
    refine ⟨hrefused, ?_⟩
    rw [hpointers.2.1, hpointers.2.2]
    exact hlookups
  | gm2aieNb route portName =>
    simp only []
    rw [← hkind]
    refine usesLast_transfer_iff hlatched₁ (hcases.imp (fun hstop => ⟨hstop.1, hstop.2.2⟩) ?_)
    rintro ⟨hrefused, c, -, hmethod⟩
    rw [hkind] at hmethod
    exact ⟨hrefused, (lookups_gm2aieNb hmethod).1⟩
  | aie2gmNb route portName =>
    simp only []
    rw [← hkind]
    refine usesLast_transfer_iff hlatched₁ (hcases.imp (fun hstop => ⟨hstop.1, hstop.2.2⟩) ?_)
    rintro ⟨hrefused, c, -, hmethod⟩
    rw [hkind] at hmethod
    exact ⟨hrefused, (lookups_aie2gmNb hmethod).1⟩

end Histories

section Samples

def bareBuffer : ExternalBufferConfig where
  id := 1#16
  name := some [98]
  shimPortConfigs := [⟨1#32, some [112], 3#16, 1#32, 0#16, 1#32, false, []⟩]

def bareManager : ConfigManager where
  devGen := xaieDevGenAieml
  numReservedRows := 1#64
  broadcastEnableCore := false

def typedRoute : Route where
  byName := false
  isInitialized := true
  found := true

def accepted : DriverAnswer where
  rc := 0#32
  value := 0#64
  bytes := []
  progress := 0

def setRecord (ptr : BitVec 64) : CallRecord := ⟨.setAddress typedRoute ptr, .ok, []⟩

def transferRecord (vaddr : BitVec 64) : CallRecord :=
  ⟨.gm2aieNb typedRoute [112], .ok,
    [⟨.getDevAddr vaddr, accepted⟩, ⟨.syncForDev vaddr 0#64, accepted⟩,
      ⟨.dma (.channelSetStartQueue ⟨0#8, 3#8⟩ 0#8 1#32 255#16 1#32 0#8), accepted⟩]⟩

theorem CallHistory.set {records : List CallRecord} {s : BufferState} (ptr : BitVec 64) (hptr : ptr ≠ 0#64)
    (h : CallHistory false bareManager bareBuffer BufferState.fresh records s) :
    CallHistory false bareManager bareBuffer BufferState.fresh (records ++ [setRecord ptr]) (s.setAddress ptr) := by
  have hcall : applicationCall false bareManager bareBuffer (.setAddress typedRoute ptr) ⟨s, [], []⟩ =
      (.returned .ok, ⟨s.setAddress ptr, [], []⟩) := by
    have hrefused : (BufferCall.setAddress typedRoute ptr).refused = none := by
      simp [BufferCall.refused, Route.refuses, typedRoute, hptr]
    rw [applicationCall, hrefused]
    rfl
  exact .snoc h hcall

theorem CallHistory.transfer {records : List CallRecord} {s : BufferState}
    (h : CallHistory false bareManager bareBuffer BufferState.fresh records s) :
    CallHistory false bareManager bareBuffer BufferState.fresh (records ++ [transferRecord s.ddrAddress]) s := by
  have hcall : applicationCall false bareManager bareBuffer (.gm2aieNb typedRoute [112])
      ⟨s, [], [accepted, accepted, accepted]⟩ = (.returned .ok, ⟨s, (transferRecord s.ddrAddress).events, []⟩) :=
        rfl
  exact .snoc h hcall

/-- The equivalence at a history in which an address is set once and used. -/
theorem determinesPointers_sample :
    CallHistory false bareManager bareBuffer BufferState.fresh [setRecord 0x1000#64, transferRecord 0x1000#64]
        (BufferState.fresh.setAddress 0x1000#64) ∧
      (DeterminesPointers bareBuffer [setRecord 0x1000#64, transferRecord 0x1000#64] ↔
        ∀ before r after, [setRecord 0x1000#64, transferRecord 0x1000#64] = before ++ r :: after →
          r.LastIsFirst bareBuffer before) := by
  have hhistory := ((CallHistory.nil BufferState.fresh).set 0x1000#64 (by decide)).transfer
  exact ⟨hhistory, determinesPointers_iff _ _ _ _ _ hhistory⟩

/-- A second address is set with ok, and the transfer uses the first. -/
theorem second_address_is_ignored :
    CallHistory false bareManager bareBuffer BufferState.fresh
        [setRecord 0x1000#64, setRecord 0x2000#64, transferRecord 0x1000#64]
          (BufferState.fresh.setAddress 0x1000#64) ∧
      ¬DeterminesPointers bareBuffer [setRecord 0x1000#64, setRecord 0x2000#64, transferRecord 0x1000#64] := by
  refine ⟨(((CallHistory.nil BufferState.fresh).set 0x1000#64 (by decide)).set 0x2000#64 (by decide)).transfer,
    fun h => ?_⟩
  have huses := h [setRecord 0x1000#64, setRecord 0x2000#64] (transferRecord 0x1000#64) [] rfl
  exact absurd (huses 0x2000#64 (by decide) 0x1000#64 (by decide)) (by decide)

end Samples

end AieBaremetal.ExternalBuffer
