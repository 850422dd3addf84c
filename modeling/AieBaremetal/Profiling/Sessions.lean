import Mathlib.Data.Finset.Dedup
import AieBaremetal.Profiling.Api

/-!
# What a profiling session holds

A start reserves its resources one by one and configures them at the end. It succeeds, fails with
everything as it was, or fails and loses what it had reserved: except for a refused broadcast channel
it releases nothing on its way out. Which of the three happened can be read off the answers it got.
-/

namespace AieBaremetal.Profiling

open Common Common.Program AieBaremetal.Runtime

/-- The code looks at the status of the call, which is bad. -/
def ProfilingEvent.statusFails : ProfilingEvent → Bool
  | .fal (.getBc _) _ => false
  | .fal (.getChannel _) _ => false
  | .fal _ answer => answer.rc ≠ xaieOk
  | .driver _ _ answer => answer.rc ≠ xaieOk

def ProfilingEvent.lacksId : ProfilingEvent → Bool
  | .fal (.getRscId _) answer => answer.value.slt 0#32
  | .fal (.getBc _) answer => answer.value.slt 0#32
  | _ => false

/-- The call is neither a release nor the reservation of a broadcast channel. -/
def ProfilingEvent.isVital : ProfilingEvent → Bool
  | .fal (.release _) _ => false
  | .fal (.reserve rsc) _ => rsc.kind ≠ .broadcast
  | _ => true

/-- The answer makes a start fail without a way back. -/
def ProfilingEvent.breaksStart (e : ProfilingEvent) : Bool := e.isVital && (e.statusFails || e.lacksId)

/-- The call asks for the id of a single tile resource. -/
def ProfilingEvent.asksId : ProfilingEvent → Bool
  | .fal (.getRscId _) _ => true
  | _ => false

/-- A start keeps the account: its first call was refused, or none of its calls broke it. -/
def startKept (events : List ProfilingEvent) :
    Bool := decide (events.length ≤ 1) || !events.any ProfilingEvent.breaksStart

section Runs

variable {w w' : ProfilingWorld} {rsc : Resource}

theorem fal_returned {call : FalCall} {answer : Answer} (h : fal call w = (.returned answer, w')) :
    ∃ script, w' = ⟨w.state, w.trace ++ [.fal call answer], script⟩ := by
  obtain ⟨script, -, rfl⟩ := exists_of_ask_returned h
  exact ⟨script, rfl⟩

/-- Driver calls change no state; their joined status is good if all of them are. -/
theorem accumulateStatus_returned {driverStatus status : BitVec 32} {calls : List ProfileCall}
    (h : accumulateStatus driverStatus calls w = (.returned status, w')) :
    ∃ more script, w' = ⟨w.state, w.trace ++ more, script⟩ ∧
      more.any ProfilingEvent.breaksStart = more.any ProfilingEvent.statusFails ∧
      more.any ProfilingEvent.asksId = false ∧
      (status = xaieOk ↔ driverStatus = xaieOk ∧ more.any ProfilingEvent.statusFails = false) := by
  induction calls generalizing driverStatus w with
  | nil =>
    cases h
    exact ⟨[], w'.script, by simp, rfl, rfl, by simp⟩
  | cons call rest ih =>
    obtain ⟨answer, w₁, hcall, h⟩ := exists_of_bind_returned h
    obtain ⟨script₁, -, rfl⟩ := exists_of_ask_returned hcall
    obtain ⟨more, script, rfl, hbreaks, hasks, hstatus⟩ := ih h
    refine ⟨.driver w.state.devInst call answer :: more, script, by simp, ?_, ?_, ?_⟩
    · simp [ProfilingEvent.breaksStart, ProfilingEvent.isVital, ProfilingEvent.lacksId, hbreaks]
    · simpa [ProfilingEvent.asksId] using hasks
    · have hjoined : driverStatus ||| answer.rc = xaieOk ↔ driverStatus = xaieOk ∧ answer.rc = xaieOk :=
        BitVec.or_eq_zero_iff
      rw [hstatus, hjoined, List.any_cons, Bool.or_eq_false_iff]
      simp [ProfilingEvent.statusFails, and_assoc]

theorem reserve_returned {rc : BitVec 32} (h : reserve rsc w = (.returned rc, w')) :
    ∃ answer script, answer.rc = rc ∧
      w' = ⟨if rc = xaieOk then { w.state with reserved := insert rsc w.state.reserved } else w.state,
        w.trace ++ [.fal (.reserve rsc) answer], script⟩ := by
  obtain ⟨answer, w₁, hfal, h⟩ := exists_of_bind_returned h
  obtain ⟨script, rfl⟩ := fal_returned hfal
  by_cases hok : answer.rc = xaieOk
  · rw [if_pos hok] at h
    cases h
    exact ⟨answer, script, rfl, by rw [if_pos hok]⟩
  · rw [if_neg hok] at h
    cases h
    exact ⟨answer, script, rfl, by rw [if_neg hok]⟩

/-- A request is refused without effect, or reserves its resource; its last answer tells whether there is an id. -/
theorem request_returned {id : BitVec 32} (h : request rsc w = (.returned id, w')) :
    (id.slt 0#32 = true ∧ ∃ answer script, answer.rc ≠ xaieOk ∧
      w' = ⟨w.state, w.trace ++ [.fal (.reserve rsc) answer], script⟩) ∨
    ∃ answer e script, answer.rc = xaieOk ∧ ProfilingEvent.breaksStart e = id.slt 0#32 ∧
      w' = ⟨{ w.state with reserved := insert rsc w.state.reserved }, w.trace ++ [.fal (.reserve rsc) answer, e],
        script⟩ := by
  obtain ⟨rc, w₁, hreserve, h⟩ := exists_of_bind_returned h
  obtain ⟨answer, script, rfl, rfl⟩ := reserve_returned hreserve
  by_cases hok : answer.rc = xaieOk
  · simp only [if_pos hok] at h
    by_cases hkind : rsc.kind = .broadcast
    · rw [if_pos hkind] at h
      obtain ⟨answer', w₂, hfal, h⟩ := exists_of_bind_returned h
      obtain ⟨script', rfl⟩ := fal_returned hfal
      cases h
      exact .inr ⟨answer, .fal (.getBc rsc) answer', script', hok, rfl, by simp⟩
    · rw [if_neg hkind] at h
      obtain ⟨answer', w₂, hfal, h⟩ := exists_of_bind_returned h
      obtain ⟨script', rfl⟩ := fal_returned hfal
      cases h
      refine .inr ⟨answer, .fal (.getRscId rsc) answer', script', hok, ?_, by simp⟩
      by_cases hid : answer'.rc = xaieOk
      · simp [ProfilingEvent.breaksStart, ProfilingEvent.isVital, ProfilingEvent.statusFails,
          ProfilingEvent.lacksId, hid]
      · simp only [ProfilingEvent.breaksStart, ProfilingEvent.isVital, ProfilingEvent.statusFails, if_neg hid]
        simp [hid, noId]
  · simp only [if_neg hok] at h
    cases h
    exact .inl ⟨rfl, answer, script, hok, rfl⟩

theorem release_returned {released : Bool} (h : release rsc w = (.returned released, w')) :
    ∃ answer script, (released = true ↔ answer.rc = xaieOk) ∧
      w' = ⟨{ w.state with reserved := w.state.reserved.erase rsc }, w.trace ++ [.fal (.release rsc) answer],
        script⟩ := by
  obtain ⟨answer, w₁, hfal, h⟩ := exists_of_bind_returned h
  obtain ⟨script, rfl⟩ := fal_returned hfal
  cases h
  exact ⟨answer, script, decide_eq_true_iff, rfl⟩

end Runs

/-- A start without failures holds new resources, and nothing else changed. -/
structure Holding (base : ProfilingState) (held : List Resource) (w : ProfilingWorld) : Prop where
  reserved : w.state.reserved = base.reserved ∪ held.toFinset
  eventRecords : w.state.eventRecords = base.eventRecords
  created : base.created ≤ w.state.created
  new : ∀ rsc ∈ held, base.created ≤ rsc.id ∧ rsc.id < w.state.created
  nodup : held.Nodup
  unbroken : w.trace.any ProfilingEvent.breaksStart = false
  calls : held = [] ∧ w.trace = [] ∨ held ≠ [] ∧ 2 ≤ w.trace.length

/-- A resource is reserved and the caller not told of it. -/
structure Leaked (base : ProfilingState) (w : ProfilingWorld) : Prop where
  lost : ∃ rsc ∈ w.state.reserved, base.created ≤ rsc.id
  eventRecords : w.state.eventRecords = base.eventRecords
  created : base.created ≤ w.state.created
  broken : startKept w.trace = false

/-- A start that failed and left everything as it was. -/
structure Refused (base : ProfilingState) (w : ProfilingWorld) : Prop where
  reserved : w.state.reserved = base.reserved
  eventRecords : w.state.eventRecords = base.eventRecords
  created : base.created ≤ w.state.created
  kept : startKept w.trace = true

/-- A profiling function hands over what it holds, or fails with or without a loss. -/
def Ended (base : ProfilingState) (result : ProfileResult) (w : ProfilingWorld) : Prop :=
  (result.1 = .ok ∧ result.2 ≠ [] ∧ Holding base result.2 w) ∨ (result.1 ≠ .ok ∧ (Refused base w ∨ Leaked base w))

theorem startKept_eq_false {events : List ProfilingEvent} (hlen : 2 ≤ events.length)
    (hany : events.any ProfilingEvent.breaksStart = true) : startKept events = false := by
  have hnot : ¬ events.length ≤ 1 := by omega
  simp [startKept, hany, hnot]

theorem startKept_of_unbroken {events : List ProfilingEvent}
    (hany : events.any ProfilingEvent.breaksStart = false) :
    startKept events = true := by
  simp [startKept, hany]

variable {next : Resource → BitVec 32 → ProfilingProgram ProfileResult}

section Starts

variable {base : ProfilingState} {held acquired : List Resource} {w : ProfilingWorld}

/-- Every run from a start that holds the resources ends so. -/
def EndsFrom (base : ProfilingState) (held : List Resource) (p : ProfilingProgram ProfileResult) : Prop :=
  ∀ ⦃w r w'⦄, Holding base held w → p w = (.returned r, w') → Ended base r w'

theorem holding_nil (h : w.state = base ∧ w.trace = []) : Holding base [] w where
  reserved := by simp [h.1]
  eventRecords := by rw [h.1]
  created := by rw [h.1]
  new := nofun
  nodup := List.nodup_nil
  unbroken := by simp [h.2]
  calls := .inl ⟨rfl, h.2⟩

theorem Holding.perm (h : Holding base held w) (hperm : acquired.Perm held) : Holding base acquired w where
  reserved := by rw [h.reserved, List.toFinset_eq_of_perm _ _ hperm]
  eventRecords := h.eventRecords
  created := h.created
  new := fun rsc hrsc => h.new rsc (hperm.mem_iff.mp hrsc)
  nodup := hperm.nodup_iff.mpr h.nodup
  unbroken := h.unbroken
  calls := by
    rcases h.calls with ⟨hnil, htrace⟩ | ⟨hnil, hlen⟩
    · exact .inl ⟨(hnil ▸ hperm).eq_nil, htrace⟩
    · exact .inr ⟨fun hacquired => hnil (hacquired ▸ hperm.symm).eq_nil, hlen⟩

theorem Holding.not_mem (h : Holding base held w) {rsc : Resource} (hid : rsc.id = w.state.created) : rsc ∉ held :=
  fun hmem => absurd (h.new rsc hmem).2 (by omega)

/-- What is held stays held while calls are made that break nothing. -/
theorem Holding.append (h : Holding base held w) (hheld : held ≠ []) {more : List ProfilingEvent}
    (hmore : more.any ProfilingEvent.breaksStart = false) (script : List Answer) :
    Holding base held ⟨w.state, w.trace ++ more, script⟩ :=
  { h with
    unbroken := by rw [List.any_append, h.unbroken, hmore, Bool.or_self]
    calls := .inr ⟨hheld, by
      have hlen := (h.calls.resolve_left fun hnil => hheld hnil.1).2
      rw [List.length_append]
      omega⟩ }

theorem Holding.snoc (h : Holding base held w) {rsc : Resource} (hid : rsc.id = w.state.created)
    {e e' : ProfilingEvent} (he : e.breaksStart = false) (he' : e'.breaksStart = false) (script : List Answer) :
    Holding base (held ++ [rsc])
      ⟨{ w.state with created := w.state.created + 1, reserved := insert rsc w.state.reserved }, w.trace ++ [e, e'],
        script⟩ where
  reserved := by
    rw [h.reserved]
    ext x
    simp only [Finset.mem_insert, Finset.mem_union, List.mem_toFinset, List.mem_append, List.mem_singleton]
    tauto
  eventRecords := h.eventRecords
  created := h.created.trans (Nat.le_succ _)
  new := by
    have hcreated := h.created
    simp only [List.mem_append, List.mem_singleton]
    rintro x (hx | rfl)
    · exact ⟨(h.new x hx).1, (h.new x hx).2.trans (Nat.lt_succ_self _)⟩
    · omega
  nodup := List.nodup_append.mpr ⟨h.nodup, List.nodup_singleton _, by
    rintro x hx y hy rfl
    exact h.not_mem hid (List.mem_singleton.mp hy ▸ hx)⟩
  unbroken := by simp [h.unbroken, he, he']
  calls := .inr ⟨List.append_ne_nil_of_right_ne_nil _ (List.cons_ne_nil _ _), by simp⟩

theorem Holding.leaked (h : Holding base held w) (hheld : held ≠ []) {s : ProfilingState}
    (hreserved : s.reserved = w.state.reserved) (hrecords : s.eventRecords = w.state.eventRecords)
    (hcreated : w.state.created ≤ s.created) {more : List ProfilingEvent}
    (hmore : more.any ProfilingEvent.breaksStart = true) (script : List Answer) :
    Leaked base ⟨s, w.trace ++ more, script⟩ where
  lost := by
    obtain ⟨rsc, hrsc⟩ := List.exists_mem_of_ne_nil held hheld
    refine ⟨rsc, ?_, (h.new rsc hrsc).1⟩
    rw [hreserved, h.reserved, Finset.mem_union, List.mem_toFinset]
    exact .inr hrsc
  eventRecords := hrecords.trans h.eventRecords
  created := h.created.trans hcreated
  broken := by
    have hlen := (h.calls.resolve_left fun hnil => hheld hnil.1).2
    apply startKept_eq_false
    · rw [List.length_append]
      omega
    · rw [List.any_append, hmore, Bool.or_true]

/-- The next resource of a start: what follows runs with it, and failing before is a clean refusal only for the
first. -/
theorem EndsFrom.requested {kind : ResourceKind} {locs : List TileLoc} (hkind : kind ≠ .broadcast)
    (hnext : ∀ rsc id, EndsFrom base (held ++ [rsc]) (next rsc id)) :
    EndsFrom base held (requested kind locs next) := by
  intro w r w' hw h
  let rsc : Resource := { id := w.state.created, kind, dev := w.state.xaieDev, locs }
  obtain ⟨id, w₁, hrequest, h⟩ := exists_of_bind_returned (p := request rsc)
    (w := { w with state := { w.state with created := w.state.created + 1 } }) h
  obtain ⟨hneg, answer, script, hrc, rfl⟩ | ⟨answer, e, script, hrc, hbreaks, rfl⟩ := request_returned hrequest
  · -- the reservation itself was refused
    rw [if_pos hneg] at h
    cases h
    refine .inr ⟨nofun, ?_⟩
    rcases hw.calls with ⟨rfl, hempty⟩ | ⟨hheld, -⟩
    · exact .inl
        ⟨by simp [hw.reserved], hw.eventRecords, hw.created.trans (Nat.le_succ _), by simp [hempty, startKept]⟩
    · refine .inr (hw.leaked (s := { w.state with created := w.state.created + 1 }) hheld rfl rfl (Nat.le_succ _) ?_
        script)
      simp [ProfilingEvent.breaksStart, ProfilingEvent.isVital, ProfilingEvent.statusFails, rsc, hkind, hrc]
  · have hfirst : ProfilingEvent.breaksStart (.fal (.reserve rsc) answer) = false := by
      simp [ProfilingEvent.breaksStart, ProfilingEvent.statusFails, ProfilingEvent.lacksId, hrc]
    by_cases hneg : id.slt 0#32 = true
    · -- reserved, but without an id
      rw [if_pos hneg] at h
      cases h
      refine .inr ⟨nofun, .inr ⟨⟨rsc, by simp, hw.created⟩, hw.eventRecords, hw.created.trans (Nat.le_succ _), ?_⟩⟩
      exact startKept_eq_false (by simp) (by simp [hbreaks, hneg])
    · rw [if_neg hneg] at h
      exact hnext rsc id (hw.snoc rfl hfirst (hbreaks.trans (Bool.not_eq_true _ ▸ hneg)) script) h

theorem EndsFrom.configured (calls : List ProfileCall) (hheld : held ≠ []) (hperm : acquired.Perm held) :
    EndsFrom base held (configured calls acquired) := by
  intro w r w' hw h
  obtain ⟨status, w₁, hcalls, h⟩ := exists_of_bind_returned h
  obtain ⟨more, script, rfl, hbreaks, -, hstatus⟩ := accumulateStatus_returned hcalls
  cases h
  by_cases hok : status = xaieOk
  · have hmore : more.any ProfilingEvent.breaksStart = false := hbreaks.trans (hstatus.mp hok).2
    refine .inl ⟨if_pos hok, ?_, (hw.append hheld hmore script).perm hperm⟩
    exact fun hnil : acquired = [] => hheld (hnil ▸ hperm.symm).eq_nil
  · refine .inr ⟨by simp [hok], .inr (hw.leaked hheld rfl rfl (Nat.le_refl _) ?_ script)⟩
    rw [hbreaks, ← Bool.not_eq_false]
    exact fun hmore => hok (hstatus.mpr ⟨rfl, hmore⟩)

theorem releases_returned {a b c d : Resource} {result r : ProfileResult} {w' : ProfilingWorld}
    (h : (do
      let _ ← release a
      let _ ← release b
      let _ ← release c
      let _ ← release d
      pure result : ProfilingProgram ProfileResult) w = (.returned r, w')) :
    r = result ∧ ∃ more script, more.any ProfilingEvent.breaksStart = false ∧
      w' = ⟨{ w.state with reserved := (((w.state.reserved.erase a).erase b).erase c).erase d }, w.trace ++ more,
        script⟩ := by
  obtain ⟨_, _, ha, h⟩ := exists_of_bind_returned h
  obtain ⟨answera, _, -, rfl⟩ := release_returned ha
  obtain ⟨_, _, hb, h⟩ := exists_of_bind_returned h
  obtain ⟨answerb, _, -, rfl⟩ := release_returned hb
  obtain ⟨_, _, hc, h⟩ := exists_of_bind_returned h
  obtain ⟨answerc, _, -, rfl⟩ := release_returned hc
  obtain ⟨_, _, hd, h⟩ := exists_of_bind_returned h
  obtain ⟨answerd, script, -, rfl⟩ := release_returned hd
  cases h
  exact ⟨rfl, [.fal (.release a) answera, .fal (.release b) answerb, .fal (.release c) answerc,
    .fal (.release d) answerd], script, rfl, by simp⟩

/-- The broadcast channel is the one resource whose refusal gives back what is held. -/
theorem EndsFrom.broadcast (hbase : ∀ rsc ∈ base.reserved, rsc.id < base.created) {p₁ c₁ p₂ c₂ : Resource}
    (locs : List TileLoc) (calls : BitVec 32 → List ProfileCall) :
    EndsFrom base [p₁, c₁, p₂, c₂] (broadcastOrRelease p₁ c₁ p₂ c₂ locs calls) := by
  intro w r w' hw h
  let rsc : Resource := { id := w.state.created, kind := .broadcast, dev := w.state.xaieDev, locs }
  obtain ⟨id, w₁, hrequest, h⟩ := exists_of_bind_returned (p := request rsc)
    (w := { w with state := { w.state with created := w.state.created + 1 } }) h
  have hfirst (answer : Answer) : ProfilingEvent.breaksStart (.fal (.reserve rsc) answer) = false := by
    simp [ProfilingEvent.breaksStart, ProfilingEvent.isVital, rsc]
  obtain ⟨hneg, answer, script, -, rfl⟩ | ⟨answer, e, script, hrc, hbreaks, rfl⟩ := request_returned hrequest
  · rw [if_pos hneg] at h
    obtain ⟨rfl, more, script', hmore, rfl⟩ := releases_returned h
    refine .inr ⟨nofun, .inl ⟨?_, hw.eventRecords, hw.created.trans (Nat.le_succ _), startKept_of_unbroken ?_⟩⟩
    · have hold (x : Resource) (hx : x ∈ base.reserved) : x ∉ [p₁, c₁, p₂, c₂] := fun hmem =>
        absurd (hbase x hx) (Nat.not_lt.mpr (hw.new x hmem).1)
      ext x
      simp only [hw.reserved, Finset.mem_erase, Finset.mem_union, List.mem_toFinset]
      have hx := hold x
      simp only [List.mem_cons, List.not_mem_nil, or_false, not_or] at hx ⊢
      tauto
    · rw [List.any_append, List.any_append, hw.unbroken, hmore]
      simp [hfirst]
  · by_cases hneg : id.slt 0#32 = true
    · rw [if_pos hneg] at h
      obtain ⟨rfl, more, script', hmore, rfl⟩ := releases_returned h
      refine .inr ⟨nofun, .inr ⟨⟨rsc, ?_, hw.created⟩, hw.eventRecords, hw.created.trans (Nat.le_succ _), ?_⟩⟩
      · have hnew : rsc ∉ [p₁, c₁, p₂, c₂] := hw.not_mem rfl
        simp only [List.mem_cons, List.not_mem_nil, or_false, not_or] at hnew
        simp [hnew]
      · refine startKept_eq_false ?_ (by simp [hbreaks, hneg])
        simp only [List.length_append, List.length_cons]
        omega
    · rw [if_neg hneg] at h
      have hheld : Holding base [p₁, c₁, p₂, c₂, rsc] _ :=
        hw.snoc rfl (hfirst answer) (hbreaks.trans (Bool.not_eq_true _ ▸ hneg)) script
      exact EndsFrom.configured _ (List.cons_ne_nil _ _) (perm_counters_ports p₁ c₁ p₂ c₂ [rsc]) hheld h

theorem endsFrom_invalid : EndsFrom base [] (pure (.internalError, [])) := by
  intro w r w' hw h
  cases h
  have hempty := (hw.calls.resolve_right fun hheld => hheld.1 rfl).2
  exact .inr ⟨nofun, .inl ⟨by simp [hw.reserved], hw.eventRecords, hw.created, by simp [hempty, startKept]⟩⟩

theorem startRules_endsFrom (hbase : ∀ rsc ∈ base.reserved, rsc.id < base.created) :
    StartRules (EndsFrom base) where
  invalid := endsFrom_invalid
  requested := EndsFrom.requested
  configured := EndsFrom.configured
  broadcast := EndsFrom.broadcast hbase

end Starts

end AieBaremetal.Profiling
