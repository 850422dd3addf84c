import Mathlib.Data.Finset.Union
import AieBaremetal.Common.Subprogram
import AieBaremetal.Profiling.Sessions

/-!
# Accounting of reserved resources

The resources that are reserved against those recorded under the handles in use: from the start that
returned a handle, non-negative, to the next stop that names it. A start can fail after it has reserved
something, and a stop can return before it has released everything.

A start that makes more than one call keeps the account if all succeed, except that a broadcast channel
may be refused; a stop, if every status up to its last question for an id is good. A start with an unknown
option returns the handle 0, which then counts as in use although nothing was reserved for it.
-/

namespace AieBaremetal.Profiling

open Common Common.Program AieBaremetal.Runtime

/-- Every status in front of a question for an id is good, and the stop's own. -/
def keptFrom (good : Bool) : List ProfilingEvent → Bool
  | [] => true
  | e :: rest => (!e.asksId || (good && !e.statusFails)) && keptFrom (good && !e.statusFails) rest

/-- A stop keeps the account from its first call on. -/
def stopKept (events : List ProfilingEvent) : Bool := keptFrom true events

theorem keptFrom_append (good : Bool) (events more : List ProfilingEvent) :
    keptFrom good (events ++ more) =
      (keptFrom good events && keptFrom (good && !events.any ProfilingEvent.statusFails) more) := by
  induction events generalizing good with
  | nil => simp [keptFrom]
  | cons e rest ih =>
    simp only [List.cons_append, keptFrom, ih, List.any_cons, Bool.not_or, Bool.and_assoc]

theorem keptFrom_of_no_asksId (good : Bool) {events : List ProfilingEvent}
    (h : events.any ProfilingEvent.asksId = false) : keptFrom good events = true := by
  induction events generalizing good with
  | nil => rfl
  | cons e rest ih =>
    rw [List.any_cons, Bool.or_eq_false_iff] at h
    simp [keptFrom, h.1, ih _ h.2]

theorem stopKept_append {events more : List ProfilingEvent} (h : stopKept events = true)
    (hmore : more.any ProfilingEvent.asksId = false) : stopKept (events ++ more) = true := by
  rw [stopKept, keptFrom_append, keptFrom_of_no_asksId _ hmore, Bool.and_true]
  exact h

variable {eventRecords : List EventRecord} {h option : BitVec 32} {r : Option (BitVec 32)}
  {record : EventRecord} {rsc : Resource}

section Stop

/-- The status word of a stop is good if every status so far is, and no id was asked for after a bad one. -/
structure StopSound (driverStatus : BitVec 32) (events : List ProfilingEvent) : Prop where
  good : driverStatus = xaieOk ↔ events.any ProfilingEvent.statusFails = false
  kept : stopKept events = true

/-- A stop releases a front part of the resources, all of them in a kept account. -/
def Stopped (s : ProfilingState) (resources : List Resource) (w : ProfilingWorld) : Prop :=
  ∃ released left, resources = released ++ left ∧ w.state = { s with reserved := s.reserved \ released.toFinset } ∧
    (stopKept w.trace = true ↔ left = [])

variable {s : ProfilingState} {events : List ProfilingEvent} {driverStatus status : BitVec 32} {w' : ProfilingWorld}

theorem StopSound.append {more : List ProfilingEvent} (h : StopSound driverStatus events)
    (hstatus : status = xaieOk ↔ driverStatus = xaieOk ∧ more.any ProfilingEvent.statusFails = false)
    (hmore : more.any ProfilingEvent.asksId = false) : StopSound status (events ++ more) where
  good := by rw [hstatus, h.good, List.any_append, Bool.or_eq_false_iff]
  kept := stopKept_append h.kept hmore

theorem Stopped.cons {rest : List Resource}
    (h : Stopped { s with reserved := s.reserved.erase rsc } rest w') : Stopped s (rsc :: rest) w' := by
  obtain ⟨released, left, rfl, hstate, hkept⟩ := h
  refine ⟨rsc :: released, left, rfl, ?_, hkept⟩
  rw [hstate]
  congr 1
  ext x
  simp only [Finset.mem_sdiff, Finset.mem_erase, List.mem_toFinset, List.mem_cons]
  tauto

/-- The loop of a stop that returned released a front part of its resources. -/
theorem stopResources_returned {resources : List Resource} {script : List Answer} {code : ErrCode}
    (h : StopSound driverStatus events)
    (hrun : stopResources false resources driverStatus ⟨s, events, script⟩ = (.returned code, w')) :
    Stopped s resources w' := by
  induction resources generalizing s events script driverStatus with
  | nil =>
    cases hrun
    exact ⟨[], [], rfl, by simp, by simp [h.kept]⟩
  | cons rsc rest ih =>
    -- how an iteration ends once the resource has been reset
    have hrelease {driverStatus : BitVec 32} {events : List ProfilingEvent} {script : List Answer}
        (h : StopSound driverStatus events)
        (hrun : (release rsc >>= fun released =>
          stopResources false rest (if released then driverStatus else xaieErr)) ⟨s, events, script⟩ =
            (.returned code, w')) : Stopped s (rsc :: rest) w' := by
      obtain ⟨ok, _, hrelease, hrun⟩ := exists_of_bind_returned hrun
      obtain ⟨answer, _, hok, rfl⟩ := release_returned hrelease
      refine (ih (h.append ?_ rfl) hrun).cons
      cases ok with
      | false =>
        have hrc : answer.rc ≠ xaieOk := fun hrc => Bool.false_ne_true (hok.mpr hrc)
        have herr : xaieErr ≠ xaieOk := by decide
        simp [ProfilingEvent.statusFails, hrc, herr]
      | true => simp [ProfilingEvent.statusFails, hok.mp rfl]
    by_cases hkind : rsc.kind = .broadcast
    · simp only [stopResources, if_pos hkind, resetBroadcast, bind_assoc] at hrun
      obtain ⟨bc, _, hbc, hrun⟩ := exists_of_bind_returned hrun
      obtain ⟨_, rfl⟩ := fal_returned hbc
      obtain ⟨channel, _, hchannel, hrun⟩ := exists_of_bind_returned hrun
      obtain ⟨_, rfl⟩ := fal_returned hchannel
      simp only [Bool.false_eq_true, false_and, if_false, pure_bind, List.append_assoc, List.cons_append,
        List.nil_append] at hrun
      exact hrelease (h.append (by simp [ProfilingEvent.statusFails]) rfl) hrun
    · simp only [stopResources, if_neg hkind] at hrun
      obtain ⟨place, _, hplace, hrun⟩ := exists_of_bind_returned hrun
      obtain ⟨_, rfl⟩ := fal_returned hplace
      have hlast : stopKept (events ++ [.fal (.getRscId rsc) place]) = true ↔
          driverStatus = xaieOk ∧ place.rc = xaieOk := by
        have hevents : keptFrom true events = true := h.kept
        rw [h.good, stopKept, keptFrom_append]
        simp [hevents, keptFrom, ProfilingEvent.asksId, ProfilingEvent.statusFails]
      by_cases hok : driverStatus ||| place.rc = xaieOk
      · obtain ⟨hstatus, hrc⟩ := ok_of_status_joined hok
        rw [if_pos hok] at hrun
        obtain ⟨status', _, hreset, hrun⟩ := exists_of_bind_returned hrun
        obtain ⟨more, _, rfl, -, hasks, hgood⟩ := accumulateStatus_returned hreset
        have hid : StopSound (driverStatus ||| place.rc) (events ++ [.fal (.getRscId rsc) place]) := by
          refine ⟨?_, hlast.mpr ⟨hstatus, hrc⟩⟩
          simp [ProfilingEvent.statusFails, hrc, ← h.good, hstatus]
        exact hrelease (hid.append hgood hasks) hrun
      · -- a bad status in front of the id, or of it, ends the loop
        rw [if_neg hok] at hrun
        cases hrun
        refine ⟨[], rsc :: rest, rfl, by simp, ?_⟩
        rw [hlast]
        refine ⟨fun hboth => absurd ?_ hok, fun hnil => absurd hnil (List.cons_ne_nil _ _)⟩
        rw [hboth.1, hboth.2]
        rfl

theorem stopProfiling_returned {script : List Answer}
    (hrun : stopProfiling h ⟨s, [], script⟩ = (.returned (), w')) :
    (recordOf s.eventRecords h = none ∧ w' = ⟨s, [], script⟩) ∨
      ∃ record, recordOf s.eventRecords h = some record ∧ Stopped s record.acquiredResources w' := by
  unfold stopProfiling at hrun
  rw [getState_bind] at hrun
  cases hrecord : recordOf s.eventRecords h with
  | none =>
    simp only [hrecord] at hrun
    cases hrun
    exact .inl ⟨rfl, rfl⟩
  | some record =>
    simp only [hrecord] at hrun
    obtain ⟨_, _, hstop, hrun⟩ := exists_of_bind_returned hrun
    cases hrun
    exact .inr ⟨record, rfl, stopResources_returned ⟨by simp, rfl⟩ hstop⟩

end Stop

section Records

variable {s s' : ProfilingState} {live : Finset (BitVec 32)}

def recordedResources (eventRecords : List EventRecord) (h : BitVec 32) : Finset Resource :=
  match recordOf eventRecords h with
  | some record => record.acquiredResources.toFinset
  | none => ∅

/-- What is reserved is what is recorded under the handles in use. -/
def Accounted (s : ProfilingState) (live : Finset (BitVec 32)) : Prop :=
  s.reserved = live.biUnion (recordedResources s.eventRecords)

instance (s : ProfilingState) (live : Finset (BitVec 32)) : Decidable (Accounted s live) :=
  inferInstanceAs (Decidable (_ = _))

/-- The records name each resource object once and none to be made. -/
structure Consistent (s : ProfilingState) : Prop where
  made : ∀ record ∈ s.eventRecords, record.acquiredResources ≠ [] ∧ record.acquiredResources.Nodup ∧
    ∀ rsc ∈ record.acquiredResources, rsc.id < s.created
  disjoint : s.eventRecords.Pairwise fun a b => List.Disjoint a.acquiredResources b.acquiredResources
  count : s.eventRecords.length ≤ 2 ^ 31

theorem toNat_signExtend_ofNat {n : ℕ} (hn : n < 2 ^ 31) : ((BitVec.ofNat 32 n).signExtend 64).toNat = n := by
  have hmsb : (BitVec.ofNat 32 n).msb = false := by
    rw [BitVec.msb_eq_false_iff_two_mul_lt, BitVec.toNat_ofNat]
    omega
  rw [BitVec.signExtend_eq_setWidth_of_msb_false hmsb, BitVec.toNat_setWidth, BitVec.toNat_ofNat]
  omega

theorem eq_of_toNat_signExtend {h' : BitVec 32} (heq : (h.signExtend 64).toNat = (h'.signExtend 64).toNat) :
    h = h' := by
  have hwide := congrArg BitVec.toInt (BitVec.eq_of_toNat_eq heq)
  rw [BitVec.toInt_signExtend_of_le (by decide), BitVec.toInt_signExtend_of_le (by decide)] at hwide
  exact BitVec.eq_of_toInt_eq hwide

theorem toNat_signExtend_ne (h : BitVec 32) : (h.signExtend 64).toNat ≠ 2 ^ 31 := by
  intro heq
  have hsame : h.signExtend 64 = BitVec.ofNat 64 (2 ^ 31) := BitVec.eq_of_toNat_eq heq
  have hwide := congrArg BitVec.toInt hsame
  rw [BitVec.toInt_signExtend_of_le (by decide)] at hwide
  have hbound : h.toInt < 2 ^ 31 := BitVec.toInt_lt
  have hvalue : (BitVec.ofNat 64 (2 ^ 31)).toInt = 2 ^ 31 := rfl
  omega

theorem mem_recordedResources :
    rsc ∈ recordedResources eventRecords h ↔ ∃ record, recordOf eventRecords h = some record ∧
      rsc ∈ record.acquiredResources := by
  unfold recordedResources
  cases recordOf eventRecords h with
  | none => simp
  | some record => simp

theorem accounted_iff : Accounted s live ↔
    ∀ rsc, rsc ∈ s.reserved ↔ ∃ k ∈ live, rsc ∈ recordedResources s.eventRecords k := by
  simp only [Accounted, Finset.ext_iff, Finset.mem_biUnion]

theorem Consistent.made_of_mem (hs : Consistent s) {k : BitVec 32}
    (hrsc : rsc ∈ recordedResources s.eventRecords k) : rsc.id < s.created := by
  obtain ⟨record, hrecord, hmem⟩ := mem_recordedResources.mp hrsc
  exact (hs.made record (List.mem_of_getElem? hrecord)).2.2 rsc hmem

theorem Consistent.made_of_reserved (hs : Consistent s) (hacc : Accounted s live) (rsc : Resource)
    (hrsc : rsc ∈ s.reserved) : rsc.id < s.created := by
  obtain ⟨k, -, hk⟩ := (accounted_iff.mp hacc rsc).mp hrsc
  exact hs.made_of_mem hk

theorem Consistent.handle_unique (hs : Consistent s) {k : BitVec 32}
    (hh : rsc ∈ recordedResources s.eventRecords h) (hk : rsc ∈ recordedResources s.eventRecords k) : h = k := by
  obtain ⟨record, hrecord, hmem⟩ := mem_recordedResources.mp hh
  obtain ⟨record', hrecord', hmem'⟩ := mem_recordedResources.mp hk
  by_contra hne
  have hindex : (h.signExtend 64).toNat ≠ (k.signExtend 64).toNat := fun heq => hne (eq_of_toNat_signExtend heq)
  obtain ⟨hlt, hget⟩ := List.getElem?_eq_some_iff.mp hrecord
  obtain ⟨hlt', hget'⟩ := List.getElem?_eq_some_iff.mp hrecord'
  rcases Nat.lt_or_gt_of_ne hindex with hbefore | hbehind
  · have hdisjoint := List.pairwise_iff_getElem.mp hs.disjoint _ _ hlt hlt' hbefore
    rw [hget, hget'] at hdisjoint
    exact hdisjoint hmem hmem'
  · have hdisjoint := List.pairwise_iff_getElem.mp hs.disjoint _ _ hlt' hlt hbehind
    rw [hget, hget'] at hdisjoint
    exact hdisjoint hmem' hmem

theorem mem_recordedResources_append :
    rsc ∈ recordedResources (eventRecords ++ [record]) h ↔
      rsc ∈ recordedResources eventRecords h ∨
        (h.signExtend 64).toNat = eventRecords.length ∧ rsc ∈ record.acquiredResources := by
  simp only [mem_recordedResources, recordOf]
  rcases lt_trichotomy (h.signExtend 64).toNat eventRecords.length with hlt | heq | hgt
  · simp [List.getElem?_append_left hlt, hlt.ne]
  · simp [heq]
  · have hbehind : (eventRecords ++ [record]).length ≤ (h.signExtend 64).toNat := by
      rw [List.length_append]
      exact hgt
    simp only [List.getElem?_eq_none hbehind, List.getElem?_eq_none hgt.le, hgt.ne', false_and, or_false]

end Records

section Starts

variable {s : ProfilingState} {live : Finset (BitVec 32)} {w : ProfilingWorld}

/-- A start ends with a new record whose number is the handle, or with -1. -/
def Started (s : ProfilingState) (handle : BitVec 32) (w : ProfilingWorld) : Prop :=
  (∃ record w₀, handle = BitVec.ofNat 32 s.eventRecords.length ∧ record.acquiredResources ≠ [] ∧
    Holding s record.acquiredResources w₀ ∧ w.trace = w₀.trace ∧
    w.state = { w₀.state with eventRecords := s.eventRecords ++ [record] }) ∨
  (handle = noId ∧ (Refused s w ∨ Leaked s w))

/-- Every run from the state and no calls yet ends as a start may. -/
def Starts (s : ProfilingState) (p : ProfilingProgram (BitVec 32)) : Prop :=
  ∀ ⦃script handle w'⦄, p ⟨s, [], script⟩ = (.returned handle, w') → Started s handle w'

theorem starts_recorded {profile : ProfilingProgram ProfileResult} (h : EndsFrom s [] profile) :
    Starts s (recorded option profile) := by
  intro script handle w' hrun
  obtain ⟨result, w, hprofile, hrun⟩ := exists_of_bind_returned hrun
  obtain ⟨hcode, hnil, hhold⟩ | ⟨hcode, hfailed⟩ := h (holding_nil ⟨rfl, rfl⟩) hprofile
  · rw [if_pos hcode] at hrun
    cases hrun
    refine .inl ⟨{ option, acquiredResources := result.2 }, w, ?_, hnil, hhold, rfl, ?_⟩
    · rw [hhold.eventRecords]
    · rw [← hhold.eventRecords]
  · rw [if_neg hcode] at hrun
    cases hrun
    exact .inr ⟨rfl, hfailed⟩

theorem starts_startProfilingTwo (hmade : ∀ rsc ∈ s.reserved, rsc.id < s.created) (cfg : ConfigureParser)
    (portName1 portName2 : String) (value : BitVec 32) (hvalid : validOption option = true) :
    Starts s (startProfilingTwo cfg portName1 portName2 option value) := by
  obtain ⟨profile, hprofile, heq⟩ :=
    (startRules_endsFrom hmade).startProfilingTwo cfg portName1 portName2 value hvalid
  rw [heq]
  exact starts_recorded hprofile

theorem starts_startProfiling (hmade : ∀ rsc ∈ s.reserved, rsc.id < s.created) (cfg : ConfigureParser)
    (portName : String) (value : BitVec 32) (hvalid : validOption option = true) :
    Starts s (startProfiling cfg portName option value) := by
  unfold startProfiling
  split
  · intro script handle w' hrun
    cases hrun
    exact .inr ⟨rfl, .inl ⟨rfl, rfl, Nat.le_refl _, rfl⟩⟩
  · exact starts_startProfilingTwo hmade cfg portName "" value hvalid

theorem startProfiling_of_invalid (cfg : ConfigureParser) (portName : String)
    (value : BitVec 32) (hvalid : validOption option = false) :
    startProfiling cfg portName option value = pure 0#32 := by
  have hdifference : option ≠ ioStreamStartDifferenceCycles := by
    rintro rfl
    simp [validOption] at hvalid
  rw [startProfiling, if_neg hdifference, startProfilingTwo_of_invalid cfg portName "" value hvalid]

/-- The handles in use after a start returned. -/
def liveAfterStart (live : Finset (BitVec 32)) (handle : BitVec 32) : Finset (BitVec 32) :=
  if handle.slt 0#32 then live else insert handle live

theorem slt_ofNat_iff {n : ℕ} (hn : n ≤ 2 ^ 31) : (BitVec.ofNat 32 n).slt 0#32 = true ↔ n = 2 ^ 31 := by
  have hzero : (0#32).toInt = 0 := rfl
  rw [BitVec.slt_iff_toInt_lt, BitVec.toInt_eq_toNat_cond, BitVec.toNat_ofNat, Nat.mod_eq_of_lt (by omega), hzero]
  split <;> omega

theorem not_accounted_of_lost (hs : Consistent s) {s' : ProfilingState}
    (hrecords : s'.eventRecords = s.eventRecords) (hrsc : rsc ∈ s'.reserved) (hnew : s.created ≤ rsc.id) :
    ¬ Accounted s' live := by
  intro hacc
  obtain ⟨k, -, hk⟩ := (accounted_iff.mp hacc rsc).mp hrsc
  rw [hrecords] at hk
  exact absurd (hs.made_of_mem hk) (Nat.not_lt.mpr hnew)

section Granted

variable {w₀ : ProfilingWorld} (hs : Consistent s) (hnil : record.acquiredResources ≠ [])
  (hhold : Holding s record.acquiredResources w₀)
  (hstate : w.state = { w₀.state with eventRecords := s.eventRecords ++ [record] })

include hs hnil hhold hstate

/-- Recording what was acquired keeps the account as long as the handle is non-negative. -/
theorem accounted_granted_iff (hacc : Accounted s live) :
    Accounted w.state (liveAfterStart live (BitVec.ofNat 32 s.eventRecords.length)) ↔
      w.state.eventRecords.length ≤ 2 ^ 31 := by
  have hmem (rsc : Resource) : rsc ∈ w₀.state.reserved ↔
      (∃ k ∈ live, rsc ∈ recordedResources s.eventRecords k) ∨ rsc ∈ record.acquiredResources := by
    rw [hhold.reserved, Finset.mem_union, accounted_iff.mp hacc, List.mem_toFinset]
  simp only [hstate, accounted_iff, hmem, mem_recordedResources_append, List.length_append, List.length_singleton]
  rcases Nat.lt_or_eq_of_le hs.count with hlt | heq
  · refine iff_of_true (fun rsc => ?_) hlt
    have hsign : ¬ (BitVec.ofNat 32 s.eventRecords.length).slt 0#32 = true := by
      rw [slt_ofNat_iff hs.count]
      omega
    have hindex := toNat_signExtend_ofNat hlt
    rw [liveAfterStart, if_neg hsign]
    constructor
    · rintro (⟨k, hk, hrsc⟩ | hrsc)
      · exact ⟨k, Finset.mem_insert_of_mem hk, .inl hrsc⟩
      · exact ⟨_, Finset.mem_insert_self _ _, .inr ⟨hindex, hrsc⟩⟩
    · rintro ⟨k, hk, hrsc | hrsc⟩
      · rcases Finset.mem_insert.mp hk with rfl | hk
        · -- nothing is recorded yet under the new handle
          obtain ⟨old, hold, -⟩ := mem_recordedResources.mp hrsc
          exact absurd (List.getElem?_eq_some_iff.mp hold).1 (by omega)
        · exact .inl ⟨k, hk, hrsc⟩
      · exact .inr hrsc.2
  · refine iff_of_false (fun hacc' => ?_) (by omega)
    obtain ⟨rsc, hrsc⟩ := List.exists_mem_of_ne_nil _ hnil
    obtain ⟨k, -, hk | hk⟩ := (hacc' rsc).mp (.inr hrsc)
    · exact absurd (hs.made_of_mem hk) (Nat.not_lt.mpr (hhold.new rsc hrsc).1)
    · exact toNat_signExtend_ne k (hk.1.trans heq)

theorem consistent_granted (hcount : w.state.eventRecords.length ≤ 2 ^ 31) : Consistent w.state where
  made := by
    simp only [hstate, List.mem_append, List.mem_singleton]
    rintro record' (hold | rfl)
    · obtain ⟨hne, hnodup, hmade⟩ := hs.made record' hold
      exact ⟨hne, hnodup, fun rsc hrsc => (hmade rsc hrsc).trans_le hhold.created⟩
    · exact ⟨hnil, hhold.nodup, fun rsc hrsc => (hhold.new rsc hrsc).2⟩
  disjoint := by
    simp only [hstate]
    refine List.pairwise_append.mpr ⟨hs.disjoint, List.pairwise_singleton _ _, ?_⟩
    intro old hold new hnew rsc hrsc hrsc'
    rw [List.mem_singleton] at hnew
    subst hnew
    exact absurd ((hs.made old hold).2.2 rsc hrsc) (Nat.not_lt.mpr (hhold.new rsc hrsc').1)
  count := hcount

end Granted

theorem Consistent.mono (hs : Consistent s) {s' : ProfilingState} (hrecords : s'.eventRecords = s.eventRecords)
    (hcreated : s.created ≤ s'.created) : Consistent s' where
  made := fun record hrecord =>
    (hs.made record (hrecords ▸ hrecord)).imp_right
      (And.imp_right fun hmade rsc hrsc => (hmade rsc hrsc).trans_le hcreated)
  disjoint := hrecords ▸ hs.disjoint
  count := hrecords ▸ hs.count

theorem accounted_started_iff (hs : Consistent s) (hacc : Accounted s live) {handle : BitVec 32}
    (h : Started s handle w) : Accounted w.state (liveAfterStart live handle) ↔
      startKept w.trace = true ∧ w.state.eventRecords.length ≤ 2 ^ 31 := by
  rcases h with ⟨record, w₀, rfl, hnil, hhold, htrace, hstate⟩ | ⟨rfl, hrefused | hleaked⟩
  · rw [accounted_granted_iff hs hnil hhold hstate hacc, htrace, startKept_of_unbroken hhold.unbroken]
    exact ⟨fun hle => ⟨rfl, hle⟩, fun hboth => hboth.2⟩
  · have hsame : Accounted w.state live := by
      rw [Accounted, hrefused.reserved, hrefused.eventRecords]
      exact hacc
    have hcount : w.state.eventRecords.length ≤ 2 ^ 31 := hrefused.eventRecords ▸ hs.count
    exact ⟨fun _ => ⟨hrefused.kept, hcount⟩, fun _ => hsame⟩
  · obtain ⟨rsc, hrsc, hnew⟩ := hleaked.lost
    refine ⟨fun hacc' => absurd hacc' (not_accounted_of_lost hs hleaked.eventRecords hrsc hnew), fun hkept => ?_⟩
    exact absurd hkept.1 (by simp [hleaked.broken])

theorem reserved_started_iff (hs : Consistent s) (hacc : Accounted s live) (h : Started s noId w) :
    w.state.reserved = s.reserved ↔ startKept w.trace = true ∧ w.state.eventRecords.length ≤ 2 ^ 31 := by
  rcases h with ⟨record, w₀, hhandle, -⟩ | ⟨-, hrefused | hleaked⟩
  · have hcount := hs.count
    have hvalue := congrArg BitVec.toNat hhandle
    rw [BitVec.toNat_ofNat, Nat.mod_eq_of_lt (by omega)] at hvalue
    have hminus : noId.toNat = 2 ^ 32 - 1 := rfl
    omega
  · have hcount : w.state.eventRecords.length ≤ 2 ^ 31 := hrefused.eventRecords ▸ hs.count
    exact ⟨fun _ => ⟨hrefused.kept, hcount⟩, fun _ => hrefused.reserved⟩
  · obtain ⟨rsc, hrsc, hnew⟩ := hleaked.lost
    refine ⟨fun hsame => ?_, fun hkept => absurd hkept.1 (by simp [hleaked.broken])⟩
    rw [hsame] at hrsc
    exact absurd (hs.made_of_reserved hacc rsc hrsc) (Nat.not_lt.mpr hnew)

theorem consistent_started (hs : Consistent s) {handle : BitVec 32} (h : Started s handle w)
    (hcount : w.state.eventRecords.length ≤ 2 ^ 31) : Consistent w.state := by
  rcases h with ⟨record, w₀, -, hnil, hhold, -, hstate⟩ | ⟨-, hrefused | hleaked⟩
  · exact consistent_granted hs hnil hhold hstate hcount
  · exact hs.mono hrefused.eventRecords hrefused.created
  · exact hs.mono hleaked.eventRecords hleaked.created

theorem accounted_zero_iff (hs : Consistent s) (hacc : Accounted s live) :
    Accounted s (liveAfterStart live 0#32) ↔ 0#32 ∈ live ∨ s.eventRecords = [] := by
  have hlive : liveAfterStart live 0#32 = insert 0#32 live := rfl
  rw [hlive]
  constructor
  · intro hacc'
    cases hrecords : s.eventRecords with
    | nil => exact Or.inr rfl
    | cons record rest =>
      have hrecord : recordOf s.eventRecords 0#32 = some record := by
        rw [hrecords]
        rfl
      obtain ⟨rsc, hrsc⟩ := List.exists_mem_of_ne_nil _ (hs.made record (List.mem_of_getElem? hrecord)).1
      have hzero : rsc ∈ recordedResources s.eventRecords 0#32 := mem_recordedResources.mpr ⟨record, hrecord, hrsc⟩
      obtain ⟨k, hk, hkrsc⟩ := (accounted_iff.mp hacc rsc).mp
        ((accounted_iff.mp hacc' rsc).mpr ⟨0#32, Finset.mem_insert_self _ _, hzero⟩)
      rw [hs.handle_unique hzero hkrsc]
      exact Or.inl hk
  · rintro (hmem | hempty)
    · rwa [Finset.insert_eq_of_mem hmem]
    · have hnone : recordedResources s.eventRecords 0#32 = ∅ := by
        rw [hempty]
        rfl
      rw [Accounted, Finset.biUnion_insert, hnone, Finset.empty_union]
      exact hacc

end Starts

section Calls

variable {s s' : ProfilingState} {live : Finset (BitVec 32)} {w : ProfilingWorld}

/-- Without a handle, what is recorded under it is missing. -/
theorem Consistent.accounted_erase_iff (hs : Consistent s) (hacc : Accounted s live)
    (hrecords : s'.eventRecords = s.eventRecords) :
    Accounted s' (live.erase h) ↔
      ∀ rsc, rsc ∈ s'.reserved ↔ rsc ∈ s.reserved ∧ rsc ∉ recordedResources s.eventRecords h := by
  rw [accounted_iff, hrecords]
  refine forall_congr' fun rsc => iff_congr Iff.rfl ?_
  rw [accounted_iff.mp hacc]
  constructor
  · rintro ⟨k, hk, hrsc⟩
    obtain ⟨hne, hk⟩ := Finset.mem_erase.mp hk
    exact ⟨⟨k, hk, hrsc⟩, fun hmine => hne (hs.handle_unique hrsc hmine)⟩
  · rintro ⟨⟨k, hk, hrsc⟩, hnot⟩
    exact ⟨k, Finset.mem_erase.mpr ⟨fun heq => hnot (heq ▸ hrsc), hk⟩, hrsc⟩

theorem accounted_stopped_iff (hs : Consistent s) (hacc : Accounted s live)
    (hrecord : recordOf s.eventRecords h = some record) (hstopped : Stopped s record.acquiredResources w) :
    Accounted w.state (live.erase h) ↔ (h ∈ live → stopKept w.trace = true) := by
  obtain ⟨released, left, hsplit, hstate, hkept⟩ := hstopped
  have hdisjoint : List.Disjoint released left :=
    List.disjoint_of_nodup_append (hsplit ▸ (hs.made record (List.mem_of_getElem? hrecord)).2.1)
  have hmine (rsc : Resource) : rsc ∈ recordedResources s.eventRecords h ↔ rsc ∈ released ∨ rsc ∈ left := by
    rw [recordedResources, hrecord, List.mem_toFinset, hsplit, List.mem_append]
  rw [hs.accounted_erase_iff hacc (by rw [hstate]), hkept, hstate]
  simp only [Finset.mem_sdiff, List.mem_toFinset, hmine, not_or]
  constructor
  · intro hsame hlive
    refine List.eq_nil_iff_forall_not_mem.mpr fun rsc hrsc => ?_
    have hreserved := (accounted_iff.mp hacc rsc).mpr ⟨h, hlive, (hmine rsc).mpr (.inr hrsc)⟩
    exact ((hsame rsc).mp ⟨hreserved, fun hreleased => hdisjoint hreleased hrsc⟩).2.2 hrsc
  · refine fun hleft rsc => and_congr_right fun hrsc => (and_iff_left fun hmem => ?_).symm
    obtain ⟨k, hk, hkrsc⟩ := (accounted_iff.mp hacc rsc).mp hrsc
    rw [hs.handle_unique hkrsc ((hmine rsc).mpr (.inr hmem))] at hk
    exact absurd hmem (hleft hk ▸ List.not_mem_nil)

theorem accounted_erase_of_no_record (hs : Consistent s) (hacc : Accounted s live)
    (hrecord : recordOf s.eventRecords h = none) : Accounted s (live.erase h) :=
  (hs.accounted_erase_iff hacc rfl).mpr fun _ => by simp [recordedResources, hrecord]

/-- Code that changes no state. -/
def Reads {A : Type} (s : ProfilingState) (p : ProfilingProgram A) : Prop :=
  Leaves (fun w => w.state = s) p (fun _ w => w.state = s) (fun _ => True)

theorem reads_readProfiling (s : ProfilingState) (h : BitVec 32) : Reads s (readProfiling h) := by
  have hfal (call : FalCall) : Reads s (fal call) :=
    (triple_ask _ (fun _ _ => trivial) fun _ _ _ hw _ => hw).leaves
  have hxaie (call : ProfileCall) : Reads s (xaie call) := by
    refine leaves_getState.bind fun _ => ?_
    exact (triple_ask _ (fun _ _ => trivial) fun _ _ _ hw _ => hw).leaves
  have hoption (o : Option Resource) : Reads s (Program.ofOption o) :=
    (leaves_ofOption o fun _ _ => trivial).consequence (fun _ hw => hw) (fun _ _ hw => hw.1) fun _ hw => hw
  refine leaves_getState.bind fun st => ?_
  cases recordOf st.eventRecords h with
  | none => exact fun _ hw => hw
  | some record =>
    simp only [read]
    split
    · refine (hoption _).bind fun rsc₁ => (hoption _).bind fun rsc₂ => ?_
      split
      · refine (hfal _).bind fun place₁ => (hfal _).bind fun place₂ => ?_
        exact (hxaie _).bind fun _ => (hxaie _).bind fun _ _ hw => hw
      · exact fun _ hw => hw
    · refine (hoption _).bind fun rsc => ?_
      split
      · exact (hfal _).bind fun _ => (hxaie _).bind fun _ _ hw => hw
      · exact fun _ hw => hw

/-- A call that returned from a state, with these events. -/
def Executes (cfg : ConfigureParser) (s : ProfilingState) (op : ProfilingOp) (events : List ProfilingEvent)
    (r : Option (BitVec 32)) (s' : ProfilingState) : Prop :=
  ∃ script rest, profilingMethod cfg op { state := s, trace := [], script } =
    (.returned r, { state := s', trace := events, script := rest })

def liveAfter (live : Finset (BitVec 32)) : ProfilingOp → Option (BitVec 32) → Finset (BitVec 32)
  | .stop h, _ => live.erase h
  | _, some handle => liveAfterStart live handle
  | _, none => live

def StartKept (s : ProfilingState) (live : Finset (BitVec 32)) (option : BitVec 32) (events : List ProfilingEvent)
    (s' : ProfilingState) : Prop :=
  if validOption option then startKept events = true ∧ s'.eventRecords.length ≤ 2 ^ 31
  else 0#32 ∈ live ∨ s.eventRecords = []

/-- The condition on the answers a call got. -/
def CallKept (s : ProfilingState) (live : Finset (BitVec 32)) (op : ProfilingOp) (events : List ProfilingEvent)
    (s' : ProfilingState) : Prop :=
  match op with
  | .start _ option _ => StartKept s live option events s'
  | .startTwo _ _ option _ => StartKept s live option events s'
  | .read _ => True
  | .stop h => h ∈ live → stopKept events = true

/-- The states and handles in use that kept calls lead to. -/
inductive Reach (cfg : ConfigureParser) (devInst xaieDev : DevInst) : ProfilingState → Finset (BitVec 32) → Prop
  | fresh : Reach cfg devInst xaieDev (ProfilingState.fresh devInst xaieDev) ∅
  | call {s live op events r s'} (before : Reach cfg devInst xaieDev s live) (run : Executes cfg s op events r s')
      (kept : CallKept s live op events s') : Reach cfg devInst xaieDev s' (liveAfter live op r)

/-- What one call does to the account. -/
structure CallSpec (s : ProfilingState) (live : Finset (BitVec 32)) (op : ProfilingOp)
    (events : List ProfilingEvent) (r : Option (BitVec 32)) (s' : ProfilingState) : Prop where
  accounted : Accounted s' (liveAfter live op r) ↔ CallKept s live op events s'
  reserved : r = some noId → (s'.reserved = s.reserved ↔ CallKept s live op events s')
  consistent : CallKept s live op events s' → Consistent s'

/-- A start of either form. -/
theorem callSpec_start (hs : Consistent s) (hacc : Accounted s live) {op : ProfilingOp}
    {start : ProfilingProgram (BitVec 32)} {events : List ProfilingEvent}
    (hlive : ∀ handle, liveAfter live op (some handle) = liveAfterStart live handle)
    (hop : ∀ s', CallKept s live op events s' = StartKept s live option events s')
    (hvalid : validOption option = true → Starts s start)
    (hinvalid : validOption option = false → start = pure 0#32) {script rest : List Answer}
    (hrun : (some <$> start) { state := s, trace := [], script } =
      (.returned r, { state := s', trace := events, script := rest })) : CallSpec s live op events r s' := by
  rw [map_eq_pure_bind] at hrun
  obtain ⟨handle, w, hstart, hreturn⟩ := exists_of_bind_returned hrun
  cases hreturn
  cases hoption : validOption option with
  | true =>
    have hstarted := hvalid hoption hstart
    have hkept : CallKept s live op events s' ↔ startKept events = true ∧ s'.eventRecords.length ≤ 2 ^ 31 := by
      rw [hop, StartKept, if_pos hoption]
    refine ⟨?_, ?_, ?_⟩
    · rw [hlive, hkept]
      exact accounted_started_iff hs hacc hstarted
    · intro hminus
      cases hminus
      rw [hkept]
      exact reserved_started_iff hs hacc hstarted
    · rw [hkept]
      exact fun h => consistent_started hs hstarted h.2
  | false =>
    rw [hinvalid hoption] at hstart
    cases hstart
    have hkept : CallKept s live op [] s ↔ 0#32 ∈ live ∨ s.eventRecords = [] := by
      rw [hop, StartKept, if_neg (by simp [hoption])]
    refine ⟨?_, nofun, fun _ => hs⟩
    rw [hlive, hkept]
    exact accounted_zero_iff hs hacc

/-- What a call does, from a consistent state with a kept account. -/
theorem callSpec_of_executes (hs : Consistent s) (hacc : Accounted s live) {cfg : ConfigureParser}
    {op : ProfilingOp} {events : List ProfilingEvent} (h : Executes cfg s op events r s') :
    CallSpec s live op events r s' := by
  obtain ⟨script, rest, hrun⟩ := h
  have hmade := hs.made_of_reserved hacc
  cases op with
  | start portName option value =>
    exact callSpec_start hs hacc (fun _ => rfl) (fun _ => rfl) (starts_startProfiling hmade cfg portName value)
      (startProfiling_of_invalid cfg portName value) hrun
  | startTwo portName1 portName2 option value =>
    exact callSpec_start hs hacc (fun _ => rfl) (fun _ => rfl)
      (starts_startProfilingTwo hmade cfg portName1 portName2 value)
      (startProfilingTwo_of_invalid cfg portName1 portName2 value) hrun
  | read h =>
    obtain ⟨_, w, hread, hreturn⟩ := exists_of_bind_returned hrun
    cases hreturn
    have hsame := reads_readProfiling s h { state := s, trace := [], script } rfl
    rw [hread] at hsame
    cases hsame
    exact ⟨⟨fun _ => trivial, fun _ => hacc⟩, nofun, fun _ => hs⟩
  | stop h =>
    obtain ⟨_, w, hstop, hreturn⟩ := exists_of_bind_returned hrun
    cases hreturn
    obtain ⟨hrecord, hw⟩ | ⟨record, hrecord, hstopped⟩ := stopProfiling_returned hstop
    · cases hw
      exact ⟨⟨fun _ _ => rfl, fun _ => accounted_erase_of_no_record hs hacc hrecord⟩, nofun, fun _ => hs⟩
    · refine ⟨accounted_stopped_iff hs hacc hrecord hstopped, nofun, fun _ => ?_⟩
      obtain ⟨released, left, -, hstate, -⟩ := hstopped
      cases hstate
      exact hs.mono rfl (Nat.le_refl _)

end Calls

theorem consistent_fresh (devInst xaieDev : DevInst) : Consistent (ProfilingState.fresh devInst xaieDev) where
  made := nofun
  disjoint := List.Pairwise.nil
  count := Nat.zero_le _

theorem Reach.account {cfg : ConfigureParser} {devInst xaieDev : DevInst} {s : ProfilingState}
    {live : Finset (BitVec 32)} (h : Reach cfg devInst xaieDev s live) : Consistent s ∧ Accounted s live := by
  induction h with
  | fresh => exact ⟨consistent_fresh devInst xaieDev, rfl⟩
  | call _ run kept ih =>
    have hspec := callSpec_of_executes ih.1 ih.2 run
    exact ⟨hspec.consistent kept, hspec.accounted.mpr kept⟩

/-- In every run whose calls all meet the condition the reserved resources are those recorded under the handles in
use, and the first call that does not meet it breaks that; a start that returns -1 leaves the reserved resources
as they were under the same condition. -/
theorem reserved_eq_recorded_iff {cfg : ConfigureParser} {devInst xaieDev : DevInst} {s : ProfilingState}
    {live : Finset (BitVec 32)} (h : Reach cfg devInst xaieDev s live) :
    Accounted s live ∧ ∀ op events r s', Executes cfg s op events r s' →
      (Accounted s' (liveAfter live op r) ↔ CallKept s live op events s') ∧
      (r = some noId → (s'.reserved = s.reserved ↔ CallKept s live op events s')) := by
  obtain ⟨hs, hacc⟩ := h.account
  refine ⟨hacc, fun op events r s' hrun => ?_⟩
  have hspec := callSpec_of_executes hs hacc hrun
  exact ⟨hspec.accounted, hspec.reserved⟩

def sampleParser : ConfigureParser where
  gmioconfigs := [("in", { type := .gm2aie, shimColumn := 6#16, streamId := 3#16 })]
  plioconfigs := []

def sampleDevInst : DevInst := { address := 0x1000#64 }

def sampleAnswer (rc : BitVec 32) : Answer where
  rc := rc
  value := 0#32
  loc := xaieTileLoc 6#8 0#8
  mod := .pl
  tileLocs := []
  endMod := .pl

def sampleStart (rcs : List (BitVec 32)) : Outcome (Option (BitVec 32)) × ProfilingWorld :=
  profilingMethod sampleParser (.start "in" ioTotalStreamRunningToIdleCycles 0#32)
    { state := ProfilingState.fresh sampleDevInst sampleDevInst, trace := [], script := rcs.map sampleAnswer }

theorem executes_sampleStart {rcs : List (BitVec 32)} (h : (sampleStart rcs).1 = .returned r) :
    Executes sampleParser (ProfilingState.fresh sampleDevInst sampleDevInst)
      (.start "in" ioTotalStreamRunningToIdleCycles 0#32) (sampleStart rcs).2.trace r (sampleStart rcs).2.state :=
  ⟨rcs.map sampleAnswer, (sampleStart rcs).2.script, by rw [← h]; rfl⟩

theorem reach_sampleStart :
    Reach sampleParser sampleDevInst sampleDevInst (sampleStart (List.replicate 6 xaieOk)).2.state {0#32} := by
  have hkept : startKept (sampleStart (List.replicate 6 xaieOk)).2.trace = true ∧
      (sampleStart (List.replicate 6 xaieOk)).2.state.eventRecords.length ≤ 2 ^ 31 := by decide +kernel
  exact Reach.call Reach.fresh (executes_sampleStart (r := some 0#32) (by decide +kernel)) hkept

/-- A start whose calls all succeed: the reserved resources are those recorded under the handle 0. -/
theorem reserved_eq_recorded_sample :
    (sampleStart (List.replicate 6 xaieOk)).2.state.reserved ≠ ∅ ∧
      Accounted (sampleStart (List.replicate 6 xaieOk)).2.state {0#32} :=
  ⟨by decide +kernel, (reserved_eq_recorded_iff reach_sampleStart).1⟩

/-- No performance counter is left: the start returns -1, no handle is in use, and the stream port stays reserved.
-/
theorem start_loses_port :
    ∃ events s', Executes sampleParser (ProfilingState.fresh sampleDevInst sampleDevInst)
      (.start "in" ioTotalStreamRunningToIdleCycles 0#32) events (some noId) s' ∧
      liveAfter ∅ (.start "in" ioTotalStreamRunningToIdleCycles 0#32) (some noId) = ∅ ∧
      s'.reserved ≠ ∅ ∧ ¬ Accounted s' ∅ :=
  ⟨(sampleStart [xaieOk, xaieOk, xaieErr]).2.trace, (sampleStart [xaieOk, xaieOk, xaieErr]).2.state,
    executes_sampleStart (by decide +kernel), rfl, by decide +kernel, by decide +kernel⟩

end AieBaremetal.Profiling
