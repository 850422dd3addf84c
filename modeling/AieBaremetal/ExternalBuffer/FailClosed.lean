import Mathlib.Data.List.Forall2
import Mathlib.Data.List.Induction
import AieBaremetal.ExternalBuffer.Runs

/-!
# What follows a failed lookup or update

After a lookup or an update that failed, a call should not start a task on the port's descriptors,
should not program an address of another buffer and should return an error. The code goes on as if
nothing had happened, so this is only the case when later calls fail as well. How descriptors chain is
set elsewhere, so the relation is arbitrary. `devAddr` is also defined where the lookup failed.
-/

namespace AieBaremetal.ExternalBuffer

open Common AieBaremetal.Runtime Dma Metadata

abbrev BdRef := TileLoc × BitVec 8

def portRefs (mgr : ConfigManager) (port : ShimPortConfig) : List BdRef :=
  port.shimBDInfos.map fun bd => (portLoc mgr port, bdNum bd)

def BdStep.Failed : BdStep → Prop
  | .lookup _ answer => answer.rc ≠ 0#32
  | .update _ _ _ answer => answer.rc ≠ xaieOk

/-- Some lookup or update of the port failed. -/
def PortRun.Affected (r : PortRun) : Prop := ∃ step ∈ r.steps, step.Failed

def GoesThrough (chains : BdRef → BdRef → Prop) (start ref : BdRef) : Prop := start = ref ∨ chains start ref

/-- An accepted update gives the descriptor its place in its buffer. -/
def BdStep.PointsRight (devAddr : BitVec 64 → BitVec 64) : BdStep → Prop
  | .lookup _ _ => True
  | .update bd vaddr address answer => answer.rc = xaieOk → address = bdAddress (devAddr vaddr) bd

/-- No task goes through the descriptors of an affected port. -/
def Isolated (mgr : ConfigManager) (chains : BdRef → BdRef → Prop) (runs : List PortRun) : Prop :=
  ∀ r ∈ runs, r.Affected → ∀ t ∈ runs, t.task.rc = xaieOk →
    ∀ ref ∈ portRefs mgr r.port, ¬GoesThrough chains (portLoc mgr t.port, t.startBd) ref

/-- After a failure nothing is started on the port, no wrong address is programmed and an error is returned. -/
def FailsClosed (mgr : ConfigManager) (chains : BdRef → BdRef → Prop) (devAddr : BitVec 64 → BitVec 64)
    (runs : List PortRun) (code : ErrCode) : Prop :=
  (∃ r ∈ runs, r.Affected) →
    Isolated mgr chains runs ∧ (∀ r ∈ runs, ∀ step ∈ r.steps, step.PointsRight devAddr) ∧ code ≠ .ok

/-- A call returns the code and did what the runs say. -/
def Does (mgr : ConfigManager) (s : BufferState) (call : BufferProgram ErrCode) (script : List DriverAnswer)
    (runs : List PortRun) (code : ErrCode) : Prop :=
  ∃ s', call ⟨s, [], script⟩ = (.returned code, ⟨s', runs.flatMap (PortRun.events mgr), []⟩)

def FindsAddress (devAddr : BitVec 64 → BitVec 64) (vaddr : BitVec 64) (answer : DriverAnswer) : Prop :=
  answer.rc = 0#32 → answer.value = devAddr vaddr

section Transfers

variable {mgr : ConfigManager} {chains : BdRef → BdRef → Prop} {devAddr : BitVec 64 → BitVec 64}
  {port : ShimPortConfig} {ddrAddress : BitVec 64} {r : TransferReply} {sync : Option PlatformEvent}

def TransferReply.Good (r : TransferReply) : Prop := r.lookup.rc = 0#32 ∧ ∀ answer ∈ r.updates, answer.rc = xaieOk

theorem bdAddress_inj {phyAddress phyAddress' : BitVec 64} {bd : ShimBDInfo} :
    bdAddress phyAddress bd = bdAddress phyAddress' bd ↔ phyAddress = phyAddress' := by
  rw [bdAddress, bdAddress]
  exact BitVec.add_left_inj _

theorem mem_updateSteps {phyAddress : BitVec 64} {bds : List ShimBDInfo} {answers : List DriverAnswer}
    {step : BdStep} (hlength : answers.length = bds.length) :
    step ∈ updateSteps ddrAddress phyAddress bds answers ↔
      ∃ bd answer, (bd, answer) ∈ bds.zip answers ∧
      step = .update bd ddrAddress (bdAddress phyAddress bd) answer := by
  induction bds generalizing answers with
  | nil => simp [updateSteps]
  | cons bd bds ih =>
    obtain ⟨answer, answers, rfl⟩ := List.exists_cons_of_length_eq_add_one hlength
    rw [updateSteps, List.mem_cons, ih (Nat.succ_injective hlength)]
    simp only [List.zip_cons_cons, List.mem_cons, Prod.mk.injEq]
    constructor
    · rintro (rfl | ⟨bd', answer', hmem, rfl⟩)
      · exact ⟨bd, answer, .inl ⟨rfl, rfl⟩, rfl⟩
      · exact ⟨bd', answer', .inr hmem, rfl⟩
    · rintro ⟨bd', answer', ⟨rfl, rfl⟩ | hmem, rfl⟩
      · exact .inl rfl
      · exact .inr ⟨bd', answer', hmem, rfl⟩

theorem exists_mem_zip_of_mem {A B : Type} {as : List A} {bs : List B} {b : B} (hlength : bs.length = as.length)
    (hb : b ∈ bs) : ∃ a, (a, b) ∈ as.zip bs := by
  have hmap : b ∈ (as.zip bs).map Prod.snd := by rwa [List.map_snd_zip (Nat.le_of_eq hlength)]
  obtain ⟨⟨a, _⟩, hzip, rfl⟩ := List.mem_map.mp hmap
  exact ⟨a, hzip⟩

theorem affected_transferRun_iff (hlength : r.updates.length = port.shimBDInfos.length) :
    (transferRun port ddrAddress r sync).Affected ↔ ¬r.Good := by
  rw [TransferReply.Good, not_and_or]
  push Not
  constructor
  · rintro ⟨step, hstep, hfailed⟩
    obtain rfl | hupdate := List.mem_cons.mp hstep
    · exact .inl hfailed
    · obtain ⟨bd, answer, hzip, rfl⟩ := (mem_updateSteps hlength).mp hupdate
      exact .inr ⟨answer, (List.of_mem_zip hzip).2, hfailed⟩
  · rintro (hlookup | ⟨answer, hanswer, hfailed⟩)
    · exact ⟨_, List.mem_cons_self, hlookup⟩
    · obtain ⟨bd, hzip⟩ := exists_mem_zip_of_mem hlength hanswer
      exact ⟨_, List.mem_cons_of_mem _ ((mem_updateSteps hlength).mpr ⟨bd, answer, hzip, rfl⟩), hfailed⟩

/-- The updates of a transfer point right if the lookup succeeds, by chance, or if none is accepted. -/
theorem pointsRight_transferRun_iff (hlength : r.updates.length = port.shimBDInfos.length)
    (hfinds : FindsAddress devAddr ddrAddress r.lookup) :
    (∀ step ∈ (transferRun port ddrAddress r sync).steps, step.PointsRight devAddr) ↔
      r.lookup.rc = 0#32 ∨ devAddr ddrAddress = 0#64 ∨ ∀ answer ∈ r.updates, answer.rc ≠ xaieOk := by
  have hsteps : (∀ step ∈ (transferRun port ddrAddress r sync).steps, step.PointsRight devAddr) ↔
      ∀ answer ∈ r.updates, answer.rc = xaieOk → lookedUp 0#64 r.lookup = devAddr ddrAddress := by
    rw [transferRun, List.forall_mem_cons]
    constructor
    · rintro ⟨-, h⟩ answer hanswer haccepted
      obtain ⟨bd, hzip⟩ := exists_mem_zip_of_mem hlength hanswer
      exact bdAddress_inj.mp (h _ ((mem_updateSteps hlength).mpr ⟨bd, answer, hzip, rfl⟩) haccepted)
    · refine fun h => ⟨trivial, fun step hstep => ?_⟩
      obtain ⟨bd, answer, hzip, rfl⟩ := (mem_updateSteps hlength).mp hstep
      exact fun haccepted => bdAddress_inj.mpr (h answer (List.of_mem_zip hzip).2 haccepted)
  rw [hsteps]
  by_cases hrc : r.lookup.rc = 0#32
  · have hfound : lookedUp 0#64 r.lookup = devAddr ddrAddress := (if_neg (not_not.mpr hrc)).trans (hfinds hrc)
    exact iff_of_true (fun _ _ _ => hfound) (.inl hrc)
  · have hnull : lookedUp 0#64 r.lookup = 0#64 := if_pos hrc
    rw [hnull]
    by_cases haddr : devAddr ddrAddress = 0#64
    · exact iff_of_true (fun _ _ _ => haddr.symm) (.inr (.inl haddr))
    · simp only [hrc, haddr, false_or]
      exact forall₂_congr fun answer _ =>
        ⟨fun h haccepted => haddr (h haccepted).symm, fun h haccepted => absurd haccepted h⟩

theorem failsClosed_transferRun_iff (hlength : r.updates.length = port.shimBDInfos.length)
    (hfinds : FindsAddress devAddr ddrAddress r.lookup) :
    FailsClosed mgr chains devAddr [transferRun port ddrAddress r sync] (driverCode r.task.rc) ↔
      r.Good ∨ (r.task.rc ≠ xaieOk ∧
        (r.lookup.rc = 0#32 ∨ devAddr ddrAddress = 0#64 ∨ ∀ answer ∈ r.updates, answer.rc ≠ xaieOk)) := by
  have hcode : driverCode r.task.rc ≠ .ok ↔ r.task.rc ≠ xaieOk := by simp [driverCode]
  have hisolated (htask : r.task.rc ≠ xaieOk) : Isolated mgr chains [transferRun port ddrAddress r sync] := by
    intro _ _ _ t ht haccepted
    obtain rfl := List.mem_singleton.mp ht
    exact absurd haccepted htask
  simp only [FailsClosed, List.mem_singleton, exists_eq_left, forall_eq, affected_transferRun_iff hlength, hcode,
    pointsRight_transferRun_iff hlength hfinds]
  constructor
  · intro h
    by_cases hgood : r.Good
    · exact .inl hgood
    · obtain ⟨-, hright, htask⟩ := h hgood
      exact .inr ⟨htask, hright⟩
  · rintro (hgood | ⟨htask, hright⟩) hbad
    · exact absurd hgood hbad
    · exact ⟨hisolated htask, hright, htask⟩

end Transfers

section Setups

variable {mgr : ConfigManager} {chains : BdRef → BdRef → Prop} {devAddr : BitVec 64 → BitVec 64}
  {buffer : ShimBDInfo → BitVec 64} {synced : Bool} {port : ShimPortConfig} {ports : List ShimPortConfig}
    {r : PortReply}
  {rs : List PortReply}

def PortReply.Good (r : PortReply) : Prop := ∀ b ∈ r.bds, b.lookup.rc = 0#32 ∧ b.update.rc = xaieOk

/-- Successful lookups of a port find the device addresses. -/
def PortReply.Finds (devAddr : BitVec 64 → BitVec 64) (buffer : ShimBDInfo → BitVec 64) (port : ShimPortConfig)
    (r : PortReply) : Prop :=
  ∀ entry ∈ port.shimBDInfos.zip r.bds, FindsAddress devAddr (buffer entry.1) entry.2.lookup

/-- The device address that the last successful lookup answered, 0 if there is none. -/
def lastFound (bs : List BdReply) : BitVec 64 :=
  ((bs.reverse.find? fun b => b.lookup.rc = 0#32).map fun b => b.lookup.value).getD 0#64

/-- The number a port's task starts at: the first one not negative, or else the last. -/
def startNum (bds : List ShimBDInfo) : BitVec 32 :=
  (((bds.find? fun bd => 0 ≤ bd.bdId.toInt).or bds.getLast?).map ShimBDInfo.bdId).getD (-1#32)

def portStart (mgr : ConfigManager) (port : ShimPortConfig) : BdRef :=
  (portLoc mgr port, (startNum port.shimBDInfos).setWidth 8)

/-- What has to be refused, and where descriptors have to lie, so that failures do no harm. -/
structure Contained (mgr : ConfigManager) (chains : BdRef → BdRef → Prop) (devAddr : BitVec 64 → BitVec 64)
    (buffer : ShimBDInfo → BitVec 64) (ports : List ShimPortConfig) (rs : List PortReply) : Prop where
  /-- The push of a port with a failure is refused. -/
  own : ∀ pair ∈ ports.zip rs, ¬pair.2.Good → pair.2.task.rc ≠ xaieOk
  /-- No accepted push of another port goes through the descriptors of a port with a failure. -/
  others : ∀ pair ∈ ports.zip rs, ¬pair.2.Good → ∀ other ∈ ports.zip rs, other.2.task.rc = xaieOk →
    ∀ bd ∈ pair.1.shimBDInfos, ¬GoesThrough chains (portStart mgr other.1) (portLoc mgr pair.1, bdNum bd)
  /-- A descriptor that is updated after a failed lookup selects a buffer at the device address found last before,
  or at 0. -/
  addresses : ∀ pair ∈ ports.zip rs, ∀ before entry after, pair.1.shimBDInfos.zip pair.2.bds =
    before ++ entry :: after →
    entry.2.lookup.rc ≠ 0#32 → entry.2.update.rc = xaieOk → devAddr (buffer entry.1) =
      lastFound (before.map Prod.snd)
  /-- The push of the last port is refused. -/
  last : ∃ r, rs.getLast? = some r ∧ r.task.rc ≠ xaieOk

/-- The loop over the descriptors starts the task at `startNum`. -/
theorem startBd_countAll (l : BdLocals) (hl : l.startBd.toInt < 0) (bds : List ShimBDInfo) :
    (l.countAll bds).startBd =
      (((bds.find? fun bd => 0 ≤ bd.bdId.toInt).or bds.getLast?).map ShimBDInfo.bdId).getD l.startBd := by
  induction bds generalizing l with
  | nil => rfl
  | cons bd rest ih =>
    have hcount : (l.count bd).startBd = bd.bdId := if_pos hl
    by_cases hbd : 0 ≤ bd.bdId.toInt
    · rw [List.find?_cons_of_pos (by simpa using hbd)]
      exact (startBd_countAll_of_nonneg (l.count bd) rest (by rwa [hcount])).trans hcount
    · rw [List.find?_cons_of_neg (by simpa using hbd)]
      refine (ih (l.count bd) (by rw [hcount]; omega)).trans ?_
      rw [hcount]
      cases rest with
      | nil => rfl
      | cons bd' rest => cases hfind : List.find? _ (bd' :: rest) <;> simp [List.getLast?_cons]

/-- The task of a port with descriptors starts at one of them. -/
theorem exists_startNum {bds : List ShimBDInfo} (hne : bds ≠ []) : ∃ bd ∈ bds, bd.bdId = startNum bds := by
  unfold startNum
  cases hfind : bds.find? fun bd => 0 ≤ bd.bdId.toInt with
  | some bd => exact ⟨bd, List.mem_of_find?_eq_some hfind, rfl⟩
  | none =>
    rw [List.getLast?_eq_some_getLast hne]
    exact ⟨_, List.getLast_mem hne, rfl⟩

/-- The lookups of a port leave the address that was found last. -/
theorem phyAfter_eq_lastFound (bs : List BdReply) : phyAfter 0#64 bs = lastFound bs := by
  induction bs using List.reverseRecOn with
  | nil => rfl
  | append_singleton bs b ih =>
    have hstep : phyAfter 0#64 (bs ++ [b]) = lookedUp (phyAfter 0#64 bs) b.lookup := by
      rw [phyAfter, phyAfter, List.foldl_append]
      rfl
    rw [hstep, ih, lastFound, lastFound, List.reverse_append, List.reverse_singleton, List.singleton_append]
    by_cases hrc : b.lookup.rc = 0#32
    · rw [List.find?_cons_of_pos (by simpa using hrc), lookedUp, if_neg (not_not.mpr hrc)]
      rfl
    · rw [List.find?_cons_of_neg (by simpa using hrc), lookedUp, if_pos hrc]

/-- The steps of a port, entry by entry. -/
theorem mem_pingpongSteps {phyAddress : BitVec 64} {bds : List ShimBDInfo} {bs : List BdReply} {step : BdStep} :
    step ∈ pingpongSteps buffer phyAddress bds bs ↔ ∃ before entry after, bds.zip bs = before ++ entry :: after ∧
      (step = .lookup (buffer entry.1) entry.2.lookup ∨
        step = .update entry.1 (buffer entry.1)
          (bdAddress (lookedUp (phyAfter phyAddress (before.map Prod.snd)) entry.2.lookup) entry.1)
            entry.2.update) := by
  induction bds generalizing phyAddress bs with
  | nil => simp [pingpongSteps]
  | cons bd bds ih =>
    cases bs with
    | nil => simp [pingpongSteps]
    | cons b bs =>
      rw [pingpongSteps, List.mem_cons, List.mem_cons, ih, List.zip_cons_cons]
      constructor
      · rintro (rfl | rfl | ⟨before, entry, after, hzip, hstep⟩)
        · exact ⟨[], (bd, b), _, rfl, .inl rfl⟩
        · exact ⟨[], (bd, b), _, rfl, .inr rfl⟩
        · exact ⟨(bd, b) :: before, entry, after, congrArg _ hzip, hstep⟩
      · rintro ⟨before, entry, after, hzip, hstep⟩
        obtain ⟨rfl, hentry⟩ | ⟨before', rfl, hzip'⟩ := List.cons_eq_append_iff.mp hzip
        · obtain ⟨rfl, -⟩ := List.cons.inj hentry
          exact hstep.imp_right .inl
        · exact .inr (.inr ⟨before', entry, after, hzip', hstep⟩)

/-- A port is affected if one of its answers is a failure. -/
theorem affected_pingpongRun_iff (hfits : r.Fits port) : (pingpongRun buffer synced port r).Affected ↔ ¬r.Good := by
  rw [PortReply.Good]
  push Not
  constructor
  · rintro ⟨step, hstep, hfailed⟩
    obtain ⟨before, entry, after, hzip, hcase⟩ := mem_pingpongSteps.mp hstep
    have hmem : entry.2 ∈ r.bds := (List.of_mem_zip (a := entry.1) (b := entry.2) (by rw [hzip]; simp)).2
    refine ⟨entry.2, hmem, fun hlookup => ?_⟩
    obtain rfl | rfl := hcase
    · exact absurd hlookup hfailed
    · exact hfailed
  · rintro ⟨b, hb, hbad⟩
    obtain ⟨bd, hzip⟩ := exists_mem_zip_of_mem hfits.1 hb
    obtain ⟨before, after, hsplit⟩ := List.append_of_mem hzip
    by_cases hlookup : b.lookup.rc = 0#32
    · exact ⟨_, mem_pingpongSteps.mpr ⟨before, (bd, b), after, hsplit, .inr rfl⟩, hbad hlookup⟩
    · exact ⟨_, mem_pingpongSteps.mpr ⟨before, (bd, b), after, hsplit, .inl rfl⟩, hlookup⟩

/-- The addresses of a port are right if each descriptor has its own lookup or lies where the last one was found.
-/
theorem pointsRight_pingpongRun_iff (hfinds : r.Finds devAddr buffer port) :
    (∀ step ∈ (pingpongRun buffer synced port r).steps, step.PointsRight devAddr) ↔
      ∀ before entry after, port.shimBDInfos.zip r.bds = before ++ entry :: after → entry.2.lookup.rc ≠ 0#32 →
        entry.2.update.rc = xaieOk → devAddr (buffer entry.1) = lastFound (before.map Prod.snd) := by
  constructor
  · intro h before entry after hsplit hlookup hupdate
    have hright := h _ (mem_pingpongSteps.mpr ⟨before, entry, after, hsplit, .inr rfl⟩) hupdate
    rw [phyAfter_eq_lastFound, lookedUp, if_pos hlookup] at hright
    exact (bdAddress_inj.mp hright).symm
  · intro h step hstep
    obtain ⟨before, entry, after, hsplit, rfl | rfl⟩ := mem_pingpongSteps.mp hstep
    · trivial
    · intro hupdate
      rw [bdAddress_inj, phyAfter_eq_lastFound]
      by_cases hlookup : entry.2.lookup.rc = 0#32
      · rw [lookedUp, if_neg (not_not.mpr hlookup)]
        exact hfinds entry (by rw [hsplit]; simp) hlookup
      · rw [lookedUp, if_pos hlookup, h before entry after hsplit hlookup hupdate]

/-- The code of a set-up is an error if the last push failed. -/
theorem setupCode_ne_ok_iff (status : ErrCode) (rs : List PortReply) :
    setupCode status rs ≠ .ok ↔ (rs = [] ∧ status ≠ .ok) ∨ ∃ r, rs.getLast? = some r ∧ r.task.rc ≠ xaieOk := by
  induction rs generalizing status with
  | nil => simp [setupCode]
  | cons r rs ih =>
    refine (ih (driverCode r.task.rc)).trans ?_
    cases rs with
    | nil => simp [driverCode]
    | cons r' rs => simp [List.getLast?_cons_cons]

/-- The runs of a set-up belong to its ports and their answers. -/
theorem mem_pingpongRuns {run : PortRun} :
    run ∈ pingpongRuns buffer synced ports rs ↔
    ∃ pair ∈ ports.zip rs, pingpongRun buffer synced pair.1 pair.2 = run := by
  rw [pingpongRuns, ← List.map_uncurry_zip_eq_zipWith, List.mem_map]
  rfl

/-- No task goes through an affected port if its push is refused and the accepted ones keep away. -/
theorem isolated_pingpongRuns_iff (hzip : ∀ pair ∈ ports.zip rs, pair.2.Fits pair.1) :
    Isolated mgr chains (pingpongRuns buffer synced ports rs) ↔
      ∀ pair ∈ ports.zip rs, ¬pair.2.Good → pair.2.task.rc ≠ xaieOk ∧
      ∀ other ∈ ports.zip rs, other.2.task.rc = xaieOk →
        ∀ bd ∈ pair.1.shimBDInfos, ¬GoesThrough chains (portStart mgr other.1) (portLoc mgr pair.1, bdNum bd) := by
  have hstart (pair : ShimPortConfig × PortReply) :
      (pingpongRun buffer synced pair.1 pair.2).startBd = (startNum pair.1.shimBDInfos).setWidth 8 :=
    congrArg (BitVec.setWidth 8) (startBd_countAll (.start 0#64) (by decide) _)
  constructor
  · intro h pair hpair hbad
    have hothers : ∀ other ∈ ports.zip rs, other.2.task.rc = xaieOk → ∀ bd ∈ pair.1.shimBDInfos,
        ¬GoesThrough chains (portStart mgr other.1) (portLoc mgr pair.1, bdNum bd) := by
      intro other hother haccepted bd hbd
      have haway :=
        h _ (mem_pingpongRuns.mpr ⟨pair, hpair, rfl⟩) ((affected_pingpongRun_iff (hzip pair hpair)).mpr hbad) _
        (mem_pingpongRuns.mpr ⟨other, hother, rfl⟩) haccepted _ (List.mem_map_of_mem hbd)
      rwa [hstart] at haway
    refine ⟨fun haccepted => ?_, hothers⟩
    -- a port with a failure has descriptors, and its own task starts at one of them
    have hne : pair.1.shimBDInfos ≠ [] := by
      intro hnil
      have hlength := (hzip pair hpair).1
      rw [hnil, List.length_nil] at hlength
      exact hbad fun b hb => absurd hb (by rw [List.length_eq_zero_iff.mp hlength]; exact List.not_mem_nil)
    obtain ⟨bd, hbd, hnum⟩ := exists_startNum hne
    exact hothers pair hpair haccepted bd hbd (.inl (by rw [portStart, ← hnum, bdNum]))
  · intro h run hrun haffected t ht haccepted ref href
    obtain ⟨pair, hpair, rfl⟩ := mem_pingpongRuns.mp hrun
    obtain ⟨other, hother, rfl⟩ := mem_pingpongRuns.mp ht
    obtain ⟨bd, hbd, rfl⟩ := List.mem_map.mp href
    rw [hstart]
    exact (h pair hpair ((affected_pingpongRun_iff (hzip pair hpair)).mp haffected)).2 other hother haccepted bd hbd

/-- A set-up fails closed if nothing failed or if its failures are contained. -/
theorem failsClosed_pingpongRuns_iff (hfits : SetupFits ports rs)
    (hfinds : ∀ pair ∈ ports.zip rs, pair.2.Finds devAddr buffer pair.1) :
    FailsClosed mgr chains devAddr (pingpongRuns buffer synced ports rs) (setupCode .ok rs) ↔
      (∀ r ∈ rs, r.Good) ∨ Contained mgr chains devAddr buffer ports rs := by
  obtain ⟨hlength, hforall⟩ := List.forall₂_iff_zip.mp hfits
  have hzip : ∀ pair ∈ ports.zip rs, pair.2.Fits pair.1 := fun pair hpair => hforall hpair
  have haffected : (∃ run ∈ pingpongRuns buffer synced ports rs, run.Affected) ↔ ¬∀ r ∈ rs, r.Good := by
    simp only [mem_pingpongRuns, not_forall]
    constructor
    · rintro ⟨run, ⟨pair, hpair, rfl⟩, haffected⟩
      exact ⟨pair.2, (List.of_mem_zip hpair).2, (affected_pingpongRun_iff (hzip pair hpair)).mp haffected⟩
    · rintro ⟨r, hr, hbad⟩
      obtain ⟨port, hpair⟩ := exists_mem_zip_of_mem hlength.symm hr
      exact ⟨_, ⟨(port, r), hpair, rfl⟩, (affected_pingpongRun_iff (hzip _ hpair)).mpr hbad⟩
  have hright : (∀ run ∈ pingpongRuns buffer synced ports rs, ∀ step ∈ run.steps, step.PointsRight devAddr) ↔
      ∀ pair ∈ ports.zip rs, ∀ before entry after, pair.1.shimBDInfos.zip pair.2.bds = before ++ entry :: after →
        entry.2.lookup.rc ≠ 0#32 → entry.2.update.rc = xaieOk →
        devAddr (buffer entry.1) = lastFound (before.map Prod.snd) := by
    simp only [mem_pingpongRuns, forall_exists_index, and_imp, forall_apply_eq_imp_iff₂]
    exact forall₂_congr fun pair hpair => pointsRight_pingpongRun_iff (hfinds pair hpair)
  have hcode : setupCode .ok rs ≠ .ok ↔ ∃ r, rs.getLast? = some r ∧ r.task.rc ≠ xaieOk := by
    rw [setupCode_ne_ok_iff]
    simp
  rw [FailsClosed, haffected, hright, hcode, isolated_pingpongRuns_iff hzip]
  constructor
  · intro h
    refine or_iff_not_imp_left.mpr fun hbad => ?_
    obtain ⟨hisolated, haddresses, hlast⟩ := h hbad
    exact ⟨fun pair hpair hp => (hisolated pair hpair hp).1, fun pair hpair hp =>
      (hisolated pair hpair hp).2, haddresses,
      hlast⟩
  · rintro (hgood | hcontained) hbad
    · exact absurd hgood hbad
    · exact ⟨fun pair hpair hp =>
        ⟨hcontained.own pair hpair hp, hcontained.others pair hpair hp⟩, hcontained.addresses,
        hcontained.last⟩

end Setups

section Calls

variable (aiesim : Bool) (mgr : ConfigManager) (config : ExternalBufferConfig) (chains : BdRef → BdRef → Prop)
  (devAddr : BitVec 64 → BitVec 64) (s : BufferState)

def TransferReply.gm2aieScript (r : TransferReply) :
    List DriverAnswer := r.lookup :: (r.updates ++ [r.sync, r.task])

def TransferReply.aie2gmScript (aiesim : Bool) (r : TransferReply) : List DriverAnswer :=
  r.lookup :: (r.updates ++ ((if aiesim then [] else [r.sync]) ++ [r.task]))

structure TransferOutcome (portName : List UInt8) (port : ShimPortConfig) (r : TransferReply) : Prop where
  gm2aie : Does mgr s (gm2aieNb aiesim mgr config portName) r.gm2aieScript
    [transferRun port s.ddrAddress r (some ⟨.syncForDev s.ddrAddress (portSize port), r.sync⟩)]
    (driverCode r.task.rc)
  aie2gm : Does mgr s (aie2gmNb aiesim mgr config portName) (r.aie2gmScript aiesim)
    [transferRun port s.ddrAddress r (aie2gmSync aiesim port r)] (driverCode r.task.rc)
  failsClosed_iff : ∀ sync,
    FailsClosed mgr chains devAddr [transferRun port s.ddrAddress r sync] (driverCode r.task.rc) ↔
      r.Good ∨ (r.task.rc ≠ xaieOk ∧
        (r.lookup.rc = 0#32 ∨ devAddr s.ddrAddress = 0#64 ∨ ∀ answer ∈ r.updates, answer.rc ≠ xaieOk))

/-- What a ping-pong set-up does, and when it fails closed. -/
structure SetupOutcome (ptr1 ptr2 ping pong : BitVec 64) (syncCache : Bool) (rs : List PortReply) : Prop where
  does : Does mgr s (setupPingPongBuffers aiesim mgr config ptr1 ptr2 syncCache)
    (rs.flatMap (PortReply.script (!aiesim && syncCache)))
    (pingpongRuns (selected ping pong) (!aiesim && syncCache) config.shimPortConfigs rs) (setupCode .ok rs)
  failsClosed_iff :
    FailsClosed mgr chains devAddr
        (pingpongRuns (selected ping pong) (!aiesim && syncCache) config.shimPortConfigs rs) (setupCode .ok rs) ↔
      (∀ r ∈ rs, r.Good) ∨ Contained mgr chains devAddr (selected ping pong) config.shimPortConfigs rs

/-- For every pattern of failures: the calls go on to their push, so they fail closed only if nothing failed or if
later calls fail as well. -/
theorem calls_failClosed_iff :
    (∀ portName port r, findPort config portName = some port → r.updates.length = port.shimBDInfos.length →
      FindsAddress devAddr s.ddrAddress r.lookup →
      TransferOutcome aiesim mgr config chains devAddr s portName port r) ∧
    ∀ ptr1 ptr2 ping pong syncCache rs, SetupBuffers s ptr1 ptr2 ping pong → SetupFits config.shimPortConfigs rs →
      (∀ pair ∈ config.shimPortConfigs.zip rs, pair.2.Finds devAddr (selected ping pong) pair.1) →
      SetupOutcome aiesim mgr config chains devAddr s ptr1 ptr2 ping pong syncCache rs := by
  refine ⟨fun portName port r hport hlength hfinds => ?_,
    fun ptr1 ptr2 ping pong syncCache rs hbuffers hfits hfinds => ?_⟩
  · let transaction : TransactionInfo := ⟨s.ddrAddress, lookedUp 0#64 r.lookup, portSize port⟩
    refine ⟨⟨s.pushGm2aie aiesim transaction, ?_⟩, ⟨s.pushAie2gm aiesim transaction, ?_⟩,
      fun sync => failsClosed_transferRun_iff hlength hfinds⟩
    · rw [List.flatMap_singleton]
      exact gm2aieNb_run hport r hlength
    · rw [List.flatMap_singleton]
      exact aie2gmNb_run hport r hlength
  · obtain ⟨s', hrun⟩ := @setupPingPongBuffers_run mgr aiesim config s [] [] _ _ _ _ hbuffers syncCache rs hfits
    rw [List.append_nil, List.nil_append] at hrun
    exact ⟨⟨s', hrun⟩, failsClosed_pingpongRuns_iff hfits hfinds⟩

end Calls

def oneBdPort : ShimPortConfig where
  portId := 1#32
  portName := some [112]
  column := 3#16
  S2MMOrMM2S := 1#32
  channel := 0#16
  taskRepetition := 1#32
  enableTaskCompleteToken := false
  shimBDInfos := [⟨4#32, 0#32, 2#32, 64#64⟩]

def failedLookup : TransferReply where
  lookup := { rc := 1#32, value := 0#64, bytes := [], progress := 0 }
  updates := [{ rc := 0#32, value := 0#64, bytes := [], progress := 0 }]
  sync := { rc := 0#32, value := 0#64, bytes := [], progress := 0 }
  task := { rc := 0#32, value := 0#64, bytes := [], progress := 0 }

/-- A set-up whose lookup fails, whose update is accepted and whose push is refused. -/
def failedSetup : PortReply where
  bds := [⟨failedLookup.lookup, failedLookup.sync⟩]
  sync := failedLookup.sync
  task := failedLookup.lookup

/-- The equivalences at a transfer and at a set-up whose lookups fail. -/
theorem calls_failClosed_sample :
    let config : ExternalBufferConfig := { id := 1#16, name := some [98], shimPortConfigs := [oneBdPort] }
    let mgr : ConfigManager := { devGen := xaieDevGenAieml, numReservedRows := 1#64, broadcastEnableCore := false }
    let s := BufferState.fresh.setAddress 0x1000#64
    FindsAddress (fun vaddr => vaddr + 0x80000000#64) s.ddrAddress failedLookup.lookup ∧
      TransferOutcome false mgr config (fun _ _ => False) (fun vaddr => vaddr + 0x80000000#64) s [112] oneBdPort
        failedLookup ∧
      SetupOutcome false mgr config (fun _ _ => False) (fun vaddr => vaddr + 0x80000000#64) s 0x2000#64 0x3000#64
        0x2000#64 0x3000#64 true [failedSetup] := by
  intro config mgr s
  have hfinds : FindsAddress (fun vaddr => vaddr + 0x80000000#64) s.ddrAddress failedLookup.lookup :=
    fun h => absurd h (by decide)
  obtain ⟨htransfers, hsetups⟩ := calls_failClosed_iff false mgr config (fun _ _ => False)
    (fun vaddr => vaddr + 0x80000000#64) s
  refine ⟨hfinds, htransfers [112] oneBdPort failedLookup (by decide) rfl hfinds,
    hsetups _ _ _ _ true [failedSetup] ⟨rfl, rfl⟩ (.cons ⟨rfl, by decide⟩ .nil) fun pair hpair entry hentry => ?_⟩
  obtain rfl := List.mem_singleton.mp hpair
  obtain rfl := List.mem_singleton.mp hentry
  exact fun h => absurd h (by decide)

/-- A lookup fails: the descriptor points to its offset from address 0, the task is pushed and ok is returned. -/
theorem failed_lookup_starts_task :
    let config : ExternalBufferConfig := { id := 1#16, name := some [98], shimPortConfigs := [oneBdPort] }
    let mgr : ConfigManager := { devGen := xaieDevGenAieml, numReservedRows := 1#64, broadcastEnableCore := false }
    let s := BufferState.fresh.setAddress 0x1000#64
    let run := transferRun oneBdPort 0x1000#64 failedLookup (some ⟨.syncForDev 0x1000#64 64#64, failedLookup.sync⟩)
    gm2aieNb false mgr config [112] ⟨s, [], failedLookup.gm2aieScript⟩ = (.returned .ok, ⟨s, run.events mgr, []⟩) ∧
      run.steps = [.lookup 0x1000#64 failedLookup.lookup,
        .update ⟨4#32, 0#32, 2#32, 64#64⟩ 0x1000#64 8#64
          { rc := 0#32, value := 0#64, bytes := [], progress := 0 }] ∧
      ¬FailsClosed mgr (fun _ _ => False) (fun vaddr => vaddr + 0x80000000#64) [run] .ok := by
  intro config mgr s run
  refine ⟨rfl, rfl, fun h => ?_⟩
  obtain ⟨-, -, hcode⟩ := h ⟨run, List.mem_singleton_self _, _, List.mem_cons_self,
    (by decide : failedLookup.lookup.rc ≠ 0#32)⟩
  exact hcode rfl

end AieBaremetal.ExternalBuffer
