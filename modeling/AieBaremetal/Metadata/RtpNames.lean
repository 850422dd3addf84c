import AieBaremetal.Metadata.Graphs

/-!
# Ports by name and by alias

Every run-time parameter is stored in one map under its port name and, if it has one, under its
alias. Later assignments replace earlier ones, so an alias that is the name of a port hides that
port when it is stored after it.
-/

namespace AieBaremetal.Metadata

open Common

def loadNamedRtp : Unpack (List (List UInt8 × RtpConfig)) := do
  let rtpconfig ← loadRtp
  let portName ← hashView rtpconfig.portName
  if rtpconfig.aliasName = some [] then pure [(portName, rtpconfig)]
  else do
    let aliasName ← hashView rtpconfig.aliasName
    pure [(portName, rtpconfig), (aliasName, rtpconfig)]

def loadAllRtps (size : BitVec 32) (fuel : ℕ) : Unpack (NameMap RtpConfig) := do
  let entries ← Reader.readWhile (insideSection size) loadNamedRtp .outOfFuel fuel
  pure (assignAll (fun _ => none) entries.flatten)

/-- Both names of a parameter can be read. -/
def RtpConfig.Named (rtp : RtpConfig) : Prop := rtp.portName.isSome ∧ rtp.aliasName.isSome

/-- The parameter is stored under an alias that is not empty. -/
def RtpConfig.HasAlias (rtp : RtpConfig) (name : List UInt8) : Prop := rtp.aliasName = some name ∧ name ≠ []

/-- The loaded map leads from every port name to its port, and from every other alias to a parameter that has it.
-/
def FindsRtps (size : BitVec 32) (fuel : ℕ) (mem : ℤ → UInt8) (cursor next : ℤ) (rtps : List RtpConfig) : Prop :=
  ∃ map, loadAllRtps size fuel mem cursor = .ok (map, next) ∧
    (∀ rtp ∈ rtps, ∀ name, rtp.portName = some name → map name = some rtp) ∧
    (∀ rtp ∈ rtps, ∀ name, rtp.HasAlias name → (∀ other ∈ rtps, other.portName ≠ some name) →
      ∃ found ∈ rtps, map name = some found ∧ found.HasAlias name)

/-- No alias of a later record is the name of an earlier port. -/
def NoPortHidden (rtps : List RtpConfig) : Prop :=
  ∀ before rtp after, rtps = before ++ rtp :: after → ∀ later ∈ after, ∀ name, rtp.portName = some name →
    ¬later.HasAlias name

/-- The entries of a parameter whose names can be read. -/
def RtpConfig.entries (rtp : RtpConfig) : List (List UInt8 × RtpConfig) :=
  (rtp.portName.getD [], rtp) :: if rtp.aliasName = some [] then [] else [(rtp.aliasName.getD [], rtp)]

section Entries

variable {rtp : RtpConfig} {name : List UInt8} {entry : List UInt8 × RtpConfig}

theorem mem_entries (hnamed : rtp.Named) :
    entry ∈ rtp.entries ↔ entry.2 = rtp ∧ (rtp.portName = some entry.1 ∨ rtp.HasAlias entry.1) := by
  obtain ⟨key, value⟩ := entry
  obtain ⟨portName, hport⟩ := Option.isSome_iff_exists.mp hnamed.1
  obtain ⟨aliasName, halias⟩ := Option.isSome_iff_exists.mp hnamed.2
  by_cases hempty : aliasName = []
  · simp only [RtpConfig.entries, RtpConfig.HasAlias, hport, halias, hempty]
    grind
  · simp only [RtpConfig.entries, RtpConfig.HasAlias, hport, halias, Option.some_inj, hempty]
    grind

theorem loadNamedRtp_of_ok {mem : ℤ → UInt8} {cursor next : ℤ} (hload : loadRtp mem cursor = .ok (rtp, next))
    (hnamed : rtp.Named) : loadNamedRtp mem cursor = .ok (rtp.entries, next) := by
  obtain ⟨portName, hport⟩ := Option.isSome_iff_exists.mp hnamed.1
  obtain ⟨aliasName, halias⟩ := Option.isSome_iff_exists.mp hnamed.2
  rw [loadNamedRtp, Reader.bind_of_ok _ hload]
  simp only [hport, halias, hashView, Reader.pure_then, RtpConfig.entries, Option.getD_some]
  split
  · rfl
  · rfl

theorem assignAll_entries (hnamed : rtp.Named) (hport : rtp.portName = some name) (map : NameMap RtpConfig) :
    assignAll map rtp.entries name = some rtp := by
  obtain ⟨value, hvalue, hmem⟩ := @exists_assignAll _ map rtp.entries name
    ⟨(name, rtp), (mem_entries hnamed).mpr ⟨rfl, .inl hport⟩, rfl⟩
  exact hvalue.trans (congrArg some ((mem_entries hnamed).mp hmem).1)

end Entries

theorem assignAll_append {A : Type} (map : NameMap A) (entries more : List (List UInt8 × A)) :
    assignAll map (entries ++ more) = assignAll (assignAll map entries) more := List.foldl_append

section Section

variable {rtps : List RtpConfig} (hnamed : ∀ rtp ∈ rtps, rtp.Named)

include hnamed

theorem mem_flatMap_entries {entry : List UInt8 × RtpConfig} :
    entry ∈ rtps.flatMap RtpConfig.entries ↔
      entry.2 ∈ rtps ∧ (entry.2.portName = some entry.1 ∨ entry.2.HasAlias entry.1) := by
  rw [List.mem_flatMap]
  constructor
  · rintro ⟨rtp, hrtp, hentry⟩
    obtain ⟨rfl, hname⟩ := (mem_entries (hnamed rtp hrtp)).mp hentry
    exact ⟨hrtp, hname⟩
  · rintro ⟨hrtp, hname⟩
    exact ⟨entry.2, hrtp, (mem_entries (hnamed _ hrtp)).mpr ⟨rfl, hname⟩⟩

theorem loadAllRtps_of_ok {size : BitVec 32} {fuel : ℕ} {mem : ℤ → UInt8} {cursor next : ℤ}
    (hload : Reader.readWhile (insideSection size) loadRtp .outOfFuel fuel mem cursor = .ok (rtps, next)) :
    loadAllRtps size fuel mem cursor = .ok (assignAll (fun _ => none) (rtps.flatMap RtpConfig.entries), next) := by
  have hentries := Reader.readWhile_map hload fun rtp hrtp _ _ h => loadNamedRtp_of_ok h (hnamed rtp hrtp)
  rw [loadAllRtps, Reader.bind_of_ok _ hentries]
  rfl

theorem exists_of_alias {rtp : RtpConfig} (hrtp : rtp ∈ rtps) {name : List UInt8} (halias : rtp.HasAlias name)
    (hnone : ∀ other ∈ rtps, other.portName ≠ some name) :
    ∃ found ∈ rtps, assignAll (fun _ => none) (rtps.flatMap RtpConfig.entries) name = some found ∧
      found.HasAlias name := by
  have hmem : (name, rtp) ∈ rtps.flatMap RtpConfig.entries := (mem_flatMap_entries hnamed).mpr ⟨hrtp, .inr halias⟩
  obtain ⟨found, hfound, hentry⟩ := @exists_assignAll _ (fun _ => none) _ name ⟨_, hmem, rfl⟩
  obtain ⟨hin, hport | hhas⟩ := (mem_flatMap_entries hnamed).mp hentry
  · exact absurd hport (hnone found hin)
  · exact ⟨found, hin, hfound, hhas⟩

end Section

/-- A port is found under its name exactly when no later alias is that name. -/
theorem lookup_port_iff {before after : List RtpConfig} {rtp : RtpConfig}
    (hnamed : ∀ other ∈ before ++ rtp :: after, other.Named)
    (hdistinct : ((before ++ rtp :: after).map RtpConfig.portName).Nodup) {name : List UInt8}
    (hport : rtp.portName = some name) :
    assignAll (fun _ => none) ((before ++ rtp :: after).flatMap RtpConfig.entries) name = some rtp ↔
      ∀ later ∈ after, ¬later.HasAlias name := by
  have hrtp : rtp.Named := hnamed rtp (by simp)
  have hafter : ∀ later ∈ after, later.Named := fun later hlater => hnamed later (by simp [hlater])
  have hothers : ∀ later ∈ after, later.portName ≠ some name := by
    intro later hlater heq
    rw [List.map_append, List.map_cons] at hdistinct
    have hnotin := (List.nodup_cons.mp (List.nodup_append.mp hdistinct).2.1).1
    exact hnotin (List.mem_map.mpr ⟨later, hlater, heq.trans hport.symm⟩)
  rw [List.flatMap_append, List.flatMap_cons, assignAll_append, assignAll_append]
  constructor
  · intro hfound later hlater halias
    -- an alias stored later leads to a record behind this one
    have hmem : (name, later) ∈ after.flatMap RtpConfig.entries :=
      (mem_flatMap_entries hafter).mpr ⟨hlater, .inr halias⟩
    obtain ⟨value, hvalue, hentry⟩ := exists_assignAll ⟨_, hmem, rfl⟩
    rw [hfound] at hvalue
    cases hvalue
    exact hothers rtp ((mem_flatMap_entries hafter).mp hentry).1 hport
  · intro hnone
    rw [assignAll_of_not_mem, assignAll_entries hrtp hport]
    rintro entry hentry rfl
    obtain ⟨hin, hname | halias⟩ := (mem_flatMap_entries hafter).mp hentry
    · exact hothers entry.2 hin hname
    · exact hnone entry.2 hin halias

/-- The loaded map finds every port by its name, and every other alias, exactly when no alias of a
later record is the name of an earlier port. -/
theorem findsRtps_iff {size : BitVec 32} {fuel : ℕ} {mem : ℤ → UInt8} {cursor next : ℤ} {rtps : List RtpConfig}
    (hload : Reader.readWhile (insideSection size) loadRtp .outOfFuel fuel mem cursor = .ok (rtps, next))
    (hnamed : ∀ rtp ∈ rtps, rtp.Named) (hdistinct : (rtps.map RtpConfig.portName).Nodup) :
    FindsRtps size fuel mem cursor next rtps ↔ NoPortHidden rtps := by
  unfold FindsRtps
  rw [loadAllRtps_of_ok hnamed hload]
  constructor
  · rintro ⟨map, hmap, hports, -⟩ before rtp after rfl later hlater name hport
    cases hmap
    exact (lookup_port_iff hnamed hdistinct hport).mp (hports rtp (by simp) name hport) later hlater
  · intro hhidden
    refine ⟨_, rfl, fun rtp hrtp name hport => ?_, fun rtp hrtp name => exists_of_alias hnamed hrtp⟩
    obtain ⟨before, after, rfl⟩ := List.append_of_mem hrtp
    exact (lookup_port_iff hnamed hdistinct hport).mpr fun later hlater =>
      hhidden before rtp after rfl later hlater name hport

def namedRtp (portName aliasName : List UInt8) : RtpConfig where
  portId := 0
  aliasId := 0
  portName := some portName
  aliasName := some aliasName
  graphId := 0
  isInput := false
  isAsync := false
  isConnect := false
  numBytes := 0
  isPL := false
  hasLock := false
  selectorColumn := 0
  selectorRow := 0
  selectorAddr := 0
  selectorLockId := 0
  pingColumn := 0
  pingRow := 0
  pingAddr := 0
  pingLockId := 0
  pongColumn := 0
  pongRow := 0
  pongAddr := 0
  pongLockId := 0

def namedRtpBytes (portName aliasName : List UInt8) : List UInt8 :=
  List.replicate 8 0 ++ leBytes 4 portName.length ++ portName ++ leBytes 4 aliasName.length ++ aliasName ++
    List.replicate 43 0

def twoRtps (aliasName : List UInt8) : ℤ → UInt8 :=
  sectionMemory (fun _ => 0) (namedRtpBytes [97] [] ++ namedRtpBytes [98] aliasName)

/-- An alias of its own leads to its port. -/
theorem findsRtps_sample : FindsRtps 121 3 (twoRtps [99]) 0 121 [namedRtp [97] [], namedRtp [98] [99]] := by
  have hload : Reader.readWhile (insideSection 121) loadRtp .outOfFuel 3 (twoRtps [99]) 0 =
      .ok ([namedRtp [97] [], namedRtp [98] [99]], 121) := by decide +kernel
  have hnamed : ∀ rtp ∈ [namedRtp [97] [], namedRtp [98] [99]], rtp.Named := by simp [RtpConfig.Named, namedRtp]
  refine (findsRtps_iff hload hnamed (by decide)).mpr ?_
  intro before rtp after hsplit later hlater name hport halias
  obtain ⟨rfl, rfl, rfl⟩ | ⟨rfl, rfl, rfl⟩ : (before = [] ∧ rtp = namedRtp [97] [] ∧ after = [namedRtp [98] [99]]) ∨
      (before = [namedRtp [97] []] ∧ rtp = namedRtp [98] [99] ∧ after = []) := by
    match before, hsplit with
    | [], hsplit => exact .inl (by simpa [eq_comm] using hsplit)
    | [first], hsplit => exact .inr (by simpa [eq_comm] using hsplit)
    | first :: second :: rest, hsplit => simp at hsplit
  · obtain rfl := List.mem_singleton.mp hlater
    exact absurd (hport.trans halias.1.symm) (by decide)
  · cases hlater

/-- An alias that is the name of the port before it hides that port. -/
theorem alias_hides_port :
    Reader.readWhile (insideSection 121) loadRtp .outOfFuel 3 (twoRtps [97]) 0 =
      .ok ([namedRtp [97] [], namedRtp [98] [97]], 121) ∧
    ([namedRtp [97] [], namedRtp [98] [97]].map RtpConfig.portName).Nodup ∧
    ¬FindsRtps 121 3 (twoRtps [97]) 0 121 [namedRtp [97] [], namedRtp [98] [97]] := by
  have hload : Reader.readWhile (insideSection 121) loadRtp .outOfFuel 3 (twoRtps [97]) 0 =
      .ok ([namedRtp [97] [], namedRtp [98] [97]], 121) := by decide +kernel
  have hnamed : ∀ rtp ∈ [namedRtp [97] [], namedRtp [98] [97]], rtp.Named := by simp [RtpConfig.Named, namedRtp]
  refine ⟨hload, by decide, ?_⟩
  rintro ⟨map, hmap, hports, -⟩
  rw [loadAllRtps_of_ok hnamed hload] at hmap
  cases hmap
  exact absurd (hports (namedRtp [97] []) (by simp) [97] rfl) (by decide)

end AieBaremetal.Metadata
