import AieBaremetal.ExternalBuffer.Latch

/-!
# The default port of an external buffer

A typed external buffer starts a transfer without a port name on the port called after the buffer, with
`.out[0]` or `.in[0]` behind the name, copied into an array of 256 characters whose last one stays free.
Buffer names may have 1024 characters, so the copy may be cut, and the object below takes a name it does
not know for success. Typed objects exist in the hardware build only.
-/

namespace AieBaremetal.ExternalBuffer

open Common AieBaremetal.Runtime Metadata
open Cdo (AegErr)

/-- The copy loop: characters are added while there is room. -/
def copyChars (buf : List UInt8) : List UInt8 → List UInt8
  | [] => buf
  | c :: rest => if buf.length < 255 then copyChars (buf ++ [c]) rest else buf

def outSuffix : List UInt8 := [46, 111, 117, 116, 91, 48, 93]

def inSuffix : List UInt8 := [46, 105, 110, 91, 48, 93]

/-- The port name the call goes on with. -/
def defaultPort (portName suffix : List UInt8) : List UInt8 := copyChars (copyChars [] portName) suffix

section Calls

variable (mgr : ConfigManager) (config : ExternalBufferConfig) (route : Route) (portName : List UInt8)

def defaultGm2aieNb : BufferProgram AegErr :=
  if portName.isEmpty then pure .invalidName
  else applicationCall false mgr config (.gm2aieNb route (defaultPort portName outSuffix))

def defaultAie2gmNb : BufferProgram AegErr :=
  if portName.isEmpty then pure .invalidName
  else applicationCall false mgr config (.aie2gmNb route (defaultPort portName inSuffix))

end Calls

/-- The two calls of a buffer are those that take the whole port name. -/
def ActsAsNamed (mgr : ConfigManager) (portName : List UInt8) : Prop :=
  ∀ config route, route.byName = false →
    defaultGm2aieNb mgr config route portName =
      applicationCall false mgr config (.gm2aieNb route (portName ++ outSuffix)) ∧
    defaultAie2gmNb mgr config route portName =
      applicationCall false mgr config (.aie2gmNb route (portName ++ inSuffix))

theorem copyChars_eq (buf src : List UInt8) (hbuf : buf.length ≤ 255) :
    copyChars buf src = (buf ++ src).take 255 := by
  induction src generalizing buf with
  | nil => rw [copyChars, List.append_nil, List.take_of_length_le hbuf]
  | cons c rest ih =>
    rw [copyChars]
    split
    next hroom =>
      have hlength : (buf ++ [c]).length ≤ 255 := by
        rw [List.length_append]
        exact hroom
      rw [ih _ hlength, List.append_assoc]
      rfl
    next hfull => rw [List.take_append_of_le_length (Nat.le_of_not_lt hfull), List.take_of_length_le hbuf]

theorem defaultPort_eq (portName suffix : List UInt8) :
    defaultPort portName suffix = (portName ++ suffix).take 255 := by
  rw [defaultPort, copyChars_eq [] portName (Nat.zero_le _), List.nil_append,
    copyChars_eq _ _ (List.length_take_le ..)]
  rcases Nat.le_total portName.length 255 with hle | hge
  · rw [List.take_of_length_le hle]
  · rw [List.take_append_of_le_length hge, List.take_append_of_le_length (by simpa using hge),
      List.take_take, Nat.min_self]

def portNamed (portName : List UInt8) : ShimPortConfig where
  portId := 0#32
  portName := some portName
  column := 0#16
  S2MMOrMM2S := 1#32
  channel := 0#16
  taskRepetition := 1#32
  enableTaskCompleteToken := false
  shimBDInfos := []

def bufferWithPort (portName : List UInt8) : ExternalBufferConfig where
  id := 0#16
  name := none
  shimPortConfigs := [portNamed portName]

/-- A transfer on the port of the buffer asks for an address, one on another port does nothing. -/
theorem applicationCall_gm2aieNb_bufferWithPort (mgr : ConfigManager) {portName other : List UInt8}
    (hother : other ≠ []) (s : BufferState) :
    applicationCall false mgr (bufferWithPort portName) (.gm2aieNb typedRoute other) ⟨s, [], []⟩ =
      if portName = other then (.blocked, ⟨s, [], []⟩) else (.returned .ok, ⟨s, [], []⟩) := by
  have hadmitted : BufferCall.refused (.gm2aieNb typedRoute other) = none := by
    simp [BufferCall.refused, Route.refuses, typedRoute, hother]
  have hports : (bufferWithPort portName).shimPortConfigs.isEmpty = false := rfl
  rw [applicationCall, hadmitted]
  simp only [BufferCall.method, gm2aieNb, transferNb, onPort, hports, Bool.false_eq_true, if_false]
  by_cases hsame : portName = other
  · have hfound : findPort (bufferWithPort portName) other = some (portNamed portName) := by
      simp [findPort, bufferWithPort, portNamed, hsame]
    rw [hfound, if_pos hsame]
    rfl
  · have hmissing : findPort (bufferWithPort portName) other = none := by
      simp [findPort, bufferWithPort, portNamed, hsame]
    rw [hmissing, if_neg hsame]
    rfl

/-- With a longer name the object has the default port, and the call succeeds without using it. -/
theorem defaultGm2aieNb_of_long (mgr : ConfigManager) {portName : List UInt8} (hlong : 248 < portName.length)
    (s : BufferState) :
    defaultGm2aieNb mgr (bufferWithPort (portName ++ outSuffix)) typedRoute portName ⟨s, [], []⟩ =
      (.returned .ok, ⟨s, [], []⟩) ∧
    applicationCall false mgr (bufferWithPort (portName ++ outSuffix))
      (.gm2aieNb typedRoute (portName ++ outSuffix))
      ⟨s, [], []⟩ = (.blocked, ⟨s, [], []⟩) := by
  have hlength : (portName ++ outSuffix).length = portName.length + 7 := List.length_append
  have hcopied : (defaultPort portName outSuffix).length = 255 := by
    rw [defaultPort_eq, List.length_take]
    omega
  have hcut : portName ++ outSuffix ≠ defaultPort portName outSuffix := fun heq => by
    rw [← heq] at hcopied
    omega
  have hne : defaultPort portName outSuffix ≠ [] := List.ne_nil_of_length_pos (by omega)
  have hwhole : portName ++ outSuffix ≠ [] := List.ne_nil_of_length_pos (by omega)
  have hname : portName ≠ [] := List.ne_nil_of_length_pos (by omega)
  constructor
  · rw [defaultGm2aieNb, List.isEmpty_eq_false_iff.mpr hname, if_neg Bool.false_ne_true,
      applicationCall_gm2aieNb_bufferWithPort mgr hne, if_neg hcut]
  · rw [applicationCall_gm2aieNb_bufferWithPort mgr hwhole, if_pos rfl]

/-- With a longer name the call without a port name is another one. -/
theorem not_actsAsNamed_of_long {portName : List UInt8} (mgr : ConfigManager) (hlong : 249 ≤ portName.length) :
    ¬ActsAsNamed mgr portName := by
  intro h
  obtain ⟨hdefault, hnamed⟩ := defaultGm2aieNb_of_long mgr hlong .fresh
  have hrun := congrFun (h (bufferWithPort (portName ++ outSuffix)) typedRoute rfl).1 ⟨.fresh, [], []⟩
  rw [hdefault, hnamed] at hrun
  cases hrun

/-- The calls without a port name are those on the default ports exactly for names of 1 to 248 characters. -/
theorem default_actsAsNamed_iff (mgr : ConfigManager) (portName : List UInt8) :
    ActsAsNamed mgr portName ↔ portName ≠ [] ∧ portName.length ≤ 248 := by
  constructor
  · intro h
    constructor
    · rintro rfl
      -- the empty name is refused, while the other call looks for the object
      have hrun := congrFun (h (bufferWithPort []) ⟨false, true, false⟩ rfl).1 ⟨.fresh, [], []⟩
      have hcode : Outcome.returned AegErr.invalidName = .returned .backendNotReady := congrArg Prod.fst hrun
      cases hcode
    · by_contra hlong
      exact not_actsAsNamed_of_long mgr (Nat.lt_of_not_le hlong) h
  · rintro ⟨hne, hle⟩ config route -
    have hwhole (suffix : List UInt8) (hsuffix : suffix.length ≤ 7) : defaultPort portName suffix =
      portName ++ suffix := by
      rw [defaultPort_eq, List.take_of_length_le]
      rw [List.length_append]
      omega
    rw [defaultGm2aieNb, defaultAie2gmNb, List.isEmpty_eq_false_iff.mpr hne, hwhole outSuffix (by decide),
      hwhole inSuffix (by decide)]
    exact ⟨rfl, rfl⟩

/-- With a name of 249 characters the transfer is not made. -/
theorem default_name_cut :
    let portName := List.replicate 249 (97 : UInt8)
    let config := bufferWithPort (portName ++ outSuffix)
    portName.length ≤ 1024 ∧ ¬ActsAsNamed bareManager portName ∧
    defaultGm2aieNb bareManager config typedRoute portName ⟨.fresh, [], []⟩ = (.returned .ok, ⟨.fresh, [], []⟩) ∧
    applicationCall false bareManager config (.gm2aieNb typedRoute (portName ++ outSuffix)) ⟨.fresh, [], []⟩ =
      (.blocked, ⟨.fresh, [], []⟩) := by
  have hlength : (List.replicate 249 (97 : UInt8)).length = 249 := List.length_replicate
  exact ⟨hlength.le.trans (by decide), not_actsAsNamed_of_long bareManager hlength.ge,
    defaultGm2aieNb_of_long bareManager hlength.ge .fresh⟩

end AieBaremetal.ExternalBuffer
