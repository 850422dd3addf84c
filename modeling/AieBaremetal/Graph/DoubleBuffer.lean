import AieBaremetal.Common.ByteMemory
import AieBaremetal.Common.LittleEndian
import AieBaremetal.Common.Monitor
import AieBaremetal.Graph.Rtp

/-!
# The double buffer of a run-time parameter

An observer replays the tile memory from the driver calls. The driver obeys if every call succeeds and
a word that is read is the word in memory; only the host writes. Then the value behind the selector is
whole at every moment: the old one until the selector is written and the new one from then on.
Addresses are 32 bits wide and wrap around, and a parameter has fewer than `2 ^ 32` bytes.
-/

namespace AieBaremetal.Graph

open Common Common.Program AieBaremetal.Runtime

abbrev TileMemory := TileLoc × BitVec 32 → UInt8

def tileCell (loc : TileLoc) (addr : BitVec 32) (i : ℕ) : TileLoc × BitVec 32 := (loc, addr + BitVec.ofNat 32 i)

def wordAt (m : TileMemory) (loc : TileLoc) (addr : BitVec 32) :
    BitVec 32 := wordOfBytes (load m (tileCell loc addr) 4)

def callStores (m : TileMemory) : DriverCall → TileMemory
  | .dataMemWrWord loc addr data => store m (tileCell loc addr) (wordBytes data)
  | .dataMemBlockWrite loc addr src => store m (tileCell loc addr) src
  | _ => m

def callCells : DriverCall → List (TileLoc × BitVec 32)
  | .dataMemWrWord loc addr _ => (List.range 4).map (tileCell loc addr)
  | .dataMemBlockWrite loc addr src => (List.range src.length).map (tileCell loc addr)
  | _ => []

theorem tileCell_inj {loc : TileLoc} {addr : BitVec 32} {i j : ℕ} (hi : i < 2 ^ 32) (hj : j < 2 ^ 32)
    (h : tileCell loc addr i = tileCell loc addr j) : i = j := by
  have hoffset : BitVec.ofNat 32 i = BitVec.ofNat 32 j := by
    simpa [tileCell] using h
  have hmod := congrArg BitVec.toNat hoffset
  simp only [BitVec.toNat_ofNat] at hmod
  omega

theorem wordAt_store (m : TileMemory) (loc : TileLoc) (addr data : BitVec 32) :
    wordAt (store m (tileCell loc addr) (wordBytes data)) loc addr = data := by
  have hlength : (wordBytes data).length = 4 := leBytes_length 4 data.toNat
  have hload : load (store m (tileCell loc addr) (wordBytes data)) (tileCell loc addr) (wordBytes data).length =
      wordBytes data := by
    apply load_store
    intro i hi j hj h
    exact tileCell_inj (by omega) (by omega) h
  rw [hlength] at hload
  rw [wordAt, hload]
  simpa using wordOfBytes_wordBytes data []

section Parameter

variable (mgr : ConfigManager) (rtp : RtpConfig)

def LockedPlace.cell (place : LockedPlace) : ℕ → TileLoc × BitVec 32 := tileCell place.tile place.addr

def RtpConfig.selectorIn (m : TileMemory) : BitVec 32 := wordAt m (rtp.selector mgr).tile (rtp.selector mgr).addr

def RtpConfig.contents (m : TileMemory) (place : LockedPlace) : List UInt8 := load m place.cell rtp.numBytes.toNat

/-- The buffer `read` takes the value from. -/
def RtpConfig.selected (m : TileMemory) : LockedPlace := rtp.buffer mgr (rtp.selectorIn mgr m)

def RtpConfig.unselected (m : TileMemory) : LockedPlace :=
  if rtp.selectorIn mgr m = 1#32 then rtp.ping mgr else rtp.pong mgr

/-- The value of the parameter, as `read` would find it. -/
def RtpConfig.valueIn (m : TileMemory) : List UInt8 := rtp.contents m (rtp.selected mgr m)

/-- The selector is one of its two values. -/
def RtpConfig.SelectorValid (m : TileMemory) : Prop := rtp.selectorIn mgr m = 0#32 ∨ rtp.selectorIn mgr m = 1#32

/-- Selector, ping and pong do not overlap. -/
structure RtpConfig.Apart : Prop where
  size : rtp.numBytes.toNat < 2 ^ 32
  ping_pong : ∀ i < rtp.numBytes.toNat, ∀ j < rtp.numBytes.toNat, (rtp.ping mgr).cell i ≠ (rtp.pong mgr).cell j
  selector_ping : ∀ i < 4, ∀ j < rtp.numBytes.toNat, (rtp.selector mgr).cell i ≠ (rtp.ping mgr).cell j
  selector_pong : ∀ i < 4, ∀ j < rtp.numBytes.toNat, (rtp.selector mgr).cell i ≠ (rtp.pong mgr).cell j

end Parameter

/-- The memory now and when the call began, and whether the call wrote a block. -/
structure BufferObserver where
  mem : TileMemory
  start : TileMemory
  current : Option (List UInt8)
  written : Bool

def BufferObserver.idle (m : TileMemory) : BufferObserver where
  mem := m
  start := m
  current := none
  written := false

def isBlockWrite : DriverCall → Bool
  | .dataMemBlockWrite _ _ _ => true
  | _ => false

def BufferObserver.step (o : BufferObserver) : Event (List UInt8) → BufferObserver
  | .enter pValue => { o with start := o.mem, current := some pValue, written := false }
  | .driver call _ => { o with mem := callStores o.mem call, written := o.written || isBlockWrite call }
  | .leave _ => { o with current := none }

/-- The driver succeeds and reads what is in memory. -/
def Obeys (o : BufferObserver) : Event (List UInt8) → Prop
  | .driver (.dataMemRdWord loc addr) answer =>
    answer.rc = xaieOk ∧ answer.value.setWidth 32 = wordAt o.mem loc addr
  | .driver _ answer => answer.rc = xaieOk
  | _ => True

instance (o : BufferObserver) (e : Event (List UInt8)) : Decidable (Obeys o e) :=
  match e with
  | .enter _ | .leave _ => .isTrue trivial
  | .driver call answer => by
    apply DriverCall.casesOn (motive := fun call => Decidable (Obeys o (.driver call answer))) call
    case dataMemRdWord =>
      exact fun loc addr =>
        inferInstanceAs (Decidable (answer.rc = xaieOk ∧ answer.value.setWidth 32 = wordAt o.mem loc addr))
    all_goals
      intros
      exact inferInstanceAs (Decidable (answer.rc = xaieOk))

/-- A driver call in an update leaves the selected buffer alone, writes the selector only after the buffer, and
leaves a whole value behind a valid selector. -/
structure CallSafe (mgr : ConfigManager) (rtp : RtpConfig) (o : BufferObserver) (call : DriverCall) : Prop where
  keeps : ∀ i < rtp.numBytes.toNat, (rtp.selected mgr o.start).cell i ∉ callCells call
  ordered : ∀ i < 4, (rtp.selector mgr).cell i ∈ callCells call → o.written = true
  whole : rtp.valueIn mgr (callStores o.mem call) = rtp.valueIn mgr o.start ∨
    some (rtp.valueIn mgr (callStores o.mem call)) = o.current
  selector : rtp.SelectorValid mgr (callStores o.mem call)

/-- A successful update leaves its value behind the selector and the other buffer as it was. -/
structure UpdateDone (mgr : ConfigManager) (rtp : RtpConfig) (o : BufferObserver) : Prop where
  value : some (rtp.valueIn mgr o.mem) = o.current
  other : rtp.contents o.mem (rtp.unselected mgr o.mem) = rtp.contents o.start (rtp.unselected mgr o.mem)
  selector : rtp.SelectorValid mgr o.mem

/-- The graph lets the host write the parameter. -/
def Writable (cfg : GraphConfig) (rtp : RtpConfig) (isRunning : Bool) : Prop :=
  rtp.graphId = cfg.id ∧ (rtp.isConnect = true → rtp.isPL = false ∧ rtp.isAsync = true ∧ isRunning = false)

/-- Every driver call is safe, a writable parameter is updated, and an update of any other one is the user's error
and changes nothing. -/
def DoubleBuffered (cfg : GraphConfig) (mgr : ConfigManager) (rtp : RtpConfig) (isRunning : Bool)
    (o : BufferObserver) :
    Event (List UInt8) → Prop
  | .enter _ => True
  | .driver call _ => CallSafe mgr rtp o call
  | .leave code =>
    (Writable cfg rtp isRunning → code = .ok ∧ UpdateDone mgr rtp o) ∧
      (¬Writable cfg rtp isRunning → code = .userError ∧ o.mem = o.start)

section Stores

variable {mgr : ConfigManager} {rtp : RtpConfig} {m : TileMemory} {v : List UInt8}

theorem RtpConfig.Apart.buffers (h : rtp.Apart mgr) (m : TileMemory) {i j : ℕ} (hi : i < rtp.numBytes.toNat)
    (hj : j < rtp.numBytes.toNat) : (rtp.unselected mgr m).cell i ≠ (rtp.selected mgr m).cell j := by
  unfold RtpConfig.unselected RtpConfig.selected RtpConfig.buffer
  split
  · exact h.ping_pong i hi j hj
  · exact (h.ping_pong j hj i hi).symm

theorem RtpConfig.Apart.selector_buffer (h : rtp.Apart mgr) (selector : BitVec 32) {i j : ℕ} (hi : i < 4)
    (hj : j < rtp.numBytes.toNat) : (rtp.selector mgr).cell i ≠ (rtp.buffer mgr selector).cell j := by
  unfold RtpConfig.buffer
  split
  · exact h.selector_pong i hi j hj
  · exact h.selector_ping i hi j hj

theorem RtpConfig.buffer_flip (h : rtp.SelectorValid mgr m) :
    rtp.buffer mgr (1#32 - rtp.selectorIn mgr m) = rtp.unselected mgr m := by
  rcases h with h | h <;> simp [RtpConfig.buffer, RtpConfig.unselected, h]

theorem RtpConfig.selectorIn_store_buffer (h : rtp.Apart mgr) (hv : v.length = rtp.numBytes.toNat)
    (selector : BitVec 32) :
    rtp.selectorIn mgr (store m (rtp.buffer mgr selector).cell v) = rtp.selectorIn mgr m := by
  unfold RtpConfig.selectorIn wordAt
  rw [load_store_of_ne]
  intro i hi j hj
  exact (h.selector_buffer selector hj (hv ▸ hi)).symm

theorem RtpConfig.valueIn_store_buffer (h : rtp.Apart mgr) (hvalid : rtp.SelectorValid mgr m)
    (hv : v.length = rtp.numBytes.toNat) :
    rtp.valueIn mgr (store m (rtp.buffer mgr (1#32 - rtp.selectorIn mgr m)).cell v) = rtp.valueIn mgr m := by
  have hselected : rtp.selected mgr (store m (rtp.buffer mgr (1#32 - rtp.selectorIn mgr m)).cell v) =
      rtp.selected mgr m := by
    rw [RtpConfig.selected, RtpConfig.selectorIn_store_buffer h hv]
    rfl
  rw [RtpConfig.valueIn, hselected, RtpConfig.buffer_flip hvalid]
  exact load_store_of_ne m fun i hi j hj => h.buffers m (hv ▸ hi) hj

/-- The memory after both writes of an update. -/
def RtpConfig.flipped (mgr : ConfigManager) (rtp : RtpConfig) (m : TileMemory) (v : List UInt8) : TileMemory :=
  store (store m (rtp.buffer mgr (1#32 - rtp.selectorIn mgr m)).cell v) (rtp.selector mgr).cell
    (wordBytes (1#32 - rtp.selectorIn mgr m))

theorem RtpConfig.selectorIn_flipped (rtp : RtpConfig) :
    rtp.selectorIn mgr (rtp.flipped mgr m v) = 1#32 - rtp.selectorIn mgr m :=
  wordAt_store _ _ _ _

theorem RtpConfig.selectorValid_flipped (hvalid : rtp.SelectorValid mgr m) :
    rtp.SelectorValid mgr (rtp.flipped mgr m v) := by
  unfold RtpConfig.SelectorValid
  rw [RtpConfig.selectorIn_flipped]
  rcases hvalid with h | h <;> simp [h]

theorem RtpConfig.contents_flipped (h : rtp.Apart mgr) (selector : BitVec 32) :
    rtp.contents (rtp.flipped mgr m v) (rtp.buffer mgr selector) =
      rtp.contents (store m (rtp.buffer mgr (1#32 - rtp.selectorIn mgr m)).cell v) (rtp.buffer mgr selector) := by
  apply load_store_of_ne
  intro i hi j hj
  simp only [wordBytes, leBytes_length] at hi
  exact h.selector_buffer selector hi hj

theorem RtpConfig.valueIn_flipped (h : rtp.Apart mgr) (hv : v.length = rtp.numBytes.toNat) :
    rtp.valueIn mgr (rtp.flipped mgr m v) = v := by
  have hsize := h.size
  rw [RtpConfig.valueIn, RtpConfig.selected, RtpConfig.selectorIn_flipped, RtpConfig.contents_flipped h,
    RtpConfig.contents, ← hv]
  exact load_store m fun i hi j hj heq => tileCell_inj (by omega) (by omega) heq

theorem RtpConfig.other_flipped (h : rtp.Apart mgr) (hvalid : rtp.SelectorValid mgr m)
    (hv : v.length = rtp.numBytes.toNat) :
    rtp.contents (rtp.flipped mgr m v) (rtp.unselected mgr (rtp.flipped mgr m v)) =
      rtp.contents m (rtp.unselected mgr (rtp.flipped mgr m v)) := by
  have hother : rtp.unselected mgr (rtp.flipped mgr m v) = rtp.selected mgr m := by
    rw [← RtpConfig.buffer_flip (RtpConfig.selectorValid_flipped hvalid), RtpConfig.selectorIn_flipped]
    rcases hvalid with h | h <;> simp [RtpConfig.selected, h]
  rw [hother, RtpConfig.selected, RtpConfig.contents_flipped h, RtpConfig.buffer_flip hvalid]
  exact load_store_of_ne m fun i hi j hj => h.buffers m (hv ▸ hi) hj

end Stores

section Calls

variable (cfg : GraphConfig) (mgr : ConfigManager) (rtp : RtpConfig) (isRunning : Bool) (m₀ : TileMemory)

/-- An obeying driver has seen the promise kept so far. -/
def Promised (w : World (Event (List UInt8)) DriverAnswer GraphState) : Prop :=
  Along BufferObserver.step Obeys (.idle m₀) w.trace →
    Along BufferObserver.step (DoubleBuffered cfg mgr rtp isRunning) (.idle m₀) w.trace

/-- With an obeying driver the promise is kept so far and the observer is in a given state. -/
def Observed (o : BufferObserver) (fact : Prop) (w : World (Event (List UInt8)) DriverAnswer GraphState) : Prop :=
  w.state.isRunning = isRunning ∧ (Along BufferObserver.step Obeys (.idle m₀) w.trace →
    Along BufferObserver.step (DoubleBuffered cfg mgr rtp isRunning) (.idle m₀) w.trace ∧
      replay BufferObserver.step (.idle m₀) w.trace = o ∧ rtp.SelectorValid mgr o.start ∧ fact)

variable {cfg mgr rtp isRunning m₀} {o : BufferObserver} {fact : Prop}

theorem Observed.promised {w : World (Event (List UInt8)) DriverAnswer GraphState}
    (h : Observed cfg mgr rtp isRunning m₀ o fact w) : Promised cfg mgr rtp isRunning m₀ w :=
  fun hobeys => (h.2 hobeys).1

def BufferObserver.after (o : BufferObserver) (call : DriverCall) : BufferObserver :=
  { o with mem := callStores o.mem call, written := o.written || isBlockWrite call }

theorem triple_observed (call : DriverCall) {fact' : DriverAnswer → Prop}
    (hsafe : rtp.SelectorValid mgr o.start → fact → CallSafe mgr rtp o call)
    (hfact : ∀ answer, fact → Obeys o (.driver call answer) → fact' answer) :
    Triple (Observed cfg mgr rtp isRunning m₀ o fact) (xaie call)
      (fun answer => Observed cfg mgr rtp isRunning m₀ (o.after call) (fact' answer))
      (Promised cfg mgr rtp isRunning m₀) := by
  refine triple_xaie call (fun _ h => h.promised) fun w answer rest h => ⟨h.1, fun hobeys => ?_⟩
  rw [along_concat] at hobeys
  obtain ⟨hpromised, ho, hvalid, hf⟩ := h.2 hobeys.1
  rw [along_concat, replay_concat, ho]
  exact ⟨⟨hpromised, hsafe hvalid hf⟩, rfl, hvalid, hfact answer hf (ho ▸ hobeys.2)⟩

theorem status_joined {driverStatus rc : BitVec 32} (hstatus : driverStatus = xaieOk) (hrc : rc = xaieOk) :
    driverStatus ||| rc = xaieOk := by
  rw [hstatus, hrc]
  rfl

theorem triple_observed_status (o : BufferObserver) (driverStatus : BitVec 32) (call : DriverCall)
    (hsafe : rtp.SelectorValid mgr o.start → fact → CallSafe mgr rtp o call)
    (hrc : ∀ answer, Obeys o (.driver call answer) → answer.rc = xaieOk) :
    Triple (Observed cfg mgr rtp isRunning m₀ o (driverStatus = xaieOk ∧ fact)) (xaieStatus driverStatus call)
      (fun status => Observed cfg mgr rtp isRunning m₀ (o.after call) (status = xaieOk ∧ fact))
      (Promised cfg mgr rtp isRunning m₀) := by
  have hcall : Triple (Observed cfg mgr rtp isRunning m₀ o (driverStatus = xaieOk ∧ fact)) (xaie call)
      (fun answer => Observed cfg mgr rtp isRunning m₀ (o.after call) (driverStatus ||| answer.rc = xaieOk ∧ fact))
      (Promised cfg mgr rtp isRunning m₀) :=
    triple_observed call (fun hvalid hf => hsafe hvalid hf.2) fun answer hf hobeys =>
      ⟨status_joined hf.1 (hrc answer hobeys), hf.2⟩
  exact hcall.bind fun _ _ h => h

def Whole (mgr : ConfigManager) (rtp : RtpConfig) (o : BufferObserver) : Prop :=
  (rtp.valueIn mgr o.mem = rtp.valueIn mgr o.start ∨ some (rtp.valueIn mgr o.mem) = o.current) ∧
    rtp.SelectorValid mgr o.mem

theorem Whole.safe {call : DriverCall} (h : Whole mgr rtp o) (hstores : callStores o.mem call = o.mem)
    (hcells : callCells call = []) : CallSafe mgr rtp o call where
  keeps := by simp [hcells]
  ordered := by simp [hcells]
  whole := by rw [hstores]; exact h.1
  selector := by rw [hstores]; exact h.2

/-- A call on a lock leaves the value and its observer as they are. -/
theorem triple_observed_lock (o : BufferObserver) {call : DriverCall} (needed : Bool) (driverStatus : BitVec 32)
    (hlock : ∃ loc lock, call = .lockAcquire loc lock ∨ call = .lockRelease loc lock)
    (hwhole : rtp.SelectorValid mgr o.start → fact → Whole mgr rtp o) :
    Triple (Observed cfg mgr rtp isRunning m₀ o (driverStatus = xaieOk ∧ fact))
      (xaieWhen needed driverStatus call)
      (fun status => Observed cfg mgr rtp isRunning m₀ o (status = xaieOk ∧ fact))
        (Promised cfg mgr rtp isRunning m₀) := by
  have hquiet : o.after call = o ∧ callCells call = [] ∧
      ∀ answer, Obeys o (.driver call answer) → answer.rc = xaieOk := by
    obtain ⟨loc, lock, rfl | rfl⟩ := hlock
    · exact ⟨by simp [BufferObserver.after, callStores, isBlockWrite], rfl, fun _ h => h⟩
    · exact ⟨by simp [BufferObserver.after, callStores, isBlockWrite], rfl, fun _ h => h⟩
  obtain ⟨hafter, hcells, hrc⟩ := hquiet
  cases needed with
  | false => exact fun _ h => h
  | true =>
    have hstores : callStores o.mem call = o.mem := congrArg BufferObserver.mem hafter
    have hcall : Triple (Observed cfg mgr rtp isRunning m₀ o (driverStatus = xaieOk ∧ fact))
        (xaieStatus driverStatus call) _ (Promised cfg mgr rtp isRunning m₀) :=
      triple_observed_status o driverStatus call (fun hvalid hf => (hwhole hvalid hf).safe hstores hcells) hrc
    simp only [hafter] at hcall
    exact hcall

variable {m : TileMemory} {v : List UInt8}

def BufferObserver.began (m : TileMemory) (v : List UInt8) : BufferObserver where
  mem := m
  start := m
  current := some v
  written := false

def bufferCall (mgr : ConfigManager) (rtp : RtpConfig) (v : List UInt8) (selector : BitVec 32) : DriverCall :=
  .dataMemBlockWrite (rtp.buffer mgr selector).tile (rtp.buffer mgr selector).addr v

def selectorCall (mgr : ConfigManager) (rtp : RtpConfig) (selector : BitVec 32) : DriverCall :=
  .dataMemWrWord (rtp.selector mgr).tile (rtp.selector mgr).addr selector

theorem whole_began (hvalid : rtp.SelectorValid mgr m) : Whole mgr rtp (.began m v) := ⟨.inl rfl, hvalid⟩

theorem bufferCall_safe (h : rtp.Apart mgr) (hv : v.length = rtp.numBytes.toNat)
    (hvalid : rtp.SelectorValid mgr m) :
    CallSafe mgr rtp (.began m v) (bufferCall mgr rtp v (1#32 - rtp.selectorIn mgr m)) where
  keeps := by
    intro i hi hmem
    obtain ⟨j, hj, heq⟩ := List.mem_map.mp hmem
    rw [List.mem_range, hv] at hj
    rw [RtpConfig.buffer_flip hvalid] at heq
    exact h.buffers m hj hi heq
  ordered := by
    intro i hi hmem
    obtain ⟨j, hj, heq⟩ := List.mem_map.mp hmem
    rw [List.mem_range, hv] at hj
    exact absurd heq.symm (h.selector_buffer _ hi hj)
  whole := .inl (RtpConfig.valueIn_store_buffer h hvalid hv)
  selector := by
    have hsame : rtp.selectorIn mgr (callStores m (bufferCall mgr rtp v (1#32 - rtp.selectorIn mgr m))) =
        rtp.selectorIn mgr m := RtpConfig.selectorIn_store_buffer h hv _
    change rtp.selectorIn mgr _ = _ ∨ rtp.selectorIn mgr _ = _
    rw [show (BufferObserver.began m v).mem = m from rfl, hsame]
    exact hvalid

theorem selectorCall_safe (h : rtp.Apart mgr) (hv : v.length = rtp.numBytes.toNat)
    (hvalid : rtp.SelectorValid mgr m) :
    CallSafe mgr rtp ((BufferObserver.began m v).after (bufferCall mgr rtp v (1#32 - rtp.selectorIn mgr m)))
      (selectorCall mgr rtp (1#32 - rtp.selectorIn mgr m)) where
  keeps := by
    intro i hi hmem
    obtain ⟨j, hj, heq⟩ := List.mem_map.mp hmem
    exact h.selector_buffer _ (List.mem_range.mp hj) hi heq
  ordered := fun _ _ _ => rfl
  whole := .inr (congrArg some (RtpConfig.valueIn_flipped h hv))
  selector := RtpConfig.selectorValid_flipped hvalid

def BufferObserver.flipped (mgr : ConfigManager) (rtp : RtpConfig) (m : TileMemory) (v : List UInt8)
    (selector : BitVec 32) :
    BufferObserver :=
  ((BufferObserver.began m v).after (bufferCall mgr rtp v selector)).after (selectorCall mgr rtp selector)

theorem whole_flipped (h : rtp.Apart mgr) (hv : v.length = rtp.numBytes.toNat) (hvalid : rtp.SelectorValid mgr m) :
    Whole mgr rtp (.flipped mgr rtp m v (1#32 - rtp.selectorIn mgr m)) :=
  ⟨.inr (congrArg some (RtpConfig.valueIn_flipped h hv)), RtpConfig.selectorValid_flipped hvalid⟩

theorem updateDone_flipped (h : rtp.Apart mgr) (hv : v.length = rtp.numBytes.toNat)
    (hvalid : rtp.SelectorValid mgr m) :
    UpdateDone mgr rtp (.flipped mgr rtp m v (1#32 - rtp.selectorIn mgr m)) :=
  ⟨congrArg some (RtpConfig.valueIn_flipped h hv), RtpConfig.other_flipped h hvalid hv,
    RtpConfig.selectorValid_flipped hvalid⟩

theorem triple_finish_observed (driverStatus selector : BitVec 32) {o' : BufferObserver}
    (hflip : fact → .flipped mgr rtp m v selector = o') :
    Triple (Observed cfg mgr rtp isRunning m₀ (.flipped mgr rtp m v selector) (driverStatus = xaieOk ∧ fact))
      (if driverStatus ≠ xaieOk then pure .aieDriverError else pure .ok : GraphProgram (List UInt8) ErrCode)
      (fun code => Observed cfg mgr rtp isRunning m₀ o' (code = .ok)) (Promised cfg mgr rtp isRunning m₀) := by
  by_cases hstatus : driverStatus = xaieOk
  · rw [if_neg (not_not.mpr hstatus)]
    rintro w ⟨hrunning, hobserved⟩
    refine ⟨hrunning, fun hobeys => ?_⟩
    obtain ⟨hpromised, ho, hvalid, -, hfact⟩ := hobserved hobeys
    rw [← hflip hfact]
    exact ⟨hpromised, ho, hvalid, rfl⟩
  · rw [if_pos hstatus]
    rintro w ⟨hrunning, hobserved⟩
    exact ⟨hrunning, fun hobeys => absurd (hobserved hobeys).2.2.2.1 hstatus⟩

/-- `update` after its checks, seen by the observer. -/
theorem triple_updateBuffer_observed (h : rtp.Apart mgr) (hv : v.length = rtp.numBytes.toNat) (lock : Bool)
    (acquireVal : BitVec 8) :
    Triple (Observed cfg mgr rtp isRunning m₀ (.began m v) True)
      (updateBuffer mgr rtp lock acquireVal v rtp.numBytes)
      (fun code => Observed cfg mgr rtp isRunning m₀
        (.flipped mgr rtp m v (1#32 - rtp.selectorIn mgr m)) (code = .ok))
      (Promised cfg mgr rtp isRunning m₀) := by
  have htake : v.take (rtp.numBytes.setWidth 32 : BitVec 32).toNat = v := by
    have hsize := h.size
    rw [BitVec.toNat_setWidth, Nat.mod_eq_of_lt hsize, ← hv, List.take_length]
  have hread (status : BitVec 32) : Triple
      (Observed cfg mgr rtp isRunning m₀ (.began m v) (status = xaieOk ∧ True))
      (xaie (.dataMemRdWord (rtp.selector mgr).tile (rtp.selector mgr).addr))
      (fun answer => Observed cfg mgr rtp isRunning m₀ (.began m v)
        (status ||| answer.rc = xaieOk ∧ answer.value.setWidth 32 = rtp.selectorIn mgr m))
      (Promised cfg mgr rtp isRunning m₀) :=
    triple_observed _ (fun hvalid _ => (whole_began hvalid).safe rfl rfl) fun answer hf hobeys =>
      ⟨status_joined hf.1 hobeys.1, hobeys.2⟩
  have hbegin : ∀ w, Observed cfg mgr rtp isRunning m₀ (.began m v) True w →
      Observed cfg mgr rtp isRunning m₀ (.began m v) (xaieOk = xaieOk ∧ True) w := by
    simp
  refine Triple.consequence ?_ hbegin (fun _ _ h => h) fun _ h => h
  apply (triple_observed_lock (.began m v) lock xaieOk ⟨_, _, .inl rfl⟩ fun hvalid _ => whole_began hvalid).bind
  intro status
  apply (hread status).bind
  intro answer
  -- under an obeying driver the word read is the selector, so the calls below are those of the safety lemmas
  apply (triple_observed_lock (.began m v) lock _ ⟨_, _, .inl rfl⟩ fun hvalid _ => whole_began hvalid).bind
  intro status
  rw [htake]
  have hbuffer (hvalid : rtp.SelectorValid mgr m) (hsel : answer.value.setWidth 32 = rtp.selectorIn mgr m) :
      CallSafe mgr rtp (.began m v) (bufferCall mgr rtp v (1#32 - answer.value.setWidth 32)) := by
    rw [hsel]
    exact bufferCall_safe h hv hvalid
  apply (triple_observed_status (.began m v) status (bufferCall mgr rtp v (1#32 - answer.value.setWidth 32)) hbuffer
    fun _ h => h).bind
  intro status
  have hselector (hvalid : rtp.SelectorValid mgr m) (hsel : answer.value.setWidth 32 = rtp.selectorIn mgr m) :
      CallSafe mgr rtp ((BufferObserver.began m v).after (bufferCall mgr rtp v (1#32 - answer.value.setWidth 32)))
        (selectorCall mgr rtp (1#32 - answer.value.setWidth 32)) := by
    rw [hsel]
    exact selectorCall_safe h hv hvalid
  apply (triple_observed_status
    ((BufferObserver.began m v).after (bufferCall mgr rtp v (1#32 - answer.value.setWidth 32)))
    status (selectorCall mgr rtp (1#32 - answer.value.setWidth 32)) hselector fun _ h => h).bind
  intro status
  have hwhole (hvalid : rtp.SelectorValid mgr m) (hsel : answer.value.setWidth 32 = rtp.selectorIn mgr m) :
      Whole mgr rtp (.flipped mgr rtp m v (1#32 - answer.value.setWidth 32)) := by
    rw [hsel]
    exact whole_flipped h hv hvalid
  apply (triple_observed_lock (.flipped mgr rtp m v (1#32 - answer.value.setWidth 32)) rtp.hasLock
    status ⟨_, _, .inr rfl⟩ hwhole).bind
  intro status
  apply (triple_observed_lock (.flipped mgr rtp m v (1#32 - answer.value.setWidth 32)) rtp.hasLock
    status ⟨_, _, .inr rfl⟩ hwhole).bind
  intro status
  exact triple_finish_observed status (1#32 - answer.value.setWidth 32) fun hsel => by rw [hsel]

theorem checkRtpConfigForUpdate_of_writable (hinput : rtp.isInput = true) (h : Writable cfg rtp isRunning) :
    checkRtpConfigForUpdate (some rtp) (some cfg) rtp.numBytes isRunning = .ok := by
  obtain ⟨hgraph, hconnect⟩ := h
  cases hc : rtp.isConnect with
  | false => simp [checkRtpConfigForUpdate, hgraph, hinput, hc]
  | true =>
    obtain ⟨hpl, hasync, hrunning⟩ := hconnect hc
    simp [checkRtpConfigForUpdate, hgraph, hinput, hc, hpl, hasync, hrunning]

theorem checkRtpConfigForUpdate_of_not_writable (hinput : rtp.isInput = true) (h : ¬Writable cfg rtp isRunning) :
    checkRtpConfigForUpdate (some rtp) (some cfg) rtp.numBytes isRunning = .userError := by
  by_cases hgraph : rtp.graphId = cfg.id
  · have hc : rtp.isConnect = true := by
      by_contra hc
      exact h ⟨hgraph, fun htrue => absurd htrue hc⟩
    have hrest : ¬(rtp.isPL = false ∧ rtp.isAsync = true ∧ isRunning = false) :=
      fun hall => h ⟨hgraph, fun _ => hall⟩
    cases hpl : rtp.isPL <;> cases hasync : rtp.isAsync <;> cases hrunning : isRunning <;>
      simp_all [checkRtpConfigForUpdate]
  · simp [checkRtpConfigForUpdate, hgraph]

def Returning (cfg : GraphConfig) (mgr : ConfigManager) (rtp : RtpConfig) (isRunning : Bool) (m₀ : TileMemory)
    (code : ErrCode) (w : World (Event (List UInt8)) DriverAnswer GraphState) : Prop :=
  w.state.isRunning = isRunning ∧ (Along BufferObserver.step Obeys (.idle m₀) w.trace →
    Along BufferObserver.step (DoubleBuffered cfg mgr rtp isRunning) (.idle m₀) w.trace ∧
      DoubleBuffered cfg mgr rtp isRunning (replay BufferObserver.step (.idle m₀) w.trace) (.leave code) ∧
      rtp.SelectorValid mgr (replay BufferObserver.step (.idle m₀) w.trace).mem)

/-- `update` keeps the promise. -/
theorem triple_update_observed (h : rtp.Apart mgr) (hinput : rtp.isInput = true)
    (hv : v.length = rtp.numBytes.toNat) :
    Triple (Observed cfg mgr rtp isRunning m₀ (.began m v) True)
      (update (some cfg) mgr (some rtp) v rtp.numBytes) (Returning cfg mgr rtp isRunning m₀)
      (Promised cfg mgr rtp isRunning m₀) := by
  rintro w ⟨hrunning, hobserved⟩
  by_cases hwritable : Writable cfg rtp isRunning
  · rw [update_of_ok v (by rw [hrunning]; exact checkRtpConfigForUpdate_of_writable hinput hwritable)]
    refine Meets.imp (triple_updateBuffer_observed h hv _ _
      { w with state := { w.state with
          asyncNotFirstTimePorts := rtp.notFirstTime mgr w.state.asyncNotFirstTimePorts } }
            ⟨hrunning, hobserved⟩) ?_
      fun _ h => h
    rintro code w' ⟨hrunning', hobserved'⟩
    refine ⟨hrunning', fun hobeys => ?_⟩
    obtain ⟨hpromised, ho, hvalid, hcode⟩ := hobserved' hobeys
    rw [ho]
    exact ⟨hpromised, ⟨fun _ => ⟨hcode, updateDone_flipped h hv hvalid⟩, fun hnot => absurd hwritable hnot⟩,
      RtpConfig.selectorValid_flipped hvalid⟩
  · have hcheck := checkRtpConfigForUpdate_of_not_writable hinput hwritable
    rw [← hrunning] at hcheck
    rw [update_of_not_ok v (by rw [hcheck]; nofun), hcheck]
    refine ⟨hrunning, fun hobeys => ?_⟩
    obtain ⟨hpromised, ho, hvalid, -⟩ := hobserved hobeys
    rw [ho]
    exact ⟨hpromised, ⟨fun hw => absurd hw hwritable, fun _ => ⟨rfl, rfl⟩⟩, hvalid⟩

def Resting (cfg : GraphConfig) (mgr : ConfigManager) (rtp : RtpConfig) (isRunning : Bool) (m₀ : TileMemory)
    (w : World (Event (List UInt8)) DriverAnswer GraphState) : Prop :=
  w.state.isRunning = isRunning ∧ (Along BufferObserver.step Obeys (.idle m₀) w.trace →
    Along BufferObserver.step (DoubleBuffered cfg mgr rtp isRunning) (.idle m₀) w.trace ∧
      rtp.SelectorValid mgr (replay BufferObserver.step (.idle m₀) w.trace).mem)

theorem triple_updateCall (h : rtp.Apart mgr) (hinput : rtp.isInput = true) (hv : v.length = rtp.numBytes.toNat) :
    Triple (Resting cfg mgr rtp isRunning m₀)
      (apiCall (fun pValue => update (some cfg) mgr (some rtp) pValue rtp.numBytes) v)
      (fun _ => Resting cfg mgr rtp isRunning m₀) (Promised cfg mgr rtp isRunning m₀) := by
  rintro w₀ ⟨hrunning, hresting⟩
  have hcall : Triple (fun w => w = w₀)
      (apiCall (fun pValue => update (some cfg) mgr (some rtp) pValue rtp.numBytes) v)
      (fun _ => Resting cfg mgr rtp isRunning m₀) (Promised cfg mgr rtp isRunning m₀) := by
    have hupdate : Triple (Observed cfg mgr rtp isRunning m₀
        (.began (replay BufferObserver.step (.idle m₀) w₀.trace).mem v) True) _ _ _ :=
          triple_update_observed h hinput hv
    refine triple_apiCall _ v ?_ hupdate ?_
    · rintro _ rfl
      refine ⟨hrunning, fun hobeys => ?_⟩
      rw [along_concat] at hobeys
      obtain ⟨hpromised, hvalid⟩ := hresting hobeys.1
      rw [along_concat, replay_concat]
      exact ⟨⟨hpromised, trivial⟩, rfl, hvalid, trivial⟩
    · rintro code w ⟨hrunning', hreturning⟩
      refine ⟨hrunning', fun hobeys => ?_⟩
      rw [along_concat] at hobeys
      obtain ⟨hpromised, hleave, hvalid⟩ := hreturning hobeys.1
      rw [along_concat, replay_concat]
      exact ⟨⟨hpromised, hleave⟩, hvalid⟩
  exact hcall w₀ rfl

end Calls

@[irreducible] def updateCalls (cfg : GraphConfig) (mgr : ConfigManager) (rtp : RtpConfig)
    (values : List (List UInt8)) :
    GraphProgram (List UInt8) (List ErrCode) :=
  Program.runAll (apiCall fun pValue => update (some cfg) mgr (some rtp) pValue rtp.numBytes) values

theorem answeredBy_updateCall (cfg : GraphConfig) (mgr : ConfigManager) (rtp : RtpConfig) (v : List UInt8) :
    AnsweredBy 7 (apiCall (fun pValue => update (some cfg) mgr (some rtp) pValue rtp.numBytes) v) := by
  have hupdate : AnsweredBy 7
      (update (some cfg) mgr (some rtp) v rtp.numBytes : GraphProgram (List UInt8) ErrCode) := by
    intro w hw
    by_cases hcheck : checkRtpConfigForUpdate (some rtp) (some cfg) rtp.numBytes w.state.isRunning = .ok
    · rw [update_of_ok v hcheck]
      exact answeredBy_updateBuffer mgr rtp _ _ v rtp.numBytes { w with state := { w.state with
        asyncNotFirstTimePorts := rtp.notFirstTime mgr w.state.asyncNotFirstTimePorts } } hw
    · rw [update_of_not_ok v hcheck]
      exact ⟨_, w, rfl, Nat.le_add_right _ _⟩
  have hleave (code : ErrCode) : AnsweredBy 0 (do
      Program.tell (.leave code)
      pure code : GraphProgram (List UInt8) ErrCode) :=
    (answeredBy_tell _).bind (fun _ => answeredBy_pure 0 _) (Nat.le_refl 0)
  exact (answeredBy_tell _).bind (fun _ => hupdate.bind hleave (Nat.le_refl 7)) (Nat.le_refl 7)

/-- Every sequence of updates of an input parameter with values of its size, whatever the state of the graph,
keeps the promise of the double buffer at every driver call and at every return, as long as the driver obeys; the
selector stays valid, and the sequence returns once seven driver calls per update are answered. -/
theorem updateCalls_doubleBuffered (cfg : GraphConfig) (mgr : ConfigManager) (rtp : RtpConfig)
    (hinput : rtp.isInput = true) (hApart : rtp.Apart mgr) (m₀ : TileMemory) (hselector : rtp.SelectorValid mgr m₀)
    (values : List (List UInt8)) (hsize : ∀ v ∈ values, v.length = rtp.numBytes.toNat)
    (s : GraphState) (script : List DriverAnswer)
    (outcome : Outcome (List ErrCode)) (w : World (Event (List UInt8)) DriverAnswer GraphState)
    (hrun : updateCalls cfg mgr rtp values { state := s, trace := [], script } = (outcome, w)) :
    outcome ≠ .fault ∧
    (7 * values.length ≤ script.length → ∃ codes, outcome = .returned codes) ∧
    (Along BufferObserver.step Obeys (.idle m₀) w.trace →
      Along BufferObserver.step (DoubleBuffered cfg mgr rtp s.isRunning) (.idle m₀) w.trace ∧
      ∀ codes, outcome = .returned codes →
        rtp.SelectorValid mgr (replay BufferObserver.step (.idle m₀) w.trace).mem) := by
  unfold updateCalls at hrun
  have hbegin : Resting cfg mgr rtp s.isRunning m₀ { state := s, trace := [], script } :=
    ⟨rfl, fun _ => ⟨trivial, hselector⟩⟩
  have hkept := Program.triple_runAll _ (fun v hv => triple_updateCall hApart hinput (hsize v hv)) _ hbegin
  have hanswered := Program.answeredBy_runAll (answeredBy_updateCall cfg mgr rtp) values
    { state := s, trace := [], script }
  rw [hrun] at hkept hanswered
  refine ⟨?_, ?_, ?_⟩
  · rintro rfl
    exact hkept
  · intro hscript
    obtain ⟨codes, _, heq, -⟩ := hanswered hscript
    exact ⟨codes, congrArg Prod.fst heq⟩
  · intro hobeys
    cases outcome with
    | returned codes => exact ⟨(hkept.2 hobeys).1, fun _ _ => (hkept.2 hobeys).2⟩
    | blocked => exact ⟨hkept hobeys, nofun⟩
    | fault => exact absurd hkept id

def zeroMemory : TileMemory := fun _ => 0

theorem sampleParameter_apart : sampleParameter.Apart sampleManager where
  size := by decide
  ping_pong := by decide
  selector_ping := by decide
  selector_pong := by decide

/-- A driver for two updates: the selector reads 0, then 1. -/
def sampleAnswers : List DriverAnswer :=
  willingDriver 8 ++ { rc := xaieOk, value := 1, bytes := [], progress := 0 } :: willingDriver 5

/-- Two updates of the sample parameter go to pong and to ping. -/
theorem updateCalls_doubleBuffered_sample :
    (updateCalls sampleGraph sampleManager sampleParameter [[1, 2, 3, 4], [5, 6, 7, 8]]
        { state := .fresh, trace := [], script := sampleAnswers }).1 = .returned [.ok, .ok] ∧
      Along BufferObserver.step (DoubleBuffered sampleGraph sampleManager sampleParameter false) (.idle zeroMemory)
        (updateCalls sampleGraph sampleManager sampleParameter [[1, 2, 3, 4], [5, 6, 7, 8]]
          { state := .fresh, trace := [], script := sampleAnswers }).2.trace :=
  ⟨by decide +kernel,
    ((updateCalls_doubleBuffered sampleGraph sampleManager sampleParameter rfl sampleParameter_apart zeroMemory
      (.inl (by decide +kernel)) [[1, 2, 3, 4], [5, 6, 7, 8]] (by decide) .fresh sampleAnswers
      (updateCalls sampleGraph sampleManager sampleParameter [[1, 2, 3, 4], [5, 6, 7, 8]]
        { state := .fresh, trace := [], script := sampleAnswers }).1
      (updateCalls sampleGraph sampleManager sampleParameter [[1, 2, 3, 4], [5, 6, 7, 8]]
        { state := .fresh, trace := [], script := sampleAnswers }).2 rfl).2.2 (by decide +kernel)).1⟩

end AieBaremetal.Graph
