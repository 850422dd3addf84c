import AieBaremetal.AieGraph.Api
import AieBaremetal.Gmio.Descriptors

/-!
# What a transfer reports

A GMIO transfer looks up the device address, enqueues a descriptor and, if it is a blocking one,
waits for the channel. Towards the array the code of `enqueueBD` is dropped, and both blocking
transfers drop the code of the wait, which only fails for a GMIO not connected to the array.
-/

namespace AieBaremetal.AieGraph

open Common Common.Program AieBaremetal.Runtime Gmio

section Object

variable (mgr : ConfigManager) (impl : GmioApiImpl) (data : TransferData) (len : BitVec 32)
    (script : List DriverAnswer)

/-- The world in which a GMIO object is called. -/
def gmioWorld : GmioWorld := { state := impl.gmioApi, trace := [], script }

/-- Enqueuing the device address returns the code. -/
def Enqueues (code : ErrCode) (w₁ : GmioWorld) : Prop :=
  ∃ phyData, data.devAddr = some phyData ∧
    enqueueBD (some impl.gmioconfig) mgr phyData (len.signExtend 64) (gmioWorld impl script) = (.returned code, w₁)

def transferResult (kind : TransferKind) : Outcome ErrCode :=
  (transferOn mgr impl kind data len (gmioWorld impl script)).1

/-- The transfers report what was enqueued and waited for, alike in both directions; the graph passes it on. -/
structure ReportsTransfers : Prop where
  nonBlocking : ∀ kind, kind = .aie2gmNb ∨ kind = .gm2aieNb →
    (transferResult mgr impl data len script kind = .returned .ok ↔ ∃ w₁, Enqueues mgr impl data len script .ok w₁)
  blocking : ∀ kind, kind = .aie2gm ∨ kind = .gm2aie →
    (transferResult mgr impl data len script kind = .returned .ok ↔
      ∃ w₁, Enqueues mgr impl data len script .ok w₁ ∧ (wait (some impl.gmioconfig) true w₁).1 = .returned .ok)
  sameNonBlocking :
    transferResult mgr impl data len script .aie2gmNb = transferResult mgr impl data len script .gm2aieNb
  sameBlocking : transferResult mgr impl data len script .aie2gm = transferResult mgr impl data len script .gm2aie
  passedOn : ∀ (kind : TransferKind) (name : String) (w : AieGraphWorld),
    w.state.gmioApiImpls.lookup name = some impl → w.script = script →
    ((onImpl ownGmios name (fun impl => transferOn mgr impl kind data len) w).1 = .returned .ok ↔
      transferResult mgr impl data len script kind = .returned .ok)

end Object

section Configured

theorem isConfigured_moveBack {turns : ℕ} {s s' : GmioState} (h : moveBack turns s = some s') :
    s'.isConfigured = s.isConfigured := by
  induction turns generalizing s with
  | zero =>
    cases h
    rfl
  | succ turns ih =>
    simp only [moveBack] at h
    split at h
    · cases h
    · exact (ih h).trans rfl

theorem state_of_xaieStatus_returned {Op S : Type} {driverStatus status : BitVec 32} {call : DriverCall}
    {w w' : World (Event Op) DriverAnswer S} (h : xaieStatus driverStatus call w = (.returned status, w')) :
    w'.state = w.state := by
  obtain ⟨answer, w₀, hask, h⟩ := exists_of_bind_returned h
  obtain ⟨script, -, rfl⟩ := exists_of_ask_returned hask
  cases h
  rfl

/-- What was enqueued without an error was enqueued on a configured object, which stays so. -/
theorem isConfigured_of_enqueueBD {cfg : GmioConfig} {mgr : ConfigManager} {address size : BitVec 64}
    {w w₁ : GmioWorld}
    (h : enqueueBD (some cfg) mgr address size w = (.returned .ok, w₁)) : w₁.state.isConfigured = true := by
  rw [enqueueBD, getState_bind] at h
  cases hconfigured : w.state.isConfigured with
  | false =>
    rw [hconfigured] at h
    cases h
  | true =>
    rw [hconfigured] at h
    obtain ⟨status₀, w₂, hloop, h⟩ := exists_of_bind_returned h
    have hrefill : ∀ l a (s : GmioState) l' s', refillTurn l a s = some (l', s') → s.isConfigured = true →
        s'.isConfigured = true := by
      intro l a s l' s' hturn hs
      obtain ⟨s₁, hmoved, heq⟩ := Option.map_eq_some_iff.mp hturn
      cases heq
      exact (isConfigured_moveBack hmoved).trans hs
    have hw₂ : w₂.state.isConfigured = true := state_of_whileAsk_returned hrefill hloop hconfigured
    rw [getState_bind] at h
    obtain ⟨⟨bd, rest⟩, w₃, hfront, h⟩ := exists_of_bind_returned h
    obtain ⟨-, rfl⟩ := eq_of_ofOption_returned hfront
    obtain ⟨_, w₄, hmodify, h⟩ := exists_of_bind_returned h
    cases hmodify
    obtain ⟨status₁, w₅, hset, h⟩ := exists_of_bind_returned h
    obtain ⟨status₂, w₆, hlock, h⟩ := exists_of_bind_returned h
    obtain ⟨status₃, w₇, henable, h⟩ := exists_of_bind_returned h
    obtain ⟨status₄, w₈, hwrite, h⟩ := exists_of_bind_returned h
    obtain ⟨status₅, w₉, hpush, h⟩ := exists_of_bind_returned h
    obtain ⟨_, w₁₀, hmodify, h⟩ := exists_of_bind_returned h
    cases hmodify
    have hw₁ : w₁ =
      { w₉ with state := { w₉.state with enqueuedBDs := w₉.state.enqueuedBDs ++ [bd], bdNumber := none } } := by
      split at h
      · cases h
      · cases h
        rfl
    rw [hw₁]
    change w₉.state.isConfigured = true
    rw [state_of_xaieStatus_returned hpush, state_of_xaieStatus_returned hwrite,
      state_of_xaieStatus_returned henable, state_of_xaieStatus_returned hlock, state_of_xaieStatus_returned hset]
    exact hw₂

end Configured

section Results

variable {mgr : ConfigManager} {impl : GmioApiImpl} {data : TransferData} {len : BitVec 32}
    {script : List DriverAnswer}
  {code code' : ErrCode} {w₁ w₁' : GmioWorld}

theorem wait_result_of_array {cfg : GmioConfig} (hconfigured : w₁.state.isConfigured = true)
    (harray : cfg.type ≠ .gm2pl ∧ cfg.type ≠ .pl2gm) :
    (wait (some cfg) true w₁).1 = .returned .ok ∨ (wait (some cfg) true w₁).1 = .blocked := by
  rw [wait, getState_bind, hconfigured]
  simp only [waitForDone, harray.1, harray.2, or_self, if_false, if_true]
  rw [bind_assoc, bind_apply]
  generalize hask : askUntil _ _ w₁ = run
  obtain ⟨outcome, w₂⟩ := run
  cases outcome with
  | returned answers =>
    left
    simp only [pure_bind]
    rw [getState_bind, moveBack_eq _ w₂.state (Nat.le_refl _)]
    rfl
  | blocked =>
    right
    rfl
  | fault => exact absurd (congrArg Prod.fst hask) (askUntil_ne_fault _ _ w₁)

theorem wait_result_of_pl {cfg : GmioConfig} (hconfigured : w₁.state.isConfigured = true)
    (hpl : cfg.type = .gm2pl ∨ cfg.type = .pl2gm) (syncmode : Bool) :
    wait (some cfg) syncmode w₁ = (.returned .userError, w₁) := by
  rw [wait, getState_bind, hconfigured]
  simp only [hpl, if_true]
  rfl

theorem Enqueues.code_eq (h : Enqueues mgr impl data len script code w₁)
    (h' : Enqueues mgr impl data len script code' w₁') : code = code' ∧ w₁ = w₁' := by
  obtain ⟨phyData, haddr, hrun⟩ := h
  obtain ⟨phyData', haddr', hrun'⟩ := h'
  cases haddr.symm.trans haddr'
  cases hrun.symm.trans hrun'
  exact ⟨rfl, rfl⟩

theorem Enqueues.isConfigured (h : Enqueues mgr impl data len script .ok w₁) : w₁.state.isConfigured = true := by
  obtain ⟨phyData, -, hrun⟩ := h
  exact isConfigured_of_enqueueBD hrun

theorem transferNb_of_enqueues (h : Enqueues mgr impl data len script code w₁) (kind : TransferKind) :
    transferNb mgr impl kind data len (gmioWorld impl script) =
      (.returned (if kind = .aie2gmNb ∨ kind = .aie2gm then code else .ok), w₁) := by
  obtain ⟨phyData, haddr, hrun⟩ := h
  rw [transferNb, haddr]
  simp only []
  rw [bind_of_returned _ hrun]
  cases kind <;> rfl

theorem transferResult_gm2aieNb (h : Enqueues mgr impl data len script code w₁) :
    transferResult mgr impl data len script .gm2aieNb = .returned .ok := by
  rw [transferResult, transferOn, bind_of_returned _ (transferNb_of_enqueues h .gm2aieNb)]
  rfl

theorem transferResult_of_enqueues_ok (h : Enqueues mgr impl data len script .ok w₁) {kind : TransferKind}
    (hkind : kind = .aie2gmNb ∨ kind = .gm2aieNb) :
    transferResult mgr impl data len script kind = .returned .ok := by
  rw [transferResult, transferOn, bind_of_returned _ (transferNb_of_enqueues h kind)]
  obtain rfl | rfl := hkind <;> rfl

theorem transferResult_of_wait (h : Enqueues mgr impl data len script .ok w₁) {kind : TransferKind}
    (hkind : kind = .aie2gm ∨ kind = .gm2aie) :
    transferResult mgr impl data len script kind =
      match (wait (some impl.gmioconfig) true w₁).1 with
      | .returned _ => .returned .ok
      | .blocked => .blocked
      | .fault => .fault := by
  have hnb := transferNb_of_enqueues h kind
  rw [ite_self] at hnb
  rw [transferResult, transferOn, bind_of_returned _ hnb]
  have hwait : ((wait (some impl.gmioconfig) true >>= fun _ => pure ErrCode.ok : GmioProgram ErrCode) w₁).1 =
      match (wait (some impl.gmioconfig) true w₁).1 with
      | .returned _ => .returned .ok
      | .blocked => .blocked
      | .fault => .fault := by
    rw [bind_apply]
    rcases wait (some impl.gmioconfig) true w₁ with ⟨outcome, w₂⟩
    cases outcome <;> rfl
  obtain rfl | rfl := hkind <;> exact hwait

theorem transferResult_of_not_enqueues (h : ∀ code w₁, ¬Enqueues mgr impl data len script code w₁) :
    ∃ outcome, outcome ≠ .returned .ok ∧ ∀ kind, transferResult mgr impl data len script kind = outcome := by
  cases haddr : data.devAddr with
  | none =>
    refine ⟨.returned .aieDriverError, nofun, fun kind => ?_⟩
    cases kind <;> simp only [transferResult, transferOn, transferNb, haddr, pure_bind] <;> rfl
  | some phyData =>
    cases hrun : enqueueBD (some impl.gmioconfig) mgr phyData (len.signExtend 64) (gmioWorld impl script) with
    | mk outcome w₁ =>
      cases outcome with
      | returned code => exact absurd ⟨phyData, haddr, hrun⟩ (h code w₁)
      | blocked =>
        refine ⟨.blocked, nofun, fun kind => ?_⟩
        simp only [transferResult, transferOn, transferNb, haddr, bind_apply, hrun]
      | fault =>
        refine ⟨.fault, nofun, fun kind => ?_⟩
        simp only [transferResult, transferOn, transferNb, haddr, bind_apply, hrun]

theorem onImpl_result {name : String} {w : AieGraphWorld} (kind : TransferKind)
    (hfound : w.state.gmioApiImpls.lookup name = some impl) (hscript : w.script = script) :
    (onImpl ownGmios name (fun impl => transferOn mgr impl kind data len) w).1 = .returned .ok ↔
      transferResult mgr impl data len script kind = .returned .ok := by
  rw [onImpl, getState_bind]
  simp only [ownGmios, id_eq, hfound]
  rw [bind_assoc, bind_apply, callGmio, runIn, List.map_id, hscript, transferResult, gmioWorld]
  rcases transferOn mgr impl kind data len { state := impl.gmioApi, trace := [], script } with ⟨outcome, w₁⟩
  cases outcome with
  | returned code =>
    change Outcome.returned (errFromAbr code) = .returned .ok ↔ Outcome.returned code = .returned .ok
    rw [Outcome.returned.injEq, Outcome.returned.injEq, errFromAbr_eq_ok_iff]
  | blocked => simp
  | fault => simp

end Results

/-- The transfers report the truth exactly when enqueuing, if it returns, reports no error and the object belongs
to the array. -/
theorem reportsTransfers_iff (mgr : ConfigManager) (impl : GmioApiImpl) (data : TransferData) (len : BitVec 32)
    (script : List DriverAnswer) :
    ReportsTransfers mgr impl data len script ↔ ∀ code w₁, Enqueues mgr impl data len script code w₁ →
      code = .ok ∧ impl.gmioconfig.type ≠ .gm2pl ∧ impl.gmioconfig.type ≠ .pl2gm := by
  constructor
  · intro h code w₁ henqueues
    obtain ⟨w₁', hok⟩ := (h.nonBlocking .gm2aieNb (.inr rfl)).mp (transferResult_gm2aieNb henqueues)
    obtain ⟨rfl, rfl⟩ := henqueues.code_eq hok
    refine ⟨rfl, not_or.mp fun hpl => ?_⟩
    have hwait := wait_result_of_pl henqueues.isConfigured hpl true
    have hresult := transferResult_of_wait henqueues (.inl rfl : TransferKind.aie2gm = .aie2gm ∨ _)
    rw [hwait] at hresult
    obtain ⟨w₁', hok', hdone⟩ := (h.blocking .aie2gm (.inl rfl)).mp hresult
    obtain ⟨-, rfl⟩ := henqueues.code_eq hok'
    rw [hwait] at hdone
    cases hdone
  · intro h
    by_cases hexists : ∃ code w₁, Enqueues mgr impl data len script code w₁
    · obtain ⟨code, w₁, henqueues⟩ := hexists
      obtain ⟨rfl, harray⟩ := h code w₁ henqueues
      have hwait := wait_result_of_array henqueues.isConfigured harray
      have hresult : ∀ kind, kind = .aie2gm ∨ kind = .gm2aie →
          transferResult mgr impl data len script kind = (wait (some impl.gmioconfig) true w₁).1 := by
        intro kind hkind
        rw [transferResult_of_wait henqueues hkind]
        obtain hdone | hblocked := hwait
        · rw [hdone]
        · rw [hblocked]
      refine ⟨fun kind hkind => ?_, fun kind hkind => ?_, ?_, ?_, fun kind name w => onImpl_result kind⟩
      · exact iff_of_true (transferResult_of_enqueues_ok henqueues hkind) ⟨w₁, henqueues⟩
      · rw [hresult kind hkind]
        refine ⟨fun hdone => ⟨w₁, henqueues, hdone⟩, ?_⟩
        rintro ⟨w₁', hok, hdone⟩
        obtain ⟨-, rfl⟩ := henqueues.code_eq hok
        exact hdone
      · rw [transferResult_of_enqueues_ok henqueues (.inl rfl), transferResult_of_enqueues_ok henqueues (.inr rfl)]
      · rw [hresult _ (.inl rfl), hresult _ (.inr rfl)]
    · have hnone : ∀ code w₁, ¬Enqueues mgr impl data len script code w₁ :=
        fun code w₁ henqueues => hexists ⟨code, w₁, henqueues⟩
      obtain ⟨outcome, hfails, hresult⟩ := transferResult_of_not_enqueues hnone
      refine ⟨fun kind _ => ?_, fun kind _ => ?_, ?_, ?_, fun kind name w => onImpl_result kind⟩
      · rw [hresult]
        exact iff_of_false hfails fun ⟨w₁, hok⟩ => hnone _ _ hok
      · rw [hresult]
        exact iff_of_false hfails fun ⟨w₁, hok, _⟩ => hnone _ _ hok
      · rw [hresult, hresult]
      · rw [hresult, hresult]

def sampleGm2aie : GmioApiImpl where
  gmioconfig := { type := .gm2aie, shimColumn := 2#16, channelNum := 0#16, burstLength := 4#16 }
  gmioApi := { GmioState.fresh with isConfigured := true, availableBDs := [0#64] }

def refusedAddress : List DriverAnswer :=
  [1#32, 0#32, 0#32, 0#32, 0#32].map fun rc => { rc, value := 0#64, bytes := [], progress := 0 }

/-- The driver refuses the address: the transfer towards the array reports ok, the one in the other direction an
error. -/
theorem gm2aieNb_reports_ok_of_refused_address :
    let mgr : ConfigManager := { devGen := xaieDevGenAieml, numReservedRows := 0#64, broadcastEnableCore := false }
    let data : TransferData := { devAddr := some 0x1000#64 }
    (enqueueBD (some sampleGm2aie.gmioconfig) mgr 0x1000#64 64#64 (gmioWorld sampleGm2aie refusedAddress)).1 =
        .returned .aieDriverError ∧
      transferResult mgr sampleGm2aie data 64#32 refusedAddress .gm2aieNb = .returned .ok ∧
      transferResult mgr sampleGm2aie data 64#32 refusedAddress .aie2gmNb = .returned .aieDriverError ∧
      ¬ReportsTransfers mgr sampleGm2aie data 64#32 refusedAddress := by
  refine ⟨by decide +kernel, by decide +kernel, by decide +kernel, fun h => ?_⟩
  have hsame := h.sameNonBlocking
  revert hsame
  decide +kernel

end AieBaremetal.AieGraph
