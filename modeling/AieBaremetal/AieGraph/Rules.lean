import AieBaremetal.AieGraph.Api

/-!
# What the methods of a graph object keep

Rules for the methods at any site. A condition that register accesses and calls of GMIO objects keep is
kept by loading CDOs, by transfers and by waits. For `init` the condition may grow with the GMIOs that
are configured already, so that more is known when all of them are.
-/

namespace AieBaremetal.AieGraph

open Common Common.Program AieBaremetal.Runtime Gmio
open Cdo (AegErr RegAccess WordMemory)

section Rules

variable {Ev S Impl : Type} {site : Site Ev S Impl} {graph : Option Backend}
  {inv stop final : World Ev DriverAnswer S → Prop} {progress : List GmioConfig → World Ev DriverAnswer S → Prop}

/-- A condition that register accesses keep. -/
structure KeptByCdo (site : Site Ev S Impl) (inv stop : World Ev DriverAnswer S → Prop) : Prop where
  stop : ∀ w, inv w → stop w
  resume : ∀ w (w₁ : World RegAccess (BitVec 32) Unit), inv w → inv (w.resume (fun access => [site.cdo access]) w₁)

/-- A condition that grows with every GMIO; one that fails leaves `inv`. -/
structure KeptByConfigure (site : Site Ev S Impl) (progress : List GmioConfig → World Ev DriverAnswer S → Prop)
    (inv stop : World Ev DriverAnswer S → Prop) : Prop where
  start : ∀ w, inv w → progress [] w
  weaken : ∀ done w, progress done w → inv w
  configure : ∀ done gmioconfig, Leaves (progress done) (site.configure gmioconfig)
    (fun result w => if result.1 = .ok then progress (gmioconfig :: done) w else inv w) stop
  store : ∀ done name impl w, progress done w →
  progress done { w with state := site.change (.store name impl) w.state }

/-- Loading a CDO keeps what register accesses keep. -/
theorem leaves_loadCdo (h : KeptByCdo site inv stop) (addr : Option WordMemory) (len : ℕ) :
    Leaves inv (loadCdo site graph addr len) (fun _ => inv) stop := by
  unfold loadCdo
  split
  · exact fun _ hw => hw
  · split
    · exact fun _ hw => hw
    · split
      · exact fun _ hw => hw
      · split
        · exact fun _ hw => hw
        · refine Leaves.bind (leaves_runIn _ _ _ (fun w _ => ?_)
            (fun w _ w₁ hw (_ : True) => h.resume w w₁ hw)
            fun w w₁ hw (_ : True) => h.stop _ (h.resume w w₁ hw)) fun _ _ hw => hw
          split <;> trivial

/-- So does the loop over the blobs. -/
theorem leaves_applyBlobs (h : KeptByCdo site inv stop) (blobs : List CdoBlob) (turns i : ℕ) :
    Leaves inv (applyBlobs site graph blobs turns i) (fun _ => inv) stop := by
  induction turns generalizing i with
  | zero => exact fun _ hw => hw
  | succ turns ih =>
    refine (leaves_ofOption _ h.stop).bind fun blob => ?_
    split
    · exact fun _ hw => hw.1
    · split
      · exact fun _ hw => hw.1
      · refine Leaves.bind ((leaves_loadCdo h _ _).consequence (fun _ hw => hw.1) (fun _ _ hw => hw)
          fun _ hw => hw) fun status => ?_
        split
        · exact fun _ hw => hw
        · exact ih (i + 1)

/-- A code that is an error leaves `inv`. -/
theorem leaves_error {code : AegErr} (hcode : code ≠ .ok) :
    Leaves inv (pure code) (fun code w => if code = .ok then final w else inv w) stop :=
  fun _ hw => (if_neg hcode).mpr hw

/-- The loop over the GMIOs adds them all, or fails. -/
theorem leaves_configureGmioList (h : KeptByConfigure site progress inv stop) (list : List (String × GmioConfig))
    (done : List GmioConfig) :
    Leaves (progress done) (configureGmioList site list)
      (fun code w => if code = .ok then progress ((list.map Prod.snd).reverse ++ done) w else inv w) stop := by
  induction list generalizing done with
  | nil => exact fun _ hw => hw
  | cons item rest ih =>
    refine (h.configure done item.2).bind fun result => ?_
    by_cases hok : result.1 = .ok
    · simp only [hok, errFromAbr, ne_eq, not_true, if_false, if_true]
      have hstore : Leaves (progress (item.2 :: done)) (modifyState (site.change (.store item.1 result.2)))
          (fun _ => progress (item.2 :: done)) stop := fun w hw => h.store _ _ _ w hw
      refine hstore.bind fun _ => ?_
      rw [List.map_cons, List.reverse_cons, List.append_assoc, List.singleton_append]
      exact ih (item.2 :: done)
    · have herror : errFromAbr result.1 ≠ .ok := fun herr => hok (errFromAbr_eq_ok_iff.mp herr)
      simp only [if_pos herror, if_neg hok]
      exact leaves_error herror

/-- The backend succeeds only with all GMIOs configured. -/
theorem leaves_initBackend (h : KeptByConfigure site progress inv stop) (backend : Backend) :
    Leaves inv (initBackend site backend)
      (fun code w => if code = .ok then progress (backend.gmioconfigs.map Prod.snd).reverse w else inv w) stop := by
  unfold initBackend configureGmios
  by_cases hmem : backend.hasXaiemem = false
  · rw [if_pos hmem]
    exact fun _ hw => hw
  · rw [if_neg hmem, if_neg hmem]
    refine Leaves.bind ((leaves_configureGmioList h backend.gmioconfigs []).consequence h.start
      (fun _ _ hw => hw) fun _ hw => hw) fun status => ?_
    rw [List.append_nil]
    by_cases hstatus : status = .ok
    · simp only [hstatus, ne_eq, not_true, if_false, if_true]
      split
      · exact fun w hw => h.weaken _ w hw
      · exact fun _ hw => hw
    · simp only [hstatus, ne_eq, not_false_iff, if_true, if_false]
      split
      · exact fun _ hw => hw
      · exact leaves_error hstatus

/-- `init` succeeds only with all GMIOs configured and the flag set. -/
theorem leaves_init (hcdo : KeptByCdo site inv stop) (h : KeptByConfigure site progress inv stop)
    (hflag : ∀ backend, graph = some backend → ∀ w, progress (backend.gmioconfigs.map Prod.snd).reverse w →
      final { w with state := site.change (fun s => { s with isInitialized := true }) w.state })
    (blobs : Option (List CdoBlob)) (count : ℕ) :
    Leaves inv (init site graph blobs count) (fun code w => if code = .ok then final w else inv w) stop := by
  unfold init
  split
  · exact fun _ hw => hw
  · rename_i backend
    split
    · exact fun _ hw => hw
    · refine (leaves_applyBlobs hcdo _ count 0).bind fun cdoStatus => ?_
      by_cases hstatus : cdoStatus = .ok
      · rw [if_neg (not_not.mpr hstatus)]
        refine (leaves_initBackend h backend).bind fun status => ?_
        by_cases hstatus : status = .ok
        · simp only [hstatus, ne_eq, not_true, if_false, if_true]
          exact fun w hw => hflag backend rfl w hw
        · simp only [hstatus, ne_eq, not_false_iff, if_true, if_false]
          exact leaves_error hstatus
      · rw [if_pos hstatus]
        exact leaves_error hstatus

/-- A call by name keeps what a call of the object keeps. -/
theorem leaves_onImpl {name : String} {method : GmioApiImpl → GmioProgram ErrCode}
    (hcall : ∀ impl, Leaves inv (site.call name impl method) (fun _ => inv) stop) :
    Leaves inv (onImpl site name method) (fun _ => inv) stop := by
  refine leaves_getState.bind fun s => ?_
  split
  · exact fun _ hw => hw
  · exact (hcall _).bind fun _ _ hw => hw

/-- So do the transfers, whatever is refused before. -/
theorem leaves_transfer (hstop : ∀ w, inv w → stop w) (kind : TransferKind) (name : Option String)
    (data : Option TransferData) (len : BitVec 32)
    (hcall : ∀ mgr name impl data, Leaves inv (site.call name impl fun impl => transferOn mgr impl kind data len)
      (fun _ => inv) stop) :
    Leaves inv (transfer site graph kind name data len) (fun _ => inv) stop := by
  refine leaves_getState.bind fun s => ?_
  split
  · exact fun _ hw => hw
  · split
    · exact fun _ hw => hw
    · exact fun _ hw => hw
    · exact fun _ hw => hw
    · split
      · exact fun _ hw => hw
      · exact (leaves_ofOption graph hstop).bind fun backend =>
          (leaves_onImpl fun impl => hcall _ _ impl _).consequence (fun _ hw => hw.1)
            (fun _ _ hw => hw) fun _ hw => hw

/-- And the waits. -/
theorem leaves_gmioWait (hstop : ∀ w, inv w → stop w) (gmioName : String) (syncmode : Bool)
    (hcall : ∀ name impl, Leaves inv (site.call name impl fun impl => Gmio.wait (some impl.gmioconfig) syncmode)
      (fun _ => inv) stop) :
    Leaves inv (gmioWait site graph gmioName syncmode) (fun _ => inv) stop := by
  refine leaves_getState.bind fun s => ?_
  split
  · exact fun _ hw => hw
  · split
    · exact fun _ hw => hw
    · exact (leaves_ofOption graph hstop).bind fun backend =>
        (leaves_onImpl fun impl => hcall _ impl).consequence (fun _ hw => hw.1) (fun _ _ hw => hw) fun _ hw => hw

end Rules

end AieBaremetal.AieGraph
