import StudioWorker.Host.Change
import StudioWorker.Lib.Weigh
import Mathlib.Tactic.Linarith

/-!
# Host.Memory — what admission lets onto the device

The device has `total` GiB, of which the models whose weights are placed take their estimates; a
probe is faithful when it reads what is left (`Measures`).  The accounted path counts every model
that is loading, loaded or unloading.  The probed path sees placed weights only, so a model still
loading escapes it, and neither path sees a transient job that is admitted but not yet placed.

* `admitLoad_fits`: what one admission guarantees, and under which conditions.
* `step_loadedGib`: only an admitted load raises what the models take.
* `TransientHost`: the host with the one transient job the job gate lets through.
-/

namespace StudioWorker

open Lib Lib.System

namespace ModelHost

variable {cat : Catalog} {h h' : ModelHost} {e : HostEvent} {o : String} {total : ℚ}

/-! ## The device -/

/-- The estimates of the models whose weights are placed. -/
def placedGib (h : ModelHost) (catalog : List CatalogModel) : ℚ :=
  weigh (·.vramGbEstimate) (fun m => (h.entries m.id).loaded.isSome) catalog

/-- The probe reads a device of `total` GiB of which `taken` are in use, or cannot read it. -/
def Measures (total taken : ℚ) (probe : Probe) : Prop :=
  (∀ gib ∈ probe.freeGib, gib = total - taken) ∧ ∀ gib ∈ probe.totalGib, gib = total

/-- The load an event's call is admitted for: of an enabled, idle model that fits. -/
def admitted (cat : Catalog) (h : ModelHost) (e : HostEvent) : Option (LoadCall × CatalogModel) :=
  (h.loadCall e).bind fun c => (cat.get c.id).bind fun model =>
    if model.enabled ∧ (h.state c.id).idle ∧
        (h.admitLoad model cat.models c.probe c.id).isOk then some (c, model) else none

/-- Every model still loading has no estimate to speak of. -/
def NoneLoading (cat : Catalog) (h : ModelHost) : Prop :=
  ∀ m ∈ cat.models, h.state m.id = .loading → m.vramGbEstimate ≤ 0

instance : Decidable (NoneLoading cat h) := by unfold NoneLoading; infer_instance

instance {taken : ℚ} {probe : Probe} : Decidable (Measures total taken probe) := by
  unfold Measures; infer_instance

theorem admitted_eq {c : LoadCall} {model : CatalogModel} (hc : h.loadCall e = some c)
    (hget : cat.get c.id = some model) (hen : model.enabled = true)
    (hidle : (h.state c.id).idle = true)
    (hadm : h.admitLoad model cat.models c.probe c.id = .ok ()) :
    h.admitted cat e = some (c, model) := by
  unfold admitted
  rw [hc, Option.bind_some, hget, Option.bind_some, if_pos ⟨hen, hidle, by rw [hadm]; rfl⟩]

theorem admitted_some {a : LoadCall × CatalogModel} (ha : h.admitted cat e = some a) :
    cat.get a.1.id = some a.2 ∧ (h.state a.1.id).idle = true ∧
      h.admitLoad a.2 cat.models a.1.probe a.1.id = .ok () := by
  obtain ⟨c, hc, ha⟩ := Option.bind_eq_some_iff.mp ha
  obtain ⟨model, hget, ha⟩ := Option.bind_eq_some_iff.mp ha
  split_ifs at ha with hcond
  obtain rfl := Option.some.inj ha
  refine ⟨hget, hcond.2.1, ?_⟩
  cases hadm : h.admitLoad model cat.models c.probe c.id with
  | ok u => rfl
  | error r =>
    have := hcond.2.2
    rw [hadm] at this
    cases this

/-! ## One admission -/

/-- While none is loading, the estimates placed are all that is counted. -/
theorem loadedGib_eq_placedGib (hm : h.Matched) (hest : ∀ m ∈ cat.models, 0 ≤ m.vramGbEstimate)
    (hnone : NoneLoading cat h) : h.loadedGib cat.models = h.placedGib cat.models := by
  have h1 : weigh (·.vramGbEstimate) (fun m : CatalogModel => (h.state m.id).holdsMemory &&
      (h.entries m.id).loaded.isSome) cat.models = h.placedGib cat.models := by
    refine weigh_congr _ fun m _ => ?_
    cases hl : (h.entries m.id).loaded.isSome with
    | false => simp
    | true =>
      have h2 := (hm m.id).loaded.mp hl
      rcases h2 with h2 | h2 <;> simp [h2, ModelState.idle]
  have h2 : weigh (·.vramGbEstimate) (fun m : CatalogModel => (h.state m.id).holdsMemory &&
      !(h.entries m.id).loaded.isSome) cat.models = 0 := by
    refine weigh_eq_zero _ fun m hm' hh => ?_
    rw [Bool.and_eq_true, Bool.not_eq_true', ModelState.holdsMemory_eq_not_idle,
      Bool.not_eq_true'] at hh
    refine le_antisymm (hnone m hm' ?_) (hest m hm')
    have h3 : ¬ (h.state m.id = .loaded ∨ h.state m.id = .unloading) := fun h3 => by
      rw [(hm m.id).loaded.mpr h3] at hh
      cases hh.2
    exact (ModelState.not_idle_iff.mp hh.1).resolve_right h3
  calc h.loadedGib cat.models
      = h.placedGib cat.models + 0 := by
        rw [← h1, ← h2]
        exact weigh_split _ _ _ _
    _ = h.placedGib cat.models := add_zero _

/-- What is counted is what the swap takes out and the rest. -/
theorem loadedGib_split (model : CatalogModel) (id : String) :
    h.loadedGib cat.models = freed cat.models (h.swapOut model cat.models id) +
      weigh (·.vramGbEstimate) (fun m => (h.state m.id).holdsMemory &&
        !decide (m.id ∈ h.swapOut model cat.models id)) cat.models := by
  have h1 : freed cat.models (h.swapOut model cat.models id) =
      weigh (·.vramGbEstimate) (fun m : CatalogModel => (h.state m.id).holdsMemory &&
        decide (m.id ∈ h.swapOut model cat.models id)) cat.models := by
    refine weigh_congr _ fun m _ => ?_
    by_cases hs : m.id ∈ h.swapOut model cat.models id
    · rcases ModelState.swappable_iff.mp (mem_swapOut.mp hs).2.1 with h2 | h2 <;>
        simp [hs, h2, ModelState.idle]
    · simp [hs]
  rw [h1]
  exact weigh_split _ _ _ _

/-- A load of `id` would swap out no model with an estimate to speak of. -/
def NothingToSwap (cat : Catalog) (h : ModelHost) (id : String) : Prop :=
  ∀ m ∈ cat.models, m.id ∈ cat.rivals id → (h.state m.id).swappable = true → m.vramGbEstimate ≤ 0

instance : Decidable (NothingToSwap cat h o) := by unfold NothingToSwap; infer_instance

theorem freed_eq_zero {model : CatalogModel} {id : String}
    (hest : ∀ m ∈ cat.models, 0 ≤ m.vramGbEstimate) (hget : cat.get id = some model)
    (hswap : NothingToSwap cat h id) :
    freed cat.models (h.swapOut model cat.models id) = 0 := by
  refine weigh_eq_zero CatalogModel.vramGbEstimate fun m hm hout => ?_
  obtain ⟨h1, h2⟩ := (mem_swapOut_iff hget).mp (of_decide_eq_true hout)
  exact le_antisymm (hswap m hm h1 h2) (hest m hm)

/-- Where the account of a load of `id` is right: no model is loading when the device is probed,
and the clamp at zero hides nothing a swap is credited with when it is accounted. -/
def Covered (cat : Catalog) (h : ModelHost) (probe : Probe) (id : String) : Prop :=
  match probe.freeGib with
  | some _ => NoneLoading cat h
  | none => ∀ total ∈ probe.totalGib, h.loadedGib cat.models ≤ total ∨ NothingToSwap cat h id

instance {probe : Probe} : Decidable (Covered cat h probe o) := by
  unfold Covered
  split <;> infer_instance

/-- The model fits beside every model that is loading, loaded or unloading and not swapped out. -/
def FitsBeside (cat : Catalog) (total : ℚ) (h : ModelHost) (c : LoadCall)
    (model : CatalogModel) : Prop :=
  weigh (·.vramGbEstimate) (fun m => (h.state m.id).holdsMemory &&
    !decide (m.id ∈ h.swapOut model cat.models c.id)) cat.models + model.vramGbEstimate ≤
      total - admissionMarginGib

instance {c : LoadCall} {model : CatalogModel} : Decidable (FitsBeside cat total h c model) := by
  unfold FitsBeside; infer_instance

theorem admitLoad_fits {c : LoadCall} {model : CatalogModel} (hm : h.Matched)
    (hest : ∀ m ∈ cat.models, 0 ≤ m.vramGbEstimate) (hget : cat.get c.id = some model)
    (hidle : (h.state c.id).idle = true)
    (hadm : h.admitLoad model cat.models c.probe c.id = .ok ())
    (hmeas : Measures total (h.placedGib cat.models) c.probe) (hcov : Covered cat h c.probe c.id) :
    FitsBeside cat total h c model := by
  unfold admitLoad at hadm
  rw [if_pos hidle] at hadm
  obtain ⟨hknown, hfit⟩ := admitDevice_ok hadm
  have hfree := mt credit_unknown.mpr hknown
  rw [credit_gib hfree] at hfit
  have hsplit := @loadedGib_split cat h model c.id
  have hneed : 0 ≤ model.vramGbEstimate := hest model (Catalog.get_mem hget)
  have hmargin : (0 : ℚ) < admissionMarginGib := by decide
  unfold FitsBeside
  cases hp : c.probe.freeGib with
  | some gib =>
    have hgib : gib = total - h.placedGib cat.models := hmeas.1 gib hp
    rw [Covered, hp] at hcov
    rw [loadedGib_eq_placedGib hm hest hcov] at hsplit
    rw [freeNow, hp] at hfit
    simp only [FreeMemory.gib] at hfit
    linarith
  | none =>
    rw [Covered, hp] at hcov
    cases ht : c.probe.totalGib with
    | none => exact absurd (by rw [freeNow, hp, ht]) hfree
    | some t =>
      obtain rfl : t = total := hmeas.2 t ht
      rw [freeNow, hp, ht] at hfit
      simp only [FreeMemory.gib] at hfit
      rcases hcov t ht with hle | hswap
      · rw [max_eq_left (by linarith)] at hfit
        linarith
      · have hzero := freed_eq_zero hest hget hswap
        rcases le_total (h.loadedGib cat.models) t with hle | hlt
        · rw [max_eq_left (by linarith)] at hfit
          linarith
        · -- clamped at zero, with nothing credited, nothing fits
          rw [max_eq_right (by linarith)] at hfit
          linarith

/-! ## Over whole runs -/

/-- **Admitted loads fit.**  In a run whose loads are admitted against a faithful probe and a right
account, every admitted load fits beside the models that take memory. -/
theorem admitted_loads_fit {r : Residency} {es : List HostEvent}
    (hest : ∀ m ∈ cat.models, 0 ≤ m.vramGbEstimate)
    (hok : Along (step cat) (fun h e => ∀ a ∈ h.admitted cat e,
      Measures total (h.placedGib cat.models) a.1.probe ∧ Covered cat h a.1.probe a.1.id)
      (ModelHost.new r) es) :
    Along (step cat) (fun h e => ∀ a ∈ h.admitted cat e, FitsBeside cat total h a.1 a.2)
      (ModelHost.new r) es := by
  refine Along.imp_invariant (I := Matched) (fun _ _ _ hm _ hs => matched_step hs hm) ?_
    (matched_new r) hok
  intro h e hm hok a ha
  obtain ⟨hget, hidle, hadm⟩ := admitted_some ha
  exact admitLoad_fits hm hest hget hidle hadm (hok a ha).1 (hok a ha).2

/-- A catalogue entry of `gib` GiB in the exclusive group `group`. -/
def sized (id : String) (gib : ℚ) (group : Option String) : CatalogModel :=
  ⟨id, id, .llm, gib, none, ⟨.llamaCpp, [], {}⟩, true, "local", group⟩

/-- Two swaps' worth of models for a device of 10 GiB. -/
def crowd : Catalog :=
  ⟨[sized "a" 5 (some "g"), sized "b" 7 (some "g"), sized "c" 2 (some "k"),
    sized "d" 1 (some "k"), sized "e" 8 none, sized "f" 8 none], []⟩

/-- What a probed and an accounted device of 10 GiB answer. -/
def probed (gib : ℚ) : Probe := ⟨some gib, some 10, none⟩
def accounted : Probe := ⟨none, some 10, none⟩

/-- A load beside a placed model, the device probed. -/
theorem admitted_loads_fit_probed :
    Along (step crowd) (fun h e => ∀ a ∈ h.admitted crowd e, FitsBeside crowd 10 h a.1 a.2) empty
      [.load "a" (probed 10) Saves.ok, .loadEnds 0 (.ok ()), .load "c" (probed 5) Saves.ok] :=
  admitted_loads_fit (by decide +kernel) (by decide +kernel)

/-- Two loads admitted past the device: one probed beside a model still loading, one accounted
where the clamp at zero hides what an earlier swap has yet to free. -/
theorem loads_overcommit :
    (∃ h, run (step crowd) empty [.load "e" (probed 10) Saves.ok] = some h ∧
      ∃ a ∈ h.admitted crowd (.load "f" (probed 10) Saves.ok),
        Measures 10 (h.placedGib crowd.models) a.1.probe ∧ ¬ FitsBeside crowd 10 h a.1 a.2) ∧
    (∃ h, run (step crowd) empty
        [.load "a" accounted Saves.ok, .loadEnds 0 (.ok ()), .load "c" accounted Saves.ok,
          .loadEnds 0 (.ok ()), .load "b" accounted Saves.ok] = some h ∧
      ∃ a ∈ h.admitted crowd (.load "d" accounted Saves.ok),
        Measures 10 (h.placedGib crowd.models) a.1.probe ∧ ¬ FitsBeside crowd 10 h a.1 a.2) :=
  ⟨exists_run (by decide +kernel) fun _ _ hs => hs,
    exists_run (by decide +kernel) fun _ _ hs => hs⟩

end ModelHost

end StudioWorker
