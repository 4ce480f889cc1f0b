import StudioWorker.Host.Step

/-!
# Host.Atomic — what a call that fails leaves behind

Every check of `load` and `unload` comes before their first effect, so a call that is rejected or
refused changes nothing.  A `load` that swaps saves once for itself and once for each outgoing
member, and a save may fail after earlier effects: `FirstToFail` says when none came before it.
-/

namespace StudioWorker

open Lib Lib.System

namespace Residency

variable {r : Residency} {id : String} {b : Bool} {save : Except String Unit}

/-- The save of a new membership fails. -/
def SaveFails (r : Residency) (id : String) (b : Bool) (save : Except String Unit) : Prop :=
  r.isResident id ≠ b ∧ r.path.isSome = true ∧ save ≠ .ok ()

theorem set_error_iff : (∃ e, (r.set id b save).1 = .error e) ↔ r.SaveFails id b save := by
  constructor
  · rintro ⟨e, he⟩
    obtain ⟨-, h1, h2, h3⟩ := set_error he
    exact ⟨h1, h2, by rw [h3]; simp⟩
  · rintro ⟨h1, h2, h3⟩
    obtain ⟨p, hp⟩ := Option.isSome_iff_exists.mp h2
    unfold set
    rw [if_neg h1, hp]
    cases save with
    | error e => exact ⟨e, rfl⟩
    | ok u => exact absurd rfl h3

end Residency

namespace ModelHost

variable {cat : Catalog} {h h' : ModelHost} {id o : String} {save : Saves}

/-- Nothing of the host changed: no lifecycle, no weights, no residency in memory or in the file,
and no background work was started. -/
structure Untouched (h h' : ModelHost) : Prop where
  entries : h'.entries = h.entries
  residency : h'.residency = h.residency
  loads : h'.loads = h.loads
  unloads : h'.unloads = h.unloads

theorem Untouched.refl (h : ModelHost) : Untouched h h := ⟨rfl, rfl, rfl, rfl⟩

/-- Marking a member as it is already marked changes nothing. -/
theorem setResident_same {b : Bool} {s : Except String Unit} {r : Except String Bool}
    {h₁ : ModelHost} (hr : h.setResident id b s = (r, h₁)) (hres : h.residency.isResident id = b) :
    h₁ = h := by
  rw [setResident, Residency.set_of_eq hres] at hr
  exact (Prod.mk.inj hr).2.symm

theorem saveFails_iff {b : Bool} {s : Except String Unit} {r : Except String Bool}
    {h₁ : ModelHost} (hr : h.setResident id b s = (r, h₁)) :
    h.residency.SaveFails id b s ↔ ∃ e, r = .error e := by
  have hr1 : (h.residency.set id b s).1 = r := congrArg Prod.fst hr
  rw [← Residency.set_error_iff, hr1]

/-! ## The swap loop -/

/-- The first save of the loop to fail comes before any effect: every member before it was not
resident any more and had its unload asked for already. -/
def FirstToFail (h : ModelHost) (save : Saves) : List String → Prop
  | [] => True
  | o :: out => h.residency.SaveFails o false (save o) ∨
      (o ∉ h.residency.resident ∧ h.state o = .loading ∧
        (h.entries o).lifecycle.unloadPending = true ∧ FirstToFail h save out)

/-- Asking a loading model to unload once more changes nothing. -/
theorem requestUnloadLocked_pending (hst : h.state o = .loading)
    (hp : (h.entries o).lifecycle.unloadPending = true) : h.requestUnloadLocked o = h := by
  unfold requestUnloadLocked
  rw [Lifecycle.requestUnload_of_pending hst hp]
  simp [setLifecycle, setEntry]

/-- The rest of the loop leaves a member that was asked to unload as that request left it. -/
theorem swapLoop_after_request {out : List String} :
    ((swapLoop save out (h.requestUnloadLocked o)).2.entries o).lifecycle =
      (h.entries o).lifecycle.requestUnload.1 := by
  have h1 : ((h.requestUnloadLocked o).entries o).lifecycle =
      (h.entries o).lifecycle.requestUnload.1 := by
    rw [requestUnloadLocked_lifecycle, if_pos rfl]
  have h2 : ((swapLoop save out (h.requestUnloadLocked o)).2.entries o).lifecycle = _ ∨
      (o ∈ out ∧ _ = _) := swapLoop_lifecycle_cases
  rw [h1] at h2
  rcases h2 with h2 | ⟨-, h2⟩
  · exact h2
  · rw [h2, Lifecycle.requestUnload_idem]

/-- A swap loop that fails changed nothing exactly when the save that failed came first. -/
theorem swapLoop_untouched_iff {e : String} : ∀ (out : List String) (h h' : ModelHost),
    (∀ o ∈ out, (h.state o).swappable = true) → swapLoop save out h = (.error e, h') →
      (Untouched h h' ↔ FirstToFail h save out)
  | [], h, h', _, heq => by cases heq
  | o :: out, h, h', hout, heq => by
    unfold swapLoop at heq
    cases hr : h.setResident o false (save o) with
    | mk r h₁ =>
      rw [hr] at heq
      cases r with
      | error e' =>
        obtain ⟨-, rfl⟩ := Prod.mk.inj heq
        rw [setResident_error hr]
        exact iff_of_true (Untouched.refl h) (Or.inl ((saveFails_iff hr).mpr ⟨e', rfl⟩))
      | ok c =>
        have hno : ¬ h.residency.SaveFails o false (save o) := by
          rw [saveFails_iff hr]
          rintro ⟨e', he'⟩
          cases he'
        unfold FirstToFail
        rw [or_iff_right hno]
        by_cases hres : o ∈ h.residency.resident
        · -- its residency is gone for good
          refine iff_of_false (fun hu => ?_) fun hh => hh.1 hres
          obtain ⟨res, rfl, hres'⟩ := setResident_ok hr
          have hin : o ∈ h'.residency.resident := by rw [hu.residency]; exact hres
          have hsub : o ∈ (swapLoop save out ({ h with residency := res }.requestUnloadLocked
            o)).2.residency.resident := by dsimp only at heq; rw [heq]; exact hin
          have h1 := swapLoop_resident_sub hsub
          rw [requestUnloadLocked_residency, hres', Residency.mem_next] at h1
          simp at h1
        · obtain rfl : h₁ = h := setResident_same hr (by simp [Residency.isResident, hres])
          by_cases hpend : h₁.state o = .loading ∧
              (h₁.entries o).lifecycle.unloadPending = true
          · dsimp only at heq
            rw [requestUnloadLocked_pending hpend.1 hpend.2] at heq
            rw [swapLoop_untouched_iff out h₁ h'
              (fun o' ho' => hout o' (List.mem_cons_of_mem _ ho')) heq]
            exact ⟨fun hh => ⟨hres, hpend.1, hpend.2, hh⟩, fun hh => hh.2.2.2⟩
          · -- its lifecycle changed, and asking again does not change it back
            refine iff_of_false (fun hu => ?_) fun hh => hpend ⟨hh.2.1, hh.2.2.1⟩
            have h1 : (h'.entries o).lifecycle = (h₁.entries o).lifecycle.requestUnload.1 := by
              dsimp only at heq
              rw [← swapLoop_after_request (h := h₁), heq]
            rw [hu.entries] at h1
            exact hpend (Lifecycle.pending_of_requestUnload_eq (hout o List.mem_cons_self) h1.symm)

/-- A member outside the loop stays resident. -/
theorem swapLoop_keeps_resident {out : List String} (hout : o ∉ out)
    (ho : o ∈ h.residency.resident) : o ∈ (swapLoop save out h).2.residency.resident := by
  refine swapLoop_keeps (P := fun o' => o' ∈ out) (I := fun h => o ∈ h.residency.resident) ?_
    (fun _ _ _ hI => by simpa using hI) out h (fun _ ho' => ho') ho
  intro h' o' s ho' hI
  cases hs : h'.setResident o' false s with
  | mk r h₁ =>
    cases r with
    | error e => rw [setResident_error hs]; exact hI
    | ok c =>
      obtain ⟨res, rfl, hres⟩ := setResident_ok hs
      dsimp only
      rw [hres, Residency.mem_next]
      exact Or.inr ⟨fun heq => hout (heq ▸ ho'), hI⟩

/-! ## The calls -/

/-- A failing `load` fails before its first effect: it is rejected, refused, or its first save to
change anything fails. -/
def FailsFirst (cat : Catalog) (h : ModelHost) (probe : Probe) (save : Saves) (id : String) :
    Prop :=
  ∀ model, cat.get id = some model → model.enabled = true →
    h.admitLoad model cat.models probe id = .ok () →
    h.residency.SaveFails id true (save id) ∨
      (id ∈ h.residency.resident ∧ FirstToFail h save (h.swapOut model cat.models id))

/-- A `load` that holds the lock and fails changed nothing exactly when it fails first. -/
theorem loadLocked_untouched_iff {probe : Probe} {model : CatalogModel} {err : HostError}
    (hadm : h.admitLoad model cat.models probe id = .ok ())
    (heq : h.loadLocked model cat.models probe save id = (.error err, h')) :
    Untouched h h' ↔ h.residency.SaveFails id true (save id) ∨
      (id ∈ h.residency.resident ∧ FirstToFail h save (h.swapOut model cat.models id)) := by
  have hswap : ∀ o ∈ h.swapOut model cat.models id, (h.state o).swappable = true :=
    fun o ho => (mem_swapOut.mp ho).2.1
  have hid : id ∉ h.swapOut model cat.models id := fun hm => (mem_swapOut.mp hm).1 rfl
  unfold loadLocked at heq
  dsimp only at heq
  rw [hadm] at heq
  dsimp only at heq
  cases hr : h.setResident id true (save id) with
  | mk r h₁ =>
    rw [hr] at heq
    cases r with
    | error e =>
      obtain ⟨-, rfl⟩ := Prod.mk.inj heq
      rw [setResident_error hr]
      exact iff_of_true (Untouched.refl h) (Or.inl ((saveFails_iff hr).mpr ⟨e, rfl⟩))
    | ok c =>
      have hno : ¬ h.residency.SaveFails id true (save id) := by
        rw [saveFails_iff hr]
        rintro ⟨e, he⟩
        cases he
      rw [or_iff_right hno]
      dsimp only at heq
      cases hl : swapLoop save (h.swapOut model cat.models id) h₁ with
      | mk r h₂ =>
        rw [hl] at heq
        cases r with
        | ok u => cases heq
        | error e =>
          obtain ⟨-, rfl⟩ := Prod.mk.inj heq
          by_cases hres : id ∈ h.residency.resident
          · obtain rfl : h₁ = h := setResident_same hr (by simp [Residency.isResident, hres])
            rw [swapLoop_untouched_iff _ _ _ hswap hl]
            exact (and_iff_right hres).symm
          · -- made resident, and nothing in the loop undoes it
            refine iff_of_false (fun hu => hres ?_) fun hh => hres hh.1
            obtain ⟨res, rfl, hres'⟩ := setResident_ok hr
            have hin : id ∈ { h with residency := res }.residency.resident := by
              rw [hres']
              exact Residency.mem_next.mpr (Or.inl ⟨rfl, rfl⟩)
            have h1 : id ∈ (swapLoop save _ { h with residency := res }).2.residency.resident :=
              swapLoop_keeps_resident hid hin
            rw [hl, hu.residency] at h1
            exact h1

/-- **A failing call changes nothing, or a save failed late.**  A `load` that fails left everything
as it was exactly when it fails first; an `unload` that fails always did. -/
theorem failed_call_untouched_iff (cat : Catalog) (h : ModelHost) (probe : Probe) (save : Saves)
    (id : String) :
    (∀ err h', h.load cat probe save id = (.error err, h') →
      (Untouched h h' ↔ FailsFirst cat h probe save id)) ∧
    (∀ err h', h.unload cat save id = (.error err, h') → Untouched h h') := by
  constructor
  · intro err h' heq
    rw [load, catalogueModel] at heq
    cases hget : cat.get id with
    | none =>
      rw [hget] at heq
      obtain ⟨-, rfl⟩ := Prod.mk.inj heq
      exact iff_of_true (Untouched.refl h) fun model hg => by rw [hget] at hg; cases hg
    | some model =>
      have honly : FailsFirst cat h probe save id ↔ (model.enabled = true →
          h.admitLoad model cat.models probe id = .ok () →
          h.residency.SaveFails id true (save id) ∨
            (id ∈ h.residency.resident ∧
              FirstToFail h save (h.swapOut model cat.models id))) := by
        refine ⟨fun hh => hh model hget, fun hh m hg => ?_⟩
        obtain rfl := Option.some.inj (hget.symm.trans hg)
        exact hh
      rw [honly]
      rw [hget] at heq
      dsimp only at heq
      by_cases hen : model.enabled = true
      · rw [if_pos hen] at heq
        cases hadm : h.admitLoad model cat.models probe id with
        | error r =>
          unfold loadLocked at heq
          dsimp only at heq
          rw [hadm] at heq
          obtain ⟨-, rfl⟩ := Prod.mk.inj heq
          exact iff_of_true (Untouched.refl h) fun _ hh => by cases hh
        | ok u =>
          rw [loadLocked_untouched_iff hadm heq]
          exact ⟨fun hh _ _ => hh, fun hh => hh hen rfl⟩
      · rw [if_neg hen] at heq
        obtain ⟨-, rfl⟩ := Prod.mk.inj heq
        exact iff_of_true (Untouched.refl h) fun hh => absurd hh hen
  · intro err h' heq
    rcases unload_cases cat h save id with ⟨e, h1⟩ | ⟨model, -, h1⟩
    · rw [h1] at heq
      obtain ⟨-, rfl⟩ := Prod.mk.inj heq
      exact Untouched.refl h
    · rw [h1] at heq
      rw [unloadLocked_error heq]
      exact Untouched.refl h

/-- A host whose residency is kept in a file. -/
def persistent : ModelHost := .new ⟨∅, some "residency.json", .notFound⟩

/-- Every save fails but the one for `id`. -/
def Saves.onlyFor (id : String) : Saves := fun o => if o = id then .ok () else .error "disk full"

/-- A first save that fails: nothing was touched. -/
theorem failed_call_untouched_first : Untouched persistent
    (persistent.load pairCatalog roomy (Saves.onlyFor "b") "a").2 := by
  refine ((failed_call_untouched_iff pairCatalog persistent roomy (Saves.onlyFor "b") "a").1
    (.persist "disk full") _ ?_).mpr ?_
  · exact Prod.ext (by decide +kernel) rfl
  · intro model _ _ _
    exact Or.inl ⟨by decide, rfl, by simp [Saves.onlyFor]⟩

/-- A swap whose second save fails: the call failed, and its model is resident all the same. -/
theorem failed_load_leaves_resident :
    ∃ h, run (step pairCatalog) persistent [.load "a" roomy Saves.ok, .loadEnds 0 (.ok ())] =
        some h ∧
      (h.load pairCatalog roomy (Saves.onlyFor "b") "b").1 = .error (.persist "disk full") ∧
      "b" ∉ h.residency.resident ∧
      "b" ∈ (h.load pairCatalog roomy (Saves.onlyFor "b") "b").2.residency.resident ∧
      ¬ Untouched h (h.load pairCatalog roomy (Saves.onlyFor "b") "b").2 := by
  refine exists_run (P := fun h =>
    (h.load pairCatalog roomy (Saves.onlyFor "b") "b").1 = .error (.persist "disk full") ∧
    "b" ∉ h.residency.resident ∧
    "b" ∈ (h.load pairCatalog roomy (Saves.onlyFor "b") "b").2.residency.resident)
    (by decide +kernel) fun h _ hs => ⟨hs.1, hs.2.1, hs.2.2, fun hu => hs.2.1 ?_⟩
  rw [← hu.residency]
  exact hs.2.2

end ModelHost

end StudioWorker
