import StudioWorker.Host.Invariant

/-!
# Host.Change — what an event changes in the entries and the residency

The coarse inversion of a step: six kinds of change, each with what it does to every model.  The
invariants about lifecycles, weights and residency are proved over these; the ones about threads
and lanes are proved over `Trans`.
-/

namespace StudioWorker

open Lib Lib.System

namespace ModelHost

variable {cat : Catalog} {h h' : ModelHost} {e : HostEvent} {id o : String}

/-- What an event does to the entries and the residency. -/
inductive Change (cat : Catalog) (h : ModelHost) (e : HostEvent) (h' : ModelHost) : Prop where
  /-- Nothing: a rejected call, a restore's bookkeeping, a step of a thread on its way. -/
  | quiet (ha : h.answeredLoad cat e = none) (hu : h.answeredUnload cat e = none)
      (hent : h'.entries = h.entries) (hres : h'.residency = h.residency)
  | loadFails {c : LoadCall} {model : CatalogModel} {err : HostError}
      (hc : h.loadCall e = some c) (ha : h.answeredLoad cat e = none)
      (hu : h.answeredUnload cat e = none)
      (hl : { h with restores := c.restores }.loadLocked model cat.models c.probe c.save c.id =
        (.error err, h'))
      (hlc : ∀ o, (h'.entries o).lifecycle = (h.entries o).lifecycle ∨
        (o ∈ h.swapOut model cat.models c.id ∧
          (h'.entries o).lifecycle = (h.entries o).lifecycle.requestUnload.1))
      (hloaded : ∀ o, (h'.entries o).loaded = (h.entries o).loaded)
  | load {c : LoadCall} {model : CatalogModel}
      (hc : h.loadCall e = some c) (ha : h.answeredLoad cat e = some c.id)
      (hu : h.answeredUnload cat e = none) (hget : cat.get c.id = some model)
      (hen : model.enabled = true)
      (hadm : h.admitLoad model cat.models c.probe c.id = .ok ())
      (hres : ∀ o, o ∈ h'.residency.resident ↔
        o = c.id ∨ (o ∈ h.residency.resident ∧ o ∉ h.swapOut model cat.models c.id))
      (hlc : ∀ o, (h'.entries o).lifecycle =
        if o = c.id then (h.entries o).lifecycle.requestLoad.1
        else if o ∈ h.swapOut model cat.models c.id then (h.entries o).lifecycle.requestUnload.1
        else (h.entries o).lifecycle)
      (hloaded : ∀ o, (h'.entries o).loaded = (h.entries o).loaded)
  | unload {id : String} (ha : h.answeredLoad cat e = none)
      (hu : h.answeredUnload cat e = some id)
      (hres : ∀ o, o ∈ h'.residency.resident ↔ o ∈ h.residency.resident ∧ o ≠ id)
      (hlc : ∀ o, (h'.entries o).lifecycle =
        if o = id then (h.entries o).lifecycle.requestUnload.1 else (h.entries o).lifecycle)
      (hloaded : ∀ o, (h'.entries o).loaded = (h.entries o).loaded)
  | loadEnds {k : ℕ} {t : LoadThread} {result : Except String Unit} (he : e = .loadEnds k result)
      (ha : h.answeredLoad cat e = none) (hu : h.answeredUnload cat e = none)
      (hst : h.state t.model.id = .loading)
      (hent : h'.entries = Function.update h.entries t.model.id
        (loadedEntry (h.entries t.model.id).lifecycle ⟨t.model, h.nextLane⟩ result))
      (hres : h'.residency = h.residency)
  | unloadEnds {id : String} (ha : h.answeredLoad cat e = none)
      (hu : h.answeredUnload cat e = none) (hst : h.state id = .unloading)
      (hent : h'.entries = Function.update h.entries id
        ⟨⟨.unloaded, (h.entries id).lifecycle.unloadPending⟩, none⟩)
      (hres : h'.residency = h.residency)

theorem answeredUnload_of_loadCall {c : LoadCall} (hc : h.loadCall e = some c) :
    h.answeredUnload cat e = none := by
  cases e with
  | unload id save => cases hc
  | _ => rfl

/-- Every step from a state whose lifecycles and threads agree is one of the changes. -/
theorem step_change (hm : h.Matched) (hs : step cat h e = some h') : Change cat h e h' := by
  cases step_trans hs with
  | loadRejected hc ha => exact .quiet ha (answeredUnload_of_loadCall hc) rfl rfl
  | @loadFails _ c _ _ _ hc ha hget hl =>
    refine .loadFails hc ha (answeredUnload_of_loadCall hc) hl
      (loadLocked_error (h := { h with restores := c.restores }) hl).2 ?_
    obtain rfl := congrArg Prod.snd hl
    exact fun o => loadLocked_loaded
  | load hc ha hget hen hl =>
    obtain ⟨hadm, hres, hlc, -⟩ := loadLocked_ok hl
    refine .load hc ha (answeredUnload_of_loadCall hc) hget hen hadm hres hlc ?_
    obtain rfl := congrArg Prod.snd hl
    exact fun o => loadLocked_loaded
  | unloadFails ha => exact .quiet rfl ha rfl rfl
  | unload ha hget hl =>
    obtain ⟨hres, hlc, -⟩ := unloadLocked_ok hl
    refine .unload rfl ha hres hlc ?_
    obtain rfl := congrArg Prod.snd hl
    exact fun o => unloadLocked_loaded
  | restore => exact .quiet rfl rfl rfl rfl
  | restored hk => exact .quiet (by simp [answeredLoad, loadCall, hk]) rfl rfl rfl
  | waitEnds hk hw hidle => exact .quiet rfl rfl rfl rfl
  | waitTimesOut hk hw => exact .quiet rfl rfl rfl rfl
  | cancelLane hk hl hp => exact .quiet rfl rfl rfl rfl
  | obtainLane hk hl hp hb => exact .quiet rfl rfl rfl rfl
  | dropLane hk hl hp => exact .quiet rfl rfl rfl rfl
  | drainTimesOut hk hl hp => exact .quiet rfl rfl rfl rfl
  | @loadEnds k result t hk hw =>
    have hst := hm.loading_of_getElem? hk
    exact .loadEnds rfl rfl rfl hst
      (finishLoad_entries (h := { h with loads := h.loads.eraseIdx k }) result hst)
      finishLoad_residency
  | @unloadEnds k t hk hr =>
    have hst := hm.unloading_of_mem (Pool.mem_of_getElem? hk)
    exact .unloadEnds rfl rfl hst
      (finishUnload_entries (h := { h with unloads := h.unloads.eraseIdx k }) hst)
      finishUnload_residency

/-! ## Runs with every save succeeding -/

/-- Every save the event makes succeeds. -/
def SavesOk : HostEvent → Prop
  | .load _ _ save | .unload _ save | .restoreNext _ _ save => save = Saves.ok
  | _ => True

/-- With every save succeeding, a `load` that fails changes neither entries nor residency. -/
theorem loadFails_quiet {c : LoadCall} {model : CatalogModel} {err : HostError}
    (hok : SavesOk e) (hc : h.loadCall e = some c)
    (hl : { h with restores := c.restores }.loadLocked model cat.models c.probe c.save c.id =
      (.error err, h')) : h'.entries = h.entries ∧ h'.residency = h.residency := by
  have hsave : c.save = Saves.ok := by
    rcases loadCall_some hc with ⟨id, probe, save, rfl, rfl⟩ |
      ⟨k, probe, save, id, rest, rfl, -, rfl⟩
    · exact hok
    · exact hok
  rw [hsave] at hl
  rw [loadLocked_refused hl]
  exact ⟨rfl, rfl⟩

end ModelHost

end StudioWorker
