import StudioWorker.Host.Wish

/-!
# Host.Deletion — loads beside catalogue edits

`load` reads the catalogue twice before it takes the `entries` lock, and a `DELETE` looks the model
up, unloads it and removes it in three critical sections; any of these may fall between any others.
A model is `Held` while it is resident, loaded, or loading for good.  `Catalogued` says that every
held model is in the catalogue, and that a `DELETE` past its unload holds off its own.  A `load`
breaks it when it takes the lock after its model has left the catalogue, or between the unload and
the removal.
-/

namespace StudioWorker

open Lib Lib.System

/-- A `load` call in flight: called, past its lookup, or past both reads of the catalogue. -/
inductive LoadPhase where
  | called (id : String)
  | found (model : CatalogModel)
  | listed (model : CatalogModel) (catalog : List CatalogModel)

/-- A `DELETE` in flight: called, past the unload's lookup, or past the unload. -/
inductive DeletePhase where
  | called (id : String)
  | unloading (id : String)
  | removing (id : String)
deriving DecidableEq

structure CatalogHost where
  host : ModelHost
  catalog : Catalog
  loads : List LoadPhase
  deletes : List DeletePhase

inductive CatalogEvent where
  /-- An end or a step of background work. -/
  | host (e : HostEvent)
  | load (id : String)
  /-- `catalogue_model` of the `k`-th load. -/
  | lookUp (k : ℕ)
  /-- The `k`-th load copies the catalogue. -/
  | list (k : ℕ)
  /-- The `k`-th load takes the `entries` lock and runs to its end. -/
  | commit (k : ℕ) (probe : Probe) (save : Saves)
  /-- The critical section of `POST /models`. -/
  | addModel (model : CatalogModel)
  | delete (id : String)
  /-- `catalogue_model` of the unload of the `k`-th `DELETE`; an unknown model is not unloaded. -/
  | deleteLookUp (k : ℕ)
  | deleteUnload (k : ℕ) (save : Saves)
  | deleteRemove (k : ℕ)

/-- The host events that are steps of background work. -/
def HostEvent.Background : HostEvent → Prop
  | .load _ _ _ | .unload _ _ | .restore | .restoreNext _ _ _ => False
  | _ => True

instance : DecidablePred HostEvent.Background
  | .load _ _ _ | .unload _ _ | .restore | .restoreNext _ _ _ => isFalse not_false
  | .waitEnds _ | .waitTimesOut _ | .loadEnds _ _ | .cancelLane _ | .obtainLane _ | .dropLane _
  | .drainTimesOut _ | .unloadEnds _ => isTrue trivial

namespace CatalogHost

open ModelHost

/-- One critical section, with the ids the worker ships seeded with. -/
def step (seeds : List String) : System CatalogHost CatalogEvent
  | s, .host e =>
    if e.Background then (ModelHost.step s.catalog s.host e).map fun h => { s with host := h }
    else none
  | s, .load id => some { s with loads := s.loads ++ [.called id] }
  | s, .lookUp k =>
    match s.loads[k]? with
    | some (.called id) =>
      match catalogueModel s.catalog id with
      | .ok model =>
        if model.enabled then some { s with loads := s.loads.set k (.found model) }
        else some { s with loads := s.loads.eraseIdx k }
      | .error _ => some { s with loads := s.loads.eraseIdx k }
    | _ => none
  | s, .list k =>
    match s.loads[k]? with
    | some (.found model) => some { s with loads := s.loads.set k (.listed model s.catalog.models) }
    | _ => none
  | s, .commit k probe save =>
    match s.loads[k]? with
    | some (.listed model catalog) =>
      some { s with
        host := (s.host.loadLocked model catalog probe save model.id).2
        loads := s.loads.eraseIdx k }
    | _ => none
  | s, .addModel model => some { s with catalog := s.catalog.upsert model }
  | s, .delete id => some { s with deletes := s.deletes ++ [.called id] }
  | s, .deleteLookUp k =>
    match s.deletes[k]? with
    | some (.called id) =>
      match catalogueModel s.catalog id with
      | .ok _ => some { s with deletes := s.deletes.set k (.unloading id) }
      | .error _ => some { s with deletes := s.deletes.set k (.removing id) }
    | _ => none
  | s, .deleteUnload k save =>
    match s.deletes[k]? with
    | some (.unloading id) =>
      match s.host.unloadLocked save id with
      | (.ok _, h) => some { s with host := h, deletes := s.deletes.set k (.removing id) }
      | (.error _, h) => some { s with host := h, deletes := s.deletes.eraseIdx k }
    | _ => none
  | s, .deleteRemove k =>
    match s.deletes[k]? with
    | some (.removing id) =>
      some { s with
        catalog := (s.catalog.remove seeds id).1
        deletes := s.deletes.eraseIdx k }
    | _ => none

/-- Everything an event can do. -/
inductive Trans (seeds : List String) (s : CatalogHost) : CatalogEvent → CatalogHost → Prop where
  | host {e : HostEvent} {h : ModelHost} (hb : e.Background)
      (hs : ModelHost.step s.catalog s.host e = some h) :
      Trans seeds s (.host e) { s with host := h }
  /-- A load call begins, reads the catalogue or is rejected. -/
  | loads {e : CatalogEvent} {ls : List LoadPhase} : Trans seeds s e { s with loads := ls }
  | commit {k : ℕ} {probe : Probe} {save : Saves} {model : CatalogModel}
      {catalog : List CatalogModel} {ls : List LoadPhase}
      (hk : s.loads[k]? = some (.listed model catalog)) :
      Trans seeds s (.commit k probe save) { s with
        host := (s.host.loadLocked model catalog probe save model.id).2, loads := ls }
  | addModel {model : CatalogModel} :
      Trans seeds s (.addModel model) { s with catalog := s.catalog.upsert model }
  | delete {id : String} :
      Trans seeds s (.delete id) { s with deletes := s.deletes ++ [.called id] }
  | deleteFound {k : ℕ} {id : String} (hk : s.deletes[k]? = some (.called id)) :
      Trans seeds s (.deleteLookUp k) { s with deletes := s.deletes.set k (.unloading id) }
  | deleteUnknown {k : ℕ} {id : String} (hk : s.deletes[k]? = some (.called id))
      (hget : s.catalog.get id = none) :
      Trans seeds s (.deleteLookUp k) { s with deletes := s.deletes.set k (.removing id) }
  | deleteUnload {k : ℕ} {save : Saves} {id : String} {st : ModelStatus} {h : ModelHost}
      (hk : s.deletes[k]? = some (.unloading id))
      (hu : s.host.unloadLocked save id = (.ok st, h)) :
      Trans seeds s (.deleteUnload k save)
        { s with host := h, deletes := s.deletes.set k (.removing id) }
  | deleteFails {k : ℕ} {save : Saves} :
      Trans seeds s (.deleteUnload k save) { s with deletes := s.deletes.eraseIdx k }
  | deleteRemove {k : ℕ} {id : String} (hk : s.deletes[k]? = some (.removing id)) :
      Trans seeds s (.deleteRemove k) { s with
        catalog := (s.catalog.remove seeds id).1, deletes := s.deletes.eraseIdx k }

variable {seeds : List String} {s s' : CatalogHost} {e : CatalogEvent} {id o : String}

theorem catalogueModel_error {cat : Catalog} {err : HostError}
    (h : catalogueModel cat id = .error err) : cat.get id = none := by
  unfold catalogueModel at h
  cases hg : cat.get id with
  | none => rfl
  | some m => rw [hg] at h; cases h

theorem step_trans (hs : step seeds s e = some s') : Trans seeds s e s' := by
  cases e with
  | host e =>
    rw [step] at hs
    split_ifs at hs with hb
    obtain ⟨h, hh, rfl⟩ := Option.map_eq_some_iff.mp hs
    exact .host hb hh
  | load id => exact Option.some.inj hs ▸ .loads
  | lookUp k =>
    rw [step] at hs
    split at hs
    · split at hs
      · split_ifs at hs <;> exact Option.some.inj hs ▸ .loads
      · exact Option.some.inj hs ▸ .loads
    · cases hs
  | list k =>
    rw [step] at hs
    split at hs
    · exact Option.some.inj hs ▸ .loads
    · cases hs
  | commit k probe save =>
    rw [step] at hs
    split at hs
    · rename_i hk
      exact Option.some.inj hs ▸ .commit hk
    · cases hs
  | addModel model => exact Option.some.inj hs ▸ .addModel
  | delete id => exact Option.some.inj hs ▸ .delete
  | deleteLookUp k =>
    rw [step] at hs
    split at hs
    · rename_i hk
      split at hs
      · exact Option.some.inj hs ▸ .deleteFound hk
      · rename_i hget
        exact Option.some.inj hs ▸ .deleteUnknown hk (catalogueModel_error hget)
    · cases hs
  | deleteUnload k save =>
    rw [step] at hs
    split at hs
    · rename_i hk
      split at hs
      · rename_i hu
        exact Option.some.inj hs ▸ .deleteUnload hk hu
      · rename_i hu
        rw [unloadLocked_error hu] at hs
        exact Option.some.inj hs ▸ .deleteFails
    · cases hs
  | deleteRemove k =>
    rw [step] at hs
    split at hs
    · rename_i hk
      exact Option.some.inj hs ▸ .deleteRemove hk
    · cases hs

end CatalogHost

/-! ## Held models -/

namespace ModelHost

variable {h h' : ModelHost} {id o : String}

/-- The host keeps the model: it is resident, loaded, or loading with no unload to follow. -/
def Held (h : ModelHost) (id : String) : Prop :=
  id ∈ h.residency.resident ∨ Wanted (h.entries id).lifecycle

theorem held_of_loaded (hs : h.state id = .loaded) : h.Held id := Or.inr (Or.inl hs)

/-- A `load` holds no model it was not asked for. -/
theorem held_loadLocked {model : CatalogModel} {catalog : List CatalogModel} {probe : Probe}
    {save : Saves} (ho : (h.loadLocked model catalog probe save id).2.Held o) :
    h.Held o ∨ o = id := by
  refine loadLocked_keeps (I := fun h' => h'.Held o → h.Held o ∨ o = id) ?_ ?_ ?_ Or.inl ho
  · intro h' o' b s hb hI hh
    cases hs : h'.setResident o' b s with
    | mk r h₁ =>
      rw [hs] at hh
      cases r with
      | error e => rw [setResident_error hs] at hh; exact hI hh
      | ok c =>
        obtain ⟨res, rfl, hres⟩ := setResident_ok hs
        rcases hh with hh | hh
        · rw [hres, Residency.mem_next] at hh
          rcases hh with ⟨rfl, rfl⟩ | ⟨-, hh⟩
          · exact Or.inr (hb rfl)
          · exact hI (Or.inl hh)
        · exact hI (Or.inr hh)
  · intro h' o' hI hh
    rcases hh with hh | hh
    · exact hI (Or.inl (by rwa [requestUnloadLocked_residency] at hh))
    · rw [requestUnloadLocked_lifecycle] at hh
      split_ifs at hh
      · exact absurd hh (wanted_requestUnload _)
      · exact hI (Or.inr hh)
  · intro h' out hI hh
    by_cases ho' : o = id
    · exact Or.inr ho'
    · rcases hh with hh | hh
      · exact hI (Or.inl (by rwa [requestLoadLocked_residency] at hh))
      · rw [requestLoadLocked_lifecycle, if_neg ho'] at hh
        exact hI (Or.inr hh)

/-- An `unload` that answers lets its model go and holds no other. -/
theorem held_unloadLocked {save : Saves} {st : ModelStatus}
    (hu : h.unloadLocked save id = (.ok st, h')) (ho : h'.Held o) : h.Held o ∧ o ≠ id := by
  obtain ⟨hres, hlc, -⟩ := unloadLocked_ok hu
  rcases ho with ho | ho
  · obtain ⟨h1, h2⟩ := (hres o).mp ho
    exact ⟨Or.inl h1, h2⟩
  · rw [hlc] at ho
    split_ifs at ho with h1
    · exact absurd ho (wanted_requestUnload _)
    · exact ⟨Or.inr ho, h1⟩

/-- Background work holds no model that was not held. -/
theorem held_background {cat : Catalog} {e : HostEvent} (hm : h.Matched) (hb : e.Background)
    (hs : step cat h e = some h') (ho : h'.Held o) : h.Held o := by
  have hcall : ∀ {c : LoadCall}, h.loadCall e ≠ some c := by
    intro c hc
    rcases loadCall_some hc with ⟨id, probe, save, rfl, -⟩ | ⟨k, probe, save, id, rest, rfl, -, -⟩
    · exact hb
    · exact hb
  cases step_change hm hs with
  | quiet _ _ hent hres => unfold Held at ho ⊢; rwa [hent, hres] at ho
  | loadFails hc => exact absurd hc hcall
  | load hc => exact absurd hc hcall
  | unload _ hu =>
    cases e with
    | unload id save => exact False.elim hb
    | _ => cases hu
  | @loadEnds k t result _ _ _ hst hent hres =>
    rcases ho with ho | ho
    · exact Or.inl (hres ▸ ho)
    · rw [hent] at ho
      by_cases heq : o = t.model.id
      · rw [heq, Function.update_self] at ho
        rw [heq]
        cases result with
        | error reason => simp [Wanted, loadedEntry] at ho
        | ok u =>
          cases hp : (h.entries t.model.id).lifecycle.unloadPending with
          | true => simp [Wanted, loadedEntry, hp] at ho
          | false => exact Or.inr (Or.inr ⟨hst, hp⟩)
      · rw [Function.update_of_ne heq] at ho
        exact Or.inr ho
  | @unloadEnds id _ _ hst hent hres =>
    rcases ho with ho | ho
    · exact Or.inl (hres ▸ ho)
    · rw [hent] at ho
      by_cases heq : o = id
      · rw [heq, Function.update_self] at ho
        simp [Wanted] at ho
      · rw [Function.update_of_ne heq] at ho
        exact Or.inr ho

end ModelHost

/-! ## Held models are in the catalogue -/

namespace CatalogHost

open ModelHost

variable {seeds : List String} {s s' : CatalogHost} {e : CatalogEvent} {id o : String}

/-- Every held model is in the catalogue, and a `DELETE` past its unload holds off its own. -/
structure Catalogued (s : CatalogHost) : Prop where
  matched : s.host.Matched
  held : ∀ id, s.host.Held id → (s.catalog.get id).isSome = true
  removing : ∀ id, .removing id ∈ s.deletes → ¬ s.host.Held id

/-- The model whose load takes the lock. -/
def committing (s : CatalogHost) : CatalogEvent → Option String
  | .commit k _ _ =>
    match s.loads[k]? with
    | some (.listed model _) => some model.id
    | _ => none
  | _ => none

/-- A load that takes the lock finds its model in the catalogue, with no `DELETE` of it past its
unload. -/
def CommitsCatalogued (s : CatalogHost) (e : CatalogEvent) : Prop :=
  ∀ id ∈ s.committing e, (s.catalog.get id).isSome = true ∧ .removing id ∉ s.deletes

instance : Decidable (CommitsCatalogued s e) := by unfold CommitsCatalogued; infer_instance

theorem catalogued_step (hs : step seeds s e = some s') (hok : CommitsCatalogued s e)
    (hc : Catalogued s) : Catalogued s' := by
  cases step_trans hs with
  | host hb hh =>
    exact ⟨matched_step hh hc.matched, fun id ho => hc.held id (held_background hc.matched hb hh ho),
      fun id hr ho => hc.removing id hr (held_background hc.matched hb hh ho)⟩
  | loads => exact ⟨hc.matched, hc.held, hc.removing⟩
  | @commit k probe save model catalog ls hk =>
    have hok := hok model.id (by simp [committing, hk])
    refine ⟨matched_loadLocked rfl hc.matched, fun id ho => ?_, fun id hr ho => ?_⟩
    · rcases held_loadLocked ho with h1 | rfl
      · exact hc.held id h1
      · exact hok.1
    · rcases held_loadLocked ho with h1 | rfl
      · exact hc.removing id hr h1
      · exact hok.2 hr
  | addModel =>
    exact ⟨hc.matched, fun id ho => Catalog.get_upsert_isSome (hc.held id ho), hc.removing⟩
  | delete =>
    refine ⟨hc.matched, hc.held, fun id hr => hc.removing id ?_⟩
    exact (List.mem_append.mp hr).resolve_right (by simp)
  | deleteFound hk =>
    refine ⟨hc.matched, hc.held, fun id hr => hc.removing id ?_⟩
    exact (Pool.mem_set hk hr).resolve_left (by simp)
  | @deleteUnknown k id hk hget =>
    refine ⟨hc.matched, hc.held, fun o hr ho => ?_⟩
    rcases Pool.mem_set hk hr with h1 | h1
    · -- an unknown model is not held
      have h2 := hc.held o ho
      rw [DeletePhase.removing.inj h1, hget] at h2
      cases h2
    · exact hc.removing o h1 ho
  | @deleteUnload k save id st h hk hu =>
    refine ⟨?_, fun o ho => hc.held o (held_unloadLocked hu ho).1, fun o hr ho => ?_⟩
    · obtain rfl := congrArg Prod.snd hu
      exact unloadLocked_keeps (fun _ _ b s => matched_setResident b s)
        (fun _ _ => matched_requestUnloadLocked) hc.matched
    · obtain ⟨h1, h2⟩ := held_unloadLocked hu ho
      rcases Pool.mem_set hk hr with h3 | h3
      · exact h2 (DeletePhase.removing.inj h3)
      · exact hc.removing o h3 h1
  | deleteFails =>
    exact ⟨hc.matched, hc.held, fun id hr => hc.removing id (List.mem_of_mem_eraseIdx hr)⟩
  | @deleteRemove k id hk =>
    refine ⟨hc.matched, fun o ho => Catalog.get_remove_isSome.mpr ⟨hc.held o ho, ?_⟩,
      fun o hr => hc.removing o (List.mem_of_mem_eraseIdx hr)⟩
    rintro rfl
    exact hc.removing o (Pool.mem_of_getElem? hk) ho

/-! ## Over whole runs -/

/-- **What is loaded or resident is in the catalogue**, in every run whose loads take the lock
while their model is in the catalogue and no `DELETE` of it is past its unload. -/
theorem held_in_catalogue {cat : Catalog} {r : Residency} {es : List CatalogEvent}
    (hres : ∀ id ∈ r.resident, (cat.get id).isSome = true)
    (hr : run (step seeds) ⟨ModelHost.new r, cat, [], []⟩ es = some s)
    (hok : Along (step seeds) CommitsCatalogued ⟨ModelHost.new r, cat, [], []⟩ es) (id : String)
    (hid : s.host.state id = .loaded ∨ id ∈ s.host.residency.resident) :
    (s.catalog.get id).isSome = true := by
  have h0 : Catalogued ⟨ModelHost.new r, cat, [], []⟩ := by
    refine ⟨matched_new r, fun id ho => ho.elim (hres id) fun hw => ?_, fun id hd => by cases hd⟩
    simp [ModelHost.new, Wanted, Entry.new, Lifecycle.new] at hw
  have hc : Catalogued s :=
    along_invariant (fun _ _ _ hI hok hs => catalogued_step hs hok hI) es _ _ h0 hok hr
  exact hc.held id (hid.elim held_of_loaded Or.inl)

/-- A `DELETE` beside nothing: the model is unloaded, not resident and gone. -/
theorem held_in_catalogue_deleted :
    ∃ s, run (step []) ⟨empty, pairCatalog, [], []⟩
        [.load "a", .lookUp 0, .list 0, .commit 0 roomy Saves.ok, .host (.loadEnds 0 (.ok ())),
          .load "b", .lookUp 0, .list 0, .commit 0 roomy Saves.ok, .delete "a", .deleteLookUp 0,
          .deleteUnload 0 Saves.ok, .deleteRemove 0] = some s ∧
      s.catalog.get "a" = none ∧ (s.catalog.get "b").isSome = true := by
  refine exists_run (P := fun s => s.catalog.get "a" = none ∧ "b" ∈ s.host.residency.resident)
    (by decide +kernel) fun s hr hs => ⟨hs.1, ?_⟩
  exact held_in_catalogue (by decide) hr (by decide +kernel) "b" (Or.inr hs.2)

/-- A load that takes the lock after its model was deleted: with nothing in flight the model is
loaded and resident, and not in the catalogue. -/
theorem deleted_model_loads :
    ∃ s, run (step []) ⟨empty, pairCatalog, [], []⟩
        [.load "a", .lookUp 0, .list 0, .delete "a", .deleteLookUp 0, .deleteUnload 0 Saves.ok,
          .deleteRemove 0, .commit 0 roomy Saves.ok, .host (.loadEnds 0 (.ok ()))] = some s ∧
      (s.deletes = [] ∧ s.host.loads = [] ∧ s.host.unloads = []) ∧ s.loads.length = 0 ∧
      s.host.state "a" = .loaded ∧ "a" ∈ s.host.residency.resident ∧ s.catalog.get "a" = none :=
  exists_run (by decide +kernel) fun _ _ hs => hs

end CatalogHost

end StudioWorker
