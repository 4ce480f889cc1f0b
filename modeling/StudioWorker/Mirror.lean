import Mathlib.Algebra.Order.Ring.Rat
import StudioWorker.Catalog
import StudioWorker.Lib.Pool
import StudioWorker.Lib.System

/-!
# Mirror — the catalogue file beside mirrored offers

`POST /models` and `DELETE /models/:id` change the catalogue and save it under one lock.  The
mirroring of a studio offer changes it under the lock, takes the lock again to copy it, and saves
the copy outside the lock; so a copy may reach the file after a newer catalogue did.

* `CatalogStore.step`: one lock section or one save.
* `file_eq_catalog`: what the file holds once every call has returned, when no copy is saved over
  a newer catalogue for good.
-/

namespace StudioWorker

open Lib Lib.System

/-- A `sync_studio_model` call in flight: called, past its change, or with its copy to save. -/
inductive MirrorPhase where
  | called (incoming : CatalogModel)
  | changed
  | saving (snapshot : Catalog)
deriving DecidableEq

/-- The catalogue in memory and in its file.  `held` is a route between its change and its save,
with the lock. -/
structure CatalogStore where
  catalog : Catalog
  file : Catalog
  held : Bool
  mirrors : List MirrorPhase
deriving DecidableEq

inductive StoreEvent where
  /-- `POST /models` takes the lock and upserts. -/
  | addModel (model : CatalogModel)
  /-- `DELETE /models/:id`, past its unload, takes the lock and removes. -/
  | deleteModel (id : String)
  /-- The route that has the lock saves the catalogue and releases it. -/
  | persist
  /-- `sync_studio_model` is called for an offer. -/
  | offer (modelId : String) (kind : TaskKind) (source : ModelSource)
  /-- The `k`-th mirror takes the lock and changes the catalogue, or returns. -/
  | sync (k : ℕ)
  /-- The `k`-th mirror takes the lock and copies the catalogue. -/
  | snapshot (k : ℕ)
  /-- The `k`-th mirror's copy replaces the file, and it returns. -/
  | save (k : ℕ)

namespace CatalogStore

/-- The worker as start-up leaves it, with the catalogue read from its file. -/
def start (c : Catalog) : CatalogStore := ⟨c, c, false, []⟩

/-- One lock section or one save, with the ids the worker ships seeded with. -/
def step (seeds : List String) : System CatalogStore StoreEvent
  | s, .addModel model =>
    if s.held then none else some { s with catalog := s.catalog.upsert model, held := true }
  | s, .deleteModel id =>
    if s.held then none else some { s with catalog := (s.catalog.remove seeds id).1, held := true }
  | s, .persist => if s.held then some { s with file := s.catalog, held := false } else none
  | s, .offer modelId kind source =>
    some { s with mirrors := s.mirrors ++ [.called (Catalog.mirrored modelId kind source)] }
  | s, .sync k =>
    match s.mirrors[k]? with
    | some (.called incoming) =>
      if s.held then none
      else if (s.catalog.syncStudioModel incoming).2 then
        some { s with
          catalog := (s.catalog.syncStudioModel incoming).1
          mirrors := s.mirrors.set k .changed }
      else some { s with mirrors := s.mirrors.eraseIdx k }
    | _ => none
  | s, .snapshot k =>
    match s.mirrors[k]? with
    | some .changed =>
      if s.held then none else some { s with mirrors := s.mirrors.set k (.saving s.catalog) }
    | _ => none
  | s, .save k =>
    match s.mirrors[k]? with
    | some (.saving snapshot) =>
      some { s with file := snapshot, mirrors := s.mirrors.eraseIdx k }
    | _ => none

/-- Every call has returned. -/
def Returned (s : CatalogStore) : Prop := s.held = false ∧ s.mirrors = []

instance (s : CatalogStore) : Decidable s.Returned :=
  inferInstanceAs (Decidable (_ ∧ _))

/-- A call among `mirrors` that has yet to save the catalogue as it now is. -/
def WillSave (s : CatalogStore) (mirrors : List MirrorPhase) : Prop :=
  s.held = true ∨ ∃ p ∈ mirrors, p = .changed ∨ p = .saving s.catalog

instance (s : CatalogStore) (mirrors : List MirrorPhase) : Decidable (s.WillSave mirrors) :=
  inferInstanceAs (Decidable (_ ∨ _))

/-- The copy that the `k`-th mirror is about to save. -/
def copyOf (s : CatalogStore) (k : ℕ) : Option Catalog :=
  match s.mirrors[k]? with
  | some (.saving snapshot) => some snapshot
  | _ => none

/-- No copy replaces the file once the catalogue has changed since it was taken, unless another
call has yet to save the catalogue as it now is. -/
def NoStaleSave (s : CatalogStore) : StoreEvent → Prop
  | .save k => ∀ c ∈ s.copyOf k, c = s.catalog ∨ s.WillSave (s.mirrors.eraseIdx k)
  | _ => True

instance (s : CatalogStore) : ∀ e, Decidable (s.NoStaleSave e)
  | .save _ => inferInstanceAs (Decidable (∀ c ∈ _, _ ∨ _))
  | .addModel _ | .deleteModel _ | .persist | .offer _ _ _ | .sync _ | .snapshot _ => isTrue trivial

/-- The file holds the catalogue, or a call is about to see to it. -/
def Settling (s : CatalogStore) : Prop := s.file = s.catalog ∨ s.WillSave s.mirrors

variable {seeds : List String} {s t : CatalogStore} {e : StoreEvent}

/-- A copy of a changed catalogue is still to be taken, so whatever the file holds now does not
matter. -/
theorem settling_of_mem {p : MirrorPhase} (hp : p ∈ s.mirrors)
    (h : p = .changed ∨ p = .saving s.catalog) : s.Settling :=
  .inr (.inr ⟨p, hp, h⟩)

/-- A mirror's step that leaves memory and file alone settles as before, when the mirror was not
among those that will save, or still is. -/
theorem Settling.mirrors {mirrors : List MirrorPhase} (h : s.Settling)
    (hkeep : ∀ p ∈ s.mirrors, p = .changed ∨ p = .saving s.catalog →
      ∃ q ∈ mirrors, q = .changed ∨ q = .saving s.catalog) :
    Settling { s with mirrors := mirrors } := by
  rcases h with h | h | ⟨p, hp, hs⟩
  · exact .inl h
  · exact .inr (.inl h)
  · exact .inr (.inr (hkeep p hp hs))

/-- One step keeps the file in hand. -/
theorem settling_step (hi : s.Settling) (hok : s.NoStaleSave e) (hs : step seeds s e = some t) :
    t.Settling := by
  cases e with
  | addModel model =>
    rw [step] at hs
    split_ifs at hs
    cases hs
    exact .inr (.inl rfl)
  | deleteModel id =>
    rw [step] at hs
    split_ifs at hs
    cases hs
    exact .inr (.inl rfl)
  | persist =>
    rw [step] at hs
    split_ifs at hs
    cases hs
    exact .inl rfl
  | offer modelId kind source =>
    cases hs
    exact hi.mirrors fun p hp h => ⟨p, List.mem_append_left _ hp, h⟩
  | sync k =>
    cases hk : s.mirrors[k]? with
    | none =>
      rw [step, hk] at hs
      cases hs
    | some p =>
      obtain ⟨l₁, l₂, h1, h2, h3⟩ := Pool.split_getElem? hk
      cases p with
      | called incoming =>
        simp only [step, hk] at hs
        split_ifs at hs
        · cases hs
          refine settling_of_mem (p := .changed) ?_ (.inl rfl)
          show _ ∈ s.mirrors.set k .changed
          rw [h3]
          exact List.mem_append_right _ List.mem_cons_self
        · cases hs
          refine hi.mirrors fun q hq h => ⟨q, ?_, h⟩
          rw [h1, List.mem_append, List.mem_cons] at hq
          rw [h2, List.mem_append]
          rcases hq with hq | rfl | hq
          · exact .inl hq
          · rcases h with h | h <;> cases h
          · exact .inr hq
      | changed => simp [step, hk] at hs
      | saving c => simp [step, hk] at hs
  | snapshot k =>
    cases hk : s.mirrors[k]? with
    | none => simp [step, hk] at hs
    | some p =>
      obtain ⟨l₁, l₂, h1, -, h3⟩ := Pool.split_getElem? hk
      cases p with
      | changed =>
        simp only [step, hk] at hs
        split_ifs at hs
        cases hs
        refine settling_of_mem (p := .saving s.catalog) ?_ (.inr rfl)
        show _ ∈ s.mirrors.set k (.saving s.catalog)
        rw [h3]
        exact List.mem_append_right _ List.mem_cons_self
      | called incoming => simp [step, hk] at hs
      | saving c => simp [step, hk] at hs
  | save k =>
    cases hk : s.mirrors[k]? with
    | none => simp [step, hk] at hs
    | some p =>
      cases p with
      | saving c =>
        simp only [step, hk] at hs
        cases hs
        have hcopy : s.copyOf k = some c := by
          rw [copyOf, hk]
        rcases hok c hcopy with rfl | h
        · exact .inl rfl
        · exact .inr h
      | called incoming => simp [step, hk] at hs
      | changed => simp [step, hk] at hs

/-- In every run in which no stale copy is saved for good, the file holds the catalogue whenever
every call has returned. -/
theorem file_eq_catalog (seeds : List String) (c : Catalog) {es : List StoreEvent}
    (hr : run (step seeds) (start c) es = some s)
    (hok : Along (step seeds) NoStaleSave (start c) es) (hq : s.Returned) :
    s.file = s.catalog := by
  have hsettling := along_invariant (I := Settling) (fun _ _ _ hi ho hs => settling_step hi ho hs)
    es (start c) s (.inl rfl) hok hr
  obtain ⟨hheld, hmirrors⟩ := hq
  rcases hsettling with h | h | ⟨p, hp, -⟩
  · exact h
  · rw [hheld] at h
    cases h
  · rw [hmirrors] at hp
    cases hp

/-- A model as the operator adds it. -/
def added (id : String) : CatalogModel :=
  ⟨id, id, .llm, 1, none, ⟨.llamaCpp, [], {}⟩, true, "local", none⟩

/-- An offer is mirrored beside an added and a deleted model, its copy saved before either. -/
theorem file_eq_catalog_beside :
    ∃ s, run (step ["seed"]) (start ⟨[added "seed"], []⟩)
        [.offer "m" .llm ⟨.llamaCpp, [], {}⟩, .sync 0, .snapshot 0, .save 0, .addModel (added "n"),
          .persist, .deleteModel "seed", .persist] = some s ∧ s.file = s.catalog := by
  refine exists_run (P := fun s => s.Returned) (by decide) fun s hr hq => ?_
  exact file_eq_catalog ["seed"] _ hr (by decide) hq

/-- The operator adds a model between the mirror's copy and its save. -/
theorem stale_copy_undoes_add :
    ¬ ∀ (seeds : List String) (c : Catalog) (es : List StoreEvent) (s : CatalogStore),
      run (step seeds) (start c) es = some s → s.Returned → s.file = s.catalog := by
  intro h
  have hbad : ∃ s, run (step []) (start ⟨[], []⟩)
      [.offer "m" .llm ⟨.llamaCpp, [], {}⟩, .sync 0, .snapshot 0, .addModel (added "n"), .persist,
        .save 0] = some s ∧ s.Returned ∧ s.file ≠ s.catalog :=
    exists_run (P := fun s => s.Returned ∧ s.file ≠ s.catalog) (by decide)
      fun _ _ hs => hs
  obtain ⟨s, hr, hq, hne⟩ := hbad
  exact hne (h [] _ _ s hr hq)

end CatalogStore

end StudioWorker
