import StudioWorker.Host.Change

/-!
# Host.Wish — the operator's wish and what becomes of it

The wish is a history variable over the answered requests: a `load` adds its model and takes out
the rest of its exclusive group, an `unload` takes its model out.  The host keeps it twice, in the
residency and in the lifecycle.  `Wanted` is the lifecycle's copy; `Follows` says the three agree.
One request parts them: a `load` answered while its model is unloading is marked resident, and the
unload in flight then leaves the model unloaded.
-/

namespace StudioWorker

open Lib Lib.System

namespace ModelHost

variable {cat : Catalog} {h h' : ModelHost} {e : HostEvent} {o : String} {wish : Finset String}

/-- The wish after an event. -/
def noteWish (cat : Catalog) (wish : Finset String) (h : ModelHost) (e : HostEvent) :
    Finset String :=
  match h.answeredLoad cat e with
  | some id => insert id (wish.filter fun o => o ∉ cat.rivals id)
  | none =>
    match h.answeredUnload cat e with
    | some id => wish.erase id
    | none => wish

/-- The lifecycle's copy of the wish: loaded, or loading with no unload to follow. -/
def Wanted (l : Lifecycle) : Prop :=
  l.state = .loaded ∨ (l.state = .loading ∧ l.unloadPending = false)

/-- Every save the event makes and every load it ends succeeds. -/
def Succeeds : HostEvent → Prop
  | .loadEnds _ result => result = .ok ()
  | e => SavesOk e

/-- The event answers no `load` of a model that is unloading. -/
def AnswersSettled (cat : Catalog) (h : ModelHost) (e : HostEvent) : Prop :=
  ∀ id, h.answeredLoad cat e = some id → h.state id ≠ .unloading

instance : Decidable (AnswersSettled cat h e) :=
  inferInstanceAs (Decidable (∀ id, id ∈ h.answeredLoad cat e → h.state id ≠ .unloading))

/-! ## What requests do to the lifecycle's copy -/

theorem wanted_requestUnload (l : Lifecycle) : ¬ Wanted l.requestUnload.1 := by
  obtain ⟨s, p⟩ := l
  cases s <;> simp [Wanted, Lifecycle.requestUnload]

/-- A `load` request is recorded, unless the model is unloading. -/
theorem wanted_requestLoad {l : Lifecycle} (hp : l.unloadPending = true → l.state = .loading)
    (hu : l.state ≠ .unloading) : Wanted l.requestLoad.1 := by
  obtain ⟨s, p⟩ := l
  cases s with
  | unloaded => exact Or.inr ⟨rfl, by simpa [Lifecycle.requestLoad] using hp⟩
  | loading => exact Or.inr ⟨rfl, rfl⟩
  | loaded => exact Or.inl rfl
  | unloading => exact absurd rfl hu
  | failed reason => exact Or.inr ⟨rfl, by simpa [Lifecycle.requestLoad] using hp⟩

theorem Wanted.swappable {l : Lifecycle} (hw : Wanted l) : l.state.swappable = true := by
  rcases hw with h1 | ⟨h1, -⟩ <;> rw [h1] <;> rfl

theorem requestLoad_ne_failed {l : Lifecycle} {reason : String} :
    l.requestLoad.1.state ≠ .failed reason := by
  obtain ⟨s, p⟩ := l
  cases s <;> simp [Lifecycle.requestLoad]

theorem requestUnload_ne_failed {l : Lifecycle} {reason : String} :
    l.requestUnload.1.state ≠ .failed reason := by
  obtain ⟨s, p⟩ := l
  cases s <;> simp [Lifecycle.requestUnload]

/-! ## The three agree -/

/-- Residency, wish and lifecycle of `o` agree, and no load of it has failed. -/
structure FollowsAt (h : ModelHost) (wish : Finset String) (o : String) : Prop where
  resident : o ∈ h.residency.resident ↔ o ∈ wish
  wanted : o ∈ wish ↔ Wanted (h.entries o).lifecycle
  noFailure : ∀ reason, h.state o ≠ .failed reason

def Follows (h : ModelHost) (wish : Finset String) : Prop := ∀ o, h.FollowsAt wish o

theorem noteWish_of_none (ha : h.answeredLoad cat e = none) (hu : h.answeredUnload cat e = none) :
    noteWish cat wish h e = wish := by
  simp only [noteWish, ha, hu]

theorem FollowsAt.congr (hf : h.FollowsAt wish o) (hent : h'.entries o = h.entries o)
    (hr : h'.residency = h.residency) : h'.FollowsAt wish o := by
  refine ⟨?_, ?_, ?_⟩
  · rw [hr]
    exact hf.resident
  · rw [hent]
    exact hf.wanted
  · unfold state
    rw [hent]
    exact hf.noFailure

/-- An answered `load` of `id` puts it among the wished for and takes out its rivals, in all three
places. -/
theorem FollowsAt.load {id : String} {model : CatalogModel} (hf : h.FollowsAt wish o)
    (hget : cat.get id = some model) (hpend : (h.entries o).lifecycle.unloadPending = true →
      (h.entries o).lifecycle.state = .loading)
    (hset : h.state id ≠ .unloading)
    (hres : ∀ o, o ∈ h'.residency.resident ↔
      o = id ∨ (o ∈ h.residency.resident ∧ o ∉ h.swapOut model cat.models id))
    (hlc : ∀ o, (h'.entries o).lifecycle =
      if o = id then (h.entries o).lifecycle.requestLoad.1
      else if o ∈ h.swapOut model cat.models id then (h.entries o).lifecycle.requestUnload.1
      else (h.entries o).lifecycle) :
    h'.FollowsAt (insert id (wish.filter fun o => o ∉ cat.rivals id)) o := by
  have hmem : o ∈ insert id (wish.filter fun o => o ∉ cat.rivals id) ↔
      o = id ∨ (o ∈ wish ∧ o ∉ cat.rivals id) := by
    rw [Finset.mem_insert, Finset.mem_filter]
  -- a rival in the wish is loading or loaded, so the swap takes it out
  have hout : o ∈ wish → (o ∈ h.swapOut model cat.models id ↔ o ∈ cat.rivals id) := by
    intro hw
    rw [mem_swapOut_iff hget]
    exact and_iff_left (hf.wanted.mp hw).swappable
  refine ⟨?_, ?_, fun reason => ?_⟩
  · rw [hres, hmem, hf.resident]
    by_cases ho : o ∈ wish
    · rw [hout ho]
    · simp [ho]
  · rw [hmem, hlc]
    by_cases hoid : o = id
    · rw [if_pos hoid]
      have hne : (h.entries o).lifecycle.state ≠ .unloading := by
        rw [hoid]
        exact hset
      exact iff_of_true (Or.inl hoid) (wanted_requestLoad hpend hne)
    · rw [if_neg hoid]
      by_cases hos : o ∈ h.swapOut model cat.models id
      · rw [if_pos hos]
        refine iff_of_false ?_ (wanted_requestUnload _)
        rintro (h1 | ⟨-, h1⟩)
        · exact hoid h1
        · exact h1 ((mem_swapOut_iff hget).mp hos).1
      · rw [if_neg hos, ← hf.wanted]
        refine ⟨fun h1 => (h1.resolve_left hoid).1, fun h1 => Or.inr ⟨h1, ?_⟩⟩
        exact fun h2 => hos ((hout h1).mpr h2)
  · unfold state
    rw [hlc]
    split_ifs
    · exact requestLoad_ne_failed
    · exact requestUnload_ne_failed
    · exact hf.noFailure reason

/-- An answered `unload` of `id` takes it out in all three places. -/
theorem FollowsAt.unload {id : String} (hf : h.FollowsAt wish o)
    (hres : ∀ o, o ∈ h'.residency.resident ↔ o ∈ h.residency.resident ∧ o ≠ id)
    (hlc : ∀ o, (h'.entries o).lifecycle =
      if o = id then (h.entries o).lifecycle.requestUnload.1 else (h.entries o).lifecycle) :
    h'.FollowsAt (wish.erase id) o := by
  refine ⟨?_, ?_, fun reason => ?_⟩
  · rw [hres, Finset.mem_erase, hf.resident, and_comm]
  · rw [Finset.mem_erase, hlc]
    by_cases ho : o = id
    · rw [if_pos ho]
      exact iff_of_false (fun h1 => h1.1 ho) (wanted_requestUnload _)
    · rw [if_neg ho, ← hf.wanted]
      exact and_iff_right ho
  · unfold state
    rw [hlc]
    split_ifs
    · exact requestUnload_ne_failed
    · exact hf.noFailure reason

/-- A load that ends well does not change what is wanted. -/
theorem FollowsAt.loadEnds {m : Loaded} (hf : h.FollowsAt wish o) (hst : h.state o = .loading)
    (hent : h'.entries o = loadedEntry (h.entries o).lifecycle m (.ok ()))
    (hr : h'.residency = h.residency) : h'.FollowsAt wish o := by
  have hst : (h.entries o).lifecycle.state = .loading := hst
  refine ⟨?_, ?_, fun reason => ?_⟩
  · rw [hr]
    exact hf.resident
  · rw [hf.wanted, hent]
    cases hp : (h.entries o).lifecycle.unloadPending <;> simp [Wanted, loadedEntry, hst, hp]
  · unfold state
    rw [hent]
    cases hp : (h.entries o).lifecycle.unloadPending <;> simp [loadedEntry, hp]

/-- The end of an unload does not change what is wanted. -/
theorem FollowsAt.unloadEnds {p : Bool} (hf : h.FollowsAt wish o) (hst : h.state o = .unloading)
    (hent : h'.entries o = ⟨⟨.unloaded, p⟩, none⟩) (hr : h'.residency = h.residency) :
    h'.FollowsAt wish o := by
  have hst : (h.entries o).lifecycle.state = .unloading := hst
  refine ⟨?_, ?_, fun reason => ?_⟩
  · rw [hr]
    exact hf.resident
  · rw [hf.wanted, hent]
    simp [Wanted, hst]
  · unfold state
    rw [hent]
    simp

theorem follows_step (hm : h.Matched) (hs : step cat h e = some h') (hsucc : Succeeds e)
    (hset : AnswersSettled cat h e) (hf : h.Follows wish) :
    h'.Follows (noteWish cat wish h e) := by
  intro o
  cases step_change hm hs with
  | quiet ha hu hent hr =>
    rw [noteWish_of_none ha hu]
    exact (hf o).congr (by rw [hent]) hr
  | loadFails hc ha hu hl _ _ =>
    have hsave : SavesOk e := by
      cases e with
      | loadEnds k result => trivial
      | _ => exact hsucc
    obtain ⟨hent, hr⟩ := loadFails_quiet hsave hc hl
    rw [noteWish_of_none ha hu]
    exact (hf o).congr (by rw [hent]) hr
  | @load c model hc ha _ hget _ _ hr hlc _ =>
    have hw : noteWish cat wish h e =
        insert c.id (wish.filter fun o => o ∉ cat.rivals c.id) := by
      simp only [noteWish, ha]
    rw [hw]
    exact (hf o).load hget (hm o).pending (hset c.id ha) hr hlc
  | @unload id ha hu hr hlc _ =>
    have hw : noteWish cat wish h e = wish.erase id := by simp only [noteWish, ha, hu]
    rw [hw]
    exact (hf o).unload hr hlc
  | @loadEnds k t result he ha hu hst hent hr =>
    rw [noteWish_of_none ha hu]
    subst he
    obtain rfl : result = .ok () := hsucc
    by_cases ho : o = t.model.id
    · subst ho
      exact (hf _).loadEnds hst (by rw [hent, Function.update_self]) hr
    · exact (hf o).congr (by rw [hent, Function.update_of_ne ho]) hr
  | @unloadEnds id ha hu hst hent hr =>
    rw [noteWish_of_none ha hu]
    by_cases ho : o = id
    · subst ho
      exact (hf o).unloadEnds hst (by rw [hent, Function.update_self]) hr
    · exact (hf o).congr (by rw [hent, Function.update_of_ne ho]) hr

/-- With nothing in flight a model is loaded when it is wanted and unloaded otherwise. -/
theorem FollowsAt.settled (hm : h.MatchedAt o) (hf : h.FollowsAt wish o) (hl : h.loads = [])
    (hu : h.unloads = []) : h.state o = if o ∈ wish then .loaded else .unloaded := by
  have h1 : h.state o ≠ .loading := by
    intro hst
    have := hm.loads
    rw [if_pos hst, loadsOf, hl] at this
    cases this
  have h2 : h.state o ≠ .unloading := by
    intro hst
    have := hm.unloads
    rw [if_pos hst, unloadsOf, hu] at this
    cases this
  split_ifs with ho
  · exact (hf.wanted.mp ho).resolve_right fun hh => h1 hh.1
  · have h3 : h.state o ≠ .loaded := fun hh => ho (hf.wanted.mpr (Or.inl hh))
    cases hst : h.state o with
    | unloaded => rfl
    | loading => exact absurd hst h1
    | loaded => exact absurd hst h3
    | unloading => exact absurd hst h2
    | failed reason => exact absurd hst (hf.noFailure reason)

/-! ## Over whole runs -/

/-- **The last answered request wins.**  From a host with nothing loaded and nothing resident, in
a run whose saves and loads succeed and which answers no `load` of a model that is unloading: with
no background work in flight, a model is resident exactly when it is wished for, loaded when it is
and unloaded otherwise. -/
theorem settled_as_wished {r : Residency} {es : List HostEvent} (hr0 : r.resident = ∅)
    (hr : run (noting (step cat) (noteWish cat)) (ModelHost.new r, ∅) es = some (h, wish))
    (hok : Along (step cat) (fun h e => Succeeds e ∧ AnswersSettled cat h e)
      (ModelHost.new r) es)
    (hl : h.loads = []) (hu : h.unloads = []) (o : String) :
    (o ∈ h.residency.resident ↔ o ∈ wish) ∧
      h.state o = if o ∈ wish then .loaded else .unloaded := by
  have h0 : (ModelHost.new r).Follows ∅ := fun o =>
    ⟨by simp [ModelHost.new, hr0], by simp [ModelHost.new, Wanted, Entry.new, Lifecycle.new],
      by simp [ModelHost.new, state, Entry.new, Lifecycle.new]⟩
  obtain ⟨hm, hf⟩ := along_invariant
    (I := fun s : ModelHost × Finset String => s.1.Matched ∧ s.1.Follows s.2)
    (fun s e t hI hok hs => by
      obtain ⟨h1, h2⟩ := noting_some.mp hs
      exact ⟨matched_step h1 hI.1, h2 ▸ follows_step hI.1 h1 hok.1 hok.2 hI.2⟩)
    es _ _ ⟨matched_new r, h0⟩ hok.noting hr
  exact ⟨(hf o).resident, (hf o).settled (hm o) hl hu⟩

/-- A swap and its unload, both run to their ends: `b` is loaded and `a` unloaded. -/
theorem settled_as_wished_swap :
    ∃ s, run (noting (step pairCatalog) (noteWish pairCatalog)) (empty, ∅)
        [.load "a" roomy Saves.ok, .loadEnds 0 (.ok ()), .load "b" roomy Saves.ok,
          .cancelLane 0, .obtainLane 0, .dropLane 0, .unloadEnds 0, .waitEnds 0,
          .loadEnds 0 (.ok ())] = some s ∧
      (s.1.state "a" = .unloaded ∧ s.1.state "b" = .loaded) ∧ s.2 = {"b"} := by
  refine exists_run (P := fun s => s.1.loads = [] ∧ s.1.unloads = [] ∧ s.2 = {"b"})
    (by decide +kernel) fun s hr hs => ⟨?_, hs.2.2⟩
  have hok : ∀ e ∈ [HostEvent.load "a" roomy Saves.ok, .loadEnds 0 (.ok ()),
      .load "b" roomy Saves.ok, .cancelLane 0, .obtainLane 0, .dropLane 0, .unloadEnds 0,
      .waitEnds 0, .loadEnds 0 (.ok ())], Succeeds e := by
    simp [Succeeds, SavesOk]
  have h1 := settled_as_wished rfl hr ((along_of_forall hok).and (by decide +kernel)) hs.1 hs.2.1
  rw [hs.2.2] at h1
  exact ⟨(h1 "a").2, (h1 "b").2⟩

/-- A `load` answered while its model is unloading: resident and wished for, yet unloaded with
nothing in flight. -/
theorem load_forgotten :
    ∃ s, run (noting (step pairCatalog) (noteWish pairCatalog)) (empty, ∅)
        [.load "a" roomy Saves.ok, .loadEnds 0 (.ok ()), .unload "a" Saves.ok,
          .load "a" roomy Saves.ok, .cancelLane 0, .obtainLane 0, .dropLane 0,
          .unloadEnds 0] = some s ∧
      s.1.loads = [] ∧ s.1.unloads = [] ∧ "a" ∈ s.2 ∧ "a" ∈ s.1.residency.resident ∧
      s.1.state "a" = .unloaded :=
  exists_run (by decide +kernel) fun _ _ hs => hs

end ModelHost

end StudioWorker
