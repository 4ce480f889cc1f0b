import StudioWorker.Host.Step

/-!
# Host.Invariant — the lifecycle and the threads in flight agree

`Matched`: for every model, exactly one background load is in flight while it is loading and none
otherwise, exactly one background unload while it is unloading and none otherwise, and the entry
holds weights exactly while it is loaded or unloading.  Every primitive change of the host keeps it,
so every event does, so every run does.
-/

namespace StudioWorker

open Lib Lib.System

namespace ModelHost

/-! ## The invariant -/

/-- The background loads of `id` in flight. -/
def loadsOf (h : ModelHost) (id : String) : ℕ := h.loads.countP fun t => t.model.id = id

/-- The background unloads of `id` in flight. -/
def unloadsOf (h : ModelHost) (id : String) : ℕ := h.unloads.countP fun t => t.id = id

/-- The lifecycle of `id`, its weights and its threads agree. -/
structure MatchedAt (h : ModelHost) (id : String) : Prop where
  loads : h.loadsOf id = if h.state id = .loading then 1 else 0
  unloads : h.unloadsOf id = if h.state id = .unloading then 1 else 0
  loaded : (h.entries id).loaded.isSome = true ↔ h.state id = .loaded ∨ h.state id = .unloading
  pending : (h.entries id).lifecycle.unloadPending = true → h.state id = .loading

def Matched (h : ModelHost) : Prop := ∀ id, h.MatchedAt id

variable {h h' : ModelHost} {id o : String}

theorem matched_new (r : Residency) : (ModelHost.new r).Matched := fun id =>
  ⟨rfl, rfl, by simp [ModelHost.new, Entry.new, state, Lifecycle.new], by
    simp [ModelHost.new, Entry.new, Lifecycle.new]⟩

/-- What `MatchedAt` reads of the host is all it depends on. -/
theorem MatchedAt.congr (hm : h.MatchedAt id) (he : h'.entries id = h.entries id)
    (hl : h'.loadsOf id = h.loadsOf id) (hu : h'.unloadsOf id = h.unloadsOf id) :
    h'.MatchedAt id := by
  have hs : h'.state id = h.state id := by unfold state; rw [he]
  exact ⟨by rw [hl, hs]; exact hm.loads, by rw [hu, hs]; exact hm.unloads,
    by rw [he, hs]; exact hm.loaded, by rw [he, hs]; exact hm.pending⟩

/-- A background load in flight is a model that is loading. -/
theorem Matched.loading_of_mem (hm : h.Matched) {t : LoadThread} (ht : t ∈ h.loads) :
    h.state t.model.id = .loading := by
  by_contra hne
  have h1 := (hm t.model.id).loads
  rw [if_neg hne] at h1
  exact absurd (List.countP_eq_zero.mp h1 t ht) (by simp)

/-- A background unload in flight is a model that is unloading. -/
theorem Matched.unloading_of_mem (hm : h.Matched) {t : UnloadThread} (ht : t ∈ h.unloads) :
    h.state t.id = .unloading := by
  by_contra hne
  have h1 := (hm t.id).unloads
  rw [if_neg hne] at h1
  exact absurd (List.countP_eq_zero.mp h1 t ht) (by simp)

/-! ## The primitive changes keep it -/

theorem matched_setResident (b : Bool) (save : Except String Unit) (hm : h.Matched) :
    (h.setResident o b save).2.Matched := fun i => (hm i).congr rfl rfl rfl

theorem matched_requestUnloadLocked (hm : h.Matched) : (h.requestUnloadLocked o).Matched := by
  intro i
  have hl : (h.requestUnloadLocked o).loadsOf i = h.loadsOf i := by
    unfold loadsOf; rw [requestUnloadLocked_loads]
  have hu : (h.requestUnloadLocked o).unloadsOf i =
      h.unloadsOf i + if h.state o = .loaded ∧ o = i then 1 else 0 := by
    unfold unloadsOf
    rw [requestUnloadLocked_unloads, List.countP_append]
    by_cases hs : h.state o = .loaded
    · simp [hs, List.countP_cons]
    · simp [hs]
  by_cases hi : i = o
  · subst hi
    obtain ⟨h1, h2, h3, h4⟩ := hm i
    have hs : (h.requestUnloadLocked i).state i = (h.state i).afterUnloadRequest := by
      rw [requestUnloadLocked_state, if_pos rfl]
    have hp : ((h.requestUnloadLocked i).entries i).lifecycle.unloadPending = true →
        h.state i = .loading := by
      rw [requestUnloadLocked_lifecycle, if_pos rfl]
      exact fun hp => (Lifecycle.requestUnload_pending hp).elim (fun hh => hh) h4
    refine ⟨?_, ?_, ?_, fun hh => ?_⟩
    · rw [hl, h1, hs]
      cases h.state i <;> simp [ModelState.afterUnloadRequest]
    · rw [hu, h2, hs]
      cases h.state i <;> simp [ModelState.afterUnloadRequest]
    · rw [requestUnloadLocked_loaded, h3, hs]
      cases h.state i <;> simp [ModelState.afterUnloadRequest]
    · rw [hs, hp hh]
      rfl
  · refine (hm i).congr ?_ hl ?_
    · rw [requestUnloadLocked_entries, Function.update_of_ne hi]
    · rw [hu, if_neg (fun hh => hi hh.2.symm), Nat.add_zero]

theorem matched_requestLoadLocked {model : CatalogModel} {out : List String} (hid : model.id = o)
    (hm : h.Matched) : (h.requestLoadLocked model out o).Matched := by
  intro i
  have hl : (h.requestLoadLocked model out o).loadsOf i =
      h.loadsOf i + if (h.state o).idle = true ∧ o = i then 1 else 0 := by
    unfold loadsOf
    rw [requestLoadLocked_loads, List.countP_append]
    by_cases hs : (h.state o).idle = true
    · simp [hs, hid, List.countP_cons]
    · simp [hs]
  have hu : (h.requestLoadLocked model out o).unloadsOf i = h.unloadsOf i := by
    unfold unloadsOf; rw [requestLoadLocked_unloads]
  by_cases hi : i = o
  · subst hi
    obtain ⟨h1, h2, h3, h4⟩ := hm i
    have hs : (h.requestLoadLocked model out i).state i = (h.state i).afterLoadRequest := by
      rw [requestLoadLocked_state, if_pos rfl]
    refine ⟨?_, ?_, ?_, fun hp => ?_⟩
    · rw [hl, h1, hs]
      cases h.state i <;> simp [ModelState.afterLoadRequest, ModelState.idle]
    · rw [hu, h2, hs]
      cases h.state i <;> simp [ModelState.afterLoadRequest]
    · rw [requestLoadLocked_loaded, h3, hs]
      cases h.state i <;> simp [ModelState.afterLoadRequest]
    · rw [requestLoadLocked_lifecycle, if_pos rfl] at hp
      obtain ⟨h5, h6⟩ := Lifecycle.requestLoad_pending hp
      exact absurd (h4 h5) h6
  · refine (hm i).congr ?_ ?_ hu
    · rw [requestLoadLocked_entries, Function.update_of_ne hi]
    · rw [hl, if_neg (fun hh => hi hh.2.symm), Nat.add_zero]

theorem matched_loadLocked {catalog : List CatalogModel} {probe : Probe} {save : Saves}
    {model : CatalogModel} (hid : model.id = id) (hm : h.Matched) :
    (h.loadLocked model catalog probe save id).2.Matched :=
  loadLocked_keeps (fun _ _ b s _ => matched_setResident b s)
    (fun _ _ => matched_requestUnloadLocked)
    (fun _ _ => matched_requestLoadLocked hid) hm

/-! ## The ends of background work keep it -/

theorem Matched.loading_of_getElem? (hm : h.Matched) {k : ℕ} {t : LoadThread}
    (hk : h.loads[k]? = some t) : h.state t.model.id = .loading :=
  hm.loading_of_mem (Pool.mem_of_getElem? hk)

theorem matched_finishLoad {k : ℕ} {t : LoadThread} {result : Except String Unit}
    (hk : h.loads[k]? = some t) (hm : h.Matched) :
    ({ h with loads := h.loads.eraseIdx k }.finishLoad t.model result).Matched := by
  have hs := hm.loading_of_getElem? hk
  set g := { h with loads := h.loads.eraseIdx k } with hg
  have hsg : g.state t.model.id = .loading := hs
  have hent := finishLoad_entries result hsg
  have hun := finishLoad_unloads result hsg
  intro i
  have hl : h.loadsOf i = (g.finishLoad t.model result).loadsOf i +
      if t.model.id = i then 1 else 0 := by
    unfold loadsOf
    rw [finishLoad_loads, Pool.countP_eraseIdx hk]
    simp [hg]
  have hu : (g.finishLoad t.model result).unloadsOf i = h.unloadsOf i +
      (pendingUnload (h.entries t.model.id).lifecycle t.model.id h.nextLane result).countP
        fun u => u.id = i := by
    unfold unloadsOf
    rw [hun, List.countP_append]
  by_cases hi : t.model.id = i
  · subst hi
    obtain ⟨h1, h2, -, -⟩ := hm t.model.id
    rw [h1, hs, if_pos rfl, if_pos rfl] at hl
    rw [h2, hs, if_neg (by simp)] at hu
    have hE : (g.finishLoad t.model result).entries t.model.id =
        loadedEntry (h.entries t.model.id).lifecycle ⟨t.model, h.nextLane⟩ result := by
      rw [hent, Function.update_self]
    have hS : (g.finishLoad t.model result).state t.model.id =
        (loadedEntry (h.entries t.model.id).lifecycle ⟨t.model, h.nextLane⟩ result).lifecycle.state :=
      by unfold state; rw [hE]
    refine ⟨?_, ?_, ?_, ?_⟩
    all_goals rw [hS]
    · have h0 : (g.finishLoad t.model result).loadsOf t.model.id = 0 := by omega
      rw [h0]
      cases result with
      | error reason => simp [loadedEntry]
      | ok u =>
        cases hp : (h.entries t.model.id).lifecycle.unloadPending <;> simp [loadedEntry, hp]
    · rw [hu]
      cases result with
      | error reason => simp [loadedEntry, pendingUnload]
      | ok u =>
        cases hp : (h.entries t.model.id).lifecycle.unloadPending <;>
          simp [loadedEntry, pendingUnload, hp]
    · rw [hE]
      cases result with
      | error reason => simp [loadedEntry]
      | ok u =>
        cases hp : (h.entries t.model.id).lifecycle.unloadPending <;> simp [loadedEntry, hp]
    · rw [hE]
      cases result <;> simp [loadedEntry]
  · refine (hm i).congr ?_ ?_ ?_
    · rw [hent, Function.update_of_ne (Ne.symm hi)]
    · rw [if_neg hi] at hl
      exact hl.symm
    · rw [hu]
      cases result with
      | error reason => rfl
      | ok u => simp only [pendingUnload]; split_ifs <;> simp [hi]

theorem matched_finishUnload {k : ℕ} {t : UnloadThread} (hk : h.unloads[k]? = some t)
    (hm : h.Matched) :
    ({ h with unloads := h.unloads.eraseIdx k }.finishUnload t.id).Matched := by
  have hs := hm.unloading_of_mem (Pool.mem_of_getElem? hk)
  set g := { h with unloads := h.unloads.eraseIdx k } with hg
  have hent := finishUnload_entries (h := g) hs
  intro i
  have hl : (g.finishUnload t.id).loadsOf i = h.loadsOf i := by
    unfold loadsOf; rw [finishUnload_loads]
  have hu : h.unloadsOf i = (g.finishUnload t.id).unloadsOf i + if t.id = i then 1 else 0 := by
    unfold unloadsOf
    rw [finishUnload_unloads, Pool.countP_eraseIdx hk]
    simp [hg]
  by_cases hi : t.id = i
  · subst hi
    obtain ⟨h1, h2, -, h4⟩ := hm t.id
    rw [h2, hs, if_pos rfl, if_pos rfl] at hu
    rw [h1, hs, if_neg (by simp)] at hl
    have hS : (g.finishUnload t.id).state t.id = .unloaded := by
      unfold state; rw [hent, Function.update_self]
    refine ⟨?_, ?_, ?_, ?_⟩
    all_goals rw [hS]
    · rw [hl, if_neg (by simp)]
    · rw [if_neg (by simp)]; omega
    · rw [hent, Function.update_self]; simp
    · rw [hent, Function.update_self]
      intro hp
      have := h4 hp
      rw [hs] at this
      cases this
  · refine (hm i).congr ?_ hl ?_
    · rw [hent, Function.update_of_ne (Ne.symm hi)]
    · rw [if_neg hi] at hu
      exact hu.symm

/-- A thread's step that changes neither its model nor any entry keeps the invariant. -/
theorem matched_of_sameThreads (hm : h.Matched) (he : h'.entries = h.entries)
    (hl : ∀ i, h'.loadsOf i = h.loadsOf i) (hu : ∀ i, h'.unloadsOf i = h.unloadsOf i) :
    h'.Matched := fun i => (hm i).congr (by rw [he]) (hl i) (hu i)

theorem Matched.withRestores (hm : h.Matched) (rs : List (List String)) :
    { h with restores := rs }.Matched :=
  matched_of_sameThreads hm rfl (fun _ => rfl) fun _ => rfl

theorem loadsOf_set {k : ℕ} {t : LoadThread} (hk : h.loads[k]? = some t) (rest : List String) :
    { h with loads := h.loads.set k ⟨t.model, rest⟩ }.loadsOf o = h.loadsOf o :=
  Pool.countP_set hk rfl

theorem unloadsOf_setPhase {k : ℕ} {t : UnloadThread} (hk : h.unloads[k]? = some t)
    (phase : UnloadPhase) : (h.setPhase k t phase).unloadsOf o = h.unloadsOf o :=
  Pool.countP_set hk rfl

theorem matched_setPhase {k : ℕ} {t : UnloadThread} (hk : h.unloads[k]? = some t)
    (phase : UnloadPhase) (l : LaneId) (lane : Lane) (hm : h.Matched) :
    ((h.setLane l lane).setPhase k t phase).Matched :=
  matched_of_sameThreads hm rfl (fun _ => rfl) fun _ => unloadsOf_setPhase hk phase

/-! ## Every event keeps it -/

variable {cat : Catalog}

theorem matched_step {e : HostEvent} (hs : step cat h e = some h') (hm : h.Matched) :
    h'.Matched := by
  cases step_trans hs with
  | loadRejected _ _ => exact matched_of_sameThreads hm rfl (fun _ => rfl) fun _ => rfl
  | loadFails _ _ hget hl =>
    obtain rfl := congrArg Prod.snd hl
    exact matched_loadLocked (Catalog.get_id hget) (hm.withRestores _)
  | load _ _ hget _ hl =>
    obtain rfl := congrArg Prod.snd hl
    exact matched_loadLocked (Catalog.get_id hget) (hm.withRestores _)
  | unloadFails _ => exact hm
  | unload _ _ hl =>
    obtain rfl := congrArg Prod.snd hl
    exact unloadLocked_keeps (fun _ _ b s => matched_setResident b s)
      (fun _ _ => matched_requestUnloadLocked) hm
  | restore => exact matched_of_sameThreads hm rfl (fun _ => rfl) fun _ => rfl
  | restored _ => exact matched_of_sameThreads hm rfl (fun _ => rfl) fun _ => rfl
  | waitEnds hk _ _ =>
    exact matched_of_sameThreads hm rfl (fun _ => loadsOf_set hk _) fun _ => rfl
  | waitTimesOut hk _ =>
    exact matched_of_sameThreads hm rfl (fun _ => loadsOf_set hk _) fun _ => rfl
  | loadEnds hk _ => exact matched_finishLoad hk hm
  | cancelLane hk _ _ => exact matched_setPhase hk _ _ _ hm
  | obtainLane hk _ _ _ => exact matched_setPhase hk _ _ _ hm
  | dropLane hk _ _ => exact matched_setPhase hk _ _ _ hm
  | drainTimesOut hk _ _ =>
    exact matched_of_sameThreads hm rfl (fun _ => rfl) fun _ => unloadsOf_setPhase hk _
  | unloadEnds hk _ => exact matched_finishUnload hk hm

theorem matched_run {r : Residency} {es : List HostEvent}
    (hr : run (step cat) (ModelHost.new r) es = some h) : h.Matched :=
  run_invariant (fun _ _ _ hm hs => matched_step hs hm) (matched_new r) hr

/-! ## Weights leave the host only through an unload -/

theorem loadLocked_loaded {probe : Probe} {save : Saves} {model : CatalogModel}
    {catalog : List CatalogModel} :
    ((h.loadLocked model catalog probe save id).2.entries o).loaded = (h.entries o).loaded :=
  loadLocked_keeps (I := fun h' => (h'.entries o).loaded = (h.entries o).loaded)
    (fun _ _ _ _ _ hI => hI) (fun _ _ hI => by rwa [requestUnloadLocked_loaded])
    (fun _ _ hI => by rwa [requestLoadLocked_loaded]) rfl

theorem unloadLocked_loaded {save : Saves} :
    ((h.unloadLocked save id).2.entries o).loaded = (h.entries o).loaded :=
  unloadLocked_keeps (I := fun h' => (h'.entries o).loaded = (h.entries o).loaded)
    (fun _ _ _ _ hI => hI) (fun _ _ hI => by rwa [requestUnloadLocked_loaded]) rfl

/-- A step keeps the weights of a model in place, or is the end of that model's unload. -/
theorem step_loaded {e : HostEvent} {m : Loaded} (hm : h.Matched) (hs : step cat h e = some h')
    (hl : (h.entries o).loaded = some m) :
    (h'.entries o).loaded = some m ∨
      ∃ k t, e = .unloadEnds k ∧ h.unloads[k]? = some t ∧ t.id = o := by
  cases step_trans hs with
  | loadRejected _ _ => exact Or.inl hl
  | loadFails _ _ _ hll =>
    obtain rfl := congrArg Prod.snd hll
    exact Or.inl (by rw [loadLocked_loaded]; exact hl)
  | load _ _ _ _ hll =>
    obtain rfl := congrArg Prod.snd hll
    exact Or.inl (by rw [loadLocked_loaded]; exact hl)
  | unloadFails _ => exact Or.inl hl
  | unload _ _ hll =>
    obtain rfl := congrArg Prod.snd hll
    exact Or.inl (by rw [unloadLocked_loaded, hl])
  | restore => exact Or.inl hl
  | restored _ => exact Or.inl hl
  | waitEnds _ _ _ => exact Or.inl hl
  | waitTimesOut _ _ => exact Or.inl hl
  | cancelLane _ _ _ => exact Or.inl hl
  | obtainLane _ _ _ _ => exact Or.inl hl
  | dropLane _ _ _ => exact Or.inl hl
  | drainTimesOut _ _ _ => exact Or.inl hl
  | @loadEnds k result t hk _ =>
    left
    have hst := hm.loading_of_getElem? hk
    have hne : o ≠ t.model.id := by
      rintro rfl
      -- a loading model holds no weights
      have := (hm t.model.id).loaded.mp (by rw [hl]; rfl)
      rw [hst] at this
      simp at this
    rw [finishLoad_entries (h := { h with loads := h.loads.eraseIdx k }) result hst,
      Function.update_of_ne hne]
    exact hl
  | @unloadEnds k t hk _ =>
    by_cases ho : t.id = o
    · exact Or.inr ⟨k, t, rfl, hk, ho⟩
    · left
      have hst := hm.unloading_of_mem (Pool.mem_of_getElem? hk)
      rw [finishUnload_entries (h := { h with unloads := h.unloads.eraseIdx k }) hst,
        Function.update_of_ne (Ne.symm ho)]
      exact hl

/-- **The lifecycle and the threads agree in every reachable state.**  Hence a finish event is
always expected, a load and an unload of one model never overlap, and weights are dropped only by
the end of an unload of their model. -/
theorem threads_match_lifecycle {cat : Catalog} {r : Residency} {es : List HostEvent}
    {h : ModelHost} (hr : run (step cat) (ModelHost.new r) es = some h) :
    (∀ id, h.loadsOf id = (if h.state id = .loading then 1 else 0) ∧
      h.unloadsOf id = (if h.state id = .unloading then 1 else 0) ∧
      ((h.entries id).loaded.isSome = true ↔ h.state id = .loaded ∨ h.state id = .unloading)) ∧
    (∀ t ∈ h.loads, ∀ result, ∃ l, (h.entries t.model.id).lifecycle.loadFinished result = .ok l) ∧
    (∀ t ∈ h.unloads, ∃ l, (h.entries t.id).lifecycle.unloadFinished (.ok ()) = .ok l) ∧
    (∀ id, h.loadsOf id = 0 ∨ h.unloadsOf id = 0) ∧
    (∀ e h' id m, step cat h e = some h' → (h.entries id).loaded = some m →
      (h'.entries id).loaded ≠ some m →
      ∃ k t, e = .unloadEnds k ∧ h.unloads[k]? = some t ∧ t.id = id) := by
  have hm := matched_run hr
  refine ⟨fun id => ⟨(hm id).loads, (hm id).unloads, (hm id).loaded⟩, fun t ht result => ?_,
    fun t ht => ?_, fun id => ?_, fun e h' id m hs hl hne => ?_⟩
  · exact ⟨_, Lifecycle.loadFinished_loading (hm.loading_of_mem ht) result⟩
  · exact ⟨_, Lifecycle.unloadFinished_unloading (hm.unloading_of_mem ht)⟩
  · rw [(hm id).loads, (hm id).unloads]
    cases h.state id <;> simp
  · exact (step_loaded hm hs hl).resolve_left hne

/-- A load, and an unload asked for while it runs: when the load ends, one unload is in flight. -/
theorem threads_match_lifecycle_pending :
    ∃ h, run (step ⟨[⟨"a", "a", .llm, 1, none, ⟨.llamaCpp, [], {}⟩, true, "local", none⟩], []⟩)
        empty
        [.load "a" ⟨some 20, none, none⟩ Saves.ok, .unload "a" Saves.ok, .loadEnds 0 (.ok ())] =
          some h ∧
      h.state "a" = .unloading ∧ h.unloadsOf "a" = 1 ∧ h.loadsOf "a" = 0 := by
  refine exists_run (P := fun h => h.state "a" = .unloading) (by decide +kernel) fun h hr hs => ?_
  obtain ⟨h1, h2, -⟩ := (threads_match_lifecycle hr).1 "a"
  refine ⟨hs, ?_, ?_⟩
  · rw [h2, hs]
    rfl
  · rw [h1, hs]
    rfl

end ModelHost

end StudioWorker
