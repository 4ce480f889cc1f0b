import StudioWorker.Host.Model
import Mathlib.Tactic.SplitIfs

/-!
# Host.Facts — what each operation of the host changes

One group of lemmas for each operation of `Host.Model`: the fields it leaves alone (`simp`), and
what it does to the entries, the residency and the threads.  The swap loop of `load` and `load`
itself get the rule the invariants use: what the three primitive changes keep, the whole call keeps.
-/

namespace StudioWorker

namespace ModelHost

variable {h : ModelHost} {id o : String}

/-! ## Entries and residency -/

section SetResident

variable {b : Bool} {save : Except String Unit}

theorem setResident_error {e : String} {h' : ModelHost}
    (hr : h.setResident id b save = (.error e, h')) : h' = h := by
  obtain ⟨h1, rfl⟩ := Prod.mk.inj hr
  rw [(Residency.set_error h1).1]

/-- A `set` that answered changed the residency only, to the asked one. -/
theorem setResident_ok {c : Bool} {h' : ModelHost}
    (hr : h.setResident id b save = (.ok c, h')) :
    ∃ r, h' = { h with residency := r } ∧ r.resident = h.residency.next id b := by
  obtain ⟨h1, rfl⟩ := Prod.mk.inj hr
  exact ⟨_, rfl, Residency.set_ok h1⟩

end SetResident

/-! ## Asking for an unload -/

theorem requestUnloadLocked_entries : (h.requestUnloadLocked id).entries =
    Function.update h.entries id
      { h.entries id with lifecycle := (h.entries id).lifecycle.requestUnload.1 } := by
  unfold requestUnloadLocked
  dsimp only
  split_ifs <;> rfl

/-- The thread an unload request starts: one exactly when the model was loaded. -/
theorem requestUnloadLocked_unloads : (h.requestUnloadLocked id).unloads =
    h.unloads ++ if h.state id = .loaded then [⟨id, (h.entries id).loaded.map (·.lane), .started⟩]
      else [] := by
  unfold requestUnloadLocked state
  dsimp only
  by_cases hs : (h.entries id).lifecycle.state = .loaded
  · rw [if_pos (Lifecycle.requestUnload_command.mpr hs), if_pos hs]
    simp [spawnUnload, setLifecycle, setEntry]
  · rw [if_neg (mt Lifecycle.requestUnload_command.mp hs), if_neg hs]
    simp [setLifecycle, setEntry]

/-- An unload request starts at most a new thread, and touches none that runs. -/
theorem mem_requestUnloadLocked_unloads {t : UnloadThread}
    (ht : t ∈ (h.requestUnloadLocked id).unloads) : t ∈ h.unloads ∨ t.phase = .started := by
  rw [requestUnloadLocked_unloads] at ht
  rcases List.mem_append.mp ht with ht | ht
  · exact Or.inl ht
  · split_ifs at ht
    · exact Or.inr (by rw [List.mem_singleton.mp ht])
    · cases ht

@[simp] theorem requestUnloadLocked_residency :
    (h.requestUnloadLocked id).residency = h.residency := by
  unfold requestUnloadLocked; dsimp only; split_ifs <;> rfl

@[simp] theorem requestUnloadLocked_lanes : (h.requestUnloadLocked id).lanes = h.lanes := by
  unfold requestUnloadLocked; dsimp only; split_ifs <;> rfl

@[simp] theorem requestUnloadLocked_nextLane :
    (h.requestUnloadLocked id).nextLane = h.nextLane := by
  unfold requestUnloadLocked; dsimp only; split_ifs <;> rfl

@[simp] theorem requestUnloadLocked_loads : (h.requestUnloadLocked id).loads = h.loads := by
  unfold requestUnloadLocked; dsimp only; split_ifs <;> rfl

@[simp] theorem requestUnloadLocked_restores :
    (h.requestUnloadLocked id).restores = h.restores := by
  unfold requestUnloadLocked; dsimp only; split_ifs <;> rfl

theorem requestUnloadLocked_lifecycle : ((h.requestUnloadLocked id).entries o).lifecycle =
    if o = id then (h.entries o).lifecycle.requestUnload.1 else (h.entries o).lifecycle := by
  rw [requestUnloadLocked_entries]
  by_cases ho : o = id
  · subst ho; rw [Function.update_self, if_pos rfl]
  · rw [Function.update_of_ne ho, if_neg ho]

theorem requestUnloadLocked_state : (h.requestUnloadLocked id).state o =
    if o = id then (h.state o).afterUnloadRequest else h.state o := by
  unfold state
  rw [requestUnloadLocked_lifecycle]
  split_ifs
  · exact Lifecycle.requestUnload_state _
  · rfl

@[simp] theorem requestUnloadLocked_loaded :
    ((h.requestUnloadLocked id).entries o).loaded = (h.entries o).loaded := by
  rw [requestUnloadLocked_entries]
  by_cases ho : o = id
  · subst ho; rw [Function.update_self]
  · rw [Function.update_of_ne ho]

/-! ## Starting a load -/

variable {model : CatalogModel} {out : List String}

theorem requestLoadLocked_entries : (h.requestLoadLocked model out id).entries =
    Function.update h.entries id
      { h.entries id with lifecycle := (h.entries id).lifecycle.requestLoad.1 } := by
  unfold requestLoadLocked
  dsimp only
  split_ifs <;> rfl

/-- The thread a load starts: one exactly when the model was unloaded or failed. -/
theorem requestLoadLocked_loads : (h.requestLoadLocked model out id).loads =
    h.loads ++ if (h.state id).idle then [⟨model, out⟩] else [] := by
  unfold requestLoadLocked state
  dsimp only
  by_cases hs : (h.entries id).lifecycle.state.idle = true
  · rw [if_pos (Lifecycle.requestLoad_command.mpr hs), if_pos hs]
    simp [spawnLoad, setLifecycle, setEntry]
  · rw [if_neg (mt Lifecycle.requestLoad_command.mp hs), if_neg hs]
    simp [setLifecycle, setEntry]

@[simp] theorem requestLoadLocked_residency :
    (h.requestLoadLocked model out id).residency = h.residency := by
  unfold requestLoadLocked; dsimp only; split_ifs <;> rfl

@[simp] theorem requestLoadLocked_lanes :
    (h.requestLoadLocked model out id).lanes = h.lanes := by
  unfold requestLoadLocked; dsimp only; split_ifs <;> rfl

@[simp] theorem requestLoadLocked_nextLane :
    (h.requestLoadLocked model out id).nextLane = h.nextLane := by
  unfold requestLoadLocked; dsimp only; split_ifs <;> rfl

@[simp] theorem requestLoadLocked_unloads :
    (h.requestLoadLocked model out id).unloads = h.unloads := by
  unfold requestLoadLocked; dsimp only; split_ifs <;> rfl

@[simp] theorem requestLoadLocked_restores :
    (h.requestLoadLocked model out id).restores = h.restores := by
  unfold requestLoadLocked; dsimp only; split_ifs <;> rfl

theorem requestLoadLocked_lifecycle : ((h.requestLoadLocked model out id).entries o).lifecycle =
    if o = id then (h.entries o).lifecycle.requestLoad.1 else (h.entries o).lifecycle := by
  rw [requestLoadLocked_entries]
  by_cases ho : o = id
  · subst ho; rw [Function.update_self, if_pos rfl]
  · rw [Function.update_of_ne ho, if_neg ho]

theorem requestLoadLocked_state : (h.requestLoadLocked model out id).state o =
    if o = id then (h.state o).afterLoadRequest else h.state o := by
  unfold state
  rw [requestLoadLocked_lifecycle]
  split_ifs
  · exact Lifecycle.requestLoad_state _
  · rfl

@[simp] theorem requestLoadLocked_loaded :
    ((h.requestLoadLocked model out id).entries o).loaded = (h.entries o).loaded := by
  rw [requestLoadLocked_entries]
  by_cases ho : o = id
  · subst ho; rw [Function.update_self]
  · rw [Function.update_of_ne ho]

/-! ## The ends of background work -/

/-- The entry of a model whose load ended as `result`, its weights and lane being `loaded`. -/
def loadedEntry (l : Lifecycle) (loaded : Loaded) : Except String Unit → Entry
  | .ok () => ⟨⟨if l.unloadPending then .unloading else .loaded, false⟩, some loaded⟩
  | .error reason => ⟨⟨.failed reason, false⟩, none⟩

/-- The thread of the unload that was asked for while `model` was loading. -/
def pendingUnload (l : Lifecycle) (id : String) (lane : LaneId) :
    Except String Unit → List UnloadThread
  | .ok () => if l.unloadPending then [⟨id, some lane, .started⟩] else []
  | .error _ => []

section FinishLoad

variable {result : Except String Unit}

theorem finishLoad_entries (result : Except String Unit) (hs : h.state model.id = .loading) :
    (h.finishLoad model result).entries = Function.update h.entries model.id
      (loadedEntry (h.entries model.id).lifecycle ⟨model, h.nextLane⟩ result) := by
  unfold finishLoad
  rw [Lifecycle.loadFinished_loading hs]
  cases result with
  | error reason => rfl
  | ok u => cases hp : (h.entries model.id).lifecycle.unloadPending <;> simp [loadedEntry, hp,
      spawnUnload, setLane, setEntry]

theorem finishLoad_state_of_ne (result : Except String Unit) (hs : h.state model.id = .loading)
    (ho : o ≠ model.id) : (h.finishLoad model result).state o = h.state o := by
  unfold state
  rw [finishLoad_entries result hs, Function.update_of_ne ho]

theorem finishLoad_unloads (result : Except String Unit) (hs : h.state model.id = .loading) :
    (h.finishLoad model result).unloads =
      h.unloads ++ pendingUnload (h.entries model.id).lifecycle model.id h.nextLane result := by
  unfold finishLoad
  rw [Lifecycle.loadFinished_loading hs]
  cases result with
  | error reason => simp [pendingUnload, setEntry]
  | ok u => cases hp : (h.entries model.id).lifecycle.unloadPending <;> simp [pendingUnload, hp,
      spawnUnload, setLane, setEntry]

/-- A successful load puts a fresh lane beside the old ones. -/
theorem finishLoad_lanes (result : Except String Unit) (hs : h.state model.id = .loading) :
    (h.finishLoad model result).lanes =
      (if result = .ok () then Function.update h.lanes h.nextLane Lane.new else h.lanes) ∧
    (h.finishLoad model result).nextLane =
      (if result = .ok () then h.nextLane + 1 else h.nextLane) := by
  unfold finishLoad
  rw [Lifecycle.loadFinished_loading hs]
  cases result with
  | error reason => exact ⟨rfl, rfl⟩
  | ok u => cases hp : (h.entries model.id).lifecycle.unloadPending <;> simp [spawnUnload, setLane,
      setEntry]

@[simp] theorem finishLoad_residency : (h.finishLoad model result).residency = h.residency := by
  unfold finishLoad
  cases (h.entries model.id).lifecycle.loadFinished result with
  | error e => rfl
  | ok lc => cases result <;> dsimp only <;> split_ifs <;> rfl

@[simp] theorem finishLoad_loads : (h.finishLoad model result).loads = h.loads := by
  unfold finishLoad
  cases (h.entries model.id).lifecycle.loadFinished result with
  | error e => rfl
  | ok lc => cases result <;> dsimp only <;> split_ifs <;> rfl

@[simp] theorem finishLoad_restores : (h.finishLoad model result).restores = h.restores := by
  unfold finishLoad
  cases (h.entries model.id).lifecycle.loadFinished result with
  | error e => rfl
  | ok lc => cases result <;> dsimp only <;> split_ifs <;> rfl

end FinishLoad

theorem finishUnload_entries (hs : h.state id = .unloading) :
    (h.finishUnload id).entries = Function.update h.entries id
      ⟨⟨.unloaded, (h.entries id).lifecycle.unloadPending⟩, none⟩ := by
  unfold finishUnload
  rw [Lifecycle.unloadFinished_unloading hs]
  rfl

theorem finishUnload_state (hs : h.state id = .unloading) :
    (h.finishUnload id).state o = if o = id then .unloaded else h.state o := by
  unfold state
  rw [finishUnload_entries hs]
  by_cases ho : o = id
  · rw [ho, Function.update_self, if_pos rfl]
  · rw [Function.update_of_ne ho, if_neg ho]

@[simp] theorem finishUnload_residency : (h.finishUnload id).residency = h.residency := by
  unfold finishUnload; split <;> rfl

@[simp] theorem finishUnload_loads : (h.finishUnload id).loads = h.loads := by
  unfold finishUnload; split <;> rfl

@[simp] theorem finishUnload_unloads : (h.finishUnload id).unloads = h.unloads := by
  unfold finishUnload; split <;> rfl

@[simp] theorem finishUnload_lanes : (h.finishUnload id).lanes = h.lanes := by
  unfold finishUnload; split <;> rfl

@[simp] theorem finishUnload_nextLane : (h.finishUnload id).nextLane = h.nextLane := by
  unfold finishUnload; split <;> rfl

@[simp] theorem finishUnload_restores : (h.finishUnload id).restores = h.restores := by
  unfold finishUnload; split <;> rfl

/-! ## The swapped-out members -/

variable {catalog : List CatalogModel}

theorem mem_swapOut : o ∈ h.swapOut model catalog id ↔
    o ≠ id ∧ (h.state o).swappable = true ∧
      ∃ g, model.exclusiveGroup = some g ∧ ∃ m ∈ catalog, m.id = o ∧ m.exclusiveGroup = some g := by
  unfold swapOut
  cases hg : model.exclusiveGroup with
  | none => simp
  | some g =>
    simp only [List.mem_map, List.mem_filter, decide_eq_true_eq, Option.some.injEq]
    constructor
    · rintro ⟨m, ⟨⟨h1, h2, h3⟩, h4⟩, rfl⟩
      exact ⟨h2, h4, g, rfl, m, h1, rfl, h3⟩
    · rintro ⟨h1, h2, g', rfl, m, h3, rfl, h4⟩
      exact ⟨m, ⟨⟨h3, h1, h4⟩, h2⟩, rfl⟩

/-- A `load` swaps out the other members of its group that are loading or loaded. -/
theorem mem_swapOut_iff {cat : Catalog} (hget : cat.get id = some model) :
    o ∈ h.swapOut model cat.models id ↔ o ∈ cat.rivals id ∧ (h.state o).swappable = true := by
  rw [mem_swapOut, Catalog.mem_rivals hget]
  tauto

/-! ## The swap loop -/

variable {save : Saves}

/-- What clearing a residency and asking for an unload keep, the swap loop keeps. -/
theorem swapLoop_keeps {I : ModelHost → Prop} {P : String → Prop}
    (hres : ∀ h o s, P o → I h → I (h.setResident o false s).2)
    (hun : ∀ h o, P o → I h → I (h.requestUnloadLocked o)) :
    ∀ (out : List String) (h : ModelHost), (∀ o ∈ out, P o) → I h → I (swapLoop save out h).2
  | [], h, _, hI => hI
  | o :: out, h, hP, hI => by
    unfold swapLoop
    have h1 := hres h o (save o) (hP o List.mem_cons_self) hI
    cases hr : h.setResident o false (save o) with
    | mk r h' =>
      rw [hr] at h1
      cases r with
      | error e => exact h1
      | ok c =>
        exact swapLoop_keeps hres hun out _ (fun o' ho' => hP o' (List.mem_cons_of_mem _ ho'))
          (hun h' o (hP o List.mem_cons_self) h1)

@[simp] theorem swapLoop_loads : (swapLoop save out h).2.loads = h.loads :=
  swapLoop_keeps (I := fun h' => h'.loads = h.loads) (P := fun _ => True) (fun _ _ _ _ hI => hI)
    (fun _ _ _ hI => by simpa using hI) out h (fun _ _ => trivial) rfl

/-- Whatever the saves answer, a model outside the loop keeps its lifecycle and one in it is asked
to unload or left alone. -/
theorem swapLoop_lifecycle_cases :
    ((swapLoop save out h).2.entries o).lifecycle = (h.entries o).lifecycle ∨
      (o ∈ out ∧ ((swapLoop save out h).2.entries o).lifecycle =
        (h.entries o).lifecycle.requestUnload.1) := by
  refine swapLoop_keeps (P := fun o' => o' ∈ out) (I := fun h' =>
      (h'.entries o).lifecycle = (h.entries o).lifecycle ∨
      (o ∈ out ∧ (h'.entries o).lifecycle = (h.entries o).lifecycle.requestUnload.1))
    (fun _ _ _ _ hI => hI) ?_ out h (fun _ ho => ho) (Or.inl rfl)
  intro h' o' ho' hI
  rw [requestUnloadLocked_lifecycle]
  by_cases heq : o = o'
  · subst heq
    rw [if_pos rfl]
    rcases hI with hI | ⟨h1, hI⟩
    · exact Or.inr ⟨ho', by rw [hI]⟩
    · exact Or.inr ⟨h1, by rw [hI, Lifecycle.requestUnload_idem]⟩
  · rw [if_neg heq]
    exact hI

/-- Whatever the saves answer, the swap loop makes nothing resident. -/
theorem swapLoop_resident_sub (ho : o ∈ (swapLoop save out h).2.residency.resident) :
    o ∈ h.residency.resident := by
  have hsub : (swapLoop save out h).2.residency.resident ⊆ h.residency.resident := by
    refine swapLoop_keeps (P := fun _ => True)
      (I := fun h' => h'.residency.resident ⊆ h.residency.resident) ?_
      (fun _ _ _ hI => by simpa using hI) out h (fun _ _ => trivial) subset_rfl
    intro h' o' s _ hI
    cases hs : h'.setResident o' false s with
    | mk r h₁ =>
    cases r with
    | error e => rw [setResident_error hs]; exact hI
    | ok c =>
      obtain ⟨r, rfl, hr⟩ := setResident_ok hs
      dsimp only
      rw [hr]
      intro x hx
      rcases Residency.mem_next.mp hx with ⟨-, hf⟩ | ⟨-, hx⟩
      · cases hf
      · exact hI hx
  exact hsub ho

/-- When every save of the loop succeeds, every member in it was asked to unload and lost its
residency, and nothing else changed. -/
theorem swapLoop_ok : ∀ {out : List String} {h h' : ModelHost},
    swapLoop save out h = (.ok (), h') →
    (∀ o, (h'.entries o).lifecycle =
      if o ∈ out then (h.entries o).lifecycle.requestUnload.1 else (h.entries o).lifecycle) ∧
    (∀ o, o ∈ h'.residency.resident ↔ o ∈ h.residency.resident ∧ o ∉ out)
  | [], h, h', heq => by
    obtain ⟨-, rfl⟩ := Prod.mk.inj heq
    simp
  | a :: out, h, h', heq => by
    unfold swapLoop at heq
    cases hr : h.setResident a false (save a) with
    | mk r h₁ =>
      rw [hr] at heq
      cases r with
      | error e => cases heq
      | ok c =>
        obtain ⟨r, rfl, hres⟩ := setResident_ok hr
        obtain ⟨h1, h2⟩ := swapLoop_ok heq
        constructor
        · intro o
          rw [h1, requestUnloadLocked_lifecycle]
          by_cases hoa : o = a
          · subst hoa
            by_cases ho : o ∈ out <;> simp [ho, Lifecycle.requestUnload_idem]
          · by_cases ho : o ∈ out <;> simp [ho, hoa]
        · intro o
          rw [h2, requestUnloadLocked_residency, hres, Residency.mem_next, List.mem_cons]
          simp only [Bool.false_eq_true, and_false, false_or]
          tauto

/-- With every save succeeding the loop ends well. -/
theorem swapLoop_saves_ok : ∀ (out : List String) (h : ModelHost),
    ∃ h', swapLoop Saves.ok out h = (.ok (), h')
  | [], h => ⟨h, rfl⟩
  | a :: out, h => by
    unfold swapLoop
    obtain ⟨c, hc⟩ := h.residency.set_isOk a false
    cases hr : h.setResident a false (Saves.ok a) with
    | mk r h₁ =>
      have : r = .ok c := by rw [← hc]; exact (congrArg Prod.fst hr).symm
      subst this
      exact swapLoop_saves_ok out _

/-! ## The two calls -/

variable {probe : Probe}

/-- What the three primitive changes keep, a `load` keeps, whatever it answers; it makes nothing
resident but its own model. -/
theorem loadLocked_keeps {I : ModelHost → Prop}
    (hres : ∀ h o b s, (b = true → o = id) → I h → I (h.setResident o b s).2)
    (hun : ∀ h o, I h → I (h.requestUnloadLocked o))
    (hload : ∀ h out, I h → I (h.requestLoadLocked model out id)) (hI : I h) :
    I (h.loadLocked model catalog probe save id).2 := by
  unfold loadLocked
  dsimp only
  cases h.admitLoad model catalog probe id with
  | error r => exact hI
  | ok u =>
    dsimp only
    have h1 := hres h id true (save id) (fun _ => rfl) hI
    cases hr : h.setResident id true (save id) with
    | mk r h₁ =>
      rw [hr] at h1
      cases r with
      | error e => exact h1
      | ok c =>
        dsimp only
        have h2 : I (swapLoop save (h.swapOut model catalog id) h₁).2 :=
          swapLoop_keeps (fun h o s _ => hres h o false s (fun hb => by cases hb)) (fun h o _ => hun h o)
            (h.swapOut model catalog id) h₁ (fun _ _ => trivial) h1
        cases hl : swapLoop save (h.swapOut model catalog id) h₁ with
        | mk r h₂ =>
          rw [hl] at h2
          cases r with
          | error e => exact h2
          | ok u => exact hload h₂ _ h2

theorem mem_loadLocked_unloads {t : UnloadThread}
    (ht : t ∈ (h.loadLocked model catalog probe save id).2.unloads) :
    t ∈ h.unloads ∨ t.phase = .started :=
  loadLocked_keeps (I := fun h' => ∀ t ∈ h'.unloads, t ∈ h.unloads ∨ t.phase = .started)
    (fun _ _ _ _ _ hI => hI)
    (fun _ _ hI t ht => (mem_requestUnloadLocked_unloads ht).elim (hI t) Or.inr)
    (fun _ _ hI t ht => hI t (by simpa using ht)) (fun _ ht => Or.inl ht) t ht

@[simp] theorem loadLocked_lanes :
    (h.loadLocked model catalog probe save id).2.lanes = h.lanes :=
  loadLocked_keeps (I := fun h' => h'.lanes = h.lanes) (fun _ _ _ _ _ hI => hI)
    (fun _ _ hI => by simpa using hI) (fun _ _ hI => by simpa using hI) rfl

@[simp] theorem loadLocked_nextLane :
    (h.loadLocked model catalog probe save id).2.nextLane = h.nextLane :=
  loadLocked_keeps (I := fun h' => h'.nextLane = h.nextLane) (fun _ _ _ _ _ hI => hI)
    (fun _ _ hI => by simpa using hI) (fun _ _ hI => by simpa using hI) rfl

@[simp] theorem loadLocked_restores :
    (h.loadLocked model catalog probe save id).2.restores = h.restores :=
  loadLocked_keeps (I := fun h' => h'.restores = h.restores) (fun _ _ _ _ _ hI => hI)
    (fun _ _ hI => by simpa using hI) (fun _ _ hI => by simpa using hI) rfl

/-- A `load` that answers was admitted, made the model resident and its group's outgoing members
not, asked those to unload, and started the load if the model was unloaded or failed. -/
theorem loadLocked_ok {st : ModelStatus} {h' : ModelHost}
    (heq : h.loadLocked model catalog probe save id = (.ok st, h')) :
    h.admitLoad model catalog probe id = .ok () ∧
    (∀ o, o ∈ h'.residency.resident ↔
      o = id ∨ (o ∈ h.residency.resident ∧ o ∉ h.swapOut model catalog id)) ∧
    (∀ o, (h'.entries o).lifecycle =
      if o = id then (h.entries o).lifecycle.requestLoad.1
      else if o ∈ h.swapOut model catalog id then (h.entries o).lifecycle.requestUnload.1
      else (h.entries o).lifecycle) ∧
    h'.loads = h.loads ++
      if (h.state id).idle then [⟨model, h.swapOut model catalog id⟩] else [] := by
  have hid : id ∉ h.swapOut model catalog id := fun hm => (mem_swapOut.mp hm).1 rfl
  unfold loadLocked at heq
  dsimp only at heq
  cases had : h.admitLoad model catalog probe id with
  | error r => rw [had] at heq; cases heq
  | ok u =>
    rw [had] at heq
    dsimp only at heq
    cases hr : h.setResident id true (save id) with
    | mk r h₁ =>
      rw [hr] at heq
      cases r with
      | error e => cases heq
      | ok c =>
        obtain ⟨res, rfl, hres⟩ := setResident_ok hr
        dsimp only at heq
        cases hl : swapLoop save (h.swapOut model catalog id) { h with residency := res } with
        | mk r h₂ =>
          have hlds : (swapLoop save (h.swapOut model catalog id)
            { h with residency := res }).2.loads = h.loads := swapLoop_loads
          rw [hl] at heq hlds
          cases r with
          | error e => cases heq
          | ok u =>
            obtain ⟨-, rfl⟩ := Prod.mk.inj heq
            obtain ⟨h3, h4⟩ := swapLoop_ok hl
            have hst : h₂.state id = h.state id := by
              unfold state
              rw [h3, if_neg hid]
            refine ⟨rfl, fun o => ?_, fun o => ?_, ?_⟩
            · rw [requestLoadLocked_residency, h4, hres, Residency.mem_next]
              by_cases ho : o = id
              · subst ho; simp [hid]
              · simp [ho]
            · rw [requestLoadLocked_lifecycle, h3]
              by_cases ho : o = id
              · subst ho; simp [hid]
              · simp [ho]
            · rw [requestLoadLocked_loads, hlds, hst]

/-- A `load` that fails starts no load, and leaves every lifecycle alone but those of the group
members it asked to unload before the save that failed. -/
theorem loadLocked_error {e : HostError} {h' : ModelHost}
    (heq : h.loadLocked model catalog probe save id = (.error e, h')) :
    h'.loads = h.loads ∧ ∀ o, (h'.entries o).lifecycle = (h.entries o).lifecycle ∨
      (o ∈ h.swapOut model catalog id ∧
        (h'.entries o).lifecycle = (h.entries o).lifecycle.requestUnload.1) := by
  unfold loadLocked at heq
  dsimp only at heq
  cases had : h.admitLoad model catalog probe id with
  | error r => rw [had] at heq; cases heq; exact ⟨rfl, fun o => Or.inl rfl⟩
  | ok u =>
    rw [had] at heq
    dsimp only at heq
    cases hr : h.setResident id true (save id) with
    | mk r h₂ =>
      rw [hr] at heq
      cases r with
      | error e =>
        cases heq
        rw [setResident_error hr]
        exact ⟨rfl, fun o => Or.inl rfl⟩
      | ok c =>
        obtain ⟨res, rfl, -⟩ := setResident_ok hr
        dsimp only at heq
        have hloads : (swapLoop save (h.swapOut model catalog id)
          { h with residency := res }).2.loads = h.loads := swapLoop_loads
        have hc : ∀ o, ((swapLoop save (h.swapOut model catalog id)
              { h with residency := res }).2.entries o).lifecycle = (h.entries o).lifecycle ∨
            (o ∈ h.swapOut model catalog id ∧ ((swapLoop save (h.swapOut model catalog id)
              { h with residency := res }).2.entries o).lifecycle =
                (h.entries o).lifecycle.requestUnload.1) := fun o => swapLoop_lifecycle_cases
        cases hs : swapLoop save (h.swapOut model catalog id) { h with residency := res } with
        | mk r h₃ =>
          rw [hs] at heq hloads hc
          cases r with
          | error e => cases heq; exact ⟨hloads, hc⟩
          | ok u => cases heq

/-- With every save succeeding a `load` fails only by a refusal, which changes nothing. -/
theorem loadLocked_refused {e : HostError} {h' : ModelHost}
    (heq : h.loadLocked model catalog probe Saves.ok id = (.error e, h')) : h' = h := by
  unfold loadLocked at heq
  dsimp only at heq
  cases had : h.admitLoad model catalog probe id with
  | error r =>
    rw [had] at heq
    exact (Prod.mk.inj heq).2.symm
  | ok u =>
    rw [had] at heq
    dsimp only at heq
    obtain ⟨c, hc⟩ := h.residency.set_isOk id true
    cases hr : h.setResident id true (Saves.ok id) with
    | mk r h₂ =>
      rw [hr] at heq
      obtain rfl : r = .ok c := by rw [← hc]; exact (congrArg Prod.fst hr).symm
      obtain ⟨h₃, h3⟩ := swapLoop_saves_ok (h.swapOut model catalog id) h₂
      dsimp only at heq
      rw [h3] at heq
      cases heq

/-- What the two primitive changes keep, an `unload` keeps, whatever it answers. -/
theorem unloadLocked_keeps {I : ModelHost → Prop}
    (hres : ∀ h o b s, I h → I (h.setResident o b s).2)
    (hun : ∀ h o, I h → I (h.requestUnloadLocked o)) (hI : I h) :
    I (h.unloadLocked save id).2 := by
  unfold unloadLocked
  have h1 := hres h id false (save id) hI
  cases hr : h.setResident id false (save id) with
  | mk r h₁ =>
    rw [hr] at h1
    cases r with
    | error e => exact h1
    | ok c => exact hun h₁ id h1

theorem mem_unloadLocked_unloads {t : UnloadThread}
    (ht : t ∈ (h.unloadLocked save id).2.unloads) : t ∈ h.unloads ∨ t.phase = .started :=
  unloadLocked_keeps (I := fun h' => ∀ t ∈ h'.unloads, t ∈ h.unloads ∨ t.phase = .started)
    (fun _ _ _ _ hI => hI)
    (fun _ _ hI t ht => (mem_requestUnloadLocked_unloads ht).elim (hI t) Or.inr)
    (fun _ ht => Or.inl ht) t ht

@[simp] theorem unloadLocked_lanes : (h.unloadLocked save id).2.lanes = h.lanes :=
  unloadLocked_keeps (I := fun h' => h'.lanes = h.lanes) (fun _ _ _ _ hI => hI)
    (fun _ _ hI => by simpa using hI) rfl

@[simp] theorem unloadLocked_nextLane : (h.unloadLocked save id).2.nextLane = h.nextLane :=
  unloadLocked_keeps (I := fun h' => h'.nextLane = h.nextLane) (fun _ _ _ _ hI => hI)
    (fun _ _ hI => by simpa using hI) rfl

@[simp] theorem unloadLocked_restores : (h.unloadLocked save id).2.restores = h.restores :=
  unloadLocked_keeps (I := fun h' => h'.restores = h.restores) (fun _ _ _ _ hI => hI)
    (fun _ _ hI => by simpa using hI) rfl

/-- An `unload` that answers cleared the residency and asked the model to unload; one that does
not changed nothing. -/
theorem unloadLocked_ok {st : ModelStatus} {h' : ModelHost}
    (heq : h.unloadLocked save id = (.ok st, h')) :
    (∀ o, o ∈ h'.residency.resident ↔ o ∈ h.residency.resident ∧ o ≠ id) ∧
    (∀ o, (h'.entries o).lifecycle =
      if o = id then (h.entries o).lifecycle.requestUnload.1 else (h.entries o).lifecycle) ∧
    h'.loads = h.loads := by
  unfold unloadLocked at heq
  cases hr : h.setResident id false (save id) with
  | mk r h₁ =>
    rw [hr] at heq
    cases r with
    | error e => cases heq
    | ok c =>
      obtain ⟨r, rfl, hres⟩ := setResident_ok hr
      dsimp only at heq
      obtain ⟨-, rfl⟩ := Prod.mk.inj heq
      refine ⟨fun o => ?_, fun o => ?_, ?_⟩
      · rw [requestUnloadLocked_residency, hres, Residency.mem_next]
        by_cases ho : o = id <;> simp [ho]
      · rw [requestUnloadLocked_lifecycle]
      · rw [requestUnloadLocked_loads]

theorem unloadLocked_error {e : HostError} {h' : ModelHost}
    (heq : h.unloadLocked save id = (.error e, h')) : h' = h := by
  unfold unloadLocked at heq
  cases hr : h.setResident id false (save id) with
  | mk r h₁ =>
    rw [hr] at heq
    cases r with
    | error e =>
      obtain ⟨-, rfl⟩ := Prod.mk.inj heq
      exact setResident_error hr
    | ok c => cases heq

end ModelHost

end StudioWorker
