import StudioWorker.Host.Change

/-!
# Host.Group — one of a group at a time

Members `a` and `b` of one exclusive group, over any run.  A `load` that starts work asks the other
member to unload and, if that one was loaded, waits for it.  The swap has three gaps: a member that
is itself loading stays loading, a member already unloading is not waited for, and a wait that
times out goes on.  `StartsClear` and `HandsOverClear` say step by step that a run stays out of
them.

* `exclusive_step`: outside the first gap at most one of the two is loading or loaded.
* `handover_step`: outside all three, both hold memory only while one hands it over to the other.
-/

namespace StudioWorker

open Lib Lib.System

namespace ModelHost

variable {cat : Catalog} {h h' : ModelHost} {e : HostEvent} {g a b o : String}

/-! ## What a run must stay out of -/

/-- The model whose load the event starts: a `load` answered while it was unloaded or failed. -/
def startedLoad (cat : Catalog) (h : ModelHost) (e : HostEvent) : Option String :=
  (h.answeredLoad cat e).filter fun id => (h.state id).idle

/-- The event starts no load of one of `a` and `b` while the other is loading. -/
def StartsClear (cat : Catalog) (a b : String) (h : ModelHost) (e : HostEvent) : Prop :=
  (h.startedLoad cat e = some a → h.state b ≠ .loading) ∧
  (h.startedLoad cat e = some b → h.state a ≠ .loading)

/-- The member the event's background load gives up waiting for. -/
def gaveUp (h : ModelHost) : HostEvent → Option (String × String)
  | .waitTimesOut k => (h.loads[k]?).bind fun t => t.waitFor.head?.map fun o => (t.model.id, o)
  | _ => none

/-- Moreover the event starts no load of one while the other is unloading, and no load of one
gives up waiting for the other. -/
def HandsOverClear (cat : Catalog) (a b : String) (h : ModelHost) (e : HostEvent) : Prop :=
  StartsClear cat a b h e ∧
  (h.startedLoad cat e = some a → h.state b ≠ .unloading) ∧
  (h.startedLoad cat e = some b → h.state a ≠ .unloading) ∧
  h.gaveUp e ≠ some (a, b) ∧ h.gaveUp e ≠ some (b, a)

instance : Decidable (StartsClear cat a b h e) := by unfold StartsClear; infer_instance

instance : Decidable (HandsOverClear cat a b h e) := by unfold HandsOverClear; infer_instance

theorem StartsClear.symm (hc : StartsClear cat a b h e) : StartsClear cat b a h e := ⟨hc.2, hc.1⟩

theorem startedLoad_eq (ha : h.answeredLoad cat e = some o) (hi : (h.state o).idle = true) :
    h.startedLoad cat e = some o := by
  rw [startedLoad, ha, Option.filter_some, if_pos hi]

/-! ## At most one is loading or loaded -/

/-- A group member that is loading or loaded is swapped out by a `load` of another. -/
theorem mem_swapOut_of_member {model : CatalogModel} (hget : cat.get a = some model)
    (ha : cat.Member g a) (hb : cat.Member g b) (hab : a ≠ b)
    (hs : (h.state b).swappable = true) : b ∈ h.swapOut model cat.models a := by
  obtain ⟨ma, h1, h2⟩ := ha
  obtain ⟨mb, h3, h4⟩ := hb
  rw [hget, Option.some.injEq] at h1
  exact mem_swapOut.mpr ⟨hab.symm, hs, g, h1 ▸ h2, mb, Catalog.get_mem h3, Catalog.get_id h3, h4⟩

/-- Only an answered `load` of a model makes it loading or loaded. -/
theorem swappable_of_step (hm : h.Matched) (hs : step cat h e = some h')
    (ho : (h'.state o).swappable = true) :
    (h.state o).swappable = true ∨ h.answeredLoad cat e = some o := by
  have hreq : ∀ {l : Lifecycle}, l.requestUnload.1.state.swappable = true →
      l.state.swappable = true := by
    intro l hl
    rw [Lifecycle.requestUnload_state, ModelState.swappable_afterUnloadRequest] at hl
    rw [hl]
    rfl
  cases step_change hm hs with
  | quiet _ _ hent _ => left; rwa [state, hent] at ho
  | loadFails _ _ _ _ hlc _ =>
    left
    rcases hlc o with h1 | ⟨-, h1⟩
    · rwa [state, h1] at ho
    · exact hreq (by rwa [state, h1] at ho)
  | load hc ha _ _ _ _ _ hlc _ =>
    rw [state, hlc] at ho
    split_ifs at ho with h1 h2
    · right; rw [ha, h1]
    · exact Or.inl (hreq ho)
    · exact Or.inl ho
  | unload _ _ _ hlc _ =>
    left
    rw [state, hlc] at ho
    split_ifs at ho with h1
    · exact hreq ho
    · exact ho
  | @loadEnds k t result _ _ _ hst hent _ =>
    left
    by_cases h1 : o = t.model.id
    · rw [h1, hst]
      rfl
    · rwa [state, hent, Function.update_of_ne h1] at ho
  | @unloadEnds id _ _ hst hent _ =>
    left
    by_cases h1 : o = id
    · rw [state, hent, h1, Function.update_self] at ho
      cases ho
    · rwa [state, hent, Function.update_of_ne h1] at ho

/-- An answered `load` of `a` takes a loaded `b` of its group out of service. -/
theorem load_takes_over (hm : h.Matched) (hs : step cat h e = some h')
    (hans : h.answeredLoad cat e = some a) (ha : cat.Member g a) (hb : cat.Member g b)
    (hab : a ≠ b) (hok : h.startedLoad cat e = some a → h.state b ≠ .loading)
    (hI : ¬ ((h.state a).swappable = true ∧ (h.state b).swappable = true)) :
    ¬ ((h'.state a).swappable = true ∧ (h'.state b).swappable = true) := by
  rintro ⟨h1, h2⟩
  cases step_change hm hs with
  | @load c model hc hans' _ hget _ _ _ hlc _ =>
    obtain rfl : a = c.id := Option.some.inj (hans.symm.trans hans')
    rw [state, hlc, if_pos rfl, Lifecycle.requestLoad_state] at h1
    have hb' : (h.state b).swappable = true :=
      (swappable_of_step hm hs h2).resolve_right fun hh => hab (Option.some.inj (hans.symm.trans hh))
    have hm' := mem_swapOut_of_member hget ha hb hab hb'
    rw [state, hlc, if_neg hab.symm, if_pos hm', Lifecycle.requestUnload_state,
      ModelState.swappable_afterUnloadRequest] at h2
    cases hi : (h.state c.id).idle with
    | true => exact hok (startedLoad_eq hans hi) h2
    | false =>
      rw [← state, ModelState.afterLoadRequest_of_not_idle hi] at h1
      exact hI ⟨h1, hb'⟩
  | quiet hans' => rw [hans'] at hans; cases hans
  | loadFails _ hans' => rw [hans'] at hans; cases hans
  | unload hans' => rw [hans'] at hans; cases hans
  | loadEnds _ hans' => rw [hans'] at hans; cases hans
  | unloadEnds hans' => rw [hans'] at hans; cases hans

theorem exclusive_step (ha : cat.Member g a) (hb : cat.Member g b) (hab : a ≠ b)
    (hm : h.Matched) (hs : step cat h e = some h') (hok : StartsClear cat a b h e)
    (hI : ¬ ((h.state a).swappable = true ∧ (h.state b).swappable = true)) :
    ¬ ((h'.state a).swappable = true ∧ (h'.state b).swappable = true) := by
  by_cases ha' : h.answeredLoad cat e = some a
  · exact load_takes_over hm hs ha' ha hb hab hok.1 hI
  · by_cases hb' : h.answeredLoad cat e = some b
    · exact fun hh => load_takes_over hm hs hb' hb ha hab.symm hok.2 (fun hh => hI hh.symm) hh.symm
    · exact fun hh => hI ⟨(swappable_of_step hm hs hh.1).resolve_right ha',
        (swappable_of_step hm hs hh.2).resolve_right hb'⟩

/-! ## At most one in memory -/

/-- The weights of `id` are in memory: placed, or being placed by its background load. -/
def InMemory (h : ModelHost) (id : String) : Prop :=
  (h.entries id).loaded.isSome = true ∨ ∃ t ∈ h.loads, t.model.id = id ∧ t.waitFor = []

/-- `out` is unloading and the background load of `into` still waits for it. -/
structure HandsOver (h : ModelHost) (out into : String) : Prop where
  unloading : h.state out = .unloading
  loading : h.state into = .loading
  waits : ∀ t ∈ h.loads, t.model.id = into → out ∈ t.waitFor

/-- One of `a` and `b` is idle, or one hands its memory over to the other. -/
def OneActive (h : ModelHost) (a b : String) : Prop :=
  (h.state a).idle = true ∨ (h.state b).idle = true ∨ h.HandsOver a b ∨ h.HandsOver b a

theorem OneActive.symm (hI : h.OneActive a b) : h.OneActive b a := by
  rcases hI with h1 | h1 | h1 | h1
  · exact Or.inr (Or.inl h1)
  · exact Or.inl h1
  · exact Or.inr (Or.inr (Or.inr h1))
  · exact Or.inr (Or.inr (Or.inl h1))

theorem InMemory.not_idle (hm : h.Matched) (hw : h.InMemory o) : (h.state o).idle = false := by
  rcases hw with h1 | ⟨t, ht, rfl, -⟩
  · exact ModelState.not_idle_iff.mpr (Or.inr ((hm o).loaded.mp h1))
  · exact ModelState.not_idle_iff.mpr (Or.inl (hm.loading_of_mem ht))

/-- While `out` hands its memory over, `into` has none. -/
theorem HandsOver.not_inMemory (hm : h.Matched) (hH : h.HandsOver a b) : ¬ h.InMemory b := by
  rintro (h1 | ⟨t, ht, rfl, h1⟩)
  · have h2 := (hm b).loaded.mp h1
    rw [hH.loading] at h2
    simp at h2
  · have h2 := hH.waits t ht rfl
    rw [h1] at h2
    cases h2

theorem OneActive.not_both (hm : h.Matched) (hI : h.OneActive a b) :
    ¬ (h.InMemory a ∧ h.InMemory b) := by
  rintro ⟨h1, h2⟩
  rcases hI with h3 | h3 | h3 | h3
  · rw [h1.not_idle hm] at h3; cases h3
  · rw [h2.not_idle hm] at h3; cases h3
  · exact h3.not_inMemory hm h2
  · exact h3.not_inMemory hm h1

/-- Unload requests and threads that wait on keep a handover going. -/
theorem OneActive.mono (hI : h.OneActive a b)
    (hst : ∀ o, o = a ∨ o = b →
      h'.state o = h.state o ∨ h'.state o = (h.state o).afterUnloadRequest)
    (hl : ∀ out into, out = a ∧ into = b ∨ out = b ∧ into = a → h.HandsOver out into →
      ∀ t ∈ h'.loads, t.model.id = into → out ∈ t.waitFor) : h'.OneActive a b := by
  have hidle : ∀ o, o = a ∨ o = b → (h.state o).idle = true → (h'.state o).idle = true := by
    intro o ho hi
    rcases hst o ho with h1 | h1 <;> rw [h1]
    · exact hi
    · rwa [ModelState.idle_afterUnloadRequest]
  have hhands : ∀ out into, out = a ∧ into = b ∨ out = b ∧ into = a → h.HandsOver out into →
      h'.HandsOver out into := by
    intro out into hp hH
    refine ⟨?_, ?_, hl out into hp hH⟩
    · rcases hst out (hp.imp And.left And.left) with h1 | h1 <;> rw [h1, hH.unloading]
      rfl
    · rcases hst into (hp.elim (fun hh => Or.inr hh.2) fun hh => Or.inl hh.2) with h1 | h1 <;>
        rw [h1, hH.loading]
      rfl
  rcases hI with h1 | h1 | h1 | h1
  · exact Or.inl (hidle a (Or.inl rfl) h1)
  · exact Or.inr (Or.inl (hidle b (Or.inr rfl) h1))
  · exact Or.inr (Or.inr (Or.inl (hhands a b (Or.inl ⟨rfl, rfl⟩) h1)))
  · exact Or.inr (Or.inr (Or.inr (hhands b a (Or.inr ⟨rfl, rfl⟩) h1)))

/-- A step that changes no state and no load keeps it. -/
theorem OneActive.congr (hI : h.OneActive a b) (hst : ∀ o, h'.state o = h.state o)
    (hl : h'.loads = h.loads) : h'.OneActive a b :=
  hI.mono (fun o _ => Or.inl (hst o)) fun _ _ _ hH t ht => hH.waits t (hl ▸ ht)

/-- A `load` of `c.id` that starts makes a loaded `b` hand its memory over. -/
theorem load_hands_over {c : LoadCall} {model : CatalogModel} (hm : h.Matched)
    (hget : cat.get c.id = some model) (hi : (h.state c.id).idle = true)
    (ha : cat.Member g c.id) (hb : cat.Member g b) (hab : c.id ≠ b)
    (hload : h.state b ≠ .loading) (hunload : h.state b ≠ .unloading)
    (hst : ∀ o, h'.state o = if o = c.id then (h.state o).afterLoadRequest
      else if o ∈ h.swapOut model cat.models c.id then (h.state o).afterUnloadRequest
      else h.state o)
    (hl : h'.loads = h.loads ++ [⟨model, h.swapOut model cat.models c.id⟩]) :
    h'.OneActive c.id b := by
  cases hb' : (h.state b).idle with
  | true =>
    refine Or.inr (Or.inl ?_)
    rw [hst, if_neg hab.symm]
    split_ifs
    · rwa [ModelState.idle_afterUnloadRequest]
    · exact hb'
  | false =>
    have hloaded : h.state b = .loaded := by
      rcases ModelState.not_idle_iff.mp hb' with h1 | h1 | h1
      · exact absurd h1 hload
      · exact h1
      · exact absurd h1 hunload
    have hout := mem_swapOut_of_member hget ha hb hab (by rw [hloaded]; rfl)
    refine Or.inr (Or.inr (Or.inr ⟨?_, ?_, fun t ht hid => ?_⟩))
    · rw [hst, if_neg hab.symm, if_pos hout, hloaded]
      rfl
    · rw [hst, if_pos rfl, ModelState.afterLoadRequest_of_idle hi]
    · rw [hl] at ht
      rcases List.mem_append.mp ht with ht | ht
      · -- an idle model has no load in flight
        have h1 := hm.loading_of_mem ht
        rw [hid] at h1
        rw [h1] at hi
        cases hi
      · rw [List.mem_singleton.mp ht]
        exact hout

/-- A `load` of a model that is not idle starts nothing. -/
theorem OneActive.loadAgain {id : String} {out : List String} (hI : h.OneActive a b)
    (hi : (h.state id).idle = false)
    (hst : ∀ o, h'.state o = if o = id then (h.state o).afterLoadRequest
      else if o ∈ out then (h.state o).afterUnloadRequest else h.state o)
    (hl : h'.loads = h.loads) : h'.OneActive a b := by
  refine hI.mono (fun o _ => ?_) fun _ _ _ hH t ht => hH.waits t (hl ▸ ht)
  rw [hst]
  split_ifs with h1 h2
  · rw [h1, ModelState.afterLoadRequest_of_not_idle hi]
    exact Or.inl rfl
  · exact Or.inr rfl
  · exact Or.inl rfl

/-- A `load` of a third model starts no load of either. -/
theorem OneActive.loadOther {id : String} {model : CatalogModel} {out : List String}
    (hI : h.OneActive a b) (hid : model.id = id) (hca : id ≠ a) (hcb : id ≠ b)
    (hst : ∀ o, h'.state o = if o = id then (h.state o).afterLoadRequest
      else if o ∈ out then (h.state o).afterUnloadRequest else h.state o)
    (hl : h'.loads = h.loads ++ [⟨model, out⟩]) : h'.OneActive a b := by
  refine hI.mono (fun o ho => ?_) fun leaves into hp hH t ht hinto => ?_
  · have hne : o ≠ id := by
      rintro rfl
      exact ho.elim hca hcb
    rw [hst, if_neg hne]
    split_ifs
    · exact Or.inr rfl
    · exact Or.inl rfl
  · rw [hl] at ht
    rcases List.mem_append.mp ht with ht | ht
    · exact hH.waits t ht hinto
    · rw [List.mem_singleton.mp ht] at hinto
      have h1 : id = into := hid.symm.trans hinto
      rcases hp with ⟨-, hp⟩ | ⟨-, hp⟩
      · exact absurd (h1.trans hp) hcb
      · exact absurd (h1.trans hp) hca

/-- A background load that waits for one member less keeps it, if that member is not the one that
hands its memory over to it. -/
theorem OneActive.waitGoesOn {k : ℕ} {t : LoadThread} {other : String} {rest : List String}
    (hI : h.OneActive a b) (hk : h.loads[k]? = some t) (hw : t.waitFor = other :: rest)
    (hstays : ∀ out into, out = a ∧ into = b ∨ out = b ∧ into = a → h.HandsOver out into →
      t.model.id = into → out ≠ other) :
    { h with loads := h.loads.set k ⟨t.model, rest⟩ }.OneActive a b := by
  refine hI.mono (fun o _ => Or.inl rfl) fun out into hp hH t' ht' hid => ?_
  rcases Pool.mem_set hk ht' with rfl | ht'
  · have h1 := hH.waits t (Pool.mem_of_getElem? hk) hid
    rw [hw] at h1
    exact (List.mem_cons.mp h1).resolve_left (hstays out into hp hH hid)
  · exact hH.waits t' ht' hid

/-- The end of a background load keeps it: a load that ends waits for nobody. -/
theorem OneActive.loadEnds {k : ℕ} {t : LoadThread} {result : Except String Unit}
    (hm : h.Matched) (hk : h.loads[k]? = some t) (hw : t.waitFor = []) (hI : h.OneActive a b) :
    ({ h with loads := h.loads.eraseIdx k }.finishLoad t.model result).OneActive a b := by
  have hst := hm.loading_of_getElem? hk
  have hother : ∀ o, o ≠ t.model.id → ({ h with loads := h.loads.eraseIdx k }.finishLoad t.model
      result).state o = h.state o := fun o =>
    finishLoad_state_of_ne (h := { h with loads := h.loads.eraseIdx k }) result hst
  have hidle : ∀ o, (h.state o).idle = true → o ≠ t.model.id := by
    rintro o hi rfl
    rw [hst] at hi
    cases hi
  have hhands : ∀ out into, h.HandsOver out into → ({ h with
      loads := h.loads.eraseIdx k }.finishLoad t.model result).HandsOver out into := by
    intro out into hH
    have h1 : out ≠ t.model.id := by
      rintro rfl
      have := hH.unloading
      rw [hst] at this
      cases this
    have h2 : into ≠ t.model.id := by
      rintro rfl
      have := hH.waits t (Pool.mem_of_getElem? hk) rfl
      rw [hw] at this
      cases this
    refine ⟨(hother out h1).trans hH.unloading, (hother into h2).trans hH.loading, fun t' ht' hid => ?_⟩
    rw [finishLoad_loads] at ht'
    exact hH.waits t' (List.mem_of_mem_eraseIdx ht') hid
  rcases hI with h1 | h1 | h1 | h1
  · exact Or.inl (by rw [hother a (hidle a h1)]; exact h1)
  · exact Or.inr (Or.inl (by rw [hother b (hidle b h1)]; exact h1))
  · exact Or.inr (Or.inr (Or.inl (hhands a b h1)))
  · exact Or.inr (Or.inr (Or.inr (hhands b a h1)))

/-- The end of an unload keeps it: the model that handed its memory over is idle now. -/
theorem OneActive.unloadEnds {k : ℕ} {t : UnloadThread} (hm : h.Matched)
    (hk : h.unloads[k]? = some t) (hI : h.OneActive a b) :
    ({ h with unloads := h.unloads.eraseIdx k }.finishUnload t.id).OneActive a b := by
  have hst := hm.unloading_of_mem (Pool.mem_of_getElem? hk)
  have hstate := fun o =>
    finishUnload_state (h := { h with unloads := h.unloads.eraseIdx k }) (o := o) hst
  have hidle : ∀ o, (h.state o).idle = true → (({ h with
      unloads := h.unloads.eraseIdx k }.finishUnload t.id).state o).idle = true := by
    intro o hi
    rw [hstate]
    split_ifs
    · rfl
    · exact hi
  have hhands : ∀ out into, h.HandsOver out into →
      (({ h with unloads := h.unloads.eraseIdx k }.finishUnload t.id).state out).idle = true ∨
      ({ h with unloads := h.unloads.eraseIdx k }.finishUnload t.id).HandsOver out into := by
    intro out into hH
    by_cases ho : out = t.id
    · left
      rw [hstate, if_pos ho]
      rfl
    · right
      have h2 : into ≠ t.id := by
        rintro rfl
        have := hH.loading
        rw [hst] at this
        cases this
      refine ⟨?_, ?_, fun t' ht' hid => ?_⟩
      · rw [hstate, if_neg ho]
        exact hH.unloading
      · rw [hstate, if_neg h2]
        exact hH.loading
      · rw [finishUnload_loads] at ht'
        exact hH.waits t' ht' hid
  rcases hI with h1 | h1 | h1 | h1
  · exact Or.inl (hidle a h1)
  · exact Or.inr (Or.inl (hidle b h1))
  · rcases hhands a b h1 with h2 | h2
    · exact Or.inl h2
    · exact Or.inr (Or.inr (Or.inl h2))
  · rcases hhands b a h1 with h2 | h2
    · exact Or.inr (Or.inl h2)
    · exact Or.inr (Or.inr (Or.inr h2))

theorem handover_step (ha : cat.Member g a) (hb : cat.Member g b) (hab : a ≠ b)
    (hm : h.Matched) (hs : step cat h e = some h') (hok : HandsOverClear cat a b h e)
    (hI : h.OneActive a b) : h'.OneActive a b := by
  obtain ⟨⟨hok1, hok2⟩, hok3, hok4, hok5, hok6⟩ := hok
  cases step_trans hs with
  | loadRejected _ _ => exact hI.congr (fun _ => rfl) rfl
  | @loadFails _ c model _ _ hc _ _ hl =>
    obtain ⟨h1, h2⟩ := loadLocked_error (h := { h with restores := c.restores }) hl
    refine hI.mono (fun o _ => ?_) fun _ _ _ hH t ht => hH.waits t (h1 ▸ ht)
    rcases h2 o with h3 | ⟨-, h3⟩
    · exact Or.inl (congrArg Lifecycle.state h3)
    · exact Or.inr ((congrArg Lifecycle.state h3).trans (Lifecycle.requestUnload_state _))
  | @load _ c model _ _ hc hans hget _ hl =>
    obtain ⟨-, -, hlc, hloads⟩ := loadLocked_ok (h := { h with restores := c.restores }) hl
    have hst : ∀ o, h'.state o = if o = c.id then (h.state o).afterLoadRequest
        else if o ∈ h.swapOut model cat.models c.id then (h.state o).afterUnloadRequest
        else h.state o := by
      intro o
      refine (congrArg Lifecycle.state (hlc o)).trans ?_
      rw [apply_ite Lifecycle.state, apply_ite Lifecycle.state, Lifecycle.requestLoad_state,
        Lifecycle.requestUnload_state]
      rfl
    cases hi : (h.state c.id).idle with
    | false =>
      have hl' : h'.loads = h.loads := by
        refine hloads.trans ?_
        rw [if_neg (by simpa [state] using hi), List.append_nil]
      exact hI.loadAgain hi hst hl'
    | true =>
      have hl' : h'.loads = h.loads ++ [⟨model, h.swapOut model cat.models c.id⟩] := by
        refine hloads.trans ?_
        rw [if_pos (by simpa [state] using hi)]
        rfl
      have hstart := startedLoad_eq hans hi
      by_cases hca : c.id = a
      · subst hca
        exact load_hands_over hm hget hi ha hb hab (hok1 hstart) (hok3 hstart) hst hl'
      · by_cases hcb : c.id = b
        · subst hcb
          exact (load_hands_over hm hget hi hb ha hab.symm (hok2 hstart) (hok4 hstart) hst
            hl').symm
        · exact hI.loadOther (Catalog.get_id hget) hca hcb hst hl'
  | unloadFails _ => exact hI
  | @unload id _ _ _ _ _ _ hl =>
    obtain ⟨-, hlc, hloads⟩ := unloadLocked_ok hl
    refine hI.mono (fun o _ => ?_) fun _ _ _ hH t ht => hH.waits t (hloads ▸ ht)
    by_cases ho : o = id
    · refine Or.inr ((congrArg Lifecycle.state ((hlc o).trans (if_pos ho))).trans ?_)
      exact Lifecycle.requestUnload_state _
    · exact Or.inl (congrArg Lifecycle.state ((hlc o).trans (if_neg ho)))
  | restore => exact hI.congr (fun _ => rfl) rfl
  | restored _ => exact hI.congr (fun _ => rfl) rfl
  | @waitEnds k t other rest hk hw hidle =>
    refine hI.waitGoesOn hk hw fun out into _ hH _ => ?_
    rintro rfl
    rw [hH.unloading] at hidle
    cases hidle
  | @waitTimesOut k t other rest hk hw =>
    have hgave : h.gaveUp (.waitTimesOut k) = some (t.model.id, other) := by
      simp [gaveUp, hk, hw]
    rw [hgave] at hok5 hok6
    refine hI.waitGoesOn hk hw fun out into hp _ hid => ?_
    rintro rfl
    rcases hp with ⟨rfl, rfl⟩ | ⟨rfl, rfl⟩
    · exact hok6 (by rw [← hid])
    · exact hok5 (by rw [← hid])
  | loadEnds hk hw => exact hI.loadEnds hm hk hw
  | cancelLane _ _ _ => exact hI.congr (fun _ => rfl) rfl
  | obtainLane _ _ _ _ => exact hI.congr (fun _ => rfl) rfl
  | dropLane _ _ _ => exact hI.congr (fun _ => rfl) rfl
  | drainTimesOut _ _ _ => exact hI.congr (fun _ => rfl) rfl
  | unloadEnds hk _ => exact hI.unloadEnds hm hk

/-! ## Over whole runs -/

instance : Decidable (h.InMemory o) := by unfold InMemory; infer_instance

end ModelHost

end StudioWorker
