import StudioWorker.Host.Invariant

/-!
# Host.Lane — one request at a time, and none after the drain

Each loaded instance has its own lane.  A caller fetches the instance under the `entries` lock,
queues on the lane's `busy` lock and runs its body only if the lane is not cancelled then.  The
unload thread raises `cancel` first, drains the lane by taking `busy`, and drops it at once.

* `Laned`: what the host's own threads keep about lanes.
* `Orderly`: with the callers, `busy` names the caller that holds the lane.
* `Quiet`: a cancelled lane no body runs on.  It stays so, whoever still waits for it.
-/

namespace StudioWorker

open Lib Lib.System

/-- The unload thread took the lane: it holds it, or held it and drained it in time. -/
def UnloadPhase.tookLane : UnloadPhase → Bool
  | holding => true
  | drained obtained => obtained
  | _ => false

namespace UnloadThread

/-- The unload thread holds the lock of lane `l`. -/
def holds (t : UnloadThread) (l : LaneId) : Bool := t.phase = .holding ∧ t.lane = some l

theorem holds_of_ne {t : UnloadThread} {l : LaneId} (h : t.phase ≠ .holding) :
    t.holds l = false := decide_eq_false fun hh => h hh.1

end UnloadThread

namespace ModelHost

variable {cat : Catalog} {h h' : ModelHost} {e : HostEvent}

/-! ## Lanes and unload threads -/

/-- Lanes and the unload threads over them. -/
structure Laned (h : ModelHost) : Prop where
  /-- `busy` names an unload exactly while one unload thread holds the lane. -/
  holding : ∀ l, h.unloads.countP (·.holds l) = if (h.lanes l).busy = some .unload then 1 else 0
  lane : ∀ t ∈ h.unloads, ∀ l ∈ t.lane, l < h.nextLane
  /-- An unload thread raises `cancel` before anything else. -/
  cancelled : ∀ t ∈ h.unloads, ∀ l ∈ t.lane, t.phase ≠ .started → (h.lanes l).cancel = true
  placed : ∀ id, ∀ loaded ∈ (h.entries id).loaded, loaded.lane < h.nextLane
  fresh : ∀ l, h.nextLane ≤ l → (h.lanes l).busy = none

theorem laned_new (r : Residency) : (ModelHost.new r).Laned where
  holding := fun _ => rfl
  lane := fun _ ht => by cases ht
  cancelled := fun _ ht => by cases ht
  placed := fun _ _ hl => by cases hl
  fresh := fun _ _ => rfl

/-- Unload threads that start, and weights that go, keep it. -/
theorem Laned.append (hl : h.Laned) {new : List UnloadThread} (hlanes : h'.lanes = h.lanes)
    (hnext : h'.nextLane = h.nextLane)
    (hplaced : ∀ id, ∀ loaded ∈ (h'.entries id).loaded, loaded ∈ (h.entries id).loaded)
    (hun : h'.unloads = h.unloads ++ new)
    (hnew : ∀ t ∈ new, t.phase = .started ∧ ∀ l ∈ t.lane, l < h.nextLane) : h'.Laned where
  holding := fun l => by
    have h0 : new.countP (·.holds l) = 0 := by
      refine List.countP_eq_zero.mpr fun t ht => ?_
      rw [UnloadThread.holds_of_ne (by rw [(hnew t ht).1]; simp)]
      simp
    rw [hun, List.countP_append, h0, Nat.add_zero, hlanes]
    exact hl.holding l
  lane := fun t ht l htl => by
    rw [hnext]
    rw [hun] at ht
    rcases List.mem_append.mp ht with ht | ht
    · exact hl.lane t ht l htl
    · exact (hnew t ht).2 l htl
  cancelled := fun t ht l htl hp => by
    rw [hlanes]
    rw [hun] at ht
    rcases List.mem_append.mp ht with ht | ht
    · exact hl.cancelled t ht l htl hp
    · exact absurd (hnew t ht).1 hp
  placed := fun id loaded hld => by
    rw [hnext]
    exact hl.placed id loaded (hplaced id loaded hld)
  fresh := fun l hle => by
    rw [hlanes]
    exact hl.fresh l (hnext ▸ hle)

/-- Weights that go keep it. -/
theorem Laned.quiet (hl : h.Laned) (hlanes : h'.lanes = h.lanes) (hnext : h'.nextLane = h.nextLane)
    (hplaced : ∀ id, ∀ loaded ∈ (h'.entries id).loaded, loaded ∈ (h.entries id).loaded)
    (hun : h'.unloads = h.unloads) : h'.Laned := by
  have hun : h'.unloads = h.unloads ++ [] := hun.trans (List.append_nil _).symm
  exact hl.append hlanes hnext hplaced hun fun _ ht => by cases ht

theorem Laned.setResident (hl : h.Laned) {id : String} {b : Bool} {save : Except String Unit} :
    (h.setResident id b save).2.Laned :=
  hl.quiet rfl rfl (fun _ _ hld => hld) rfl

theorem Laned.requestUnloadLocked (hl : h.Laned) {id : String} :
    (h.requestUnloadLocked id).Laned := by
  refine hl.append (by simp) (by simp) (fun o loaded hld => by simpa using hld)
    requestUnloadLocked_unloads fun t ht => ?_
  split_ifs at ht
  · rw [List.mem_singleton.mp ht]
    refine ⟨rfl, fun l htl => ?_⟩
    obtain ⟨loaded, hld, rfl⟩ := Option.map_eq_some_iff.mp htl
    exact hl.placed id loaded hld
  · cases ht

theorem Laned.requestLoadLocked (hl : h.Laned) {model : CatalogModel} {out : List String}
    {id : String} : (h.requestLoadLocked model out id).Laned :=
  hl.quiet (by simp) (by simp) (fun o loaded hld => by simpa using hld) (by simp)

theorem Laned.loadLocked (hl : h.Laned) {model : CatalogModel} {catalog : List CatalogModel}
    {probe : Probe} {save : Saves} {id : String} :
    (h.loadLocked model catalog probe save id).2.Laned :=
  loadLocked_keeps (fun _ _ _ _ _ hI => hI.setResident) (fun _ _ hI => hI.requestUnloadLocked)
    (fun _ _ hI => hI.requestLoadLocked) hl

theorem Laned.unloadLocked (hl : h.Laned) {save : Saves} {id : String} :
    (h.unloadLocked save id).2.Laned :=
  unloadLocked_keeps (fun _ _ _ _ hI => hI.setResident) (fun _ _ hI => hI.requestUnloadLocked) hl

/-- A load that ends well puts its instance on a lane nobody has seen. -/
theorem Laned.finishLoad (hl : h.Laned) {model : CatalogModel} (result : Except String Unit)
    (hst : h.state model.id = .loading) : (h.finishLoad model result).Laned := by
  have hent := finishLoad_entries result hst
  have hun := finishLoad_unloads result hst
  obtain ⟨hlanes, hnext⟩ := finishLoad_lanes result hst
  cases result with
  | error reason =>
    rw [if_neg (by simp)] at hlanes hnext
    refine hl.append hlanes hnext (fun id loaded hld => ?_) hun fun t ht => by cases ht
    rw [hent] at hld
    by_cases hid : id = model.id
    · rw [hid, Function.update_self] at hld
      cases hld
    · rwa [Function.update_of_ne hid] at hld
  | ok u =>
    rw [if_pos rfl] at hlanes hnext
    have hpend : ∀ t ∈ pendingUnload (h.entries model.id).lifecycle model.id h.nextLane (.ok u),
        t.phase = .started ∧ t.lane = some h.nextLane := by
      intro t ht
      unfold pendingUnload at ht
      split_ifs at ht
      · rw [List.mem_singleton.mp ht]
        exact ⟨rfl, rfl⟩
      · cases ht
    have hother : ∀ l, l < h.nextLane → (h.finishLoad model (.ok u)).lanes l = h.lanes l := by
      intro l hlt
      rw [hlanes, Function.update_of_ne (Nat.ne_of_lt hlt)]
    have hbusy : ∀ l, ((h.finishLoad model (.ok u)).lanes l).busy = (h.lanes l).busy := by
      intro l
      by_cases heq : l = h.nextLane
      · rw [hlanes, heq, Function.update_self, hl.fresh h.nextLane (Nat.le_refl _)]
        rfl
      · rw [hlanes, Function.update_of_ne heq]
    refine ⟨fun l => ?_, fun t ht l htl => ?_, fun t ht l htl hp => ?_, fun id loaded hld => ?_,
      fun l hle => ?_⟩
    · have h0 : (pendingUnload (h.entries model.id).lifecycle model.id h.nextLane
          (.ok u)).countP (·.holds l) = 0 := by
        refine List.countP_eq_zero.mpr fun t ht => ?_
        rw [UnloadThread.holds_of_ne (by rw [(hpend t ht).1]; simp)]
        simp
      rw [hun, List.countP_append, h0, Nat.add_zero, hbusy]
      exact hl.holding l
    · rw [hnext]
      rw [hun] at ht
      rcases List.mem_append.mp ht with ht | ht
      · exact Nat.lt_succ_of_lt (hl.lane t ht l htl)
      · rw [(hpend t ht).2] at htl
        rw [← Option.some.inj htl]
        exact Nat.lt_succ_self _
    · rw [hun] at ht
      rcases List.mem_append.mp ht with ht | ht
      · rw [hother l (hl.lane t ht l htl)]
        exact hl.cancelled t ht l htl hp
      · exact absurd (hpend t ht).1 hp
    · rw [hnext]
      rw [hent] at hld
      by_cases hid : id = model.id
      · rw [hid, Function.update_self] at hld
        obtain rfl := Option.some.inj hld
        exact Nat.lt_succ_self _
      · rw [Function.update_of_ne hid] at hld
        exact Nat.lt_succ_of_lt (hl.placed id loaded hld)
    · rw [hbusy]
      rw [hnext] at hle
      exact hl.fresh l (Nat.le_of_succ_le hle)

/-- The end of an unload, which holds no lane any more, keeps it. -/
theorem Laned.unloadEnds (hl : h.Laned) {k : ℕ} {t : UnloadThread} (hk : h.unloads[k]? = some t)
    (hr : t.ready = true) (hst : h.state t.id = .unloading) :
    ({ h with unloads := h.unloads.eraseIdx k }.finishUnload t.id).Laned := by
  have hent := finishUnload_entries (h := { h with unloads := h.unloads.eraseIdx k }) hst
  have hp : t.phase ≠ .holding := fun hh => by
    rw [UnloadThread.ready, hh] at hr
    cases hr
  refine ⟨fun l => ?_, fun t' ht => ?_, fun t' ht => ?_, fun id loaded hld => ?_, fun l hle => ?_⟩
  · rw [finishUnload_unloads, finishUnload_lanes]
    have h1 := Pool.countP_eraseIdx hk (·.holds l)
    rw [UnloadThread.holds_of_ne hp, if_neg (by simp), Nat.add_zero] at h1
    exact h1.symm.trans (hl.holding l)
  · rw [finishUnload_unloads] at ht
    rw [finishUnload_nextLane]
    exact hl.lane t' (List.mem_of_mem_eraseIdx ht)
  · rw [finishUnload_unloads] at ht
    rw [finishUnload_lanes]
    exact hl.cancelled t' (List.mem_of_mem_eraseIdx ht)
  · rw [finishUnload_nextLane]
    rw [hent] at hld
    by_cases hid : id = t.id
    · rw [hid, Function.update_self] at hld
      cases hld
    · rw [Function.update_of_ne hid] at hld
      exact hl.placed id loaded hld
  · rw [finishUnload_lanes]
    rw [finishUnload_nextLane] at hle
    exact hl.fresh l hle

/-- An unload thread that holds the lane is named by it. -/
theorem Laned.busy_of_holding (hl : h.Laned) {t : UnloadThread} {l : LaneId} (ht : t ∈ h.unloads)
    (htl : t.lane = some l) (hp : t.phase = .holding) : (h.lanes l).busy = some .unload := by
  by_contra hne
  have h1 := hl.holding l
  rw [if_neg hne] at h1
  exact List.countP_eq_zero.mp h1 t ht (decide_eq_true ⟨hp, htl⟩)

/-- A step of an unload thread keeps it, if `busy` follows the thread and `cancel` only rises. -/
theorem Laned.setPhase (hl : h.Laned) {k : ℕ} {t : UnloadThread} {l : LaneId} {lane : Lane}
    {phase : UnloadPhase} (hk : h.unloads[k]? = some t) (htl : t.lane = some l)
    (hbusy : (if lane.busy = some .unload then 1 else 0) + (if t.phase = .holding then 1 else 0) =
      (if (h.lanes l).busy = some .unload then 1 else 0) + if phase = .holding then 1 else 0)
    (hkeep : (h.lanes l).cancel = true → lane.cancel = true)
    (hraised : phase ≠ .started → lane.cancel = true) :
    ((h.setLane l lane).setPhase k t phase).Laned := by
  have hlt := hl.lane t (Pool.mem_of_getElem? hk) l htl
  have hself : ((h.setLane l lane).setPhase k t phase).lanes l = lane := Function.update_self ..
  have hother : ∀ l', l' ≠ l → ((h.setLane l lane).setPhase k t phase).lanes l' = h.lanes l' :=
    fun l' hne => Function.update_of_ne hne ..
  refine ⟨fun l' => ?_, fun t' ht l' htl' => ?_, fun t' ht l' htl' hp => ?_,
    fun id loaded hld => hl.placed id loaded hld, fun l' hle => ?_⟩
  · have h1 := Pool.countP_set_add (b := { t with phase := phase }) hk (·.holds l')
    rw [hl.holding l'] at h1
    show (h.unloads.set k { t with phase := phase }).countP (·.holds l') = _
    by_cases heq : l' = l
    · rw [heq] at h1 ⊢
      rw [hself]
      have h2 : t.holds l = decide (t.phase = .holding) := by simp [UnloadThread.holds, htl]
      have h3 : UnloadThread.holds { t with phase := phase } l = decide (phase = .holding) := by
        simp [UnloadThread.holds, htl]
      rw [h2, h3] at h1
      simp only [decide_eq_true_eq] at h1
      omega
    · rw [hother l' heq]
      have hne : t.lane ≠ some l' := fun hh => heq (Option.some.inj (hh.symm.trans htl))
      have h2 : t.holds l' = false := decide_eq_false fun hh => hne hh.2
      have h3 : UnloadThread.holds { t with phase := phase } l' = false :=
        decide_eq_false fun hh => hne hh.2
      rw [h2, h3] at h1
      exact h1
  · rcases Pool.mem_set hk ht with rfl | ht
    · exact hl.lane t (Pool.mem_of_getElem? hk) l' htl'
    · exact hl.lane t' ht l' htl'
  · have hcancel : t' ∈ h.unloads → t'.phase ≠ .started →
        (((h.setLane l lane).setPhase k t phase).lanes l').cancel = true := by
      intro hin hp
      have hc := hl.cancelled t' hin l' htl' hp
      by_cases heq : l' = l
      · rw [heq] at hc ⊢
        rw [hself]
        exact hkeep hc
      · rw [hother l' heq]
        exact hc
    rcases Pool.mem_set hk ht with rfl | ht
    · obtain rfl : l = l' := Option.some.inj (htl.symm.trans htl')
      rw [hself]
      exact hraised hp
    · exact hcancel ht hp
  · rw [hother l' (Nat.ne_of_gt (Nat.lt_of_lt_of_le hlt hle))]
    exact hl.fresh l' hle

theorem setLane_self (l : LaneId) : h.setLane l (h.lanes l) = h := by
  unfold setLane
  rw [Function.update_eq_self]

theorem laned_step (hm : h.Matched) (hs : step cat h e = some h') (hl : h.Laned) : h'.Laned := by
  have hsame : ∀ {rs : List (List String)}, { h with restores := rs }.Laned := fun {rs} =>
    hl.quiet rfl rfl (fun _ _ hld => hld) rfl
  have hloads : ∀ {ls : List LoadThread}, { h with loads := ls }.Laned := fun {ls} =>
    hl.quiet rfl rfl (fun _ _ hld => hld) rfl
  cases step_trans hs with
  | loadRejected _ _ => exact hsame
  | loadFails _ _ _ hll =>
    obtain rfl := congrArg Prod.snd hll
    exact hsame.loadLocked
  | load _ _ _ _ hll =>
    obtain rfl := congrArg Prod.snd hll
    exact hsame.loadLocked
  | unloadFails _ => exact hl
  | unload _ _ hll =>
    obtain rfl := congrArg Prod.snd hll
    exact hl.unloadLocked
  | restore => exact hsame
  | restored _ => exact hsame
  | waitEnds _ _ _ => exact hloads
  | waitTimesOut _ _ => exact hloads
  | @loadEnds k result t hk hw =>
    exact hloads.finishLoad (h := { h with loads := h.loads.eraseIdx k }) result
      (hm.loading_of_getElem? hk)
  | cancelLane hk htl hp => exact hl.setPhase hk htl (by simp [hp]) (fun _ => rfl) (fun _ => rfl)
  | @obtainLane k t l hk htl hp hb =>
    exact hl.setPhase hk htl (by simp [hp, hb]) (fun hh => hh) fun _ =>
      hl.cancelled t (Pool.mem_of_getElem? hk) l htl (by simp [hp])
  | @dropLane k t l hk htl hp =>
    have hb := hl.busy_of_holding (Pool.mem_of_getElem? hk) htl hp
    exact hl.setPhase hk htl (by simp [hp, hb]) (fun hh => hh) fun _ =>
      hl.cancelled t (Pool.mem_of_getElem? hk) l htl (by simp [hp])
  | @drainTimesOut k t l hk htl hp =>
    have h1 : ((h.setLane l (h.lanes l)).setPhase k t (.drained false)).Laned :=
      hl.setPhase hk htl (by simp [hp]) (fun hh => hh) fun _ =>
        hl.cancelled t (Pool.mem_of_getElem? hk) l htl (by simp [hp])
    rwa [setLane_self] at h1
  | unloadEnds hk hr =>
    exact hl.unloadEnds hk hr (hm.unloading_of_mem (Pool.mem_of_getElem? hk))

/-- No event of the host lowers a `cancel` in use, or takes a lane from a caller or gives it to
one. -/
theorem step_lanes (hm : h.Matched) (hl : h.Laned) (hs : step cat h e = some h') :
    h.nextLane ≤ h'.nextLane ∧
      (∀ l < h.nextLane, (h.lanes l).cancel = true → (h'.lanes l).cancel = true) ∧
      ∀ l c, (h'.lanes l).busy = some (.caller c) ↔ (h.lanes l).busy = some (.caller c) := by
  have hsame : h'.lanes = h.lanes → h'.nextLane = h.nextLane → h.nextLane ≤ h'.nextLane ∧
      (∀ l < h.nextLane, (h.lanes l).cancel = true → (h'.lanes l).cancel = true) ∧
      ∀ l c, (h'.lanes l).busy = some (.caller c) ↔ (h.lanes l).busy = some (.caller c) := by
    intro h1 h2
    rw [h1, h2]
    exact ⟨Nat.le_refl _, fun _ _ hh => hh, fun _ _ => Iff.rfl⟩
  have hset : ∀ (l₀ : LaneId) (lane : Lane), h'.lanes = Function.update h.lanes l₀ lane →
      h'.nextLane = h.nextLane → ((h.lanes l₀).cancel = true → lane.cancel = true) →
      (∀ c, lane.busy = some (.caller c) ↔ (h.lanes l₀).busy = some (.caller c)) →
      h.nextLane ≤ h'.nextLane ∧
      (∀ l < h.nextLane, (h.lanes l).cancel = true → (h'.lanes l).cancel = true) ∧
      ∀ l c, (h'.lanes l).busy = some (.caller c) ↔ (h.lanes l).busy = some (.caller c) := by
    intro l₀ lane h1 h2 h3 h4
    refine ⟨Nat.le_of_eq h2.symm, fun l _ hc => ?_, fun l c => ?_⟩
    · by_cases heq : l = l₀
      · rw [h1, heq, Function.update_self]
        exact h3 (heq ▸ hc)
      · rwa [h1, Function.update_of_ne heq]
    · by_cases heq : l = l₀
      · rw [h1, heq, Function.update_self]
        exact h4 c
      · rw [h1, Function.update_of_ne heq]
  cases step_trans hs with
  | loadFails _ _ _ hll =>
    obtain rfl := congrArg Prod.snd hll
    exact hsame loadLocked_lanes loadLocked_nextLane
  | load _ _ _ _ hll =>
    obtain rfl := congrArg Prod.snd hll
    exact hsame loadLocked_lanes loadLocked_nextLane
  | unload _ _ hll =>
    obtain rfl := congrArg Prod.snd hll
    exact hsame unloadLocked_lanes unloadLocked_nextLane
  | @loadEnds k result t hk hw =>
    obtain ⟨h1, h2⟩ := finishLoad_lanes (h := { h with loads := h.loads.eraseIdx k }) result
      (hm.loading_of_getElem? hk)
    cases result with
    | error reason =>
      rw [if_neg (by simp)] at h1 h2
      exact hsame h1 h2
    | ok u =>
      rw [if_pos rfl] at h1 h2
      refine ⟨by rw [h2]; exact Nat.le_succ _, fun l hlt hc => ?_, fun l c => ?_⟩
      · rw [h1, Function.update_of_ne (Nat.ne_of_lt hlt)]
        exact hc
      · by_cases heq : l = h.nextLane
        · rw [h1, heq, Function.update_self, hl.fresh h.nextLane (Nat.le_refl _)]
          simp [Lane.new]
        · rw [h1, Function.update_of_ne heq]
  | @cancelLane k t l hk htl hp => exact hset l _ rfl rfl (fun _ => rfl) fun _ => Iff.rfl
  | @obtainLane k t l hk htl hp hb =>
    exact hset l _ rfl rfl (fun hh => hh) fun c => by simp [hb]
  | @dropLane k t l hk htl hp =>
    have hb := hl.busy_of_holding (Pool.mem_of_getElem? hk) htl hp
    exact hset l _ rfl rfl (fun hh => hh) fun c => by simp [hb]
  | unloadEnds _ _ => exact hsame finishUnload_lanes finishUnload_nextLane
  | _ => exact hsame rfl rfl

/-- Taking and dropping a lane's lock is between callers: no unload thread is concerned. -/
theorem Laned.setBusy (hl : h.Laned) {l : LaneId} {busy : Option Holder} (hlt : l < h.nextLane)
    (hold : (h.lanes l).busy ≠ some .unload) (hnew : busy ≠ some .unload) :
    (h.setLane l { h.lanes l with busy := busy }).Laned := by
  have hself : (h.setLane l { h.lanes l with busy := busy }).lanes l =
      { h.lanes l with busy := busy } := Function.update_self ..
  have hother : ∀ l', l' ≠ l →
      (h.setLane l { h.lanes l with busy := busy }).lanes l' = h.lanes l' :=
    fun l' hne => Function.update_of_ne hne ..
  refine ⟨fun l' => ?_, hl.lane, fun t ht l' htl hp => ?_, hl.placed, fun l' hle => ?_⟩
  · have h1 := hl.holding l'
    by_cases heq : l' = l
    · rw [heq] at h1 ⊢
      rw [hself, if_neg hnew]
      rwa [if_neg hold] at h1
    · rw [hother l' heq]
      exact h1
  · have h1 := hl.cancelled t ht l' htl hp
    by_cases heq : l' = l
    · rw [heq] at h1 ⊢
      rw [hself]
      exact h1
    · rw [hother l' heq]
      exact h1
  · rw [hother l' (Nat.ne_of_gt (Nat.lt_of_lt_of_le hlt hle))]
    exact hl.fresh l' hle

/-- An unload thread that took its lane had taken it before, or takes it now, free and
cancelled. -/
theorem step_tookLane (hl : h.Laned) (hm : h.Matched) (hs : step cat h e = some h')
    {t : UnloadThread} {l : LaneId} (ht : t ∈ h'.unloads) (hp : t.phase.tookLane = true)
    (htl : t.lane = some l) :
    (∃ t₀ ∈ h.unloads, t₀.phase.tookLane = true ∧ t₀.lane = some l) ∨
      ((h.lanes l).busy = none ∧ (h.lanes l).cancel = true ∧ l < h.nextLane) := by
  have hstarted : t ∈ h.unloads ∨ t.phase = .started →
      ∃ t₀ ∈ h.unloads, t₀.phase.tookLane = true ∧ t₀.lane = some l := by
    rintro (h1 | h1)
    · exact ⟨t, h1, hp, htl⟩
    · rw [h1] at hp
      cases hp
  cases step_trans hs with
  | @loadFails _ c _ _ _ _ _ _ hll =>
    obtain rfl := congrArg Prod.snd hll
    exact Or.inl (hstarted (mem_loadLocked_unloads (h := { h with restores := c.restores }) ht))
  | @load _ c _ _ _ _ _ _ _ hll =>
    obtain rfl := congrArg Prod.snd hll
    exact Or.inl (hstarted (mem_loadLocked_unloads (h := { h with restores := c.restores }) ht))
  | unload _ _ hll =>
    obtain rfl := congrArg Prod.snd hll
    exact Or.inl (hstarted (mem_unloadLocked_unloads ht))
  | @loadEnds k result t₀ hk hw =>
    rw [finishLoad_unloads (h := { h with loads := h.loads.eraseIdx k }) result
      (hm.loading_of_getElem? hk)] at ht
    refine Or.inl (hstarted ((List.mem_append.mp ht).imp_right fun ht => ?_))
    cases result with
    | error reason => cases ht
    | ok u =>
      unfold pendingUnload at ht
      split_ifs at ht
      · rw [List.mem_singleton.mp ht]
      · cases ht
  | cancelLane hk _ _ =>
    rcases Pool.mem_set hk ht with rfl | ht
    · cases hp
    · exact Or.inl ⟨t, ht, hp, htl⟩
  | @obtainLane k t₀ l₀ hk htl₀ hp₀ hb =>
    rcases Pool.mem_set hk ht with rfl | ht
    · obtain rfl : l₀ = l := Option.some.inj (htl₀.symm.trans htl)
      have hmem := Pool.mem_of_getElem? hk
      exact Or.inr ⟨hb, hl.cancelled t₀ hmem l₀ htl₀ (by simp [hp₀]), hl.lane t₀ hmem l₀ htl₀⟩
    · exact Or.inl ⟨t, ht, hp, htl⟩
  | @dropLane k t₀ l₀ hk htl₀ hp₀ =>
    rcases Pool.mem_set hk ht with rfl | ht
    · exact Or.inl ⟨t₀, Pool.mem_of_getElem? hk, by rw [hp₀]; rfl, htl⟩
    · exact Or.inl ⟨t, ht, hp, htl⟩
  | drainTimesOut hk _ _ =>
    rcases Pool.mem_set hk ht with rfl | ht
    · cases hp
    · exact Or.inl ⟨t, ht, hp, htl⟩
  | unloadEnds _ _ =>
    rw [finishUnload_unloads] at ht
    exact Or.inl ⟨t, List.mem_of_mem_eraseIdx ht, hp, htl⟩
  | _ => exact Or.inl ⟨t, ht, hp, htl⟩

end ModelHost

end StudioWorker
