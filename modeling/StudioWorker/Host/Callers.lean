import StudioWorker.Host.Lane

/-!
# Host.Callers — `with_lane` and `try_with_lane` beside the host

Any number of callers, each somewhere between fetching an instance and letting its lane go.  A
lane is quiet once it is cancelled and no body runs on it; the unload thread makes it so when it
takes the lane, and no step undoes it: a caller that fetched the instance before still gets the
lock, finds the lane cancelled and leaves.
-/

namespace StudioWorker

open Lib Lib.System

/-- Where a request is: `fetched` from `lane_of`, `holding` the lane's lock, `running` its body, or
`leaving` with the lock still held. -/
inductive Caller where
  | idle
  | fetched (loaded : Loaded)
  | holding (loaded : Loaded)
  | running (loaded : Loaded)
  | leaving (loaded : Loaded)
deriving DecidableEq

namespace Caller

/-- The lane of the instance the caller fetched. -/
def lane : Caller → Option LaneId
  | idle => none
  | fetched loaded | holding loaded | running loaded | leaving loaded => some loaded.lane

/-- The lane whose lock the caller holds. -/
def holds : Caller → Option LaneId
  | holding loaded | running loaded | leaving loaded => some loaded.lane
  | _ => none

/-- The lane the caller's body runs on. -/
def runsOn : Caller → Option LaneId
  | running loaded => some loaded.lane
  | _ => none

theorem holds_of_runsOn {c : Caller} {l : LaneId} (h : c.runsOn = some l) : c.holds = some l := by
  cases c with
  | running loaded => exact h
  | _ => cases h

end Caller

structure LaneHost where
  host : ModelHost
  callers : ℕ → Caller

inductive LaneEvent where
  | host (e : HostEvent)
  /-- `lane_of`, under the `entries` lock. -/
  | fetch (c : ℕ) (id : String)
  /-- The caller gets the lane's lock. -/
  | lock (c : ℕ)
  /-- `try_with_lane` finds the lane busy. -/
  | laneBusy (c : ℕ)
  /-- `serve` reads the cancel flag, under the lane's lock. -/
  | serve (c : ℕ)
  | bodyEnds (c : ℕ)
  /-- The lane's lock is dropped. -/
  | release (c : ℕ)

namespace LaneHost

open ModelHost (pairCatalog roomy empty)

def setCaller (s : LaneHost) (c : ℕ) (p : Caller) : LaneHost :=
  { s with callers := Function.update s.callers c p }

def setBusy (s : LaneHost) (l : LaneId) (busy : Option Holder) : LaneHost :=
  { s with host := s.host.setLane l { s.host.lanes l with busy := busy } }

/-- One event of the host or of a caller. -/
def step (cat : Catalog) : System LaneHost LaneEvent
  | s, .host e => (ModelHost.step cat s.host e).map fun h => { s with host := h }
  | s, .fetch c id =>
    match s.callers c with
    | .idle =>
      match s.host.laneOf id with
      | .ok loaded => some (s.setCaller c (.fetched loaded))
      | .error _ => some s
    | _ => none
  | s, .lock c =>
    match s.callers c with
    | .fetched loaded =>
      if (s.host.lanes loaded.lane).busy = none then
        some ((s.setBusy loaded.lane (some (.caller c))).setCaller c (.holding loaded))
      else none
    | _ => none
  | s, .laneBusy c =>
    match s.callers c with
    | .fetched loaded =>
      if (s.host.lanes loaded.lane).busy = none then none else some (s.setCaller c .idle)
    | _ => none
  | s, .serve c =>
    match s.callers c with
    | .holding loaded =>
      if (s.host.lanes loaded.lane).cancel then some (s.setCaller c (.leaving loaded))
      else some (s.setCaller c (.running loaded))
    | _ => none
  | s, .bodyEnds c =>
    match s.callers c with
    | .running loaded => some (s.setCaller c (.leaving loaded))
    | _ => none
  | s, .release c =>
    match s.callers c with
    | .leaving loaded => some ((s.setBusy loaded.lane none).setCaller c .idle)
    | _ => none

/-- Everything an event can do. -/
inductive Trans (cat : Catalog) (s : LaneHost) : LaneEvent → LaneHost → Prop where
  | host {e : HostEvent} {h : ModelHost} (hs : ModelHost.step cat s.host e = some h) :
      Trans cat s (.host e) { s with host := h }
  | fetched {c : ℕ} {id : String} {loaded : Loaded} (hc : s.callers c = .idle)
      (hl : (s.host.entries id).loaded = some loaded) :
      Trans cat s (.fetch c id) (s.setCaller c (.fetched loaded))
  | notLoaded {c : ℕ} {id : String} : Trans cat s (.fetch c id) s
  | locked {c : ℕ} {loaded : Loaded} (hc : s.callers c = .fetched loaded)
      (hb : (s.host.lanes loaded.lane).busy = none) :
      Trans cat s (.lock c)
        ((s.setBusy loaded.lane (some (.caller c))).setCaller c (.holding loaded))
  | laneBusy {c : ℕ} {loaded : Loaded} (hc : s.callers c = .fetched loaded) :
      Trans cat s (.laneBusy c) (s.setCaller c .idle)
  | cancelled {c : ℕ} {loaded : Loaded} (hc : s.callers c = .holding loaded) :
      Trans cat s (.serve c) (s.setCaller c (.leaving loaded))
  | served {c : ℕ} {loaded : Loaded} (hc : s.callers c = .holding loaded)
      (hcancel : (s.host.lanes loaded.lane).cancel = false) :
      Trans cat s (.serve c) (s.setCaller c (.running loaded))
  | bodyEnds {c : ℕ} {loaded : Loaded} (hc : s.callers c = .running loaded) :
      Trans cat s (.bodyEnds c) (s.setCaller c (.leaving loaded))
  | released {c : ℕ} {loaded : Loaded} (hc : s.callers c = .leaving loaded) :
      Trans cat s (.release c) ((s.setBusy loaded.lane none).setCaller c .idle)

variable {cat : Catalog} {s s' : LaneHost} {e : LaneEvent}

theorem laneOf_ok {h : ModelHost} {id : String} {loaded : Loaded}
    (hl : h.laneOf id = .ok loaded) : (h.entries id).loaded = some loaded := by
  unfold ModelHost.laneOf at hl
  split at hl
  · rename_i hld _
    obtain rfl := Except.ok.inj hl
    exact hld
  · cases hl

theorem step_trans (hs : step cat s e = some s') : Trans cat s e s' := by
  cases e with
  | host e =>
    obtain ⟨h, hh, rfl⟩ := Option.map_eq_some_iff.mp hs
    exact .host hh
  | fetch c id =>
    rw [step] at hs
    split at hs
    · rename_i hc
      split at hs
      · rename_i hl
        exact Option.some.inj hs ▸ .fetched hc (laneOf_ok hl)
      · exact Option.some.inj hs ▸ .notLoaded
    · cases hs
  | lock c =>
    rw [step] at hs
    split at hs
    · rename_i hc
      split_ifs at hs with hb
      exact Option.some.inj hs ▸ .locked hc hb
    · cases hs
  | laneBusy c =>
    rw [step] at hs
    split at hs
    · rename_i hc
      split_ifs at hs
      exact Option.some.inj hs ▸ .laneBusy hc
    · cases hs
  | serve c =>
    rw [step] at hs
    split at hs
    · rename_i hc
      split_ifs at hs with hb
      · exact Option.some.inj hs ▸ .cancelled hc
      · exact Option.some.inj hs ▸ .served hc (Bool.eq_false_iff.mpr hb)
    · cases hs
  | bodyEnds c =>
    rw [step] at hs
    split at hs
    · rename_i hc
      exact Option.some.inj hs ▸ .bodyEnds hc
    · cases hs
  | release c =>
    rw [step] at hs
    split at hs
    · rename_i hc
      exact Option.some.inj hs ▸ .released hc
    · cases hs

/-! ## Quiet lanes -/

/-- The lane is cancelled for good and no body runs on it. -/
structure Quiet (s : LaneHost) (l : LaneId) : Prop where
  old : l < s.host.nextLane
  cancelled : (s.host.lanes l).cancel = true
  nobody : ∀ c, (s.callers c).runsOn ≠ some l

/-- The host and its callers agree about lanes. -/
structure Orderly (s : LaneHost) : Prop where
  matched : s.host.Matched
  laned : s.host.Laned
  /-- `busy` names the caller that holds the lane. -/
  held : ∀ c l, (s.callers c).holds = some l ↔ (s.host.lanes l).busy = some (.caller c)
  fetched : ∀ c, ∀ l ∈ (s.callers c).lane, l < s.host.nextLane
  /-- A lane an unload thread took is quiet. -/
  quiet : ∀ t ∈ s.host.unloads, t.phase.tookLane = true → ∀ l ∈ t.lane, s.Quiet l

/-! ## Moving a caller -/

section Caller

variable {c : ℕ} {p : Caller}

theorem setCaller_self : (s.setCaller c p).callers c = p := Function.update_self ..

theorem setCaller_of_ne {c' : ℕ} (hne : c' ≠ c) : (s.setCaller c p).callers c' = s.callers c' :=
  Function.update_of_ne hne ..

/-- A caller that starts no body on a quiet lane leaves it quiet. -/
theorem Quiet.setCaller {l : LaneId} (hq : s.Quiet l) (hp : p.runsOn ≠ some l) :
    (s.setCaller c p).Quiet l where
  old := hq.old
  cancelled := hq.cancelled
  nobody := fun c' => by
    by_cases heq : c' = c
    · rw [heq, setCaller_self]
      exact hp
    · rw [setCaller_of_ne heq]
      exact hq.nobody c'

theorem Quiet.setBusy {l l₀ : LaneId} {busy : Option Holder} (hq : s.Quiet l) :
    (s.setBusy l₀ busy).Quiet l where
  old := hq.old
  cancelled := by
    show (Function.update s.host.lanes l₀ { s.host.lanes l₀ with busy := busy } l).cancel = true
    by_cases heq : l = l₀
    · rw [heq, Function.update_self]
      exact heq ▸ hq.cancelled
    · rw [Function.update_of_ne heq]
      exact hq.cancelled
  nobody := hq.nobody

end Caller

/-- **A quiet lane stays quiet.** -/
theorem quiet_step {l : LaneId} (ho : Orderly s) (hs : step cat s e = some s') (hq : s.Quiet l) :
    s'.Quiet l := by
  cases step_trans hs with
  | host hh =>
    obtain ⟨h1, h2, -⟩ := ModelHost.step_lanes ho.matched ho.laned hh
    exact ⟨Nat.lt_of_lt_of_le hq.old h1, h2 l hq.old hq.cancelled, hq.nobody⟩
  | fetched _ _ => exact hq.setCaller (by simp [Caller.runsOn])
  | notLoaded => exact hq
  | locked _ _ => exact hq.setBusy.setCaller (by simp [Caller.runsOn])
  | laneBusy _ => exact hq.setCaller (by simp [Caller.runsOn])
  | cancelled _ => exact hq.setCaller (by simp [Caller.runsOn])
  | served hc hcancel =>
    refine hq.setCaller fun hh => ?_
    rw [Option.some.inj hh, hq.cancelled] at hcancel
    cases hcancel
  | bodyEnds _ => exact hq.setCaller (by simp [Caller.runsOn])
  | released _ => exact hq.setBusy.setCaller (by simp [Caller.runsOn])

/-! ## The host and its callers stay orderly -/

theorem orderly_new (r : Residency) : Orderly ⟨ModelHost.new r, fun _ => .idle⟩ where
  matched := ModelHost.matched_new r
  laned := ModelHost.laned_new r
  held := fun c l => by simp [Caller.holds, ModelHost.new, Lane.new]
  fetched := fun c l hl => by cases hl
  quiet := fun t ht => by cases ht

/-- A caller that keeps the lock it has, or keeps having none, disturbs nothing. -/
theorem Orderly.setCaller {c : ℕ} {p : Caller} (ho : Orderly s)
    (hs : ∀ l, s.Quiet l → (s.setCaller c p).Quiet l) (hholds : p.holds = (s.callers c).holds)
    (hlane : ∀ l ∈ p.lane, l < s.host.nextLane) : Orderly (s.setCaller c p) where
  matched := ho.matched
  laned := ho.laned
  held := fun c' l => by
    by_cases heq : c' = c
    · rw [heq, setCaller_self, hholds]
      exact ho.held c l
    · rw [setCaller_of_ne heq]
      exact ho.held c' l
  fetched := fun c' => by
    by_cases heq : c' = c
    · rw [heq, setCaller_self]
      exact hlane
    · rw [setCaller_of_ne heq]
      exact ho.fetched c'
  quiet := fun t ht hp l hl => hs l (ho.quiet t ht hp l hl)

/-- A caller that takes a free lane, or lets go of the lane it holds, takes `busy` along. -/
theorem Orderly.setBusy {c : ℕ} {p : Caller} {l : LaneId} {busy : Option Holder} (ho : Orderly s)
    (hs : ∀ l', s.Quiet l' → ((s.setBusy l busy).setCaller c p).Quiet l')
    (hlt : l < s.host.nextLane) (hp : ∀ l' ∈ p.lane, l' = l)
    (hown : ∀ l' ≠ l, p.holds ≠ some l' ∧ (s.callers c).holds ≠ some l')
    (hc : p.holds = some l ↔ busy = some (.caller c))
    (hrest : ∀ c' ≠ c, (s.callers c').holds ≠ some l ∧ busy ≠ some (.caller c'))
    (hold : (s.host.lanes l).busy ≠ some .unload) (hnew : busy ≠ some .unload) :
    Orderly ((s.setBusy l busy).setCaller c p) where
  matched := ModelHost.matched_of_sameThreads ho.matched rfl (fun _ => rfl) fun _ => rfl
  laned := ho.laned.setBusy hlt hold hnew
  held := fun c' l' => by
    show _ ↔ (Function.update s.host.lanes l { s.host.lanes l with busy := busy } l').busy = _
    by_cases hl : l' = l
    · rw [hl, Function.update_self]
      by_cases hcc : c' = c
      · rw [hcc, setCaller_self]
        exact hc
      · rw [setCaller_of_ne hcc]
        exact iff_of_false (hrest c' hcc).1 (hrest c' hcc).2
    · rw [Function.update_of_ne hl]
      by_cases hcc : c' = c
      · rw [hcc, setCaller_self, ← ho.held]
        exact iff_of_false (hown l' hl).1 (hown l' hl).2
      · rw [setCaller_of_ne hcc]
        exact ho.held c' l'
  fetched := fun c' l' hl' => by
    by_cases hcc : c' = c
    · rw [hcc, setCaller_self] at hl'
      rw [hp l' hl']
      exact hlt
    · rw [setCaller_of_ne hcc] at hl'
      exact ho.fetched c' l' hl'
  quiet := fun t ht hq l' hl' => hs l' (ho.quiet t ht hq l' hl')

/-- A host event leaves the callers their lanes. -/
theorem Orderly.host {e : HostEvent} {h : ModelHost} (ho : Orderly s)
    (hh : ModelHost.step cat s.host e = some h) : Orderly { s with host := h } := by
  obtain ⟨hnext, -, hbusy⟩ := ModelHost.step_lanes ho.matched ho.laned hh
  have hs : step cat s (.host e) = some { s with host := h } := by rw [step, hh]; rfl
  refine ⟨ModelHost.matched_step hh ho.matched, ModelHost.laned_step ho.matched hh ho.laned,
    fun c l => ?_, fun c l hl => Nat.lt_of_lt_of_le (ho.fetched c l hl) hnext,
    fun t ht hp l htl => quiet_step ho hs ?_⟩
  · exact (ho.held c l).trans (hbusy l c).symm
  · rcases ModelHost.step_tookLane ho.laned ho.matched hh ht hp htl with
      ⟨t₀, ht₀, hp₀, htl₀⟩ | ⟨hfree, hcancel, hlt⟩
    · exact ho.quiet t₀ ht₀ hp₀ l htl₀
    · -- nobody runs a body on a lane whose lock is free
      refine ⟨hlt, hcancel, fun c hrun => ?_⟩
      have h1 := (ho.held c l).mp (Caller.holds_of_runsOn hrun)
      rw [hfree] at h1
      cases h1

theorem orderly_step (hs : step cat s e = some s') (ho : Orderly s) : Orderly s' := by
  have hq : ∀ l, s.Quiet l → s'.Quiet l := fun l => quiet_step ho hs
  cases step_trans hs with
  | host hh => exact ho.host hh
  | @fetched c id loaded hc hl =>
    refine ho.setCaller hq (by rw [hc]; rfl) fun l hl' => ?_
    obtain rfl := Option.some.inj hl'
    exact ho.laned.placed id loaded hl
  | notLoaded => exact ho
  | @locked c loaded hc hb =>
    have hlane : (s.callers c).lane = some loaded.lane := by rw [hc]; rfl
    refine ho.setBusy hq (ho.fetched c _ hlane) (fun l' hl' => (Option.some.inj hl').symm)
      (fun l' hne => ⟨fun hh => hne (Option.some.inj hh).symm, by rw [hc]; simp [Caller.holds]⟩)
      (iff_of_true rfl rfl) (fun c' hne => ⟨fun hh => ?_, fun hh => ?_⟩) (by rw [hb]; simp)
      (by simp)
    · rw [ho.held, hb] at hh
      cases hh
    · exact hne (Holder.caller.inj (Option.some.inj hh)).symm
  | laneBusy hc =>
    exact ho.setCaller hq (by rw [hc]; rfl) fun l hl' => by cases hl'
  | @cancelled c loaded hc =>
    refine ho.setCaller hq (by rw [hc]; rfl) fun l hl' => ho.fetched c l ?_
    rw [hc]
    exact hl'
  | @served c loaded hc _ =>
    refine ho.setCaller hq (by rw [hc]; rfl) fun l hl' => ho.fetched c l ?_
    rw [hc]
    exact hl'
  | @bodyEnds c loaded hc =>
    refine ho.setCaller hq (by rw [hc]; rfl) fun l hl' => ho.fetched c l ?_
    rw [hc]
    exact hl'
  | @released c loaded hc =>
    have hlane : (s.callers c).lane = some loaded.lane := by rw [hc]; rfl
    have hb : (s.host.lanes loaded.lane).busy = some (.caller c) :=
      (ho.held c loaded.lane).mp (by rw [hc]; rfl)
    refine ho.setBusy hq (ho.fetched c _ hlane) (fun l' hl' => by cases hl')
      (fun l' hne => ⟨by simp [Caller.holds], fun hh => ?_⟩)
      (iff_of_false (by simp [Caller.holds]) (by simp))
      (fun c' hne => ⟨fun hh => ?_, by simp⟩) (by rw [hb]; simp) (by simp)
    · rw [hc] at hh
      exact hne (Option.some.inj hh).symm
    · rw [ho.held, hb] at hh
      exact hne (Holder.caller.inj (Option.some.inj hh)).symm

/-! ## What a step does to the bodies -/

/-- Moving one caller starts a body only of that caller. -/
theorem runsOn_setCaller {c c₀ : ℕ} {p : Caller} {l : LaneId} (hno : (s.callers c).runsOn ≠ some l)
    (hrun : ((s.setCaller c₀ p).callers c).runsOn = some l) : c = c₀ ∧ p.runsOn = some l := by
  by_cases hcc : c = c₀
  · rw [hcc, setCaller_self] at hrun
    exact ⟨hcc, hrun⟩
  · rw [setCaller_of_ne hcc] at hrun
    exact absurd hrun hno

/-- A body starts only by the check of a caller that holds the lock, before any unload of the
instance has raised `cancel`. -/
theorem body_starts {c : ℕ} {l : LaneId} (ho : Orderly s) (hs : step cat s e = some s')
    (hno : (s.callers c).runsOn ≠ some l) (hrun : (s'.callers c).runsOn = some l) :
    e = .serve c ∧ (s.host.lanes l).cancel = false ∧ (s.host.lanes l).busy = some (.caller c) ∧
      ∀ t ∈ s.host.unloads, t.lane = some l → t.phase = .started := by
  cases step_trans hs with
  | host _ => exact absurd hrun hno
  | notLoaded => exact absurd hrun hno
  | fetched _ _ => cases (runsOn_setCaller hno hrun).2
  | locked _ _ => cases (runsOn_setCaller (s := s.setBusy _ _) hno hrun).2
  | laneBusy _ => cases (runsOn_setCaller hno hrun).2
  | cancelled _ => cases (runsOn_setCaller hno hrun).2
  | bodyEnds _ => cases (runsOn_setCaller hno hrun).2
  | released _ => cases (runsOn_setCaller (s := s.setBusy _ _) hno hrun).2
  | @served c₀ loaded hc hcancel =>
    obtain ⟨rfl, hl⟩ := runsOn_setCaller hno hrun
    obtain rfl := Option.some.inj hl
    refine ⟨rfl, hcancel, (ho.held c loaded.lane).mp (by rw [hc]; rfl), fun t ht htl => ?_⟩
    by_contra hne
    rw [ho.laned.cancelled t ht loaded.lane htl hne] at hcancel
    cases hcancel

/-- The end of an unload makes its model unloaded. -/
theorem unloadEnds_state {k : ℕ} {t : UnloadThread} (ho : Orderly s)
    (hk : s.host.unloads[k]? = some t)
    (hs : step cat s (.host (.unloadEnds k)) = some s') : s'.host.state t.id = .unloaded := by
  obtain ⟨h', hh, rfl⟩ := Option.map_eq_some_iff.mp hs
  cases ModelHost.step_trans hh with
  | unloadEnds hk' _ =>
    obtain rfl := Option.some.inj (hk.symm.trans hk')
    rw [ModelHost.finishUnload_state (h := { s.host with unloads := s.host.unloads.eraseIdx k })
      (ho.matched.unloading_of_mem (Pool.mem_of_getElem? hk)), if_pos rfl]
  | loadRejected hc _ => cases hc
  | loadFails hc _ _ _ => cases hc
  | load hc _ _ _ _ => cases hc

/-! ## Over whole runs -/

/-- **One body at a time on a lane, started before the cancel, and none after the drain.**  In
every reachable state at most one body runs on a lane; a step starts a body only by the check of a
caller that holds the lock, on a lane whose unload had not raised `cancel`; and once an unload
thread that obtained its lane in time makes its model unloaded, no body runs on that lane in any
state reached from there. -/
theorem lane_serves_in_order {r : Residency} {es : List LaneEvent}
    (hr : run (step cat) ⟨ModelHost.new r, fun _ => .idle⟩ es = some s) :
    (∀ c c' l, (s.callers c).runsOn = some l → (s.callers c').runsOn = some l → c = c') ∧
    (∀ e s' c l, step cat s e = some s' → (s.callers c).runsOn ≠ some l →
      (s'.callers c).runsOn = some l →
      e = .serve c ∧ (s.host.lanes l).cancel = false ∧
        (s.host.lanes l).busy = some (.caller c) ∧
        ∀ t ∈ s.host.unloads, t.lane = some l → t.phase = .started) ∧
    (∀ k t l s', s.host.unloads[k]? = some t → t.lane = some l → t.phase = .drained true →
      step cat s (.host (.unloadEnds k)) = some s' →
      s'.host.state t.id = .unloaded ∧
        ∀ es' s'', run (step cat) s' es' = some s'' → ∀ c, (s''.callers c).runsOn ≠ some l) := by
  have ho : Orderly s := run_invariant (fun _ _ _ ho hs => orderly_step hs ho) (orderly_new r) hr
  refine ⟨fun c c' l h1 h2 => ?_, fun e s' c l hs hno hrun => ?_, fun k t l s' hk htl hp hs => ?_⟩
  · have h3 := (ho.held c l).mp (Caller.holds_of_runsOn h1)
    rw [(ho.held c' l).mp (Caller.holds_of_runsOn h2)] at h3
    exact (Holder.caller.inj (Option.some.inj h3)).symm
  · exact body_starts ho hs hno hrun
  · have hq : s.Quiet l := ho.quiet t (Pool.mem_of_getElem? hk) (by rw [hp]; rfl) l htl
    refine ⟨unloadEnds_state ho hk hs, fun es' s'' hr' => ?_⟩
    exact (run_invariant (I := fun s => Orderly s ∧ s.Quiet l)
      (fun _ _ _ hI hs => ⟨orderly_step hs hI.1, quiet_step hI.1 hs hI.2⟩)
      ⟨orderly_step hs ho, quiet_step ho hs hq⟩ hr').2.nobody

/-- Caller 1 fetched the instance before its unload was asked for; caller 0 was served and left,
and the lane was drained.  Nothing of caller 1 ever runs on it. -/
theorem lane_serves_in_order_drained :
    ∃ s, run (step pairCatalog) ⟨empty, fun _ => .idle⟩
        [.host (.load "a" roomy Saves.ok), .host (.loadEnds 0 (.ok ())), .fetch 0 "a", .fetch 1 "a",
          .lock 0, .serve 0, .host (.unload "a" Saves.ok), .host (.cancelLane 0), .bodyEnds 0,
          .release 0, .host (.obtainLane 0), .host (.dropLane 0)] = some s ∧
      (s.callers 1).lane = some 0 ∧
      ∀ s', step pairCatalog s (.host (.unloadEnds 0)) = some s' →
        s'.host.state "a" = .unloaded ∧
        ∀ es' s'', run (step pairCatalog) s' es' = some s'' → (s''.callers 1).runsOn ≠ some 0 := by
  refine exists_run (P := fun s => s.host.unloads[0]? = some ⟨"a", some 0, .drained true⟩ ∧
    (s.callers 1).lane = some 0) (by decide +kernel) fun s hr hs => ⟨hs.2, fun s' hs' => ?_⟩
  obtain ⟨h1, h2⟩ := (lane_serves_in_order hr).2.2 0 _ 0 s' hs.1 rfl rfl hs'
  exact ⟨h1, fun es' s'' hr' => h2 es' s'' hr' 1⟩

end LaneHost

end StudioWorker
