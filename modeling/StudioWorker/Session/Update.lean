import StudioWorker.Session.Worker

/-!
# Session.Update — what an update may interrupt

The updater holds the slot while it installs and drops it when its blocking task returns; the
restart comes after that, in the loop.  In between the slot is free.

* `Worker.Idle`: no offered job and no local job holds the slot.
* `KeepsSlot`: nobody takes the slot between an install and the restart, and no updater is started
  beside another.
* `restart_run`: then a restart finds the worker idle, and a failed update leaves no flag up.
-/

namespace StudioWorker.Session

open Lib Lib.System

namespace Worker

/-- No offered job and no local job holds the slot. -/
def Idle (s : Worker) : Prop := (∀ j ∈ s.jobs, j.phase.holds = false) ∧ s.locals = 0

/-- An update is installed and the process not yet replaced. -/
def pastInstall (s : Worker) : Bool := s.updaters.any Updater.pastInstall

/-- Nobody takes the slot between the end of an install and the restart, and the studio loop starts
anew only when every updater before has ended. -/
def KeepsSlot (s : Worker) : WorkerEvent → Prop
  | .admitted host =>
    s.pastInstall = false ∨ s.shared.busy = true ∨ s.refuses host = true
  | .localReserves => s.pastInstall = false ∨ s.shared.busy = true
  | .rejoins => ∀ u ∈ s.updaters, u.running = false
  | _ => True

instance (s : Worker) : ∀ e, Decidable (KeepsSlot s e)
  | .admitted _ => inferInstanceAs (Decidable (_ ∨ _ ∨ _))
  | .localReserves => inferInstanceAs (Decidable (_ ∨ _))
  | .rejoins => inferInstanceAs (Decidable (∀ u ∈ _, _))
  | .received _ _ | .job _ _ | .localEnds | .updater _ _ | .restarts _ | .reconnects | .loopsEnd
  | .exits => isTrue trivial

structure Guarded (s : Worker) : Prop extends Gated s where
  past : s.pastInstall = true → s.Idle
  single : s.updaters.countP Updater.running ≤ 1

theorem guarded_start : start.Guarded where
  toGated := gated_start
  past h := Bool.noConfusion h
  single := le_rfl

variable {s t : Worker} {e : WorkerEvent}

/-! ## Who holds the slot -/

theorem holds_of_pastInstall {u : Updater} (h : u.pastInstall = true) : u.phase.holds = false := by
  obtain ⟨phase, orphan⟩ := u
  cases phase <;> first | rfl | simp [Updater.pastInstall] at h

/-- While an updater holds the slot nobody else does. -/
theorem Gated.idle (h : s.Gated) {u : Updater} (hu : u ∈ s.updaters)
    (hheld : u.phase.holds = true) : s.Idle := by
  have hle := h.holders_le
  have hpos : 0 < s.updaters.countP (·.phase.holds) := List.countP_pos_iff.mpr ⟨u, hu, hheld⟩
  simp only [Worker.holders] at hle
  have hjobs : s.jobs.countP (·.phase.holds) = 0 := by omega
  refine ⟨fun j hj => ?_, by omega⟩
  exact Bool.eq_false_iff.mpr (List.countP_eq_zero.mp hjobs j hj)

theorem pastInstall_set {k : ℕ} {u u' : Updater} (hu : s.updaters[k]? = some u) {shared : Shared}
    (h : ({ s with shared, updaters := s.updaters.set k u' } : Worker).pastInstall = true) :
    s.pastInstall = true ∨ u'.pastInstall = true := by
  obtain ⟨v, hv, hpast⟩ := List.any_eq_true.mp h
  rcases Pool.mem_set hu hv with rfl | hv
  · exact .inr hpast
  · exact .inl (List.any_eq_true.mpr ⟨v, hv, hpast⟩)

theorem idle_set {k : ℕ} {j j' : Job} {shared : Shared} (h : s.Idle) (hj : s.jobs[k]? = some j)
    (hfree : j'.phase.holds = true → j.phase.holds = true) :
    ({ s with jobs := s.jobs.set k j', shared } : Worker).Idle := by
  refine ⟨fun i hi => ?_, h.2⟩
  rcases Pool.mem_set hj hi with rfl | hi
  · have hold := h.1 j (Pool.mem_of_getElem? hj)
    refine Bool.eq_false_iff.mpr fun hnew => ?_
    have hheld := hfree hnew
    rw [hold] at hheld
    cases hheld
  · exact h.1 i hi

theorem idle_append (h : s.Idle) {j : Job} (hj : j.phase.holds = false) {p : SessionPhase} :
    ({ s with session := p, jobs := s.jobs ++ [j] } : Worker).Idle := by
  refine ⟨fun i hi => ?_, h.2⟩
  rcases List.mem_append.mp hi with hi | hi
  · exact h.1 i hi
  · rw [List.mem_singleton.mp hi]
    exact hj

/-! ## One step -/

theorem past_trans (h : s.Guarded) (ht : Trans s e t) (hok : KeepsSlot s e)
    (hpast : t.pastInstall = true) : t.Idle := by
  cases ht with
  | session => exact h.past hpast
  | rejects _ claim reject => exact idle_append (h.past hpast) rfl
  | accepts host claim hoffer hfree hfits =>
    have hpast : s.pastInstall = true := hpast
    rcases hok with hok | hok | hok
    · rw [hok] at hpast
      cases hpast
    · rw [hfree] at hok
      cases hok
    · rw [hfits] at hok
      cases hok
  | job hj hs he =>
    have hkept := Job.step_holds hs he
    exact idle_set (h.past hpast) hj fun hh => hkept.symm.trans hh
  | leaves hj hs => exact idle_set (h.past hpast) hj fun _ => (Job.step_left hs).1
  | localReserves hfree =>
    have hpast : s.pastInstall = true := hpast
    rcases hok with hok | hok
    · rw [hok] at hpast
      cases hpast
    · rw [hfree] at hok
      cases hok
  | localWaits => exact h.past hpast
  | localEnds n hn =>
    have hnone := (h.past hpast).2
    rw [hn] at hnone
    cases hnone
  | @updater k e u u' shared hu hs =>
    have hmem := Pool.mem_of_getElem? hu
    -- an updater's step touches neither the tasks nor the local jobs
    show s.Idle
    rcases pastInstall_set hu hpast with hold | hnew
    · exact h.past hold
    · cases Updater.step_change hs with
      | quiet hh hr hp => exact h.past (List.any_eq_true.mpr ⟨u, hmem, hp hnew⟩)
      | takes hfree hfrom hto hr =>
        have hnot := holds_of_pastInstall hnew
        rw [hto] at hnot
        cases hnot
      | raises hh hr hp =>
        rw [hp] at hnew
        cases hnew
      | clears hh hp =>
        rw [hp] at hnew
        cases hnew
      | releases hfrom hto hr => exact h.idle hmem hfrom
      | stops hh hr hp => exact h.past (List.any_eq_true.mpr ⟨u, hmem, hp⟩)
  | loopsEnd p =>
    obtain ⟨v, hv, hvp⟩ := List.any_eq_true.mp hpast
    obtain ⟨u, hu, rfl⟩ := List.mem_map.mp hv
    exact h.past (List.any_eq_true.mpr ⟨u, hu, Updater.abort_pastInstall hvp⟩)
  | rejoins =>
    obtain ⟨v, hv, hvp⟩ := List.any_eq_true.mp hpast
    rcases List.mem_append.mp hv with hv | hv
    · exact h.past (List.any_eq_true.mpr ⟨v, hv, hvp⟩)
    · rw [List.mem_singleton.mp hv] at hvp
      cases hvp
  | dies => exact h.past hpast

theorem single_trans (h : s.updaters.countP Updater.running ≤ 1) (ht : Trans s e t)
    (hok : KeepsSlot s e) : t.updaters.countP Updater.running ≤ 1 := by
  cases ht with
  | session => exact h
  | rejects _ claim reject => exact h
  | accepts host claim hoffer hfree hfits => exact h
  | job hj hs he => exact h
  | leaves hj hs => exact h
  | localReserves hfree => exact h
  | localWaits => exact h
  | localEnds n hn => exact h
  | @updater k e u u' shared hu hs =>
    have hcount := Pool.countP_set_add (b := u') hu Updater.running
    rw [Updater.step_running hs, if_pos rfl] at hcount
    show (s.updaters.set k u').countP Updater.running ≤ 1
    split_ifs at hcount
    · omega
    · omega
  | loopsEnd p =>
    show (s.updaters.map Updater.abort).countP Updater.running ≤ 1
    rw [List.countP_map]
    exact (List.countP_mono_left fun u _ hr => Updater.abort_running hr).trans h
  | rejoins =>
    have hnone : s.updaters.countP Updater.running = 0 :=
      List.countP_eq_zero.mpr fun u hu => Bool.eq_false_iff.mp (hok u hu)
    show (s.updaters ++ [(⟨.idle, false⟩ : Updater)]).countP Updater.running ≤ 1
    rw [List.countP_append, hnone]
    exact le_rfl
  | dies => exact h

theorem guarded_step (h : s.Guarded) (hok : KeepsSlot s e) (hs : step s e = some t) :
    t.Guarded where
  toGated := gated_step h.toGated hs
  past := past_trans h (step_trans hs) hok
  single := single_trans h.single (step_trans hs) hok

/-! ## Every run -/

theorem running_of_raised {u : Updater} (h : u.phase.raised = true) : u.running = true := by
  obtain ⟨phase, orphan⟩ := u
  cases phase <;> first | rfl | cases h

/-- A failed update leaves the pending flag down. -/
theorem Guarded.failed (h : s.Guarded) {u : Updater} (hu : u ∈ s.updaters) (hf : u.Failed) :
    u.phase.holds = false ∧ s.shared.updatePending = false := by
  obtain ⟨decision, hphase, -⟩ := hf
  refine ⟨by rw [hphase]; rfl, Bool.eq_false_iff.mpr fun hup => ?_⟩
  obtain ⟨v, hv, hraised⟩ := h.pending hup
  have hne : u ≠ v := by
    rintro rfl
    rw [hphase] at hraised
    cases hraised
  have hrunning : u.running = true := by
    unfold Updater.running
    rw [hphase]
    rfl
  have htwo := Pool.two_le_countP hu hv hne hrunning (running_of_raised hraised)
  exact absurd h.single (by omega)

/-- Where nobody takes the slot behind an install and updaters do not overlap, a restart finds no
offered job and no local job on the slot, nor does anybody have it from the install on; and an
updater that failed or gave up holds nothing and leaves the pending flag down. -/
theorem restart_run {es : List WorkerEvent} (hr : run step start es = some s)
    (hok : Along step KeepsSlot start es) :
    (∀ k t, step s (.restarts k) = some t → s.Idle) ∧
      (∀ u ∈ s.updaters, u.phase.holds = true ∨ u.pastInstall = true → s.Idle) ∧
      ∀ u ∈ s.updaters, u.Failed → u.phase.holds = false ∧ s.shared.updatePending = false := by
  have hg : s.Guarded := along_invariant (fun _ _ _ => guarded_step) es start s guarded_start hok hr
  have hbusy : ∀ u ∈ s.updaters, u.phase.holds = true ∨ u.pastInstall = true → s.Idle := by
    rintro u hu (hheld | hpast)
    · exact hg.idle hu hheld
    · exact hg.past (List.any_eq_true.mpr ⟨u, hu, hpast⟩)
  refine ⟨fun k t hs => ?_, hbusy, fun u hu => hg.failed hu⟩
  obtain ⟨-, hs⟩ := step_some.mp hs
  simp only [act] at hs
  split at hs
  · next u hu =>
    split_ifs at hs with hphase
    refine hbusy u (Pool.mem_of_getElem? hu) (.inr ?_)
    unfold Updater.pastInstall
    rw [hphase]
    rfl
  · cases hs

/-- The offer that an update lets finish, and one that comes while it waits. -/
def drained : List WorkerEvent :=
  let offer : WorkerEvent := .received (.frame (.offer smallOffer)) noFlags
  [offer, .admitted none, .job 0 (.answered (.ok ())),
    .updater 0 (.tick true), .updater 0 (.checked (.ok (.newerAvailable "1.0.0" "1.1.0"))),
    .updater 0 .raises, offer, .job 1 (.answered (.ok ())),
    .job 0 (.dispatched (.ok (.llm "answer"))), .job 0 (.reported (.ok ())), .job 0 .left,
    .updater 0 (.tries false), .updater 0 .clears, .updater 0 (.applied (.ok ())),
    .updater 0 .returns, .updater 0 .resumes]

theorem restart_run_drained :
    ∃ s, run step start drained = some s ∧ (step s (.restarts 0)).isSome ∧ s.Idle := by
  refine exists_run (P := fun s => (step s (.restarts 0)).isSome) (by decide)
    fun s hr hs => ⟨hs, ?_⟩
  obtain ⟨t, ht⟩ := Option.isSome_iff_exists.mp hs
  exact (restart_run hr (by decide)).1 0 t ht

/-- An offer comes after the blocking task returned and before the loop goes on. -/
theorem late_offer_killed :
    ¬ ∀ (es : List WorkerEvent) (s t : Worker) (k : ℕ), run step start es = some s →
      step s (.restarts k) = some t → s.Idle := by
  intro hall
  have hidle := hall
    [.updater 0 (.tick true), .updater 0 (.checked (.ok (.newerAvailable "1.0.0" "1.1.0"))),
      .updater 0 (.applied (.ok ())), .updater 0 .returns,
      .received (.frame (.offer smallOffer)) noFlags, .admitted none, .job 0 (.answered (.ok ())),
      .updater 0 .resumes] _ _ 0 rfl rfl
  exact absurd (hidle.1 _ List.mem_cons_self) (by decide)

end Worker

end StudioWorker.Session
