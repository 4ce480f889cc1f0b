import StudioWorker.Session.Worker

/-!
# Session.Answers — what every offer comes to

Over any run of the dispatch loop, the tasks, the local jobs and the updaters: each offer is
answered once, each accept that was sent is followed by one terminal report, and the slot has one
holder at most.  Nothing of this waits for another party; only the end of the process cuts it short.

* `Worker.offers`, `offered_run`: every offer has its task, in the order they came.
* `Worker.GoesOn`: while the process lives, every task has a next step, and steps run out.
* `offers_run`: the whole of it.
-/

namespace StudioWorker.Session

open Lib Lib.System

namespace Worker

/-- The offers that came, the one being handled last. -/
def offers (s : Worker) : List JobOfferClaim := s.jobs.map (·.claim) ++ s.session.offer

variable {s t : Worker} {e : WorkerEvent}

/-! ## Every offer has its task -/

theorem map_claim_set {k : ℕ} {j j' : Job} (hj : s.jobs[k]? = some j) (hc : j'.claim = j.claim) :
    (s.jobs.set k j').map (·.claim) = s.jobs.map (·.claim) := by
  obtain ⟨l₁, l₂, hold, -, hset⟩ := Pool.split_getElem? hj
  rw [hset, hold]
  simp only [List.map_append, List.map_cons, hc]

theorem offers_trans (ht : Trans s e t) : t.offers = s.offers ++ e.offer.toList := by
  cases ht with
  | session _ p h =>
    rw [offers, offers, List.append_assoc, h]
  | rejects _ claim reject h =>
    rw [offers, offers, List.append_assoc, h]
    simp only [rejects, SessionPhase.offer, List.map_append, List.map_cons, List.map_nil,
      List.append_nil]
  | accepts host claim h hfree hfits =>
    rw [offers, offers, h]
    simp only [SessionPhase.offer, WorkerEvent.offer, Option.toList, List.map_append, List.map_cons,
      List.map_nil, List.append_nil]
  | job hj hs he =>
    have hclaims := map_claim_set hj (Job.step_claim hs)
    simp only [offers, hclaims, WorkerEvent.offer, Option.toList, List.append_nil]
  | leaves hj hs =>
    have hclaims := map_claim_set hj (Job.step_claim hs)
    simp only [offers, hclaims, WorkerEvent.offer, Option.toList, List.append_nil]
  | localReserves hfree => exact (List.append_nil _).symm
  | localWaits => exact (List.append_nil _).symm
  | localEnds n hn => exact (List.append_nil _).symm
  | updater hu hs => exact (List.append_nil _).symm
  | loopsEnd p h =>
    rw [offers, offers, h]
    exact (List.append_nil _).symm
  | rejoins h =>
    rw [offers, offers, h]
    exact (List.append_nil _).symm
  | dies _ h =>
    rw [h]
    exact (List.append_nil _).symm

/-- The offers of a run are those that have a task, and the one being handled. -/
theorem offered_run : ∀ {es : List WorkerEvent} {s t : Worker}, run step s es = some t →
    t.offers = s.offers ++ es.filterMap WorkerEvent.offer
  | [], s, t, hr => by
    rw [run_nil, Option.some.injEq] at hr
    rw [← hr, List.filterMap_nil, List.append_nil]
  | e :: es, s, t, hr => by
    obtain ⟨m, hs, hr⟩ := run_cons_some.mp hr
    rw [offered_run hr, offers_trans (step_trans hs), List.append_assoc]
    cases he : e.offer with
    | none => rw [List.filterMap_cons_none he, Option.toList_none, List.nil_append]
    | some claim =>
      rw [List.filterMap_cons_some he, Option.toList_some, List.singleton_append]

/-! ## Every task goes on -/

/-- Nothing holds an offer up: `handle_offer` goes through, a task's next step depends on nobody
else, and every step leaves a task as it is or brings it nearer to its end. -/
structure GoesOn (s : Worker) : Prop where
  handles : ∀ claim host, s.session = .handling claim →
    ∃ (t : Worker) (phase : JobPhase), step s (.admitted host) = some t ∧
      t.jobs = s.jobs ++ [⟨claim, phase, []⟩]
  goes : ∀ (k : ℕ) (j : Job), s.jobs[k]? = some j → j.phase.rank ≠ 0 →
    ∃ (e : JobEvent) (t : Worker) (j' : Job), step s (.job k e) = some t ∧
      t.jobs[k]? = some j' ∧ j'.phase.rank < j.phase.rank
  nears : ∀ (e : WorkerEvent) (t : Worker), step s e = some t →
    ∀ (k : ℕ) (j : Job), s.jobs[k]? = some j →
      ∃ j' : Job, t.jobs[k]? = some j' ∧ (j' = j ∨ j'.phase.rank < j.phase.rank)

theorem nears_set {k i : ℕ} {j j' a : Job} (hj : s.jobs[k]? = some j)
    (hr : j'.phase.rank < j.phase.rank) (ha : s.jobs[i]? = some a) :
    ∃ a', (s.jobs.set k j')[i]? = some a' ∧ (a' = a ∨ a'.phase.rank < a.phase.rank) := by
  by_cases hik : k = i
  · subst hik
    obtain rfl : j = a := Option.some.inj (hj.symm.trans ha)
    have hk := (List.getElem?_eq_some_iff.mp hj).1
    exact ⟨j', by rw [List.getElem?_set_self hk], .inr hr⟩
  · exact ⟨a, by rw [List.getElem?_set_ne hik, ha], .inl rfl⟩

theorem nears_append {i : ℕ} {a : Job} (js : List Job) (ha : s.jobs[i]? = some a) :
    ∃ a', (s.jobs ++ js)[i]? = some a' ∧ (a' = a ∨ a'.phase.rank < a.phase.rank) := by
  have hi := (List.getElem?_eq_some_iff.mp ha).1
  exact ⟨a, by rw [List.getElem?_append_left hi, ha], .inl rfl⟩

theorem nears_trans (ht : Trans s e t) {i : ℕ} {a : Job} (ha : s.jobs[i]? = some a) :
    ∃ a', t.jobs[i]? = some a' ∧ (a' = a ∨ a'.phase.rank < a.phase.rank) := by
  cases ht with
  | session => exact ⟨a, ha, .inl rfl⟩
  | rejects _ claim reject => exact nears_append _ ha
  | accepts host claim hoffer hfree hfits => exact nears_append _ ha
  | job hj hs he => exact nears_set hj (Job.step_rank hs) ha
  | leaves hj hs => exact nears_set hj (Job.step_rank hs) ha
  | localReserves hfree => exact ⟨a, ha, .inl rfl⟩
  | localWaits => exact ⟨a, ha, .inl rfl⟩
  | localEnds n hn => exact ⟨a, ha, .inl rfl⟩
  | updater hu hs => exact ⟨a, ha, .inl rfl⟩
  | loopsEnd p => exact ⟨a, ha, .inl rfl⟩
  | rejoins => exact ⟨a, ha, .inl rfl⟩
  | dies => exact ⟨a, ha, .inl rfl⟩

theorem jobs_admitted (claim : JobOfferClaim) (host : Option HostView) :
    ∃ phase : JobPhase, (s.admitted claim host).jobs = s.jobs ++ [⟨claim, phase, []⟩] := by
  unfold admitted
  split
  · exact ⟨_, rfl⟩
  · split
    · exact ⟨_, rfl⟩
    · exact ⟨_, rfl⟩

theorem exists_step_job {k : ℕ} {j j' : Job} {e : JobEvent} (h : s.alive = true)
    (hj : s.jobs[k]? = some j) (hs : j.step e = some j') :
    ∃ t, step s (.job k e) = some t ∧ t.jobs = s.jobs.set k j' := by
  have hact : s.act (.job k e) = some
      { s with
        jobs := s.jobs.set k j'
        shared := if e = .left then s.shared.release else s.shared } := by
    simp only [act, hj, hs, Option.map_some]
  exact ⟨_, step_some.mpr ⟨h, hact⟩, rfl⟩

theorem goesOn (h : s.alive = true) : s.GoesOn where
  handles claim host hs := by
    obtain ⟨phase, hjobs⟩ := jobs_admitted (s := s) claim host
    exact ⟨_, phase, step_some.mpr ⟨h, by simp only [act, hs]⟩, hjobs⟩
  goes k j hj hrank := by
    obtain ⟨e, j', hs⟩ := Job.exists_step hrank
    obtain ⟨t, ht, hjobs⟩ := exists_step_job h hj hs
    have hk := (List.getElem?_eq_some_iff.mp hj).1
    exact ⟨e, t, j', ht, by rw [hjobs, List.getElem?_set_self hk], Job.step_rank hs⟩
  nears _ _ hs _ _ ha := nears_trans (step_trans hs) ha

/-! ## Every run -/

/-- Each offer is answered by one attempt at an accept or a reject; each accept that was sent is
followed by one terminal report and no failure after a delivered result; the slot has one holder at
most, an offer's task from before its accept until after its report; and while the process lives
every task gets there. -/
theorem offers_run {es : List WorkerEvent} (hr : run step start es = some s) :
    s.offers = es.filterMap WorkerEvent.offer ∧ (∀ j ∈ s.jobs, j.Reports) ∧ s.holders ≤ 1 ∧
      (s.alive = true → s.GoesOn) := by
  have hgated := gated_run hr
  refine ⟨?_, fun j hj => (hgated.sound j hj).reports, hgated.holders_le, goesOn⟩
  exact (offered_run hr).trans (List.nil_append _)

/-- A job whose upload fails, and an offer that comes while it runs. -/
theorem offers_run_busy :
    ∃ s, run step start
        [.received (.frame (.offer smallOffer)) noFlags, .admitted none,
          .job 0 (.answered (.ok ())), .received (.frame (.offer smallOffer)) noFlags,
          .admitted none, .job 1 (.answered (.ok ())),
          .job 0 (.dispatched (.ok (.image [1, 2] "png"))),
          .job 0 (.uploaded (.error (.failed "HTTP 500"))),
          .job 0 (.reported (.error "connection closed")), .job 0 .left] = some s ∧
      s.jobs.map (·.reports.length) = [1, 0] ∧ s.offers.length = 2 ∧ s.GoesOn := by
  refine exists_run
    (P := fun s => s.jobs.map (·.reports.length) = [1, 0] ∧ s.alive = true) (by decide)
    fun s hr hs => ?_
  obtain ⟨hoffers, -, -, hgoes⟩ := offers_run hr
  exact ⟨hs.1, by rw [hoffers]; rfl, hgoes hs.2⟩

/-- Nothing more happens in a process that has ended. -/
theorem run_dead {es : List WorkerEvent} (h : s.alive = false) (hr : run step s es = some t) :
    t = s := by
  cases es with
  | nil => exact (Option.some.inj hr).symm
  | cons e es =>
    obtain ⟨m, hs, -⟩ := run_cons_some.mp hr
    have halive := (step_some.mp hs).1
    rw [h] at halive
    cases halive

/-- The studio's fatal error frame ends the daemon while an accepted job runs. -/
theorem fatal_error_cuts_job :
    ¬ ∀ (es : List WorkerEvent) (s : Worker), run step start es = some s →
      ∀ (k : ℕ) (j : Job), s.jobs[k]? = some j → j.accepted = true →
        ∃ (es' : List WorkerEvent) (t : Worker) (j' : Job), run step s es' = some t ∧
          t.jobs[k]? = some j' ∧ j'.reports.length = 1 := by
  intro hall
  obtain ⟨es', t, j', hr, hj', hreports⟩ := hall
    [.received (.frame (.offer smallOffer)) noFlags, .admitted none, .job 0 (.answered (.ok ())),
      .received (.frame (.error .internalError "gone")) noFlags, .loopsEnd, .exits]
    _ rfl 0 _ rfl (by decide)
  obtain rfl := run_dead rfl hr
  obtain rfl := Option.some.inj hj'
  exact absurd hreports (by decide)

end Worker

end StudioWorker.Session
