import StudioWorker.Lib.Pool
import StudioWorker.Lib.System
import StudioWorker.Session.Offer
import StudioWorker.Session.Reconnect
import StudioWorker.Session.Updater

/-!
# Session.Worker — the parties that share the worker's slot

The dispatch loop of a session (`run_dispatch_loop`, `handle_offer`), the tasks it spawns, the jobs
of the local API and the auto-updaters step beside each other over the shared flags.  The studio
loop ends with a session that is not retried (`run_loops`), which aborts its updater; then the
daemon asks the studio for approval again (`serve_studio`), or its process ends.

* `Worker.step`: one event a frame, an await of a task, or an access to the flags.
* `Worker.Trans`, `step_trans`: what a step can do.
* `Worker.Gated`: the slot is busy exactly when one reservation is alive.
-/

namespace StudioWorker.Session

open Lib Lib.System

inductive WorkerErrorCode where
  | authFailed
  | protocolViolation
  | duplicateWorker
  | workerDeleted
  | internalError
deriving DecidableEq

/-- The frames the studio sends. -/
inductive WorkerOutbound where
  | welcome (workerId serverTime : String)
  | offer (claim : JobOfferClaim)
  | heartbeatAck
  | completeAck (jobId : String)
  | failAck (jobId : String)
  | error (code : WorkerErrorCode) (message : String)
deriving DecidableEq

/-- Why the reader ended. -/
inductive WsClientError where
  | authFailed (reason : String)
  | registrationRevoked (reason : String)
  | other (message : String)
deriving DecidableEq

inductive SessionEvent where
  | frame (frame : WorkerOutbound)
  | stopped
  | disconnected (error : WsClientError)
deriving DecidableEq

/-- Where the studio loop is. -/
inductive SessionPhase where
  /-- The dispatch loop waits for its next event. -/
  | running
  /-- In `handle_offer`, past the first checks. -/
  | handling (claim : JobOfferClaim)
  /-- The session has returned. -/
  | ended (outcome : SessionOutcome)
  /-- `run_loops` has returned. -/
  | closed (outcome : SessionOutcome)
deriving DecidableEq

/-- `locals` counts the jobs of the local API that hold the slot. -/
structure Worker where
  session : SessionPhase
  jobs : List Job
  locals : ℕ
  updaters : List Updater
  shared : Shared
  alive : Bool
deriving DecidableEq

inductive WorkerEvent where
  /-- The dispatch loop takes its next event; an offer is checked against the flags. -/
  | received (event : SessionEvent) (flags : OfferFlags)
  /-- `handle_offer` asks the model host and tries the slot. -/
  | admitted (host : Option HostView)
  | job (k : ℕ) (e : JobEvent)
  /-- A local job tries the slot. -/
  | localReserves
  | localEnds
  | updater (k : ℕ) (e : UpdaterEvent)
  /-- `restart_self`. -/
  | restarts (k : ℕ)
  | reconnects
  /-- The studio loop ends. -/
  | loopsEnd
  /-- The studio approved the worker again. -/
  | rejoins
  | exits

/-- The offer an event brings. -/
def WorkerEvent.offer : WorkerEvent → Option JobOfferClaim
  | .received (.frame (.offer claim)) _ => some claim
  | _ => none

/-- The offer in `handle_offer`. -/
def SessionPhase.offer : SessionPhase → List JobOfferClaim
  | .handling claim => [claim]
  | .running | .ended _ | .closed _ => []

namespace Worker

def start : Worker where
  session := .running
  jobs := []
  locals := 0
  updaters := [⟨.idle, false⟩]
  shared := ⟨false, false, false⟩
  alive := true

/-- `spawn_reject_offer`. -/
def rejects (s : Worker) (claim : JobOfferClaim) (reject : String × RejectCode) : Worker :=
  { s with
    session := .running
    jobs := s.jobs ++ [{ claim, phase := .rejecting reject.1 reject.2 }] }

/-- One event of `run_dispatch_loop`. -/
def received (s : Worker) (flags : OfferFlags) : SessionEvent → Worker
  | .disconnected (.authFailed reason) => { s with session := .ended (.authFailed reason) }
  | .disconnected (.registrationRevoked reason) =>
    { s with session := .ended (.registrationRevoked reason) }
  | .disconnected (.other _) => { s with session := .ended .disconnected }
  | .stopped => { s with session := .ended .stopped }
  | .frame (.offer claim) =>
    match turnedAway flags s.shared.updatePending with
    | some reject => s.rejects claim reject
    | none => { s with session := .handling claim }
  | .frame (.error code message) =>
    { s with session := .ended (match code with
      | .authFailed => .authFailed message
      | .workerDeleted => .registrationRevoked message
      | _ => .fatal message) }
  | .frame (.welcome _ _) | .frame .heartbeatAck | .frame (.completeAck _) | .frame (.failAck _) => s

/-- The rest of `handle_offer`. -/
def admitted (s : Worker) (claim : JobOfferClaim) (host : Option HostView) : Worker :=
  match refused claim host with
  | some reject => s.rejects claim reject
  | none =>
    match s.shared.tryReserve with
    | some shared =>
      { s with session := .running, shared, jobs := s.jobs ++ [{ claim, phase := .accepting }] }
    | none => s.rejects claim ("worker already has an in-flight job", .busy)

def act (s : Worker) : WorkerEvent → Option Worker
  | .received event flags =>
    match s.session with
    | .running => some (s.received flags event)
    | _ => none
  | .admitted host =>
    match s.session with
    | .handling claim => some (s.admitted claim host)
    | _ => none
  | .job k e =>
    match s.jobs[k]? with
    | some j => (j.step e).map fun j =>
      { s with
        jobs := s.jobs.set k j
        shared := if e = .left then s.shared.release else s.shared }
    | none => none
  | .localReserves =>
    match s.shared.tryReserve with
    | some shared => some { s with shared, locals := s.locals + 1 }
    | none => some s
  | .localEnds =>
    match s.locals with
    | n + 1 => some { s with shared := s.shared.release, locals := n }
    | 0 => none
  | .updater k e =>
    match s.updaters[k]? with
    | some u => (u.step s.shared e).map fun (shared, u) =>
      { s with shared, updaters := s.updaters.set k u }
    | none => none
  | .restarts k =>
    match s.updaters[k]? with
    | some u => if u.phase = .restarting then some { s with alive := false } else none
    | none => none
  | .reconnects =>
    match s.session with
    | .ended .disconnected => some { s with session := .running }
    | _ => none
  | .loopsEnd =>
    match s.session with
    | .ended outcome =>
      some { s with session := .closed outcome, updaters := s.updaters.map Updater.abort }
    | _ => none
  | .rejoins =>
    match s.session with
    | .closed (.registrationRevoked _) =>
      some { s with session := .running, updaters := s.updaters ++ [⟨.idle, false⟩] }
    | _ => none
  | .exits =>
    match s.session with
    | .closed _ => some { s with alive := false }
    | _ => none

/-- Nothing happens in a process that has ended. -/
def step : System Worker WorkerEvent := fun s e => if s.alive then s.act e else none

/-- How many reservations are alive. -/
def holders (s : Worker) : ℕ :=
  s.jobs.countP (·.phase.holds) + s.locals + s.updaters.countP (·.phase.holds)

/-- The host refuses the offer being handled. -/
def refuses (s : Worker) (host : Option HostView) : Bool :=
  match s.session with
  | .handling claim => (refused claim host).isSome
  | _ => false

variable {s t : Worker} {e : WorkerEvent}

/-! ## What a step can do -/

/-- What a step can do; each case says what becomes of the offer in hand. -/
inductive Trans (s : Worker) : WorkerEvent → Worker → Prop
  | session (e : WorkerEvent) (p : SessionPhase) (h : s.session.offer ++ e.offer.toList = p.offer) :
      Trans s e { s with session := p }
  | rejects (e : WorkerEvent) (claim : JobOfferClaim) (reject : String × RejectCode)
      (h : s.session.offer ++ e.offer.toList = [claim]) : Trans s e (s.rejects claim reject)
  | accepts (host : Option HostView) (claim : JobOfferClaim) (h : s.session.offer = [claim])
      (hfree : s.shared.busy = false) (hfits : s.refuses host = false) :
      Trans s (.admitted host)
        { s with
          session := .running
          shared := { s.shared with busy := true }
          jobs := s.jobs ++ [{ claim, phase := .accepting }] }
  | job {k : ℕ} {e : JobEvent} {j j' : Job} (hj : s.jobs[k]? = some j) (hs : j.step e = some j')
      (he : e ≠ .left) : Trans s (.job k e) { s with jobs := s.jobs.set k j' }
  | leaves {k : ℕ} {j j' : Job} (hj : s.jobs[k]? = some j) (hs : j.step .left = some j') :
      Trans s (.job k .left) { s with jobs := s.jobs.set k j', shared := s.shared.release }
  | localReserves (hfree : s.shared.busy = false) :
      Trans s .localReserves
        { s with shared := { s.shared with busy := true }, locals := s.locals + 1 }
  | localWaits : Trans s .localReserves s
  | localEnds (n : ℕ) (hn : s.locals = n + 1) :
      Trans s .localEnds { s with shared := s.shared.release, locals := n }
  | updater {k : ℕ} {e : UpdaterEvent} {u u' : Updater} {shared : Shared}
      (hu : s.updaters[k]? = some u) (hs : u.step s.shared e = some (shared, u')) :
      Trans s (.updater k e) { s with shared, updaters := s.updaters.set k u' }
  | loopsEnd (p : SessionPhase) (h : s.session.offer = p.offer) :
      Trans s .loopsEnd { s with session := p, updaters := s.updaters.map Updater.abort }
  | rejoins (h : s.session.offer = []) :
      Trans s .rejoins { s with session := .running, updaters := s.updaters ++ [⟨.idle, false⟩] }
  | dies (e : WorkerEvent) (h : e.offer = none) : Trans s e { s with alive := false }

theorem step_some : step s e = some t ↔ s.alive = true ∧ s.act e = some t := by
  unfold step
  split_ifs with h
  · simp [h]
  · simp [h]

theorem received_trans (flags : OfferFlags) (event : SessionEvent) (hs : s.session = .running) :
    Trans s (.received event flags) (s.received flags event) := by
  have hnone : s.session.offer = [] := by
    rw [hs]
    rfl
  have hended : ∀ outcome, (WorkerEvent.received event flags).offer = none →
      Trans s (.received event flags) { s with session := .ended outcome } := fun outcome he =>
    .session _ _ (by rw [hnone, he]; rfl)
  have hsame : (WorkerEvent.received event flags).offer = none →
      Trans s (.received event flags) s := fun he => by
    have := Trans.session (.received event flags) s.session (by rw [he]; exact List.append_nil _)
    exact this
  cases event with
  | stopped => exact hended _ rfl
  | disconnected error => cases error <;> exact hended _ rfl
  | frame frame =>
    cases frame with
    | offer claim =>
      have hoffer : s.session.offer ++
          (WorkerEvent.received (.frame (.offer claim)) flags).offer.toList = [claim] := by
        rw [hnone]
        rfl
      simp only [received]
      split
      · exact .rejects _ claim _ hoffer
      · exact .session _ _ hoffer
    | error code message => exact hended _ rfl
    | welcome | heartbeatAck | completeAck | failAck => exact hsame rfl

theorem admitted_trans {claim : JobOfferClaim} (host : Option HostView)
    (hs : s.session = .handling claim) : Trans s (.admitted host) (s.admitted claim host) := by
  have hoffer : s.session.offer = [claim] := by
    rw [hs]
    rfl
  have hkept : s.session.offer ++ (WorkerEvent.admitted host).offer.toList = [claim] := by
    rw [hoffer]
    rfl
  unfold admitted
  split
  · exact .rejects _ claim _ hkept
  · next hfits =>
    split
    · next shared htaken =>
      obtain ⟨hfree, rfl⟩ := Updater.tryReserve_some htaken
      exact .accepts host claim hoffer hfree (by simp [refuses, hs, hfits])
    · exact .rejects _ claim _ hkept

theorem step_trans (hs : step s e = some t) : Trans s e t := by
  obtain ⟨-, hs⟩ := step_some.mp hs
  cases e with
  | received event flags =>
    simp only [act] at hs
    split at hs
    · next hrunning =>
      cases hs
      exact received_trans flags event hrunning
    · cases hs
  | admitted host =>
    simp only [act] at hs
    split at hs
    · next claim hclaim =>
      cases hs
      exact admitted_trans host hclaim
    · cases hs
  | job k e =>
    simp only [act] at hs
    split at hs
    · next j hj =>
      obtain ⟨j', hj', rfl⟩ := Option.map_eq_some_iff.mp hs
      by_cases he : e = .left
      · subst he
        exact .leaves hj hj'
      · simp only [if_neg he]
        exact .job hj hj' he
    · cases hs
  | localReserves =>
    simp only [act] at hs
    split at hs
    · next shared htaken =>
      cases hs
      obtain ⟨hfree, rfl⟩ := Updater.tryReserve_some htaken
      exact .localReserves hfree
    · cases hs
      exact .localWaits
  | localEnds =>
    simp only [act] at hs
    split at hs
    · next n hn =>
      cases hs
      exact .localEnds n hn
    · cases hs
  | updater k e =>
    simp only [act] at hs
    split at hs
    · next u hu =>
      obtain ⟨⟨shared, u'⟩, hu', rfl⟩ := Option.map_eq_some_iff.mp hs
      exact .updater hu hu'
    · cases hs
  | restarts k =>
    simp only [act] at hs
    split at hs
    · split_ifs at hs
      cases hs
      exact .dies _ rfl
    · cases hs
  | reconnects =>
    simp only [act] at hs
    split at hs
    · next hended =>
      cases hs
      exact .session _ _ (by rw [hended]; rfl)
    · cases hs
  | loopsEnd =>
    simp only [act] at hs
    split at hs
    · next outcome hended =>
      cases hs
      exact .loopsEnd _ (by rw [hended]; rfl)
    · cases hs
  | rejoins =>
    simp only [act] at hs
    split at hs
    · next reason hclosed =>
      cases hs
      exact .rejoins (by rw [hclosed]; rfl)
    · cases hs
  | exits =>
    simp only [act] at hs
    split at hs
    · cases hs
      exact .dies _ rfl
    · cases hs

/-! ## The slot and its reservations -/

/-- The slot is busy exactly when one reservation is alive, the pending flag is up only while an
updater waits, and every task has sent what its place says. -/
structure Gated (s : Worker) : Prop where
  holders : s.holders = s.shared.busy.toNat
  pending : s.shared.updatePending = true → ∃ u ∈ s.updaters, u.phase.raised = true
  sound : ∀ j ∈ s.jobs, j.Sound

theorem gated_start : start.Gated where
  holders := rfl
  pending h := Bool.noConfusion h
  sound j hj := by cases hj

theorem holders_rejects (claim : JobOfferClaim) (reject : String × RejectCode) :
    (s.rejects claim reject).holders = s.holders := by
  have hnew : [({ claim, phase := .rejecting reject.1 reject.2 } : Job)].countP (·.phase.holds) = 0 :=
    rfl
  simp only [rejects, holders, List.countP_append, hnew, Nat.add_zero]

/-- An updater's step moves the count by the reservation it takes or drops. -/
theorem holders_updater {k : ℕ} {u : Updater} (hu : s.updaters[k]? = some u) (u' : Updater)
    (shared : Shared) :
    ({ s with shared, updaters := s.updaters.set k u' } : Worker).holders +
        (if u.phase.holds = true then 1 else 0) =
      s.holders + if u'.phase.holds = true then 1 else 0 := by
  have hcount := Pool.countP_set_add (b := u') hu fun u => u.phase.holds
  simp only [holders]
  omega

theorem holders_updater_kept {k : ℕ} {u u' : Updater} (hu : s.updaters[k]? = some u)
    (hh : u'.phase.holds = u.phase.holds) (shared : Shared) :
    ({ s with shared, updaters := s.updaters.set k u' } : Worker).holders = s.holders := by
  have hcount := holders_updater hu u' shared
  rw [hh] at hcount
  exact Nat.add_right_cancel hcount

/-- The count after a reservation is made. -/
theorem toNat_take {f : Shared} {n m : ℕ} (hfree : f.busy = false) (h : n = f.busy.toNat)
    (hm : m = n + 1) : m = ({ f with busy := true } : Shared).busy.toNat := by
  rw [hfree, Bool.toNat_false] at h
  rw [hm, h, Bool.toNat_true]

/-- The count after a reservation drops: it was the only one. -/
theorem toNat_release {f : Shared} {n m : ℕ} (h : n = f.busy.toNat) (hm : m + 1 = n) :
    m = f.release.busy.toNat := by
  have hle := Bool.toNat_le f.busy
  rw [Shared.release, Bool.toNat_false]
  omega

theorem holders_trans (h : s.holders = s.shared.busy.toNat) (ht : Trans s e t) :
    t.holders = t.shared.busy.toNat := by
  cases ht with
  | session => exact h
  | rejects _ claim reject => exact (holders_rejects claim reject).trans h
  | accepts host claim hoffer hfree hfits =>
    have hnew : [({ claim, phase := .accepting } : Job)].countP (·.phase.holds) = 1 := rfl
    refine toNat_take hfree h ?_
    simp only [holders, List.countP_append, hnew]
    omega
  | @job k e j j' hj hs he =>
    have hcount := Pool.countP_set hj (p := fun j => j.phase.holds) (Job.step_holds hs he)
    simp only [holders] at h ⊢
    rw [hcount]
    exact h
  | @leaves k j j' hj hs =>
    obtain ⟨hheld, hfree⟩ := Job.step_left hs
    have hcount := Pool.countP_set_add (b := j') hj fun j => j.phase.holds
    simp only [hheld, hfree, if_true, Bool.false_eq_true, if_false] at hcount
    refine toNat_release h ?_
    simp only [holders]
    omega
  | localReserves hfree =>
    refine toNat_take hfree h ?_
    simp only [holders]
    omega
  | localWaits => exact h
  | localEnds n hn =>
    refine toNat_release h ?_
    simp only [holders, hn]
    omega
  | @updater k e u u' shared hu hs =>
    have hcount := holders_updater hu u' shared
    cases Updater.step_change hs with
    | quiet hh hr hp => exact (holders_updater_kept hu hh _).trans h
    | takes hfree hfrom hto hr =>
      refine toNat_take hfree h ?_
      simpa only [hfrom, hto, if_true, Bool.false_eq_true, if_false, Nat.add_zero] using hcount
    | raises hh hr hp => exact (holders_updater_kept hu hh _).trans h
    | clears hh hp => exact (holders_updater_kept hu hh _).trans h
    | releases hfrom hto hr =>
      refine toNat_release h ?_
      simpa only [hfrom, hto, if_true, Bool.false_eq_true, if_false, Nat.add_zero] using hcount
    | stops hh hr hp => exact (holders_updater_kept hu hh _).trans h
  | loopsEnd p =>
    have hcount : (s.updaters.map Updater.abort).countP (·.phase.holds) =
        s.updaters.countP (·.phase.holds) := by
      rw [List.countP_map]
      exact List.countP_congr fun u _ => by rw [Function.comp_apply, Updater.abort_holds]
    simp only [holders, hcount] at h ⊢
    exact h
  | rejoins =>
    have hnew : [(⟨.idle, false⟩ : Updater)].countP (·.phase.holds) = 0 := rfl
    simp only [holders, List.countP_append, hnew] at h ⊢
    exact h
  | dies => exact h

/-! ## The pending flag -/

/-- After a step of one updater the flag still has an updater that waits. -/
theorem raised_set {k : ℕ} {u u' : Updater} (hu : s.updaters[k]? = some u)
    (hr : u.phase.raised = true → u'.phase.raised = true)
    (h : ∃ v ∈ s.updaters, v.phase.raised = true) :
    ∃ v ∈ s.updaters.set k u', v.phase.raised = true := by
  obtain ⟨l₁, l₂, hold, -, hset⟩ := Pool.split_getElem? hu
  obtain ⟨v, hv, hvr⟩ := h
  rw [hold] at hv
  rw [hset]
  simp only [List.mem_append, List.mem_cons] at hv ⊢
  rcases hv with hv | rfl | hv
  · exact ⟨v, .inl hv, hvr⟩
  · exact ⟨u', .inr (.inl rfl), hr hvr⟩
  · exact ⟨v, .inr (.inr hv), hvr⟩

theorem pending_trans (h : s.shared.updatePending = true → ∃ u ∈ s.updaters, u.phase.raised = true)
    (ht : Trans s e t) (hup : t.shared.updatePending = true) :
    ∃ u ∈ t.updaters, u.phase.raised = true := by
  cases ht with
  | session => exact h hup
  | rejects _ claim reject => exact h hup
  | accepts host claim hoffer hfree hfits => exact h hup
  | job hj hs he => exact h hup
  | leaves hj hs => exact h hup
  | localReserves hfree => exact h hup
  | localWaits => exact h hup
  | localEnds n hn => exact h hup
  | @updater k e u u' shared hu hs =>
    cases Updater.step_change hs with
    | quiet hh hr hp => exact raised_set hu (fun h => hr.trans h) (h hup)
    | takes hfree hfrom hto hr => exact raised_set hu hr (h hup)
    | raises hh hr hp =>
      obtain ⟨l₁, l₂, -, -, hset⟩ := Pool.split_getElem? hu
      refine ⟨u', ?_, hr⟩
      rw [show ({ s with shared := _, updaters := s.updaters.set k u' } : Worker).updaters =
        s.updaters.set k u' from rfl, hset]
      exact List.mem_append_right _ List.mem_cons_self
    | clears hh hp => cases hup
    | releases hfrom hto hr => exact raised_set hu (fun h => hr.trans h) (h hup)
    | stops hh hr hp => exact raised_set hu (fun h => hr.trans h) (h hup)
  | loopsEnd p =>
    obtain ⟨u, hu, hr⟩ := h hup
    exact ⟨u.abort, List.mem_map_of_mem hu, (Updater.abort_raised u).trans hr⟩
  | rejoins =>
    obtain ⟨u, hu, hr⟩ := h hup
    exact ⟨u, List.mem_append_left _ hu, hr⟩
  | dies => exact h hup

/-! ## The tasks -/

theorem sound_append (h : ∀ j ∈ s.jobs, j.Sound) {j : Job} (hj : j.Sound) :
    ∀ i ∈ s.jobs ++ [j], i.Sound := by
  intro i hi
  rcases List.mem_append.mp hi with hi | hi
  · exact h i hi
  · rw [List.mem_singleton.mp hi]
    exact hj

theorem sound_set (h : ∀ j ∈ s.jobs, j.Sound) {k : ℕ} {j j' : Job} {e : JobEvent}
    (hj : s.jobs[k]? = some j) (hs : j.step e = some j') : ∀ i ∈ s.jobs.set k j', i.Sound := by
  intro i hi
  rcases Pool.mem_set hj hi with rfl | hi
  · have hold := h j (Pool.mem_of_getElem? hj)
    exact Job.step_sound hold hs
  · exact h i hi

theorem sound_trans (h : ∀ j ∈ s.jobs, j.Sound) (ht : Trans s e t) : ∀ j ∈ t.jobs, j.Sound := by
  cases ht with
  | session => exact h
  | rejects _ claim reject => exact sound_append h (.rejecting _ _)
  | accepts host claim hoffer hfree hfits => exact sound_append h .accepting
  | job hj hs he => exact sound_set h hj hs
  | leaves hj hs => exact sound_set h hj hs
  | localReserves hfree => exact h
  | localWaits => exact h
  | localEnds n hn => exact h
  | updater hu hs => exact h
  | loopsEnd p => exact h
  | rejoins => exact h
  | dies => exact h

theorem gated_step (h : s.Gated) (hs : step s e = some t) : t.Gated where
  holders := holders_trans h.holders (step_trans hs)
  pending := pending_trans h.pending (step_trans hs)
  sound := sound_trans h.sound (step_trans hs)

theorem gated_run {es : List WorkerEvent} (hr : run step start es = some s) : s.Gated :=
  run_invariant (fun _ _ _ => gated_step) gated_start hr

/-- At any time one reservation at most is alive. -/
theorem Gated.holders_le (h : s.Gated) : s.holders ≤ 1 := by
  rw [h.holders]
  exact Bool.toNat_le _

/-- An offer of a job without model files. -/
def smallOffer : JobOfferClaim := ⟨"j-1", "m", 0, "p", ⟨.llamaCpp, [], {}⟩⟩

def noFlags : OfferFlags := ⟨false, false, none⟩

end Worker

end StudioWorker.Session
