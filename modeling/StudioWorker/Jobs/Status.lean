import StudioWorker.Jobs.Run

/-!
# Jobs.Status — the jobs as the UI sees them

`DaemonControl::status` reads the three job lists one after another, each under its own lock, and
`Replica::apply_status` puts what came over the wire in the UI's own observers (`src/control.rs`,
`src/daemon_api.rs`, `src/daemon_link.rs`).  Between the locks the daemon's threads go on.

* `JobWire.toCurrent_running`, `JobWire.toRecent_finished`: what crosses the wire.
* `applyStatus_lists`: the UI's lists after a status.
* `status_misses_no_job`: a job that has begun is in some list, whenever these are read.
-/

namespace StudioWorker.Jobs

open Lib Lib.System
open Session (JobOutcome TaskResult)

inductive JobStatus where
  | running
  | completed
  | failed
deriving DecidableEq

structure JobWire where
  jobId : Text
  kind : TaskKind
  model : Text
  prompt : Text
  source : JobSource
  status : JobStatus
  reason : Option String
  startedAt : ℤ
  finishedAt : Option ℤ
  hasThumbnail : Bool
deriving DecidableEq

namespace JobWire

def running (job : CurrentJob) (hasThumbnail : Bool) : JobWire where
  jobId := job.jobId
  kind := job.kind
  model := job.model
  prompt := job.prompt
  source := job.source
  status := .running
  reason := none
  startedAt := job.startedAt
  finishedAt := none
  hasThumbnail := hasThumbnail

def finished (job : RecentJob) (hasThumbnail : Bool) : JobWire :=
  let (status, reason) : JobStatus × Option String := match job.outcome with
    | .completed => (.completed, none)
    | .failed reason => (.failed, some reason)
  { jobId := job.jobId
    kind := job.kind
    model := job.model
    prompt := job.prompt
    source := job.source
    status := status
    reason := reason
    startedAt := job.startedAt
    finishedAt := some job.finishedAt
    hasThumbnail := hasThumbnail }

def toCurrent (w : JobWire) : CurrentJob where
  jobId := w.jobId
  kind := w.kind
  model := w.model
  prompt := w.prompt
  startedAt := w.startedAt
  source := w.source

/-- The finished job, `none` while it runs. -/
def toRecent (w : JobWire) : Option RecentJob :=
  let outcome : Option JobOutcome := match w.status with
    | .running => none
    | .completed => some .completed
    | .failed => some (.failed (w.reason.getD ""))
  outcome.map fun outcome =>
    { jobId := w.jobId
      kind := w.kind
      model := w.model
      prompt := w.prompt
      outcome := outcome
      startedAt := w.startedAt
      finishedAt := w.finishedAt.getD w.startedAt
      source := w.source }

theorem toCurrent_running (job : CurrentJob) (b : Bool) : (running job b).toCurrent = job := rfl

theorem toRecent_finished (job : RecentJob) (b : Bool) : (finished job b).toRecent = some job := by
  obtain ⟨jobId, kind, model, prompt, outcome, startedAt, finishedAt, source⟩ := job
  cases outcome <;> rfl

end JobWire

/-- The job lists of a `DaemonStatus`. -/
structure DaemonStatus where
  currentJobId : Option Text
  activeJobs : List JobWire
  recentJobs : List JobWire
  localJobs : List JobWire
deriving DecidableEq

variable {Png : Type}

/-- `DaemonControl::status`, with the observers as they are when each list is read. -/
def status (atActive atRecent atLocal : WorkerObservers Png) (currentJobId : Option Text) :
    DaemonStatus where
  currentJobId := currentJobId
  activeJobs := atActive.activeJobs.map fun j =>
    .running j (atActive.thumbnails.contains j.jobId)
  recentJobs := atRecent.recentJobs.map fun j =>
    .finished j (atRecent.thumbnails.contains j.jobId)
  localJobs := atLocal.localJobs.map fun j =>
    .finished j (atLocal.thumbnails.contains j.jobId)

def DaemonStatus.all (s : DaemonStatus) : List JobWire := s.activeJobs ++ s.recentJobs ++ s.localJobs

/-- The UI's copy of the observers, with the job the worker's slot is taken by. -/
structure Replica (Png : Type) where
  observers : WorkerObservers Png := {}
  currentJob : Option CurrentJob := none
deriving DecidableEq

/-- `Replica::apply_status` -/
def Replica.applyStatus (replica : Replica Png) (s : DaemonStatus) : Replica Png :=
  let active := s.activeJobs.map JobWire.toCurrent
  let withThumbnail := (s.all.filter JobWire.hasThumbnail).map JobWire.jobId
  { currentJob := s.currentJobId.bind fun id => active.find? fun j => j.jobId == id
    observers := {
      activeJobs := active
      recentJobs := s.recentJobs.filterMap JobWire.toRecent
      localJobs := s.localJobs.filterMap JobWire.toRecent
      thumbnails := replica.observers.thumbnails.retain fun id => withThumbnail.any (· == id) } }

theorem filterMap_toRecent (ring : List RecentJob) (has : Text → Bool) :
    (ring.map fun j => JobWire.finished j (has j.jobId)).filterMap JobWire.toRecent = ring := by
  induction ring with
  | nil => rfl
  | cons j ring ih =>
    rw [List.map_cons, List.filterMap_cons, JobWire.toRecent_finished, ih]

theorem map_toCurrent (jobs : List CurrentJob) (has : Text → Bool) :
    (jobs.map fun j => JobWire.running j (has j.jobId)).map JobWire.toCurrent = jobs := by
  induction jobs with
  | nil => rfl
  | cons j jobs ih => rw [List.map_cons, List.map_cons, JobWire.toCurrent_running, ih]

/-- The UI's lists are the daemon's, each as it was when it was read. -/
theorem applyStatus_lists (replica : Replica Png) (a b c : WorkerObservers Png)
    (id : Option Text) :
    (replica.applyStatus (status a b c id)).observers.activeJobs = a.activeJobs ∧
      (replica.applyStatus (status a b c id)).observers.recentJobs = b.recentJobs ∧
      (replica.applyStatus (status a b c id)).observers.localJobs = c.localJobs :=
  ⟨map_toCurrent _ _, filterMap_toRecent _ _, filterMap_toRecent _ _⟩

namespace JobBook

variable {makeThumbnail : List UInt8 → Except String Png} {s t : JobBook Png × JobHistory Png}

/-- A ring's worth of newer records has pushed the entry out of its ring. -/
def PushedOut (forRing : RecentJob → Bool) (entry : RecentJob) (finished : List RecentJob) : Prop :=
  ∃ newer older, finished = newer ++ entry :: older ∧ recentJobsCap ≤ newer.countP forRing

theorem mem_ringOf_or {forRing : RecentJob → Bool} {entry : RecentJob} {finished : List RecentJob}
    (hmem : entry ∈ finished) (hfor : forRing entry = true) :
    entry ∈ ringOf forRing finished ∨ PushedOut forRing entry finished := by
  obtain ⟨newer, older, rfl⟩ := List.append_of_mem hmem
  rcases Nat.lt_or_ge (newer.countP forRing) recentJobsCap with hlt | hge
  · refine .inl ?_
    have hlen : (newer.filter forRing).length < recentJobsCap := by
      rwa [← List.countP_eq_length_filter]
    rw [ringOf, List.filter_append, List.filter_cons_of_pos hfor, List.take_append]
    refine List.mem_append_right _ ?_
    rw [show recentJobsCap - (newer.filter forRing).length =
      recentJobsCap - (newer.filter forRing).length - 1 + 1 by omega, List.take_succ_cons]
    exact List.mem_cons_self
  · exact .inr ⟨newer, older, rfl, hge⟩

theorem step_finished_suffix {e : JobRunEvent Png}
    (h : noting (step makeThumbnail) (note makeThumbnail) s e = some t) :
    s.2.finished <:+ t.2.finished := by
  rw [(noting_some.mp h).2]
  cases e with
  | begin | setPrompt | drop => exact List.suffix_rfl
  | keep k result =>
    simp only [note]
    split
    · rw [JobHistory.finished_put]
    · exact List.suffix_rfl
  | keepPicture k thumbnail =>
    simp only [note]
    split
    · rw [JobHistory.finished_put]
    · exact List.suffix_rfl
  | record k outcome finishedAt =>
    simp only [note]
    split
    · exact List.suffix_cons _ _
    · exact List.suffix_rfl

/-- What was recorded stays so. -/
theorem run_finished_suffix {es : List (JobRunEvent Png)}
    (h : run (noting (step makeThumbnail) (note makeThumbnail)) s es = some t) :
    s.2.finished <:+ t.2.finished :=
  run_invariant (I := fun u => s.2.finished <:+ u.2.finished)
    (fun _ _ _ hu hstep => hu.trans (step_finished_suffix hstep)) List.suffix_rfl h

/-- Whatever the threads do between the three reads of a status, the UI shows every job that had
begun by the first: as running, or finished, unless it was dropped unfinished or a ring's worth of
jobs have finished after it. -/
theorem status_misses_no_job {es es' es'' : List (JobRunEvent Png)}
    {s s' s'' : JobBook Png × JobHistory Png}
    (h : run (noting (step makeThumbnail) (note makeThumbnail)) ({}, {}) es = some s)
    (hends : Along (step makeThumbnail) EndsAlone {} es)
    (h' : run (noting (step makeThumbnail) (note makeThumbnail)) s es' = some s')
    (h'' : run (noting (step makeThumbnail) (note makeThumbnail)) s' es'' = some s'')
    (replica : Replica Png) (id : Option Text) :
    let shown := (replica.applyStatus
      (status s.1.observers s'.1.observers s''.1.observers id)).observers
    ∀ r ∈ s.1.runs, r.listed ∈ shown.activeJobs ∨ r.phase = .ended none ∨
      ∃ entry ∈ r.entry,
        if ofStudio entry then
          entry ∈ shown.recentJobs ∨ PushedOut ofStudio entry s'.2.finished
        else entry ∈ shown.localJobs ∨ PushedOut (fun e => !ofStudio e) entry s''.2.finished := by
  intro shown r hr
  obtain ⟨hactive, hrecent, hlocal⟩ :=
    applyStatus_lists replica s.1.observers s'.1.observers s''.1.observers id
  have hlists : s.1.ListsLive := along_invariant (fun _ _ _ hu hok hstep =>
    (step_listsLive hu hstep).mpr hok) es {} s.1 rfl hends (run_of_noting h)
  have hsecond : run (noting (step makeThumbnail) (note makeThumbnail)) ({}, {}) (es ++ es') =
      some s' := by
    rw [run_append, h]
    exact h'
  have hthird : run (noting (step makeThumbnail) (note makeThumbnail)) ({}, {})
      (es ++ es' ++ es'') = some s'' := by
    rw [run_append, hsecond]
    exact h''
  cases hphase : r.phase with
  | running =>
    refine .inl ?_
    rw [hactive, hlists]
    exact mem_liveJobs.mpr ⟨r, hr, live_of_running hphase, rfl⟩
  | recorded entry =>
    refine .inl ?_
    rw [hactive, hlists]
    exact mem_liveJobs.mpr ⟨r, hr, by rw [JobRun.live, hphase], rfl⟩
  | ended entry =>
    cases entry with
    | none => exact .inr (.inl rfl)
    | some entry =>
      have hentry : entry ∈ r.entry := by
        rw [JobRun.entry, hphase]
        rfl
      have hmem : entry ∈ s.2.finished :=
        (run_recorded h).once.mem_iff.mpr (List.mem_filterMap.mpr ⟨r, hr, hentry⟩)
      have hmem' : entry ∈ s'.2.finished := (run_finished_suffix h').subset hmem
      have hmem'' : entry ∈ s''.2.finished := (run_finished_suffix h'').subset hmem'
      refine .inr (.inr ⟨entry, hentry, ?_⟩)
      split_ifs with hstudio
      · rw [hrecent, (run_recorded hsecond).recent]
        exact mem_ringOf_or hmem' hstudio
      · rw [hlocal, (run_recorded hthird).localJobs]
        exact mem_ringOf_or hmem'' (by simp [hstudio])

/-- One job finishes before the status, one while it is read. -/
theorem status_of_two :
    ∃ s, run (noting (step plainThumbnail) (note plainThumbnail)) ({}, {})
        [.begin (localJob ['a']), .record 0 .completed 5, .drop 0, .begin (localJob ['b'])] =
          some s ∧
      ∃ s', run (noting (step plainThumbnail) (note plainThumbnail)) s
          [.record 1 .completed 7, .drop 1] = some s' ∧
        let shown := (({} : Replica (List UInt8)).applyStatus
          (status s.1.observers s.1.observers s'.1.observers none)).observers
        ∀ r ∈ s.1.runs, r.listed ∈ shown.activeJobs ∨ r.phase = .ended none ∨
          ∃ entry ∈ r.entry,
            if ofStudio entry then
              entry ∈ shown.recentJobs ∨ PushedOut ofStudio entry s.2.finished
            else entry ∈ shown.localJobs ∨ PushedOut (fun e => !ofStudio e) entry s'.2.finished := by
  refine exists_run (P := fun s => (run (noting (step plainThumbnail) (note plainThumbnail)) s
    [.record 1 .completed 7, .drop 1]).isSome = true) (by decide) fun s hs hsome => ?_
  obtain ⟨s', hs'⟩ := Option.isSome_iff_exists.mp hsome
  exact ⟨s', hs', status_misses_no_job hs (by decide) (run_nil _ s) hs' {} none⟩

end JobBook
end StudioWorker.Jobs
