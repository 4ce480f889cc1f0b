import Mathlib.Data.List.Perm.Basic
import StudioWorker.Jobs.Thumbnails
import StudioWorker.Lib.Pool
import StudioWorker.Lib.System
import StudioWorker.Session.Offer

/-!
# Jobs.Run — the bookkeeping of every job (`src/job_run.rs`)

Threads begin jobs, run and finish them, or drop them unfinished; every step below is one lock
section on the observers the threads share.  A run that ends takes its job's id off the running
list, whichever run put it there.

* `JobBook.step`: what the threads do.
* `listsLive_iff`: when the running list is that of the runs that are alive.
* `JobBook.Recorded`: what the rings and the thumbnails hold, whatever the threads did.
-/

namespace StudioWorker.Jobs

open Lib Lib.System
open Session (JobOutcome TaskResult)

/-- `PROMPT_PREVIEW_CHARS` of `src/runtime.rs`. -/
def promptPreviewChars : ℕ := 200

/-- Where a job came from; `localApi` is the source's `Local`. -/
inductive JobSource where
  | studio
  | localApi
  | lane
  | stream
deriving DecidableEq

/-- Times are nanoseconds. -/
structure CurrentJob where
  jobId : Text
  kind : TaskKind
  model : Text
  prompt : Text
  startedAt : ℤ
  source : JobSource
deriving DecidableEq

structure RecentJob where
  jobId : Text
  kind : TaskKind
  model : Text
  prompt : Text
  outcome : JobOutcome
  startedAt : ℤ
  finishedAt : ℤ
  source : JobSource
deriving DecidableEq

def truncatePrompt (s : Text) : Text :=
  if s.length ≤ promptPreviewChars then s else s.take promptPreviewChars ++ ['…']

/-- The observers that job runs write to. -/
structure WorkerObservers (Png : Type) where
  activeJobs : List CurrentJob := []
  thumbnails : Thumbnails Png := []
  recentJobs : List RecentJob := []
  localJobs : List RecentJob := []
deriving DecidableEq

/-- `push_front`, then `pop_back` while the ring is too long. -/
def pushCapped (ring : List RecentJob) (entry : RecentJob) : List RecentJob :=
  (entry :: ring).take recentJobsCap

namespace WorkerObservers

variable {Png : Type} (o : WorkerObservers Png)

def recordRecentJob (entry : RecentJob) : WorkerObservers Png :=
  { o with recentJobs := pushCapped o.recentJobs entry }

def recordLocalJob (entry : RecentJob) : WorkerObservers Png :=
  { o with localJobs := pushCapped o.localJobs entry }

/-- `finish` up to its drop. -/
def record (entry : RecentJob) : WorkerObservers Png :=
  match entry.source with
  | .studio => o.recordRecentJob entry
  | .localApi | .lane | .stream => o.recordLocalJob entry

/-- `ThumbnailKeeper::store` -/
def store (jobId : Text) : Except String Png → WorkerObservers Png
  | .ok png => { o with thumbnails := o.thumbnails.insert jobId png }
  | .error _ => o

/-- `ThumbnailKeeper::keep` -/
def keep (makeThumbnail : List UInt8 → Except String Png) (jobId : Text) :
    TaskResult → WorkerObservers Png
  | .image bytes _ => o.store jobId (makeThumbnail bytes)
  | _ => o

end WorkerObservers

def CurrentJob.finished (job : CurrentJob) (outcome : JobOutcome) (finishedAt : ℤ) : RecentJob where
  jobId := job.jobId
  kind := job.kind
  model := job.model
  prompt := job.prompt
  outcome := outcome
  startedAt := job.startedAt
  finishedAt := finishedAt
  source := job.source

/-- Where a run is: at work, past its record, or dropped. -/
inductive RunPhase where
  | running
  | recorded (entry : RecentJob)
  | ended (entry : Option RecentJob)
deriving DecidableEq

/-- A run and the job it listed, from which its own may differ in the prompt alone. -/
structure JobRun where
  listed : CurrentJob
  job : CurrentJob
  phase : RunPhase
  same : { listed with prompt := job.prompt } = job
deriving DecidableEq

namespace JobRun

def begun (job : CurrentJob) : JobRun := ⟨job, job, .running, rfl⟩

def setPrompt (r : JobRun) (prompt : Text) : JobRun :=
  { r with
    job := { r.job with prompt := truncatePrompt prompt }
    same := congrArg (fun j : CurrentJob => { j with prompt := truncatePrompt prompt }) r.same }

def live (r : JobRun) : Bool :=
  match r.phase with
  | .running | .recorded _ => true
  | .ended _ => false

/-- What the run has recorded. -/
def entry (r : JobRun) : Option RecentJob :=
  match r.phase with
  | .running => none
  | .recorded entry => some entry
  | .ended entry => entry

theorem jobId_eq (r : JobRun) : r.job.jobId = r.listed.jobId := by rw [← r.same]

theorem source_eq (r : JobRun) : r.job.source = r.listed.source := by rw [← r.same]

end JobRun

/-- The observers, and every run there ever was in the order they began. -/
structure JobBook (Png : Type) where
  observers : WorkerObservers Png := {}
  runs : List JobRun := []
deriving DecidableEq

inductive JobRunEvent (Png : Type) where
  /-- `JobRun::begin` lists the job. -/
  | begin (job : CurrentJob)
  | setPrompt (k : ℕ) (prompt : Text)
  /-- A keeper of the `k`-th run keeps a thumbnail, maybe after the run has ended. -/
  | keep (k : ℕ) (result : TaskResult)
  | keepPicture (k : ℕ) (thumbnail : Except String Png)
  /-- `JobRun::finish` records the job in its ring. -/
  | record (k : ℕ) (outcome : JobOutcome) (finishedAt : ℤ)
  /-- The run is dropped: at the end of `finish`, or unfinished. -/
  | drop (k : ℕ)

namespace JobBook

variable {Png : Type}

def step (makeThumbnail : List UInt8 → Except String Png) :
    System (JobBook Png) (JobRunEvent Png)
  | s, .begin job =>
    some {
      observers := { s.observers with activeJobs := s.observers.activeJobs ++ [job] }
      runs := s.runs ++ [.begun job] }
  | s, .setPrompt k prompt =>
    match s.runs[k]? with
    | some r =>
      if r.phase = .running then some { s with runs := s.runs.set k (r.setPrompt prompt) } else none
    | none => none
  | s, .keep k result =>
    s.runs[k]?.map fun r =>
      { s with observers := s.observers.keep makeThumbnail r.job.jobId result }
  | s, .keepPicture k thumbnail =>
    s.runs[k]?.map fun r => { s with observers := s.observers.store r.job.jobId thumbnail }
  | s, .record k outcome finishedAt =>
    match s.runs[k]? with
    | some r =>
      if r.phase = .running then
        let entry := r.job.finished outcome finishedAt
        some {
          observers := s.observers.record entry
          runs := s.runs.set k { r with phase := .recorded entry } }
      else none
    | none => none
  | s, .drop k =>
    match s.runs[k]? with
    | some r =>
      if r.live then
        some {
          observers := { s.observers with
            activeJobs := s.observers.activeJobs.filter fun j => j.jobId != r.job.jobId }
          runs := s.runs.set k { r with phase := .ended r.entry } }
      else none
    | none => none

/-! ## The running list -/

/-- The jobs of the runs that are alive, as they were listed. -/
def liveJobs (runs : List JobRun) : List CurrentJob := (runs.filter JobRun.live).map JobRun.listed

def ListsLive (s : JobBook Png) : Prop := s.observers.activeJobs = liveJobs s.runs

/-- No run ends while another one with its job's id is alive. -/
def EndsAlone (s : JobBook Png) : JobRunEvent Png → Prop
  | .drop k => ∀ r ∈ s.runs[k]?, ∀ other ∈ s.runs.eraseIdx k,
      other.live = true → other.listed.jobId ≠ r.listed.jobId
  | _ => True

instance (s : JobBook Png) : ∀ e, Decidable (s.EndsAlone e)
  | .drop _ => inferInstanceAs (Decidable (∀ r ∈ _, ∀ other ∈ _, _ → _))
  | .begin _ | .setPrompt _ _ | .keep _ _ | .keepPicture _ _ | .record _ _ _ => isTrue trivial

instance (s : JobBook Png) : Decidable s.ListsLive := inferInstanceAs (Decidable (_ = _))

@[simp] theorem liveJobs_append (l m : List JobRun) :
    liveJobs (l ++ m) = liveJobs l ++ liveJobs m := by
  rw [liveJobs, List.filter_append, List.map_append, liveJobs, liveJobs]

theorem liveJobs_cons (r : JobRun) (runs : List JobRun) :
    liveJobs (r :: runs) = (if r.live then [r.listed] else []) ++ liveJobs runs := by
  cases h : r.live <;> simp [liveJobs, h]

/-- A run that stays alive, or stays ended, under the job it listed. -/
theorem liveJobs_set {runs : List JobRun} {k : ℕ} {r r' : JobRun} (hk : runs[k]? = some r)
    (hlive : r'.live = r.live) (hlisted : r'.listed = r.listed) :
    liveJobs (runs.set k r') = liveJobs runs := by
  obtain ⟨before, after, hruns, -, hset⟩ := Pool.split_getElem? hk
  rw [hset, hruns, liveJobs_append, liveJobs_append, liveJobs_cons, liveJobs_cons, hlive, hlisted]

theorem mem_liveJobs {runs : List JobRun} {job : CurrentJob} :
    job ∈ liveJobs runs ↔ ∃ r ∈ runs, r.live = true ∧ r.listed = job := by
  simp only [liveJobs, List.mem_map, List.mem_filter, and_assoc]

variable {makeThumbnail : List UInt8 → Except String Png} {s t : JobBook Png}

@[simp] theorem activeJobs_store (o : WorkerObservers Png) (jobId : Text)
    (thumbnail : Except String Png) : (o.store jobId thumbnail).activeJobs = o.activeJobs := by
  cases thumbnail <;> rfl

@[simp] theorem activeJobs_keep (o : WorkerObservers Png) (jobId : Text) (result : TaskResult) :
    (o.keep makeThumbnail jobId result).activeJobs = o.activeJobs := by
  cases result <;> first | rfl | exact activeJobs_store o jobId _

@[simp] theorem activeJobs_record (o : WorkerObservers Png) (entry : RecentJob) :
    (o.record entry).activeJobs = o.activeJobs := by
  rw [WorkerObservers.record]
  cases entry.source <;> rfl

/-- What a step can do. -/
theorem step_cases {e : JobRunEvent Png} (h : step makeThumbnail s e = some t) :
    (∃ job, e = .begin job ∧ t = {
      observers := { s.observers with activeJobs := s.observers.activeJobs ++ [job] }
      runs := s.runs ++ [.begun job] }) ∨
    ∃ k r, s.runs[k]? = some r ∧
      ((∃ prompt, e = .setPrompt k prompt ∧ r.phase = .running ∧
          t = { s with runs := s.runs.set k (r.setPrompt prompt) }) ∨
        (∃ result, e = .keep k result ∧
          t = { s with observers := s.observers.keep makeThumbnail r.job.jobId result }) ∨
        (∃ thumbnail, e = .keepPicture k thumbnail ∧
          t = { s with observers := s.observers.store r.job.jobId thumbnail }) ∨
        (∃ outcome finishedAt, e = .record k outcome finishedAt ∧ r.phase = .running ∧ t = {
          observers := s.observers.record (r.job.finished outcome finishedAt)
          runs := s.runs.set k
            { r with phase := .recorded (r.job.finished outcome finishedAt) } }) ∨
        (e = .drop k ∧ r.live = true ∧ t = {
          observers := { s.observers with
            activeJobs := s.observers.activeJobs.filter fun j => j.jobId != r.job.jobId }
          runs := s.runs.set k { r with phase := .ended r.entry } })) := by
  cases e with
  | begin job =>
    obtain rfl := Option.some.inj h
    exact .inl ⟨job, rfl, rfl⟩
  | setPrompt k prompt =>
    cases hk : s.runs[k]? with
    | none => simp [step, hk] at h
    | some r =>
      by_cases hr : r.phase = .running
      · simp only [step, hk, if_pos hr, Option.some.injEq] at h
        exact .inr ⟨k, r, hk, .inl ⟨prompt, rfl, hr, h.symm⟩⟩
      · simp [step, hk, hr] at h
  | keep k result =>
    cases hk : s.runs[k]? with
    | none => simp [step, hk] at h
    | some r =>
      simp only [step, hk, Option.map_some, Option.some.injEq] at h
      exact .inr ⟨k, r, hk, .inr (.inl ⟨result, rfl, h.symm⟩)⟩
  | keepPicture k thumbnail =>
    cases hk : s.runs[k]? with
    | none => simp [step, hk] at h
    | some r =>
      simp only [step, hk, Option.map_some, Option.some.injEq] at h
      exact .inr ⟨k, r, hk, .inr (.inr (.inl ⟨thumbnail, rfl, h.symm⟩))⟩
  | record k outcome finishedAt =>
    cases hk : s.runs[k]? with
    | none => simp [step, hk] at h
    | some r =>
      by_cases hr : r.phase = .running
      · simp only [step, hk, if_pos hr, Option.some.injEq] at h
        exact .inr ⟨k, r, hk, .inr (.inr (.inr (.inl ⟨outcome, finishedAt, rfl, hr, h.symm⟩)))⟩
      · simp [step, hk, hr] at h
  | drop k =>
    cases hk : s.runs[k]? with
    | none => simp [step, hk] at h
    | some r =>
      by_cases hr : r.live = true
      · simp only [step, hk, if_pos hr, Option.some.injEq] at h
        exact .inr ⟨k, r, hk, .inr (.inr (.inr (.inr ⟨rfl, hr, h.symm⟩)))⟩
      · simp [step, hk, hr] at h

theorem live_of_running {r : JobRun} (h : r.phase = .running) : r.live = true := by
  rw [JobRun.live, h]

/-- A run that ends takes its own job off the list, and every other one with its id. -/
theorem listsLive_drop_iff {k : ℕ} {r : JobRun} (hk : s.runs[k]? = some r) (hlive : r.live = true)
    (hlists : s.ListsLive) :
    (s.observers.activeJobs.filter fun j => j.jobId != r.job.jobId) =
        liveJobs (s.runs.set k { r with phase := .ended r.entry }) ↔ s.EndsAlone (.drop k) := by
  obtain ⟨before, after, hruns, herase, hset⟩ := Pool.split_getElem? hk
  have hself : (r.listed.jobId != r.job.jobId) = false := by simp [r.jobId_eq]
  have hended : liveJobs (s.runs.set k { r with phase := .ended r.entry }) =
      liveJobs before ++ liveJobs after := by
    rw [hset, liveJobs_append, liveJobs_cons]
    rfl
  have hfilter : (s.observers.activeJobs.filter fun j => j.jobId != r.job.jobId) =
      (liveJobs before ++ liveJobs after).filter fun j => j.jobId != r.job.jobId := by
    rw [hlists, hruns, liveJobs_append, liveJobs_cons, if_pos hlive, List.filter_append,
      List.filter_append, List.filter_append]
    simp [hself]
  rw [hended, hfilter, List.filter_eq_self, EndsAlone, ← liveJobs_append]
  constructor
  · intro h r' hr' other hother hal
    obtain rfl := Option.some.inj (hk.symm.trans hr')
    rw [herase] at hother
    have := h _ (mem_liveJobs.mpr ⟨other, hother, hal, rfl⟩)
    rwa [r.jobId_eq, bne_iff_ne] at this
  · intro h job hjob
    obtain ⟨other, hother, hal, rfl⟩ := mem_liveJobs.mp hjob
    rw [r.jobId_eq, bne_iff_ne]
    exact h r hk other (herase ▸ hother) hal

theorem step_listsLive {e : JobRunEvent Png} (hlists : s.ListsLive)
    (h : step makeThumbnail s e = some t) : t.ListsLive ↔ s.EndsAlone e := by
  obtain ⟨job, rfl, rfl⟩ | ⟨k, r, hk, hcase⟩ := step_cases h
  · simp only [ListsLive, EndsAlone, liveJobs_append, iff_true]
    rw [hlists]
    rfl
  · rcases hcase with ⟨prompt, rfl, hr, rfl⟩ | ⟨result, rfl, rfl⟩ | ⟨thumbnail, rfl, rfl⟩ |
      ⟨outcome, finishedAt, rfl, hr, rfl⟩ | ⟨rfl, hlive, rfl⟩
    · simp only [ListsLive, EndsAlone, iff_true]
      have hset : liveJobs (s.runs.set k (r.setPrompt prompt)) = liveJobs s.runs :=
        liveJobs_set hk rfl rfl
      rw [hset, hlists]
    · simp only [ListsLive, EndsAlone, activeJobs_keep, iff_true]
      exact hlists
    · simp only [ListsLive, EndsAlone, activeJobs_store, iff_true]
      exact hlists
    · simp only [ListsLive, EndsAlone, activeJobs_record, iff_true]
      have hset : liveJobs (s.runs.set k
          { r with phase := .recorded (r.job.finished outcome finishedAt) }) = liveJobs s.runs :=
        liveJobs_set hk (live_of_running hr).symm rfl
      rw [hset, hlists]
    · exact listsLive_drop_iff hk hlive hlists

/-- Throughout a run the running list is that of the runs that are alive, in the order they began,
exactly when no run ends while another one with its job's id is alive. -/
theorem listsLive_iff {es : List (JobRunEvent Png)} (h : run (step makeThumbnail) {} es = some t) :
    (∀ before u, before <+: es → run (step makeThumbnail) {} before = some u → u.ListsLive) ↔
      Along (step makeThumbnail) EndsAlone {} es :=
  forall_prefix_iff_along (fun _ _ _ => step_listsLive) rfl h

/-- A job of the local API. -/
def localJob (jobId : Text) : CurrentJob := ⟨jobId, .image, [], [], 0, .localApi⟩

/-- A thumbnail that stands for itself. -/
def plainThumbnail (bytes : List UInt8) : Except String (List UInt8) := .ok bytes

/-- Of two runs the one that has finished is off the list. -/
theorem listsLive_of_two :
    ∃ u, run (step plainThumbnail) {}
        [.begin (localJob ['a']), .begin (localJob ['b']), .record 0 .completed 5, .drop 0] =
          some u ∧ u.ListsLive ∧ u.observers.activeJobs = [localJob ['b']] :=
  exists_run (P := fun u => u.observers.activeJobs = [localJob ['b']]) (by decide)
    fun u hu hb => ⟨(listsLive_iff hu).mpr (by decide) _ u List.prefix_rfl hu, hb⟩

/-! ## What was recorded and kept -/

/-- The records of a run, the newest first, and the thumbnails that were put. -/
structure JobHistory (Png : Type) where
  finished : List RecentJob := []
  puts : List (Text × Png) := []

def JobHistory.put (history : JobHistory Png) (jobId : Text) :
    Except String Png → JobHistory Png
  | .ok png => { history with puts := history.puts ++ [(jobId, png)] }
  | .error _ => history

@[simp] theorem JobHistory.finished_put (history : JobHistory Png) (jobId : Text)
    (thumbnail : Except String Png) : (history.put jobId thumbnail).finished = history.finished := by
  cases thumbnail <;> rfl

def note (makeThumbnail : List UInt8 → Except String Png) (history : JobHistory Png)
    (s : JobBook Png) (e : JobRunEvent Png) : JobHistory Png :=
  match e with
  | .begin _ | .setPrompt _ _ | .drop _ => history
  | .keep k result =>
    match s.runs[k]?, result with
    | some r, .image bytes _ => history.put r.job.jobId (makeThumbnail bytes)
    | _, _ => history
  | .keepPicture k thumbnail =>
    match s.runs[k]? with
    | some r => history.put r.job.jobId thumbnail
    | none => history
  | .record k outcome finishedAt =>
    match s.runs[k]? with
    | some r => { history with finished := r.job.finished outcome finishedAt :: history.finished }
    | none => history

/-- The newest records that were made for a ring. -/
def ringOf (forRing : RecentJob → Bool) (finished : List RecentJob) : List RecentJob :=
  (finished.filter forRing).take recentJobsCap

def ofStudio (entry : RecentJob) : Bool := entry.source == .studio

/-- The rings hold the newest records of their jobs, every run that has recorded has done so once
and for its own job, and the thumbnails are what was put. -/
structure Recorded (s : JobBook Png × JobHistory Png) : Prop where
  recent : s.1.observers.recentJobs = ringOf ofStudio s.2.finished
  localJobs : s.1.observers.localJobs = ringOf (fun entry => !ofStudio entry) s.2.finished
  thumbnails : s.1.observers.thumbnails = Thumbnails.ofPuts s.2.puts
  once : s.2.finished.Perm (s.1.runs.filterMap JobRun.entry)
  ofRun : ∀ r ∈ s.1.runs, ∀ entry ∈ r.entry,
    ∃ outcome finishedAt, entry = r.job.finished outcome finishedAt

theorem ringOf_cons (forRing : RecentJob → Bool) (entry : RecentJob) (finished : List RecentJob) :
    ringOf forRing (entry :: finished) =
      if forRing entry then pushCapped (ringOf forRing finished) entry
      else ringOf forRing finished := by
  rw [ringOf, List.filter_cons]
  split_ifs with h
  · rw [pushCapped, ringOf, recentJobsCap, List.take_succ_cons, List.take_succ_cons,
      List.take_take]
    rfl
  · rfl

/-- What one run has recorded, and the others. -/
theorem filterMap_entry_set {runs : List JobRun} {k : ℕ} {r r' : JobRun} (hk : runs[k]? = some r)
    (h : r'.entry = r.entry) :
    (runs.set k r').filterMap JobRun.entry = runs.filterMap JobRun.entry := by
  obtain ⟨before, after, hruns, -, hset⟩ := Pool.split_getElem? hk
  rw [hset, hruns, List.filterMap_append, List.filterMap_append, List.filterMap_cons,
    List.filterMap_cons, h]

theorem filterMap_entry_record {runs : List JobRun} {k : ℕ} {r r' : JobRun} {entry : RecentJob}
    (hk : runs[k]? = some r) (h : r.entry = none) (h' : r'.entry = some entry) :
    ((runs.set k r').filterMap JobRun.entry).Perm (entry :: runs.filterMap JobRun.entry) := by
  obtain ⟨before, after, hruns, -, hset⟩ := Pool.split_getElem? hk
  rw [hset, hruns, List.filterMap_append, List.filterMap_append, List.filterMap_cons,
    List.filterMap_cons, h, h']
  exact List.perm_middle

theorem Recorded.store {s : JobBook Png × JobHistory Png} (h : Recorded s) (jobId : Text)
    (thumbnail : Except String Png) :
    Recorded ({ s.1 with observers := s.1.observers.store jobId thumbnail },
      s.2.put jobId thumbnail) := by
  cases thumbnail with
  | error err => exact h
  | ok png =>
    refine ⟨h.recent, h.localJobs, ?_, h.once, h.ofRun⟩
    show s.1.observers.thumbnails.insert jobId png = _
    rw [h.thumbnails, JobHistory.put, Thumbnails.ofPuts, Thumbnails.ofPuts, List.foldl_append]
    rfl

/-- A step that leaves the observers' rings and what the runs have recorded. -/
theorem Recorded.set {s : JobBook Png × JobHistory Png} (h : Recorded s) {k : ℕ} {r : JobRun}
    (hk : s.1.runs[k]? = some r) (r' : JobRun) (hentry : r'.entry = r.entry)
    (hjob : ∀ entry ∈ r.entry, r'.job = r.job) (activeJobs : List CurrentJob) :
    Recorded ({
      observers := { s.1.observers with activeJobs }
      runs := s.1.runs.set k r' }, s.2) := by
  refine ⟨h.recent, h.localJobs, h.thumbnails, ?_, ?_⟩
  · show s.2.finished.Perm _
    rw [filterMap_entry_set hk hentry]
    exact h.once
  · intro r₁ hr₁ entry he
    rcases Pool.mem_set hk hr₁ with rfl | hr₁
    · rw [hentry] at he
      rw [hjob entry he]
      exact h.ofRun r (Pool.mem_of_getElem? hk) entry he
    · exact h.ofRun r₁ hr₁ entry he

theorem Recorded.record {s : JobBook Png × JobHistory Png} (h : Recorded s) {k : ℕ} {r : JobRun}
    (hk : s.1.runs[k]? = some r) (hr : r.phase = .running) (outcome : JobOutcome) (finishedAt : ℤ) :
    Recorded ({
      observers := s.1.observers.record (r.job.finished outcome finishedAt)
      runs := s.1.runs.set k { r with phase := .recorded (r.job.finished outcome finishedAt) } },
      { s.2 with finished := r.job.finished outcome finishedAt :: s.2.finished }) := by
  have hnone : r.entry = none := by rw [JobRun.entry, hr]
  have hrings : ∀ entry : RecentJob,
      (s.1.observers.record entry).recentJobs = ringOf ofStudio (entry :: s.2.finished) ∧
      (s.1.observers.record entry).localJobs =
        ringOf (fun e => !ofStudio e) (entry :: s.2.finished) ∧
      (s.1.observers.record entry).thumbnails = s.1.observers.thumbnails := by
    intro entry
    rw [ringOf_cons, ringOf_cons, ← h.recent, ← h.localJobs, WorkerObservers.record]
    cases hsource : entry.source <;> simp [ofStudio, hsource, WorkerObservers.recordRecentJob,
      WorkerObservers.recordLocalJob]
  obtain ⟨hrecent, hlocal, hthumbnails⟩ := hrings (r.job.finished outcome finishedAt)
  refine ⟨hrecent, hlocal, hthumbnails.trans h.thumbnails, ?_, ?_⟩
  · exact (h.once.cons _).trans (filterMap_entry_record hk hnone rfl).symm
  · intro r₁ hr₁ entry he
    rcases Pool.mem_set hk hr₁ with rfl | hr₁
    · obtain rfl := Option.some.inj he
      exact ⟨outcome, finishedAt, rfl⟩
    · exact h.ofRun r₁ hr₁ entry he

theorem step_recorded (s : JobBook Png × JobHistory Png) (e : JobRunEvent Png)
    (t : JobBook Png × JobHistory Png) (h : Recorded s)
    (hs : noting (step makeThumbnail) (note makeThumbnail) s e = some t) : Recorded t := by
  obtain ⟨hstep, hnote⟩ := noting_some.mp hs
  obtain ⟨t, history⟩ := t
  obtain rfl : history = _ := hnote
  obtain ⟨job, rfl, rfl⟩ | ⟨k, r, hk, hcase⟩ := step_cases hstep
  · refine ⟨h.recent, h.localJobs, h.thumbnails, ?_, ?_⟩
    · show s.2.finished.Perm ((s.1.runs ++ [JobRun.begun job]).filterMap JobRun.entry)
      rw [List.filterMap_append, List.filterMap_cons_none rfl, List.filterMap_nil, List.append_nil]
      exact h.once
    · intro r hr entry he
      rcases List.mem_append.mp hr with hr | hr
      · exact h.ofRun r hr entry he
      · obtain rfl := List.mem_singleton.mp hr
        cases he
  · rcases hcase with ⟨prompt, rfl, hr, rfl⟩ | ⟨result, rfl, rfl⟩ | ⟨thumbnail, rfl, rfl⟩ |
      ⟨outcome, finishedAt, rfl, hr, rfl⟩ | ⟨rfl, hlive, rfl⟩
    · have hnone : r.entry = none := by rw [JobRun.entry, hr]
      exact h.set hk (r.setPrompt prompt) rfl (by simp [hnone]) s.1.observers.activeJobs
    · cases result with
      | image bytes ext =>
        simp only [note, hk]
        exact h.store r.job.jobId (makeThumbnail bytes)
      | llm | audioStt | audioTts | video | mesh | modelConvert =>
        simp only [note, hk]
        exact h
    · simp only [note, hk]
      exact h.store r.job.jobId thumbnail
    · simp only [note, hk]
      exact h.record hk hr outcome finishedAt
    · exact h.set hk { r with phase := .ended r.entry } rfl (fun _ _ => rfl) _

theorem run_recorded {es : List (JobRunEvent Png)} {s : JobBook Png × JobHistory Png}
    (h : run (noting (step makeThumbnail) (note makeThumbnail)) ({}, {}) es = some s) :
    Recorded s :=
  run_invariant step_recorded ⟨rfl, rfl, rfl, List.Perm.refl _, fun r hr => by cases hr⟩ h

/-- Whatever the runs do, the picture shown for a job is the last one a keeper made of it, until a
ring's worth of other jobs have had theirs kept since. -/
theorem thumbnail_iff {es : List (JobRunEvent Png)} {s : JobBook Png × JobHistory Png}
    (h : run (noting (step makeThumbnail) (note makeThumbnail)) ({}, {}) es = some s) (jobId : Text)
    (png : Png) :
    s.1.observers.thumbnails.get jobId = some png ↔
      ∃ before after, s.2.puts = before ++ (jobId, png) :: after ∧
        jobId ∉ Thumbnails.ids after ∧ (Thumbnails.ids after).dedup.length < thumbnailsCap := by
  rw [(run_recorded h).thumbnails]
  exact Thumbnails.get_ofPuts_iff _ _ _

/-- A picture kept by a keeper that has outlived its run. -/
theorem thumbnail_kept_late :
    ∃ s, run (noting (step plainThumbnail) (note plainThumbnail)) ({}, {})
        [.begin (localJob ['a']), .drop 0, .keep 0 (.image [1, 2] "png")] = some s ∧
      s.1.observers.thumbnails.get ['a'] = some [1, 2] :=
  exists_run (P := fun s => s.2.puts = [(['a'], [1, 2])]) (by decide)
    fun s hs hputs => (thumbnail_iff hs ['a'] [1, 2]).mpr ⟨[], [], hputs, by decide, by decide⟩

end JobBook
end StudioWorker.Jobs
