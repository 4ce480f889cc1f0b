import StudioWorker.CatalogJson
import StudioWorker.Jobs.Status
import StudioWorker.Lib.Window

/-!
# Jobs.Notify — the desktop notifications of finished jobs

`App::drain_notifications` of `src/ui/app.rs` walks the UI's copy of the recent ring, which a
poller fills from the daemon's and empties when the daemon cannot be reached.  The daemon's ring
holds a bounded number of jobs and starts empty whenever the daemon does.

* `drainNotifications`: as in the source; `decide` of `src/ui/notifier.rs` says what is shown.
* `NotifyLink.step`: the daemon, the poller and the drains beside each other.
* `notified_once`: what is shown, over every run.
-/

namespace StudioWorker.Jobs

open Lib Lib.System Lib.Window
open Session (JobOutcome)

structure NotificationPrefs where
  onCompletion : Bool
  onFailure : Bool
deriving DecidableEq

inductive NotifyDecision where
  | skip
  | show (title body : String)
deriving DecidableEq

def NotificationPrefs.decide (prefs : NotificationPrefs) (recent : RecentJob) : NotifyDecision :=
  let allow := match recent.outcome with
    | .completed => prefs.onCompletion
    | .failed _ => prefs.onFailure
  if !allow then .skip
  else
    let model := String.ofList recent.model
    match recent.outcome with
    | .completed => .show "studio-worker — job completed" s!"{recent.kind.name} · {model}"
    | .failed reason =>
      .show "studio-worker — job failed" s!"{recent.kind.name} · {model} — {reason}"

def NotifyDecision.shown : NotifyDecision → Option (String × String)
  | .skip => none
  | .show title body => some (title, body)

/-- What the app remembers of the job it notified of last. -/
def identity (entry : RecentJob) : Text × ℤ := (entry.jobId, entry.finishedAt)

/-- The entries in front of the one that was notified of last. -/
def newEntries (lastNotified : Option (Text × ℤ)) : List RecentJob → List RecentJob
  | [] => []
  | entry :: ring =>
    if lastNotified = some (entry.jobId, entry.finishedAt) then []
    else entry :: newEntries lastNotified ring

structure App where
  lastNotified : Option (Text × ℤ) := none
  /-- What the notifier was given to show. -/
  captured : List (String × String) := []
deriving DecidableEq

def drainNotifications (app : App) (prefs : NotificationPrefs) (ring : List RecentJob) : App :=
  let entries := newEntries app.lastNotified ring
  { lastNotified := match entries with
      | newest :: _ => some (newest.jobId, newest.finishedAt)
      | [] => app.lastNotified
    captured := app.captured ++ entries.reverse.filterMap fun e => (prefs.decide e).shown }

/-- A daemon, a status on its way to the UI, and the UI. -/
structure NotifyLink (Png : Type) where
  daemon : WorkerObservers Png := {}
  answer : Option DaemonStatus := none
  replica : Replica Png := {}
  app : App := {}

inductive NotifyEvent (Png : Type) where
  /-- A job of the daemon finishes. -/
  | record (entry : RecentJob)
  /-- The daemon ends and another one starts. -/
  | restart
  /-- A poll is answered; its other lists are read at other times. -/
  | answer (atActive atLocal : WorkerObservers Png) (currentJobId : Option Text)
  /-- The poller applies the answer. -/
  | apply
  /-- A poll fails, and the poller clears the replica. -/
  | fail
  | drain (prefs : NotificationPrefs)

namespace NotifyLink

variable {Png : Type}

def step : System (NotifyLink Png) (NotifyEvent Png)
  | s, .record entry => some { s with daemon := s.daemon.record entry }
  | s, .restart => some { s with daemon := {} }
  | s, .answer atActive atLocal id =>
    some { s with answer := some (status atActive s.daemon atLocal id) }
  | s, .apply => s.answer.map fun st =>
    { s with answer := none, replica := s.replica.applyStatus st }
  | s, .fail => some { s with answer := none, replica := {} }
  | s, .drain prefs =>
    some { s with app := drainNotifications s.app prefs s.replica.observers.recentJobs }

/-- Every studio job that finished, the oldest first, and those the drains came to, with the
preferences they did so under. -/
structure Finished where
  all : List RecentJob := []
  notified : List (NotificationPrefs × RecentJob) := []

def note (past : Finished) (s : NotifyLink Png) : NotifyEvent Png → Finished
  | .record entry =>
    if JobBook.ofStudio entry then { past with all := past.all ++ [entry] } else past
  | .drain prefs =>
    { past with notified := past.notified ++
      ((newEntries s.app.lastNotified s.replica.observers.recentJobs).reverse.map (prefs, ·)) }
  | _ => past

/-! ## One drain -/

theorem newEntries_eq (lastNotified : Option (Text × ℤ)) (ring : List RecentJob) :
    newEntries lastNotified ring = fresh identity lastNotified ring := by
  induction ring with
  | nil => rfl
  | cons entry ring ih =>
    rw [newEntries, fresh]
    by_cases h : lastNotified = some (entry.jobId, entry.finishedAt)
    · rw [if_pos h, List.takeWhile_cons_of_neg (by simp [identity, h])]
    · rw [if_neg h, List.takeWhile_cons_of_pos (by simp [identity, h]), ih, fresh]

theorem lastNotified_drain (app : App) (prefs : NotificationPrefs) (ring : List RecentJob) :
    (drainNotifications app prefs ring).lastNotified = remark identity app.lastNotified ring := by
  show (match newEntries app.lastNotified ring with
    | newest :: _ => some (newest.jobId, newest.finishedAt)
    | [] => app.lastNotified) = _
  rw [newEntries_eq, remark]
  cases fresh identity app.lastNotified ring <;> rfl

/-! ## Every run -/

/-- The UI's ring and the one on its way are windows on what finished, each further on than the
last, and what was notified is caught up with the UI's. -/
structure Follows (s : NotifyLink Png × Finished) (low c r r' a a' d : ℕ) : Prop where
  caught : Caught identity s.2.all (s.2.notified.map (·.2)) s.1.app.lastNotified low c
  daemon : s.1.daemon.recentJobs.reverse = slice s.2.all d s.2.all.length
  answer : ∀ st ∈ s.1.answer,
    (st.recentJobs.filterMap JobWire.toRecent).reverse = slice s.2.all a a'
  replica : s.1.replica.observers.recentJobs = [] ∨
    s.1.replica.observers.recentJobs.reverse = slice s.2.all r r'
  starts : low ≤ r ∧ r ≤ a ∧ a ≤ d ∧ d ≤ s.2.all.length
  ends : c ≤ r' ∧ r' ≤ a' ∧ a' ≤ s.2.all.length

/-- A ring is pushed to while what finished grows. -/
theorem pushCapped_slice {ring all : List RecentJob} {d : ℕ} (hd : d ≤ all.length)
    (h : ring.reverse = slice all d all.length) (entry : RecentJob) :
    ∃ d', d ≤ d' ∧ d' ≤ (all ++ [entry]).length ∧ (pushCapped ring entry).reverse =
      slice (all ++ [entry]) d' (all ++ [entry]).length := by
  rw [slice_length] at h
  have hlen : ring.length = all.length - d := by
    rw [← List.length_reverse, h, List.length_drop]
  refine ⟨d + ((entry :: ring).length - recentJobsCap), Nat.le_add_right _ _, ?_, ?_⟩
  · rw [List.length_cons, List.length_append, List.length_singleton]
    omega
  · rw [slice_length, ← List.drop_drop, List.drop_append_of_le_length hd, ← h, pushCapped,
      List.reverse_take, List.reverse_cons]

theorem Follows.record {s : NotifyLink Png × Finished} {low c r r' a a' d : ℕ}
    (h : Follows s low c r r' a a' d) {entry : RecentJob} (hstudio : JobBook.ofStudio entry = true) :
    ∃ d', Follows ({ s.1 with daemon := s.1.daemon.record entry },
      { s.2 with all := s.2.all ++ [entry] }) low c r r' a a' d' := by
  obtain ⟨hlow, hra, had, hd⟩ := h.starts
  obtain ⟨hc, hr', ha'⟩ := h.ends
  obtain ⟨d', hdd', hd', hpush⟩ := pushCapped_slice hd h.daemon entry
  have hrecord : (s.1.daemon.record entry).recentJobs = pushCapped s.1.daemon.recentJobs entry := by
    rw [JobBook.ofStudio, beq_iff_eq] at hstudio
    rw [WorkerObservers.record, hstudio]
    rfl
  refine ⟨d', h.caught.append [entry], ?_, fun st hst => ?_, ?_, ⟨hlow, hra, had.trans hdd', hd'⟩,
    ⟨hc, hr', ha'.trans ?_⟩⟩
  · rw [hrecord, hpush]
  · rw [h.answer st hst, slice_append ha']
  · refine h.replica.imp_right fun hreplica => ?_
    rw [hreplica, slice_append (hr'.trans ha')]
  · rw [List.length_append]
    exact Nat.le_add_right _ _

theorem Follows.drain {s : NotifyLink Png × Finished} {low c r r' a a' d : ℕ}
    (h : Follows s low c r r' a a' d) (hnodup : (s.2.all.map identity).Nodup)
    (prefs : NotificationPrefs) :
    ∃ low' c', Follows ({ s.1 with
        app := drainNotifications s.1.app prefs s.1.replica.observers.recentJobs },
      note s.2 s.1 (.drain prefs)) low' c' r r' a a' d ∧
      ∀ e ∈ s.1.replica.observers.recentJobs,
        e ∈ (note s.2 s.1 (.drain prefs)).notified.map (·.2) := by
  have hnotified : (note s.2 s.1 (.drain prefs)).notified.map (·.2) =
      s.2.notified.map (·.2) ++
        (fresh identity s.1.app.lastNotified s.1.replica.observers.recentJobs).reverse := by
    rw [note, List.map_append, newEntries_eq, List.map_map]
    simp
  obtain ⟨hlow, hra, had, hd⟩ := h.starts
  obtain ⟨hc, hr', ha'⟩ := h.ends
  have hempty : ∀ hnil : s.1.replica.observers.recentJobs = [],
      Follows ({ s.1 with
        app := drainNotifications s.1.app prefs s.1.replica.observers.recentJobs },
        note s.2 s.1 (.drain prefs)) low c r r' a a' d := by
    intro hnil
    refine ⟨?_, h.daemon, h.answer, h.replica, h.starts, h.ends⟩
    rw [hnotified, lastNotified_drain, hnil]
    simpa [fresh, remark, note] using h.caught
  rcases h.replica with hnil | hreplica
  · exact ⟨low, c, hempty hnil, fun e he => by simp [hnil] at he⟩
  · have hring : s.1.replica.observers.recentJobs = (slice s.2.all r r').reverse := by
      rw [← hreplica, List.reverse_reverse]
    rcases Nat.lt_or_ge r r' with hlt | hge
    · have hcaught := h.caught.take hnodup hlow hlt hc (hr'.trans ha')
      rw [← hring, ← hnotified, ← lastNotified_drain s.1.app prefs] at hcaught
      refine ⟨r, r', ⟨hcaught, h.daemon, h.answer, h.replica, ⟨le_rfl, hra, had, hd⟩,
        ⟨le_rfl, hr', ha'⟩⟩, fun e he => hcaught.all e ?_⟩
      rwa [hring, List.mem_reverse] at he
    · have hnil : s.1.replica.observers.recentJobs = [] := by
        rw [hring, List.reverse_eq_nil_iff, slice, List.drop_eq_nil_iff, List.length_take]
        omega
      exact ⟨low, c, hempty hnil, fun e he => by simp [hnil] at he⟩

/-- What finished only grows. -/
theorem all_prefix_note (past : Finished) (s : NotifyLink Png) (e : NotifyEvent Png) :
    past.all <+: (note past s e).all := by
  cases e with
  | record entry =>
    rw [note]
    split_ifs
    · exact List.prefix_append _ _
    · exact List.prefix_rfl
  | restart | answer | apply | fail | drain => exact List.prefix_rfl

theorem step_follows (s : NotifyLink Png × Finished) (e : NotifyEvent Png)
    (t : NotifyLink Png × Finished)
    (h : (s.2.all.map identity).Nodup → ∃ low c r r' a a' d, Follows s low c r r' a a' d)
    (hs : noting step note s e = some t) (hnodup : (t.2.all.map identity).Nodup) :
    ∃ low c r r' a a' d, Follows t low c r r' a a' d := by
  obtain ⟨hstep, hnote⟩ := noting_some.mp hs
  obtain ⟨t, past⟩ := t
  obtain rfl : past = _ := hnote
  have hnodup' : (s.2.all.map identity).Nodup :=
    hnodup.sublist ((all_prefix_note s.2 s.1 e).sublist.map _)
  obtain ⟨low, c, r, r', a, a', d, hf⟩ := h hnodup'
  obtain ⟨hlow, hra, had, hd⟩ := hf.starts
  obtain ⟨hc, hr', ha'⟩ := hf.ends
  cases e with
  | record entry =>
    obtain rfl := Option.some.inj hstep
    rw [note]
    split_ifs with hstudio
    · obtain ⟨d', hf'⟩ := hf.record hstudio
      exact ⟨low, c, r, r', a, a', d', hf'⟩
    · refine ⟨low, c, r, r', a, a', d, hf.caught, ?_, hf.answer, hf.replica, hf.starts, hf.ends⟩
      have hsame : (s.1.daemon.record entry).recentJobs = s.1.daemon.recentJobs := by
        rw [WorkerObservers.record]
        cases hsource : entry.source with
        | studio => simp [JobBook.ofStudio, hsource] at hstudio
        | localApi | lane | stream => rfl
      rw [hsame]
      exact hf.daemon
  | restart =>
    obtain rfl := Option.some.inj hstep
    refine ⟨low, c, r, r', a, a', s.2.all.length, hf.caught, ?_, hf.answer, hf.replica,
      ⟨hlow, hra, had.trans hd, le_rfl⟩, hf.ends⟩
    exact (slice_self _ _).symm
  | answer atActive atLocal id =>
    obtain rfl := Option.some.inj hstep
    refine ⟨low, c, r, r', d, s.2.all.length, d, hf.caught, hf.daemon, ?_, hf.replica,
      ⟨hlow, hra.trans had, le_rfl, hd⟩, ⟨hc, hr'.trans ha', le_rfl⟩⟩
    rintro st hst
    obtain rfl := Option.some.inj hst
    rw [status, filterMap_toRecent]
    exact hf.daemon
  | apply =>
    obtain ⟨st, hst, rfl⟩ := Option.map_eq_some_iff.mp hstep
    refine ⟨low, c, a, a', a, a', d, hf.caught, hf.daemon, (fun _ h' => by cases h'),
      .inr (hf.answer st hst), ⟨hlow.trans hra, le_rfl, had, hd⟩, ⟨hc.trans hr', le_rfl, ha'⟩⟩
  | fail =>
    obtain rfl := Option.some.inj hstep
    exact ⟨low, c, r, r', a, a', d, hf.caught, hf.daemon, (fun _ h' => by cases h'), .inl rfl,
      hf.starts, hf.ends⟩
  | drain prefs =>
    obtain rfl := Option.some.inj hstep
    obtain ⟨low', c', hf', -⟩ := hf.drain hnodup' prefs
    exact ⟨low', c', r, r', a, a', d, hf'⟩

theorem run_follows {es : List (NotifyEvent Png)} {s : NotifyLink Png × Finished}
    (h : run (noting step note) ({}, {}) es = some s) (hnodup : (s.2.all.map identity).Nodup) :
    ∃ low c r r' a a' d, Follows s low c r r' a a' d := by
  refine run_invariant (I := fun s => (s.2.all.map identity).Nodup →
    ∃ low c r r' a a' d, Follows s low c r r' a a' d) step_follows (fun _ => ?_) h hnodup
  exact ⟨0, 0, 0, 0, 0, 0, 0, .nil, rfl, (fun _ h' => by cases h'), .inl rfl,
    ⟨le_rfl, le_rfl, le_rfl, le_rfl⟩, ⟨le_rfl, le_rfl, le_rfl⟩⟩

/-- What the notifier was given is what was notified, as the preferences of then had it. -/
theorem captured_eq {es : List (NotifyEvent Png)} {s : NotifyLink Png × Finished}
    (h : run (noting step note) ({}, {}) es = some s) :
    s.1.app.captured = s.2.notified.filterMap fun p => (p.1.decide p.2).shown := by
  refine run_invariant (I := fun s : NotifyLink Png × Finished =>
    s.1.app.captured = s.2.notified.filterMap fun p => (p.1.decide p.2).shown) ?_ rfl h
  intro s e t hs hstep
  obtain ⟨hstep, hnote⟩ := noting_some.mp hstep
  rw [hnote]
  cases e with
  | record entry =>
    obtain hstep := Option.some.inj hstep
    rw [← hstep, note]
    split_ifs <;> exact hs
  | restart | answer | fail =>
    obtain hstep := Option.some.inj hstep
    rw [← hstep]
    exact hs
  | apply =>
    obtain ⟨st, -, hst⟩ := Option.map_eq_some_iff.mp hstep
    rw [← hst]
    exact hs
  | drain prefs =>
    obtain hstep := Option.some.inj hstep
    rw [← hstep, note, List.filterMap_append, ← hs, List.filterMap_map]
    rfl

/-- Over every run of a daemon that may restart, of polls that may fail and of drains at any time:
the notified jobs are among the finished ones in the order they finished, none of them twice; the
notifier is given what the preferences let through; and a drain leaves no job of the UI's ring out,
where no two jobs finished under one id at the same time. -/
theorem notified_once {es : List (NotifyEvent Png)} {s : NotifyLink Png × Finished}
    (h : run (noting step note) ({}, {}) es = some s) (hnodup : (s.2.all.map identity).Nodup) :
    (s.2.notified.map (·.2)).Sublist s.2.all ∧
      s.1.app.captured = s.2.notified.filterMap (fun p => (p.1.decide p.2).shown) ∧
      ∀ prefs t, noting step note s (.drain prefs) = some t →
        ∀ e ∈ s.1.replica.observers.recentJobs, e ∈ t.2.notified.map (·.2) := by
  obtain ⟨low, c, r, r', a, a', d, hf⟩ := run_follows h hnodup
  refine ⟨hf.caught.sublist.trans (List.take_sublist _ _), captured_eq h, fun prefs t ht e he => ?_⟩
  obtain ⟨-, -, -, hall⟩ := hf.drain hnodup prefs
  rw [(noting_some.mp ht).2]
  exact hall e he

/-- A studio job that failed. -/
def failedJob (jobId : Text) : RecentJob := ⟨jobId, .llm, ['m'], [], .failed "boom", 0, 3, .studio⟩

/-- The second job is notified of once, though the daemon cannot be reached in between. -/
theorem notified_across_failure :
    ∃ s, run (noting step note) (({} : NotifyLink ℕ), {})
        [.record (failedJob ['a']), .answer {} {} none, .apply, .drain ⟨true, true⟩, .fail,
          .drain ⟨true, true⟩, .record (failedJob ['b']), .answer {} {} none, .apply,
          .drain ⟨true, false⟩] = some s ∧
      ((s.2.notified.map (·.2)).Sublist s.2.all ∧ s.2.notified.length = 2 ∧
        s.1.app.captured = s.2.notified.filterMap fun p => (p.1.decide p.2).shown) :=
  exists_run (P := fun s => s.2.all = [failedJob ['a'], failedJob ['b']] ∧
      s.2.notified.length = 2) (by decide)
    fun _ hs hP => ⟨(notified_once hs (by rw [hP.1]; decide)).1, hP.2,
      (notified_once hs (by rw [hP.1]; decide)).2.1⟩

end NotifyLink
end StudioWorker.Jobs
