import StudioWorker.Logs.Ship
import Mathlib.Algebra.GroupWithZero.Nat

/-!
# Logs.Replica — the worker log as the UI sees it

The daemon keeps the newest entries of its worker log with the number of the newest
(`WorkerLogRing::push` of `src/job_log.rs`, `recent_logs_after` of `src/runtime.rs`); the UI polls
for what is after its cursor (`Poller::poll`, `Replica::apply_logs`, `Replica::clear` of
`src/daemon_link.rs`).  The arithmetic is that of `u64`, which wraps in a release build.

* `recentLogsAfter_of_le`, `recentLogsAfter_whole`, `recentLogsAfter_wrapped`: the three answers.
* `applyLogs_of_prefix`, `applyLogs_eq_newest_iff`: when a page makes the replica the daemon's ring.
* `LogLink.step`: pushes, daemon restarts, polls that are answered, applied or fail.
* `replica_run`: which runs show the newest entries after every successful poll.
-/

namespace StudioWorker

open Lib Lib.System

/-- Most entries `recent_logs` keeps. -/
def recentLogsCap : ℕ := 1000

section Ring

variable {α : Type}

/-- What is left of a ring once the oldest entries over the cap are popped. -/
def newest (entries : List α) : List α := entries.drop (entries.length - recentLogsCap)

structure WorkerLogRing (α : Type) where
  entries : List α
  seq : ℕ
deriving DecidableEq

def WorkerLogRing.push (ring : WorkerLogRing α) (entry : α) : WorkerLogRing α where
  entries := newest (ring.entries ++ [entry])
  seq := (ring.seq + 1) % 2 ^ 64

/-- The ring of a daemon that has pushed these entries. -/
def WorkerLogRing.of (pushed : List α) : WorkerLogRing α := ⟨newest pushed, pushed.length⟩

@[simp] theorem WorkerLogRing.of_entries (pushed : List α) : (of pushed).entries = newest pushed := by
  rw [of]

structure LogsPage (α : Type) where
  entries : List α
  seq : ℕ
deriving DecidableEq

/-- `a - b` on `u64`. -/
def subU64 (a b : ℕ) : ℕ := (a + 2 ^ 64 - b) % 2 ^ 64

/-- The entries newer than number `after`, and the newest number. -/
def recentLogsAfter (ring : WorkerLogRing α) (after : ℕ) : LogsPage α :=
  let newest := ring.seq
  let oldest := subU64 newest ring.entries.length
  let after := if newest < after then 0 else max after oldest
  let skip := subU64 after oldest
  ⟨ring.entries.drop skip, newest⟩

/-- The log's part of the UI's copy of the daemon. -/
structure Replica (α : Type) where
  recentLogs : List α := []
  recentLogsSeq : ℕ := 0
  logsSeq : ℕ := 0
deriving DecidableEq

def Replica.logsAfter (replica : Replica α) : ℕ := replica.logsSeq

def Replica.applyLogs (replica : Replica α) (page : LogsPage α) : Replica α where
  recentLogs :=
    newest ((if page.seq < replica.logsSeq then [] else replica.recentLogs) ++ page.entries)
  recentLogsSeq := page.seq
  logsSeq := page.seq

def Replica.clear (replica : Replica α) : Replica α := { replica with recentLogs := [], logsSeq := 0 }

/-! ## The newest entries -/

theorem length_newest (l : List α) : (newest l).length = min recentLogsCap l.length := by
  rw [newest, List.length_drop]
  omega

theorem newest_of_length_le {l : List α} (h : l.length ≤ recentLogsCap) : newest l = l := by
  rw [newest, Nat.sub_eq_zero_of_le h, List.drop_zero]

/-- What comes before a full ring's worth of entries is popped. -/
theorem newest_append_of_le (l : List α) {m : List α} (h : recentLogsCap ≤ m.length) :
    newest (l ++ m) = newest m := by
  have hdrop : (l ++ m).length - recentLogsCap = l.length + (m.length - recentLogsCap) := by
    rw [List.length_append]
    omega
  rw [newest, hdrop, List.drop_append, newest]
  have hgone : l.drop (l.length + (m.length - recentLogsCap)) = [] :=
    List.drop_eq_nil_of_le (Nat.le_add_right _ _)
  rw [hgone, List.nil_append, Nat.add_sub_cancel_left]

/-- Popping early loses nothing that popping late would keep. -/
theorem newest_newest_append (l m : List α) : newest (newest l ++ m) = newest (l ++ m) := by
  by_cases hm : recentLogsCap ≤ m.length
  · rw [newest_append_of_le _ hm, newest_append_of_le _ hm]
  · have hlen := length_newest l
    have hfewer : (l.length - recentLogsCap) +
        ((newest l ++ m).length - recentLogsCap) = (l ++ m).length - recentLogsCap := by
      rw [List.length_append, List.length_append, hlen]
      omega
    have hwithin : newest l ++ m = (l ++ m).drop (l.length - recentLogsCap) := by
      rw [List.drop_append_of_le_length (Nat.sub_le _ _), newest]
    calc newest (newest l ++ m)
        = ((l ++ m).drop (l.length - recentLogsCap)).drop
            ((newest l ++ m).length - recentLogsCap) := by rw [newest, hwithin]
      _ = newest (l ++ m) := by rw [List.drop_drop, hfewer, newest]

@[simp] theorem newest_nil : newest ([] : List α) = [] := List.drop_nil

theorem newest_newest (l : List α) : newest (newest l) = newest l := by
  have h := newest_newest_append l []
  rwa [List.append_nil, List.append_nil] at h

/-! ## The daemon's side -/

/-- A push is a push onto everything pushed before. -/
theorem push_of {pushed : List α} (entry : α) (h : pushed.length + 1 < 2 ^ 64) :
    (WorkerLogRing.of pushed).push entry = .of (pushed ++ [entry]) := by
  rw [WorkerLogRing.push, WorkerLogRing.of, WorkerLogRing.of, newest_newest_append,
    Nat.mod_eq_of_lt h, List.length_append, List.length_singleton]

theorem subU64_of_le {a b : ℕ} (h : b ≤ a) (ha : a < 2 ^ 64) : subU64 a b = a - b := by
  have hadd : a + 2 ^ 64 - b = (a - b) + 2 ^ 64 := by omega
  rw [subU64, hadd, Nat.add_mod_right, Nat.mod_eq_of_lt (by omega)]

theorem subU64_zero_left {b : ℕ} (h0 : 0 < b) (hb : b < 2 ^ 64) : subU64 0 b = 2 ^ 64 - b := by
  rw [subU64, Nat.zero_add, Nat.mod_eq_of_lt (by omega)]

/-- The number of the entry before the oldest one held. -/
theorem subU64_oldest {pushed : List α} (h : pushed.length < 2 ^ 64) :
    subU64 pushed.length (newest pushed).length = pushed.length - recentLogsCap := by
  have hlen := length_newest pushed
  rw [subU64_of_le (by omega) h]
  omega

variable {pushed : List α} {after : ℕ}

/-- A cursor the daemon has reached is answered with what it still holds beyond it. -/
theorem recentLogsAfter_of_le (h : pushed.length < 2 ^ 64) (ha : after ≤ pushed.length) :
    recentLogsAfter (.of pushed) after =
      ⟨pushed.drop (max after (pushed.length - recentLogsCap)), pushed.length⟩ := by
  simp only [recentLogsAfter, WorkerLogRing.of, subU64_oldest h, if_neg (Nat.not_lt.mpr ha)]
  rw [subU64_of_le (le_max_right _ _) (by omega), newest, List.drop_drop,
    Nat.add_sub_cancel' (le_max_right _ _)]

/-- A cursor beyond the daemon's is answered with the whole ring while nothing was popped. -/
theorem recentLogsAfter_whole (hcap : pushed.length ≤ recentLogsCap) (ha : pushed.length < after) :
    recentLogsAfter (.of pushed) after = ⟨pushed, pushed.length⟩ := by
  have h : pushed.length < 2 ^ 64 := lt_of_le_of_lt hcap (by decide)
  simp only [recentLogsAfter, WorkerLogRing.of, subU64_oldest h, if_pos ha,
    Nat.sub_eq_zero_of_le hcap]
  rw [subU64_of_le le_rfl (by decide), Nat.sub_zero, List.drop_zero, newest_of_length_le hcap]

/-- Once entries were popped, the offset wraps and the answer is empty. -/
theorem recentLogsAfter_wrapped (h : pushed.length < 2 ^ 64) (hcap : recentLogsCap < pushed.length)
    (ha : pushed.length < after) :
    recentLogsAfter (.of pushed) after = ⟨[], pushed.length⟩ := by
  simp only [recentLogsAfter, WorkerLogRing.of, subU64_oldest h, if_pos ha]
  rw [subU64_zero_left (by omega) (by omega), List.drop_eq_nil_of_le]
  rw [length_newest]
  unfold recentLogsCap at *
  omega

/-! ## A poll -/

variable {shown : List α} {replica : Replica α}

/-- A page of the process the cursor belongs to brings the replica up to date. -/
theorem applyLogs_of_prefix (h : pushed.length < 2 ^ 64) (hshown : shown <+: pushed)
    (hlogs : replica.recentLogs = newest shown) (hseq : replica.logsSeq = shown.length) :
    (replica.applyLogs (recentLogsAfter (.of pushed) replica.logsAfter)).recentLogs =
      newest pushed := by
  obtain ⟨new, rfl⟩ := hshown
  have hle : shown.length ≤ (shown ++ new).length := by
    rw [List.length_append]
    exact Nat.le_add_right _ _
  rw [Replica.logsAfter, hseq, recentLogsAfter_of_le h hle]
  simp only [Replica.applyLogs, hseq, if_neg (Nat.not_lt.mpr hle), hlogs]
  by_cases hgap : (shown ++ new).length - recentLogsCap ≤ shown.length
  · rw [max_eq_left hgap, List.drop_left, newest_newest_append]
  · rw [max_eq_right (Nat.le_of_not_le hgap)]
    rw [← newest, newest_append_of_le _ (by rw [length_newest]; omega), newest_newest]

/-- A restarted daemon's page brings the replica up to date when it is far enough behind the cursor
or ahead of it. -/
theorem applyLogs_of_restarted (h : pushed.length < 2 ^ 64)
    (hseq : replica.logsSeq = shown.length)
    (hfar : recentLogsCap + shown.length ≤ pushed.length ∨
      pushed.length < shown.length ∧ pushed.length ≤ recentLogsCap) :
    (replica.applyLogs (recentLogsAfter (.of pushed) replica.logsAfter)).recentLogs =
      newest pushed := by
  rw [Replica.logsAfter, hseq]
  rcases hfar with hahead | ⟨hbehind, hcap⟩
  · have hle : shown.length ≤ pushed.length := by omega
    have hfull : recentLogsCap ≤ (newest pushed).length := by
      rw [length_newest]
      omega
    rw [recentLogsAfter_of_le h hle, max_eq_right (by omega), ← newest]
    simp only [Replica.applyLogs, hseq, if_neg (Nat.not_lt.mpr hle)]
    rw [newest_append_of_le _ hfull, newest_newest]
  · rw [recentLogsAfter_whole hcap hbehind]
    simp only [Replica.applyLogs, hseq, if_pos hbehind, List.nil_append]

/-- Over a replica of another process's entries, a page makes it the daemon's ring exactly when the
replica is empty or the page is far enough from its cursor. -/
theorem applyLogs_eq_newest_iff (h : pushed.length < 2 ^ 64) (hother : shown.Disjoint pushed)
    (hlogs : replica.recentLogs = newest shown) (hseq : replica.logsSeq = shown.length) :
    (replica.applyLogs (recentLogsAfter (.of pushed) replica.logsAfter)).recentLogs =
        newest pushed ↔
      shown.length = 0 ∨ recentLogsCap + shown.length ≤ pushed.length ∨
        pushed.length < shown.length ∧ pushed.length ≤ recentLogsCap := by
  constructor
  · intro heq
    by_contra hnear
    simp only [not_or, not_and_or, Nat.not_le, Nat.not_lt] at hnear
    obtain ⟨hsome, hahead, hbehind⟩ := hnear
    rw [Replica.logsAfter, hseq] at heq
    by_cases hle : shown.length ≤ pushed.length
    · -- the new entries join what is left of the old ones
      rw [recentLogsAfter_of_le h hle] at heq
      simp only [Replica.applyLogs, hseq, if_neg (Nat.not_lt.mpr hle), hlogs] at heq
      rw [newest_newest_append] at heq
      obtain ⟨old, hold⟩ : ∃ old, old ∈ shown ∧ old ∈ newest (shown ++
          pushed.drop (max shown.length (pushed.length - recentLogsCap))) := by
        have hpage : (pushed.drop (max shown.length (pushed.length - recentLogsCap))).length <
            recentLogsCap := by
          rw [List.length_drop]
          omega
        have hkept : (shown ++ pushed.drop (max shown.length
            (pushed.length - recentLogsCap))).length - recentLogsCap < shown.length := by
          rw [List.length_append]
          omega
        refine ⟨shown.get ⟨_, hkept⟩, List.get_mem _ _, ?_⟩
        rw [newest, List.drop_append_of_le_length (Nat.le_of_lt hkept),
          List.drop_eq_getElem_cons hkept]
        exact List.mem_append_left _ List.mem_cons_self
      rw [heq] at hold
      exact hother hold.1 (List.mem_of_mem_drop hold.2)
    · have hlt : pushed.length < shown.length := Nat.lt_of_not_le hle
      have hcap : recentLogsCap < pushed.length := hbehind.resolve_left hle
      rw [recentLogsAfter_wrapped h hcap hlt] at heq
      simp only [Replica.applyLogs, hseq, if_pos hlt, List.append_nil, newest_nil] at heq
      have hlen := congrArg List.length heq
      rw [length_newest, List.length_nil] at hlen
      unfold recentLogsCap at *
      omega
  · rintro (hempty | hfar)
    · obtain rfl := List.length_eq_zero_iff.mp hempty
      exact applyLogs_of_prefix h List.nil_prefix hlogs hseq
    · exact applyLogs_of_restarted h hseq hfar

end Ring

/-! ## The daemon and its UI -/

/-- The daemon's ring, the page it has answered a poll with, and the UI's copy. -/
structure LogLink (α : Type) where
  ring : WorkerLogRing α
  page : Option (LogsPage α)
  replica : Replica α
deriving DecidableEq

inductive LinkEvent (α : Type) where
  | push (entry : α)
  /-- The daemon ends and another one starts, with nothing in its ring. -/
  | restart
  /-- The daemon answers a poll for its logs. -/
  | answer
  /-- The poll goes on to apply the page. -/
  | apply
  /-- A request of the poll fails, before or after the page was applied. -/
  | fail
deriving DecidableEq

namespace LogLink

variable {α : Type}

def start : LogLink α := ⟨⟨[], 0⟩, none, {}⟩

def step : System (LogLink α) (LinkEvent α)
  | s, .push entry => some { s with ring := s.ring.push entry }
  | s, .restart => some { s with ring := ⟨[], 0⟩ }
  | s, .answer =>
    match s.page with
    | none => some { s with page := some (recentLogsAfter s.ring s.replica.logsAfter) }
    | some _ => none
  | s, .apply => s.page.map fun page => { s with page := none, replica := s.replica.applyLogs page }
  | s, .fail => some { s with page := none, replica := s.replica.clear }

/-- What a poll is about: `process` counts the daemons, `pushed` is all the present one has pushed;
`answered` and `held` are all that the daemon of the last answer had pushed and still held then,
`shown` all that the daemon of the last applied page had pushed at its answer. -/
structure Sight (α : Type) where
  process : ℕ
  pushed : List α
  answeredBy : ℕ
  answered : List α
  held : List α
  shownBy : ℕ
  shown : List α
deriving DecidableEq

def Sight.start : Sight α := ⟨0, [], 0, [], [], 0, []⟩

def watch (h : Sight α) (s : LogLink α) : LinkEvent α → Sight α
  | .push entry => { h with pushed := h.pushed ++ [entry] }
  | .restart => { h with process := h.process + 1, pushed := [] }
  | .answer =>
    { h with answeredBy := h.process, answered := h.pushed, held := s.ring.entries }
  | .apply => { h with shownBy := h.answeredBy, shown := h.answered }
  | .fail => { h with shown := [] }

/-- An applied page comes from the daemon the cursor is of, finds the replica empty, or is far
enough from the cursor; and no daemon's numbers wrap. -/
def KeepsUp (s : LogLink α × Sight α) : LinkEvent α → Prop
  | .push _ => s.2.pushed.length + 1 < 2 ^ 64
  | .apply =>
    s.2.shownBy = s.2.answeredBy ∨ s.2.shown.length = 0 ∨
      recentLogsCap + s.2.shown.length ≤ s.2.answered.length ∨
      s.2.answered.length < s.2.shown.length ∧ s.2.answered.length ≤ recentLogsCap
  | _ => True

instance (s : LogLink α × Sight α) : ∀ e, Decidable (KeepsUp s e)
  | .push _ => inferInstanceAs (Decidable (_ < _))
  | .apply => inferInstanceAs (Decidable (_ ∨ _ ∨ _ ∨ _ ∧ _))
  | .restart | .answer | .fail => isTrue trivial

/-- The ring is that of the pushes, a page that of the answer, the replica that of the last page. -/
structure Follows (s : LogLink α) (h : Sight α) : Prop where
  ring : s.ring = .of h.pushed
  pushed_lt : h.pushed.length < 2 ^ 64
  recentLogs : s.replica.recentLogs = newest h.shown
  logsSeq : s.replica.logsSeq = h.shown.length
  shownBy_le : h.shownBy ≤ h.process
  shown_prefix : h.shownBy = h.process → h.shown <+: h.pushed
  page : ∀ page ∈ s.page, page = recentLogsAfter (.of h.answered) s.replica.logsAfter
  answered_lt : h.answered.length < 2 ^ 64
  held : h.held = newest h.answered
  answeredBy_le : h.answeredBy ≤ h.process
  answered_prefix : h.answeredBy = h.process → h.answered <+: h.pushed
  seam : s.page ≠ none → h.shownBy = h.answeredBy → h.shown <+: h.answered

theorem of_nil : (WorkerLogRing.of [] : WorkerLogRing α) = ⟨[], 0⟩ := by
  rw [WorkerLogRing.of, newest_nil, List.length_nil]

theorem follows_start : Follows (start : LogLink α) .start where
  ring := of_nil.symm
  pushed_lt := Nat.two_pow_pos 64
  recentLogs := newest_nil.symm
  logsSeq := rfl
  shownBy_le := le_rfl
  shown_prefix _ := List.nil_prefix
  page := by simp [start]
  answered_lt := Nat.two_pow_pos 64
  held := newest_nil.symm
  answeredBy_le := le_rfl
  answered_prefix _ := List.nil_prefix
  seam _ _ := List.nil_prefix

variable {s t : LogLink α} {h : Sight α} {e : LinkEvent α}

/-- An applied page makes the replica the newest of what the answering daemon had pushed. -/
theorem Follows.applied (hf : s.Follows h) (hok : KeepsUp (s, h) .apply)
    {page : LogsPage α} (hpage : s.page = some page) :
    (s.replica.applyLogs page).recentLogs = newest h.answered ∧
      (s.replica.applyLogs page).logsSeq = h.answered.length := by
  obtain rfl : page = _ := hf.page page hpage
  have hseam := hf.seam (by rw [hpage]; exact Option.some_ne_none _)
  refine ⟨?_, rfl⟩
  rcases hok with hsame | hempty | hfar
  · exact applyLogs_of_prefix hf.answered_lt (hseam hsame) hf.recentLogs hf.logsSeq
  · have hprefix : h.shown <+: h.answered := by
      rw [List.length_eq_zero_iff.mp hempty]
      exact List.nil_prefix
    exact applyLogs_of_prefix hf.answered_lt hprefix hf.recentLogs hf.logsSeq
  · exact applyLogs_of_restarted hf.answered_lt hf.logsSeq hfar

theorem follows_step (hf : s.Follows h) (hok : KeepsUp (s, h) e) (hs : step s e = some t) :
    t.Follows (watch h s e) := by
  cases e with
  | push entry =>
    obtain rfl := Option.some.inj hs
    have hgrows : h.pushed <+: h.pushed ++ [entry] := List.prefix_append _ _
    exact { hf with
      ring := (congrArg (WorkerLogRing.push · entry) hf.ring).trans (push_of entry hok)
      pushed_lt := (List.length_append ..).trans_lt hok
      shown_prefix := fun hby => (hf.shown_prefix hby).trans hgrows
      answered_prefix := fun hby => (hf.answered_prefix hby).trans hgrows }
  | restart =>
    obtain rfl := Option.some.inj hs
    have hshown := hf.shownBy_le
    have hanswered := hf.answeredBy_le
    exact { hf with
      ring := of_nil.symm
      pushed_lt := Nat.two_pow_pos 64
      shownBy_le := Nat.le_succ_of_le hshown
      shown_prefix := fun hby => absurd hby (Nat.ne_of_lt (Nat.lt_succ_of_le hshown))
      answeredBy_le := Nat.le_succ_of_le hanswered
      answered_prefix := fun hby => absurd hby (Nat.ne_of_lt (Nat.lt_succ_of_le hanswered)) }
  | answer =>
    cases hp : s.page with
    | some page => simp [step, hp] at hs
    | none =>
      simp only [step, hp] at hs
      cases hs
      exact { hf with
        page := by
          rintro page ⟨⟩
          exact congrArg (recentLogsAfter · s.replica.logsAfter) hf.ring
        answered_lt := hf.pushed_lt
        held := (congrArg WorkerLogRing.entries hf.ring).trans (WorkerLogRing.of_entries _)
        answeredBy_le := le_rfl
        answered_prefix := fun _ => List.prefix_rfl
        seam := fun _ hby => hf.shown_prefix hby }
  | apply =>
    cases hp : s.page with
    | none => simp [step, hp] at hs
    | some page =>
      simp only [step, hp, Option.map_some] at hs
      cases hs
      obtain ⟨hlogs, hseq⟩ := hf.applied hok hp
      exact { hf with
        recentLogs := hlogs
        logsSeq := hseq
        shownBy_le := hf.answeredBy_le
        shown_prefix := hf.answered_prefix
        page := by simp
        seam := fun hne => absurd rfl hne }
  | fail =>
    obtain rfl := Option.some.inj hs
    exact { hf with
      recentLogs := newest_nil.symm
      logsSeq := rfl
      shown_prefix := fun _ => List.nil_prefix
      page := by simp
      seam := fun hne => absurd rfl hne }

theorem follows_run {es : List (LinkEvent α)}
    (hr : run (System.noting step watch) (start, .start) es = some (s, h))
    (hok : Along (System.noting step watch) KeepsUp (start, .start) es) : s.Follows h :=
  along_invariant (I := fun x : LogLink α × Sight α => x.1.Follows x.2)
    (fun _ _ _ hf ho hs => by
      obtain ⟨hstep, hwatch⟩ := noting_some.mp hs
      rw [hwatch]
      exact follows_step hf ho hstep)
    es (start, .start) (s, h) follows_start hok hr

/-- After a poll that applied its page the replica's ring is the newest of what the answering daemon
had pushed, each of which it held when it answered. -/
theorem replica_run {es : List (LinkEvent α)}
    (hr : run (System.noting step watch) (start, .start) (es ++ [.apply]) = some (s, h))
    (hok : Along (System.noting step watch) KeepsUp (start, .start) (es ++ [.apply])) :
    s.replica.recentLogs = newest h.answered ∧ h.held = newest h.answered := by
  obtain ⟨m, -, hlast⟩ := run_snoc_some.mp hr
  obtain ⟨-, hwatch⟩ := noting_some.mp hlast
  have hshown : h.shown = h.answered := by
    rw [show h = watch m.2 m.1 .apply from hwatch]
    rfl
  have hf := follows_run hr hok
  exact ⟨hshown ▸ hf.recentLogs, hf.held⟩

/-- A restarted daemon that is still behind the cursor has its whole ring shown. -/
theorem replica_run_restarted :
    ∃ x : LogLink String × Sight String, run (System.noting step watch) (start, .start)
        ([.push "a", .push "b", .answer, .apply, .restart, .push "c", .answer, .push "d"] ++
          [.apply]) = some x ∧
      x.1.replica.recentLogs = newest x.2.answered ∧ x.2.answered = ["c"] :=
  exists_run (P := fun x => x.2.answered = ["c"]) (by decide +kernel)
    fun _ hr hx => ⟨(replica_run hr (by decide +kernel)).1, hx⟩

/-- The restarted daemon has pushed as much as the cursor counts. -/
theorem overtaken_cursor_keeps_stale :
    ¬ ∀ (es : List (LinkEvent String)) (s : LogLink String) (h : Sight String),
      run (System.noting step watch) (start, .start) (es ++ [.apply]) = some (s, h) →
        s.replica.recentLogs = newest h.answered := by
  intro hall
  have hstale := hall [.push "a", .answer, .apply, .restart, .push "b", .answer] _ _ rfl
  exact absurd hstale (by decide)

end LogLink

end StudioWorker
