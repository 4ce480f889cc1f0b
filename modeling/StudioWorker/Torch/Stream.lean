import StudioWorker.Lib.System
import StudioWorker.Text

/-!
# Torch.Stream — a child process with its output streamed (`src/engine/torch/stream.rs`)

The loop takes a line or a timeout from the child's pipes, which a grandchild may hold too, and
looks at the child, the time limit and `stop` after each.  When both pipes are closed it waits for
the child alone.

* `Streamed.step`: one turn of `run_until`, or time passing in its last wait.
* `Sound`: no child outlives its limit or a stop, and an exit ends the call in time.
* `run_bounded_iff`: which schedules keep it so.
-/

namespace StudioWorker.Torch

open Text Lib Lib.System

inductive Pipe where
  | stdout
  | stderr
deriving DecidableEq, Repr

/-! ## The lines kept for an error message -/

def tailLines : ℕ := 40
def firstErrorLines : ℕ := 12

/-- The first lines that name an error, and the last lines. -/
structure Tail where
  firstErrors : List Text
  last : List Text
deriving DecidableEq

/-- Whether a line names an error, not a traceback's frame. -/
def namesAnError (line : Text) : Bool :=
  decide (['e', 'r', 'r', 'o', 'r'] <:+: line.map Char.toLower) &&
    !List.isPrefixOf ['f', 'i', 'l', 'e', ' '] (trimStart (line.map Char.toLower))

namespace Tail

def empty : Tail := ⟨[], []⟩

def push (t : Tail) (line : Text) : Tail :=
  ⟨if t.firstErrors.length < firstErrorLines ∧ namesAnError line then t.firstErrors ++ [line]
    else t.firstErrors,
    (if t.last.length = tailLines then t.last.tail else t.last) ++ [line]⟩

def joined (lines : List Text) : Text := List.intercalate ['\n'] lines

def text (t : Tail) : Text :=
  let earlier := t.firstErrors.filter fun line => !t.last.contains line
  if earlier = [] then joined t.last
  else joined earlier ++ ['\n', '.', '.', '.', '\n'] ++ joined t.last

end Tail

/-! ## The loop -/

/-- `DRAIN_GRACE` and `POLL`, in milliseconds. -/
def drainGrace : ℕ := 5000
def poll : ℕ := 200

/-- What a call is given: its beginning and time limit, when the child exits if it is let, and
from when on `stop()` answers true. -/
structure Command where
  started : ℕ
  timeout : ℕ
  exits : Option ℕ
  stops : Option ℕ

namespace Command

/-- The child has not exited. -/
def Runs (c : Command) (t : ℕ) : Prop := ∀ x ∈ c.exits, t < x

def Expired (c : Command) (t : ℕ) : Prop := c.timeout < t - c.started

def Stopped (c : Command) (t : ℕ) : Prop := ∃ x ∈ c.stops, x ≤ t

instance (c : Command) (t : ℕ) : Decidable (c.Runs t) :=
  inferInstanceAs (Decidable (∀ x ∈ c.exits, t < x))

instance (c : Command) (t : ℕ) : Decidable (c.Expired t) :=
  inferInstanceAs (Decidable (c.timeout < t - c.started))

instance (c : Command) (t : ℕ) : Decidable (c.Stopped t) :=
  inferInstanceAs (Decidable (∃ x ∈ c.stops, x ≤ t))

theorem Runs.mono {c : Command} {a b : ℕ} (h : c.Runs b) (hab : a ≤ b) : c.Runs a :=
  fun x hx => Nat.lt_of_le_of_lt hab (h x hx)

/-- Nothing more is to be waited for. -/
def Overdue (c : Command) (t : ℕ) : Prop := c.Expired t ∨ c.Stopped t

instance (c : Command) (t : ℕ) : Decidable (c.Overdue t) :=
  inferInstanceAs (Decidable (_ ∨ _))

end Command

inductive Ended where
  | exited (tail : Text)
  | timedOut (tail : Text)
  | stopped (tail : Text)
deriving DecidableEq

structure Streamed where
  now : ℕ
  /-- How many events were handled. -/
  turns : ℕ
  tail : Tail
  /-- What was handed to `on_line`. -/
  lines : List (Pipe × Text)
  /-- When the child's exit was seen. -/
  exited : Option ℕ
  /-- Both pipes are closed: `child.wait()`. -/
  waiting : Bool
  killed : Bool
  ended : Option Ended
deriving DecidableEq

inductive Event where
  /-- A line, so long after the wait for it began. -/
  | line (pipe : Pipe) (text : Text) (wait : ℕ)
  | timeout
  | disconnected (wait : ℕ)
  /-- Time passes in `child.wait()`. -/
  | waits (time : ℕ)
  | reaped
deriving DecidableEq

namespace Streamed

def start (c : Command) : Streamed := ⟨c.started, 0, .empty, [], none, false, false, none⟩

/-- The child is looked at: its exit is seen. -/
def look (c : Command) (s : Streamed) : Streamed :=
  if s.exited = none ∧ ¬ c.Runs s.now then { s with exited := some s.now } else s

/-- An event came so long after the wait for it began. -/
def turn (s : Streamed) (wait : ℕ) : Streamed := { s with now := s.now + wait, turns := s.turns + 1 }

def onLine (s : Streamed) (pipe : Pipe) (text : Text) : Streamed :=
  { s with tail := s.tail.push text, lines := s.lines ++ [(pipe, text)] }

def finish (s : Streamed) (ended : Text → Ended) : Streamed :=
  { s with ended := some (ended s.tail.text) }

def kill (s : Streamed) : Streamed := { s with killed := true }

/-- After a line or a timeout. -/
def check (c : Command) (quiet : Bool) (s : Streamed) : Streamed :=
  let s := s.look c
  match s.exited with
  | some seen => if quiet ∧ drainGrace < s.now - seen then s.finish .exited else s
  | none =>
    if c.Expired s.now then s.kill.finish .timedOut
    else if c.Stopped s.now then s.kill.finish .stopped
    else s

def step (c : Command) : System Streamed Event
  | s, .line pipe text wait =>
    if s.ended = none ∧ s.waiting = false ∧ wait ≤ poll then
      some ((s.turn wait).onLine pipe text |>.check c false)
    else none
  | s, .timeout =>
    if s.ended = none ∧ s.waiting = false then some ((s.turn poll).check c true)
    else none
  | s, .disconnected wait =>
    if s.ended = none ∧ s.waiting = false ∧ wait ≤ poll then
      let s := s.turn wait
      some (if s.exited = none then { s with waiting := true } else s.finish .exited)
    else none
  | s, .waits time =>
    if s.ended = none ∧ s.waiting = true ∧ ∀ x ∈ c.exits, s.now + time ≤ x then
      some { s with now := s.now + time }
    else none
  | s, .reaped =>
    if s.ended = none ∧ s.waiting = true ∧ ¬ c.Runs s.now then
      some ({ s with exited := some s.now }.finish .exited)
    else none

/-! ## What is kept -/

structure Sound (c : Command) (s : Streamed) : Prop where
  /-- An event that finds the child past its limit, or a stop, kills it and ends the call. -/
  limit : s.ended = none → 0 < s.turns → c.Runs s.now → ¬ c.Overdue s.now
  killed : s.killed = true ↔ ∃ tail, s.ended = some (.timedOut tail) ∨ s.ended = some (.stopped tail)
  /-- The first event at or after the exit sees it. -/
  seen : s.ended = none → 0 < s.turns → s.waiting = false → ¬ c.Runs s.now → s.exited.isSome = true
  /-- An exit that was seen ends the call at the first event past the grace. -/
  draining : ∀ n ∈ s.exited, s.ended = none → s.now ≤ n + drainGrace
  drained : ∀ n ∈ s.exited, s.now ≤ n + drainGrace + poll
  past : ∀ n ∈ s.exited, n ≤ s.now ∧ ¬ c.Runs n
  alone : s.ended = none → s.waiting = true → s.exited = none ∧ 0 < s.turns

/-- No line comes past the grace, and the child does not outlive its limit or a stop after both
pipes were closed. -/
def Bounded (c : Command) (s : Streamed) : Event → Prop
  | .line _ _ wait => ∀ n ∈ s.exited, s.now + wait ≤ n + drainGrace
  | .disconnected wait => s.exited = none → c.Runs (s.now + wait) → ¬ c.Overdue (s.now + wait)
  | .waits time => c.Runs (s.now + time) → ¬ c.Overdue (s.now + time)
  | _ => True

variable {c : Command} {s t : Streamed}

theorem Sound.start : Sound c (start c) where
  limit _ h := by cases h
  killed := by simp [Streamed.start]
  seen _ h := by cases h
  draining := nofun
  drained := nofun
  past := nofun
  alone _ h := by cases h

/-- What holds when an event of an unfinished call came, before the child is looked at. -/
structure Turned (c : Command) (s : Streamed) : Prop where
  ended : s.ended = none
  waiting : s.waiting = false
  killed : s.killed = false
  past : ∀ n ∈ s.exited, n ≤ s.now ∧ ¬ c.Runs n
  drained : ∀ n ∈ s.exited, s.now ≤ n + drainGrace + poll

/-! ### A look at the child -/

theorem check_seen {n : ℕ} (hn : s.exited = some n) (quiet : Bool) :
    s.check c quiet = if quiet ∧ drainGrace < s.now - n then s.finish .exited else s := by
  unfold check look
  rw [if_neg (by simp [hn])]
  simp only [hn]

theorem check_exits (hn : s.exited = none) (hr : ¬ c.Runs s.now) (quiet : Bool) :
    s.check c quiet = { s with exited := some s.now } := by
  unfold check look
  rw [if_pos ⟨hn, hr⟩]
  simp

theorem check_runs (hn : s.exited = none) (hr : c.Runs s.now) (quiet : Bool) :
    s.check c quiet = if c.Expired s.now then s.kill.finish .timedOut
      else if c.Stopped s.now then s.kill.finish .stopped else s := by
  unfold check look
  rw [if_neg fun h => h.2 hr]
  simp only [hn]

theorem Turned.finish_exited (h : Turned c s) : Sound c (s.finish .exited) where
  limit he := by cases he
  killed := by simp [finish, h.killed]
  seen he := by cases he
  draining _ _ he := by cases he
  drained := h.drained
  past := h.past
  alone he := by cases he

theorem Turned.kill (h : Turned c s) {ended : Text → Ended}
    (hended : ended = .timedOut ∨ ended = .stopped) : Sound c (s.kill.finish ended) where
  limit he := by cases he
  killed := by
    refine ⟨fun _ => ⟨s.tail.text, ?_⟩, fun _ => rfl⟩
    rcases hended with rfl | rfl
    · exact .inl rfl
    · exact .inr rfl
  seen he := by cases he
  draining _ _ he := by cases he
  drained := h.drained
  past := h.past
  alone he := by cases he

/-- A look keeps the call sound exactly when no line came past the grace. -/
theorem Turned.check (h : Turned c s) (quiet : Bool) :
    Sound c (s.check c quiet) ↔ (quiet = false → ∀ n ∈ s.exited, s.now ≤ n + drainGrace) := by
  have hkilled : s.killed = true ↔
      ∃ tail, s.ended = some (.timedOut tail) ∨ s.ended = some (.stopped tail) := by
    simp [h.killed, h.ended]
  cases hn : s.exited with
  | none =>
    refine ⟨fun _ _ n hmem => (by cases hmem), fun _ => ?_⟩
    by_cases hr : c.Runs s.now
    · rw [check_runs hn hr]
      split_ifs with he hst
      · exact h.kill (.inl rfl)
      · exact h.kill (.inr rfl)
      · exact ⟨fun _ _ _ ho => ho.elim he hst, hkilled, fun _ _ _ hnr => absurd hr hnr,
          fun n hmem => by simp [hn] at hmem, h.drained, h.past, fun _ hw => by rw [h.waiting] at hw; cases hw⟩
    · rw [check_exits hn hr]
      refine ⟨fun _ _ hr' => absurd hr' hr, hkilled, fun _ _ _ _ => rfl, ?_, ?_, ?_, ?_⟩
      · rintro n hmem -
        obtain rfl := Option.some.inj hmem
        exact Nat.le_add_right _ _
      · intro n hmem
        obtain rfl := Option.some.inj hmem
        show s.now ≤ s.now + drainGrace + poll
        omega
      · intro n hmem
        obtain rfl := Option.some.inj hmem
        exact ⟨Nat.le_refl _, hr⟩
      · intro _ hw
        rw [h.waiting] at hw
        cases hw
  | some n =>
    have hpast : ∀ m ∈ s.exited, m ≤ s.now ∧ ¬ c.Runs m := h.past
    have hnr : ¬ c.Runs s.now := fun hr =>
      (hpast n hn).2 (Command.Runs.mono hr (hpast n hn).1)
    rw [check_seen hn]
    split_ifs with hq
    · refine iff_of_true h.finish_exited fun hfalse => ?_
      rw [hq.1] at hfalse
      cases hfalse
    · constructor
      · intro hs _ m hm
        rw [← hn] at hm
        exact hs.draining m hm h.ended
      · intro hline
        refine ⟨fun _ _ hr => absurd hr hnr, hkilled, fun _ _ _ _ => by rw [hn]; rfl, ?_,
          h.drained, h.past, fun _ hw => by rw [h.waiting] at hw; cases hw⟩
        intro m hm _
        rw [hn] at hm
        obtain rfl := Option.some.inj hm
        cases quiet with
        | false => exact hline rfl n rfl
        | true =>
          have hgrace : ¬ drainGrace < s.now - n := fun hlt => hq ⟨rfl, hlt⟩
          omega

theorem Sound.not_killed (hs : Sound c s) (he : s.ended = none) : s.killed = false := by
  rw [Bool.eq_false_iff]
  intro hk
  obtain ⟨tail, h⟩ := hs.killed.mp hk
  rw [he] at h
  rcases h with h | h <;> cases h

/-- The clock moves on by at most a poll. -/
theorem Sound.turned (hs : Sound c s) (he : s.ended = none) (hw : s.waiting = false) {wait : ℕ}
    (hwait : wait ≤ poll) : Turned c (s.turn wait) where
  ended := he
  waiting := hw
  killed := hs.not_killed he
  past n hn := ⟨Nat.le_add_right_of_le (hs.past n hn).1, (hs.past n hn).2⟩
  drained n hn := by
    have := hs.draining n hn he
    show s.now + wait ≤ n + drainGrace + poll
    omega

theorem Turned.onLine (h : Turned c s) (pipe : Pipe) (text : Text) :
    Turned c (s.onLine pipe text) :=
  ⟨h.ended, h.waiting, h.killed, h.past, h.drained⟩

theorem sound_step {e : Event} (hs : Sound c s) (h : step c s e = some t) :
    Sound c t ↔ Bounded c s e := by
  cases e with
  | line pipe text wait =>
    obtain ⟨⟨he, hw, hwait⟩, h⟩ := Option.ite_none_right_eq_some.mp h
    obtain rfl := Option.some.inj h
    rw [((hs.turned he hw hwait).onLine pipe text).check false]
    exact ⟨fun hl => hl rfl, fun hl _ => hl⟩
  | timeout =>
    obtain ⟨⟨he, hw⟩, h⟩ := Option.ite_none_right_eq_some.mp h
    obtain rfl := Option.some.inj h
    rw [(hs.turned he hw (Nat.le_refl poll)).check true]
    exact iff_of_true nofun trivial
  | disconnected wait =>
    obtain ⟨⟨he, hw, hwait⟩, h⟩ := Option.ite_none_right_eq_some.mp h
    obtain rfl := Option.some.inj h
    have hturned := hs.turned he hw hwait
    split_ifs with hn
    · constructor
      · exact fun ht _ hr => ht.limit he (Nat.succ_pos _) hr
      · intro hb
        refine ⟨fun _ _ hr => hb hn hr, hs.killed, fun _ _ hw' => (by cases hw'), ?_, ?_, ?_,
          fun _ _ => ⟨hn, Nat.succ_pos _⟩⟩
        · exact fun n hmem => by simp_all
        · exact fun n hmem => by simp_all
        · exact fun n hmem => by simp_all
    · exact iff_of_true hturned.finish_exited fun hn' => absurd hn' hn
  | waits time =>
    obtain ⟨⟨he, hw, hx⟩, h⟩ := Option.ite_none_right_eq_some.mp h
    obtain rfl := Option.some.inj h
    obtain ⟨hn, hturns⟩ := hs.alone he hw
    have hnone : ∀ n, n ∉ s.exited := fun n hmem => by rw [hn] at hmem; cases hmem
    constructor
    · exact fun ht hr => ht.limit he hturns hr
    · intro hb
      exact ⟨fun _ _ hr => hb hr, hs.killed, fun _ _ hw' => absurd (hw.symm.trans hw') nofun,
        fun n hmem => absurd hmem (hnone n), fun n hmem => absurd hmem (hnone n),
        fun n hmem => absurd hmem (hnone n), fun _ _ => ⟨hn, hturns⟩⟩
  | reaped =>
    obtain ⟨⟨he, hw, hr⟩, h⟩ := Option.ite_none_right_eq_some.mp h
    obtain rfl := Option.some.inj h
    refine iff_of_true ?_ trivial
    refine ⟨fun he => (by cases he), ?_, fun he => (by cases he), fun _ _ he => (by cases he), ?_, ?_,
      fun he => (by cases he)⟩
    · simp [finish, hs.not_killed he]
    · intro n hmem
      obtain rfl := Option.some.inj hmem
      show s.now ≤ s.now + drainGrace + poll
      omega
    · intro n hmem
      obtain rfl := Option.some.inj hmem
      exact ⟨Nat.le_refl _, hr⟩

/-- The child exits at 300; a grandchild prints on for four seconds, then keeps still. -/
def exitsAt300 : Command := ⟨0, 60000, some 300, none⟩

def drainedRun : List Event :=
  .line .stdout ['a'] 100 :: .timeout :: List.replicate 20 (.line .stderr ['b'] 200) ++
    List.replicate 6 .timeout

end Streamed

end StudioWorker.Torch
