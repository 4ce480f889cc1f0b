import Mathlib.Logic.Function.Basic
import StudioWorker.Lib.System
import StudioWorker.Lib.Window

/-!
# Logs.Trim — a log file trimmed under its writers (`src/log_trim.rs`)

A trim shifts the numbered copies up, copies the live file to number 1 and truncates it, while
others append to it.  A system call of it may fail, and its process may be killed at any point.

* `TrimDir.step`: an append, or one system call of a trim.
* `TrimHistory`: what was written, and where the truncates have cut it.
* `Accounted`: where everything that was written is; `step_accounted` keeps it.
* `trim_keeps`: what is still there, over every run.
-/

namespace StudioWorker.LogTrim

open Lib Lib.System Lib.Window

variable {α : Type}

/-- Where a trim is.  `shifting n` has the copies `n` to 1 to rename, `copying` knows the size the
live file had when it was opened. -/
inductive TrimPhase where
  | idle
  | shifting (n : ℕ)
  | copying (size copied : ℕ)
  | copied (copied : ℕ)
deriving DecidableEq

/-- The live file, the copies by their number, and the trim that is under way. -/
structure TrimDir (α : Type) where
  live : Option (List α) := none
  copies : ℕ → Option (List α) := fun _ => none
  phase : TrimPhase := .idle

inductive TrimEvent (α : Type) where
  /-- A writer appends, and creates the file where it is missing. -/
  | append (bytes : List α)
  /-- A trim reads the size of the live file. -/
  | check
  | shift
  | openCopy
  | copyChunk (length : ℕ)
  /-- The copy ends, past what was there when it began. -/
  | copyDone
  | truncate
  /-- A system call of the trim fails, or its process is killed. -/
  | stopped

namespace TrimDir

/-- A missing file is not an error. -/
def rename (copies : ℕ → Option (List α)) (n m : ℕ) : ℕ → Option (List α) :=
  match copies n with
  | some copy => Function.update (Function.update copies m (some copy)) n none
  | none => copies

/-- The live file is larger than it may be. -/
def due (maxBytes keep : ℕ) (s : TrimDir α) : Bool :=
  match s.live with
  | some live => decide (maxBytes < live.length ∧ keep ≠ 0)
  | none => false

def step (maxBytes keep : ℕ) : System (TrimDir α) (TrimEvent α)
  | s, .append bytes => some { s with live := some (s.live.getD [] ++ bytes) }
  | s, .check =>
    if s.phase = .idle then
      if s.due maxBytes keep then some { s with phase := .shifting (keep - 1) } else some s
    else none
  | s, .shift =>
    match s.phase with
    | .shifting (n + 1) =>
      some { s with copies := rename s.copies (n + 1) (n + 2), phase := .shifting n }
    | _ => none
  | s, .openCopy =>
    match s.phase, s.live with
    | .shifting 0, some live =>
      some { s with
        copies := Function.update s.copies 1 (some [])
        phase := .copying live.length 0 }
    | _, _ => none
  | s, .copyChunk length =>
    match s.phase, s.live with
    | .copying size copied, some live =>
      if copied + length ≤ live.length then
        some { s with
          copies := Function.update s.copies 1
            (some ((s.copies 1).getD [] ++ slice live copied (copied + length)))
          phase := .copying size (copied + length) }
      else none
    | _, _ => none
  | s, .copyDone =>
    match s.phase with
    | .copying size copied => if size ≤ copied then some { s with phase := .copied copied } else none
    | _ => none
  | s, .truncate =>
    match s.phase with
    | .copied _ => some { s with live := some [], phase := .idle }
    | _ => none
  | s, .stopped => if s.phase = .idle then none else some { s with phase := .idle }

end TrimDir

/-- A truncate: from where to where the live file was copied, up to where it was cut, and the
number of the trim that did so. -/
structure Cut where
  start : ℕ
  stop : ℕ
  finish : ℕ
  attempt : ℕ
deriving DecidableEq

/-- Everything that was written; the live file begins at `begins`. -/
structure TrimHistory (α : Type) where
  written : List α := []
  begins : ℕ := 0
  attempts : ℕ := 0
  cuts : List Cut := []

namespace TrimDir

def note (maxBytes keep : ℕ) (past : TrimHistory α) (s : TrimDir α) : TrimEvent α → TrimHistory α
  | .append bytes => { past with written := past.written ++ bytes }
  | .check => if s.due maxBytes keep then { past with attempts := past.attempts + 1 } else past
  | .truncate =>
    match s.phase with
    | .copied copied =>
      { past with
        begins := past.written.length
        cuts := past.cuts ++
          [⟨past.begins, past.begins + copied, past.written.length, past.attempts⟩] }
    | _ => past
  | .shift | .openCopy | .copyChunk _ | .copyDone | .stopped => past

/-! ## Where a copy is -/

/-- A copy of a trim so many trims ago can have this number. -/
def Place (age n : ℕ) : TrimPhase → Prop
  | .idle => 1 ≤ n ∧ n ≤ age + 1
  | .shifting m => 1 ≤ n ∧ (n ≤ m ∧ n ≤ age ∨ m + 2 ≤ n ∧ n ≤ age + 1)
  | .copying _ _ | .copied _ => 2 ≤ n ∧ n ≤ age + 1

theorem Place.idle {age n : ℕ} {phase : TrimPhase} (h : Place age n phase) : Place age n .idle := by
  cases phase <;> simp only [Place] at h ⊢ <;> omega

/-- One cut begins where the one before it ended. -/
def Consecutive : ℕ → List Cut → ℕ → Prop
  | p, [], q => p = q
  | p, cut :: cuts, q => cut.start = p ∧ cut.start ≤ cut.stop ∧ cut.stop ≤ cut.finish ∧
      Consecutive cut.finish cuts q

theorem Consecutive.concat {p q : ℕ} {cuts : List Cut} (h : Consecutive p cuts q) {cut : Cut}
    (hstart : cut.start = q) (hstop : cut.start ≤ cut.stop) (hfinish : cut.stop ≤ cut.finish) :
    Consecutive p (cuts ++ [cut]) cut.finish := by
  induction cuts generalizing p with
  | nil => exact ⟨hstart.trans h.symm, hstop, hfinish, rfl⟩
  | cons c cuts ih => exact ⟨h.1, h.2.1, h.2.2.1, ih h.2.2.2⟩

/-- The copy that is being made holds what the live file begins with. -/
def Copying (live : List α) (copy : Option (List α)) : TrimPhase → Prop
  | .copying _ n | .copied n => n ≤ live.length ∧ copy = some (live.take n)
  | .idle | .shifting _ => True

/-- The live file is what was written since the last cut, every copy is a part of what was written,
and a cut's is among them until `keep` trims have begun since. -/
structure Accounted (keep : ℕ) (s : TrimDir α × TrimHistory α) : Prop where
  live : s.1.live.getD [] = s.2.written.drop s.2.begins
  begins : s.2.begins ≤ s.2.written.length
  numbers : ∀ n copy, s.1.copies n = some copy → 1 ≤ n ∧ n ≤ keep ∧ copy <:+: s.2.written
  chain : Consecutive 0 s.2.cuts s.2.begins
  ends : ∀ cut ∈ s.2.cuts, cut.stop ≤ s.2.written.length ∧ cut.attempt ≤ s.2.attempts
  kept : ∀ cut ∈ s.2.cuts, s.2.attempts < cut.attempt + keep → ∃ n,
    Place (s.2.attempts - cut.attempt) n s.1.phase ∧
      s.1.copies n = some (slice s.2.written cut.start cut.stop)
  copying : Copying (s.1.live.getD []) (s.1.copies 1) s.1.phase
  shifting : ∀ n, s.1.phase = .shifting n → n < keep
  busy : s.1.phase ≠ .idle → 0 < keep ∧ s.1.live.isSome = true

/-! ## Each step -/

variable {maxBytes keep : ℕ} {s : TrimDir α × TrimHistory α}

theorem Accounted.append (h : Accounted keep s) (bytes : List α) :
    Accounted keep ({ s.1 with live := some (s.1.live.getD [] ++ bytes) },
      { s.2 with written := s.2.written ++ bytes }) := by
  have hprefix : s.2.written <+: s.2.written ++ bytes := List.prefix_append _ _
  refine ⟨?_, h.begins.trans hprefix.length_le, fun n copy hn => ?_, h.chain, fun cut hcut => ?_,
    fun cut hcut hage => ?_, ?_, h.shifting, fun hbusy => ⟨(h.busy hbusy).1, rfl⟩⟩
  · rw [Option.getD_some, h.live, List.drop_append_of_le_length h.begins]
  · obtain ⟨hpos, hle, hpart⟩ := h.numbers n copy hn
    exact ⟨hpos, hle, hpart.trans hprefix.isInfix⟩
  · exact ⟨(h.ends cut hcut).1.trans hprefix.length_le, (h.ends cut hcut).2⟩
  · obtain ⟨n, hplace, hcopy⟩ := h.kept cut hcut hage
    refine ⟨n, hplace, ?_⟩
    rw [slice_append (h.ends cut hcut).1]
    exact hcopy
  · have hcopying := h.copying
    show Copying (s.1.live.getD [] ++ bytes) (s.1.copies 1) s.1.phase
    cases hphase : s.1.phase with
    | idle | shifting => trivial
    | copying | copied =>
      rw [hphase] at hcopying
      refine ⟨hcopying.1.trans (List.prefix_append _ _).length_le, ?_⟩
      rw [List.take_append_of_le_length hcopying.1]
      exact hcopying.2

theorem Accounted.check (h : Accounted keep s) (hidle : s.1.phase = .idle)
    (hdue : s.1.due maxBytes keep = true) :
    Accounted keep ({ s.1 with phase := .shifting (keep - 1) },
      { s.2 with attempts := s.2.attempts + 1 }) := by
  obtain ⟨live, hlive⟩ : ∃ live, s.1.live = some live := by
    cases hlive : s.1.live with
    | none => simp [due, hlive] at hdue
    | some live => exact ⟨live, rfl⟩
  have hkeep : 0 < keep := by
    simp only [due, hlive, decide_eq_true_eq] at hdue
    omega
  refine ⟨h.live, h.begins, h.numbers, h.chain, fun cut hcut => ?_, fun cut hcut hage => ?_,
    trivial, fun n hn => ?_, fun _ => ⟨hkeep, ?_⟩⟩
  · exact ⟨(h.ends cut hcut).1, Nat.le_succ_of_le (h.ends cut hcut).2⟩
  · have hattempt := (h.ends cut hcut).2
    simp only at hage
    obtain ⟨n, hplace, hcopy⟩ := h.kept cut hcut (by omega)
    rw [hidle] at hplace
    refine ⟨n, ⟨hplace.1, .inl ?_⟩, hcopy⟩
    have hn := hplace.2
    simp only
    omega
  · cases hn
    omega
  · show s.1.live.isSome = true
    rw [hlive]
    rfl

/-- A copy moves to the next number, over what was there. -/
theorem rename_cases (copies : ℕ → Option (List α)) (n k : ℕ) :
    (k = n ∧ rename copies n (n + 1) k = none) ∨
      (k = n + 1 ∧ rename copies n (n + 1) k = (copies n).or (copies (n + 1))) ∨
      (k ≠ n ∧ k ≠ n + 1 ∧ rename copies n (n + 1) k = copies k) := by
  rw [rename]
  rcases eq_or_ne k n with rfl | hk
  · refine .inl ⟨rfl, ?_⟩
    cases h : copies k with
    | none => exact h
    | some copy => exact Function.update_self ..
  · rcases eq_or_ne k (n + 1) with rfl | hk'
    · refine .inr (.inl ⟨rfl, ?_⟩)
      cases h : copies n with
      | none => rfl
      | some copy => simp
    · refine .inr (.inr ⟨hk, hk', ?_⟩)
      cases h : copies n with
      | none => rfl
      | some copy => simp [Function.update_of_ne hk, Function.update_of_ne hk']

theorem Accounted.shift (h : Accounted keep s) {n : ℕ} (hphase : s.1.phase = .shifting (n + 1)) :
    Accounted keep ({ s.1 with
      copies := rename s.1.copies (n + 1) (n + 2), phase := .shifting n }, s.2) := by
  have hn : n + 1 < keep := h.shifting (n + 1) hphase
  refine ⟨h.live, h.begins, fun k copy hk => ?_, h.chain, h.ends, fun cut hcut hage => ?_, trivial,
    fun m hm => ?_, fun _ => h.busy (by simp [hphase])⟩
  · simp only at hk
    obtain ⟨-, hnone⟩ | ⟨rfl, hmoved⟩ | ⟨-, -, hsame⟩ := rename_cases s.1.copies (n + 1) k
    · rw [hnone] at hk
      cases hk
    · rw [hmoved, Option.or_eq_some_iff] at hk
      rcases hk with hk | ⟨-, hk⟩
      · exact ⟨by omega, by omega, (h.numbers (n + 1) copy hk).2.2⟩
      · exact h.numbers _ copy hk
    · exact h.numbers k copy (hsame ▸ hk)
  · obtain ⟨k, hplace, hcopy⟩ := h.kept cut hcut hage
    rw [hphase] at hplace
    obtain ⟨hpos, hplace⟩ := hplace
    obtain ⟨rfl, -⟩ | ⟨rfl, -⟩ | ⟨hne, hne', hsame⟩ := rename_cases s.1.copies (n + 1) k
    · have hplace' : Place (s.2.attempts - cut.attempt) (n + 2) (.shifting n) :=
        ⟨by omega, .inr ⟨le_rfl, by omega⟩⟩
      refine ⟨n + 2, hplace', ?_⟩
      show rename s.1.copies (n + 1) (n + 2) (n + 2) = _
      obtain ⟨heq, -⟩ | ⟨-, hmoved⟩ | ⟨-, hne', -⟩ := rename_cases s.1.copies (n + 1) (n + 2)
      · omega
      · rw [hmoved, hcopy, Option.some_or]
      · exact absurd rfl hne'
    · omega
    · have hplace' : Place (s.2.attempts - cut.attempt) k (.shifting n) := ⟨hpos, by omega⟩
      exact ⟨k, hplace', hsame.trans hcopy⟩
  · obtain rfl : n = m := by
      cases hm
      rfl
    omega

/-- The first copy is written over while none is kept there. -/
theorem Accounted.first (h : Accounted keep s) {phase : TrimPhase} {copy : List α}
    (hplaces : ∀ age k, age < keep → Place age k s.1.phase → Place age k phase ∧ k ≠ 1)
    (hbusy : s.1.phase ≠ .idle) (hpart : copy <:+: s.2.written)
    (hcopying : Copying (s.1.live.getD []) (some copy) phase)
    (hshifting : ∀ n, phase ≠ .shifting n) :
    Accounted keep ({ s.1 with
      copies := Function.update s.1.copies 1 (some copy), phase := phase }, s.2) := by
  refine ⟨h.live, h.begins, fun k c hk => ?_, h.chain, h.ends, fun cut hcut hage => ?_, ?_,
    fun n hn => absurd hn (hshifting n), fun _ => h.busy hbusy⟩
  · simp only at hk
    rcases eq_or_ne k 1 with rfl | hne
    · rw [Function.update_self] at hk
      obtain rfl := Option.some.inj hk
      exact ⟨le_rfl, (h.busy hbusy).1, hpart⟩
    · rw [Function.update_of_ne hne] at hk
      exact h.numbers k c hk
  · obtain ⟨k, hplace, hcopy⟩ := h.kept cut hcut hage
    have hrecent : s.2.attempts - cut.attempt < keep :=
      Nat.sub_lt_left_of_lt_add (h.ends cut hcut).2 hage
    obtain ⟨hplace, hne⟩ := hplaces _ k hrecent hplace
    exact ⟨k, hplace, (Function.update_of_ne hne _ _).trans hcopy⟩
  · show Copying (s.1.live.getD []) (Function.update s.1.copies 1 (some copy) 1) phase
    rw [Function.update_self]
    exact hcopying

theorem Accounted.openCopy (h : Accounted keep s) (hphase : s.1.phase = .shifting 0) (size : ℕ) :
    Accounted keep ({ s.1 with
      copies := Function.update s.1.copies 1 (some []), phase := .copying size 0 }, s.2) := by
  refine h.first (fun age k hage hplace => ?_) (by simp [hphase]) (List.nil_infix) ?_ (by simp)
  · rw [hphase] at hplace
    simp only [Place] at hplace ⊢
    omega
  · exact ⟨Nat.zero_le _, by rw [List.take_zero]⟩

theorem take_infix_written (h : Accounted keep s) (n : ℕ) :
    (s.1.live.getD []).take n <:+: s.2.written := by
  rw [h.live]
  exact (List.take_prefix _ _).isInfix.trans (List.drop_suffix _ _).isInfix

theorem Accounted.copyChunk (h : Accounted keep s) {size copied length : ℕ} {live : List α}
    (hphase : s.1.phase = .copying size copied) (hlive : s.1.live = some live)
    (hle : copied + length ≤ live.length) :
    Accounted keep ({ s.1 with
      copies := Function.update s.1.copies 1
        (some ((s.1.copies 1).getD [] ++ slice live copied (copied + length)))
      phase := .copying size (copied + length) }, s.2) := by
  have hcopying := h.copying
  rw [hphase, hlive] at hcopying
  have htake : (s.1.copies 1).getD [] ++ slice live copied (copied + length) =
      (s.1.live.getD []).take (copied + length) := by
    rw [hcopying.2, hlive, Option.getD_some, Option.getD_some, ← slice_zero, ← slice_zero,
      ← slice_split (Nat.zero_le _) (Nat.le_add_right _ _)]
  rw [htake]
  refine h.first (fun age k hage hplace => ?_) (by simp [hphase]) (take_infix_written h _) ?_
    (by simp)
  · rw [hphase] at hplace
    simp only [Place] at hplace ⊢
    omega
  · refine ⟨?_, rfl⟩
    rw [hlive]
    exact hle

theorem Accounted.copyDone (h : Accounted keep s) {size copied : ℕ}
    (hphase : s.1.phase = .copying size copied) :
    Accounted keep ({ s.1 with phase := .copied copied }, s.2) := by
  have hcopying := h.copying
  rw [hphase] at hcopying
  refine ⟨h.live, h.begins, h.numbers, h.chain, h.ends, fun cut hcut hage => ?_, hcopying,
    fun n hn => (by cases hn), fun _ => h.busy (by simp [hphase])⟩
  obtain ⟨k, hplace, hcopy⟩ := h.kept cut hcut hage
  rw [hphase] at hplace
  exact ⟨k, hplace, hcopy⟩

theorem Accounted.truncate (h : Accounted keep s) {copied : ℕ}
    (hphase : s.1.phase = .copied copied) :
    Accounted keep ({ s.1 with live := some [], phase := .idle },
      { s.2 with
        begins := s.2.written.length
        cuts := s.2.cuts ++
          [⟨s.2.begins, s.2.begins + copied, s.2.written.length, s.2.attempts⟩] }) := by
  have hcopying := h.copying
  rw [hphase, h.live] at hcopying
  obtain ⟨hle, hcopy⟩ := hcopying
  rw [List.length_drop] at hle
  have hbegins := h.begins
  refine ⟨?_, le_rfl, h.numbers, ?_, fun cut hcut => ?_, fun cut hcut hage => ?_, trivial,
    fun n hn => (by cases hn), fun hidle => absurd rfl hidle⟩
  · rw [Option.getD_some, List.drop_length]
  · exact h.chain.concat rfl (Nat.le_add_right _ _) (by simp only; omega)
  · rcases List.mem_append.mp hcut with hcut | hcut
    · exact h.ends cut hcut
    · obtain rfl := List.mem_singleton.mp hcut
      exact ⟨by simp only; omega, le_rfl⟩
  · rcases List.mem_append.mp hcut with hcut | hcut
    · obtain ⟨k, hplace, hk⟩ := h.kept cut hcut hage
      exact ⟨k, hplace.idle, hk⟩
    · obtain rfl := List.mem_singleton.mp hcut
      refine ⟨1, ⟨le_rfl, Nat.le_add_left _ _⟩, ?_⟩
      show s.1.copies 1 = some (slice s.2.written s.2.begins (s.2.begins + copied))
      rw [hcopy, slice, List.drop_take, Nat.add_sub_cancel_left]

theorem Accounted.stopped (h : Accounted keep s) :
    Accounted keep ({ s.1 with phase := .idle }, s.2) := by
  refine ⟨h.live, h.begins, h.numbers, h.chain, h.ends, fun cut hcut hage => ?_, trivial,
    fun n hn => (by cases hn), fun hidle => absurd rfl hidle⟩
  obtain ⟨k, hplace, hk⟩ := h.kept cut hcut hage
  exact ⟨k, hplace.idle, hk⟩

/-! ## Every run -/

/-- What a step can do. -/
theorem step_cases {s t : TrimDir α} {e : TrimEvent α} (h : step maxBytes keep s e = some t) :
    (∃ bytes, e = .append bytes ∧ t = { s with live := some (s.live.getD [] ++ bytes) }) ∨
    (e = .check ∧ s.phase = .idle ∧ (s.due maxBytes keep = true ∧
      t = { s with phase := .shifting (keep - 1) } ∨ s.due maxBytes keep = false ∧ t = s)) ∨
    (∃ n, e = .shift ∧ s.phase = .shifting (n + 1) ∧
      t = { s with copies := rename s.copies (n + 1) (n + 2), phase := .shifting n }) ∨
    (∃ live, e = .openCopy ∧ s.phase = .shifting 0 ∧ s.live = some live ∧ t = { s with
      copies := Function.update s.copies 1 (some []), phase := .copying live.length 0 }) ∨
    (∃ length size copied live, e = .copyChunk length ∧ s.phase = .copying size copied ∧
      s.live = some live ∧ copied + length ≤ live.length ∧ t = { s with
        copies := Function.update s.copies 1
          (some ((s.copies 1).getD [] ++ slice live copied (copied + length)))
        phase := .copying size (copied + length) }) ∨
    (∃ size copied, e = .copyDone ∧ s.phase = .copying size copied ∧ size ≤ copied ∧
      t = { s with phase := .copied copied }) ∨
    (∃ copied, e = .truncate ∧ s.phase = .copied copied ∧
      t = { s with live := some [], phase := .idle }) ∨
    (e = .stopped ∧ t = { s with phase := .idle }) := by
  cases e with
  | append bytes =>
    obtain rfl := Option.some.inj h
    exact .inl ⟨bytes, rfl, rfl⟩
  | check =>
    refine .inr (.inl ?_)
    rw [step] at h
    split_ifs at h with hidle hdue
    · exact ⟨rfl, hidle, .inl ⟨hdue, (Option.some.inj h).symm⟩⟩
    · exact ⟨rfl, hidle, .inr ⟨Bool.not_eq_true _ ▸ hdue, (Option.some.inj h).symm⟩⟩
  | shift =>
    refine .inr (.inr (.inl ?_))
    rw [step] at h
    split at h
    · next n hphase => exact ⟨n, rfl, hphase, (Option.some.inj h).symm⟩
    · cases h
  | openCopy =>
    refine .inr (.inr (.inr (.inl ?_)))
    rw [step] at h
    split at h
    · next live hphase hlive => exact ⟨live, rfl, hphase, hlive, (Option.some.inj h).symm⟩
    · cases h
  | copyChunk length =>
    refine .inr (.inr (.inr (.inr (.inl ?_))))
    rw [step] at h
    split at h
    · next size copied live hphase hlive =>
      split_ifs at h with hle
      exact ⟨length, size, copied, live, rfl, hphase, hlive, hle, (Option.some.inj h).symm⟩
    · cases h
  | copyDone =>
    refine .inr (.inr (.inr (.inr (.inr (.inl ?_)))))
    rw [step] at h
    split at h
    · next size copied hphase =>
      split_ifs at h with hle
      exact ⟨size, copied, rfl, hphase, hle, (Option.some.inj h).symm⟩
    · cases h
  | truncate =>
    refine .inr (.inr (.inr (.inr (.inr (.inr (.inl ?_))))))
    rw [step] at h
    split at h
    · next copied hphase => exact ⟨copied, rfl, hphase, (Option.some.inj h).symm⟩
    · cases h
  | stopped =>
    refine .inr (.inr (.inr (.inr (.inr (.inr (.inr ⟨rfl, ?_⟩))))))
    rw [step] at h
    split_ifs at h
    exact (Option.some.inj h).symm

theorem step_accounted (s : TrimDir α × TrimHistory α) (e : TrimEvent α)
    (t : TrimDir α × TrimHistory α) (h : Accounted keep s)
    (hs : noting (step maxBytes keep) (note maxBytes keep) s e = some t) : Accounted keep t := by
  obtain ⟨hstep, hnote⟩ := noting_some.mp hs
  obtain ⟨t, past⟩ := t
  obtain rfl : past = _ := hnote
  obtain ⟨bytes, rfl, rfl⟩ | ⟨rfl, hidle, hcheck⟩ | ⟨n, rfl, hphase, rfl⟩ |
    ⟨live, rfl, hphase, -, rfl⟩ | ⟨length, size, copied, live, rfl, hphase, hlive, hle, rfl⟩ |
    ⟨size, copied, rfl, hphase, -, rfl⟩ | ⟨copied, rfl, hphase, rfl⟩ | ⟨rfl, rfl⟩ :=
    step_cases hstep
  · exact h.append bytes
  · rcases hcheck with ⟨hdue, rfl⟩ | ⟨hdue, rfl⟩
    · simp only [note, hdue, if_true]
      exact h.check hidle hdue
    · simp only [note, hdue]
      exact h
  · exact h.shift hphase
  · exact h.openCopy hphase live.length
  · exact h.copyChunk hphase hlive hle
  · exact h.copyDone hphase
  · simp only [note, hphase]
    exact h.truncate hphase
  · exact h.stopped

theorem accounted_new : Accounted keep (({} : TrimDir α), ({} : TrimHistory α)) where
  live := rfl
  begins := le_rfl
  numbers := fun _ _ h => by cases h
  chain := rfl
  ends := fun _ h => by cases h
  kept := fun _ h => by cases h
  copying := trivial
  shifting := fun _ h => by cases h
  busy := fun h => absurd rfl h

/-- Nothing is appended while a trim copies the file, or is about to truncate it. -/
def QuietCopy (s : TrimDir α) : TrimEvent α → Prop
  | .append _ =>
    match s.phase with
    | .copying _ _ | .copied _ => False
    | .idle | .shifting _ => True
  | _ => True

/-- The file is as long as when its copy began, and every cut was at the end of its copy. -/
structure Quiet (s : TrimDir α × TrimHistory α) : Prop where
  copying : ∀ size copied, s.1.phase = .copying size copied → (s.1.live.getD []).length = size
  copied : ∀ copied, s.1.phase = .copied copied → (s.1.live.getD []).length = copied
  cuts : ∀ cut ∈ s.2.cuts, cut.stop = cut.finish

/-- Outside a copy the cuts are all there is to it. -/
theorem Quiet.of_cuts {s : TrimDir α × TrimHistory α}
    (hphase : s.1.phase = .idle ∨ ∃ n, s.1.phase = .shifting n)
    (hcuts : ∀ cut ∈ s.2.cuts, cut.stop = cut.finish) : Quiet s := by
  refine ⟨fun size copied h => ?_, fun copied h => ?_, hcuts⟩
  · rcases hphase with hphase | ⟨n, hphase⟩ <;> simp [hphase] at h
  · rcases hphase with hphase | ⟨n, hphase⟩ <;> simp [hphase] at h

theorem step_quiet (s : TrimDir α × TrimHistory α) (e : TrimEvent α)
    (t : TrimDir α × TrimHistory α) (hq : Accounted keep s ∧ Quiet s) (hok : QuietCopy s.1 e)
    (hs : noting (step maxBytes keep) (note maxBytes keep) s e = some t) :
    Accounted keep t ∧ Quiet t := by
  refine ⟨step_accounted s e t hq.1 hs, ?_⟩
  obtain ⟨h, hq⟩ := hq
  obtain ⟨hstep, hnote⟩ := noting_some.mp hs
  obtain ⟨t, past⟩ := t
  obtain rfl : past = _ := hnote
  obtain ⟨bytes, rfl, rfl⟩ | ⟨rfl, hidle, hcheck⟩ | ⟨n, rfl, hphase, rfl⟩ |
    ⟨live, rfl, hphase, hlive, rfl⟩ | ⟨length, size, copied, live, rfl, hphase, hlive, hle, rfl⟩ |
    ⟨size, copied, rfl, hphase, hsize, rfl⟩ | ⟨copied, rfl, hphase, rfl⟩ | ⟨rfl, rfl⟩ :=
    step_cases hstep
  · refine ⟨fun size copied hphase => ?_, fun copied hphase => ?_, hq.cuts⟩
    · simp only at hphase
      simp [QuietCopy, hphase] at hok
    · simp only at hphase
      simp [QuietCopy, hphase] at hok
  · rcases hcheck with ⟨hdue, rfl⟩ | ⟨hdue, rfl⟩
    · simp only [note, hdue, if_true]
      exact .of_cuts (.inr ⟨_, rfl⟩) hq.cuts
    · simp only [note, hdue]
      exact hq
  · exact .of_cuts (.inr ⟨n, rfl⟩) hq.cuts
  · refine ⟨fun size copied h => ?_, fun _ h => (by cases h), hq.cuts⟩
    obtain ⟨rfl, -⟩ := TrimPhase.copying.inj h
    simp [hlive]
  · refine ⟨fun size' copied' h => ?_, fun _ h => (by cases h), hq.cuts⟩
    obtain ⟨rfl, -⟩ := TrimPhase.copying.inj h
    exact hq.copying _ _ hphase
  · refine ⟨fun _ _ h => (by cases h), fun copied' hc => ?_, hq.cuts⟩
    obtain rfl := TrimPhase.copied.inj hc
    have hlen := hq.copying size copied hphase
    have hcopying := h.copying
    rw [hphase] at hcopying
    have hle := hcopying.1
    show (s.1.live.getD []).length = copied
    omega
  · simp only [note, hphase]
    refine .of_cuts (.inl rfl) fun cut hcut => ?_
    rcases List.mem_append.mp hcut with hcut | hcut
    · exact hq.cuts cut hcut
    · obtain rfl := List.mem_singleton.mp hcut
      have hlen := hq.copied copied hphase
      rw [h.live, List.length_drop] at hlen
      have hbegins := h.begins
      simp only
      omega
  · exact .of_cuts (.inl rfl) hq.cuts

/-- Over every run of appends and trims, which may fail or be killed at any system call: the live
file is what was written since the last cut; the cuts have cut up what was written before, each past
its copy; there are never more than `keep` copies, each a part of what was written; and what a trim
copied before it cut the file is in one copy until `keep` trims have begun since.  Where nobody
appends to a file that is being copied, no byte is cut off that was not. -/
theorem trim_keeps {es : List (TrimEvent α)} {s : TrimDir α × TrimHistory α}
    (h : run (noting (step maxBytes keep) (note maxBytes keep)) ({}, {}) es = some s) :
    s.1.live.getD [] = s.2.written.drop s.2.begins ∧
      Consecutive 0 s.2.cuts s.2.begins ∧
      (∀ n copy, s.1.copies n = some copy → 1 ≤ n ∧ n ≤ keep ∧ copy <:+: s.2.written) ∧
      (∀ cut ∈ s.2.cuts, s.2.attempts < cut.attempt + keep →
        ∃ n, s.1.copies n = some (slice s.2.written cut.start cut.stop)) ∧
      (Along (step maxBytes keep) QuietCopy {} es → ∀ cut ∈ s.2.cuts, cut.stop = cut.finish) := by
  have hacc : Accounted keep s := run_invariant step_accounted accounted_new h
  refine ⟨hacc.live, hacc.chain, hacc.numbers, fun cut hcut hage => ?_, fun hquiet => ?_⟩
  · obtain ⟨n, -, hcopy⟩ := hacc.kept cut hcut hage
    exact ⟨n, hcopy⟩
  · have hnew : Accounted keep (({} : TrimDir α), ({} : TrimHistory α)) ∧
        Quiet (({} : TrimDir α), ({} : TrimHistory α)) :=
      ⟨accounted_new, .of_cuts (.inl rfl) fun _ h => (by cases h)⟩
    exact (along_invariant step_quiet es _ s hnew hquiet.noting h).2.cuts

/-- A trim whose copy is there, while what was appended behind it was cut off. -/
theorem trim_keeps_first :
    ∃ s, run (noting (step 1 2) (note 1 2)) (({} : TrimDir ℕ), {})
        [.append [1, 2], .check, .shift, .openCopy, .copyChunk 2, .copyDone, .append [3],
          .truncate] = some s ∧
      s.1.live = some [] ∧ ∃ n, s.1.copies n = some (slice s.2.written 0 2) :=
  exists_run (P := fun s => s.1.live = some [] ∧ s.2.attempts = 1 ∧ s.2.cuts = [⟨0, 2, 3, 1⟩])
    (by decide) fun s hs hP => by
      obtain ⟨-, -, -, hkept, -⟩ := trim_keeps hs
      have hcut : (⟨0, 2, 3, 1⟩ : Cut) ∈ s.2.cuts := by simp [hP.2.2]
      exact ⟨hP.1, hkept _ hcut (by rw [hP.2.1]; decide)⟩

end TrimDir
end StudioWorker.LogTrim
