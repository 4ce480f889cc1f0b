import Mathlib.Data.List.Basic
import Mathlib.Algebra.Order.Group.Nat

/-!
# Lib.Reader — streams read in pieces

A reader gives what is to come in pieces of its own choosing: no more than asked for, none of it
lost, and something as long as there is something.  `rest` is all that is to come.

* `Reader.steady`: a stream in pieces of one size.
* `Reader.prefixed`: a reader behind what was read of it already.
* `Reader.readExact`, `Reader.skip`: taking and dropping as many items as asked for.
-/

namespace Lib

structure Reader (α σ : Type) where
  read : ℕ → σ → List α × σ
  rest : σ → List α
  rest_eq : ∀ n s, rest s = (read n s).1 ++ rest (read n s).2
  length_le : ∀ n s, (read n s).1.length ≤ n
  /-- An empty piece is the end, or was asked for. -/
  progress : ∀ {n s}, 0 < n → (read n s).1 = [] → rest s = []

namespace Reader

variable {α σ : Type}

/-- A stream in pieces of `size` items, the last of them shorter. -/
def steady (size : ℕ) (hsize : 0 < size) : Reader α (List α) where
  read n s := (s.take (min n size), s.drop (min n size))
  rest s := s
  rest_eq n s := (List.take_append_drop _ _).symm
  length_le n s := (List.length_take_le _ _).trans (Nat.min_le_left _ _)
  progress {n s} hn h := by
    rcases List.take_eq_nil_iff.mp h with hzero | hnil
    · omega
    · exact hnil

variable (r : Reader α σ)

/-- First what was read already, then what is to come. -/
def prefixed : Reader α (List α × σ) where
  read n s :=
    if s.1.take n ≠ [] then (s.1.take n, (s.1.drop n, s.2))
    else ((r.read n s.2).1, (s.1, (r.read n s.2).2))
  rest s := s.1 ++ r.rest s.2
  rest_eq n s := by
    split_ifs with h
    · rw [← List.append_assoc, List.take_append_drop]
    · rcases List.take_eq_nil_iff.mp (not_not.mp h) with rfl | hnil
      · have hempty : (r.read 0 s.2).1 = [] :=
          List.eq_nil_of_length_eq_zero (Nat.le_zero.mp (r.length_le 0 s.2))
        have hrest := r.rest_eq 0 s.2
        rw [hempty, List.nil_append] at hrest
        rw [hempty, List.nil_append, ← hrest]
      · rw [hnil, List.nil_append, List.nil_append]
        exact r.rest_eq n s.2
  length_le n s := by
    split_ifs with h
    · exact List.length_take_le _ _
    · exact r.length_le n s.2
  progress {n s} hn h := by
    split_ifs at h with hne
    · exact absurd h hne
    · rcases List.take_eq_nil_iff.mp (not_not.mp hne) with hzero | hnil
      · omega
      · rw [hnil, List.nil_append]
        exact r.progress hn h

/-- The next `n` items, if there are as many. -/
def readExact (n : ℕ) (s : σ) : Option (List α) × σ :=
  if n = 0 then (some [], s)
  else if (r.read n s).1 = [] then (none, (r.read n s).2)
  else
    let (items, s') := readExact (n - (r.read n s).1.length) (r.read n s).2
    (items.map ((r.read n s).1 ++ ·), s')
termination_by n
decreasing_by
  have hpos := List.length_pos_iff.mpr ‹_›
  omega

/-- It gives exactly the next `n`, and leaves what is behind them. -/
theorem readExact_of_le {n : ℕ} {s : σ} (h : n ≤ (r.rest s).length) :
    (r.readExact n s).1 = some ((r.rest s).take n) ∧
      r.rest (r.readExact n s).2 = (r.rest s).drop n := by
  induction n using Nat.strong_induction_on generalizing s with
  | _ n ih =>
    rw [readExact]
    by_cases hn : n = 0
    · rw [if_pos hn, hn]
      exact ⟨rfl, rfl⟩
    · have hne : (r.read n s).1 ≠ [] := fun hnil => by
        have hend := r.progress (Nat.pos_of_ne_zero hn) hnil
        rw [hend, List.length_nil] at h
        exact hn (Nat.le_zero.mp h)
      have hpos := List.length_pos_iff.mpr hne
      have hle := r.length_le n s
      rw [if_neg hn, if_neg hne]
      rw [r.rest_eq n s, List.length_append] at h
      have hlater : n - (r.read n s).1.length ≤ (r.rest (r.read n s).2).length := by omega
      obtain ⟨hitems, hleft⟩ := ih _ (by omega) hlater
      rw [r.rest_eq n s]
      constructor
      · show ((r.readExact _ _).1).map _ = _
        rw [hitems, Option.map_some, List.take_append, List.take_of_length_le hle]
      · show r.rest (r.readExact _ _).2 = _
        rw [hleft, List.drop_append, List.drop_of_length_le hle, List.nil_append]

/-- It fails when there are fewer. -/
theorem readExact_of_lt {n : ℕ} {s : σ} (h : (r.rest s).length < n) :
    (r.readExact n s).1 = none := by
  induction n using Nat.strong_induction_on generalizing s with
  | _ n ih =>
    rw [readExact, if_neg (by omega)]
    by_cases hne : (r.read n s).1 = []
    · rw [if_pos hne]
    · rw [if_neg hne]
      have hpos := List.length_pos_iff.mpr hne
      have hlater : (r.rest (r.read n s).2).length < n - (r.read n s).1.length := by
        have hlength := congrArg List.length (r.rest_eq n s)
        rw [List.length_append] at hlength
        omega
      show ((r.readExact _ _).1).map _ = _
      rw [ih _ (by omega) hlater, Option.map_none]

/-- Drop up to `n` items, at most `size` in a piece. -/
def skip (size n : ℕ) (s : σ) : σ :=
  if n = 0 then s
  else if (r.read (min size n) s).1 = [] then (r.read (min size n) s).2
  else skip size (n - (r.read (min size n) s).1.length) (r.read (min size n) s).2
termination_by n
decreasing_by
  have hpos := List.length_pos_iff.mpr ‹_›
  omega

end Reader

end Lib
