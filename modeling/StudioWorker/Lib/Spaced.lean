import Mathlib.Order.Lattice
import Mathlib.Order.Monotone.Defs

/-!
# Lib.Spaced — taking positions greedily, each at or after what the one before it allows

`pick next start l` takes, from the front of a list in order, every position at or after `start`;
after a position `x` it goes on at `next x`.  Taking the first one possible is never worse later
on: from fewer positions no more are taken.
-/

namespace Lib.Spaced

variable {α : Type*} [LinearOrder α] (next : α → α)

def pick : α → List α → List α
  | _, [] => []
  | start, x :: xs => if start ≤ x then x :: pick (next x) xs else pick start xs

variable {next} {start : α}

theorem pick_cons_of_le {x : α} {xs : List α} (h : start ≤ x) :
    pick next start (x :: xs) = x :: pick next (next x) xs := by
  rw [pick, if_pos h]

theorem pick_cons_of_lt {x : α} {xs : List α} (h : x < start) :
    pick next start (x :: xs) = pick next start xs := by
  rw [pick, if_neg (not_le.mpr h)]

theorem length_pick_cons (start x : α) (xs : List α) :
    (pick next start (x :: xs)).length =
      if start ≤ x then (pick next (next x) xs).length + 1 else (pick next start xs).length := by
  rw [pick]
  split_ifs <;> rfl

/-- What lies before the start is passed over. -/
theorem pick_append_of_lt {l r : List α} (h : ∀ x ∈ l, x < start) :
    pick next start (l ++ r) = pick next start r := by
  induction l with
  | nil => rfl
  | cons x xs ih =>
    have hx : x < start := h x List.mem_cons_self
    have hxs : ∀ y ∈ xs, y < start := fun y hy => h y (List.mem_cons_of_mem x hy)
    rw [List.cons_append, pick_cons_of_lt hx, ih hxs]

/-- Where a list begins after both, it does not matter which start is meant. -/
theorem pick_congr {start' : α} {l : List α} (h : ∀ x ∈ l, start ≤ x) (h' : ∀ x ∈ l, start' ≤ x) :
    pick next start l = pick next start' l := by
  cases l with
  | nil => rfl
  | cons x xs =>
    rw [pick_cons_of_le (h x List.mem_cons_self), pick_cons_of_le (h' x List.mem_cons_self)]

/-- From fewer positions and no earlier a start no more are taken; from an earlier start at most
one more, if that start is within reach of every position that is left. -/
theorem length_pick_le_and (hnext : Monotone next) {xs ys : List α} (hsub : ys.Sublist xs)
    (hsorted : xs.Pairwise (· < ·)) :
    (∀ start start', start ≤ start' →
      (pick next start' ys).length ≤ (pick next start xs).length) ∧
    (∀ start start', (∀ y ∈ ys, start ≤ next y) →
      (pick next start' ys).length ≤ (pick next start xs).length + 1) := by
  induction hsub with
  | slnil => exact ⟨fun _ _ _ => le_rfl, fun _ _ _ => Nat.le_succ _⟩
  | @cons ys xs x hsub ih =>
    obtain ⟨hx, hxs⟩ := List.pairwise_cons.mp hsorted
    obtain ⟨ihle, ihsucc⟩ := ih hxs
    have hafter : ∀ y ∈ ys, next x ≤ next y := fun y hy => hnext (hx y (hsub.subset hy)).le
    constructor
    · intro start start' hstart
      rw [length_pick_cons]
      split_ifs with hle
      · exact ihsucc (next x) start' hafter
      · exact ihle start start' hstart
    · intro start start' hreach
      rw [length_pick_cons]
      split_ifs with hle
      · exact (ihsucc (next x) start' hafter).trans (Nat.le_succ _)
      · exact ihsucc start start' hreach
  | @cons_cons ys xs x hsub ih =>
    obtain ⟨hx, hxs⟩ := List.pairwise_cons.mp hsorted
    obtain ⟨ihle, ihsucc⟩ := ih hxs
    have hafter : ∀ y ∈ ys, next x ≤ next y := fun y hy => hnext (hx y (hsub.subset hy)).le
    have hsame := ihle (next x) (next x) le_rfl
    constructor
    · intro start start' hstart
      rw [length_pick_cons, length_pick_cons]
      split_ifs with hle' hle hle
      · exact Nat.succ_le_succ hsame
      · exact absurd (hstart.trans hle') hle
      · exact ihsucc (next x) start' hafter
      · exact ihle start start' hstart
    · intro start start' hreach
      have hreach' : ∀ y ∈ ys, start ≤ next y := fun y hy =>
        hreach y (List.mem_cons_of_mem x hy)
      rw [length_pick_cons, length_pick_cons]
      split_ifs with hle' hle hle
      · omega
      · -- `x` is taken only among the fewer: from `next x` on both go on as they were
        exact Nat.succ_le_succ (ihle start (next x) (hreach x List.mem_cons_self))
      · exact (ihsucc (next x) start' hafter).trans (Nat.le_succ _)
      · exact ihsucc start start' hreach'

/-- From fewer positions no more are taken. -/
theorem length_pick_le (hnext : Monotone next) {xs ys : List α} (hsub : ys.Sublist xs)
    (hsorted : xs.Pairwise (· < ·)) (start : α) :
    (pick next start ys).length ≤ (pick next start xs).length :=
  (length_pick_le_and hnext hsub hsorted).1 start start le_rfl

end Lib.Spaced
