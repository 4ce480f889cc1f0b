import Mathlib.Data.List.TakeDrop
import Mathlib.Logic.Basic

/-!
# Lib.Shuffle — a shuffle by exchanges, as far as it has come

The `i`-th exchange swaps the item at `i` with one at or after it, `draws i` further on.

* `exchange`: two items of a list swapped.
* `shuffled`: the list after some of the exchanges.
* `take_shuffled`: what is in place stays in place.
-/

namespace Lib.Shuffle

variable {α : Type*}

/-- The items at `i` and `j`, where both are there, swapped. -/
def exchange (l : List α) (i j : ℕ) : List α :=
  match l[i]?, l[j]? with
  | some a, some b => (l.set i b).set j a
  | _, _ => l

theorem exchange_of_lt {l : List α} {i j : ℕ} (hi : i < l.length) (hj : j < l.length) :
    exchange l i j = (l.set i l[j]).set j l[i] := by
  rw [exchange, List.getElem?_eq_getElem hi, List.getElem?_eq_getElem hj]

theorem exchange_perm (l : List α) (i j : ℕ) : (exchange l i j).Perm l := by
  by_cases hi : i < l.length
  · by_cases hj : j < l.length
    · rw [exchange_of_lt hi hj]
      exact List.set_set_perm hi hj
    · rw [exchange, List.getElem?_eq_none (Nat.le_of_not_lt hj)]
      split <;> first | rfl | contradiction
  · rw [exchange, List.getElem?_eq_none (Nat.le_of_not_lt hi)]

/-- An exchange leaves everything before both its places. -/
theorem take_exchange (l : List α) {i j n : ℕ} (hi : n ≤ i) (hj : n ≤ j) :
    (exchange l i j).take n = l.take n := by
  rw [exchange]
  split
  · rw [List.take_set_of_le hj, List.take_set_of_le hi]
  · rfl

variable (draws : ℕ → ℕ) (l : List α)

/-- The list after `i` exchanges. -/
def shuffled : ℕ → List α
  | 0 => l
  | i + 1 => exchange (shuffled i) i (i + draws i)

variable {draws l}

theorem shuffled_perm (i : ℕ) : (shuffled draws l i).Perm l := by
  induction i with
  | zero => exact List.Perm.refl l
  | succ i ih => exact (exchange_perm _ _ _).trans ih

theorem length_shuffled (i : ℕ) : (shuffled draws l i).length = l.length :=
  (shuffled_perm i).length_eq

/-- The first items stay as the first exchanges left them. -/
theorem take_shuffled {a b : ℕ} (h : a ≤ b) :
    (shuffled draws l b).take a = (shuffled draws l a).take a := by
  induction h with
  | refl => rfl
  | step hab ih =>
    rw [shuffled, take_exchange _ hab (Nat.le_add_right_of_le hab), ih]

end Lib.Shuffle
