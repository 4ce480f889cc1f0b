import Mathlib.Algebra.Order.Field.Basic
import Mathlib.Algebra.Order.Floor.Semiring
import Mathlib.Tactic.Linarith
import Mathlib.Tactic.Ring

/-!
# Lib.Interpolate — straight lines through the values at the natural numbers

* `held`: a list as a function, its last value held behind its end.
* `OnLine h x v`: at `x` the lines between neighbouring values of `h` are at `v`.
* `onLine_floor`: the value reckoned from the floor of `x`.
* `OnLine.between`: it is between its two neighbours.
-/

namespace Lib.Interpolate

variable {F : Type*} [Field F]

def held (l : List F) (k : ℕ) : F := l.getD (min k (l.length - 1)) 0

section OnLine

variable [LinearOrder F]

/-- The mean of the values at `k` and `k + 1`, each weighed by how far `x` is from the other. -/
def OnLine (h : ℕ → F) (x v : F) : Prop :=
  ∀ k : ℕ, (k : F) ≤ x → x ≤ k + 1 → v = (k + 1 - x) * h k + (x - k) * h (k + 1)

variable {h : ℕ → F} {x v : F}

variable [IsStrictOrderedRing F]

theorem onLine_nat (h : ℕ → F) (k : ℕ) : OnLine h (k : F) (h k) := by
  intro j hj hj'
  have hle : j ≤ k := Nat.cast_le.mp hj
  have hle' : k ≤ j + 1 := by
    have hcast : (k : F) ≤ ((j + 1 : ℕ) : F) := by
      rw [Nat.cast_succ]
      exact hj'
    exact Nat.cast_le.mp hcast
  obtain rfl | rfl : k = j ∨ k = j + 1 := by omega
  · ring
  · rw [Nat.cast_succ]
    ring

/-- The line over the floor of `x`, also where `x` is the end of the line before. -/
theorem onLine_floor [FloorSemiring F] (h : ℕ → F) (hx : 0 ≤ x) :
    OnLine h x (h ⌊x⌋₊ + (h (⌊x⌋₊ + 1) - h ⌊x⌋₊) * (x - ⌊x⌋₊)) := by
  by_cases hnat : x = (⌊x⌋₊ : F)
  · have hat := onLine_nat h ⌊x⌋₊
    rw [← hnat] at hat
    have hzero : x - (⌊x⌋₊ : F) = 0 := sub_eq_zero.mpr hnat
    rw [hzero, mul_zero, add_zero]
    exact hat
  · intro k hk hk'
    have hfloor : ⌊x⌋₊ = k := by
      refine (Nat.floor_eq_iff hx).mpr ⟨hk, lt_of_le_of_ne hk' fun heq => hnat ?_⟩
      have hsucc : x = ((k + 1 : ℕ) : F) := by rw [Nat.cast_succ, heq]
      rw [hsucc, Nat.floor_natCast]
    rw [hfloor]
    ring

theorem OnLine.between (hv : OnLine h x v) {k : ℕ} (hk : (k : F) ≤ x) (hk' : x ≤ k + 1) :
    min (h k) (h (k + 1)) ≤ v ∧ v ≤ max (h k) (h (k + 1)) := by
  have hleft : 0 ≤ (k : F) + 1 - x := by linarith
  have hright : 0 ≤ x - (k : F) := by linarith
  rw [hv k hk hk']
  constructor
  · calc min (h k) (h (k + 1))
        = (k + 1 - x) * min (h k) (h (k + 1)) + (x - k) * min (h k) (h (k + 1)) := by ring
      _ ≤ (k + 1 - x) * h k + (x - k) * h (k + 1) :=
        add_le_add (mul_le_mul_of_nonneg_left (min_le_left _ _) hleft)
          (mul_le_mul_of_nonneg_left (min_le_right _ _) hright)
  · calc (k + 1 - x) * h k + (x - k) * h (k + 1)
        ≤ (k + 1 - x) * max (h k) (h (k + 1)) + (x - k) * max (h k) (h (k + 1)) :=
        add_le_add (mul_le_mul_of_nonneg_left (le_max_left _ _) hleft)
          (mul_le_mul_of_nonneg_left (le_max_right _ _) hright)
      _ = max (h k) (h (k + 1)) := by ring

end OnLine

end Lib.Interpolate
