import Mathlib.Algebra.GroupWithZero.Nat
import Mathlib.Tactic.SplitIfs

/-!
# Lib.Nearest — a natural number to so many bits

`nearest bits n` is `n` where it fits `bits` significant bits, and else the number nearest to it
that does; of two, the one whose last bit is zero.
-/

namespace Lib.Nearest

/-- The last of the `bits` significant bits of `n`. -/
def unit (bits n : ℕ) : ℕ := 2 ^ (Nat.log2 n + 1 - bits)

def nearest (bits n : ℕ) : ℕ :=
  let whole := n / unit bits n
  let rest := n % unit bits n
  if unit bits n < 2 * rest ∨ (unit bits n = 2 * rest ∧ whole % 2 = 1) then
    (whole + 1) * unit bits n
  else whole * unit bits n

variable {bits n : ℕ}

theorem unit_le (hbits : 0 < bits) (hn : n ≠ 0) : unit bits n ≤ n := by
  calc unit bits n ≤ 2 ^ Nat.log2 n := Nat.pow_le_pow_right (by omega) (by omega)
    _ ≤ n := Nat.log2_self_le hn

/-- It rounds up by at most half of the last bit. -/
theorem two_mul_nearest_le : 2 * nearest bits n ≤ 2 * n + unit bits n := by
  have hsplit : unit bits n * (n / unit bits n) + n % unit bits n = n := Nat.div_add_mod n _
  rw [nearest]
  split_ifs with hup
  · have hnext : (n / unit bits n + 1) * unit bits n =
        unit bits n * (n / unit bits n) + unit bits n := by
      rw [Nat.mul_comm, Nat.mul_add_one]
    rcases hup with hup | ⟨hup, -⟩ <;> omega
  · rw [Nat.mul_comm (n / unit bits n)]
    omega

theorem nearest_of_log2 {k : ℕ} (h : Nat.log2 n + 1 - bits = k) :
    nearest bits n =
      if 2 ^ k < 2 * (n % 2 ^ k) ∨ (2 ^ k = 2 * (n % 2 ^ k) ∧ n / 2 ^ k % 2 = 1) then
        (n / 2 ^ k + 1) * 2 ^ k
      else n / 2 ^ k * 2 ^ k := by
  rw [nearest, unit, h]

end Lib.Nearest
