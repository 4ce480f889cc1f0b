import Mathlib.Algebra.GroupWithZero.Nat
import Mathlib.Data.Nat.Bitwise
import Mathlib.Logic.Function.Iterate
import StudioWorker.Text

/-!
# Convert.Prng — the gate set's deterministic randomness (`python/convert/prng.py`)

* `SplitMix64.next`, `SplitMix64.below`: as in the source.
* `SplitMix64.drawn`, `SplitMix64.offset`: a stream after some draws, and what the next one is.
-/

namespace StudioWorker.Convert

open Text

def mask : ℕ := 2 ^ 64 - 1
def goldenGamma : ℕ := 0x9E3779B97F4A7C15
def fnvOffset : ℕ := 0xCBF29CE484222325
def fnvPrime : ℕ := 0x100000001B3

def fnv1a64 (data : List UInt8) : ℕ :=
  data.foldl (fun value byte => ((value ^^^ byte.toNat) * fnvPrime) &&& mask) fnvOffset

structure SplitMix64 where
  state : ℕ
deriving DecidableEq

namespace SplitMix64

/-- A stream of its own for a seed and a key. -/
def keyed (seed : ℕ) (key : Text) : SplitMix64 := ⟨(seed ^^^ fnv1a64 (bytes key)) &&& mask⟩

def next (s : SplitMix64) : ℕ × SplitMix64 :=
  let state := (s.state + goldenGamma) &&& mask
  let z := state
  let z := ((z ^^^ (z >>> 30)) * 0xBF58476D1CE4E5B9) &&& mask
  let z := ((z ^^^ (z >>> 27)) * 0x94D049BB133111EB) &&& mask
  (z ^^^ (z >>> 31), ⟨state⟩)

/-- A uniform integer in [0, n). -/
def below (s : SplitMix64) (n : ℕ) : Except Text (ℕ × SplitMix64) :=
  if n = 0 then .error "no integer below 0".toList
  else .ok ((s.next.1 * n) >>> 64, s.next.2)

/-- The stream after `i` draws. -/
def drawn (s : SplitMix64) (i : ℕ) : SplitMix64 := (fun s => s.next.2)^[i] s

/-- The draw below `n` that comes after `i` others. -/
def offset (s : SplitMix64) (n i : ℕ) : ℕ := ((s.drawn i).next.1 * n) >>> 64

@[simp] theorem drawn_zero (s : SplitMix64) : s.drawn 0 = s := rfl

theorem drawn_succ (s : SplitMix64) (i : ℕ) : s.drawn (i + 1) = (s.drawn i).next.2 :=
  Function.iterate_succ_apply' _ i s

theorem next_lt (s : SplitMix64) : s.next.1 < 2 ^ 64 := by
  have hmask : mask < 2 ^ 64 := by decide
  have hz : ∀ z, (z &&& mask) ^^^ ((z &&& mask) >>> 31) < 2 ^ 64 := fun z =>
    Nat.xor_lt_two_pow (Nat.and_lt_two_pow z hmask)
      ((Nat.shiftRight_le _ _).trans_lt (Nat.and_lt_two_pow z hmask))
  exact hz _

theorem offset_lt (s : SplitMix64) {n : ℕ} (hn : 0 < n) (i : ℕ) : s.offset n i < n := by
  rw [offset, Nat.shiftRight_eq_div_pow, Nat.div_lt_iff_lt_mul (Nat.two_pow_pos 64), Nat.mul_comm]
  exact (Nat.mul_lt_mul_left hn).mpr (next_lt _)

theorem below_drawn (s : SplitMix64) {n : ℕ} (hn : 0 < n) (i : ℕ) :
    (s.drawn i).below n = .ok (s.offset n i, s.drawn (i + 1)) := by
  rw [below, if_neg (Nat.pos_iff_ne_zero.mp hn), drawn_succ, offset]

end SplitMix64

end StudioWorker.Convert
