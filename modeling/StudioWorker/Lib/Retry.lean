import Mathlib.Data.Nat.Notation

/-!
# Lib.Retry — a function that calls itself until it returns

`step s a` is what a call with `s` calls itself with when the environment behaves like `a`, `none`
when it returns.  `env k` is what the environment does to the `k`-th call, whatever it was called
with, and `cost` is what one call costs.
-/

namespace Lib.Retry

variable {σ α : Type*} (step : σ → α → Option σ) (cost : σ → α → ℕ) (env : ℕ → α)

/-- What the call with `s`, which is the `k`-th, costs with all that it leads to; `none` when that
takes more than `fuel` calls. -/
def total : ℕ → ℕ → σ → Option ℕ
  | 0, _, _ => none
  | fuel + 1, k, s =>
    match step s (env k) with
    | none => some (cost s (env k))
    | some s' => (total fuel (k + 1) s').map (cost s (env k) + ·)

def Returns (s : σ) : Prop := ∃ fuel n, total step cost env fuel 0 s = some n

variable {step cost env} {s : σ} {state : ℕ → σ}

theorem total_of_none {fuel k : ℕ} (h : step s (env k) = none) :
    total step cost env (fuel + 1) k s = some (cost s (env k)) := by
  rw [total, h]

theorem total_of_some {fuel k : ℕ} {s' : σ} (h : step s (env k) = some s') :
    total step cost env (fuel + 1) k s =
      (total step cost env fuel (k + 1) s').map (cost s (env k) + ·) := by
  rw [total, h]

/-- `state k` is what the `k`-th call is called with, if there is one. -/
def Called (step : σ → α → Option σ) (env : ℕ → α) (state : ℕ → σ) : Prop :=
  ∀ k, ∀ s' ∈ step (state k) (env k), s' = state (k + 1)

/-- From the `k`-th call on, the one that returns is reached. -/
theorem total_isSome (hcalled : Called step env state) {k j : ℕ}
    (h : step (state (k + j)) (env (k + j)) = none) :
    (total step cost env (j + 1) k (state k)).isSome := by
  induction j generalizing k with
  | zero =>
    have h : step (state k) (env k) = none := h
    rw [total_of_none h]
    rfl
  | succ j ih =>
    have hnext : k + 1 + j = k + (j + 1) := by omega
    rcases hstep : step (state k) (env k) with _ | s'
    · rw [total_of_none hstep]
      rfl
    · rw [total_of_some hstep, Option.isSome_map, hcalled k s' hstep]
      exact ih (by rw [hnext]; exact h)

/-- Calls that never return run out of any fuel. -/
theorem total_eq_none (hcalled : Called step env state)
    (h : ∀ k, step (state k) (env k) ≠ none) (fuel k : ℕ) :
    total step cost env fuel k (state k) = none := by
  induction fuel generalizing k with
  | zero => rfl
  | succ fuel ih =>
    obtain ⟨s', hs'⟩ := Option.ne_none_iff_exists'.mp (h k)
    rw [total_of_some hs', hcalled k s' hs', ih (k + 1), Option.map_none]

/-- It returns when some call does not call itself again. -/
theorem returns_iff (hcalled : Called step env state) :
    Returns step cost env (state 0) ↔ ∃ k, step (state k) (env k) = none := by
  constructor
  · rintro ⟨fuel, n, htotal⟩
    refine Classical.byContradiction fun hnone => ?_
    have hnever : total step cost env fuel 0 (state 0) = none :=
      total_eq_none hcalled (fun k hk => hnone ⟨k, hk⟩) fuel 0
    rw [htotal] at hnever
    cases hnever
  · rintro ⟨k, hk⟩
    have hsome : (total step cost env (k + 1) 0 (state 0)).isSome :=
      total_isSome hcalled (by rw [Nat.zero_add]; exact hk)
    obtain ⟨n, hn⟩ := Option.isSome_iff_exists.mp hsome
    exact ⟨k + 1, n, hn⟩

end Lib.Retry
