import Mathlib.Data.List.Basic
import Mathlib.Logic.Function.Basic
import Mathlib.Algebra.Order.Group.Nat

/-!
# Lib.Refcount — how often each name is taken

A table of counts that holds no zeros: a name is in it exactly while something has taken it.
Taking counts every mention of a name, and giving back takes each mention off again.
-/

namespace Lib.Refcount

variable {N : Type*}

/-- How often each name is taken; `none`: not at all. -/
abbrev Counts (N : Type*) := N → Option ℕ

/-- The entry of a name that is taken `n` times. -/
def counted (n : ℕ) : Option ℕ := if n = 0 then none else some n

@[simp] theorem counted_zero : counted 0 = none := rfl

@[simp] theorem counted_succ (n : ℕ) : counted (n + 1) = some (n + 1) := rfl

@[simp] theorem getD_counted (n : ℕ) : (counted n).getD 0 = n := by
  cases n <;> rfl

variable [DecidableEq N]

/-- How often a list mentions the name. -/
def mentions (ns : List N) (n : N) : ℕ := ns.count n

theorem mentions_eq_zero {ns : List N} {n : N} : mentions ns n = 0 ↔ n ∉ ns := List.count_eq_zero

theorem mentions_cons (n : N) (ns : List N) (m : N) :
    mentions (n :: ns) m = mentions [n] m + mentions ns m := by
  unfold mentions
  rw [← List.count_append]
  rfl

theorem mentions_singleton_ne {n m : N} (h : m ≠ n) : mentions [n] m = 0 :=
  mentions_eq_zero.mpr (by simpa using h)

@[simp] theorem mentions_singleton_self (n : N) : mentions [n] n = 1 := by
  simp [mentions]

def acquireOne (c : Counts N) (n : N) : Counts N :=
  Function.update c n (some ((c n).getD 0 + 1))

def releaseOne (c : Counts N) (n : N) : Counts N :=
  match c n with
  | some k => Function.update c n (if k - 1 = 0 then none else some (k - 1))
  | none => c

/-- Take each of the names, a name mentioned twice twice. -/
def acquire (c : Counts N) (ns : List N) : Counts N := ns.foldl acquireOne c

/-- Give each of the names back. -/
def release (c : Counts N) (ns : List N) : Counts N := ns.foldl releaseOne c

theorem acquireOne_eq {c : Counts N} {f : N → ℕ} (h : ∀ m, c m = counted (f m)) (n : N) :
    ∀ m, acquireOne c n m = counted (f m + mentions [n] m) := by
  intro m
  unfold acquireOne
  by_cases hm : m = n
  · subst hm
    rw [Function.update_self, h m, getD_counted, mentions_singleton_self, counted_succ]
  · rw [Function.update_of_ne hm, h m, mentions_singleton_ne hm]
    rfl

theorem releaseOne_eq {c : Counts N} {f : N → ℕ} {n : N}
    (h : ∀ m, c m = counted (f m + mentions [n] m)) : ∀ m, releaseOne c n m = counted (f m) := by
  intro m
  have hn : c n = some (f n + 1) := by
    rw [h n, mentions_singleton_self, counted_succ]
  unfold releaseOne
  rw [hn]
  by_cases hm : m = n
  · subst hm
    dsimp only
    rw [Function.update_self, Nat.add_sub_cancel]
    rfl
  · dsimp only
    rw [Function.update_of_ne hm, h m, mentions_singleton_ne hm]
    rfl

/-- Taking adds every mention. -/
theorem acquire_eq {c : Counts N} {f : N → ℕ} (h : ∀ m, c m = counted (f m)) (ns : List N) :
    ∀ m, acquire c ns m = counted (f m + mentions ns m) := by
  induction ns generalizing c f with
  | nil => exact h
  | cons n ns ih =>
    intro m
    show acquire (acquireOne c n) ns m = _
    rw [ih (acquireOne_eq h n) m, Nat.add_assoc, ← mentions_cons]

/-- Giving back takes every mention off. -/
theorem release_eq {c : Counts N} {f : N → ℕ} {ns : List N}
    (h : ∀ m, c m = counted (f m + mentions ns m)) : ∀ m, release c ns m = counted (f m) := by
  induction ns generalizing c with
  | nil => exact h
  | cons n ns ih =>
    refine ih (releaseOne_eq fun m => ?_)
    rw [h m, mentions_cons, Nat.add_comm (mentions [n] m), Nat.add_assoc]

end Lib.Refcount
