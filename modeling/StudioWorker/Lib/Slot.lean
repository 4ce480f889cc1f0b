import Mathlib.Logic.Function.Basic
import Mathlib.Tactic.SplitIfs

/-!
# Lib.Slot — a slot that one party has at a time

Parties move between phases, and some phases have the slot.  A party that comes to have it finds it
free; one that ceases to leaves it free.

* `Slot.Owned`: the slot names the party whose phase has it.
* `Slot.Owned.move`: a party's move keeps that.
-/

namespace Lib.Slot

variable {K P H : Type*}

/-- The slot names the party whose phase has it; a name of no party is someone else's. -/
def Owned (has : P → Bool) (name : K → H) (phase : K → P) (slot : Option H) : Prop :=
  ∀ k, has (phase k) = true ↔ slot = some (name k)

/-- The slot after a party's move from one phase to another. -/
def moved (has : P → Bool) (name : K → H) (k : K) (p q : P) (slot : Option H) : Option H :=
  if has p = has q then slot else if has q then some (name k) else none

variable {has : P → Bool} {name : K → H} {phase : K → P} {slot : Option H}

theorem Owned.unique (h : Owned has name phase slot) (hname : Function.Injective name) {k j : K}
    (hk : has (phase k) = true) (hj : has (phase j) = true) : k = j :=
  hname (Option.some.inj (((h k).mp hk).symm.trans ((h j).mp hj)))

/-- Someone else takes a free slot. -/
theorem Owned.take (h : Owned has name phase none) {a : H} (ha : ∀ k, a ≠ name k) :
    Owned has name phase (some a) := by
  intro k
  rw [h k]
  simp [ha k]

/-- Someone else leaves it. -/
theorem Owned.leave {a : H} (h : Owned has name phase (some a)) (ha : ∀ k, a ≠ name k) :
    Owned has name phase none := by
  intro k
  rw [h k]
  simp [ha k]

variable [DecidableEq K]

theorem Owned.move (h : Owned has name phase slot) (hname : Function.Injective name) {k : K} {q : P}
    (hfree : has q = true → has (phase k) = true ∨ slot = none) :
    Owned has name (Function.update phase k q) (moved has name k (phase k) q slot) := by
  intro j
  unfold moved
  by_cases hj : j = k
  · subst hj
    rw [Function.update_self]
    split_ifs with heq hq
    · rw [← heq, h j]
    · simp [hq]
    · simp [hq]
  · rw [Function.update_of_ne hj]
    split_ifs with heq hq
    · exact h j
    · have hnone : slot = none :=
        (hfree hq).resolve_left fun hp => heq (hp.trans hq.symm)
      rw [h j, hnone]
      simp [hname.eq_iff, Ne.symm hj]
    · have hp : has (phase k) = true := by
        cases hp : has (phase k) with
        | true => rfl
        | false => exact absurd (hp.trans (by simpa using hq)) heq
      simp only [iff_false]
      exact fun hjp => hj (h.unique hname hjp hp)

end Lib.Slot
