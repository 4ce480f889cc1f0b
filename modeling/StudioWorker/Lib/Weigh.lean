import Mathlib.Algebra.Order.BigOperators.Group.List

/-!
# Lib.Weigh — the total weight of the entries of a list that satisfy a predicate

`weigh w p l` sums `w` over the entries of `l` that satisfy `p`.  The rules split it along a second
predicate, compare it under a weaker one, and follow it when one entry joins.
-/

namespace Lib

variable {α M : Type*} [AddCommMonoid M] (w : α → M) {p q : α → Bool} {l : List α}

/-- The total weight of the entries that satisfy `p`. -/
def weigh (p : α → Bool) (l : List α) : M := ((l.filter p).map w).sum

@[simp] theorem weigh_nil : weigh w p [] = 0 := rfl

theorem weigh_cons (a : α) : weigh w p (a :: l) = (if p a then w a else 0) + weigh w p l := by
  unfold weigh
  cases hp : p a <;> simp [hp]

theorem weigh_congr (h : ∀ a ∈ l, p a = q a) : weigh w p l = weigh w q l := by
  unfold weigh
  rw [List.filter_congr h]

/-- What satisfies `p` either satisfies `q` too or does not. -/
theorem weigh_split (p q : α → Bool) (l : List α) :
    weigh w p l = weigh w (fun a => p a && q a) l + weigh w (fun a => p a && !q a) l := by
  induction l with
  | nil => simp
  | cons a l ih =>
    rw [weigh_cons, weigh_cons, weigh_cons, ih]
    cases hp : p a <;> cases hq : q a <;> simp [add_assoc, add_left_comm]

/-- Of two predicates no entry satisfies both of, either sums to its own share. -/
theorem weigh_or (h : ∀ a ∈ l, p a = true → q a = false) :
    weigh w (fun a => p a || q a) l = weigh w p l + weigh w q l := by
  rw [weigh_split w (fun a => p a || q a) p]
  congr 1
  · exact weigh_congr w fun a _ => by cases hp : p a <;> simp
  · refine weigh_congr w fun a ha => ?_
    cases hp : p a with
    | false => simp
    | true => simp [h a ha hp]

theorem weigh_eq_zero (h : ∀ a ∈ l, p a = true → w a = 0) : weigh w p l = 0 := by
  unfold weigh
  refine List.sum_eq_zero fun x hx => ?_
  obtain ⟨a, ha, rfl⟩ := List.mem_map.mp hx
  obtain ⟨h1, h2⟩ := List.mem_filter.mp ha
  exact h a h1 h2

section Ordered

variable {w} [PartialOrder M] [IsOrderedAddMonoid M]

theorem weigh_nonneg (hw : ∀ a ∈ l, 0 ≤ w a) : 0 ≤ weigh w p l := by
  unfold weigh
  refine List.sum_nonneg fun x hx => ?_
  obtain ⟨a, ha, rfl⟩ := List.mem_map.mp hx
  exact hw a (List.mem_filter.mp ha).1

/-- A weaker predicate weighs at least as much, of weights that are not negative. -/
theorem weigh_mono (hw : ∀ a ∈ l, 0 ≤ w a) (h : ∀ a ∈ l, p a = true → q a = true) :
    weigh w p l ≤ weigh w q l := by
  rw [weigh_split w q p]
  have h1 : weigh w (fun a => q a && p a) l = weigh w p l := by
    refine weigh_congr w fun a ha => ?_
    cases hp : p a with
    | false => simp
    | true => simp [h a ha hp]
  rw [h1]
  exact le_add_of_nonneg_right (weigh_nonneg hw)

end Ordered

end Lib
