import Mathlib.Data.List.Basic

/-!
# Lib.After — what comes behind the first item of a kind

`List.after p l` is the part of a list behind its first item that meets `p`, nothing where none
does.
-/

namespace Lib

/-- What comes behind the first item that meets `p`. -/
def after {α : Type*} (p : α → Bool) : List α → List α
  | [] => []
  | x :: l => if p x then l else after p l

variable {α : Type*} {p : α → Bool} {l : List α} {x : α}

@[simp] theorem after_nil : after p [] = [] := rfl

theorem after_cons_of_pos (h : p x = true) : after p (x :: l) = l := if_pos h

theorem after_cons_of_neg (h : p x = false) : after p (x :: l) = after p l :=
  if_neg (by simp [h])

theorem after_subset (h : x ∈ after p l) : x ∈ l := by
  induction l with
  | nil => cases h
  | cons y l ih =>
    cases hy : p y with
    | true =>
      rw [after_cons_of_pos hy] at h
      exact List.mem_cons_of_mem _ h
    | false =>
      rw [after_cons_of_neg hy] at h
      exact List.mem_cons_of_mem _ (ih h)

theorem after_eq_nil (h : ∀ x ∈ l, ¬ p x) : after p l = [] := by
  induction l with
  | nil => rfl
  | cons x l ih =>
    rw [after_cons_of_neg (by simpa using h x List.mem_cons_self)]
    exact ih fun y hy => h y (List.mem_cons_of_mem _ hy)

theorem after_append_of_any (h : l.any p = true) (m : List α) :
    after p (l ++ m) = after p l ++ m := by
  induction l with
  | nil => cases h
  | cons x l ih =>
    rw [List.cons_append]
    cases hx : p x with
    | true => rw [after_cons_of_pos hx, after_cons_of_pos hx]
    | false =>
      rw [after_cons_of_neg hx, after_cons_of_neg hx]
      rw [List.any_cons, hx, Bool.false_or] at h
      exact ih h

theorem after_append_of_not_any (h : l.any p = false) (m : List α) :
    after p (l ++ m) = after p m := by
  induction l with
  | nil => rfl
  | cons x l ih =>
    rw [List.any_cons, Bool.or_eq_false_iff] at h
    rw [List.cons_append, after_cons_of_neg h.1, ih h.2]

/-- An item added at the end is behind the first of its kind when there was one before. -/
theorem mem_after_concat {y : α} (h : y ∈ after p (l ++ [x])) :
    y ∈ after p l ∨ l.any p = true ∧ y = x := by
  cases ha : l.any p with
  | true =>
    rw [after_append_of_any ha, List.mem_append, List.mem_singleton] at h
    exact h.imp_right fun h => ⟨rfl, h⟩
  | false =>
    rw [after_append_of_not_any ha] at h
    cases hx : p x with
    | true => rw [after_cons_of_pos hx] at h; cases h
    | false => rw [after_cons_of_neg hx] at h; cases h

end Lib
