import Mathlib.Algebra.GroupWithZero.Nat
import Mathlib.Data.List.Basic
import Mathlib.Tactic.Common

/-!
# Lib.Offset — offsets into a list whose elements have a width

Text in an encoding of varying width is a list of characters addressed by byte offsets.  An offset
is a boundary when it is the width of a prefix; taking or dropping at any other offset has no
result.
-/

namespace Lib.Offset

variable {α : Type*} (w : α → ℕ)

/-- The width of a whole list. -/
def width (l : List α) : ℕ := (l.map w).sum

@[simp] theorem width_nil : width w [] = 0 := rfl

@[simp] theorem width_cons (a : α) (l : List α) : width w (a :: l) = w a + width w l := rfl

@[simp] theorem width_append (l l' : List α) : width w (l ++ l') = width w l + width w l' := by
  simp [width]

/-- What follows offset `n`; `none` when `n` is not a boundary. -/
def dropAt : List α → ℕ → Option (List α)
  | l, 0 => some l
  | [], _ + 1 => none
  | a :: l, n + 1 => if w a ≤ n + 1 then dropAt l (n + 1 - w a) else none

/-- What precedes offset `n`; `none` when `n` is not a boundary. -/
def takeAt : List α → ℕ → Option (List α)
  | _, 0 => some []
  | [], _ + 1 => none
  | a :: l, n + 1 => if w a ≤ n + 1 then (takeAt l (n + 1 - w a)).map (a :: ·) else none

/-- What lies between two offsets. -/
def slice (l : List α) (i j : ℕ) : Option (List α) := (takeAt w l j).bind fun t => dropAt w t i

/-- The offsets at which the elements start. -/
def starts : List α → List ℕ
  | [] => []
  | a :: l => 0 :: (starts l).map (· + w a)

variable {w}

theorem dropAt_zero (l : List α) : dropAt w l 0 = some l := by
  cases l <;> rfl

theorem takeAt_zero (l : List α) : takeAt w l 0 = some [] := by
  cases l <;> rfl

section Positive

variable (hw : ∀ a, 0 < w a)
include hw

theorem dropAt_append (l l' : List α) : dropAt w (l ++ l') (width w l) = some l' := by
  induction l with
  | nil => exact dropAt_zero l'
  | cons a l ih =>
    have ha : 0 < w a := hw a
    obtain ⟨n, hn⟩ : ∃ n, w a + width w l = n + 1 := ⟨w a + width w l - 1, by omega⟩
    have hrest : n + 1 - w a = width w l := by omega
    rw [List.cons_append, width_cons, hn, dropAt, if_pos (by omega), hrest, ih]

theorem takeAt_append (l l' : List α) : takeAt w (l ++ l') (width w l) = some l := by
  induction l with
  | nil => exact takeAt_zero l'
  | cons a l ih =>
    have ha : 0 < w a := hw a
    obtain ⟨n, hn⟩ : ∃ n, w a + width w l = n + 1 := ⟨w a + width w l - 1, by omega⟩
    have hrest : n + 1 - w a = width w l := by omega
    rw [List.cons_append, width_cons, hn, takeAt, if_pos (by omega), hrest, ih]
    rfl

/-- Between two boundaries lies what the longer prefix adds to the shorter. -/
theorem slice_append (l m r : List α) :
    slice w (l ++ m ++ r) (width w l) (width w (l ++ m)) = some m := by
  rw [slice, takeAt_append hw, Option.bind_some, dropAt_append hw]

end Positive

end Lib.Offset
