import Mathlib.Data.List.Basic

/-!
# Lib.Words — the words of a list that grows

`words p l` are the runs of `l` without a separator, and `joined p sep l` is them with one `sep`
between each two.  What is appended to a list only extends what is joined.
-/

namespace Lib.Words

variable {α : Type*} (p : α → Bool) (sep : List α)

/-- The runs that are words. -/
def nonempty (ws : List (List α)) : List (List α) := ws.filter fun w => !w.isEmpty

def words (l : List α) : List (List α) := nonempty (l.splitOnP p)

def joined (l : List α) : List α := List.intercalate sep (words p l)

/-- The last run goes on, and others may follow. -/
inductive Extends : List (List α) → List (List α) → Prop
  | last (w more : List α) (rest : List (List α)) : Extends [w] ((w ++ more) :: rest)
  | cons (w : List α) {ws ws' : List (List α)} : Extends ws ws' → Extends (w :: ws) (w :: ws')

variable {p sep} {ws ws' : List (List α)}

theorem Extends.modifyHead (h : Extends ws ws') (x : α) :
    Extends (ws.modifyHead (List.cons x)) (ws'.modifyHead (List.cons x)) := by
  cases h with
  | last w more rest => exact .last (x :: w) more rest
  | cons w h => exact .cons (x :: w) h

theorem extends_splitOnP (a b : List α) : Extends (a.splitOnP p) ((a ++ b).splitOnP p) := by
  induction a with
  | nil =>
    obtain ⟨w, rest, hb⟩ := List.exists_cons_of_ne_nil (List.splitOnP_ne_nil p b)
    rw [List.nil_append, hb, List.splitOnP_nil]
    exact .last [] w rest
  | cons x a ih =>
    rw [List.cons_append, List.splitOnP_cons_eq_if_modifyHead, List.splitOnP_cons_eq_if_modifyHead]
    split_ifs
    · exact .cons [] ih
    · exact ih.modifyHead x

theorem nonempty_cons {w : List α} (h : w ≠ []) : nonempty (w :: ws) = w :: nonempty ws := by
  cases w with
  | nil => exact absurd rfl h
  | cons x w => rfl

/-- Words do not go. -/
theorem Extends.nonempty_ne_nil (h : Extends ws ws') (hne : nonempty ws ≠ []) :
    nonempty ws' ≠ [] := by
  induction h with
  | last w more rest =>
    have hw : w ≠ [] := by
      rintro rfl
      exact hne rfl
    rw [nonempty_cons (by simp [hw])]
    exact List.cons_ne_nil _ _
  | cons w h ih =>
    by_cases hw : w = []
    · subst hw
      exact ih hne
    · rw [nonempty_cons hw]
      exact List.cons_ne_nil _ _

theorem head_grows (w more : List α) :
    w <+: List.intercalate sep ((w ++ more) :: ws) := by
  cases ws with
  | nil =>
    rw [List.intercalate_singleton]
    exact List.prefix_append _ _
  | cons w' ws =>
    rw [List.intercalate_cons_cons, List.append_assoc, List.append_assoc]
    exact List.prefix_append _ _

theorem Extends.grows (h : Extends ws ws') :
    List.intercalate sep (nonempty ws) <+: List.intercalate sep (nonempty ws') := by
  induction h with
  | last w more rest =>
    by_cases hw : w = []
    · subst hw
      exact List.nil_prefix
    · rw [nonempty_cons hw, nonempty_cons (by simp [hw])]
      have hone : nonempty ([] : List (List α)) = [] := rfl
      rw [hone, List.intercalate_singleton]
      exact head_grows w more
  | @cons w ws ws' h ih =>
    by_cases hw : w = []
    · subst hw
      exact ih
    · rw [nonempty_cons hw, nonempty_cons hw]
      by_cases hne : nonempty ws = []
      · rw [hne, List.intercalate_singleton]
        have hpre := @head_grows α sep (nonempty ws') w []
        rwa [List.append_nil] at hpre
      · rw [List.intercalate_cons_of_ne_nil hne,
          List.intercalate_cons_of_ne_nil (h.nonempty_ne_nil hne)]
        exact (List.prefix_append_right_inj _).mpr ih

/-- What is appended only extends what is joined. -/
theorem joined_grows (a b : List α) : joined p sep a <+: joined p sep (a ++ b) :=
  (extends_splitOnP a b).grows

end Lib.Words
