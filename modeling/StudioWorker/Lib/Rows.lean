import StudioWorker.Lib.Trim

/-!
# Lib.Rows — a list cut at a separator that is a blank itself

`rows` are the pieces without the blanks at their ends; `solid` is all of them up to the last that
is more than blanks.

* `solid_rows_trim_end`: blanks at the end of the list do not count.
* `rows_trim_front`: those in front do not either, unless the first row is one of them.
-/

namespace Lib.Rows

open Lib.Trim

variable {α : Type*}

/-- What there is up to the last piece that holds something. -/
def solid (rs : List (List α)) : List (List α) := rs.rdropWhile (·.isEmpty)

variable {p : α → Bool}

theorem trim_concat_blank {c : α} (hc : p c = true) (l : List α) :
    trim p (l ++ [c]) = trim p l := by
  have h := trim_rdropWhile (p := p) (l ++ [c])
  rw [List.rdropWhile_concat_pos _ _ _ hc, trim_rdropWhile] at h
  exact h.symm

theorem trim_cons_blank {c : α} (hc : p c = true) (l : List α) : trim p (c :: l) = trim p l := by
  rw [trim, List.dropWhile_cons_of_pos hc, trim]

theorem solid_concat_nil (rs : List (List α)) : solid (rs ++ [[]]) = solid rs :=
  List.rdropWhile_concat_pos _ _ _ rfl

theorem solid_concat_of_ne {r : List α} (hr : r ≠ []) (rs : List (List α)) :
    solid (rs ++ [r]) = rs ++ [r] :=
  List.rdropWhile_concat_neg _ _ _ (by rwa [List.isEmpty_iff])

theorem solid_cons (r : List α) (rs : List (List α)) :
    solid (r :: rs) = if solid rs = [] then solid [r] else r :: solid rs :=
  rdropWhile_append [r] rs

theorem solid_of_forall {rs : List (List α)} (h : ∀ r ∈ rs, r ≠ []) : solid rs = rs := by
  cases rs using List.reverseRecOn with
  | nil => rfl
  | append_singleton rs r =>
    exact solid_concat_of_ne (h r (List.mem_append_right _ (List.mem_singleton_self r))) rs

/-- The pieces, each without the blanks at its ends. -/
def rows [DecidableEq α] (sep : α) (p : α → Bool) (l : List α) : List (List α) :=
  (l.splitOn sep).map (trim p)

variable [DecidableEq α] {sep : α}

theorem splitOn_concat {c : α} (hc : c ≠ sep) (l : List α) :
    ∃ init last, l.splitOn sep = init ++ [last] ∧
      (l ++ [c]).splitOn sep = init ++ [last ++ [c]] := by
  induction l with
  | nil =>
    refine ⟨[], [], List.splitOn_nil sep, ?_⟩
    exact List.splitOn_eq_singleton fun h => hc (List.mem_singleton.mp h).symm
  | cons x l ih =>
    obtain ⟨init, last, hl, hlc⟩ := ih
    rw [List.cons_append, List.splitOn_cons_eq_if_modifyHead, List.splitOn_cons_eq_if_modifyHead,
      hl, hlc]
    split_ifs
    · exact ⟨[] :: init, last, rfl, rfl⟩
    · cases init with
      | nil => exact ⟨[], x :: last, rfl, rfl⟩
      | cons r init => exact ⟨(x :: r) :: init, last, rfl, rfl⟩

/-! ## The end -/

theorem solid_rows_concat {c : α} (hc : p c = true) (l : List α) :
    solid (rows sep p (l ++ [c])) = solid (rows sep p l) := by
  by_cases hcs : c = sep
  · subst hcs
    rw [rows, List.splitOn_append_cons_self, List.splitOn_nil, List.map_append]
    exact solid_concat_nil _
  · obtain ⟨init, last, hl, hlc⟩ := splitOn_concat hcs l
    rw [rows, rows, hl, hlc, List.map_append, List.map_append, List.map_singleton,
      List.map_singleton, trim_concat_blank hc]

/-- Blanks at the end of the list do not count. -/
theorem solid_rows_trim_end (l : List α) :
    solid (rows sep p (l.rdropWhile p)) = solid (rows sep p l) := by
  induction l using List.reverseRecOn with
  | nil => rfl
  | append_singleton l c ih =>
    cases hc : p c with
    | true => rw [List.rdropWhile_concat_pos _ _ _ hc, ih, solid_rows_concat hc]
    | false => rw [List.rdropWhile_concat_neg _ _ _ (by rw [hc]; exact Bool.false_ne_true)]

/-! ## The front -/

/-- Blanks in front do not count either, when the first row is not one of them. -/
theorem rows_trim_front {l : List α}
    (hfirst : (rows sep p l).head? ≠ some []) : rows sep p (l.dropWhile p) = rows sep p l := by
  induction l with
  | nil => rfl
  | cons c l ih =>
    cases hc : p c with
    | false => rw [dropWhile_cons_of_not hc]
    | true =>
      rw [List.dropWhile_cons_of_pos hc]
      by_cases hcs : c = sep
      · subst hcs
        rw [rows, List.splitOn_cons_eq_if_modifyHead, if_pos (beq_self_eq_true c)] at hfirst
        exact absurd rfl hfirst
      · have hrows : rows sep p (c :: l) = rows sep p l := by
          obtain ⟨r, rs, hl⟩ := List.exists_cons_of_ne_nil (List.splitOn_ne_nil sep l)
          rw [rows, List.splitOn_cons_eq_if_modifyHead, if_neg (by simpa using hcs), rows, hl,
            List.modifyHead_cons, List.map_cons, List.map_cons, trim_cons_blank hc]
        rw [hrows] at hfirst ⊢
        exact ih hfirst

end Lib.Rows
