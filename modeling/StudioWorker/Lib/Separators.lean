import StudioWorker.Lib.Trim

/-!
# Lib.Separators — separators that stand alone, between other elements

* `Parted x l`: no `x` begins or ends `l`, and no two are next to each other.
* `nil_mem_splitOn`: these are the lists that have no empty piece between their `x`s, and `[]`.
* `parted_intercalate`: pieces that are not empty and hold no `x` make one.
-/

namespace Lib.Separators

open Lib.Trim

variable {α : Type*} {x : α}

/-- Every `x` is followed by another element. -/
def Followed (x : α) : List α → Prop
  | [] => True
  | a :: l => (a = x → ∃ b ∈ l.head?, b ≠ x) ∧ Followed x l

/-- No `x` begins or ends the list, and no two are next to each other. -/
structure Parted (x : α) (l : List α) : Prop where
  head : l.head? ≠ some x
  last : l.getLast? ≠ some x
  single : ¬ [x, x] <:+: l

theorem parted_nil : Parted x ([] : List α) := ⟨by simp, by simp, by simp⟩

theorem pair_infix_cons {a : α} {l : List α} :
    [x, x] <:+: a :: l ↔ a = x ∧ l.head? = some x ∨ [x, x] <:+: l := by
  rw [List.infix_cons_iff]
  refine or_congr_left ?_
  cases l with
  | nil => simp
  | cons b l => simp [eq_comm]

theorem pair_infix_concat {a : α} {l : List α} :
    [x, x] <:+: l ++ [a] ↔ l.getLast? = some x ∧ a = x ∨ [x, x] <:+: l := by
  rw [← List.reverse_infix, List.reverse_append, List.reverse_singleton, List.singleton_append,
    show [x, x].reverse = [x, x] from rfl, pair_infix_cons, List.head?_reverse,
    show [x, x] <:+: l.reverse ↔ [x, x] <:+: l by
      rw [← List.reverse_infix, List.reverse_reverse]; rfl, and_comm]

theorem followed_iff {l : List α} :
    Followed x l ↔ l.getLast? ≠ some x ∧ ¬ [x, x] <:+: l := by
  induction l with
  | nil => simp [Followed]
  | cons a l ih =>
    rw [Followed, ih, pair_infix_cons]
    cases l with
    | nil => simp
    | cons b l =>
      rw [List.getLast?_cons_cons]
      simp only [List.head?_cons, Option.mem_some_iff, exists_eq_left', Option.some_inj]
      tauto

/-- One by one: the first is no `x`, and every `x` is followed by another element. -/
theorem parted_iff {l : List α} : Parted x l ↔ l.head? ≠ some x ∧ Followed x l := by
  rw [followed_iff]
  exact ⟨fun h => ⟨h.head, h.last, h.single⟩, fun h => ⟨h.1, h.2.1, h.2.2⟩⟩

/-! ## Pieces -/

/-- What is in a piece is in the list, and no separator. -/
theorem mem_piece {p : α → Bool} {l w : List α} (hw : w ∈ l.splitOnP p) {c : α} (hc : c ∈ w) :
    c ∈ l ∧ p c = false := by
  induction l generalizing w with
  | nil =>
    rw [List.splitOnP_nil, List.mem_singleton] at hw
    subst hw
    cases hc
  | cons a l ih =>
    rw [List.splitOnP_cons_eq_if_modifyHead] at hw
    split_ifs at hw with ha
    · rcases List.mem_cons.mp hw with rfl | hw
      · cases hc
      · exact ⟨List.mem_cons_of_mem a (ih hw hc).1, (ih hw hc).2⟩
    · obtain ⟨v, vs, hl⟩ := List.exists_cons_of_ne_nil (List.splitOnP_ne_nil p l)
      rw [hl, List.modifyHead_cons] at hw
      have hpiece : ∀ u ∈ v :: vs, c ∈ u → c ∈ a :: l ∧ p c = false := by
        intro u hu hc
        have hrest := ih (hl ▸ hu) hc
        exact ⟨List.mem_cons_of_mem a hrest.1, hrest.2⟩
      rcases List.mem_cons.mp hw with rfl | hw
      · rcases List.mem_cons.mp hc with rfl | hc
        · exact ⟨List.mem_cons_self, Bool.not_eq_true _ ▸ ha⟩
        · exact hpiece v List.mem_cons_self hc
      · exact hpiece w (List.mem_cons_of_mem v hw) hc

/-- What is no separator is in a piece. -/
theorem exists_piece {p : α → Bool} {l : List α} {c : α} (hc : c ∈ l) (hp : p c = false) :
    ∃ w ∈ l.splitOnP p, c ∈ w := by
  induction l with
  | nil => cases hc
  | cons a l ih =>
    rw [List.splitOnP_cons_eq_if_modifyHead]
    obtain ⟨v, vs, hl⟩ := List.exists_cons_of_ne_nil (List.splitOnP_ne_nil p l)
    rw [hl] at ih ⊢
    rcases List.mem_cons.mp hc with rfl | hc
    · rw [if_neg (by rw [hp]; exact Bool.false_ne_true), List.modifyHead_cons]
      exact ⟨c :: v, List.mem_cons_self, List.mem_cons_self⟩
    · obtain ⟨w, hw, hcw⟩ := ih hc
      split_ifs
      · exact ⟨w, List.mem_cons_of_mem [] hw, hcw⟩
      · rw [List.modifyHead_cons]
        rcases List.mem_cons.mp hw with rfl | hw
        · exact ⟨a :: w, List.mem_cons_self, List.mem_cons_of_mem a hcw⟩
        · exact ⟨w, List.mem_cons_of_mem _ hw, hcw⟩

/-! ## Trimming -/

section Trim

variable [DecidableEq α]

theorem Parted.trimmed {l : List α} (h : Parted x l) : Trimmed (fun c => decide (c = x)) l := by
  constructor
  · cases l with
    | nil => rfl
    | cons a l =>
      refine List.dropWhile_cons_of_neg ?_
      rw [decide_eq_true_eq]
      exact fun ha => h.head (by rw [ha]; rfl)
  · refine List.rdropWhile_eq_self_iff.mpr fun hne hlast => h.last ?_
    rw [List.getLast?_eq_some_getLast hne, of_decide_eq_true hlast]

theorem parted_of_trimmed {l : List α} (h : Trimmed (fun c => decide (c = x)) l)
    (hsingle : ¬ [x, x] <:+: l) : Parted x l where
  head hhead := by
    obtain ⟨l, rfl⟩ := List.head?_eq_some_iff.mp hhead
    exact List.dropWhile_eq_self_iff.mp h.1 (Nat.succ_pos _) (decide_eq_true rfl)
  last hlast := by
    obtain ⟨l, rfl⟩ := List.getLast?_eq_some_iff.mp hlast
    have hself := List.rdropWhile_eq_self_iff.mp h.2 (by simp)
    rw [List.getLast_concat] at hself
    exact hself (decide_eq_true rfl)
  single := hsingle

end Trim

/-! ## What is joined -/

theorem mem_of_mem_intercalate {sep : List α} {ws : List (List α)} {c : α}
    (hc : c ∈ sep.intercalate ws) : (∃ w ∈ ws, c ∈ w) ∨ c ∈ sep := by
  induction ws with
  | nil => cases hc
  | cons w ws ih =>
    cases ws with
    | nil =>
      rw [List.intercalate_singleton] at hc
      exact Or.inl ⟨w, List.mem_cons_self, hc⟩
    | cons v vs =>
      rw [List.intercalate_cons_cons] at hc
      rcases List.mem_append.mp hc with hc | hc
      · rcases List.mem_append.mp hc with hc | hc
        · exact Or.inl ⟨w, List.mem_cons_self, hc⟩
        · exact Or.inr hc
      · exact (ih hc).imp_left fun ⟨u, hu, hcu⟩ => ⟨u, List.mem_cons_of_mem w hu, hcu⟩

theorem mem_intercalate {sep w : List α} {ws : List (List α)} (hw : w ∈ ws) {c : α} (hc : c ∈ w) :
    c ∈ sep.intercalate ws := by
  induction ws with
  | nil => cases hw
  | cons v ws ih =>
    rcases List.mem_cons.mp hw with rfl | hw
    · cases ws with
      | nil => rwa [List.intercalate_singleton]
      | cons u us =>
        rw [List.intercalate_cons_cons]
        exact List.mem_append_left _ (List.mem_append_left _ hc)
    · rw [List.intercalate_cons_of_ne_nil (List.ne_nil_of_mem hw)]
      exact List.mem_append_right _ (ih hw)

section Pieces

variable [DecidableEq α]

theorem splitOn_cons (a : α) (l : List α) :
    (a :: l).splitOn x =
      if a = x then [] :: l.splitOn x else (l.splitOn x).modifyHead (a :: ·) := by
  rw [List.splitOn_cons_eq_if_modifyHead]
  simp only [beq_iff_eq]

/-- Whether there is an empty piece first, and whether there is one behind it. -/
theorem nil_mem_splitOn_iff (l : List α) :
    [] ∈ l.splitOn x ↔ (¬ ∃ b ∈ l.head?, b ≠ x) ∨ [] ∈ (l.splitOn x).tail := by
  cases l with
  | nil => simp
  | cons a l =>
    rw [splitOn_cons]
    obtain ⟨w, ws, hl⟩ := List.exists_cons_of_ne_nil (List.splitOn_ne_nil x l)
    by_cases ha : a = x
    · simp [ha]
    · simp [ha, hl]

/-- An empty piece behind the first one is an `x` that nothing else follows. -/
theorem nil_mem_tail (l : List α) : [] ∈ (l.splitOn x).tail ↔ ¬ Followed x l := by
  induction l with
  | nil => simp [Followed]
  | cons a l ih =>
    rw [splitOn_cons, Followed]
    by_cases ha : a = x
    · rw [if_pos ha, List.tail_cons, nil_mem_splitOn_iff, ih]
      simp only [ha, true_imp_iff, not_and_or]
    · rw [if_neg ha, List.tail_modifyHead, ih]
      tauto

theorem nil_mem_splitOn (l : List α) : [] ∈ l.splitOn x ↔ l = [] ∨ ¬ Parted x l := by
  rw [nil_mem_splitOn_iff, nil_mem_tail, parted_iff]
  cases l with
  | nil => simp
  | cons a l =>
    simp only [List.head?_cons, Option.mem_some_iff, exists_eq_left', reduceCtorEq, false_or, ne_eq,
      Option.some.injEq, not_and_or]

/-- Pieces that are not empty and hold no `x`, with one `x` between each two. -/
theorem parted_intercalate {ws : List (List α)} (h : ∀ w ∈ ws, w ≠ [] ∧ x ∉ w) :
    Parted x ([x].intercalate ws) := by
  by_cases hws : ws = []
  · subst hws
    exact parted_nil
  have hsplit := List.splitOn_intercalate x (fun w hw => (h w hw).2) hws
  by_contra hnot
  have hmem := (nil_mem_splitOn ([x].intercalate ws)).mpr (Or.inr hnot)
  rw [hsplit] at hmem
  exact (h [] hmem).1 rfl

end Pieces

end Lib.Separators
