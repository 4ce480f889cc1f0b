import Mathlib.Data.List.DropRight
import Mathlib.Data.List.Infix
import Mathlib.Data.List.TakeWhile

/-!
# Lib.Trim — lists without the blanks at their ends

`trim p l` is `l` without what satisfies `p` at its front and at its back.
-/

namespace Lib.Trim

variable {α : Type*} {p : α → Bool}

/-- `l` without the blanks at either end. -/
def trim (p : α → Bool) (l : List α) : List α := (l.dropWhile p).rdropWhile p

/-- No blank at either end. -/
def Trimmed (p : α → Bool) (l : List α) : Prop :=
  l.dropWhile p = l ∧ l.rdropWhile p = l

/-! ## The front -/

theorem dropWhile_cons_of_not {a : α} (h : p a = false) (l : List α) :
    (a :: l).dropWhile p = a :: l := by
  rw [List.dropWhile_cons_of_neg (by rw [h]; exact Bool.false_ne_true)]

/-- What a list without blanks in front begins with has none either. -/
theorem dropWhile_of_prefix {l l' : List α} (h : l' <+: l) (hl : l.dropWhile p = l) :
    l'.dropWhile p = l' := by
  cases l' with
  | nil => rfl
  | cons a l' =>
    obtain ⟨r, rfl⟩ := h
    rw [List.cons_append] at hl
    cases ha : p a with
    | false => exact dropWhile_cons_of_not ha l'
    | true =>
      rw [List.dropWhile_cons_of_pos ha] at hl
      have hlen := (List.dropWhile_suffix (l := l' ++ r) p).length_le
      rw [hl, List.length_cons] at hlen
      omega

/-- Blanks in front do not count. -/
theorem trim_append_left {ws : List α} (h : ∀ a ∈ ws, p a = true) (l : List α) :
    trim p (ws ++ l) = trim p l := by
  rw [trim, List.dropWhile_append_of_pos h, trim]

theorem trim_dropWhile (l : List α) : trim p (l.dropWhile p) = trim p l := by
  rw [trim, List.dropWhile_idempotent, trim]

/-! ## The back -/

theorem rdropWhile_append (a b : List α) :
    (a ++ b).rdropWhile p = if b.rdropWhile p = [] then a.rdropWhile p else a ++ b.rdropWhile p := by
  induction b using List.reverseRecOn with
  | nil => simp
  | append_singleton b x ih =>
    rw [← List.append_assoc]
    cases hx : p x with
    | true =>
      rw [List.rdropWhile_concat_pos _ _ _ hx, List.rdropWhile_concat_pos _ _ _ hx, ih]
    | false =>
      have hneg : ¬ p x = true := by rw [hx]; exact Bool.false_ne_true
      rw [List.rdropWhile_concat_neg _ _ _ hneg, List.rdropWhile_concat_neg _ _ _ hneg,
        if_neg (by simp), List.append_assoc]

/-- What follows an element that is no blank keeps its own blanks only. -/
theorem rdropWhile_append_of_self {a : List α} (ha : a.rdropWhile p = a) (b : List α) :
    (a ++ b).rdropWhile p = a ++ b.rdropWhile p := by
  rw [rdropWhile_append]
  split_ifs with hb
  · rw [ha, hb, List.append_nil]
  · rfl

/-! ## Both ends -/

theorem trim_of_dropWhile {l : List α} (h : l.dropWhile p = l) : trim p l = l.rdropWhile p := by
  rw [trim, h]

theorem trim_isPrefix (l : List α) : trim p l <+: l.dropWhile p := List.rdropWhile_prefix _ _

theorem length_trim_le (l : List α) : (trim p l).length ≤ l.length :=
  (trim_isPrefix l).length_le.trans (List.dropWhile_suffix p).length_le

theorem trimmed_trim (l : List α) : Trimmed p (trim p l) where
  left := dropWhile_of_prefix (trim_isPrefix l) (List.dropWhile_idempotent _ _)
  right := List.rdropWhile_idempotent _ _

theorem Trimmed.trim_eq {l : List α} (h : Trimmed p l) : trim p l = l := by
  rw [trim, h.1, h.2]

@[simp] theorem trim_trim (l : List α) : trim p (trim p l) = trim p l := (trimmed_trim l).trim_eq

theorem trim_nil : trim p ([] : List α) = [] := rfl

/-- Blanks that end a list do not change what follows an element that is none. -/
theorem trim_append_of_self {a : List α} (ha : a.dropWhile p = a) (ha' : a.rdropWhile p = a)
    (hne : a ≠ []) (b : List α) : trim p (a ++ b) = a ++ b.rdropWhile p := by
  have hfront : (a ++ b).dropWhile p = a ++ b := by
    cases a with
    | nil => exact absurd rfl hne
    | cons x a =>
      cases hx : p x with
      | false => exact dropWhile_cons_of_not hx _
      | true =>
        rw [List.dropWhile_cons_of_pos hx] at ha
        have hlen := (List.dropWhile_suffix (l := a) p).length_le
        rw [ha, List.length_cons] at hlen
        omega
  rw [trim_of_dropWhile hfront, rdropWhile_append_of_self ha']

/-- A part without blanks at its ends keeps what precedes it from the blanks that follow. -/
theorem trim_around {b : List α} (hb : b.dropWhile p = b) (hb' : b.rdropWhile p = b) (hne : b ≠ [])
    (a c : List α) : ∃ x, x <:+ a ∧ trim p (a ++ b ++ c) = x ++ b ++ c.rdropWhile p := by
  induction a with
  | nil => exact ⟨[], List.suffix_rfl, trim_append_of_self hb hb' hne c⟩
  | cons y a ih =>
    cases hy : p y with
    | true =>
      obtain ⟨x, hx, heq⟩ := ih
      refine ⟨x, hx.trans (List.suffix_cons y a), ?_⟩
      rw [← heq]
      have hblank : ∀ z ∈ [y], p z = true := by simpa using hy
      exact trim_append_left hblank _
    | false =>
      refine ⟨y :: a, List.suffix_rfl, ?_⟩
      have hend : (y :: a ++ b).rdropWhile p = y :: a ++ b := by
        rw [rdropWhile_append, hb', if_neg hne]
      exact trim_append_of_self (dropWhile_cons_of_not hy _) hend (by simp) c

/-- The blanks at the back go first or last. -/
theorem trim_rdropWhile (l : List α) : trim p (l.rdropWhile p) = trim p l := by
  have hblank : ∀ a ∈ l.takeWhile p, p a = true := fun a ha => List.mem_takeWhile_imp ha
  have hrest : (l.dropWhile p).rdropWhile p = trim p l := rfl
  have hfront := (trimmed_trim (p := p) l).1
  have hback := (trimmed_trim (p := p) l).2
  conv_lhs => rw [← List.takeWhile_append_dropWhile (p := p) (l := l)]
  rw [rdropWhile_append, hrest]
  split_ifs with hnil
  · rw [List.rdropWhile_eq_nil_iff.mpr hblank, hnil, trim_nil]
  · rw [trim_append_left hblank, trim_trim]

theorem length_trim_le_rdropWhile (l : List α) : (trim p l).length ≤ (l.rdropWhile p).length := by
  rw [← trim_rdropWhile]
  exact length_trim_le _

/-! ## What is no blank -/

/-- Blanks go, and nothing else. -/
theorem filter_dropWhile (l : List α) :
    (l.dropWhile p).filter (fun a => !p a) = l.filter fun a => !p a := by
  have hblank : (l.takeWhile p).filter (fun a => !p a) = [] := by
    refine List.filter_eq_nil_iff.mpr fun a ha => ?_
    rw [List.mem_takeWhile_imp ha]
    decide
  conv_rhs => rw [← List.takeWhile_append_dropWhile (p := p) (l := l)]
  rw [List.filter_append, hblank, List.nil_append]

theorem filter_trim (l : List α) : (trim p l).filter (fun a => !p a) = l.filter fun a => !p a := by
  rw [trim, List.rdropWhile, List.filter_reverse, filter_dropWhile, List.filter_reverse,
    List.reverse_reverse, filter_dropWhile]

end Lib.Trim
