import Mathlib.Algebra.Order.Group.Nat
import Mathlib.Data.List.TakeWhile
import Mathlib.Order.Bounds.Basic

/-!
# Lib.Lines — the lines of a list, by position

A line starts at the front of a list and behind every separator but a last one; it goes up to the
next separator, or to the end.

* `find`: the first separator at a position or behind it.
* `IsLineFrom`: the first line that starts at a position or behind it, or else the first of all.
-/

namespace Lib.Lines

variable {α : Type*} (sep : α → Bool) (l : List α)

/-- The first separator at a position or behind it. -/
def find (start : ℕ) : Option ℕ := ((l.drop start).findIdx? sep).map (start + ·)

def StartsLine (p : ℕ) : Prop :=
  p < l.length ∧ (p = 0 ∨ ∃ c, l[p - 1]? = some c ∧ sep c = true)

/-- The line that starts at a position, without its separator. -/
def lineAt (p : ℕ) : List α := (l.drop p).takeWhile fun c => !sep c

def IsLineFrom (offset : ℕ) (line : List α) : Prop :=
  (∃ p, IsLeast {p | StartsLine sep l p ∧ offset ≤ p} p ∧ line = lineAt sep l p) ∨
    (∀ p, StartsLine sep l p → p < offset) ∧ line = lineAt sep l 0

variable {sep l}

theorem find_eq_some_iff {start p : ℕ} :
    find sep l start = some p ↔ start ≤ p ∧ (∃ c, l[p]? = some c ∧ sep c = true) ∧
      ∀ q, start ≤ q → q < p → ∀ c, l[q]? = some c → sep c = false := by
  rw [find, Option.map_eq_some_iff]
  constructor
  · rintro ⟨i, hi, rfl⟩
    obtain ⟨hlt, hsep, hbefore⟩ := List.findIdx?_eq_some_iff_getElem.mp hi
    refine ⟨Nat.le_add_right _ _, ⟨(l.drop start)[i], ?_, hsep⟩, fun q hq hqp c hc => ?_⟩
    · rw [← List.getElem?_drop, List.getElem?_eq_getElem hlt]
    · have hget : (l.drop start)[q - start]? = some c := by
        rw [List.getElem?_drop, ← hc]
        congr 1
        omega
      obtain ⟨hlt', rfl⟩ := List.getElem?_eq_some_iff.mp hget
      exact Bool.not_eq_true _ ▸ hbefore (q - start) (by omega)
  · rintro ⟨hle, ⟨c, hc, hsep⟩, hbefore⟩
    refine ⟨p - start, List.findIdx?_eq_some_iff_getElem.mpr ?_, by omega⟩
    have hget : (l.drop start)[p - start]? = some c := by
      rw [List.getElem?_drop, ← hc]
      congr 1
      omega
    obtain ⟨hlt, rfl⟩ := List.getElem?_eq_some_iff.mp hget
    refine ⟨hlt, hsep, fun j hj => ?_⟩
    rw [Bool.not_eq_true]
    refine hbefore (start + j) (by omega) (by omega) _ ?_
    rw [← List.getElem?_drop, List.getElem?_eq_getElem]

theorem find_eq_none_iff {start : ℕ} :
    find sep l start = none ↔ ∀ q, start ≤ q → ∀ c, l[q]? = some c → sep c = false := by
  rw [find, Option.map_eq_none_iff, List.findIdx?_eq_none_iff]
  constructor
  · intro h q hq c hc
    refine h c (List.mem_iff_getElem?.mpr ⟨q - start, ?_⟩)
    rw [List.getElem?_drop, ← hc]
    congr 1
    omega
  · intro h c hc
    obtain ⟨i, hi⟩ := List.mem_iff_getElem?.mp hc
    rw [List.getElem?_drop] at hi
    exact h _ (Nat.le_add_right _ _) c hi

theorem lt_length_of_find {start p : ℕ} (h : find sep l start = some p) : p < l.length := by
  obtain ⟨-, ⟨c, hc, -⟩, -⟩ := find_eq_some_iff.mp h
  exact (List.getElem?_eq_some_iff.mp hc).1

/-- A separator that is found stays the first one, whatever follows. -/
theorem find_append {r : List α} {start p : ℕ} (h : find sep l start = some p) :
    find sep (l ++ r) start = some p := by
  have hlt := lt_length_of_find h
  obtain ⟨hle, hsep, hbefore⟩ := find_eq_some_iff.mp h
  refine find_eq_some_iff.mpr ⟨hle, ?_, fun q hq hqp => ?_⟩
  · rwa [List.getElem?_append_left hlt]
  · rw [List.getElem?_append_left (hqp.trans hlt)]
    exact hbefore q hq hqp

/-- What lies behind a position is found from there. -/
theorem find_drop (n i : ℕ) : find sep l (n + i) = (find sep (l.drop n) i).map (n + ·) := by
  rw [find, find, Option.map_map, List.drop_drop]
  congr 1
  funext j
  exact Nat.add_assoc n i j

theorem lineAt_eq (p : ℕ) :
    lineAt sep l p = (l.drop p).take ((find sep l p).getD l.length - p) := by
  rw [lineAt]
  cases hfind : find sep l p with
  | none =>
    have hnone := find_eq_none_iff.mp hfind
    rw [Option.getD_none, ← List.length_drop, List.take_length, List.takeWhile_eq_self_iff]
    intro c hc
    obtain ⟨i, hi⟩ := List.mem_iff_getElem?.mp hc
    rw [List.getElem?_drop] at hi
    rw [hnone _ (Nat.le_add_right _ _) c hi]
    rfl
  | some q =>
    obtain ⟨i, hi, rfl⟩ := Option.map_eq_some_iff.mp hfind
    rw [Option.getD_some, Nat.add_sub_cancel_left, List.takeWhile_eq_take_findIdx_not]
    congr 1
    have hnot : (fun c => !!sep c) = sep := funext fun c => Bool.not_not (sep c)
    rw [hnot]
    exact (List.findIdx?_eq_some_iff_findIdx_eq.mp hi).2

/-! ## The first line from a position -/

variable {offset q : ℕ}

/-- Behind a separator that is found a line starts, if anything is there. -/
theorem isLeast_of_find (hoffset : 0 < offset) (h : find sep l (offset - 1) = some q)
    (hq : q + 1 < l.length) : IsLeast {p | StartsLine sep l p ∧ offset ≤ p} (q + 1) := by
  obtain ⟨hle, hsep, hbefore⟩ := find_eq_some_iff.mp h
  refine ⟨⟨⟨hq, Or.inr hsep⟩, by omega⟩, fun p hp => ?_⟩
  obtain ⟨⟨-, hp⟩, hfrom⟩ := hp
  rcases hp with rfl | ⟨c, hc, hsepc⟩
  · omega
  · by_contra hlt
    rw [hbefore (p - 1) (by omega) (by omega) c hc] at hsepc
    cases hsepc

/-- Where no separator is found but a last one, no line starts. -/
theorem lt_of_not_find (hoffset : 0 < offset)
    (h : ∀ q, find sep l (offset - 1) = some q → l.length ≤ q + 1) {p : ℕ}
    (hp : StartsLine sep l p) : p < offset := by
  obtain ⟨hlt, hp⟩ := hp
  rcases hp with rfl | ⟨c, hc, hsepc⟩
  · exact hoffset
  · by_contra hle
    cases hfind : find sep l (offset - 1) with
    | none =>
      rw [find_eq_none_iff.mp hfind (p - 1) (by omega) c hc] at hsepc
      cases hsepc
    | some q =>
      have hend := h q hfind
      obtain ⟨-, -, hbefore⟩ := find_eq_some_iff.mp hfind
      rw [hbefore (p - 1) (by omega) (by omega) c hc] at hsepc
      cases hsepc

theorem isLeast_zero (hl : l ≠ []) : IsLeast {p | StartsLine sep l p ∧ 0 ≤ p} 0 :=
  ⟨⟨⟨List.length_pos_iff.mpr hl, Or.inl rfl⟩, le_rfl⟩, fun p _ => Nat.zero_le p⟩

/-- There is one such line. -/
theorem IsLineFrom.unique {line line' : List α} (h : IsLineFrom sep l offset line)
    (h' : IsLineFrom sep l offset line') : line = line' := by
  rcases h with ⟨p, hp, rfl⟩ | ⟨hnone, rfl⟩
  · rcases h' with ⟨p', hp', rfl⟩ | ⟨hnone', -⟩
    · rw [hp.unique hp']
    · exact absurd (hnone' p hp.1.1) (not_lt.mpr hp.1.2)
  · rcases h' with ⟨p', hp', -⟩ | ⟨-, rfl⟩
    · exact absurd (hnone p' hp'.1.1) (not_lt.mpr hp'.1.2)
    · rfl

end Lib.Lines
