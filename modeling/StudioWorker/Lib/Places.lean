import Mathlib.Data.List.Nodup

/-!
# Lib.Places — some of a list, with their places, and what is put back at them

* `mem_take_filter_zipIdx`: the first of a list that meet a condition, each with its place.
* `getElem?_foldl_set`: a list into which values are put at places, no place twice.
-/

namespace Lib.Places

variable {α β : Type*}

theorem mem_take_filter_zipIdx_from {p : α → Bool} {a : α} {k : ℕ} :
    ∀ {l : List α} {start n : ℕ},
      (a, k) ∈ ((l.zipIdx start).filter fun e => p e.1).take n ↔
        ∃ j, k = start + j ∧ l[j]? = some a ∧ p a = true ∧ (l.take j).countP p < n
  | [], start, n => by simp
  | b :: l, start, n => by
    have hsplit : (∃ j, k = start + j ∧ (b :: l)[j]? = some a ∧ p a = true ∧
        ((b :: l).take j).countP p < n) ↔
        (k = start ∧ b = a ∧ p a = true ∧ 0 < n) ∨
          ∃ j, k = start + 1 + j ∧ l[j]? = some a ∧ p a = true ∧
            ((b :: l.take j).countP p) < n := by
      constructor
      · rintro ⟨j, rfl, hget, hp, hlt⟩
        cases j with
        | zero => exact .inl ⟨rfl, Option.some.inj hget, hp, hlt⟩
        | succ j => exact .inr ⟨j, by omega, hget, hp, hlt⟩
      · rintro (⟨rfl, rfl, hp, hn⟩ | ⟨j, rfl, hget, hp, hlt⟩)
        · exact ⟨0, rfl, rfl, hp, hn⟩
        · exact ⟨j + 1, by omega, hget, hp, hlt⟩
    rw [hsplit, List.zipIdx_cons, List.filter_cons]
    by_cases hb : p b = true
    · rw [if_pos hb]
      cases n with
      | zero => simp
      | succ n =>
        rw [List.take_succ_cons, List.mem_cons, mem_take_filter_zipIdx_from]
        simp only [List.countP_cons_of_pos hb, Nat.add_lt_add_iff_right, Nat.zero_lt_succ, and_true]
        refine or_congr_left ?_
        rw [Prod.mk.injEq]
        constructor
        · rintro ⟨rfl, rfl⟩
          exact ⟨rfl, rfl, hb⟩
        · rintro ⟨rfl, rfl, -⟩
          exact ⟨rfl, rfl⟩
    · rw [if_neg hb, mem_take_filter_zipIdx_from]
      simp only [List.countP_cons_of_neg hb]
      refine (or_iff_right ?_).symm
      rintro ⟨-, rfl, hp, -⟩
      exact hb hp

theorem mem_take_filter_zipIdx {l : List α} {p : α → Bool} {a : α} {k n : ℕ} :
    (a, k) ∈ (l.zipIdx.filter fun e => p e.1).take n ↔
      l[k]? = some a ∧ p a = true ∧ (l.take k).countP p < n := by
  rw [mem_take_filter_zipIdx_from]
  constructor
  · rintro ⟨j, rfl, h⟩
    rwa [Nat.zero_add]
  · intro h
    exact ⟨k, (Nat.zero_add k).symm, h⟩

theorem nodup_places {l : List α} {p : α × ℕ → Bool} {n : ℕ} :
    (((l.zipIdx.filter p).take n).map (·.2)).Nodup := by
  have hsub : (((l.zipIdx.filter p).take n).map (·.2)).Sublist (l.zipIdx.map (·.2)) :=
    ((List.take_sublist _ _).trans List.filter_sublist).map _
  refine hsub.nodup ?_
  rw [List.zipIdx_map_snd]
  exact List.nodup_range'

variable {puts : List (ℕ × β)} {l : List β} {k : ℕ}

theorem length_foldl_set (puts : List (ℕ × β)) (l : List β) :
    (puts.foldl (fun l p => l.set p.1 p.2) l).length = l.length := by
  induction puts generalizing l with
  | nil => rfl
  | cons p puts ih => rw [List.foldl_cons, ih, List.length_set]

theorem getElem?_foldl_set_of_not_mem (h : k ∉ puts.map (·.1)) :
    (puts.foldl (fun l p => l.set p.1 p.2) l)[k]? = l[k]? := by
  induction puts generalizing l with
  | nil => rfl
  | cons p puts ih =>
    rw [List.map_cons, List.mem_cons, not_or] at h
    rw [List.foldl_cons, ih h.2, List.getElem?_set_ne (Ne.symm h.1)]

theorem getElem?_foldl_set {b : β} (hnd : (puts.map (·.1)).Nodup) (h : (k, b) ∈ puts)
    (hk : k < l.length) : (puts.foldl (fun l p => l.set p.1 p.2) l)[k]? = some b := by
  induction puts generalizing l with
  | nil => cases h
  | cons p puts ih =>
    rw [List.map_cons, List.nodup_cons] at hnd
    rw [List.foldl_cons]
    rcases List.mem_cons.mp h with rfl | h
    · rw [getElem?_foldl_set_of_not_mem hnd.1, List.getElem?_set_self hk]
    · exact ih hnd.2 h (by rwa [List.length_set])

end Lib.Places
