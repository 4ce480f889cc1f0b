import Mathlib.Data.List.Basic

/-!
# Lib.Greedy — keeping what fits with everything kept before it, up to a cap

`greedy fits cap kept l` goes through `l` and keeps an item when it fits with each one kept so far;
it ends once `cap` are kept.  `compatible` is about the pairs kept, `dropped` about what is not.
-/

namespace Lib.Greedy

variable {α β : Type*} (fits : α → α → Bool) (cap : ℕ)

def greedy (kept : List α) : List α → List α
  | [] => kept
  | x :: xs =>
    if kept.length = cap then kept
    else if kept.all fun k => fits k x then greedy (kept ++ [x]) xs
    else greedy kept xs

variable {fits cap} {kept : List α}

theorem greedy_cons_of_full (h : kept.length = cap) (x : α) (xs : List α) :
    greedy fits cap kept (x :: xs) = kept := by
  rw [greedy, if_pos h]

theorem greedy_cons_of_fits (h : kept.length ≠ cap) {x : α} (hx : ∀ k ∈ kept, fits k x = true)
    (xs : List α) : greedy fits cap kept (x :: xs) = greedy fits cap (kept ++ [x]) xs := by
  rw [greedy, if_neg h, if_pos (List.all_eq_true.mpr hx)]

theorem greedy_cons_of_not_fits (h : kept.length ≠ cap) {x : α}
    (hx : ¬ ∀ k ∈ kept, fits k x = true) (xs : List α) :
    greedy fits cap kept (x :: xs) = greedy fits cap kept xs := by
  rw [greedy, if_neg h, if_neg fun hall => hx (List.all_eq_true.mp hall)]

/-- What is kept stays, and what comes to it is a part of the list. -/
theorem greedy_eq_append (l kept : List α) :
    ∃ new, greedy fits cap kept l = kept ++ new ∧ new.Sublist l := by
  induction l generalizing kept with
  | nil => exact ⟨[], (List.append_nil kept).symm, List.Sublist.refl _⟩
  | cons x xs ih =>
    by_cases hfull : kept.length = cap
    · exact ⟨[], by rw [greedy_cons_of_full hfull, List.append_nil], List.nil_sublist _⟩
    · by_cases hx : ∀ k ∈ kept, fits k x = true
      · obtain ⟨new, hnew, hsub⟩ := ih (kept ++ [x])
        refine ⟨x :: new, ?_, hsub.cons_cons x⟩
        rw [greedy_cons_of_fits hfull hx, hnew, List.append_assoc, List.singleton_append]
      · obtain ⟨new, hnew, hsub⟩ := ih kept
        exact ⟨new, by rw [greedy_cons_of_not_fits hfull hx, hnew], hsub.cons x⟩

theorem greedy_sublist (l : List α) : (greedy fits cap [] l).Sublist l := by
  have happend : ∃ new, greedy fits cap [] l = [] ++ new ∧ new.Sublist l := greedy_eq_append l []
  obtain ⟨new, hnew, hsub⟩ := happend
  rwa [hnew, List.nil_append]

theorem mem_greedy_of_mem {k : α} (h : k ∈ kept) (l : List α) : k ∈ greedy fits cap kept l := by
  have happend : ∃ new, greedy fits cap kept l = kept ++ new ∧ new.Sublist l :=
    greedy_eq_append l kept
  obtain ⟨new, hnew, -⟩ := happend
  rw [hnew]
  exact List.mem_append_left new h

theorem length_greedy_le (l : List α) (h : kept.length ≤ cap) :
    (greedy fits cap kept l).length ≤ cap := by
  induction l generalizing kept with
  | nil => exact h
  | cons x xs ih =>
    by_cases hfull : kept.length = cap
    · rw [greedy_cons_of_full hfull]
      exact h
    · by_cases hx : ∀ k ∈ kept, fits k x = true
      · rw [greedy_cons_of_fits hfull hx]
        refine ih ?_
        rw [List.length_append, List.length_singleton]
        omega
      · rw [greedy_cons_of_not_fits hfull hx]
        exact ih h

/-- Of two that are kept, the earlier fits the later. -/
theorem compatible (l : List α) (h : kept.Pairwise fun a b => fits a b = true) :
    (greedy fits cap kept l).Pairwise fun a b => fits a b = true := by
  induction l generalizing kept with
  | nil => exact h
  | cons x xs ih =>
    by_cases hfull : kept.length = cap
    · rw [greedy_cons_of_full hfull]
      exact h
    · by_cases hx : ∀ k ∈ kept, fits k x = true
      · rw [greedy_cons_of_fits hfull hx]
        refine ih (List.pairwise_append.mpr ⟨h, List.pairwise_singleton _ _, ?_⟩)
        intro a ha b hb
        rw [List.mem_singleton.mp hb]
        exact hx a ha
      · rw [greedy_cons_of_not_fits hfull hx]
        exact ih h

/-- What is not kept does not fit one that is and comes before it, or everything that is kept
comes before it and the cap was reached. -/
theorem dropped {R : α → α → Prop} {l : List α} (hl : l.Pairwise R)
    (hkept : ∀ k ∈ kept, ∀ x ∈ l, R k x) {x : α} (hx : x ∈ l)
    (hnot : x ∉ greedy fits cap kept l) :
    (∃ k ∈ greedy fits cap kept l, R k x ∧ fits k x = false) ∨
      ((greedy fits cap kept l).length = cap ∧ ∀ k ∈ greedy fits cap kept l, R k x) := by
  induction l generalizing kept with
  | nil => cases hx
  | cons y ys ih =>
    obtain ⟨hy, hys⟩ := List.pairwise_cons.mp hl
    have hrest : ∀ k ∈ kept, ∀ z ∈ ys, R k z := fun k hk z hz =>
      hkept k hk z (List.mem_cons_of_mem y hz)
    by_cases hfull : kept.length = cap
    · rw [greedy_cons_of_full hfull]
      exact Or.inr ⟨hfull, fun k hk => hkept k hk x hx⟩
    · by_cases hfits : ∀ k ∈ kept, fits k y = true
      · rw [greedy_cons_of_fits hfull hfits] at hnot ⊢
        have hkept' : ∀ k ∈ kept ++ [y], ∀ z ∈ ys, R k z := by
          intro k hk z hz
          rcases List.mem_append.mp hk with hk | hk
          · exact hrest k hk z hz
          · rw [List.mem_singleton.mp hk]
            exact hy z hz
        rcases List.mem_cons.mp hx with rfl | hx
        · exact absurd (mem_greedy_of_mem (List.mem_append_right kept (List.mem_singleton_self x)) ys)
            hnot
        · exact ih hys hkept' hx hnot
      · rw [greedy_cons_of_not_fits hfull hfits] at hnot ⊢
        rcases List.mem_cons.mp hx with rfl | hx
        · obtain ⟨k, hk⟩ := not_forall.mp hfits
          obtain ⟨hk, hfit⟩ := not_forall.mp hk
          exact Or.inl ⟨k, mem_greedy_of_mem hk ys, hkept k hk x List.mem_cons_self,
            (Bool.not_eq_true _).mp hfit⟩
        · exact ih hys hrest hx hnot

/-- Items that carry something along are kept as they would be without it. -/
theorem map_greedy {fits : β → β → Bool} (f : α → β) (kept l : List α) :
    (greedy (fun a b => fits (f a) (f b)) cap kept l).map f =
      greedy fits cap (kept.map f) (l.map f) := by
  induction l generalizing kept with
  | nil => rfl
  | cons x xs ih =>
    rw [List.map_cons, greedy, greedy, List.length_map, List.all_map]
    split_ifs with hfull hfits hfits' hfits'
    · rfl
    · rw [ih, List.map_append]
      rfl
    · exact absurd hfits hfits'
    · exact absurd hfits' hfits
    · exact ih kept

end Lib.Greedy
