import Mathlib.Data.List.Induction
import Mathlib.Algebra.Order.Group.Nat

/-!
# Lib.Trailing — the run of quiet items at the end of a list

`trailing loud l` counts the items behind the last loud one.  `EndsQuiet n` holds of a list that
has a loud item and then at least `n` quiet ones, `Ended n` once a list has come to such an end.
-/

namespace Lib.Trailing

variable {α : Type*} (loud : α → Bool)

/-- How many items behind the last loud one. -/
def trailing (l : List α) : ℕ := (l.reverse.takeWhile fun x => !loud x).length

/-- A loud item, and at least `n` quiet ones behind it to the end. -/
def EndsQuiet (n : ℕ) (l : List α) : Prop :=
  ∃ before x quiet, l = before ++ x :: quiet ∧ loud x = true ∧ (∀ y ∈ quiet, loud y = false) ∧
    n ≤ quiet.length

/-- Some prefix ends quiet. -/
def Ended (n : ℕ) (l : List α) : Prop := ∃ p, p <+: l ∧ EndsQuiet loud n p

variable {loud}

theorem trailing_concat (l : List α) (x : α) :
    trailing loud (l ++ [x]) = if loud x then 0 else trailing loud l + 1 := by
  rw [trailing, List.reverse_append, List.reverse_singleton, List.singleton_append,
    List.takeWhile_cons]
  cases hx : loud x with
  | true => rfl
  | false => rfl

/-- Everything from an item on is quiet when that item is in the run at the end, or behind it. -/
theorem forall_from_iff {l : List α} {i : ℕ} (hi : i ≤ l.length) :
    (∀ j, i ≤ j → ∀ x, l[j]? = some x → loud x = false) ↔ l.length - trailing loud l ≤ i := by
  induction l using List.reverseRecOn with
  | nil => simp
  | append_singleton l z ih =>
    rw [List.length_append, List.length_singleton] at hi ⊢
    rw [trailing_concat]
    rcases hi.lt_or_eq with hlt | rfl
    · have hlast : (l ++ [z])[l.length]? = some z := List.getElem?_concat_length
      cases hz : loud z with
      | true =>
        refine iff_of_false (fun h => ?_) (by simp; omega)
        rw [h l.length (by omega) z hlast] at hz
        cases hz
      | false =>
        have hcount : l.length + 1 - (trailing loud l + 1) = l.length - trailing loud l := by omega
        simp only [Bool.false_eq_true, if_false]
        rw [hcount, ← ih (by omega)]
        constructor
        · intro h j hij x hx
          have hj : j < l.length := (List.getElem?_eq_some_iff.mp hx).1
          exact h j hij x (by rw [List.getElem?_append_left hj, hx])
        · intro h j hij x hx
          rcases Nat.lt_or_ge j l.length with hj | hj
          · exact h j hij x (by rwa [List.getElem?_append_left hj] at hx)
          · rw [List.getElem?_append_right hj] at hx
            have hmem := List.mem_of_getElem? hx
            rwa [List.mem_singleton.mp hmem]
    · refine iff_of_true (fun j hj x hx => ?_) (by omega)
      have hlt := (List.getElem?_eq_some_iff.mp hx).1
      rw [List.length_append, List.length_singleton] at hlt
      omega

theorem trailing_append_cons (before : List α) {x : α} {quiet : List α} (hx : loud x = true)
    (hquiet : ∀ y ∈ quiet, loud y = false) :
    trailing loud (before ++ x :: quiet) = quiet.length := by
  have hall : ∀ y ∈ quiet.reverse, (!loud y) = true := fun y hy => by
    rw [hquiet y (List.mem_reverse.mp hy)]
    rfl
  rw [trailing, List.reverse_append, List.reverse_cons, List.append_assoc,
    List.takeWhile_append_of_pos hall, List.singleton_append, List.takeWhile_cons_of_neg (by simp [hx]),
    List.append_nil, List.length_reverse]

/-- A list with a loud item is cut at its last one. -/
theorem exists_last {l : List α} (h : ∃ x ∈ l, loud x = true) :
    ∃ before x quiet, l = before ++ x :: quiet ∧ loud x = true ∧ ∀ y ∈ quiet, loud y = false := by
  induction l using List.reverseRecOn with
  | nil => simp at h
  | append_singleton l z ih =>
    by_cases hz : loud z = true
    · exact ⟨l, z, [], rfl, hz, by simp⟩
    · have hl : ∃ x ∈ l, loud x = true := by
        obtain ⟨x, hx, hloud⟩ := h
        rcases List.mem_append.mp hx with hx | hx
        · exact ⟨x, hx, hloud⟩
        · exact absurd (List.mem_singleton.mp hx ▸ hloud) hz
      obtain ⟨before, x, quiet, rfl, hx, hquiet⟩ := ih hl
      refine ⟨before, x, quiet ++ [z], by simp, hx, fun y hy => ?_⟩
      rcases List.mem_append.mp hy with hy | hy
      · exact hquiet y hy
      · rw [List.mem_singleton.mp hy]
        exact Bool.eq_false_of_not_eq_true hz

theorem endsQuiet_iff {n : ℕ} {l : List α} :
    EndsQuiet loud n l ↔ (∃ x ∈ l, loud x = true) ∧ n ≤ trailing loud l := by
  constructor
  · rintro ⟨before, x, quiet, rfl, hx, hquiet, hn⟩
    exact ⟨⟨x, by simp, hx⟩, by rwa [trailing_append_cons before hx hquiet]⟩
  · rintro ⟨hex, hn⟩
    obtain ⟨before, x, quiet, rfl, hx, hquiet⟩ := exists_last hex
    exact ⟨before, x, quiet, rfl, hx, hquiet, by rwa [trailing_append_cons before hx hquiet] at hn⟩

theorem EndsQuiet.ended {n : ℕ} {l : List α} (h : EndsQuiet loud n l) : Ended loud n l :=
  ⟨l, List.prefix_rfl, h⟩

theorem Ended.mono {n : ℕ} {l m : List α} (h : Ended loud n l) (hp : l <+: m) : Ended loud n m := by
  obtain ⟨p, hpl, hq⟩ := h
  exact ⟨p, hpl.trans hp, hq⟩

theorem not_ended_nil (n : ℕ) : ¬ Ended loud n ([] : List α) := by
  rintro ⟨p, hp, before, x, quiet, rfl, -⟩
  simp at hp

/-- Ended at the last item, or before. -/
theorem ended_concat {n : ℕ} {l : List α} {x : α} :
    Ended loud n (l ++ [x]) ↔ Ended loud n l ∨ EndsQuiet loud n (l ++ [x]) := by
  constructor
  · rintro ⟨p, hp, hq⟩
    rcases List.prefix_concat_iff.mp hp with rfl | hp
    · exact .inr hq
    · exact .inl ⟨p, hp, hq⟩
  · rintro (h | h)
    · exact h.mono (List.prefix_append _ _)
    · exact h.ended

/-- **A list that has ended and does not end quiet** went on with a loud item, behind which the
run is too short again. -/
theorem ended_not_endsQuiet_iff {n : ℕ} {l : List α} :
    Ended loud n l ∧ ¬ EndsQuiet loud n l ↔
      ∃ before x quiet, l = before ++ x :: quiet ∧ Ended loud n before ∧ loud x = true ∧
        (∀ y ∈ quiet, loud y = false) ∧ quiet.length < n := by
  constructor
  · rintro ⟨⟨p, ⟨r, rfl⟩, hp⟩, hend⟩
    obtain ⟨⟨y, hy, hloud⟩, hlen⟩ := endsQuiet_iff.mp hp
    obtain ⟨before, x, quiet, hsplit, hx, hquiet⟩ :=
      exists_last ⟨y, List.mem_append_left r hy, hloud⟩
    have hshort : quiet.length < n := by
      by_contra hge
      exact hend ⟨before, x, quiet, hsplit, hx, hquiet, Nat.not_lt.mp hge⟩
    refine ⟨before, x, quiet, hsplit, ?_, hx, hquiet, hshort⟩
    rcases List.append_eq_append_iff.mp hsplit with ⟨m, hm, -⟩ | ⟨m, hm, hr⟩
    · exact ⟨p, ⟨m, hm.symm⟩, hp⟩
    · -- the quiet prefix reaches beyond the last loud item, so it is no longer than the rest
      cases m with
      | nil =>
        rw [List.append_nil] at hm
        exact ⟨p, hm ▸ List.prefix_rfl, hp⟩
      | cons z m =>
        rw [List.cons_append] at hr
        obtain ⟨rfl, hquiet'⟩ := List.cons.inj hr
        have hall : ∀ w ∈ m, loud w = false := fun w hw =>
          hquiet w (hquiet' ▸ List.mem_append_left _ hw)
        have hlong : quiet.length = m.length + r.length := by rw [hquiet', List.length_append]
        rw [hm, trailing_append_cons before hx hall] at hlen
        omega
  · rintro ⟨before, x, quiet, rfl, hend, hx, hquiet, hlt⟩
    refine ⟨hend.mono (List.prefix_append _ _), fun h => ?_⟩
    have hlen := (endsQuiet_iff.mp h).2
    rw [trailing_append_cons before hx hquiet] at hlen
    omega

end Lib.Trailing
