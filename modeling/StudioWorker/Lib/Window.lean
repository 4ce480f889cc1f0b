import Mathlib.Data.List.TakeWhile
import Mathlib.Data.List.Nodup

/-!
# Lib.Window — windows on a growing list, and what a reader of them has yet to see

A list grows at its end; `slice l a b` is what lies between two places of it.  A reader who sees
windows, newest item first, remembers the key of the last item it took (`fresh` is what is newer).

* `fresh_slice`: what is fresh in a window.
* `Caught`: what the reader has taken, once each and in order, and from where on it has taken all.
* `Caught.take`: it stays so when the reader takes what is fresh in a window further on.
-/

namespace Lib.Window

variable {α κ : Type*}

def slice (l : List α) (a b : ℕ) : List α := (l.take b).drop a

theorem slice_append {l : List α} {b : ℕ} (h : b ≤ l.length) (a : ℕ) (m : List α) :
    slice (l ++ m) a b = slice l a b := by
  rw [slice, List.take_append_of_le_length h, slice]

theorem slice_split {a c b : ℕ} (hac : a ≤ c) (hcb : c ≤ b) (l : List α) :
    slice l a b = slice l a c ++ slice l c b := by
  rcases Nat.le_total c l.length with hc | hc
  · have hlen : (l.take c).length = c := by
      rw [List.length_take]
      omega
    have htake : l.take b = l.take c ++ slice l c b := by
      have h := (List.take_append_drop c (l.take b)).symm
      rwa [List.take_take, Nat.min_eq_left hcb] at h
    rw [slice, htake, List.drop_append_of_le_length (by omega), ← slice]
  · have hnil : slice l c b = [] := by
      rw [slice, List.drop_eq_nil_iff, List.length_take]
      omega
    rw [hnil, List.append_nil, slice, slice, List.take_of_length_le (by omega),
      List.take_of_length_le hc]

theorem slice_self (l : List α) (a : ℕ) : slice l a a = [] := by
  rw [slice, List.drop_eq_nil_iff, List.length_take]
  omega

theorem slice_zero (l : List α) (b : ℕ) : slice l 0 b = l.take b := rfl

theorem slice_length (l : List α) (a : ℕ) : slice l a l.length = l.drop a := by
  rw [slice, List.take_length]

theorem mem_slice_mono {l : List α} {a a' b : ℕ} (h : a ≤ a') {x : α} (hx : x ∈ slice l a' b) :
    x ∈ slice l a b := by
  rw [slice, show a' = a + (a' - a) by omega, ← List.drop_drop] at hx
  exact List.mem_of_mem_drop hx

/-- The key of the last item before a place. -/
def markAt (key : α → κ) (l : List α) (c : ℕ) : Option κ := (l.take c).getLast?.map key

variable {key : α → κ}

theorem markAt_append {l : List α} {c : ℕ} (h : c ≤ l.length) (m : List α) :
    markAt key (l ++ m) c = markAt key l c := by
  rw [markAt, List.take_append_of_le_length h, markAt]

/-- An item at the mark or after it is not the marked one. -/
theorem ne_mark {l : List α} (hnodup : (l.map key).Nodup) {c b : ℕ} {x : α}
    (hx : x ∈ slice l c b) : markAt key l c ≠ some (key x) := by
  intro hmark
  obtain ⟨y, hy, hkey⟩ := Option.map_eq_some_iff.mp hmark
  have hfront : key y ∈ (l.take c).map key :=
    List.mem_map_of_mem (List.mem_of_getLast? hy)
  have hback : key x ∈ (l.drop c).map key := by
    rw [slice, List.drop_take] at hx
    exact List.mem_map_of_mem (List.mem_of_mem_take hx)
  rw [← List.take_append_drop c l, List.map_append] at hnodup
  exact List.disjoint_of_nodup_append hnodup (hkey ▸ hfront) hback

/-- What is newer than the marked item, of a window with the newest item in front. -/
def fresh [DecidableEq κ] (key : α → κ) (mark : Option κ) (ring : List α) : List α :=
  ring.takeWhile fun x => decide (mark ≠ some (key x))

/-- The marked item ends the walk, where it is in the window at all. -/
theorem fresh_slice [DecidableEq κ] {l : List α} (hnodup : (l.map key).Nodup) {a b c : ℕ} (hc : c ≤ b)
    (hb : b ≤ l.length) :
    fresh key (markAt key l c) (slice l a b).reverse = (slice l (max a c) b).reverse := by
  have hall : ∀ x ∈ (slice l (max a c) b).reverse,
      decide (markAt key l c ≠ some (key x)) = true := by
    intro x hx
    exact decide_eq_true (ne_mark hnodup (mem_slice_mono (le_max_right a c) (List.mem_reverse.mp hx)))
  rcases Nat.lt_or_ge a c with hac | hca
  · rw [Nat.max_eq_right hac.le] at hall ⊢
    obtain ⟨x, hx⟩ : ∃ x, slice l (c - 1) c = [x] := by
      have hlt : c - 1 < l.length := by omega
      rw [slice, List.drop_take, show c - (c - 1) = 1 by omega, List.drop_eq_getElem_cons hlt]
      exact ⟨_, rfl⟩
    have hmark : markAt key l c = some (key x) := by
      have htake : l.take c = l.take (c - 1) ++ [x] := by
        rw [← hx, ← slice_zero, ← slice_zero, ← slice_split (Nat.zero_le _) (Nat.sub_le c 1)]
      rw [markAt, htake, List.getLast?_append]
      rfl
    rw [slice_split hac.le hc, slice_split (show a ≤ c - 1 by omega) (Nat.sub_le c 1), hx,
      List.reverse_append, fresh, List.takeWhile_append_of_pos hall, List.reverse_append,
      List.reverse_singleton, List.singleton_append, List.takeWhile_cons_of_neg (by simp [hmark]),
      List.append_nil]
  · rw [Nat.max_eq_left hca] at hall ⊢
    exact List.takeWhile_eq_self_iff.mpr hall

/-! ## A reader -/

/-- The reader has taken `taken` of a list up to `c`, in order, and all of it from `low` on. -/
structure Caught (key : α → κ) (l taken : List α) (mark : Option κ) (low c : ℕ) : Prop where
  mark_eq : mark = markAt key l c
  sublist : taken.Sublist (l.take c)
  all : ∀ x ∈ slice l low c, x ∈ taken
  le : c ≤ l.length

variable {l taken : List α} {mark : Option κ} {low c : ℕ}

theorem Caught.nil : Caught key l [] none 0 0 :=
  ⟨rfl, List.nil_sublist _, fun x hx => by simp [slice] at hx, Nat.zero_le _⟩

theorem Caught.append (h : Caught key l taken mark low c) (m : List α) :
    Caught key (l ++ m) taken mark low c :=
  ⟨h.mark_eq.trans (markAt_append h.le m).symm, by
    rw [List.take_append_of_le_length h.le]
    exact h.sublist, fun x hx => h.all x (slice_append h.le low m ▸ hx),
    h.le.trans (by simp)⟩

/-- The mark after a window was read. -/
def remark [DecidableEq κ] (key : α → κ) (mark : Option κ) (ring : List α) : Option κ :=
  match fresh key mark ring with
  | [] => mark
  | x :: _ => some (key x)

theorem Caught.take [DecidableEq κ] (h : Caught key l taken mark low c) (hnodup : (l.map key).Nodup) {a b : ℕ}
    (hlow : low ≤ a) (hab : a < b) (hc : c ≤ b) (hb : b ≤ l.length) :
    Caught key l (taken ++ (fresh key mark (slice l a b).reverse).reverse)
      (remark key mark (slice l a b).reverse) a b := by
  have hfresh := h.mark_eq ▸ fresh_slice hnodup (a := a) hc hb
  refine ⟨?_, ?_, fun x hx => ?_, hb⟩
  · rw [remark, hfresh]
    rcases Nat.lt_or_ge (max a c) b with hlt | hge
    · have htake : l.take b = l.take (max a c) ++ slice l (max a c) b := by
        rw [← slice_zero, ← slice_zero, ← slice_split (Nat.zero_le _) hlt.le]
      have hne : slice l (max a c) b ≠ [] := by
        intro hnil
        have hlen := congrArg List.length hnil
        rw [slice, List.length_drop, List.length_take, List.length_nil] at hlen
        omega
      rw [markAt, htake, List.getLast?_append]
      cases hrev : (slice l (max a c) b).reverse with
      | nil => exact absurd (List.reverse_eq_nil_iff.mp hrev) hne
      | cons x rest =>
        rw [← List.reverse_reverse (slice l (max a c) b), hrev, List.getLast?_reverse]
        rfl
    · obtain rfl : c = b := by omega
      rw [show max a c = c by omega, slice_self]
      exact h.mark_eq
  · rw [hfresh, List.reverse_reverse]
    have htake : l.take b = l.take c ++ slice l c b := by
      rw [← slice_zero, ← slice_zero, ← slice_split (Nat.zero_le _) hc]
    rw [htake]
    refine h.sublist.append ?_
    rcases Nat.le_total a c with hac | hca
    · rw [Nat.max_eq_right hac]
    · rw [Nat.max_eq_left hca, slice_split hca hab.le]
      exact List.sublist_append_right _ _
  · rw [hfresh, List.reverse_reverse, List.mem_append]
    rcases Nat.le_total a c with hac | hca
    · rw [slice_split hac hc, List.mem_append] at hx
      rw [Nat.max_eq_right hac]
      exact hx.imp_left fun hx => h.all x (mem_slice_mono hlow hx)
    · rw [Nat.max_eq_left hca]
      exact .inr hx

end Lib.Window
