import Mathlib.Algebra.Order.Field.Basic
import Mathlib.Analysis.Real.Sqrt
import StudioWorker.Lib.Gaps

/-!
# Convert.Simplify — what a polyline keeps (`python/convert/recipe.py`)

The numbers are those of any ordered field, with its `hypot`; the theorem is about the reals.

* `rdp`: as in the source; a stack of stretches, each to be looked through once.
* `pending_rdpLoop`: the stretches on the stack are the gaps that are not within `epsilon` yet.
* `exists_rdp`: it ends, with a part of the points that has both ends and is near all the others.
-/

namespace StudioWorker.Convert

open Lib.Gaps

section Model

variable {F : Type} [Field F] [LinearOrder F] (hypot : F → F → F)

abbrev Point (F : Type) := F × F

/-- How far a point is from the line through two others, or from these when they coincide. -/
def lineDistance (p a b : Point F) : F :=
  let dx := b.1 - a.1
  let dy := b.2 - a.2
  let norm := hypot dx dy
  if norm = 0 then hypot (p.1 - a.1) (p.2 - a.2)
  else |dy * p.1 - dx * p.2 + b.1 * a.2 - b.2 * a.1| / norm

variable (points : List (Point F)) (epsilon : F)

def point (i : ℕ) : Point F := points.getD i (0, 0)

/-- The place that is farthest from the line through two others, and how far it is. -/
def farthest (first last : ℕ) : ℕ × F :=
  (List.range' (first + 1) (last - (first + 1))).foldl (fun best i =>
    let d := lineDistance hypot (point points i) (point points first) (point points last)
    if best.2 < d then (i, d) else best) (first, -1)

/-- `while stack`; `none` when that many passes do not empty it. -/
def rdpLoop : ℕ → List (ℕ × ℕ) → List Bool → Option (List Bool)
  | _, [], keep => some keep
  | 0, _ :: _, _ => none
  | fuel + 1, (first, last) :: stack, keep =>
    let (far, distance) := farthest hypot points first last
    if epsilon < distance then
      rdpLoop fuel ((far, last) :: (first, far) :: stack) (keep.set far true)
    else rdpLoop fuel stack keep

/-- `[point for point, kept in zip(points, keep) if kept]` -/
def select {α : Type} (points : List α) (keep : List Bool) : List α :=
  ((points.zip keep).filter (·.2)).map (·.1)

def rdp (fuel : ℕ) : Option (List (Point F)) :=
  if points.length < 3 then some points
  else
    let keep := ((List.replicate points.length false).set 0 true).set (points.length - 1) true
    (rdpLoop hypot points epsilon fuel [(0, points.length - 1)] keep).map (select points)

end Model

/-! ## One stretch -/

section Stretch

variable {F : Type} [Field F] [LinearOrder F] {hypot : F → F → F} {points : List (Point F)}

/-- Nothing between is farther than the farthest, which lies between as soon as it is any way
off. -/
theorem farthest_spec (hypot : F → F → F) (points : List (Point F)) (first last : ℕ) :
    (∀ i, first < i → i < last → lineDistance hypot (point points i) (point points first)
      (point points last) ≤ (farthest hypot points first last).2) ∧
    ((farthest hypot points first last).2 = -1 ∨
      first < (farthest hypot points first last).1 ∧
        (farthest hypot points first last).1 < last) := by
  have hscan : ∀ l : List ℕ, (∀ i ∈ l, first < i ∧ i < last) →
      let best := l.foldl (fun best i =>
        let d := lineDistance hypot (point points i) (point points first) (point points last)
        if best.2 < d then (i, d) else best) (first, (-1 : F))
      (∀ i ∈ l, lineDistance hypot (point points i) (point points first) (point points last) ≤
        best.2) ∧ (best.2 = -1 ∨ first < best.1 ∧ best.1 < last) := by
    intro l
    induction l using List.reverseRecOn with
    | nil => exact fun _ => ⟨fun i hi => absurd hi List.not_mem_nil, .inl rfl⟩
    | append_singleton l i ih =>
      intro hl
      obtain ⟨hle, hin⟩ := ih fun j hj => hl j (List.mem_append_left _ hj)
      simp only [List.foldl_append, List.foldl_cons, List.foldl_nil]
      split_ifs with hlt
      · refine ⟨fun j hj => ?_, .inr (hl i (List.mem_append_right _ (List.mem_singleton_self i)))⟩
        rcases List.mem_append.mp hj with hj | hj
        · exact (hle j hj).trans hlt.le
        · rw [List.mem_singleton.mp hj]
      · refine ⟨fun j hj => ?_, hin⟩
        rcases List.mem_append.mp hj with hj | hj
        · exact hle j hj
        · rw [List.mem_singleton.mp hj]
          exact not_lt.mp hlt
  have hrange : ∀ i, i ∈ List.range' (first + 1) (last - (first + 1)) ↔ first < i ∧ i < last := by
    intro i
    rw [List.mem_range'_1]
    omega
  obtain ⟨hle, hin⟩ := hscan _ fun i hi => (hrange i).mp hi
  exact ⟨fun i hi hi' => hle i ((hrange i).mpr ⟨hi, hi'⟩), hin⟩

/-! ## The stack -/

/-- Everything between two places is within `epsilon` of their line. -/
def Settled (hypot : F → F → F) (points : List (Point F)) (epsilon : F) (first last : ℕ) : Prop :=
  ∀ i, first < i → i < last →
    lineDistance hypot (point points i) (point points first) (point points last) ≤ epsilon

def kept (keep : List Bool) : Set ℕ := {i | keep[i]? = some true}

theorem kept_set {keep : List Bool} {m : ℕ} (hm : m < keep.length) :
    kept (keep.set m true) = insert m (kept keep) := by
  ext i
  show (keep.set m true)[i]? = some true ↔ i = m ∨ keep[i]? = some true
  by_cases him : i = m
  · subst him
    rw [List.getElem?_set_self hm]
    exact iff_of_true rfl (.inl rfl)
  · rw [List.getElem?_set_ne (Ne.symm him)]
    exact (or_iff_right him).symm

/-- The flags before the first pass. -/
theorem kept_ends {n : ℕ} (hn : 0 < n) :
    kept (((List.replicate n false).set 0 true).set (n - 1) true) = {0, n - 1} := by
  have hnone : kept (List.replicate n false) = ∅ := by
    ext i
    refine iff_of_false (fun h => ?_) (Set.notMem_empty i)
    have hmem := List.mem_of_getElem? h
    exact Bool.noConfusion (List.eq_of_mem_replicate hmem)
  rw [kept_set, kept_set, hnone, Set.pair_comm]
  · exact congrArg _ (insert_empty_eq 0)
  · rw [List.length_replicate]
    exact hn
  · rw [List.length_set, List.length_replicate]
    omega

/-- The one stretch there is at first. -/
theorem pending_ends (hypot : F → F → F) (points : List (Point F)) (epsilon : F) {n : ℕ}
    (hn : 1 < n) : Pending (Settled hypot points epsilon)
      (kept (((List.replicate n false).set 0 true).set (n - 1) true)) [(0, n - 1)] := by
  rw [kept_ends (by omega)]
  refine ⟨List.nodup_singleton _, fun p hp => ?_, fun a b h => .inl ?_⟩
  · rw [List.mem_singleton.mp hp]
    refine ⟨by dsimp only; omega, .inl rfl, .inr rfl, fun i hi hi' hmem => ?_⟩
    rcases hmem with rfl | rfl
    · exact lt_irrefl _ hi
    · exact lt_irrefl _ hi'
  · have hlt := h.lt
    rcases h.left with rfl | rfl
    · rcases h.right with rfl | rfl
      · exact absurd hlt (lt_irrefl _)
      · exact List.mem_singleton_self _
    · rcases h.right with rfl | rfl
      · exact absurd hlt (Nat.not_lt_zero _)
      · exact absurd hlt (lt_irrefl _)

/-- How many passes a stack takes at most. -/
def passes (stack : List (ℕ × ℕ)) : ℕ := (stack.map fun p => 2 * (p.2 - p.1) - 1).sum

/-- With passes enough the stack empties, and everything dropped is near what is kept around it. -/
theorem pending_rdpLoop [IsStrictOrderedRing F] {epsilon : F} (hepsilon : 0 ≤ epsilon)
    {stack : List (ℕ × ℕ)} {keep : List Bool}
    (h : Pending (Settled hypot points epsilon) (kept keep) stack) :
    ∃ keep', (∀ fuel, passes stack ≤ fuel →
        rdpLoop hypot points epsilon fuel stack keep = some keep') ∧
      keep'.length = keep.length ∧ kept keep ⊆ kept keep' ∧
      Pending (Settled hypot points epsilon) (kept keep') [] := by
  induction hn : passes stack using Nat.strong_induction_on generalizing stack keep with
  | _ n ih =>
    cases stack with
    | nil => exact ⟨keep, fun fuel _ => by rw [rdpLoop], rfl, subset_rfl, h⟩
    | cons p stack =>
      obtain ⟨first, last⟩ := p
      have hgap := h.gap (first, last) List.mem_cons_self
      have hlt : first < last := hgap.lt
      have hpasses : passes ((first, last) :: stack) = 2 * (last - first) - 1 + passes stack := rfl
      obtain ⟨hle, hin⟩ := farthest_spec hypot points first last
      by_cases hfar : epsilon < (farthest hypot points first last).2
      · have hbetween : first < (farthest hypot points first last).1 ∧
            (farthest hypot points first last).1 < last := by
          refine hin.resolve_left fun heq => ?_
          rw [heq] at hfar
          linarith
        have hlength : (farthest hypot points first last).1 < keep.length :=
          hbetween.2.trans (List.getElem?_eq_some_iff.mp hgap.right).1
        have hsplit := h.split hbetween.1 hbetween.2
        rw [← kept_set hlength] at hsplit
        have hless : passes (((farthest hypot points first last).1, last) ::
            (first, (farthest hypot points first last).1) :: stack) < n := by
          rw [← hn, hpasses, passes, List.map_cons, List.sum_cons, List.map_cons, List.sum_cons,
            passes]
          dsimp only
          omega
        obtain ⟨keep', hrun, hlen, hsub, hdone⟩ := ih _ hless hsplit rfl
        refine ⟨keep', fun fuel hfuel => ?_, ?_, ?_, hdone⟩
        · obtain ⟨fuel, rfl⟩ : ∃ k, fuel = k + 1 := ⟨fuel - 1, by omega⟩
          rw [rdpLoop]
          dsimp only
          rw [if_pos hfar]
          exact hrun fuel (by omega)
        · rw [hlen, List.length_set]
        · refine Set.Subset.trans ?_ hsub
          rw [kept_set hlength]
          exact Set.subset_insert _ _
      · have hsettled : Settled hypot points epsilon first last :=
          fun i hi hi' => (hle i hi hi').trans (not_lt.mp hfar)
        obtain ⟨keep', hrun, hlen, hsub, hdone⟩ := ih _ (by omega) (h.settle hsettled) rfl
        refine ⟨keep', fun fuel hfuel => ?_, hlen, hsub, hdone⟩
        obtain ⟨fuel, rfl⟩ : ∃ k, fuel = k + 1 := ⟨fuel - 1, by omega⟩
        rw [rdpLoop]
        dsimp only
        rw [if_neg hfar]
        exact hrun fuel (by omega)

end Stretch

/-! ## What is selected -/

section Select

variable {α : Type}

theorem select_sublist (points : List α) (keep : List Bool) :
    (select points keep).Sublist points := by
  induction points generalizing keep with
  | nil => exact List.Sublist.refl []
  | cons p points ih =>
    cases keep with
    | nil => exact List.nil_sublist _
    | cons b keep =>
      cases b with
      | true => exact (ih keep).cons_cons p
      | false => exact (ih keep).cons p

theorem select_all (points : List α) :
    select points (List.replicate points.length true) = points := by
  induction points with
  | nil => rfl
  | cons p points ih => exact congrArg (List.cons p) ih

theorem head?_select {points : List α} {keep : List Bool} (h : keep[0]? = some true) :
    (select points keep).head? = points.head? := by
  cases keep with
  | nil => cases h
  | cons b keep =>
    obtain rfl : b = true := Option.some_inj.mp h
    cases points with
    | nil => rfl
    | cons p points => rfl

theorem getLast?_select {points : List α} {keep : List Bool} (hlength : keep.length = points.length)
    (h : keep.getLast? = some true) : (select points keep).getLast? = points.getLast? := by
  obtain ⟨keep, rfl⟩ := List.getLast?_eq_some_iff.mp h
  cases points using List.reverseRecOn with
  | nil => simp at hlength
  | append_singleton points p =>
    rw [List.length_append, List.length_append, List.length_singleton, List.length_singleton,
      Nat.add_right_cancel_iff] at hlength
    rw [select, List.zip_append hlength.symm, List.filter_append, List.map_append]
    simp

end Select

/-! ## Points and lines of the plane -/

noncomputable def hypot (x y : ℝ) : ℝ := √(x ^ 2 + y ^ 2)

/-- Some point of the line through `a` and `b` (there is only one when they coincide) is within
`epsilon` of `p`. -/
def Near (epsilon : ℝ) (p a b : Point ℝ) : Prop :=
  ∃ t, hypot (p.1 - (a.1 + t * (b.1 - a.1))) (p.2 - (a.2 + t * (b.2 - a.2))) ≤ epsilon

theorem near_of_lineDistance_le {epsilon : ℝ} {p a b : Point ℝ}
    (h : lineDistance hypot p a b ≤ epsilon) : Near epsilon p a b := by
  obtain ⟨px, py⟩ := p
  obtain ⟨ax, ay⟩ := a
  obtain ⟨bx, by'⟩ := b
  dsimp only [lineDistance, Near] at h ⊢
  have hsum : 0 ≤ (bx - ax) ^ 2 + (by' - ay) ^ 2 := by positivity
  split_ifs at h with hzero
  · refine ⟨0, ?_⟩
    simpa using h
  · -- the foot of the perpendicular
    have hnorm : hypot (bx - ax) (by' - ay) ^ 2 = (bx - ax) ^ 2 + (by' - ay) ^ 2 :=
      Real.sq_sqrt hsum
    have hpos : 0 < (bx - ax) ^ 2 + (by' - ay) ^ 2 := by
      rw [← hnorm]
      exact pow_pos (lt_of_le_of_ne (Real.sqrt_nonneg _) (Ne.symm hzero)) 2
    refine ⟨((px - ax) * (bx - ax) + (py - ay) * (by' - ay)) /
      ((bx - ax) ^ 2 + (by' - ay) ^ 2), le_of_eq_of_le ?_ h⟩
    rw [hypot]
    have hdist : 0 ≤ |(by' - ay) * px - (bx - ax) * py + bx * ay - by' * ax| /
        hypot (bx - ax) (by' - ay) := div_nonneg (abs_nonneg _) (Real.sqrt_nonneg _)
    rw [← Real.sqrt_sq hdist, div_pow, sq_abs, hnorm]
    congr 1
    field_simp
    ring

/-- It ends, and what it leaves out is near the line through what it keeps around it. -/
theorem exists_rdp (points : List (Point ℝ)) {epsilon : ℝ} (hepsilon : 0 ≤ epsilon) :
    ∃ keep : List Bool, keep.length = points.length ∧
      (∀ fuel, 2 * points.length ≤ fuel →
        rdp hypot points epsilon fuel = some (select points keep)) ∧
      (select points keep).Sublist points ∧
      (select points keep).head? = points.head? ∧
      (select points keep).getLast? = points.getLast? ∧
      ∀ (i : ℕ) (h : i < points.length), i ∉ kept keep → ∃ first last,
        Gap (kept keep) first last ∧ first < i ∧ i < last ∧
        Near epsilon points[i] (point points first) (point points last) := by
  by_cases hfew : points.length < 3
  · have hall : select points (List.replicate points.length true) = points := select_all points
    refine ⟨List.replicate points.length true, List.length_replicate, fun fuel _ => ?_,
      select_sublist _ _, by rw [hall], by rw [hall], fun i hi hdropped => ?_⟩
    · rw [rdp, if_pos hfew, hall]
    · exact absurd (List.getElem?_replicate_of_lt hi) hdropped
  · have hmany : 1 < points.length := by omega
    obtain ⟨keep, hrun, hlength, hends, hdone⟩ :=
      pending_rdpLoop hepsilon (pending_ends hypot points epsilon hmany)
    have hlen : keep.length = points.length := by
      rw [hlength, List.length_set, List.length_set, List.length_replicate]
    rw [kept_ends (by omega)] at hends
    have hfirst : 0 ∈ kept keep := hends (.inl rfl)
    have hend : points.length - 1 ∈ kept keep := hends (.inr rfl)
    refine ⟨keep, hlen, fun fuel hfuel => ?_, select_sublist _ _, head?_select hfirst,
      getLast?_select hlen ?_, fun i hi hdropped => ?_⟩
    · rw [rdp, if_neg hfew]
      dsimp only
      rw [hrun fuel ?_, Option.map_some]
      show 2 * (points.length - 1 - 0) - 1 + 0 ≤ fuel
      omega
    · rw [List.getLast?_eq_getElem?, hlen]
      exact hend
    · obtain ⟨first, last, hgap, hlo, hhi⟩ :=
        exists_gap hfirst hend (Nat.zero_le i) (by omega) hdropped
      refine ⟨first, last, hgap, hlo, hhi, near_of_lineDistance_le ?_⟩
      have hsettled := (hdone.rest first last hgap).resolve_left List.not_mem_nil
      have hpoint : point points i = points[i] := by
        rw [point, List.getD_eq_getElem?_getD, List.getElem?_eq_getElem hi, Option.getD_some]
      exact hpoint ▸ hsettled i hlo hhi

/-- Three points, the middle one a unit off the line. -/
theorem exists_rdp_line :
    (0 : ℝ) ≤ 2 ∧ ∃ keep : List Bool, keep.length = 3 ∧
      rdp hypot [(0, 0), (5, 1), (10, 0)] 2 6 = some (select [(0, 0), (5, 1), (10, 0)] keep) ∧
      (select [(0, 0), (5, 1), (10, 0)] keep).head? = some ((0, 0) : Point ℝ) := by
  obtain ⟨keep, hlength, hrun, -, hhead, -⟩ :=
    exists_rdp [(0, 0), (5, 1), (10, 0)] (zero_le_two : (0 : ℝ) ≤ 2)
  exact ⟨zero_le_two, keep, hlength, hrun 6 le_rfl, hhead⟩

end StudioWorker.Convert
