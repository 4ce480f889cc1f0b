import Mathlib.Algebra.Order.Field.Basic
import Mathlib.Tactic.Linarith
import Mathlib.Tactic.Ring

/-!
# Lib.Trapezoid — the area under a line through points

* `trapezoid`: the area under the line through points from left to right.
* `le_trapezoid`, `trapezoid_le`: it is between that of the lowest and that of the highest point.
* `thin`: of points whose abscissas fall, the first at each.
* `thin_spec`: what is left falls strictly, and ends with the first point at the last abscissa.
-/

namespace Lib.Trapezoid

section Area

variable {K : Type*} [Field K]

/-- The sum of the trapezoids between neighbours. -/
def trapezoid : List (K × K) → K
  | p :: q :: ps => (q.1 - p.1) * (q.2 + p.2) / 2 + trapezoid (q :: ps)
  | _ => 0

/-! ## Between the lowest and the highest -/

variable [LinearOrder K] [IsStrictOrderedRing K] {lo hi : K}

theorem mul_le_slice {a b x y : K} (hab : a < b) (hx : lo ≤ x) (hy : lo ≤ y) :
    lo * (b - a) ≤ (b - a) * (y + x) / 2 := by
  have hpos : 0 ≤ b - a := sub_nonneg.mpr hab.le
  have hmul := mul_le_mul_of_nonneg_left (add_le_add hy hx) hpos
  linarith [mul_comm lo (b - a), mul_add (b - a) lo lo]

theorem slice_le_mul {a b x y : K} (hab : a < b) (hx : x ≤ hi) (hy : y ≤ hi) :
    (b - a) * (y + x) / 2 ≤ hi * (b - a) := by
  have hpos : 0 ≤ b - a := sub_nonneg.mpr hab.le
  have hmul := mul_le_mul_of_nonneg_left (add_le_add hy hx) hpos
  linarith [mul_comm hi (b - a), mul_add (b - a) hi hi]

theorem le_trapezoid : ∀ {p : K × K} {ps : List (K × K)},
    (p :: ps).Pairwise (fun p q => p.1 < q.1) → (∀ q ∈ p :: ps, lo ≤ q.2) →
      lo * (((p :: ps).getLast (List.cons_ne_nil _ _)).1 - p.1) ≤ trapezoid (p :: ps)
  | p, [], _, _ => by
    rw [List.getLast_singleton, sub_self, mul_zero]
    exact le_rfl
  | p, q :: ps, hsorted, hlo => by
    have htail := le_trapezoid (List.pairwise_cons.mp hsorted).2
      fun r hr => hlo r (List.mem_cons_of_mem _ hr)
    have hhead := mul_le_slice ((List.pairwise_cons.mp hsorted).1 q List.mem_cons_self)
      (hlo p List.mem_cons_self) (hlo q (List.mem_cons_of_mem _ List.mem_cons_self))
    rw [List.getLast_cons (List.cons_ne_nil _ _), trapezoid]
    have hsum : ∀ z : K, lo * (z - p.1) = lo * (q.1 - p.1) + lo * (z - q.1) := fun z => by ring
    rw [hsum]
    exact add_le_add hhead htail

theorem trapezoid_le : ∀ {p : K × K} {ps : List (K × K)},
    (p :: ps).Pairwise (fun p q => p.1 < q.1) → (∀ q ∈ p :: ps, q.2 ≤ hi) →
      trapezoid (p :: ps) ≤ hi * (((p :: ps).getLast (List.cons_ne_nil _ _)).1 - p.1)
  | p, [], _, _ => by
    rw [List.getLast_singleton, sub_self, mul_zero]
    exact le_rfl
  | p, q :: ps, hsorted, hhi => by
    have htail := trapezoid_le (List.pairwise_cons.mp hsorted).2
      fun r hr => hhi r (List.mem_cons_of_mem _ hr)
    have hhead := slice_le_mul ((List.pairwise_cons.mp hsorted).1 q List.mem_cons_self)
      (hhi p List.mem_cons_self) (hhi q (List.mem_cons_of_mem _ List.mem_cons_self))
    rw [List.getLast_cons (List.cons_ne_nil _ _), trapezoid]
    have hsum : ∀ z : K, hi * (z - p.1) = hi * (q.1 - p.1) + hi * (z - q.1) := fun z => by ring
    rw [hsum]
    exact add_le_add hhead htail

/-- Points from right to left, over a stretch of which the first and the last are the ends. -/
theorem trapezoid_reverse_mem {p q : K × K} {ps : List (K × K)}
    (hsorted : (p :: ps ++ [q]).Pairwise fun p q => q.1 < p.1)
    (hlo : ∀ r ∈ p :: ps ++ [q], lo ≤ r.2) (hhi : ∀ r ∈ p :: ps ++ [q], r.2 ≤ hi) :
    lo * (p.1 - q.1) ≤ trapezoid (p :: ps ++ [q]).reverse ∧
      trapezoid (p :: ps ++ [q]).reverse ≤ hi * (p.1 - q.1) := by
  have hreverse : (p :: ps ++ [q]).reverse = q :: (ps.reverse ++ [p]) := by simp
  have hsorted' : (q :: (ps.reverse ++ [p])).Pairwise fun p q => p.1 < q.1 := by
    rw [← hreverse, List.pairwise_reverse]
    exact hsorted
  have hmem : ∀ r, r ∈ q :: (ps.reverse ++ [p]) → r ∈ p :: ps ++ [q] := fun r hr => by
    rw [← hreverse] at hr
    exact List.mem_reverse.mp hr
  have hlast : (q :: (ps.reverse ++ [p])).getLast (List.cons_ne_nil _ _) = p := by
    rw [List.getLast_cons (List.append_ne_nil_of_right_ne_nil _ (List.cons_ne_nil _ _)),
      List.getLast_concat]
  have hle := le_trapezoid hsorted' fun r hr => hlo r (hmem r hr)
  have hge := trapezoid_le hsorted' fun r hr => hhi r (hmem r hr)
  rw [hlast] at hle hge
  rw [hreverse]
  exact ⟨hle, hge⟩

end Area

/-! ## The first point at each abscissa -/

section Thin

variable {K V : Type*} [LinearOrder K]

/-- A point is added where its abscissa is new. -/
def add (kept : List (K × V)) (p : K × V) : List (K × V) :=
  match kept.getLast? with
  | some last => if p.1 ≠ last.1 then kept ++ [p] else kept
  | none => kept ++ [p]

def thin (kept ps : List (K × V)) : List (K × V) := ps.foldl add kept

/-- Points whose abscissas fall strictly, the last at `x`. -/
structure Falling (kept : List (K × V)) (last : K × V) : Prop where
  sorted : kept.Pairwise fun p q => q.1 < p.1
  last : kept.getLast? = some last

theorem Falling.le {kept : List (K × V)} {last : K × V} (h : Falling kept last) {p : K × V}
    (hp : p ∈ kept) : last.1 ≤ p.1 := by
  obtain ⟨front, rfl⟩ := List.getLast?_eq_some_iff.mp h.last
  rcases List.mem_append.mp hp with hp | hp
  · exact ((List.pairwise_append.mp h.sorted).2.2 p hp last (List.mem_singleton_self _)).le
  · rw [List.mem_singleton.mp hp]

theorem Falling.add {kept : List (K × V)} {last p : K × V} (h : Falling kept last)
    (hle : p.1 ≤ last.1) : Falling (add kept p) (if p.1 = last.1 then last else p) := by
  rw [Trapezoid.add, h.last]
  dsimp only
  by_cases heq : p.1 = last.1
  · rw [if_neg (not_not.mpr heq), if_pos heq]
    exact h
  · rw [if_pos heq, if_neg heq]
    refine ⟨List.pairwise_append.mpr ⟨h.sorted, List.pairwise_singleton _ _, ?_⟩,
      List.getLast?_concat⟩
    intro r hr s hs
    rw [List.mem_singleton.mp hs]
    exact lt_of_lt_of_le (lt_of_le_of_ne hle heq) (h.le hr)

theorem mem_of_mem_add {kept : List (K × V)} {p r : K × V} (h : r ∈ add kept p) :
    r ∈ kept ∨ r = p := by
  rw [add] at h
  have hconcat : r ∈ kept ++ [p] → r ∈ kept ∨ r = p := fun hr => by
    rcases List.mem_append.mp hr with hr | hr
    · exact .inl hr
    · exact .inr (List.mem_singleton.mp hr)
  split at h
  · split_ifs at h
    · exact hconcat h
    · exact .inl h
  · exact hconcat h

/-- What was kept stays in front. -/
theorem prefix_thin {ps : List (K × V)} : ∀ (kept : List (K × V)), kept <+: thin kept ps := by
  induction ps with
  | nil => exact fun _ => List.prefix_rfl
  | cons p ps ih =>
    intro kept
    refine List.IsPrefix.trans ?_ (ih (add kept p))
    rw [add]
    split
    · split_ifs
      · exact List.prefix_append _ _
      · exact List.prefix_rfl
    · exact List.prefix_append _ _

theorem thin_same {ps : List (K × V)} {last : K × V} : ∀ {kept : List (K × V)},
    Falling kept last → (∀ p ∈ ps, p.1 = last.1) → thin kept ps = kept := by
  induction ps with
  | nil => exact fun _ _ => rfl
  | cons p ps ih =>
    intro kept h hps
    have hadd : add kept p = kept := by
      rw [add, h.last]
      dsimp only
      rw [if_neg (not_not.mpr (hps p List.mem_cons_self))]
    show thin (add kept p) ps = kept
    rw [hadd]
    exact ih h fun q hq => hps q (List.mem_cons_of_mem _ hq)

/-- Of points whose abscissas do not rise the kept ones fall strictly; where `x` is the least of
them, the last kept is the first point at `x`. -/
theorem thin_spec {x : K} {ps rest : List (K × V)} {p : K × V} (hp : p.1 = x)
    (hrest : ∀ q ∈ rest, q.1 = x) :
    ∀ {kept : List (K × V)} {last : K × V}, Falling kept last → x < last.1 →
      (last :: ps).Pairwise (fun p q => q.1 ≤ p.1) → (∀ q ∈ ps, x < q.1) →
        Falling (thin kept (ps ++ p :: rest)) p ∧
          ∀ r ∈ thin kept (ps ++ p :: rest), r ∈ kept ∨ r ∈ ps ∨ r = p := by
  induction ps with
  | nil =>
    intro kept last h hlt _ _
    have hfall := h.add (hp ▸ hlt.le)
    rw [if_neg (by rw [hp]; exact hlt.ne)] at hfall
    show Falling (thin (add kept p) rest) p ∧ ∀ r ∈ thin (add kept p) rest, _
    rw [thin_same hfall fun q hq => (hrest q hq).trans hp.symm]
    refine ⟨hfall, fun r hr => ?_⟩
    rcases mem_of_mem_add hr with hr | hr
    · exact .inl hr
    · exact .inr (.inr hr)
  | cons q ps ih =>
    intro kept last h hlt hsorted hps
    have hq : q.1 ≤ last.1 := (List.pairwise_cons.mp hsorted).1 q List.mem_cons_self
    have hsorted' := (List.pairwise_cons.mp hsorted).2
    have hps' : ∀ r ∈ ps, x < r.1 := fun r hr => hps r (List.mem_cons_of_mem _ hr)
    have hrest : Falling (thin (add kept q) (ps ++ p :: rest)) p ∧
        ∀ r ∈ thin (add kept q) (ps ++ p :: rest), r ∈ add kept q ∨ r ∈ ps ∨ r = p := by
      have hfall := h.add hq
      by_cases heq : q.1 = last.1
      · rw [if_pos heq] at hfall
        refine ih hfall hlt (List.pairwise_cons.mpr ⟨fun r hr => ?_, ?_⟩) hps'
        · exact heq ▸ (List.pairwise_cons.mp hsorted').1 r hr
        · exact (List.pairwise_cons.mp hsorted').2
      · rw [if_neg heq] at hfall
        exact ih hfall (hps q List.mem_cons_self) hsorted' hps'
    refine ⟨hrest.1, fun r hr => ?_⟩
    rcases hrest.2 r hr with hr | hr | hr
    · rcases mem_of_mem_add hr with hr | rfl
      · exact .inl hr
      · exact .inr (.inl List.mem_cons_self)
    · exact .inr (.inl (List.mem_cons_of_mem _ hr))
    · exact .inr (.inr hr)

end Thin

end Lib.Trapezoid
