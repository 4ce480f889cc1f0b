import Mathlib.Algebra.Order.Ring.Rat
import StudioWorker.Lib.Greedy

/-!
# Engine.Detection — a detector's boxes (`src/engine/vision/postprocess.rs`)

A candidate's numbers are of any type; suppression is over exact rationals.

* `Candidate.iou`, `suppress`: as in the source.
* `Candidate.checkedIou`: the same with a division that fails at zero.
* `suppress_spec`: which candidates are kept, and why each of the others is not.
-/

namespace StudioWorker.Vision

def maxDetections : ℕ := 300

/-- A box in the network's input coordinates, before suppression. -/
structure Candidate (F : Type*) where
  x0 : F
  y0 : F
  x1 : F
  y1 : F
  score : F
  cls : ℕ
deriving DecidableEq, Repr

def Candidate.area (c : Candidate ℚ) : ℚ := max (c.x1 - c.x0) 0 * max (c.y1 - c.y0) 0

/-- The overlap of two boxes, and what they cover together. -/
def Candidate.overlap (c other : Candidate ℚ) : ℚ × ℚ :=
  let w := max (min c.x1 other.x1 - max c.x0 other.x0) 0
  let h := max (min c.y1 other.y1 - max c.y0 other.y0) 0
  let inter := w * h
  (inter, c.area + other.area - inter)

/-- Intersection over union. -/
def Candidate.iou (c other : Candidate ℚ) : ℚ :=
  let (inter, union) := c.overlap other
  if union ≤ 0 then 0 else inter / union

/-- A division that has no result at zero. -/
def checkedDiv (a b : ℚ) : Option ℚ := if b = 0 then none else some (a / b)

def Candidate.checkedIou (c other : Candidate ℚ) : Option ℚ :=
  let (inter, union) := c.overlap other
  if union ≤ 0 then some 0 else checkedDiv inter union

/-- Where the loop of `suppress` goes on, with what it has kept. -/
def suppressFrom (iou : ℚ) (kept : List (Candidate ℚ)) : List (Candidate ℚ) → List (Candidate ℚ)
  | [] => kept
  | c :: cs =>
    if kept.length = maxDetections then kept
    else if kept.all fun k => k.cls != c.cls || k.iou c ≤ iou then suppressFrom iou (kept ++ [c]) cs
    else suppressFrom iou kept cs

/-- The order `suppress` sorts by: the strongest first. -/
def strongerOrEqual (a b : Candidate ℚ) : Bool := b.score ≤ a.score

def suppress (candidates : List (Candidate ℚ)) (iou : ℚ) : List (Candidate ℚ) :=
  suppressFrom iou [] (candidates.mergeSort strongerOrEqual)

/-! ## Intersection over union -/

theorem overlap_comm (c other : Candidate ℚ) : c.overlap other = other.overlap c := by
  simp only [Candidate.overlap]
  rw [min_comm c.x1, max_comm c.x0, min_comm c.y1, max_comm c.y0, add_comm c.area]

theorem iou_comm (c other : Candidate ℚ) : c.iou other = other.iou c := by
  rw [Candidate.iou, Candidate.iou, overlap_comm]

/-- It never divides by zero. -/
theorem checkedIou_eq (c other : Candidate ℚ) : c.checkedIou other = some (c.iou other) := by
  simp only [Candidate.checkedIou, Candidate.iou]
  split_ifs with hunion
  · rfl
  · rw [checkedDiv, if_neg (fun hzero => hunion hzero.le)]

/-! ## Suppression -/

/-- Two boxes are kept together. -/
def fits (iou : ℚ) (k c : Candidate ℚ) : Bool := k.cls != c.cls || k.iou c ≤ iou

theorem fits_iff {iou : ℚ} {k c : Candidate ℚ} :
    fits iou k c = true ↔ (k.cls = c.cls → k.iou c ≤ iou) := by
  rw [fits, Bool.or_eq_true, bne_iff_ne, decide_eq_true_eq]
  exact imp_iff_not_or.symm

theorem fits_eq_false_iff {iou : ℚ} {k c : Candidate ℚ} :
    fits iou k c = false ↔ k.cls = c.cls ∧ iou < k.iou c := by
  rw [← Bool.not_eq_true, fits_iff, Classical.not_imp, not_le]

theorem suppressFrom_eq_greedy (iou : ℚ) (kept cs : List (Candidate ℚ)) :
    suppressFrom iou kept cs = Lib.Greedy.greedy (fits iou) maxDetections kept cs := by
  induction cs generalizing kept with
  | nil => rfl
  | cons c cs ih =>
    rw [suppressFrom, Lib.Greedy.greedy, ih, ih]
    rfl

/-- The sorted candidates, each with its place in the list. -/
def ranked (candidates : List (Candidate ℚ)) : List (Candidate ℚ × ℕ) :=
  candidates.zipIdx.mergeSort (List.zipIdxLE strongerOrEqual)

/-- The first is stronger, or as strong and before it in the list. -/
def Before (a b : Candidate ℚ × ℕ) : Prop :=
  b.1.score < a.1.score ∨ b.1.score = a.1.score ∧ a.2 < b.2

theorem Before.score_le {a b : Candidate ℚ × ℕ} (h : Before a b) : b.1.score ≤ a.1.score :=
  h.elim le_of_lt fun htie => htie.1.le

theorem mem_ranked {candidates : List (Candidate ℚ)} {p : Candidate ℚ × ℕ} :
    p ∈ ranked candidates ↔ candidates[p.2]? = some p.1 := by
  rw [ranked, List.mem_mergeSort, List.mem_zipIdx_iff_getElem?]

theorem nodup_places (candidates : List (Candidate ℚ)) :
    ((ranked candidates).map Prod.snd).Nodup := by
  have hperm := (List.mergeSort_perm candidates.zipIdx (List.zipIdxLE strongerOrEqual)).map Prod.snd
  refine hperm.nodup_iff.mpr ?_
  rw [List.zipIdx_map_snd]
  exact List.nodup_range'

theorem before_of_zipIdxLE {a b : Candidate ℚ × ℕ} (hle : List.zipIdxLE strongerOrEqual a b = true)
    (hne : a.2 ≠ b.2) : Before a b := by
  simp only [List.zipIdxLE, strongerOrEqual, decide_eq_true_eq] at hle
  split_ifs at hle with hstronger htie
  · exact Or.inr ⟨le_antisymm hstronger htie, lt_of_le_of_ne (of_decide_eq_true hle) hne⟩
  · exact Or.inl (not_le.mp htie)

theorem ranked_pairwise (candidates : List (Candidate ℚ)) :
    (ranked candidates).Pairwise Before := by
  have htrans : ∀ a b c : Candidate ℚ, strongerOrEqual a b = true → strongerOrEqual b c = true →
      strongerOrEqual a c = true := by
    intro a b c hab hbc
    exact decide_eq_true ((of_decide_eq_true hbc).trans (of_decide_eq_true hab))
  have htotal : ∀ a b : Candidate ℚ, (strongerOrEqual a b || strongerOrEqual b a) = true := by
    intro a b
    rw [Bool.or_eq_true, strongerOrEqual, strongerOrEqual, decide_eq_true_eq, decide_eq_true_eq]
    exact le_total b.score a.score
  have hsorted := List.pairwise_mergeSort (List.zipIdxLE_trans htrans) (List.zipIdxLE_total htotal)
    candidates.zipIdx
  have hplaces := List.pairwise_map.mp (nodup_places candidates)
  exact hsorted.imp₂ (fun _ _ hle hne => before_of_zipIdxLE hle hne) hplaces

/-- The kept candidates, each with its place in the list. -/
def keptPlaces (candidates : List (Candidate ℚ)) (iou : ℚ) : List (Candidate ℚ × ℕ) :=
  Lib.Greedy.greedy (fun k c => fits iou k.1 c.1) maxDetections [] (ranked candidates)

theorem suppress_eq_map (candidates : List (Candidate ℚ)) (iou : ℚ) :
    suppress candidates iou = (keptPlaces candidates iou).map Prod.fst := by
  rw [suppress, suppressFrom_eq_greedy, keptPlaces, Lib.Greedy.map_greedy, ranked,
    List.mergeSort_zipIdx, List.map_nil]

theorem getElem?_of_mem_keptPlaces {candidates : List (Candidate ℚ)} {iou : ℚ}
    {p : Candidate ℚ × ℕ} (h : p ∈ keptPlaces candidates iou) : candidates[p.2]? = some p.1 :=
  mem_ranked.mp ((Lib.Greedy.greedy_sublist _).subset h)

theorem filterMap_places {candidates : List (Candidate ℚ)} {l : List (Candidate ℚ × ℕ)}
    (h : ∀ p ∈ l, candidates[p.2]? = some p.1) :
    (l.map Prod.snd).filterMap (candidates[·]?) = l.map Prod.fst := by
  induction l with
  | nil => rfl
  | cons p l ih =>
    rw [List.map_cons, List.map_cons, List.filterMap_cons, h p List.mem_cons_self,
      ih fun q hq => h q (List.mem_cons_of_mem p hq)]

theorem mem_of_mem_suppress {candidates : List (Candidate ℚ)} {iou : ℚ} {c : Candidate ℚ}
    (h : c ∈ suppress candidates iou) : c ∈ candidates := by
  rw [suppress_eq_map] at h
  obtain ⟨p, hp, rfl⟩ := List.mem_map.mp h
  exact List.mem_of_getElem? (getElem?_of_mem_keptPlaces hp)

/-- The strongest first. -/
theorem pairwise_suppress (candidates : List (Candidate ℚ)) (iou : ℚ) :
    (suppress candidates iou).Pairwise fun a b => b.score ≤ a.score := by
  rw [suppress_eq_map]
  exact List.pairwise_map.mpr
    (((ranked_pairwise candidates).sublist (Lib.Greedy.greedy_sublist _)).imp Before.score_le)

/-- The kept boxes are some of the candidates, strongest first and at most the cap; those of one
class overlap at most by the limit, and any other overlaps a stronger kept one by more, or comes
behind a cap that is reached.  No division is by zero. -/
theorem suppress_spec (candidates : List (Candidate ℚ)) (iou : ℚ) :
    (∃ kept : List ℕ, kept.Nodup ∧ (∀ i ∈ kept, i < candidates.length) ∧
      suppress candidates iou = kept.filterMap (candidates[·]?) ∧
      ∀ i c, candidates[i]? = some c → i ∉ kept →
        (∃ j ∈ kept, ∃ k, candidates[j]? = some k ∧ k.cls = c.cls ∧ c.score ≤ k.score ∧
          iou < k.iou c) ∨
        (kept.length = maxDetections ∧ ∀ j ∈ kept, ∀ k, candidates[j]? = some k →
          c.score < k.score ∨ c.score = k.score ∧ j < i)) ∧
    (suppress candidates iou).Pairwise (fun a b => b.score ≤ a.score) ∧
    (suppress candidates iou).length ≤ maxDetections ∧
    (suppress candidates iou).Pairwise
      (fun a b => a.cls = b.cls → a.iou b ≤ iou ∧ b.iou a ≤ iou) ∧
    ∀ a b : Candidate ℚ, a.checkedIou b = some (a.iou b) := by
  refine ⟨⟨(keptPlaces candidates iou).map Prod.snd, ?_, ?_, ?_, ?_⟩, ?_, ?_, ?_, checkedIou_eq⟩
  · exact (nodup_places candidates).sublist ((Lib.Greedy.greedy_sublist _).map Prod.snd)
  · intro i hi
    obtain ⟨p, hp, rfl⟩ := List.mem_map.mp hi
    exact (List.getElem?_eq_some_iff.mp (getElem?_of_mem_keptPlaces hp)).1
  · rw [suppress_eq_map, filterMap_places fun p hp => getElem?_of_mem_keptPlaces hp]
  · intro i c hc hnot
    have hnot' : (c, i) ∉ keptPlaces candidates iou := fun hmem =>
      hnot (List.mem_map.mpr ⟨(c, i), hmem, rfl⟩)
    rcases Lib.Greedy.dropped (ranked_pairwise candidates) (fun k hk => absurd hk List.not_mem_nil)
      (mem_ranked.mpr hc) hnot' with ⟨⟨k, j⟩, hk, hbefore, hfits⟩ | ⟨hfull, hbefore⟩
    · left
      obtain ⟨hcls, hmore⟩ := fits_eq_false_iff.mp hfits
      exact ⟨j, List.mem_map.mpr ⟨(k, j), hk, rfl⟩, k, getElem?_of_mem_keptPlaces hk, hcls,
        hbefore.score_le, hmore⟩
    · right
      refine ⟨by rw [List.length_map]; exact hfull, fun j hj k hk => ?_⟩
      obtain ⟨p, hp, rfl⟩ := List.mem_map.mp hj
      obtain rfl : p.1 = k := Option.some_inj.mp ((getElem?_of_mem_keptPlaces hp).symm.trans hk)
      exact hbefore p hp
  · exact pairwise_suppress candidates iou
  · rw [suppress_eq_map, List.length_map]
    exact Lib.Greedy.length_greedy_le _ (Nat.zero_le _)
  · rw [suppress, suppressFrom_eq_greedy]
    refine (Lib.Greedy.compatible _ List.Pairwise.nil).imp fun {a b} hfits hcls => ?_
    have hle := fits_iff.mp hfits hcls
    exact ⟨hle, by rwa [iou_comm]⟩

end StudioWorker.Vision
