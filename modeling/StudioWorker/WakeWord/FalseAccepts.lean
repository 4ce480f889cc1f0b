import Mathlib.Data.List.Nodup
import Mathlib.Algebra.Order.Ring.Int
import StudioWorker.Lib.Spaced

/-!
# WakeWord.FalseAccepts — counting false accepts (`python/wakeword/evaluate.py`)

`count_false_accepts` jumps from one accept to the next with a binary search over the slices above
the cutoff.  Probabilities are `float32` in the array and a cutoff is Python's own float, which
numpy rounds to the array's type before it compares: `asDtype`.

* `countFalseAccepts`: the loop as the stage runs it, with fuel.
* `scan`: a countdown over every slice.
* `countFalseAccepts_eq_scan`: the loop returns what the scan counts, and a higher cutoff never
  counts more.
-/

namespace StudioWorker.WakeWord

variable {F D : Type*} [LT F] [DecidableLT F]

/-- The indices where `np.flatnonzero(probabilities > cutoff)` is true, `first` that of the first
probability. -/
def aboveFrom (cutoff : F) : ℕ → List F → List ℕ
  | _, [] => []
  | first, p :: ps =>
    if cutoff < p then first :: aboveFrom cutoff (first + 1) ps else aboveFrom cutoff (first + 1) ps

def above (probabilities : List F) (cutoff : F) : List ℕ := aboveFrom cutoff 0 probabilities

/-- `np.searchsorted` on indices in order: the place of the first that is at least `v`. -/
def searchsorted (above : List ℕ) (v : ℤ) : ℕ := above.findIdx fun i : ℕ => decide (v ≤ (i : ℤ))

/-- The `while` loop of one cutoff; `none` when it takes more than `fuel` turns. -/
def countLoop (above : List ℕ) (cooldown : ℤ) : ℕ → ℕ → ℕ → Option ℕ
  | 0, _, _ => none
  | fuel + 1, count, index =>
    if h : index < above.length then
      let allowedFrom := (above[index] : ℤ) + cooldown
      countLoop above cooldown fuel (count + 1) (searchsorted above allowedFrom)
    else some count

/-- `count_false_accepts`: one count a cutoff. -/
def countFalseAccepts (asDtype : D → F) (fuel : ℕ) (probabilities : List F) (cutoffs : List D)
    (cooldown : ℤ) : Option (List ℕ) :=
  cutoffs.mapM fun cutoff =>
    let above := above probabilities (asDtype cutoff)
    let allowedFrom := cooldown - 1
    countLoop above cooldown fuel 0 (searchsorted above allowedFrom)

/-- The plain scan: the countdown is lowered before each slice, and a slice above the cutoff while
it is 0 counts and sets it back. -/
def scan (cutoff : F) (cooldown : ℤ) : ℤ → List F → ℕ
  | _, [] => 0
  | countdown, p :: ps =>
    let countdown := max (countdown - 1) 0
    if cutoff < p ∧ countdown = 0 then scan cutoff cooldown cooldown ps + 1
    else scan cutoff cooldown countdown ps

/-! ## The indices above a cutoff -/

theorem le_of_mem_aboveFrom {cutoff : F} {ps : List F} {first i : ℕ}
    (h : i ∈ aboveFrom cutoff first ps) : first ≤ i := by
  induction ps generalizing first with
  | nil => simp [aboveFrom] at h
  | cons p ps ih =>
    rw [aboveFrom] at h
    split_ifs at h
    · rcases List.mem_cons.mp h with heq | hmem
      · exact heq.ge
      · exact (Nat.le_succ first).trans (ih hmem)
    · exact (Nat.le_succ first).trans (ih h)

theorem pairwise_aboveFrom (cutoff : F) (ps : List F) (first : ℕ) :
    (aboveFrom cutoff first ps).Pairwise (· < ·) := by
  induction ps generalizing first with
  | nil => exact List.Pairwise.nil
  | cons p ps ih =>
    rw [aboveFrom]
    split_ifs
    · exact List.pairwise_cons.mpr ⟨fun i hi => le_of_mem_aboveFrom hi, ih (first + 1)⟩
    · exact ih (first + 1)

/-- What is above a cutoff is above a lower one. -/
theorem aboveFrom_sublist {low high : F} (h : ∀ p : F, high < p → low < p) (ps : List F)
    (first : ℕ) : (aboveFrom high first ps).Sublist (aboveFrom low first ps) := by
  induction ps generalizing first with
  | nil => exact List.Sublist.refl _
  | cons p ps ih =>
    rw [aboveFrom, aboveFrom]
    by_cases hhigh : high < p
    · rw [if_pos hhigh, if_pos (h p hhigh)]
      exact (ih (first + 1)).cons_cons first
    · rw [if_neg hhigh]
      split_ifs
      · exact (ih (first + 1)).cons first
      · exact ih (first + 1)

theorem length_aboveFrom_le (cutoff : F) (ps : List F) (first : ℕ) :
    (aboveFrom cutoff first ps).length ≤ ps.length := by
  induction ps generalizing first with
  | nil => exact le_rfl
  | cons p ps ih =>
    have hps := ih (first + 1)
    rw [aboveFrom, List.length_cons]
    split_ifs
    · rw [List.length_cons]
      omega
    · omega

/-! ## Both count the indices picked with the cooldown between them -/

/-- The accepts: the indices of `above` at or after `start`, each `cooldown` after the last. -/
def accepts (cooldown start : ℤ) (above : List ℕ) : List ℤ :=
  Lib.Spaced.pick (· + cooldown) start (above.map (↑))

theorem pairwise_map_cast {above : List ℕ} (h : above.Pairwise (· < ·)) :
    (above.map ((↑) : ℕ → ℤ)).Pairwise (· < ·) :=
  List.pairwise_map.mpr (h.imp fun hlt => Int.ofNat_lt.mpr hlt)

/-- The indices before the place that is searched are below what is searched for. -/
theorem lt_of_mem_take_searchsorted {above : List ℕ} {v : ℤ} {i : ℕ}
    (h : i ∈ above.take (searchsorted above v)) : (i : ℤ) < v := by
  obtain ⟨k, hk, rfl⟩ := List.mem_take_iff_getElem.mp h
  have hnot := List.not_of_lt_findIdx (lt_of_lt_of_le hk (min_le_left _ _))
  simpa using hnot

theorem le_getElem_searchsorted {above : List ℕ} {v : ℤ} (h : searchsorted above v < above.length) :
    v ≤ (above[searchsorted above v] : ℤ) := by
  have hfound := List.findIdx_getElem (p := fun i : ℕ => decide (v ≤ (i : ℤ))) (w := h)
  exact of_decide_eq_true hfound

/-- The accepts from `v` on are those among the indices at the place that is searched. -/
theorem accepts_eq_drop (cooldown v : ℤ) (above : List ℕ) :
    accepts cooldown v above = accepts cooldown v (above.drop (searchsorted above v)) := by
  have hsplit := List.take_append_drop (searchsorted above v) above
  conv_lhs => rw [← hsplit]
  rw [accepts, List.map_append, Lib.Spaced.pick_append_of_lt, accepts]
  intro x hx
  obtain ⟨i, hi, rfl⟩ := List.mem_map.mp hx
  exact lt_of_mem_take_searchsorted hi

theorem getElem_le_getElem {above : List ℕ} (hsorted : above.Pairwise (· < ·)) {j k : ℕ}
    (hjk : j ≤ k) (hk : k < above.length) : above[j] ≤ above[k] := by
  rcases hjk.lt_or_eq with hlt | heq
  · exact (List.pairwise_iff_getElem.mp hsorted j k (hlt.trans hk) hk hlt).le
  · subst heq
    exact le_rfl

/-- After an accept, nothing up to it is at or after what is allowed next. -/
theorem accepts_drop_succ {above : List ℕ} (hsorted : above.Pairwise (· < ·)) {cooldown : ℤ}
    (hcooldown : 1 ≤ cooldown) {index : ℕ} (h : index < above.length) :
    accepts cooldown (above[index] + cooldown) (above.drop (index + 1)) =
      accepts cooldown (above[index] + cooldown) above := by
  have hsplit : above.map ((↑) : ℕ → ℤ) =
      (above.take (index + 1)).map (↑) ++ (above.drop (index + 1)).map (↑) := by
    rw [← List.map_append, List.take_append_drop]
  rw [accepts, accepts, hsplit, Lib.Spaced.pick_append_of_lt]
  intro x hx
  obtain ⟨i, hi, rfl⟩ := List.mem_map.mp hx
  obtain ⟨k, hk, rfl⟩ := List.mem_take_iff_getElem.mp hi
  have hle := getElem_le_getElem hsorted (Nat.le_of_lt_succ (lt_of_lt_of_le hk (min_le_left _ _))) h
  omega

/-- After an accept the search goes past it. -/
theorem lt_searchsorted {above : List ℕ} (hsorted : above.Pairwise (· < ·)) {cooldown : ℤ}
    (hcooldown : 1 ≤ cooldown) {index : ℕ} (h : index < above.length) :
    index < searchsorted above (above[index] + cooldown) := by
  refine List.lt_findIdx_of_not h fun j hj => ?_
  have hle := getElem_le_getElem hsorted hj h
  have hlt : (above[j] : ℤ) < above[index] + cooldown := by omega
  simpa using hlt

/-- One turn of the loop takes the first accept there is. -/
theorem accepts_eq_cons {above : List ℕ} (hsorted : above.Pairwise (· < ·)) {cooldown : ℤ}
    (hcooldown : 1 ≤ cooldown) {v : ℤ} (h : searchsorted above v < above.length) :
    accepts cooldown v above = (above[searchsorted above v] : ℤ) ::
      accepts cooldown (above[searchsorted above v] + cooldown) above := by
  rw [accepts_eq_drop, List.drop_eq_getElem_cons h, accepts, List.map_cons,
    Lib.Spaced.pick_cons_of_le (le_getElem_searchsorted h), ← accepts,
    accepts_drop_succ hsorted hcooldown h]

theorem accepts_eq_nil {cooldown v : ℤ} {above : List ℕ}
    (h : above.length ≤ searchsorted above v) : accepts cooldown v above = [] := by
  rw [accepts_eq_drop, List.drop_eq_nil_of_le h]
  rfl

/-- The loop counts the accepts, and it ends: each turn begins further on. -/
theorem countLoop_eq {above : List ℕ} (hsorted : above.Pairwise (· < ·)) {cooldown : ℤ}
    (hcooldown : 1 ≤ cooldown) {fuel : ℕ} {v : ℤ} (count : ℕ)
    (hfuel : above.length < fuel + searchsorted above v) :
    countLoop above cooldown fuel count (searchsorted above v) =
      some (count + (accepts cooldown v above).length) := by
  induction fuel generalizing count v with
  | zero =>
    have hle : searchsorted above v ≤ above.length := List.findIdx_le_length
    omega
  | succ fuel ih =>
    rw [countLoop]
    by_cases h : searchsorted above v < above.length
    · have hlt := lt_searchsorted hsorted hcooldown h
      rw [dif_pos h, ih (count + 1) (by omega), accepts_eq_cons hsorted hcooldown h,
        List.length_cons]
      congr 1
      omega
    · rw [dif_neg h, accepts_eq_nil (not_lt.mp h), List.length_nil, Nat.add_zero]

/-- The scan counts the accepts too: before slice `first`, a countdown allows the slice it ends
at and what follows. -/
theorem scan_eq (cutoff : F) {cooldown : ℤ} (hcooldown : 1 ≤ cooldown) (ps : List F) (first : ℕ)
    (countdown : ℤ) :
    scan cutoff cooldown countdown ps =
      (accepts cooldown (first + max (countdown - 1) 0) (aboveFrom cutoff first ps)).length := by
  induction ps generalizing first countdown with
  | nil => rfl
  | cons p ps ih =>
    have hrest : ∀ x ∈ (aboveFrom cutoff (first + 1) ps).map ((↑) : ℕ → ℤ),
        (first : ℤ) + 1 ≤ x := by
      intro x hx
      obtain ⟨i, hi, rfl⟩ := List.mem_map.mp hx
      have := le_of_mem_aboveFrom hi
      omega
    rw [scan, aboveFrom]
    by_cases hzero : max (countdown - 1) 0 = 0
    · rw [hzero]
      by_cases hp : cutoff < p
      · rw [if_pos ⟨hp, rfl⟩, if_pos hp, accepts, List.map_cons,
          Lib.Spaced.pick_cons_of_le (by omega), List.length_cons, ih (first + 1), accepts]
        have hnext : ((first + 1 : ℕ) : ℤ) + max (cooldown - 1) 0 = (first : ℤ) + cooldown := by
          omega
        rw [hnext]
      · rw [if_neg (fun h => hp h.1), if_neg hp, ih (first + 1), accepts, accepts]
        congr 1
        exact Lib.Spaced.pick_congr (fun x hx => by have := hrest x hx; omega)
          (fun x hx => by have := hrest x hx; omega)
    · have hnext : ((first + 1 : ℕ) : ℤ) + max (max (countdown - 1) 0 - 1) 0 =
          first + max (countdown - 1) 0 := by
        omega
      rw [if_neg (fun h => hzero h.2), ih (first + 1), hnext]
      split_ifs
      · rw [accepts, accepts, List.map_cons, Lib.Spaced.pick_cons_of_lt (by omega)]
      · rfl

/-- The loop counts what the scan counts. -/
theorem countLoop_eq_scan (cutoff : F) {cooldown : ℤ} (hcooldown : 1 ≤ cooldown) {fuel : ℕ}
    (probabilities : List F) (hfuel : probabilities.length < fuel) :
    countLoop (above probabilities cutoff) cooldown fuel 0
        (searchsorted (above probabilities cutoff) (cooldown - 1)) =
      some (scan cutoff cooldown cooldown probabilities) := by
  have hlength := length_aboveFrom_le cutoff probabilities 0
  have hstart : ((0 : ℕ) : ℤ) + max (cooldown - 1) 0 = cooldown - 1 := by omega
  rw [above, countLoop_eq (pairwise_aboveFrom cutoff probabilities 0) hcooldown 0 (by omega),
    scan_eq cutoff hcooldown probabilities 0 cooldown, hstart, Nat.zero_add]

/-- What the scan counts does not rise where fewer slices are above the cutoff. -/
theorem scan_le {low high : F} (h : ∀ p : F, high < p → low < p) {cooldown : ℤ}
    (hcooldown : 1 ≤ cooldown) (ps : List F) :
    scan high cooldown cooldown ps ≤ scan low cooldown cooldown ps := by
  rw [scan_eq high hcooldown ps 0, scan_eq low hcooldown ps 0]
  exact Lib.Spaced.length_pick_le (fun _ _ hle => Int.add_le_add_right hle cooldown)
    ((aboveFrom_sublist h ps 0).map _) (pairwise_map_cast (pairwise_aboveFrom low ps 0)) _

/-- The counts are those of the plain scan, and along rising cutoffs they never rise. -/
theorem countFalseAccepts_eq_scan [LE D] (asDtype : D → F)
    (lt_trans : ∀ {x y z : F}, x < y → y < z → x < z)
    (rounds_in_order : ∀ {c d : D}, c ≤ d → asDtype c < asDtype d ∨ asDtype c = asDtype d)
    (probabilities : List F) (cutoffs : List D) (cooldown : ℤ) (hcooldown : 1 ≤ cooldown)
    (fuel : ℕ) (hfuel : probabilities.length < fuel) :
    ∃ counts : List ℕ, countFalseAccepts asDtype fuel probabilities cutoffs cooldown = some counts ∧
      counts = cutoffs.map (fun c => scan (asDtype c) cooldown cooldown probabilities) ∧
      ∀ (i j : ℕ) (ci cj : D) (ni nj : ℕ), cutoffs[i]? = some ci → cutoffs[j]? = some cj →
        counts[i]? = some ni → counts[j]? = some nj → ci ≤ cj → nj ≤ ni := by
  refine ⟨cutoffs.map fun c => scan (asDtype c) cooldown cooldown probabilities, ?_, rfl, ?_⟩
  · have heach : (fun cutoff => countLoop (above probabilities (asDtype cutoff)) cooldown fuel 0
        (searchsorted (above probabilities (asDtype cutoff)) (cooldown - 1))) =
        fun cutoff => pure (scan (asDtype cutoff) cooldown cooldown probabilities) :=
      funext fun cutoff => countLoop_eq_scan (asDtype cutoff) hcooldown probabilities hfuel
    rw [countFalseAccepts, heach, List.mapM_pure]
    rfl
  · intro i j ci cj ni nj hci hcj hni hnj hle
    rw [List.getElem?_map, hci] at hni
    rw [List.getElem?_map, hcj] at hnj
    obtain rfl := Option.some_inj.mp hni
    obtain rfl := Option.some_inj.mp hnj
    refine scan_le (fun p hp => ?_) hcooldown probabilities
    rcases rounds_in_order hle with hlt | heq
    · exact lt_trans hlt hp
    · rwa [heq]

theorem countFalseAccepts_eq_scan_ones :
    ∃ counts : List ℕ, countFalseAccepts (id : ℤ → ℤ) 6 [1, 1, 0, 1, 1] [0, 1] 2 = some counts ∧
      counts = [0, 1].map (fun c : ℤ => scan c 2 2 [1, 1, 0, 1, 1]) ∧
      ∀ (i j : ℕ) (ci cj : ℤ) (ni nj : ℕ), [0, 1][i]? = some ci → [0, 1][j]? = some cj →
        counts[i]? = some ni → counts[j]? = some nj → ci ≤ cj → nj ≤ ni :=
  countFalseAccepts_eq_scan (id : ℤ → ℤ) (fun h h' => h.trans h') (fun h => h.lt_or_eq)
    [1, 1, 0, 1, 1] [0, 1] 2 (by decide) 6 (by decide)

end StudioWorker.WakeWord
