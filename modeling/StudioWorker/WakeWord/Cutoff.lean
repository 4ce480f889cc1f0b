import Mathlib.Algebra.Order.Field.Rat
import Mathlib.Data.Rat.Floor
import Mathlib.Algebra.Order.BigOperators.Group.List
import Mathlib.Algebra.GroupWithZero.Nat
import StudioWorker.Lib.Trailing
import StudioWorker.Lib.Fallible
import StudioWorker.Text

/-!
# WakeWord.Cutoff — choosing the cutoff (`src/wake_word/cutoff.rs`)

Hours, scores and cutoffs are exact rationals, counts are `u64`; `none` is a panic, also of a sum
of counts that overflows.  The upper bound on a count's rate is any function, and so are the formats
of numbers in the explanation.

* `Evaluation.check`, `Evaluation.falseAccepts`, `Evaluation.recall`, `choose`: as in the source.
* `ChoosesWell`: what is promised of a choice.
* `choosesWell_iff`: the promise is kept exactly when the pooled validation hours are positive and a
  `u64` holds every pooled count; a check of the evaluation asks neither.
-/

namespace StudioWorker.WakeWord

open Lib.Fallible Lib.Trailing

inductive Split where
  | validation
  | testing
deriving DecidableEq, Repr

/-- `{:?}` -/
def Split.debug : Split → Text
  | validation => "Validation".toList
  | testing => "Testing".toList

/-- One ambient set: its hours and its false accepts at every cutoff of the grid. -/
structure AmbientSet where
  name : Text
  split : Split
  hours : ℚ
  falseAccepts : List ℕ

structure Scores where
  label : Text
  split : Split
  scores : List ℚ

structure Evaluation where
  cutoffs : List ℚ
  ambient : List AmbientSet
  positive : List Scores

/-- Whether some cutoff is not below the next. -/
def descends : List ℚ → Bool
  | a :: b :: rest => b ≤ a || descends (b :: rest)
  | _ => false

def decimalNat (n : ℕ) : Text := Nat.toDigits 10 n

def checkSplit (evaluation : Evaluation) (split : Split) : Except Text Unit :=
  if !evaluation.ambient.any fun a => a.split == split && 0 < a.hours then
    .error ("no ".toList ++ split.debug ++ " ambient audio was measured".toList)
  else if !evaluation.positive.any fun p => p.split == split && !p.scores.isEmpty then
    .error ("no ".toList ++ split.debug ++ " positives were measured".toList)
  else .ok ()

/-- `Evaluation::check` -/
def Evaluation.check (evaluation : Evaluation) : Except Text Unit := do
  if evaluation.cutoffs.isEmpty || descends evaluation.cutoffs then
    throw "the cutoffs are not an ascending grid".toList
  checkSplit evaluation .validation
  checkSplit evaluation .testing
  match evaluation.ambient.find? fun a => a.falseAccepts.length != evaluation.cutoffs.length with
  | some set => throw (set.name ++ " has ".toList ++ decimalNat set.falseAccepts.length ++
      " counts for ".toList ++ decimalNat evaluation.cutoffs.length ++ " cutoffs".toList)
  | none => return ()

def Evaluation.ambientOf (evaluation : Evaluation) (split : Split) : List AmbientSet :=
  evaluation.ambient.filter (·.split == split)

/-- One more set: its count is looked up and added. -/
def addSet (index : ℕ) (total : ℕ × ℚ) (set : AmbientSet) : Option (ℕ × ℚ) := do
  let count ← set.falseAccepts[index]?
  if total.1 + count < 2 ^ 64 then return (total.1 + count, total.2 + set.hours) else none

/-- The pooled false accepts of `split` at grid point `index`: (count, hours). -/
def Evaluation.falseAccepts (evaluation : Evaluation) (split : Split) (index : ℕ) :
    Option (ℕ × ℚ) := (evaluation.ambientOf split).foldlM (addSet index) (0, 0)

/-- The share of `scores` above `cutoff` (0 when there are none). -/
def acceptedShare (scores : List ℚ) (cutoff : ℚ) : ℚ :=
  if scores.isEmpty then 0 else (scores.filter (cutoff < ·)).length / scores.length

def Evaluation.recall (evaluation : Evaluation) (split : Split) (cutoff : ℚ) : ℚ :=
  acceptedShare ((evaluation.positive.filter (·.split == split)).flatMap (·.scores)) cutoff

/-- How numbers are shown: `{}`, and `{:.1}` and the like. -/
structure Formats where
  display : ℚ → Text
  fixed : ℕ → ℚ → Text

/-- `f64::round`: half away from zero. -/
def round (x : ℚ) : ℤ := if 0 ≤ x then ⌊x + 1 / 2⌋ else ⌈x - 1 / 2⌉

def gridStep (f : Formats) (evaluation : Evaluation) : Text :=
  match evaluation.cutoffs with
  | first :: second :: _ => f.display (round ((second - first) * 1000) / 1000)
  | _ => "single-point".toList

structure Rate where
  count : ℕ
  hours : ℚ
  rate : ℚ
  upper : ℚ

structure Choice where
  cutoff : ℚ
  index : ℕ
  targetFalseAcceptsPerHour : ℚ
  targetMet : Bool
  validationFalseAccepts : ℕ
  validationHours : ℚ
  validationFalseAcceptsPerHour : ℚ
  validationUpper95 : ℚ
  validationRecall : ℚ
  why : Text

/-- What is measured at every grid point. -/
def rates (upper95 : ℕ → ℚ) (evaluation : Evaluation) : Option (List Rate) :=
  (List.range evaluation.cutoffs.length).mapM fun i => do
    let (count, hours) ← evaluation.falseAccepts .validation i
    return ⟨count, hours, count / hours, upper95 count / hours⟩

/-- From the top of the grid down, until a bound is above the target. -/
def lowestWithin (target : ℚ) : List (Rate × ℕ) → Option ℕ → Option ℕ
  | [], lowest => lowest
  | (rate, i) :: rest, lowest =>
    if target < rate.upper then lowest else lowestWithin target rest (some i)

/-- The place the choice falls on, and whether the target is met there. -/
def place (rates : List Rate) (target : ℚ) : Option (ℕ × Bool) :=
  match lowestWithin target rates.zipIdx.reverse none with
  | some i => some (i, true)
  | none => do
    let fewest ← (rates.map (·.count)).min?
    let i ← rates.findIdx? (·.count == fewest)
    return (i, false)

def why (f : Formats) (evaluation : Evaluation) (target : ℚ) (rate : Rate) (recalled : ℚ)
    (met : Bool) : Text :=
  let sets := ", ".toList.intercalate ((evaluation.ambientOf .validation).map fun a =>
    a.name ++ ' ' :: (f.fixed 1 a.hours ++ " h".toList))
  let numbers := decimalNat rate.count ++ " in ".toList ++ f.fixed 1 rate.hours ++ " h (".toList ++
    f.fixed 3 rate.rate ++ " per hour, upper bound ".toList ++ f.fixed 3 rate.upper
  if met then
    "the lowest cutoff on the ".toList ++ gridStep f evaluation ++
      " grid at which the validation ambient audio (".toList ++ sets ++ ") gives at most ".toList ++
      f.display target ++ " false accepts per hour with 95% confidence, at that cutoff and ".toList ++
      "every higher one: ".toList ++ numbers ++ "); recall only falls as the cutoff rises, ".toList ++
      "so the lowest such cutoff keeps the most (".toList ++ f.fixed 1 (recalled * 100) ++
      "% of validation positives)".toList
  else
    "no cutoff on the grid keeps the validation ambient audio (".toList ++ sets ++
      ") at or below ".toList ++ f.display target ++
      " false accepts per hour with 95% confidence; this is the lowest cutoff with the ".toList ++
      "fewest: ".toList ++ numbers ++ "), recall ".toList ++ f.fixed 1 (recalled * 100) ++ "%".toList

/-- `choose` -/
def choose (f : Formats) (upper95 : ℕ → ℚ) (evaluation : Evaluation) (target : ℚ) :
    Option Choice := do
  let rates ← rates upper95 evaluation
  let (index, met) ← place rates target
  let cutoff ← evaluation.cutoffs[index]?
  let rate ← rates[index]?
  let recalled := evaluation.recall .validation cutoff
  return ⟨cutoff, index, target, met, rate.count, rate.hours, rate.rate, rate.upper, recalled,
    why f evaluation target rate recalled met⟩

/-! ## What is promised -/

/-- The hours of a split, all its sets together. -/
def Evaluation.hoursOf (evaluation : Evaluation) (split : Split) : ℚ :=
  ((evaluation.ambientOf split).map (·.hours)).sum

/-- The false accepts of a split at a grid point, all its sets together. -/
def Evaluation.countAt (evaluation : Evaluation) (split : Split) (index : ℕ) : ℕ :=
  ((evaluation.ambientOf split).map fun a => a.falseAccepts[index]?.getD 0).sum

/-- The bound on validation's false accepts per hour at a grid point. -/
def boundAt (upper95 : ℕ → ℚ) (evaluation : Evaluation) (index : ℕ) : ℚ :=
  upper95 (evaluation.countAt .validation index) / evaluation.hoursOf .validation

/-- The bound is within the target there and at every higher cutoff. -/
def Safe (upper95 : ℕ → ℚ) (evaluation : Evaluation) (target : ℚ) (i : ℕ) : Prop :=
  i < evaluation.cutoffs.length ∧
    ∀ j, i ≤ j → j < evaluation.cutoffs.length → boundAt upper95 evaluation j ≤ target

/-- The choice at the lowest safe cutoff where the highest one is safe, else at the lowest of those
with the fewest false accepts. -/
structure WellChosen (upper95 : ℕ → ℚ) (evaluation : Evaluation) (target : ℚ) (choice : Choice) :
    Prop where
  cutoff : evaluation.cutoffs[choice.index]? = some choice.cutoff
  /-- Nothing safe is lower, and nothing safe has a higher recall. -/
  met : boundAt upper95 evaluation (evaluation.cutoffs.length - 1) ≤ target →
    choice.targetMet = true ∧ Safe upper95 evaluation target choice.index ∧
      ∀ i cutoff, Safe upper95 evaluation target i → evaluation.cutoffs[i]? = some cutoff →
        choice.index ≤ i ∧
          evaluation.recall .validation cutoff ≤ evaluation.recall .validation choice.cutoff
  fewest : ¬ boundAt upper95 evaluation (evaluation.cutoffs.length - 1) ≤ target →
    choice.targetMet = false ∧ ∀ i < evaluation.cutoffs.length,
      evaluation.countAt .validation choice.index ≤ evaluation.countAt .validation i ∧
        (evaluation.countAt .validation i = evaluation.countAt .validation choice.index →
          choice.index ≤ i)

/-- It makes a choice, dividing by hours that are positive, and the choice is the one. -/
def ChoosesWell (f : Formats) (upper95 : ℕ → ℚ) (evaluation : Evaluation) (target : ℚ) : Prop :=
  0 < evaluation.hoursOf .validation ∧ ∃ choice,
    choose f upper95 evaluation target = some choice ∧
      WellChosen upper95 evaluation target choice

/-! ## Pooling -/

theorem foldlM_addSet {sets : List AmbientSet} {index : ℕ}
    (hlength : ∀ set ∈ sets, index < set.falseAccepts.length) {count : ℕ} (hcount : count < 2 ^ 64)
    (hours : ℚ) :
    sets.foldlM (addSet index) (count, hours) =
      if count + (sets.map fun a => a.falseAccepts[index]?.getD 0).sum < 2 ^ 64 then
        some (count + (sets.map fun a => a.falseAccepts[index]?.getD 0).sum,
          hours + (sets.map (·.hours)).sum)
      else none := by
  induction sets generalizing count hours with
  | nil =>
    rw [List.foldlM_nil, List.map_nil, List.map_nil, List.sum_nil, List.sum_nil, Nat.add_zero,
      add_zero, if_pos hcount]
    rfl
  | cons set sets ih =>
    obtain ⟨n, hn⟩ : ∃ n, set.falseAccepts[index]? = some n :=
      ⟨_, List.getElem?_eq_getElem (hlength set List.mem_cons_self)⟩
    have hrest : ∀ other ∈ sets, index < other.falseAccepts.length := fun other hother =>
      hlength other (List.mem_cons_of_mem set hother)
    rw [List.foldlM_cons, addSet, hn]
    simp only [Option.bind_eq_bind, Option.bind_some, List.map_cons, List.sum_cons, hn,
      Option.getD_some]
    by_cases hfit : count + n < 2 ^ 64
    · rw [if_pos hfit, Option.pure_def, Option.bind_some, ih hrest hfit, ← Nat.add_assoc,
        ← add_assoc]
    · rw [if_neg hfit, Option.bind_none, if_neg (by omega)]

/-- What a check of the evaluation says: an ascending grid, and a count for every cutoff. -/
theorem of_check {evaluation : Evaluation} (h : evaluation.check = .ok ()) :
    evaluation.cutoffs ≠ [] ∧ descends evaluation.cutoffs = false ∧
      ∀ set ∈ evaluation.ambient, set.falseAccepts.length = evaluation.cutoffs.length := by
  rw [Evaluation.check] at h
  by_cases hgrid : (evaluation.cutoffs.isEmpty || descends evaluation.cutoffs) = true
  · rw [if_pos hgrid] at h
    cases h
  · rw [if_neg hgrid] at h
    obtain ⟨-, -, h⟩ := bind_eq_ok h
    obtain ⟨-, -, h⟩ := bind_eq_ok h
    simp only [Bool.or_eq_true, not_or, List.isEmpty_iff, Bool.not_eq_true] at hgrid
    refine ⟨hgrid.1, hgrid.2, fun set hset => ?_⟩
    cases hfind : evaluation.ambient.find? fun a =>
        a.falseAccepts.length != evaluation.cutoffs.length with
    | some other =>
      rw [hfind] at h
      cases h
    | none =>
      have hnot := List.find?_eq_none.mp hfind set hset
      simpa using hnot

theorem pairwise_of_descends : ∀ {cutoffs : List ℚ}, descends cutoffs = false →
    cutoffs.Pairwise (· < ·)
  | [], _ => List.Pairwise.nil
  | [a], _ => List.pairwise_singleton _ a
  | a :: b :: rest, h => by
    rw [descends, Bool.or_eq_false_iff] at h
    have hlt : a < b := not_le.mp (of_decide_eq_false h.1)
    have hrest := pairwise_of_descends h.2
    refine List.pairwise_cons.mpr ⟨fun c hc => ?_, hrest⟩
    rcases List.mem_cons.mp hc with rfl | hc
    · exact hlt
    · exact hlt.trans ((List.pairwise_cons.mp hrest).1 c hc)

section Checked

variable {evaluation : Evaluation} (hcheck : evaluation.check = .ok ())
include hcheck

theorem falseAccepts_eq {index : ℕ} (hindex : index < evaluation.cutoffs.length) (split : Split) :
    evaluation.falseAccepts split index =
      if evaluation.countAt split index < 2 ^ 64 then
        some (evaluation.countAt split index, evaluation.hoursOf split)
      else none := by
  have hlength : ∀ set ∈ evaluation.ambientOf split, index < set.falseAccepts.length := by
    intro set hset
    rw [(of_check hcheck).2.2 set (List.mem_of_mem_filter hset)]
    exact hindex
  rw [Evaluation.falseAccepts, foldlM_addSet hlength (by decide), Nat.zero_add, zero_add,
    Evaluation.countAt, Evaluation.hoursOf]

end Checked

/-- What is measured at a grid point. -/
def rateAt (upper95 : ℕ → ℚ) (evaluation : Evaluation) (i : ℕ) : Rate :=
  ⟨evaluation.countAt .validation i, evaluation.hoursOf .validation,
    evaluation.countAt .validation i / evaluation.hoursOf .validation,
    boundAt upper95 evaluation i⟩

section Rates

variable (upper95 : ℕ → ℚ) {evaluation : Evaluation} (hcheck : evaluation.check = .ok ())
include hcheck

theorem rates_eq
    (hfit : ∀ i < evaluation.cutoffs.length, evaluation.countAt .validation i < 2 ^ 64) :
    rates upper95 evaluation =
      some ((List.range evaluation.cutoffs.length).map (rateAt upper95 evaluation)) := by
  refine mapM_eq_some_map fun i hi => ?_
  have hi := List.mem_range.mp hi
  rw [falseAccepts_eq hcheck hi, if_pos (hfit i hi)]
  rfl

theorem rates_eq_none {i : ℕ} (hi : i < evaluation.cutoffs.length)
    (hbig : ¬ evaluation.countAt .validation i < 2 ^ 64) : rates upper95 evaluation = none := by
  refine mapM_eq_none (List.mem_range.mpr hi) ?_
  rw [falseAccepts_eq hcheck hi, if_neg hbig]
  rfl

end Rates

/-! ## Where the choice falls -/

/-- A rate whose bound is above the target. -/
def aboveTarget (target : ℚ) (rate : Rate) : Bool := target < rate.upper

theorem lowestWithin_eq (target : ℚ) (l : List Rate) (lowest : Option ℕ) :
    lowestWithin target l.zipIdx.reverse lowest =
      if trailing (aboveTarget target) l = 0 then lowest
      else some (l.length - trailing (aboveTarget target) l) := by
  induction l using List.reverseRecOn generalizing lowest with
  | nil => rfl
  | append_singleton l rate ih =>
    have hlast : (l ++ [rate]).zipIdx.reverse = (rate, l.length) :: l.zipIdx.reverse := by
      rw [List.zipIdx_append, List.reverse_append]
      simp
    rw [hlast, lowestWithin, trailing_concat, List.length_append, List.length_singleton]
    by_cases hup : target < rate.upper
    · have hloud : aboveTarget target rate = true := decide_eq_true hup
      rw [if_pos hup, hloud]
      rfl
    · have hquiet : aboveTarget target rate = false := decide_eq_false hup
      rw [if_neg hup, hquiet, ih (some l.length)]
      have hcount : l.length + 1 - (trailing (aboveTarget target) l + 1) =
          l.length - trailing (aboveTarget target) l := by omega
      simp only [Bool.false_eq_true, if_false, Nat.add_eq_zero_iff, Nat.one_ne_zero, and_false,
        hcount]
      split_ifs with hzero
      · rw [hzero, Nat.sub_zero]
      · rfl

theorem place_of_within {target : ℚ} {l : List Rate} (h : trailing (aboveTarget target) l ≠ 0) :
    place l target = some (l.length - trailing (aboveTarget target) l, true) := by
  rw [place, lowestWithin_eq, if_neg h]

/-- Where the highest bound is above the target, it is the first of the fewest. -/
theorem place_of_above {target : ℚ} {l : List Rate} (hne : l ≠ [])
    (h : trailing (aboveTarget target) l = 0) :
    ∃ i rate, place l target = some (i, false) ∧ l[i]? = some rate ∧
      ∀ j other, l[j]? = some other → rate.count ≤ other.count ∧
        (other.count = rate.count → i ≤ j) := by
  obtain ⟨fewest, hfewest⟩ : ∃ fewest, (l.map (·.count)).min? = some fewest :=
    Option.ne_none_iff_exists'.mp fun hnone => hne (by simpa using hnone)
  obtain ⟨hmem, hle⟩ := List.min?_eq_some_iff.mp hfewest
  obtain ⟨least, hleast, hcount⟩ := List.mem_map.mp hmem
  obtain ⟨i, hi⟩ : ∃ i, l.findIdx? (·.count == fewest) = some i := by
    refine Option.ne_none_iff_exists'.mp fun hnone => ?_
    have hnot := List.findIdx?_eq_none_iff.mp hnone least hleast
    simp [hcount] at hnot
  obtain ⟨hlt, hfound, hfirst⟩ := List.findIdx?_eq_some_iff_getElem.mp hi
  have hcount : l[i].count = fewest := by simpa using hfound
  refine ⟨i, l[i], ?_, List.getElem?_eq_getElem hlt, fun j other hother => ⟨?_, fun heq => ?_⟩⟩
  · rw [place, lowestWithin_eq, if_pos h]
    simp only [hfewest, hi, Option.bind_eq_bind, Option.bind_some, Option.pure_def]
  · rw [hcount]
    exact hle other.count (List.mem_map_of_mem (List.mem_of_getElem? hother))
  · by_contra hji
    obtain ⟨hj, rfl⟩ := List.getElem?_eq_some_iff.mp hother
    exact hfirst j (not_le.mp hji) (by simp [heq, hcount])

/-! ## The choice -/

theorem acceptedShare_le {scores : List ℚ} {low high : ℚ} (h : low ≤ high) :
    acceptedShare scores high ≤ acceptedShare scores low := by
  rw [acceptedShare, acceptedShare]
  split_ifs with hempty
  · exact le_rfl
  · have hsub : (scores.filter (high < ·)).length ≤ (scores.filter (low < ·)).length := by
      refine (List.monotone_filter_right scores fun s hs => ?_).length_le
      exact decide_eq_true (h.trans_lt (of_decide_eq_true hs))
    exact div_le_div_of_nonneg_right (Nat.cast_le.mpr hsub) (Nat.cast_nonneg _)

section Choice

variable {upper95 : ℕ → ℚ} {evaluation : Evaluation} {target : ℚ}

theorem getElem?_rates {i : ℕ} (hi : i < evaluation.cutoffs.length) :
    ((List.range evaluation.cutoffs.length).map (rateAt upper95 evaluation))[i]? =
      some (rateAt upper95 evaluation i) := by
  rw [List.getElem?_map, List.getElem?_range hi, Option.map_some]

/-- A cutoff is safe when it is in the run within the target at the end. -/
theorem safe_iff {i : ℕ} (hi : i < evaluation.cutoffs.length) :
    Safe upper95 evaluation target i ↔ evaluation.cutoffs.length - trailing (aboveTarget target)
      ((List.range evaluation.cutoffs.length).map (rateAt upper95 evaluation)) ≤ i := by
  have hlength : ((List.range evaluation.cutoffs.length).map
      (rateAt upper95 evaluation)).length = evaluation.cutoffs.length := by
    rw [List.length_map, List.length_range]
  have hrun := @forall_from_iff Rate (aboveTarget target)
    ((List.range evaluation.cutoffs.length).map (rateAt upper95 evaluation)) i (by omega)
  rw [hlength] at hrun
  rw [← hrun]
  constructor
  · rintro ⟨-, hsafe⟩ j hij rate hrate
    have hj := (List.getElem?_eq_some_iff.mp hrate).1
    rw [hlength] at hj
    rw [getElem?_rates hj] at hrate
    obtain rfl := Option.some_inj.mp hrate
    exact decide_eq_false (not_lt.mpr (hsafe j hij hj))
  · intro h
    refine ⟨hi, fun j hij hj => ?_⟩
    exact not_lt.mp (of_decide_eq_false (h j hij _ (getElem?_rates hj)))

theorem choose_eq (f : Formats) {i : ℕ} {met : Bool}
    (hrates : rates upper95 evaluation =
      some ((List.range evaluation.cutoffs.length).map (rateAt upper95 evaluation)))
    (hplace : place ((List.range evaluation.cutoffs.length).map (rateAt upper95 evaluation))
      target = some (i, met)) (hi : i < evaluation.cutoffs.length) :
    ∃ choice, choose f upper95 evaluation target = some choice ∧ choice.index = i ∧
      choice.targetMet = met ∧ evaluation.cutoffs[i]? = some choice.cutoff := by
  have hcutoff := List.getElem?_eq_getElem hi
  have hrate := @getElem?_rates upper95 evaluation i hi
  have hchoice : choose f upper95 evaluation target = some
      ⟨evaluation.cutoffs[i], i, target, met, evaluation.countAt .validation i,
        evaluation.hoursOf .validation,
        evaluation.countAt .validation i / evaluation.hoursOf .validation,
        boundAt upper95 evaluation i, evaluation.recall .validation evaluation.cutoffs[i],
        why f evaluation target (rateAt upper95 evaluation i)
          (evaluation.recall .validation evaluation.cutoffs[i]) met⟩ := by
    rw [choose, hrates]
    simp only [Option.bind_eq_bind, Option.bind_some, hplace, hcutoff, hrate]
    rfl
  exact ⟨_, hchoice, rfl, rfl, hcutoff⟩

/-- The highest cutoff is safe when the run within the target at the end is not empty. -/
theorem highest_safe_iff (hne : evaluation.cutoffs ≠ []) :
    boundAt upper95 evaluation (evaluation.cutoffs.length - 1) ≤ target ↔
      trailing (aboveTarget target)
        ((List.range evaluation.cutoffs.length).map (rateAt upper95 evaluation)) ≠ 0 := by
  have hpos : 0 < evaluation.cutoffs.length := List.length_pos_iff.mpr hne
  have hlast : evaluation.cutoffs.length - 1 < evaluation.cutoffs.length := by omega
  have hsafe : Safe upper95 evaluation target (evaluation.cutoffs.length - 1) ↔
      boundAt upper95 evaluation (evaluation.cutoffs.length - 1) ≤ target := by
    refine ⟨fun h => h.2 _ le_rfl hlast, fun h => ⟨hlast, fun j hj hlt => ?_⟩⟩
    obtain rfl : j = evaluation.cutoffs.length - 1 := by omega
    exact h
  rw [← hsafe, safe_iff hlast]
  omega

/-- A cutoff that is not lower has no higher recall. -/
theorem recall_le (hgrid : evaluation.cutoffs.Pairwise (· < ·)) {i j : ℕ} {low high : ℚ}
    (hlow : evaluation.cutoffs[i]? = some low) (hhigh : evaluation.cutoffs[j]? = some high)
    (hij : i ≤ j) (split : Split) : evaluation.recall split high ≤ evaluation.recall split low := by
  obtain ⟨hi, rfl⟩ := List.getElem?_eq_some_iff.mp hlow
  obtain ⟨hj, rfl⟩ := List.getElem?_eq_some_iff.mp hhigh
  refine acceptedShare_le ?_
  rcases hij.eq_or_lt with rfl | hlt
  · exact le_rfl
  · exact (List.pairwise_iff_getElem.mp hgrid i j hi hj hlt).le

/-- A safe highest cutoff: the choice is the start of the run within the target. -/
theorem exists_choice_met (f : Formats) (hne : evaluation.cutoffs ≠ [])
    (hgrid : evaluation.cutoffs.Pairwise (· < ·))
    (hrates : rates upper95 evaluation =
      some ((List.range evaluation.cutoffs.length).map (rateAt upper95 evaluation)))
    (hhigh : boundAt upper95 evaluation (evaluation.cutoffs.length - 1) ≤ target) :
    ∃ choice, choose f upper95 evaluation target = some choice ∧
      WellChosen upper95 evaluation target choice := by
  have hrun := (highest_safe_iff hne).mp hhigh
  have hplace := place_of_within hrun
  rw [List.length_map, List.length_range] at hplace
  have hpos : 0 < evaluation.cutoffs.length := List.length_pos_iff.mpr hne
  have hlt : evaluation.cutoffs.length - trailing (aboveTarget target)
      ((List.range evaluation.cutoffs.length).map (rateAt upper95 evaluation)) <
        evaluation.cutoffs.length := by omega
  obtain ⟨choice, hchoose, hindex, hmet, hcutoff⟩ := choose_eq f hrates hplace hlt
  rw [← hindex] at hcutoff hlt
  refine ⟨choice, hchoose, hcutoff, fun _ => ⟨hmet, ?_, fun i cutoff hsafe hi => ?_⟩,
    fun h => absurd hhigh h⟩
  · exact (safe_iff hlt).mpr hindex.ge
  · have hle : choice.index ≤ i := by
      rw [hindex]
      exact (safe_iff hsafe.1).mp hsafe
    exact ⟨hle, recall_le hgrid hcutoff hi hle .validation⟩

/-- No safe cutoff: the choice is the lowest of the fewest. -/
theorem exists_choice_fewest (f : Formats) (hne : evaluation.cutoffs ≠ [])
    (hrates : rates upper95 evaluation =
      some ((List.range evaluation.cutoffs.length).map (rateAt upper95 evaluation)))
    (hhigh : ¬ boundAt upper95 evaluation (evaluation.cutoffs.length - 1) ≤ target) :
    ∃ choice, choose f upper95 evaluation target = some choice ∧
      WellChosen upper95 evaluation target choice := by
  have hrun := not_not.mp fun h => hhigh ((highest_safe_iff hne).mpr h)
  have hmeasured : (List.range evaluation.cutoffs.length).map (rateAt upper95 evaluation) ≠ [] := by
    simpa using hne
  obtain ⟨i, rate, hplace, hrate, hfewest⟩ := place_of_above hmeasured hrun
  have hlt := (List.getElem?_eq_some_iff.mp hrate).1
  rw [List.length_map, List.length_range] at hlt
  rw [getElem?_rates hlt] at hrate
  obtain rfl := Option.some_inj.mp hrate
  obtain ⟨choice, hchoose, hindex, hmet, hcutoff⟩ := choose_eq f hrates hplace hlt
  subst hindex
  refine ⟨choice, hchoose, hcutoff, fun h => absurd h hhigh, fun _ => ⟨hmet, fun j hj => ?_⟩⟩
  exact hfewest j _ (getElem?_rates hj)

end Choice

/-- For every evaluation that passes its check and every target, the choice keeps its promise exactly
when the pooled validation hours are positive and a `u64` holds the pooled counts. -/
theorem choosesWell_iff (f : Formats) (upper95 : ℕ → ℚ) (evaluation : Evaluation) (target : ℚ)
    (hcheck : evaluation.check = .ok ()) :
    ChoosesWell f upper95 evaluation target ↔ 0 < evaluation.hoursOf .validation ∧
      ∀ i < evaluation.cutoffs.length, evaluation.countAt .validation i < 2 ^ 64 := by
  obtain ⟨hne, hdescends, -⟩ := of_check hcheck
  constructor
  · rintro ⟨hhours, choice, hchoose, -⟩
    refine ⟨hhours, fun i hi => ?_⟩
    by_contra hbig
    rw [choose, rates_eq_none upper95 hcheck hi hbig] at hchoose
    cases hchoose
  · rintro ⟨hhours, hfit⟩
    have hrates := rates_eq upper95 hcheck hfit
    by_cases hhigh : boundAt upper95 evaluation (evaluation.cutoffs.length - 1) ≤ target
    · exact ⟨hhours, exists_choice_met f hne (pairwise_of_descends hdescends) hrates hhigh⟩
    · exact ⟨hhours, exists_choice_fewest f hne hrates hhigh⟩

/-- Two cutoffs, and validation audio in sets of these hours. -/
def measured (hours : List ℚ) : Evaluation where
  cutoffs := [1 / 2, 3 / 4]
  ambient := ⟨"testing".toList, .testing, 1, [0, 0]⟩ ::
    hours.map fun h => ⟨"validation".toList, .validation, h, [2, 1]⟩
  positive := [⟨"near".toList, .validation, [9 / 10]⟩, ⟨"far".toList, .testing, [9 / 10]⟩]

def plain : Formats := ⟨fun _ => [], fun _ _ => []⟩

theorem choosesWell_iff_measured :
    ChoosesWell plain (fun count => count + 3) (measured [1, 3]) 2 ↔
      0 < (measured [1, 3]).hoursOf .validation ∧
        ∀ i < (measured [1, 3]).cutoffs.length,
          (measured [1, 3]).countAt .validation i < 2 ^ 64 :=
  choosesWell_iff plain _ _ 2 (by decide +kernel)

/-- An hour and minus three hours: the check passes, the bound is divided by minus two hours, and
the lowest cutoff is said to meet a target of no false accepts where there are four. -/
theorem not_choosesWell_negative :
    (measured [1, -3]).check = .ok () ∧
      (choose plain (fun count => count + 3) (measured [1, -3]) 0).map (fun choice =>
        (choice.index, choice.targetMet, choice.validationFalseAccepts)) = some (0, true, 4) ∧
      ¬ ChoosesWell plain (fun count => count + 3) (measured [1, -3]) 0 := by
  refine ⟨by decide +kernel, by decide +kernel, fun h => ?_⟩
  have hhours : ¬ 0 < (measured [1, -3]).hoursOf .validation := by decide +kernel
  exact hhours h.1

end StudioWorker.WakeWord
