import Mathlib.Algebra.Order.Field.Rat
import Mathlib.Algebra.Field.Rat
import Mathlib.Order.Bounds.Basic
import Mathlib.Tactic.Linarith
import Mathlib.Tactic.NormNum
import StudioWorker.Lib.Chunks
import StudioWorker.Lib.Trapezoid

/-!
# WakeWord.Validation — validation with its ambient audio in chunks (`wakeword/validation.py`)

Keras folds a metric over batches; the ambient windows are handed to it in chunks, the metrics
going on across them.  From the counts at 101 cutoffs the pass reckons a curve of recall over false
accepts per hour, and the area under it.

* `ambientChunks`: the generator, one window at a time.
* `validateNonstreaming`: the pass; `none` where Python raises, or a number is no longer one.
* `chunks_evaluate`: the chunks leave the metrics of one evaluation of all windows.
* `validated`: what the pass returns.
-/

namespace StudioWorker.WakeWord.Validation

open Lib Lib.Chunks Lib.Trapezoid

/-! ## Keras -/

/-- A window, and whether it is of the wake word. -/
abbrev Sample (W : Type) := W × Bool

/-- What an evaluation returns; the counts are one for each cutoff. -/
structure Results where
  accuracy : ℚ
  recalled : ℚ
  precision : ℚ
  auc : ℚ
  loss : ℚ
  tp : List ℚ
  fp : List ℚ
  fn : List ℚ

/-- A compiled model's metrics: after a reset, after one batch more, and as they are read. -/
structure Keras (W M : Type) where
  fresh : M
  update : M → List (Sample W) → M
  results : M → Results

section Pass

variable {W M : Type} (k : Keras W M)

/-- `model.evaluate(..., batch_size=1024)`, the metrics not reset -/
def evaluate (m : M) (samples : List (Sample W)) : M :=
  (allChunks 1024 samples).foldl k.update m

/-! ## The ambient windows -/

/-- `AMBIENT_CHUNK` -/
def ambientChunkSize : ℕ := 16384

structure Provider (W : Type) where
  windows : List W
  label : Bool

def Provider.samples (p : Provider W) : List (Sample W) := p.windows.map fun w => (w, p.label)

/-- What was yielded, and the windows held: one window more. -/
def chunkStep (size : ℕ) (s : List (List (Sample W)) × List (Sample W)) (x : Sample W) :
    List (List (Sample W)) × List (Sample W) :=
  if (s.2 ++ [x]).length = size then (s.1 ++ [s.2 ++ [x]], []) else (s.1, s.2 ++ [x])

/-- `ambient_chunks` -/
def ambientChunks (providers : List (Provider W)) (size : ℕ) : List (List (Sample W)) :=
  let s := providers.foldl (fun s p => p.samples.foldl (chunkStep size) s) ([], [])
  s.1 ++ if s.2.isEmpty then [] else [s.2]

/-! ## The metrics -/

/-- `np.linspace(0.0, 1.0, 101)` -/
def cutoffs : List ℚ := (List.range 101).map fun i : ℕ => (i : ℚ) / 100

structure Metrics where
  accuracy : ℚ
  recalled : ℚ
  precision : ℚ
  auc : ℚ
  loss : ℚ
  recallAtNoFaph : ℚ := 0
  cutoffForNoFaph : ℚ := 0
  ambientFalsePositives : ℚ := 0
  ambientFalsePositivesPerHour : ℚ := 0
  averageViableRecall : ℚ := 0

/-- The metrics of the test set; those of the ambient set are 0 until it was evaluated. -/
def testMetrics (result : Results) : Metrics where
  accuracy := result.accuracy
  recalled := result.recalled
  precision := result.precision
  auc := result.auc
  loss := result.loss

/-- The value at 2 of the line through two points. -/
def interpolate (x0 y0 x1 y1 : ℚ) : ℚ := (y0 * (x1 - 2) + y1 * (2 - x0)) / (x1 - x0)

/-- `index_of_first_viable` and `recall_at_2faph`.  Where no rate falls to 2, the `while` runs
off the list. -/
def viable (recalls faphs : List ℚ) : Option (ℕ × ℚ) := do
  let highest ← faphs[0]?
  if 2 < highest then
    let index ← ((faphs.drop 1).findIdx? fun x => !decide (2 < x)).map (· + 1)
    let x0 ← faphs[index - 1]?
    let y0 ← recalls[index - 1]?
    let x1 ← faphs[index]?
    let y1 ← recalls[index]?
    return (index, interpolate x0 y0 x1 y1)
  else
    let recalled ← recalls[0]?
    return (0, recalled)

/-- The area under recall over false accepts per hour, from none to 2, halved. -/
def averageViableRecall (recalls faphs : List ℚ) : Option ℚ := do
  let (first, recallAt2faph) ← viable recalls faphs
  let points := thin [(2, recallAt2faph)] ((faphs.zip recalls).drop first)
  return trapezoid points.reverse / 2

/-- What the pass makes of the test set's results and those accumulated over the ambient set.
Without a cutoff that accepts nothing, two of its names are never bound. -/
def ambientMetrics (hours : ℚ) (metrics : Metrics) (test ambient : Results) : Option Metrics :=
  -- a rate or a recall divides by zero
  if hours = 0 ∨ (List.zipWith (· + ·) ambient.tp ambient.fn).contains 0 then none else do
  let ambientFalsePositives := List.zipWith (· - ·) ambient.fp test.fp
  let recalls := List.zipWith (fun tp fn => tp / (tp + fn)) ambient.tp ambient.fn
  let faphs := ambientFalsePositives.map (· / hours)
  let quiet ← faphs.findIdx? fun x => decide (x = 0)
  let averageViableRecall ← averageViableRecall recalls faphs
  let recallAtNoFaph ← recalls[quiet]?
  let cutoffForNoFaph ← cutoffs[quiet]?
  let falsePositives ← ambientFalsePositives[50]?
  let perHour ← faphs[50]?
  return { metrics with
    auc := ambient.auc
    loss := ambient.loss
    recallAtNoFaph
    cutoffForNoFaph
    ambientFalsePositives := falsePositives
    ambientFalsePositivesPerHour := perHour
    averageViableRecall }

/-- `validate_nonstreaming`: `modeSize` is the size of the ambient validation set, `seconds` how
long it is.  Keras does not evaluate an empty test set. -/
def validateNonstreaming (test : List (Sample W)) (providers : List (Provider W)) (modeSize : ℕ)
    (seconds : ℚ) : Option Metrics :=
  if test.isEmpty then none else
  let m := evaluate k k.fresh test
  let result := k.results m
  let metrics := testMetrics result
  if 0 < modeSize then
    let chunks := ambientChunks providers ambientChunkSize
    if chunks.isEmpty then some metrics
    else ambientMetrics (seconds / 3600) metrics result (k.results (chunks.foldl (evaluate k) m))
  else some metrics

end Pass

/-! ## The chunks -/

section Chunked

variable {W M : Type} {k : Keras W M}

theorem foldl_chunkStep {size : ℕ} (hsize : 0 < size) (xs : List (Sample W)) :
    ∀ seen : List (Sample W), xs.foldl (chunkStep size) (chunks size seen, rest size seen) =
      (chunks size (seen ++ xs), rest size (seen ++ xs)) := by
  induction xs with
  | nil => exact fun seen => by rw [List.append_nil]; rfl
  | cons x xs ih =>
    intro seen
    have hstep : chunkStep size (chunks size seen, rest size seen) x =
        (chunks size (seen ++ [x]), rest size (seen ++ [x])) := (chunks_concat hsize seen x).symm
    rw [List.foldl_cons, hstep, ih, List.append_assoc, List.singleton_append]

theorem foldl_providers {size : ℕ} (hsize : 0 < size) (providers : List (Provider W)) :
    ∀ seen : List (Sample W), providers.foldl (fun s p => p.samples.foldl (chunkStep size) s)
      (chunks size seen, rest size seen) =
        (chunks size (seen ++ providers.flatMap Provider.samples),
          rest size (seen ++ providers.flatMap Provider.samples)) := by
  induction providers with
  | nil => exact fun seen => by rw [List.flatMap_nil, List.append_nil]; rfl
  | cons p providers ih =>
    intro seen
    rw [List.foldl_cons, foldl_chunkStep hsize, ih, List.flatMap_cons, List.append_assoc]

/-- The generator yields every window, in order, in chunks of one size but for the last. -/
theorem ambientChunks_eq {size : ℕ} (hsize : 0 < size) (providers : List (Provider W)) :
    ambientChunks providers size = allChunks size (providers.flatMap Provider.samples) := by
  have hstart : (([], []) : List (List (Sample W)) × List (Sample W)) =
      (chunks size [], rest size []) := by
    rw [chunks_of_lt hsize, rest_of_lt hsize]
  rw [ambientChunks, hstart, foldl_providers hsize, List.nil_append, allChunks]

theorem evaluate_nil (m : M) : evaluate k m [] = m := by
  rw [evaluate, allChunks_nil]
  rfl

/-- A chunk more is as many batches more. -/
theorem evaluate_append {front : List (Sample W)} (hdvd : 1024 ∣ front.length) (m : M)
    (back : List (Sample W)) :
    evaluate k m (front ++ back) = evaluate k (evaluate k m front) back := by
  rw [evaluate, allChunks_append_of_dvd (by decide) hdvd, List.foldl_append]
  rfl

theorem foldl_evaluate {size : ℕ} (hdvd : 1024 ∣ size) (cs : List (List (Sample W)))
    (hcs : ∀ c ∈ cs, c.length = size) (last : List (Sample W)) : ∀ m : M,
      (cs ++ [last]).foldl (evaluate k) m = evaluate k m (cs.flatten ++ last) := by
  induction cs with
  | nil => exact fun m => rfl
  | cons c cs ih =>
    intro m
    have hc : 1024 ∣ c.length := hcs c List.mem_cons_self ▸ hdvd
    rw [List.cons_append, List.foldl_cons, ih fun d hd => hcs d (List.mem_cons_of_mem _ hd),
      List.flatten_cons, List.append_assoc, evaluate_append hc]

/-- **The chunks are not seen in the metrics**: they are those of one evaluation of all windows. -/
theorem chunks_evaluate {size : ℕ} (hsize : 0 < size) (hdvd : 1024 ∣ size)
    (providers : List (Provider W)) (m : M) :
    (ambientChunks providers size).foldl (evaluate k) m =
      evaluate k m (providers.flatMap Provider.samples) := by
  rw [ambientChunks_eq hsize]
  generalize providers.flatMap Provider.samples = samples
  have hsplit := chunks_append_rest size samples
  have hall := foldl_evaluate (k := k) hdvd (chunks size samples)
    (fun c hc => length_of_mem_chunks hc) (rest size samples) m
  rw [hsplit] at hall
  rw [allChunks]
  split_ifs with h
  · rw [List.isEmpty_iff.mp h, List.foldl_append, List.foldl_cons, List.foldl_nil,
      evaluate_nil] at hall
    rw [List.append_nil]
    exact hall
  · exact hall

end Chunked

/-! ## The curve -/

section Curve

variable {F R : ℚ → ℚ} {cs : List ℚ}

theorem findIdx?_front {α : Type} {p : α → Bool} {front back : List α} {x : α}
    (hfront : ∀ y ∈ front, p y = false) (hx : p x = true) :
    (front ++ x :: back).findIdx? p = some front.length := by
  rw [List.findIdx?_append, List.findIdx?_eq_none_iff.mpr hfront, Option.none_or,
    List.findIdx?_cons, if_pos hx, Option.map_some, Nat.zero_add]

/-- A list up to its first item of which `p` is true. -/
theorem exists_first {α : Type} {p : α → Bool} {l : List α} (h : ∃ x ∈ l, p x = true) :
    ∃ front x back, l = front ++ x :: back ∧ (∀ y ∈ front, p y = false) ∧ p x = true := by
  obtain ⟨x, hx⟩ := Option.isSome_iff_exists.mp (List.find?_isSome.mpr h)
  obtain ⟨hp, front, back, rfl, hfront⟩ := List.find?_eq_some_iff_append.mp hx
  exact ⟨front, x, back, rfl, fun y hy => by simpa using hfront y hy, hp⟩

theorem getElem?_map_front {α β : Type} (f : α → β) (front : List α) (x : α) (back : List α) :
    ((front ++ x :: back).map f)[front.length]? = some (f x) := by
  rw [List.getElem?_map, List.getElem?_append_right le_rfl, Nat.sub_self]
  rfl

/-- Recall over false accepts per hour, at the cutoffs. -/
def curve (F R : ℚ → ℚ) (cs : List ℚ) : List (ℚ × ℚ) := cs.map fun c => (F c, R c)

theorem zip_curve : (cs.map F).zip (cs.map R) = curve F R cs := by
  rw [List.zip_map', curve]

/-- Where the area begins: past the cutoffs with over 2 false accepts per hour, with a recall
between those on both sides. -/
structure Begins (F R : ℚ → ℚ) (cs front rest : List ℚ) (y : ℚ) : Prop where
  split : cs = front ++ rest
  beyond : ∀ c ∈ front, 2 < F c
  within : ∀ c ∈ rest, F c ≤ 2
  above : ∀ c ∈ rest, R c ≤ y
  below : ∀ c ∈ cs, 2 < F c → y ≤ R c
  top : ∀ c ∈ cs.head?, y ≤ R c

/-- The line through two points on both sides of 2 stays between them. -/
theorem interpolate_mem {x0 y0 x1 y1 : ℚ} (hx0 : 2 < x0) (hx1 : x1 ≤ 2) (hy : y1 ≤ y0) :
    y1 ≤ interpolate x0 y0 x1 y1 ∧ interpolate x0 y0 x1 y1 ≤ y0 := by
  have hneg : x1 - x0 < 0 := by linarith
  rw [interpolate]
  constructor
  · rw [le_div_iff_of_neg hneg]
    nlinarith [mul_nonneg (sub_nonneg.mpr hy) (sub_nonneg.mpr hx1)]
  · rw [div_le_iff_of_neg hneg]
    nlinarith [mul_nonneg (sub_nonneg.mpr hy) (sub_nonneg.mpr hx0.le)]

/-- The `while`: the first cutoff with at most 2 an hour is `b`, the one before it `a`. -/
theorem viable_while {init back : List ℚ} {a b : ℚ} (hfront : ∀ d ∈ init ++ [a], 2 < F d)
    (hb : F b ≤ 2) :
    viable ((init ++ a :: b :: back).map R) ((init ++ a :: b :: back).map F) =
      some (init.length + 1, interpolate (F a) (R a) (F b) (R b)) := by
  have hlast : ∀ f : ℚ → ℚ, ((init ++ a :: b :: back).map f)[init.length]? = some (f a) :=
    fun f => getElem?_map_front f init a (b :: back)
  have hnext : ∀ f : ℚ → ℚ, ((init ++ a :: b :: back).map f)[init.length + 1]? = some (f b) :=
    fun f => by
      have h := getElem?_map_front f (init ++ [a]) b back
      rwa [List.length_append, List.length_singleton, List.append_assoc,
        List.singleton_append] at h
  obtain ⟨c, mid, hmid⟩ : ∃ c mid, init ++ [a] = c :: mid :=
    List.exists_cons_of_ne_nil (List.append_ne_nil_of_right_ne_nil _ (List.cons_ne_nil _ _))
  have hsplit : init ++ a :: b :: back = c :: (mid ++ b :: back) := by
    rw [← List.cons_append, ← hmid, List.append_assoc, List.singleton_append]
  have hhead : ((init ++ a :: b :: back).map F)[0]? = some (F c) := by
    rw [hsplit]
    rfl
  have hlength : mid.length = init.length := by
    have h := congrArg List.length hmid
    rw [List.length_append, List.length_singleton, List.length_cons] at h
    omega
  have hc : 2 < F c := hfront c (hmid ▸ List.mem_cons_self)
  have hindex : (((init ++ a :: b :: back).map F).drop 1).findIdx?
      (fun x => !decide (2 < x)) = some init.length := by
    have hfirst : (!decide (2 < F b)) = true := by simpa using hb
    rw [hsplit, List.map_cons, List.drop_one, List.tail_cons, List.map_append, List.map_cons,
      findIdx?_front (p := fun x => !decide (2 < x)) (fun x hx => ?_) hfirst, List.length_map,
      hlength]
    obtain ⟨d, hd, rfl⟩ := List.mem_map.mp hx
    have h2 : 2 < F d := hfront d (hmid ▸ List.mem_cons_of_mem _ hd)
    simpa using h2
  simp only [viable, hhead, hindex, Option.bind_eq_bind, Option.bind_some, Option.map_some,
    if_pos hc, Nat.add_sub_cancel, hlast, hnext]
  rfl

theorem viable_head {c : ℚ} (hc : F c ≤ 2) :
    viable ((c :: cs).map R) ((c :: cs).map F) = some (0, R c) := by
  simp only [viable, List.map_cons, List.getElem?_cons_zero, Option.bind_eq_bind,
    Option.bind_some, if_neg (not_lt.mpr hc)]
  rfl

/-- The cutoffs with over 2 an hour come first. -/
theorem exists_split (hF : Antitone F) (hsorted : cs.Pairwise (· < ·))
    (hquiet : ∃ c ∈ cs, F c ≤ 2) :
    ∃ front b back, cs = front ++ b :: back ∧ (∀ c ∈ front, 2 < F c) ∧
      ∀ c ∈ b :: back, F c ≤ 2 ∧ b ≤ c := by
  obtain ⟨front, b, back, rfl, hfront, hb⟩ :=
    exists_first (p := fun c => decide (F c ≤ 2)) (l := cs)
      (hquiet.imp fun c hc => ⟨hc.1, decide_eq_true hc.2⟩)
  refine ⟨front, b, back, rfl, fun c hc => not_le.mp (of_decide_eq_false (hfront c hc)), ?_⟩
  intro c hc
  have hle : b ≤ c := by
    rcases List.mem_cons.mp hc with rfl | hc
    · exact le_rfl
    · have hback := (List.pairwise_append.mp hsorted).2.1
      exact ((List.pairwise_cons.mp hback).1 c hc).le
  exact ⟨(hF hle).trans (of_decide_eq_true hb), hle⟩

theorem viable_spec (hF : Antitone F) (hR : Antitone R) (hsorted : cs.Pairwise (· < ·))
    (hquiet : ∃ c ∈ cs, F c ≤ 2) :
    ∃ front rest y, viable (cs.map R) (cs.map F) = some (front.length, y) ∧
      Begins F R cs front rest y := by
  obtain ⟨front, b, back, rfl, hfront, hback⟩ := exists_split hF hsorted hquiet
  have hb : F b ≤ 2 := (hback b List.mem_cons_self).1
  have hinfront : ∀ c ∈ front ++ b :: back, 2 < F c → c ∈ front := fun c hc h2 =>
    (List.mem_append.mp hc).resolve_right fun hc => absurd h2 (not_lt.mpr (hback c hc).1)
  rcases List.eq_nil_or_concat front with rfl | ⟨init, a, rfl⟩
  · refine ⟨[], b :: back, R b, viable_head hb, rfl, hfront, fun c hc => (hback c hc).1,
      fun c hc => hR (hback c hc).2, fun c hc h2 => ?_, fun c hc => ?_⟩
    · exact absurd (hinfront c hc h2) List.not_mem_nil
    · exact (congrArg R (Option.some.inj hc)).le
  · rw [List.concat_eq_append] at *
    have hlast : ∀ c ∈ init ++ [a], c ≤ a := by
      intro c hc
      rcases List.mem_append.mp hc with hc | hc
      · exact ((List.pairwise_append.mp (List.pairwise_append.mp hsorted).1).2.2 c hc a
          (List.mem_singleton_self a)).le
      · exact (List.mem_singleton.mp hc).le
    have ha : a ∈ init ++ [a] := List.mem_append_right _ (List.mem_singleton_self a)
    have hab : a ≤ b := ((List.pairwise_append.mp hsorted).2.2 a ha b List.mem_cons_self).le
    obtain ⟨hlow, hhigh⟩ := interpolate_mem (hfront a ha) hb (hR hab)
    have hbelow : ∀ c ∈ init ++ [a] ++ b :: back, 2 < F c →
        interpolate (F a) (R a) (F b) (R b) ≤ R c := fun c hc h2 =>
      hhigh.trans (hR (hlast c (hinfront c hc h2)))
    refine ⟨init ++ [a], b :: back, interpolate (F a) (R a) (F b) (R b), ?_, rfl, hfront,
      fun c hc => (hback c hc).1, fun c hc => (hR (hback c hc).2).trans hlow, hbelow, ?_⟩
    · rw [List.append_assoc, List.singleton_append, viable_while hfront hb, List.length_append,
        List.length_singleton]
    · intro c hc
      have hhead : c ∈ init ++ [a] := by
        rw [List.head?_append_of_ne_nil _ (List.append_ne_nil_of_right_ne_nil _
          (List.cons_ne_nil _ _))] at hc
        exact List.mem_of_head? hc
      exact hbelow c (List.mem_append_left _ hhead) (hfront c hhead)

/-- The curve from its beginning on: what the trapezoids are of. -/
theorem drop_curve {front rest : List ℚ} (hsplit : cs = front ++ rest) :
    ((cs.map F).zip (cs.map R)).drop front.length = curve F R rest := by
  rw [zip_curve, hsplit, curve, List.map_append, ← List.length_map (fun c => (F c, R c)),
    List.drop_left, curve]

/-- The kept points go from 2 down to none, a point for each rate. -/
theorem kept_spec {front mid back : List ℚ} {q y : ℚ} (hF : Antitone F) (hR : Antitone R)
    (hnonneg : ∀ c, 0 ≤ F c) (hsorted : (mid ++ q :: back).Pairwise (· < ·))
    (hbegins : Begins F R cs front (mid ++ q :: back) y) (hmid : ∀ c ∈ mid, F c ≠ 0)
    (hq : F q = 0) :
    ∃ ps : List (ℚ × ℚ),
      thin [(2, y)] (curve F R (mid ++ q :: back)) = (2, y) :: ps ++ [(0, R q)] ∧
      ((2, y) :: ps ++ [(0, R q)]).Pairwise (fun p r : ℚ × ℚ => r.1 < p.1) ∧
        ∀ r ∈ (2, y) :: ps ++ [(0, R q)], R q ≤ r.2 ∧ r.2 ≤ y := by
  have hbefore : ∀ c ∈ mid, c ≤ q := fun c hc =>
    ((List.pairwise_append.mp hsorted).2.2 c hc q List.mem_cons_self).le
  have hpast : ∀ c ∈ back, q ≤ c := fun c hc =>
    ((List.pairwise_cons.mp (List.pairwise_append.mp hsorted).2.1).1 c hc).le
  have hinmid : ∀ c ∈ mid, c ∈ mid ++ q :: back := fun c hc => List.mem_append_left _ hc
  have habove : R q ≤ y := hbegins.above q (List.mem_append_right _ List.mem_cons_self)
  have hcurve : curve F R (mid ++ q :: back) =
      curve F R mid ++ (0, R q) :: curve F R back := by
    rw [curve, List.map_append, List.map_cons, hq, curve, curve]
  rw [hcurve]
  have hfalling : Falling (thin [(2, y)] (curve F R mid ++ (0, R q) :: curve F R back))
      (0, R q) ∧ ∀ r ∈ thin [(2, y)] (curve F R mid ++ (0, R q) :: curve F R back),
        r ∈ [((2 : ℚ), y)] ∨ r ∈ curve F R mid ∨ r = (0, R q) := by
    refine thin_spec rfl ?_ ⟨List.pairwise_singleton _ _, rfl⟩ (by norm_num) ?_ ?_
    · intro r hr
      obtain ⟨c, hc, rfl⟩ := List.mem_map.mp hr
      exact le_antisymm ((hF (hpast c hc)).trans hq.le) (hnonneg c)
    · refine List.pairwise_cons.mpr ⟨fun r hr => ?_, ?_⟩
      · obtain ⟨c, hc, rfl⟩ := List.mem_map.mp hr
        exact hbegins.within c (hinmid c hc)
      · exact List.pairwise_map.mpr
          ((List.pairwise_append.mp hsorted).1.imp fun hlt => hF hlt.le)
    · intro r hr
      obtain ⟨c, hc, rfl⟩ := List.mem_map.mp hr
      exact lt_of_le_of_ne (hnonneg c) (hmid c hc).symm
  obtain ⟨⟨hsort, hend⟩, hmem⟩ := hfalling
  obtain ⟨t, ht⟩ : [((2 : ℚ), y)] <+:
      thin [(2, y)] (curve F R mid ++ (0, R q) :: curve F R back) := prefix_thin _
  rw [← ht] at hsort hend hmem ⊢
  -- the last of them is not the first
  obtain ⟨ps, rfl⟩ : ∃ ps, t = ps ++ [(0, R q)] := by
    rcases List.eq_nil_or_concat t with rfl | ⟨ps, last, rfl⟩
    · exact absurd (Prod.mk.inj (Option.some.inj hend)).1 (by norm_num)
    · rw [List.concat_eq_append, ← List.append_assoc, List.getLast?_concat] at hend
      exact ⟨ps, by rw [List.concat_eq_append, Option.some.inj hend]⟩
  refine ⟨ps, rfl, hsort, fun r hr => ?_⟩
  rcases hmem r hr with hr | hr | rfl
  · rw [List.mem_singleton.mp hr]
    exact ⟨habove, le_rfl⟩
  · obtain ⟨c, hc, rfl⟩ := List.mem_map.mp hr
    exact ⟨hR (hbefore c hc), hbegins.above c (hinmid c hc)⟩
  · exact ⟨le_rfl, habove⟩

/-- **The area is one of recalls**: it begins at 2 and ends at the first cutoff that accepts
nothing, so it lies between the recalls there. -/
theorem average_spec (hF : Antitone F) (hR : Antitone R) (hnonneg : ∀ c, 0 ≤ F c)
    (hsorted : cs.Pairwise (· < ·)) (hquiet : ∃ c ∈ cs, F c = 0) :
    ∃ before q after a, cs = before ++ q :: after ∧ (∀ c ∈ before, F c ≠ 0) ∧ F q = 0 ∧
      averageViableRecall (cs.map R) (cs.map F) = some a ∧ R q ≤ a ∧
        (∀ c ∈ cs, 2 < F c → a ≤ R c) ∧ ∀ c ∈ cs.head?, a ≤ R c := by
  have hrate : ∃ c ∈ cs, F c ≤ 2 :=
    hquiet.imp fun c hc => ⟨hc.1, hc.2.le.trans (by norm_num)⟩
  obtain ⟨front, rest, y, hviable, hbegins⟩ := viable_spec hF hR hsorted hrate
  have hloud : ∀ c ∈ front, F c ≠ 0 := fun c hc =>
    ((by norm_num : (0 : ℚ) < 2).trans (hbegins.beyond c hc)).ne'
  have hrest : ∃ c ∈ rest, decide (F c = 0) = true := by
    obtain ⟨c, hc, hzero⟩ := hquiet
    rw [hbegins.split] at hc
    rcases List.mem_append.mp hc with hc | hc
    · exact absurd hzero (hloud c hc)
    · exact ⟨c, hc, decide_eq_true hzero⟩
  obtain ⟨mid, q, back, rfl, hmid, hq⟩ := exists_first hrest
  have hq : F q = 0 := of_decide_eq_true hq
  have hmid : ∀ c ∈ mid, F c ≠ 0 := fun c hc => of_decide_eq_false (hmid c hc)
  have hall := hbegins.split ▸ hsorted
  obtain ⟨ps, hps, hsort, hvalues⟩ := kept_spec hF hR hnonneg (List.pairwise_append.mp hall).2.1
    hbegins hmid hq
  have harea : R q * (2 - 0) ≤ trapezoid ((2, y) :: ps ++ [(0, R q)]).reverse ∧
      trapezoid ((2, y) :: ps ++ [(0, R q)]).reverse ≤ y * (2 - 0) :=
    trapezoid_reverse_mem hsort (fun r hr => (hvalues r hr).1) fun r hr => (hvalues r hr).2
  have haverage : averageViableRecall (cs.map R) (cs.map F) =
      some (trapezoid ((2, y) :: ps ++ [(0, R q)]).reverse / 2) := by
    simp only [averageViableRecall, hviable, Option.bind_eq_bind, Option.bind_some,
      drop_curve hbegins.split, hps]
    rfl
  have hupper : trapezoid ((2, y) :: ps ++ [(0, R q)]).reverse / 2 ≤ y := by
    linarith [harea.2]
  refine ⟨front ++ mid, q, back, _, ?_, ?_, hq, haverage, ?_, ?_, ?_⟩
  · rw [hbegins.split, List.append_assoc]
  · intro c hc
    rcases List.mem_append.mp hc with hc | hc
    · exact hloud c hc
    · exact hmid c hc
  · linarith [harea.1]
  · exact fun c hc h2 => hupper.trans (hbegins.below c hc h2)
  · exact fun c hc => hupper.trans (hbegins.top c hc)

end Curve

/-! ## The counts -/

section Counts

variable {W M : Type} {k : Keras W M} {accepts : ℚ → W → Bool}

/-- The samples of one label that are accepted at a cutoff. -/
def accepted (accepts : ℚ → W → Bool) (label : Bool) (samples : List (Sample W)) (c : ℚ) : ℕ :=
  samples.countP fun s => s.2 == label && accepts c s.1

def missed (accepts : ℚ → W → Bool) (samples : List (Sample W)) (c : ℚ) : ℕ :=
  samples.countP fun s => s.2 && !accepts c s.1

/-- The share of the wake word's samples that is accepted. -/
def recallAt (accepts : ℚ → W → Bool) (samples : List (Sample W)) (c : ℚ) : ℚ :=
  accepted accepts true samples c / (accepted accepts true samples c + missed accepts samples c)

/-- What is relied on of the counts: they are those of all batches since the reset, a window that
is accepted at a cutoff is accepted at every lower one, and none is accepted at 1. -/
structure Counting (k : Keras W M) (accepts : ℚ → W → Bool) : Prop where
  falls : ∀ {c d : ℚ} (w : W), c ≤ d → accepts d w = true → accepts c w = true
  one : ∀ w, accepts 1 w = false
  tp : ∀ batches : List (List (Sample W)), (k.results (batches.foldl k.update k.fresh)).tp =
    cutoffs.map fun c => (accepted accepts true batches.flatten c : ℚ)
  fp : ∀ batches : List (List (Sample W)), (k.results (batches.foldl k.update k.fresh)).fp =
    cutoffs.map fun c => (accepted accepts false batches.flatten c : ℚ)
  fn : ∀ batches : List (List (Sample W)), (k.results (batches.foldl k.update k.fresh)).fn =
    cutoffs.map fun c => (missed accepts batches.flatten c : ℚ)

theorem accepted_append (label : Bool) (s t : List (Sample W)) (c : ℚ) :
    accepted accepts label (s ++ t) c =
      accepted accepts label s c + accepted accepts label t c := List.countP_append

theorem accepted_add_missed (samples : List (Sample W)) (c : ℚ) :
    accepted accepts true samples c + missed accepts samples c =
      samples.countP fun s => s.2 := by
  induction samples with
  | nil => rfl
  | cons s samples ih =>
    rw [accepted, missed, List.countP_cons, List.countP_cons, List.countP_cons, ← ih, accepted,
      missed]
    rcases s with ⟨w, l⟩
    cases l <;> cases accepts c w <;> simp <;> omega

theorem Counting.accepted_antitone (h : Counting k accepts) (label : Bool)
    (samples : List (Sample W)) : Antitone (accepted accepts label samples) := by
  intro c d hcd
  refine List.countP_mono_left fun s _ hs => ?_
  rw [Bool.and_eq_true] at hs ⊢
  exact ⟨hs.1, h.falls s.1 hcd hs.2⟩

theorem Counting.accepted_one (h : Counting k accepts) (label : Bool)
    (samples : List (Sample W)) : accepted accepts label samples 1 = 0 := by
  refine List.countP_eq_zero.mpr fun s _ hs => ?_
  rw [Bool.and_eq_true, h.one] at hs
  exact absurd hs.2 Bool.false_ne_true

theorem Counting.recallAt_antitone (h : Counting k accepts) (samples : List (Sample W)) :
    Antitone (recallAt accepts samples) := by
  intro c d hcd
  have hsum : ∀ e, (accepted accepts true samples e : ℚ) + missed accepts samples e =
      (samples.countP fun s => s.2 : ℕ) := fun e => by
    rw [← Nat.cast_add, accepted_add_missed]
  rw [recallAt, recallAt, hsum, hsum]
  exact div_le_div_of_nonneg_right (Nat.cast_le.mpr (h.accepted_antitone true samples hcd))
    (Nat.cast_nonneg _)

/-! ## The cutoffs -/

theorem pairwise_cutoffs : cutoffs.Pairwise (· < ·) :=
  List.pairwise_map.mpr (List.pairwise_lt_range.imp fun hlt =>
    div_lt_div_of_pos_right (Nat.cast_lt.mpr hlt) (by norm_num))

theorem one_mem_cutoffs : (1 : ℚ) ∈ cutoffs :=
  List.mem_map.mpr ⟨100, List.mem_range.mpr (by decide), by norm_num⟩

theorem head?_cutoffs : cutoffs.head? = some 0 := by
  rw [cutoffs, List.head?_map, List.head?_range, if_neg (by decide), Option.map_some,
    Nat.cast_zero, zero_div]

theorem getElem?_cutoffs : cutoffs[50]? = some (1 / 2) := by
  rw [cutoffs, List.getElem?_map, List.getElem?_range (by decide), Option.map_some]
  norm_num

/-! ## What the pass returns -/

/-- What the pass is to return of a test set and the windows of the ambient one: the metrics of one
evaluation of both, what is accepted an hour, and an average of the recalls below 2 an hour. -/
structure Validated (accepts : ℚ → W → Bool) (test windows : List (Sample W)) (hours : ℚ)
    (result both : Results) (m : Metrics) : Prop where
  tested : m.accuracy = result.accuracy ∧ m.recalled = result.recalled ∧
    m.precision = result.precision
  both : m.auc = both.auc ∧ m.loss = both.loss
  quiet : IsLeast {c | c ∈ cutoffs ∧ accepted accepts false windows c = 0} m.cutoffForNoFaph
  recallQuiet : m.recallAtNoFaph = recallAt accepts (test ++ windows) m.cutoffForNoFaph
  half : m.ambientFalsePositives = accepted accepts false windows (1 / 2) ∧
    m.ambientFalsePositivesPerHour = accepted accepts false windows (1 / 2) / hours
  average : m.recallAtNoFaph ≤ m.averageViableRecall ∧
    m.averageViableRecall ≤ recallAt accepts (test ++ windows) 0
  /-- A cutoff with more than 2 an hour recalls no less. -/
  viable : ∀ c ∈ cutoffs, 2 < accepted accepts false windows c / hours →
    m.averageViableRecall ≤ recallAt accepts (test ++ windows) c

theorem evaluate_both (test windows : List (Sample W)) :
    evaluate k (evaluate k k.fresh test) windows =
      (allChunks 1024 test ++ allChunks 1024 windows).foldl k.update k.fresh := by
  rw [evaluate, evaluate, List.foldl_append]

theorem zipWith_cutoffs (f : ℚ → ℚ → ℚ) (g h : ℚ → ℚ) :
    List.zipWith f (cutoffs.map g) (cutoffs.map h) = cutoffs.map fun c => f (g c) (h c) := by
  rw [List.zipWith_map, List.zipWith_self]

theorem flatten_both (test windows : List (Sample W)) :
    (allChunks 1024 test ++ allChunks 1024 windows).flatten = test ++ windows := by
  rw [List.flatten_append, flatten_allChunks, flatten_allChunks]

/-- What is taken off the accumulated counts leaves those of the ambient windows. -/
theorem Counting.falsePositives (h : Counting k accepts) (test windows : List (Sample W)) :
    List.zipWith (· - ·) (k.results (evaluate k (evaluate k k.fresh test) windows)).fp
        (k.results (evaluate k k.fresh test)).fp =
      cutoffs.map fun c => (accepted accepts false windows c : ℚ) := by
  rw [evaluate_both, h.fp, flatten_both, evaluate, h.fp, flatten_allChunks, zipWith_cutoffs]
  refine List.map_congr_left fun c _ => ?_
  rw [accepted_append, Nat.cast_add, add_sub_cancel_left]

theorem Counting.recalls (h : Counting k accepts) (test windows : List (Sample W)) :
    List.zipWith (fun tp fn => tp / (tp + fn))
        (k.results (evaluate k (evaluate k k.fresh test) windows)).tp
        (k.results (evaluate k (evaluate k k.fresh test) windows)).fn =
      cutoffs.map (recallAt accepts (test ++ windows)) := by
  rw [evaluate_both, h.tp, h.fn, flatten_both, zipWith_cutoffs]
  rfl

theorem Counting.divides (h : Counting k accepts) {test windows : List (Sample W)}
    (hwoken : ∃ s ∈ test ++ windows, s.2 = true) :
    ¬(List.zipWith (· + ·) (k.results (evaluate k (evaluate k k.fresh test) windows)).tp
      (k.results (evaluate k (evaluate k k.fresh test) windows)).fn).contains 0 = true := by
  rw [evaluate_both, h.tp, h.fn, flatten_both, zipWith_cutoffs, List.contains_iff_mem]
  intro hmem
  obtain ⟨c, -, hc⟩ := List.mem_map.mp hmem
  rw [← Nat.cast_add, accepted_add_missed, Nat.cast_eq_zero, List.countP_eq_zero] at hc
  obtain ⟨s, hs, hlabel⟩ := hwoken
  exact hc s hs hlabel

theorem ambientMetrics_spec (h : Counting k accepts) {test windows : List (Sample W)} {hours : ℚ}
    (hhours : 0 < hours) (hwoken : ∃ s ∈ test ++ windows, s.2 = true) :
    ∃ m, ambientMetrics hours (testMetrics (k.results (evaluate k k.fresh test)))
        (k.results (evaluate k k.fresh test))
        (k.results (evaluate k (evaluate k k.fresh test) windows)) = some m ∧
      Validated accepts test windows hours (k.results (evaluate k k.fresh test))
        (k.results (evaluate k (evaluate k k.fresh test) windows)) m := by
  have hdivides := not_or.mpr ⟨hhours.ne', h.divides hwoken⟩
  have hfaphs : (cutoffs.map fun c => (accepted accepts false windows c : ℚ)).map (· / hours) =
      cutoffs.map fun c => (accepted accepts false windows c : ℚ) / hours := by
    rw [List.map_map]
    rfl
  have hzero : ∀ c, (accepted accepts false windows c : ℚ) / hours = 0 ↔
      accepted accepts false windows c = 0 := fun c => by
    rw [div_eq_zero_iff, or_iff_left hhours.ne', Nat.cast_eq_zero]
  have hrate : Antitone fun c => (accepted accepts false windows c : ℚ) / hours :=
    fun c d hcd => div_le_div_of_nonneg_right
      (Nat.cast_le.mpr (h.accepted_antitone false windows hcd)) hhours.le
  obtain ⟨before, q, after, a, hsplit, hloud, hq, haverage, hlow, hviable, htop⟩ :=
    average_spec hrate (h.recallAt_antitone (test ++ windows))
      (fun c => div_nonneg (Nat.cast_nonneg _) hhours.le) pairwise_cutoffs
      ⟨1, one_mem_cutoffs, (hzero 1).mpr (h.accepted_one false windows)⟩
  have hquiet : (cutoffs.map fun c => (accepted accepts false windows c : ℚ) / hours).findIdx?
      (fun x => decide (x = 0)) = some before.length := by
    have hfirst : decide ((accepted accepts false windows q : ℚ) / hours = 0) = true :=
      decide_eq_true hq
    rw [hsplit, List.map_append, List.map_cons,
      findIdx?_front (p := fun x => decide (x = 0)) (fun y hy => ?_) hfirst, List.length_map]
    obtain ⟨c, hc, rfl⟩ := List.mem_map.mp hy
    exact decide_eq_false (hloud c hc)
  have hcutoff : cutoffs[before.length]? = some q := by
    have hid := getElem?_map_front id before q after
    rwa [List.map_id, ← hsplit] at hid
  have hmem : q ∈ cutoffs := by
    rw [hsplit]
    exact List.mem_append_right _ List.mem_cons_self
  let m : Metrics := { testMetrics (k.results (evaluate k k.fresh test)) with
    auc := (k.results (evaluate k (evaluate k k.fresh test) windows)).auc
    loss := (k.results (evaluate k (evaluate k k.fresh test) windows)).loss
    recallAtNoFaph := recallAt accepts (test ++ windows) q
    cutoffForNoFaph := q
    ambientFalsePositives := accepted accepts false windows (1 / 2)
    ambientFalsePositivesPerHour := accepted accepts false windows (1 / 2) / hours
    averageViableRecall := a }
  refine ⟨m, ?_, ⟨rfl, rfl, rfl⟩, ⟨rfl, rfl⟩, ?_, rfl, ⟨rfl, rfl⟩, ⟨hlow, ?_⟩, hviable⟩
  · simp only [ambientMetrics, if_neg hdivides, h.falsePositives, h.recalls, hfaphs, hquiet,
      haverage, hcutoff, List.getElem?_map, getElem?_cutoffs, Option.map_some,
      Option.bind_eq_bind, Option.bind_some]
    rfl
  · refine ⟨⟨hmem, (hzero q).mp hq⟩, fun c hc => ?_⟩
    have hnot : c ∉ before := fun hb => hloud c hb ((hzero c).mpr hc.2)
    have hc' := hc.1
    rw [hsplit] at hc'
    rcases List.mem_append.mp hc' with hb | hb
    · exact absurd hb hnot
    · rcases List.mem_cons.mp hb with rfl | hb
      · exact le_rfl
      · have hsorted := pairwise_cutoffs
        rw [hsplit] at hsorted
        exact ((List.pairwise_cons.mp (List.pairwise_append.mp hsorted).2.1).1 c hb).le
  · exact htop 0 (by rw [head?_cutoffs]; rfl)

/-- A model whose windows are their scores, and whose metrics are of all samples since the reset. -/
def scorer : Keras ℚ (List (Sample ℚ)) where
  fresh := []
  update m batch := m ++ batch
  results m :=
    { accuracy := 0, recalled := 0, precision := 0, auc := 0, loss := 0,
      tp := cutoffs.map fun c => (accepted (fun c w => decide (c < min w 1)) true m c : ℚ),
      fp := cutoffs.map fun c => (accepted (fun c w => decide (c < min w 1)) false m c : ℚ),
      fn := cutoffs.map fun c => (missed (fun c w => decide (c < min w 1)) m c : ℚ) }

theorem scorer_fold (batches : List (List (Sample ℚ))) : ∀ m,
    batches.foldl scorer.update m = m ++ batches.flatten := by
  induction batches with
  | nil => exact fun m => (List.append_nil m).symm
  | cons b batches ih =>
    intro m
    rw [List.foldl_cons, ih, List.flatten_cons, ← List.append_assoc]
    rfl

theorem scorer_counting : Counting scorer fun c w => decide (c < min w 1) := by
  have hfold : ∀ batches : List (List (Sample ℚ)),
      batches.foldl scorer.update scorer.fresh = batches.flatten :=
    fun batches => scorer_fold batches []
  refine ⟨fun w hcd hd => ?_, fun w => ?_, fun batches => ?_, fun batches => ?_,
    fun batches => ?_⟩
  · exact decide_eq_true (lt_of_le_of_lt hcd (of_decide_eq_true hd))
  · exact decide_eq_false (not_lt.mpr (min_le_right w 1))
  all_goals
    rw [hfold]
    rfl

end Counts

end StudioWorker.WakeWord.Validation
