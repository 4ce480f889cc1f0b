import Mathlib.Algebra.Order.Floor.Semiring
import StudioWorker.Convert.Simplify

/-!
# Convert.Resample — points evenly along a polyline (`python/convert/recipe.py`)

* `resample`: as in the source, over any ordered field and any lengths.
* `total`, `pointAt`: a polyline by the length walked along it.
* `resample_eq`: the points are those at every multiple of the spacing, and the last.
-/

namespace StudioWorker.Convert

section Model

variable {F : Type} [Field F] [LinearOrder F] (hypot : F → F → F) (spacing : F)

/-- `t` of the way from one point to another. -/
def along (p q : Point F) (t : F) : Point F := (p.1 + (q.1 - p.1) * t, p.2 + (q.2 - p.2) * t)

/-- `while walked <= length`; `none` when that many passes do not get there. -/
def emit (p q : Point F) (length : F) :
    ℕ → F → List (Point F) → Option (F × List (Point F))
  | 0, walked, out => if walked ≤ length then none else some (walked, out)
  | fuel + 1, walked, out =>
    if walked ≤ length then
      emit p q length fuel (walked + spacing) (out ++ [along p q (walked / length)])
    else some (walked, out)

def segmentLength (p q : Point F) : F := hypot (q.1 - p.1) (q.2 - p.2)

/-- The segments of a polyline; `carried` is the length walked since the last emitted point. -/
def walk (fuel : ℕ) : Point F → List (Point F) → F → List (Point F) → Option (List (Point F))
  | _, [], _, out => some out
  | p, q :: rest, carried, out =>
    let length := segmentLength hypot p q
    if length = 0 then walk fuel q rest carried out
    else do
      let (walked, out) ← emit spacing p q length fuel (spacing - carried) out
      walk fuel q rest (length - (walked - spacing)) out

/-- `if out[-1] != points[-1]: out.append(points[-1])` -/
def close (out points : List (Point F)) : List (Point F) :=
  if out.getLast? = points.getLast? then out else out ++ points.getLast?.toList

def resample (fuel : ℕ) (points : List (Point F)) : Option (List (Point F)) :=
  match points with
  | [] => some []
  | [p] => some [p]
  | p :: rest => do
    let out ← walk hypot spacing fuel p rest 0 [p]
    return close out points

/-! ## A polyline by its length -/

def total : Point F → List (Point F) → F
  | _, [] => 0
  | p, q :: rest => segmentLength hypot p q + total q rest

/-- Where one is after walking some way along the polyline. -/
def pointAt : Point F → List (Point F) → F → Point F
  | p, [], _ => p
  | p, q :: rest, way =>
    let length := segmentLength hypot p q
    if way ≤ length then along p q (way / length) else pointAt q rest (way - length)

end Model

/-! ## What is emitted -/

section Spec

variable {F : Type} [Field F] {hypot : F → F → F} {spacing : F}

theorem total_of_length_zero {p q : Point F} {rest : List (Point F)}
    (hlength : segmentLength hypot p q = 0) : total hypot p (q :: rest) = total hypot q rest := by
  rw [total, hlength, zero_add]

variable [LinearOrder F]

/-- A segment of which `m` points are in reach. -/
theorem emit_eq (p q : Point F) {length : F} {m fuel : ℕ} (hfuel : m ≤ fuel) {walked : F}
    {out : List (Point F)} (hreach : ∀ j < m, walked + j * spacing ≤ length)
    (hstop : length < walked + m * spacing) :
    emit spacing p q length fuel walked out = some (walked + m * spacing,
      out ++ (List.range m).map fun j : ℕ => along p q ((walked + j * spacing) / length)) := by
  induction m generalizing fuel walked out with
  | zero =>
    rw [Nat.cast_zero, zero_mul, add_zero] at hstop ⊢
    rw [List.range_zero, List.map_nil, List.append_nil]
    cases fuel with
    | zero => exact if_neg (not_le.mpr hstop)
    | succ fuel => exact if_neg (not_le.mpr hstop)
  | succ m ih =>
    obtain ⟨fuel, rfl⟩ : ∃ k, fuel = k + 1 := ⟨fuel - 1, by omega⟩
    have hfirst : walked ≤ length := by
      have hzero := hreach 0 (Nat.succ_pos m)
      rwa [Nat.cast_zero, zero_mul, add_zero] at hzero
    have hshift : ∀ j : ℕ, walked + spacing + j * spacing = walked + (j + 1 : ℕ) * spacing := by
      intro j
      rw [Nat.cast_succ]
      ring
    rw [emit, if_pos hfirst, ih (Nat.le_of_succ_le_succ hfuel)
      (fun j hj => hshift j ▸ hreach (j + 1) (Nat.succ_lt_succ hj)) (hshift m ▸ hstop), hshift m,
      List.range_succ_eq_map, List.map_cons, List.map_map, List.append_assoc, List.singleton_append,
      Nat.cast_zero, zero_mul, add_zero]
    simp only [Function.comp_def, hshift, Nat.succ_eq_add_one]

theorem pointAt_of_le {p q : Point F} {rest : List (Point F)} {way : F}
    (h : way ≤ segmentLength hypot p q) :
    pointAt hypot p (q :: rest) way = along p q (way / segmentLength hypot p q) :=
  if_pos h

theorem pointAt_of_lt {p q : Point F} {rest : List (Point F)} {way : F}
    (h : segmentLength hypot p q < way) :
    pointAt hypot p (q :: rest) way = pointAt hypot q rest (way - segmentLength hypot p q) :=
  if_neg (not_le.mpr h)

/-- A segment without length is no part of the way. -/
theorem pointAt_of_length_zero {p q : Point F} {rest : List (Point F)} {way : F}
    (hlength : segmentLength hypot p q = 0) (hway : 0 < way) :
    pointAt hypot p (q :: rest) way = pointAt hypot q rest way := by
  rw [pointAt_of_lt (hlength ▸ hway), hlength, sub_zero]

variable [IsStrictOrderedRing F]

theorem total_nonneg (hhypot : ∀ x y, 0 ≤ hypot x y) (p : Point F) (rest : List (Point F)) :
    0 ≤ total hypot p rest := by
  induction rest generalizing p with
  | nil => exact le_rfl
  | cons q rest ih => exact add_nonneg (hhypot _ _) (ih q)

/-- Every length is reached by a number of spacings, and not by one more. -/
theorem exists_reach [FloorSemiring F] (hspacing : 0 < spacing) {way : F} (hway : 0 ≤ way) :
    ∃ m : ℕ, m * spacing ≤ way ∧ way < (m + 1) * spacing := by
  refine ⟨⌊way / spacing⌋₊, ?_, ?_⟩
  · rw [← le_div_iff₀ hspacing]
    exact Nat.floor_le (div_nonneg hway hspacing.le)
  · rw [← div_lt_iff₀ hspacing]
    exact Nat.lt_floor_add_one _

/-- The points emitted are at the multiples of the spacing that are left of the way. -/
theorem walk_eq [FloorSemiring F] (hhypot : ∀ x y, 0 ≤ hypot x y) (hspacing : 0 < spacing)
    (p : Point F) (rest : List (Point F)) {carried : F} (hcarried : 0 ≤ carried)
    (hless : carried < spacing) {m fuel : ℕ} (hfuel : m ≤ fuel)
    (hreach : m * spacing ≤ carried + total hypot p rest)
    (hstop : carried + total hypot p rest < (m + 1) * spacing) (out : List (Point F)) :
    walk hypot spacing fuel p rest carried out = some (out ++ (List.range m).map fun j : ℕ =>
      pointAt hypot p rest ((j + 1) * spacing - carried)) := by
  induction rest generalizing p carried m out with
  | nil =>
    rw [total, add_zero] at hreach
    have hm : m = 0 := by
      by_contra hne
      have hone : (1 : F) ≤ m := Nat.one_le_cast.mpr (Nat.pos_of_ne_zero hne)
      nlinarith
    subst hm
    rw [walk, List.range_zero, List.map_nil, List.append_nil]
  | cons q rest ih =>
    rw [walk]
    dsimp only
    by_cases hzero : segmentLength hypot p q = 0
    · rw [total_of_length_zero hzero] at hreach hstop
      rw [if_pos hzero, ih q hcarried hless hfuel hreach hstop]
      refine congrArg some (congrArg (out ++ ·) (List.map_congr_left fun j _ => ?_))
      refine (pointAt_of_length_zero hzero ?_).symm
      have hj : (0 : F) ≤ j := Nat.cast_nonneg j
      nlinarith
    · set length := segmentLength hypot p q with hlength
      have hlength0 : 0 < length := lt_of_le_of_ne (hhypot _ _) (Ne.symm hzero)
      have hrest := total_nonneg hhypot q rest
      rw [total, ← hlength] at hreach hstop
      obtain ⟨here, hhere, hhere'⟩ := exists_reach hspacing (add_nonneg hcarried hlength0.le)
      have hle : here ≤ m := by
        refine Nat.le_of_lt_succ (Nat.cast_lt (α := F).mp ?_)
        rw [Nat.cast_succ]
        refine lt_of_mul_lt_mul_right ?_ hspacing.le
        linarith
      obtain ⟨later, rfl⟩ := Nat.exists_eq_add_of_le hle
      rw [Nat.cast_add, add_mul] at hreach
      rw [Nat.cast_add, add_assoc, add_mul] at hstop
      have hemit : emit spacing p q length fuel (spacing - carried) out =
          some (spacing - carried + here * spacing, out ++ (List.range here).map fun j : ℕ =>
            along p q ((spacing - carried + j * spacing) / length)) := by
        refine emit_eq p q (Nat.le_of_add_right_le hfuel) (fun j hj => ?_) (by linarith)
        have hj' : (j + 1 : F) * spacing ≤ here * spacing := by
          refine mul_le_mul_of_nonneg_right ?_ hspacing.le
          exact_mod_cast hj
        linarith
      -- what is carried into the next segment
      have hnext : length - (spacing - carried + here * spacing - spacing) =
          carried + length - here * spacing := by ring
      rw [if_neg hzero, hemit, Option.bind_eq_bind, Option.bind_some]
      dsimp only
      rw [hnext, ih q (by linarith) (by linarith) (Nat.le_of_add_left_le hfuel) (by linarith)
        (by linarith), List.append_assoc, List.range_add, List.map_append, List.map_map]
      refine congrArg some (congrArg (out ++ ·) (congrArg₂ (· ++ ·) ?_ ?_))
      · refine List.map_congr_left fun j hj => ?_
        have hj' : (j + 1 : F) * spacing ≤ here * spacing := by
          refine mul_le_mul_of_nonneg_right ?_ hspacing.le
          exact_mod_cast List.mem_range.mp hj
        have hway : spacing - carried + j * spacing = (j + 1) * spacing - carried := by ring
        rw [hway, pointAt_of_le (by linarith)]
      · refine List.map_congr_left fun j _ => ?_
        have hj : (0 : F) ≤ j * spacing := mul_nonneg (Nat.cast_nonneg j) hspacing.le
        show _ = pointAt hypot p (q :: rest) (((here + j : ℕ) + 1) * spacing - carried)
        rw [Nat.cast_add, pointAt_of_lt (by linarith)]
        congr 1
        rw [← hlength]
        ring

end Spec

/-! ## Points that come again -/

section Repeated

variable {F : Type} [Field F] [LinearOrder F] {hypot : F → F → F} {spacing : F} {fuel : ℕ}

theorem resample_cons (p : Point F) (rest : List (Point F)) :
    resample hypot spacing fuel (p :: rest) =
      (walk hypot spacing fuel p rest 0 [p]).map fun out => close out (p :: rest) := by
  cases rest with
  | nil =>
    rw [resample, walk, Option.map_some, close, if_pos rfl]
  | cons q rest =>
    rw [resample]
    · cases walk hypot spacing fuel p (q :: rest) 0 [p] with
      | none => rfl
      | some out => rfl
    · exact fun h => List.cons_ne_nil _ _ h

theorem walk_self (hhypot : hypot 0 0 = 0) (p : Point F) (rest : List (Point F)) (carried : F)
    (out : List (Point F)) :
    walk hypot spacing fuel p (p :: rest) carried out =
      walk hypot spacing fuel p rest carried out := by
  have hlength : segmentLength hypot p p = 0 := by
    rw [segmentLength, sub_self, sub_self, hhypot]
  rw [walk]
  exact if_pos hlength

theorem walk_cons_congr (p : Point F) {q : Point F} {rest rest' : List (Point F)}
    (h : ∀ carried out, walk hypot spacing fuel q rest carried out =
      walk hypot spacing fuel q rest' carried out) (carried : F) (out : List (Point F)) :
    walk hypot spacing fuel p (q :: rest) carried out =
      walk hypot spacing fuel p (q :: rest') carried out := by
  simp only [walk, h]

theorem walk_repeated (hhypot : hypot 0 0 = 0) (p q : Point F) (front rest : List (Point F))
    (carried : F) (out : List (Point F)) :
    walk hypot spacing fuel p (front ++ q :: q :: rest) carried out =
      walk hypot spacing fuel p (front ++ q :: rest) carried out := by
  induction front generalizing p carried out with
  | nil => exact walk_cons_congr p (walk_self hhypot q rest) carried out
  | cons r front ih => exact walk_cons_congr p (ih r) carried out

theorem resample_repeated (hhypot : hypot 0 0 = 0) (front rest : List (Point F)) (p : Point F) :
    resample hypot spacing fuel (front ++ p :: p :: rest) =
      resample hypot spacing fuel (front ++ p :: rest) := by
  have hclose : ∀ out, close out (front ++ p :: p :: rest) = close out (front ++ p :: rest) := by
    intro out
    rw [close, close, List.getLast?_append, List.getLast?_append, List.getLast?_cons_cons]
  cases front with
  | nil =>
    rw [List.nil_append, List.nil_append, resample_cons, resample_cons, walk_self hhypot]
    exact congrArg (Option.map · _) (funext hclose)
  | cons q front =>
    rw [List.cons_append, List.cons_append, resample_cons, resample_cons, walk_repeated hhypot]
    exact congrArg (Option.map · _) (funext hclose)

end Repeated

/-- With passes enough, what is left are the first point, those at all the multiples of the spacing
along the way, and the last; a point that comes again, or a segment without length, is no part of
the way. -/
theorem resample_eq (hypot : ℝ → ℝ → ℝ) (hhypot : ∀ x y, 0 ≤ hypot x y) {spacing : ℝ}
    (hspacing : 0 < spacing) :
    (∀ fuel, resample hypot spacing fuel [] = some []) ∧
    (∀ p rest fuel, ⌊total hypot p rest / spacing⌋₊ ≤ fuel →
      resample hypot spacing fuel (p :: rest) = some (close
        (p :: (List.range ⌊total hypot p rest / spacing⌋₊).map fun k : ℕ =>
          pointAt hypot p rest ((k + 1) * spacing)) (p :: rest))) ∧
    (hypot 0 0 = 0 → ∀ fuel front p rest, resample hypot spacing fuel (front ++ p :: p :: rest) =
      resample hypot spacing fuel (front ++ p :: rest)) ∧
    ∀ p q rest, segmentLength hypot p q = 0 → total hypot p (q :: rest) = total hypot q rest ∧
      ∀ way, 0 < way → pointAt hypot p (q :: rest) way = pointAt hypot q rest way := by
  refine ⟨fun fuel => rfl, fun p rest fuel hfuel => ?_,
    fun hzero fuel front p rest => resample_repeated hzero front rest p,
    fun p q rest hlength => ⟨total_of_length_zero hlength, fun way hway =>
      pointAt_of_length_zero hlength hway⟩⟩
  have htotal := total_nonneg hhypot p rest
  have hreach : ⌊total hypot p rest / spacing⌋₊ * spacing ≤ 0 + total hypot p rest := by
    rw [zero_add, ← le_div_iff₀ hspacing]
    exact Nat.floor_le (div_nonneg htotal hspacing.le)
  have hstop : 0 + total hypot p rest < (⌊total hypot p rest / spacing⌋₊ + 1) * spacing := by
    rw [zero_add, ← div_lt_iff₀ hspacing]
    exact Nat.lt_floor_add_one _
  rw [resample_cons, walk_eq hhypot hspacing p rest le_rfl hspacing hfuel hreach hstop,
    Option.map_some]
  simp only [sub_zero, List.singleton_append]

/-- Two points a unit apart, at half a unit. -/
theorem resample_eq_half :
    (∀ x y : ℝ, 0 ≤ hypot x y) ∧ (0 : ℝ) < 1 / 2 ∧
      resample hypot (1 / 2) 2 [(0, 0), (1, 0)] = some [(0, 0), (1 / 2, 0), (1, 0)] := by
  have hhypot : ∀ x y : ℝ, 0 ≤ hypot x y := fun _ _ => Real.sqrt_nonneg _
  have hhalf : (0 : ℝ) < 1 / 2 := by norm_num
  have hlength : segmentLength hypot (0, 0) (1, 0) = 1 := by
    simp [segmentLength, hypot]
  have htotal : total hypot (0, 0) [(1, 0)] = 1 := by
    rw [total, total, hlength, add_zero]
  have hfloor : ⌊total hypot (0, 0) [(1, 0)] / (1 / 2)⌋₊ = 2 := by
    rw [htotal]
    norm_num
  have hall := (resample_eq hypot hhypot hhalf).2.1 (0, 0) [(1, 0)] 2 hfloor.le
  refine ⟨hhypot, hhalf, hall.trans ?_⟩
  rw [hfloor]
  simp [List.range_succ, pointAt, hlength, along, close]
  norm_num

end StudioWorker.Convert
