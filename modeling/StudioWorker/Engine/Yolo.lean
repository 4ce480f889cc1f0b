import Mathlib.Algebra.Order.Ring.Int
import Mathlib.Algebra.GroupWithZero.Nat
import Mathlib.Data.List.ReduceOption
import StudioWorker.Engine.Detection
import StudioWorker.Lib.Fallible
import StudioWorker.Text

/-!
# Engine.Yolo — a detector's output read into candidates (`src/engine/vision/postprocess.rs`)

Every sum, product and index is checked, as in a debug build: `none` is a panic.  A number of the
tensor is of any type with the operations used; `lowest` is `f32::MIN`.

* `yoloLayout`, `yoloCandidates`: as in the source.
* `valuesNeeded`: how many values a shape asks for.
* `yoloCandidates_isSome_iff`: it does not panic exactly when a `usize` holds that many; and a
  transposed output gives what its transpose gives as rows.
-/

namespace StudioWorker.Vision

open Lib.Fallible

/-- One output tensor: its shape and its values, row-major. -/
structure RawTensor (F : Type) where
  shape : List ℤ
  data : List F

/-- How a YOLO detector lays out its rows. -/
inductive YoloLayout where
  | withObjectness
  | transposed
  | rows
deriving DecidableEq, Repr

/-- `as i64` of a `usize` -/
def asI64 (n : ℕ) : ℤ := if n < 2 ^ 63 then n else n - 2 ^ 64

/-- `as usize` of an `i64` -/
def asUsize (n : ℤ) : ℕ := (n % 2 ^ 64).toNat

def addI64 (a b : ℤ) : Option ℤ := if -2 ^ 63 ≤ a + b ∧ a + b < 2 ^ 63 then some (a + b) else none

def addUsize (a b : ℕ) : Option ℕ := if a + b < 2 ^ 64 then some (a + b) else none

def mulUsize (a b : ℕ) : Option ℕ := if a * b < 2 ^ 64 then some (a * b) else none

def decimal (n : ℤ) : Text := (toString n).toList

/-- `{:?}` of a shape -/
def debugShape (shape : List ℤ) : Text :=
  '[' :: (", ".toList.intercalate (shape.map decimal) ++ [']'])

/-- The refusal of a shape that fits no layout; its sums are checked too. -/
def noLayout (shape : List ℤ) (classes : ℕ) : Option (Except Text (YoloLayout × ℕ)) := do
  let five ← addUsize 5 classes
  let four ← addUsize 4 classes
  return .error ("detector output shape ".toList ++ debugShape shape ++
    " is no YOLO layout for ".toList ++ decimal classes ++ " classes (expected [1, N, ".toList ++
    decimal five ++ "] or [1, ".toList ++ decimal four ++ ", N])".toList)

/-- `yolo_layout`: the layout and the number of boxes. -/
def yoloLayout (shape : List ℤ) (classes : ℕ) : Option (Except Text (YoloLayout × ℕ)) :=
  let c := asI64 classes
  match shape with
  | [one, a, b] =>
    if one = 1 then do
      let five ← addI64 5 c
      if b = five then return .ok (.withObjectness, asUsize a)
      let four ← addI64 4 c
      if a = four then return .ok (.transposed, asUsize b)
      if b = four then return .ok (.rows, asUsize a)
      noLayout shape classes
    else noLayout shape classes
  | _ => noLayout shape classes

/-- `at`: a field of box `b`. -/
def RawTensor.at? {F : Type} (raw : RawTensor F) (layout : YoloLayout) (boxes stride b field : ℕ) :
    Option F := do
  let index ← match layout with
    | .transposed => (mulUsize field boxes).bind (addUsize · b)
    | .withObjectness | .rows => (mulUsize b stride).bind (addUsize · field)
  raw.data[index]?

section Decode

variable {F : Type} [Add F] [Sub F] [Mul F] [Div F] [OfNat F 1] [OfNat F 2] [LT F]
  [DecidableLT F] (lowest : F)

/-- The best class, the first of equals. -/
def bestClass (scores : List (ℕ × F)) : ℕ × F :=
  scores.foldl (fun best next => if best.2 < next.2 then next else best) (0, lowest)

/-- The objectness of a box, 1 in a layout without. -/
def objectnessOf (layout : YoloLayout) (read : ℕ → Option F) : Option F :=
  match layout with
  | .withObjectness => read 4
  | .transposed | .rows => some 1

/-- One turn of the loop, over what reads a field of the box; no candidate where it is too weak. -/
def decodeBox (layout : YoloLayout) (firstClass classes : ℕ) (minConfidence : F)
    (read : ℕ → Option F) : Option (Option (Candidate F)) := do
  let objectness ← objectnessOf layout read
  if objectness < minConfidence then return none
  let scores ← (List.range classes).mapM fun c => do
    let score ← read (← addUsize firstClass c)
    return (c, score)
  let (cls, classScore) := bestClass lowest scores
  let score := objectness * classScore
  if score < minConfidence then return none
  let cx ← read 0
  let cy ← read 1
  let w ← read 2
  let h ← read 3
  return some ⟨cx - w / 2, cy - h / 2, cx + w / 2, cy + h / 2, score, cls⟩

def YoloLayout.stride (layout : YoloLayout) (classes : ℕ) : Option ℕ :=
  match layout with
  | .withObjectness => addUsize 5 classes
  | .transposed | .rows => addUsize 4 classes

/-- `yolo_candidates`: every box at or above `minConfidence`, with its best class. -/
def yoloCandidates (raw : RawTensor F) (classes : ℕ) (minConfidence : F) :
    Option (Except Text (List (Candidate F))) := do
  match ← yoloLayout raw.shape classes with
  | .error e => return .error e
  | .ok (layout, boxes) =>
    let stride ← layout.stride classes
    let needs ← mulUsize boxes stride
    if raw.data.length < needs then
      return .error ("detector output holds ".toList ++ decimal raw.data.length ++
        " values; its shape ".toList ++ debugShape raw.shape ++ " needs ".toList ++ decimal needs)
    let out ← (List.range boxes).mapM fun b =>
      decodeBox lowest layout (stride - classes) classes minConfidence
        (raw.at? layout boxes stride b)
    return .ok out.reduceOption

end Decode

/-- How many values a shape asks for: its boxes, as a `usize`, by the values of one. -/
def valuesNeeded (shape : List ℤ) (classes : ℕ) : ℕ :=
  match shape with
  | [one, a, b] =>
    if one ≠ 1 then 0
    else if b = 5 + classes then asUsize a * (5 + classes)
    else if a = 4 + classes then asUsize b * (4 + classes)
    else if b = 4 + classes then asUsize a * (4 + classes)
    else 0
  | _ => 0

/-- The transpose of a row-major table of `rows` rows and `n` columns. -/
def transpose {F : Type} (rows n : ℕ) (data : List F) : List F :=
  (List.range (n * rows)).filterMap fun i => data[i % rows * n + i / rows]?

/-! ## Checked arithmetic -/

theorem asI64_of_lt {n : ℕ} (h : n < 2 ^ 63) : asI64 n = n := if_pos h

theorem asUsize_of_lt {n : ℕ} (h : n < 2 ^ 64) : asUsize n = n := by
  rw [asUsize]
  omega

theorem addUsize_of_lt {a b : ℕ} (h : a + b < 2 ^ 64) : addUsize a b = some (a + b) := if_pos h

theorem mulUsize_of_lt {a b : ℕ} (h : a * b < 2 ^ 64) : mulUsize a b = some (a * b) := if_pos h

theorem mulUsize_of_le {a b : ℕ} (h : 2 ^ 64 ≤ a * b) : mulUsize a b = none :=
  if_neg (Nat.not_lt.mpr h)

theorem addI64_of_small {a : ℤ} {n : ℕ} (ha : 0 ≤ a) (h : a + n < 2 ^ 63) :
    addI64 a n = some (a + n) := if_pos ⟨by omega, h⟩

/-- The scores of the classes, read one by one. -/
theorem mapM_scores {F : Type} {read : ℕ → Option F} {firstClass classes : ℕ}
    (hfit : firstClass + classes < 2 ^ 64) :
    ((List.range classes).mapM fun c => do
      let score ← read (← addUsize firstClass c)
      return (c, score)) =
      (List.range classes).mapM fun c => (read (firstClass + c)).map (c, ·) := by
  refine mapM_congr fun c hc => ?_
  have hlt := List.mem_range.mp hc
  rw [addUsize_of_lt (by omega), Option.map_eq_bind]
  rfl

/-! ## Reading the values of a box -/

section At

variable {F : Type} {raw : RawTensor F} {boxes stride b field : ℕ}

/-- A place in a table of `m` rows of `n`. -/
theorem mul_add_lt {i j m n : ℕ} (hi : i < m) (hj : j < n) : i * n + j < m * n := by
  have hle : (i + 1) * n ≤ m * n := Nat.mul_le_mul_right n hi
  rw [Nat.succ_mul] at hle
  omega

theorem at?_transposed (hfit : boxes * stride < 2 ^ 64) (hb : b < boxes) (hfield : field < stride) :
    raw.at? .transposed boxes stride b field = raw.data[field * boxes + b]? := by
  have hlt := mul_add_lt hfield hb
  rw [Nat.mul_comm stride] at hlt
  have hmul : mulUsize field boxes = some (field * boxes) := mulUsize_of_lt (by omega)
  have hadd : addUsize (field * boxes) b = some (field * boxes + b) := addUsize_of_lt (by omega)
  simp only [RawTensor.at?, hmul, Option.bind_some, hadd, Option.bind_eq_bind]

theorem at?_rows {layout : YoloLayout} (hlayout : layout ≠ .transposed)
    (hfit : boxes * stride < 2 ^ 64) (hb : b < boxes) (hfield : field < stride) :
    raw.at? layout boxes stride b field = raw.data[b * stride + field]? := by
  have hlt := mul_add_lt hb hfield
  have hmul : mulUsize b stride = some (b * stride) := mulUsize_of_lt (by omega)
  have hadd : addUsize (b * stride) field = some (b * stride + field) := addUsize_of_lt (by omega)
  cases layout with
  | transposed => exact absurd rfl hlayout
  | withObjectness => simp only [RawTensor.at?, hmul, Option.bind_some, hadd, Option.bind_eq_bind]
  | rows => simp only [RawTensor.at?, hmul, Option.bind_some, hadd, Option.bind_eq_bind]

/-- In a tensor that holds what its shape asks for, every field of every box is there. -/
theorem exists_at? (layout : YoloLayout) (hfit : boxes * stride < 2 ^ 64)
    (hlength : boxes * stride ≤ raw.data.length) (hb : b < boxes) (hfield : field < stride) :
    ∃ x, raw.at? layout boxes stride b field = some x := by
  by_cases hlayout : layout = .transposed
  · have hlt := mul_add_lt hfield hb
    rw [Nat.mul_comm stride] at hlt
    rw [hlayout, at?_transposed hfit hb hfield]
    exact ⟨_, List.getElem?_eq_getElem (by omega)⟩
  · have hlt := mul_add_lt hb hfield
    rw [at?_rows hlayout hfit hb hfield]
    exact ⟨_, List.getElem?_eq_getElem (by omega)⟩

end At

section Decode

variable {F : Type} [Add F] [Sub F] [Mul F] [Div F] [OfNat F 1] [OfNat F 2] [LT F]
  [DecidableLT F] (lowest : F) {firstClass classes : ℕ} {minConfidence : F}
  {read read' : ℕ → Option F}

theorem decodeBox_congr {layout layout' : YoloLayout} (hlayout : layout ≠ .withObjectness)
    (hlayout' : layout' ≠ .withObjectness) (hfirst : 4 ≤ firstClass)
    (hfit : firstClass + classes < 2 ^ 64)
    (h : ∀ field < firstClass + classes, read field = read' field) :
    decodeBox lowest layout firstClass classes minConfidence read =
      decodeBox lowest layout' firstClass classes minConfidence read' := by
  have hscores : (List.range classes).mapM (fun c => (read (firstClass + c)).map (c, ·)) =
      (List.range classes).mapM fun c => (read' (firstClass + c)).map (c, ·) := by
    refine mapM_congr fun c hc => ?_
    rw [h _ (Nat.add_lt_add_left (List.mem_range.mp hc) firstClass)]
  have hone : ∀ {layout : YoloLayout} {read : ℕ → Option F}, layout ≠ .withObjectness →
      objectnessOf layout read = some 1 := by
    intro layout read hlayout
    cases layout with
    | withObjectness => exact absurd rfl hlayout
    | transposed => rfl
    | rows => rfl
  rw [decodeBox, decodeBox, hone hlayout, hone hlayout', mapM_scores hfit, mapM_scores hfit,
    hscores, h 0 (by omega), h 1 (by omega), h 2 (by omega), h 3 (by omega)]

theorem exists_decodeBox (layout : YoloLayout) (hfirst : 4 ≤ firstClass)
    (hobjectness : layout = .withObjectness → 5 ≤ firstClass)
    (hfit : firstClass + classes < 2 ^ 64)
    (h : ∀ field < firstClass + classes, ∃ x, read field = some x) :
    ∃ out, decodeBox lowest layout firstClass classes minConfidence read = some out := by
  have hobj : ∃ objectness, objectnessOf layout read = some objectness := by
    cases layout with
    | withObjectness => exact h 4 (by have := hobjectness rfl; omega)
    | transposed => exact ⟨1, rfl⟩
    | rows => exact ⟨1, rfl⟩
  obtain ⟨objectness, hobj⟩ := hobj
  obtain ⟨scores, hscores⟩ : ∃ scores, ((List.range classes).mapM fun c =>
      (read (firstClass + c)).map (c, ·)) = some scores := by
    refine exists_mapM_eq_some fun c hc => ?_
    obtain ⟨x, hx⟩ := h _ (Nat.add_lt_add_left (List.mem_range.mp hc) firstClass)
    exact ⟨(c, x), by rw [hx, Option.map_some]⟩
  obtain ⟨cx, hcx⟩ := h 0 (by omega)
  obtain ⟨cy, hcy⟩ := h 1 (by omega)
  obtain ⟨w, hw⟩ := h 2 (by omega)
  obtain ⟨height, hheight⟩ := h 3 (by omega)
  rw [decodeBox, hobj, mapM_scores hfit, hscores, hcx, hcy, hw, hheight]
  simp only [Option.bind_eq_bind, Option.bind_some, Option.pure_def]
  split_ifs
  · exact ⟨_, rfl⟩
  · exact ⟨_, rfl⟩
  · exact ⟨_, rfl⟩

/-! ## The whole output -/

variable (minConfidence)

theorem yoloCandidates_of_layout (raw : RawTensor F) {layout : YoloLayout} {boxes stride : ℕ}
    (hlayout : yoloLayout raw.shape classes = some (.ok (layout, boxes)))
    (hstride : layout.stride classes = some stride) (hfit : boxes * stride < 2 ^ 64)
    (hlength : boxes * stride ≤ raw.data.length) :
    yoloCandidates lowest raw classes minConfidence =
      ((List.range boxes).mapM fun b => decodeBox lowest layout (stride - classes) classes
        minConfidence (raw.at? layout boxes stride b)).map fun out => .ok out.reduceOption := by
  rw [yoloCandidates, hlayout]
  simp only [Option.bind_eq_bind, Option.bind_some, hstride, mulUsize_of_lt hfit]
  rw [if_neg (Nat.not_lt.mpr hlength), Option.map_eq_bind]
  rfl

theorem noLayout_of_small (hclasses : 5 + classes < 2 ^ 63) (shape : List ℤ) :
    ∃ e, noLayout shape classes = some (.error e) := by
  have hfive := addUsize_of_lt (a := 5) (b := classes) (by omega)
  have hfour := addUsize_of_lt (a := 4) (b := classes) (by omega)
  exact ⟨_, by rw [noLayout, hfive, hfour]; rfl⟩

theorem yoloLayout_of_three (hclasses : 5 + classes < 2 ^ 63) (a b : ℤ) :
    ∃ e, yoloLayout [1, a, b] classes =
      if b = 5 + classes then some (.ok (.withObjectness, asUsize a))
      else if a = 4 + classes then some (.ok (.transposed, asUsize b))
      else if b = 4 + classes then some (.ok (.rows, asUsize a))
      else some (.error e) := by
  obtain ⟨e, he⟩ := noLayout_of_small hclasses [1, a, b]
  have hc : asI64 classes = classes := asI64_of_lt (by omega)
  have hfive := addI64_of_small (a := 5) (n := classes) (by decide) (by omega)
  have hfour := addI64_of_small (a := 4) (n := classes) (by decide) (by omega)
  refine ⟨e, ?_⟩
  simp only [yoloLayout, if_true, hc, hfive, hfour, Option.bind_eq_bind, Option.bind_some, he,
    Option.pure_def]

/-- Where the layout is known, it does not panic exactly when the product does not overflow. -/
theorem isSome_of_layout (raw : RawTensor F) {layout : YoloLayout} {boxes stride : ℕ}
    (hlayout : yoloLayout raw.shape classes = some (.ok (layout, boxes)))
    (hstride : layout.stride classes = some stride) (hfirst : 4 + classes ≤ stride)
    (hobjectness : layout = .withObjectness → 5 + classes ≤ stride) (hlt : stride < 2 ^ 64) :
    (yoloCandidates lowest raw classes minConfidence).isSome ↔ boxes * stride < 2 ^ 64 := by
  by_cases hfit : boxes * stride < 2 ^ 64
  · refine iff_of_true ?_ hfit
    by_cases hlength : boxes * stride ≤ raw.data.length
    · rw [yoloCandidates_of_layout lowest minConfidence raw hlayout hstride hfit hlength,
        Option.isSome_map]
      obtain ⟨out, hout⟩ : ∃ out, ((List.range boxes).mapM fun b => decodeBox lowest layout
          (stride - classes) classes minConfidence (raw.at? layout boxes stride b)) = some out := by
        refine exists_mapM_eq_some fun b hb => ?_
        refine exists_decodeBox lowest layout (by omega) (fun h => ?_) (by omega)
          fun field hfield => exists_at? layout hfit hlength (List.mem_range.mp hb) (by omega)
        have := hobjectness h
        omega
      rw [hout]
      rfl
    · rw [yoloCandidates, hlayout]
      simp only [Option.bind_eq_bind, Option.bind_some, hstride, mulUsize_of_lt hfit]
      rw [if_pos (Nat.not_le.mp hlength)]
      rfl
  · refine iff_of_false ?_ hfit
    rw [yoloCandidates, hlayout]
    simp only [Option.bind_eq_bind, Option.bind_some, hstride,
      mulUsize_of_le (Nat.not_lt.mp hfit), Option.bind_none, Option.isSome_none]
    exact Bool.false_ne_true

theorem isSome_of_noLayout {raw : RawTensor F} {e : Text}
    (h : yoloLayout raw.shape classes = some (.error e)) :
    (yoloCandidates lowest raw classes minConfidence).isSome := by
  rw [yoloCandidates, h]
  rfl

theorem isSome_iff (hclasses : 5 + classes < 2 ^ 63) (raw : RawTensor F) :
    (yoloCandidates lowest raw classes minConfidence).isSome ↔
      valuesNeeded raw.shape classes < 2 ^ 64 := by
  have hfive : addUsize 5 classes = some (5 + classes) := addUsize_of_lt (by omega)
  have hfour : addUsize 4 classes = some (4 + classes) := addUsize_of_lt (by omega)
  have hother : yoloLayout raw.shape classes = noLayout raw.shape classes →
      valuesNeeded raw.shape classes = 0 →
        ((yoloCandidates lowest raw classes minConfidence).isSome ↔
          valuesNeeded raw.shape classes < 2 ^ 64) := by
    intro hlayout hneeded
    obtain ⟨e, he⟩ := noLayout_of_small hclasses raw.shape
    rw [hneeded]
    exact iff_of_true (isSome_of_noLayout lowest minConfidence (hlayout.trans he)) (by decide)
  obtain ⟨shape, data⟩ := raw
  match shape with
  | [] | [_] | [_, _] | _ :: _ :: _ :: _ :: _ => exact hother rfl rfl
  | [one, a, b] =>
    by_cases hone : one = 1
    · subst hone
      obtain ⟨e, hthree⟩ := yoloLayout_of_three hclasses a b
      rw [valuesNeeded, if_neg (not_not.mpr rfl)]
      split_ifs at hthree ⊢ with hb ha hb'
      · exact isSome_of_layout lowest minConfidence ⟨_, data⟩ hthree hfive (by omega)
          (fun _ => le_rfl) (by omega)
      · exact isSome_of_layout lowest minConfidence ⟨_, data⟩ hthree hfour le_rfl (by simp)
          (by omega)
      · exact isSome_of_layout lowest minConfidence ⟨_, data⟩ hthree hfour le_rfl (by simp)
          (by omega)
      · exact iff_of_true (isSome_of_noLayout lowest minConfidence hthree) (by decide)
    · exact hother (by rw [yoloLayout, if_neg hone]) (by rw [valuesNeeded, if_pos hone])

end Decode

/-! ## The class of a candidate -/

section Class

variable {F : Type} [LT F] [DecidableLT F] (lowest : F) {classes : ℕ} (hclasses : 0 < classes)

include hclasses

/-- The best class is one of them, also where no score is above the lowest. -/
theorem bestClass_lt {scores : List (ℕ × F)} (h : ∀ s ∈ scores, s.1 < classes) :
    (bestClass lowest scores).1 < classes := by
  have hfold : ∀ best : ℕ × F, best.1 < classes →
      (scores.foldl (fun best next => if best.2 < next.2 then next else best) best).1 < classes := by
    induction scores with
    | nil => exact fun best hbest => hbest
    | cons s scores ih =>
      intro best hbest
      obtain ⟨hs, hscores⟩ := List.forall_mem_cons.mp h
      rw [List.foldl_cons]
      split_ifs
      · exact ih hscores s hs
      · exact ih hscores best hbest
  exact hfold (0, lowest) hclasses

variable [Add F] [Sub F] [Mul F] [Div F] [OfNat F 1] [OfNat F 2]

theorem cls_lt_of_decodeBox {layout : YoloLayout} {firstClass : ℕ} {minConfidence : F}
    {read : ℕ → Option F} {c : Candidate F}
    (h : decodeBox lowest layout firstClass classes minConfidence read = some (some c)) :
    c.cls < classes := by
  simp only [decodeBox, Option.bind_eq_bind, Option.pure_def] at h
  obtain ⟨objectness, -, h⟩ := Option.bind_eq_some_iff.mp h
  split_ifs at h
  · cases Option.some_inj.mp h
  obtain ⟨scores, hscores, h⟩ := Option.bind_eq_some_iff.mp h
  have hlt : ∀ s ∈ scores, s.1 < classes := by
    intro s hs
    obtain ⟨i, hi, hread⟩ := exists_of_mem_mapM hscores hs
    obtain ⟨place, -, hread⟩ := Option.bind_eq_some_iff.mp hread
    obtain ⟨score, -, hread⟩ := Option.bind_eq_some_iff.mp hread
    obtain rfl := Option.some_inj.mp hread
    exact List.mem_range.mp hi
  split_ifs at h
  · cases Option.some_inj.mp h
  obtain ⟨cx, -, h⟩ := Option.bind_eq_some_iff.mp h
  obtain ⟨cy, -, h⟩ := Option.bind_eq_some_iff.mp h
  obtain ⟨w, -, h⟩ := Option.bind_eq_some_iff.mp h
  obtain ⟨height, -, h⟩ := Option.bind_eq_some_iff.mp h
  obtain rfl := Option.some_inj.mp (Option.some_inj.mp h)
  exact bestClass_lt lowest hclasses hlt

/-- Every candidate is of one of the classes. -/
theorem cls_lt_of_mem_candidates {raw : RawTensor F} {minConfidence : F} {out : List (Candidate F)}
    (h : yoloCandidates lowest raw classes minConfidence = some (.ok out)) {c : Candidate F}
    (hc : c ∈ out) : c.cls < classes := by
  simp only [yoloCandidates, Option.bind_eq_bind, Option.pure_def] at h
  obtain ⟨answer, -, h⟩ := Option.bind_eq_some_iff.mp h
  cases answer with
  | error e => cases h
  | ok found =>
    obtain ⟨stride, -, h⟩ := Option.bind_eq_some_iff.mp h
    obtain ⟨needs, -, h⟩ := Option.bind_eq_some_iff.mp h
    split_ifs at h
    · cases h
    · obtain ⟨decoded, hdecoded, h⟩ := Option.bind_eq_some_iff.mp h
      obtain rfl := Except.ok.inj (Option.some_inj.mp h)
      obtain ⟨b, -, hb⟩ := exists_of_mem_mapM hdecoded (List.reduceOption_mem_iff.mp hc)
      exact cls_lt_of_decodeBox lowest hclasses hb

end Class

/-! ## Transposed and row layout -/

theorem getElem?_filterMap_range {F : Type} {g : ℕ → Option F} (m : ℕ)
    (h : ∀ i < m, ∃ x, g i = some x) :
    ((List.range m).filterMap g).length = m ∧
      ∀ i < m, ((List.range m).filterMap g)[i]? = g i := by
  induction m with
  | zero => exact ⟨rfl, fun i hi => absurd hi (Nat.not_lt_zero i)⟩
  | succ m ih =>
    obtain ⟨hlength, hget⟩ := ih fun i hi => h i (by omega)
    obtain ⟨x, hx⟩ := h m (Nat.lt_succ_self m)
    have hsplit : (List.range (m + 1)).filterMap g = (List.range m).filterMap g ++ [x] := by
      rw [List.range_succ, List.filterMap_append, List.filterMap_cons, hx, List.filterMap_nil]
    rw [hsplit]
    refine ⟨by rw [List.length_append, hlength, List.length_singleton], fun i hi => ?_⟩
    rcases Nat.lt_succ_iff_lt_or_eq.mp hi with hlt | rfl
    · rw [List.getElem?_append_left (by omega), hget i hlt]
    · rw [List.getElem?_append_right (by omega), hlength, Nat.sub_self, hx]
      rfl

theorem getElem?_transpose {F : Type} {rows n : ℕ} {data : List F}
    (hlength : data.length = rows * n) :
    (transpose rows n data).length = n * rows ∧
      ∀ b < n, ∀ field < rows,
        (transpose rows n data)[b * rows + field]? = data[field * n + b]? := by
  have hplace : ∀ i < n * rows, i % rows < rows ∧ i / rows < n := by
    intro i hi
    have hpos : 0 < rows := Nat.pos_of_ne_zero fun hzero => by simp [hzero] at hi
    exact ⟨Nat.mod_lt i hpos, (Nat.div_lt_iff_lt_mul hpos).mpr hi⟩
  have hall : ∀ i < n * rows, ∃ x, data[i % rows * n + i / rows]? = some x := by
    intro i hi
    obtain ⟨hmod, hdiv⟩ := hplace i hi
    have hlt := mul_add_lt hmod hdiv
    exact ⟨_, List.getElem?_eq_getElem (by omega)⟩
  obtain ⟨htotal, hget⟩ := getElem?_filterMap_range (n * rows) hall
  refine ⟨htotal, fun b hb field hfield => ?_⟩
  have hpos : 0 < rows := by omega
  have hmod : (b * rows + field) % rows = field := by
    rw [Nat.mul_add_mod_self_right, Nat.mod_eq_of_lt hfield]
  have hdiv : (b * rows + field) / rows = b := by
    rw [Nat.mul_comm b, Nat.mul_add_div hpos, Nat.div_eq_of_lt hfield, Nat.add_zero]
  rw [transpose, hget _ (mul_add_lt hb hfield), hmod, hdiv]

section Law

variable {F : Type} [Add F] [Sub F] [Mul F] [Div F] [OfNat F 1] [OfNat F 2] [LT F]
  [DecidableLT F] (lowest : F) {classes n : ℕ} {minConfidence : F}

theorem yoloLayout_transposed (hclasses : 5 + classes < 2 ^ 63) (hn : n < 2 ^ 63)
    (hfive : n ≠ 5 + classes) :
    yoloLayout [1, ((4 + classes : ℕ) : ℤ), n] classes = some (.ok (.transposed, n)) := by
  obtain ⟨e, hthree⟩ := yoloLayout_of_three hclasses ((4 + classes : ℕ) : ℤ) n
  rw [hthree, if_neg (by omega), if_pos (by omega), asUsize_of_lt (by omega)]

theorem yoloLayout_rows (hclasses : 5 + classes < 2 ^ 63) (hn : n < 2 ^ 63)
    (hfour : n ≠ 4 + classes) :
    yoloLayout [1, (n : ℤ), ((4 + classes : ℕ) : ℤ)] classes = some (.ok (.rows, n)) := by
  obtain ⟨e, hthree⟩ := yoloLayout_of_three hclasses n ((4 + classes : ℕ) : ℤ)
  rw [hthree, if_neg (by omega), if_neg (by omega), if_pos (by omega), asUsize_of_lt (by omega)]

/-- A transposed output gives what its transpose gives as rows. -/
theorem yoloCandidates_transposed (hclasses : 5 + classes < 2 ^ 63) (hn : n < 2 ^ 63)
    (hfour : n ≠ 4 + classes) (hfive : n ≠ 5 + classes) {data : List F}
    (hlength : data.length = (4 + classes) * n) :
    yoloCandidates lowest ⟨[1, ((4 + classes : ℕ) : ℤ), n], data⟩ classes minConfidence =
      yoloCandidates lowest
        ⟨[1, (n : ℤ), ((4 + classes : ℕ) : ℤ)], transpose (4 + classes) n data⟩ classes
        minConfidence := by
  have hcolumns := yoloLayout_transposed hclasses hn hfive
  have hrows := yoloLayout_rows hclasses hn hfour
  have hstride : YoloLayout.transposed.stride classes = some (4 + classes) :=
    addUsize_of_lt (by omega)
  have hstride' : YoloLayout.rows.stride classes = some (4 + classes) := hstride
  obtain ⟨htotal, hget⟩ := getElem?_transpose hlength
  by_cases hfit : n * (4 + classes) < 2 ^ 64
  · rw [yoloCandidates_of_layout lowest minConfidence ⟨_, data⟩ hcolumns hstride hfit
        (by rw [hlength, Nat.mul_comm]),
      yoloCandidates_of_layout lowest minConfidence ⟨_, transpose _ _ data⟩ hrows hstride' hfit
        htotal.ge]
    congr 1
    refine mapM_congr fun b hb => ?_
    have hb := List.mem_range.mp hb
    refine decodeBox_congr lowest (by simp) (by simp) (by omega) (by omega) fun field hfield => ?_
    have hfield : field < 4 + classes := by omega
    rw [at?_transposed hfit hb hfield, at?_rows (by simp) hfit hb hfield, hget b hb field hfield]
  · have hnone : ∀ (raw : RawTensor F) (layout : YoloLayout), layout ≠ .withObjectness →
        layout.stride classes = some (4 + classes) →
          yoloLayout raw.shape classes = some (.ok (layout, n)) →
            yoloCandidates lowest raw classes minConfidence = none := by
      intro raw layout hlayout hstride hraw
      refine Option.not_isSome_iff_eq_none.mp fun h => hfit ?_
      exact (isSome_of_layout lowest minConfidence raw hraw hstride le_rfl
        (fun h => absurd h hlayout) (by omega)).mp h
    rw [hnone _ .transposed (by simp) hstride hcolumns, hnone _ .rows (by simp) hstride' hrows]

/-- A whole tensor is decoded. -/
theorem exists_yoloCandidates (hclasses : 5 + classes < 2 ^ 63) (hn : n < 2 ^ 63)
    (hfive : n ≠ 5 + classes) {data : List F}
    (hlength : data.length = (4 + classes) * n) (hfit : data.length < 2 ^ 64) :
    ∃ out, yoloCandidates lowest ⟨[1, ((4 + classes : ℕ) : ℤ), n], data⟩ classes minConfidence =
      some (.ok out) := by
  have hcolumns := yoloLayout_transposed hclasses hn hfive
  have hstride : YoloLayout.transposed.stride classes = some (4 + classes) :=
    addUsize_of_lt (by omega)
  rw [hlength, Nat.mul_comm] at hfit
  have hdecode := yoloCandidates_of_layout lowest minConfidence ⟨_, data⟩
    hcolumns hstride hfit (by rw [hlength, Nat.mul_comm])
  have hsome := (isSome_of_layout lowest minConfidence ⟨_, data⟩ hcolumns hstride le_rfl (by simp)
    (by omega)).mpr hfit
  obtain ⟨result, hresult⟩ := Option.isSome_iff_exists.mp hsome
  obtain ⟨out, -, hout⟩ := Option.map_eq_some_iff.mp (hdecode.symm.trans hresult)
  exact ⟨out.reduceOption, by rw [hresult, ← hout]⟩

/-- It does not panic exactly when a `usize` holds the number of values the shape asks for; and a
transposed output gives what its transpose gives as rows. -/
theorem yoloCandidates_isSome_iff (classes : ℕ) (hclasses : 5 + classes < 2 ^ 63)
    (minConfidence : F) :
    (∀ raw : RawTensor F, (yoloCandidates lowest raw classes minConfidence).isSome ↔
      valuesNeeded raw.shape classes < 2 ^ 64) ∧
    ∀ (n : ℕ) (data : List F), n < 2 ^ 63 → n ≠ 4 + classes → n ≠ 5 + classes →
      data.length = (4 + classes) * n →
        yoloCandidates lowest ⟨[1, ((4 + classes : ℕ) : ℤ), n], data⟩ classes minConfidence =
          yoloCandidates lowest
            ⟨[1, (n : ℤ), ((4 + classes : ℕ) : ℤ)], transpose (4 + classes) n data⟩ classes
            minConfidence ∧
        (data.length < 2 ^ 64 → ∃ out,
          yoloCandidates lowest ⟨[1, ((4 + classes : ℕ) : ℤ), n], data⟩ classes minConfidence =
            some (.ok out)) :=
  ⟨fun raw => isSome_iff lowest minConfidence hclasses raw, fun _ _ hn hfour hfive hlength =>
    ⟨yoloCandidates_transposed lowest hclasses hn hfour hfive hlength,
      exists_yoloCandidates lowest hclasses hn hfive hlength⟩⟩

end Law

/-- `f32::MIN` -/
def f32Min : ℚ := -(2 ^ 128 - 2 ^ 104)

theorem yoloCandidates_isSome_iff_empty :
    (yoloCandidates f32Min ⟨[1, 0, 8], []⟩ 3 (1 / 2)).isSome ↔
      valuesNeeded [1, 0, 8] 3 < 2 ^ 64 :=
  (yoloCandidates_isSome_iff f32Min 3 (by decide) (1 / 2)).1 ⟨[1, 0, 8], []⟩

/-- A shape whose product overflows: a release build reads it as 0 and goes on. -/
theorem yoloCandidates_overflows :
    ¬ ∀ raw : RawTensor ℚ, (yoloCandidates f32Min raw 3 (1 / 2)).isSome := by
  intro h
  have hsome := h ⟨[1, 2 ^ 61, 8], []⟩
  revert hsome
  decide +kernel

end StudioWorker.Vision
