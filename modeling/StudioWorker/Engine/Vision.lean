import Mathlib.Algebra.Order.Field.Basic
import StudioWorker.Catalog
import StudioWorker.Engine.Detection
import StudioWorker.Engine.Labels
import StudioWorker.Engine.Preprocess

/-!
# Engine.Vision — what a detector finds in a picture (`src/engine/vision/mod.rs`)

* `fromModel`, `detect`: as in the source; `none` is a panic.
* `Placed`: what a detection says of the picture.
* `detect_iff`: it holds of everything found, and nothing panics on the way to the network,
  exactly when a `u32` holds the input's size and no kept box is inside out where the picture is.
-/

namespace StudioWorker.Vision

open Lib.Fallible Engine.Labels

def defaultMinConfidence : ℚ := 1 / 4

def defaultIou : ℚ := 9 / 20

def defaultTopK : ℕ := 5

def maxTopK : ℕ := 100

def defaultCropMargin : ℚ := 1 / 10

/-- What the pipeline needs of a loaded vision model. -/
structure VisionSpec where
  model : Text
  task : VisionTask
  width : ℕ
  height : ℕ
  labels : List Label
  animal : List Bool
  mean : Rgb ℚ
  std : Rgb ℚ
  probabilities : Bool
  minConfidence : ℚ
  iou : ℚ
  topK : ℕ
  channelsLast : Bool
  cropMargin : ℚ
deriving DecidableEq

def VisionTask.asStr : VisionTask → Text
  | .detect => "detect".toList
  | .classify => "classify".toList

/-- `bail!` where a check fails. -/
def refuse (bad : Prop) [Decidable bad] (problem : Text) : Except Text Unit :=
  if bad then .error problem else .ok ()

section Model

variable (lib : Engine.Labels.Library) (model : CatalogModel)

def defaultsOf : Except Text (VisionDefaults ℚ) :=
  match model.source.cliDefaults.vision with
  | some defaults => .ok defaults
  | none => .error ("model ".toList ++ model.id.toList ++
      " has no cliDefaults.vision: it is no vision model".toList)

def classNames (defaults : VisionDefaults ℚ) (labelsFile : Option Text) :
    Except Text (List Label) :=
  if defaults.labels ≠ [] then .ok (defaults.labels.map fun name => .plain name.toList)
  else match labelsFile with
    | some text =>
      match parse lib text with
      | .ok labels => .ok labels
      | .error _ => .error ("reading the labels of ".toList ++ model.id.toList)
    | none => .error ("model ".toList ++ model.id.toList ++
        ": no labels (set cliDefaults.vision.labels or add a `labels` file)".toList)

/-- Per class, whether it is an animal. -/
def animals (defaults : VisionDefaults ℚ) (labels : List Label) : Except Text (List Bool) :=
  match defaults.animalLabels with
  | none => .ok (List.replicate labels.length true)
  | some animals =>
    match animals.find? fun a => !labels.any fun l => l.name = a.toList with
    | some unknown => .error ("model ".toList ++ model.id.toList ++ ": animal label ".toList ++
        lib.debug unknown.toList ++ " is none of its labels".toList)
    | none => .ok (labels.map fun l => animals.any fun a => a.toList = l.name)

/-- `VisionSpec::from_model` -/
def fromModel (labelsFile : Option Text) : Except Text VisionSpec := do
  let defaults ← defaultsOf model
  let width := model.source.cliDefaults.width
  let height := model.source.cliDefaults.height
  refuse (width = 0 ∨ height = 0) ("model ".toList ++ model.id.toList ++
    ": cliDefaults.width and height (its input size) must be set".toList)
  let labels ← classNames lib model defaults labelsFile
  let animal ← animals lib model defaults labels
  let std : Rgb ℚ := defaults.std.getD (1, 1, 1)
  refuse (∃ s ∈ std.channels, s ≤ 0)
    ("model ".toList ++ model.id.toList ++ ": every std must be above 0".toList)
  let cropMargin := defaults.cropMargin.getD defaultCropMargin
  refuse (¬ (0 ≤ cropMargin ∧ cropMargin ≤ 1))
    ("model ".toList ++ model.id.toList ++ ": cropMargin must be between 0 and 1".toList)
  return {
    model := model.id.toList
    task := defaults.task
    width := width
    height := height
    labels := labels
    animal := animal
    mean := defaults.mean.getD (0, 0, 0)
    std := std
    probabilities := defaults.probabilities.getD false
    minConfidence := defaults.minConfidence.getD
      (match defaults.task with | .detect => defaultMinConfidence | .classify => 0)
    iou := defaults.iou.getD defaultIou
    topK := max 1 (min maxTopK (defaults.topK.getD defaultTopK))
    channelsLast := defaults.channelsLast.getD false
    cropMargin := cropMargin }

end Model

/-- A rectangle in pixels, or in fractions of the picture. -/
structure BoundingBox where
  x : ℚ
  y : ℚ
  width : ℚ
  height : ℚ
deriving DecidableEq, Repr

/-- One thing a detector found. -/
structure Detection where
  label : Text
  classId : ℕ
  confidence : ℚ
  animal : Bool
  area : BoundingBox
  boxNormalised : BoundingBox
deriving DecidableEq

/-- What a request may change about a detection. -/
structure DetectOptions where
  minConfidence : Option ℚ
  iou : Option ℚ

def require (spec : VisionSpec) (task : VisionTask) : Except Text Unit :=
  refuse (spec.task ≠ task) ("model ".toList ++ spec.model ++ " is a ".toList ++
    VisionTask.asStr spec.task ++ " model, not ".toList ++ VisionTask.asStr task)

/-- A planar input in the order the network takes. -/
def VisionSpec.arrange (spec : VisionSpec) (planar : List ℚ) : Option (List ℚ) :=
  if spec.channelsLast then Vision.channelsLast planar spec.width spec.height else some planar

/-- `clamp(0.0, side)` -/
def clampTo (side x : ℚ) : ℚ := max 0 (min side x)

section Detect

variable (spec : VisionSpec) (picture : Picture)

/-- One detection of a kept candidate. -/
def detectionOf (place : Letterbox) (c : Candidate ℚ) : Option Detection := do
  let w : ℚ := picture.width
  let h : ℚ := picture.height
  let (x0, y0) := place.toPicture c.x0 c.y0
  let (x1, y1) := place.toPicture c.x1 c.y1
  let (x0, y0) := (clampTo w x0, clampTo h y0)
  let (x1, y1) := (clampTo w x1, clampTo h y1)
  let area : BoundingBox := ⟨x0, y0, x1 - x0, y1 - y0⟩
  let label ← spec.labels[c.cls]?
  let animal ← spec.animal[c.cls]?
  return ⟨label.name, c.cls, c.score, animal, area,
    ⟨area.x / w, area.y / h, area.width / w, area.height / h⟩⟩

/-- What is made of the network's output. -/
def detectionsOf (options : DetectOptions) (place : Letterbox) (raw : RawTensor ℚ) :
    Option (Except Text (List Detection)) := do
  match ← yoloCandidates f32Min raw spec.labels.length
      (options.minConfidence.getD spec.minConfidence) with
  | .error e => return .error e
  | .ok candidates =>
    let kept := suppress candidates (options.iou.getD spec.iou)
    let found ← kept.mapM (detectionOf spec picture place)
    return .ok found

/-- `detect`: what a network finds in a picture, strongest first. -/
def detect (run : List ℚ → Except Text (RawTensor ℚ)) (options : DetectOptions) :
    Option (Except Text (List Detection)) :=
  match require spec .detect with
  | .error e => some (.error e)
  | .ok () => do
    let (input, place) ← letterbox picture spec.width spec.height
    let input ← spec.arrange input
    match run input with
    | .error e => return .error e
    | .ok raw => detectionsOf spec picture options place raw

end Detect

/-! ## What an accepted spec holds -/

/-- What `fromModel` checks. -/
structure VisionSpec.Valid (spec : VisionSpec) : Prop where
  width_pos : 0 < spec.width
  height_pos : 0 < spec.height
  labels_ne : spec.labels ≠ []
  length_animal : spec.animal.length = spec.labels.length
  std_pos : ∀ s ∈ spec.std.channels, 0 < s
  topK_mem : 1 ≤ spec.topK ∧ spec.topK ≤ maxTopK
  cropMargin_mem : 0 ≤ spec.cropMargin ∧ spec.cropMargin ≤ 1

theorem refuse_eq_ok {bad : Prop} [Decidable bad] {problem : Text} :
    refuse bad problem = .ok () ↔ ¬ bad := by
  rw [refuse]
  split_ifs with h <;> simp [h]

section Accepted

variable {lib : Engine.Labels.Library} {model : CatalogModel} {defaults : VisionDefaults ℚ}
  {labelsFile : Option Text} {labels : List Label}

theorem classNames_ne (h : classNames lib model defaults labelsFile = .ok labels) :
    labels ≠ [] := by
  unfold classNames at h
  split_ifs at h with hlisted
  · obtain rfl := Except.ok.inj h
    rwa [ne_eq, List.map_eq_nil_iff]
  · cases labelsFile with
    | none => cases h
    | some text =>
      cases hparse : parse lib text with
      | error e => simp only [hparse, reduceCtorEq] at h
      | ok read =>
        simp only [hparse] at h
        obtain rfl := Except.ok.inj h
        exact (parse_ok.mp hparse).2

theorem length_animals {animal : List Bool} (h : animals lib model defaults labels = .ok animal) :
    animal.length = labels.length := by
  rw [animals] at h
  cases hgiven : defaults.animalLabels with
  | none =>
    simp only [hgiven] at h
    obtain rfl := Except.ok.inj h
    exact List.length_replicate
  | some given =>
    simp only [hgiven] at h
    split at h
    · cases h
    · obtain rfl := Except.ok.inj h
      exact List.length_map _

/-- Every accepted spec is valid. -/
theorem valid_of_fromModel {spec : VisionSpec} (h : fromModel lib model labelsFile = .ok spec) :
    spec.Valid := by
  obtain ⟨defaults, -, h⟩ := bind_eq_ok h
  obtain ⟨_, hsize, h⟩ := bind_eq_ok h
  obtain ⟨labels, hlabels, h⟩ := bind_eq_ok h
  obtain ⟨animal, hanimal, h⟩ := bind_eq_ok h
  obtain ⟨_, hstd, h⟩ := bind_eq_ok h
  obtain ⟨_, hmargin, h⟩ := bind_eq_ok h
  obtain rfl := Except.ok.inj h
  have hsize := refuse_eq_ok.mp hsize
  have hstd := refuse_eq_ok.mp hstd
  push Not at hsize hstd
  exact {
    width_pos := Nat.pos_of_ne_zero hsize.1
    height_pos := Nat.pos_of_ne_zero hsize.2
    labels_ne := classNames_ne hlabels
    length_animal := length_animals hanimal
    std_pos := hstd
    topK_mem := ⟨le_max_left _ _, max_le (by decide) (min_le_left _ _)⟩
    cropMargin_mem := not_not.mp (refuse_eq_ok.mp hmargin) }

end Accepted

/-! ## Boxes -/

/-- Within a side, and not of negative length. -/
def Inside (side start length : ℚ) : Prop := 0 ≤ start ∧ 0 ≤ length ∧ start + length ≤ side

def BoundingBox.Inside (box : BoundingBox) (w h : ℚ) : Prop :=
  Vision.Inside w box.x box.width ∧ Vision.Inside h box.y box.height

/-- What a detection says of a picture. -/
structure Placed (spec : VisionSpec) (picture : Picture) (d : Detection) : Prop where
  label : spec.labels[d.classId]?.map Label.name = some d.label
  animal : spec.animal[d.classId]? = some d.animal
  area : d.area.Inside picture.width picture.height
  boxNormalised : d.boxNormalised.Inside 1 1

/-- Both edges of a side are in order, or the picture lies to one side of both: it is as long as
`side` in the input, behind `pad`. -/
def InOrder (pad side low high : ℚ) : Prop := low ≤ high ∨ low ≤ pad ∨ pad + side ≤ high

/-- No side of a candidate is inside out where the picture is. -/
def Upright (picture : Picture) (place : Letterbox) (c : Candidate ℚ) : Prop :=
  InOrder place.padX (picture.width * place.scale) c.x0 c.x1 ∧
    InOrder place.padY (picture.height * place.scale) c.y0 c.y1

theorem clampTo_le_clampTo {side a b : ℚ} (hside : 0 < side) :
    clampTo side a ≤ clampTo side b ↔ a ≤ b ∨ a ≤ 0 ∨ side ≤ b := by
  unfold clampTo
  constructor
  · intro h
    by_contra! hnot
    obtain ⟨hlt, hpos, hb⟩ := hnot
    refine absurd h (not_le.mpr (max_lt ?_ ?_))
    · exact lt_max_of_lt_right (lt_min hside hpos)
    · exact lt_max_of_lt_right (min_lt_of_right_lt (lt_min hb hlt))
  · rintro (hle | hle | hle)
    · exact max_le_max_left 0 (min_le_min_left side hle)
    · exact max_le (le_max_left _ _) (min_le_of_right_le (hle.trans (le_max_left _ _)))
    · rw [min_eq_left hle]
      exact max_le (le_max_left _ _) (le_max_of_le_right (min_le_left _ _))

theorem clampTo_mem {side : ℚ} (hside : 0 < side) (a : ℚ) :
    0 ≤ clampTo side a ∧ clampTo side a ≤ side :=
  ⟨le_max_left _ _, max_le hside.le (min_le_left _ _)⟩

/-- The clamped side between two edges is within the picture exactly when they are in order. -/
theorem inside_iff {side scale pad low high : ℚ} (hside : 0 < side) (hscale : 0 < scale) :
    Inside side (clampTo side ((low - pad) / scale))
        (clampTo side ((high - pad) / scale) - clampTo side ((low - pad) / scale)) ↔
      InOrder pad (side * scale) low high := by
  have hlow := clampTo_mem hside ((low - pad) / scale)
  have hhigh := clampTo_mem hside ((high - pad) / scale)
  rw [Inside, sub_nonneg, add_sub_cancel, clampTo_le_clampTo hside, InOrder,
    div_le_div_iff_of_pos_right hscale, sub_le_sub_iff_right, div_le_iff₀ hscale, zero_mul,
    sub_nonpos, le_div_iff₀ hscale, le_sub_iff_add_le']
  exact ⟨fun h => h.2.1, fun h => ⟨hlow.1, h, hhigh.2⟩⟩

/-- In fractions of the picture, a box is within it where it is in pixels. -/
theorem Inside.div {side start length : ℚ} (hside : 0 < side) (h : Inside side start length) :
    Inside 1 (start / side) (length / side) := by
  obtain ⟨hstart, hlength, hle⟩ := h
  refine ⟨div_nonneg hstart hside.le, div_nonneg hlength hside.le, ?_⟩
  rw [← add_div, div_le_one hside]
  exact hle

/-! ## Detections -/

section Detect

variable {spec : VisionSpec} {picture : Picture}

theorem scaleOf_pos (hw : 0 < picture.width) (hh : 0 < picture.height) {width height : ℕ}
    (hwidth : 0 < width) (hheight : 0 < height) : 0 < scaleOf picture width height :=
  lt_min (div_pos (Nat.cast_pos.mpr hwidth) (Nat.cast_pos.mpr hw))
    (div_pos (Nat.cast_pos.mpr hheight) (Nat.cast_pos.mpr hh))

/-- What the network makes of a picture. -/
def Output (spec : VisionSpec) (picture : Picture) (run : List ℚ → Except Text (RawTensor ℚ))
    (raw : RawTensor ℚ) : Prop :=
  ∃ input place arranged, letterbox picture spec.width spec.height = some (input, place) ∧
    spec.arrange input = some arranged ∧ run arranged = .ok raw

/-- Of the boxes of an output that are strong enough, no kept one is inside out where the picture
is. -/
def UprightOutput (spec : VisionSpec) (picture : Picture) (options : DetectOptions)
    (raw : RawTensor ℚ) : Prop :=
  ∀ candidates, yoloCandidates f32Min raw spec.labels.length
      (options.minConfidence.getD spec.minConfidence) = some (.ok candidates) →
    ∀ c ∈ suppress candidates (options.iou.getD spec.iou),
      Upright picture (.fitting picture spec.width spec.height) c

/-- Nothing panics on the way to a network; and what a detector finds is strongest first, each in
its place in the picture. -/
structure Sound (spec : VisionSpec) (picture : Picture)
    (run : List ℚ → Except Text (RawTensor ℚ)) (options : DetectOptions) : Prop where
  letterboxed : ((letterbox picture spec.width spec.height).bind
    fun p => spec.arrange p.1).isSome
  stretched : ((normalised picture spec.width spec.height spec.mean spec.std).bind
    spec.arrange).isSome
  strongestFirst : ∀ found, detect spec picture run options = some (.ok found) →
    found.Pairwise fun a b => b.confidence ≤ a.confidence
  placed : ∀ found, detect spec picture run options = some (.ok found) →
    ∀ d ∈ found, Placed spec picture d

/-- A candidate of a class of the spec is made a detection, which is right exactly when no side of
it is inside out where the picture is. -/
theorem exists_detectionOf (hvalid : spec.Valid) (hw : 0 < picture.width)
    (hh : 0 < picture.height) {place : Letterbox} (hscale : 0 < place.scale) {c : Candidate ℚ}
    (hclass : c.cls < spec.labels.length) :
    ∃ d, detectionOf spec picture place c = some d ∧ d.confidence = c.score ∧
      (Placed spec picture d ↔ Upright picture place c) := by
  have hlabel := List.getElem?_eq_getElem hclass
  have hanimal := List.getElem?_eq_getElem (hvalid.length_animal.symm ▸ hclass)
  simp only [detectionOf, hlabel, hanimal, Option.bind_eq_bind, Option.bind_some, Option.pure_def,
    Letterbox.toPicture]
  refine ⟨_, rfl, rfl, fun h => ?_, fun h => ?_⟩
  · exact ⟨(inside_iff (Nat.cast_pos.mpr hw) hscale).mp h.area.1,
      (inside_iff (Nat.cast_pos.mpr hh) hscale).mp h.area.2⟩
  · have hx := (inside_iff (Nat.cast_pos.mpr hw) hscale).mpr h.1
    have hy := (inside_iff (Nat.cast_pos.mpr hh) hscale).mpr h.2
    exact {
      label := by rw [hlabel]; rfl
      animal := hanimal
      area := ⟨hx, hy⟩
      boxNormalised := ⟨hx.div (Nat.cast_pos.mpr hw), hy.div (Nat.cast_pos.mpr hh)⟩ }

theorem exists_arrange (hfit : spec.width * spec.height < 2 ^ 32) {planar : List ℚ}
    (hlength : planar.length = 3 * (spec.width * spec.height)) :
    ∃ arranged, spec.arrange planar = some arranged := by
  rw [VisionSpec.arrange]
  split_ifs
  · obtain ⟨out, hout, -⟩ := exists_channelsLast hfit hlength
    exact ⟨out, hout⟩
  · exact ⟨planar, rfl⟩

variable {run : List ℚ → Except Text (RawTensor ℚ)} {options : DetectOptions}
  {found : List Detection}

theorem detectionsOf_eq_ok {place : Letterbox} {raw : RawTensor ℚ} :
    detectionsOf spec picture options place raw = some (.ok found) ↔
      ∃ candidates, yoloCandidates f32Min raw spec.labels.length
          (options.minConfidence.getD spec.minConfidence) = some (.ok candidates) ∧
        (suppress candidates (options.iou.getD spec.iou)).mapM (detectionOf spec picture place) =
          some found := by
  rw [detectionsOf]
  cases yoloCandidates f32Min raw spec.labels.length
      (options.minConfidence.getD spec.minConfidence) with
  | none => simp
  | some answer =>
    cases answer with
    | error e => simp
    | ok candidates => simp [Option.bind_eq_some_iff]

theorem detect_eq_ok :
    detect spec picture run options = some (.ok found) ↔
      spec.task = .detect ∧ ∃ input place arranged raw,
        letterbox picture spec.width spec.height = some (input, place) ∧
          spec.arrange input = some arranged ∧ run arranged = .ok raw ∧
            detectionsOf spec picture options place raw = some (.ok found) := by
  by_cases htask : spec.task = .detect
  · have hrequire : require spec .detect = .ok () := refuse_eq_ok.mpr (not_not.mpr htask)
    rw [detect, hrequire]
    constructor
    · intro h
      obtain ⟨⟨input, place⟩, hinput, h⟩ := Option.bind_eq_some_iff.mp h
      obtain ⟨arranged, harranged, h⟩ := Option.bind_eq_some_iff.mp h
      cases hrun : run arranged with
      | error e =>
        simp only [hrun, Option.pure_def, Option.some_inj, reduceCtorEq] at h
      | ok raw =>
        simp only [hrun] at h
        exact ⟨htask, input, place, arranged, raw, hinput, harranged, hrun, h⟩
    · rintro ⟨-, input, place, arranged, raw, hinput, harranged, hrun, h⟩
      simp only [hinput, harranged, hrun, h, Option.bind_eq_bind, Option.bind_some]
  · have hrequire : ∃ e, require spec .detect = .error e := ⟨_, if_pos htask⟩
    obtain ⟨e, he⟩ := hrequire
    rw [detect, he]
    exact iff_of_false (fun h => by cases Option.some_inj.mp h) fun h => htask h.1

theorem cls_lt_of_mem_suppress (hvalid : spec.Valid) {raw : RawTensor ℚ} {minConfidence iou : ℚ}
    {candidates : List (Candidate ℚ)}
    (h : yoloCandidates f32Min raw spec.labels.length minConfidence = some (.ok candidates))
    {c : Candidate ℚ} (hc : c ∈ suppress candidates iou) : c.cls < spec.labels.length :=
  cls_lt_of_mem_candidates f32Min (List.length_pos_iff.mpr hvalid.labels_ne) h
    (mem_of_mem_suppress hc)

section Main

variable (hvalid : spec.Valid) (hw : 0 < picture.width) (hh : 0 < picture.height)

include hvalid hw hh

theorem exists_detection {c : Candidate ℚ} (hclass : c.cls < spec.labels.length) :
    ∃ d, detectionOf spec picture (.fitting picture spec.width spec.height) c = some d ∧
      d.confidence = c.score ∧
        (Placed spec picture d ↔ Upright picture (.fitting picture spec.width spec.height) c) :=
  exists_detectionOf hvalid hw hh (scaleOf_pos hw hh hvalid.width_pos hvalid.height_pos) hclass

theorem upright_of_sound (hfit : spec.width * spec.height < 2 ^ 32)
    (hsound : Sound spec picture run options) (htask : spec.task = .detect) {raw : RawTensor ℚ}
    (hraw : Output spec picture run raw) : UprightOutput spec picture options raw := by
  intro candidates hcandidates c hc
  obtain ⟨input, place, arranged, hinput, harranged, hrun⟩ := hraw
  obtain ⟨input', hinput', -⟩ := letterbox_eq hw hh hvalid.width_pos hvalid.height_pos hfit
  obtain ⟨-, rfl⟩ := Prod.mk.inj (Option.some_inj.mp (hinput.symm.trans hinput'))
  have hclass : ∀ c ∈ suppress candidates (options.iou.getD spec.iou),
      c.cls < spec.labels.length := fun c hc => cls_lt_of_mem_suppress hvalid hcandidates hc
  obtain ⟨found, hfound⟩ := exists_mapM_eq_some fun c hc =>
    (exists_detection hvalid hw hh (hclass c hc)).imp fun d hd => hd.1
  have hdetect : detect spec picture run options = some (.ok found) :=
    detect_eq_ok.mpr ⟨htask, _, _, _, raw, hinput, harranged, hrun,
      detectionsOf_eq_ok.mpr ⟨candidates, hcandidates, hfound⟩⟩
  obtain ⟨d, hd, hcd⟩ := exists_mem_of_mapM hfound hc
  obtain ⟨d', hd', -, hiff⟩ := exists_detection hvalid hw hh (hclass c hc)
  obtain rfl := Option.some_inj.mp (hcd.symm.trans hd')
  exact hiff.mp (hsound.placed found hdetect d hd)

/-- What is found comes of kept candidates, strongest first and upright. -/
theorem exists_kept (hfit : spec.width * spec.height < 2 ^ 32)
    (hupright : spec.task = .detect → ∀ raw, Output spec picture run raw →
      UprightOutput spec picture options raw)
    (hfound : detect spec picture run options = some (.ok found)) :
    ∃ kept : List (Candidate ℚ), kept.Pairwise (fun a b => b.score ≤ a.score) ∧
      (∀ c ∈ kept, c.cls < spec.labels.length ∧
        Upright picture (.fitting picture spec.width spec.height) c) ∧
      kept.mapM (detectionOf spec picture (.fitting picture spec.width spec.height)) =
        some found := by
  obtain ⟨input, hinput, -⟩ := letterbox_eq hw hh hvalid.width_pos hvalid.height_pos hfit
  obtain ⟨htask, input', place, arranged, raw, hinput', harranged, hrun, hfound⟩ :=
    detect_eq_ok.mp hfound
  obtain ⟨rfl, rfl⟩ := Prod.mk.inj (Option.some_inj.mp (hinput'.symm.trans hinput))
  obtain ⟨candidates, hcandidates, hfound⟩ := detectionsOf_eq_ok.mp hfound
  exact ⟨_, pairwise_suppress _ _, fun c hc =>
    ⟨cls_lt_of_mem_suppress hvalid hcandidates hc,
      hupright htask raw ⟨_, _, arranged, hinput, harranged, hrun⟩ candidates hcandidates c hc⟩,
    hfound⟩

theorem sound_of_upright (hfit : spec.width * spec.height < 2 ^ 32)
    (hupright : spec.task = .detect → ∀ raw, Output spec picture run raw →
      UprightOutput spec picture options raw) :
    Sound spec picture run options := by
  obtain ⟨input, hinput, hlength⟩ := letterbox_eq hw hh hvalid.width_pos hvalid.height_pos hfit
  obtain ⟨stretched, hstretched, hlength'⟩ :=
    normalised_eq hw hh hvalid.width_pos hvalid.height_pos hfit spec.mean spec.std
  refine ⟨?_, ?_, fun found hfound => ?_, fun found hfound d hd => ?_⟩
  · rw [hinput, Option.bind_some]
    exact Option.isSome_iff_exists.mpr (exists_arrange hfit hlength)
  · rw [hstretched, Option.bind_some]
    exact Option.isSome_iff_exists.mpr (exists_arrange hfit hlength')
  · obtain ⟨kept, hsorted, hkept, hmapM⟩ := exists_kept hvalid hw hh hfit hupright hfound
    have hscores : found.map Detection.confidence = kept.map Candidate.score := by
      refine map_of_mapM hmapM fun c hc d hd => ?_
      obtain ⟨d', hd', hscore, -⟩ := exists_detection hvalid hw hh (hkept c hc).1
      obtain rfl := Option.some_inj.mp (hd.symm.trans hd')
      exact hscore
    have hpairs : (found.map Detection.confidence).Pairwise fun a b => b ≤ a := by
      rw [hscores]
      exact List.pairwise_map.mpr hsorted
    exact List.pairwise_map.mp hpairs
  · obtain ⟨kept, -, hkept, hmapM⟩ := exists_kept hvalid hw hh hfit hupright hfound
    obtain ⟨c, hc, hcd⟩ := exists_of_mem_mapM hmapM hd
    obtain ⟨d', hd', -, hiff⟩ := exists_detection hvalid hw hh (hkept c hc).1
    obtain rfl := Option.some_inj.mp (hcd.symm.trans hd')
    exact hiff.mpr (hkept c hc).2

end Main

end Detect

/-- No file is read, and a label is shown as it is. -/
def plainLabels : Engine.Labels.Library := ⟨fun _ => none, fun c => [c], id⟩

/-- A detector of one class whose input is of two pixels by two. -/
def tinyDetector : CatalogModel where
  id := "tiny"
  displayName := "Tiny"
  kind := .vision
  source := {
    engine := .onnxVision
    files := []
    cliDefaults := {
      width := 2
      height := 2
      vision := some { task := .detect, labels := ["animal"] } } }

def grey : Picture :=
  ⟨2, 2, List.replicate 4 (128, 128, 128), rfl, by decide, by decide⟩

/-- A network that answers one box, whatever it is given. -/
def oneBox (w : ℚ) (_ : List ℚ) : Except Text (RawTensor ℚ) :=
  .ok ⟨[1, 1, 6], [1, 1, w, 1, 1, 1]⟩

end StudioWorker.Vision
