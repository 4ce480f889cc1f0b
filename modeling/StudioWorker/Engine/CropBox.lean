import StudioWorker.Engine.Preprocess
import StudioWorker.Lib.Nearest

/-!
# Engine.CropBox — the part of a picture that an object is removed in (`src/engine/onnx.rs`)

A sum, a product, a difference and a clamp of `u32`s are checked: `none` is a panic.

* `hdCropBox`, `removalFill`: as in the source.
* `Sound`: what is asked of the box, and `Fits`: the masks where it is.
* `hdCropBox_sound_iff`: those are all of them.
-/

namespace StudioWorker.Removal

open Vision Lib.Nearest

/-- A picture.  No pixel outside of it is read. -/
structure Image (P : Type) where
  width : ℕ
  height : ℕ
  pixel : ℕ → ℕ → P
  width_lt : width < 2 ^ 32
  height_lt : height < 2 ^ 32

abbrev GrayImage := Image UInt8

/-- `enumerate_pixels`: columns and rows, row by row. -/
def Image.coordinates {P : Type} (image : Image P) : List (ℕ × ℕ) :=
  (List.range image.height).flatMap fun y => (List.range image.width).map fun x => (x, y)

/-- The variables of the loop over the mask. -/
structure Bounds where
  x0 : ℕ
  y0 : ℕ
  x1 : ℕ
  y1 : ℕ
  any : Bool

def whiten (mask : GrayImage) (b : Bounds) (p : ℕ × ℕ) : Bounds :=
  if 128 < mask.pixel p.1 p.2 then
    ⟨min b.x0 p.1, min b.y0 p.2, max b.x1 p.1, max b.y1 p.2, true⟩
  else b

def bounds (mask : GrayImage) (w h : ℕ) : Bounds :=
  mask.coordinates.foldl (whiten mask) ⟨w, h, 0, 0, false⟩

/-- `n as f32`: a number of 24 significant bits. -/
def asF32 (n : ℕ) : ℚ := nearest 24 n

def hdCropBox (mask : GrayImage) (w h : ℕ) : Option (Option (ℕ × ℕ × ℕ × ℕ)) :=
  let b := bounds mask w h
  if b.any then do
    let bw ← addU32 (← subU32 b.x1 b.x0) 1
    let bh ← addU32 (← subU32 b.y1 b.y0) 1
    let maxDim := max bw bh
    let margin ← addU32 (asU32 (Vision.round (asF32 maxDim * (1 / 4)))) 32
    let limit := min w h
    let side ← clampU32 256 limit (← addU32 maxDim (← mulU32 2 margin))
    if w ≤ side ∧ h ≤ side then return none
    else
      let centreX ← addU32 b.x0 (bw / 2)
      let centreY ← addU32 b.y0 (bh / 2)
      let half := side / 2
      let x := min (centreX - half) (← subU32 w side)
      let y := min (centreY - half) (← subU32 h side)
      return some (x, y, side, side)
  else return none

/-! ## What is filled in -/

/-- `crop_imm` -/
def Image.crop {P : Type} (image : Image P) (x y w h : ℕ) : Image P :=
  let x := min x image.width
  let y := min y image.height
  { width := min w (image.width - x)
    height := min h (image.height - y)
    pixel := fun dx dy => image.pixel (x + dx) (y + dy)
    width_lt := by have := image.width_lt; omega
    height_lt := by have := image.height_lt; omega }

/-- `imageops::replace` -/
def Image.replace {P : Type} (bottom top : Image P) (x y : ℕ) : Image P :=
  { bottom with
    pixel := fun px py =>
      if x ≤ px ∧ px < x + top.width ∧ y ≤ py ∧ py < y + top.height then
        top.pixel (px - x) (py - y)
      else bottom.pixel px py }

/-- `run_lama_region`: what the network makes of a region and its mask, at the size of the
region. -/
def runLamaRegion {P ε : Type} (lama : Image P → GrayImage → Except ε (ℕ → ℕ → P)) (rgb : Image P)
    (mask : GrayImage) : Except ε (Image P) := do
  let pixel ← lama rgb mask
  return {
    width := max rgb.width 1
    height := max rgb.height 1
    pixel := pixel
    width_lt := by have := rgb.width_lt; omega
    height_lt := by have := rgb.height_lt; omega }

/-- `fill` of `remove`; `none` is a panic. -/
def removalFill {P ε : Type} (lama : Image P → GrayImage → Except ε (ℕ → ℕ → P))
    (original : Image P) (mask : GrayImage) (w h : ℕ) : Option (Except ε (Image P)) := do
  match ← hdCropBox mask w h with
  | some (cx, cy, cw, ch) =>
    return do
      let inpainted ← runLamaRegion lama (original.crop cx cy cw ch) (mask.crop cx cy cw ch)
      return original.replace inpainted cx cy
  | none => return runLamaRegion lama original mask

/-! ## The bounds of the white pixels -/

/-- A pixel of the mask that belongs to the object. -/
def White (mask : GrayImage) (x y : ℕ) : Prop :=
  x < mask.width ∧ y < mask.height ∧ 128 < mask.pixel x y

theorem mem_coordinates {P : Type} {image : Image P} {p : ℕ × ℕ} :
    p ∈ image.coordinates ↔ p.1 < image.width ∧ p.2 < image.height := by
  rw [Image.coordinates, List.mem_flatMap]
  constructor
  · rintro ⟨y, hy, hp⟩
    obtain ⟨x, hx, rfl⟩ := List.mem_map.mp hp
    exact ⟨List.mem_range.mp hx, List.mem_range.mp hy⟩
  · rintro ⟨hx, hy⟩
    exact ⟨p.2, List.mem_range.mpr hy, List.mem_map.mpr ⟨p.1, List.mem_range.mpr hx, rfl⟩⟩

/-- The white pixels, in the order of the loop. -/
def whites (mask : GrayImage) : List (ℕ × ℕ) :=
  mask.coordinates.filter fun p => 128 < mask.pixel p.1 p.2

variable {mask : GrayImage}

theorem mem_whites {p : ℕ × ℕ} : p ∈ whites mask ↔ White mask p.1 p.2 := by
  rw [whites, List.mem_filter, mem_coordinates, White, decide_eq_true_iff, and_assoc]

theorem foldl_whiten (points : List (ℕ × ℕ)) (b : Bounds) :
    points.foldl (whiten mask) b =
      let white := points.filter fun p => 128 < mask.pixel p.1 p.2
      ⟨(white.map Prod.fst).foldl min b.x0, (white.map Prod.snd).foldl min b.y0,
        (white.map Prod.fst).foldl max b.x1, (white.map Prod.snd).foldl max b.y1,
        b.any || !white.isEmpty⟩ := by
  induction points generalizing b with
  | nil =>
    rw [List.filter_nil]
    show b = ⟨b.x0, b.y0, b.x1, b.y1, b.any || false⟩
    rw [Bool.or_false]
  | cons p points ih =>
    rw [List.foldl_cons, ih]
    by_cases hp : 128 < mask.pixel p.1 p.2
    · rw [List.filter_cons_of_pos (by rw [decide_eq_true_iff]; exact hp), whiten, if_pos hp]
      show Bounds.mk _ _ _ _ (true || _) = ⟨_, _, _, _, b.any || true⟩
      rw [Bool.true_or, Bool.or_true]
      rfl
    · rw [List.filter_cons_of_neg (by rw [decide_eq_true_iff]; exact hp), whiten, if_neg hp]

theorem bounds_eq (w h : ℕ) :
    bounds mask w h =
      ⟨((whites mask).map Prod.fst).foldl min w, ((whites mask).map Prod.snd).foldl min h,
        ((whites mask).map Prod.fst).foldl max 0, ((whites mask).map Prod.snd).foldl max 0,
        !(whites mask).isEmpty⟩ := foldl_whiten _ _

/-- The bounds of what is white, where something is. -/
structure Brackets (mask : GrayImage) (b : Bounds) : Prop where
  any : b.any = true
  within : ∀ x y, White mask x y → b.x0 ≤ x ∧ x ≤ b.x1 ∧ b.y0 ≤ y ∧ y ≤ b.y1
  left : ∃ y, White mask b.x0 y
  right : ∃ y, White mask b.x1 y
  top : ∃ x, White mask x b.y0
  bottom : ∃ x, White mask x b.y1

/-- The least of some numbers below `bound`, when the loop starts there. -/
theorem foldl_min_spec {l : List ℕ} (bound : ℕ) (hl : l ≠ []) (hlt : ∀ n ∈ l, n < bound) :
    l.foldl min bound ∈ l ∧ ∀ n ∈ l, l.foldl min bound ≤ n := by
  have hmem : l.min hl ∈ l := List.min_mem hl
  rw [List.foldl_min_eq_min hl, Nat.min_eq_right (hlt _ hmem).le]
  exact ⟨hmem, fun n hn => List.min_le_of_mem hn⟩

theorem foldl_max_spec {l : List ℕ} (hl : l ≠ []) :
    l.foldl max 0 ∈ l ∧ ∀ n ∈ l, n ≤ l.foldl max 0 := by
  rw [List.foldl_max_eq_max hl, Nat.zero_max]
  exact ⟨List.max_mem hl, fun n hn => List.le_max_of_mem hn⟩

theorem bounds_of_none {w h : ℕ} (hnone : ∀ x y, ¬ White mask x y) :
    (bounds mask w h).any = false := by
  have hempty : whites mask = [] :=
    List.eq_nil_iff_forall_not_mem.mpr fun p hp => hnone p.1 p.2 (mem_whites.mp hp)
  rw [bounds_eq, hempty]
  rfl

theorem bounds_brackets {x y : ℕ} (hwhite : White mask x y) :
    Brackets mask (bounds mask mask.width mask.height) := by
  have hne : whites mask ≠ [] := List.ne_nil_of_mem (mem_whites (p := (x, y)).mpr hwhite)
  have hx : ∀ n ∈ (whites mask).map Prod.fst, ∃ y, White mask n y := by
    intro n hn
    obtain ⟨p, hp, rfl⟩ := List.mem_map.mp hn
    exact ⟨p.2, mem_whites.mp hp⟩
  have hy : ∀ n ∈ (whites mask).map Prod.snd, ∃ x, White mask x n := by
    intro n hn
    obtain ⟨p, hp, rfl⟩ := List.mem_map.mp hn
    exact ⟨p.1, mem_whites.mp hp⟩
  have hne1 : (whites mask).map Prod.fst ≠ [] := fun h => hne (List.map_eq_nil_iff.mp h)
  have hne2 : (whites mask).map Prod.snd ≠ [] := fun h => hne (List.map_eq_nil_iff.mp h)
  obtain ⟨hleft, hleft_le⟩ := foldl_min_spec mask.width hne1 fun n hn =>
    (hx n hn).choose_spec.1
  obtain ⟨htop, htop_le⟩ := foldl_min_spec mask.height hne2 fun n hn =>
    (hy n hn).choose_spec.2.1
  obtain ⟨hright, hright_le⟩ := foldl_max_spec hne1
  obtain ⟨hbottom, hbottom_le⟩ := foldl_max_spec hne2
  rw [bounds_eq]
  refine ⟨?_, ?_, hx _ hleft, hx _ hright, hy _ htop, hy _ hbottom⟩
  · rw [Bool.not_eq_true', List.isEmpty_eq_false_iff]
    exact hne
  · intro x' y' hwhite'
    have hp := mem_whites (p := (x', y')).mpr hwhite'
    have hx' := List.mem_map_of_mem (f := Prod.fst) hp
    have hy' := List.mem_map_of_mem (f := Prod.snd) hp
    exact ⟨hleft_le _ hx', hright_le _ hx', htop_le _ hy', hbottom_le _ hy'⟩

/-! ## The box -/

def margin (maxDim : ℕ) : ℕ := (nearest 24 maxDim + 2) / 4 + 32

def cropSide (limit maxDim : ℕ) : ℕ := max 256 (min limit (maxDim + 2 * margin maxDim))

/-- Where a side of the box starts along an axis of `extent` pixels. -/
def cropStart (extent first breadth side : ℕ) : ℕ :=
  min (first + breadth / 2 - side / 2) (extent - side)

/-- The widest hole whose box a `u32` still measures. -/
def maxHole : ℕ := 2863311488

theorem round_quarter (n : ℕ) : Vision.round ((n : ℚ) * (1 / 4)) = ((n + 2) / 4 : ℕ) := by
  have hpos : (0 : ℚ) ≤ (n : ℚ) * (1 / 4) := by positivity
  have hquarter : (n : ℚ) * (1 / 4) + 1 / 2 = ((n + 2 : ℕ) : ℚ) / (4 : ℕ) := by
    push_cast
    ring
  rw [Vision.round, if_pos hpos, hquarter, Rat.floor_natCast_div_natCast]
  rfl

variable {n : ℕ}

theorem nearest_le (hn : n ≠ 0) : 2 * nearest 24 n ≤ 3 * n := by
  have hhalf : 2 * nearest 24 n ≤ 2 * n + unit 24 n := two_mul_nearest_le
  have hunit : unit 24 n ≤ n := unit_le (by omega) hn
  omega

theorem margin_eq (hn : n ≠ 0) (hlt : n < 2 ^ 32) :
    addU32 (asU32 (Vision.round (asF32 n * (1 / 4)))) 32 = some (margin n) := by
  have hle := nearest_le hn
  rw [asF32, round_quarter, asU32, Int.toNat_natCast, Nat.min_eq_left (by omega),
    addU32_of_lt (by omega), margin]

/-- The box with its margins leaves the range of a `u32` beyond the widest hole only. -/
theorem add_margin_lt_iff (hn : n ≠ 0) (hlt : n < 2 ^ 32) :
    n + 2 * margin n < 2 ^ 32 ↔ n ≤ maxHole := by
  rw [margin, maxHole]
  by_cases hsmall : n < 2 ^ 31
  · have hle := nearest_le hn
    omega
  · have hlog : Nat.log2 n + 1 - 24 = 8 := by
      rw [(Nat.log2_eq_iff hn).mpr ⟨Nat.le_of_not_lt hsmall, hlt⟩]
    rw [nearest_of_log2 hlog]
    split_ifs <;> omega

/-- The box holds the hole along an axis. -/
theorem cropStart_spec (extent first : ℕ) {breadth side : ℕ} (hin : first + breadth ≤ extent)
    (hbreadth : breadth ≤ side) (hside : side ≤ extent) :
    cropStart extent first breadth side ≤ first ∧
      first + breadth ≤ cropStart extent first breadth side + side ∧
      cropStart extent first breadth side + side ≤ extent := by
  rw [cropStart]
  omega

theorem cropSide_le {limit : ℕ} (maxDim : ℕ) (hlimit : 256 ≤ limit) :
    cropSide limit maxDim ≤ limit := by
  rw [cropSide]
  omega

theorem le_cropSide {limit maxDim : ℕ} (hdim : maxDim ≤ limit) :
    maxDim ≤ cropSide limit maxDim := by
  rw [cropSide]
  omega

def breadth (b : Bounds) : ℕ := b.x1 - b.x0 + 1
def depth (b : Bounds) : ℕ := b.y1 - b.y0 + 1
def hole (b : Bounds) : ℕ := max (breadth b) (depth b)

theorem Brackets.range {b : Bounds} (hb : Brackets mask b) :
    b.x0 ≤ b.x1 ∧ b.x1 < mask.width ∧ b.y0 ≤ b.y1 ∧ b.y1 < mask.height := by
  obtain ⟨y, hleft⟩ := hb.left
  obtain ⟨y', hright⟩ := hb.right
  obtain ⟨x, htop⟩ := hb.top
  obtain ⟨x', hbottom⟩ := hb.bottom
  exact ⟨(hb.within _ _ hleft).2.1, hright.1, (hb.within _ _ htop).2.2.2, hbottom.2.1⟩

/-- What the box is where something is white. -/
theorem hdCropBox_eq (hb : Brackets mask (bounds mask mask.width mask.height)) :
    hdCropBox mask mask.width mask.height =
      let b := bounds mask mask.width mask.height
      let limit := min mask.width mask.height
      let side := cropSide limit (hole b)
      if 256 ≤ limit ∧ hole b ≤ maxHole then
        some (if mask.width ≤ side ∧ mask.height ≤ side then none
          else some (cropStart mask.width b.x0 (breadth b) side,
            cropStart mask.height b.y0 (depth b) side, side, side))
      else none := by
  obtain ⟨hx, hxw, hy, hyh⟩ := hb.range
  have hw := mask.width_lt
  have hh := mask.height_lt
  have hany := hb.any
  rw [hdCropBox]
  generalize bounds mask mask.width mask.height = b at hx hxw hy hyh hany ⊢
  have hbreadth : addU32 (b.x1 - b.x0) 1 = some (breadth b) := addU32_of_lt (by omega)
  have hdepth : addU32 (b.y1 - b.y0) 1 = some (depth b) := addU32_of_lt (by omega)
  have hxb : b.x0 + breadth b ≤ mask.width := by rw [breadth]; omega
  have hyd : b.y0 + depth b ≤ mask.height := by rw [depth]; omega
  have hhole : max (breadth b) (depth b) = hole b := rfl
  have hpos : hole b ≠ 0 := by rw [hole, breadth]; omega
  have hlt : hole b < 2 ^ 32 := by rw [hole]; omega
  have hle := nearest_le hpos
  have hdouble : mulU32 2 (margin (hole b)) = some (2 * margin (hole b)) :=
    mulU32_of_lt (by rw [margin]; omega)
  dsimp only
  rw [if_pos hany, subU32_of_le hx, subU32_of_le hy]
  simp only [Option.bind_eq_bind, Option.bind_some, hbreadth, hdepth, hhole, margin_eq hpos hlt,
    hdouble]
  by_cases hsum : hole b ≤ maxHole
  · rw [addU32_of_lt ((add_margin_lt_iff hpos hlt).mpr hsum)]
    by_cases hlimit : 256 ≤ min mask.width mask.height
    · have hside : cropSide (min mask.width mask.height) (hole b) ≤
          min mask.width mask.height := cropSide_le _ hlimit
      rw [if_pos ⟨hlimit, hsum⟩, Option.bind_some, clampU32, if_pos hlimit, Option.bind_some,
        ← cropSide]
      generalize cropSide (min mask.width mask.height) (hole b) = side at hside ⊢
      by_cases hframe : mask.width ≤ side ∧ mask.height ≤ side
      · rw [if_pos hframe, if_pos hframe]
        rfl
      · rw [if_neg hframe, if_neg hframe, addU32_of_lt (by omega), addU32_of_lt (by omega),
          subU32_of_le (by omega), subU32_of_le (by omega)]
        rfl
    · rw [if_neg fun h => hlimit h.1, Option.bind_some, clampU32, if_neg hlimit]
      rfl
  · rw [if_neg fun h => hsum h.2, addU32, if_neg fun h => hsum ((add_margin_lt_iff hpos hlt).mp h)]
    rfl

/-! ## The masks whose object is removed whole -/

/-- There is no panic, and a box is a square of the picture that holds all that is white. -/
def Sound (mask : GrayImage) : Prop :=
  ∃ box, hdCropBox mask mask.width mask.height = some box ∧
    ∀ x y cw ch, box = some (x, y, cw, ch) →
      cw = ch ∧ x + cw ≤ mask.width ∧ y + ch ≤ mask.height ∧
        ∀ px py, White mask px py → x ≤ px ∧ px < x + cw ∧ y ≤ py ∧ py < y + ch

/-- Nothing is white, or both sides are of at least 256 pixels and no two white pixels are as far
apart along an axis as the shorter side is long, or as the widest hole. -/
def Fits (mask : GrayImage) : Prop :=
  (∀ x y, ¬ White mask x y) ∨
    256 ≤ min mask.width mask.height ∧
      ∀ x y x' y', White mask x y → White mask x' y' →
        x' < x + min (min mask.width mask.height) maxHole ∧
          y' < y + min (min mask.width mask.height) maxHole

/-- In terms of the bounds. -/
theorem fits_iff_of_brackets {b : Bounds} (hb : Brackets mask b) :
    Fits mask ↔ 256 ≤ min mask.width mask.height ∧ hole b ≤ min mask.width mask.height ∧
      hole b ≤ maxHole := by
  obtain ⟨hx, -, hy, -⟩ := hb.range
  constructor
  · rintro (hnone | ⟨hlimit, hnear⟩)
    · obtain ⟨y, hleft⟩ := hb.left
      exact absurd hleft (hnone _ _)
    · obtain ⟨y, hleft⟩ := hb.left
      obtain ⟨y', hright⟩ := hb.right
      obtain ⟨x, htop⟩ := hb.top
      obtain ⟨x', hbottom⟩ := hb.bottom
      have hacross := (hnear _ _ _ _ hleft hright).1
      have hdown := (hnear _ _ _ _ htop hbottom).2
      rw [hole, breadth, depth]
      omega
  · rintro ⟨hlimit, hshort, hmax⟩
    refine .inr ⟨hlimit, fun x y x' y' hp hq => ?_⟩
    obtain ⟨hpx, -, hpy, -⟩ := hb.within _ _ hp
    obtain ⟨-, hqx, -, hqy⟩ := hb.within _ _ hq
    rw [hole, breadth, depth] at hshort hmax
    omega

theorem sound_of_brackets (hb : Brackets mask (bounds mask mask.width mask.height))
    (hfits : Fits mask) : Sound mask := by
  obtain ⟨hlimit, hshort, hmax⟩ := (fits_iff_of_brackets hb).mp hfits
  obtain ⟨hx, hxw, hy, hyh⟩ := hb.range
  have heq := hdCropBox_eq hb
  have hwithin := hb.within
  generalize bounds mask mask.width mask.height = b at heq hshort hmax hx hxw hy hyh hwithin
  dsimp only at heq
  rw [if_pos ⟨hlimit, hmax⟩] at heq
  refine ⟨_, heq, fun x y cw ch hbox => ?_⟩
  have hside_le : cropSide (min mask.width mask.height) (hole b) ≤ min mask.width mask.height :=
    cropSide_le _ hlimit
  have hle_side : hole b ≤ cropSide (min mask.width mask.height) (hole b) := le_cropSide hshort
  split_ifs at hbox
  obtain ⟨rfl, htail⟩ := Prod.mk.inj (Option.some.inj hbox)
  obtain ⟨rfl, hsides⟩ := Prod.mk.inj htail
  obtain ⟨rfl, rfl⟩ := Prod.mk.inj hsides
  generalize cropSide (min mask.width mask.height) (hole b) = side at hside_le hle_side ⊢
  have hbreadth : breadth b ≤ side := (le_max_left _ _).trans hle_side
  have hdepth : depth b ≤ side := (le_max_right _ _).trans hle_side
  obtain ⟨hleft, hright, hwide⟩ := cropStart_spec mask.width b.x0
    (by rw [breadth]; omega) hbreadth (by omega)
  obtain ⟨htop, hbottom, htall⟩ := cropStart_spec mask.height b.y0
    (by rw [depth]; omega) hdepth (by omega)
  refine ⟨rfl, hwide, htall, fun px py hwhite => ?_⟩
  obtain ⟨h0, h1, h2, h3⟩ := hwithin px py hwhite
  have hx1 : b.x0 + breadth b = b.x1 + 1 := by rw [breadth]; omega
  have hy1 : b.y0 + depth b = b.y1 + 1 := by rw [depth]; omega
  omega

theorem fits_of_brackets (hb : Brackets mask (bounds mask mask.width mask.height))
    (hsound : Sound mask) : Fits mask := by
  obtain ⟨box, hbox, hholds⟩ := hsound
  rw [fits_iff_of_brackets hb]
  obtain ⟨hx, hxw, hy, hyh⟩ := hb.range
  obtain ⟨y, hleft⟩ := hb.left
  obtain ⟨y', hright⟩ := hb.right
  obtain ⟨x, htop⟩ := hb.top
  obtain ⟨x', hbottom⟩ := hb.bottom
  rw [hdCropBox_eq hb] at hbox
  generalize bounds mask mask.width mask.height = b
    at hbox hx hxw hy hyh hleft hright htop hbottom ⊢
  dsimp only at hbox
  split_ifs at hbox with hcan hframe
  · -- the box is the frame, so the picture is a square
    obtain ⟨hlimit, hmax⟩ := hcan
    have hside := cropSide_le (hole b) hlimit
    refine ⟨hlimit, ?_, hmax⟩
    rw [hole, breadth, depth] at *
    omega
  · obtain ⟨hlimit, hmax⟩ := hcan
    have hside := cropSide_le (hole b) hlimit
    refine ⟨hlimit, ?_, hmax⟩
    obtain ⟨-, -, -, hin⟩ := hholds _ _ _ _ (Option.some.inj hbox).symm
    obtain ⟨hl, -⟩ := hin _ _ hleft
    obtain ⟨-, hr, -⟩ := hin _ _ hright
    obtain ⟨-, -, ht, -⟩ := hin _ _ htop
    obtain ⟨-, -, -, hbot⟩ := hin _ _ hbottom
    have hbreadth : breadth b ≤ cropSide (min mask.width mask.height) (hole b) := by
      rw [breadth]
      omega
    have hdepth : depth b ≤ cropSide (min mask.width mask.height) (hole b) := by
      rw [depth]
      omega
    exact (max_le hbreadth hdepth).trans hside

theorem sound_iff_fits : Sound mask ↔ Fits mask := by
  by_cases hwhite : ∃ x y, White mask x y
  · obtain ⟨x, y, hxy⟩ := hwhite
    exact ⟨fits_of_brackets (bounds_brackets hxy), sound_of_brackets (bounds_brackets hxy)⟩
  · have hnone : ∀ x y, ¬ White mask x y := fun x y hxy => hwhite ⟨x, y, hxy⟩
    refine iff_of_true ⟨none, ?_, fun x y cw ch hbox => ?_⟩ (.inl hnone)
    · rw [hdCropBox]
      dsimp only
      rw [bounds_of_none hnone]
      rfl
    · cases hbox

/-! ## What is composited -/

variable {P ε : Type} {lama : Image P → GrayImage → Except ε (ℕ → ℕ → P)}
  {original filled : Image P}

/-- The pixel comes from what the network made of the whole picture, or of the box around it. -/
def Inpainted (lama : Image P → GrayImage → Except ε (ℕ → ℕ → P)) (original : Image P)
    (mask : GrayImage) (filled : Image P) (x y : ℕ) : Prop :=
  (∃ out, lama original mask = .ok out ∧ filled.pixel x y = out x y) ∨
    ∃ cx cy cw ch out,
      hdCropBox mask mask.width mask.height = some (some (cx, cy, cw, ch)) ∧
        lama (original.crop cx cy cw ch) (mask.crop cx cy cw ch) = .ok out ∧
        (cx ≤ x ∧ x < cx + cw ∧ cy ≤ y ∧ y < cy + ch) ∧
        filled.pixel x y = out (x - cx) (y - cy)

/-- Where the box is sound, everything white is inpainted. -/
theorem Sound.inpainted (hsound : Sound mask) (hwidth : original.width = mask.width)
    (hheight : original.height = mask.height)
    (hfilled : removalFill lama original mask mask.width mask.height = some (.ok filled)) {x y : ℕ}
    (hwhite : White mask x y) : Inpainted lama original mask filled x y := by
  obtain ⟨box, hbox, hholds⟩ := hsound
  rw [removalFill, hbox, Option.bind_eq_bind, Option.bind_some] at hfilled
  rcases box with _ | ⟨cx, cy, cw, ch⟩
  · obtain ⟨out, hout, heq⟩ := Lib.Fallible.bind_eq_ok (Option.some.inj hfilled)
    obtain rfl := Except.ok.inj heq
    exact .inl ⟨out, hout, rfl⟩
  · obtain ⟨inpainted, hregion, heq⟩ := Lib.Fallible.bind_eq_ok (Option.some.inj hfilled)
    obtain ⟨out, hout, hsize⟩ := Lib.Fallible.bind_eq_ok hregion
    obtain rfl := Except.ok.inj heq
    obtain rfl := Except.ok.inj hsize
    obtain ⟨rfl, hw, hh, hin⟩ := hholds _ _ _ _ rfl
    obtain ⟨hx, hx', hy, hy'⟩ := hin x y hwhite
    refine .inr ⟨cx, cy, cw, cw, out, hbox, hout, ⟨hx, hx', hy, hy'⟩, if_pos ?_⟩
    have hcropw : (original.crop cx cy cw cw).width = cw := by
      show min cw (original.width - min cx original.width) = cw
      omega
    have hcroph : (original.crop cx cy cw cw).height = cw := by
      show min cw (original.height - min cy original.height) = cw
      omega
    dsimp only
    rw [hcropw, hcroph]
    omega

/-- The box is sound exactly on the masks that fit, and on these everything white is inpainted. -/
theorem hdCropBox_sound_iff (mask : GrayImage) :
    (Sound mask ↔ Fits mask) ∧
      (Fits mask → ∀ (P ε : Type) (lama : Image P → GrayImage → Except ε (ℕ → ℕ → P))
        (original : Image P), original.width = mask.width → original.height = mask.height →
          ∃ filled, removalFill lama original mask mask.width mask.height = some filled ∧
            ∀ image, filled = .ok image → ∀ x y, White mask x y →
              Inpainted lama original mask image x y) := by
  refine ⟨sound_iff_fits, fun hfits P ε lama original hwidth hheight => ?_⟩
  have hsound := sound_iff_fits.mpr hfits
  have hfilled : ∃ filled, removalFill lama original mask mask.width mask.height = some filled := by
    obtain ⟨box, hbox, -⟩ := hsound
    rw [removalFill, hbox, Option.bind_eq_bind, Option.bind_some]
    rcases box with _ | ⟨cx, cy, cw, ch⟩
    · exact ⟨_, rfl⟩
    · exact ⟨_, rfl⟩
  obtain ⟨filled, hfilled⟩ := hfilled
  refine ⟨filled, hfilled, ?_⟩
  rintro image rfl x y hwhite
  exact hsound.inpainted hwidth hheight hfilled hwhite

/-- A small picture that is white in its corner. -/
def smallMask : GrayImage := ⟨128, 128, fun x y => if x = 0 ∧ y = 0 then 255 else 0, by decide,
  by decide⟩

/-- A picture that is twice as wide as high, with a white line across it. -/
def wideMask : GrayImage := ⟨1024, 512, fun _ y => if y = 0 then 255 else 0, by decide, by decide⟩

/-- The clamp of the small one panics, and the box of the wide one does not hold the line. -/
theorem not_sound_small_wide :
    hdCropBox smallMask 128 128 = none ∧ ¬ Sound smallMask ∧ ¬ Sound wideMask := by
  have hsmall : White smallMask 0 0 := ⟨by decide, by decide, by decide⟩
  have hleft : White wideMask 0 0 := ⟨by decide, by decide, by decide⟩
  have hright : White wideMask 1023 0 := ⟨by decide, by decide, by decide⟩
  have hlow : ¬ 256 ≤ min smallMask.width smallMask.height := by decide
  refine ⟨?_, ?_, ?_⟩
  · exact (hdCropBox_eq (bounds_brackets hsmall)).trans (if_neg fun h => hlow h.1)
  · rw [sound_iff_fits]
    rintro (hnone | ⟨hlimit, -⟩)
    · exact hnone 0 0 hsmall
    · exact hlow hlimit
  · rw [sound_iff_fits]
    rintro (hnone | ⟨-, hnear⟩)
    · exact hnone 0 0 hleft
    · exact absurd (hnear _ _ _ _ hleft hright).1 (by decide)

end StudioWorker.Removal
