import Mathlib.Data.Rat.Floor
import StudioWorker.Engine.Yolo

/-!
# Engine.Preprocess — a picture into a network's input (`src/engine/vision/preprocess.rs`)

A `f32` is an exact rational; a sum, a product, a difference and an index are checked: `none` is a
panic.

* `resizeBilinear`, `letterbox`, `normalised`, `channelsLast`: as in the source.
* `letterbox_isSome_iff`: it does not panic exactly when a `u32` holds the size of the input.
-/

namespace StudioWorker.Vision

open Lib.Fallible

/-- A value per channel. -/
abbrev Rgb (α : Type) := α × α × α

def Rgb.channels {α : Type} (rgb : Rgb α) : List α := [rgb.1, rgb.2.1, rgb.2.2]

/-- `RgbImage`: a picture, row by row. -/
structure Picture where
  width : ℕ
  height : ℕ
  pixels : List (Rgb UInt8)
  length_pixels : pixels.length = width * height
  width_lt : width < 2 ^ 32
  height_lt : height < 2 ^ 32

def addU32 (a b : ℕ) : Option ℕ := if a + b < 2 ^ 32 then some (a + b) else none

def mulU32 (a b : ℕ) : Option ℕ := if a * b < 2 ^ 32 then some (a * b) else none

def subU32 (a b : ℕ) : Option ℕ := if b ≤ a then some (a - b) else none

/-- `clamp` of a `u32`, which refuses bounds the wrong way round. -/
def clampU32 (low high n : ℕ) : Option ℕ := if low ≤ high then some (max low (min high n)) else none

/-- `as u32` of a whole `f32` -/
def asU32 (n : ℤ) : ℕ := min n.toNat (2 ^ 32 - 1)

/-- `f32::round`: half away from zero. -/
def round (x : ℚ) : ℤ := if 0 ≤ x then ⌊x + 1 / 2⌋ else ⌈x - 1 / 2⌉

/-- `RgbImage::new`: black, of a number of bytes that a `usize` holds. -/
def Picture.new (width height : ℕ) : Option Picture :=
  if h : width < 2 ^ 32 ∧ height < 2 ^ 32 ∧ 3 * (width * height) < 2 ^ 64 then
    some ⟨width, height, List.replicate (width * height) (0, 0, 0), List.length_replicate, h.1,
      h.2.1⟩
  else none

def Picture.getPixel (image : Picture) (x y : ℕ) : Option (Rgb UInt8) :=
  if x < image.width ∧ y < image.height then image.pixels[y * image.width + x]? else none

def Picture.putPixel (image : Picture) (x y : ℕ) (rgb : Rgb UInt8) : Option Picture :=
  if x < image.width ∧ y < image.height then
    some { image with
      pixels := image.pixels.set (y * image.width + x) rgb
      length_pixels := by rw [List.length_set, image.length_pixels] }
  else none

/-- `enumerate_pixels`: every pixel with its column and row. -/
def Picture.enumeratePixels (image : Picture) : List ((ℕ × ℕ) × Rgb UInt8) :=
  image.pixels.zipIdx.map fun p => ((p.2 % image.width, p.2 / image.width), p.1)

/-- The two neighbours of an output pixel's centre along an axis, and the weight of the far one. -/
def axis (out : ℕ) (scale : ℚ) (len : ℕ) : Option (ℕ × ℕ × ℚ) := do
  let center := max ((out + 1 / 2) * scale - 1 / 2) 0
  let last ← subU32 len 1
  let near := min (asU32 ⌊center⌋) last
  let next ← addU32 near 1
  return (near, min next last, center - near)

/-- One channel between four neighbours. -/
def blend (wx wy : ℚ) (a b c d : UInt8) : UInt8 :=
  let top : ℚ := a.toNat + (b.toNat - a.toNat) * wx
  let bottom : ℚ := c.toNat + (d.toNat - c.toNat) * wx
  .ofNat (max 0 (min 255 (round (top + (bottom - top) * wy)))).toNat

/-- One output pixel. -/
def blendPixel (wx wy : ℚ) (a b c d : Rgb UInt8) : Rgb UInt8 :=
  (blend wx wy a.1 b.1 c.1 d.1, blend wx wy a.2.1 b.2.1 c.2.1 d.2.1,
    blend wx wy a.2.2 b.2.2 c.2.2 d.2.2)

/-- One turn of the inner loop of `resizeBilinear`. -/
def resizePixel (image : Picture) (y : ℕ) (row : ℕ × ℕ × ℚ) (out : Picture)
    (column : (ℕ × ℕ × ℚ) × ℕ) : Option Picture := do
  let (y0, y1, wy) := row
  let ((x0, x1, wx), x) := column
  let a ← image.getPixel x0 y0
  let b ← image.getPixel x1 y0
  let c ← image.getPixel x0 y1
  let d ← image.getPixel x1 y1
  out.putPixel x y (blendPixel wx wy a b c d)

/-- `resize_bilinear` -/
def resizeBilinear (image : Picture) (width height : ℕ) : Option Picture :=
  if (image.width, image.height) = (width, height) then some image
  else do
    let columns ← (List.range width).mapM fun x => axis x (image.width / width) image.width
    let out ← Picture.new width height
    (List.range height).foldlM (fun out y => do
      let row ← axis y (image.height / height) image.height
      columns.zipIdx.foldlM (resizePixel image y row) out) out

/-- How a picture was placed in a letterboxed input. -/
structure Letterbox where
  scale : ℚ
  padX : ℚ
  padY : ℚ
deriving DecidableEq, Repr

def Letterbox.toPicture (l : Letterbox) (x y : ℚ) : ℚ × ℚ :=
  ((x - l.padX) / l.scale, (y - l.padY) / l.scale)

def padGrey : ℚ := 114 / 255

/-- Writes the channels of one pixel into a planar input. -/
def writeChannels (plane place : ℕ) (input : List ℚ) (values : Rgb ℚ) : Option (List ℚ) :=
  values.channels.zipIdx.foldlM (fun input value => do
    let i ← addUsize (← mulUsize value.2 plane) place
    if i < input.length then return input.set i value.1 else none) input

def fractions (pixel : Rgb UInt8) : Rgb ℚ :=
  (pixel.1.toNat / 255, pixel.2.1.toNat / 255, pixel.2.2.toNat / 255)

/-- One turn of the loop of `letterbox`. -/
def letterboxPixel (width padX padY plane : ℕ) (input : List ℚ) (p : (ℕ × ℕ) × Rgb UInt8) :
    Option (List ℚ) := do
  let y ← addU32 p.1.2 padY
  let row ← mulU32 y width
  let column ← addU32 row p.1.1
  let place ← addU32 column padX
  writeChannels plane place input (fractions p.2)

/-- The scale at which a picture fits a network's input. -/
def scaleOf (image : Picture) (width height : ℕ) : ℚ :=
  min (width / image.width) (height / image.height)

/-- `letterbox`: the picture scaled to fit with its aspect kept, centred on grey. -/
def letterbox (image : Picture) (width height : ℕ) : Option (List ℚ × Letterbox) := do
  let scale := scaleOf image width height
  let innerW ← clampU32 1 width (asU32 (round (image.width * scale)))
  let innerH ← clampU32 1 height (asU32 (round (image.height * scale)))
  let padX := (← subU32 width innerW) / 2
  let padY := (← subU32 height innerH) / 2
  let resized ← resizeBilinear image innerW innerH
  let plane ← mulU32 width height
  let size ← mulUsize 3 plane
  let input ← resized.enumeratePixels.foldlM (letterboxPixel width padX padY plane)
    (List.replicate size padGrey)
  return (input, ⟨scale, padX, padY⟩)

/-- `(v - mean) / std` of a channel -/
def normalise (mean std : Rgb ℚ) (pixel : Rgb UInt8) : Rgb ℚ :=
  let v := fractions pixel
  ((v.1 - mean.1) / std.1, (v.2.1 - mean.2.1) / std.2.1, (v.2.2 - mean.2.2) / std.2.2)

/-- `normalised`: the picture stretched to the input's size. -/
def normalised (image : Picture) (width height : ℕ) (mean std : Rgb ℚ) : Option (List ℚ) := do
  let resized ← resizeBilinear image width height
  let plane ← mulU32 width height
  let size ← mulUsize 3 plane
  resized.pixels.zipIdx.foldlM (fun input p =>
    writeChannels plane p.2 input (normalise mean std p.1)) (List.replicate size 0)

/-- One value of `channelsLast`. -/
def moveChannel (planar : List ℚ) (plane i : ℕ) (out : List ℚ) (c : ℕ) : Option (List ℚ) := do
  let value ← planar[← addUsize (← mulUsize c plane) i]?
  let place ← addUsize (← mulUsize 3 i) c
  if place < out.length then return out.set place value else none

/-- `channels_last`: a planar input with the channels of a pixel together. -/
def channelsLast (planar : List ℚ) (width height : ℕ) : Option (List ℚ) := do
  let plane ← mulU32 width height
  let size ← mulUsize 3 plane
  (List.range plane).foldlM (fun out i => (List.range 3).foldlM (moveChannel planar plane i) out)
    (List.replicate size 0)

/-- A side of the scaled picture, within its limit and no less than a pixel. -/
def innerSide (limit side : ℕ) (scale : ℚ) : ℕ := max 1 (min limit (asU32 (round (side * scale))))

/-- Where `letterbox` places a picture. -/
def Letterbox.fitting (image : Picture) (width height : ℕ) : Letterbox :=
  let scale := scaleOf image width height
  ⟨scale, ((width - innerSide width image.width scale) / 2 : ℕ),
    ((height - innerSide height image.height scale) / 2 : ℕ)⟩

/-! ## Checked arithmetic -/

theorem addU32_of_lt {a b : ℕ} (h : a + b < 2 ^ 32) : addU32 a b = some (a + b) := if_pos h

theorem mulU32_of_lt {a b : ℕ} (h : a * b < 2 ^ 32) : mulU32 a b = some (a * b) := if_pos h

theorem mulU32_of_le {a b : ℕ} (h : 2 ^ 32 ≤ a * b) : mulU32 a b = none :=
  if_neg (Nat.not_lt.mpr h)

theorem subU32_of_le {a b : ℕ} (h : b ≤ a) : subU32 a b = some (a - b) := if_pos h

/-! ## Resizing -/

section Resize

variable {image : Picture}

/-- The place of a pixel in its picture. -/
theorem Picture.place_lt {x y : ℕ} (hx : x < image.width) (hy : y < image.height) :
    y * image.width + x < image.pixels.length := by
  have hlt := mul_add_lt hy hx
  rw [image.length_pixels, Nat.mul_comm image.width]
  exact hlt

theorem Picture.exists_getPixel {x y : ℕ} (hx : x < image.width) (hy : y < image.height) :
    ∃ rgb, image.getPixel x y = some rgb := by
  rw [Picture.getPixel, if_pos ⟨hx, hy⟩, List.getElem?_eq_getElem (place_lt hx hy)]
  exact ⟨_, rfl⟩

theorem Picture.exists_putPixel {x y : ℕ} (hx : x < image.width) (hy : y < image.height)
    (rgb : Rgb UInt8) :
    ∃ out, image.putPixel x y rgb = some out ∧ out.width = image.width ∧
      out.height = image.height :=
  ⟨_, if_pos ⟨hx, hy⟩, rfl, rfl⟩

theorem Picture.exists_new {width height : ℕ} (hwidth : width < 2 ^ 32) (hheight : height < 2 ^ 32)
    (hbytes : 3 * (width * height) < 2 ^ 64) :
    ∃ out, Picture.new width height = some out ∧ out.width = width ∧ out.height = height :=
  ⟨_, dif_pos ⟨hwidth, hheight, hbytes⟩, rfl, rfl⟩

/-- Both neighbours of an output pixel are pixels of the source. -/
theorem exists_axis (out : ℕ) (scale : ℚ) {len : ℕ} (hpos : 0 < len) (hlt : len < 2 ^ 32) :
    ∃ found, axis out scale len = some found ∧ found.1 < len ∧ found.2.1 < len := by
  have hlast := subU32_of_le (a := len) (b := 1) hpos
  simp only [axis, hlast, Option.bind_eq_bind, Option.bind_some, Option.pure_def]
  generalize max (((out : ℚ) + 1 / 2) * scale - 1 / 2) 0 = center
  have hnext := addU32_of_lt (a := min (asU32 ⌊center⌋) (len - 1)) (b := 1) (by omega)
  rw [hnext]
  refine ⟨_, rfl, ?_, ?_⟩
  · show min (asU32 ⌊center⌋) (len - 1) < len
    omega
  · show min (min (asU32 ⌊center⌋) (len - 1) + 1) (len - 1) < len
    omega

theorem exists_resizePixel {out : Picture} {y : ℕ} {row : ℕ × ℕ × ℚ} {column : (ℕ × ℕ × ℚ) × ℕ}
    (hrow : row.1 < image.height ∧ row.2.1 < image.height)
    (hcolumn : column.1.1 < image.width ∧ column.1.2.1 < image.width)
    (hx : column.2 < out.width) (hy : y < out.height) :
    ∃ out', resizePixel image y row out column = some out' ∧ out'.width = out.width ∧
      out'.height = out.height := by
  obtain ⟨a, ha⟩ := Picture.exists_getPixel hcolumn.1 hrow.1
  obtain ⟨b, hb⟩ := Picture.exists_getPixel hcolumn.2 hrow.1
  obtain ⟨c, hc⟩ := Picture.exists_getPixel hcolumn.1 hrow.2
  obtain ⟨d, hd⟩ := Picture.exists_getPixel hcolumn.2 hrow.2
  obtain ⟨out', hout⟩ := Picture.exists_putPixel hx hy (blendPixel column.1.2.2 row.2.2 a b c d)
  refine ⟨out', ?_, hout.2⟩
  simp only [resizePixel, ha, hb, hc, hd, Option.bind_eq_bind, Option.bind_some]
  exact hout.1

/-- It never reads outside the picture it is given, nor writes outside the one it returns. -/
theorem exists_resizeBilinear (hw : 0 < image.width) (hh : 0 < image.height) {width height : ℕ}
    (hwidth : width < 2 ^ 32) (hheight : height < 2 ^ 32)
    (hbytes : 3 * (width * height) < 2 ^ 64) :
    ∃ out, resizeBilinear image width height = some out ∧ out.width = width ∧
      out.height = height := by
  by_cases hsame : (image.width, image.height) = (width, height)
  · obtain ⟨hw, hh⟩ := Prod.mk.inj hsame
    exact ⟨image, if_pos hsame, hw, hh⟩
  rw [resizeBilinear, if_neg hsame]
  obtain ⟨columns, hcolumns, hlength, hinside⟩ := exists_mapM_forall (l := List.range width)
    fun x _ => exists_axis x (image.width / width) hw image.width_lt
  rw [List.length_range] at hlength
  obtain ⟨out, hout, hsize⟩ := Picture.exists_new hwidth hheight hbytes
  rw [hcolumns, hout]
  refine exists_foldlM_eq_some
    (P := fun out : Picture => out.width = width ∧ out.height = height) hsize ?_
  intro y hy out hsize
  obtain ⟨row, hrow, hrows⟩ := exists_axis y (image.height / height) hh image.height_lt
  rw [hrow]
  refine exists_foldlM_eq_some
    (P := fun out : Picture => out.width = width ∧ out.height = height) hsize ?_
  intro column hcolumn out hsize
  have hx : column.2 < width := hlength ▸ List.snd_lt_of_mem_zipIdx hcolumn
  have hcolumns := hinside _ (List.fst_mem_of_mem_zipIdx hcolumn)
  obtain ⟨out', hout, hsize'⟩ := exists_resizePixel hrows hcolumns (hsize.1.symm ▸ hx)
    (hsize.2.symm ▸ List.mem_range.mp hy)
  exact ⟨out', hout, hsize'.1.trans hsize.1, hsize'.2.trans hsize.2⟩

end Resize

/-! ## Writing the input -/

section Write

variable {plane : ℕ}

theorem exists_set {input : List ℚ} {c place : ℕ} (hc : c < 3) (hplace : place < plane)
    (hlength : input.length = 3 * plane) (hfit : 3 * plane < 2 ^ 64) :
    addUsize (c * plane) place = some (c * plane + place) ∧ mulUsize c plane = some (c * plane) ∧
      c * plane + place < input.length := by
  have hlt := mul_add_lt hc hplace
  refine ⟨addUsize_of_lt (by omega), mulUsize_of_lt (by omega), ?_⟩
  rwa [hlength]

theorem exists_writeChannels {place : ℕ} (hplace : place < plane) (hfit : 3 * plane < 2 ^ 64)
    {input : List ℚ} (hlength : input.length = 3 * plane) (values : Rgb ℚ) :
    ∃ out, writeChannels plane place input values = some out ∧ out.length = 3 * plane := by
  refine exists_foldlM_eq_some (P := fun out : List ℚ => out.length = 3 * plane) hlength ?_
  intro value hvalue input hlength
  have hc : value.2 < 3 := List.snd_lt_of_mem_zipIdx hvalue
  obtain ⟨hadd, hmul, hlt⟩ := exists_set hc hplace hlength hfit
  refine ⟨input.set (value.2 * plane + place) value.1, ?_, by rw [List.length_set, hlength]⟩
  simp only [hmul, hadd, Option.bind_eq_bind, Option.bind_some, Option.pure_def]
  exact if_pos hlt

theorem exists_letterboxPixel {width height innerW innerH : ℕ} {p : (ℕ × ℕ) × Rgb UInt8}
    (hx : p.1.1 < innerW) (hy : p.1.2 < innerH) (hW : innerW ≤ width) (hH : innerH ≤ height)
    (hfit : width * height < 2 ^ 32) {input : List ℚ}
    (hlength : input.length = 3 * (width * height)) :
    ∃ out, letterboxPixel width ((width - innerW) / 2) ((height - innerH) / 2) (width * height)
      input p = some out ∧ out.length = 3 * (width * height) := by
  have hrow : p.1.2 + (height - innerH) / 2 < height := by omega
  have hcolumn : p.1.1 + (width - innerW) / 2 < width := by omega
  have hplace := mul_add_lt hrow hcolumn
  rw [Nat.mul_comm height] at hplace
  have hheight : height ≤ width * height := Nat.le_mul_of_pos_left height (by omega)
  have hy' := addU32_of_lt (a := p.1.2) (b := (height - innerH) / 2) (by omega)
  have hrow' := mulU32_of_lt (a := p.1.2 + (height - innerH) / 2) (b := width) (by omega)
  have hcolumn' := addU32_of_lt (a := (p.1.2 + (height - innerH) / 2) * width) (b := p.1.1)
    (by omega)
  have hplace' := addU32_of_lt (a := (p.1.2 + (height - innerH) / 2) * width + p.1.1)
    (b := (width - innerW) / 2) (by omega)
  simp only [letterboxPixel, hy', hrow', hcolumn', hplace', Option.bind_eq_bind, Option.bind_some]
  refine exists_writeChannels ?_ (by omega) hlength _
  rwa [Nat.add_assoc]

theorem Picture.enumeratePixels_lt {image : Picture} {p : (ℕ × ℕ) × Rgb UInt8}
    (hp : p ∈ image.enumeratePixels) : p.1.1 < image.width ∧ p.1.2 < image.height := by
  obtain ⟨q, hq, rfl⟩ := List.mem_map.mp hp
  have hlt : q.2 < image.width * image.height :=
    image.length_pixels ▸ List.snd_lt_of_mem_zipIdx hq
  have hpos : 0 < image.width := Nat.pos_of_ne_zero fun hzero => by simp [hzero] at hlt
  exact ⟨Nat.mod_lt _ hpos, (Nat.div_lt_iff_lt_mul hpos).mpr (by rwa [Nat.mul_comm])⟩

end Write

/-! ## The input of a network -/

section Input

variable {image : Picture} (hw : 0 < image.width) (hh : 0 < image.height) {width height : ℕ}

theorem clampU32_eq {limit side : ℕ} (hlimit : 0 < limit) (scale : ℚ) :
    clampU32 1 limit (asU32 (round (side * scale))) = some (innerSide limit side scale) :=
  if_pos hlimit

theorem innerSide_le {limit : ℕ} (hlimit : 0 < limit) (side : ℕ) (scale : ℚ) :
    innerSide limit side scale ≤ limit := by
  rw [innerSide]
  omega

/-- The sides of an input whose size a `u32` holds. -/
theorem sides_lt (hwidth : 0 < width) (hheight : 0 < height) (hfit : width * height < 2 ^ 32) :
    width < 2 ^ 32 ∧ height < 2 ^ 32 :=
  ⟨(Nat.le_mul_of_pos_right width hheight).trans_lt hfit,
    (Nat.le_mul_of_pos_left height hwidth).trans_lt hfit⟩

include hw hh

theorem letterbox_eq (hwidth : 0 < width) (hheight : 0 < height)
    (hfit : width * height < 2 ^ 32) :
    ∃ input, letterbox image width height = some (input, .fitting image width height) ∧
      input.length = 3 * (width * height) := by
  have hW := innerSide_le hwidth image.width (scaleOf image width height)
  have hH := innerSide_le hheight image.height (scaleOf image width height)
  obtain ⟨hw', hh'⟩ := sides_lt hwidth hheight hfit
  have hsize : innerSide width image.width (scaleOf image width height) *
      innerSide height image.height (scaleOf image width height) ≤ width * height :=
    Nat.mul_le_mul hW hH
  obtain ⟨resized, hresized, hsides⟩ := exists_resizeBilinear hw hh (hW.trans_lt hw')
    (hH.trans_lt hh') (by omega)
  obtain ⟨input, hinput, hlength⟩ := exists_foldlM_eq_some (l := resized.enumeratePixels)
    (g := letterboxPixel width
      ((width - innerSide width image.width (scaleOf image width height)) / 2)
      ((height - innerSide height image.height (scaleOf image width height)) / 2)
      (width * height))
    (P := fun input : List ℚ => input.length = 3 * (width * height))
    (s := List.replicate (3 * (width * height)) padGrey) List.length_replicate
    fun p hp input hlength => by
      obtain ⟨hx, hy⟩ := Picture.enumeratePixels_lt hp
      rw [hsides.1] at hx
      rw [hsides.2] at hy
      exact exists_letterboxPixel hx hy hW hH hfit hlength
  refine ⟨input, ?_, hlength⟩
  have hbytes : mulUsize 3 (width * height) = some (3 * (width * height)) :=
    mulUsize_of_lt (by omega)
  simp only [letterbox, clampU32_eq hwidth, clampU32_eq hheight, subU32_of_le hW, subU32_of_le hH,
    hresized, mulU32_of_lt hfit, hbytes, hinput, Option.bind_eq_bind, Option.bind_some,
    Option.pure_def, Letterbox.fitting]

theorem normalised_eq (hwidth : 0 < width) (hheight : 0 < height)
    (hfit : width * height < 2 ^ 32) (mean std : Rgb ℚ) :
    ∃ input, normalised image width height mean std = some input ∧
      input.length = 3 * (width * height) := by
  obtain ⟨hw', hh'⟩ := sides_lt hwidth hheight hfit
  obtain ⟨resized, hresized, hsides⟩ := exists_resizeBilinear hw hh hw' hh' (by omega)
  have hbytes : mulUsize 3 (width * height) = some (3 * (width * height)) :=
    mulUsize_of_lt (by omega)
  simp only [normalised, hresized, mulU32_of_lt hfit, hbytes, Option.bind_eq_bind,
    Option.bind_some]
  refine exists_foldlM_eq_some (P := fun input : List ℚ => input.length = 3 * (width * height))
    List.length_replicate fun p hp input hlength => ?_
  refine exists_writeChannels ?_ (by omega) hlength _
  have hlt : p.2 < resized.pixels.length := List.snd_lt_of_mem_zipIdx hp
  rwa [resized.length_pixels, hsides.1, hsides.2] at hlt

omit hw hh in
theorem exists_channelsLast {planar : List ℚ} (hfit : width * height < 2 ^ 32)
    (hlength : planar.length = 3 * (width * height)) :
    ∃ out, channelsLast planar width height = some out ∧ out.length = planar.length := by
  have hbytes : mulUsize 3 (width * height) = some (3 * (width * height)) :=
    mulUsize_of_lt (by omega)
  simp only [channelsLast, mulU32_of_lt hfit, hbytes, Option.bind_eq_bind, Option.bind_some]
  rw [hlength]
  refine exists_foldlM_eq_some (P := fun out : List ℚ => out.length = 3 * (width * height))
    List.length_replicate fun i hi out hout => ?_
  refine exists_foldlM_eq_some (P := fun out : List ℚ => out.length = 3 * (width * height))
    hout fun c hc out hout => ?_
  have hi := List.mem_range.mp hi
  have hc := List.mem_range.mp hc
  obtain ⟨hadd, hmul, hlt⟩ := exists_set hc hi hlength (by omega)
  have hmul' : mulUsize 3 i = some (3 * i) := mulUsize_of_lt (by omega)
  have hadd' : addUsize (3 * i) c = some (3 * i + c) := addUsize_of_lt (by omega)
  refine ⟨out.set (3 * i + c) (planar.get ⟨_, hlt⟩), ?_, List.length_set.trans hout⟩
  simp only [moveChannel, hmul, hadd, hmul', hadd', List.getElem?_eq_getElem hlt,
    Option.bind_eq_bind, Option.bind_some, Option.pure_def]
  exact if_pos (by omega)

/-- A picture is letterboxed without a panic exactly when a `u32` holds the size of the input. -/
theorem letterbox_isSome_iff (hwidth : 0 < width) (hheight : 0 < height) :
    (letterbox image width height).isSome ↔ width * height < 2 ^ 32 := by
  refine ⟨fun h => Nat.lt_of_not_le fun hle => ?_, fun hfit => ?_⟩
  · obtain ⟨result, hresult⟩ := Option.isSome_iff_exists.mp h
    simp only [letterbox, Option.bind_eq_bind, Option.bind_eq_some_iff, mulU32_of_le hle] at hresult
    obtain ⟨_, -, _, -, _, -, _, -, _, -, _, hnone, -⟩ := hresult
    cases hnone
  · obtain ⟨input, hinput, -⟩ := letterbox_eq hw hh hwidth hheight hfit
    rw [hinput]
    rfl

end Input

end StudioWorker.Vision
