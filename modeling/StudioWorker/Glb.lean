import StudioWorker.Lib.Container
import StudioWorker.Lib.Json

/-!
# Glb — the file a mesh job answers with (`src/glb.rs`)

A GLB is a header of three words and the chunks of its JSON document and its buffer.  How a document
is spelled and how a picture becomes a PNG are parameters.

* `check`, `padded`, `assemble`, `texturedCube`: as in the source.
* `check_assemble_iff`: a `u32` holds the length exactly when the header is believed.
* `cube_outward`: what the cube's tables describe.
* `texturedCube_reads`: the container and every view are read back off the file.
-/

namespace StudioWorker.Glb

open Lib Lib.Container
open Lib.Riff (Bytes le)

/-! ## The container -/

/-- `MAGIC`: `glTF`. -/
def magic : ℕ := 0x46546C67
def version : ℕ := 2
/-- `CHUNK_JSON` -/
def chunkJson : ℕ := 0x4E4F534A
/-- `CHUNK_BIN` -/
def chunkBin : ℕ := 0x004E4942
/-- `MIN_LEN` -/
def minLen : ℕ := 20

inductive GlbError where
  | tooShort (length : ℕ)
  | magic
  | version (got : ℕ)
  | length (declared actual : ℕ)
  | firstChunk
deriving DecidableEq

/-- `u32_at`, where the four bytes are there. -/
def u32At (bytes : Bytes) (start : ℕ) : ℕ := le ((bytes.drop start).take 4)

def check (bytes : Bytes) : Except GlbError Unit :=
  if bytes.length < minLen then .error (.tooShort bytes.length)
  else if u32At bytes 0 ≠ magic then .error .magic
  else if u32At bytes 4 ≠ version then .error (.version (u32At bytes 4))
  else if u32At bytes 8 ≠ bytes.length then .error (.length (u32At bytes 8) bytes.length)
  else if u32At bytes 16 ≠ chunkJson then .error .firstChunk
  else .ok ()

def padded (data : Bytes) (fill : UInt8) : Bytes :=
  if data.length % 4 = 0 then data else padded (data ++ [fill]) fill
termination_by (4 - data.length % 4) % 4
decreasing_by
  rw [List.length_append, List.length_singleton]
  omega

/-- `to_le_bytes` of a word, after `as u32`. -/
def word (v : ℕ) : Bytes := leBytes 4 (v % 2 ^ 32)

def assemble (json bin : Bytes) : Bytes :=
  let json := padded json 0x20
  let bin := padded bin 0
  let total := 12 + 8 + json.length + 8 + bin.length
  [magic, version, total, json.length, chunkJson].flatMap word ++ json ++ word bin.length ++
    word chunkBin ++ bin

/-! ## The cube -/

abbrev Vec := ℤ × ℤ × ℤ

/-- The outward normal, then four corners. -/
def faces : List (Vec × List Vec) :=
  [((1, 0, 0), [(1, -1, 1), (1, -1, -1), (1, 1, -1), (1, 1, 1)]),
   ((-1, 0, 0), [(-1, -1, -1), (-1, -1, 1), (-1, 1, 1), (-1, 1, -1)]),
   ((0, 1, 0), [(-1, 1, 1), (1, 1, 1), (1, 1, -1), (-1, 1, -1)]),
   ((0, -1, 0), [(-1, -1, -1), (1, -1, -1), (1, -1, 1), (-1, -1, 1)]),
   ((0, 0, 1), [(-1, -1, 1), (1, -1, 1), (1, 1, 1), (-1, 1, 1)]),
   ((0, 0, -1), [(1, -1, -1), (-1, -1, -1), (-1, 1, -1), (1, 1, -1)])]

def uvs : List (ℤ × ℤ) := [(0, 1), (1, 1), (1, 0), (0, 0)]

def texturePx : ℕ := 64
def checkerCells : ℕ := 4

abbrev Rgb8 := UInt8 × UInt8 × UInt8

/-- A pixel of the checker in `colour` and its darker half. -/
def checker (colour : Rgb8) (x y : ℕ) : Rgb8 :=
  let cell := texturePx / checkerCells
  if (x / cell + y / cell) % 2 = 0 then colour
  else (colour.1 / 2, colour.2.1 / 2, colour.2.2 / 2)

def coordinates (v : Vec) : List ℤ := [v.1, v.2.1, v.2.2]

/-- Six vertices' places for each face, two triangles. -/
def faceIndices (face : ℕ) : List ℕ :=
  let first := face * 4
  [first, first + 1, first + 2, first, first + 2, first + 3]

def positions : List Float32 :=
  faces.flatMap fun f => f.2.flatMap fun c => (coordinates c).map fun c => Float32.ofInt c * 0.5

def normals : List Float32 :=
  faces.flatMap fun f => f.2.flatMap fun _ => (coordinates f.1).map Float32.ofInt

def textureCoordinates : List Float32 :=
  faces.flatMap fun f => (f.2.zip uvs).flatMap fun p =>
    [Float32.ofInt p.2.1, Float32.ofInt p.2.2]

def indices : List ℕ := (List.range faces.length).flatMap faceIndices

/-- `f32::to_le_bytes` of each. -/
def floats (values : List Float32) : Bytes := values.flatMap fun v => leBytes 4 v.toBits.toNat

structure View where
  byteOffset : ℕ
  byteLength : ℕ
  target : Option ℕ
deriving DecidableEq

/-- What a view is pushed of: its bytes, and its target. -/
abbrev Part := Bytes × Option ℕ

/-- `push_view` -/
def pushView (state : Bytes × List View) (part : Part) : Bytes × List View :=
  (padded (state.1 ++ part.1) 0, state.2 ++ [⟨state.1.length, part.1.length, part.2⟩])

def arrayBuffer : ℕ := 34962
def elementArrayBuffer : ℕ := 34963
def float : ℕ := 5126
def unsignedShort : ℕ := 5123

def vertexCount : ℕ := positions.length / 3

variable (png : (ℕ → ℕ → Rgb8) → Bytes) (colour : Rgb8)

/-- The views, in the order they are pushed. -/
def parts : List Part :=
  [(floats positions, some arrayBuffer), (floats normals, some arrayBuffer),
   (floats textureCoordinates, some arrayBuffer),
   (indices.flatMap (leBytes 2), some elementArrayBuffer), (png (checker colour), none)]

def pushed : Bytes × List View := (parts png colour).foldl pushView ([], [])

def nat (n : ℕ) : Json := .number (.int n)

def View.json (v : View) : Json :=
  .object ([("buffer", nat 0), ("byteOffset", nat v.byteOffset),
    ("byteLength", nat v.byteLength)] ++ v.target.toList.map fun target => ("target", nat target))

def accessor (view componentType count : ℕ) (kind : String) (bounds : List (String × Json)) :
    Json :=
  .object ([("bufferView", nat view), ("componentType", nat componentType), ("count", nat count),
    ("type", .string kind)] ++ bounds)

def half (sign : ℚ) : Json := .array (List.replicate 3 (.number (.dec (sign / 2))))

def document (views : List View) (byteLength : ℕ) : Json :=
  .object
    [("asset", .object
       [("version", .string "2.0"), ("generator", .string "studio-worker synthetic")]),
     ("scene", nat 0),
     ("scenes", .array [.object [("nodes", .array [nat 0])]]),
     ("nodes", .array [.object [("mesh", nat 0), ("name", .string "cube")]]),
     ("meshes", .array [.object [("primitives", .array [.object
       [("attributes", .object [("POSITION", nat 0), ("NORMAL", nat 1), ("TEXCOORD_0", nat 2)]),
        ("indices", nat 3), ("material", nat 0)]])]]),
     ("materials", .array [.object [("pbrMetallicRoughness", .object
       [("baseColorTexture", .object [("index", nat 0)]), ("metallicFactor", .number (.dec 0)),
        ("roughnessFactor", .number (.dec (4 / 5)))])]]),
     ("textures", .array [.object [("source", nat 0)]]),
     ("images", .array [.object [("bufferView", nat 4), ("mimeType", .string "image/png")]]),
     ("accessors", .array
       [accessor 0 float vertexCount "VEC3" [("min", half (-1)), ("max", half 1)],
        accessor 1 float vertexCount "VEC3" [], accessor 2 float vertexCount "VEC2" [],
        accessor 3 unsignedShort indices.length "SCALAR" []]),
     ("bufferViews", .array (views.map View.json)),
     ("buffers", .array [.object [("byteLength", nat byteLength)]])]

/-- `json.to_string().into_bytes()` is `text`. -/
def texturedCube (text : Json → Bytes) : Bytes :=
  let (bin, views) := pushed png colour
  assemble (text (document views bin.length)) bin

/-! ## Padding -/

theorem length_padded (data : Bytes) (fill : UInt8) : (padded data fill).length % 4 = 0 := by
  induction data using padded.induct fill with
  | case1 data h =>
    rw [padded, if_pos h]
    exact h
  | case2 data h ih =>
    rw [padded, if_neg h]
    exact ih

theorem prefix_padded (data : Bytes) (fill : UInt8) : data <+: padded data fill := by
  induction data using padded.induct fill with
  | case1 data h => exact ⟨[], by rw [padded, if_pos h, List.append_nil]⟩
  | case2 data h ih =>
    rw [padded, if_neg h]
    exact (List.prefix_append data [fill]).trans ih

/-! ## The container is read back -/

@[simp] theorem length_word (v : ℕ) : (word v).length = 4 := length_leBytes 4 _

theorem word_eq (v : ℕ) : word v = leBytes 4 v := leBytes_mod 4 v

theorem le_word (v : ℕ) : le (word v) = v % 2 ^ 32 := by
  rw [word_eq, le_leBytes]
  rfl

variable {json bin : Bytes}

/-- The chunks of the assembled file. -/
def fileChunks (json bin : Bytes) : List Chunk :=
  [⟨chunkJson, padded json 0x20⟩, ⟨chunkBin, padded bin 0⟩]

theorem length_assemble (json bin : Bytes) :
    (assemble json bin).length = 28 + (padded json 0x20).length + (padded bin 0).length := by
  simp only [assemble, List.flatMap_cons, List.flatMap_nil, List.length_append, length_word,
    List.length_nil]
  omega

theorem assemble_eq (json bin : Bytes) :
    assemble json bin = word magic ++ (word version ++ (word (assemble json bin).length ++
      (fileChunks json bin).flatMap Chunk.write)) := by
  have htotal : 12 + 8 + (padded json 0x20).length + 8 + (padded bin 0).length =
      (assemble json bin).length := by
    rw [length_assemble]
    omega
  conv_lhs => rw [assemble]
  simp only [htotal, fileChunks, List.flatMap_cons, List.flatMap_nil, Chunk.write, word_eq,
    List.append_assoc, List.append_nil]

/-- Each word of the header is there to be read. -/
theorem u32At_append {before rest : Bytes} {v start : ℕ} (h : before.length = start) :
    u32At (before ++ (word v ++ rest)) start = v % 2 ^ 32 := by
  rw [u32At, List.drop_left' h, List.take_left' (length_word v), le_word]

theorem u32At_assemble (json bin : Bytes) :
    u32At (assemble json bin) 0 = magic ∧ u32At (assemble json bin) 4 = version ∧
      u32At (assemble json bin) 8 = (assemble json bin).length % 2 ^ 32 ∧
      u32At (assemble json bin) 16 = chunkJson := by
  generalize htotal : (assemble json bin).length = total
  have hfile := assemble_eq json bin
  rw [htotal] at hfile
  rw [hfile]
  refine ⟨?_, ?_, ?_, ?_⟩
  · exact u32At_append (List.length_nil (α := UInt8))
  · exact u32At_append (length_word magic)
  · rw [← List.append_assoc]
    exact u32At_append (by simp)
  · have hchunk : (fileChunks json bin).flatMap Chunk.write = word (padded json 0x20).length ++
        (word chunkJson ++ (padded json 0x20 ++ Chunk.write ⟨chunkBin, padded bin 0⟩)) := by
      simp only [fileChunks, List.flatMap_cons, List.flatMap_nil, Chunk.write, word_eq,
        List.append_assoc, List.append_nil]
    rw [hchunk]
    simp only [← List.append_assoc]
    rw [List.append_assoc, List.append_assoc]
    exact u32At_append (by simp)

/-- The file is believed exactly where a `u32` holds its length. -/
theorem check_assemble (json bin : Bytes) :
    check (assemble json bin) =
      if (assemble json bin).length < 2 ^ 32 then .ok ()
      else .error (.length ((assemble json bin).length % 2 ^ 32) (assemble json bin).length) := by
  have hlength := length_assemble json bin
  obtain ⟨hmagic, hversion, hdeclared, hfirst⟩ := u32At_assemble json bin
  have hlong : ¬ (assemble json bin).length < minLen := by
    rw [minLen]
    omega
  rw [check, if_neg hlong, if_neg (not_not.mpr hmagic), if_neg (not_not.mpr hversion), hdeclared]
  by_cases hfits : (assemble json bin).length < 2 ^ 32
  · rw [if_pos hfits, Nat.mod_eq_of_lt hfits, if_neg (not_not.mpr rfl), if_neg (not_not.mpr hfirst)]
  · rw [if_neg hfits, if_pos]
    intro h
    exact hfits (h ▸ Nat.mod_lt _ (by decide))

theorem check_assemble_iff (json bin : Bytes) :
    check (assemble json bin) = .ok () ↔ (assemble json bin).length < 2 ^ 32 := by
  rw [check_assemble]
  split_ifs with h
  · exact iff_of_true rfl h
  · exact iff_of_false (by simp) h

theorem readChunks_assemble {json bin : Bytes} (h : (assemble json bin).length < 2 ^ 32) :
    readChunks ((assemble json bin).drop 12) = some (fileChunks json bin) := by
  have hdrop : (assemble json bin).drop 12 = (fileChunks json bin).flatMap Chunk.write := by
    rw [assemble_eq, ← List.append_assoc, ← List.append_assoc]
    exact List.drop_left' (by simp)
  rw [length_assemble] at h
  rw [hdrop]
  refine readChunks_write fun c hc => ?_
  rcases List.mem_cons.mp hc with rfl | hc
  · exact ⟨show (padded json 0x20).length < 256 ^ 4 by omega, show chunkJson < 256 ^ 4 by decide⟩
  · obtain rfl := List.mem_singleton.mp hc
    exact ⟨show (padded bin 0).length < 256 ^ 4 by omega, show chunkBin < 256 ^ 4 by decide⟩

/-! ## The views are read back -/

def pad (bytes : Bytes) : Bytes := padded bytes 0

/-- What is pushed is laid out part by part, and each view says where its part is. -/
theorem foldl_pushView (ps : List Part) :
    ps.foldl pushView ([], []) =
      ((lay pad (ps.map (·.1))).1,
        ((lay pad (ps.map (·.1))).2.zip ps).map fun e => ⟨e.1, e.2.1.length, e.2.2⟩) := by
  induction ps using List.reverseRecOn with
  | nil => rfl
  | append_singleton ps part ih =>
    have hlength : (lay pad (ps.map (·.1))).2.length = ps.length := by
      rw [length_lay, List.length_map]
    rw [List.foldl_append, ih, List.map_append, List.map_singleton, lay_concat, put,
      List.zip_append hlength, List.map_append]
    rfl

/-- Every view shows the part it was pushed of, at a place that a word can be at. -/
theorem view_reads {ps : List Part} {k : ℕ} {part : Part} (h : ps[k]? = some part) :
    ∃ v : View, (ps.foldl pushView ([], [])).2[k]? = some v ∧ v.target = part.2 ∧
      v.byteLength = part.1.length ∧ v.byteOffset % 4 = 0 ∧
      ((ps.foldl pushView ([], [])).1.drop v.byteOffset).take v.byteLength = part.1 := by
  have hpart : (ps.map (·.1))[k]? = some part.1 := by rw [List.getElem?_map, h]; rfl
  obtain ⟨start, hstart, -, hread⟩ := lay_reads (fun l => prefix_padded l 0) hpart
  have haligned := (lay_starts (P := fun n => n % 4 = 0) rfl (fun l => length_padded l 0)
    (ps.map (·.1))).1 start (List.mem_of_getElem? hstart)
  have hzip : ((lay pad (ps.map (·.1))).2.zip ps)[k]? = some (start, part) :=
    List.getElem?_zip_eq_some.mpr ⟨hstart, h⟩
  rw [foldl_pushView]
  refine ⟨⟨start, part.1.length, part.2⟩, ?_, rfl, rfl, haligned, hread⟩
  rw [List.getElem?_map, hzip]
  rfl

theorem views_apart (ps : List Part) :
    (ps.foldl pushView ([], [])).2.Pairwise fun a b =>
      a.byteOffset + a.byteLength ≤ b.byteOffset := by
  have happart := lay_apart (fun l => prefix_padded l 0) (ps.map (·.1))
  rw [foldl_pushView, List.pairwise_map]
  rw [List.zip_map_right, List.pairwise_map] at happart
  exact happart

theorem length_foldl_pushView (ps : List Part) : (ps.foldl pushView ([], [])).1.length % 4 = 0 := by
  rw [foldl_pushView]
  exact (lay_starts (P := fun n => n % 4 = 0) rfl (fun l => length_padded l 0) _).2

/-! ## The cube's tables -/

def sub (a b : Vec) : Vec := (a.1 - b.1, a.2.1 - b.2.1, a.2.2 - b.2.2)

def cross (a b : Vec) : Vec :=
  (a.2.1 * b.2.2 - a.2.2 * b.2.1, a.2.2 * b.1 - a.1 * b.2.2, a.1 * b.2.1 - a.2.1 * b.1)

/-- The vertices in their order, each with its face's normal. -/
def vertices : List (Vec × Vec) := faces.flatMap fun f => f.2.map fun corner => (corner, f.1)

/-- Three corners of one face, counter-clockwise where the normal points. -/
def Outward (a b c : Vec × Vec) : Prop :=
  b.2 = a.2 ∧ c.2 = a.2 ∧ cross (sub b.1 a.1) (sub c.1 a.1) = (4 * a.2.1, 4 * a.2.2.1, 4 * a.2.2.2)

instance (a b c : Vec × Vec) : Decidable (Outward a b c) :=
  inferInstanceAs (Decidable (_ ∧ _ ∧ _))

/-- The `n`th three indices, as the vertices they name. -/
def triangle (n : ℕ) : Option ((Vec × Vec) × (Vec × Vec) × (Vec × Vec)) := do
  let a ← vertices[← indices[3 * n]?]?
  let b ← vertices[← indices[3 * n + 1]?]?
  let c ← vertices[← indices[3 * n + 2]?]?
  return (a, b, c)

theorem cube_outward :
    ∀ n < indices.length / 3, (triangle n).any (fun t => decide (Outward t.1 t.2.1 t.2.2)) := by
  decide

theorem length_floats (values : List Float32) : (floats values).length = 4 * values.length := by
  rw [floats, List.length_flatMap]
  simp [Nat.mul_comm]

/-- Every accessor is as long as its view, and every index is of a vertex. -/
theorem cube_accessors :
    (floats positions).length = vertexCount * (3 * 4) ∧
      (floats normals).length = vertexCount * (3 * 4) ∧
      (floats textureCoordinates).length = vertexCount * (2 * 4) ∧
      (indices.flatMap (leBytes 2)).length = indices.length * 2 ∧
      ∀ i ∈ indices, i < vertexCount := by
  refine ⟨?_, ?_, ?_, ?_, by decide⟩
  · rw [length_floats]
    rfl
  · rw [length_floats]
    rfl
  · rw [length_floats]
    rfl
  · rw [List.length_flatMap]
    simp

theorem padded_of_length {data : Bytes} (h : data.length % 4 = 0) (fill : UInt8) :
    padded data fill = data := by
  rw [padded, if_pos h]

theorem texturedCube_eq (png : (ℕ → ℕ → Rgb8) → Bytes) (colour : Rgb8) (text : Json → Bytes) :
    texturedCube png colour text =
      assemble (text (document (pushed png colour).2 (pushed png colour).1.length))
        (pushed png colour).1 := rfl

/-- However documents are spelled and pictures are encoded: the cube's file is believed exactly
where a `u32` holds its length, and then its chunks are read back, the document with spaces behind
it, and in the buffer each view shows what it was pushed of, word by word apart from the others. -/
theorem texturedCube_reads (png : (ℕ → ℕ → Rgb8) → Bytes) (colour : Rgb8) (text : Json → Bytes) :
    (check (texturedCube png colour text) = .ok () ↔
        (texturedCube png colour text).length < 2 ^ 32) ∧
      ((texturedCube png colour text).length < 2 ^ 32 → ∃ (bin : Bytes) (views : List View),
        readChunks ((texturedCube png colour text).drop 12) =
            some [⟨chunkJson, padded (text (document views bin.length)) 0x20⟩, ⟨chunkBin, bin⟩] ∧
          views.Pairwise (fun a b => a.byteOffset + a.byteLength ≤ b.byteOffset) ∧
          ∀ (k : ℕ) (part : Part), (parts png colour)[k]? = some part → ∃ v : View, views[k]? = some v ∧
            v.target = part.2 ∧ v.byteLength = part.1.length ∧ v.byteOffset % 4 = 0 ∧
            (bin.drop v.byteOffset).take v.byteLength = part.1) := by
  rw [texturedCube_eq]
  refine ⟨check_assemble_iff _ _, fun h => ?_⟩
  refine ⟨(pushed png colour).1, (pushed png colour).2, ?_, views_apart _,
    fun k part hpart => view_reads hpart⟩
  have hbin : padded (pushed png colour).1 0 = (pushed png colour).1 :=
    padded_of_length (length_foldl_pushView _) 0
  have hread := readChunks_assemble h
  rw [fileChunks, hbin] at hread
  exact hread

end StudioWorker.Glb
