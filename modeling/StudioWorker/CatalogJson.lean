import Mathlib.Algebra.Order.Ring.Int
import StudioWorker.Catalog
import StudioWorker.Lib.Json

/-!
# CatalogJson — the catalogue as JSON (the derived `Serialize` and `Deserialize` of `src/types.rs`
and `src/catalog.rs`)

A `deserialize` is told how many arrays and objects are open around its value: only the free-form
`chatTemplateKwargs` may nest, and a document deeper than the parser's limit is refused.

* `Serde`: what serde_json makes of `f32`s and of free-form objects.
* `CatalogModel.Returns`: every float of the model is read back as it is written, and so is its
  free-form object.
* `Catalog.deserialize_serialize`: the catalogues that are read back as they are written.
-/

namespace StudioWorker

open Lib Lib.Json

/-- What the JSON library makes of a float (`none`: out of its range) and of a free-form object. -/
structure Serde (F : Type) where
  readFloat : Number → Option F
  /-- `none` is written as `null`. -/
  writeFloat : F → Option Number
  /-- The canonical text of an object. -/
  readMap : List (String × Json) → Option String
  writeMap : String → List (String × Json)

/-- A document may nest this deep. -/
def recursionLimit : ℕ := 127

/-! ## Values -/

def deserializeString : Json → Option String
  | .string s => some s
  | _ => none

def deserializeBool : Json → Option Bool
  | .bool b => some b
  | _ => none

def serializeUnsigned (n : ℕ) : Json := .number (.int n)

/-- A `u32`, `u64` or `usize` of so many bits. -/
def deserializeUnsigned (bits : ℕ) : Json → Option ℕ
  | .number (.int n) => if 0 ≤ n ∧ n < 2 ^ bits then some n.toNat else none
  | _ => none

/-- A variant without data: its name, or an object that gives its name `null`. -/
def deserializeVariant {α : Type} (variants : List α) (name : α → String) : Json → Option α
  | .string s => variants.find? fun x => name x == s
  | .object [(s, .null)] => variants.find? fun x => name x == s
  | _ => none

namespace Serde

variable {F : Type} (s : Serde F)

def deserializeFloat : Json → Option F
  | .number n => s.readFloat n
  | _ => none

def serializeFloat (x : F) : Json :=
  match s.writeFloat x with
  | some n => .number n
  | none => .null

/-- `[f32; 3]`. -/
def deserializeChannels : Json → Option (F × F × F)
  | .array [r, g, b] => do
    let r ← s.deserializeFloat r
    let g ← s.deserializeFloat g
    let b ← s.deserializeFloat b
    return (r, g, b)
  | _ => none

def serializeChannels (c : F × F × F) : Json :=
  .array [s.serializeFloat c.1, s.serializeFloat c.2.1, s.serializeFloat c.2.2]

/-- A free-form object inside `level` arrays and objects. -/
def deserializeMap (level : ℕ) : Json → Option String
  | .object entries =>
    if level + (Json.object entries).depth ≤ recursionLimit then s.readMap entries else none
  | _ => none

def serializeMap (t : String) : Json := .object (s.writeMap t)

/-- A float that is written as a number that reads as the float. -/
def Exact (x : F) : Prop := ∃ n, s.writeFloat x = some n ∧ s.readFloat n = some x

/-- A free-form object that reads as itself where it is written, inside `level` others. -/
def MapReturns (level : ℕ) (t : String) : Prop :=
  level + (s.serializeMap t).depth ≤ recursionLimit ∧ s.readMap (s.writeMap t) = some t

variable {s}

@[simp] theorem deserializeFloat_eq_some {x : F} :
    s.deserializeFloat (s.serializeFloat x) = some x ↔ s.Exact x := by
  unfold serializeFloat Exact
  cases s.writeFloat x with
  | none => simp [deserializeFloat]
  | some n => simp [deserializeFloat]

theorem serializeFloat_ne_null {x : F} (h : s.Exact x) : s.serializeFloat x ≠ .null := by
  obtain ⟨n, hn, -⟩ := h
  simp [serializeFloat, hn]

theorem serializeMap_ne_null (t : String) : s.serializeMap t ≠ .null := by
  simp [serializeMap]

@[simp] theorem deserializeMap_eq_some {level : ℕ} {t : String} :
    s.deserializeMap level (s.serializeMap t) = some t ↔ s.MapReturns level t := by
  show (if _ then _ else _) = _ ↔ _
  unfold MapReturns
  split_ifs with h
  · exact ⟨fun hr => ⟨h, hr⟩, fun hr => hr.2⟩
  · exact ⟨fun hr => (by cases hr), fun hr => absurd hr.1 h⟩

end Serde

@[simp] theorem deserializeUnsigned_eq_some {bits n : ℕ} :
    deserializeUnsigned bits (serializeUnsigned n) = some n ↔ n < 2 ^ bits := by
  unfold deserializeUnsigned serializeUnsigned
  have hn : (0 : ℤ) ≤ n ∧ (n : ℤ) < 2 ^ bits ↔ n < 2 ^ bits := by
    constructor
    · rintro ⟨-, h⟩
      exact_mod_cast h
    · intro h
      exact ⟨Int.natCast_nonneg n, by exact_mod_cast h⟩
  dsimp only
  split_ifs with h
  · simpa using hn.mp h
  · simpa using fun hlt => h (hn.mpr hlt)

theorem serializeUnsigned_ne_null (n : ℕ) : serializeUnsigned n ≠ .null := by
  simp [serializeUnsigned]

theorem lt_of_deserializeUnsigned {bits n : ℕ} {v : Json}
    (h : deserializeUnsigned bits v = some n) : n < 2 ^ bits := by
  unfold deserializeUnsigned at h
  split at h
  · split_ifs at h with hb
    cases h
    have hlt := hb.2
    rw [← Int.toNat_of_nonneg hb.1] at hlt
    exact_mod_cast hlt
  · cases h

/-! ## Variants -/

def TaskKind.all : List TaskKind :=
  [.image, .llm, .audioStt, .audioTts, .video, .mesh, .vision, .wakeWord, .modelConvert]

def TaskKind.name : TaskKind → String
  | .image => "image"
  | .llm => "llm"
  | .audioStt => "audio_stt"
  | .audioTts => "audio_tts"
  | .video => "video"
  | .mesh => "mesh"
  | .vision => "vision"
  | .wakeWord => "wake_word"
  | .modelConvert => "model_convert"

def ModelFileRole.all : List ModelFileRole :=
  [.diffusionModel, .textEncoder, .textEncoderVision, .vae, .lora, .model, .labels]

def ModelFileRole.name : ModelFileRole → String
  | .diffusionModel => "diffusion-model"
  | .textEncoder => "text-encoder"
  | .textEncoderVision => "text-encoder-vision"
  | .vae => "vae"
  | .lora => "lora"
  | .model => "model"
  | .labels => "labels"

def ModelEngine.all : List ModelEngine :=
  [.sdCpp, .llamaCpp, .onnx, .parakeet, .onnxVision, .torch, .convert, .synthetic]

def ModelEngine.name : ModelEngine → String
  | .sdCpp => "sd-cpp"
  | .llamaCpp => "llama-cpp"
  | .onnx => "onnx"
  | .parakeet => "parakeet"
  | .onnxVision => "onnx-vision"
  | .torch => "torch"
  | .convert => "convert"
  | .synthetic => "synthetic"

def VisionTask.all : List VisionTask := [.detect, .classify]

def VisionTask.name : VisionTask → String
  | .detect => "detect"
  | .classify => "classify"

/-- Every variant is read from its own name. -/
def Named {α : Type} (variants : List α) (name : α → String) : Prop :=
  ∀ x, deserializeVariant variants name (.string (name x)) = some x

theorem TaskKind.named : Named TaskKind.all TaskKind.name := by
  intro x
  cases x <;> decide

theorem ModelFileRole.named : Named ModelFileRole.all ModelFileRole.name := by
  intro x
  cases x <;> decide

theorem ModelEngine.named : Named ModelEngine.all ModelEngine.name := by
  intro x
  cases x <;> decide

theorem VisionTask.named : Named VisionTask.all VisionTask.name := by
  intro x
  cases x <;> decide

/-! ## Records -/

def ModelFile.fieldNames : List String := ["role", "url", "filename", "approxBytes", "sha256"]

def ModelFile.deserialize (v : Json) : Option ModelFile := do
  let f ← v.fields fieldNames
  let role ← required (f "role") (deserializeVariant ModelFileRole.all ModelFileRole.name)
  let url ← required (f "url") deserializeString
  let filename ← required (f "filename") deserializeString
  let approxBytes ← nullable (f "approxBytes") (deserializeUnsigned 64)
  let sha256 ← nullable (f "sha256") deserializeString
  return ⟨role, url, filename, approxBytes, sha256⟩

def ModelFile.entries (m : ModelFile) : List (String × Option Json) :=
  [("role", some (.string m.role.name)), ("url", some (.string m.url)),
    ("filename", some (.string m.filename)),
    ("approxBytes", m.approxBytes.map serializeUnsigned), ("sha256", m.sha256.map .string)]

def ModelFile.serialize (m : ModelFile) : Json := record m.entries

@[simp] theorem deserializeString_string (s : String) : deserializeString (.string s) = some s := rfl

@[simp] theorem deserializeBool_bool (b : Bool) : deserializeBool (.bool b) = some b := rfl

@[simp] theorem nullable_string (o : Option String) :
    nullable (o.map .string) deserializeString = some o :=
  nullable_map_eq_some.mpr fun _ _ => ⟨by simp, rfl⟩

@[simp] theorem nullable_bool (o : Option Bool) :
    nullable (o.map .bool) deserializeBool = some o :=
  nullable_map_eq_some.mpr fun _ _ => ⟨by simp, rfl⟩

@[simp] theorem nullable_unsigned {bits : ℕ} {o : Option ℕ} :
    nullable (o.map serializeUnsigned) (deserializeUnsigned bits) = some o ↔
      ∀ n ∈ o, n < 2 ^ bits := by
  simp [nullable_map_eq_some, serializeUnsigned_ne_null]

theorem ModelFile.fields_serialize (m : ModelFile) :
    ∃ f, m.serialize.fields fieldNames = some f ∧ ∀ e ∈ m.entries, f e.1 = e.2 :=
  fields_record rfl (by decide)

theorem ModelFile.deserialize_serialize {m : ModelFile} :
    deserialize m.serialize = some m ↔ ∀ n ∈ m.approxBytes, n < 2 ^ 64 := by
  obtain ⟨f, hf, hget⟩ := fields_serialize m
  obtain ⟨role, url, filename, approxBytes, sha256⟩ := m
  simp only [entries, List.forall_mem_cons] at hget
  simp [deserialize, hf, hget, ModelFileRole.named role, Option.bind_eq_some_iff]

section

variable {F : Type} (s : Serde F)

def VisionDefaults.fieldNames : List String :=
  ["task", "labels", "animalLabels", "mean", "std", "probabilities", "minConfidence", "iou", "topK",
    "channelsLast", "cropMargin"]

def VisionDefaults.deserialize (v : Json) : Option (VisionDefaults F) := do
  let f ← v.fields fieldNames
  let task ← required (f "task") (deserializeVariant VisionTask.all VisionTask.name)
  let labels ← defaulted (f "labels") [] (Json.all deserializeString)
  let animalLabels ← nullable (f "animalLabels") (Json.all deserializeString)
  let mean ← nullable (f "mean") s.deserializeChannels
  let std ← nullable (f "std") s.deserializeChannels
  let probabilities ← nullable (f "probabilities") deserializeBool
  let minConfidence ← nullable (f "minConfidence") s.deserializeFloat
  let iou ← nullable (f "iou") s.deserializeFloat
  let topK ← nullable (f "topK") (deserializeUnsigned 64)
  let channelsLast ← nullable (f "channelsLast") deserializeBool
  let cropMargin ← nullable (f "cropMargin") s.deserializeFloat
  return { task, labels, animalLabels, mean, std, probabilities, minConfidence, iou, topK,
           channelsLast, cropMargin }

/-- An array that is left out when it is empty. -/
def nonempty {α : Type} (write : α → Json) (xs : List α) : Option Json :=
  if xs.isEmpty then none else some (.array (xs.map write))

def VisionDefaults.entries (v : VisionDefaults F) : List (String × Option Json) :=
  [("task", some (.string v.task.name)), ("labels", nonempty .string v.labels),
    ("animalLabels", v.animalLabels.map fun ls => .array (ls.map .string)),
    ("mean", v.mean.map s.serializeChannels), ("std", v.std.map s.serializeChannels),
    ("probabilities", v.probabilities.map .bool),
    ("minConfidence", v.minConfidence.map s.serializeFloat), ("iou", v.iou.map s.serializeFloat),
    ("topK", v.topK.map serializeUnsigned), ("channelsLast", v.channelsLast.map .bool),
    ("cropMargin", v.cropMargin.map s.serializeFloat)]

def VisionDefaults.serialize (v : VisionDefaults F) : Json := record (v.entries s)

def ModelCliDefaults.fieldNames : List String :=
  ["cfgScale", "steps", "width", "height", "samplingMethod", "flowShift", "zeroCondT",
    "offloadToCpu", "contextSize", "chatTemplateKwargs", "mmap", "maxVramGib", "loraWeight",
    "vision", "pipeline", "resolution", "lowVram", "decimationTarget", "textureSize"]

def ModelCliDefaults.deserialize (level : ℕ) (v : Json) : Option (ModelCliDefaults F) := do
  let f ← v.fields fieldNames
  let cfgScale ← required (f "cfgScale") s.deserializeFloat
  let steps ← required (f "steps") (deserializeUnsigned 32)
  let width ← required (f "width") (deserializeUnsigned 32)
  let height ← required (f "height") (deserializeUnsigned 32)
  let samplingMethod ← nullable (f "samplingMethod") deserializeString
  let flowShift ← nullable (f "flowShift") s.deserializeFloat
  let zeroCondT ← nullable (f "zeroCondT") deserializeBool
  let offloadToCpu ← nullable (f "offloadToCpu") deserializeBool
  let contextSize ← nullable (f "contextSize") (deserializeUnsigned 32)
  let chatTemplateKwargs ← nullable (f "chatTemplateKwargs") (s.deserializeMap (level + 1))
  let mmap ← nullable (f "mmap") deserializeBool
  let maxVramGib ← nullable (f "maxVramGib") s.deserializeFloat
  let loraWeight ← nullable (f "loraWeight") s.deserializeFloat
  let vision ← nullable (f "vision") (VisionDefaults.deserialize s)
  let pipeline ← nullable (f "pipeline") deserializeString
  let resolution ← nullable (f "resolution") (deserializeUnsigned 32)
  let lowVram ← nullable (f "lowVram") deserializeBool
  let decimationTarget ← nullable (f "decimationTarget") (deserializeUnsigned 32)
  let textureSize ← nullable (f "textureSize") (deserializeUnsigned 32)
  return { cfgScale, steps, width, height, samplingMethod, flowShift, zeroCondT, offloadToCpu,
           contextSize, chatTemplateKwargs, mmap, maxVramGib, loraWeight, vision, pipeline,
           resolution, lowVram, decimationTarget, textureSize }

def ModelCliDefaults.entries (d : ModelCliDefaults F) : List (String × Option Json) :=
  [("cfgScale", some (s.serializeFloat d.cfgScale)),
    ("steps", some (serializeUnsigned d.steps)), ("width", some (serializeUnsigned d.width)),
    ("height", some (serializeUnsigned d.height)),
    ("samplingMethod", d.samplingMethod.map .string),
    ("flowShift", d.flowShift.map s.serializeFloat), ("zeroCondT", d.zeroCondT.map .bool),
    ("offloadToCpu", d.offloadToCpu.map .bool),
    ("contextSize", d.contextSize.map serializeUnsigned),
    ("chatTemplateKwargs", d.chatTemplateKwargs.map s.serializeMap), ("mmap", d.mmap.map .bool),
    ("maxVramGib", d.maxVramGib.map s.serializeFloat),
    ("loraWeight", d.loraWeight.map s.serializeFloat),
    ("vision", d.vision.map (VisionDefaults.serialize s)), ("pipeline", d.pipeline.map .string),
    ("resolution", d.resolution.map serializeUnsigned), ("lowVram", d.lowVram.map .bool),
    ("decimationTarget", d.decimationTarget.map serializeUnsigned),
    ("textureSize", d.textureSize.map serializeUnsigned)]

def ModelCliDefaults.serialize (d : ModelCliDefaults F) : Json := record (d.entries s)

def ModelSource.fieldNames : List String := ["engine", "files", "cliDefaults"]

def ModelSource.deserialize (level : ℕ) (v : Json) : Option (ModelSource F) := do
  let f ← v.fields fieldNames
  let engine ← required (f "engine") (deserializeVariant ModelEngine.all ModelEngine.name)
  let files ← required (f "files") (Json.all ModelFile.deserialize)
  let cliDefaults ← required (f "cliDefaults") (ModelCliDefaults.deserialize s (level + 1))
  return ⟨engine, files, cliDefaults⟩

def ModelSource.entries (m : ModelSource F) : List (String × Option Json) :=
  [("engine", some (.string m.engine.name)),
    ("files", some (.array (m.files.map ModelFile.serialize))),
    ("cliDefaults", some (m.cliDefaults.serialize s))]

def ModelSource.serialize (m : ModelSource F) : Json := record (m.entries s)

def CatalogModel.fieldNames : List String :=
  ["id", "displayName", "kind", "vramGbEstimate", "description", "source", "enabled", "origin",
    "exclusiveGroup"]

def CatalogModel.deserialize [Zero F] (level : ℕ) (v : Json) : Option (CatalogModel F) := do
  let f ← v.fields fieldNames
  let id ← required (f "id") deserializeString
  let displayName ← required (f "displayName") deserializeString
  let kind ← required (f "kind") (deserializeVariant TaskKind.all TaskKind.name)
  let vramGbEstimate ← defaulted (f "vramGbEstimate") 0 s.deserializeFloat
  let description ← nullable (f "description") deserializeString
  let source ← required (f "source") (ModelSource.deserialize s (level + 1))
  let enabled ← defaulted (f "enabled") true deserializeBool
  let origin ← defaulted (f "origin") "local" deserializeString
  let exclusiveGroup ← nullable (f "exclusiveGroup") deserializeString
  return { id, displayName, kind, vramGbEstimate, description, source, enabled, origin,
           exclusiveGroup }

def CatalogModel.entries (m : CatalogModel F) : List (String × Option Json) :=
  [("id", some (.string m.id)), ("displayName", some (.string m.displayName)),
    ("kind", some (.string m.kind.name)),
    ("vramGbEstimate", some (s.serializeFloat m.vramGbEstimate)),
    ("description", m.description.map .string), ("source", some (m.source.serialize s)),
    ("enabled", some (.bool m.enabled)), ("origin", some (.string m.origin)),
    ("exclusiveGroup", m.exclusiveGroup.map .string)]

def CatalogModel.serialize (m : CatalogModel F) : Json := record (m.entries s)

def Catalog.fieldNames : List String := ["models", "dismissedSeeds"]

/-- `from_json`. -/
def Catalog.deserialize [Zero F] (v : Json) : Option (Catalog F) := do
  let f ← v.fields fieldNames
  let models ← defaulted (f "models") [] (Json.all (CatalogModel.deserialize s 2))
  let dismissedSeeds ← defaulted (f "dismissedSeeds") [] (Json.all deserializeString)
  return ⟨models, dismissedSeeds⟩

def Catalog.entries (c : Catalog F) : List (String × Option Json) :=
  [("models", some (.array (c.models.map (CatalogModel.serialize s)))),
    ("dismissedSeeds", nonempty .string c.dismissedSeeds)]

/-- `to_json`. -/
def Catalog.serialize (c : Catalog F) : Json := record (c.entries s)

/-! ## What is read back -/

@[simp] theorem all_string (xs : List String) :
    Json.all deserializeString (.array (xs.map .string)) = some xs :=
  all_map_eq_some.mpr fun _ _ => rfl

@[simp] theorem defaulted_nonempty_string (xs : List String) :
    defaulted (nonempty .string xs) [] (Json.all deserializeString) = some xs := by
  cases xs with
  | nil => rfl
  | cons x xs => exact all_string (x :: xs)

@[simp] theorem nullable_strings (o : Option (List String)) :
    nullable (o.map fun ls => .array (ls.map .string)) (Json.all deserializeString) = some o :=
  nullable_map_eq_some.mpr fun ls _ => ⟨by simp, all_string ls⟩

/-- The floats of a picture's channels. -/
def channelFloats (o : Option (F × F × F)) : List F :=
  match o with
  | none => []
  | some (r, g, b) => [r, g, b]

def VisionDefaults.floats (v : VisionDefaults F) : List F :=
  channelFloats v.mean ++ channelFloats v.std ++ v.minConfidence.toList ++ v.iou.toList ++
    v.cropMargin.toList

def ModelCliDefaults.floats (d : ModelCliDefaults F) : List F :=
  d.cfgScale :: (d.flowShift.toList ++ d.maxVramGib.toList ++ d.loraWeight.toList ++
    (d.vision.map VisionDefaults.floats).getD [])

variable {s}

@[simp] theorem nullable_float {o : Option F} :
    nullable (o.map s.serializeFloat) s.deserializeFloat = some o ↔ ∀ x ∈ o, s.Exact x := by
  rw [nullable_map_eq_some]
  refine forall₂_congr fun x _ => ?_
  rw [Serde.deserializeFloat_eq_some]
  exact ⟨fun h => h.2, fun h => ⟨Serde.serializeFloat_ne_null h, h⟩⟩

@[simp] theorem nullable_channels {o : Option (F × F × F)} :
    nullable (o.map s.serializeChannels) s.deserializeChannels = some o ↔
      ∀ x ∈ channelFloats o, s.Exact x := by
  rw [nullable_map_eq_some]
  cases o with
  | none => simp [channelFloats]
  | some c =>
    obtain ⟨r, g, b⟩ := c
    simp [channelFloats, Serde.serializeChannels, Serde.deserializeChannels,
      Option.bind_eq_some_iff]

theorem VisionDefaults.fields_serialize (v : VisionDefaults F) :
    ∃ f, (v.serialize s).fields fieldNames = some f ∧ ∀ e ∈ v.entries s, f e.1 = e.2 :=
  fields_record rfl (by decide)

theorem VisionDefaults.deserialize_eq_some {v : Json} {d : VisionDefaults F} :
    deserialize s v = some d ↔ ∃ f, v.fields fieldNames = some f ∧
      required (f "task") (deserializeVariant VisionTask.all VisionTask.name) = some d.task ∧
      defaulted (f "labels") [] (Json.all deserializeString) = some d.labels ∧
      nullable (f "animalLabels") (Json.all deserializeString) = some d.animalLabels ∧
      nullable (f "mean") s.deserializeChannels = some d.mean ∧
      nullable (f "std") s.deserializeChannels = some d.std ∧
      nullable (f "probabilities") deserializeBool = some d.probabilities ∧
      nullable (f "minConfidence") s.deserializeFloat = some d.minConfidence ∧
      nullable (f "iou") s.deserializeFloat = some d.iou ∧
      nullable (f "topK") (deserializeUnsigned 64) = some d.topK ∧
      nullable (f "channelsLast") deserializeBool = some d.channelsLast ∧
      nullable (f "cropMargin") s.deserializeFloat = some d.cropMargin := by
  unfold deserialize
  constructor
  · intro h
    obtain ⟨f, hf, h⟩ := Option.bind_eq_some_iff.mp h
    obtain ⟨_, h1, h⟩ := Option.bind_eq_some_iff.mp h
    obtain ⟨_, h2, h⟩ := Option.bind_eq_some_iff.mp h
    obtain ⟨_, h3, h⟩ := Option.bind_eq_some_iff.mp h
    obtain ⟨_, h4, h⟩ := Option.bind_eq_some_iff.mp h
    obtain ⟨_, h5, h⟩ := Option.bind_eq_some_iff.mp h
    obtain ⟨_, h6, h⟩ := Option.bind_eq_some_iff.mp h
    obtain ⟨_, h7, h⟩ := Option.bind_eq_some_iff.mp h
    obtain ⟨_, h8, h⟩ := Option.bind_eq_some_iff.mp h
    obtain ⟨_, h9, h⟩ := Option.bind_eq_some_iff.mp h
    obtain ⟨_, h10, h⟩ := Option.bind_eq_some_iff.mp h
    obtain ⟨_, h11, h⟩ := Option.bind_eq_some_iff.mp h
    cases h
    exact ⟨f, hf, h1, h2, h3, h4, h5, h6, h7, h8, h9, h10, h11⟩
  · rintro ⟨f, hf, h1, h2, h3, h4, h5, h6, h7, h8, h9, h10, h11⟩
    refine Option.bind_eq_some_iff.mpr ⟨f, hf, ?_⟩
    refine Option.bind_eq_some_iff.mpr ⟨_, h1, ?_⟩
    refine Option.bind_eq_some_iff.mpr ⟨_, h2, ?_⟩
    refine Option.bind_eq_some_iff.mpr ⟨_, h3, ?_⟩
    refine Option.bind_eq_some_iff.mpr ⟨_, h4, ?_⟩
    refine Option.bind_eq_some_iff.mpr ⟨_, h5, ?_⟩
    refine Option.bind_eq_some_iff.mpr ⟨_, h6, ?_⟩
    refine Option.bind_eq_some_iff.mpr ⟨_, h7, ?_⟩
    refine Option.bind_eq_some_iff.mpr ⟨_, h8, ?_⟩
    refine Option.bind_eq_some_iff.mpr ⟨_, h9, ?_⟩
    refine Option.bind_eq_some_iff.mpr ⟨_, h10, ?_⟩
    refine Option.bind_eq_some_iff.mpr ⟨_, h11, ?_⟩
    rfl

theorem VisionDefaults.deserialize_serialize {v : VisionDefaults F}
    (hfit : ∀ n ∈ v.topK, n < 2 ^ 64) :
    deserialize s (v.serialize s) = some v ↔ ∀ x ∈ v.floats, s.Exact x := by
  obtain ⟨f, hf, hget⟩ := fields_serialize (s := s) v
  have htop : nullable (v.topK.map serializeUnsigned) (deserializeUnsigned 64) = some v.topK :=
    nullable_unsigned.mpr hfit
  simp only [entries, List.forall_mem_cons] at hget
  rw [deserialize_eq_some]
  simp [hf, hget, VisionTask.named v.task, htop, floats, or_imp, forall_and]

/-- The numbers are within the fields' types. -/
structure ModelCliDefaults.Fits (d : ModelCliDefaults F) : Prop where
  steps : d.steps < 2 ^ 32
  width : d.width < 2 ^ 32
  height : d.height < 2 ^ 32
  contextSize : ∀ n ∈ d.contextSize, n < 2 ^ 32
  topK : ∀ v ∈ d.vision, ∀ n ∈ v.topK, n < 2 ^ 64
  resolution : ∀ n ∈ d.resolution, n < 2 ^ 32
  decimationTarget : ∀ n ∈ d.decimationTarget, n < 2 ^ 32
  textureSize : ∀ n ∈ d.textureSize, n < 2 ^ 32

structure ModelSource.Fits (m : ModelSource F) : Prop where
  files : ∀ f ∈ m.files, ∀ n ∈ f.approxBytes, n < 2 ^ 64
  cliDefaults : m.cliDefaults.Fits

theorem nullable_vision {o : Option (VisionDefaults F)} (hfit : ∀ v ∈ o, ∀ n ∈ v.topK, n < 2 ^ 64) :
    nullable (o.map (VisionDefaults.serialize s)) (VisionDefaults.deserialize s) = some o ↔
      ∀ x ∈ (o.map VisionDefaults.floats).getD [], s.Exact x := by
  rw [nullable_map_eq_some]
  cases o with
  | none => simp
  | some v =>
    have hv := VisionDefaults.deserialize_serialize (s := s) (hfit v rfl)
    have hnull : VisionDefaults.serialize s v ≠ .null := by simp [VisionDefaults.serialize, record]
    simp [hv, hnull]

theorem nullable_map {level : ℕ} {o : Option String} :
    nullable (o.map s.serializeMap) (s.deserializeMap level) = some o ↔
      ∀ t ∈ o, s.MapReturns level t := by
  simp [nullable_map_eq_some, Serde.serializeMap_ne_null]

/-- What the defaults hold is read back, inside `level` arrays and objects, as it is written. -/
structure ModelCliDefaults.Returns (s : Serde F) (level : ℕ) (d : ModelCliDefaults F) : Prop where
  floats : ∀ x ∈ d.floats, s.Exact x
  chatTemplateKwargs : ∀ t ∈ d.chatTemplateKwargs, s.MapReturns (level + 1) t

theorem ModelCliDefaults.fields_serialize (d : ModelCliDefaults F) :
    ∃ f, (d.serialize s).fields fieldNames = some f ∧ ∀ e ∈ d.entries s, f e.1 = e.2 :=
  fields_record rfl (by decide)

/-- What a reader took each field from. -/
theorem ModelCliDefaults.deserialize_eq_some {level : ℕ} {v : Json} {d : ModelCliDefaults F} :
    deserialize s level v = some d ↔ ∃ f, v.fields fieldNames = some f ∧
      required (f "cfgScale") s.deserializeFloat = some d.cfgScale ∧
      required (f "steps") (deserializeUnsigned 32) = some d.steps ∧
      required (f "width") (deserializeUnsigned 32) = some d.width ∧
      required (f "height") (deserializeUnsigned 32) = some d.height ∧
      nullable (f "samplingMethod") deserializeString = some d.samplingMethod ∧
      nullable (f "flowShift") s.deserializeFloat = some d.flowShift ∧
      nullable (f "zeroCondT") deserializeBool = some d.zeroCondT ∧
      nullable (f "offloadToCpu") deserializeBool = some d.offloadToCpu ∧
      nullable (f "contextSize") (deserializeUnsigned 32) = some d.contextSize ∧
      nullable (f "chatTemplateKwargs") (s.deserializeMap (level + 1)) =
        some d.chatTemplateKwargs ∧
      nullable (f "mmap") deserializeBool = some d.mmap ∧
      nullable (f "maxVramGib") s.deserializeFloat = some d.maxVramGib ∧
      nullable (f "loraWeight") s.deserializeFloat = some d.loraWeight ∧
      nullable (f "vision") (VisionDefaults.deserialize s) = some d.vision ∧
      nullable (f "pipeline") deserializeString = some d.pipeline ∧
      nullable (f "resolution") (deserializeUnsigned 32) = some d.resolution ∧
      nullable (f "lowVram") deserializeBool = some d.lowVram ∧
      nullable (f "decimationTarget") (deserializeUnsigned 32) = some d.decimationTarget ∧
      nullable (f "textureSize") (deserializeUnsigned 32) = some d.textureSize := by
  unfold deserialize
  constructor
  · intro h
    obtain ⟨f, hf, h⟩ := Option.bind_eq_some_iff.mp h
    obtain ⟨_, h1, h⟩ := Option.bind_eq_some_iff.mp h
    obtain ⟨_, h2, h⟩ := Option.bind_eq_some_iff.mp h
    obtain ⟨_, h3, h⟩ := Option.bind_eq_some_iff.mp h
    obtain ⟨_, h4, h⟩ := Option.bind_eq_some_iff.mp h
    obtain ⟨_, h5, h⟩ := Option.bind_eq_some_iff.mp h
    obtain ⟨_, h6, h⟩ := Option.bind_eq_some_iff.mp h
    obtain ⟨_, h7, h⟩ := Option.bind_eq_some_iff.mp h
    obtain ⟨_, h8, h⟩ := Option.bind_eq_some_iff.mp h
    obtain ⟨_, h9, h⟩ := Option.bind_eq_some_iff.mp h
    obtain ⟨_, h10, h⟩ := Option.bind_eq_some_iff.mp h
    obtain ⟨_, h11, h⟩ := Option.bind_eq_some_iff.mp h
    obtain ⟨_, h12, h⟩ := Option.bind_eq_some_iff.mp h
    obtain ⟨_, h13, h⟩ := Option.bind_eq_some_iff.mp h
    obtain ⟨_, h14, h⟩ := Option.bind_eq_some_iff.mp h
    obtain ⟨_, h15, h⟩ := Option.bind_eq_some_iff.mp h
    obtain ⟨_, h16, h⟩ := Option.bind_eq_some_iff.mp h
    obtain ⟨_, h17, h⟩ := Option.bind_eq_some_iff.mp h
    obtain ⟨_, h18, h⟩ := Option.bind_eq_some_iff.mp h
    obtain ⟨_, h19, h⟩ := Option.bind_eq_some_iff.mp h
    cases h
    exact ⟨f, hf, h1, h2, h3, h4, h5, h6, h7, h8, h9, h10, h11, h12, h13, h14, h15, h16, h17, h18,
      h19⟩
  · rintro ⟨f, hf, h1, h2, h3, h4, h5, h6, h7, h8, h9, h10, h11, h12, h13, h14, h15, h16, h17, h18,
      h19⟩
    refine Option.bind_eq_some_iff.mpr ⟨f, hf, ?_⟩
    refine Option.bind_eq_some_iff.mpr ⟨_, h1, ?_⟩
    refine Option.bind_eq_some_iff.mpr ⟨_, h2, ?_⟩
    refine Option.bind_eq_some_iff.mpr ⟨_, h3, ?_⟩
    refine Option.bind_eq_some_iff.mpr ⟨_, h4, ?_⟩
    refine Option.bind_eq_some_iff.mpr ⟨_, h5, ?_⟩
    refine Option.bind_eq_some_iff.mpr ⟨_, h6, ?_⟩
    refine Option.bind_eq_some_iff.mpr ⟨_, h7, ?_⟩
    refine Option.bind_eq_some_iff.mpr ⟨_, h8, ?_⟩
    refine Option.bind_eq_some_iff.mpr ⟨_, h9, ?_⟩
    refine Option.bind_eq_some_iff.mpr ⟨_, h10, ?_⟩
    refine Option.bind_eq_some_iff.mpr ⟨_, h11, ?_⟩
    refine Option.bind_eq_some_iff.mpr ⟨_, h12, ?_⟩
    refine Option.bind_eq_some_iff.mpr ⟨_, h13, ?_⟩
    refine Option.bind_eq_some_iff.mpr ⟨_, h14, ?_⟩
    refine Option.bind_eq_some_iff.mpr ⟨_, h15, ?_⟩
    refine Option.bind_eq_some_iff.mpr ⟨_, h16, ?_⟩
    refine Option.bind_eq_some_iff.mpr ⟨_, h17, ?_⟩
    refine Option.bind_eq_some_iff.mpr ⟨_, h18, ?_⟩
    refine Option.bind_eq_some_iff.mpr ⟨_, h19, ?_⟩
    rfl

theorem ModelCliDefaults.deserialize_serialize {level : ℕ} {d : ModelCliDefaults F}
    (hfit : d.Fits) :
    deserialize s level (d.serialize s) = some d ↔ d.Returns s level := by
  obtain ⟨f, hf, hget⟩ := fields_serialize (s := s) d
  obtain ⟨hsteps, hwidth, hheight, hcontext, htop, hresolution, hdecimation, htexture⟩ := hfit
  simp only [entries, List.forall_mem_cons] at hget
  rw [deserialize_eq_some]
  simp only [hf, Option.some.injEq, exists_eq_left', hget, required_some,
    Serde.deserializeFloat_eq_some, deserializeUnsigned_eq_some, nullable_string, nullable_float,
    nullable_bool, nullable_unsigned, nullable_map, nullable_vision htop, true_and]
  constructor
  · rintro ⟨hcfg, -, -, -, hflow, -, hmap, hvram, hlora, hvision, -⟩
    refine ⟨fun x hx => ?_, hmap⟩
    simp only [floats, List.mem_cons, List.mem_append, Option.mem_toList] at hx
    rcases hx with rfl | ((hx | hx) | hx) | hx
    · exact hcfg
    · exact hflow x hx
    · exact hvram x hx
    · exact hlora x hx
    · exact hvision x hx
  · rintro ⟨hfloats, hmap⟩
    simp only [floats, List.forall_mem_cons, List.forall_mem_append, Option.mem_toList] at hfloats
    obtain ⟨hcfg, ⟨⟨hflow, hvram⟩, hlora⟩, hvision⟩ := hfloats
    exact ⟨hcfg, hsteps, hwidth, hheight, hflow, hcontext, hmap, hvram, hlora, hvision,
      hresolution, hdecimation, htexture⟩

/-- A field that was read holds what its reader makes of something. -/
theorem forall_of_nullable {α : Type} {P : α → Prop} {read : Json → Option α} {v : Option Json}
    {o : Option α} (h : nullable v read = some o) (hP : ∀ v x, read v = some x → P x) :
    ∀ x ∈ o, P x := by
  intro x hx
  unfold nullable at h
  split at h
  · cases h
    cases hx
  · cases h
    cases hx
  · obtain ⟨y, hy, rfl⟩ := Option.map_eq_some_iff.mp h
    cases hx
    exact hP _ _ hy

theorem VisionDefaults.fits_of_deserialize {v : Json} {d : VisionDefaults F}
    (h : deserialize s v = some d) : ∀ n ∈ d.topK, n < 2 ^ 64 := by
  obtain ⟨f, -, -, -, -, -, -, -, -, -, htop, -⟩ := deserialize_eq_some.mp h
  exact forall_of_nullable htop fun _ _ => lt_of_deserializeUnsigned

/-- What is read fits the fields' types. -/
theorem ModelCliDefaults.fits_of_deserialize {level : ℕ} {v : Json} {d : ModelCliDefaults F}
    (h : deserialize s level v = some d) : d.Fits := by
  obtain ⟨f, -, -, hsteps, hwidth, hheight, -, -, -, -, hcontext, -, -, -, -, hvision, -,
    hresolution, -, hdecimation, htexture⟩ := deserialize_eq_some.mp h
  have hreq {n : ℕ} {w : Option Json} (h : required w (deserializeUnsigned 32) = some n) :
      n < 2 ^ 32 := by
    obtain ⟨w, -, hw⟩ := Option.bind_eq_some_iff.mp h
    exact lt_of_deserializeUnsigned hw
  have hopt {o : Option ℕ} {w : Option Json} (h : nullable w (deserializeUnsigned 32) = some o) :
      ∀ n ∈ o, n < 2 ^ 32 :=
    forall_of_nullable h fun _ _ => lt_of_deserializeUnsigned
  exact ⟨hreq hsteps, hreq hwidth, hreq hheight, hopt hcontext,
    forall_of_nullable hvision fun _ _ => VisionDefaults.fits_of_deserialize, hopt hresolution,
    hopt hdecimation, hopt htexture⟩

theorem ModelFile.fits_of_deserialize {v : Json} {m : ModelFile} (h : deserialize v = some m) :
    ∀ n ∈ m.approxBytes, n < 2 ^ 64 := by
  simp only [deserialize, Option.bind_eq_bind, Option.bind_eq_some_iff] at h
  obtain ⟨f, -, _, -, _, -, _, -, _, hbytes, _, -, hm⟩ := h
  cases hm
  exact forall_of_nullable hbytes fun _ _ => lt_of_deserializeUnsigned

theorem ModelSource.deserialize_eq_some {level : ℕ} {v : Json} {m : ModelSource F} :
    deserialize s level v = some m ↔ ∃ f, v.fields fieldNames = some f ∧
      required (f "engine") (deserializeVariant ModelEngine.all ModelEngine.name) =
        some m.engine ∧
      required (f "files") (Json.all ModelFile.deserialize) = some m.files ∧
      required (f "cliDefaults") (ModelCliDefaults.deserialize s (level + 1)) =
        some m.cliDefaults := by
  unfold deserialize
  simp only [Option.bind_eq_bind, Option.bind_eq_some_iff]
  constructor
  · rintro ⟨f, hf, _, h1, _, h2, _, h3, hm⟩
    cases hm
    exact ⟨f, hf, h1, h2, h3⟩
  · rintro ⟨f, hf, h1, h2, h3⟩
    exact ⟨f, hf, _, h1, _, h2, _, h3, rfl⟩

theorem ModelSource.fits_of_deserialize {level : ℕ} {v : Json} {m : ModelSource F}
    (h : deserialize s level v = some m) : m.Fits := by
  obtain ⟨f, -, -, hfiles, hcli⟩ := deserialize_eq_some.mp h
  obtain ⟨w, -, hw⟩ := Option.bind_eq_some_iff.mp hfiles
  obtain ⟨w', -, hw'⟩ := Option.bind_eq_some_iff.mp hcli
  refine ⟨fun file hmem => ?_, ModelCliDefaults.fits_of_deserialize hw'⟩
  obtain ⟨v, hv⟩ := read_of_mem_all hw hmem
  exact ModelFile.fits_of_deserialize hv

theorem ModelSource.fields_serialize (m : ModelSource F) :
    ∃ f, (m.serialize s).fields fieldNames = some f ∧ ∀ e ∈ m.entries s, f e.1 = e.2 :=
  fields_record rfl (by decide)

theorem ModelSource.deserialize_serialize {level : ℕ} {m : ModelSource F} (hfit : m.Fits) :
    deserialize s level (m.serialize s) = some m ↔ m.cliDefaults.Returns s (level + 1) := by
  obtain ⟨f, hf, hget⟩ := fields_serialize (s := s) m
  have hfiles : Json.all ModelFile.deserialize (.array (m.files.map ModelFile.serialize)) =
      some m.files :=
    all_map_eq_some.mpr fun file hmem => ModelFile.deserialize_serialize.mpr (hfit.files file hmem)
  simp only [entries, List.forall_mem_cons] at hget
  rw [deserialize_eq_some]
  simp only [hf, Option.some.injEq, exists_eq_left', hget, required_some, hfiles, true_and,
    ModelEngine.named m.engine, ModelCliDefaults.deserialize_serialize hfit.cliDefaults]

/-- What the model holds is read back from the catalogue file as it is written. -/
structure CatalogModel.Returns (s : Serde F) (m : CatalogModel F) : Prop where
  vramGbEstimate : s.Exact m.vramGbEstimate
  cliDefaults : m.source.cliDefaults.Returns s 4

theorem CatalogModel.fields_serialize (m : CatalogModel F) :
    ∃ f, (m.serialize s).fields fieldNames = some f ∧ ∀ e ∈ m.entries s, f e.1 = e.2 :=
  fields_record rfl (by decide)

theorem Catalog.fields_serialize (c : Catalog F) :
    ∃ f, (c.serialize s).fields fieldNames = some f ∧ ∀ e ∈ c.entries s, f e.1 = e.2 :=
  fields_record rfl (by decide)

section

variable [Zero F]

theorem CatalogModel.deserialize_eq_some {level : ℕ} {v : Json} {m : CatalogModel F} :
    deserialize s level v = some m ↔ ∃ f, v.fields fieldNames = some f ∧
      required (f "id") deserializeString = some m.id ∧
      required (f "displayName") deserializeString = some m.displayName ∧
      required (f "kind") (deserializeVariant TaskKind.all TaskKind.name) = some m.kind ∧
      defaulted (f "vramGbEstimate") 0 s.deserializeFloat = some m.vramGbEstimate ∧
      nullable (f "description") deserializeString = some m.description ∧
      required (f "source") (ModelSource.deserialize s (level + 1)) = some m.source ∧
      defaulted (f "enabled") true deserializeBool = some m.enabled ∧
      defaulted (f "origin") "local" deserializeString = some m.origin ∧
      nullable (f "exclusiveGroup") deserializeString = some m.exclusiveGroup := by
  unfold deserialize
  constructor
  · intro h
    obtain ⟨f, hf, h⟩ := Option.bind_eq_some_iff.mp h
    obtain ⟨_, h1, h⟩ := Option.bind_eq_some_iff.mp h
    obtain ⟨_, h2, h⟩ := Option.bind_eq_some_iff.mp h
    obtain ⟨_, h3, h⟩ := Option.bind_eq_some_iff.mp h
    obtain ⟨_, h4, h⟩ := Option.bind_eq_some_iff.mp h
    obtain ⟨_, h5, h⟩ := Option.bind_eq_some_iff.mp h
    obtain ⟨_, h6, h⟩ := Option.bind_eq_some_iff.mp h
    obtain ⟨_, h7, h⟩ := Option.bind_eq_some_iff.mp h
    obtain ⟨_, h8, h⟩ := Option.bind_eq_some_iff.mp h
    obtain ⟨_, h9, h⟩ := Option.bind_eq_some_iff.mp h
    cases h
    exact ⟨f, hf, h1, h2, h3, h4, h5, h6, h7, h8, h9⟩
  · rintro ⟨f, hf, h1, h2, h3, h4, h5, h6, h7, h8, h9⟩
    refine Option.bind_eq_some_iff.mpr ⟨f, hf, ?_⟩
    refine Option.bind_eq_some_iff.mpr ⟨_, h1, ?_⟩
    refine Option.bind_eq_some_iff.mpr ⟨_, h2, ?_⟩
    refine Option.bind_eq_some_iff.mpr ⟨_, h3, ?_⟩
    refine Option.bind_eq_some_iff.mpr ⟨_, h4, ?_⟩
    refine Option.bind_eq_some_iff.mpr ⟨_, h5, ?_⟩
    refine Option.bind_eq_some_iff.mpr ⟨_, h6, ?_⟩
    refine Option.bind_eq_some_iff.mpr ⟨_, h7, ?_⟩
    refine Option.bind_eq_some_iff.mpr ⟨_, h8, ?_⟩
    refine Option.bind_eq_some_iff.mpr ⟨_, h9, ?_⟩
    rfl

theorem CatalogModel.fits_of_deserialize {level : ℕ} {v : Json} {m : CatalogModel F}
    (h : deserialize s level v = some m) : m.source.Fits := by
  obtain ⟨f, -, -, -, -, -, -, hsource, -⟩ := deserialize_eq_some.mp h
  obtain ⟨w, -, hw⟩ := Option.bind_eq_some_iff.mp hsource
  exact ModelSource.fits_of_deserialize hw

theorem CatalogModel.deserialize_serialize {m : CatalogModel F} (hfit : m.source.Fits) :
    deserialize s 2 (m.serialize s) = some m ↔ m.Returns s := by
  obtain ⟨f, hf, hget⟩ := fields_serialize (s := s) m
  simp only [entries, List.forall_mem_cons] at hget
  rw [deserialize_eq_some]
  simp only [hf, Option.some.injEq, exists_eq_left', hget, required_some, defaulted_some, true_and,
    and_true, deserializeString_string, deserializeBool_bool, nullable_string, TaskKind.named m.kind,
    Serde.deserializeFloat_eq_some, ModelSource.deserialize_serialize hfit]
  exact ⟨fun h => ⟨h.1, h.2⟩, fun h => ⟨h.1, h.2⟩⟩

/-- A catalogue is read back as it is written exactly when each of its models is. -/
theorem Catalog.deserialize_serialize {c : Catalog F} (hfit : ∀ m ∈ c.models, m.source.Fits) :
    deserialize s (c.serialize s) = some c ↔ ∀ m ∈ c.models, m.Returns s := by
  obtain ⟨f, hf, hget⟩ := fields_serialize (s := s) c
  obtain ⟨models, dismissedSeeds⟩ := c
  simp only [entries, List.forall_mem_cons] at hget
  have hmodels : Json.all (CatalogModel.deserialize s 2)
      (.array (models.map (CatalogModel.serialize s))) = some models ↔ ∀ m ∈ models, m.Returns s :=
    all_map_eq_some.trans
      (forall₂_congr fun m hm => CatalogModel.deserialize_serialize (hfit m hm))
  rw [← hmodels]
  simp [deserialize, hf, hget, Option.bind_eq_some_iff]

end

end

end StudioWorker
