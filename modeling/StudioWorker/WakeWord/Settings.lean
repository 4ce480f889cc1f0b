import StudioWorker.CatalogJson
import StudioWorker.Lib.Values

/-!
# WakeWord.Settings — a training's settings (`src/wake_word/settings.rs`)

The defaults take a request's overrides as a JSON merge patch; the result is read back strictly and
checked as a whole.

* `mergePatch`, `withOverrides`: the settings of a request.
* `Erases`: the overrides that leave a feature set without a weight.
* `weight_iff`: a default weight is there after the overrides exactly when they do not erase it.
-/

namespace StudioWorker.WakeWord

open Lib Lib.Json

/-- What the source and the JSON library do with an `f64`. -/
structure F64 (F : Type) where
  literal : ℚ → F
  /-- `none`: out of its range. -/
  read : Number → Option F
  /-- `none` is written as `null`. -/
  write : F → Option Number
  isFinite : F → Bool
  isZero : F → Bool
  lt : F → F → Bool
  sub : F → F → F
  div : F → F → F
  abs : F → F
  round : F → F
  display : F → String

/-- Why a request is refused. -/
inductive Invalid where
  /-- What the JSON library says, behind these words. -/
  | library (before : String)
  | refused (message : String)
deriving DecidableEq, Repr

def F64.deserialize {F : Type} (f : F64 F) : Json → Option F
  | .number n => f.read n
  | _ => none

def F64.serialize {F : Type} (f : F64 F) (x : F) : Json :=
  match f.write x with
  | some n => .number n
  | none => .null

/-- `u32` and `u64`. -/
def unsigned (bits : ℕ) : Json → Option ℕ := deserializeUnsigned bits

/-! ## The settings -/

/-- How a language's synthetic voices speak. -/
structure Prosody (F : Type) where
  lengthScales : List F
  noiseScaleWs : List F
  noiseScales : List F
  slerpWeights : List F

structure SampleSettings where
  positivePerLanguage : ℕ
  nearMissPerPhrasePerLanguage : ℕ
  batchSize : ℕ

structure AugmentationSettings (F : Type) where
  durationSeconds : F
  backgroundMinSnrDb : F
  backgroundMaxSnrDb : F
  minJitterSeconds : F
  maxJitterSeconds : F
  probabilities : Entries String F

structure FeatureSettings where
  positiveRepetitions : ℕ
  nearMissRepetitions : ℕ
  ownVoiceRepetitions : ℕ

/-- How often a feature set is drawn into a batch, and how much a wrong answer on it costs. -/
structure FeatureWeight (F : Type) where
  samplingWeight : F
  penaltyWeight : F

structure ModelShape where
  pointwiseFilters : String
  repeatInBlock : String
  mixconvKernelSizes : String
  residualConnection : String
  firstConvFilters : ℕ
  firstConvKernelSize : ℕ
  stride : ℕ

structure TrainingSettings (F : Type) where
  steps : List ℕ
  learningRates : List F
  positiveClassWeight : List F
  negativeClassWeight : List F
  timeMaskMaxSize : List ℕ
  timeMaskCount : List ℕ
  freqMaskMaxSize : List ℕ
  freqMaskCount : List ℕ
  batchSize : ℕ
  evalStepInterval : ℕ
  clipDurationMs : ℕ
  targetMinimization : F
  minimizationMetric : Option String
  maximizationMetric : String
  featureWeights : Entries String (FeatureWeight F)
  model : ModelShape

structure EvaluationSettings (F : Type) where
  slidingWindow : ℕ
  cooldownSlices : ℕ
  cutoffStep : F

structure Settings (F : Type) where
  seed : ℕ
  deviceMemoryBudgetGib : F
  samples : SampleSettings
  prosody : Entries String (Prosody F)
  augmentation : AugmentationSettings F
  features : FeatureSettings
  training : TrainingSettings F
  evaluation : EvaluationSettings F

/-! ## As JSON -/

def SampleSettings.fieldNames : List String :=
  ["positivePerLanguage", "nearMissPerPhrasePerLanguage", "batchSize"]

def SampleSettings.deserialize (v : Json) : Option SampleSettings := do
  let get ← v.fieldsOnly fieldNames
  let positivePerLanguage ← required (get "positivePerLanguage") (unsigned 32)
  let nearMissPerPhrasePerLanguage ←
    required (get "nearMissPerPhrasePerLanguage") (unsigned 32)
  let batchSize ← required (get "batchSize") (unsigned 32)
  return { positivePerLanguage, nearMissPerPhrasePerLanguage, batchSize }

def SampleSettings.serialize (s : SampleSettings) : Json :=
  .object [("batchSize", serializeUnsigned s.batchSize),
    ("nearMissPerPhrasePerLanguage", serializeUnsigned s.nearMissPerPhrasePerLanguage),
    ("positivePerLanguage", serializeUnsigned s.positivePerLanguage)]

def FeatureSettings.fieldNames : List String :=
  ["positiveRepetitions", "nearMissRepetitions", "ownVoiceRepetitions"]

def FeatureSettings.deserialize (v : Json) : Option FeatureSettings := do
  let get ← v.fieldsOnly fieldNames
  let positiveRepetitions ← required (get "positiveRepetitions") (unsigned 32)
  let nearMissRepetitions ← required (get "nearMissRepetitions") (unsigned 32)
  let ownVoiceRepetitions ← required (get "ownVoiceRepetitions") (unsigned 32)
  return { positiveRepetitions, nearMissRepetitions, ownVoiceRepetitions }

def FeatureSettings.serialize (s : FeatureSettings) : Json :=
  .object [("nearMissRepetitions", serializeUnsigned s.nearMissRepetitions),
    ("ownVoiceRepetitions", serializeUnsigned s.ownVoiceRepetitions),
    ("positiveRepetitions", serializeUnsigned s.positiveRepetitions)]

def ModelShape.fieldNames : List String :=
  ["pointwiseFilters", "repeatInBlock", "mixconvKernelSizes", "residualConnection",
    "firstConvFilters", "firstConvKernelSize", "stride"]

def ModelShape.deserialize (v : Json) : Option ModelShape := do
  let get ← v.fieldsOnly fieldNames
  let pointwiseFilters ← required (get "pointwiseFilters") deserializeString
  let repeatInBlock ← required (get "repeatInBlock") deserializeString
  let mixconvKernelSizes ← required (get "mixconvKernelSizes") deserializeString
  let residualConnection ← required (get "residualConnection") deserializeString
  let firstConvFilters ← required (get "firstConvFilters") (unsigned 32)
  let firstConvKernelSize ← required (get "firstConvKernelSize") (unsigned 32)
  let stride ← required (get "stride") (unsigned 32)
  return { pointwiseFilters, repeatInBlock, mixconvKernelSizes, residualConnection,
           firstConvFilters, firstConvKernelSize, stride }

def ModelShape.serialize (s : ModelShape) : Json :=
  .object [("firstConvFilters", serializeUnsigned s.firstConvFilters),
    ("firstConvKernelSize", serializeUnsigned s.firstConvKernelSize),
    ("mixconvKernelSizes", .string s.mixconvKernelSizes),
    ("pointwiseFilters", .string s.pointwiseFilters),
    ("repeatInBlock", .string s.repeatInBlock),
    ("residualConnection", .string s.residualConnection),
    ("stride", serializeUnsigned s.stride)]

section

variable {F : Type} (f : F64 F)

def serializeFloats (xs : List F) : Json := .array (xs.map f.serialize)

def serializeUnsigneds (xs : List ℕ) : Json := .array (xs.map serializeUnsigned)

/-- A map, in the order of its names. -/
def serializeMap {α : Type} (write : α → Json) (m : Entries String α) : Json :=
  .object (m.map fun p => (p.1, write p.2))

def Prosody.fieldNames : List String :=
  ["lengthScales", "noiseScaleWs", "noiseScales", "slerpWeights"]

def Prosody.deserialize (v : Json) : Option (Prosody F) := do
  let get ← v.fieldsOnly fieldNames
  let lengthScales ← required (get "lengthScales") (Json.all f.deserialize)
  let noiseScaleWs ← required (get "noiseScaleWs") (Json.all f.deserialize)
  let noiseScales ← required (get "noiseScales") (Json.all f.deserialize)
  let slerpWeights ← required (get "slerpWeights") (Json.all f.deserialize)
  return { lengthScales, noiseScaleWs, noiseScales, slerpWeights }

def Prosody.serialize (p : Prosody F) : Json :=
  .object [("lengthScales", serializeFloats f p.lengthScales),
    ("noiseScaleWs", serializeFloats f p.noiseScaleWs),
    ("noiseScales", serializeFloats f p.noiseScales),
    ("slerpWeights", serializeFloats f p.slerpWeights)]

def AugmentationSettings.fieldNames : List String :=
  ["durationSeconds", "backgroundMinSnrDb", "backgroundMaxSnrDb", "minJitterSeconds",
    "maxJitterSeconds", "probabilities"]

def AugmentationSettings.deserialize (v : Json) : Option (AugmentationSettings F) := do
  let get ← v.fieldsOnly fieldNames
  let durationSeconds ← required (get "durationSeconds") f.deserialize
  let backgroundMinSnrDb ← required (get "backgroundMinSnrDb") f.deserialize
  let backgroundMaxSnrDb ← required (get "backgroundMaxSnrDb") f.deserialize
  let minJitterSeconds ← required (get "minJitterSeconds") f.deserialize
  let maxJitterSeconds ← required (get "maxJitterSeconds") f.deserialize
  let probabilities ← required (get "probabilities") (Json.map f.deserialize)
  return { durationSeconds, backgroundMinSnrDb, backgroundMaxSnrDb, minJitterSeconds,
           maxJitterSeconds, probabilities }

def AugmentationSettings.serialize (a : AugmentationSettings F) : Json :=
  .object [("backgroundMaxSnrDb", f.serialize a.backgroundMaxSnrDb),
    ("backgroundMinSnrDb", f.serialize a.backgroundMinSnrDb),
    ("durationSeconds", f.serialize a.durationSeconds),
    ("maxJitterSeconds", f.serialize a.maxJitterSeconds),
    ("minJitterSeconds", f.serialize a.minJitterSeconds),
    ("probabilities", serializeMap f.serialize a.probabilities)]

def FeatureWeight.fieldNames : List String := ["samplingWeight", "penaltyWeight"]

def FeatureWeight.deserialize (v : Json) : Option (FeatureWeight F) := do
  let get ← v.fieldsOnly fieldNames
  let samplingWeight ← required (get "samplingWeight") f.deserialize
  let penaltyWeight ← required (get "penaltyWeight") f.deserialize
  return { samplingWeight, penaltyWeight }

def FeatureWeight.serialize (w : FeatureWeight F) : Json :=
  .object [("penaltyWeight", f.serialize w.penaltyWeight),
    ("samplingWeight", f.serialize w.samplingWeight)]

def TrainingSettings.fieldNames : List String :=
  ["steps", "learningRates", "positiveClassWeight", "negativeClassWeight", "timeMaskMaxSize",
    "timeMaskCount", "freqMaskMaxSize", "freqMaskCount", "batchSize", "evalStepInterval",
    "clipDurationMs", "targetMinimization", "minimizationMetric", "maximizationMetric",
    "featureWeights", "model"]

def TrainingSettings.deserialize (v : Json) : Option (TrainingSettings F) := do
  let get ← v.fieldsOnly fieldNames
  let steps ← required (get "steps") (Json.all (unsigned 32))
  let learningRates ← required (get "learningRates") (Json.all f.deserialize)
  let positiveClassWeight ← required (get "positiveClassWeight") (Json.all f.deserialize)
  let negativeClassWeight ← required (get "negativeClassWeight") (Json.all f.deserialize)
  let timeMaskMaxSize ← required (get "timeMaskMaxSize") (Json.all (unsigned 32))
  let timeMaskCount ← required (get "timeMaskCount") (Json.all (unsigned 32))
  let freqMaskMaxSize ← required (get "freqMaskMaxSize") (Json.all (unsigned 32))
  let freqMaskCount ← required (get "freqMaskCount") (Json.all (unsigned 32))
  let batchSize ← required (get "batchSize") (unsigned 32)
  let evalStepInterval ← required (get "evalStepInterval") (unsigned 32)
  let clipDurationMs ← required (get "clipDurationMs") (unsigned 32)
  let targetMinimization ← required (get "targetMinimization") f.deserialize
  let minimizationMetric ← nullable (get "minimizationMetric") deserializeString
  let maximizationMetric ← required (get "maximizationMetric") deserializeString
  let featureWeights ← required (get "featureWeights") (Json.map (FeatureWeight.deserialize f))
  let model ← required (get "model") ModelShape.deserialize
  return { steps, learningRates, positiveClassWeight, negativeClassWeight, timeMaskMaxSize,
           timeMaskCount, freqMaskMaxSize, freqMaskCount, batchSize, evalStepInterval,
           clipDurationMs, targetMinimization, minimizationMetric, maximizationMetric,
           featureWeights, model }

def TrainingSettings.entries (t : TrainingSettings F) : Entries String Json :=
  [("batchSize", serializeUnsigned t.batchSize),
    ("clipDurationMs", serializeUnsigned t.clipDurationMs),
    ("evalStepInterval", serializeUnsigned t.evalStepInterval),
    ("featureWeights", serializeMap (FeatureWeight.serialize f) t.featureWeights),
    ("freqMaskCount", serializeUnsigneds t.freqMaskCount),
    ("freqMaskMaxSize", serializeUnsigneds t.freqMaskMaxSize),
    ("learningRates", serializeFloats f t.learningRates),
    ("maximizationMetric", .string t.maximizationMetric),
    ("minimizationMetric", (t.minimizationMetric.map Json.string).getD .null),
    ("model", t.model.serialize),
    ("negativeClassWeight", serializeFloats f t.negativeClassWeight),
    ("positiveClassWeight", serializeFloats f t.positiveClassWeight),
    ("steps", serializeUnsigneds t.steps),
    ("targetMinimization", f.serialize t.targetMinimization),
    ("timeMaskCount", serializeUnsigneds t.timeMaskCount),
    ("timeMaskMaxSize", serializeUnsigneds t.timeMaskMaxSize)]

def TrainingSettings.serialize (t : TrainingSettings F) : Json := .object (t.entries f)

def EvaluationSettings.fieldNames : List String := ["slidingWindow", "cooldownSlices", "cutoffStep"]

def EvaluationSettings.deserialize (v : Json) : Option (EvaluationSettings F) := do
  let get ← v.fieldsOnly fieldNames
  let slidingWindow ← required (get "slidingWindow") (unsigned 32)
  let cooldownSlices ← required (get "cooldownSlices") (unsigned 32)
  let cutoffStep ← required (get "cutoffStep") f.deserialize
  return { slidingWindow, cooldownSlices, cutoffStep }

def EvaluationSettings.serialize (e : EvaluationSettings F) : Json :=
  .object [("cooldownSlices", serializeUnsigned e.cooldownSlices),
    ("cutoffStep", f.serialize e.cutoffStep),
    ("slidingWindow", serializeUnsigned e.slidingWindow)]

def Settings.fieldNames : List String :=
  ["seed", "deviceMemoryBudgetGib", "samples", "prosody", "augmentation", "features", "training",
    "evaluation"]

def Settings.deserialize (v : Json) : Option (Settings F) := do
  let get ← v.fieldsOnly fieldNames
  let seed ← required (get "seed") (unsigned 64)
  let deviceMemoryBudgetGib ← required (get "deviceMemoryBudgetGib") f.deserialize
  let samples ← required (get "samples") SampleSettings.deserialize
  let prosody ← required (get "prosody") (Json.map (Prosody.deserialize f))
  let augmentation ← required (get "augmentation") (AugmentationSettings.deserialize f)
  let features ← required (get "features") FeatureSettings.deserialize
  let training ← required (get "training") (TrainingSettings.deserialize f)
  let evaluation ← required (get "evaluation") (EvaluationSettings.deserialize f)
  return { seed, deviceMemoryBudgetGib, samples, prosody, augmentation, features, training,
           evaluation }

def Settings.entries (s : Settings F) : Entries String Json :=
  [("augmentation", s.augmentation.serialize f),
    ("deviceMemoryBudgetGib", f.serialize s.deviceMemoryBudgetGib),
    ("evaluation", s.evaluation.serialize f), ("features", s.features.serialize),
    ("prosody", serializeMap (Prosody.serialize f) s.prosody),
    ("samples", s.samples.serialize), ("seed", serializeUnsigned s.seed),
    ("training", s.training.serialize f)]

end

/-! ## The merge patch -/

def isNull : Json → Bool
  | .null => true
  | _ => false

/-- The entries a patch is merged into: those of an object, or of one made for it. -/
def entriesOf : Json → Entries String Json
  | .object es => es
  | _ => []

mutual

/-- `target` with `patch` applied as a JSON merge patch: objects merge, `null` removes, any other
value replaces. -/
def mergePatch (target : Json) : Json → Json
  | .object patch => .object (mergeEntries (entriesOf target) patch)
  | patch => patch

def mergeEntries (target : Entries String Json) : List (String × Json) → Entries String Json
  | [] => target
  | (key, value) :: patch =>
    if isNull value then mergeEntries (target.erase key) patch
    else mergeEntries (target.insert key (mergePatch ((target.get key).getD .null) value)) patch

end

/-! ## The checks -/

def within {T : Type} (lt : T → T → Bool) (display : T → String) (field : String)
    (value low high : T) : Except Invalid Unit :=
  if lt value low || lt high value then
    .error (.refused
      s!"settings.{field} must be between {display low} and {display high}, not {display value}")
  else .ok ()

def withinUnsigned : String → ℕ → ℕ → ℕ → Except Invalid Unit :=
  within (fun a b => decide (a < b)) toString

def nonEmpty {T : Type} (field : String) (list : List T) : Except Invalid Unit :=
  if list.isEmpty then .error (.refused s!"settings.{field} must not be empty") else .ok ()

def maxPhases : ℕ := 8
def maxTotalSteps : ℕ := 1000000

section

variable {F : Type} (f : F64 F)

def F64.finiteWithin (field : String) (value low high : F) : Except Invalid Unit :=
  if f.isFinite value then within f.lt f.display field value low high
  else .error (.refused s!"settings.{field} must be a number")

/-- Every list of a language's prosody is there and in its range. -/
def Prosody.check (code : String) (p : Prosody F) : Except Invalid Unit :=
  [("lengthScales", p.lengthScales, f.literal 0.1, f.literal 3),
    ("noiseScaleWs", p.noiseScaleWs, f.literal 0, f.literal 2),
    ("noiseScales", p.noiseScales, f.literal 0, f.literal 2),
    ("slerpWeights", p.slerpWeights, f.literal 0, f.literal 1)].forM fun (name, list, low, high) =>
      let field := s!"prosody.{code}.{name}"
      do
        nonEmpty field list
        list.forM fun value => f.finiteWithin field value low high

def TrainingSettings.check (t : TrainingSettings F) : Except Invalid Unit := do
  nonEmpty "training.steps" t.steps
  withinUnsigned "training.steps.len" t.steps.length 1 maxPhases
  t.steps.forM fun steps => withinUnsigned "training.steps" steps 1 maxTotalSteps
  withinUnsigned "training.steps (total)" t.steps.sum 1 maxTotalSteps
  let phases := t.steps.length
  [("learningRates", t.learningRates.length),
    ("positiveClassWeight", t.positiveClassWeight.length),
    ("negativeClassWeight", t.negativeClassWeight.length),
    ("timeMaskMaxSize", t.timeMaskMaxSize.length), ("timeMaskCount", t.timeMaskCount.length),
    ("freqMaskMaxSize", t.freqMaskMaxSize.length),
    ("freqMaskCount", t.freqMaskCount.length)].forM fun (name, len) =>
      if len = phases then .ok ()
      else .error (.refused
        s!"settings.training.{name} needs one entry per phase ({phases}), not {len}")
  t.learningRates.forM fun rate =>
    f.finiteWithin "training.learningRates" rate (f.literal 1e-7) (f.literal 1)
  (t.positiveClassWeight ++ t.negativeClassWeight).forM fun weight =>
    f.finiteWithin "training.classWeight" weight (f.literal 0) (f.literal 1000)
  withinUnsigned "training.batchSize" t.batchSize 1 4096
  withinUnsigned "training.evalStepInterval" t.evalStepInterval 10 100000
  withinUnsigned "training.clipDurationMs" t.clipDurationMs 500 5000
  t.featureWeights.forM fun (name, weight) => do
    let field := s!"training.featureWeights.{name}"
    f.finiteWithin field weight.samplingWeight (f.literal 0) (f.literal 1000)
    f.finiteWithin field weight.penaltyWeight (f.literal 0) (f.literal 1000)
  withinUnsigned "training.model.firstConvFilters" t.model.firstConvFilters 0 1024
  withinUnsigned "training.model.firstConvKernelSize" t.model.firstConvKernelSize 1 64
  withinUnsigned "training.model.stride" t.model.stride 1 10

/-- Every value in its range, every per-phase list as long as `steps`. -/
def Settings.check (s : Settings F) : Except Invalid Unit := do
  f.finiteWithin "deviceMemoryBudgetGib" s.deviceMemoryBudgetGib (f.literal 1) (f.literal 80)
  withinUnsigned "samples.positivePerLanguage" s.samples.positivePerLanguage 100 200000
  withinUnsigned "samples.nearMissPerPhrasePerLanguage" s.samples.nearMissPerPhrasePerLanguage
    10 50000
  withinUnsigned "samples.batchSize" s.samples.batchSize 1 256
  s.prosody.forM fun (code, prosody) => prosody.check f code
  let a := s.augmentation
  f.finiteWithin "augmentation.durationSeconds" a.durationSeconds (f.literal 1) (f.literal 10)
  f.finiteWithin "augmentation.backgroundMinSnrDb" a.backgroundMinSnrDb (f.literal (-30))
    a.backgroundMaxSnrDb
  f.finiteWithin "augmentation.backgroundMaxSnrDb" a.backgroundMaxSnrDb (f.literal (-30))
    (f.literal 60)
  f.finiteWithin "augmentation.minJitterSeconds" a.minJitterSeconds (f.literal 0)
    a.maxJitterSeconds
  f.finiteWithin "augmentation.maxJitterSeconds" a.maxJitterSeconds (f.literal 0)
    a.durationSeconds
  a.probabilities.forM fun (name, probability) =>
    f.finiteWithin s!"augmentation.probabilities.{name}" probability (f.literal 0) (f.literal 1)
  withinUnsigned "features.positiveRepetitions" s.features.positiveRepetitions 1 10
  withinUnsigned "features.nearMissRepetitions" s.features.nearMissRepetitions 1 10
  withinUnsigned "features.ownVoiceRepetitions" s.features.ownVoiceRepetitions 1 200
  s.training.check f
  let e := s.evaluation
  withinUnsigned "evaluation.slidingWindow" e.slidingWindow 1 50
  withinUnsigned "evaluation.cooldownSlices" e.cooldownSlices 1 200
  f.finiteWithin "evaluation.cutoffStep" e.cutoffStep (f.literal 0.001) (f.literal 0.1)
  let points := f.div (f.literal 1) e.cutoffStep
  if f.lt (f.literal 1e-9) (f.abs (f.sub points (f.round points))) then
    .error (.refused
      s!"settings.evaluation.cutoffStep must divide 1 evenly, not {f.display e.cutoffStep}")
  else .ok ()

/-- `defaults` with `overrides` merged over them, read back and checked. -/
def withOverrides (defaults : Settings F) (overrides : Option Json) :
    Except Invalid (Settings F) :=
  match overrides with
  | none => .ok defaults
  | some (.object patch) =>
    match Settings.deserialize f (mergePatch (.object (defaults.entries f)) (.object patch)) with
    | none => .error (.library "settings: ")
    | some settings => (settings.check f).map fun _ => settings
  | some _ => .error (.refused "settings must be an object")

end

/-! ## What the overrides leave -/

/-- A patch of the training that leaves the feature set `name` without a weight: `null` in its
place, or a training by position whose weights have no such name. -/
def TrainingErases (training : Json) (name : String) : Prop :=
  (∃ fields weights, training = .object fields ∧
    Entries.get fields "featureWeights" = some (.object weights) ∧
    Entries.get weights name = some .null) ∨
  (∃ fields weights, training = .array fields ∧
    fields[TrainingSettings.fieldNames.idxOf "featureWeights"]? = some (.object weights) ∧
    name ∉ weights.map (·.1))

/-- The overrides leave the feature set `name` without a weight. -/
def Erases (overrides : Option Json) (name : String) : Prop :=
  ∃ patch training, overrides = some (.object patch) ∧
    Entries.get patch "training" = some training ∧ TrainingErases training name

theorem trainingErases_object {fields : List (String × Json)} {name : String} :
    TrainingErases (.object fields) name ↔ ∃ weights,
      Entries.get fields "featureWeights" = some (.object weights) ∧
      Entries.get weights name = some .null := by
  simp [TrainingErases]

theorem trainingErases_array {fields : List Json} {name : String} :
    TrainingErases (.array fields) name ↔ ∃ weights,
      fields[TrainingSettings.fieldNames.idxOf "featureWeights"]? = some (.object weights) ∧
      name ∉ weights.map (·.1) := by
  simp [TrainingErases]

theorem erases_object {patch : List (String × Json)} {name : String} :
    Erases (some (.object patch)) name ↔ ∃ training,
      Entries.get patch "training" = some training ∧ TrainingErases training name := by
  simp [Erases]

/-- **The merge patch** says of each name what it leads to, when it names each at most once. -/
theorem get_mergeEntries {patch : List (String × Json)} (hp : (patch.map (·.1)).Nodup)
    (target : Entries String Json) (key : String) :
    (mergeEntries target patch).get key =
      match Entries.get patch key with
      | none => target.get key
      | some value =>
        if isNull value then none else some (mergePatch ((target.get key).getD .null) value) := by
  induction patch generalizing target with
  | nil => rfl
  | cons p patch ih =>
    obtain ⟨name, value⟩ := p
    rw [List.map_cons, List.nodup_cons] at hp
    rw [mergeEntries, Entries.get_cons]
    by_cases hk : key = name
    · have hnone : Entries.get patch key = none := by
        rw [Entries.get_eq_none_iff, hk]
        exact hp.1
      rw [if_pos hk]
      dsimp only
      split_ifs with hnull
      · rw [ih hp.2, hnone, hk, Entries.get_erase_self]
      · rw [ih hp.2, hnone, hk, Entries.get_insert_self]
    · rw [if_neg hk]
      split_ifs with hnull
      · rw [ih hp.2, Entries.get_erase_ne hk]
      · rw [ih hp.2, Entries.get_insert_ne hk]

theorem isNull_iff {v : Json} : isNull v = true ↔ v = .null := by
  cases v <;> simp [isNull]

section

variable {F : Type} {f : F64 F}

theorem names_serializeMap {α : Type} {write : α → Json} {m : Entries String α} :
    (m.map fun p => (p.1, write p.2)).map (·.1) = m.map (·.1) := by
  rw [List.map_map]
  rfl

/-- A training that is read has the weights of its field. -/
theorem TrainingSettings.of_deserialize {v : Json} {t : TrainingSettings F}
    (h : TrainingSettings.deserialize f v = some t) :
    ∃ get w, v.fieldsOnly fieldNames = some get ∧ get "featureWeights" = some w ∧
      Json.map (FeatureWeight.deserialize f) w = some t.featureWeights := by
  obtain ⟨get, hget, h⟩ := Option.bind_eq_some_iff.mp h
  iterate 14 obtain ⟨_, -, h⟩ := Option.bind_eq_some_iff.mp h
  obtain ⟨weights, hweights, h⟩ := Option.bind_eq_some_iff.mp h
  obtain ⟨_, -, ht⟩ := Option.bind_eq_some_iff.mp h
  obtain ⟨w, hw, hmap⟩ := Option.bind_eq_some_iff.mp hweights
  obtain rfl := Option.some.inj ht
  exact ⟨get, w, hget, hw, hmap⟩

theorem Settings.of_deserialize {v : Json} {s : Settings F}
    (h : Settings.deserialize f v = some s) :
    ∃ get t, v.fieldsOnly fieldNames = some get ∧ get "training" = some t ∧
      TrainingSettings.deserialize f t = some s.training := by
  obtain ⟨get, hget, h⟩ := Option.bind_eq_some_iff.mp h
  iterate 6 obtain ⟨_, -, h⟩ := Option.bind_eq_some_iff.mp h
  obtain ⟨training, htraining, h⟩ := Option.bind_eq_some_iff.mp h
  obtain ⟨_, -, hs⟩ := Option.bind_eq_some_iff.mp h
  obtain ⟨t, ht, hread⟩ := Option.bind_eq_some_iff.mp htraining
  obtain rfl := Option.some.inj hs
  exact ⟨get, t, hget, ht, hread⟩

/-- A name of the merged object is one that the patch gives a value, or one that it leaves. -/
theorem mem_mergeEntries {patch : List (String × Json)} (hp : (patch.map (·.1)).Nodup)
    {target : Entries String Json} {name : String} (hname : name ∈ target.map (·.1)) :
    name ∈ (mergeEntries target patch).map (·.1) ↔ Entries.get patch name ≠ some .null := by
  obtain ⟨v, hv⟩ := Entries.mem_map_iff.mp hname
  rw [Entries.mem_map_iff, get_mergeEntries hp, hv]
  rcases Entries.get patch name with _ | value
  · simp
  · dsimp only
    split_ifs with hnull
    · simp [isNull_iff.mp hnull]
    · have hne : value ≠ .null := fun h => hnull (isNull_iff.mpr h)
      simp [hne]

theorem mergePatch_of_not_object {target patch : Json} (h : ∀ es, patch ≠ .object es) :
    mergePatch target patch = patch := by
  cases patch with
  | object es => exact absurd rfl (h es)
  | _ => rfl

/-- The weights that are given, merged over the default ones. -/
theorem weight_iff_of_given {d : Entries String (FeatureWeight F)} {given : Json}
    {weights : List (String × Json)} (hp : Orderly given)
    (h : mergePatch (serializeMap (FeatureWeight.serialize f) d) given = .object weights)
    {name : String} (hname : name ∈ d.map (·.1)) :
    name ∈ weights.map (·.1) ↔
      ∃ es, given = .object es ∧ Entries.get es name ≠ some .null := by
  cases given with
  | object es =>
    obtain rfl := Json.object.inj h
    have htarget : name ∈ (entriesOf (serializeMap (FeatureWeight.serialize f) d)).map (·.1) := by
      show name ∈ (d.map fun p => (p.1, FeatureWeight.serialize f p.2)).map (·.1)
      rw [names_serializeMap]
      exact hname
    rw [mem_mergeEntries hp.sorted.nodup htarget]
    constructor
    · intro hne
      exact ⟨es, rfl, hne⟩
    · rintro ⟨es', hes, hne⟩
      obtain rfl := Json.object.inj hes
      exact hne
  | _ => cases h

/-- The weights of a training whose fields are patched. -/
theorem TrainingSettings.weight_iff {d t : TrainingSettings F} {patch : Json} (hp : Orderly patch)
    (h : TrainingSettings.deserialize f (mergePatch (d.serialize f) patch) = some t)
    {name : String} (hname : name ∈ d.featureWeights.map (·.1)) :
    name ∈ t.featureWeights.map (·.1) ↔ ¬ TrainingErases patch name := by
  obtain ⟨get, w, hget, hw, hmap⟩ := TrainingSettings.of_deserialize h
  obtain ⟨weights, rfl, hnames⟩ := names_of_map hmap
  rw [hnames]
  cases patch with
  | object fields =>
    have hmerge : mergePatch (d.serialize f) (.object fields) =
        .object (mergeEntries (d.entries f) fields) := rfl
    rw [hmerge] at hget
    have hdefault : Entries.get (d.entries f) "featureWeights" =
        some (serializeMap (FeatureWeight.serialize f) d.featureWeights) := rfl
    rw [get_of_fieldsOnly hget, get_mergeEntries hp.sorted.nodup, hdefault] at hw
    rcases hgiven : Entries.get fields "featureWeights" with _ | given
    · rw [hgiven] at hw
      obtain rfl := Json.object.inj (Option.some.inj hw)
      rw [names_serializeMap]
      refine iff_of_true hname ?_
      rw [trainingErases_object, hgiven]
      rintro ⟨_, hfields, -⟩
      cases hfields
    · rw [hgiven] at hw
      dsimp only at hw
      split_ifs at hw with hnull
      rw [Option.getD_some] at hw
      rw [weight_iff_of_given (hp.of_get hgiven) (Option.some.inj hw) hname]
      rw [trainingErases_object, hgiven]
      constructor
      · rintro ⟨es, rfl, hne⟩ ⟨es', hfields, hnull⟩
        obtain rfl := Json.object.inj (Option.some.inj hfields)
        exact hne hnull
      · intro hnot
        cases given with
        | object es => exact ⟨es, rfl, fun hnull => hnot ⟨es, rfl, hnull⟩⟩
        | _ => cases Option.some.inj hw
  | array fields =>
    rw [mergePatch_of_not_object (fun es hes => by cases hes)] at hget
    rw [get_of_fieldsOnly_array hget] at hw
    have hfield : fields[fieldNames.idxOf "featureWeights"]? = some (.object weights) := hw
    rw [trainingErases_array, hfield]
    constructor
    · rintro hmem ⟨weights', hfields, hnot⟩
      obtain rfl := Json.object.inj (Option.some.inj hfields)
      exact hnot hmem
    · intro hnot
      by_contra hmem
      exact hnot ⟨weights, rfl, hmem⟩
  | _ => cases hget

theorem deserialize_of_withOverrides {defaults settings : Settings F} {patch : List (String × Json)}
    (h : withOverrides f defaults (some (.object patch)) = .ok settings) :
    Settings.deserialize f (.object (mergeEntries (defaults.entries f) patch)) = some settings := by
  have hmerge : mergePatch (.object (defaults.entries f)) (.object patch) =
      .object (mergeEntries (defaults.entries f) patch) := rfl
  rw [withOverrides, hmerge] at h
  rcases hread : Settings.deserialize f (.object (mergeEntries (defaults.entries f) patch)) with
    _ | s
  · rw [hread] at h
    cases h
  · rw [hread] at h
    dsimp only at h
    rcases hcheck : s.check f with e | u
    · rw [hcheck] at h
      cases h
    · rw [hcheck] at h
      exact congrArg some (Except.ok.inj h)

/-- **A default weight** is there after the overrides exactly when they do not erase it. -/
theorem weight_iff {defaults settings : Settings F} {overrides : Option Json}
    (hp : ∀ v ∈ overrides, Orderly v) (h : withOverrides f defaults overrides = .ok settings)
    {name : String} (hname : name ∈ defaults.training.featureWeights.map (·.1)) :
    name ∈ settings.training.featureWeights.map (·.1) ↔ ¬ Erases overrides name := by
  rcases overrides with _ | overrides
  · obtain rfl := Except.ok.inj h
    refine iff_of_true hname ?_
    rintro ⟨_, _, hpatch, -⟩
    cases hpatch
  cases overrides with
  | object patch =>
    have hpatch := hp (.object patch) rfl
    obtain ⟨get, t, hget, ht, hread⟩ := Settings.of_deserialize (deserialize_of_withOverrides h)
    have hdefault : Entries.get (defaults.entries f) "training" =
        some (defaults.training.serialize f) := rfl
    rw [get_of_fieldsOnly hget, get_mergeEntries hpatch.sorted.nodup, hdefault] at ht
    rcases hgiven : Entries.get patch "training" with _ | given
    · rw [hgiven] at ht
      obtain rfl := Option.some.inj ht
      -- the default training is the one that an empty patch leaves
      have hempty : mergePatch (defaults.training.serialize f) (.object []) =
          defaults.training.serialize f := rfl
      have hnil : Orderly (.object []) :=
        Orderly.object List.Pairwise.nil fun p hp => absurd hp List.not_mem_nil
      rw [TrainingSettings.weight_iff hnil (hempty.symm ▸ hread) hname, trainingErases_object,
        erases_object, hgiven]
      refine not_congr (iff_of_false ?_ ?_)
      · rintro ⟨_, hfields, -⟩
        cases hfields
      · rintro ⟨_, htraining, -⟩
        cases htraining
    · rw [hgiven] at ht
      dsimp only at ht
      split_ifs at ht
      obtain rfl := Option.some.inj ht
      rw [TrainingSettings.weight_iff (hpatch.of_get hgiven) hread hname, erases_object, hgiven]
      refine not_congr ⟨fun herases => ⟨given, rfl, herases⟩, ?_⟩
      rintro ⟨training, htraining, herases⟩
      obtain rfl := Option.some.inj htraining
      exact herases
  | _ => cases h

end

end StudioWorker.WakeWord
