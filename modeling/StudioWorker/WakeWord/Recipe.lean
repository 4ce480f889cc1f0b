import StudioWorker.WakeWord.Settings

/-!
# WakeWord.Recipe — the datasets, languages and default settings of a training
(`src/wake_word/recipe.rs`)

A download is its name and its role: where it comes from and what it weighs is left out.

* `datasets`, `weightedSets`: what a training reads, and the sets whose weights it needs.
* `defaultSettings`: they name a weight for each of them (`weighted_of_datasets`).
-/

namespace StudioWorker.WakeWord

open Lib

/-- What a download is for, and so how the trainer prepares it. -/
inductive Role (F : Type) where
  | negativeFeatures
  | backgroundAudio (kind : String)
  | impulseResponses
  /-- A `group` of sets, each in its `split`; with the hours that checkpoints are weighed on. -/
  | speech (group split : String) (selectionHours : Option F)
  | generator

structure Download (F : Type) where
  name : String
  role : Role F

section

variable {F : Type} (f : F64 F)

def selectionHours : F := f.literal 3.2

/-- Every dataset a training reads. -/
def datasets : List (Download F) :=
  [⟨"speech", .negativeFeatures⟩, ⟨"dinner_party", .negativeFeatures⟩,
    ⟨"no_speech", .negativeFeatures⟩, ⟨"dinner_party_eval", .negativeFeatures⟩,
    ⟨"audioset", .backgroundAudio "parquet"⟩, ⟨"fma", .backgroundAudio "zip"⟩,
    ⟨"mit-rirs", .impulseResponses⟩, ⟨"mls-dutch-9h", .speech "mls-dutch" "training" none⟩,
    ⟨"mls-dutch-train-00", .speech "mls-dutch" "training" none⟩,
    ⟨"mls-dutch-train-24", .speech "mls-dutch" "training" none⟩,
    ⟨"mls-dutch-dev", .speech "mls-dutch-eval" "validation_ambient" (some (selectionHours f))⟩,
    ⟨"mls-dutch-test", .speech "mls-dutch-eval" "testing_ambient" none⟩]

/-- The feature sets the training's weights must name: positives, near misses, each negative
feature set and each speech group. -/
def weightedSets (datasets : List (Download F)) : List String :=
  datasets.foldl (fun names d =>
    match d.role with
    | .negativeFeatures => names ++ [d.name]
    | .speech group _ _ => if group ∈ names then names else names ++ [group]
    | _ => names) ["positive", "nearMiss"]

end

/-! ## Languages -/

/-- A language the synthetic voices speak. -/
inductive Language where
  | en
  | nl
  | de
  | fr
deriving DecidableEq, Repr

def Language.all : List Language := [en, nl, de, fr]

def Language.code : Language → String
  | en => "en"
  | nl => "nl"
  | de => "de"
  | fr => "fr"

def Language.parse (code : String) : Option Language := all.find? fun l => l.code == code

section

variable {F : Type} (f : F64 F)

/-- How the language's voices speak by default. -/
def Language.prosody (l : Language) : Prosody F :=
  let (lengthScales, noiseScaleW) :=
    match l with
    | en => ([f.literal 0.75, f.literal 1, f.literal 1.25], f.literal 0.8)
    | nl => ([f.literal 0.6, f.literal 0.7, f.literal 0.85], f.literal 0.4)
    | de => ([f.literal 0.35, f.literal 0.45, f.literal 0.55], f.literal 0.4)
    | fr => ([f.literal 0.45, f.literal 0.55, f.literal 0.7], f.literal 0.4)
  { lengthScales, noiseScaleWs := [noiseScaleW], noiseScales := [f.literal 0.667],
    slerpWeights := [f.literal 0.5] }

/-! ## Default settings -/

def defaultWeight (sampling penalty : ℚ) : FeatureWeight F :=
  ⟨f.literal sampling, f.literal penalty⟩

def defaultWeights : Entries String (FeatureWeight F) :=
  Entries.gather [("positive", defaultWeight f 2 1), ("nearMiss", defaultWeight f 2 1),
    ("speech", defaultWeight f 10 1), ("dinner_party", defaultWeight f 10 1),
    ("no_speech", defaultWeight f 5 1), ("dinner_party_eval", defaultWeight f 0 1),
    ("mls-dutch", defaultWeight f 6 1), ("mls-dutch-eval", defaultWeight f 0 1),
    ("ownPositive", defaultWeight f 1 1), ("ownNearMiss", defaultWeight f 0.5 1),
    ("ownSpeech", defaultWeight f 0.25 1)]

/-- microWakeWord's notebook settings, with the sample counts, phases and Dutch speech of this
recipe. -/
def defaultSettings : Settings F where
  seed := 1
  deviceMemoryBudgetGib := f.literal 10
  samples :=
    { positivePerLanguage := 10000, nearMissPerPhrasePerLanguage := 1000, batchSize := 32 }
  prosody := Entries.gather (Language.all.map fun l => (l.code, l.prosody f))
  augmentation :=
    { durationSeconds := f.literal 3.2
      backgroundMinSnrDb := f.literal (-5)
      backgroundMaxSnrDb := f.literal 10
      minJitterSeconds := f.literal 0.195
      maxJitterSeconds := f.literal 0.205
      probabilities := Entries.gather [("SevenBandParametricEQ", f.literal 0.1),
        ("TanhDistortion", f.literal 0.1), ("PitchShift", f.literal 0.1),
        ("BandStopFilter", f.literal 0.1), ("AddColorNoise", f.literal 0.1),
        ("AddBackgroundNoise", f.literal 0.75), ("Gain", f.literal 1), ("RIR", f.literal 0.5)] }
  features := { positiveRepetitions := 2, nearMissRepetitions := 1, ownVoiceRepetitions := 40 }
  training :=
    { steps := [10000, 5000]
      learningRates := [f.literal 0.001, f.literal 0.0001]
      positiveClassWeight := [f.literal 1, f.literal 1]
      negativeClassWeight := [f.literal 20, f.literal 20]
      timeMaskMaxSize := [0, 0]
      timeMaskCount := [0, 0]
      freqMaskMaxSize := [0, 0]
      freqMaskCount := [0, 0]
      batchSize := 128
      evalStepInterval := 500
      clipDurationMs := 1500
      targetMinimization := f.literal 0.9
      minimizationMetric := none
      maximizationMetric := "average_viable_recall"
      featureWeights := defaultWeights f
      model :=
        { pointwiseFilters := "64,64,64,64"
          repeatInBlock := "1, 1, 1, 1"
          mixconvKernelSizes := "[5], [7,11], [9,15], [23]"
          residualConnection := "0,0,0,0"
          firstConvFilters := 32
          firstConvKernelSize := 5
          stride := 3 } }
  evaluation := { slidingWindow := 5, cooldownSlices := 25, cutoffStep := f.literal 0.01 }

variable {f}

theorem weightedSets_datasets : weightedSets (datasets f) = ["positive", "nearMiss", "speech",
    "dinner_party", "no_speech", "dinner_party_eval", "mls-dutch", "mls-dutch-eval"] := by
  simp [weightedSets, datasets]

theorem defaultSettings_weights :
    (defaultSettings f).training.featureWeights = defaultWeights f := by
  rw [defaultSettings]

theorem mem_defaultWeights {name : String} : name ∈ (defaultWeights f).map (·.1) ↔
    name ∈ weightedSets (datasets f) ∨ name ∈ ["ownPositive", "ownNearMiss", "ownSpeech"] := by
  rw [defaultWeights, Entries.mem_gather, weightedSets_datasets, ← List.mem_append]
  rfl

end

end StudioWorker.WakeWord
