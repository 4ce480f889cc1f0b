import Mathlib.Algebra.Order.Ring.Rat
import Mathlib.Data.List.Dedup
import Mathlib.Data.List.Sort
import StudioWorker.WakeWord.Request

/-!
# WakeWord.Weights — the feature sets a training looks up (`src/wake_word/trainer.rs`,
`python/wakeword/train.py`)

Of `request.json` only what the training's feature sets are made of is kept.

* `requestJson`, `featureSets`: what the worker hands the trainer, and what the trainer makes of it.
* `Needs`: the sets whose weights a training of a body takes.
* `feature_sets_iff`: every look-up finds a weight exactly when the overrides erase none of them.
-/

namespace StudioWorker.WakeWord

open Lib Lib.Json Lib.Fallible Text

/-! ## `request.json` -/

/-- A set of speech features, as the trainer reads it. -/
structure Speech (F : Type) where
  group : String
  split : String
  selectionHours : Option F

structure TrainerRequest (F : Type) where
  workDir : Text
  root : Text
  /-- Each near miss with its slug. -/
  negatives : List (Text × Text)
  negativeFeatures : List String
  speech : List (Speech F)
  settings : Settings F
  /-- Whether the operator's takes are part of it. -/
  ownVoice : Bool

section

variable {F : Type}

def negativeFeatureOf (d : Download F) : Option String :=
  match d.role with
  | .negativeFeatures => some d.name
  | _ => none

def speechOf (d : Download F) : Option (Speech F) :=
  match d.role with
  | .speech group split selectionHours => some ⟨group, split, selectionHours⟩
  | _ => none

/-- What the stages read of a request. -/
def requestJson (u : Library) (spec : TrainingSpec F) (root runDir : Text)
    (datasets : List (Download F)) (ownVoice : Bool) : TrainerRequest F where
  workDir := runDir
  root := root
  negatives := spec.negatives.map fun text => (text, slug u text)
  negativeFeatures := datasets.filterMap negativeFeatureOf
  speech := datasets.filterMap speechOf
  settings := spec.settings
  ownVoice := ownVoice

/-! ## The trainer -/

/-- `os.path.join` -/
def joinPath (a b : Text) : Text :=
  if b.head? = some '/' then b
  else if a = [] ∨ a.getLast? = some '/' then a ++ b
  else a ++ '/' :: b

/-- One call of `feature_set`. -/
structure LookUp where
  featuresDir : Text
  name : String
  truth : Bool
  truncation : Option String

/-- A feature set of upstream's configuration. -/
structure FeatureSet (F : Type) where
  featuresDir : Text
  truth : Bool
  truncationStrategy : String
  samplingWeight : F
  penaltyWeight : F

/-- The error is the missing key. -/
def featureSet (f : F64 F) (weights : Entries String (FeatureWeight F)) (l : LookUp) :
    Except String (FeatureSet F) :=
  match weights.get l.name with
  | none => .error l.name
  | some weight => .ok
    { featuresDir := l.featuresDir
      truth := l.truth
      truncationStrategy :=
        l.truncation.getD (if f.isZero weight.samplingWeight then "split" else "random")
      samplingWeight := weight.samplingWeight
      penaltyWeight := weight.penaltyWeight }

/-- The groups of the sets that satisfy `p`, each once and in order. -/
def groups (p : Speech F → Bool) (speech : List (Speech F)) : List String :=
  (((speech.filter p).map Speech.group).dedup).insertionSort (· ≤ ·)

/-- The operator's own takes: their directory, name, truth and truncation. -/
def ownSets : List (String × String × Bool × String) :=
  [("own_positive", "ownPositive", true, "truncate_start"),
    ("own_near_miss", "ownNearMiss", false, "truncate_start"),
    ("own_speech", "ownSpeech", false, "random")]

/-- A directory of the features stage. -/
def featuresDir (workDir : Text) (name : String) : Text :=
  joinPath (joinPath workDir "features".toList) name.toList

/-- The operator's sets that are there. -/
def ownSetsOf (ownVoice : Bool) (workDir : Text) (isDir : Text → Bool) :
    List (String × String × Bool × String) :=
  ownSets.filter fun o => ownVoice && isDir (featuresDir workDir o.1)

/-- What `_feature_sets` looks up, in order. -/
def lookUps (r : TrainerRequest F) (isDir : Text → Bool) : List LookUp :=
  [⟨featuresDir r.workDir "positive", "positive", true, some "truncate_start"⟩] ++
  (if r.negatives.isEmpty then []
    else [⟨featuresDir r.workDir "near_miss", "nearMiss", false, some "truncate_start"⟩]) ++
  (r.negativeFeatures.map fun name =>
    ⟨joinPath (joinPath r.root "negative-features".toList) name.toList, name, false, none⟩) ++
  ((groups (fun s => s.split == "training") r.speech).map fun group =>
    ⟨joinPath r.root (group.toList ++ "-features".toList), group, false, none⟩) ++
  ((groups (fun s => s.selectionHours.isSome) r.speech).map fun group =>
    ⟨joinPath r.root (group.toList ++ "-select-features".toList), group, false, none⟩) ++
  ((ownSetsOf r.ownVoice r.workDir isDir).map fun o =>
    ⟨featuresDir r.workDir o.1, o.2.1, o.2.2.1, some o.2.2.2⟩)

/-- `_feature_sets` -/
def featureSets (f : F64 F) (r : TrainerRequest F) (isDir : Text → Bool) :
    Except String (List (FeatureSet F)) :=
  (lookUps r isDir).mapM (featureSet f r.settings.training.featureWeights)

/-- The sets whose weights a training takes: those of the recipe, near misses where the body names
some, and the operator's own that are there. -/
def Needs (f : F64 F) (body : Body F) (own : List (String × String × Bool × String))
    (name : String) : Prop :=
  (name ∈ weightedSets (datasets f) ∧ (name = "nearMiss" → body.negatives.getD [] ≠ [])) ∨
    name ∈ own.map fun o => o.2.1

/-! ## What is looked up -/

theorem featureSet_ok_iff {f : F64 F} {weights : Entries String (FeatureWeight F)} {l : LookUp} :
    (∃ s, featureSet f weights l = .ok s) ↔ l.name ∈ weights.map (·.1) := by
  rw [Entries.mem_map_iff, featureSet]
  rcases weights.get l.name with _ | weight
  · simp
  · simp

/-- The trainer makes its sets exactly when each look-up finds a weight. -/
theorem featureSets_ok_iff {f : F64 F} {r : TrainerRequest F} {isDir : Text → Bool} :
    (∃ sets, featureSets f r isDir = .ok sets) ↔
      ∀ l ∈ lookUps r isDir, l.name ∈ r.settings.training.featureWeights.map (·.1) := by
  rw [featureSets, mapM_ok_iff]
  simp only [featureSet_ok_iff]

theorem mem_groups {p : Speech F → Bool} {speech : List (Speech F)} {group : String} :
    group ∈ groups p speech ↔ ∃ s ∈ speech, p s = true ∧ s.group = group := by
  rw [groups, (List.perm_insertionSort _ _).mem_iff, List.mem_dedup, List.mem_map]
  simp only [List.mem_filter, and_assoc]

theorem mem_lookUps {r : TrainerRequest F} {isDir : Text → Bool} {name : String} :
    name ∈ (lookUps r isDir).map LookUp.name ↔
      name = "positive" ∨ (r.negatives ≠ [] ∧ name = "nearMiss") ∨ name ∈ r.negativeFeatures ∨
        name ∈ groups (fun s => s.split == "training") r.speech ∨
        name ∈ groups (fun s => s.selectionHours.isSome) r.speech ∨
        name ∈ (ownSetsOf r.ownVoice r.workDir isDir).map fun o => o.2.1 := by
  have hnear : name ∈ (if r.negatives.isEmpty then ([] : List LookUp)
      else [⟨featuresDir r.workDir "near_miss", "nearMiss", false, some "truncate_start"⟩]).map
        LookUp.name ↔ r.negatives ≠ [] ∧ name = "nearMiss" := by
    rcases r.negatives with _ | ⟨n, ns⟩
    · simp
    · simp
  simp only [lookUps, List.map_append, List.mem_append, List.map_map, List.map_cons, List.map_nil,
    List.mem_singleton, hnear, or_assoc]
  simp only [Function.comp_def, List.map_id']

theorem speech_datasets (f : F64 F) : (datasets f).filterMap speechOf =
    [⟨"mls-dutch", "training", none⟩, ⟨"mls-dutch", "training", none⟩,
      ⟨"mls-dutch", "training", none⟩,
      ⟨"mls-dutch-eval", "validation_ambient", some (selectionHours f)⟩,
      ⟨"mls-dutch-eval", "testing_ambient", none⟩] := rfl

theorem groups_training {f : F64 F} {group : String} :
    group ∈ groups (fun s => s.split == "training") ((datasets f).filterMap speechOf) ↔
      group = "mls-dutch" := by
  rw [mem_groups, speech_datasets, eq_comm (a := group)]
  simp

theorem groups_selection {f : F64 F} {group : String} :
    group ∈ groups (fun s => s.selectionHours.isSome) ((datasets f).filterMap speechOf) ↔
      group = "mls-dutch-eval" := by
  rw [mem_groups, speech_datasets, eq_comm (a := group)]
  simp

/-- The names that are looked up are those that a training of the body needs. -/
theorem mem_lookUps_iff {f : F64 F} {u : Library} {body : Body F} {spec : TrainingSpec F}
    (hnegatives : spec.negatives.length = (body.negatives.getD []).length) (root runDir : Text)
    (ownVoice : Bool) (isDir : Text → Bool) {name : String} :
    name ∈ (lookUps (requestJson u spec root runDir (datasets f) ownVoice) isDir).map LookUp.name ↔
      Needs f body (ownSetsOf ownVoice runDir isDir) name := by
  have hnear : (spec.negatives.map fun text => (text, slug u text)) ≠ [] ↔
      body.negatives.getD [] ≠ [] := by
    rw [← List.length_pos_iff, ← List.length_pos_iff, List.length_map, hnegatives]
  have hfeatures : (datasets f).filterMap negativeFeatureOf =
      ["speech", "dinner_party", "no_speech", "dinner_party_eval"] := rfl
  rw [mem_lookUps]
  show name = "positive" ∨ ((spec.negatives.map fun text => (text, slug u text)) ≠ [] ∧
      name = "nearMiss") ∨ name ∈ (datasets f).filterMap negativeFeatureOf ∨
    name ∈ groups (fun s => s.split == "training") ((datasets f).filterMap speechOf) ∨
    name ∈ groups (fun s => s.selectionHours.isSome) ((datasets f).filterMap speechOf) ∨
    name ∈ (ownSetsOf ownVoice runDir isDir).map (fun o => o.2.1) ↔ _
  rw [hnear, hfeatures, groups_training, groups_selection, Needs, weightedSets_datasets]
  constructor
  · rintro (rfl | ⟨hne, rfl⟩ | hmem | rfl | rfl | hown)
    · exact Or.inl ⟨by decide, fun h => absurd h (by decide)⟩
    · exact Or.inl ⟨by decide, fun _ => hne⟩
    · refine Or.inl ⟨?_, fun h => ?_⟩
      · simp only [List.mem_cons] at hmem ⊢
        tauto
      · rw [h] at hmem
        exact absurd hmem (by decide)
    · exact Or.inl ⟨by decide, fun h => absurd h (by decide)⟩
    · exact Or.inl ⟨by decide, fun h => absurd h (by decide)⟩
    · exact Or.inr hown
  · rintro (⟨hmem, hne⟩ | hown)
    · simp only [List.mem_cons, List.not_mem_nil, or_false] at hmem ⊢
      rcases hmem with h | h | h | h | h | h | h | h
      · exact Or.inl h
      · exact Or.inr (Or.inl ⟨hne h, h⟩)
      all_goals simp [h]
    · simp only [hown, or_true]

/-- A set that a training needs has a weight by default. -/
theorem Needs.mem_defaultWeights {f : F64 F} {body : Body F} {ownVoice : Bool} {workDir : Text}
    {isDir : Text → Bool} {name : String}
    (h : Needs f body (ownSetsOf ownVoice workDir isDir) name) :
    name ∈ (defaultSettings f).training.featureWeights.map (·.1) := by
  rw [defaultSettings_weights, WakeWord.mem_defaultWeights]
  rcases h with ⟨hmem, -⟩ | hown
  · exact Or.inl hmem
  · obtain ⟨o, ho, rfl⟩ := List.mem_map.mp hown
    have hnames : ownSets.map (fun o => o.2.1) = ["ownPositive", "ownNearMiss", "ownSpeech"] := rfl
    rw [← hnames]
    exact Or.inr (List.mem_map_of_mem (List.mem_of_mem_filter ho))

/-- The body of a spec, and what it says of the spec. -/
theorem of_parse {f : F64 F} {u : Library} {v : Json} {spec : TrainingSpec F}
    (h : parse f u v = .ok spec) :
    ∃ body, Body.deserialize f v = some body ∧ body.check f u = .ok spec := by
  unfold parse at h
  split_ifs at h
  rcases hbody : Body.deserialize f v with _ | body
  · rw [hbody] at h
    cases h
  · rw [hbody] at h
    exact ⟨body, rfl, h⟩

/-- The trainer finds every weight it looks up exactly when the overrides of the body erase none of
the weights that a training of it needs. -/
theorem feature_sets_iff {f : F64 F} {u : Library} {v : Json} {spec : TrainingSpec F}
    (h : parse f u v = .ok spec) (root runDir : Text) (ownVoice : Bool) (isDir : Text → Bool) :
    ∃ body, Body.deserialize f v = some body ∧
      ((∃ sets, featureSets f (requestJson u spec root runDir (datasets f) ownVoice) isDir =
        .ok sets) ↔
        ∀ name, Needs f body (ownSetsOf ownVoice runDir isDir) name →
          ¬ Erases body.settings name) := by
  obtain ⟨body, hbody, hcheck⟩ := of_parse h
  obtain ⟨hnegatives, hsettings⟩ := Body.of_check hcheck
  refine ⟨body, hbody, ?_⟩
  have hweight : ∀ name, Needs f body (ownSetsOf ownVoice runDir isDir) name →
      (name ∈ spec.settings.training.featureWeights.map (·.1) ↔ ¬ Erases body.settings name) :=
    fun name hname => weight_iff (Body.settings_orderly hbody) hsettings hname.mem_defaultWeights
  rw [featureSets_ok_iff]
  constructor
  · intro hall name hname
    obtain ⟨l, hl, rfl⟩ :=
      List.mem_map.mp ((mem_lookUps_iff hnegatives root runDir ownVoice isDir).mpr hname)
    exact (hweight l.name hname).mp (hall l hl)
  · intro hkept l hl
    have hname := (mem_lookUps_iff hnegatives root runDir ownVoice isDir).mp
      (List.mem_map_of_mem hl)
    exact (hweight l.name hname).mpr (hkept l.name hname)

end

/-! ## A weight that is nulled -/

/-- Rationals, where every number of the recipe is exact. -/
def rationals : F64 ℚ where
  literal := id
  read n := some n.value
  write q := some (.dec q)
  isFinite _ := true
  isZero q := decide (q = 0)
  lt a b := decide (a < b)
  sub a b := a - b
  div a b := a / b
  abs q := if q < 0 then -q else q
  round q := if q < 0 then -((1 / 2 - q).floor : ℚ) else ((q + 1 / 2).floor : ℚ)
  display q := s!"{q}"

/-- The tables for ASCII texts. -/
def ascii : Library where
  isAlphabetic := Char.isAlpha
  toLowercase t := t.map Char.toLower
  toUppercase c := [c.toUpper]
  debugChar c := s!"{repr c}"
  debug t := s!"{repr (String.ofList t)}"
  urlScheme t := (Lib.Search.splitOnce [':'] t).map (·.1)

def bareBody : Json := .object [("phrase", .string "hey runa")]

theorem feature_sets_iff_bareBody :
    ∃ spec, parse rationals ascii bareBody = .ok spec ∧
      ∀ (root runDir : Text) (ownVoice : Bool) (isDir : Text → Bool),
        ∃ body, Body.deserialize rationals bareBody = some body ∧
          ((∃ sets, featureSets rationals
              (requestJson ascii spec root runDir (datasets rationals) ownVoice) isDir =
                .ok sets) ↔
            ∀ name, Needs rationals body (ownSetsOf ownVoice runDir isDir) name →
              ¬ Erases body.settings name) := by
  obtain ⟨spec, h⟩ := exists_of_toBool
    (by decide +kernel : (parse rationals ascii bareBody).toBool = true)
  exact ⟨spec, h, fun root runDir ownVoice isDir => feature_sets_iff h root runDir ownVoice isDir⟩

def nulledOverrides : Json :=
  .object [("training", .object [("featureWeights", .object [("positive", .null)])])]

def nulledBody : Json := .object [("phrase", .string "hey runa"), ("settings", nulledOverrides)]

/-- A body whose overrides remove the positives' weight is accepted, and its training fails. -/
theorem nulled_weight_is_accepted :
    ¬ ∀ (F : Type) (f : F64 F) (u : Library) (v : Json) (spec : TrainingSpec F),
      parse f u v = .ok spec → ∀ (root runDir : Text) (ownVoice : Bool) (isDir : Text → Bool),
        ∃ sets, featureSets f (requestJson u spec root runDir (datasets f) ownVoice) isDir =
          .ok sets := by
  intro hall
  obtain ⟨spec, h⟩ := exists_of_toBool
    (by decide +kernel : (parse rationals ascii nulledBody).toBool = true)
  obtain ⟨body, hbody, hcheck⟩ := of_parse h
  obtain ⟨-, hsettings⟩ := Body.of_check hcheck
  have hgiven : body.settings = some nulledOverrides := by
    have hread : (Body.deserialize rationals nulledBody).map (·.settings) =
      some (some nulledOverrides) := rfl
    rw [hbody] at hread
    exact Option.some.inj hread
  have hsets := featureSets_ok_iff.mp (hall ℚ rationals ascii nulledBody spec h [] [] false
    fun _ => false)
  have hpositive : "positive" ∈ spec.settings.training.featureWeights.map (·.1) :=
    hsets ⟨featuresDir [] "positive", "positive", true, some "truncate_start"⟩ List.mem_cons_self
  have hdefault : "positive" ∈ (defaultSettings rationals).training.featureWeights.map (·.1) := by
    rw [defaultSettings_weights, mem_defaultWeights, weightedSets_datasets]
    exact Or.inl List.mem_cons_self
  have hkept := (weight_iff (Body.settings_orderly hbody) hsettings hdefault).mp hpositive
  rw [hgiven] at hkept
  exact hkept ⟨_, _, rfl, rfl, Or.inl ⟨_, _, rfl, rfl, rfl⟩⟩

end StudioWorker.WakeWord
