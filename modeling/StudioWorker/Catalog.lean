import Mathlib.Data.Rat.Defs

/-!
# Catalog — the local model catalogue (`src/catalog.rs`, `src/types.rs`)

`F` is the type of a `f32`: exact rationals, but where the catalogue file is about.
-/

namespace StudioWorker

inductive TaskKind where
  | image
  | llm
  | audioStt
  | audioTts
  | video
  | mesh
  | vision
  | wakeWord
  | modelConvert
deriving DecidableEq, Repr

inductive ModelFileRole where
  | diffusionModel
  | textEncoder
  | textEncoderVision
  | vae
  | lora
  | model
  | labels
deriving DecidableEq, Repr

inductive ModelEngine where
  | sdCpp
  | llamaCpp
  | onnx
  | parakeet
  | onnxVision
  | torch
  | convert
  | synthetic
deriving DecidableEq, Repr

/-- One file of a model source. -/
structure ModelFile where
  role : ModelFileRole
  url : String
  filename : String
  approxBytes : Option ℕ := none
  sha256 : Option String := none
deriving DecidableEq, Repr

inductive VisionTask where
  | detect
  | classify
deriving DecidableEq, Repr

/-- The knobs of a vision model. -/
structure VisionDefaults (F : Type := ℚ) where
  task : VisionTask
  labels : List String := []
  animalLabels : Option (List String) := none
  mean : Option (F × F × F) := none
  std : Option (F × F × F) := none
  probabilities : Option Bool := none
  minConfidence : Option F := none
  iou : Option F := none
  topK : Option ℕ := none
  channelsLast : Option Bool := none
  cropMargin : Option F := none
deriving DecidableEq, Repr

/-- The engine options of a model.  Admission reads `offloadToCpu` and `mmap`; the mirroring of an
offer compares them all.  A JSON object is its canonical text. -/
structure ModelCliDefaults (F : Type := ℚ) where
  cfgScale : F := by exact 0
  steps : ℕ := 0
  width : ℕ := 0
  height : ℕ := 0
  samplingMethod : Option String := none
  flowShift : Option F := none
  zeroCondT : Option Bool := none
  offloadToCpu : Option Bool := none
  contextSize : Option ℕ := none
  chatTemplateKwargs : Option String := none
  mmap : Option Bool := none
  maxVramGib : Option F := none
  loraWeight : Option F := none
  vision : Option (VisionDefaults F) := none
  pipeline : Option String := none
  resolution : Option ℕ := none
  lowVram : Option Bool := none
  decimationTarget : Option ℕ := none
  textureSize : Option ℕ := none
deriving DecidableEq, Repr

/-- Where a model's files come from and how its engine runs them. -/
structure ModelSource (F : Type := ℚ) where
  engine : ModelEngine
  files : List ModelFile
  cliDefaults : ModelCliDefaults F
deriving DecidableEq, Repr

/-- One catalogue entry. -/
structure CatalogModel (F : Type := ℚ) where
  id : String
  displayName : String
  kind : TaskKind
  /-- Device memory the model needs, in GiB. -/
  vramGbEstimate : F := by exact 0
  description : Option String := none
  source : ModelSource F
  enabled : Bool := true
  /-- `"local"`, or `"studio"` for an entry mirrored from an offer. -/
  origin : String := "local"
  /-- Models sharing a group are loaded one at a time. -/
  exclusiveGroup : Option String := none
deriving DecidableEq, Repr

/-- A collection of locally available models. -/
structure Catalog (F : Type := ℚ) where
  models : List (CatalogModel F)
  /-- Seed ids the operator deleted. -/
  dismissedSeeds : List String := []
deriving DecidableEq, Repr

namespace Catalog

variable {F : Type}

/-- Look up a model by id: the first entry carrying it. -/
def get (c : Catalog F) (id : String) : Option (CatalogModel F) :=
  c.models.find? fun m => m.id == id

/-- Replace the first entry of the model's id, or add it at the end. -/
def upsertModels (model : CatalogModel F) : List (CatalogModel F) → List (CatalogModel F)
  | [] => [model]
  | m :: ms => if m.id = model.id then model :: ms else m :: upsertModels model ms

/-- Insert a model, replacing any existing entry with the same id. -/
def upsert (c : Catalog F) (model : CatalogModel F) : Catalog F where
  models := upsertModels model c.models
  dismissedSeeds := c.dismissedSeeds.filter fun d => d ≠ model.id

/-- Remove a model by id; `seeds` are the ids the worker ships seeded with.  Returns whether it
existed. -/
def remove (c : Catalog F) (seeds : List String) (id : String) : Catalog F × Bool :=
  let models := c.models.filter fun m => m.id ≠ id
  let removed : Bool := models.length ≠ c.models.length
  let dismiss : Bool := removed && id ∈ seeds && id ∉ c.dismissedSeeds
  (⟨models, if dismiss then c.dismissedSeeds ++ [id] else c.dismissedSeeds⟩, removed)

/-- Mirror a model seen on a studio offer.  An entry the operator owns is never overwritten, an
equal one is left alone.  Returns whether the catalogue changed. -/
def syncStudioModel [DecidableEq F] (c : Catalog F) (incoming : CatalogModel F) :
    Catalog F × Bool :=
  match c.get incoming.id with
  | some existing =>
    if existing.origin = "local" then (c, false)
    else if existing = incoming then (c, false)
    else ({ c with models := upsertModels incoming c.models }, true)
  | none => ({ c with models := c.models ++ [incoming] }, true)

/-- The entry an offer of `source` is mirrored as. -/
def mirrored [Zero F] (modelId : String) (kind : TaskKind) (source : ModelSource F) :
    CatalogModel F where
  id := modelId
  displayName := modelId
  kind := kind
  vramGbEstimate := 0
  description := none
  source := source
  enabled := true
  origin := "studio"
  exclusiveGroup := none

/-- A mirror that reports no change made none. -/
theorem syncStudioModel_unchanged [DecidableEq F] {c : Catalog F} {incoming : CatalogModel F}
    (h : (c.syncStudioModel incoming).2 = false) : (c.syncStudioModel incoming).1 = c := by
  unfold syncStudioModel at h ⊢
  cases hg : c.get incoming.id with
  | none =>
    rw [hg] at h
    cases h
  | some existing =>
    rw [hg] at h
    dsimp only at h ⊢
    split_ifs at h ⊢ <;> rfl

theorem get_id {c : Catalog F} {id : String} {m : CatalogModel F} (h : c.get id = some m) :
    m.id = id := by
  simpa using List.find?_some h

theorem get_mem {c : Catalog F} {id : String} {m : CatalogModel F} (h : c.get id = some m) :
    m ∈ c.models := List.mem_of_find?_eq_some h

/-- An id is in the catalogue when some entry carries it. -/
theorem get_isSome {c : Catalog F} {id : String} :
    (c.get id).isSome = true ↔ ∃ m ∈ c.models, m.id = id := by
  simp [get, List.find?_isSome]

theorem mem_upsertModels (model : CatalogModel F) {m : CatalogModel F} {ms : List (CatalogModel F)}
    (h : m ∈ ms) :
    ∃ m' ∈ upsertModels model ms, m'.id = m.id := by
  induction ms with
  | nil => simp at h
  | cons a ms ih =>
    unfold upsertModels
    by_cases ha : a.id = model.id
    · rw [if_pos ha]
      rcases List.mem_cons.mp h with rfl | h
      · exact ⟨model, List.mem_cons_self, ha.symm⟩
      · exact ⟨m, List.mem_cons_of_mem _ h, rfl⟩
    · rw [if_neg ha]
      rcases List.mem_cons.mp h with rfl | h
      · exact ⟨m, List.mem_cons_self, rfl⟩
      · obtain ⟨m', h1, h2⟩ := ih h
        exact ⟨m', List.mem_cons_of_mem _ h1, h2⟩

/-- The entries after an upsert are the model and entries there were. -/
theorem of_mem_upsertModels {model m : CatalogModel F} {ms : List (CatalogModel F)}
    (h : m ∈ upsertModels model ms) : m = model ∨ m ∈ ms := by
  induction ms with
  | nil => exact .inl (List.mem_singleton.mp h)
  | cons a ms ih =>
    unfold upsertModels at h
    by_cases ha : a.id = model.id
    · rw [if_pos ha] at h
      exact (List.mem_cons.mp h).imp_right (List.mem_cons_of_mem _)
    · rw [if_neg ha] at h
      rcases List.mem_cons.mp h with rfl | h
      · exact .inr List.mem_cons_self
      · exact (ih h).imp_right (List.mem_cons_of_mem _)

theorem self_mem_upsertModels (model : CatalogModel F) (ms : List (CatalogModel F)) :
    model ∈ upsertModels model ms := by
  induction ms with
  | nil => exact List.mem_singleton_self _
  | cons a ms ih =>
    unfold upsertModels
    split_ifs
    · exact List.mem_cons_self
    · exact List.mem_cons_of_mem _ ih

/-- An upsert adds the model's id to the ids there are. -/
theorem forall_id_upsert {P : String → Prop} {c : Catalog F} {model : CatalogModel F} :
    (∀ m ∈ (c.upsert model).models, P m.id) ↔ P model.id ∧ ∀ m ∈ c.models, P m.id := by
  constructor
  · intro h
    refine ⟨h model (self_mem_upsertModels model _), fun m hm => ?_⟩
    obtain ⟨m', hm', hid⟩ := mem_upsertModels model hm
    exact hid ▸ h m' hm'
  · rintro ⟨hmodel, h⟩ m hm
    rcases of_mem_upsertModels hm with rfl | hm
    · exact hmodel
    · exact h m hm

/-- An upsert takes no id out of the catalogue. -/
theorem get_upsert_isSome {c : Catalog F} {model : CatalogModel F} {id : String}
    (h : (c.get id).isSome = true) : ((c.upsert model).get id).isSome = true := by
  obtain ⟨m, hm, rfl⟩ := get_isSome.mp h
  obtain ⟨m', h1, h2⟩ := mem_upsertModels model hm
  exact get_isSome.mpr ⟨m', h1, h2⟩

/-- A removal takes exactly its own id out of the catalogue. -/
theorem get_remove_isSome {c : Catalog F} {seeds : List String} {id id' : String} :
    ((c.remove seeds id).1.get id').isSome = true ↔
      (c.get id').isSome = true ∧ id' ≠ id := by
  rw [get_isSome, get_isSome]
  constructor
  · rintro ⟨m, hm, rfl⟩
    obtain ⟨h1, h2⟩ := List.mem_filter.mp hm
    exact ⟨⟨m, h1, rfl⟩, by simpa using h2⟩
  · rintro ⟨⟨m, hm, rfl⟩, hne⟩
    exact ⟨m, List.mem_filter.mpr ⟨hm, by simpa using hne⟩, rfl⟩

theorem upsertModels_eq_self {model : CatalogModel F} {ms : List (CatalogModel F)} :
    upsertModels model ms = ms ↔ ms.find? (fun m => m.id == model.id) = some model := by
  induction ms with
  | nil => simp [upsertModels]
  | cons a ms ih =>
    unfold upsertModels
    by_cases ha : a.id = model.id
    · rw [if_pos ha, List.find?_cons_of_pos (by simpa using ha)]
      simp [eq_comm]
    · rw [if_neg ha, List.find?_cons_of_neg (by simpa using ha), ← ih]
      simp

/-- An upsert changes nothing exactly when the model is already there. -/
theorem upsert_eq_self {c : Catalog F} {model : CatalogModel F} :
    c.upsert model = c ↔ c.get model.id = some model ∧ model.id ∉ c.dismissedSeeds := by
  obtain ⟨models, dismissed⟩ := c
  have hdismissed : dismissed.filter (fun d => d ≠ model.id) = dismissed ↔
      model.id ∉ dismissed := by
    rw [List.filter_eq_self]
    constructor
    · intro h hmem
      simpa using h _ hmem
    · intro h d hd
      have hne : d ≠ model.id := fun heq => h (heq ▸ hd)
      simpa using hne
  simp only [upsert, get, Catalog.mk.injEq, upsertModels_eq_self, hdismissed]

/-- A removal changes nothing exactly when no entry carries the id. -/
theorem remove_eq_self {c : Catalog F} (seeds : List String) {id : String} :
    (c.remove seeds id).1 = c ↔ c.get id = none := by
  obtain ⟨models, dismissed⟩ := c
  have hget : Catalog.get ⟨models, dismissed⟩ id = none ↔ ∀ m ∈ models, m.id ≠ id := by
    simp [get, List.find?_eq_none]
  rw [hget]
  constructor
  · intro h m hm
    have hfilter : models.filter (fun m => m.id ≠ id) = models := congrArg Catalog.models h
    simpa using List.filter_eq_self.mp hfilter m hm
  · intro h
    have hfilter : models.filter (fun m => m.id ≠ id) = models := by
      simpa [List.filter_eq_self] using h
    simp only [remove, hfilter]
    simp

/-- A seed that is removed is dismissed. -/
theorem mem_dismissed_of_remove {c : Catalog F} {seeds : List String} {id : String}
    (hget : (c.get id).isSome = true) (hseed : id ∈ seeds) :
    id ∈ (c.remove seeds id).1.dismissedSeeds := by
  have hex : ∃ m ∈ c.models, m.id = id := get_isSome.mp hget
  unfold remove
  by_cases hd : id ∈ c.dismissedSeeds
  · simp [hd]
  · simp [hex, hseed, hd]

/-- A removal dismisses, and takes no dismissal back. -/
theorem mem_dismissed_remove {c : Catalog F} {seeds : List String} {id d : String}
    (hd : d ∈ c.dismissedSeeds) : d ∈ (c.remove seeds id).1.dismissedSeeds := by
  unfold remove
  dsimp only
  split_ifs
  · exact List.mem_append_left _ hd
  · exact hd

theorem upsertModels_of_find?_none {model : CatalogModel F} {ms : List (CatalogModel F)}
    (h : ms.find? (fun m => m.id == model.id) = none) : upsertModels model ms = ms ++ [model] := by
  induction ms with
  | nil => rfl
  | cons a ms ih =>
    have hne : ¬a.id = model.id := by
      intro ha
      rw [List.find?_cons_of_pos (by simpa using ha)] at h
      cases h
    rw [List.find?_cons_of_neg (by simpa using hne)] at h
    unfold upsertModels
    rw [if_neg hne, ih h, List.cons_append]

/-- A mirror leaves the catalogue or puts its model in it. -/
theorem syncStudioModel_cases [DecidableEq F] (c : Catalog F) (incoming : CatalogModel F) :
    (c.syncStudioModel incoming).1 = c ∨
      (c.syncStudioModel incoming).1 = { c with models := upsertModels incoming c.models } := by
  unfold syncStudioModel
  rcases hget : c.get incoming.id with _ | existing
  · exact .inr (by rw [upsertModels_of_find?_none hget])
  · dsimp only
    split_ifs
    · exact .inl rfl
    · exact .inl rfl
    · exact .inr rfl

/-! ## Exclusive groups -/

/-- `id` is a member of the exclusive group `g`: its entry names the group. -/
def Member (c : Catalog F) (g id : String) : Prop :=
  ∃ m, c.get id = some m ∧ m.exclusiveGroup = some g

instance (c : Catalog F) (g id : String) : Decidable (c.Member g id) :=
  decidable_of_iff ((c.get id).bind (·.exclusiveGroup) = some g) <| by
    rw [Option.bind_eq_some_iff]; rfl

/-- The other members of the exclusive group of `id`, in catalogue order. -/
def rivals (c : Catalog F) (id : String) : List String :=
  match (c.get id).bind (·.exclusiveGroup) with
  | some group =>
    (c.models.filter fun m => m.id ≠ id ∧ m.exclusiveGroup = some group).map (·.id)
  | none => []

theorem mem_rivals {c : Catalog F} {id o : String} {model : CatalogModel F}
    (hget : c.get id = some model) : o ∈ c.rivals id ↔
      o ≠ id ∧ ∃ g, model.exclusiveGroup = some g ∧
        ∃ m ∈ c.models, m.id = o ∧ m.exclusiveGroup = some g := by
  unfold rivals
  rw [hget, Option.bind_some]
  cases hg : model.exclusiveGroup with
  | none => simp
  | some g =>
    simp only [List.mem_map, List.mem_filter, decide_eq_true_eq, Option.some.injEq]
    constructor
    · rintro ⟨m, ⟨h1, h2, h3⟩, rfl⟩
      exact ⟨h2, g, rfl, m, h1, rfl, h3⟩
    · rintro ⟨h1, g', rfl, m, h2, rfl, h3⟩
      exact ⟨m, ⟨h2, h1, h3⟩, rfl⟩

end Catalog

end StudioWorker
