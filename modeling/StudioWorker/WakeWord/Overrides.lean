import StudioWorker.WakeWord.MergePatch
import StudioWorker.WakeWord.Weights

/-!
# WakeWord.Overrides — the settings that overrides do not name (`src/wake_word/settings.rs`)

Defaults that are written, patched and read back: what the patch does not touch is read as it was
written, however deep it lies.  The settings are compared as documents, whichever way their numbers
are shown.

* `Keeps`, `KeepsNew`: a reader that loses nothing of what a patch leaves.
* `IsRecord.keeps`, `keeps_map`: records and maps of such readers are such readers.
* `merge_patch_keeps`: the merge is the merge patch of RFC 7386, and settings that are not named
  keep their defaults.
-/

namespace StudioWorker.WakeWord

open Lib Lib.Json Lib.Fallible

/-! ## Readers -/

section Readers

variable {α β : Type}

/-- Written, patched and read back, `d` is shown the same wherever the patch says nothing. -/
def Keeps (read : Json → Option α) (write shown : α → Json) : Prop :=
  ∀ {d s : α} {patch : Json}, Orderly patch → read (write d) = some d →
    read (mergePatch (write d) patch) = some s →
    ∀ path, Untouched path patch → valueAt path (shown s) = valueAt path (shown d)

/-- A value that is made by a patch alone has nothing where the patch says nothing. -/
def KeepsNew (read : Json → Option α) (shown : α → Json) : Prop :=
  ∀ {s : α} {patch : Json}, Orderly patch → read (mergePatch .null patch) = some s →
    ∀ path, Untouched path patch → valueAt path (shown s) = none

/-- Objects are not read. -/
def IsLeaf (read : Json → Option α) : Prop := ∀ es, read (.object es) = none

/-- Only an object leaves something untouched. -/
theorem exists_object_of_untouched {path : List String} {patch : Json} (h : Untouched path patch) :
    ∃ es, patch = .object es := by
  cases path with
  | nil => exact h.elim
  | cons name path =>
    obtain ⟨es, hes, -⟩ := h
    exact ⟨es, hes⟩

theorem IsLeaf.keeps {read : Json → Option α} {write shown : α → Json} (h : IsLeaf read) :
    Keeps read write shown := by
  intro d s patch _ _ hs path hun
  obtain ⟨es, rfl⟩ := exists_object_of_untouched hun
  rw [mergePatch_object, h] at hs
  cases hs

theorem IsLeaf.keepsNew {read : Json → Option α} {shown : α → Json} (h : IsLeaf read) :
    KeepsNew read shown := by
  intro s patch _ hs path hun
  obtain ⟨es, rfl⟩ := exists_object_of_untouched hun
  rw [mergePatch_object, h] at hs
  cases hs

/-! ## Records -/

/-- A field of a record: what is written in its place, what it is read from, and that it is shown
the same wherever a patch says nothing. -/
structure Field (α : Type) where
  name : String
  write : α → Json
  shown : α → Json
  Reads : Option Json → α → Prop
  same : ∀ {v a b}, Reads v a → Reads v b → shown a = shown b
  patched : ∀ {d s patch}, Orderly patch → Reads (some (write d)) d →
    Reads (some (mergePatch (write d) patch)) s →
    ∀ path, Untouched path patch → valueAt path (shown s) = valueAt path (shown d)

/-- A field that must be given. -/
def Field.required (name : String) (part : α → β) (read : Json → Option β)
    (write shown : β → Json) (h : Keeps read write shown) : Field α where
  name := name
  write := fun a => write (part a)
  shown := fun a => shown (part a)
  Reads := fun v a => Json.required v read = some (part a)
  same := fun ha hb => congrArg shown (Option.some.inj (ha.symm.trans hb))
  patched := h

/-- A field that must be given, and not as an object. -/
def Field.leaf (name : String) (part : α → β) (read : Json → Option β) (write shown : β → Json)
    (h : IsLeaf read) : Field α :=
  .required name part read write shown h.keeps

/-- A field that may be left out or be `null`, and is written as `null` without a value. -/
def Field.nullable (name : String) (part : α → Option β) (read : Json → Option β)
    (write : β → Json) (h : IsLeaf read) : Field α where
  name := name
  write := fun a => ((part a).map write).getD .null
  shown := fun a => ((part a).map write).getD .null
  Reads := fun v a => Json.nullable v read = some (part a)
  same := fun ha hb =>
    congrArg (fun o => (Option.map write o).getD .null) (Option.some.inj (ha.symm.trans hb))
  patched := by
    intro d s patch _ _ hs path hun
    obtain ⟨es, rfl⟩ := exists_object_of_untouched hun
    have hread : (read (.object (mergeEntries _ es))).map some = some (part s) := hs
    rw [h] at hread
    cases hread

/-- A field that a record made by a patch alone has from the patch. -/
structure Field.KeepsNew (x : Field α) : Prop where
  given : ∀ {a}, ¬ x.Reads none a
  patched : ∀ {s patch}, Orderly patch → x.Reads (some (mergePatch .null patch)) s →
    ∀ path, Untouched path patch → valueAt path (x.shown s) = none

theorem Field.leaf_keepsNew {name : String} {part : α → β} {read : Json → Option β}
    {write shown : β → Json} (h : IsLeaf read) :
    (Field.leaf name part read write shown h).KeepsNew where
  given ha := by cases ha
  patched hp hs := IsLeaf.keepsNew h hp hs

/-- A record of these fields, in the order in which they are written. -/
structure IsRecord (fields : List (Field α)) (read : Json → Option α) (write shown : α → Json) :
    Prop where
  written : ∀ a, write a = .object (fields.map fun x => (x.name, x.write a))
  displayed : ∀ a, shown a = .object (fields.map fun x => (x.name, x.shown a))
  reads : ∀ {es a}, read (.object es) = some a → ∀ x ∈ fields, x.Reads (Entries.get es x.name) a

/-- A name is that of a field, or nothing is written for it. -/
theorem get_fields (fields : List (Field α)) (name : String) :
    (∃ x ∈ fields, x.name = name ∧ ∀ content : Field α → Json,
      Entries.get (fields.map fun x => (x.name, content x)) name = some (content x)) ∨
    ∀ content : Field α → Json,
      Entries.get (fields.map fun x => (x.name, content x)) name = none := by
  induction fields with
  | nil => exact Or.inr fun content => rfl
  | cons y fields ih =>
    by_cases hname : name = y.name
    · refine Or.inl ⟨y, List.mem_cons_self, hname.symm, fun content => ?_⟩
      rw [List.map_cons, Entries.get_cons, if_pos hname]
    · rcases ih with ⟨x, hx, rfl, hget⟩ | hnone
      · refine Or.inl ⟨x, List.mem_cons_of_mem y hx, rfl, fun content => ?_⟩
        rw [List.map_cons, Entries.get_cons, if_neg hname, hget]
      · refine Or.inr fun content => ?_
        rw [List.map_cons, Entries.get_cons, if_neg hname, hnone]

section

variable {fields : List (Field α)} {read : Json → Option α} {write shown : α → Json}

theorem IsRecord.keeps (h : IsRecord fields read write shown) : Keeps read write shown := by
  intro d s patch hp hd hs path hun
  cases path with
  | nil => exact hun.elim
  | cons name path =>
    obtain ⟨es, rfl, hes⟩ := hun
    rw [h.written] at hd hs
    rw [h.displayed, h.displayed, valueAt_object, valueAt_object]
    rcases get_fields fields name with ⟨x, hx, rfl, hget⟩ | hnone
    · have hreadd := h.reads hd x hx
      have hreads := h.reads hs x hx
      rw [hget] at hreadd
      rw [hget, hget, Option.bind_some, Option.bind_some]
      rcases get_mergeEntries_of_untouched hp hes (fields.map fun x => (x.name, x.write d)) with
        hsame | ⟨v, hv, hun, hmerge⟩
      · rw [entriesOf, hsame, hget] at hreads
        rw [x.same hreads hreadd]
      · rw [entriesOf, hmerge, hget, Option.getD_some] at hreads
        exact x.patched hv hreadd hreads path hun
    · rw [hnone, hnone]

/-- A record without fields that may be left out has only what it is given. -/
theorem IsRecord.keepsNew (h : IsRecord fields read write shown) (hk : ∀ x ∈ fields, x.KeepsNew) :
    KeepsNew read shown := by
  intro s patch hp hs path hun
  cases path with
  | nil => exact hun.elim
  | cons name path =>
    obtain ⟨es, rfl, hes⟩ := hun
    rw [h.displayed, valueAt_object]
    rcases get_fields fields name with ⟨x, hx, rfl, hget⟩ | hnone
    · have hreads := h.reads hs x hx
      rw [hget, Option.bind_some]
      rcases get_mergeEntries_of_untouched hp hes [] with hsame | ⟨v, hv, hun, hmerge⟩
      · rw [entriesOf, hsame] at hreads
        · exact absurd hreads (hk x hx).given
        · intro es hes
          cases hes
      · rw [entriesOf, hmerge] at hreads
        · exact (hk x hx).patched hv hreads path hun
        · intro es hes
          cases hes
    · rw [hnone, Option.bind_none]

end

/-! ## Maps -/

theorem get_serializeMap {m : Entries String α} {write : α → Json} {name : String} :
    Entries.get (m.map fun p => (p.1, write p.2)) name = (m.get name).map write := by
  induction m with
  | nil => rfl
  | cons p m ih =>
    rw [List.map_cons, Entries.get_cons, Entries.get_cons, ih]
    split_ifs
    · rfl
    · rfl

theorem keeps_map {read : Json → Option α} {write shown : α → Json} (h : Keeps read write shown)
    (hnew : KeepsNew read shown) :
    Keeps (Json.map read) (serializeMap write) (serializeMap shown) := by
  intro d s patch hp hd hs path hun
  cases path with
  | nil => exact hun.elim
  | cons name path =>
    obtain ⟨es, rfl, hes⟩ := hun
    have hsorted : Entries.Sorted (d.map fun p => (p.1, write p.2)) :=
      List.pairwise_map.mpr (sorted_of_map hd)
    have hreadd := get_of_map hd hsorted.nodup name
    have hreads := get_of_map hs (sorted_mergeEntries hsorted).nodup name
    rw [get_serializeMap] at hreadd
    rw [serializeMap, serializeMap, valueAt_object, valueAt_object, get_serializeMap,
      get_serializeMap]
    rcases get_mergeEntries_of_untouched hp hes (d.map fun p => (p.1, write p.2)) with
      hsame | ⟨v, hv, hun, hmerge⟩
    · have hsd : s.get name = d.get name := by
        rw [hreads, hreadd, ← get_serializeMap]
        exact congrArg (Option.bind · read) hsame
      rw [hsd]
    · have hmerged : s.get name = read (mergePatch (((d.get name).map write).getD .null) v) := by
        rw [hreads, ← get_serializeMap]
        exact congrArg (Option.bind · read) hmerge
      obtain ⟨a, ha⟩ : ∃ a, s.get name = some a := by
        obtain ⟨merged, heq, hnames⟩ := names_of_map hs
        obtain rfl := Json.object.inj heq
        exact Entries.mem_map_iff.mp ((hnames name).mpr (Entries.mem_map_iff.mpr ⟨_, hmerge⟩))
      rw [ha] at hmerged
      rw [ha, Option.map_some, Option.bind_some]
      rcases hdefault : d.get name with _ | b
      · rw [hdefault] at hmerged
        exact hnew hv hmerged.symm path hun
      · rw [hdefault] at hmerged hreadd
        exact h hv hreadd.symm hmerged.symm path hun

end Readers

/-! ## The settings -/

section Settings

variable {F : Type} {f g : F64 F}

theorem isLeaf_unsigned (bits : ℕ) : IsLeaf (unsigned bits) := fun _ => rfl

theorem isLeaf_string : IsLeaf deserializeString := fun _ => rfl

theorem isLeaf_float : IsLeaf f.deserialize := fun _ => rfl

theorem isLeaf_all {α : Type} {read : Json → Option α} : IsLeaf (Json.all read) := fun _ => rfl

section

variable {α : Type} (name : String)

abbrev Field.unsigned (bits : ℕ) (part : α → ℕ) : Field α :=
  .leaf name part (WakeWord.unsigned bits) serializeUnsigned serializeUnsigned
    (isLeaf_unsigned bits)

abbrev Field.unsigneds (part : α → List ℕ) : Field α :=
  .leaf name part (Json.all (WakeWord.unsigned 32)) serializeUnsigneds serializeUnsigneds isLeaf_all

abbrev Field.text (part : α → String) : Field α :=
  .leaf name part deserializeString .string .string isLeaf_string

abbrev Field.float (f g : F64 F) (part : α → F) : Field α :=
  .leaf name part f.deserialize f.serialize g.serialize isLeaf_float

abbrev Field.floats (f g : F64 F) (part : α → List F) : Field α :=
  .leaf name part (Json.all f.deserialize) (serializeFloats f) (serializeFloats g) isLeaf_all

end

def SampleSettings.parts : List (Field SampleSettings) :=
  [.unsigned "batchSize" 32 (·.batchSize),
    .unsigned "nearMissPerPhrasePerLanguage" 32 (·.nearMissPerPhrasePerLanguage),
    .unsigned "positivePerLanguage" 32 (·.positivePerLanguage)]

theorem SampleSettings.isRecord : IsRecord parts deserialize serialize serialize where
  written _ := rfl
  displayed _ := rfl
  reads := by
    intro es a h
    simp only [deserialize, Option.bind_eq_bind, Option.bind_eq_some_iff] at h
    obtain ⟨get, hget, _, h1, _, h2, _, h3, h⟩ := h
    obtain rfl := get_of_fieldsOnly hget
    obtain rfl := Option.some.inj h
    simp only [parts, List.forall_mem_cons]
    exact ⟨h3, h2, h1, List.forall_mem_nil _⟩

def FeatureSettings.parts : List (Field FeatureSettings) :=
  [.unsigned "nearMissRepetitions" 32 (·.nearMissRepetitions),
    .unsigned "ownVoiceRepetitions" 32 (·.ownVoiceRepetitions),
    .unsigned "positiveRepetitions" 32 (·.positiveRepetitions)]

theorem FeatureSettings.isRecord : IsRecord parts deserialize serialize serialize where
  written _ := rfl
  displayed _ := rfl
  reads := by
    intro es a h
    simp only [deserialize, Option.bind_eq_bind, Option.bind_eq_some_iff] at h
    obtain ⟨get, hget, _, h1, _, h2, _, h3, h⟩ := h
    obtain rfl := get_of_fieldsOnly hget
    obtain rfl := Option.some.inj h
    simp only [parts, List.forall_mem_cons]
    exact ⟨h2, h3, h1, List.forall_mem_nil _⟩

def ModelShape.parts : List (Field ModelShape) :=
  [.unsigned "firstConvFilters" 32 (·.firstConvFilters),
    .unsigned "firstConvKernelSize" 32 (·.firstConvKernelSize),
    .text "mixconvKernelSizes" (·.mixconvKernelSizes),
    .text "pointwiseFilters" (·.pointwiseFilters), .text "repeatInBlock" (·.repeatInBlock),
    .text "residualConnection" (·.residualConnection), .unsigned "stride" 32 (·.stride)]

theorem ModelShape.isRecord : IsRecord parts deserialize serialize serialize where
  written _ := rfl
  displayed _ := rfl
  reads := by
    intro es a h
    simp only [deserialize, Option.bind_eq_bind, Option.bind_eq_some_iff] at h
    obtain ⟨get, hget, _, h1, _, h2, _, h3, _, h4, _, h5, _, h6, _, h7, h⟩ := h
    obtain rfl := get_of_fieldsOnly hget
    obtain rfl := Option.some.inj h
    simp only [parts, List.forall_mem_cons]
    exact ⟨h5, h6, h3, h1, h2, h4, h7, List.forall_mem_nil _⟩

def Prosody.parts (f g : F64 F) : List (Field (Prosody F)) :=
  [.floats "lengthScales" f g (·.lengthScales), .floats "noiseScaleWs" f g (·.noiseScaleWs),
    .floats "noiseScales" f g (·.noiseScales), .floats "slerpWeights" f g (·.slerpWeights)]

theorem Prosody.isRecord : IsRecord (parts f g) (deserialize f) (serialize f) (serialize g) where
  written _ := rfl
  displayed _ := rfl
  reads := by
    intro es a h
    simp only [deserialize, Option.bind_eq_bind, Option.bind_eq_some_iff] at h
    obtain ⟨get, hget, _, h1, _, h2, _, h3, _, h4, h⟩ := h
    obtain rfl := get_of_fieldsOnly hget
    obtain rfl := Option.some.inj h
    simp only [parts, List.forall_mem_cons]
    exact ⟨h1, h2, h3, h4, List.forall_mem_nil _⟩

theorem Prosody.keepsNew : KeepsNew (deserialize f) (serialize g) := by
  refine isRecord.keepsNew ?_
  simp only [parts, List.forall_mem_cons]
  exact ⟨Field.leaf_keepsNew isLeaf_all, Field.leaf_keepsNew isLeaf_all,
    Field.leaf_keepsNew isLeaf_all, Field.leaf_keepsNew isLeaf_all,
    List.forall_mem_nil _⟩

def AugmentationSettings.parts (f g : F64 F) : List (Field (AugmentationSettings F)) :=
  [.float "backgroundMaxSnrDb" f g (·.backgroundMaxSnrDb),
    .float "backgroundMinSnrDb" f g (·.backgroundMinSnrDb),
    .float "durationSeconds" f g (·.durationSeconds),
    .float "maxJitterSeconds" f g (·.maxJitterSeconds),
    .float "minJitterSeconds" f g (·.minJitterSeconds),
    .required "probabilities" (·.probabilities) (Json.map f.deserialize) (serializeMap f.serialize)
      (serializeMap g.serialize) (keeps_map isLeaf_float.keeps isLeaf_float.keepsNew)]

theorem AugmentationSettings.isRecord :
    IsRecord (parts f g) (deserialize f) (serialize f) (serialize g) where
  written _ := rfl
  displayed _ := rfl
  reads := by
    intro es a h
    simp only [deserialize, Option.bind_eq_bind, Option.bind_eq_some_iff] at h
    obtain ⟨get, hget, _, h1, _, h2, _, h3, _, h4, _, h5, _, h6, h⟩ := h
    obtain rfl := get_of_fieldsOnly hget
    obtain rfl := Option.some.inj h
    simp only [parts, List.forall_mem_cons]
    exact ⟨h3, h2, h1, h5, h4, h6, List.forall_mem_nil _⟩

def FeatureWeight.parts (f g : F64 F) : List (Field (FeatureWeight F)) :=
  [.float "penaltyWeight" f g (·.penaltyWeight), .float "samplingWeight" f g (·.samplingWeight)]

theorem FeatureWeight.isRecord :
    IsRecord (parts f g) (deserialize f) (serialize f) (serialize g) where
  written _ := rfl
  displayed _ := rfl
  reads := by
    intro es a h
    simp only [deserialize, Option.bind_eq_bind, Option.bind_eq_some_iff] at h
    obtain ⟨get, hget, _, h1, _, h2, h⟩ := h
    obtain rfl := get_of_fieldsOnly hget
    obtain rfl := Option.some.inj h
    simp only [parts, List.forall_mem_cons]
    exact ⟨h2, h1, List.forall_mem_nil _⟩

theorem FeatureWeight.keepsNew : KeepsNew (deserialize f) (serialize g) := by
  refine isRecord.keepsNew ?_
  simp only [parts, List.forall_mem_cons]
  exact ⟨Field.leaf_keepsNew isLeaf_float, Field.leaf_keepsNew isLeaf_float,
    List.forall_mem_nil _⟩

def TrainingSettings.parts (f g : F64 F) : List (Field (TrainingSettings F)) :=
  [.unsigned "batchSize" 32 (·.batchSize), .unsigned "clipDurationMs" 32 (·.clipDurationMs),
    .unsigned "evalStepInterval" 32 (·.evalStepInterval),
    .required "featureWeights" (·.featureWeights) (Json.map (FeatureWeight.deserialize f))
      (serializeMap (FeatureWeight.serialize f)) (serializeMap (FeatureWeight.serialize g))
      (keeps_map FeatureWeight.isRecord.keeps FeatureWeight.keepsNew),
    .unsigneds "freqMaskCount" (·.freqMaskCount), .unsigneds "freqMaskMaxSize" (·.freqMaskMaxSize),
    .floats "learningRates" f g (·.learningRates),
    .text "maximizationMetric" (·.maximizationMetric),
    .nullable "minimizationMetric" (·.minimizationMetric) _ .string isLeaf_string,
    .required "model" (·.model) ModelShape.deserialize ModelShape.serialize ModelShape.serialize
      ModelShape.isRecord.keeps,
    .floats "negativeClassWeight" f g (·.negativeClassWeight),
    .floats "positiveClassWeight" f g (·.positiveClassWeight), .unsigneds "steps" (·.steps),
    .float "targetMinimization" f g (·.targetMinimization),
    .unsigneds "timeMaskCount" (·.timeMaskCount), .unsigneds "timeMaskMaxSize" (·.timeMaskMaxSize)]

theorem TrainingSettings.isRecord :
    IsRecord (parts f g) (deserialize f) (serialize f) (serialize g) where
  written _ := rfl
  displayed _ := rfl
  reads := by
    intro es a h
    obtain ⟨get, hget, h⟩ := Option.bind_eq_some_iff.mp h
    obtain ⟨_, h1, h⟩ := Option.bind_eq_some_iff.mp h
    obtain ⟨_, h2, h⟩ := Option.bind_eq_some_iff.mp h
    obtain ⟨_, h3, h⟩ := Option.bind_eq_some_iff.mp h
    obtain ⟨_, h4, h⟩ := Option.bind_eq_some_iff.mp h
    obtain ⟨_, h5, h⟩ := Option.bind_eq_some_iff.mp h
    obtain ⟨_, h6, h⟩ := Option.bind_eq_some_iff.mp h
    obtain ⟨_, h7, h⟩ := Option.bind_eq_some_iff.mp h
    obtain ⟨_, h8, h⟩ := Option.bind_eq_some_iff.mp h
    obtain ⟨_, h9, h⟩ := Option.bind_eq_some_iff.mp h
    obtain ⟨_, h10, h⟩ := Option.bind_eq_some_iff.mp h
    obtain ⟨_, h11, h⟩ := Option.bind_eq_some_iff.mp h
    obtain ⟨_, h12, h⟩ := Option.bind_eq_some_iff.mp h
    obtain ⟨_, h13, h⟩ := Option.bind_eq_some_iff.mp h
    obtain ⟨_, h14, h⟩ := Option.bind_eq_some_iff.mp h
    obtain ⟨_, h15, h⟩ := Option.bind_eq_some_iff.mp h
    obtain ⟨_, h16, ht⟩ := Option.bind_eq_some_iff.mp h
    obtain rfl := get_of_fieldsOnly hget
    obtain rfl := Option.some.inj ht
    simp only [parts, List.forall_mem_cons]
    exact ⟨h9, h11, h10, h15, h8, h7, h2, h14, h13, h16, h4, h3, h1, h12, h6, h5,
      List.forall_mem_nil _⟩

def EvaluationSettings.parts (f g : F64 F) : List (Field (EvaluationSettings F)) :=
  [.unsigned "cooldownSlices" 32 (·.cooldownSlices), .float "cutoffStep" f g (·.cutoffStep),
    .unsigned "slidingWindow" 32 (·.slidingWindow)]

theorem EvaluationSettings.isRecord :
    IsRecord (parts f g) (deserialize f) (serialize f) (serialize g) where
  written _ := rfl
  displayed _ := rfl
  reads := by
    intro es a h
    simp only [deserialize, Option.bind_eq_bind, Option.bind_eq_some_iff] at h
    obtain ⟨get, hget, _, h1, _, h2, _, h3, h⟩ := h
    obtain rfl := get_of_fieldsOnly hget
    obtain rfl := Option.some.inj h
    simp only [parts, List.forall_mem_cons]
    exact ⟨h2, h3, h1, List.forall_mem_nil _⟩

def Settings.parts (f g : F64 F) : List (Field (Settings F)) :=
  [.required "augmentation" (·.augmentation) (AugmentationSettings.deserialize f)
      (AugmentationSettings.serialize f) (AugmentationSettings.serialize g)
      AugmentationSettings.isRecord.keeps,
    .float "deviceMemoryBudgetGib" f g (·.deviceMemoryBudgetGib),
    .required "evaluation" (·.evaluation) (EvaluationSettings.deserialize f)
      (EvaluationSettings.serialize f) (EvaluationSettings.serialize g)
      EvaluationSettings.isRecord.keeps,
    .required "features" (·.features) FeatureSettings.deserialize FeatureSettings.serialize
      FeatureSettings.serialize FeatureSettings.isRecord.keeps,
    .required "prosody" (·.prosody) (Json.map (Prosody.deserialize f))
      (serializeMap (Prosody.serialize f)) (serializeMap (Prosody.serialize g))
      (keeps_map Prosody.isRecord.keeps Prosody.keepsNew),
    .required "samples" (·.samples) SampleSettings.deserialize SampleSettings.serialize
      SampleSettings.serialize SampleSettings.isRecord.keeps,
    .unsigned "seed" 64 (·.seed),
    .required "training" (·.training) (TrainingSettings.deserialize f)
      (TrainingSettings.serialize f) (TrainingSettings.serialize g) TrainingSettings.isRecord.keeps]

theorem Settings.isRecord :
    IsRecord (parts f g) (deserialize f) (fun s => .object (s.entries f))
      (fun s => .object (s.entries g)) where
  written _ := rfl
  displayed _ := rfl
  reads := by
    intro es a h
    simp only [deserialize, Option.bind_eq_bind, Option.bind_eq_some_iff] at h
    obtain ⟨get, hget, _, h1, _, h2, _, h3, _, h4, _, h5, _, h6, _, h7, _, h8, h⟩ := h
    obtain rfl := get_of_fieldsOnly hget
    obtain rfl := Option.some.inj h
    simp only [parts, List.forall_mem_cons]
    exact ⟨h5, h2, h8, h6, h4, h3, h1, h7, List.forall_mem_nil _⟩

/-- What the overrides leave is as in the defaults, whichever way the numbers are shown. -/
theorem withOverrides_keeps {defaults settings : Settings F} {patch : Entries String Json}
    (hp : Orderly (.object patch))
    (hround : Settings.deserialize f (.object (defaults.entries f)) = some defaults)
    (h : withOverrides f defaults (some (.object patch)) = .ok settings) {path : List String}
    (hun : Untouched path (.object patch)) :
    valueAt path (.object (settings.entries g)) = valueAt path (.object (defaults.entries g)) :=
  Settings.isRecord.keeps hp hround (deserialize_of_withOverrides h) path hun

end Settings

/-- **The merge patch** is that of RFC 7386, and applied again it changes nothing; so a setting that
accepted overrides do not name is its default, when the defaults are read back as they were
written. -/
theorem merge_patch_keeps :
    (∀ target patch : Json, Orderly target → Orderly patch →
      Patched target patch (mergePatch target patch) ∧
        mergePatch (mergePatch target patch) patch = mergePatch target patch) ∧
    (∀ (F : Type) (f : F64 F) (defaults settings : Settings F) (patch : Entries String Json),
      Orderly (.object patch) →
      Settings.deserialize f (.object (defaults.entries f)) = some defaults →
      withOverrides f defaults (some (.object patch)) = .ok settings →
      ∀ path, Untouched path (.object patch) → ∀ shown : F64 F,
        valueAt path (.object (settings.entries shown)) =
          valueAt path (.object (defaults.entries shown))) := by
  constructor
  · intro target patch ht hp
    exact ⟨mergePatch_patched hp, mergePatch_again ht hp⟩
  · intro F f defaults settings patch hp hround h path hun shown
    exact withOverrides_keeps hp hround h hun

/-! ## A batch of another size -/

deriving instance DecidableEq for Prosody, SampleSettings, AugmentationSettings, FeatureSettings,
  FeatureWeight, ModelShape, TrainingSettings, EvaluationSettings, Settings

def batchOverrides : Entries String Json :=
  [("samples", .object [("batchSize", serializeUnsigned 64)])]

theorem batchOverrides_orderly : Orderly (.object batchOverrides) := by
  refine Orderly.object (List.pairwise_singleton _ _) (List.forall_mem_singleton.mpr ?_)
  exact Orderly.object (List.pairwise_singleton _ _)
    (List.forall_mem_singleton.mpr (Orderly.number _))

theorem defaultSettings_read : Settings.deserialize rationals
    (.object ((defaultSettings rationals).entries rationals)) =
      some (defaultSettings rationals) := by
  decide +kernel

theorem merge_patch_keeps_samples :
    mergePatch (mergePatch .null (.object batchOverrides)) (.object batchOverrides) =
      mergePatch .null (.object batchOverrides) ∧
    ∃ settings,
      withOverrides rationals (defaultSettings rationals) (some (.object batchOverrides)) =
        .ok settings ∧
      valueAt ["samples", "positivePerLanguage"] (.object (settings.entries rationals)) =
        some (serializeUnsigned 10000) := by
  obtain ⟨settings, h⟩ := exists_of_toBool (by decide +kernel : (withOverrides rationals
    (defaultSettings rationals) (some (.object batchOverrides))).toBool = true)
  refine ⟨(merge_patch_keeps.1 _ _ Orderly.null batchOverrides_orderly).2, settings, h, ?_⟩
  have hun : Untouched ["samples", "positivePerLanguage"] (.object batchOverrides) := by
    refine ⟨_, rfl, fun v hv => ?_⟩
    obtain rfl := Option.some.inj hv
    refine ⟨_, rfl, fun w hw => ?_⟩
    cases hw
  exact merge_patch_keeps.2 ℚ rationals _ settings _ batchOverrides_orderly defaultSettings_read h
    _ hun rationals

end StudioWorker.WakeWord
