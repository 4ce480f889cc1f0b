import StudioWorker.CatalogServer
import StudioWorker.Config.Model
import Mathlib.Tactic.NormNum

/-!
# CatalogReload — whether a restart reads the catalogue that was saved (`src/catalog.rs`)

A float outside the `f32` range is read as infinite and written as `null`, which a plain float is
not read from: one such model and the next start quarantines the file.  So does a free-form object
that nests two levels deeper in the file than in the body it was posted in.

* `Catalog.Sound`: every model is read back as it is written and no seed is missing.
* `reload_after_save`: what a start reads after a save, over whole histories.
-/

namespace StudioWorker

open Lib Lib.System

variable {F : Type} {s : Serde F} {seeds : Catalog F} {c : Catalog F}

/-- The models an event brings into the catalogue are read back as they are written. -/
def ServerEvent.Returns [Zero F] (s : Serde F) : ServerEvent → Prop
  | .addModel body _ => ∀ m ∈ body.bind (CatalogModel.deserialize s 0), m.Returns s
  | .offer modelId kind source _ =>
    ∀ src ∈ ModelSource.deserialize s 2 source, (Catalog.mirrored modelId kind src).Returns s
  | .deleteModel _ _ _ | .restart _ => True

namespace Catalog

/-- Every seed is there or was deleted by the operator. -/
def SeedsKnown (c seeds : Catalog F) : Prop :=
  ∀ m ∈ seeds.models, (c.get m.id).isSome = true ∨ m.id ∈ c.dismissedSeeds

theorem seedsKnown_seeds (seeds : Catalog F) : seeds.SeedsKnown seeds :=
  fun m hm => .inl (get_isSome.mpr ⟨m, hm, rfl⟩)

/-- A model that is put in may take back the dismissal of its own id. -/
theorem SeedsKnown.put {model : CatalogModel F} {dismissed : List String} (h : c.SeedsKnown seeds)
    (hdismissed : ∀ d ∈ c.dismissedSeeds, d ≠ model.id → d ∈ dismissed) :
    SeedsKnown ⟨upsertModels model c.models, dismissed⟩ seeds := by
  intro m hm
  by_cases hid : m.id = model.id
  · exact .inl (get_isSome.mpr ⟨model, self_mem_upsertModels model _, hid.symm⟩)
  · rcases h m hm with hget | hd
    · have hput : ((c.upsert model).get m.id).isSome = true := get_upsert_isSome hget
      exact .inl hput
    · exact .inr (hdismissed _ hd hid)

theorem SeedsKnown.remove {id : String} (h : c.SeedsKnown seeds) :
    (c.remove (seeds.models.map (·.id)) id).1.SeedsKnown seeds := by
  intro m hm
  rcases h m hm with hget | hdismissed
  · by_cases hid : m.id = id
    · subst hid
      exact .inr (mem_dismissed_of_remove hget (List.mem_map_of_mem hm))
    · exact .inl (get_remove_isSome.mpr ⟨hget, hid⟩)
  · exact .inr (mem_dismissed_remove hdismissed)

/-- A catalogue that lacks no seed is given none. -/
theorem SeedsKnown.ensureSeeds (h : c.SeedsKnown seeds) : c.ensureSeeds seeds = (c, false) := by
  have hmissing : seeds.models.filter (fun m => (c.get m.id).isNone ∧ m.id ∉ c.dismissedSeeds) =
      [] := by
    rw [List.filter_eq_nil_iff]
    intro m hm hmiss
    obtain ⟨hnone, hnot⟩ := of_decide_eq_true hmiss
    rcases h m hm with hget | hd
    · rw [Option.isNone_iff_eq_none] at hnone
      rw [hnone] at hget
      cases hget
    · exact hnot hd
  unfold Catalog.ensureSeeds
  rw [hmissing]
  simp

/-- Every model is read back as it is written, and every seed is there or was deleted. -/
structure Sound (s : Serde F) (c seeds : Catalog F) : Prop where
  fits : ∀ m ∈ c.models, m.source.Fits
  returns : ∀ m ∈ c.models, m.Returns s
  seeded : ∀ m ∈ seeds.models, (c.get m.id).isSome = true ∨ m.id ∈ c.dismissedSeeds

/-- The numbers of the seeds are within their fields' types. -/
theorem seed_fits [Zero F] (lit : ℚ → F) : ∀ m ∈ (seed lit).models, m.source.Fits := by
  intro m hm
  simp only [seed, List.mem_cons, List.not_mem_nil, or_false] at hm
  rcases hm with rfl | rfl | rfl | rfl | rfl | rfl | rfl | rfl
  all_goals
    constructor
    · simp [zimageTurbo, qwen3508b, qwen352b, nemotronStream, parakeetEou, megadetectorV5a,
        speciesnetV4a, birdSpecies, parakeetRsFile, hfFile]
    · constructor <;> simp [zimageTurbo, qwen3508b, qwen352b, nemotronStream, parakeetEou,
        megadetectorV5a, speciesnetV4a, birdSpecies, ModelCliDefaults.empty]

/-- The seeds are there in the catalogue they make up. -/
theorem sound_seeds (hfit : ∀ m ∈ seeds.models, m.source.Fits)
    (hret : ∀ m ∈ seeds.models, m.Returns s) : seeds.Sound s seeds :=
  ⟨hfit, hret, seedsKnown_seeds seeds⟩

/-- A sound catalogue takes a model that is read back as it is written, whatever dismissal that
takes back. -/
theorem Sound.put {model : CatalogModel F} {dismissed : List String} (h : c.Sound s seeds)
    (hfit : model.source.Fits) (hret : model.Returns s)
    (hdismissed : ∀ d ∈ c.dismissedSeeds, d ≠ model.id → d ∈ dismissed) :
    Sound s ⟨upsertModels model c.models, dismissed⟩ seeds := by
  refine ⟨fun m hm => ?_, fun m hm => ?_, SeedsKnown.put h.seeded hdismissed⟩
  · rcases of_mem_upsertModels hm with rfl | hm
    · exact hfit
    · exact h.fits m hm
  · rcases of_mem_upsertModels hm with rfl | hm
    · exact hret
    · exact h.returns m hm

theorem Sound.upsert {model : CatalogModel F} (h : c.Sound s seeds) (hfit : model.source.Fits)
    (hret : model.Returns s) : (c.upsert model).Sound s seeds :=
  h.put hfit hret fun _ hd hne => List.mem_filter.mpr ⟨hd, by simpa using hne⟩

theorem Sound.syncStudioModel [DecidableEq F] {incoming : CatalogModel F} (h : c.Sound s seeds)
    (hfit : incoming.source.Fits) (hret : incoming.Returns s) :
    (c.syncStudioModel incoming).1.Sound s seeds := by
  rcases syncStudioModel_cases c incoming with hsync | hsync
  · rw [hsync]
    exact h
  · rw [hsync]
    exact h.put hfit hret fun _ hd _ => hd

theorem Sound.remove {id : String} (h : c.Sound s seeds) :
    (c.remove (seeds.models.map (·.id)) id).1.Sound s seeds :=
  ⟨fun m hm => h.fits m (List.mem_of_mem_filter hm),
    fun m hm => h.returns m (List.mem_of_mem_filter hm), SeedsKnown.remove h.seeded⟩

variable [Zero F]

/-- A sound catalogue is loaded from the file it was saved to, and the file stays as it is. -/
theorem Sound.loadOrSeed {io : StartIo} (h : c.Sound s seeds) (hread : io.read = .ok ()) :
    Catalog.loadOrSeed s seeds io (.document (some (c.serialize s))) =
      (.ok c, .document (some (c.serialize s))) := by
  have hparse : deserialize s (c.serialize s) = some c :=
    (deserialize_serialize h.fits).mpr h.returns
  unfold Catalog.loadOrSeed
  rw [hread]
  simp only [Option.bind_some, hparse, SeedsKnown.ensureSeeds h.seeded]
  rfl

end Catalog

/-- The file, where there is one, is a sound catalogue as it is written. -/
def CatalogFile.Sound (s : Serde F) (seeds : Catalog F) : CatalogFile → Prop
  | absent => True
  | document doc => ∃ c : Catalog F, doc = some (c.serialize s) ∧ c.Sound s seeds

/-- A start finds a sound catalogue and leaves a sound file, or fails. -/
theorem Catalog.sound_of_loadOrSeed [Zero F] (io : StartIo) {file : CatalogFile}
    (hseeds : seeds.Sound s seeds) (hfile : file.Sound s seeds) :
    (∀ c, (loadOrSeed s seeds io file).1 = .ok c → c.Sound s seeds) ∧
      (loadOrSeed s seeds io file).2.Sound s seeds := by
  rcases hread : io.read with msg | u
  · unfold loadOrSeed
    rw [hread]
    exact ⟨fun c hc => (by cases hc), hfile⟩
  · cases file with
    | absent =>
      unfold loadOrSeed
      rw [hread]
      rcases io.save with msg | u
      · exact ⟨fun c hc => (by cases hc), trivial⟩
      · refine ⟨fun c hc => ?_, seeds, rfl, hseeds⟩
        cases hc
        exact hseeds
    | document doc =>
      obtain ⟨c, rfl, hc⟩ := hfile
      rw [hc.loadOrSeed hread]
      refine ⟨fun c' hc' => ?_, c, rfl, hc⟩
      cases hc'
      exact hc

namespace CatalogServer

/-- Memory and file hold sound catalogues. -/
structure Sound (s : Serde F) (seeds : Catalog F) (srv : CatalogServer F) : Prop where
  catalog : srv.catalog.Sound s seeds
  file : srv.file.Sound s seeds

variable {srv : CatalogServer F} {path : Option String}

/-- A save that may fail keeps memory and file sound. -/
theorem Sound.persist (h : Sound s seeds srv) (save : Except String Unit) :
    Sound s seeds (persist s srv save).2 := by
  obtain ⟨catalog, path, file⟩ := srv
  unfold CatalogServer.persist
  rcases path with _ | p
  · exact h
  · rcases save with msg | u
    · exact h
    · exact ⟨h.catalog, catalog, rfl, h.catalog⟩

variable [Zero F]

theorem Sound.loadForServing {io : StartIo} (hseeds : seeds.Sound s seeds)
    (h : Sound s seeds srv) : Sound s seeds (loadForServing s seeds path io srv.file) := by
  unfold CatalogServer.loadForServing
  rcases path with _ | p
  · exact ⟨hseeds, h.file⟩
  · obtain ⟨hok, hfile⟩ := Catalog.sound_of_loadOrSeed io hseeds h.file
    generalize Catalog.loadOrSeed s seeds io srv.file = loaded at hok hfile
    obtain ⟨result, file⟩ := loaded
    cases result with
    | ok c => exact ⟨hok c rfl, hfile⟩
    | error msg => exact ⟨hseeds, hfile⟩

/-- A posted model that is read back as it is written keeps memory and file sound. -/
theorem Sound.handleAddModel {body : Option Json} {save : Except String Unit}
    (h : Sound s seeds srv)
    (hret : ∀ m ∈ body.bind (CatalogModel.deserialize s 0), m.Returns s) :
    Sound s seeds (handleAddModel s srv body save).2 := by
  unfold CatalogServer.handleAddModel
  rcases hbody : body.bind (CatalogModel.deserialize s 0) with _ | model
  · exact h
  · obtain ⟨v, -, hv⟩ := Option.bind_eq_some_iff.mp hbody
    have hput : Sound s seeds { srv with catalog := srv.catalog.upsert model } :=
      ⟨h.catalog.upsert (CatalogModel.fits_of_deserialize hv) (hret model hbody), h.file⟩
    have hsaved := hput.persist save
    dsimp only
    split
    · rename_i heq
      rwa [heq] at hsaved
    · rename_i heq
      rwa [heq] at hsaved

omit [Zero F] in
theorem Sound.handleDeleteModel {id : String} {unloaded : Except HostError Unit}
    {save : Except String Unit} (h : Sound s seeds srv) :
    Sound s seeds (handleDeleteModel s seeds srv id unloaded save).2 := by
  unfold CatalogServer.handleDeleteModel
  rcases unloadFailure unloaded with _ | e
  · have hput : Sound s seeds
        { srv with catalog := (srv.catalog.remove (seeds.models.map (·.id)) id).1 } :=
      ⟨h.catalog.remove, h.file⟩
    have hsaved := hput.persist save
    dsimp only
    split_ifs
    · split <;> exact hsaved
    · exact hsaved
  · exact h

variable [DecidableEq F]

/-- One event keeps memory and file sound. -/
theorem Sound.next (hseeds : seeds.Sound s seeds) {e : ServerEvent} (h : Sound s seeds srv)
    (he : e.Returns s) : Sound s seeds (next s seeds path srv e) := by
  cases e with
  | addModel body save => exact h.handleAddModel he
  | deleteModel id unloaded save => exact h.handleDeleteModel
  | offer modelId kind source save =>
    rw [CatalogServer.next]
    rcases hsource : ModelSource.deserialize s 2 source with _ | src
    · exact h
    · have hfit : (Catalog.mirrored modelId kind src).source.Fits :=
        ModelSource.fits_of_deserialize hsource
      have hput : Sound s seeds { srv with
          catalog := (srv.catalog.syncStudioModel (Catalog.mirrored modelId kind src)).1 } :=
        ⟨h.catalog.syncStudioModel hfit (he src hsource), h.file⟩
      dsimp only [CatalogServer.syncStudioModel]
      split_ifs
      · exact hput.persist save
      · exact h
  | restart io => exact h.loadForServing hseeds

/-- The worker before its first start, with no file yet. -/
def initial (seeds : Catalog F) : CatalogServer F := ⟨seeds, none, .absent⟩

/-- In every history whose posted and mirrored models are read back as they are written, a start
that follows a save finds the catalogue that was saved, and leaves the file alone. -/
theorem reload_after_save (s : Serde F) (lit : ℚ → F)
    (hlit : ∀ m ∈ (Catalog.seed lit).models, m.Returns s) (path : Option String)
    {es : List ServerEvent}
    (hok : Along (step s (Catalog.seed lit) path) (fun _ e => e.Returns s)
      (initial (Catalog.seed lit)) es)
    (hr : run (step s (Catalog.seed lit) path) (initial (Catalog.seed lit)) es = some srv)
    {io : StartIo} (hread : io.read = .ok ()) :
    Catalog.loadOrSeed s (Catalog.seed lit) io (.document (some (srv.catalog.serialize s))) =
      (.ok srv.catalog, .document (some (srv.catalog.serialize s))) := by
  have hseeds := Catalog.sound_seeds (Catalog.seed_fits lit) hlit
  have hsound : Sound s (Catalog.seed lit) srv := by
    refine along_invariant (I := Sound s (Catalog.seed lit)) (fun t e t' ht he hstep => ?_) es
      (initial (Catalog.seed lit)) srv ⟨hseeds, trivial⟩ hok hr
    cases hstep
    exact ht.next hseeds he
  exact hsound.catalog.loadOrSeed hread

/-! ## The ends of the float range -/

instance : Zero F32 := ⟨.finite 0⟩

/-- From here on a number is rounded to an infinite `f32`. -/
def f32Overflow : ℚ := 2 ^ 128 - 2 ^ 103

/-- The JSON library on `f32`s, and on the one free-form object of the seeds. -/
def jsonF32 : Serde F32 where
  readFloat n :=
    if 2 ^ 1024 ≤ |n.value| then none
    else if |n.value| < f32Overflow then some (.finite n.value)
    else some (.infinite (n.value < 0))
  writeFloat
    | .finite q => some (.dec q)
    | .infinite _ | .nan => none
  readMap
    | [("enable_thinking", .bool false)] => some noThinking
    | _ => none
  writeMap t := if t = noThinking then [("enable_thinking", .bool false)] else []

/-- A float that a number in the range of a `f32` was rounded to. -/
def inRange : F32 → Bool
  | .finite q => |q| < f32Overflow
  | .infinite _ | .nan => false

theorem exact_of_inRange {x : F32} (h : inRange x = true) : jsonF32.Exact x := by
  cases x with
  | finite q =>
    have hq : |q| < f32Overflow := of_decide_eq_true h
    have hlt : f32Overflow < 2 ^ 1024 := calc
      f32Overflow < 2 ^ 128 := by norm_num [f32Overflow]
      _ ≤ 2 ^ 1024 := pow_le_pow_right₀ (by norm_num) (by norm_num)
    have hle : ¬(2 ^ 1024 ≤ |(Number.dec q).value|) := not_le.mpr (hq.trans hlt)
    exact ⟨.dec q, rfl, (if_neg hle).trans (if_pos hq)⟩
  | infinite negative => cases h
  | nan => cases h

theorem mapReturns_noThinking : jsonF32.MapReturns 5 noThinking := by
  constructor <;> decide +kernel

/-- Every float of the seeds is in range, and their one free-form object is the known one. -/
theorem seeds_return : ∀ m ∈ (Catalog.seed F32.finite).models, m.Returns jsonF32 := by
  have hcheck : ∀ m ∈ (Catalog.seed F32.finite).models, inRange m.vramGbEstimate = true ∧
      (∀ x ∈ m.source.cliDefaults.floats, inRange x = true) ∧
      ∀ t ∈ m.source.cliDefaults.chatTemplateKwargs, t = noThinking := by
    decide +kernel
  intro m hm
  obtain ⟨hvram, hfloats, hkwargs⟩ := hcheck m hm
  refine ⟨exact_of_inRange hvram, fun x hx => exact_of_inRange (hfloats x hx), fun t ht => ?_⟩
  rw [hkwargs t ht]
  exact mapReturns_noThinking

/-- The body of a chat model without files. -/
def llmBody (id : String) (estimate : ℚ) : Json :=
  .object [("id", .string id), ("displayName", .string id), ("kind", .string "llm"),
    ("vramGbEstimate", .number (.dec estimate)),
    ("source", .object [("engine", .string "llama-cpp"), ("files", .array []),
      ("cliDefaults", .object [("cfgScale", .number (.int 1)), ("steps", .number (.int 0)),
        ("width", .number (.int 0)), ("height", .number (.int 0))])])]

/-- A start to which the system answers well. -/
def startsWell : StartIo := ⟨.ok (), .ok (), .ok ()⟩

theorem llmBody_returns :
    (ServerEvent.addModel (some (llmBody "small" 4)) (.ok ())).Returns jsonF32 := by
  have hcheck : ∀ m ∈ CatalogModel.deserialize jsonF32 0 (llmBody "small" 4),
      inRange m.vramGbEstimate = true ∧ (∀ x ∈ m.source.cliDefaults.floats, inRange x = true) ∧
        m.source.cliDefaults.chatTemplateKwargs = none := by
    decide +kernel
  intro m hm
  rw [Option.bind_some] at hm
  obtain ⟨hvram, hfloats, hkwargs⟩ := hcheck m hm
  refine ⟨exact_of_inRange hvram, fun x hx => exact_of_inRange (hfloats x hx), fun t ht => ?_⟩
  rw [hkwargs] at ht
  cases ht

/-- A start, an addition, the deletion of a seed and another start. -/
def quietHistory : List ServerEvent :=
  [.restart startsWell, .addModel (some (llmBody "small" 4)) (.ok ()),
    .deleteModel "qwen3.5-2b" (.ok ()) (.ok ()), .restart startsWell]

theorem reload_after_save_quiet :
    ∃ srv, run (step jsonF32 (Catalog.seed F32.finite) (some "models.json"))
        (initial (Catalog.seed F32.finite)) quietHistory = some srv ∧
      Catalog.loadOrSeed jsonF32 (Catalog.seed F32.finite) startsWell
          (.document (some (srv.catalog.serialize jsonF32))) =
        (.ok srv.catalog, .document (some (srv.catalog.serialize jsonF32))) := by
  have hok : Along (step jsonF32 (Catalog.seed F32.finite) (some "models.json"))
      (fun _ e => e.Returns jsonF32) (initial (Catalog.seed F32.finite)) quietHistory :=
    ⟨trivial, fun _ _ => ⟨llmBody_returns, fun _ _ => ⟨trivial, fun _ _ => ⟨trivial, fun _ _ =>
      trivial⟩⟩⟩⟩
  obtain ⟨srv, hr⟩ : ∃ srv, run (step jsonF32 (Catalog.seed F32.finite) (some "models.json"))
      (initial (Catalog.seed F32.finite)) quietHistory = some srv := ⟨_, rfl⟩
  exact ⟨srv, hr, reload_after_save jsonF32 F32.finite seeds_return _ hok hr rfl⟩

/-- A model out of the `f32` range is accepted and saved, and the next start finds the eight seeds
instead of the nine models. -/
theorem overflow_loses_catalog :
    ¬ ∀ (F : Type) [Zero F] [DecidableEq F] (s : Serde F) (lit : ℚ → F),
      (∀ m ∈ (Catalog.seed lit).models, m.Returns s) →
      ∀ (path : Option String) (es : List ServerEvent) (srv : CatalogServer F),
      run (step s (Catalog.seed lit) path) (initial (Catalog.seed lit)) es = some srv →
      ∀ io : StartIo, io.read = .ok () →
      Catalog.loadOrSeed s (Catalog.seed lit) io (.document (some (srv.catalog.serialize s))) =
        (.ok srv.catalog, .document (some (srv.catalog.serialize s))) := by
  intro h
  have hload := h F32 jsonF32 F32.finite seeds_return (some "models.json")
    [.restart startsWell, .addModel (some (llmBody "big" (10 ^ 39))) (.ok ())] _ rfl startsWell rfl
  have hlen := congrArg (fun r => r.1.toOption.map fun c => c.models.length) hload
  revert hlen
  decide +kernel

end CatalogServer

end StudioWorker
