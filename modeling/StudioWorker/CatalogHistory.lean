import StudioWorker.CatalogReload

/-!
# CatalogHistory — the catalogue as one record over histories (`src/catalog.rs`)

Posting, deleting, mirroring, seeding and reloading each keep a part of it.  Mirroring a model
does not take back the dismissal of a seed of its id, and a reload gives back what was saved only
where every value is read as it was written.

* `Catalog.Op.step`: one of the five operations.
* `Catalog.Consistent`: distinct ids, and dismissals of what is not there.
* `Catalog.history_consistent`: what every history keeps that takes neither step.
-/

namespace StudioWorker

open Lib Lib.System

variable {F : Type}

namespace Catalog

/-- A model whose numbers are within the types of their fields. -/
abbrev Fitting (F : Type) := { m : CatalogModel F // m.source.Fits }

inductive Op (F : Type) where
  | upsert (model : Fitting F)
  | remove (id : String)
  | syncStudioModel (incoming : Fitting F)
  | ensureSeeds
  /-- Save, then `load_or_seed` of the file. -/
  | reload (io : StartIo)

/-- What an operation makes of the catalogue; a load that fails makes none. -/
def Op.step [Zero F] [DecidableEq F] (s : Serde F) (seeds : Catalog F) :
    System (Catalog F) (Op F)
  | c, .upsert model => some (c.upsert model.1)
  | c, .remove id => some (c.remove (seeds.models.map (·.id)) id).1
  | c, .syncStudioModel incoming => some (c.syncStudioModel incoming.1).1
  | c, .ensureSeeds => some (c.ensureSeeds seeds).1
  | c, .reload io => (loadOrSeed s seeds io (.document (some (c.serialize s)))).1.toOption

def Op.Upserts (id : String) : Op F → Prop
  | .upsert model => model.1.id = id
  | _ => False

def Op.Seeds : Op F → Prop
  | .ensureSeeds | .reload _ => True
  | _ => False

/-- One record: every id once, and no dismissal of a model that is there. -/
structure Consistent (c : Catalog F) : Prop where
  distinct : (c.models.map (·.id)).Nodup
  dismissedOnce : c.dismissedSeeds.Nodup
  dismissedGone : ∀ id ∈ c.dismissedSeeds, c.get id = none

/-- The operator's entries change by an upsert of their id and go by a removal of it. -/
def KeepsLocal (c : Catalog F) (e : Op F) (c' : Catalog F) : Prop :=
  ∀ m ∈ c.models, m.origin = "local" → m ∈ c'.models ∨ e = .remove m.id ∨
    ∃ model, e = .upsert model ∧ model.1.id = m.id ∧ c'.get m.id = some model.1

/-- The operator removed the id and has not upserted it since. -/
def Removed (id : String) (es : List (Op F)) : Prop :=
  ∃ before since, es = before ++ .remove id :: since ∧ ∀ e ∈ since, ¬ e.Upserts id

/-- No mirror under the id of a dismissed seed, and no reload of what does not read back. -/
def Op.Safe (s : Serde F) (c : Catalog F) : Op F → Prop
  | .syncStudioModel incoming => incoming.1.id ∉ c.dismissedSeeds
  | .reload _ => ∀ m ∈ c.models, m.Returns s
  | _ => True

/-! ## What each operation does to ids and entries -/

theorem map_id_upsertModels (model : CatalogModel F) (ms : List (CatalogModel F)) :
    (upsertModels model ms).map (·.id) =
      if model.id ∈ ms.map (·.id) then ms.map (·.id) else ms.map (·.id) ++ [model.id] := by
  induction ms with
  | nil => rfl
  | cons a ms ih =>
    unfold upsertModels
    by_cases ha : a.id = model.id
    · rw [if_pos ha, List.map_cons, List.map_cons, if_pos (by simp [ha]), ha]
    · rw [if_neg ha, List.map_cons, List.map_cons, ih]
      have hmem : model.id ∈ a.id :: ms.map (·.id) ↔ model.id ∈ ms.map (·.id) := by
        rw [List.mem_cons]
        exact ⟨fun h => h.resolve_left (Ne.symm ha), .inr⟩
      by_cases h : model.id ∈ ms.map (·.id)
      · rw [if_pos h, if_pos (hmem.mpr h)]
      · rw [if_neg h, if_neg (mt hmem.mp h), List.cons_append]

theorem nodup_upsertModels {model : CatalogModel F} {ms : List (CatalogModel F)}
    (h : (ms.map (·.id)).Nodup) : ((upsertModels model ms).map (·.id)).Nodup := by
  rw [map_id_upsertModels]
  split_ifs with hmem
  · exact h
  · exact List.nodup_append.mpr ⟨h, List.nodup_singleton _, by
      intro a ha b hb hab
      rw [List.mem_singleton] at hb
      exact hmem (hb ▸ hab ▸ ha)⟩

theorem mem_upsertModels_of_ne {model m : CatalogModel F} {ms : List (CatalogModel F)}
    (h : m ∈ ms) (hne : m.id ≠ model.id) : m ∈ upsertModels model ms := by
  induction ms with
  | nil => exact absurd h List.not_mem_nil
  | cons a ms ih =>
    unfold upsertModels
    by_cases ha : a.id = model.id
    · rw [if_pos ha]
      rcases List.mem_cons.mp h with rfl | h
      · exact absurd ha hne
      · exact List.mem_cons_of_mem _ h
    · rw [if_neg ha]
      rcases List.mem_cons.mp h with rfl | h
      · exact List.mem_cons_self
      · exact List.mem_cons_of_mem _ (ih h)

theorem get_upsertModels_self (model : CatalogModel F) (ms : List (CatalogModel F)) :
    (upsertModels model ms).find? (fun m => m.id == model.id) = some model := by
  induction ms with
  | nil => simp [upsertModels]
  | cons a ms ih =>
    unfold upsertModels
    by_cases ha : a.id = model.id
    · rw [if_pos ha]
      simp
    · rw [if_neg ha, List.find?_cons_of_neg (by simpa using ha), ih]

theorem get_eq_none {c : Catalog F} {id : String} : c.get id = none ↔ id ∉ c.models.map (·.id) := by
  simp [get, List.find?_eq_none]

/-- Where ids are distinct an id leads to its one entry. -/
theorem get_of_mem {c : Catalog F} (h : (c.models.map (·.id)).Nodup) {m : CatalogModel F}
    (hm : m ∈ c.models) : c.get m.id = some m := by
  obtain ⟨m', hm'⟩ := Option.isSome_iff_exists.mp (get_isSome.mpr ⟨m, hm, rfl⟩)
  rw [hm', List.inj_on_of_nodup_map h (get_mem hm') hm (get_id hm')]

variable {c c' : Catalog F} {s : Serde F} {seeds : Catalog F}

theorem get_upsertModels_eq_none {model : CatalogModel F} {id : String} {dismissed : List String}
    (h : c.get id = none) (hne : id ≠ model.id) :
    get ⟨upsertModels model c.models, dismissed⟩ id = none := by
  rw [get_eq_none] at h ⊢
  show id ∉ (upsertModels model c.models).map (·.id)
  rw [map_id_upsertModels]
  split_ifs
  · exact h
  · simpa using ⟨by simpa using h, hne⟩

theorem Consistent.upsert (h : c.Consistent) (model : CatalogModel F) :
    (c.upsert model).Consistent := by
  refine ⟨nodup_upsertModels h.distinct, h.dismissedOnce.filter _, fun id hid => ?_⟩
  obtain ⟨hmem, hne⟩ := List.mem_filter.mp hid
  exact get_upsertModels_eq_none (h.dismissedGone id hmem) (by simpa using hne)

theorem Consistent.remove (h : c.Consistent) (seedIds : List String) (id : String) :
    (c.remove seedIds id).1.Consistent := by
  have hgone (d : String) (hd : d ∈ c.dismissedSeeds) : (c.remove seedIds id).1.get d = none := by
    have hget := h.dismissedGone d hd
    rw [← Option.not_isSome_iff_eq_none, get_remove_isSome, hget]
    simp
  have hself : (c.remove seedIds id).1.get id = none := by
    rw [← Option.not_isSome_iff_eq_none, get_remove_isSome]
    simp
  refine ⟨(List.filter_sublist.map _).nodup h.distinct, ?_, fun d hd => ?_⟩
  · unfold Catalog.remove
    dsimp only
    split_ifs with hdismiss
    · simp only [Bool.and_eq_true, decide_eq_true_eq] at hdismiss
      exact List.nodup_append.mpr ⟨h.dismissedOnce, List.nodup_singleton _, by
        intro a ha b hb hab
        rw [List.mem_singleton] at hb
        exact hdismiss.2 (hb ▸ hab ▸ ha)⟩
    · exact h.dismissedOnce
  · unfold Catalog.remove at hd
    dsimp only at hd
    split_ifs at hd
    · rcases List.mem_append.mp hd with hd | hd
      · exact hgone d hd
      · rw [List.mem_singleton.mp hd]
        exact hself
    · exact hgone d hd

theorem Consistent.syncStudioModel [DecidableEq F] (h : c.Consistent) {incoming : CatalogModel F}
    (hnot : incoming.id ∉ c.dismissedSeeds) : (c.syncStudioModel incoming).1.Consistent := by
  rcases syncStudioModel_cases c incoming with hsync | hsync
  · rw [hsync]
    exact h
  · rw [hsync]
    refine ⟨nodup_upsertModels h.distinct, h.dismissedOnce, fun id hid => ?_⟩
    exact get_upsertModels_eq_none (h.dismissedGone id hid) fun heq => hnot (heq ▸ hid)

theorem keepsLocal_upsert (model : Fitting F) : KeepsLocal c (.upsert model) (c.upsert model.1) := by
  intro m hm _
  by_cases hid : m.id = model.1.id
  · exact .inr (.inr ⟨model, rfl, hid.symm, hid ▸ get_upsertModels_self model.1 c.models⟩)
  · exact .inl (mem_upsertModels_of_ne hm hid)

theorem keepsLocal_remove (seedIds : List String) (id : String) :
    KeepsLocal c (.remove id) (c.remove seedIds id).1 := by
  intro m hm _
  by_cases hid : m.id = id
  · exact .inr (.inl (hid ▸ rfl))
  · exact .inl (List.mem_filter.mpr ⟨hm, by simpa using hid⟩)

/-- A mirror of a local entry's id finds that entry, and leaves it. -/
theorem keepsLocal_syncStudioModel [DecidableEq F] (h : c.Consistent) (incoming : Fitting F) :
    KeepsLocal c (.syncStudioModel incoming) (c.syncStudioModel incoming.1).1 := by
  intro m hm hlocal
  left
  by_cases hid : m.id = incoming.1.id
  · have hget : c.get incoming.1.id = some m := hid ▸ get_of_mem h.distinct hm
    unfold Catalog.syncStudioModel
    rw [hget]
    dsimp only
    rw [if_pos hlocal]
    exact hm
  · rcases syncStudioModel_cases c incoming.1 with hsync | hsync
    · rw [hsync]
      exact hm
    · rw [hsync]
      exact mem_upsertModels_of_ne hm hid

/-! ## Histories -/

/-- What a history without an unsafe step keeps. -/
structure Kept (seeds c : Catalog F) : Prop where
  consistent : c.Consistent
  fits : ∀ m ∈ c.models, m.source.Fits
  known : c.SeedsKnown seeds

variable [Zero F] [DecidableEq F]

/-- What is saved and reads back as it was written is the catalogue there was. -/
theorem Kept.step_reload {io : StartIo} (h : Kept seeds c) (hret : ∀ m ∈ c.models, m.Returns s)
    (hread : io.read = .ok ()) : Op.step s seeds c (.reload io) = some c := by
  have hsound : c.Sound s seeds := ⟨h.fits, hret, h.known⟩
  rw [Op.step, hsound.loadOrSeed hread]
  rfl

theorem Kept.reload {io : StartIo} (h : Kept seeds c) (hret : ∀ m ∈ c.models, m.Returns s)
    (hstep : Op.step s seeds c (.reload io) = some c') : c' = c := by
  rcases hread : io.read with msg | u
  · simp [Op.step, loadOrSeed, hread, Except.toOption] at hstep
  · rw [h.step_reload hret hread] at hstep
    exact (Option.some.inj hstep).symm

/-- A safe step keeps the record and the operator's entries. -/
theorem Kept.step {e : Op F} (h : Kept seeds c) (hsafe : e.Safe s c)
    (hstep : Op.step s seeds c e = some c') : Kept seeds c' ∧ KeepsLocal c e c' := by
  cases e with
  | upsert model =>
    cases hstep
    refine ⟨⟨h.consistent.upsert model.1, fun m hm => ?_, ?_⟩, keepsLocal_upsert model⟩
    · rcases of_mem_upsertModels hm with rfl | hm
      · exact model.2
      · exact h.fits m hm
    · exact h.known.put fun _ hd hne => List.mem_filter.mpr ⟨hd, by simpa using hne⟩
  | remove id =>
    cases hstep
    exact ⟨⟨h.consistent.remove _ id, fun m hm => h.fits m (List.mem_of_mem_filter hm),
      h.known.remove⟩, keepsLocal_remove _ id⟩
  | syncStudioModel incoming =>
    cases hstep
    refine ⟨⟨h.consistent.syncStudioModel hsafe, fun m hm => ?_, ?_⟩,
      keepsLocal_syncStudioModel h.consistent incoming⟩
    · rcases syncStudioModel_cases c incoming.1 with hsync | hsync
      · rw [hsync] at hm
        exact h.fits m hm
      · rw [hsync] at hm
        rcases of_mem_upsertModels hm with rfl | hm
        · exact incoming.2
        · exact h.fits m hm
    · rcases syncStudioModel_cases c incoming.1 with hsync | hsync
      · rw [hsync]
        exact h.known
      · rw [hsync]
        exact h.known.put fun _ hd _ => hd
  | ensureSeeds =>
    cases hstep
    rw [h.known.ensureSeeds]
    exact ⟨h, fun m hm _ => .inl hm⟩
  | reload io =>
    obtain rfl := h.reload hsafe hstep
    exact ⟨h, fun m hm _ => .inl hm⟩

/-- A dismissal lasts until an upsert of its id. -/
theorem Kept.dismissed {e : Op F} {id : String} (h : Kept seeds c) (hsafe : e.Safe s c)
    (hstep : Op.step s seeds c e = some c') (hnot : ¬ e.Upserts id) (hid : id ∈ c.dismissedSeeds) :
    id ∈ c'.dismissedSeeds := by
  cases e with
  | upsert model =>
    cases hstep
    exact List.mem_filter.mpr ⟨hid, by simpa using fun heq => hnot heq.symm⟩
  | remove id' =>
    cases hstep
    exact mem_dismissed_remove hid
  | syncStudioModel incoming =>
    cases hstep
    rcases syncStudioModel_cases c incoming.1 with hsync | hsync <;> rw [hsync] <;> exact hid
  | ensureSeeds =>
    cases hstep
    exact hid
  | reload io => exact h.reload hsafe hstep ▸ hid

theorem Kept.of_run {es : List (Op F)} (h : Kept seeds c)
    (hok : Along (Op.step s seeds) (fun c e => e.Safe s c) c es)
    (hr : run (Op.step s seeds) c es = some c') : Kept seeds c' :=
  along_invariant (fun _ _ _ hc hsafe hstep => (Kept.step hc hsafe hstep).1) es c c' h hok hr

/-- A seed that was removed is dismissed until an upsert of its id. -/
theorem Kept.removed {es : List (Op F)} {id : String} (h : Kept seeds c)
    (hok : Along (Op.step s seeds) (fun c e => e.Safe s c) c es)
    (hr : run (Op.step s seeds) c es = some c') (hseed : id ∈ seeds.models.map (·.id))
    (hremoved : Removed id es) : id ∈ c'.dismissedSeeds := by
  obtain ⟨before, since, rfl, hsince⟩ := hremoved
  obtain ⟨hbefore, hafter⟩ := along_append.mp hok
  rw [run_append] at hr
  obtain ⟨c0, hr0, hr1⟩ := Option.bind_eq_some_iff.mp hr
  obtain ⟨c1, hstep, hr1⟩ := run_cons_some.mp hr1
  have hc0 := h.of_run hbefore hr0
  have hsafe := hafter c0 hr0
  have hdismissed : id ∈ c1.dismissedSeeds := by
    cases hstep
    obtain ⟨m, hm, rfl⟩ := List.mem_map.mp hseed
    rcases hc0.known m hm with hget | hd
    · exact mem_dismissed_of_remove hget hseed
    · exact mem_dismissed_remove hd
  have hstep' : ∀ t e t', (Kept seeds t ∧ id ∈ t.dismissedSeeds) →
      (e.Safe s t ∧ ¬ e.Upserts id) → Op.step s seeds t e = some t' →
      Kept seeds t' ∧ id ∈ t'.dismissedSeeds :=
    fun t e t' ht he hs => ⟨(ht.1.step he.1 hs).1, ht.1.dismissed he.1 hs he.2 ht.2⟩
  exact (along_invariant hstep' since c1 c' ⟨(hc0.step hsafe.1 hstep).1, hdismissed⟩
    ((hsafe.2 c1 hstep).and (along_of_forall hsince)) hr1).2

omit [DecidableEq F] in
theorem consistent_seed (lit : ℚ → F) : (seed lit).Consistent := by
  refine ⟨?_, List.nodup_nil, fun _ h => absurd h List.not_mem_nil⟩
  rw [seed_ids]
  decide

/-- In every history from the seeds whose steps are safe, the catalogue is one consistent record
before and after a step, the step keeps the operator's entries, and a seed that was removed is
not there until an upsert of its id. -/
theorem history_consistent (s : Serde F) (lit : ℚ → F) {es : List (Op F)} {e : Op F}
    (hok : Along (Op.step s (seed lit)) (fun c e => e.Safe s c) (seed lit) (es ++ [e]))
    (hr : run (Op.step s (seed lit)) (seed lit) es = some c)
    (hstep : Op.step s (seed lit) c e = some c') :
    c.Consistent ∧ c'.Consistent ∧ KeepsLocal c e c' ∧
      ∀ id ∈ (seed lit).models.map (·.id), Removed id (es ++ [e]) → c'.get id = none := by
  have hseed : Kept (seed lit) (seed lit) :=
    ⟨consistent_seed lit, seed_fits lit, seedsKnown_seeds _⟩
  have hr' : run (Op.step s (seed lit)) (seed lit) (es ++ [e]) = some c' :=
    run_snoc_some.mpr ⟨c, hr, hstep⟩
  obtain ⟨hes, hlast⟩ := along_append.mp hok
  have hc := hseed.of_run hes hr
  obtain ⟨hc', hlocal⟩ := hc.step (hlast c hr).1 hstep
  refine ⟨hc.consistent, hc'.consistent, hlocal, fun id hid hremoved => ?_⟩
  exact hc'.consistent.dismissedGone id (hseed.removed hok hr' hid hremoved)

open CatalogServer in
/-- A seed is removed, and a start after that does not bring it back. -/
theorem history_consistent_removed :
    ∃ c c', run (Op.step jsonF32 (seed F32.finite)) (seed F32.finite)
        [.remove "qwen3.5-2b", .reload startsWell] = some c ∧
      Op.step jsonF32 (seed F32.finite) c .ensureSeeds = some c' ∧
      c.Consistent ∧ c'.Consistent ∧ KeepsLocal c .ensureSeeds c' ∧
      ∀ id ∈ (seed F32.finite).models.map (·.id),
        Removed (F := F32) id [.remove "qwen3.5-2b", .reload startsWell, .ensureSeeds] →
        c'.get id = none := by
  have hreload : ∀ m ∈ ((seed F32.finite).remove seedIds "qwen3.5-2b").1.models,
      m.Returns jsonF32 :=
    fun m hm => seeds_return m (List.mem_filter.mp hm).1
  have hok : Along (Op.step jsonF32 (seed F32.finite)) (fun c e => e.Safe jsonF32 c)
      (seed F32.finite) ([.remove "qwen3.5-2b", .reload startsWell] ++ [.ensureSeeds]) := by
    refine ⟨trivial, fun c hc => ⟨?_, fun _ _ => ⟨trivial, fun _ _ => trivial⟩⟩⟩
    cases hc
    exact hreload
  have hkept : Kept (seed F32.finite) ((seed F32.finite).remove seedIds "qwen3.5-2b").1 :=
    (Kept.step (s := jsonF32) (e := .remove "qwen3.5-2b")
      ⟨consistent_seed _, seed_fits _, seedsKnown_seeds _⟩ trivial rfl).1
  have hload := hkept.step_reload hreload (rfl : startsWell.read = .ok ())
  have hr : run (Op.step jsonF32 (seed F32.finite)) (seed F32.finite)
      [.remove "qwen3.5-2b", .reload startsWell] =
        some ((seed F32.finite).remove seedIds "qwen3.5-2b").1 :=
    run_cons_some.mpr ⟨_, rfl, run_cons_some.mpr ⟨_, hload, rfl⟩⟩
  exact ⟨_, _, hr, rfl, history_consistent jsonF32 F32.finite hok hr rfl⟩

/-- An offer of a model under the id of a seed, as it is mirrored. -/
def mirroredSeed : Fitting F32 :=
  ⟨mirrored "qwen3.5-2b" .llm ⟨.llamaCpp, [], { cfgScale := F32.finite 1 }⟩, by
    constructor
    · simp [mirrored]
    · constructor <;> simp [mirrored]⟩

open CatalogServer in
/-- A dismissed seed is mirrored: it is in the catalogue and dismissed. -/
theorem mirrored_seed_stays_dismissed :
    ¬ ∀ (F : Type) [Zero F] [DecidableEq F] (s : Serde F) (lit : ℚ → F),
      (∀ m ∈ (seed lit).models, m.Returns s) →
      ∀ (es : List (Op F)) (c : Catalog F),
      run (Op.step s (seed lit)) (seed lit) es = some c → c.Consistent := by
  intro h
  have hc := h F32 jsonF32 F32.finite seeds_return
    [.remove "qwen3.5-2b", .syncStudioModel mirroredSeed] _ rfl
  have hgone := hc.dismissedGone "qwen3.5-2b" (by decide +kernel)
  revert hgone
  decide +kernel

end Catalog

end StudioWorker
