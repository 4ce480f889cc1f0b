import StudioWorker.CatalogJson
import StudioWorker.Seeds
import StudioWorker.Host.Model
import StudioWorker.Lib.System

/-!
# CatalogServer — the catalogue behind the local API (`src/catalog.rs`, `src/local_api.rs`)

`POST /models` and `DELETE /models/:id` change the catalogue in memory and then save all of it.
A save goes to a temporary file that is renamed over the target, so one that fails leaves the file
as it was; so does a read that fails.  What the system answers is in the events.

* `CatalogServer.step`: a request, a mirrored offer or a restart.
* `failed_saves_leave_no_trace`: the failing requests that change nothing, over whole histories.
-/

namespace StudioWorker

open Lib Lib.Json Lib.System

/-- The catalogue file: absent, or a document (`none`: not JSON). -/
inductive CatalogFile where
  | absent
  | document (doc : Option Json)

/-- What the system answers to a start's read, quarantining rename and write of the file. -/
structure StartIo where
  read : Except String Unit
  rename : Except String Unit
  save : Except String Unit

section

variable {F : Type} [Zero F]

namespace Catalog

/-- Add every seed the catalogue lacks, but those the operator deleted.  Returns whether anything
was added. -/
def ensureSeeds (c seeds : Catalog F) : Catalog F × Bool :=
  let missing := seeds.models.filter fun m => (c.get m.id).isNone ∧ m.id ∉ c.dismissedSeeds
  ({ c with models := c.models ++ missing }, !missing.isEmpty)

/-- Load the catalogue from its file: seeded where there is none, quarantined and reseeded where
it does not parse. -/
def loadOrSeed (s : Serde F) (seeds : Catalog F) (io : StartIo) (file : CatalogFile) :
    Except String (Catalog F) × CatalogFile :=
  match io.read with
  | .error e => (.error e, file)
  | .ok () =>
    match file with
    | .absent =>
      match io.save with
      | .error e => (.error e, .absent)
      | .ok () => (.ok seeds, .document (some (seeds.serialize s)))
    | .document doc =>
      match doc.bind (deserialize s) with
      | some c =>
        if (c.ensureSeeds seeds).2 then
          match io.save with
          | .error e => (.error e, file)
          | .ok () => (.ok (c.ensureSeeds seeds).1,
              .document (some ((c.ensureSeeds seeds).1.serialize s)))
        else (.ok c, file)
      | none =>
        match io.rename with
        | .error e => (.error e, file)
        | .ok () =>
          match io.save with
          | .error e => (.error e, .absent)
          | .ok () => (.ok seeds, .document (some (seeds.serialize s)))

end Catalog

/-- The catalogue in memory, the path it is saved to (`none`: memory only) and its file. -/
structure CatalogServer (F : Type) where
  catalog : Catalog F
  path : Option String
  file : CatalogFile

/-- An answer to `POST /models` or `DELETE /models/:id`. -/
inductive CatalogAnswer where
  | ok
  | badModel
  | unloadFailed (e : HostError)
  | noSuchModel
  | saveFailed (e : String)

def CatalogAnswer.status : CatalogAnswer → ℕ
  | ok => 200
  | badModel => 400
  | unloadFailed _ => 500
  | noSuchModel => 404
  | saveFailed _ => 500

inductive ServerEvent where
  /-- `POST /models`; `none` is a body that is not JSON. -/
  | addModel (body : Option Json) (save : Except String Unit)
  /-- `DELETE /models/:id`, with what its unload answered. -/
  | deleteModel (id : String) (unloaded : Except HostError Unit) (save : Except String Unit)
  /-- An offer is mirrored; `source` is the part of its frame that describes the model. -/
  | offer (modelId : String) (kind : TaskKind) (source : Json) (save : Except String Unit)
  | restart (io : StartIo)

namespace CatalogServer

variable (s : Serde F) (seeds : Catalog F)

/-- Load for serving: the catalogue plus the path future saves may write to. -/
def loadForServing (path : Option String) (io : StartIo) (file : CatalogFile) : CatalogServer F :=
  match path with
  | none => ⟨seeds, none, file⟩
  | some path =>
    match Catalog.loadOrSeed s seeds io file with
    | (.ok catalog, file) => ⟨catalog, some path, file⟩
    | (.error _, file) => ⟨seeds, none, file⟩

/-- Save the catalogue, where there is a path to save it to. -/
def persist (srv : CatalogServer F) (save : Except String Unit) :
    Except String Unit × CatalogServer F :=
  match srv.path with
  | none => (.ok (), srv)
  | some _ =>
    match save with
    | .error e => (.error e, srv)
    | .ok () => (.ok (), { srv with file := .document (some (srv.catalog.serialize s)) })

omit [Zero F] in
/-- A save that fails saves nothing. -/
theorem persist_error (t : CatalogServer F) {msg : String} (h : t.path.isSome = true) :
    persist s t (.error msg) = (.error msg, t) := by
  unfold persist
  obtain ⟨p, hp⟩ := Option.isSome_iff_exists.mp h
  rw [hp]

omit [Zero F] in
theorem persist_catalog (t : CatalogServer F) (save : Except String Unit) :
    (persist s t save).2.catalog = t.catalog := by
  unfold persist
  rcases t.path with _ | p
  · rfl
  · rcases save with msg | u <;> rfl

def handleAddModel (srv : CatalogServer F) (body : Option Json) (save : Except String Unit) :
    CatalogAnswer × CatalogServer F :=
  match body.bind (CatalogModel.deserialize s 0) with
  | none => (.badModel, srv)
  | some model =>
    match persist s { srv with catalog := srv.catalog.upsert model } save with
    | (.ok (), srv) => (.ok, srv)
    | (.error e, srv) => (.saveFailed e, srv)

/-- A posted model is in the catalogue whether or not it was saved. -/
theorem handleAddModel_catalog (srv : CatalogServer F) (body : Option Json)
    (save : Except String Unit) :
    (handleAddModel s srv body save).2.catalog =
      ((body.bind (CatalogModel.deserialize s 0)).map srv.catalog.upsert).getD srv.catalog := by
  unfold handleAddModel
  rcases body.bind (CatalogModel.deserialize s 0) with _ | model
  · rfl
  · have hsaved := persist_catalog s ⟨srv.catalog.upsert model, srv.path, srv.file⟩ save
    dsimp only
    split <;> rename_i heq <;> rw [heq] at hsaved <;> exact hsaved

/-- A model whose save fails stays in memory. -/
theorem handleAddModel_error {srv : CatalogServer F} {body : Option Json} {model : CatalogModel F}
    {msg : String} (hpath : srv.path.isSome = true)
    (hbody : body.bind (CatalogModel.deserialize s 0) = some model) :
    handleAddModel s srv body (.error msg) =
      (.saveFailed msg, { srv with catalog := srv.catalog.upsert model }) := by
  unfold handleAddModel
  rw [hbody]
  dsimp only
  rw [persist_error s ⟨srv.catalog.upsert model, srv.path, srv.file⟩ hpath]

/-- The unload failed for a reason other than an unknown model. -/
def unloadFailure : Except HostError Unit → Option HostError
  | .ok () => none
  | .error (.unknownModel _) => none
  | .error e => some e

def handleDeleteModel (srv : CatalogServer F) (id : String) (unloaded : Except HostError Unit)
    (save : Except String Unit) : CatalogAnswer × CatalogServer F :=
  match unloadFailure unloaded with
  | some e => (.unloadFailed e, srv)
  | none =>
    let (catalog, existed) := srv.catalog.remove (seeds.models.map (·.id)) id
    let (saved, srv) := persist s { srv with catalog := catalog } save
    if existed then
      match saved with
      | .ok () => (.ok, srv)
      | .error e => (.saveFailed e, srv)
    else (.noSuchModel, srv)

omit [Zero F] in
/-- A removal whose save fails stays in memory. -/
theorem handleDeleteModel_error {srv : CatalogServer F} {id : String}
    {unloaded : Except HostError Unit} {msg : String} (hpath : srv.path.isSome = true)
    (hunload : unloadFailure unloaded = none) :
    handleDeleteModel s seeds srv id unloaded (.error msg) =
      (if (srv.catalog.remove (seeds.models.map (·.id)) id).2 then .saveFailed msg
        else .noSuchModel,
        { srv with catalog := (srv.catalog.remove (seeds.models.map (·.id)) id).1 }) := by
  unfold handleDeleteModel
  rw [hunload]
  generalize srv.catalog.remove (seeds.models.map (·.id)) id = removed
  obtain ⟨catalog, existed⟩ := removed
  dsimp only
  rw [persist_error s ⟨catalog, srv.path, srv.file⟩ hpath]
  split_ifs <;> rfl

variable [DecidableEq F]

/-- Mirror a model seen on an offer; a failed save is only logged. -/
def syncStudioModel (srv : CatalogServer F) (modelId : String) (kind : TaskKind)
    (source : ModelSource F) (save : Except String Unit) : CatalogServer F :=
  let (catalog, changed) := srv.catalog.syncStudioModel (Catalog.mirrored modelId kind source)
  if changed then (persist s { srv with catalog := catalog } save).2 else srv

/-- What an event leaves, with the path the config gives the catalogue.  An offer that does not
parse mirrors nothing. -/
def next (path : Option String) (srv : CatalogServer F) : ServerEvent → CatalogServer F
  | .addModel body save => (handleAddModel s srv body save).2
  | .deleteModel id unloaded save => (handleDeleteModel s seeds srv id unloaded save).2
  | .offer modelId kind source save =>
    match ModelSource.deserialize s 2 source with
    | some source => syncStudioModel s srv modelId kind source save
    | none => srv
  | .restart io => loadForServing s seeds path io srv.file

def step (path : Option String) : System (CatalogServer F) ServerEvent :=
  fun srv e => some (next s seeds path srv e)

/-! ## Requests whose save fails -/

omit [DecidableEq F] in
/-- The request got as far as its save, and the save failed. -/
def saveFails (srv : CatalogServer F) : ServerEvent → Bool
  | .addModel body save =>
    srv.path.isSome && (body.bind (CatalogModel.deserialize s 0)).isSome && !save.isOk
  | .deleteModel _ unloaded save =>
    srv.path.isSome && (unloadFailure unloaded).isNone && !save.isOk
  | .offer _ _ _ _ | .restart _ => false

omit [DecidableEq F] in
/-- The request asks for nothing new: the model it posts is already there, or the one it deletes
is not. -/
def AsksNothing (srv : CatalogServer F) : ServerEvent → Prop
  | .addModel body _ => ∀ m ∈ body.bind (CatalogModel.deserialize s 0),
      srv.catalog.get m.id = some m ∧ m.id ∉ srv.catalog.dismissedSeeds
  | .deleteModel id _ _ => srv.catalog.get id = none
  | .offer _ _ _ _ | .restart _ => True

/-- The history without the requests whose save failed. -/
def withoutFailed (path : Option String) : CatalogServer F → List ServerEvent → List ServerEvent
  | _, [] => []
  | srv, e :: es =>
    if saveFails s srv e then withoutFailed path (next s seeds path srv e) es
    else e :: withoutFailed path (next s seeds path srv e) es

variable {s seeds} {srv : CatalogServer F} {e : ServerEvent} {path : Option String}

/-- A request whose save fails leaves the file, and memory exactly where it asked for nothing. -/
theorem next_eq_iff (h : saveFails s srv e = true) :
    next s seeds path srv e = srv ↔ AsksNothing s srv e := by
  cases e with
  | addModel body save =>
    simp only [saveFails, Bool.and_eq_true] at h
    obtain ⟨⟨hpath, hbody⟩, hsave⟩ := h
    obtain ⟨model, hmodel⟩ := Option.isSome_iff_exists.mp hbody
    cases save with
    | ok u => cases hsave
    | error msg =>
      rw [next, handleAddModel_error s hpath hmodel, AsksNothing, hmodel]
      simp only [Option.mem_some_iff, forall_eq']
      rw [← Catalog.upsert_eq_self]
      exact ⟨fun h => congrArg catalog h, fun h => by rw [h]⟩
  | deleteModel id unloaded save =>
    simp only [saveFails, Bool.and_eq_true, Option.isNone_iff_eq_none] at h
    obtain ⟨⟨hpath, hunload⟩, hsave⟩ := h
    cases save with
    | ok u => cases hsave
    | error msg =>
      rw [next, handleDeleteModel_error s seeds hpath hunload, AsksNothing,
        ← Catalog.remove_eq_self (seeds.models.map (·.id))]
      exact ⟨fun h => congrArg catalog h, fun h => by rw [h]⟩
  | offer modelId kind source save => cases h
  | restart io => cases h

/-! ## Answers -/

omit [DecidableEq F] in
variable (s seeds srv) in
/-- What a request is answered. -/
def answer : ServerEvent → Option CatalogAnswer
  | .addModel body save => some (handleAddModel s srv body save).1
  | .deleteModel id unloaded save => some (handleDeleteModel s seeds srv id unloaded save).1
  | .offer _ _ _ _ | .restart _ => none

omit [DecidableEq F] in
/-- A request whose save fails is answered with an error. -/
theorem answer_of_saveFails (h : saveFails s srv e = true) :
    ∃ a, answer s seeds srv e = some a ∧ a.status ≠ 200 := by
  cases e with
  | addModel body save =>
    simp only [saveFails, Bool.and_eq_true] at h
    obtain ⟨⟨hpath, hbody⟩, hsave⟩ := h
    obtain ⟨model, hmodel⟩ := Option.isSome_iff_exists.mp hbody
    cases save with
    | ok u => cases hsave
    | error msg =>
      rw [answer, handleAddModel_error s hpath hmodel]
      exact ⟨_, rfl, by simp [CatalogAnswer.status]⟩
  | deleteModel id unloaded save =>
    simp only [saveFails, Bool.and_eq_true, Option.isNone_iff_eq_none] at h
    obtain ⟨⟨hpath, hunload⟩, hsave⟩ := h
    cases save with
    | ok u => cases hsave
    | error msg =>
      rw [answer, handleDeleteModel_error s seeds hpath hunload]
      refine ⟨_, rfl, ?_⟩
      dsimp only
      split_ifs <;> simp [CatalogAnswer.status]
  | offer modelId kind source save => cases h
  | restart io => cases h

/-- Failing requests leave memory and file as they were exactly when they ask for nothing; then the
whole history ends as it would have without them, restarts included. -/
theorem failed_saves_leave_no_trace (s : Serde F) (seeds : Catalog F) (path : Option String)
    (srv : CatalogServer F) (es : List ServerEvent) :
    (Along (step s seeds path)
        (fun srv e => saveFails s srv e = true → next s seeds path srv e = srv) srv es ↔
      Along (step s seeds path)
        (fun srv e => saveFails s srv e = true → AsksNothing s srv e) srv es) ∧
    (Along (step s seeds path) (fun srv e => saveFails s srv e = true → AsksNothing s srv e) srv es →
      run (step s seeds path) srv es =
        run (step s seeds path) srv (withoutFailed s seeds path srv es)) := by
  constructor
  · have hevent : ∀ srv e, (saveFails s srv e = true → next s seeds path srv e = srv) ↔
        (saveFails s srv e = true → AsksNothing s srv e) :=
      fun srv e => imp_congr_right fun hf => next_eq_iff hf
    exact ⟨Along.mono fun srv e => (hevent srv e).mp, Along.mono fun srv e => (hevent srv e).mpr⟩
  · induction es generalizing srv with
    | nil =>
      intro _
      rfl
    | cons e es ih =>
      rintro ⟨he, hes⟩
      have ih := ih (next s seeds path srv e) (hes _ rfl)
      rw [withoutFailed]
      by_cases hf : saveFails s srv e = true
      · rw [if_pos hf, run_cons]
        have hsame : next s seeds path srv e = srv := (next_eq_iff hf).mpr (he hf)
        rw [hsame] at ih ⊢
        show (some (next s seeds path srv e)).bind _ = _
        rw [hsame]
        exact ih
      · rw [if_neg hf, run_cons, run_cons]
        exact ih

/-- A library that writes every number exactly and no free-form object. -/
def exactSerde : Serde ℚ where
  readFloat
    | .int n => some n
    | .dec q => some q
  writeFloat q := some (.dec q)
  readMap _ := none
  writeMap _ := []

/-- The body of a model without files. -/
def modelBody (id : String) : Json :=
  CatalogModel.serialize exactSerde
    ⟨id, id, .llm, 1, none, ⟨.llamaCpp, [], {}⟩, true, "local", none⟩

/-- The disk is full: the posted model stays in memory. -/
theorem failed_post_serves_model :
    ¬ ∀ (F : Type) [Zero F] [DecidableEq F] (s : Serde F) (seeds : Catalog F)
      (path : Option String) (srv : CatalogServer F) (e : ServerEvent),
      saveFails s srv e = true → next s seeds path srv e = srv := by
  intro h
  have hsame := h ℚ exactSerde ⟨[], []⟩ (some "models.json") ⟨⟨[], []⟩, some "models.json", .absent⟩
    (.addModel (some (modelBody "m")) (.error "No space left on device")) (by decide)
  have hlen := congrArg (fun srv => srv.catalog.models.length) hsame
  revert hlen
  decide

end CatalogServer

end

end StudioWorker
