import StudioWorker.CatalogJson
import StudioWorker.Engine.Vision
import StudioWorker.Jobs.Run
import StudioWorker.Lib.Places
import StudioWorker.Lib.Slot

/-!
# LocalVision — vision on the local API (`src/local_vision.rs`)

A request asks one model or two.  A loaded model answers on its lane; one that is not loaded runs as
a transient job, under the job gate, which the request takes once and keeps until it returns.  Other
requests, the gate's other users and the models' lifecycles go on in between.

* `resolve`, `animals`, `speciesAnswer`: as in the source.
* `Desk.step`: a step of any request, or of another user of the gate.
* `Request.Sound`: what a request has run, where it stands.
* `vision_answered`: the gate, the runs and the answers, over every interleaving.
-/

namespace StudioWorker.LocalVision

open Lib Lib.System
open Jobs (JobSource)
open Session (JobOutcome)

/-! ## Which model -/

/-- `MAX_CLASSIFIED` -/
def maxClassified : ℕ := 20

inductive VisionError where
  | unknownModel (id : String)
  | noModel (task : VisionTask)
  | wrongModel (id : String) (want : VisionTask) (got : Text)
  | disabled (id : String)
  | busy
  | insufficientMemory (refused : Refused)
  | notServed (id : String)
  | failed (reason : String)
deriving DecidableEq

def does (task : VisionTask) (model : CatalogModel) : Bool :=
  model.kind == .vision &&
    match Vision.defaultsOf model with
    | .ok defaults => defaults.task == task
    | .error _ => false

def resolve (catalog : Catalog) (id : Option String) (task : VisionTask) :
    Except VisionError CatalogModel :=
  match id with
  | none =>
    match catalog.models.find? fun model => model.enabled && does task model with
    | some model => .ok model
    | none => .error (.noModel task)
  | some id =>
    match catalog.get id with
    | none => .error (.unknownModel id)
    | some model =>
      if does task model then
        if model.enabled then .ok model else .error (.disabled id)
      else
        let got :=
          match Vision.defaultsOf model with
          | .ok defaults =>
            if model.kind = .vision then Vision.VisionTask.asStr defaults.task
            else model.kind.name.toList
          | .error _ => model.kind.name.toList
        .error (.wrongModel id task ("a ".toList ++ got ++ " model".toList))

/-! ## What is asked of the models -/

/-- What a request's models make of its picture: of the whole of it, and of a detection's crop. -/
structure Work (D R : Type) where
  animal : D → Bool
  detect : Except String (List D)
  classify : Except String R
  classifyCrop : D → Except String R

inductive Answer (D R : Type) where
  | detected (model : String) (animalPresent : Bool) (detections : List D)
  | classified (model : String) (predictions : R)
  | species (detector classifier : String) (animalPresent : Bool)
      (detections : List (D × Option R))
deriving DecidableEq

section Species

variable {D R : Type} (w : Work D R) (found : List D)

/-- The animals that are classified, each with its place among the detections. -/
def animals : List (D × ℕ) := (found.zipIdx.filter fun d => w.animal d.1).take maxClassified

def rankings : Except String (List R) := (animals w found).mapM fun d => w.classifyCrop d.1

/-- Each ranking at its animal's place. -/
def ranked (rankings : List R) : List (Option R) :=
  ((animals w found).zip rankings).foldl (fun ranked p => ranked.set p.1.2 (some p.2))
    (List.replicate found.length none)

def speciesAnswer (detector classifier : String) (rankings : List R) : Answer D R :=
  .species detector classifier (decide (animals w found ≠ []))
    (found.zip (ranked w found rankings))

end Species

/-! ## Requests -/

inductive Route where
  | detect (model : Option String)
  | classify (model : Option String)
  | species (detector classifier : Option String)
deriving DecidableEq

/-- Which call of `on_model`; the last one has what the detector found. -/
inductive Stage (D : Type) where
  | detect
  | classify
  | species (found : List D)
deriving DecidableEq

/-- A job's record: which model did what. -/
structure VisionRun where
  model : String
  what : String
  source : JobSource
deriving DecidableEq

inductive RequestPhase (D R : Type) where
  | unasked
  /-- About to look whether the stage's model is loaded. -/
  | looking (stage : Stage D)
  /-- It was: about to enter its lane. -/
  | entering (stage : Stage D)
  | reserving (stage : Stage D)
  | admitting (stage : Stage D)
  /-- Admitted and begun: about to load. -/
  | loading (stage : Stage D)
  | working (stage : Stage D) (source : JobSource)
  | returned (result : Except VisionError (Answer D R))

structure Request (D R : Type) where
  phase : RequestPhase D R := .unasked
  species : Bool := false
  detector : String := ""
  classifier : String := ""
  reserved : Bool := false
  begun : List VisionRun := []
  ended : List (VisionRun × JobOutcome) := []

section Request

variable {D R : Type}

def Stage.what : Stage D → String
  | detect => "detect"
  | classify => "classify"
  | species _ => "species"

def Request.model (r : Request D R) : Stage D → String
  | .detect => r.detector
  | .classify | .species _ => r.classifier

def Request.run (r : Request D R) (stage : Stage D) (source : JobSource) : VisionRun :=
  ⟨r.model stage, stage.what, source⟩

def Request.begin (r : Request D R) (stage : Stage D) (source : JobSource) : Request D R :=
  { r with begun := r.begun ++ [r.run stage source] }

def Request.finish (r : Request D R) (stage : Stage D) (source : JobSource)
    (outcome : JobOutcome) : Request D R :=
  { r with ended := r.ended ++ [(r.run stage source, outcome)] }

/-- The request returns, and its reservation is dropped. -/
def Request.back (r : Request D R) (result : Except VisionError (Answer D R)) : Request D R :=
  { r with phase := .returned result, reserved := false }

def Request.goto (r : Request D R) (phase : RequestPhase D R) : Request D R :=
  { r with phase := phase }

/-- `to_string` of `NotServed`. -/
def notServedText (id : String) : String :=
  "model '" ++ id ++ "' is no vision model on this worker (built without the `vision` feature?)"

def Route.begin (catalog : Catalog) : Route → Except VisionError (Request D R)
  | .detect model => do
    let model ← resolve catalog model .detect
    return { phase := .looking .detect, detector := model.id }
  | .classify model => do
    let model ← resolve catalog model .classify
    return { phase := .looking .classify, classifier := model.id }
  | .species detector classifier => do
    let detector ← resolve catalog detector .detect
    let classifier ← resolve catalog classifier .classify
    return { phase := .looking .detect, species := true, detector := detector.id,
             classifier := classifier.id }

/-- What the work of a stage comes to, and what the request does then. -/
def Request.work (w : Work D R) (r : Request D R) (stage : Stage D) (source : JobSource) :
    Request D R :=
  let failed (reason : String) : Request D R :=
    (r.finish stage source (.failed reason)).back (.error (.failed reason))
  let completed := r.finish stage source .completed
  match stage with
  | .detect =>
    match w.detect with
    | .error reason => failed reason
    | .ok found =>
      if r.species then
        if animals w found = [] then
          completed.back (.ok (speciesAnswer w found r.detector r.classifier []))
        else completed.goto (.looking (.species found))
      else completed.back (.ok (.detected r.detector (found.any w.animal) found))
  | .classify =>
    match w.classify with
    | .error reason => failed reason
    | .ok predictions => completed.back (.ok (.classified r.classifier predictions))
  | .species found =>
    match rankings w found with
    | .error reason => failed reason
    | .ok rankings => completed.back (.ok (speciesAnswer w found r.detector r.classifier rankings))

inductive RequestEvent where
  | ask (catalog : Catalog) (route : Route)
  | looked (serves : Bool)
  /-- `with_lane`: whether the model is a vision model, `none` when it was unloaded meanwhile. -/
  | lane (vision : Option Bool)
  | reserve
  /-- `admit_transient`, and the run that begins when it admits. -/
  | admitted (refused : Option Refused)
  /-- `load_transient`: whether the model is a vision model, or why it does not load. -/
  | load (loaded : Except String Bool)
  | work

/-- A request's step, where the gate's flag is up or not. -/
def Request.step (w : Work D R) (busy : Bool) (r : Request D R) :
    RequestEvent → Option (Request D R)
  | .ask catalog route =>
    match r.phase with
    | .unasked =>
      match route.begin catalog with
      | .ok r => some r
      | .error e => some (r.back (.error e))
    | _ => none
  | .looked serves =>
    match r.phase with
    | .looking stage => some (r.goto (if serves then .entering stage else .reserving stage))
    | _ => none
  | .lane vision =>
    match r.phase with
    | .entering stage =>
      match vision with
      | none => some (r.goto (.reserving stage))
      | some false => some (r.back (.error (.notServed (r.model stage))))
      | some true => some ((r.begin stage .lane).goto (.working stage .lane))
    | _ => none
  | .reserve =>
    match r.phase with
    | .reserving stage =>
      if r.reserved then some (r.goto (.admitting stage))
      else if busy then some (r.back (.error .busy))
      else some { r with phase := .admitting stage, reserved := true }
    | _ => none
  | .admitted refused =>
    match r.phase with
    | .admitting stage =>
      match refused with
      | some refused => some (r.back (.error (.insufficientMemory refused)))
      | none => some ((r.begin stage .localApi).goto (.loading stage))
    | _ => none
  | .load loaded =>
    match r.phase with
    | .loading stage =>
      match loaded with
      | .error reason =>
        some ((r.finish stage .localApi (.failed reason)).back (.error (.failed reason)))
      | .ok false =>
        some ((r.finish stage .localApi (.failed (notServedText (r.model stage)))).back
          (.error (.notServed (r.model stage))))
      | .ok true => some (r.goto (.working stage .localApi))
    | _ => none
  | .work =>
    match r.phase with
    | .working stage source => some (r.work w stage source)
    | _ => none

end Request

/-! ## Requests beside one another -/

/-- Who set the gate's flag; the flag itself tells only that someone did. -/
inductive Holder where
  | request (i : ℕ)
  | other
deriving DecidableEq

structure Desk (D R : Type) where
  gate : Option Holder := none
  requests : ℕ → Request D R := fun _ => {}

inductive DeskEvent where
  | request (i : ℕ) (e : RequestEvent)
  /-- One of the gate's other users tries to reserve it. -/
  | otherReserves
  | otherReleases

namespace Desk

variable {D R : Type}

/-- The gate follows the request's reservation. -/
def set (s : Desk D R) (i : ℕ) (r : Request D R) : Desk D R where
  gate := Slot.moved Request.reserved Holder.request i (s.requests i) r s.gate
  requests := Function.update s.requests i r

def step (works : ℕ → Work D R) : System (Desk D R) DeskEvent
  | s, .request i e => ((s.requests i).step (works i) s.gate.isSome e).map (s.set i)
  | s, .otherReserves => if s.gate.isSome then some s else some { s with gate := some .other }
  | s, .otherReleases => if s.gate = some .other then some { s with gate := none } else none

end Desk

/-! ## What a species answer says -/

section Species

variable {D R : Type} {w : Work D R} {found : List D}

/-- The detections as they were found, each of the first animals with what its crop is. -/
def Ranked (w : Work D R) (found : List D) (detections : List (D × Option R)) : Prop :=
  detections.map (·.1) = found ∧ ∀ k d, found[k]? = some d → ∃ species,
    detections[k]? = some (d, species) ∧
      if w.animal d = true ∧ (found.take k).countP w.animal < maxClassified then
        ∃ r, w.classifyCrop d = .ok r ∧ species = some r
      else species = none

theorem mem_animals {d : D} {k : ℕ} :
    (d, k) ∈ animals w found ↔
      found[k]? = some d ∧ w.animal d = true ∧ (found.take k).countP w.animal < maxClassified :=
  Places.mem_take_filter_zipIdx

theorem ranked_eq (rs : List R) :
    ranked w found rs = (((animals w found).zip rs).map fun p => (p.1.2, some p.2)).foldl
      (fun ranked p => ranked.set p.1 p.2) (List.replicate found.length none) := by
  rw [ranked, List.foldl_map]

theorem length_ranked (rs : List R) : (ranked w found rs).length = found.length := by
  rw [ranked_eq, Places.length_foldl_set, List.length_replicate]

theorem ranked_of_rankings {rs : List R} (h : rankings w found = .ok rs) :
    Ranked w found (found.zip (ranked w found rs)) := by
  have hlength : (animals w found).length = rs.length := (Fallible.length_of_mapM_ok h).symm
  have hplaces : (((animals w found).zip rs).map fun p => (p.1.2, some p.2)).map (·.1) =
      (animals w found).map (·.2) := by
    have hfst : ((animals w found).zip rs).map (·.1) = animals w found :=
      List.map_fst_zip hlength.le
    conv_rhs => rw [← hfst]
    rw [List.map_map, List.map_map]
    rfl
  refine ⟨List.map_fst_zip (length_ranked rs).ge, fun k d hd => ?_⟩
  have hk : k < found.length := (List.getElem?_eq_some_iff.mp hd).1
  have hzip : ∀ species, (ranked w found rs)[k]? = some species →
      (found.zip (ranked w found rs))[k]? = some (d, species) := by
    intro species hs
    rw [List.getElem?_zip_eq_some]
    exact ⟨hd, hs⟩
  by_cases hfirst : w.animal d = true ∧ (found.take k).countP w.animal < maxClassified
  · obtain ⟨r, hr, hcrop⟩ := Fallible.mem_zip_of_mapM_ok h (mem_animals.mpr ⟨hd, hfirst⟩)
    refine ⟨some r, hzip _ ?_, ?_⟩
    · rw [ranked_eq]
      refine Places.getElem?_foldl_set (hplaces ▸ Places.nodup_places) ?_ (by simpa using hk)
      exact List.mem_map.mpr ⟨((d, k), r), hr, rfl⟩
    · rw [if_pos hfirst]
      exact ⟨r, hcrop, rfl⟩
  · refine ⟨none, hzip _ ?_, if_neg hfirst ▸ rfl⟩
    rw [ranked_eq, Places.getElem?_foldl_set_of_not_mem, List.getElem?_replicate, if_pos hk]
    rw [hplaces]
    intro hmem
    obtain ⟨⟨d', k'⟩, hanimals, rfl⟩ := List.mem_map.mp hmem
    obtain ⟨hd', hanimal⟩ := mem_animals.mp hanimals
    obtain rfl := Option.some.inj (hd.symm.trans hd')
    exact hfirst hanimal

theorem animals_ne_nil_iff : animals w found ≠ [] ↔ found.any w.animal = true := by
  rw [not_iff_comm, Bool.not_eq_true, List.any_eq_false, animals, List.take_eq_nil_iff,
    List.filter_eq_nil_iff]
  constructor
  · intro h
    refine .inr fun e he => ?_
    exact h e.1 (List.fst_mem_of_mem_zipIdx he)
  · rintro (h | h)
    · cases h
    · intro d hd
      obtain ⟨k, hk, rfl⟩ := List.getElem_of_mem hd
      exact h (found[k], k) (List.mem_zipIdx_iff_getElem?.mpr (List.getElem?_eq_getElem hk))

end Species

/-! ## What a request has run, where it stands -/

section Request

variable {D R : Type} {w : Work D R} {r : Request D R} {stage : Stage D} {source : JobSource}

def Completed (ended : List (VisionRun × JobOutcome)) : Prop := ∀ e ∈ ended, e.2 = .completed

def Request.LaneOnly (r : Request D R) : Prop := ∀ run ∈ r.begun, run.source = .lane

/-- What is answered is what the models make of the picture, each of them run once. -/
def Request.Says (w : Work D R) (r : Request D R) : Answer D R → Prop
  | .detected model present detections =>
    w.detect = .ok detections ∧ present = detections.any w.animal ∧
      ∃ source, r.begun = [⟨model, "detect", source⟩]
  | .classified model predictions =>
    w.classify = .ok predictions ∧ ∃ source, r.begun = [⟨model, "classify", source⟩]
  | .species detector classifier present detections =>
    ∃ found, w.detect = .ok found ∧ present = found.any w.animal ∧ Ranked w found detections ∧
      r.begun.map (fun run => (run.model, run.what)) =
        (detector, "detect") :: if present then [(classifier, "species")] else []

/-- All runs but the last are completed, and that one failed so. -/
def FailedLast (ended : List (VisionRun × JobOutcome)) (reason : String) : Prop :=
  ∃ before run, ended = before ++ [(run, .failed reason)] ∧ Completed before

def Request.Answered (w : Work D R) (r : Request D R) : Except VisionError (Answer D R) → Prop
  | .ok answer => Completed r.ended ∧ r.Says w answer
  | .error (.failed reason) => FailedLast r.ended reason
  | .error (.notServed id) => Completed r.ended ∨ FailedLast r.ended (notServedText id)
  | .error .busy => Completed r.ended ∧ r.LaneOnly
  | .error (.insufficientMemory _) => Completed r.ended
  | .error (.unknownModel _) | .error (.noModel _) | .error (.wrongModel ..)
  | .error (.disabled _) => r.begun = []

/-- What has been run before this stage. -/
def Request.Before (w : Work D R) (r : Request D R) : Stage D → Prop
  | .detect | .classify => r.ended = []
  | .species found => w.detect = .ok found ∧ animals w found ≠ [] ∧
      ∃ source, r.ended = [(⟨r.detector, "detect", source⟩, .completed)]

/-- Until a request reserves the gate only lanes serve it. -/
def Request.Sound (w : Work D R) (r : Request D R) : Prop :=
  match r.phase with
  | .unasked => r.begun = [] ∧ r.ended = [] ∧ r.reserved = false
  | .looking stage | .entering stage | .reserving stage =>
    r.begun = r.ended.map (·.1) ∧ r.Before w stage ∧ (r.reserved = false → r.LaneOnly)
  | .admitting stage => r.begun = r.ended.map (·.1) ∧ r.Before w stage ∧ r.reserved = true
  | .loading stage =>
    r.begun = r.ended.map (·.1) ++ [r.run stage .localApi] ∧ r.Before w stage ∧ r.reserved = true
  | .working stage source =>
    r.begun = r.ended.map (·.1) ++ [r.run stage source] ∧ r.Before w stage ∧
      (r.reserved = false → r.LaneOnly)
  | .returned result =>
    r.begun = r.ended.map (·.1) ∧ r.reserved = false ∧ r.Answered w result

theorem Request.Before.completed (h : r.Before w stage) : Completed r.ended := by
  intro e he
  cases stage with
  | species found =>
    obtain ⟨-, -, source, h⟩ := h
    rw [h, List.mem_singleton] at he
    exact he ▸ rfl
  | detect | classify =>
    rw [show r.ended = [] from h] at he
    cases he

theorem Completed.concat {ended : List (VisionRun × JobOutcome)} (h : Completed ended)
    (run : VisionRun) : Completed (ended ++ [(run, .completed)]) := by
  intro e he
  rcases List.mem_append.mp he with he | he
  · exact h e he
  · rw [List.mem_singleton.mp he]

theorem closed_finish (h : r.begun = r.ended.map (·.1) ++ [r.run stage source])
    (outcome : JobOutcome) :
    (r.finish stage source outcome).begun = (r.finish stage source outcome).ended.map (·.1) := by
  rw [Request.finish, List.map_append]
  exact h

theorem sound_failed (hbegun : r.begun = r.ended.map (·.1) ++ [r.run stage source])
    (hbefore : r.Before w stage) (reason : String) :
    ((r.finish stage source (.failed reason)).back (.error (.failed reason))).Sound w :=
  ⟨closed_finish hbegun _, rfl, r.ended, r.run stage source, rfl, hbefore.completed⟩

theorem Request.Before.work (hbefore : r.Before w stage)
    (hbegun : r.begun = r.ended.map (·.1) ++ [r.run stage source])
    (hlane : r.reserved = false → r.LaneOnly) : (r.work w stage source).Sound w := by
  have hclosed := closed_finish hbegun .completed
  have hcompleted : Completed (r.finish stage source .completed).ended :=
    hbefore.completed.concat _
  have hrun := hbegun
  cases stage with
  | detect =>
    rw [show r.ended = [] from hbefore, List.map_nil, List.nil_append] at hbegun
    cases hdetect : w.detect with
    | error reason =>
      rw [Request.work, hdetect]
      exact sound_failed hrun hbefore reason
    | ok found =>
      rw [Request.work, hdetect]
      dsimp only
      split_ifs with hspecies hnone
      · have hpresent : found.any w.animal = false := by
          rw [← Bool.not_eq_true, ← animals_ne_nil_iff, not_not]
          exact hnone
        have hranked : Ranked w found (found.zip (ranked w found [])) :=
          ranked_of_rankings (by rw [rankings, hnone]; rfl)
        refine ⟨hclosed, rfl, hcompleted, found, hdetect, ?_, hranked, ?_⟩
        · rw [hpresent, hnone]
          rfl
        · show r.begun.map _ = _
          rw [hbegun, hnone]
          rfl
      · refine ⟨hclosed, ⟨hdetect, hnone, source, ?_⟩, hlane⟩
        show r.ended ++ _ = _
        rw [show r.ended = [] from hbefore]
        rfl
      · exact ⟨hclosed, rfl, hcompleted, hdetect, rfl, source, hbegun⟩
  | classify =>
    rw [show r.ended = [] from hbefore, List.map_nil, List.nil_append] at hbegun
    cases hclassify : w.classify with
    | error reason =>
      rw [Request.work, hclassify]
      exact sound_failed hrun hbefore reason
    | ok predictions =>
      rw [Request.work, hclassify]
      exact ⟨hclosed, rfl, hcompleted, hclassify, source, hbegun⟩
  | species found =>
    cases hrankings : rankings w found with
    | error reason =>
      rw [Request.work, hrankings]
      exact sound_failed hrun hbefore reason
    | ok rs =>
      rw [Request.work, hrankings]
      obtain ⟨hdetect, hsome, first, hended⟩ := hbefore
      refine ⟨hclosed, rfl, hcompleted, found, hdetect, ?_, ranked_of_rankings hrankings, ?_⟩
      · rw [animals_ne_nil_iff.mp hsome, decide_eq_true hsome]
      · show r.begun.map _ = _
        rw [hbegun, hended, decide_eq_true hsome]
        rfl

/-- Why no model is resolved is no reason to begin a run. -/
theorem answered_of_resolve {catalog : Catalog} {id : Option String} {task : VisionTask}
    {e : VisionError} (h : resolve catalog id task = .error e) (hr : r.begun = []) :
    r.Answered w (.error e) := by
  unfold resolve at h
  split at h
  · split at h
    · cases h
    · obtain rfl := Except.error.inj h
      exact hr
  · split at h
    · obtain rfl := Except.error.inj h
      exact hr
    · split at h
      · split at h
        · cases h
        · obtain rfl := Except.error.inj h
          exact hr
      · obtain rfl := Except.error.inj h
        exact hr

theorem Route.begin_error {catalog : Catalog} {route : Route} {e : VisionError}
    (h : (route.begin catalog : Except VisionError (Request D R)) = .error e)
    (hr : r.begun = []) : r.Answered w (.error e) := by
  cases route with
  | detect model =>
    cases hmodel : resolve catalog model .detect with
    | error e' =>
      rw [Route.begin, hmodel] at h
      obtain rfl := Except.error.inj h
      exact answered_of_resolve hmodel hr
    | ok m =>
      rw [Route.begin, hmodel] at h
      cases h
  | classify model =>
    cases hmodel : resolve catalog model .classify with
    | error e' =>
      rw [Route.begin, hmodel] at h
      obtain rfl := Except.error.inj h
      exact answered_of_resolve hmodel hr
    | ok m =>
      rw [Route.begin, hmodel] at h
      cases h
  | species detector classifier =>
    cases hdetector : resolve catalog detector .detect with
    | error e' =>
      rw [Route.begin, hdetector] at h
      obtain rfl := Except.error.inj h
      exact answered_of_resolve hdetector hr
    | ok m =>
      cases hclassifier : resolve catalog classifier .classify with
      | error e' =>
        rw [Route.begin, hdetector, Fallible.ok_bind, hclassifier] at h
        obtain rfl := Except.error.inj h
        exact answered_of_resolve hclassifier hr
      | ok m' =>
        rw [Route.begin, hdetector, Fallible.ok_bind, hclassifier] at h
        cases h

theorem Route.begin_ok {catalog : Catalog} {route : Route}
    (h : (route.begin catalog : Except VisionError (Request D R)) = .ok r) : r.Sound w := by
  cases route with
  | detect model =>
    obtain ⟨_, -, h⟩ := Fallible.bind_eq_ok h
    obtain rfl := Except.ok.inj h
    exact ⟨rfl, rfl, fun _ run hrun => by cases hrun⟩
  | classify model =>
    obtain ⟨_, -, h⟩ := Fallible.bind_eq_ok h
    obtain rfl := Except.ok.inj h
    exact ⟨rfl, rfl, fun _ run hrun => by cases hrun⟩
  | species detector classifier =>
    obtain ⟨_, -, h⟩ := Fallible.bind_eq_ok h
    obtain ⟨_, -, h⟩ := Fallible.bind_eq_ok h
    obtain rfl := Except.ok.inj h
    exact ⟨rfl, rfl, fun _ run hrun => by cases hrun⟩

theorem sound_step {busy : Bool} {e : RequestEvent} {r' : Request D R} (hs : r.Sound w)
    (h : r.step w busy e = some r') : r'.Sound w := by
  unfold Request.Sound at hs
  cases e with
  | ask catalog route =>
    unfold Request.step at h
    dsimp only at h
    split at h
    next hphase =>
      rw [hphase] at hs
      obtain ⟨hbegun, hended, -⟩ := hs
      split at h
      next r'' hr => exact Option.some.inj h ▸ Route.begin_ok hr
      next e he =>
        obtain rfl := Option.some.inj h
        refine ⟨?_, rfl, Route.begin_error he hbegun⟩
        show r.begun = r.ended.map (·.1)
        rw [hbegun, hended]
        rfl
    next => cases h
  | looked serves =>
    unfold Request.step at h
    dsimp only at h
    split at h
    next stage hphase =>
      rw [hphase] at hs
      obtain rfl := Option.some.inj h
      cases serves with
      | true => exact hs
      | false => exact hs
    next => cases h
  | lane vision =>
    unfold Request.step at h
    dsimp only at h
    split at h
    next stage hphase =>
      rw [hphase] at hs
      obtain ⟨hbegun, hbefore, hlane⟩ := hs
      split at h
      · obtain rfl := Option.some.inj h
        exact ⟨hbegun, hbefore, hlane⟩
      · obtain rfl := Option.some.inj h
        exact ⟨hbegun, rfl, .inl hbefore.completed⟩
      · obtain rfl := Option.some.inj h
        refine ⟨congrArg (· ++ _) hbegun, hbefore, fun hreserved run hrun => ?_⟩
        rcases List.mem_append.mp hrun with hrun | hrun
        · exact hlane hreserved run hrun
        · rw [List.mem_singleton.mp hrun]
          rfl
    next => cases h
  | reserve =>
    unfold Request.step at h
    dsimp only at h
    split at h
    next stage hphase =>
      rw [hphase] at hs
      obtain ⟨hbegun, hbefore, hlane⟩ := hs
      split_ifs at h with hreserved hbusy
      · obtain rfl := Option.some.inj h
        exact ⟨hbegun, hbefore, hreserved⟩
      · obtain rfl := Option.some.inj h
        exact ⟨hbegun, rfl, hbefore.completed, hlane (by simpa using hreserved)⟩
      · obtain rfl := Option.some.inj h
        exact ⟨hbegun, hbefore, rfl⟩
    next => cases h
  | admitted refused =>
    unfold Request.step at h
    dsimp only at h
    split at h
    next stage hphase =>
      rw [hphase] at hs
      obtain ⟨hbegun, hbefore, hreserved⟩ := hs
      split at h
      · obtain rfl := Option.some.inj h
        exact ⟨hbegun, rfl, hbefore.completed⟩
      · obtain rfl := Option.some.inj h
        exact ⟨congrArg (· ++ _) hbegun, hbefore, hreserved⟩
    next => cases h
  | load loaded =>
    unfold Request.step at h
    dsimp only at h
    split at h
    next stage hphase =>
      rw [hphase] at hs
      obtain ⟨hbegun, hbefore, hreserved⟩ := hs
      split at h
      · obtain rfl := Option.some.inj h
        exact sound_failed hbegun hbefore _
      · obtain rfl := Option.some.inj h
        exact ⟨closed_finish hbegun _, rfl,
          .inr ⟨r.ended, r.run stage .localApi, rfl, hbefore.completed⟩⟩
      · obtain rfl := Option.some.inj h
        refine ⟨hbegun, hbefore, fun hfree => ?_⟩
        exact absurd (hreserved.symm.trans hfree) (by decide)
    next => cases h
  | work =>
    unfold Request.step at h
    dsimp only at h
    split at h
    next stage source hphase =>
      rw [hphase] at hs
      obtain ⟨hbegun, hbefore, hlane⟩ := hs
      obtain rfl := Option.some.inj h
      exact hbefore.work hbegun hlane
    next => cases h

theorem reserved_work (h : (r.work w stage source).reserved = true) : r.reserved = true := by
  cases stage with
  | detect =>
    cases hdetect : w.detect with
    | error reason =>
      rw [Request.work, hdetect] at h
      cases h
    | ok found =>
      rw [Request.work, hdetect] at h
      dsimp only at h
      split_ifs at h
      · cases h
      · exact h
      · cases h
  | classify => cases hclassify : w.classify <;> · rw [Request.work, hclassify] at h; cases h
  | species found =>
    cases hrankings : rankings w found <;> · rw [Request.work, hrankings] at h; cases h

theorem Route.begin_reserved {catalog : Catalog} {route : Route}
    (h : (route.begin catalog : Except VisionError (Request D R)) = .ok r) :
    r.reserved = false := by
  cases route with
  | detect model =>
    obtain ⟨_, -, h⟩ := Fallible.bind_eq_ok h
    exact Except.ok.inj h ▸ rfl
  | classify model =>
    obtain ⟨_, -, h⟩ := Fallible.bind_eq_ok h
    exact Except.ok.inj h ▸ rfl
  | species detector classifier =>
    obtain ⟨_, -, h⟩ := Fallible.bind_eq_ok h
    obtain ⟨_, -, h⟩ := Fallible.bind_eq_ok h
    exact Except.ok.inj h ▸ rfl

/-- Only a reservation of a free gate reserves it. -/
theorem reserved_step {busy : Bool} {e : RequestEvent} {r' : Request D R}
    (h : r.step w busy e = some r') (hr : r'.reserved = true) :
    r.reserved = true ∨ busy = false := by
  unfold Request.step at h
  cases e with
  | ask catalog route =>
    dsimp only at h
    split at h
    · split at h
      next r'' hbegin =>
        obtain rfl := Option.some.inj h
        rw [Route.begin_reserved hbegin] at hr
        cases hr
      next =>
        obtain rfl := Option.some.inj h
        cases hr
    · cases h
  | looked serves =>
    dsimp only at h
    split at h
    · obtain rfl := Option.some.inj h
      exact .inl hr
    · cases h
  | lane vision =>
    dsimp only at h
    split at h
    · split at h
      · obtain rfl := Option.some.inj h
        exact .inl hr
      · obtain rfl := Option.some.inj h
        cases hr
      · obtain rfl := Option.some.inj h
        exact .inl hr
    · cases h
  | reserve =>
    dsimp only at h
    split at h
    · split_ifs at h with hreserved hbusy
      · exact .inl hreserved
      · obtain rfl := Option.some.inj h
        cases hr
      · exact .inr (by simpa using hbusy)
    · cases h
  | admitted refused =>
    dsimp only at h
    split at h
    · split at h
      · obtain rfl := Option.some.inj h
        cases hr
      · obtain rfl := Option.some.inj h
        exact .inl hr
    · cases h
  | load loaded =>
    dsimp only at h
    split at h
    · split at h
      · obtain rfl := Option.some.inj h
        cases hr
      · obtain rfl := Option.some.inj h
        cases hr
      · obtain rfl := Option.some.inj h
        exact .inl hr
    · cases h
  | work =>
    dsimp only at h
    split at h
    · obtain rfl := Option.some.inj h
      exact .inl (reserved_work hr)
    · cases h

/-- Its model is loaded for this request alone. -/
def Request.Transient (r : Request D R) : Prop :=
  match r.phase with
  | .loading _ => True
  | .working _ source => source = .localApi
  | _ => False

theorem Request.Sound.reserved (hs : r.Sound w) (h : r.Transient) : r.reserved = true := by
  unfold Request.Transient at h
  unfold Request.Sound at hs
  split at h
  next stage hphase =>
    rw [hphase] at hs
    exact hs.2.2
  next stage source hphase =>
    rw [hphase] at hs
    obtain ⟨hbegun, -, hlane⟩ := hs
    subst h
    by_contra hfree
    have hmem : r.run stage .localApi ∈ r.begun := by rw [hbegun]; simp
    cases hlane (by simpa using hfree) _ hmem
  next => exact h.elim

end Request

namespace Desk

variable {D R : Type} {works : ℕ → Work D R} {s t : Desk D R} {e : DeskEvent}

/-- Each request is sound, and the gate is up for the one that has reserved it. -/
def Inv (works : ℕ → Work D R) (s : Desk D R) : Prop :=
  (∀ i, (s.requests i).Sound (works i)) ∧
    Slot.Owned Request.reserved Holder.request s.requests s.gate

theorem request_injective : Function.Injective Holder.request := fun _ _ h => Holder.request.inj h

theorem other_ne (i : ℕ) : Holder.other ≠ .request i := by rintro ⟨⟩

theorem step_inv (hs : s.Inv works) (h : step works s e = some t) : t.Inv works := by
  obtain ⟨hsound, hgate⟩ := hs
  cases e with
  | request i e =>
    obtain ⟨r, hr, rfl⟩ := Option.map_eq_some_iff.mp h
    refine ⟨fun j => ?_, ?_⟩
    · show (Function.update s.requests i r j).Sound (works j)
      by_cases hj : j = i
      · subst hj
        rw [Function.update_self]
        exact sound_step (hsound j) hr
      · rw [Function.update_of_ne hj]
        exact hsound j
    · refine hgate.move request_injective fun hreserved => ?_
      exact (reserved_step hr hreserved).imp id (by simp)
  | otherReserves =>
    unfold step at h
    dsimp only at h
    split_ifs at h with hbusy
    · exact Option.some.inj h ▸ ⟨hsound, hgate⟩
    · obtain rfl := Option.some.inj h
      have hnone : s.gate = none := by simpa using hbusy
      exact ⟨hsound, Slot.Owned.take (hnone ▸ hgate) other_ne⟩
  | otherReleases =>
    unfold step at h
    dsimp only at h
    split_ifs at h with hother
    obtain rfl := Option.some.inj h
    exact ⟨hsound, Slot.Owned.leave (hother ▸ hgate) other_ne⟩

theorem inv_of_run {es : List DeskEvent} (hrun : run (step works) {} es = some s) :
    s.Inv works := by
  refine run_invariant (fun _ _ _ => step_inv) ?_ hrun
  refine ⟨fun i => ⟨rfl, rfl, rfl⟩, fun i => ?_⟩
  show false = true ↔ none = some (Holder.request i)
  simp

/-- Whatever requests come, and whatever becomes of the models and of the gate meanwhile: one model
at most is loaded for a request alone, under the gate; a request has one run under way at most, and
when it returns every run it began is ended, the gate is not its own, and its answer is what its
models make of the picture, each asked once.  One that is refused as busy had not reserved. -/
theorem vision_answered {es : List DeskEvent} (hrun : run (step works) {} es = some s) :
    (∀ i, (s.requests i).Transient → s.gate = some (.request i) ∧
        ∀ j, (s.requests j).Transient → j = i) ∧
      (∀ i, (s.requests i).begun = (s.requests i).ended.map (·.1) ∨
        ∃ run, (s.requests i).begun = (s.requests i).ended.map (·.1) ++ [run]) ∧
      ∀ i result, (s.requests i).phase = .returned result →
        s.gate ≠ some (.request i) ∧
          (s.requests i).begun = (s.requests i).ended.map (·.1) ∧
          (s.requests i).Answered (works i) result := by
  obtain ⟨hsound, hgate⟩ := inv_of_run hrun
  refine ⟨fun i hi => ⟨(hgate i).mp ((hsound i).reserved hi), fun j hj => ?_⟩, fun i => ?_,
    fun i result hphase => ?_⟩
  · exact hgate.unique request_injective ((hsound j).reserved hj) ((hsound i).reserved hi)
  · have h := hsound i
    unfold Request.Sound at h
    split at h
    next => exact .inl (by rw [h.1, h.2.1]; rfl)
    next => exact .inl h.1
    next => exact .inl h.1
    next => exact .inl h.1
    next => exact .inl h.1
    next => exact .inr ⟨_, h.1⟩
    next => exact .inr ⟨_, h.1⟩
    next => exact .inl h.1
  · have h := hsound i
    unfold Request.Sound at h
    rw [hphase] at h
    obtain ⟨hbegun, hfree, hanswered⟩ := h
    refine ⟨fun hmine => ?_, hbegun, hanswered⟩
    rw [← hgate i, hfree] at hmine
    cases hmine

def visionModel (id : String) (task : VisionTask) : CatalogModel where
  id := id
  displayName := id
  kind := .vision
  source := ⟨.onnxVision, [], { vision := some { task := task } }⟩

def visionCatalog : Catalog where
  models := [visionModel "finder" .detect, visionModel "namer" .classify]

/-- Two animals and a car. -/
def pictureWork : Work Bool String where
  animal := id
  detect := .ok [true, false, true]
  classify := .error "not asked"
  classifyCrop _ := .ok "fox"

/-- The detector has to be loaded, and the classifier is; another request comes meanwhile. -/
def twoRequests : List DeskEvent :=
  [.request 0 (.ask visionCatalog (.species none (some "namer"))), .request 0 (.looked false),
   .request 0 .reserve, .request 0 (.admitted none), .request 0 (.load (.ok true)),
   .request 1 (.ask visionCatalog (.detect none)), .request 1 (.looked false), .request 1 .reserve,
   .request 0 .work, .request 0 (.looked true), .otherReserves, .request 0 (.lane (some true)),
   .request 0 .work]

theorem vision_answered_twoRequests :
    ∃ s, run (step fun _ => pictureWork) {} twoRequests = some s ∧
      (s.requests 0).begun = [⟨"finder", "detect", .localApi⟩, ⟨"namer", "species", .lane⟩] ∧
      (s.requests 1).begun = [] ∧
      ∀ i result, (s.requests i).phase = .returned result →
        s.gate ≠ some (.request i) ∧ (s.requests i).Answered pictureWork result :=
  exists_run (P := fun s =>
      (s.requests 0).begun = [⟨"finder", "detect", .localApi⟩, ⟨"namer", "species", .lane⟩] ∧
        (s.requests 1).begun = [])
    (by decide) fun s hs hbegun =>
      ⟨hbegun.1, hbegun.2, fun i result hphase =>
        have h := (vision_answered hs).2.2 i result hphase
        ⟨h.1, h.2.2⟩⟩

end Desk

end StudioWorker.LocalVision
