import StudioWorker.Lifecycle
import StudioWorker.Residency
import StudioWorker.Admission

/-!
# Host.Model — the model host (`src/host.rs`)

The state is what `Inner` owns plus the threads that run over it: the background loads and unloads
in flight and the `restore_residents` calls in progress.  A function that runs under the `entries`
lock is one definition; what it reads from outside (the memory probe, whether a save succeeds) is
an argument.

The `entries` map is total: an id nobody asked about reads as `Entry::new()`, which is what
`entry()` inserts for it.  Timestamps, subscribers and log lines are left out.
-/

namespace StudioWorker

/-- A lane is one heap object per loaded instance, named by its number. -/
abbrev LaneId := ℕ

/-- Who holds a lane's `busy` lock: a request, or an unload thread draining the lane. -/
inductive Holder where
  | caller (c : ℕ)
  | unload
deriving DecidableEq, Repr

/-- The serving path of one loaded model: its lock and its cancel flag. -/
structure Lane where
  busy : Option Holder
  cancel : Bool
deriving DecidableEq, Repr

def Lane.new : Lane := ⟨none, false⟩

/-- A loaded model: what `runtime.load` placed, and its lane. -/
structure Loaded where
  model : CatalogModel
  lane : LaneId
deriving DecidableEq

structure Entry where
  lifecycle : Lifecycle
  loaded : Option Loaded
deriving DecidableEq

def Entry.new : Entry := ⟨Lifecycle.new, none⟩

/-- A background load: the outgoing group members it still waits for.  With none left it is in
`runtime.load`, placing weights. -/
structure LoadThread where
  model : CatalogModel
  waitFor : List String
deriving DecidableEq

/-- Where an unload thread is: `obtained` is whether it got the lane within `DRAIN_TIMEOUT`. -/
inductive UnloadPhase where
  | started
  | draining
  | holding
  | drained (obtained : Bool)
deriving DecidableEq, Repr

/-- A background unload; `lane` is the lane the entry had when it was spawned. -/
structure UnloadThread where
  id : String
  lane : Option LaneId
  phase : UnloadPhase
deriving DecidableEq

inductive HostError where
  | unknownModel (id : String)
  | disabled (id : String)
  | refused (refused : Refused)
  | notLoaded (id state : String)
  | laneBusy (id : String)
  | persist (error : String)
deriving DecidableEq

/-- One model's observable status. -/
structure ModelStatus where
  id : String
  state : ModelState
  resident : Bool
deriving DecidableEq

/-- The host's shared state and the threads in flight over it. -/
structure ModelHost where
  residency : Residency
  entries : String → Entry
  lanes : LaneId → Lane
  nextLane : LaneId
  loads : List LoadThread
  unloads : List UnloadThread
  /-- The ids each `restore_residents` call in progress still has to load. -/
  restores : List (List String)

/-- What a residency save answers, by the id being marked. -/
abbrev Saves := String → Except String Unit

def Saves.ok : Saves := fun _ => .ok ()

namespace ModelHost

/-- A host with nothing loaded. -/
def new (residency : Residency) : ModelHost where
  residency := residency
  entries := fun _ => Entry.new
  lanes := fun _ => Lane.new
  nextLane := 0
  loads := []
  unloads := []
  restores := []

def state (h : ModelHost) (id : String) : ModelState := (h.entries id).lifecycle.state

def setEntry (h : ModelHost) (id : String) (e : Entry) : ModelHost :=
  { h with entries := Function.update h.entries id e }

def setLifecycle (h : ModelHost) (id : String) (l : Lifecycle) : ModelHost :=
  h.setEntry id { h.entries id with lifecycle := l }

def setLane (h : ModelHost) (l : LaneId) (lane : Lane) : ModelHost :=
  { h with lanes := Function.update h.lanes l lane }

/-! ## Under the entries lock -/

def statusLocked (h : ModelHost) (id : String) : ModelStatus :=
  ⟨id, h.state id, h.residency.isResident id⟩

/-- `spawn_unload`: the thread keeps the lane the entry has now. -/
def spawnUnload (h : ModelHost) (id : String) : ModelHost :=
  { h with unloads := h.unloads ++ [⟨id, (h.entries id).loaded.map (·.lane), .started⟩] }

def requestUnloadLocked (h : ModelHost) (id : String) : ModelHost :=
  let r := (h.entries id).lifecycle.requestUnload
  let h := h.setLifecycle id r.1
  if r.2 = .beginUnload then h.spawnUnload id else h

/-- `spawn_load`: the thread waits for the outgoing members before it loads. -/
def spawnLoad (h : ModelHost) (model : CatalogModel) (waitForUnloaded : List String) : ModelHost :=
  { h with loads := h.loads ++ [⟨model, waitForUnloaded⟩] }

/-- The end of `load`: the transition, and the thread if it has to start one. -/
def requestLoadLocked (h : ModelHost) (model : CatalogModel) (swapOut : List String)
    (id : String) : ModelHost :=
  let r := (h.entries id).lifecycle.requestLoad
  let h := h.setLifecycle id r.1
  if r.2 = .beginLoad then h.spawnLoad model swapOut else h

/-- `residency.lock().set(..)` of the host. -/
def setResident (h : ModelHost) (id : String) (resident : Bool) (save : Except String Unit) :
    Except String Bool × ModelHost :=
  let r := h.residency.set id resident save
  (r.1, { h with residency := r.2 })

/-- Sum of the estimates of models holding (or about to hold) memory. -/
def loadedGib (h : ModelHost) (catalog : List CatalogModel) : ℚ :=
  ((catalog.filter fun m => (h.state m.id).holdsMemory).map (·.vramGbEstimate)).sum

/-- The group members a `load` of `id` swaps out: those loading or loaded. -/
def swapOut (h : ModelHost) (model : CatalogModel) (catalog : List CatalogModel) (id : String) :
    List String :=
  match model.exclusiveGroup with
  | some group =>
    ((catalog.filter fun m => m.id ≠ id ∧ m.exclusiveGroup = some group).filter
      fun m => (h.state m.id).swappable).map (·.id)
  | none => []

/-- The estimates the swapped-out members are credited with. -/
def freed (catalog : List CatalogModel) (swapOut : List String) : ℚ :=
  ((catalog.filter fun m => m.id ∈ swapOut).map (·.vramGbEstimate)).sum

/-- The admission of a `load`: only one that starts work is checked. -/
def admitLoad (h : ModelHost) (model : CatalogModel) (catalog : List CatalogModel) (probe : Probe)
    (id : String) : Except Refused Unit :=
  if (h.state id).idle then
    admitDevice model.vramGbEstimate
      (credit (freeNow probe (h.loadedGib catalog)) (freed catalog (h.swapOut model catalog id)))
  else .ok ()

/-- Admit a transient job needing `need`: it fits next to the models loaded now and, when it keeps
its weights in host memory, in the host memory available.  What cannot be measured admits it. -/
def admitTransient (h : ModelHost) (catalog : List CatalogModel) (probe : Probe)
    (need : MemoryNeed) : Except Refused Unit :=
  let free := freeNow probe (h.loadedGib catalog)
  let device := if free = .unknown then .ok () else admitDevice need.deviceGib free
  let hostAvailable := need.hostGib.bind fun _ => probe.hostAvailableGib
  device.bind fun _ =>
    match need.hostGib, hostAvailable with
    | some hostNeeded, some available => admitHost hostNeeded available
    | some _, none => .ok ()
    | none, _ => .ok ()

/-- The swap loop of `load`: clear the residency of each outgoing member, then ask it to unload.
The first save that fails ends it. -/
def swapLoop (save : Saves) : List String → ModelHost → Except String Unit × ModelHost
  | [], h => (.ok (), h)
  | other :: rest, h =>
    match h.setResident other false (save other) with
    | (.error e, h) => (.error e, h)
    | (.ok _, h) => swapLoop save rest (h.requestUnloadLocked other)

/-- `load` from the point where it holds the `entries` lock; `catalog` is the snapshot it took. -/
def loadLocked (h : ModelHost) (model : CatalogModel) (catalog : List CatalogModel) (probe : Probe)
    (save : Saves) (id : String) : Except HostError ModelStatus × ModelHost :=
  let swapOut := h.swapOut model catalog id
  match h.admitLoad model catalog probe id with
  | .error refused => (.error (.refused refused), h)
  | .ok () =>
    match h.setResident id true (save id) with
    | (.error e, h) => (.error (.persist e), h)
    | (.ok _, h) =>
      match swapLoop save swapOut h with
      | (.error e, h) => (.error (.persist e), h)
      | (.ok (), h) =>
        let h := h.requestLoadLocked model swapOut id
        (.ok (h.statusLocked id), h)

/-- `unload` from the point where it holds the `entries` lock. -/
def unloadLocked (h : ModelHost) (save : Saves) (id : String) :
    Except HostError ModelStatus × ModelHost :=
  match h.setResident id false (save id) with
  | (.error e, h) => (.error (.persist e), h)
  | (.ok _, h) =>
    let h := h.requestUnloadLocked id
    (.ok (h.statusLocked id), h)

/-! ## The calls -/

def catalogueModel (cat : Catalog) (id : String) : Except HostError CatalogModel :=
  match cat.get id with
  | some m => .ok m
  | none => .error (.unknownModel id)

/-- Load `id` and mark it resident. -/
def load (h : ModelHost) (cat : Catalog) (probe : Probe) (save : Saves) (id : String) :
    Except HostError ModelStatus × ModelHost :=
  match catalogueModel cat id with
  | .error e => (.error e, h)
  | .ok model =>
    if model.enabled then h.loadLocked model cat.models probe save id
    else (.error (.disabled id), h)

/-- Unload `id` and clear its residency. -/
def unload (h : ModelHost) (cat : Catalog) (save : Saves) (id : String) :
    Except HostError ModelStatus × ModelHost :=
  match catalogueModel cat id with
  | .error e => (.error e, h)
  | .ok _ => h.unloadLocked save id

/-- The ids `restore_residents` loads: the residents of the catalogue, in catalogue order. -/
def restoreIds (h : ModelHost) (cat : Catalog) : List String :=
  (cat.models.map (·.id)).filter fun id => h.residency.isResident id

/-- `lane_of`: the loaded instance a request is served on, if its model serves. -/
def laneOf (h : ModelHost) (id : String) : Except HostError Loaded :=
  match (h.entries id).loaded, (h.state id).serves with
  | some loaded, true => .ok loaded
  | _, _ => .error (.notLoaded id (h.state id).name)

/-! ## The background threads -/

/-- `finish_load`, under the `entries` lock; a finish the lifecycle did not expect is dropped. -/
def finishLoad (h : ModelHost) (model : CatalogModel) (result : Except String Unit) : ModelHost :=
  match (h.entries model.id).lifecycle.loadFinished result with
  | .error _ => h
  | .ok (lifecycle, command) =>
    let h :=
      match result with
      | .ok () =>
        { (h.setEntry model.id ⟨lifecycle, some ⟨model, h.nextLane⟩⟩).setLane h.nextLane Lane.new with
          nextLane := h.nextLane + 1 }
      | .error _ => h.setEntry model.id ⟨lifecycle, none⟩
    if command = .beginUnload then h.spawnUnload model.id else h

/-- The last critical section of the unload thread. -/
def finishUnload (h : ModelHost) (id : String) : ModelHost :=
  match (h.entries id).lifecycle.unloadFinished (.ok ()) with
  | .error _ => h.setEntry id ⟨(h.entries id).lifecycle, none⟩
  | .ok (lifecycle, _) => h.setEntry id ⟨lifecycle, none⟩

end ModelHost

end StudioWorker
