import Mathlib.Logic.Basic

/-!
# Lifecycle — one model's lifecycle state machine (`src/lifecycle.rs`)

Pure: it decides what the model host must do next, and the host reports back when that work
finishes.  Admission and exclusive groups are the host's concern.
-/

namespace StudioWorker

/-- Where one catalogue model is. -/
inductive ModelState where
  | unloaded
  | loading
  | loaded
  | unloading
  | failed (reason : String)
deriving DecidableEq, Repr

namespace ModelState

/-- The name used on the wire and in logs. -/
def name : ModelState → String
  | unloaded => "unloaded"
  | loading => "loading"
  | loaded => "loaded"
  | unloading => "unloading"
  | failed _ => "failed"

/-- Whether requests may be served on the model's lane. -/
def serves : ModelState → Bool
  | loaded => true
  | _ => false

/-- `matches!(state, Unloaded | Failed { .. })`: a `load` starts work, a swap's wait ends. -/
def idle : ModelState → Bool
  | unloaded | failed _ => true
  | _ => false

/-- `matches!(state, Loading | Loaded)`: a swap asks this group member to unload. -/
def swappable : ModelState → Bool
  | loading | loaded => true
  | _ => false

/-- `matches!(state, Loading | Loaded | Unloading)`: the estimate counts as taken memory. -/
def holdsMemory : ModelState → Bool
  | loading | loaded | unloading => true
  | _ => false

/-- Where an unload request takes a state. -/
def afterUnloadRequest : ModelState → ModelState
  | loaded => unloading
  | failed _ => unloaded
  | s => s

/-- Where a load request takes a state. -/
def afterLoadRequest : ModelState → ModelState
  | unloaded | failed _ => loading
  | s => s

@[simp] theorem holdsMemory_eq_not_idle (s : ModelState) : s.holdsMemory = !s.idle := by
  cases s <;> rfl

theorem not_idle_iff {s : ModelState} :
    s.idle = false ↔ s = loading ∨ s = loaded ∨ s = unloading := by
  cases s <;> simp [idle]

theorem swappable_iff {s : ModelState} : s.swappable = true ↔ s = loading ∨ s = loaded := by
  cases s <;> simp [swappable]

@[simp] theorem idle_afterUnloadRequest (s : ModelState) : s.afterUnloadRequest.idle = s.idle := by
  cases s <;> rfl

/-- An unload request makes no state swappable, and leaves one so only while it is loading. -/
theorem swappable_afterUnloadRequest {s : ModelState} :
    s.afterUnloadRequest.swappable = true ↔ s = loading := by
  cases s <;> simp [afterUnloadRequest, swappable]

/-- A load request changes only an idle state. -/
theorem afterLoadRequest_of_not_idle {s : ModelState} (h : s.idle = false) :
    s.afterLoadRequest = s := by
  cases s <;> simp_all [idle, afterLoadRequest]

theorem afterLoadRequest_of_idle {s : ModelState} (h : s.idle = true) :
    s.afterLoadRequest = loading := by
  cases s <;> simp_all [idle, afterLoadRequest]

end ModelState

/-- Work the host must start after a transition. -/
inductive Command where
  | none
  | beginLoad
  | beginUnload
deriving DecidableEq, Repr

/-- A finish event arrived in a state that never started that work. -/
structure UnexpectedEvent where
  event : String
  state : String
deriving DecidableEq, Repr

/-- One model's lifecycle. -/
structure Lifecycle where
  state : ModelState
  /-- An unload asked for while loading; runs once the load succeeds. -/
  unloadPending : Bool
deriving DecidableEq, Repr

namespace Lifecycle

def new : Lifecycle := ⟨.unloaded, false⟩

def requestLoad (l : Lifecycle) : Lifecycle × Command :=
  match l.state with
  | .unloaded | .failed _ => ({ l with state := .loading }, .beginLoad)
  | .loading => ({ l with unloadPending := false }, .none)
  | .loaded | .unloading => (l, .none)

def requestUnload (l : Lifecycle) : Lifecycle × Command :=
  match l.state with
  | .loaded => ({ l with state := .unloading }, .beginUnload)
  | .loading => ({ l with unloadPending := true }, .none)
  | .failed _ => ({ l with state := .unloaded }, .none)
  | .unloaded | .unloading => (l, .none)

def unexpected (l : Lifecycle) (event : String) : UnexpectedEvent := ⟨event, l.state.name⟩

def loadFinished (l : Lifecycle) (outcome : Except String Unit) :
    Except UnexpectedEvent (Lifecycle × Command) :=
  if l.state ≠ .loading then .error (l.unexpected "load_finished")
  else
    match outcome with
    | .ok () =>
      if l.unloadPending then .ok (⟨.unloading, false⟩, .beginUnload)
      else .ok (⟨.loaded, false⟩, .none)
    | .error reason => .ok (⟨.failed reason, false⟩, .none)

def unloadFinished (l : Lifecycle) (outcome : Except String Unit) :
    Except UnexpectedEvent (Lifecycle × Command) :=
  if l.state ≠ .unloading then .error (l.unexpected "unload_finished")
  else
    match outcome with
    | .ok () => .ok ({ l with state := .unloaded }, .none)
    | .error reason => .ok ({ l with state := .failed reason }, .none)

/-! ## What a request does, state by state -/

theorem requestLoad_state (l : Lifecycle) : l.requestLoad.1.state = l.state.afterLoadRequest := by
  obtain ⟨s, p⟩ := l
  cases s <;> rfl

theorem requestUnload_state (l : Lifecycle) :
    l.requestUnload.1.state = l.state.afterUnloadRequest := by
  obtain ⟨s, p⟩ := l
  cases s <;> rfl

theorem requestLoad_command {l : Lifecycle} :
    l.requestLoad.2 = .beginLoad ↔ l.state.idle = true := by
  obtain ⟨s, p⟩ := l
  cases s <;> simp [requestLoad, ModelState.idle]

theorem requestUnload_command {l : Lifecycle} :
    l.requestUnload.2 = .beginUnload ↔ l.state = .loaded := by
  obtain ⟨s, p⟩ := l
  cases s <;> simp [requestUnload]

/-- A load request never sets the pending unload, and clears it while loading. -/
theorem requestLoad_pending {l : Lifecycle} (h : l.requestLoad.1.unloadPending = true) :
    l.unloadPending = true ∧ l.state ≠ .loading := by
  obtain ⟨s, p⟩ := l
  cases s <;> simp_all [requestLoad]

theorem requestUnload_pending {l : Lifecycle} (h : l.requestUnload.1.unloadPending = true) :
    l.state = .loading ∨ l.unloadPending = true := by
  obtain ⟨s, p⟩ := l
  cases s <;> simp_all [requestUnload]

/-- Asking twice is asking once: the second request changes nothing and starts nothing. -/
theorem requestUnload_idem (l : Lifecycle) :
    l.requestUnload.1.requestUnload = (l.requestUnload.1, .none) := by
  obtain ⟨s, p⟩ := l
  cases s <;> rfl

/-- A model that is loading with its unload asked for is not asked again. -/
theorem requestUnload_of_pending {l : Lifecycle} (hs : l.state = .loading)
    (hp : l.unloadPending = true) : l.requestUnload = (l, .none) := by
  obtain ⟨s, p⟩ := l
  obtain rfl : s = .loading := hs
  obtain rfl : p = true := hp
  rfl

/-- Of a model that is loading or loaded, an unload request is in vain only then. -/
theorem pending_of_requestUnload_eq {l : Lifecycle} (hs : l.state.swappable = true)
    (heq : l.requestUnload.1 = l) : l.state = .loading ∧ l.unloadPending = true := by
  obtain ⟨s, p⟩ := l
  rcases ModelState.swappable_iff.mp hs with h1 | h1
  · obtain rfl : s = .loading := h1
    exact ⟨rfl, (congrArg Lifecycle.unloadPending heq).symm⟩
  · obtain rfl : s = .loaded := h1
    cases heq

/-- A finished load is refused only where no load was started. -/
theorem loadFinished_loading {l : Lifecycle} (h : l.state = .loading)
    (outcome : Except String Unit) :
    l.loadFinished outcome =
      .ok (match outcome with
        | .ok () => if l.unloadPending then (⟨.unloading, false⟩, .beginUnload)
            else (⟨.loaded, false⟩, .none)
        | .error reason => (⟨.failed reason, false⟩, .none)) := by
  unfold loadFinished
  rw [if_neg (not_not.mpr h)]
  cases outcome with
  | error reason => rfl
  | ok u => cases hp : l.unloadPending <;> simp

theorem unloadFinished_unloading {l : Lifecycle} (h : l.state = .unloading) :
    l.unloadFinished (.ok ()) = .ok ({ l with state := .unloaded }, .none) := by
  unfold unloadFinished
  rw [if_neg (not_not.mpr h)]

end Lifecycle

end StudioWorker
