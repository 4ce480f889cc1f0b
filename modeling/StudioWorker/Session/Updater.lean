import Mathlib.Data.List.Basic
import Mathlib.Tactic.Common

/-!
# Session.Updater — one auto-updater and the flags it shares

`auto_update_tick`, `UpdateDrain::wait_for_slot` and `spawn_auto_updater` of `src/runtime.rs`.  The
check, the wait for the worker's slot and the install run in a blocking task that the loop awaits;
the restart is the loop's.  The loop can be aborted while the task runs on.

* `Updater.step`: the updater between its accesses to the shared flags.
* `Updater.Change`, `Updater.step_change`: the six things a step can do to the flags.
-/

namespace StudioWorker.Session

/-- The flags that the session, the local API and the updater share. -/
structure Shared where
  busy : Bool
  updatePending : Bool
  stop : Bool
deriving DecidableEq

/-- `JobGate::try_reserve`. -/
def Shared.tryReserve (f : Shared) : Option Shared :=
  if f.busy then none else some { f with busy := true }

/-- The drop of a `JobReservation`. -/
def Shared.release (f : Shared) : Shared := { f with busy := false }

inductive CheckOutcome where
  | upToDate (current : String)
  | newerAvailable (current latest : String)
deriving DecidableEq

inductive AutoUpdateDecision where
  | disabled
  | skippedBusy
  | upToDate
  | checkError (error : String)
  | updated
  | updateError (error : String)
deriving DecidableEq

inductive UpdaterPhase where
  /-- The loop waits for its next tick. -/
  | idle
  | checking
  /-- The slot is taken; `update_pending` is about to be raised. -/
  | draining
  /-- In the loop of `wait_for_slot`. -/
  | waiting
  /-- `wait_for_slot` has the slot and is about to clear the flag. -/
  | won
  /-- `wait_for_slot` is past its limit and about to clear the flag. -/
  | gaveUp
  | installing
  /-- The install came to its decision; the reservation is about to drop. -/
  | installed (decision : AutoUpdateDecision)
  /-- The blocking task has returned. -/
  | decided (decision : AutoUpdateDecision)
  /-- `stop` is set, the process is about to be replaced. -/
  | restarting
  | finished
deriving DecidableEq

/-- `orphan`: its loop was aborted, and what its task returns is dropped. -/
structure Updater where
  phase : UpdaterPhase
  orphan : Bool
deriving DecidableEq

inductive UpdaterEvent where
  /-- A tick is due; `enabled` is the config's `auto_update_enabled`. -/
  | tick (enabled : Bool)
  /-- The check answers and, on a newer version, the slot is tried. -/
  | checked (outcome : Except String CheckOutcome)
  | raises
  /-- The slot is tried again; `overdue` when the limit has passed. -/
  | tries (overdue : Bool)
  | clears
  | applied (result : Except String Unit)
  /-- The blocking task panics. -/
  | panicked (message : String)
  /-- The blocking task returns and its reservation drops. -/
  | returns
  /-- The loop goes on with the decision. -/
  | resumes
deriving DecidableEq

namespace UpdaterPhase

/-- The task's reservation is alive. -/
def holds : UpdaterPhase → Bool
  | won | installing | installed _ => true
  | idle | checking | draining | waiting | gaveUp | decided _ | restarting | finished => false

/-- Between the raising of the pending flag and its clearing. -/
def raised : UpdaterPhase → Bool
  | waiting | won | gaveUp => true
  | idle | checking | draining | installing | installed _ | decided _ | restarting | finished => false

end UpdaterPhase

namespace Updater

/-- What becomes of an updater whose loop is aborted: a blocking task under way runs on. -/
def abort (u : Updater) : Updater where
  phase := match u.phase with
    | .idle | .decided _ => .finished
    | phase => phase
  orphan := true

/-- Where the end of the blocking task leaves the updater. -/
def ends (u : Updater) (decision : AutoUpdateDecision) : Updater :=
  { u with phase := if u.orphan then .finished else .decided decision }

def step (f : Shared) (u : Updater) : UpdaterEvent → Option (Shared × Updater)
  | .tick enabled =>
    match u.phase with
    | .idle => some (f, if enabled then { u with phase := .checking } else u.ends .disabled)
    | _ => none
  | .checked outcome =>
    match u.phase with
    | .checking =>
      match outcome with
      | .error e => some (f, u.ends (.checkError e))
      | .ok (.upToDate _) => some (f, u.ends .upToDate)
      | .ok (.newerAvailable _ _) =>
        match f.tryReserve with
        | some f => some (f, { u with phase := .installing })
        | none => some (f, { u with phase := .draining })
    | _ => none
  | .raises =>
    match u.phase with
    | .draining => some ({ f with updatePending := true }, { u with phase := .waiting })
    | _ => none
  | .tries overdue =>
    match u.phase with
    | .waiting =>
      match f.tryReserve with
      | some f => some (f, { u with phase := .won })
      | none => some (f, if overdue then { u with phase := .gaveUp } else u)
    | _ => none
  | .clears =>
    match u.phase with
    | .won => some ({ f with updatePending := false }, { u with phase := .installing })
    | .gaveUp => some ({ f with updatePending := false }, u.ends .skippedBusy)
    | _ => none
  | .applied result =>
    match u.phase with
    | .installing =>
      some (f, { u with phase := .installed (match result with
        | .ok () => .updated
        | .error e => .updateError e) })
    | _ => none
  | .panicked message =>
    match u.phase with
    | .checking => some (f, u.ends (.checkError message))
    | .installing => some (f.release, u.ends (.checkError message))
    | _ => none
  | .returns =>
    match u.phase with
    | .installed decision => some (f.release, u.ends decision)
    | _ => none
  | .resumes =>
    match u.phase with
    | .decided .updated => some ({ f with stop := true }, { u with phase := .restarting })
    | .decided _ => some (f, { u with phase := .idle })
    | _ => none

/-- An install has ended well and the process is not yet replaced. -/
def pastInstall (u : Updater) : Bool :=
  decide (u.phase = .decided .updated) || decide (u.phase = .restarting)

/-- The tick came to nothing. -/
def Failed (u : Updater) : Prop := ∃ decision, u.phase = .decided decision ∧ decision ≠ .updated

/-- The updater may still act. -/
def running (u : Updater) : Bool := decide (u.phase ≠ .finished)

variable {f f' : Shared} {u u' : Updater} {e : UpdaterEvent}

/-! ## What a step can do -/

/-- What a step of the updater can do to the flags. -/
inductive Change (f : Shared) (u u' : Updater) : Shared → Prop
  | quiet (hh : u'.phase.holds = u.phase.holds) (hr : u'.phase.raised = u.phase.raised)
      (hp : u'.pastInstall = true → u.pastInstall = true) : Change f u u' f
  | takes (hfree : f.busy = false) (hu : u.phase.holds = false) (hu' : u'.phase.holds = true)
      (hr : u.phase.raised = true → u'.phase.raised = true) :
      Change f u u' { f with busy := true }
  | raises (hh : u'.phase.holds = u.phase.holds) (hr : u'.phase.raised = true)
      (hp : u'.pastInstall = false) : Change f u u' { f with updatePending := true }
  | clears (hh : u'.phase.holds = u.phase.holds) (hp : u'.pastInstall = false) :
      Change f u u' { f with updatePending := false }
  | releases (hu : u.phase.holds = true) (hu' : u'.phase.holds = false)
      (hr : u'.phase.raised = u.phase.raised) : Change f u u' f.release
  | stops (hh : u'.phase.holds = u.phase.holds) (hr : u'.phase.raised = u.phase.raised)
      (hp : u.pastInstall = true) : Change f u u' { f with stop := true }

theorem tryReserve_some (h : f.tryReserve = some f') :
    f.busy = false ∧ f' = { f with busy := true } := by
  unfold Shared.tryReserve at h
  split_ifs at h with hb
  exact ⟨Bool.eq_false_iff.mpr hb, (Option.some.inj h).symm⟩

theorem ends_holds (u : Updater) (decision : AutoUpdateDecision) :
    (u.ends decision).phase.holds = false := by
  unfold ends
  split_ifs <;> rfl

theorem ends_raised (u : Updater) (decision : AutoUpdateDecision) :
    (u.ends decision).phase.raised = false := by
  unfold ends
  split_ifs <;> rfl

theorem ends_pastInstall (u : Updater) {decision : AutoUpdateDecision} (h : decision ≠ .updated) :
    (u.ends decision).pastInstall = false := by
  unfold ends
  split_ifs <;> simp [pastInstall, h]

/-- A task that ends without the slot and without an update. -/
theorem change_ends {decision : AutoUpdateDecision} (h : decision ≠ .updated)
    (hh : u.phase.holds = false) (hr : u.phase.raised = false) :
    Change f u (u.ends decision) f :=
  .quiet ((ends_holds u _).trans hh.symm) ((ends_raised u _).trans hr.symm)
    fun hp => absurd hp (by rw [ends_pastInstall u h]; exact Bool.false_ne_true)

/-- A task that finds the slot free takes it. -/
theorem change_takes (h : f.tryReserve = some f') (hh : u.phase.holds = false)
    (hh' : u'.phase.holds = true) (hr : u.phase.raised = true → u'.phase.raised = true) :
    Change f u u' f' := by
  obtain ⟨hfree, rfl⟩ := tryReserve_some h
  exact .takes hfree hh hh' hr

theorem step_change (hs : u.step f e = some (f', u')) : Change f u u' f' := by
  obtain ⟨phase, orphan⟩ := u
  cases e with
  | tick enabled =>
    cases phase <;> simp only [step, reduceCtorEq] at hs
    case idle =>
      cases hs
      split_ifs
      · exact .quiet rfl rfl (by simp [pastInstall])
      · exact change_ends nofun rfl rfl
  | checked outcome =>
    cases phase <;> simp only [step, reduceCtorEq] at hs
    case checking =>
      rcases outcome with error | ⟨⟨current⟩ | ⟨current, latest⟩⟩
      · cases hs
        exact change_ends nofun rfl rfl
      · cases hs
        exact change_ends nofun rfl rfl
      · cases hf : f.tryReserve with
        | some g =>
          simp only [hf] at hs
          cases hs
          exact change_takes hf rfl rfl id
        | none =>
          simp only [hf] at hs
          cases hs
          exact .quiet rfl rfl (by simp [pastInstall])
  | raises =>
    cases phase <;> simp only [step, reduceCtorEq] at hs
    case draining =>
      cases hs
      exact .raises rfl rfl rfl
  | tries overdue =>
    cases phase <;> simp only [step, reduceCtorEq] at hs
    case waiting =>
      cases hf : f.tryReserve with
      | some g =>
        simp only [hf] at hs
        cases hs
        exact change_takes hf rfl rfl id
      | none =>
        simp only [hf] at hs
        cases hs
        split_ifs
        · exact .quiet rfl rfl (by simp [pastInstall])
        · exact .quiet rfl rfl id
  | clears =>
    cases phase <;> simp only [step, reduceCtorEq] at hs
    case won =>
      cases hs
      exact .clears rfl rfl
    case gaveUp =>
      cases hs
      exact .clears (ends_holds _ _) (ends_pastInstall _ nofun)
  | applied result =>
    cases phase <;> simp only [step, reduceCtorEq] at hs
    case installing =>
      cases hs
      exact .quiet rfl rfl (by simp [pastInstall])
  | panicked message =>
    cases phase <;> simp only [step, reduceCtorEq] at hs
    case checking =>
      cases hs
      exact change_ends nofun rfl rfl
    case installing =>
      cases hs
      exact .releases rfl (ends_holds _ _) (ends_raised _ _)
  | returns =>
    cases phase <;> simp only [step, reduceCtorEq] at hs
    case installed decision =>
      cases hs
      exact .releases rfl (ends_holds _ _) (ends_raised _ _)
  | resumes =>
    cases phase <;> simp only [step, reduceCtorEq] at hs
    case decided decision =>
      cases decision with
      | updated =>
        cases hs
        exact .stops rfl rfl rfl
      | disabled | skippedBusy | upToDate | checkError | updateError =>
        cases hs
        exact .quiet rfl rfl (by simp [pastInstall])

/-- An updater that has finished takes no step. -/
theorem step_running (hs : u.step f e = some (f', u')) : u.running = true := by
  obtain ⟨phase, orphan⟩ := u
  cases phase with
  | finished => cases e <;> cases hs
  | _ => rfl

/-! ## An aborted loop -/

theorem abort_holds (u : Updater) : u.abort.phase.holds = u.phase.holds := by
  obtain ⟨phase, orphan⟩ := u
  cases phase <;> rfl

theorem abort_raised (u : Updater) : u.abort.phase.raised = u.phase.raised := by
  obtain ⟨phase, orphan⟩ := u
  cases phase <;> rfl

theorem abort_pastInstall {u : Updater} (h : u.abort.pastInstall = true) :
    u.pastInstall = true := by
  obtain ⟨phase, orphan⟩ := u
  cases phase <;> simp_all [abort, pastInstall]

theorem abort_running {u : Updater} (h : u.abort.running = true) : u.running = true := by
  obtain ⟨phase, orphan⟩ := u
  cases phase with
  | finished => exact h
  | _ => rfl

end Updater

end StudioWorker.Session
