import StudioWorker.Lib.System
import Mathlib.Data.List.Basic
import Mathlib.Tactic.Common

/-!
# Logs.Ship — the queue of log entries and the pump that ships it

`push_log_with_observers` and `restore_unshipped` of `src/runtime.rs`, the log shipper pump of a
session and the session's teardown.  The pump takes the whole queue before it sends, and puts the
batch back only when the send fails.

* `pushCapped`, `restoreClipped`: the two operations on the queue, over any kind of entry.
* `ShipState.step`: a push, a step of the pump, a session that begins or is torn down.
-/

namespace StudioWorker

open Lib Lib.System

structure LogEntry where
  ts : String
  level : String
  category : String
  message : String
  jobId : Option String := none
deriving DecidableEq

/-- Most entries the ship queue may hold. -/
def logShipQueueCap : ℕ := 5000

section Queue

variable {α β : Type}

/-- Append an entry; a full queue first loses its oldest entries to a marker made of them, which
leaves room for the marker and the entry. -/
def pushCapped (marker : List α → α) (queue : List α) (entry : α) : List α :=
  if logShipQueueCap ≤ queue.length then
    let overflow := queue.length + 2 - logShipQueueCap
    queue.drop overflow ++ [marker (queue.take overflow)] ++ [entry]
  else queue ++ [entry]

/-- Put a batch back at the front and keep the newest entries that fit. -/
def restoreClipped (queue batch : List α) : List α :=
  let queue := batch ++ queue
  if logShipQueueCap < queue.length then queue.drop (queue.length - logShipQueueCap) else queue

theorem length_pushCapped (marker : List α → α) {queue : List α} (entry : α)
    (h : queue.length ≤ logShipQueueCap) :
    (pushCapped marker queue entry).length ≤ logShipQueueCap := by
  unfold pushCapped
  unfold logShipQueueCap at h ⊢
  split_ifs
  · simp only [List.length_append, List.length_drop, List.length_singleton]
    omega
  · simp only [List.length_append, List.length_singleton]
    omega

theorem length_restoreClipped (queue batch : List α) :
    (restoreClipped queue batch).length ≤ logShipQueueCap := by
  simp only [restoreClipped]
  split_ifs with h
  · rw [List.length_drop]
    omega
  · omega

/-- The operations act on the entries of a labelled queue as on the queue. -/
theorem map_pushCapped (f : α → β) {marker : List α → α} {marker' : List β → β}
    (hm : ∀ l, f (marker l) = marker' (l.map f)) (queue : List α) (entry : α) :
    (pushCapped marker queue entry).map f = pushCapped marker' (queue.map f) (f entry) := by
  unfold pushCapped
  rw [List.length_map]
  split_ifs
  · simp only [List.map_append, List.map_cons, List.map_nil, hm, List.map_drop, List.map_take]
  · simp

theorem map_restoreClipped (f : α → β) (queue batch : List α) :
    (restoreClipped queue batch).map f = restoreClipped (queue.map f) (batch.map f) := by
  simp only [restoreClipped, List.length_append, List.length_map, ← List.map_append]
  split_ifs
  · rw [List.map_drop]
  · rfl

end Queue

/-- The marker that stands for dropped entries. -/
def dropMarker (now : String) (overflow : ℕ) : LogEntry where
  ts := now
  level := "warn"
  category := "logs"
  message := s!"ship queue full ({logShipQueueCap} entries); dropped {overflow} oldest"

/-- The queue's part of `push_log_with_observers`. -/
def pushLog (now : String) (queue : List LogEntry) (entry : LogEntry) : List LogEntry :=
  pushCapped (fun dropped => dropMarker now dropped.length) queue entry

def restoreUnshipped (queue batch : List LogEntry) : List LogEntry := restoreClipped queue batch

/-- Where the log shipper is: not running, at its interval, or in a send. -/
inductive Pump where
  | off
  | waiting
  | sending (batch : List LogEntry)
deriving DecidableEq

/-- `shipped` is what was handed to the sends that succeeded, in order. -/
structure ShipState where
  queue : List LogEntry
  pump : Pump
  shipped : List LogEntry
deriving DecidableEq

inductive ShipEvent where
  /-- `push_log` of an entry; `now` is the time a marker would carry. -/
  | push (now : String) (entry : LogEntry)
  | sessionStarts
  /-- The pump takes the queue; on an empty one it waits on. -/
  | take
  | sendSucceeds
  /-- The pump puts its batch back and ends. -/
  | sendFails
  /-- The pump is aborted at the await it is at, or ends at the stop flag. -/
  | teardown
deriving DecidableEq

namespace ShipState

def start : ShipState := ⟨[], .off, []⟩

def step : System ShipState ShipEvent
  | s, .push now entry => some { s with queue := pushLog now s.queue entry }
  | s, .sessionStarts =>
    match s.pump with
    | .off => some { s with pump := .waiting }
    | _ => none
  | s, .take =>
    match s.pump with
    | .waiting =>
      if s.queue = [] then some s else some { s with queue := [], pump := .sending s.queue }
    | _ => none
  | s, .sendSucceeds =>
    match s.pump with
    | .sending batch => some { s with pump := .waiting, shipped := s.shipped ++ batch }
    | _ => none
  | s, .sendFails =>
    match s.pump with
    | .sending batch => some { s with queue := restoreUnshipped s.queue batch, pump := .off }
    | _ => none
  | s, .teardown => some { s with pump := .off }

/-- The batch in the pump's hands. -/
def batch (s : ShipState) : List LogEntry :=
  match s.pump with
  | .sending batch => batch
  | _ => []

variable {s t : ShipState} {e : ShipEvent}

/-- What a step can do, with what the pump must be at for it. -/
inductive Trans (s : ShipState) : ShipEvent → ShipState → Prop
  | push (now : String) (entry : LogEntry) :
      Trans s (.push now entry) { s with queue := pushLog now s.queue entry }
  | sessionStarts (hoff : s.pump = .off) : Trans s .sessionStarts { s with pump := .waiting }
  | waits (hwaiting : s.pump = .waiting) (hempty : s.queue = []) : Trans s .take s
  | takes (hwaiting : s.pump = .waiting) :
      Trans s .take { s with queue := [], pump := .sending s.queue }
  | sendSucceeds (batch : List LogEntry) (hsending : s.pump = .sending batch) :
      Trans s .sendSucceeds { s with pump := .waiting, shipped := s.shipped ++ batch }
  | sendFails (batch : List LogEntry) (hsending : s.pump = .sending batch) :
      Trans s .sendFails { s with queue := restoreUnshipped s.queue batch, pump := .off }
  | teardown : Trans s .teardown { s with pump := .off }

theorem step_trans (hs : step s e = some t) : Trans s e t := by
  cases e with
  | push now entry =>
    obtain rfl := Option.some.inj hs
    exact .push now entry
  | sessionStarts =>
    rw [step] at hs
    split at hs
    · next hoff =>
      cases hs
      exact .sessionStarts hoff
    · cases hs
  | take =>
    rw [step] at hs
    split at hs
    · next hwaiting =>
      split_ifs at hs with hempty
      · cases hs
        exact .waits hwaiting hempty
      · cases hs
        exact .takes hwaiting
    · cases hs
  | sendSucceeds =>
    rw [step] at hs
    split at hs
    · next batch hsending =>
      cases hs
      exact .sendSucceeds batch hsending
    · cases hs
  | sendFails =>
    rw [step] at hs
    split at hs
    · next batch hsending =>
      cases hs
      exact .sendFails batch hsending
    · cases hs
  | teardown =>
    obtain rfl := Option.some.inj hs
    exact .teardown

/-- Whatever happens, the queue stays within its cap. -/
theorem queue_le_cap (h : s.queue.length ≤ logShipQueueCap) (hs : step s e = some t) :
    t.queue.length ≤ logShipQueueCap := by
  cases step_trans hs with
  | push now entry =>
    exact length_pushCapped (fun dropped => dropMarker now dropped.length) entry h
  | sessionStarts hoff => exact h
  | waits hwaiting hempty => exact h
  | takes hwaiting => exact Nat.zero_le _
  | sendSucceeds batch hsending => exact h
  | sendFails batch hsending => exact length_restoreClipped _ _
  | teardown => exact h

end ShipState

end StudioWorker
