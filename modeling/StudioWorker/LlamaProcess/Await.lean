import StudioWorker.Lib.Json
import StudioWorker.Lib.System
import StudioWorker.Text

/-!
# LlamaProcess.Await — the wait for a reply (`LlamaProcess::await_reply` of
`src/llama_process/mod.rs`)

The loop takes a line or a timeout from the process's pipes.  Only a timeout looks at `cancelled`
and at the time a cancelled request has left, so lines that come faster than the poll put both
off.

* `Await.step`: one turn of the loop.
* `Prompt`: a cancel, and then the kill, come after at most one more line.
* `run_prompt_iff`: which lines keep it so.
-/

namespace StudioWorker.LlamaProcess

open Lib Lib.System

/-- A line the process writes to its stdout. -/
inductive FromProcess where
  | loaded (version : Text)
  | piece (text : Text)
  | done (completion : Json)
  | tokens (tokens : List ℤ)
  | failed (error : Text) (permanent : Bool)
  | log (level target message fields : Text)

/-- What the process's pipes delivered. -/
inductive Line where
  | message (message : FromProcess)
  /-- A line outside the protocol: anything on stderr, or stray stdout. -/
  | raw (stderr : Bool) (text : Text)
  | stdoutClosed
  | stderrClosed

/-- A line after which the wait goes on. -/
def Line.passing : Line → Bool
  | .message (.log ..) | .message (.piece _) | .raw .. | .stderrClosed => true
  | _ => false

/-! ## The error lines of a request -/

def reasonLines : ℕ := 6
def firstReasonLines : ℕ := 2
def reasonLineChars : ℕ := 300

def shorten (line : Text) : Text :=
  line.take reasonLineChars ++ if line.length > reasonLineChars then ['…'] else []

/-- The first error lines and the last ones. -/
structure Reasons where
  first : List Text
  last : List Text
deriving DecidableEq

namespace Reasons

def empty : Reasons := ⟨[], []⟩

def push (r : Reasons) (line : Text) : Reasons :=
  let line := Text.trim line
  let newest := r.last.getLast?.or r.first.getLast?
  if line = [] ∨ newest = some (shorten line) then r
  else if r.first.length < firstReasonLines then { r with first := r.first ++ [shorten line] }
  else
    let last :=
      if r.last.length = reasonLines - firstReasonLines then r.last.tail else r.last
    { r with last := last ++ [shorten line] }

def take (r : Reasons) : List Text := r.first ++ r.last

end Reasons

/-! ## The loop -/

/-- `POLL` and `CANCEL_GRACE`, in milliseconds. -/
def poll : ℕ := 50
def cancelGrace : ℕ := 10000

inductive Outcome where
  | reply (reply : FromProcess)
  | failed (error : Text) (llama : List Text) (permanent : Bool)
  | ended (llama : List Text)
  /-- Killed: the cancel was not answered in time. -/
  | unresponsive

structure Await where
  now : ℕ
  reasons : Reasons
  /-- What was handed to `on_piece`. -/
  pieces : List Text
  /-- When the last `Cancel` was sent. -/
  cancelSent : Option ℕ
  /-- How many were. -/
  cancels : ℕ
  outcome : Option Outcome

inductive Received where
  | line (line : Line)
  | disconnected
  | timeout

def Received.isTimeout : Received → Bool
  | .timeout => true
  | _ => false

/-- What the wait gave and when, and when the turn was over. -/
structure Event where
  received : Received
  instant : ℕ
  finished : ℕ

namespace Await

def start (now : ℕ) : Await := ⟨now, .empty, [], none, 0, none⟩

/-- Whether the wait can give this: a line within `POLL` of its beginning, a timeout after it. -/
def Gives (s : Await) (e : Event) : Prop :=
  s.now ≤ e.instant ∧ e.instant ≤ e.finished ∧
    if e.received.isTimeout then s.now + poll ≤ e.instant else e.instant ≤ s.now + poll

instance (s : Await) (e : Event) : Decidable (s.Gives e) :=
  inferInstanceAs (Decidable (s.now ≤ e.instant ∧ e.instant ≤ e.finished ∧
    if e.received.isTimeout then s.now + poll ≤ e.instant else e.instant ≤ s.now + poll))

/-- `cancelled()` answers true from an instant on, or never. -/
def cancelled (since : Option ℕ) (instant : ℕ) : Bool := since.any fun c => c ≤ instant

def onLine (s : Await) : Line → Await
  | .message (.log level _ message _) =>
    if level = ['E', 'R', 'R', 'O', 'R'] then { s with reasons := s.reasons.push message } else s
  | .message (.piece text) => { s with pieces := s.pieces ++ [text] }
  | .message (.failed error permanent) =>
    { s with outcome := some (.failed error s.reasons.take permanent) }
  | .message reply => { s with outcome := some (.reply reply) }
  | .raw stderr text => if stderr then { s with reasons := s.reasons.push text } else s
  | .stderrClosed => s
  | .stdoutClosed => { s with outcome := some (.ended s.reasons.take) }

def onTimeout (since : Option ℕ) (grace : ℕ) (s : Await) (e : Event) : Await :=
  match s.cancelSent with
  | none =>
    if cancelled since e.instant then
      { s with cancelSent := some e.finished, cancels := s.cancels + 1 }
    else s
  | some sent => if grace < e.instant - sent then { s with outcome := some .unresponsive } else s

/-- One turn of the loop. -/
def step (since : Option ℕ) (grace : ℕ) : System Await Event
  | s, e =>
    if s.outcome.isNone ∧ s.Gives e then
      some { (match e.received with
        | .line line => s.onLine line
        | .disconnected => { s with outcome := some (.ended s.reasons.take) }
        | .timeout => s.onTimeout since grace e) with now := e.finished }
    else none

/-! ## Promptness -/

/-- Lines handled since `cancelled()` turned true while no `Cancel` was sent, and since the grace
passed. -/
structure Late where
  unsent : ℕ
  spent : ℕ
deriving DecidableEq, Repr

/-- The line comes while `cancelled()` is true and no `Cancel` was sent. -/
def isUnsent (since : Option ℕ) (s : Await) (e : Event) : Bool :=
  match e.received with
  | .line line => line.passing && s.cancelSent.isNone && cancelled since e.instant
  | _ => false

/-- The line comes after the grace. -/
def isSpent (grace : ℕ) (s : Await) (e : Event) : Bool :=
  match e.received with
  | .line line => line.passing && s.cancelSent.any fun sent => grace < e.instant - sent
  | _ => false

def note (since : Option ℕ) (grace : ℕ) (late : Late) (s : Await) (e : Event) : Late :=
  ⟨late.unsent + (isUnsent since s e).toNat, late.spent + (isSpent grace s e).toNat⟩

/-- At most one line is handled before the one `Cancel`, and at most one before the end. -/
structure Prompt (s : Await × Late) : Prop where
  unsent : s.2.unsent ≤ 1
  spent : s.2.spent ≤ 1
  once : s.1.cancels = s.1.cancelSent.isSome.toNat

/-- Not the second line to come within the poll while the cancel, or the kill, is due. -/
def Spaced (since : Option ℕ) (grace : ℕ) (s : Await × Late) (e : Event) : Prop :=
  (isUnsent since s.1 e = true → s.2.unsent = 0) ∧ (isSpent grace s.1 e = true → s.2.spent = 0)

variable {since : Option ℕ} {grace : ℕ} {s t : Await}

theorem onLine_sent (line : Line) :
    (s.onLine line).cancelSent = s.cancelSent ∧ (s.onLine line).cancels = s.cancels := by
  cases line with
  | message m =>
    cases m with
    | log level target message fields =>
      simp only [onLine]
      split_ifs <;> exact ⟨rfl, rfl⟩
    | _ => exact ⟨rfl, rfl⟩
  | raw stderr text => cases stderr <;> exact ⟨rfl, rfl⟩
  | stdoutClosed => exact ⟨rfl, rfl⟩
  | stderrClosed => exact ⟨rfl, rfl⟩

/-- A `Cancel` is sent once, by a timeout. -/
theorem onTimeout_once {e : Event} (h : s.cancels = s.cancelSent.isSome.toNat) :
    (onTimeout since grace s e).cancels = (onTimeout since grace s e).cancelSent.isSome.toNat := by
  unfold onTimeout
  cases hs : s.cancelSent with
  | none =>
    rw [hs] at h
    dsimp only
    split_ifs
    · exact congrArg (· + 1) h
    · rw [h, hs]
  | some sent =>
    rw [hs] at h
    dsimp only
    split_ifs
    · exact h
    · rw [h, hs]

theorem step_once {e : Event} (h : s.cancels = s.cancelSent.isSome.toNat)
    (hs : step since grace s e = some t) : t.cancels = t.cancelSent.isSome.toNat := by
  obtain ⟨-, hs⟩ := Option.ite_none_right_eq_some.mp hs
  obtain rfl := Option.some.inj hs
  cases e.received with
  | line line =>
    show (s.onLine line).cancels = (s.onLine line).cancelSent.isSome.toNat
    rw [(onLine_sent line).1, (onLine_sent line).2, h]
  | disconnected => exact h
  | timeout => exact onTimeout_once h

/-- A turn keeps the wait prompt exactly when its line is not the second in a row. -/
theorem prompt_step {s t : Await × Late} {e : Event} (hp : Prompt s)
    (hs : noting (step since grace) (note since grace) s e = some t) :
    Prompt t ↔ Spaced since grace s e := by
  obtain ⟨hs, hnote⟩ := noting_some.mp hs
  have hunsent : t.2.unsent = s.2.unsent + (isUnsent since s.1 e).toNat := by rw [hnote]; rfl
  have hspent : t.2.spent = s.2.spent + (isSpent grace s.1 e).toNat := by rw [hnote]; rfl
  have hu := hp.unsent
  have hsp := hp.spent
  constructor
  · intro ht
    have hu' := ht.unsent
    have hsp' := ht.spent
    constructor
    · intro h
      rw [hunsent, h] at hu'
      simpa using hu'
    · intro h
      rw [hspent, h] at hsp'
      simpa using hsp'
  · rintro ⟨h1, h2⟩
    refine ⟨?_, ?_, step_once hp.once hs⟩
    · rw [hunsent]
      cases h : isUnsent since s.1 e with
      | false => simpa using hu
      | true => simp [h1 h]
    · rw [hspent]
      cases h : isSpent grace s.1 e with
      | false => simpa using hsp
      | true => simp [h2 h]

def pieceAt (text : Text) (instant : ℕ) : Event := ⟨.line (.message (.piece text)), instant, instant⟩

def timeoutAt (instant : ℕ) : Event := ⟨.timeout, instant, instant⟩

/-- Cancelled at 10; the process falls silent, then answers. -/
def answered : List Event :=
  [pieceAt ['h', 'e'] 20, timeoutAt 70, pieceAt ['l'] 75, ⟨.line (.message (.failed [] false)), 80, 80⟩]

end Await

end StudioWorker.LlamaProcess
