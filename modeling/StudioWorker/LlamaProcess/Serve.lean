import StudioWorker.Lib.System
import StudioWorker.LlamaProcess.Await

/-!
# LlamaProcess.Serve — the daemon and its llama process (`read_requests` and `serve` of
`src/llama_process/serve.rs`, `request`, `await_reply` and `IsolatedLlm::serve` of
`src/llama_process/mod.rs`)

The daemon's calls follow each other under one lock; the process's reader thread, its serve loop
and the daemon's two pipe readers step beside them.  Every line carries the number of the call it
belongs to, which no party reads.  The load is a process's first request.

* `Process.step`, `Daemon.step`: one step of one party.
* `Sound`: replies, pieces, cancels and lines belong to their calls.
-/

namespace StudioWorker.LlamaProcess

open Lib Lib.System

/-- A message that ends the wait for a reply. -/
def FromProcess.isReply : FromProcess → Bool
  | .piece _ | .log .. => false
  | _ => true

/-- A line the daemon writes to the process's stdin. -/
inductive Sent (R : Type) where
  | request (of : ℕ) (request : R)
  | cancel (of : ℕ)

/-- A line the process writes to its stdout. -/
inductive OutLine where
  /-- A log event, or a line outside the protocol. -/
  | log (of : Option ℕ) (message : Text)
  | piece (of : ℕ) (text : Text)
  | reply (of : ℕ) (reply : FromProcess)

/-- What the daemon's pipe readers hand on. -/
inductive Delivered where
  | out (line : OutLine)
  | err (of : Option ℕ) (text : Text)
  | closed

/-- A note of the run; no party reads it. -/
inductive Note where
  /-- A call took a line of that call from stdout, or from stderr. -/
  | took (stderr : Bool) (call : ℕ) (of : Option ℕ)
  /-- A call returned a reply; the pieces it forwarded, and those written for it. -/
  | answered (call of : ℕ) (reply : FromProcess) (forwarded written : List Text)
  /-- A call failed: the process ended, or was killed. -/
  | failed (call : ℕ) (forwarded written : List Text)
  /-- The model saw the flag, set by a cancel of that call. -/
  | stopped (request of : ℕ)

variable {R : Type}

/-! ## The process -/

structure Process (R : Type) where
  alive : Bool
  stdin : List (Sent R)
  /-- The flag, and the call whose cancel set it. -/
  cancelled : Option ℕ
  /-- The reader thread cleared the flag and has not handed the request on. -/
  held : Option (ℕ × R)
  requests : List (ℕ × R)
  serving : Option (ℕ × R)
  /-- The pieces of the request served last. -/
  written : List Text
  stdout : List OutLine
  stderr : List (Option ℕ × Text)
  /-- The daemon's reader has told that stdout is closed. -/
  closed : Bool

inductive ProcessEvent where
  | read
  | pass
  | serve
  | check
  | log (message : Text)
  | piece (text : Text)
  | answer (reply : FromProcess)
  | print (text : Text)
  | forwardOut
  | forwardErr
  | dies
  | closeOut

namespace Process

def new : Process R := ⟨true, [], none, none, [], none, [], [], [], false⟩

/-- The number of the request being served. -/
def current (p : Process R) : Option ℕ := p.serving.map (·.1)

/-- One line read by `read_requests`; `wire` is what the process reads of a request. -/
def read (wire : R → Option R) (p : Process R) : Option (Process R) :=
  match p.held, p.stdin with
  | none, .cancel of :: rest => some { p with stdin := rest, cancelled := some of }
  | none, .request of request :: rest =>
    match wire request with
    | some request =>
      some { p with stdin := rest, cancelled := none, held := some (of, request) }
    | none => some { p with stdin := rest }
  | _, _ => none

/-- What becomes of the process, what its pipes hand on and what is noted. -/
def step (wire : R → Option R) (p : Process R) :
    ProcessEvent → Option (Process R × Option Delivered × Option Note)
  | .read => if p.alive then (p.read wire).map fun p => (p, none, none) else none
  | .pass =>
    match p.alive, p.held with
    | true, some request =>
      some ({ p with held := none, requests := p.requests ++ [request] }, none, none)
    | _, _ => none
  | .serve =>
    match p.alive, p.serving, p.requests with
    | true, none, request :: rest =>
      some ({ p with serving := some request, written := [], requests := rest }, none, none)
    | _, _, _ => none
  | .check =>
    match p.alive, p.serving with
    | true, some request => some (p, none, p.cancelled.map fun of => .stopped request.1 of)
    | _, _ => none
  | .log message =>
    if p.alive then some ({ p with stdout := p.stdout ++ [.log p.current message] }, none, none)
    else none
  | .piece text =>
    match p.alive, p.serving with
    | true, some request =>
      some ({ p with written := p.written ++ [text]
                     stdout := p.stdout ++ [.piece request.1 text] }, none, none)
    | _, _ => none
  | .answer reply =>
    match p.alive, p.serving, reply.isReply with
    | true, some request, true =>
      some ({ p with serving := none, stdout := p.stdout ++ [.reply request.1 reply] }, none, none)
    | _, _, _ => none
  | .print text =>
    if p.alive then some ({ p with stderr := p.stderr ++ [(p.current, text)] }, none, none)
    else none
  | .forwardOut =>
    match p.stdout with
    | line :: rest => some ({ p with stdout := rest }, some (.out line), none)
    | [] => none
  | .forwardErr =>
    match p.stderr with
    | line :: rest => some ({ p with stderr := rest }, some (.err line.1 line.2), none)
    | [] => none
  | .dies => if p.alive then some ({ p with alive := false }, none, none) else none
  | .closeOut =>
    if p.alive = false ∧ p.stdout = [] ∧ p.closed = false then
      some ({ p with closed := true }, some .closed, none)
    else none

end Process

/-! ## The daemon -/

/-- The call in progress. -/
structure Call (R : Type) where
  number : ℕ
  request : R
  forwarded : List Text

structure Daemon (R : Type) where
  process : Option (Process R)
  lines : List Delivered
  call : Option (Call R)
  cancelSent : Bool
  /-- Stdout closed during the call: only what is left of stderr is read. -/
  ending : Bool
  /-- The number of the next call. -/
  next : ℕ
  notes : List Note

inductive DaemonEvent (R : Type) where
  | restart
  | call (request : R)
  | cancel
  | take
  | fail
  | unload
  | process (event : ProcessEvent)

namespace Daemon

def new : Daemon R := ⟨none, [], none, false, false, 0, []⟩

def note (d : Daemon R) (n : Note) : Daemon R := { d with notes := d.notes ++ [n] }

/-- The call in progress takes what was delivered. -/
def take (d : Daemon R) (c : Call R) (p : Process R) : Delivered → Daemon R
  | .out (.log of _) => d.note (.took false c.number of)
  | .out (.piece of text) =>
    { d with call := some { c with forwarded := c.forwarded ++ [text] } }.note
      (.took false c.number (some of))
  | .out (.reply of reply) =>
    { d with call := none }.note (.answered c.number of reply c.forwarded p.written)
  | .err of _ => d.note (.took true c.number of)
  | .closed => { d with ending := true }

def step (wire : R → Option R) : System (Daemon R) (DaemonEvent R)
  | d, .restart =>
    match d.call, d.process with
    | none, none => some { d with process := some .new, lines := [] }
    | _, _ => none
  | d, .call request =>
    match d.call, d.process with
    | none, some p => some { d with
        process := some { p with stdin := p.stdin ++ [.request d.next request] }
        call := some ⟨d.next, request, []⟩
        cancelSent := false
        ending := false
        next := d.next + 1 }
    | _, _ => none
  | d, .cancel =>
    match d.call, d.process, d.cancelSent || d.ending with
    | some c, some p, false => some { d with
        process := some { p with stdin := p.stdin ++ [.cancel c.number] }
        cancelSent := true }
    | _, _, _ => none
  | d, .take =>
    match d.call, d.process, d.lines with
    | some c, some p, line :: rest => some ({ d with lines := rest }.take c p line)
    | _, _, _ => none
  | d, .fail =>
    -- The cancel was not answered in time, or the output closed: the process is gone.
    match d.call, d.process, d.cancelSent || d.ending with
    | some c, some p, true => some { d with
        process := none, lines := [], call := none
        notes := d.notes ++ [.failed c.number c.forwarded p.written] }
    | _, _, _ => none
  | d, .unload =>
    match d.call with
    | none => some { d with process := none, lines := [] }
    | some _ => none
  | d, .process event =>
    d.process.bind fun p =>
      (p.step wire event).map fun (p, line, note) =>
        { d with process := some p, lines := d.lines ++ line.toList,
                 notes := d.notes ++ note.toList }

end Daemon

/-! ## What the calls are promised -/

def Note.Sound : Note → Prop
  | .took _ call of => of = none ∨ of = some call
  | .answered call of _ forwarded written => of = call ∧ forwarded = written
  | .failed _ forwarded written => forwarded <+: written
  | .stopped request of => of = request

instance : DecidablePred Note.Sound
  | .took _ call of => inferInstanceAs (Decidable (of = none ∨ of = some call))
  | .answered call of _ forwarded written =>
    inferInstanceAs (Decidable (of = call ∧ forwarded = written))
  | .failed _ forwarded written => inferInstanceAs (Decidable (forwarded <+: written))
  | .stopped request of => inferInstanceAs (Decidable (of = request))

/-- The call it ends. -/
def Note.ends : Note → Option ℕ
  | .answered call .. => some call
  | .failed call .. => some call
  | _ => none

/-- It is about a line of stderr. -/
def Note.ofStderr : Note → Bool
  | .took true .. => true
  | _ => false

/-- Every reply is its call's own and every piece is forwarded once and in order, a cancel stops
the request it was sent for alone, and no line is taken by another call. -/
def Sound (d : Daemon R) : Prop := ∀ n ∈ d.notes, n.Sound

instance (d : Daemon R) : Decidable (Sound d) :=
  inferInstanceAs (Decidable (∀ n ∈ d.notes, n.Sound))

end StudioWorker.LlamaProcess
