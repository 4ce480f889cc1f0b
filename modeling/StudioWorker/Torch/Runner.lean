import StudioWorker.CatalogJson
import StudioWorker.Lib.Report
import StudioWorker.Torch.Stream

/-!
# Torch.Runner — one pipeline, one job, in a child process (`src/engine/torch/runner.rs` and
`python/runner.py`)

The child says what it does in events, a line each on its stdout, and ends with an exit code; either
may be lost to the worker: a signal ends the child anywhere, and a run ends while lines are on their
way.

* `Job.main`: the child.  `Job.verdict`: what became of the job.
* `run`: the worker's side, from the lines it is handed and the end of the child.
* `job_answered`: what the worker makes of a job, whatever it hears of it.
-/

namespace StudioWorker.Torch.Runner

open Lib Lib.Json Text

/-! ## A child, its lines and its end -/

inductive ExitStatus where
  | code (code : ℕ)
  | signal (signal : ℕ)
deriving DecidableEq

/-- `stream::describe` -/
def describe : ExitStatus → Text
  | .signal signal => "killed by signal ".toList ++ (Nat.repr signal).toList
  | .code code => "exit ".toList ++ (Nat.repr code).toList

/-- `stream::Ended`, with the status of an exit. -/
inductive Ended where
  | exited (status : ExitStatus) (tail : Text)
  | timedOut (tail : Text)
  | stopped (tail : Text)
deriving DecidableEq

def isLineEnd (c : Char) : Bool := c == '\n' || c == '\r'

def isBlank (line : Text) : Bool := line.all isWhitespace

/-- The lines of a pipe. -/
def forward (out : Text) : List Text := Lib.Report.lines isLineEnd isBlank out

def stdoutLine : Pipe × Text → Option Text
  | (.stdout, line) => some line
  | (.stderr, _) => none

/-- `json.dumps` on the child's side, and `serde_json::from_str` on the worker's: a blank text is no
document. -/
structure JsonText where
  dumps : Json → Text
  fromStr : Text → Option Json
  fromStr_blank : ∀ line, isBlank line = true → fromStr line = none

namespace JsonText

variable (t : JsonText)

/-- A document is dumped on one line, and reads as itself or not at all; of its part nothing is
read. -/
def Prints (v : Json) : Prop := Lib.Report.Printable t.dumps t.fromStr isLineEnd isBlank v

/-- What the child's `emit`s write. -/
def printed (events : List Json) : Text := Lib.Report.printed t.dumps '\n' events

/-- The last event, where there is one: its line has arrived, whole, and can be read. -/
def Told (events : List Json) (last : Option Json) (out : Text) : Prop :=
  ∃ v ∈ last, (t.printed events).dropLast <+: out ∧ (t.fromStr (t.dumps v)).isSome

instance (events : List Json) (last : Option Json) (out : Text) : Decidable (t.Told events last out) :=
  inferInstanceAs (Decidable (∃ v ∈ last, _ ∧ _))

variable {t}

/-- What is read of a beginning: the first so many events, less those that cannot be read. -/
theorem filterMap_forward {events : List Json} {out : Text} (hprints : ∀ v ∈ events, t.Prints v)
    (hout : out <+: t.printed events) :
    ∃ n, (forward out).filterMap t.fromStr =
      (events.take n).filter fun v => (t.fromStr (t.dumps v)).isSome := by
  obtain ⟨n, -, hn, -⟩ := Lib.Report.filterMap_lines rfl rfl t.fromStr_blank hprints hout
  exact ⟨n, hn⟩

/-- Whatever else the lines hold, what is heard is the last event, or nothing. -/
theorem foldl_hear {σ : Type} {note : σ → Json → σ} {events quiet : List Json} {last : Option Json}
    (hevents : events = quiet ++ last.toList) (hquiet : ∀ v ∈ quiet, ∀ x, note x v = x) {out : Text}
    {lines : List (Pipe × Text)} (hprints : ∀ v ∈ events, t.Prints v)
    (hout : out <+: t.printed events) (hlines : lines.filterMap stdoutLine = forward out) (x : σ) :
    lines.foldl (Lib.Report.hear stdoutLine t.fromStr note) x =
      if t.Told events last out then last.elim x (note x) else x := by
  subst hevents
  cases last with
  | none =>
    rw [Option.toList_none, List.append_nil] at hprints hout
    rw [Lib.Report.foldl_hear_quiet rfl rfl t.fromStr_blank hprints hquiet hout hlines, Option.elim,
      ite_self]
  | some v =>
    rw [Lib.Report.foldl_hear_printed rfl rfl t.fromStr_blank hprints hquiet hout hlines]
    refine if_congr ⟨fun h => ⟨v, rfl, h⟩, ?_⟩ rfl rfl
    rintro ⟨v', hv', h⟩
    cases hv'
    exact h

end JsonText

/-- `emit(event, **fields)` -/
def emit (event : String) (fields : List (String × Json)) : Json :=
  record (("event", some (.string event)) :: fields.map fun f => (f.1, some f.2))

def text (t : Text) : Json := .string (String.ofList t)

/-- An event that was emitted is read back with its name. -/
theorem tagged_emit (event : String) {fs : List (String × Json)} (h : "event" ∉ fs.map Prod.fst) :
    Lib.Report.tagged "event" (emit event fs) =
      some (event, record (fs.map fun f => (f.1, some f.2))) := by
  refine Lib.Report.tagged_record ?_
  rw [List.map_map]
  exact h

/-- And with its fields. -/
theorem fields_emit (names : List String) (fs : List (String × Json))
    (hfs : fs.map Prod.fst = names) (hn : names.Nodup) :
    ∃ f, fields names (record (fs.map fun f => (f.1, some f.2))) = some f ∧
      ∀ e ∈ fs, f e.1 = some e.2 := by
  have hes : (fs.map fun f => (f.1, some f.2)).map Prod.fst = names := by
    rw [List.map_map]
    exact hfs
  obtain ⟨f, hf, hget⟩ := fields_record hes hn
  exact ⟨f, hf, fun e he => hget (e.1, some e.2) (List.mem_map.mpr ⟨e, he, rfl⟩)⟩

theorem deserializeUnsigned_serializeUnsigned (bits n : ℕ) :
    deserializeUnsigned bits (serializeUnsigned n) = if n < 2 ^ bits then some n else none := by
  split_ifs with h
  · exact deserializeUnsigned_eq_some.mpr h
  · rw [← Option.not_isSome_iff_eq_none]
    intro hsome
    obtain ⟨m, hm⟩ := Option.isSome_iff_exists.mp hsome
    have hmn : m = n := by
      simp only [deserializeUnsigned, serializeUnsigned] at hm
      split_ifs at hm
      exact (Option.some.inj hm).symm
    exact h (hmn ▸ lt_of_deserializeUnsigned hm)

/-! ## The child (`runner.py`) -/

/-- The exceptions `main` tells apart, a `SystemExit` with the code it asks for. -/
inductive ExceptionKind where
  | badInput
  | outOfMemoryError
  | exception
  | systemExit (code : ℕ)
  | keyboardInterrupt
deriving DecidableEq

structure Raised where
  kind : ExceptionKind
  /-- `type(error).__name__` -/
  typeName : Text
  /-- `str(error)` -/
  str : Text
deriving DecidableEq

/-- How the interpreter ends on an exception that nothing caught. -/
def Raised.uncaught (e : Raised) : ExitStatus :=
  match e.kind with
  | .systemExit code => .code code
  | .keyboardInterrupt => .signal 2
  | _ => .code 1

def exitDone : ℕ := 0
def exitInternal : ℕ := 1
def exitOutOfMemory : ℕ := 2
def exitBadInput : ℕ := 3

inductive FailureClass where
  | outOfMemory
  | badInput
  | internal
deriving DecidableEq

def FailureClass.all : List FailureClass := [.outOfMemory, .badInput, .internal]

def FailureClass.name : FailureClass → String
  | .outOfMemory => "out_of_memory"
  | .badInput => "bad_input"
  | .internal => "internal"

/-- The code the child ends with. -/
def FailureClass.exit : FailureClass → ℕ
  | .outOfMemory => exitOutOfMemory
  | .badInput => exitBadInput
  | .internal => exitInternal

/-- `str.splitlines`'s line ends. -/
def isLineBoundary (c : Char) : Bool :=
  let n := c.toNat
  (10 ≤ n && n ≤ 13) || (0x1C ≤ n && n ≤ 0x1E) || n == 0x85 || n == 0x2028 || n == 0x2029

/-- The first two sentences of the first line. -/
def firstSentences (t : Text) : Text :=
  List.intercalate ['.', ' '] ((split ['.', ' '] (t.takeWhile fun c => !isLineBoundary c)).take 2)

def failedEvent (failure : FailureClass) (message : Text) : Json :=
  emit "failed" [("class", .string failure.name), ("message", text message)]

def stageEvent (name : Text) : Json := emit "stage" [("name", text name)]

/-- What the job's steps come to, each its result or what it raises. -/
structure Job where
  /-- The request is read and `pipelines.common` imported. -/
  start : Except Raised Unit
  torch : Except Raised Unit
  available : Except Raised Bool
  capped : Except Raised Unit
  pipeline : Except Raised Unit
  prepared : Except Raised Unit
  /-- The stages `pipeline.run` names, and the triangles it answers. -/
  stages : List Text
  triangles : Except Raised ℕ
  /-- The size of the output, the memory peak and the seconds. -/
  measured : Except Raised (ℕ × Number × Number)

def doneEvent (triangles : ℕ) (measured : ℕ × Number × Number) : Json :=
  emit "done" [("triangles", serializeUnsigned triangles), ("bytes", serializeUnsigned measured.1),
    ("vramPeakGib", .number measured.2.1), ("seconds", .number measured.2.2)]

/-- What a piece of the program says, and how it comes out. -/
abbrev Says (α : Type) := List Json × Except Raised α

namespace Says

def say (v : Json) : Says Unit := ([v], .ok ())

def of {α : Type} (x : Except Raised α) : Says α := ([], x)

def andThen {α β : Type} (x : Says α) (f : α → Says β) : Says β :=
  match x.2 with
  | .ok a => (x.1 ++ (f a).1, (f a).2)
  | .error e => (x.1, .error e)

/-- `try: … except …` -/
def handle {α : Type} (x : Says α) (f : Raised → Says α) : Says α :=
  match x.2 with
  | .ok a => (x.1, .ok a)
  | .error e => (x.1 ++ (f e).1, (f e).2)

end Says

/-- Whether `except Exception` catches it. -/
def Raised.isException (e : Raised) : Bool :=
  match e.kind with
  | .systemExit _ | .keyboardInterrupt => false
  | _ => true

open Says in
/-- `emit("failed", …)` and the exit code. -/
def failWith (failure : FailureClass) (message : Text) : Says ℕ :=
  (say (failedEvent failure message)).andThen fun _ => of (.ok failure.exit)

/-- The `except` clauses around the job. -/
def caught (e : Raised) : Says ℕ :=
  match e.kind with
  | .badInput => failWith .badInput e.str
  | .outOfMemoryError =>
    failWith .outOfMemory
      (firstSentences (if e.str = [] then "CUDA out of memory".toList else e.str))
  | .exception => failWith .internal (e.typeName ++ ": ".toList ++ e.str)
  | .systemExit _ | .keyboardInterrupt => .of (.error e)

namespace Job

open Says

variable (j : Job)

/-- The `try` around the job. -/
def tries : Says ℕ :=
  (of j.available).andThen fun available =>
    if !available then failWith .internal "CUDA is not available to torch".toList
    else (of j.capped).andThen fun _ => (of j.pipeline).andThen fun _ =>
      (say (stageEvent "prepare".toList)).andThen fun _ => (of j.prepared).andThen fun _ =>
        andThen (j.stages.map stageEvent, j.triangles) fun triangles =>
          (of j.measured).andThen fun measured =>
            (say (doneEvent triangles measured)).andThen fun _ => of (.ok exitDone)

def main : Says ℕ :=
  (of j.start).andThen fun _ =>
    match j.torch with
    | .error e =>
      if e.isException then failWith .internal ("torch does not import: ".toList ++ e.str)
      else of (.error e)
    | .ok () => j.tries.handle caught

/-- The events of a child that is let run, and how it ends. -/
def events : List Json := j.main.1

def status : ExitStatus :=
  match j.main.2 with
  | .ok code => .code code
  | .error e => e.uncaught

end Job

/-! ## What became of a job -/

inductive Verdict where
  | done (triangles : ℕ) (measured : ℕ × Number × Number)
  | failed (failure : FailureClass) (message : Text)
  | uncaught (status : ExitStatus)
deriving DecidableEq

namespace Verdict

def event : Verdict → Option Json
  | done triangles measured => some (doneEvent triangles measured)
  | failed failure message => some (failedEvent failure message)
  | uncaught _ => none

def status : Verdict → ExitStatus
  | done _ _ => .code exitDone
  | failed failure _ => .code failure.exit
  | uncaught status => status

/-- Of an exception of the job. -/
def ofRaised (e : Raised) : Verdict :=
  match e.kind with
  | .badInput => failed .badInput e.str
  | .outOfMemoryError =>
    failed .outOfMemory (firstSentences (if e.str = [] then "CUDA out of memory".toList else e.str))
  | .exception => failed .internal (e.typeName ++ ": ".toList ++ e.str)
  | .systemExit _ | .keyboardInterrupt => uncaught e.uncaught

end Verdict

/-- The first thing that goes wrong, or the job done. -/
def Job.verdict (j : Job) : Verdict :=
  match j.start, j.torch with
  | .error e, _ => .uncaught e.uncaught
  | .ok (), .error e =>
    if e.isException then .failed .internal ("torch does not import: ".toList ++ e.str)
    else .uncaught e.uncaught
  | .ok (), .ok () =>
    match (do
      if !(← j.available) then
        return .failed .internal "CUDA is not available to torch".toList
      j.capped
      j.pipeline
      j.prepared
      return .done (← j.triangles) (← j.measured) : Except Raised Verdict) with
    | .ok verdict => verdict
    | .error e => .ofRaised e

/-- A child names stages and then, unless nothing caught what it raised, says what became of the
job; its exit code says it too. -/
theorem Job.main_verdict (j : Job) :
    (∃ names : List Text, j.events = names.map stageEvent ++ j.verdict.event.toList) ∧
      j.status = j.verdict.status := by
  have hcaught : ∀ (names : List Text) (e : Raised),
      (∃ ns : List Text, names.map stageEvent ++ (caught e).1 =
          ns.map stageEvent ++ (Verdict.ofRaised e).event.toList) ∧
        (match (caught e).2 with
          | .ok code => ExitStatus.code code
          | .error e => e.uncaught) = (Verdict.ofRaised e).status := by
    rintro names ⟨kind, typeName, str⟩
    cases kind <;> exact ⟨⟨names, rfl⟩, rfl⟩
  obtain ⟨start, torch, available, capped, pipeline, prepared, stages, triangles, measured⟩ := j
  rcases start with e | _
  · exact ⟨⟨[], rfl⟩, rfl⟩
  rcases torch with e | _
  · obtain ⟨kind, typeName, str⟩ := e
    cases kind <;> exact ⟨⟨[], rfl⟩, rfl⟩
  rcases available with e | _ | _
  · exact hcaught [] e
  · exact ⟨⟨[], rfl⟩, rfl⟩
  rcases capped with e | _
  · exact hcaught [] e
  rcases pipeline with e | _
  · exact hcaught [] e
  rcases prepared with e | _
  · exact hcaught ["prepare".toList] e
  rcases triangles with e | triangles
  · exact hcaught ("prepare".toList :: stages) e
  rcases measured with e | measured
  · have h := hcaught ("prepare".toList :: stages) e
    rw [← List.append_nil (List.map stageEvent _)] at h
    exact h
  · exact ⟨⟨"prepare".toList :: stages, rfl⟩, rfl⟩

/-! ## The worker's side (`runner.rs`) -/

structure Report (F : Type) where
  triangles : ℕ
  bytes : ℕ
  vramPeakGib : F
  seconds : F
deriving DecidableEq

inductive Event (F : Type) where
  | stage (name : String)
  | done (report : Report F)
  | failed (failure : FailureClass) (message : String)

/-- `TorchError`, less what provisioning and the engine answer. -/
inductive TorchError (F : Type) where
  | badInput (message : String)
  | outOfMemory (budgetGib : F) (message : String)
  | runner (status message tail : Text)
  | timeout (limit : ℕ)
deriving DecidableEq

def TorchError.isPermanent {F : Type} : TorchError F → Bool
  | .badInput _ | .outOfMemory _ _ => true
  | .runner _ _ _ | .timeout _ => false

/-- What was heard of a run. -/
structure Heard (F : Type) where
  report : Option (Report F) := none
  failure : Option (FailureClass × String) := none

section Worker

variable {F : Type} (s : Serde F) (t : JsonText)

def Report.fieldNames : List String := ["triangles", "bytes", "vramPeakGib", "seconds"]

def Report.deserialize (v : Json) : Option (Report F) := do
  let f ← fields Report.fieldNames v
  let triangles ← required (f "triangles") (deserializeUnsigned 64)
  let bytes ← required (f "bytes") (deserializeUnsigned 64)
  let vramPeakGib ← required (f "vramPeakGib") s.deserializeFloat
  let seconds ← required (f "seconds") s.deserializeFloat
  return ⟨triangles, bytes, vramPeakGib, seconds⟩

def FailureClass.deserialize (v : Json) : Option (FailureClass × String) := do
  let f ← fields ["class", "message"] v
  let failure ← required (f "class") (deserializeVariant FailureClass.all FailureClass.name)
  let message ← required (f "message") deserializeString
  return (failure, message)

def stageName (v : Json) : Option String := do
  let f ← fields ["name"] v
  required (f "name") deserializeString

def Event.ofKind (kind : String) (v : Json) : Option (Event F) :=
  if kind = "stage" then (stageName v).map .stage
  else if kind = "done" then (Report.deserialize s v).map .done
  else if kind = "failed" then (FailureClass.deserialize v).map fun f => .failed f.1 f.2
  else none

def Event.deserialize (v : Json) : Option (Event F) :=
  (Lib.Report.tagged "event" v).bind fun e => Event.ofKind s e.1 e.2

def Heard.note (h : Heard F) : Event F → Heard F
  | .stage _ => h
  | .done report => { h with report := some report }
  | .failed failure message => { h with failure := some (failure, message) }

/-- `on_line` of `run`. -/
def Heard.onLine (h : Heard F) (x : Pipe × Text) : Heard F :=
  match x with
  | (.stdout, line) => ((t.fromStr line).bind (Event.deserialize s)).elim h h.note
  | (.stderr, _) => h

def silent : String := "the runner said nothing about why"

def outcome (ended : Ended) (done : Option (Report F)) (failure : Option (FailureClass × String))
    (budgetGib : F) (timeout : ℕ) : Except (TorchError F) (Report F) :=
  match ended with
  | .timedOut _ => .error (.timeout timeout)
  | .stopped tail => .error (.runner "stopped".toList "the run was stopped".toList tail)
  | .exited status tail =>
    let message := (failure.map (·.2)).getD silent
    match status, failure, done with
    | .code 0, _, some report => .ok report
    | .code 2, _, _ | _, some (.outOfMemory, _), _ => .error (.outOfMemory budgetGib message)
    | .code 3, _, _ | _, some (.badInput, _), _ => .error (.badInput message)
    | .code 0, _, none =>
      .error (.runner "exit 0".toList "the runner ended without saying it was done".toList tail)
    | status, _, _ => .error (.runner (describe status) message.toList tail)

/-- From the lines the run was handed and its end on; an error: it was not started. -/
def run (started : Except Text (List (Pipe × Text) × Ended)) (budgetGib : F) (timeout : ℕ) :
    Except (TorchError F) (Report F) :=
  match started with
  | .error e => .error (.runner "not started".toList e [])
  | .ok (lines, ended) =>
    let h := lines.foldl (Heard.onLine s t) {}
    outcome ended h.report h.failure budgetGib timeout

/-! ### What is read -/

/-- What a document on the stdout tells. -/
def Heard.noteJson (h : Heard F) (v : Json) : Heard F := (Event.deserialize s v).elim h h.note

variable {s t}

theorem onLine_eq_hear :
    Heard.onLine s t = Lib.Report.hear stdoutLine t.fromStr (Heard.noteJson s) := by
  funext h x
  obtain ⟨pipe, line⟩ := x
  cases pipe with
  | stdout =>
    rw [Heard.onLine, Lib.Report.hear, stdoutLine, Option.bind_some]
    cases t.fromStr line <;> rfl
  | stderr => rfl

theorem deserialize_emit (event : String) {fs : List (String × Json)}
    (h : "event" ∉ fs.map Prod.fst) :
    Event.deserialize s (emit event fs) =
      Event.ofKind s event (record (fs.map fun f => (f.1, some f.2))) := by
  rw [Event.deserialize, tagged_emit event h, Option.bind_some]

theorem deserialize_stage (name : Text) :
    Event.deserialize s (stageEvent name) = some (.stage (String.ofList name)) := by
  obtain ⟨f, hf, hget⟩ := fields_emit ["name"] [("name", text name)] rfl (by simp)
  have hname : f "name" = some (text name) := hget _ List.mem_cons_self
  rw [stageEvent, deserialize_emit _ (by simp), Event.ofKind, if_pos rfl, stageName, hf,
    Option.bind_eq_bind, Option.bind_some, hname, required_some]
  rfl

theorem deserialize_failed (failure : FailureClass) (message : Text) :
    Event.deserialize s (failedEvent failure message) =
      some (.failed failure (String.ofList message)) := by
  obtain ⟨f, hf, hget⟩ := fields_emit ["class", "message"]
    [("class", .string failure.name), ("message", text message)] rfl (by simp)
  have hclass : f "class" = some (.string failure.name) := hget _ List.mem_cons_self
  have hmessage : f "message" = some (text message) :=
    hget _ (List.mem_cons_of_mem _ List.mem_cons_self)
  have hread : deserializeVariant FailureClass.all FailureClass.name (.string failure.name) =
      some failure := by
    cases failure <;> decide
  rw [failedEvent, deserialize_emit _ (by simp), Event.ofKind, if_neg (by decide),
    if_neg (by decide), if_pos rfl, FailureClass.deserialize, hf, Option.bind_eq_bind,
    Option.bind_some, hclass, required_some, hread, hmessage]
  rfl

/-- The report of what was measured, where it fits the fields. -/
def Report.of (s : Serde F) (triangles : ℕ) (measured : ℕ × Number × Number) :
    Option (Report F) := do
  let vramPeakGib ← s.readFloat measured.2.1
  let seconds ← s.readFloat measured.2.2
  if triangles < 2 ^ 64 ∧ measured.1 < 2 ^ 64 then
    some ⟨triangles, measured.1, vramPeakGib, seconds⟩
  else none

theorem deserialize_done (triangles : ℕ) (measured : ℕ × Number × Number) :
    Event.deserialize s (doneEvent triangles measured) =
      (Report.of s triangles measured).map .done := by
  obtain ⟨f, hf, hget⟩ := fields_emit Report.fieldNames
    [("triangles", serializeUnsigned triangles), ("bytes", serializeUnsigned measured.1),
      ("vramPeakGib", .number measured.2.1), ("seconds", .number measured.2.2)] rfl (by decide)
  simp only [List.forall_mem_cons] at hget
  obtain ⟨htriangles, hbytes, hvram, hseconds, -⟩ := hget
  rw [doneEvent, deserialize_emit _ (by simp), Event.ofKind, if_neg (by decide), if_pos rfl,
    Report.deserialize, hf, Option.bind_eq_bind, Option.bind_some, htriangles, hbytes, hvram,
    hseconds, required_some, required_some, required_some, required_some,
    deserializeUnsigned_serializeUnsigned, deserializeUnsigned_serializeUnsigned, Report.of]
  simp only [Serde.deserializeFloat, Option.bind_eq_bind]
  generalize 2 ^ 64 = limit
  congr 1
  cases s.readFloat measured.2.1 with
  | none => simp
  | some vram =>
    cases s.readFloat measured.2.2 with
    | none => simp
    | some seconds =>
      simp only [Option.bind_some]
      by_cases htr : triangles < limit
      · by_cases hby : measured.1 < limit
        · rw [if_pos htr, if_pos hby, if_pos ⟨htr, hby⟩]
          rfl
        · rw [if_pos htr, if_neg hby, if_neg (mt And.right hby)]
          rfl
      · rw [if_neg htr, if_neg (mt And.left htr)]
        rfl

/-! ### What the worker makes of a verdict -/

/-- The verdict as a child tells it. -/
def Verdict.heard (s : Serde F) : Verdict → Heard F
  | .done triangles measured => { report := Report.of s triangles measured }
  | .failed failure message => { failure := some (failure, String.ofList message) }
  | .uncaught _ => {}

@[simp] theorem noteJson_stage (h : Heard F) (name : Text) : h.noteJson s (stageEvent name) = h := by
  rw [Heard.noteJson, deserialize_stage]
  rfl

theorem noteJson_verdict {v : Verdict} {last : Json} (h : v.event = some last) :
    ({} : Heard F).noteJson s last = v.heard s := by
  cases v with
  | done triangles measured =>
    obtain rfl := Option.some.inj h
    rw [Heard.noteJson, deserialize_done, Verdict.heard]
    cases Report.of s triangles measured <;> rfl
  | failed failure message =>
    obtain rfl := Option.some.inj h
    rw [Heard.noteJson, deserialize_failed]
    rfl
  | uncaught status => cases h

/-- Whatever else the lines hold, of a job its verdict is heard, or nothing. -/
theorem foldl_onLine {j : Job} {out : Text} {lines : List (Pipe × Text)}
    (hprints : ∀ v ∈ j.events, t.Prints v) (hout : out <+: t.printed j.events)
    (hlines : lines.filterMap stdoutLine = forward out) :
    lines.foldl (Heard.onLine s t) {} =
      if t.Told j.events j.verdict.event out then j.verdict.heard s else {} := by
  obtain ⟨⟨names, hevents⟩, -⟩ := j.main_verdict
  have hquiet : ∀ v ∈ names.map stageEvent, ∀ h : Heard F, h.noteJson s v = h := by
    intro v hv h
    obtain ⟨name, -, rfl⟩ := List.mem_map.mp hv
    exact noteJson_stage h name
  rw [onLine_eq_hear, JsonText.foldl_hear hevents hquiet hprints hout hlines]
  cases hlast : j.verdict.event with
  | none =>
    refine if_congr Iff.rfl ?_ rfl
    cases hv : j.verdict with
    | uncaught status => rfl
    | done triangles measured => rw [hv] at hlast; cases hlast
    | failed failure message => rw [hv] at hlast; cases hlast
  | some last => rw [Option.elim, noteJson_verdict hlast]

/-- A failure as the worker answers it. -/
def FailureClass.error (failure : FailureClass) (status : ExitStatus) (reason : Option Text)
    (budgetGib : F) (tail : Text) : TorchError F :=
  let message := (reason.map String.ofList).getD silent
  match failure with
  | .outOfMemory => .outOfMemory budgetGib message
  | .badInput => .badInput message
  | .internal => .runner (describe status) message.toList tail

/-- The class that an exit status alone names. -/
def FailureClass.ofStatus : ExitStatus → FailureClass
  | .code 2 => .outOfMemory
  | .code 3 => .badInput
  | _ => .internal

def unsaid (tail : Text) : TorchError F :=
  .runner "exit 0".toList "the runner ended without saying it was done".toList tail

/-- The answer to a job whose child is let end. -/
def Verdict.answer (s : Serde F) (told : Bool) (budgetGib : F) (tail : Text) :
    Verdict → Except (TorchError F) (Report F)
  | .done triangles measured =>
    (if told then Report.of s triangles measured else none).elim (.error (unsaid tail)) .ok
  | .failed failure message =>
    .error (failure.error (.code failure.exit) (if told then some message else none) budgetGib tail)
  | .uncaught status =>
    if status = .code 0 then .error (unsaid tail)
    else .error ((FailureClass.ofStatus status).error status none budgetGib tail)

/-- The answer to a job whose child a signal ends, wherever it was. -/
def Verdict.answerKilled (told : Bool) (signal : ℕ) (budgetGib : F) (tail : Text) :
    Verdict → TorchError F
  | .failed failure message =>
    if told then failure.error (.signal signal) (some message) budgetGib tail
    else FailureClass.internal.error (.signal signal) none budgetGib tail
  | .done _ _ | .uncaught _ => FailureClass.internal.error (.signal signal) none budgetGib tail

/-- The failures that any worker would meet. -/
def Verdict.IsPermanent : Verdict → Prop
  | .done _ _ => False
  | .failed failure _ => failure ≠ .internal
  | .uncaught status => status = .code exitOutOfMemory ∨ status = .code exitBadInput

theorem isPermanent_answer (s : Serde F) (told : Bool) (budgetGib : F) (tail : Text) (v : Verdict) :
    (∃ e, v.answer s told budgetGib tail = .error e ∧ e.isPermanent) ↔ v.IsPermanent := by
  cases v with
  | done triangles measured =>
    refine iff_of_false ?_ id
    rintro ⟨e, he, hperm⟩
    rw [Verdict.answer] at he
    cases hr : (if told then Report.of s triangles measured else none) with
    | none =>
      rw [hr] at he
      cases he
      cases hperm
    | some report =>
      rw [hr] at he
      cases he
  | failed failure message =>
    simp only [Verdict.answer, Except.error.injEq, exists_eq_left', Verdict.IsPermanent]
    cases failure <;> simp [FailureClass.error, TorchError.isPermanent]
  | uncaught status =>
    rw [Verdict.answer, Verdict.IsPermanent]
    rcases status with code | signal
    · rcases code with _ | _ | _ | _ | code
      all_goals simp [FailureClass.ofStatus, FailureClass.error, unsaid, TorchError.isPermanent,
        exitOutOfMemory, exitBadInput]
    · simp [FailureClass.ofStatus, FailureClass.error, TorchError.isPermanent]

/-- **What the worker makes of a job**, whatever it hears of it.  Where the child is let end, its
exit code alone settles the class of a failure, and so whether any other worker would meet it; only
the reason is lost with the last event.  Success takes the exit code and the event both.  Where a
signal ends the child, there is only what it had said. -/
theorem job_answered (s : Serde F) (t : JsonText) (j : Job) (out : Text)
    (lines : List (Pipe × Text)) (tail : Text) (budgetGib : F) (timeout : ℕ)
    (hprints : ∀ v ∈ j.events, t.Prints v) (hout : out <+: t.printed j.events)
    (hlines : lines.filterMap stdoutLine = forward out) :
    let told := decide (t.Told j.events j.verdict.event out)
    run s t (.ok (lines, .exited j.status tail)) budgetGib timeout =
        j.verdict.answer s told budgetGib tail ∧
      (∀ signal, run s t (.ok (lines, .exited (.signal signal) tail)) budgetGib timeout =
        .error (j.verdict.answerKilled told signal budgetGib tail)) ∧
      ((∃ e, run s t (.ok (lines, .exited j.status tail)) budgetGib timeout = .error e ∧
        e.isPermanent) ↔ j.verdict.IsPermanent) := by
  intro told
  have hheard : lines.foldl (Heard.onLine s t) {} = if told then j.verdict.heard s else {} := by
    rw [foldl_onLine (s := s) hprints hout hlines]
    by_cases h : t.Told j.events j.verdict.event out
    · simp [told, h]
    · simp [told, h]
  have hanswer : run s t (.ok (lines, .exited j.status tail)) budgetGib timeout =
      j.verdict.answer s told budgetGib tail := by
    rw [run, hheard, j.main_verdict.2]
    cases j.verdict with
    | done triangles measured =>
      cases told with
      | false => rfl
      | true =>
        simp only [if_true, Verdict.heard, Verdict.answer]
        cases Report.of s triangles measured <;> rfl
    | failed failure message => cases told <;> cases failure <;> rfl
    | uncaught status =>
      rcases status with (_ | _ | _ | _ | code) | signal <;> cases told <;> rfl
  refine ⟨hanswer, fun signal => ?_, ?_⟩
  · rw [run, hheard]
    cases j.verdict with
    | done triangles measured =>
      cases told with
      | false => rfl
      | true =>
        simp only [if_true, Verdict.heard, Verdict.answerKilled]
        cases Report.of s triangles measured <;> rfl
    | failed failure message => cases told <;> cases failure <;> rfl
    | uncaught status => cases told <;> rfl
  · rw [hanswer]
    exact isPermanent_answer s told budgetGib tail j.verdict

/-! ### A machine without torch -/

def withoutTorch : Job :=
  ⟨.ok (), .error ⟨.exception, "ModuleNotFoundError".toList, "No module named 'torch'".toList⟩,
    .ok true, .ok (), .ok (), .ok (), [], .ok 0, .ok (0, .int 0, .int 0)⟩

/-- What Python prints of its one event. -/
def withoutTorchLine : Text :=
  ("\x7b\"event\": \"failed\", \"class\": \"internal\", " ++
    "\"message\": \"torch does not import: No module named 'torch'\"\x7d").toList

def withoutTorchEvent : Json :=
  failedEvent .internal "torch does not import: No module named 'torch'".toList

/-- The JSON text of that one document. -/
def withoutTorchJson : JsonText where
  dumps _ := withoutTorchLine
  fromStr line := if line = withoutTorchLine then some withoutTorchEvent else none
  fromStr_blank line h := if_neg fun heq => by
    rw [heq] at h
    revert h
    decide

/-- Floats as the numbers they are spelled with. -/
def spelled : Serde Number := ⟨some, some, fun _ => none, fun _ => []⟩

theorem job_answered_without_torch :
    run spelled withoutTorchJson (.ok ([(.stderr, "Traceback".toList), (.stdout, withoutTorchLine)],
        .exited (.code 1) [])) (.int 16) 600 =
      .error (.runner "exit 1".toList
        "torch does not import: No module named 'torch'".toList []) := by
  have hprints : ∀ v ∈ withoutTorch.events, withoutTorchJson.Prints v := by
    intro v hv
    obtain rfl : v = withoutTorchEvent := List.mem_singleton.mp hv
    refine ⟨Lib.Report.not_ends_of_all (by decide), by decide, fun w hw => (Option.some.inj hw).symm, fun p _ hne => if_neg hne⟩
  have htold : withoutTorchJson.Told withoutTorch.events withoutTorch.verdict.event
      withoutTorchLine :=
    ⟨withoutTorchEvent, rfl, by decide, rfl⟩
  have h := (job_answered spelled withoutTorchJson withoutTorch withoutTorchLine
    [(.stderr, "Traceback".toList), (.stdout, withoutTorchLine)] [] (.int 16) 600 hprints
    (by decide) (by decide)).1
  rw [decide_eq_true htold] at h
  exact h

end Worker

end StudioWorker.Torch.Runner
