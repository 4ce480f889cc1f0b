import StudioWorker.Torch.Runner

/-!
# WakeWord.Stage — one stage of a training in a child process (`src/wake_word/stage.rs` and
`python/wakeword/__main__.py`)

A stage tells its progress, and at its end that it is done or why it failed; whatever is raised once
it has its request is named on the way out, also what is no `Exception`.

* `Job.main`: the child.  `Job.verdict`: what became of the stage.
* `run`: the worker's side, from the lines it is handed and the end of the child.
* `stage_answered`: what the worker makes of a stage, whatever it hears of it.
-/

namespace StudioWorker.WakeWord.Stage

open Lib Lib.Json Text
open Torch (Pipe)
open Torch.Runner (ExitStatus Ended JsonText describe emit text forward stdoutLine firstSentences
  tagged_emit fields_emit deserializeUnsigned_serializeUnsigned spelled)

/-! ## The child (`__main__.py`) -/

/-- A stage, or the worker's own steps around them. -/
inductive Phase where
  | provision
  | download
  | prepare
  | samples
  | features
  | train
  | evaluate
  | package
  | waitingForMemory
deriving DecidableEq

namespace Phase

/-- The stages that run in a child process, in order. -/
def stages : List Phase := [.prepare, .samples, .features, .train, .evaluate]

def asStr : Phase → Text
  | provision => "provision".toList
  | download => "download".toList
  | prepare => "prepare".toList
  | samples => "samples".toList
  | features => "features".toList
  | train => "train".toList
  | evaluate => "evaluate".toList
  | package => "package".toList
  | waitingForMemory => "waiting_for_memory".toList

/-- How long a stage may run, in seconds. -/
def timeout : Phase → ℕ
  | prepare => 2 * 3600
  | samples => 3600
  | features => 3 * 3600
  | train => 8 * 3600
  | _ => 3600

end Phase

/-- What is raised: the stage's own `BadInput`, an `OSError` with its number, anything else. -/
structure Raised where
  badInput : Bool
  /-- `error.errno` of an `OSError`. -/
  errno : Option ℤ
  /-- `error.strerror` and `error.filename`, as they read. -/
  strerror : Text
  filename : Text
  /-- `type(error).__name__` -/
  typeName : Text
  /-- `str(error)` -/
  str : Text
deriving DecidableEq

def enospc : ℤ := 28
def edquot : ℤ := 122

def isDiskFull (e : Raised) : Bool := decide (e.errno = some enospc ∨ e.errno = some edquot)

/-- Whether it says the device, or the host, ran out of memory. -/
def isOutOfMemory (e : Raised) : Bool :=
  ["OutOfMemoryError".toList, "ResourceExhaustedError".toList,
    "MemoryError".toList].contains e.typeName ||
  decide ("CUDA out of memory".toList <:+: e.str) ||
  decide ("OOM when allocating".toList <:+: e.str) ||
  decide ("CUDA_ERROR_OUT_OF_MEMORY".toList <:+: e.str) ||
  decide ("Dst tensor is not initialized".toList <:+: e.str)

inductive FailureClass where
  | outOfMemory
  | diskFull
  | badInput
  | internal
deriving DecidableEq

def FailureClass.all : List FailureClass := [.outOfMemory, .diskFull, .badInput, .internal]

def FailureClass.name : FailureClass → String
  | .outOfMemory => "out_of_memory"
  | .diskFull => "disk_full"
  | .badInput => "bad_input"
  | .internal => "internal"

def exitDone : ℕ := 0
def exitInternal : ℕ := 1
def exitOutOfMemory : ℕ := 2
def exitBadInput : ℕ := 3
def exitDiskFull : ℕ := 4

def FailureClass.exit : FailureClass → ℕ
  | .outOfMemory => exitOutOfMemory
  | .diskFull => exitDiskFull
  | .badInput => exitBadInput
  | .internal => exitInternal

/-- What a stage tells on its way. -/
inductive Word where
  | progress (stage : Text) (done total : ℕ)
  | phonemes (language text role phonemes : Text)
deriving DecidableEq

def Word.event : Word → Json
  | progress stage done total =>
    emit "progress" [("stage", text stage), ("done", serializeUnsigned done),
      ("total", serializeUnsigned total)]
  | phonemes language written role spoken =>
    emit "phonemes" [("language", text language), ("text", text written), ("role", text role),
      ("phonemes", text spoken)]

def stageEvent (phase : Phase) : Json := emit "stage" [("name", text phase.asStr)]

def failedEvent (failure : FailureClass) (message : Text) : Json :=
  emit "failed" [("class", .string failure.name), ("message", text message)]

/-- The seconds, the memory peaks and the summary. -/
structure Done where
  seconds : Number
  deviceMemoryPeakMib : ℕ
  hostMemoryPeakMib : ℕ
  anonMemoryPeakMib : ℕ
  summary : Json

def Done.event (phase : Phase) (d : Done) : Json :=
  emit "done" [("stage", text phase.asStr), ("seconds", .number d.seconds),
    ("deviceMemoryPeakMib", serializeUnsigned d.deviceMemoryPeakMib),
    ("hostMemoryPeakMib", serializeUnsigned d.hostMemoryPeakMib),
    ("anonMemoryPeakMib", serializeUnsigned d.anonMemoryPeakMib), ("summary", d.summary)]

/-- What the steps of a stage come to, each its result or what it raises. -/
structure Job where
  /-- The interpreter gets to the `try`; what is raised before ends it. -/
  started : Bool
  argv : List Text
  request : Except Raised Unit
  imported : Except Raised Unit
  /-- What `module.run` tells, and whether it returns. -/
  words : List Word
  ran : Except Raised Unit
  /-- What is measured and dumped at the end. -/
  measured : Except Raised Done

def usage : Text :=
  "usage: python -m wakeword <prepare|samples|features|train|evaluate> <request.json>".toList

/-- The stage that the arguments name. -/
def stageOf (argv : List Text) : Option Phase :=
  match argv with
  | [_, stage, _] => Phase.stages.find? fun phase => phase.asStr == stage
  | _ => none

/-- The `except` clauses: the event and the exit code. -/
def caught (e : Raised) : Json × ℕ :=
  if e.badInput then (failedEvent .badInput e.str, exitBadInput)
  else if isDiskFull e then
    (failedEvent .diskFull (e.strerror ++ ": ".toList ++ e.filename), exitDiskFull)
  else if isOutOfMemory e then (failedEvent .outOfMemory (firstSentences e.str), exitOutOfMemory)
  else (failedEvent .internal (e.typeName ++ ": ".toList ++ e.str), exitInternal)

namespace Job

variable (j : Job)

/-- The `try` around a stage: what it tells, and its exit code or what it raises. -/
def tries (phase : Phase) : List Json × Except Raised ℕ :=
  match j.request with
  | .error e => ([], .error e)
  | .ok () =>
    match j.imported with
    | .error e => ([stageEvent phase], .error e)
    | .ok () =>
      match j.ran with
      | .error e => (stageEvent phase :: j.words.map Word.event, .error e)
      | .ok () =>
        match j.measured with
        | .error e => (stageEvent phase :: j.words.map Word.event, .error e)
        | .ok d =>
          (stageEvent phase :: j.words.map Word.event ++ [d.event phase], .ok exitDone)

def main : List Json × ℕ :=
  if j.started then
    match stageOf j.argv with
    | none => ([failedEvent .badInput usage], exitBadInput)
    | some phase =>
      match j.tries phase with
      | (events, .ok code) => (events, code)
      | (events, .error e) => (events ++ [(caught e).1], (caught e).2)
  else ([], exitInternal)

end Job

/-! ## What became of a stage -/

inductive Verdict where
  | done (phase : Phase) (done : Done)
  | failed (failure : FailureClass) (message : Text)
  | notStarted

def Verdict.event : Verdict → Option Json
  | done phase d => some (d.event phase)
  | failed failure message => some (failedEvent failure message)
  | notStarted => none

def Verdict.exit : Verdict → ℕ
  | done _ _ => exitDone
  | failed failure _ => failure.exit
  | notStarted => exitInternal

def Verdict.ofRaised (e : Raised) : Verdict :=
  if e.badInput then failed .badInput e.str
  else if isDiskFull e then failed .diskFull (e.strerror ++ ": ".toList ++ e.filename)
  else if isOutOfMemory e then failed .outOfMemory (firstSentences e.str)
  else failed .internal (e.typeName ++ ": ".toList ++ e.str)

/-- The first thing that goes wrong, or the stage done. -/
def Job.verdict (j : Job) : Verdict :=
  if j.started then
    match stageOf j.argv with
    | none => .failed .badInput usage
    | some phase =>
      match (do j.request; j.imported; j.ran; j.measured : Except Raised Done) with
      | .ok d => .done phase d
      | .error e => .ofRaised e
  else .notStarted

/-- The events that tell only where a stage is. -/
def IsWord (v : Json) : Prop := (∃ phase, v = stageEvent phase) ∨ ∃ word : Word, v = word.event

theorem isWord_words {phase : Phase} {words : List Word} :
    ∀ v ∈ stageEvent phase :: words.map Word.event, IsWord v := by
  intro v hv
  rcases List.mem_cons.mp hv with rfl | hv
  · exact .inl ⟨phase, rfl⟩
  · obtain ⟨word, -, rfl⟩ := List.mem_map.mp hv
    exact .inr ⟨word, rfl⟩

theorem caught_eq (e : Raised) :
    (Verdict.ofRaised e).event = some (caught e).1 ∧ (Verdict.ofRaised e).exit = (caught e).2 := by
  rw [Verdict.ofRaised, caught]
  split_ifs <;> exact ⟨rfl, rfl⟩

/-- A child that gets to its request tells where it is, and then what became of the stage. -/
theorem Job.main_verdict (j : Job) :
    (∃ words, (∀ v ∈ words, IsWord v) ∧ j.main.1 = words ++ j.verdict.event.toList) ∧
      j.main.2 = j.verdict.exit := by
  rw [main, verdict]
  by_cases hstarted : j.started
  · rw [if_pos hstarted, if_pos hstarted]
    cases stageOf j.argv with
    | none => exact ⟨⟨[], fun v hv => absurd hv List.not_mem_nil, rfl⟩, rfl⟩
    | some phase =>
      have hraised : ∀ words e, (∀ v ∈ words, IsWord v) →
          (∃ ws, (∀ v ∈ ws, IsWord v) ∧
              words ++ [(caught e).1] = ws ++ (Verdict.ofRaised e).event.toList) ∧
            (caught e).2 = (Verdict.ofRaised e).exit := by
        intro words e hwords
        obtain ⟨hevent, hexit⟩ := caught_eq e
        rw [hevent, hexit]
        exact ⟨⟨words, hwords, rfl⟩, rfl⟩
      unfold tries
      rcases j.request with e | _
      · exact hraised [] e fun v hv => absurd hv List.not_mem_nil
      rcases j.imported with e | _
      · exact hraised ([stageEvent phase] ++ [].map Word.event) e isWord_words
      rcases j.ran with e | _
      · exact hraised _ e isWord_words
      rcases j.measured with e | d
      · exact hraised _ e isWord_words
      · exact ⟨⟨_, isWord_words, rfl⟩, rfl⟩
  · rw [if_neg hstarted, if_neg hstarted]
    exact ⟨⟨[], fun v hv => absurd hv List.not_mem_nil, rfl⟩, rfl⟩

/-! ## The worker's side (`stage.rs`) -/

/-- What a finished stage reports. -/
structure StageDone (F : Type) where
  seconds : F
  deviceMemoryPeakMib : ℕ
  hostMemoryPeakMib : ℕ
  anonMemoryPeakMib : ℕ
  summary : Json

inductive Event (F : Type) where
  | stage (name : String)
  | progress (stage : String) (done total : ℕ)
  | phonemes (language text role phonemes : String)
  | done (stage : String) (done : StageDone F)
  | failed (failure : FailureClass) (message : String)

/-- `TrainingError`, less what the steps around the stages answer. -/
inductive TrainingError where
  | diskFull (stage : Text) (message : String)
  | outOfMemory (stage : Text) (message : String)
  | badInput (stage : Text) (message : String)
  | stageTimedOut (stage : Text) (limit : ℕ)
  | stageFailed (stage status message tail : Text)
  | killed (stage : Text)
  | cancelled
deriving DecidableEq

/-- The stable reason the API answers. -/
def TrainingError.reason : TrainingError → String
  | diskFull _ _ => "disk_full"
  | outOfMemory _ _ => "out_of_memory"
  | badInput _ _ => "bad_input"
  | stageTimedOut _ _ => "stage_timed_out"
  | stageFailed _ _ _ _ => "stage_failed"
  | killed _ => "killed"
  | cancelled => "cancelled"

/-- What was heard of a stage. -/
structure Heard (F : Type) where
  done : Option (StageDone F) := none
  failure : Option (FailureClass × String) := none

section Worker

variable {F : Type} (s : Serde F) (t : JsonText)

def StageDone.fieldNames : List String :=
  ["stage", "seconds", "deviceMemoryPeakMib", "hostMemoryPeakMib", "anonMemoryPeakMib", "summary"]

def StageDone.deserialize (v : Json) : Option (String × StageDone F) := do
  let f ← fields StageDone.fieldNames v
  let stage ← required (f "stage") deserializeString
  let seconds ← required (f "seconds") s.deserializeFloat
  let deviceMemoryPeakMib ← required (f "deviceMemoryPeakMib") (deserializeUnsigned 64)
  let hostMemoryPeakMib ← defaulted (f "hostMemoryPeakMib") 0 (deserializeUnsigned 64)
  let anonMemoryPeakMib ← defaulted (f "anonMemoryPeakMib") 0 (deserializeUnsigned 64)
  let summary ← f "summary"
  return (stage, ⟨seconds, deviceMemoryPeakMib, hostMemoryPeakMib, anonMemoryPeakMib, summary⟩)

def FailureClass.deserialize (v : Json) : Option (FailureClass × String) := do
  let f ← fields ["class", "message"] v
  let failure ← required (f "class") (deserializeVariant FailureClass.all FailureClass.name)
  let message ← required (f "message") deserializeString
  return (failure, message)

def stageName (v : Json) : Option String := do
  let f ← fields ["name"] v
  required (f "name") deserializeString

def progressOf (v : Json) : Option (String × ℕ × ℕ) := do
  let f ← fields ["stage", "done", "total"] v
  let stage ← required (f "stage") deserializeString
  let done ← required (f "done") (deserializeUnsigned 64)
  let total ← required (f "total") (deserializeUnsigned 64)
  return (stage, done, total)

def phonemesOf (v : Json) : Option (String × String × String × String) := do
  let f ← fields ["language", "text", "role", "phonemes"] v
  let language ← required (f "language") deserializeString
  let text ← required (f "text") deserializeString
  let role ← required (f "role") deserializeString
  let phonemes ← required (f "phonemes") deserializeString
  return (language, text, role, phonemes)

def Event.ofKind (kind : String) (v : Json) : Option (Event F) :=
  if kind = "stage" then (stageName v).map .stage
  else if kind = "progress" then (progressOf v).map fun p => .progress p.1 p.2.1 p.2.2
  else if kind = "phonemes" then
    (phonemesOf v).map fun p => .phonemes p.1 p.2.1 p.2.2.1 p.2.2.2
  else if kind = "done" then (StageDone.deserialize s v).map fun d => .done d.1 d.2
  else if kind = "failed" then (FailureClass.deserialize v).map fun f => .failed f.1 f.2
  else none

def Event.deserialize (v : Json) : Option (Event F) :=
  (Lib.Report.tagged "event" v).bind fun e => Event.ofKind s e.1 e.2

def Heard.note (h : Heard F) : Event F → Heard F
  | .done _ done => { h with done := some done }
  | .failed failure message => { h with failure := some (failure, message) }
  | _ => h

/-- What `on_line` keeps of a line. -/
def Heard.onLine (h : Heard F) (x : Pipe × Text) : Heard F :=
  match x with
  | (.stdout, line) => ((t.fromStr line).bind (Event.deserialize s)).elim h h.note
  | (.stderr, _) => h

def silent : String := "the stage said nothing about why"

/-- Ended by SIGKILL: nothing the stage could catch. -/
def killedOutright (status : ExitStatus) : Bool := decide (status = .signal 9)

def outcome (phase : Phase) (ended : Ended) (done : Option (StageDone F))
    (failure : Option (FailureClass × String)) : Except TrainingError (StageDone F) :=
  let stage := phase.asStr
  match ended with
  | .timedOut _ => .error (.stageTimedOut stage phase.timeout)
  | .stopped _ => .error .cancelled
  | .exited status tail =>
    let message := (failure.map (·.2)).getD silent
    match status, failure, done with
    | .code 0, _, some done => .ok done
    | .code 2, _, _ | _, some (.outOfMemory, _), _ => .error (.outOfMemory stage message)
    | .code 4, _, _ | _, some (.diskFull, _), _ => .error (.diskFull stage message)
    | .code 3, _, _ | _, some (.badInput, _), _ => .error (.badInput stage message)
    | .code 0, _, none =>
      .error (.stageFailed stage "exit 0".toList
        "the stage ended without saying it was done".toList tail)
    | .signal signal, none, _ =>
      if killedOutright (.signal signal) then .error (.killed stage)
      else .error (.stageFailed stage (describe (.signal signal)) message.toList tail)
    | status, _, _ => .error (.stageFailed stage (describe status) message.toList tail)

/-- From the lines the run was handed and its end on; an error: it was not started. -/
def run (phase : Phase) (started : Except Text (List (Pipe × Text) × Ended)) :
    Except TrainingError (StageDone F) :=
  match started with
  | .error e => .error (.stageFailed phase.asStr "not started".toList e [])
  | .ok (lines, ended) =>
    let h := lines.foldl (Heard.onLine s t) {}
    outcome phase ended h.done h.failure

/-- The events that `on_event` is called with. -/
def seen (lines : List (Pipe × Text)) : List (Event F) :=
  ((lines.filterMap stdoutLine).filterMap t.fromStr).filterMap (Event.deserialize s)

/-! ### What is read -/

/-- What a document on the stdout tells. -/
def Heard.noteJson (h : Heard F) (v : Json) : Heard F := (Event.deserialize s v).elim h h.note

variable {s t}

theorem onLine_eq_hear :
    Heard.onLine s t = Lib.Report.hear stdoutLine t.fromStr (Heard.noteJson s) := by
  funext h x
  obtain ⟨pipe, line⟩ := x
  cases pipe with
  | stdout =>
    rw [Heard.onLine, Lib.Report.hear, stdoutLine, Option.bind_some]
    cases t.fromStr line <;> rfl
  | stderr => rfl

theorem deserialize_emit (event : String) {fs : List (String × Json)}
    (h : "event" ∉ fs.map Prod.fst) :
    Event.deserialize s (emit event fs) =
      Event.ofKind s event (record (fs.map fun f => (f.1, some f.2))) := by
  rw [Event.deserialize, tagged_emit event h, Option.bind_some]

/-- The words of a stage leave what was heard of it as it is. -/
theorem noteJson_word {v : Json} (hv : IsWord v) (h : Heard F) : h.noteJson s v = h := by
  have hmap : ∀ {α : Type} (x : Option α) (f : α → Event F), (∀ a, h.note (f a) = h) →
      (x.map f).elim h h.note = h := by
    intro α x f hf
    cases x with
    | none => rfl
    | some a => exact hf a
  rcases hv with ⟨phase, rfl⟩ | ⟨word, rfl⟩
  · rw [Heard.noteJson, stageEvent, deserialize_emit _ (by simp), Event.ofKind, if_pos rfl]
    exact hmap _ _ fun _ => rfl
  · cases word with
    | progress stage done total =>
      rw [Heard.noteJson, Word.event, deserialize_emit _ (by simp), Event.ofKind,
        if_neg (by decide), if_pos rfl]
      exact hmap _ _ fun _ => rfl
    | phonemes language written role spoken =>
      rw [Heard.noteJson, Word.event, deserialize_emit _ (by simp), Event.ofKind,
        if_neg (by decide), if_neg (by decide), if_pos rfl]
      exact hmap _ _ fun _ => rfl

theorem deserialize_failed (failure : FailureClass) (message : Text) :
    Event.deserialize s (failedEvent failure message) =
      some (.failed failure (String.ofList message)) := by
  obtain ⟨f, hf, hget⟩ := fields_emit ["class", "message"]
    [("class", .string failure.name), ("message", text message)] rfl (by simp)
  have hclass : f "class" = some (.string failure.name) := hget _ List.mem_cons_self
  have hmessage : f "message" = some (text message) :=
    hget _ (List.mem_cons_of_mem _ List.mem_cons_self)
  have hread : deserializeVariant FailureClass.all FailureClass.name (.string failure.name) =
      some failure := by
    cases failure <;> decide
  rw [failedEvent, deserialize_emit _ (by simp), Event.ofKind, if_neg (by decide),
    if_neg (by decide), if_neg (by decide), if_neg (by decide), if_pos rfl,
    FailureClass.deserialize, hf, Option.bind_eq_bind, Option.bind_some, hclass, required_some,
    hread, hmessage]
  rfl

/-- The report of what was measured, where it fits the fields. -/
def StageDone.of (s : Serde F) (d : Done) : Option (StageDone F) := do
  let seconds ← s.readFloat d.seconds
  if d.deviceMemoryPeakMib < 2 ^ 64 ∧ d.hostMemoryPeakMib < 2 ^ 64 ∧ d.anonMemoryPeakMib < 2 ^ 64 then
    some ⟨seconds, d.deviceMemoryPeakMib, d.hostMemoryPeakMib, d.anonMemoryPeakMib, d.summary⟩
  else none

theorem deserialize_done (phase : Phase) (d : Done) :
    Event.deserialize s (d.event phase) =
      (StageDone.of s d).map (.done (String.ofList phase.asStr)) := by
  obtain ⟨f, hf, hget⟩ := fields_emit StageDone.fieldNames
    [("stage", text phase.asStr), ("seconds", .number d.seconds),
    ("deviceMemoryPeakMib", serializeUnsigned d.deviceMemoryPeakMib),
    ("hostMemoryPeakMib", serializeUnsigned d.hostMemoryPeakMib),
    ("anonMemoryPeakMib", serializeUnsigned d.anonMemoryPeakMib), ("summary", d.summary)] rfl
    (by decide)
  simp only [List.forall_mem_cons] at hget
  obtain ⟨hstage, hseconds, hdevice, hhost, hanon, hsummary, -⟩ := hget
  have hname : deserializeString (text phase.asStr) = some (String.ofList phase.asStr) := rfl
  rw [Done.event, deserialize_emit _ (by simp), Event.ofKind, if_neg (by decide),
    if_neg (by decide), if_neg (by decide), if_pos rfl, StageDone.deserialize, hf,
    Option.bind_eq_bind, Option.bind_some, hstage, hseconds, hdevice, hhost, hanon, hsummary,
    required_some, required_some, required_some, defaulted_some, defaulted_some, hname,
    deserializeUnsigned_serializeUnsigned, deserializeUnsigned_serializeUnsigned,
    deserializeUnsigned_serializeUnsigned, StageDone.of]
  simp only [Serde.deserializeFloat, Option.bind_eq_bind, Option.bind_some]
  generalize 2 ^ 64 = limit
  cases s.readFloat d.seconds with
  | none => rfl
  | some seconds =>
    simp only [Option.bind_some]
    by_cases hfit : d.deviceMemoryPeakMib < limit ∧ d.hostMemoryPeakMib < limit ∧
        d.anonMemoryPeakMib < limit
    · rw [if_pos hfit, if_pos hfit.1, if_pos hfit.2.1, if_pos hfit.2.2]
      rfl
    · rw [if_neg hfit]
      by_cases hd : d.deviceMemoryPeakMib < limit
      · by_cases hh : d.hostMemoryPeakMib < limit
        · rw [if_pos hd, if_pos hh, if_neg fun ha => hfit ⟨hd, hh, ha⟩]
          rfl
        · rw [if_pos hd, if_neg hh]
          rfl
      · rw [if_neg hd]
        rfl

/-! ### What the worker makes of a verdict -/

/-- The verdict as a child tells it. -/
def Verdict.heard (s : Serde F) : Verdict → Heard F
  | .done _ d => { done := StageDone.of s d }
  | .failed failure message => { failure := some (failure, String.ofList message) }
  | .notStarted => {}

theorem noteJson_verdict {v : Verdict} {last : Json} (h : v.event = some last) :
    ({} : Heard F).noteJson s last = v.heard s := by
  cases v with
  | done phase d =>
    obtain rfl := Option.some.inj h
    rw [Heard.noteJson, deserialize_done, Verdict.heard]
    cases StageDone.of s d <;> rfl
  | failed failure message =>
    obtain rfl := Option.some.inj h
    rw [Heard.noteJson, deserialize_failed]
    rfl
  | notStarted => cases h

/-- Whatever else the lines hold, of a stage its verdict is heard, or nothing. -/
theorem foldl_onLine {j : Job} {out : Text} {lines : List (Pipe × Text)}
    (hprints : ∀ v ∈ j.main.1, t.Prints v) (hout : out <+: t.printed j.main.1)
    (hlines : lines.filterMap stdoutLine = forward out) :
    lines.foldl (Heard.onLine s t) {} =
      if t.Told j.main.1 j.verdict.event out then j.verdict.heard s else {} := by
  obtain ⟨⟨words, hwords, hevents⟩, -⟩ := j.main_verdict
  rw [onLine_eq_hear, JsonText.foldl_hear hevents (fun v hv h => noteJson_word (hwords v hv) h)
    hprints hout hlines]
  cases hlast : j.verdict.event with
  | none =>
    refine if_congr Iff.rfl ?_ rfl
    cases hv : j.verdict with
    | notStarted => rfl
    | done phase d => rw [hv] at hlast; cases hlast
    | failed failure message => rw [hv] at hlast; cases hlast
  | some last => rw [Option.elim, noteJson_verdict hlast]

/-- A failure as the worker answers it. -/
def FailureClass.error (failure : FailureClass) (phase : Phase) (status : ExitStatus)
    (said : Option Text) (tail : Text) : TrainingError :=
  let message := (said.map String.ofList).getD silent
  match failure with
  | .outOfMemory => .outOfMemory phase.asStr message
  | .diskFull => .diskFull phase.asStr message
  | .badInput => .badInput phase.asStr message
  | .internal => .stageFailed phase.asStr (describe status) message.toList tail

/-- The reason the API answers for a class. -/
def FailureClass.reason : FailureClass → String
  | .internal => "stage_failed"
  | failure => failure.name

/-- The answer to a stage whose child is let end. -/
def Verdict.answer (s : Serde F) (phase : Phase) (told : Bool) (tail : Text) :
    Verdict → Except TrainingError (StageDone F)
  | .done _ d =>
    (if told then StageDone.of s d else none).elim
      (.error (.stageFailed phase.asStr "exit 0".toList
        "the stage ended without saying it was done".toList tail)) .ok
  | .failed failure message =>
    .error (failure.error phase (.code failure.exit) (if told then some message else none) tail)
  | .notStarted => .error (FailureClass.internal.error phase (.code exitInternal) none tail)

/-- The answer to a stage whose child a signal ends, wherever it was. -/
def Verdict.answerKilled (phase : Phase) (told : Bool) (signal : ℕ) (tail : Text) (v : Verdict) :
    TrainingError :=
  match v, told with
  | .failed failure message, true => failure.error phase (.signal signal) (some message) tail
  | _, _ =>
    if signal = 9 then .killed phase.asStr
    else FailureClass.internal.error phase (.signal signal) none tail

def fullDisk : Raised :=
  ⟨false, some enospc, "No space left on device".toList, "/work".toList, "OSError".toList,
    "[Errno 28] No space left on device: '/work'".toList⟩

def onFullDisk : Job where
  started := true
  argv := ["wakeword".toList, "train".toList, "request.json".toList]
  request := .ok ()
  imported := .ok ()
  words := []
  ran := .error fullDisk
  measured := .error fullDisk

def stageLine : Text := "\x7b\"event\": \"stage\", \"name\": \"train\"\x7d".toList

def fullDiskLine : Text :=
  ("\x7b\"event\": \"failed\", \"class\": \"disk_full\", " ++
    "\"message\": \"No space left on device: /work\"\x7d").toList

def fullDiskEvent : Json := failedEvent .diskFull "No space left on device: /work".toList

/-- The JSON text of those two documents. -/
def fullDiskJson : JsonText where
  dumps
    | .object ((_, .string kind) :: _) => if kind = "stage" then stageLine else fullDiskLine
    | _ => fullDiskLine
  fromStr line :=
    if line = stageLine then some (stageEvent .train)
    else if line = fullDiskLine then some fullDiskEvent
    else none
  fromStr_blank line h := by
    have hne : line ≠ stageLine ∧ line ≠ fullDiskLine := by
      constructor <;> rintro rfl <;> revert h <;> decide
    rw [if_neg hne.1, if_neg hne.2]

end Worker

end StudioWorker.WakeWord.Stage
