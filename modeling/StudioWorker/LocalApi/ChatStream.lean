import StudioWorker.Engine.ThinkPieces
import StudioWorker.Engine.Told
import StudioWorker.Lib.Feed
import StudioWorker.LlamaProcess.Protocol
import StudioWorker.Session.Offer

/-!
# LocalApi.ChatStream — a chat on a lane, streamed and whole (`local.rs`, `local_api.rs`)

A chat with `stream` answers with server-sent events while it is generated: a thread of its own
sends them through a bounded channel, and the connection reads them in pieces or goes away.
Without, it answers once, with the completion.

* `messages`: the events `stream_on_lane` sends, in order.
* `chat_received`: what the connection reads of them, in any order of sends and reads.
* `chat_alike`: a streamed answer and a whole one of the same generation.
-/

namespace StudioWorker.ChatStream

open Engine Lib
open LlamaProcess (get?)
open Session (JobOutcome)

abbrev Bytes := List UInt8

/-! ## The frames (`engine/llm_core.rs`) -/

def str (t : Text) : Json := .string (String.ofList t)
def nat (n : ℕ) : Json := .number (.int n)

/-- `completion_json`, as it is sent -/
def completionValue (model : Text) (elapsedMs : ℕ) (c : Completion) : Json :=
  let message := .object ([("role", .string "assistant"), ("content", str c.content)] ++
    c.reasoning.toList.map fun r => ("reasoning_content", str r))
  .object [("object", .string "chat.completion"), ("model", str model),
    ("choices", .array [.object [("index", nat 0), ("message", message),
      ("finish_reason", str c.finishReason.asStr)]]),
    ("usage", .object [("prompt_tokens", nat c.promptTokens),
      ("completion_tokens", nat c.completionTokens), ("total_tokens", nat c.totalTokens)]),
    ("elapsed_ms", nat elapsedMs)]

def chunkFrame (model : Text) (delta : Delta) : Json :=
  let delta := match delta with
    | .content t => .object [("content", str t)]
    | .reasoning t => .object [("reasoning_content", str t)]
  .object [("object", .string "chat.completion.chunk"), ("model", str model),
    ("choices", .array [.object [("index", nat 0), ("delta", delta), ("finish_reason", .null)]])]

def finalFrame (model : Text) (finish : Finish) (promptTokens completionTokens : ℕ) : Json :=
  .object [("object", .string "chat.completion.chunk"), ("model", str model),
    ("choices", .array [.object [("index", nat 0), ("delta", .object []),
      ("finish_reason", str finish.asStr)]]),
    ("usage", .object [("prompt_tokens", nat promptTokens),
      ("completion_tokens", nat completionTokens),
      ("total_tokens", nat (promptTokens + completionTokens))])]

def errorFrame (message : Text) : Json := .object [("error", .object [("message", str message)])]

def ascii (s : String) : Bytes := s.toList.map fun c => UInt8.ofNat c.toNat

/-- `value` as it is written, between the marks of an event -/
def sseEvent (write : Json → Bytes) (value : Json) : Bytes :=
  ascii "data: " ++ write value ++ ascii "\n\n"

def sseDone : Bytes := ascii "data: [DONE]\n\n"

/-! ## The lane (`local.rs`) -/

def deadlinePassed : Text := "deadline passed: the caller stopped waiting".toList

/-- An error, as it is written alone and with its causes. -/
structure Failure where
  text : Text
  chain : Text

def pastDeadline : Failure := ⟨deadlinePassed, deadlinePassed⟩

/-- A chat of a model: the pieces it told, and how it ended. -/
structure ChatRun where
  pieces : List Text
  result : Except Failure Json

/-- What is found on the lane. -/
inductive Served where
  | refused (error : Text)
  | notChat
  | chat (run : ChatRun)

/-- Whether the caller's deadline has passed as the chat begins, and once it has ended. -/
structure Deadline where
  before : Bool
  after : Bool
  mono : before = true → after = true

/-- A chat whose caller has stopped waiting is not started. -/
def Deadline.chat (d : Deadline) (run : ChatRun) : ChatRun :=
  if d.before then ⟨[], .error pastDeadline⟩ else run

/-- What `json[name]` is. -/
def member (v : Json) (name : String) : Json := (get? v name).getD .null

/-- What `json[i]` is. -/
def item (v : Json) (i : ℕ) : Json :=
  match v with
  | .array vs => vs.getD i .null
  | _ => .null

def asU64 : Json → Option ℕ
  | .number (.int n) => if 0 ≤ n ∧ n < 2 ^ 64 then some n.toNat else none
  | _ => none

def finishOf (json : Json) : Finish :=
  match member (item (member json "choices") 0) "finish_reason" with
  | .string s => if s.toList = Finish.length.asStr then .length else .stop
  | _ => .stop

/-- The frame that closes a stream. -/
def lastFrame (model : Text) : Except Failure Json → Json
  | .ok json =>
    let usage := member json "usage"
    finalFrame model (finishOf json) ((asU64 (member usage "prompt_tokens")).getD 0)
      ((asU64 (member usage "completion_tokens")).getD 0 % 2 ^ 32)
  | .error e => errorFrame e.chain

/-- How a stream's chat ended: past the deadline no other error counts. -/
def Deadline.streamed (d : Deadline) (result : Except Failure Json) : Except Failure Json :=
  result.mapError fun e => if d.after then pastDeadline else e

/-- The events of `stream_on_lane`, in order. -/
def messages (write : Json → Bytes) (model : Text) (d : Deadline) : Served → List Bytes
  | .refused error => [sseEvent write (errorFrame error), sseDone]
  | .notChat =>
    [sseEvent write (errorFrame ("model ".toList ++ model ++ " is not a chat model".toList)),
      sseDone]
  | .chat run =>
    let run := d.chat run
    (ThinkSplitter.stream run.pieces).map (fun delta => sseEvent write (chunkFrame model delta)) ++
      [sseEvent write (lastFrame model (d.streamed run.result)), sseDone]

/-- `LocalError`, as a chat on a lane ends with. -/
inductive LocalError where
  | deadlineExceeded
  | engine (text : Text)
deriving DecidableEq

def LocalError.text : LocalError → Text
  | .deadlineExceeded => deadlinePassed
  | .engine text => "engine error: ".toList ++ text

/-- `chat_on_lane`; `none`: the chat is no job of a lane. -/
def chatOnLane (d : Deadline) : Served → Option (Except LocalError Json)
  | .chat run => some ((d.chat run).result.mapError fun e =>
      if d.after then .deadlineExceeded else .engine e.text)
  | _ => none

/-- `outcome_of`, of a result whose error is written -/
def outcomeOf {ε : Type} (write : ε → Text) : Except ε Json → JobOutcome
  | .ok _ => .completed
  | .error e => .failed (String.ofList (write e))

/-- What the job of a streamed chat is recorded with. -/
def streamRecorded (d : Deadline) : Served → Option JobOutcome
  | .chat run => some (outcomeOf Failure.chain (d.streamed (d.chat run).result))
  | _ => none

/-- What the job of a whole chat is recorded with. -/
def chatRecorded (d : Deadline) (served : Served) : Option JobOutcome :=
  (chatOnLane d served).map (outcomeOf LocalError.text)

/-! ## The connection (`local_api.rs`) -/

/-- `STREAM_BUFFER_CHUNKS` -/
def streamBufferChunks : ℕ := 256

theorem sseEvent_ne_nil (write : Json → Bytes) (value : Json) : sseEvent write value ≠ [] := by
  intro h
  have hnil := (List.append_eq_nil_iff.mp (List.append_eq_nil_iff.mp h).1).1
  exact absurd hnil (by decide)

theorem messages_solid {write : Json → Bytes} {model : Text} {d : Deadline} {served : Served} :
    ∀ m ∈ messages write model d served, m ≠ [] := by
  have hclosed : ∀ value : Json, ∀ m ∈ [sseEvent write value, sseDone], m ≠ [] := by
    intro value m hm
    rcases List.mem_cons.mp hm with rfl | hm
    · exact sseEvent_ne_nil write value
    · rw [List.mem_singleton.mp hm]
      decide
  cases served with
  | refused error => exact hclosed _
  | notChat => exact hclosed _
  | chat run =>
    intro m hm
    rcases List.mem_append.mp hm with hm | hm
    · obtain ⟨delta, -, rfl⟩ := List.mem_map.mp hm
      exact sseEvent_ne_nil write _
    · exact hclosed _ m hm

theorem sseDone_suffix (write : Json → Bytes) (model : Text) (d : Deadline) (served : Served) :
    sseDone <:+ (messages write model d served).flatten := by
  have hclosed : ∀ (ms : List Bytes) (value : Bytes),
      sseDone <:+ (ms ++ [value, sseDone]).flatten := by
    intro ms value
    refine ⟨ms.flatten ++ value, ?_⟩
    simp
  cases served with
  | refused error => exact hclosed [] _
  | notChat => exact hclosed [] _
  | chat run => exact hclosed _ _

/-- In any order of sends and reads, the connection reads the first of the events' bytes, and takes
them to be over only with the last, which is `[DONE]`; a generation is held up only by a connection
that stays. -/
theorem chat_received (write : Json → Bytes) (model : Text) (d : Deadline) (served : Served)
    {es : List Feed.Event} {s : Feed UInt8}
    (hr : System.run (Feed.step streamBufferChunks) { left := messages write model d served } es =
      some s) :
    Feed.Fed streamBufferChunks (messages write model d served) s ∧
      (s.ended = true → sseDone <:+ s.written) := by
  have hfed := Feed.run_fed (by decide) messages_solid hr
  exact ⟨hfed, fun hended => hfed.whole hended ▸ sseDone_suffix write model d served⟩

def inTime : Deadline := ⟨false, false, fun h => h⟩

/-- A client that reads a refusal to its end, and one that leaves before it was sent. -/
theorem chat_received_refusal :
    (∃ s, System.run (Feed.step streamBufferChunks)
      { left := messages (fun _ => []) [] inTime (.refused []) }
        [.send, .read 3, .send, .read 9, .read 99, .read 1] = some s ∧
      s.ended = true ∧ sseDone <:+ s.written) ∧
    ∃ s, System.run (Feed.step streamBufferChunks)
      { left := messages (fun _ => []) [] inTime (.refused []) } [.leave, .send, .send] = some s ∧
      s.gone = true ∧ s.dropped = true :=
  ⟨System.exists_run (P := fun s => s.ended = true) (by decide) fun _ hr hended =>
      ⟨hended, (chat_received _ _ _ _ hr).2 hended⟩,
    System.exists_run (P := fun s => s.gone = true) (by decide) fun _ hr hgone =>
      ⟨hgone, (chat_received _ _ _ _ hr).1.failed hgone⟩⟩

/-! ## Streamed and whole -/

section Alike

variable {Token D : Type}

/-- The chat of a loaded model (`LoadedLlm::chat`): what the completion told, and its answer. -/
def loadedChat (model : Text) (elapsedMs : ℕ) (failure : Refusal → Failure) :
    Outcome Token (Run Token × Completion) → ChatRun
  | .ok (r, c) => ⟨told r.calls, .ok (completionValue model elapsedMs c)⟩
  | .error (e, r) => ⟨told r.calls, .error (failure e)⟩

theorem asU64_nat {n : ℕ} (h : n < 2 ^ 64) : asU64 (nat n) = some n := by
  have hint : (0 : ℤ) ≤ n ∧ (n : ℤ) < 2 ^ 64 := ⟨Int.natCast_nonneg n, by exact_mod_cast h⟩
  rw [nat, asU64, if_pos hint, Int.toNat_natCast]

theorem finishOf_completionValue (model : Text) (elapsedMs : ℕ) (c : Completion) :
    finishOf (completionValue model elapsedMs c) = c.finishReason := by
  show (if (String.ofList c.finishReason.asStr).toList = Finish.length.asStr then Finish.length
    else .stop) = _
  rw [String.toList_ofList]
  cases c.finishReason <;> decide

/-- The frame that closes a stream has the completion's reason and counts. -/
theorem lastFrame_completionValue (model : Text) (elapsedMs : ℕ) {c : Completion}
    (hprompt : c.promptTokens < 2 ^ 64) (hcompletion : c.completionTokens < 2 ^ 32) :
    lastFrame model (.ok (completionValue model elapsedMs c)) =
      finalFrame model c.finishReason c.promptTokens c.completionTokens := by
  have hprompt' : asU64 (member (member (completionValue model elapsedMs c) "usage")
      "prompt_tokens") = some c.promptTokens := asU64_nat hprompt
  have hcompletion' : asU64 (member (member (completionValue model elapsedMs c) "usage")
      "completion_tokens") = some c.completionTokens :=
    asU64_nat (hcompletion.trans (by decide))
  rw [lastFrame, hprompt', hcompletion', finishOf_completionValue, Option.getD_some,
    Option.getD_some, Nat.mod_eq_of_lt hcompletion]

/-- A job is completed streamed where it is whole, and past the deadline fails with the same. -/
theorem recorded_alike (d : Deadline) (run : ChatRun) :
    (streamRecorded d (.chat run) = some .completed ↔
        chatRecorded d (.chat run) = some .completed) ∧
      (d.after = true → streamRecorded d (.chat run) = chatRecorded d (.chat run)) := by
  simp only [streamRecorded, chatRecorded, chatOnLane]
  cases (d.chat run).result with
  | ok json => exact ⟨Iff.rfl, fun _ => rfl⟩
  | error e =>
    refine ⟨iff_of_false (fun h => by cases h) (fun h => by cases h), fun hafter => ?_⟩
    show some (JobOutcome.failed (String.ofList (if d.after then pastDeadline else e).chain)) =
      some (JobOutcome.failed (String.ofList
        (if d.after then LocalError.deadlineExceeded else .engine e.text).text))
    rw [if_pos hafter, if_pos hafter]
    rfl

/-- A streamed chat and a whole one of the same generation. -/
structure Alike (write : Json → Bytes) (model : Text) (d : Deadline) (elapsedMs : ℕ)
    (failure : Refusal → Failure) (o : Outcome Token (Run Token × Completion)) : Prop where
  /-- Both answers are of one text, which is all that was told; the stream's deltas are what
  streams of it tell, and split it as the completion does exactly where its tags agree. -/
  answered : ∀ r c, o = .ok (r, c) → d.before = false →
    let served := Served.chat (loadedChat model elapsedMs failure o)
    let ds := ThinkSplitter.stream (told r.calls)
    messages write model d served =
        ds.map (fun delta => sseEvent write (chunkFrame model delta)) ++
          [sseEvent write (finalFrame model c.finishReason c.promptTokens c.completionTokens),
            sseDone] ∧
      chatOnLane d served = some (.ok (completionValue model elapsedMs c)) ∧
      (c.content, c.reasoning) = splitReasoning (told r.calls).flatten ∧
      Told (told r.calls).flatten ds ∧
      (SameSplit ds (c.content, c.reasoning) ↔ Agreeing (told r.calls).flatten)
  /-- What was told before an error is sent in front of it. -/
  failed : ∀ e r, o = .error (e, r) → d.before = false →
    let served := Served.chat (loadedChat model elapsedMs failure o)
    let ds := ThinkSplitter.stream (told r.calls)
    messages write model d served =
        ds.map (fun delta => sseEvent write (chunkFrame model delta)) ++
          [sseEvent write (errorFrame (if d.after then deadlinePassed else (failure e).chain)),
            sseDone] ∧
      chatOnLane d served =
        some (.error (if d.after then .deadlineExceeded else .engine (failure e).text)) ∧
      Told (told r.calls).flatten ds
  /-- A chat whose caller stopped waiting tells nothing. -/
  late : d.before = true →
    let served := Served.chat (loadedChat model elapsedMs failure o)
    messages write model d served = [sseEvent write (errorFrame deadlinePassed), sseDone] ∧
      chatOnLane d served = some (.error .deadlineExceeded)
  /-- Their jobs end alike, each recorded with what its caller is told. -/
  recorded : let served := Served.chat (loadedChat model elapsedMs failure o)
    (streamRecorded d served = some .completed ↔ chatRecorded d served = some .completed) ∧
      (d.after = true → streamRecorded d served = chatRecorded d served)

/-- However a completion of a prompt goes, its stream and its whole answer are alike. -/
theorem chat_alike (write : Json → Bytes) (model : Text) (d : Deadline) (elapsedMs : ℕ)
    (failure : Refusal → Failure) (w : World Token) (llm : LlamaModel Token D)
    (contextSize : Option ℕ) (params : LlmParams) {tokens : List Token}
    (htokens : tokens.length < 2 ^ 64) :
    Alike write model d elapsedMs failure (complete w llm contextSize params tokens) where
  answered r c ho hbefore := by
    obtain ⟨generated, finish, hgenerated, hc⟩ := complete_told ho
    have hchat : ∀ run : ChatRun, d.chat run = run := fun run =>
      if_neg (by rw [hbefore]; exact Bool.false_ne_true)
    have hsplit : (c.content, c.reasoning) = splitReasoning (told r.calls).flatten := by
      rw [hc]
      rfl
    have hprompt : c.promptTokens < 2 ^ 64 := by rw [hc]; exact htokens
    have hcompletion : c.completionTokens < 2 ^ 32 := by
      rw [hc]
      exact Nat.lt_of_le_of_lt hgenerated (by decide)
    rw [ho]
    refine ⟨?_, ?_, hsplit, told_stream _, ?_⟩
    · rw [messages, hchat, ← lastFrame_completionValue model elapsedMs hprompt hcompletion]
      rfl
    · rw [chatOnLane, hchat]
      rfl
    · rw [hsplit]
      exact (stream_sent _).sameSplit_iff
  failed e r ho hbefore := by
    have hchat : ∀ run : ChatRun, d.chat run = run := fun run =>
      if_neg (by rw [hbefore]; exact Bool.false_ne_true)
    rw [ho]
    refine ⟨?_, ?_, told_stream _⟩
    · rw [messages, hchat]
      show _ ++ [sseEvent write (errorFrame (if d.after then pastDeadline else failure e).chain),
        sseDone] = _
      rw [apply_ite Failure.chain]
      rfl
    · rw [chatOnLane, hchat]
      rfl
  late hbefore := by
    have hchat : ∀ run : ChatRun, d.chat run = ⟨[], .error pastDeadline⟩ :=
      fun run => if_pos hbefore
    have hafter := d.mono hbefore
    refine ⟨?_, ?_⟩
    · rw [messages, hchat]
      show [sseEvent write (errorFrame (if d.after then pastDeadline else pastDeadline).chain),
        sseDone] = _
      rw [ite_self]
      rfl
    · rw [chatOnLane, hchat]
      show some (Except.error (if d.after then LocalError.deadlineExceeded else _)) = _
      rw [if_pos hafter]
  recorded := recorded_alike d _

/-- A model whose first sample ends the answer. -/
def silentModel : LlamaModel Unit Unit := ⟨0, fun _ => true, fun _ => [], (), fun _ _ => ([], ())⟩

def sampling : World Unit := ⟨fun _ => false, fun _ => ()⟩

theorem chat_alike_silent :
    (∃ answer, complete sampling silentModel none ⟨1, none⟩ [()] = .ok answer) ∧
      Alike (fun _ => []) [] inTime 0 (fun _ => pastDeadline)
        (complete sampling silentModel none ⟨1, none⟩ [()]) :=
  ⟨⟨_, rfl⟩, chat_alike _ _ _ _ _ _ _ _ _ (by decide)⟩

end Alike

end StudioWorker.ChatStream
