import StudioWorker.CatalogJson

/-!
# LlamaProcess.Protocol — the lines between the daemon and its llama process
(`src/llama_process/protocol.rs`, the `LlmParams` of `src/types.rs` and the chat body of
`src/local_api.rs`)

A request is written as one JSON object tagged by `type` and read back by the same derived code on
the other side of the pipe.  A float outside the range of its type was read as infinite and is
written as `null`; a free-form object that nests as deep as a body allows is one level deeper in
the line.

* `ToProcess.encode`, `ToProcess.decode`: one line, written and read.
* `ChatBody.params`: what a request body asks of the model.
* `ToProcess.decode_encode`: the requests that are read as they were written.
-/

namespace StudioWorker.LlamaProcess

open Lib Lib.Json

/-- What the JSON library makes of floats, free-form objects and free-form values. -/
structure LlmSerde (F : Type) extends Serde F where
  /-- `none`: it holds a number out of range. -/
  readValue : Json → Option Json
  writeValue : Json → Json
  /-- `0.7`. -/
  defaultTemperature : F

namespace LlmSerde

variable {F : Type} (s : LlmSerde F)

/-- A free-form value inside `level` arrays and objects. -/
def deserializeValue (level : ℕ) (v : Json) : Option Json :=
  if level + v.depth ≤ recursionLimit then s.readValue v else none

/-- A free-form value that reads as itself where it is written, inside `level` others. -/
def ValueReturns (level : ℕ) (v : Json) : Prop :=
  s.writeValue v ≠ .null ∧ level + (s.writeValue v).depth ≤ recursionLimit ∧
    s.readValue (s.writeValue v) = some v

end LlmSerde

/-! ## The requests -/

structure ChatMessage where
  role : String
  content : String
deriving DecidableEq

structure LlmParams (F : Type) where
  messages : List ChatMessage
  system : Option String
  maxTokens : ℕ
  temperature : F
  topP : Option F
  stop : Option (List String)
  jsonSchema : Option Json
  reasoning : Option String
  /-- The canonical text of the object. -/
  chatTemplateKwargs : Option String
  images : List String

/-- What a llama process loads. -/
structure LoadSpec (F : Type) where
  model : String
  modelPath : String
  projectorPath : Option String
  defaults : ModelCliDefaults F

/-- A line the daemon writes to the process's stdin. -/
inductive ToProcess (F : Type) where
  | load (spec : LoadSpec F)
  | chat (params : LlmParams F)
  | tokenize (text : String) (addSpecial : Bool)
  | cancel

/-- An optional field that is written as `null` when it is absent. -/
def orNull {α : Type} (write : α → Json) (o : Option α) : Option Json :=
  some ((o.map write).getD .null)

def ChatMessage.fieldNames : List String := ["role", "content"]

def ChatMessage.deserialize (v : Json) : Option ChatMessage := do
  let f ← v.fields fieldNames
  let role ← required (f "role") deserializeString
  let content ← required (f "content") deserializeString
  return ⟨role, content⟩

def ChatMessage.entries (m : ChatMessage) : List (String × Option Json) :=
  [("role", some (.string m.role)), ("content", some (.string m.content))]

def ChatMessage.serialize (m : ChatMessage) : Json := record m.entries

section

variable {F : Type} (s : LlmSerde F)

def LlmParams.fieldNames : List String :=
  ["messages", "system", "maxTokens", "temperature", "topP", "stop", "jsonSchema", "reasoning",
    "chatTemplateKwargs", "images"]

def LlmParams.deserialize (level : ℕ) (v : Json) : Option (LlmParams F) := do
  let f ← v.fields fieldNames
  let messages ← required (f "messages") (Json.all ChatMessage.deserialize)
  let system ← nullable (f "system") deserializeString
  let maxTokens ← defaulted (f "maxTokens") 512 (deserializeUnsigned 32)
  let temperature ← defaulted (f "temperature") s.defaultTemperature s.deserializeFloat
  let topP ← nullable (f "topP") s.deserializeFloat
  let stop ← nullable (f "stop") (Json.all deserializeString)
  let jsonSchema ← nullable (f "jsonSchema") (s.deserializeValue (level + 1))
  let reasoning ← nullable (f "reasoning") deserializeString
  let chatTemplateKwargs ← nullable (f "chatTemplateKwargs") (s.deserializeMap (level + 1))
  let images ← defaulted (f "images") [] (Json.all deserializeString)
  return { messages, system, maxTokens, temperature, topP, stop, jsonSchema, reasoning,
           chatTemplateKwargs, images }

def LlmParams.entries (p : LlmParams F) : List (String × Option Json) :=
  [("messages", some (.array (p.messages.map ChatMessage.serialize))),
    ("system", orNull .string p.system), ("maxTokens", some (serializeUnsigned p.maxTokens)),
    ("temperature", some (s.serializeFloat p.temperature)),
    ("topP", orNull s.serializeFloat p.topP),
    ("stop", orNull (fun ls => .array (ls.map .string)) p.stop),
    ("jsonSchema", orNull s.writeValue p.jsonSchema), ("reasoning", orNull .string p.reasoning),
    ("chatTemplateKwargs", p.chatTemplateKwargs.map s.serializeMap),
    ("images", nonempty .string p.images)]

def LlmParams.serialize (p : LlmParams F) : Json := record (p.entries s)

def LoadSpec.fieldNames : List String := ["model", "modelPath", "projectorPath", "defaults"]

/-- `ModelCliDefaults::default()`. -/
def defaultCliDefaults [Zero F] : ModelCliDefaults F where
  cfgScale := 0
  steps := 0
  width := 0
  height := 0

def LoadSpec.deserialize [Zero F] (level : ℕ) (v : Json) : Option (LoadSpec F) := do
  let f ← v.fields fieldNames
  let model ← required (f "model") deserializeString
  let modelPath ← required (f "modelPath") deserializeString
  let projectorPath ← nullable (f "projectorPath") deserializeString
  let defaults ← defaulted (f "defaults") defaultCliDefaults
    (ModelCliDefaults.deserialize s.toSerde (level + 1))
  return ⟨model, modelPath, projectorPath, defaults⟩

def LoadSpec.entries (spec : LoadSpec F) : List (String × Option Json) :=
  [("model", some (.string spec.model)), ("modelPath", some (.string spec.modelPath)),
    ("projectorPath", spec.projectorPath.map .string),
    ("defaults", some (spec.defaults.serialize s.toSerde))]

/-! ## The lines -/

/-- The tag of an internally tagged value, and what is left without it. -/
def tagged : Json → Option (String × Json)
  | .object entries =>
    match entries.filter fun e => e.1 == "type" with
    | [(_, .string tag)] => some (tag, .object (entries.filter fun e => e.1 != "type"))
    | _ => none
  | .array (.string tag :: rest) => some (tag, .array rest)
  | _ => none

def ToProcess.encode : ToProcess F → Json
  | .load spec => record (("type", some (.string "load")) :: spec.entries s)
  | .chat params =>
    record [("type", some (.string "chat")), ("params", some (params.serialize s))]
  | .tokenize text addSpecial =>
    record [("type", some (.string "tokenize")), ("text", some (.string text)),
      ("addSpecial", some (.bool addSpecial))]
  | .cancel => record [("type", some (.string "cancel"))]

/-- What `read_requests` makes of a line; `none` is logged and passed over. -/
def ToProcess.decode [Zero F] (line : Json) : Option (ToProcess F) := do
  let (tag, content) ← tagged line
  match tag with
  | "load" => (LoadSpec.deserialize s 0 content).map .load
  | "chat" => do
    let f ← content.fields ["params"]
    let params ← required (f "params") (LlmParams.deserialize s 1)
    return .chat params
  | "tokenize" => do
    let f ← content.fields ["text", "addSpecial"]
    let text ← required (f "text") deserializeString
    let addSpecial ← required (f "addSpecial") deserializeBool
    return .tokenize text addSpecial
  | "cancel" =>
    match content with
    | .object _ | .array [] => some .cancel
    | _ => none
  | _ => none

/-! ## What a request body asks for -/

structure ChatBody (F : Type) where
  model : Option String
  messages : List ChatMessage
  maxTokens : Option ℕ
  temperature : Option F
  topP : Option F
  stop : Option (List String)
  chatTemplateKwargs : Option String
  stream : Bool
  deadlineMs : Option ℕ
  images : List String
  responseFormat : Option Json

def ChatBody.fieldNames : List String :=
  ["model", "messages", "max_tokens", "temperature", "top_p", "stop", "chat_template_kwargs",
    "stream", "deadline_ms", "images", "response_format"]

def ChatBody.deserialize (v : Json) : Option (ChatBody F) := do
  let f ← v.fields fieldNames
  let model ← nullable (f "model") deserializeString
  let messages ← required (f "messages") (Json.all ChatMessage.deserialize)
  let maxTokens ← nullable (f "max_tokens") (deserializeUnsigned 32)
  let temperature ← nullable (f "temperature") s.deserializeFloat
  let topP ← nullable (f "top_p") s.deserializeFloat
  let stop ← nullable (f "stop") (Json.all deserializeString)
  let chatTemplateKwargs ← nullable (f "chat_template_kwargs") (s.deserializeMap 1)
  let stream ← defaulted (f "stream") false deserializeBool
  let deadlineMs ← nullable (f "deadline_ms") (deserializeUnsigned 64)
  let images ← defaulted (f "images") [] (Json.all deserializeString)
  let responseFormat ← nullable (f "response_format") (s.deserializeValue 1)
  return { model, messages, maxTokens, temperature, topP, stop, chatTemplateKwargs, stream,
           deadlineMs, images, responseFormat }

/-- What a value gives a name, if it is an object that does. -/
def get? (v : Json) (name : String) : Option Json :=
  match v with
  | .object entries => entries.lookup name
  | _ => none

/-- `schema_of`. -/
def schemaOf : Option Json → Except String (Option Json)
  | none => .ok none
  | some format =>
    match get? format "type" with
    | some (.string "text") => .ok none
    | some (.string "json_schema") =>
      match (get? format "json_schema").bind fun v => get? v "schema" with
      | some (.object entries) => .ok (some (.object entries))
      | _ => .error "response_format json_schema needs json_schema.schema, an object"
    | some (.string t) =>
      .error ("response_format type `" ++ t ++ "` is not served; use json_schema or text")
    | _ => .error "response_format type (missing) is not served; use json_schema or text"

/-- The parameters of the chat, once its images are found readable. -/
def ChatBody.params (body : ChatBody F) : Except String (LlmParams F) := do
  let jsonSchema ← schemaOf body.responseFormat
  return { messages := body.messages
           system := none
           maxTokens := body.maxTokens.getD 512
           temperature := body.temperature.getD s.defaultTemperature
           topP := body.topP
           stop := body.stop
           jsonSchema
           reasoning := none
           chatTemplateKwargs := body.chatTemplateKwargs
           images := body.images }

/-! ## What is read back -/

variable {s}

/-- An optional field that is never left out is read back when its value is. -/
theorem nullable_orNull {α : Type} {read : Json → Option α} {write : α → Json} {o : Option α} :
    nullable (orNull write o) read = some o ↔ ∀ x ∈ o, write x ≠ .null ∧ read (write x) = some x := by
  cases o with
  | none => simp [orNull, nullable]
  | some x =>
    change nullable ((some x).map write) read = _ ↔ _
    exact nullable_map_eq_some

theorem LlmSerde.deserializeValue_eq_some {level : ℕ} {v : Json} :
    s.writeValue v ≠ .null ∧ s.deserializeValue level (s.writeValue v) = some v ↔
      s.ValueReturns level v := by
  unfold LlmSerde.deserializeValue LlmSerde.ValueReturns
  refine and_congr_right fun _ => ?_
  by_cases h : level + (s.writeValue v).depth ≤ recursionLimit
  · rw [if_pos h]
    exact ⟨fun hr => ⟨h, hr⟩, fun hr => hr.2⟩
  · rw [if_neg h]
    exact ⟨fun hr => (by cases hr), fun hr => absurd hr.1 h⟩

theorem ChatMessage.deserialize_serialize (m : ChatMessage) :
    deserialize m.serialize = some m := by
  obtain ⟨f, hf, hget⟩ := @fields_record fieldNames m.entries rfl (by decide)
  simp only [entries, List.forall_mem_cons] at hget
  simp [deserialize, serialize, hf, hget]

/-- What the parameters hold is read back, inside `level` arrays and objects, as it is written. -/
structure LlmParams.Returns (s : LlmSerde F) (level : ℕ) (p : LlmParams F) : Prop where
  temperature : s.Exact p.temperature
  topP : ∀ x ∈ p.topP, s.Exact x
  jsonSchema : ∀ v ∈ p.jsonSchema, s.ValueReturns (level + 1) v
  chatTemplateKwargs : ∀ t ∈ p.chatTemplateKwargs, s.MapReturns (level + 1) t

/-- What a reader took each field from. -/
theorem LlmParams.deserialize_eq_some {level : ℕ} {v : Json} {p : LlmParams F} :
    deserialize s level v = some p ↔ ∃ f, v.fields fieldNames = some f ∧
      required (f "messages") (Json.all ChatMessage.deserialize) = some p.messages ∧
      nullable (f "system") deserializeString = some p.system ∧
      defaulted (f "maxTokens") 512 (deserializeUnsigned 32) = some p.maxTokens ∧
      defaulted (f "temperature") s.defaultTemperature s.deserializeFloat = some p.temperature ∧
      nullable (f "topP") s.deserializeFloat = some p.topP ∧
      nullable (f "stop") (Json.all deserializeString) = some p.stop ∧
      nullable (f "jsonSchema") (s.deserializeValue (level + 1)) = some p.jsonSchema ∧
      nullable (f "reasoning") deserializeString = some p.reasoning ∧
      nullable (f "chatTemplateKwargs") (s.deserializeMap (level + 1)) =
        some p.chatTemplateKwargs ∧
      defaulted (f "images") [] (Json.all deserializeString) = some p.images := by
  unfold deserialize
  constructor
  · intro h
    obtain ⟨f, hf, h⟩ := Option.bind_eq_some_iff.mp h
    obtain ⟨_, h1, h⟩ := Option.bind_eq_some_iff.mp h
    obtain ⟨_, h2, h⟩ := Option.bind_eq_some_iff.mp h
    obtain ⟨_, h3, h⟩ := Option.bind_eq_some_iff.mp h
    obtain ⟨_, h4, h⟩ := Option.bind_eq_some_iff.mp h
    obtain ⟨_, h5, h⟩ := Option.bind_eq_some_iff.mp h
    obtain ⟨_, h6, h⟩ := Option.bind_eq_some_iff.mp h
    obtain ⟨_, h7, h⟩ := Option.bind_eq_some_iff.mp h
    obtain ⟨_, h8, h⟩ := Option.bind_eq_some_iff.mp h
    obtain ⟨_, h9, h⟩ := Option.bind_eq_some_iff.mp h
    obtain ⟨_, h10, h⟩ := Option.bind_eq_some_iff.mp h
    cases h
    exact ⟨f, hf, h1, h2, h3, h4, h5, h6, h7, h8, h9, h10⟩
  · rintro ⟨f, hf, h1, h2, h3, h4, h5, h6, h7, h8, h9, h10⟩
    refine Option.bind_eq_some_iff.mpr ⟨f, hf, ?_⟩
    refine Option.bind_eq_some_iff.mpr ⟨_, h1, ?_⟩
    refine Option.bind_eq_some_iff.mpr ⟨_, h2, ?_⟩
    refine Option.bind_eq_some_iff.mpr ⟨_, h3, ?_⟩
    refine Option.bind_eq_some_iff.mpr ⟨_, h4, ?_⟩
    refine Option.bind_eq_some_iff.mpr ⟨_, h5, ?_⟩
    refine Option.bind_eq_some_iff.mpr ⟨_, h6, ?_⟩
    refine Option.bind_eq_some_iff.mpr ⟨_, h7, ?_⟩
    refine Option.bind_eq_some_iff.mpr ⟨_, h8, ?_⟩
    refine Option.bind_eq_some_iff.mpr ⟨_, h9, ?_⟩
    refine Option.bind_eq_some_iff.mpr ⟨_, h10, ?_⟩
    rfl

theorem LlmParams.deserialize_serialize {level : ℕ} {p : LlmParams F}
    (hfit : p.maxTokens < 2 ^ 32) :
    deserialize s level (p.serialize s) = some p ↔ p.Returns s level := by
  obtain ⟨f, hf, hget⟩ := @fields_record fieldNames (p.entries s) rfl (by decide)
  have hmessages : Json.all ChatMessage.deserialize
      (.array (p.messages.map ChatMessage.serialize)) = some p.messages :=
    all_map_eq_some.mpr fun m _ => m.deserialize_serialize
  have hstring {o : Option String} : nullable (orNull .string o) deserializeString = some o :=
    nullable_orNull.mpr fun x _ => ⟨by simp, rfl⟩
  have hstop : nullable (orNull (fun ls => .array (ls.map .string)) p.stop)
      (Json.all deserializeString) = some p.stop :=
    nullable_orNull.mpr fun ls _ => ⟨by simp, all_string ls⟩
  have htop : nullable (orNull s.serializeFloat p.topP) s.deserializeFloat = some p.topP ↔
      ∀ x ∈ p.topP, s.Exact x := by
    rw [nullable_orNull]
    refine forall₂_congr fun x _ => ?_
    rw [Serde.deserializeFloat_eq_some]
    exact ⟨fun h => h.2, fun h => ⟨Serde.serializeFloat_ne_null h, h⟩⟩
  have hschema : nullable (orNull s.writeValue p.jsonSchema) (s.deserializeValue (level + 1)) =
      some p.jsonSchema ↔ ∀ v ∈ p.jsonSchema, s.ValueReturns (level + 1) v :=
    nullable_orNull.trans (forall₂_congr fun _ _ => LlmSerde.deserializeValue_eq_some)
  have hmax : defaulted (some (serializeUnsigned p.maxTokens)) 512 (deserializeUnsigned 32) =
      some p.maxTokens := by
    rw [defaulted_some]
    exact deserializeUnsigned_eq_some.mpr hfit
  have htemperature : defaulted (some (s.serializeFloat p.temperature)) s.defaultTemperature
      s.deserializeFloat = some p.temperature ↔ s.Exact p.temperature := by
    rw [defaulted_some]
    exact Serde.deserializeFloat_eq_some
  simp only [entries, List.forall_mem_cons] at hget
  rw [deserialize_eq_some]
  simp only [serialize, hf, Option.some.injEq, exists_eq_left', hget, required_some,
    hmessages, hstring, hmax, htemperature, htop, hstop, hschema, nullable_map,
    defaulted_nonempty_string, true_and, and_true]
  exact ⟨fun ⟨h1, h2, h3, h4⟩ => ⟨h1, h2, h3, h4⟩, fun h => ⟨h.1, h.2, h.3, h.4⟩⟩

/-- The tag of a written line, and its fields. -/
theorem tagged_record {tag : String} {es : List (String × Option Json)}
    (h : "type" ∉ es.map Prod.fst) :
    tagged (record (("type", some (.string tag)) :: es)) = some (tag, record es) := by
  have hne : ∀ e ∈ es.filterMap fun e => e.2.map (Prod.mk e.1), e.1 ≠ "type" := by
    intro e he heq
    obtain ⟨e', he', hmap⟩ := List.mem_filterMap.mp he
    obtain ⟨v, -, rfl⟩ := Option.map_eq_some_iff.mp hmap
    exact h (List.mem_map.mpr ⟨e', he', heq⟩)
  have hnil : (es.filterMap fun e => e.2.map (Prod.mk e.1)).filter (fun e => e.1 == "type") = [] :=
    List.filter_eq_nil_iff.mpr fun e he => by simpa using hne e he
  have hself : (es.filterMap fun e => e.2.map (Prod.mk e.1)).filter (fun e => e.1 != "type") =
      es.filterMap fun e => e.2.map (Prod.mk e.1) :=
    List.filter_eq_self.mpr fun e he => by simpa using hne e he
  simp only [record, tagged, List.filterMap_cons, Option.map_some]
  rw [List.filter_cons_of_pos (by simp), List.filter_cons_of_neg (by simp), hnil, hself]

theorem LoadSpec.deserialize_serialize [Zero F] {spec : LoadSpec F} (hfit : spec.defaults.Fits) :
    LoadSpec.deserialize s 0 (record (spec.entries s)) = some spec ↔
      spec.defaults.Returns s.toSerde 1 := by
  obtain ⟨f, hf, hget⟩ :=
    @fields_record LoadSpec.fieldNames (spec.entries s) rfl (by decide)
  simp only [entries, List.forall_mem_cons] at hget
  have hdefaults : ModelCliDefaults.deserialize s.toSerde 1 (spec.defaults.serialize s.toSerde) =
      some spec.defaults ↔ spec.defaults.Returns s.toSerde 1 :=
    ModelCliDefaults.deserialize_serialize hfit
  rw [← hdefaults]
  obtain ⟨model, modelPath, projectorPath, defaults⟩ := spec
  simp [LoadSpec.deserialize, hf, hget, Option.bind_eq_some_iff]

namespace ToProcess

/-- The numbers are within the fields' types. -/
def Fits : ToProcess F → Prop
  | .load spec => spec.defaults.Fits
  | .chat params => params.maxTokens < 2 ^ 32
  | .tokenize .. | .cancel => True

/-- Every float of the request is written as a number that reads as the float, and its free-form
parts read as themselves where the line has them. -/
def Returns (s : LlmSerde F) : ToProcess F → Prop
  | .load spec => spec.defaults.Returns s.toSerde 1
  | .chat params => params.Returns s 1
  | .tokenize .. | .cancel => True

/-- A request is read as it was written exactly when what it holds is. -/
theorem decode_encode [Zero F] {r : ToProcess F} (hfit : r.Fits) :
    decode s (encode s r) = some r ↔ r.Returns s := by
  cases r with
  | load spec =>
    have hnames : "type" ∉ (spec.entries s).map Prod.fst := by
      change "type" ∉ LoadSpec.fieldNames
      decide
    unfold decode encode
    rw [tagged_record hnames]
    change (LoadSpec.deserialize s 0 _).map ToProcess.load = _ ↔ _
    rw [show (some (ToProcess.load spec)) = (some spec).map ToProcess.load from rfl,
      (Option.map_injective fun _ _ h => ToProcess.load.inj h).eq_iff]
    exact LoadSpec.deserialize_serialize hfit
  | chat params =>
    obtain ⟨f, hf, hget⟩ := @fields_record ["params"]
      [("params", some (params.serialize s))] rfl (by decide)
    have hparams : f "params" = some (params.serialize s) := hget _ List.mem_cons_self
    unfold decode encode
    rw [tagged_record (by simp)]
    change (((record [("params", some (params.serialize s))]).fields ["params"]).bind fun f =>
      (required (f "params") (LlmParams.deserialize s 1)).bind fun p => some (chat p)) = _ ↔ _
    rw [hf, Option.bind_some, hparams, required_some, Option.bind_eq_some_iff]
    constructor
    · rintro ⟨p, hp, heq⟩
      obtain rfl := ToProcess.chat.inj (Option.some.inj heq)
      exact (LlmParams.deserialize_serialize hfit).mp hp
    · intro h
      exact ⟨params, (LlmParams.deserialize_serialize hfit).mpr h, rfl⟩
  | tokenize text addSpecial =>
    refine iff_of_true ?_ trivial
    obtain ⟨f, hf, hget⟩ := @fields_record ["text", "addSpecial"]
      [("text", some (.string text)), ("addSpecial", some (.bool addSpecial))] rfl
      (by decide)
    simp only [List.forall_mem_cons] at hget
    unfold decode encode
    rw [tagged_record (by simp)]
    simp [hf, hget]
  | cancel => exact iff_of_true rfl trivial

end ToProcess

/-! ## What the daemon can be asked -/

/-- The requests the worker's own readers make: the defaults come from a catalogue, the parameters
from an offer or from a chat body. -/
def ToProcess.Produced (s : LlmSerde F) : ToProcess F → Prop
  | .load spec =>
    ∃ level v, ModelCliDefaults.deserialize s.toSerde level v = some spec.defaults
  | .chat params =>
    (∃ level v, LlmParams.deserialize s level v = some params) ∨
      ∃ v body, ChatBody.deserialize s v = some body ∧ body.params s = .ok params
  | .tokenize .. => True
  | .cancel => False

theorem LlmParams.fits_of_deserialize {level : ℕ} {v : Json} {p : LlmParams F}
    (h : deserialize s level v = some p) : p.maxTokens < 2 ^ 32 := by
  obtain ⟨f, -, -, -, hmax, -⟩ := deserialize_eq_some.mp h
  unfold defaulted at hmax
  split at hmax
  · rw [← Option.some.inj hmax]
    decide
  · exact lt_of_deserializeUnsigned hmax

theorem ChatBody.deserialize_eq_some {v : Json} {body : ChatBody F} :
    deserialize s v = some body ↔ ∃ f, v.fields fieldNames = some f ∧
      nullable (f "model") deserializeString = some body.model ∧
      required (f "messages") (Json.all ChatMessage.deserialize) = some body.messages ∧
      nullable (f "max_tokens") (deserializeUnsigned 32) = some body.maxTokens ∧
      nullable (f "temperature") s.deserializeFloat = some body.temperature ∧
      nullable (f "top_p") s.deserializeFloat = some body.topP ∧
      nullable (f "stop") (Json.all deserializeString) = some body.stop ∧
      nullable (f "chat_template_kwargs") (s.deserializeMap 1) = some body.chatTemplateKwargs ∧
      defaulted (f "stream") false deserializeBool = some body.stream ∧
      nullable (f "deadline_ms") (deserializeUnsigned 64) = some body.deadlineMs ∧
      defaulted (f "images") [] (Json.all deserializeString) = some body.images ∧
      nullable (f "response_format") (s.deserializeValue 1) = some body.responseFormat := by
  unfold deserialize
  constructor
  · intro h
    obtain ⟨f, hf, h⟩ := Option.bind_eq_some_iff.mp h
    obtain ⟨_, h1, h⟩ := Option.bind_eq_some_iff.mp h
    obtain ⟨_, h2, h⟩ := Option.bind_eq_some_iff.mp h
    obtain ⟨_, h3, h⟩ := Option.bind_eq_some_iff.mp h
    obtain ⟨_, h4, h⟩ := Option.bind_eq_some_iff.mp h
    obtain ⟨_, h5, h⟩ := Option.bind_eq_some_iff.mp h
    obtain ⟨_, h6, h⟩ := Option.bind_eq_some_iff.mp h
    obtain ⟨_, h7, h⟩ := Option.bind_eq_some_iff.mp h
    obtain ⟨_, h8, h⟩ := Option.bind_eq_some_iff.mp h
    obtain ⟨_, h9, h⟩ := Option.bind_eq_some_iff.mp h
    obtain ⟨_, h10, h⟩ := Option.bind_eq_some_iff.mp h
    obtain ⟨_, h11, h⟩ := Option.bind_eq_some_iff.mp h
    cases h
    exact ⟨f, hf, h1, h2, h3, h4, h5, h6, h7, h8, h9, h10, h11⟩
  · rintro ⟨f, hf, h1, h2, h3, h4, h5, h6, h7, h8, h9, h10, h11⟩
    refine Option.bind_eq_some_iff.mpr ⟨f, hf, ?_⟩
    refine Option.bind_eq_some_iff.mpr ⟨_, h1, ?_⟩
    refine Option.bind_eq_some_iff.mpr ⟨_, h2, ?_⟩
    refine Option.bind_eq_some_iff.mpr ⟨_, h3, ?_⟩
    refine Option.bind_eq_some_iff.mpr ⟨_, h4, ?_⟩
    refine Option.bind_eq_some_iff.mpr ⟨_, h5, ?_⟩
    refine Option.bind_eq_some_iff.mpr ⟨_, h6, ?_⟩
    refine Option.bind_eq_some_iff.mpr ⟨_, h7, ?_⟩
    refine Option.bind_eq_some_iff.mpr ⟨_, h8, ?_⟩
    refine Option.bind_eq_some_iff.mpr ⟨_, h9, ?_⟩
    refine Option.bind_eq_some_iff.mpr ⟨_, h10, ?_⟩
    refine Option.bind_eq_some_iff.mpr ⟨_, h11, ?_⟩
    rfl

theorem ChatBody.fits_of_deserialize {v : Json} {body : ChatBody F}
    (h : deserialize s v = some body) : ∀ n ∈ body.maxTokens, n < 2 ^ 32 := by
  obtain ⟨f, -, -, -, hmax, -⟩ := deserialize_eq_some.mp h
  exact forall_of_nullable hmax fun _ _ => lt_of_deserializeUnsigned

theorem ToProcess.Produced.fits {r : ToProcess F} (h : r.Produced s) : r.Fits := by
  cases r with
  | load spec =>
    obtain ⟨level, v, hv⟩ := h
    exact ModelCliDefaults.fits_of_deserialize hv
  | chat params =>
    rcases h with ⟨level, v, hv⟩ | ⟨v, body, hv, hparams⟩
    · exact LlmParams.fits_of_deserialize hv
    · have hmax := ChatBody.fits_of_deserialize hv
      unfold ChatBody.params at hparams
      cases hschema : schemaOf body.responseFormat with
      | error e =>
        rw [hschema] at hparams
        cases hparams
      | ok schema =>
        rw [hschema] at hparams
        cases hparams
        change body.maxTokens.getD 512 < 2 ^ 32
        cases hb : body.maxTokens with
        | none => decide
        | some n => exact hmax n hb
  | tokenize => trivial
  | cancel => trivial

end

end StudioWorker.LlamaProcess
