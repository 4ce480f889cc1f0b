import StudioWorker.CatalogJson
import StudioWorker.LocalApi.Routes
import StudioWorker.SttStream.Tokens

/-!
# LocalApi.MintRoutes — the two requests for a token (`src/local_api.rs`,
`local_api/voice_samples.rs`)

Times are in nanoseconds.  `chrono` is a parameter, as the JSON parser is; an answer is `none` where
the route panics.

* `handleStreamToken`, `handleVoiceSampleToken`: the two routes.
* `Answered`: what an answer is to be.
* `mint_answered_iff`: the requests that are answered, at any time.
-/

namespace StudioWorker.LocalApi

open Text Lib SttStream

/-! ## Seconds and times -/

/-- What `Duration::seconds` makes of seconds and `+` of a time and a duration, `none` where they
panic, and the first and the last time there is. -/
structure Chrono where
  seconds : ℤ → Option ℤ
  add : ℤ → ℤ → Option ℤ
  first : ℤ
  last : ℤ

/-- `i64::MAX / 1_000` -/
def maxSeconds : ℤ := (2 ^ 63 - 1) / 1000

/-- A duration is of up to `i64::MAX / 1_000` seconds either way, and a sum is a time. -/
structure Chrono.Lawful (c : Chrono) : Prop where
  seconds : ∀ n, c.seconds n =
    if -maxSeconds ≤ n ∧ n ≤ maxSeconds then some (n * 1000000000) else none
  add : ∀ now d, c.add now d =
    if c.first ≤ now + d ∧ now + d ≤ c.last then some (now + d) else none

/-- `StreamTokens::mint`, for so many seconds. -/
def mintFor (c : Chrono) (sha : Text → Text) (tokens : StreamTokens) (token scope : Text)
    (ttlSecs : Int64) (now : ℤ) : Option (StreamGrant × StreamTokens) := do
  let ttl ← c.seconds ttlSecs.toInt
  let _ ← c.add now (clampTtl ttl)
  return tokens.mint sha token scope ttl now

/-! ## The bodies -/

/-- What `serde_json` makes of a text, and says of a document that is no such record. -/
structure Documents where
  parse : Text → Except Text Json
  mismatch : Json → Text

def deserializeI64 : Json → Option Int64
  | .number (.int n) => if -2 ^ 63 ≤ n ∧ n < 2 ^ 63 then some (Int64.ofInt n) else none
  | _ => none

structure StreamTokenBody where
  model : String
  ttlSecs : Option Int64

def StreamTokenBody.deserialize (v : Json) : Option StreamTokenBody := do
  let f ← v.fields ["model", "ttlSecs"]
  let model ← Json.required (f "model") deserializeString
  let ttlSecs ← Json.nullable (f "ttlSecs") deserializeI64
  return { model, ttlSecs }

structure TokenBody where
  ttlSecs : Option Int64

/-- Fields that are not known are refused. -/
def TokenBody.deserialize (v : Json) : Option TokenBody :=
  let unknown := match v with
    | .object entries => entries.any fun e => e.1 != "ttlSecs"
    | _ => false
  if unknown then none
  else do
    let f ← v.fields ["ttlSecs"]
    let ttlSecs ← Json.nullable (f "ttlSecs") deserializeI64
    return { ttlSecs }

/-- `serde_json::from_str` -/
def Documents.fromStr {α : Type} (d : Documents) (deserialize : Json → Option α) (body : Text) :
    Except Text α :=
  match d.parse body with
  | .error e => .error e
  | .ok v =>
    match deserialize v with
    | some a => .ok a
    | none => .error (d.mismatch v)

inductive BodyOutcome where
  | ok (body : Text)
  | tooLarge

/-! ## The routes -/

structure StreamEndpoint where
  port : UInt16
  certSha256 : Text
  certPem : Text

/-- What a client is given. -/
structure GrantBody where
  token : Text
  model : Option Text
  expiresAt : ℤ
  scheme : Text
  host : Option Text
  port : UInt16
  path : Text
  certSha256 : Text
  certPem : Text

inductive Reply where
  | text (status : ℕ) (body : Text)
  | error (status : ℕ) (code : Text) (message : Option Text)
  | grant (body : GrantBody)

structure Services (F : Type) where
  catalog : Catalog F
  streamEndpoint : Option StreamEndpoint
  /-- Whether the worker keeps takes. -/
  voiceSamples : Bool
  lanAddress : Option Text
  tokens : StreamTokens
  voiceTokens : StreamTokens

variable {F : Type}

def defaultStreamTokenTtlSecs : Int64 := 600
def defaultTokenTtlSecs : Int64 := 600

/-- A request for a stream token up to the mint: the model, the seconds and the endpoint. -/
def streamTokenRequest (d : Documents) (s : Services F) (body : BodyOutcome) :
    Except Reply (Text × Int64 × StreamEndpoint) :=
  match body with
  | .tooLarge => .error (.text 413 "request body exceeds 1048576 bytes".toList)
  | .ok body =>
    match d.fromStr StreamTokenBody.deserialize body with
    | .error e => .error (.error 400 "bad_request".toList (some e))
    | .ok parsed =>
      match s.catalog.get parsed.model with
      | none => .error (.error 404 "unknown_model".toList none)
      | some model =>
        if model.source.engine ≠ .parakeet then
          .error (.error 400 "not_a_stream_model".toList none)
        else
          match s.streamEndpoint with
          | none => .error (.error 503 "stream_listener_down".toList none)
          | some endpoint =>
            .ok (model.id.toList, parsed.ttlSecs.getD defaultStreamTokenTtlSecs, endpoint)

/-- Where a client streams, with its grant. -/
def streamGrantBody (s : Services F) (endpoint : StreamEndpoint) (grant : StreamGrant) :
    GrantBody where
  token := grant.token
  model := some grant.model
  expiresAt := grant.expiresAt
  scheme := "wss".toList
  host := s.lanAddress
  port := endpoint.port
  path := "/transcribe".toList
  certSha256 := endpoint.certSha256
  certPem := endpoint.certPem

def handleStreamToken (c : Chrono) (sha : Text → Text) (d : Documents) (s : Services F)
    (body : BodyOutcome) (token : Text) (now : ℤ) : Option (Reply × Services F) :=
  match streamTokenRequest d s body with
  | .error refusal => some (refusal, s)
  | .ok (model, ttlSecs, endpoint) => do
    let (grant, tokens) ← mintFor c sha s.tokens token model ttlSecs now
    return (.grant (streamGrantBody s endpoint grant), { s with tokens })

/-- A request for a recording token up to the mint: the seconds and the endpoint. -/
def voiceSampleTokenRequest (d : Documents) (s : Services F) (method : Method)
    (body : BodyOutcome) : Except Reply (Int64 × StreamEndpoint) :=
  if method ≠ .post then
    .error (.error 405 "method_not_allowed".toList (some "POST a recording token".toList))
  else
    match body with
    | .tooLarge => .error (.error 413 "too_large".toList (some "the body is over 1 MiB".toList))
    | .ok body =>
      let body := if (trim body).isEmpty then "\x7b\x7d".toList else body
      match d.fromStr TokenBody.deserialize body with
      | .error e => .error (.error 400 "bad_request".toList (some e))
      | .ok parsed =>
        if !s.voiceSamples then
          .error (.error 503 "voice_samples_unavailable".toList
            (some "this worker keeps no takes".toList))
        else
          match s.streamEndpoint with
          | none => .error (.error 503 "stream_listener_down".toList
              (some "the LAN listener is not up".toList))
          | some endpoint => .ok (parsed.ttlSecs.getD defaultTokenTtlSecs, endpoint)

/-- Where a client uploads, with its grant. -/
def recordingGrantBody (s : Services F) (endpoint : StreamEndpoint) (grant : StreamGrant) :
    GrantBody where
  token := grant.token
  model := none
  expiresAt := grant.expiresAt
  scheme := "https".toList
  host := s.lanAddress
  port := endpoint.port
  path := voiceSamples
  certSha256 := endpoint.certSha256
  certPem := endpoint.certPem

def handleVoiceSampleToken (c : Chrono) (sha : Text → Text) (d : Documents) (s : Services F)
    (method : Method) (body : BodyOutcome) (token : Text) (now : ℤ) :
    Option (Reply × Services F) :=
  match voiceSampleTokenRequest d s method body with
  | .error refusal => some (refusal, s)
  | .ok (ttlSecs, endpoint) => do
    let (grant, voiceTokens) ← mintFor c sha s.voiceTokens token "voice-samples".toList ttlSecs now
    return (.grant (recordingGrantBody s endpoint grant), { s with voiceTokens })

/-! ## What is answered -/

/-- There is an answer: the refusal of the request if it has one, and otherwise a grant that
expires in time. -/
def Answered {α : Type} (now : ℤ) (request : Except Reply α)
    (answer : Option (Reply × Services F)) : Prop :=
  ∃ reply s, answer = some (reply, s) ∧
    match request with
    | .error refusal => reply = refusal
    | .ok _ => ∃ g, reply = .grant g ∧ now + minTtl ≤ g.expiresAt ∧ g.expiresAt ≤ now + maxTtl

/-- So many seconds are a duration, and after the lifetime they are clamped to there is a time. -/
def Fits (c : Chrono) (ttlSecs : Int64) (now : ℤ) : Prop :=
  (-maxSeconds ≤ ttlSecs.toInt ∧ ttlSecs.toInt ≤ maxSeconds) ∧
    c.first ≤ now + clampTtl (ttlSecs.toInt * 1000000000) ∧
    now + clampTtl (ttlSecs.toInt * 1000000000) ≤ c.last

theorem clampTtl_mem (ttl : ℤ) : minTtl ≤ clampTtl ttl ∧ clampTtl ttl ≤ maxTtl := by
  rw [clampTtl, minTtl, maxTtl]
  split_ifs <;> omega

section Mint

variable {c : Chrono} (sha : Text → Text) (tokens : StreamTokens) (token scope : Text)
variable {ttlSecs : Int64} {now : ℤ}

/-- What is minted expires in time. -/
theorem mint_expires (ttl : ℤ) :
    now + minTtl ≤ (tokens.mint sha token scope ttl now).1.expiresAt ∧
      (tokens.mint sha token scope ttl now).1.expiresAt ≤ now + maxTtl := by
  obtain ⟨hmin, hmax⟩ := clampTtl_mem ttl
  show now + minTtl ≤ now + clampTtl ttl ∧ now + clampTtl ttl ≤ now + maxTtl
  omega

theorem mintFor_of_fits (hc : c.Lawful) (h : Fits c ttlSecs now) :
    mintFor c sha tokens token scope ttlSecs now =
      some (tokens.mint sha token scope (ttlSecs.toInt * 1000000000) now) := by
  have hadd : c.add now (clampTtl (ttlSecs.toInt * 1000000000)) =
      some (now + clampTtl (ttlSecs.toInt * 1000000000)) := by
    rw [hc.add, if_pos h.2]
  rw [mintFor, hc.seconds, if_pos h.1]
  show (c.add now (clampTtl (ttlSecs.toInt * 1000000000))).bind _ = _
  rw [hadd]
  rfl

theorem mintFor_of_not_fits (hc : c.Lawful) (h : ¬ Fits c ttlSecs now) :
    mintFor c sha tokens token scope ttlSecs now = none := by
  rw [mintFor, hc.seconds]
  split_ifs with hsecs
  · show (c.add now (clampTtl (ttlSecs.toInt * 1000000000))).bind _ = _
    rw [hc.add, if_neg fun hadd => h ⟨hsecs, hadd⟩]
    rfl
  · rfl

/-- A route that mints what it was asked for is answered if and only if the seconds fit. -/
theorem answered_iff {α : Type} (hc : c.Lawful) {request : Except Reply α}
    {answer : Option (Reply × Services F)} (seconds : α → Int64)
    (herror : ∀ refusal, request = .error refusal → ∃ s, answer = some (refusal, s))
    (hok : ∀ a, request = .ok a → ∃ (tokens : StreamTokens) (scope : Text)
      (body : StreamGrant → GrantBody) (after : StreamTokens → Services F),
      (∀ g, (body g).expiresAt = g.expiresAt) ∧
      answer = (mintFor c sha tokens token scope (seconds a) now).map
        fun m => (.grant (body m.1), after m.2)) :
    Answered now request answer ↔ ∀ a, request = .ok a → Fits c (seconds a) now := by
  rcases request with refusal | a
  · obtain ⟨s, hanswer⟩ := herror refusal rfl
    exact iff_of_true ⟨refusal, s, hanswer, rfl⟩ fun a h => by cases h
  · obtain ⟨tokens, scope, body, after, hexpires, hanswer⟩ := hok a rfl
    have hall : (∀ a', (.ok a : Except Reply α) = .ok a' → Fits c (seconds a') now) ↔
        Fits c (seconds a) now := by
      constructor
      · intro h
        exact h a rfl
      · intro h a' ha
        rw [← Except.ok.inj ha]
        exact h
    rw [hall]
    by_cases hfits : Fits c (seconds a) now
    · refine iff_of_true ?_ hfits
      rw [mintFor_of_fits sha tokens token scope hc hfits] at hanswer
      refine ⟨_, _, hanswer, body _, rfl, ?_⟩
      rw [hexpires]
      exact mint_expires sha tokens token scope _
    · refine iff_of_false ?_ hfits
      rw [mintFor_of_not_fits sha tokens token scope hc hfits] at hanswer
      rintro ⟨reply, s, hsome, -⟩
      rw [hanswer] at hsome
      cases hsome

end Mint

/-- The requests that both routes answer at `now`: those that are refused, and those whose seconds
fit. -/
theorem mint_answered_iff {c : Chrono} (hc : c.Lawful) (sha : Text → Text) (d : Documents)
    (s : Services F) (method : Method) (body : BodyOutcome) (token : Text) (now : ℤ) :
    (Answered now (streamTokenRequest d s body) (handleStreamToken c sha d s body token now) ↔
      ∀ request, streamTokenRequest d s body = .ok request → Fits c request.2.1 now) ∧
    (Answered now (voiceSampleTokenRequest d s method body)
        (handleVoiceSampleToken c sha d s method body token now) ↔
      ∀ request, voiceSampleTokenRequest d s method body = .ok request →
        Fits c request.1 now) := by
  constructor
  · refine answered_iff sha token hc (fun request : Text × Int64 × StreamEndpoint => request.2.1)
      (fun refusal h => ⟨s, ?_⟩) fun request h => ⟨s.tokens, request.1,
        streamGrantBody s request.2.2, fun tokens => { s with tokens }, fun g => rfl, ?_⟩
    · rw [handleStreamToken, h]
    · rw [handleStreamToken, h]
      exact Option.map_eq_bind.symm
  · refine answered_iff sha token hc (fun request : Int64 × StreamEndpoint => request.1)
      (fun refusal h => ⟨s, ?_⟩) fun request h => ⟨s.voiceTokens, "voice-samples".toList,
        recordingGrantBody s request.2, fun voiceTokens => { s with voiceTokens },
        fun g => rfl, ?_⟩
    · rw [handleVoiceSampleToken, h]
    · rw [handleVoiceSampleToken, h]
      exact Option.map_eq_bind.symm

/-- The times from year -262143 to 262142. -/
def utc : Chrono where
  seconds n := if -maxSeconds ≤ n ∧ n ≤ maxSeconds then some (n * 1000000000) else none
  add now d :=
    if -8334601228800 * 1000000000 ≤ now + d ∧ now + d ≤ 8210266876799 * 1000000000 + 999999999
    then some (now + d) else none
  first := -8334601228800 * 1000000000
  last := 8210266876799 * 1000000000 + 999999999

theorem utc_lawful : utc.Lawful where
  seconds _ := rfl
  add _ _ := rfl

/-- A worker that keeps takes and listens. -/
def listening : Services ℚ where
  catalog := ⟨[], []⟩
  streamEndpoint := some ⟨8443, [], []⟩
  voiceSamples := true
  lanAddress := none
  tokens := .new
  voiceTokens := .new

/-- The body with `ttlSecs` only. -/
def secondsBody (digits : String) : BodyOutcome :=
  .ok ("\x7b\"ttlSecs\":".toList ++ digits.toList ++ "\x7d".toList)

/-- What its parser makes of the body with the number `n`. -/
def asking (n : ℤ) : Documents where
  parse _ := .ok (.object [("ttlSecs", .number (.int n))])
  mismatch _ := []

theorem mint_answered_iff_minute :
    Answered 0 (voiceSampleTokenRequest (asking 60) listening .post (secondsBody "60"))
      (handleVoiceSampleToken utc id (asking 60) listening .post (secondsBody "60") ['t'] 0) := by
  refine (mint_answered_iff utc_lawful id (asking 60) listening .post (secondsBody "60") ['t']
    0).2.mpr ?_
  intro request h
  have hrequest : request.1 = 60 := by
    rw [← Except.ok.inj h]
    rfl
  rw [hrequest]
  exact ⟨by decide, by decide, by decide⟩

/-- `i64::MAX` seconds are no duration: the route panics. -/
theorem mint_overflows :
    handleVoiceSampleToken utc id (asking 9223372036854775807) listening .post
      (secondsBody "9223372036854775807") ['t'] 0 = none ∧
    ¬ Answered 0
      (voiceSampleTokenRequest (asking 9223372036854775807) listening .post
        (secondsBody "9223372036854775807"))
      (handleVoiceSampleToken utc id (asking 9223372036854775807) listening .post
        (secondsBody "9223372036854775807") ['t'] 0) := by
  have hnone : handleVoiceSampleToken utc id (asking 9223372036854775807) listening .post
      (secondsBody "9223372036854775807") ['t'] 0 = none := by rfl
  refine ⟨hnone, ?_⟩
  rw [hnone]
  rintro ⟨reply, s, h, -⟩
  cases h

end StudioWorker.LocalApi
