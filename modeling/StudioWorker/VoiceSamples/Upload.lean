import StudioWorker.Engine.Download
import StudioWorker.Lib.Json
import StudioWorker.SttStream.Tokens
import StudioWorker.VoiceSamples.Head
import StudioWorker.VoiceSamples.Names
import StudioWorker.VoiceSamples.Store

/-!
# VoiceSamples.Upload — takes arriving over the LAN (`src/voice_samples/upload.rs`)

The stream is a reader and what is written to it; a write does not fail.  The digest of a token, the
audio check, JSON as bytes and `{:?}` of a string are parameters; `none` is a panic.

* `precheck`, `serve`, `accept`: as in the source, `accept` being the connection's head in
  `src/stt_stream/server.rs`.
* `serve_stores`: the bytes a checked upload stores.
* `readOnce_iff`: what is promised of a stream, however it is cut, is kept exactly where its blank
  line ends early or late.
-/

namespace StudioWorker.VoiceSamples

open Lib Lib.Search Text SttStream

/-- The largest upload. -/
def maxTakeBytes : ℕ := 1024 * 1024

def uploadPath : Text := "/voice-samples".toList

/-- Whether a request is for the upload routes. -/
def isUploadPath (path : Text) : Bool :=
  path == uploadPath || (Text.stripPrefix samplesPrefix path).isSome

/-- A status and the JSON answered. -/
abbrev Answer := ℕ × Json

def refusal (status : ℕ) (error : String) (message : Text) : Answer :=
  (status, .object [("error", .string error), ("message", .string (String.ofList message))])

/-- `str::replace` -/
def replace (needle replacement t : Text) : Text := replacement.intercalate (split needle t)

def StoreError.message : StoreError → Text
  | badWav why => why.toList
  | inTraining set => "a training holds set ".toList ++ set
  | unknownSet set => "no set named ".toList ++ set
  | io e => e.toList

def contentLength (head : Head) : Option ℕ :=
  (head.header "content-length".toList).bind Download.parseU64

/-- The token is a live one. -/
def authorize (sha : Text → Text) (head : Head) (tokens : StreamTokens) (now : ℤ) :
    Except Answer Unit :=
  match head.bearer.map fun token => tokens.check sha token now with
  | some (.ok _) => .ok ()
  | some (.error rejection) => .error (refusal 401 "unauthorized"
      (replace "stream".toList "recording".toList rejection.message.toList))
  | none => .error (refusal 401 "unauthorized"
      "missing recording token; send Authorization: Bearer <token>".toList)

/-- How long the body is, when it may be sent. -/
def checkLength (head : Head) : Except Answer ℕ :=
  if (head.header "transfer-encoding".toList).any fun v => !eqIgnoreAsciiCase v "identity".toList then
    .error (refusal 411 "length_required" "send Content-Length; chunked bodies are refused".toList)
  else
    match contentLength head with
    | none => .error (refusal 411 "length_required" "send Content-Length".toList)
    | some length =>
      if maxTakeBytes < length then
        .error (refusal 413 "too_large" (Nat.toDigits 10 length ++ " bytes is over the ".toList ++
          Nat.toDigits 10 maxTakeBytes ++ " a take may be".toList))
      else .ok length

/-- `precheck`: everything about a request but its body. -/
def precheck (debug sha : Text → Text) (head : Head) (tokens : StreamTokens) (now : ℤ)
    (store : Option Store) : Except Answer ℕ :=
  if head.method ≠ "PUT".toList then
    .error (refusal 405 "method_not_allowed" "upload a take with PUT".toList)
  else do
    authorize sha head tokens now
    if store.isNone then
      .error (refusal 503 "voice_samples_unavailable" "this worker keeps no takes".toList)
    else
      match parsePath debug head.path with
      | .error e => .error (refusal 400 "bad_name" e)
      | .ok _ => checkLength head

def text (t : Text) : Json := .string (String.ofList t)

/-- The answer to a take that is stored. -/
def stored (set : Text) (take : Take) (stored : Stored) : Answer :=
  (if stored.created then 201 else 200, .object
    [("set", text set), ("kind", text take.kind.asStr), ("take", text take.stem),
      ("number", .number (.int take.number)),
      ("phrase", (take.phrase.map text).getD .null),
      ("seconds", .number (.dec stored.seconds)), ("bytes", .number (.int stored.bytes)),
      ("created", .bool stored.created)])

/-- `store_take`: the answer to an upload whose body is `body`. -/
def storeTake (debug : Text → Text) (checkWav : Bytes → Except String ℚ) (head : Head)
    (store : Store) (body : Bytes) (io : Store.PutIo) : Option (Store × Answer) :=
  match parsePath debug head.path with
  -- `expect`: checked before the body was read
  | .error _ => none
  | .ok (set, take) =>
    let (store, answer) := store.put checkWav set take body io
    some (store, match answer with
      | .ok new => stored set take new
      | .error (.badWav why) => refusal 400 "bad_wav" why.toList
      | .error (.inTraining set) => refusal 409 "set_in_training"
          ("a training holds set ".toList ++ set ++ "; upload once it ends".toList)
      | .error error => refusal 500 "not_stored" error.message)

def reason : ℕ → Text
  | 100 => "Continue".toList
  | 200 => "OK".toList
  | 201 => "Created".toList
  | 400 => "Bad Request".toList
  | 401 => "Unauthorized".toList
  | 404 => "Not Found".toList
  | 405 => "Method Not Allowed".toList
  | 409 => "Conflict".toList
  | 411 => "Length Required".toList
  | 413 => "Payload Too Large".toList
  | 503 => "Service Unavailable".toList
  | _ => "Internal Server Error".toList

/-- `respond`: an HTTP/1.1 response with a JSON body. -/
def respond (toVec : Json → Bytes) (answer : Answer) : Bytes :=
  bytes ("HTTP/1.1 ".toList ++ Nat.toDigits 10 answer.1 ++ ' ' :: reason answer.1 ++
    "\r\nContent-Type: application/json\r\nContent-Length: ".toList ++
    Nat.toDigits 10 (toVec answer.2).length ++ "\r\nConnection: close\r\n\r\n".toList) ++
    toVec answer.2

/-- What an upload comes to: its status, or why it broke off; the store; and the stream. -/
structure Served (σ : Type) where
  status : Except ReadError ℕ
  store : Option Store
  stream : σ
  written : Bytes

section Serve

variable (debug sha : Text → Text) (checkWav : Bytes → Except String ℚ) (toVec : Json → Bytes)
  {σ : Type} (r : Reader UInt8 σ)

/-- `discard_body`: the rest of a refused request's body, when its length is known and take-sized. -/
def discardBody (head : Head) (already : ℕ) (s : σ) : σ :=
  match (contentLength head).filter (· ≤ maxTakeBytes) with
  | none => s
  -- `io::copy` has a buffer of eight KiB
  | some length => r.skip (8 * 1024) (length - already) s

/-- `serve`: answer one upload, whose head and first body bytes are `head` and `already`. -/
def serve (head : Head) (already : Bytes) (tokens : StreamTokens) (now : ℤ) (store : Option Store)
    (io : Store.PutIo) (s : σ) : Option (Served σ) :=
  match precheck debug sha head tokens now store with
  | .error answer =>
    let s := if (head.header "expect".toList).isNone then discardBody r head already.length s else s
    some ⟨.ok answer.1, store, s, respond toVec answer⟩
  | .ok length =>
    let asked := (head.header "expect".toList).any (eqIgnoreAsciiCase · "100-continue".toList)
    let continued := if asked then bytes "HTTP/1.1 100 Continue\r\n\r\n".toList else []
    let body := already.take length
    match r.readExact (length - body.length) s with
    | (none, s) => some ⟨.error .unexpectedEof, store, s, continued⟩
    | (some rest, s) => do
      -- `expect`: checked by `precheck`
      let store ← store
      let (store, answer) ← storeTake debug checkWav head store (body ++ rest) io
      some ⟨.ok answer.1, some store, s, continued ++ respond toVec answer⟩

end Serve

/-- What becomes of a connection; the handshake reads what was read of it again. -/
inductive Connection (σ : Type) where
  | refused (e : ReadError)
  | upload (served : Option (Served σ))
  | handshake (stream : Bytes × σ)

/-- The connection's head decides: an upload is plain HTTP, everything else goes on. -/
def accept (debug sha : Text → Text) (checkWav : Bytes → Except String ℚ) (toVec : Json → Bytes)
    {σ : Type} (r : Reader UInt8 σ) (tokens : StreamTokens) (now : ℤ) (store : Option Store)
    (io : Store.PutIo) (s : σ) : Connection σ :=
  match readHead debug r [] s with
  | (.error e, _) => .refused e
  | (.ok read, s) =>
    if isUploadPath read.head.path then
      .upload (serve debug sha checkWav toVec r read.head read.body tokens now store io s)
    else .handshake (read.consumed, s)

/-! ## What is stored -/

section Stored

variable {debug sha : Text → Text} {checkWav : Bytes → Except String ℚ} {toVec : Json → Bytes}
  {σ : Type} {r : Reader UInt8 σ} {head : Head} {tokens : StreamTokens} {now : ℤ}
  {store : Option Store} {io : Store.PutIo} {n : ℕ}

theorem of_checkLength (h : checkLength head = .ok n) : contentLength head = some n := by
  rw [checkLength] at h
  split_ifs at h
  cases hlength : contentLength head with
  | none =>
    rw [hlength] at h
    cases h
  | some length =>
    rw [hlength] at h
    dsimp only at h
    split_ifs at h
    rw [Except.ok.inj h]

/-- What lets an upload pass: a store, a take's path, and a length. -/
theorem of_precheck (h : precheck debug sha head tokens now store = .ok n) :
    (∃ kept, store = some kept) ∧ (∃ set take, parsePath debug head.path = .ok (set, take)) ∧
      contentLength head = some n := by
  rw [precheck] at h
  by_cases hmethod : head.method ≠ "PUT".toList
  · rw [if_pos hmethod] at h
    cases h
  rw [if_neg hmethod] at h
  obtain ⟨-, -, hchecked⟩ := Fallible.bind_eq_ok h
  clear h
  by_cases hstore : store.isNone = true
  · rw [if_pos hstore] at hchecked
    cases hchecked
  rw [if_neg hstore] at hchecked
  obtain ⟨kept, rfl⟩ := Option.ne_none_iff_exists'.mp (Option.isNone_iff_eq_none.not.mp hstore)
  cases hpath : parsePath debug head.path with
  | error e =>
    rw [hpath] at hchecked
    cases hchecked
  | ok named =>
    rw [hpath] at hchecked
    exact ⟨⟨kept, rfl⟩, ⟨named.1, named.2, rfl⟩, of_checkLength hchecked⟩

/-- An upload that passes stores the `n` bytes that follow its head, however many of them came with
it, or breaks off and stores nothing. -/
theorem serve_stores {already : Bytes} {s : σ} {kept : Store}
    (h : precheck debug sha head tokens now (some kept) = .ok n) :
    ∃ set take served, parsePath debug head.path = .ok (set, take) ∧
      serve debug sha checkWav toVec r head already tokens now (some kept) io s = some served ∧
      (n ≤ (already ++ r.rest s).length →
        served.store = some (kept.put checkWav set take ((already ++ r.rest s).take n) io).1) ∧
      ((already ++ r.rest s).length < n →
        served.status = .error .unexpectedEof ∧ served.store = some kept) := by
  obtain ⟨-, ⟨set, take, hpath⟩, -⟩ := of_precheck h
  have hcame : (already.take n).length = min n already.length := List.length_take
  have htotal : (already ++ r.rest s).length = already.length + (r.rest s).length :=
    List.length_append
  cases hread : r.readExact (n - (already.take n).length) s with
  | mk items later =>
    by_cases henough : n - (already.take n).length ≤ (r.rest s).length
    · have hitems := (r.readExact_of_le henough).1
      rw [hread] at hitems
      obtain rfl : items = _ := hitems
      have hbody : already.take n ++ (r.rest s).take (n - (already.take n).length) =
          (already ++ r.rest s).take n := by
        rw [List.take_append, hcame]
        congr 2
        omega
      have hserve : ∃ served,
          serve debug sha checkWav toVec r head already tokens now (some kept) io s = some served ∧
          served.store = some (kept.put checkWav set take ((already ++ r.rest s).take n) io).1 := by
        rw [serve, h]
        dsimp only
        rw [hread]
        simp only [Option.bind_eq_bind, Option.bind_some, hbody, storeTake, hpath]
        exact ⟨_, rfl, rfl⟩
      obtain ⟨served, hserved, hstore⟩ := hserve
      exact ⟨set, take, served, hpath, hserved, fun _ => hstore, fun hshort => by omega⟩
    · have hitems := r.readExact_of_lt (not_le.mp henough)
      rw [hread] at hitems
      obtain rfl : items = none := hitems
      have hserve : ∃ served,
          serve debug sha checkWav toVec r head already tokens now (some kept) io s = some served ∧
          served.status = .error .unexpectedEof ∧ served.store = some kept := by
        rw [serve, h]
        dsimp only
        rw [hread]
        exact ⟨_, rfl, rfl, rfl⟩
      obtain ⟨served, hserved, hbroken⟩ := hserve
      exact ⟨set, take, served, hpath, hserved, fun hlong => by omega, fun _ => hbroken⟩

theorem isUploadPath_of_parsePath {path : Text} {named : Text × Take}
    (h : parsePath debug path = .ok named) : isUploadPath path = true := by
  rw [isUploadPath, Bool.or_eq_true]
  refine Or.inr ?_
  by_contra hnot
  rw [parsePath, Option.not_isSome_iff_eq_none.mp hnot] at h
  cases h

end Stored

/-- What is promised of a stream, whatever it is and however it is cut into reads. -/
structure ReadOnce (debug sha : Text → Text) (checkWav : Bytes → Except String ℚ)
    (toVec : Json → Bytes) (stream : Bytes) : Prop where
  /-- The same head and the same bytes to come, or the same refusal. -/
  uncut : Uncut debug stream
  /-- What came with the head and what is to come is what follows the blank line; and a handshake
  reads the stream from its start. -/
  follows : ∀ (σ : Type) (r : Reader UInt8 σ) (s s' : σ) (read : ReadHead), r.rest s = stream →
    readHead debug r [] s = (.ok read, s') → ∃ head,
      splitOnce blankLine stream = some (head, read.body ++ r.rest s') ∧
      parseHead debug head = .ok read.head ∧ r.prefixed.rest (read.consumed, s') = stream
  /-- An upload of length `n` stores the `n` bytes that follow the blank line, or breaks off where
  there are fewer. -/
  stores : ∀ (σ : Type) (r : Reader UInt8 σ) (s s' : σ) (read : ReadHead), r.rest s = stream →
    readHead debug r [] s = (.ok read, s') →
    ∀ (tokens : StreamTokens) (now : ℤ) (kept : Store) (io : Store.PutIo) (n : ℕ) (head body : Bytes),
      precheck debug sha read.head tokens now (some kept) = .ok n →
      splitOnce blankLine stream = some (head, body) →
      contentLength read.head = some n ∧ ∃ set take served,
        parsePath debug read.head.path = .ok (set, take) ∧
        accept debug sha checkWav toVec r tokens now (some kept) io s = .upload (some served) ∧
        (n ≤ body.length →
          served.store = some (kept.put checkWav set take (body.take n) io).1) ∧
        (body.length < n → served.status = .error .unexpectedEof ∧ served.store = some kept)

section Main

variable (debug sha : Text → Text) (checkWav : Bytes → Except String ℚ) (toVec : Json → Bytes)
  (stream : Bytes)

theorem follows_of_readHead {σ : Type} {r : Reader UInt8 σ} {s s' : σ} {read : ReadHead}
    (hstream : r.rest s = stream) (h : readHead debug r [] s = (.ok read, s')) : ∃ head,
      splitOnce blankLine stream = some (head, read.body ++ r.rest s') ∧
      parseHead debug head = .ok read.head ∧ r.prefixed.rest (read.consumed, s') = stream := by
  obtain ⟨head, hsplit, hparse, hall⟩ := of_readHead h
  rw [List.nil_append, hstream] at hall
  refine ⟨head, ?_, hparse, hall⟩
  rw [← hall]
  exact (split_stream hsplit (r.rest s')).1

/-- For every stream: what is promised is kept exactly where its blank line ends early or late. -/
theorem readOnce_iff : ReadOnce debug sha checkWav toVec stream ↔ Clear stream := by
  refine ⟨fun h => (readHead_uncut_iff debug stream).mp h.uncut, fun hclear => ?_⟩
  refine ⟨(readHead_uncut_iff debug stream).mpr hclear, ?_, ?_⟩
  · intro σ r s s' read hstream hread
    exact follows_of_readHead debug stream hstream hread
  · intro σ r s s' read hstream hread tokens now kept io n head body hchecked hsplit
    obtain ⟨head', hsame, -, -⟩ := follows_of_readHead debug stream hstream hread
    rw [hsplit] at hsame
    obtain ⟨rfl, rfl⟩ := Prod.mk.inj (Option.some_inj.mp hsame)
    obtain ⟨set, take, served, hpath, hserve, hstored⟩ := @serve_stores debug sha checkWav toVec σ r
      read.head tokens now io n read.body s' kept hchecked
    refine ⟨(of_precheck hchecked).2.2, set, take, served, hpath, ?_, hstored⟩
    rw [accept, hread]
    dsimp only
    rw [if_pos (isUploadPath_of_parsePath hpath), hserve]

end Main

/-- `GET /aa…a HTTP/1.1`, a little longer than the limit. -/
def longRequest : Bytes :=
  [71, 69, 84, 32, 47] ++ (List.replicate 16400 97 ++ [32, 72, 84, 84, 80, 47, 49, 46, 49])

theorem splitOnce_longRequest :
    splitOnce blankLine (longRequest ++ blankLine) = some (longRequest, []) := by
  have hquiet : (13 : UInt8) ∉ longRequest := by
    rw [longRequest, List.mem_append, List.mem_append, List.mem_replicate]
    decide
  have hcut : splitOnce blankLine (longRequest ++ blankLine) = (splitOnce blankLine blankLine).map
      fun ab => (longRequest ++ ab.1, ab.2) := splitOnce_quiet (quiet_of_head hquiet blankLine)
  have hrest : splitOnce blankLine blankLine = some ([], []) := by decide
  rw [hcut, hrest, Option.map_some, List.append_nil]

/-- The request is found when it is read in full, and refused when it is read byte by byte. -/
theorem not_readOnce_longRequest :
    ¬ ReadOnce (fun t => t) (fun t => t) (fun _ => .error "") (fun _ => [])
      (longRequest ++ blankLine) := by
  intro h
  have hlength : longRequest.length = 16414 := by
    rw [longRequest, List.length_append, List.length_append, List.length_replicate]
    rfl
  have hclear := (readHead_uncut_iff _ _).mp h.uncut longRequest [] splitOnce_longRequest
  rw [hlength, maxHeadBytes] at hclear
  omega

end StudioWorker.VoiceSamples
