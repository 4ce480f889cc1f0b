import StudioWorker.Text
import StudioWorker.SttStream.Vad

/-!
# SttStream.Session — one streaming utterance over a transcriber

`StreamSession` of `stt_stream/session.rs`.  Frames are cut as the network likes: a byte may be
carried to the next frame, samples wait for a whole chunk, and `finish` pads the last one.

* `Heard`: what a session holds after some bytes, however they were framed.
* `session_calls`: the pieces a session hands to `step` up to its Final frame.
* `utterance_end_iff`: when the end of an utterance does not depend on the framing.
-/

namespace StudioWorker.SttStream

open Lib.Chunks Lib.Trailing

/-- `FLUSH_SILENCE_MS` -/
def flushSilenceMs : ℕ := 1500
/-- `CLIENT_SILENCE_CEILING_MS` -/
def clientSilenceCeilingMs : ℕ := 30000

/-- The samples of `FLUSH_SILENCE_MS`. -/
def flush : ℕ := sampleRate * flushSilenceMs / 1000

inductive Endpointing where
  | server
  | client
deriving DecidableEq

def Endpointing.silenceMs : Endpointing → ℕ
  | server => vadSilenceMs
  | client => clientSilenceCeilingMs

def Endpointing.vad (e : Endpointing) : Vad := Vad.withSilenceMs e.silenceMs

/-- A streaming model; its errors are the text of theirs. -/
structure Transcriber (σ : Type) where
  chunkSamples : ℕ
  step : σ → Samples → Except Text (Text × σ)
  reset : σ → σ

inductive ClientFrame where
  | audio (bytes : List UInt8)
  | «end»
  | cancel

inductive ServerFrame where
  | partialText (text : Text)
  | final (text : Text)
  | error (error : Text)
deriving DecidableEq

inductive Next where
  | continue
  | close
deriving DecidableEq

/-- SentencePiece word markers to spaces, whitespace collapsed. -/
def normalise (raw : Text) : Text :=
  List.intercalate [' ']
    (Text.splitWhitespace (raw.map fun c => if c = Char.ofNat 0x2581 then ' ' else c))

def failure (err : Text) : ServerFrame := .error ("transcription failed: ".toList ++ err)

/-- `i16::from_le_bytes(b) as f32 / 32768.0` -/
def sample : List UInt8 → Float32
  | [lo, hi] => Float32.ofInt (lo.toUInt16 ||| hi.toUInt16 <<< 8).toInt16.toInt / 32768
  | _ => 0

/-- The samples of the whole pairs of bytes. -/
def samplesOf (bytes : List UInt8) : Samples := (chunks 2 bytes).map sample

structure Session (σ : Type) where
  model : σ
  pending : Samples := []
  oddByte : Option UInt8 := none
  raw : Text := []
  sent : Text := []
  vad : Vad

section Session

variable {σ : Type} (t : Transcriber σ)

/-- `with_endpointing` -/
def Session.withEndpointing (model : σ) (e : Endpointing) : Session σ where
  model := t.reset model
  vad := e.vad

/-- The samples of a frame, and the byte left for the next one. -/
def decode (oddByte : Option UInt8) (bytes : List UInt8) : Samples × Option UInt8 :=
  let joined := oddByte.toList ++ bytes
  if joined.length % 2 = 1 then (samplesOf joined.dropLast, joined.getLast?)
  else (samplesOf joined, none)

/-- `chunk_samples().max(1)` -/
def Transcriber.chunk : ℕ := max t.chunkSamples 1

/-- The loop of `drain`, which goes round once for each whole chunk; the error of a step ends it. -/
def drainLoop (partials : Bool) :
    ℕ → Session σ → List ServerFrame → (List ServerFrame × Option Text) × Session σ
  | 0, s, out => ((out, none), s)
  | n + 1, s, out =>
    let piece := s.pending.take t.chunk
    let s := { s with pending := s.pending.drop t.chunk }
    match t.step s.model piece with
    | .error e => ((out, some e), s)
    | .ok (added, model) =>
      let s := { s with model := model, raw := s.raw ++ added }
      let text := normalise s.raw
      if partials && decide (text ≠ s.sent) then
        drainLoop partials n { s with sent := text } (out ++ [.partialText text])
      else drainLoop partials n s out

def Session.drain (partials : Bool) (s : Session σ) (out : List ServerFrame) :
    (List ServerFrame × Option Text) × Session σ :=
  drainLoop t partials (s.pending.length / t.chunk) s out

/-- Flush the tail with silence, then send the final transcript. -/
def Session.finish (s : Session σ) (out : List ServerFrame) :
    (List ServerFrame × Next) × Session σ :=
  let target := (s.pending.length + flush + t.chunk - 1) / t.chunk * t.chunk
  let padded := s.pending ++ List.replicate (target - s.pending.length) 0
  let drained := Session.drain t false { s with pending := padded } out
  match drained.1.2 with
  | none => ((drained.1.1 ++ [.final (normalise drained.2.raw)], .close), drained.2)
  | some e => ((drained.1.1 ++ [failure e], .close), drained.2)

/-- The samples of a frame, judged and waiting; whether they end the utterance. -/
def Session.hear (s : Session σ) (bytes : List UInt8) : Bool × Session σ :=
  let decoded := decode s.oddByte bytes
  let judged := s.vad.feed decoded.1
  (judged.1,
    { s with oddByte := decoded.2, vad := judged.2, pending := s.pending ++ decoded.1 })

def Session.handle (s : Session σ) : ClientFrame → (List ServerFrame × Next) × Session σ
  | .audio bytes =>
    let heard := s.hear bytes
    let drained := Session.drain t true heard.2 []
    match drained.1.2 with
    | some e => ((drained.1.1 ++ [failure e], .close), drained.2)
    | none =>
      if heard.1 then Session.finish t drained.2 drained.1.1
      else ((drained.1.1, .continue), drained.2)
  | .end => Session.finish t s []
  | .cancel => (([], .close), s)

/-- The frames sent to a client until the session closes. -/
def Session.run : Session σ → List ClientFrame → List ServerFrame × Session σ
  | s, [] => ([], s)
  | s, f :: fs =>
    let handled := Session.handle t s f
    match handled.1.2 with
    | .close => (handled.1.1, handled.2)
    | .continue => (handled.1.1 ++ (run handled.2 fs).1, (run handled.2 fs).2)

/-- The first Audio frame that closes the session. -/
def Session.closesAt : Session σ → List (List UInt8) → Option ℕ
  | _, [] => none
  | s, b :: bs =>
    match (Session.handle t s (.audio b)).1.2 with
    | .close => some 0
    | .continue => (closesAt (Session.handle t s (.audio b)).2 bs).map (· + 1)

/-- The samples of each frame. -/
def decodeAll : Option UInt8 → List (List UInt8) → List Samples
  | _, [] => []
  | odd, b :: bs => (decode odd b).1 :: decodeAll (decode odd b).2 bs

/-- The texts of the steps over some pieces, joined, and the model after them. -/
def Transcriber.steps : σ → List Samples → Except Text (Text × σ)
  | model, [] => .ok ([], model)
  | model, p :: ps =>
    match t.step model p with
    | .error e => .error e
    | .ok (added, model) =>
      match steps model ps with
      | .error e => .error e
      | .ok (text, model) => .ok (added ++ text, model)

/-- The transcriber with a record of the pieces it was handed since its reset. -/
def Transcriber.recording : Transcriber (σ × List Samples) where
  chunkSamples := t.chunkSamples
  step m p := (t.step m.1 p).map fun r => (r.1, (r.2, m.2 ++ [p]))
  reset m := (t.reset m.1, [])

def Transcriber.Succeeds : Prop := ∀ model piece, ∃ r, t.step model piece = .ok r

end Session

/-- The samples in order, in pieces of `n`, and silence behind them that fills the last piece: at
least the flush, and less than a piece more. -/
def CallsIn (n : ℕ) (samples : Samples) (calls : List Samples) : Prop :=
  ∃ k, flush ≤ k ∧ k < flush + n ∧ calls.flatten = samples ++ List.replicate k 0 ∧
    ∀ p ∈ calls, p.length = n

/-! ## The samples of a stream of bytes -/

theorem samplesOf_append (a b : List UInt8) :
    samplesOf (a ++ b) = samplesOf a ++ samplesOf (rest 2 a ++ b) := by
  rw [samplesOf, chunks_append (by decide), List.map_append]
  rfl

/-- The byte a frame leaves over is the rest of the bytes so far. -/
theorem decode_eq (oddByte : Option UInt8) (bytes : List UInt8) :
    (decode oddByte bytes).1 = samplesOf (oddByte.toList ++ bytes) ∧
      (decode oddByte bytes).2.toList = rest 2 (oddByte.toList ++ bytes) := by
  unfold decode
  generalize oddByte.toList ++ bytes = joined
  dsimp only
  split_ifs with hodd
  · have hne : joined ≠ [] := by
      rintro rfl
      exact absurd hodd (by decide)
    have hsplit : joined.dropLast ++ [joined.getLast hne] = joined := List.dropLast_append_getLast hne
    have heven : 2 ∣ joined.dropLast.length := by
      rw [List.length_dropLast]
      omega
    have hrest : rest 2 joined.dropLast = [] := rest_of_dvd heven
    have hone : ∀ x : UInt8, ([x] : List UInt8).length < 2 := fun _ => by simp
    constructor
    · conv_rhs => rw [← hsplit, samplesOf_append, hrest, List.nil_append]
      rw [samplesOf, samplesOf, chunks_of_lt (hone _), List.map_nil, List.append_nil]
    · conv_rhs => rw [← hsplit, rest_append (by decide), hrest, List.nil_append, rest_of_lt (hone _)]
      rw [List.getLast?_eq_some_getLast hne, Option.toList_some]
  · refine ⟨rfl, ?_⟩
    rw [rest_of_dvd (by omega), Option.toList_none]

/-! ## The pieces fill up exactly -/

/-- The padding to a whole piece. -/
theorem padding_bounds {n : ℕ} (hn : 0 < n) (p : ℕ) :
    flush ≤ (p + flush + n - 1) / n * n - p ∧ (p + flush + n - 1) / n * n - p < flush + n ∧
      p + ((p + flush + n - 1) / n * n - p) = (p + flush + n - 1) / n * n := by
  have hle : (p + flush + n - 1) / n * n ≤ p + flush + n - 1 := Nat.div_mul_le_self _ _
  have hlt : p + flush + n - 1 < (p + flush + n - 1) / n * n + n := Nat.lt_div_mul_add hn
  omega

/-- The samples leave one way to call. -/
theorem CallsIn.unique {n : ℕ} (hn : 0 < n) {samples : Samples} {calls calls' : List Samples}
    (h : CallsIn n samples calls) (h' : CallsIn n samples calls') : calls = calls' := by
  obtain ⟨k, hk, hk', hflat, hall⟩ := h
  obtain ⟨k', hk₂, hk₂', hflat', hall'⟩ := h'
  have hc := length_flatten hall
  have hc' := length_flatten hall'
  rw [hflat, List.length_append, List.length_replicate] at hc
  rw [hflat', List.length_append, List.length_replicate] at hc'
  have hcount : calls.length = calls'.length := by
    rcases Nat.lt_trichotomy calls.length calls'.length with hlt | heq | hgt
    · have hmul : (calls.length + 1) * n ≤ calls'.length * n := Nat.mul_le_mul_right _ hlt
      rw [Nat.succ_mul] at hmul
      omega
    · exact heq
    · have hmul : (calls'.length + 1) * n ≤ calls.length * n := Nat.mul_le_mul_right _ hgt
      rw [Nat.succ_mul] at hmul
      omega
  have hkk : k = k' := by
    rw [hcount] at hc
    omega
  rw [← chunks_flatten hn hall, ← chunks_flatten hn hall', hflat, hflat', hkk]

section Run

variable {σ : Type} (t : Transcriber σ)

/-! ## Steps -/

theorem Transcriber.chunk_pos : 0 < t.chunk := Nat.lt_of_lt_of_le Nat.one_pos (Nat.le_max_right _ _)

theorem Transcriber.steps_append {model model' : σ} {ps : List Samples} {text : Text}
    (h : t.steps model ps = .ok (text, model')) {qs : List Samples} {text' : Text} {model'' : σ}
    (h' : t.steps model' qs = .ok (text', model'')) :
    t.steps model (ps ++ qs) = .ok (text ++ text', model'') := by
  induction ps generalizing model text with
  | nil =>
    cases h
    exact h'
  | cons p ps ih =>
    rw [List.cons_append, Transcriber.steps]
    rw [Transcriber.steps] at h
    cases hp : t.step model p with
    | error e =>
      rw [hp] at h
      cases h
    | ok r =>
      obtain ⟨added, m⟩ := r
      rw [hp] at h
      dsimp only at h ⊢
      cases hps : t.steps m ps with
      | error e =>
        rw [hps] at h
        cases h
      | ok r' =>
        obtain ⟨more, m'⟩ := r'
        rw [hps] at h
        cases h
        rw [ih hps, List.append_assoc]

theorem Transcriber.steps_recording {model : σ} {log ps : List Samples} {text : Text} {model' : σ}
    (h : t.steps model ps = .ok (text, model')) :
    t.recording.steps (model, log) ps = .ok (text, (model', log ++ ps)) := by
  induction ps generalizing model log text with
  | nil =>
    cases h
    rw [List.append_nil]
    rfl
  | cons p ps ih =>
    rw [Transcriber.steps] at h ⊢
    cases hp : t.step model p with
    | error e =>
      rw [hp] at h
      cases h
    | ok r =>
      obtain ⟨added, m⟩ := r
      rw [hp] at h
      dsimp only at h
      cases hps : t.steps m ps with
      | error e =>
        rw [hps] at h
        cases h
      | ok r' =>
        obtain ⟨more, m'⟩ := r'
        rw [hps] at h
        cases h
        have hrec : t.recording.step (model, log) p = .ok (added, (m, log ++ [p])) := by
          simp only [Transcriber.recording, hp, Except.map]
        simp only [hrec, ih hps, List.append_assoc, List.singleton_append]

theorem Transcriber.Succeeds.recording {t : Transcriber σ} (ht : t.Succeeds) :
    t.recording.Succeeds := by
  intro m p
  obtain ⟨r, hr⟩ := ht m.1 p
  exact ⟨_, congrArg (Except.map _) hr⟩

/-! ## Draining -/

/-- What a drain over some pieces does to a session. -/
structure Drained (s s' : Session σ) (ps : List Samples) : Prop where
  steps : ∃ added, t.steps s.model ps = .ok (added, s'.model) ∧ s'.raw = s.raw ++ added
  oddByte : s'.oddByte = s.oddByte
  vad : s'.vad = s.vad

variable {t}

theorem drainLoop_ok (ht : t.Succeeds) (partials : Bool) (n : ℕ) (s : Session σ)
    (out : List ServerFrame) :
    (drainLoop t partials n s out).1.2 = none ∧
      Drained t s (drainLoop t partials n s out).2 (pieces t.chunk n s.pending) ∧
      (drainLoop t partials n s out).2.pending = s.pending.drop (n * t.chunk) := by
  induction n generalizing s out with
  | zero =>
    refine ⟨rfl, ⟨⟨[], rfl, (List.append_nil _).symm⟩, rfl, rfl⟩, ?_⟩
    rw [Nat.zero_mul, List.drop_zero]
    rfl
  | succ n ih =>
    obtain ⟨⟨added, model⟩, hstep⟩ := ht s.model (s.pending.take t.chunk)
    have hnext : ∀ s₁ : Session σ, s₁.pending = s.pending.drop t.chunk → s₁.model = model →
        s₁.raw = s.raw ++ added → s₁.oddByte = s.oddByte → s₁.vad = s.vad → ∀ out',
        (drainLoop t partials n s₁ out').1.2 = none ∧
          Drained t s (drainLoop t partials n s₁ out').2 (pieces t.chunk (n + 1) s.pending) ∧
          (drainLoop t partials n s₁ out').2.pending = s.pending.drop ((n + 1) * t.chunk) := by
      intro s₁ hpending hmodel hraw hodd hvad out'
      obtain ⟨herr, ⟨⟨added', hsteps, hraw'⟩, hodd', hvad'⟩, hpending'⟩ := ih s₁ out'
      refine ⟨herr, ⟨⟨added ++ added', ?_, ?_⟩, hodd'.trans hodd, hvad'.trans hvad⟩, ?_⟩
      · rw [hmodel, hpending] at hsteps
        rw [pieces, Transcriber.steps, hstep]
        dsimp only
        rw [hsteps]
      · rw [hraw', hraw, List.append_assoc]
      · rw [hpending', hpending, List.drop_drop, Nat.succ_mul, Nat.add_comm]
    rw [drainLoop, hstep]
    dsimp only
    split_ifs
    · refine hnext _ ?_ ?_ ?_ ?_ ?_ _ <;> rfl
    · refine hnext _ ?_ ?_ ?_ ?_ ?_ _ <;> rfl

/-- A drain steps over the whole chunks and keeps the rest. -/
theorem drain_ok (ht : t.Succeeds) (partials : Bool) (s : Session σ) (out : List ServerFrame) :
    (Session.drain t partials s out).1.2 = none ∧
      Drained t s (Session.drain t partials s out).2 (chunks t.chunk s.pending) ∧
      (Session.drain t partials s out).2.pending = rest t.chunk s.pending :=
  drainLoop_ok ht partials _ s out

/-! ## A session after some bytes -/

variable {model : σ} {e : Endpointing}

variable (t model e) in
/-- What a session holds after some bytes, if it is still open. -/
structure Heard (s : Session σ) (bytes : List UInt8) : Prop where
  oddByte : s.oddByte.toList = rest 2 bytes
  vad : s.vad.Follows e.silenceMs (samplesOf bytes)
  pending : s.pending = rest t.chunk (samplesOf bytes)
  steps : t.steps (t.reset model) (chunks t.chunk (samplesOf bytes)) = .ok (s.raw, s.model)

theorem heard_withEndpointing : Heard t model e (Session.withEndpointing t model e) [] where
  oddByte := rfl
  vad := Vad.follows_withSilenceMs _
  pending := (rest_of_lt t.chunk_pos).symm
  steps := by
    have hnil : chunks t.chunk (samplesOf []) = [] := chunks_of_lt t.chunk_pos
    rw [hnil]
    rfl

/-- The samples of a frame are what it adds to those before. -/
theorem Heard.samples {s : Session σ} {bytes : List UInt8} (h : Heard t model e s bytes)
    (b : List UInt8) :
    samplesOf (bytes ++ b) = samplesOf bytes ++ (decode s.oddByte b).1 := by
  rw [samplesOf_append, (decode_eq s.oddByte b).1, h.oddByte]

theorem finish_close (s : Session σ) (out : List ServerFrame) :
    (Session.finish t s out).1.2 = .close := by
  unfold Session.finish
  dsimp only
  split
  · rfl
  · rfl

/-- **An Audio frame** closes the session where the detector says so, and is heard otherwise. -/
theorem Heard.audio (ht : t.Succeeds) {s : Session σ} {bytes : List UInt8}
    (h : Heard t model e s bytes) (b : List UInt8) :
    ((s.hear b).1 = true → (Session.handle t s (.audio b)).1.2 = .close) ∧
      ((s.hear b).1 = false → (Session.handle t s (.audio b)).1.2 = .continue ∧
        Heard t model e (Session.handle t s (.audio b)).2 (bytes ++ b) ∧
        (Session.handle t s (.audio b)).2.vad = (s.vad.feed (decode s.oddByte b).1).2 ∧
        (Session.handle t s (.audio b)).2.oddByte = (decode s.oddByte b).2) := by
  obtain ⟨herr, ⟨⟨added, hsteps, hraw⟩, hodd, hvad⟩, hpending⟩ := drain_ok ht true (s.hear b).2 []
  rw [Session.handle, herr]
  constructor
  · intro hend
    rw [if_pos hend]
    exact finish_close _ _
  · intro hend
    rw [if_neg (by rw [hend]; exact Bool.false_ne_true)]
    refine ⟨rfl, ⟨?_, ?_, ?_, ?_⟩, hvad, hodd⟩
    · rw [hodd, rest_append (by decide), ← h.oddByte]
      exact (decode_eq s.oddByte b).2
    · rw [hvad, h.samples]
      exact h.vad.feed _
    · rw [hpending, h.samples, rest_append t.chunk_pos, ← h.pending]
      rfl
    · rw [h.samples, chunks_append t.chunk_pos, hraw, ← h.pending]
      exact t.steps_append h.steps hsteps

/-- The frame that closes a session is the call that ends its utterance. -/
theorem Heard.closesAt (ht : t.Succeeds) {s : Session σ} {bytes : List UInt8}
    (h : Heard t model e s bytes) (frames : List (List UInt8)) :
    Session.closesAt t s frames = s.vad.endsAt (decodeAll s.oddByte frames) := by
  induction frames generalizing s bytes with
  | nil => rfl
  | cons b bs ih =>
    obtain ⟨hclose, hopen⟩ := h.audio ht b
    rw [Session.closesAt, decodeAll, Vad.endsAt]
    have hverdict : (s.vad.feed (decode s.oddByte b).1).1 = (s.hear b).1 := rfl
    rw [hverdict]
    cases hend : (s.hear b).1 with
    | true =>
      rw [hclose hend]
      rfl
    | false =>
      obtain ⟨hcontinue, hheard, hvad, hodd⟩ := hopen hend
      rw [hcontinue, if_neg Bool.false_ne_true, ← hvad, ← hodd, ← ih hheard]

/-- **The end of a stream**: the flush goes through the model too, and the Final frame is last. -/
theorem Heard.finish (ht : t.Succeeds) {s : Session σ} {bytes : List UInt8}
    (h : Heard t model e s bytes) (out : List ServerFrame) :
    ∃ sent raw calls s', Session.finish t s out = ((sent ++ [.final (normalise raw)], .close), s') ∧
      CallsIn t.chunk (samplesOf bytes) calls ∧
      t.steps (t.reset model) calls = .ok (raw, s'.model) := by
  obtain ⟨hlow, hhigh, hsum⟩ := padding_bounds t.chunk_pos s.pending.length
  generalize hk : (s.pending.length + flush + t.chunk - 1) / t.chunk * t.chunk - s.pending.length =
    k at hlow hhigh hsum
  have hdvd : t.chunk ∣ (s.pending ++ List.replicate k (0 : Float32)).length := by
    rw [List.length_append, List.length_replicate, hsum]
    exact Nat.dvd_mul_left _ _
  generalize hdrain : Session.drain t false
    { s with pending := s.pending ++ List.replicate k (0 : Float32) } out = drained
  obtain ⟨herr, ⟨⟨added, hsteps, hraw⟩, -, -⟩, -⟩ := hdrain ▸ drain_ok ht false
    { s with pending := s.pending ++ List.replicate k (0 : Float32) } out
  have hfinish : Session.finish t s out =
      ((drained.1.1 ++ [.final (normalise drained.2.raw)], .close), drained.2) := by
    simp only [Session.finish, hk, hdrain, herr]
  have hcalls : chunks t.chunk (samplesOf bytes ++ List.replicate k 0) =
      chunks t.chunk (samplesOf bytes) ++ chunks t.chunk (s.pending ++ List.replicate k 0) := by
    rw [chunks_append t.chunk_pos, h.pending]
  have hrest : rest t.chunk (samplesOf bytes ++ List.replicate k 0) = [] := by
    rw [rest_append t.chunk_pos, ← h.pending, rest_of_dvd hdvd]
  refine ⟨_, _, chunks t.chunk (samplesOf bytes ++ List.replicate k 0), _, hfinish,
    ⟨k, hlow, hhigh, ?_, fun _ => length_of_mem_chunks⟩, ?_⟩
  · have hflat := chunks_append_rest t.chunk (samplesOf bytes ++ List.replicate k 0)
    rwa [hrest, List.append_nil] at hflat
  · rw [hcalls, hraw]
    exact t.steps_append h.steps hsteps

/-- A session that no Audio frame closes is finished by its End. -/
theorem Heard.run_end (ht : t.Succeeds) {s : Session σ} {bytes : List UInt8}
    (h : Heard t model e s bytes) {frames : List (List UInt8)}
    (hopen : Session.closesAt t s frames = none) :
    ∃ sent raw calls s', Session.run t s (frames.map .audio ++ [.end]) =
        (sent ++ [.final (normalise raw)], s') ∧
      CallsIn t.chunk (samplesOf (bytes ++ frames.flatten)) calls ∧
      t.steps (t.reset model) calls = .ok (raw, s'.model) := by
  induction frames generalizing s bytes with
  | nil =>
    obtain ⟨sent, raw, calls, s', hfinish, hcalls, hsteps⟩ := h.finish ht []
    refine ⟨sent, raw, calls, s', ?_, by rwa [List.flatten_nil, List.append_nil], hsteps⟩
    have hhandle : Session.handle t s .end = Session.finish t s [] := rfl
    rw [List.map_nil, List.nil_append, Session.run, hhandle, hfinish]
  | cons b bs ih =>
    obtain ⟨hclose, hcont⟩ := h.audio ht b
    rw [Session.closesAt] at hopen
    cases hend : (s.hear b).1 with
    | true =>
      rw [hclose hend] at hopen
      cases hopen
    | false =>
      obtain ⟨hcontinue, hheard, -, -⟩ := hcont hend
      rw [hcontinue] at hopen
      have hopen' := Option.map_eq_none_iff.mp hopen
      obtain ⟨sent, raw, calls, s', hrun, hcalls, hsteps⟩ := ih hheard hopen'
      refine ⟨(Session.handle t s (.audio b)).1.1 ++ sent, raw, calls, s', ?_, ?_, hsteps⟩
      · rw [List.map_cons, List.cons_append, Session.run, hcontinue]
        dsimp only
        rw [hrun, List.append_assoc]
      · rwa [List.flatten_cons, ← List.append_assoc]

/-- The record of the calls does not change when a session closes. -/
theorem closesAt_recording (ht : t.Succeeds) (log : List Samples) (frames : List (List UInt8)) :
    Session.closesAt t.recording (Session.withEndpointing t.recording (model, log) e) frames =
      Session.closesAt t (Session.withEndpointing t model e) frames := by
  rw [heard_withEndpointing.closesAt ht.recording, heard_withEndpointing.closesAt ht]
  rfl

end Run

/-- **What a session hands to its model**: the samples of the bytes, in pieces of a whole chunk, and
the flush; the Final frame has the text of these pieces, however the bytes are framed. -/
theorem session_calls {σ : Type} (t : Transcriber σ) (ht : t.Succeeds) (model : σ) (e : Endpointing)
    {frames : List (List UInt8)}
    (hopen : Session.closesAt t (Session.withEndpointing t model e) frames = none) :
    ∃ calls raw model',
      (Session.run t.recording (Session.withEndpointing t.recording (model, []) e)
        (frames.map .audio ++ [.end])).2.model.2 = calls ∧
      CallsIn (max t.chunkSamples 1) (samplesOf frames.flatten) calls ∧
      t.steps (t.reset model) calls = .ok (raw, model') ∧
      ∀ frames' : List (List UInt8), frames'.flatten = frames.flatten →
        Session.closesAt t (Session.withEndpointing t model e) frames' = none →
        (Session.run t (Session.withEndpointing t model e)
          (frames'.map .audio ++ [.end])).1.getLast? = some (.final (normalise raw)) := by
  obtain ⟨-, raw, calls, s', -, hcalls, hsteps⟩ := heard_withEndpointing.run_end ht hopen
  rw [List.nil_append] at hcalls
  refine ⟨calls, raw, s'.model, ?_, hcalls, hsteps, fun frames' hflat hopen' => ?_⟩
  · have hopenRec := (closesAt_recording ht [] frames).trans hopen
    obtain ⟨sentRec, rawRec, callsRec, sRec, hrun, hcallsRec, hstepsRec⟩ :=
      heard_withEndpointing.run_end ht.recording hopenRec
    obtain rfl : callsRec = calls := hcallsRec.unique t.chunk_pos hcalls
    have hlog : t.recording.steps (t.reset model, []) callsRec = .ok (raw, (s'.model, callsRec)) :=
      t.steps_recording hsteps
    have hsame : (Except.ok (rawRec, sRec.model) : Except Text _) =
        .ok (raw, (s'.model, callsRec)) := hstepsRec.symm.trans hlog
    rw [hrun]
    exact congrArg Prod.snd (Prod.mk.inj (Except.ok.inj hsame)).2
  · obtain ⟨sent, raw', calls', s₂, hrun, hcalls', hsteps'⟩ :=
      heard_withEndpointing.run_end ht hopen'
    rw [List.nil_append, hflat] at hcalls'
    obtain rfl : calls' = calls := hcalls'.unique t.chunk_pos hcalls
    have hsame : (Except.ok (raw', s₂.model) : Except Text _) = .ok (raw, s'.model) :=
      hsteps'.symm.trans hsteps
    obtain ⟨hraw, -⟩ := Prod.mk.inj (Except.ok.inj hsame)
    rw [hrun, hraw, List.getLast?_concat]

/-- A transcriber that counts its steps and says a word at each. -/
def wordy (chunkSamples : ℕ) : Transcriber ℕ where
  chunkSamples := chunkSamples
  step n _ := .ok ([Char.ofNat 0x2581, 'a'], n + 1)
  reset _ := 0

theorem wordy_succeeds (chunkSamples : ℕ) : (wordy chunkSamples).Succeeds :=
  fun _ _ => ⟨_, rfl⟩

/-- A sample cut between its bytes. -/
theorem session_calls_odd_frames :
    ∃ calls raw model',
      (Session.run (wordy 1600).recording
        (Session.withEndpointing (wordy 1600).recording (0, []) .server)
        ([[0x00, 0x80, 0x00], [0x80]].map .audio ++ [.end])).2.model.2 = calls ∧
      CallsIn (max 1600 1) (samplesOf [0x00, 0x80, 0x00, 0x80]) calls ∧
      (wordy 1600).steps 0 calls = .ok (raw, model') ∧
      ∀ frames' : List (List UInt8), frames'.flatten = [0x00, 0x80, 0x00, 0x80] →
        Session.closesAt (wordy 1600) (Session.withEndpointing (wordy 1600) 0 .server) frames' =
          none →
        (Session.run (wordy 1600) (Session.withEndpointing (wordy 1600) 0 .server)
          (frames'.map .audio ++ [.end])).1.getLast? = some (.final (normalise raw)) :=
  session_calls (wordy 1600) (wordy_succeeds 1600) 0 .server (by decide +kernel)

/-- A model that takes no samples at a time is stepped all the same, with one at a time. -/
theorem empty_chunks_stepped :
    ¬ ∀ (t : Transcriber ℕ), t.Succeeds → ∀ (model : ℕ) (e : Endpointing)
        (frames : List (List UInt8)),
      Session.closesAt t (Session.withEndpointing t model e) frames = none →
      CallsIn t.chunkSamples (samplesOf frames.flatten)
        (Session.run t.recording (Session.withEndpointing t.recording (model, []) e)
          (frames.map .audio ++ [.end])).2.model.2 := by
  intro h
  obtain ⟨k, hlow, -, hflat, hall⟩ := h (wordy 0) (wordy_succeeds 0) 0 .server [] rfl
  have hlen := length_flatten hall
  rw [hflat, List.length_append, List.length_replicate] at hlen
  have hflush : flush = 24000 := rfl
  have hzero : (wordy 0).chunkSamples = 0 := rfl
  rw [hzero, Nat.mul_zero] at hlen
  omega

/-! ## The end of an utterance -/

/-- **The end of an utterance**, for the detector and for a session: the stream decides it, and not
the calls or the frames, exactly where none of them is broken. -/
theorem utterance_end_iff {σ : Type} (t : Transcriber σ) (ht : t.Succeeds) (model : σ)
    (e : Endpointing) (frames : List (List UInt8)) (ms : ℕ) (calls : List Samples) :
    ((Vad.withSilenceMs ms).endsAt calls = coveredAt ms [] calls ↔ Unbroken ms calls) ∧
      (Session.closesAt t (Session.withEndpointing t model e) frames =
          coveredAt e.silenceMs [] (decodeAll none frames) ↔
        Unbroken e.silenceMs (decodeAll none frames)) := by
  refine ⟨endsAt_iff ms calls, ?_⟩
  rw [heard_withEndpointing.closesAt ht]
  exact endsAt_iff e.silenceMs (decodeAll none frames)

theorem utterance_end_odd_frames :
    ((Vad.withSilenceMs 1500).endsAt [[-1, 0]] = coveredAt 1500 [] [[-1, 0]] ↔
        Unbroken 1500 [[-1, 0]]) ∧
      (Session.closesAt (wordy 1600) (Session.withEndpointing (wordy 1600) 0 .client)
          [[0x00, 0x80, 0x00], [0x80]] =
          coveredAt 30000 [] (decodeAll none [[0x00, 0x80, 0x00], [0x80]]) ↔
        Unbroken 30000 (decodeAll none [[0x00, 0x80, 0x00], [0x80]])) :=
  utterance_end_iff (wordy 1600) (wordy_succeeds 1600) 0 .client [[0x00, 0x80, 0x00], [0x80]]
    1500 [[-1, 0]]

/-- A window of silence. -/
def silence : Samples := List.replicate window 0

/-- A window with a burst in front. -/
def burst : Samples := List.replicate 50 (-1) ++ List.replicate (window - 50) 0

theorem length_burst : burst.length = window := by
  rw [burst, List.length_append, List.length_replicate, List.length_replicate]
  decide

/-- Silence adds nothing to a sum that it leaves alone once. -/
theorem foldl_replicate_zero {x : Float32} (hx : x + 0 * 0 = x) (n : ℕ) :
    (((List.replicate n (0 : Float32)).map fun x => x * x).foldl (· + ·) x) = x := by
  induction n with
  | zero => rfl
  | succ n ih => rw [List.replicate_succ, List.map_cons, List.foldl_cons, hx, ih]

theorem isSpeech_silence : isSpeech silence = false := by
  have hsum : ((silence.map fun x => x * x).foldl (· + ·) 0) = (0 : Float32) :=
    foldl_replicate_zero (by decide +kernel) _
  rw [isSpeech, rms, hsum]
  decide +kernel

theorem isSpeech_burst : isSpeech burst = true := by
  have hhead : (((List.replicate 50 (-1 : Float32)).map fun x => x * x).foldl (· + ·) 0) = 50 := by
    decide +kernel
  have hsum : ((burst.map fun x => x * x).foldl (· + ·) 0) = (50 : Float32) := by
    rw [burst, List.map_append, List.foldl_append, hhead]
    exact foldl_replicate_zero (by decide +kernel) _
  rw [isSpeech, rms, hsum]
  decide +kernel

/-- Speech, enough silence and speech again, in one call. -/
theorem broken_in_one_call :
    ¬ ∀ (ms : ℕ) (calls : List Samples),
      (Vad.withSilenceMs ms).endsAt calls = coveredAt ms [] calls := by
  intro h
  have hwindows : ∀ w ∈ burst :: List.replicate 8 silence ++ [burst], w.length = window := by
    intro w hw
    rw [List.cons_append, List.mem_cons, List.mem_append, List.mem_replicate,
      List.mem_singleton] at hw
    rcases hw with rfl | ⟨-, rfl⟩ | rfl
    · exact length_burst
    · exact List.length_replicate
    · exact length_burst
  have hquiet : ∀ w ∈ List.replicate 8 silence, isSpeech w = false := by
    intro w hw
    rw [List.eq_of_mem_replicate hw]
    exact isSpeech_silence
  have hended : Ended isSpeech (silentWindows 1500) (burst :: List.replicate 8 silence) := by
    refine EndsQuiet.ended ⟨[], burst, List.replicate 8 silence, rfl, isSpeech_burst, hquiet, ?_⟩
    rw [List.length_replicate]
    decide
  have hunbroken := (endsAt_iff 1500 [(burst :: List.replicate 8 silence ++ [burst]).flatten]).mp
    (h _ _) [] _ [] rfl
  refine hunbroken ⟨not_ended_nil _, burst :: List.replicate 8 silence, burst, [], ?_, hended,
    isSpeech_burst, fun w hw => absurd hw List.not_mem_nil, by decide⟩
  rw [List.flatten_nil, List.nil_append, chunks_flatten window_pos hwindows]

end StudioWorker.SttStream
