import StudioWorker.Jobs.Run
import StudioWorker.SttStream.Transcript

/-!
# SttStream.Server — a stream over its socket (`src/stt_stream/server.rs`)

The loop of `run` looks at the lane, reads the socket and answers, until the stream is over; what
the client is told and what is recorded depends on the frames it knows alone.  `debug` is the
`{:?}` of a text.

* `serveLoop`, `session`: the loop, and the job around it.
* `Session.told`: the same without the texts the loop does not know, the pings and the timeouts.
* `StreamEnd`: the ways a stream is over.
* `stream_recorded`: each stream that is over is recorded once, the way it ended.
-/

open StudioWorker.Session (JobOutcome)

namespace StudioWorker.SttStream

open Jobs (CurrentJob RecentJob JobRun truncatePrompt)

/-! ## The loop -/

/-- `ClientFrame::from_text` -/
def ClientFrame.fromText (text : Text) : Option ClientFrame :=
  if Text.trim text = "end".toList then some .end
  else if Text.trim text = "cancel".toList then some .cancel
  else none

/-- What `ws.read` returns; `other` is a ping, a pong or a raw frame. -/
inductive Read where
  | binary (bytes : List UInt8)
  | text (text : Text)
  | close
  | other
  | timeout
  | broken (e : Text)
deriving DecidableEq

/-- One turn of the loop: the lane is cancelled, or the socket is read. -/
inductive Turn where
  | cancelled
  | read (read : Read)
deriving DecidableEq

structure Summary where
  audioBytes : ℕ := 0
  finalText : Option Text := none
  error : Option Text := none
deriving DecidableEq

/-- A frame on the wire: the session's answer, or the Error for a text that is no frame. -/
inductive Sent where
  | answer (frame : ServerFrame)
  | unknown (text : Text)
deriving DecidableEq

def Sent.frame (debug : Text → Text) : Sent → ServerFrame
  | answer frame => frame
  | unknown text =>
    .error ("unknown frame ".toList ++ debug text ++ "; send audio, end or cancel".toList)

def Sent.answer? : Sent → Option ServerFrame
  | answer frame => some frame
  | unknown _ => none

/-- What is left when the loop returns; `closed` when it closed the socket itself. -/
structure Served where
  summary : Summary
  sent : List Sent
  closed : Bool
deriving DecidableEq

def fail (summary : Summary) (sent : List Sent) (error : Text) : Served where
  summary := { summary with error := some error }
  sent := sent ++ [.answer (.error error)]
  closed := true

/-- What the loop makes of a read. -/
inductive Taken where
  | frame (frame : ClientFrame)
  | unknown (text : Text)
  | again
  | finished (error : Text)

def Read.taken : Read → Taken
  | binary bytes => .frame (.audio bytes)
  | text said =>
    match ClientFrame.fromText said with
    | some frame => .frame frame
    | none => .unknown said
  | close => .finished "client left before the final".toList
  | other | timeout => .again
  | broken e => .finished ("stream broke: ".toList ++ e)

namespace Summary

def heard (summary : Summary) : ClientFrame → Summary
  | .audio bytes => { summary with audioBytes := summary.audioBytes + bytes.length }
  | .end | .cancel => summary

def note (summary : Summary) : ServerFrame → Summary
  | .partialText _ => summary
  | .final text => { summary with finalText := some text }
  | .error e => { summary with error := some e }

end Summary

section Serve

variable {σ : Type} (t : Transcriber σ)

/-- The loop of `run`; none while the stream is open. -/
def serveLoop : Session σ → Summary → List Sent → List Turn → Option Served
  | _, _, _, [] => none
  | _, summary, sent, .cancelled :: _ => some (fail summary sent "model unloaded".toList)
  | s, summary, sent, .read read :: turns =>
    match read.taken with
    | .frame frame =>
      let handled := Session.handle t s frame
      let summary := handled.1.1.foldl Summary.note (summary.heard frame)
      let sent := sent ++ handled.1.1.map .answer
      match handled.1.2 with
      | .close => some ⟨summary, sent, true⟩
      | .continue => serveLoop handled.2 summary sent turns
    | .unknown text => serveLoop s summary (sent ++ [.unknown text]) turns
    | .again => serveLoop s summary sent turns
    | .finished error => some ⟨{ summary with error := some error }, sent, false⟩

/-- What `try_with_lane` and the model give a stream. -/
inductive Opening (σ : Type) where
  | refused (err : Text)
  | notStreaming
  | failed (err : Text)
  | opened (model : σ)

/-- `run` -/
def run (e : Endpointing) (turns : List Turn) : Opening σ → Option Served
  | .refused err => some ⟨{}, [.answer (.error err)], true⟩
  | .notStreaming => some (fail {} [] "model is not a streaming speech model".toList)
  | .failed err => some (fail {} [] ("could not open a stream: ".toList ++ err))
  | .opened model => serveLoop t (Session.withEndpointing t model e) {} [] turns

/-- What a stream leaves behind. -/
structure Ended where
  sent : List Sent
  closed : Bool
  job : Option RecentJob
deriving DecidableEq

def Summary.outcome (summary : Summary) : JobOutcome :=
  match summary.error with
  | some reason => .failed (String.ofList reason)
  | none => .completed

/-- The job a summary is recorded as. -/
def Summary.recorded (summary : Summary) (job : CurrentJob) (finishedAt : ℤ) : RecentJob :=
  ((JobRun.begun job).setPrompt (summary.finalText.getD [])).job.finished summary.outcome finishedAt

/-- The part of `session` behind the handshake; a stream that gets no lane begins no job. -/
def session (e : Endpointing) (job : CurrentJob) (finishedAt : ℤ) (turns : List Turn)
    (opening : Opening σ) : Option Ended :=
  (run t e turns opening).map fun served =>
    { sent := served.sent
      closed := served.closed
      job :=
        match opening with
        | .refused _ => none
        | .notStreaming | .failed _ | .opened _ => some (served.summary.recorded job finishedAt) }

end Serve

/-! ## What the loop depends on -/

/-- What stops the loop from outside. -/
inductive Stop where
  | unloaded
  | finished (error : Text)
deriving DecidableEq

/-- The frames that are known, up to the first turn that stops the loop. -/
def heard : List Turn → List ClientFrame
  | [] => []
  | .cancelled :: _ => []
  | .read read :: turns =>
    match read.taken with
    | .frame frame => frame :: heard turns
    | .unknown _ | .again => heard turns
    | .finished _ => []

/-- The first turn that stops the loop. -/
def stop : List Turn → Option Stop
  | [] => none
  | .cancelled :: _ => some .unloaded
  | .read read :: turns =>
    match read.taken with
    | .frame _ | .unknown _ | .again => stop turns
    | .finished error => some (.finished error)

/-- The texts that are no frames, up to the first turn that stops the loop. -/
def unknowns : List Turn → List Text
  | [] => []
  | .cancelled :: _ => []
  | .read read :: turns =>
    match read.taken with
    | .frame _ | .again => unknowns turns
    | .unknown text => text :: unknowns turns
    | .finished _ => []

def Sent.unknown? : Sent → Option Text
  | answer _ => none
  | unknown text => some text

/-- What the client is told, without the answers to the texts that are no frames. -/
structure Told where
  summary : Summary
  answers : List ServerFrame
  closed : Bool
deriving DecidableEq

def Served.told (served : Served) : Told :=
  ⟨served.summary, served.sent.filterMap Sent.answer?, served.closed⟩

/-- A stop, after the answers so far. -/
def Told.stopped (summary : Summary) (answers : List ServerFrame) : Stop → Told
  | .unloaded =>
    ⟨{ summary with error := some "model unloaded".toList },
      answers ++ [.error "model unloaded".toList], true⟩
  | .finished error => ⟨{ summary with error := some error }, answers, false⟩

section Serve

variable {σ : Type} (t : Transcriber σ)

/-- A session over the known frames alone, and the stop behind them. -/
def Session.told : Session σ → Summary → List ServerFrame → List ClientFrame → Option Stop →
    Option Told
  | _, summary, answers, [], stopped => stopped.map (Told.stopped summary answers)
  | s, summary, answers, f :: fs, stopped =>
    let handled := Session.handle t s f
    let summary := handled.1.1.foldl Summary.note (summary.heard f)
    match handled.1.2 with
    | .close => some ⟨summary, answers ++ handled.1.1, true⟩
    | .continue => told handled.2 summary (answers ++ handled.1.1) fs stopped

variable {t}

theorem answers_append (sent : List Sent) (frames : List ServerFrame) :
    (sent ++ frames.map Sent.answer).filterMap Sent.answer? =
      sent.filterMap Sent.answer? ++ frames := by
  rw [List.filterMap_append, List.filterMap_map]
  exact congrArg _ List.filterMap_some

theorem answers_unknown (sent : List Sent) (text : Text) :
    (sent ++ [Sent.unknown text]).filterMap Sent.answer? = sent.filterMap Sent.answer? := by
  rw [List.filterMap_append]
  exact List.append_nil _

/-- The loop is the session over the known frames. -/
theorem serveLoop_told (turns : List Turn) (s : Session σ) (summary : Summary)
    (sent : List Sent) :
    (serveLoop t s summary sent turns).map Served.told =
      Session.told t s summary (sent.filterMap Sent.answer?) (heard turns) (stop turns) := by
  induction turns generalizing s summary sent with
  | nil => rfl
  | cons turn turns ih =>
    cases turn with
    | cancelled =>
      rw [serveLoop, heard, stop, Session.told, Option.map_some, Option.map_some]
      refine congrArg (fun answers => some (Told.mk _ answers true)) ?_
      exact answers_append sent [_]
    | read read =>
      rw [serveLoop, heard, stop]
      cases read.taken with
      | frame frame =>
        rw [Session.told]
        dsimp only
        rw [← answers_append]
        cases (Session.handle t s frame).1.2 with
        | «continue» => exact ih _ _ _
        | close => rfl
      | unknown text => exact (ih _ _ _).trans (by rw [answers_unknown])
      | again => exact ih _ _ _
      | finished error => rfl

/-- The texts that are no frames are answered one by one, in order. -/
theorem serveLoop_unknowns (turns : List Turn) (s : Session σ) (summary : Summary)
    (sent : List Sent) {served : Served} (h : serveLoop t s summary sent turns = some served) :
    ∃ texts, texts <+: unknowns turns ∧
      served.sent.filterMap Sent.unknown? = sent.filterMap Sent.unknown? ++ texts := by
  have hanswers : ∀ (sent : List Sent) (frames : List ServerFrame),
      (sent ++ frames.map Sent.answer).filterMap Sent.unknown? =
        sent.filterMap Sent.unknown? := by
    intro sent frames
    rw [List.filterMap_append, List.filterMap_map]
    refine (congrArg _ (List.filterMap_eq_nil_iff.mpr fun _ _ => rfl)).trans (List.append_nil _)
  induction turns generalizing s summary sent with
  | nil => cases h
  | cons turn turns ih =>
    cases turn with
    | cancelled =>
      cases h
      exact ⟨[], List.nil_prefix, (hanswers sent [_]).trans (List.append_nil _).symm⟩
    | read read =>
      rw [serveLoop] at h
      rw [unknowns]
      cases htaken : read.taken with
      | frame frame =>
        rw [htaken] at h
        dsimp only at h ⊢
        cases hnext : (Session.handle t s frame).1.2 with
        | «continue» =>
          rw [hnext] at h
          obtain ⟨texts, hpre, hsent⟩ := ih _ _ _ h
          exact ⟨texts, hpre, hsent.trans (by rw [hanswers])⟩
        | close =>
          rw [hnext] at h
          cases h
          exact ⟨[], List.nil_prefix, (hanswers sent _).trans (List.append_nil _).symm⟩
      | unknown text =>
        rw [htaken] at h
        obtain ⟨texts, hpre, hsent⟩ := ih _ _ _ h
        refine ⟨text :: texts, List.cons_prefix_cons.mpr ⟨rfl, hpre⟩, hsent.trans ?_⟩
        rw [List.filterMap_append, List.append_assoc]
        rfl
      | again =>
        rw [htaken] at h
        exact ih _ _ _ h
      | finished error =>
        rw [htaken] at h
        cases h
        exact ⟨[], List.nil_prefix, (List.append_nil _).symm⟩

end Serve

/-! ## How a stream is over -/

def audioBytes (fs : List ClientFrame) : ℕ :=
  (fs.map fun
    | .audio bytes => bytes.length
    | .end | .cancel => 0).sum

/-- The ways a stream is over: `frames` answers the frames that were `taken`, and the summary is
what gets recorded. -/
inductive StreamEnd (frames : List ServerFrame) (taken : List ClientFrame) :
    Option Stop → Told → Prop
  | final (texts : List Text) (text : Text) {stopped : Option Stop} :
      frames = texts.map .partialText ++ [.final text] →
      StreamEnd frames taken stopped ⟨⟨audioBytes taken, some text, none⟩, frames, true⟩
  | failed (texts : List Text) (error : Text) {stopped : Option Stop} :
      frames = texts.map .partialText ++ [.error error] →
      StreamEnd frames taken stopped ⟨⟨audioBytes taken, none, some error⟩, frames, true⟩
  | cancelled (texts : List Text) {stopped : Option Stop} :
      taken.getLast? = some .cancel → frames = texts.map .partialText →
      StreamEnd frames taken stopped ⟨⟨audioBytes taken, none, none⟩, frames, true⟩
  | stopped (texts : List Text) (stop : Stop) : frames = texts.map .partialText →
      (∀ f ∈ taken, ∃ bytes, f = .audio bytes) →
      StreamEnd frames taken (some stop) (.stopped ⟨audioBytes taken, none, none⟩ frames stop)

section Serve

variable {σ : Type} {t : Transcriber σ}

theorem note_partials (summary : Summary) (texts : List Text) :
    (texts.map ServerFrame.partialText).foldl Summary.note summary = summary := by
  induction texts with
  | nil => rfl
  | cons text texts ih => exact ih

theorem audioBytes_cons (bytes : List UInt8) (fs : List ClientFrame) :
    audioBytes (.audio bytes :: fs) = bytes.length + audioBytes fs := by
  rw [audioBytes, List.map_cons, List.sum_cons, ← audioBytes]

/-- A summary behind `a` bytes more. -/
def Summary.behind (a : ℕ) (summary : Summary) : Summary :=
  { summary with audioBytes := a + summary.audioBytes }

theorem note_behind (a : ℕ) (frames : List ServerFrame) (summary : Summary) :
    frames.foldl Summary.note (summary.behind a) =
      (frames.foldl Summary.note summary).behind a := by
  induction frames generalizing summary with
  | nil => rfl
  | cons frame frames ih =>
    have hnote : (summary.behind a).note frame = (summary.note frame).behind a := by
      cases frame <;> rfl
    rw [List.foldl_cons, List.foldl_cons, hnote, ih]

theorem heard_behind (a : ℕ) (summary : Summary) (f : ClientFrame) :
    (summary.behind a).heard f = (summary.heard f).behind a := by
  cases f with
  | audio bytes => exact congrArg (fun n => Summary.mk n _ _) (Nat.add_assoc ..)
  | «end» => rfl
  | cancel => rfl

/-- What is told behind `a` bytes and some answers more. -/
def Told.behind (a : ℕ) (answers : List ServerFrame) (told : Told) : Told :=
  ⟨told.summary.behind a, answers ++ told.answers, told.closed⟩

theorem told_behind (fs : List ClientFrame) (stopped : Option Stop) (s : Session σ)
    (summary : Summary) (a : ℕ) (answers answers' : List ServerFrame) :
    Session.told t s (summary.behind a) (answers ++ answers') fs stopped =
      (Session.told t s summary answers' fs stopped).map (Told.behind a answers) := by
  induction fs generalizing s summary answers' with
  | nil =>
    rw [Session.told, Session.told, Option.map_map]
    congr 1
    funext stop
    cases stop with
    | unloaded => exact congrArg (fun answers => Told.mk _ answers true) (List.append_assoc ..)
    | finished error => rfl
  | cons f fs ih =>
    rw [Session.told, Session.told, heard_behind, note_behind, List.append_assoc]
    cases (Session.handle t s f).1.2 with
    | «continue» => exact ih _ _ _
    | close => rfl

/-- A frame of audio more in front, and the Partial frames that answer it. -/
theorem StreamEnd.behind {frames : List ServerFrame} {taken : List ClientFrame}
    {stopped : Option Stop} {told : Told} (h : StreamEnd frames taken stopped told)
    (bytes : List UInt8) (texts : List Text) :
    StreamEnd (texts.map .partialText ++ frames) (.audio bytes :: taken) stopped
      (told.behind bytes.length (texts.map .partialText)) := by
  have hbytes : ∀ finalText error, Summary.behind bytes.length ⟨audioBytes taken, finalText, error⟩ =
      ⟨audioBytes (.audio bytes :: taken), finalText, error⟩ := fun _ _ => by
    rw [audioBytes_cons, Summary.behind]
  cases h with
  | final texts' text h =>
    rw [Told.behind, hbytes]
    exact .final (texts ++ texts') text (by rw [h, List.map_append, List.append_assoc])
  | failed texts' error h =>
    rw [Told.behind, hbytes]
    exact .failed (texts ++ texts') error (by rw [h, List.map_append, List.append_assoc])
  | cancelled texts' hlast h =>
    rw [Told.behind, hbytes]
    refine .cancelled (texts ++ texts') ?_ (by rw [h, List.map_append])
    rw [List.getLast?_cons, hlast]
    rfl
  | stopped texts' stop h haudio =>
    have hall : ∀ f ∈ ClientFrame.audio bytes :: taken, ∃ bytes, f = .audio bytes := by
      intro f hf
      rcases List.mem_cons.mp hf with rfl | hf
      · exact ⟨bytes, rfl⟩
      · exact haudio f hf
    have hframes : texts.map .partialText ++ frames = (texts ++ texts').map .partialText := by
      rw [h, List.map_append]
    have hend : StreamEnd _ (ClientFrame.audio bytes :: taken) _ _ :=
      .stopped (texts ++ texts') stop hframes hall
    rw [audioBytes_cons] at hend
    cases stop with
    | unloaded =>
      rw [Told.stopped, List.append_assoc] at hend
      exact hend
    | finished error => exact hend

/-- Open with nothing to stop it, or over in one of the ways. -/
theorem told_ends {s : Session σ} (hs : s.Grown) (fs : List ClientFrame) (stopped : Option Stop) :
    (Session.told t s {} [] fs stopped = none ↔
        stopped = none ∧ ∀ b ∈ Session.batches t s fs, b.2 = .continue) ∧
      ∀ told, Session.told t s {} [] fs stopped = some told →
        StreamEnd (Session.run t s fs).1 (fs.take (Session.batches t s fs).length) stopped told := by
  induction fs generalizing s with
  | nil =>
    rw [Session.told, Option.map_eq_none_iff]
    refine ⟨⟨fun h => ⟨h, fun b hb => absurd hb List.not_mem_nil⟩, And.left⟩, fun told h => ?_⟩
    obtain ⟨stop, rfl, rfl⟩ := Option.map_eq_some_iff.mp h
    exact .stopped [] stop rfl fun f hf => absurd hf List.not_mem_nil
  | cons f fs ih =>
    have hclose : ∀ frames, (Session.handle t s f).1 = (frames, .close) →
        ∀ told, Session.told t s {} [] (f :: fs) stopped = some told →
          told = ⟨frames.foldl Summary.note (Summary.heard {} f), frames, true⟩ := by
      intro frames hframes told h
      rw [Session.told, hframes] at h
      exact (Option.some.inj h).symm
    have hover : ∀ frames, (Session.handle t s f).1 = (frames, .close) →
        (Session.told t s {} [] (f :: fs) stopped = none ↔
          stopped = none ∧ ∀ b ∈ Session.batches t s (f :: fs), b.2 = .continue) := by
      intro frames hframes
      rw [Session.told, Session.batches, hframes]
      refine ⟨fun h => (by cases h), fun h => ?_⟩
      cases h.2 _ (List.mem_singleton_self _)
    have htaken : ∀ frames, (Session.handle t s f).1 = (frames, .close) →
        (Session.run t s (f :: fs)).1 = frames ∧
          (f :: fs).take (Session.batches t s (f :: fs)).length = [f] := by
      intro frames hframes
      rw [Session.run, Session.batches, hframes]
      exact ⟨rfl, rfl⟩
    by_cases hf : f = .cancel
    · subst hf
      refine ⟨hover [] rfl, fun told h => ?_⟩
      rw [(htaken [] rfl).1, (htaken [] rfl).2, hclose [] rfl told h]
      exact .cancelled [] rfl rfl
    · obtain ⟨texts, last, -, ⟨⟨bytes, rfl⟩, hframes, -, hgrown⟩ | ⟨last, hframes, hlast⟩⟩ :=
        handle_frames (t := t) hs hf
      · obtain ⟨hnone, hends⟩ := ih hgrown
        have hnext : Session.told t s {} [] (.audio bytes :: fs) stopped =
            (Session.told t (Session.handle t s (.audio bytes)).2 {} [] fs stopped).map
              (Told.behind bytes.length (texts.map .partialText)) := by
          rw [Session.told, ← told_behind, hframes]
          dsimp only
          rw [note_partials, List.append_nil]
          exact congrArg (fun n => Session.told t _ ⟨n, none, none⟩ _ fs stopped) (Nat.add_comm 0 _)
        rw [hnext, Option.map_eq_none_iff, hnone, Session.batches, Session.run, hframes]
        refine ⟨and_congr_right fun _ => ?_, fun told h => ?_⟩
        · dsimp only
          rw [List.forall_mem_cons, eq_self, true_and]
        · obtain ⟨told', h', rfl⟩ := Option.map_eq_some_iff.mp h
          exact (hends told' h').behind bytes texts
      · refine ⟨hover _ hframes, fun told h => ?_⟩
        have hbytes : audioBytes [f] = (Summary.heard {} f).audioBytes := by
          cases f with
          | audio bytes => exact Nat.add_comm ..
          | «end» => rfl
          | cancel => rfl
        have hheard : Summary.heard {} f = ⟨audioBytes [f], none, none⟩ := by
          rw [hbytes]
          cases f <;> rfl
        rw [(htaken _ hframes).1, (htaken _ hframes).2, hclose _ hframes told h,
          List.foldl_append, note_partials, hheard]
        cases hlast with
        | final hpre => exact .final texts _ rfl
        | error error => exact .failed texts error rfl

end Serve

end StudioWorker.SttStream
