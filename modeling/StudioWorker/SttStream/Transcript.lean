import StudioWorker.Lib.Words
import StudioWorker.SttStream.Session

/-!
# SttStream.Transcript — what a client is told (`src/stt_stream/session.rs`)

The transcriber is arbitrary: any text at any step, a failure at any step.

* `Session.batches`: the answers to the client's frames, up to the one that closes.
* `Exchange`: which answers may follow which frames.
* `GrowsTo`: texts that each extend the one before and differ from it.
* `transcript_grows`: what the frames of a session satisfy.
-/

namespace StudioWorker.SttStream

open Lib.Words

/-- The frames that answer one, and what follows. -/
abbrev Batch := List ServerFrame × Next

/-- The text of a Partial frame. -/
def ServerFrame.interim? : ServerFrame → Option Text
  | partialText text => some text
  | final _ | error _ => none

/-- The text of a Partial or Final frame. -/
def ServerFrame.text? : ServerFrame → Option Text
  | partialText text | final text => some text
  | error _ => none

/-- A frame that closes a session, when `told` is the last text that was sent. -/
inductive Closing (told : Text) : ServerFrame → Prop
  | final {text : Text} : told <+: text → Closing told (.final text)
  | error (error : Text) : Closing told (.error error)

/-- Texts behind `a`, up to `b`: each extends the one before and differs from it. -/
inductive GrowsTo : Text → List Text → Text → Prop
  | nil (a : Text) : GrowsTo a [] a
  | cons {a b c : Text} {texts : List Text} :
      a ≠ b → a <+: b → GrowsTo b texts c → GrowsTo a (b :: texts) c

/-- Which answers may follow which frames: only Partial frames while the session is open, and one
Final or Error frame at its end, none when it is cancelled. -/
inductive Exchange : List ClientFrame → List Batch → Prop
  | nil : Exchange [] []
  | audio (bytes : List UInt8) (texts : List Text) {fs : List ClientFrame} {bs : List Batch} :
      Exchange fs bs → Exchange (.audio bytes :: fs) ((texts.map .partialText, .continue) :: bs)
  | close {f : ClientFrame} (texts : List Text) {told : Text} {last : ServerFrame}
      (fs : List ClientFrame) : f ≠ .cancel → Closing told last →
      Exchange (f :: fs) [(texts.map .partialText ++ [last], .close)]
  | cancel (fs : List ClientFrame) : Exchange (.cancel :: fs) [([], .close)]

section Run

variable {σ : Type} (t : Transcriber σ)

/-- The answers to the client's frames, until one closes the session. -/
def Session.batches : Session σ → List ClientFrame → List Batch
  | _, [] => []
  | s, f :: fs =>
    let handled := Session.handle t s f
    match handled.1.2 with
    | .close => [handled.1]
    | .continue => handled.1 :: batches handled.2 fs

theorem run_eq_batches (s : Session σ) (fs : List ClientFrame) :
    (Session.run t s fs).1 = (Session.batches t s fs).flatMap (·.1) := by
  induction fs generalizing s with
  | nil => rfl
  | cons f fs ih =>
    rw [Session.run, Session.batches]
    rcases (Session.handle t s f).1.2 with _ | _
    · rw [List.flatMap_cons, ← ih]
    · rw [List.flatMap_cons, List.flatMap_nil, List.append_nil]

/-! ## Texts that grow -/

/-- What is transcribed only extends the text. -/
theorem normalise_grows (raw added : Text) : normalise raw <+: normalise (raw ++ added) := by
  have hjoined : ∀ l : Text, normalise l = joined Text.isWhitespace [' ']
      (l.map fun c => if c = Char.ofNat 0x2581 then ' ' else c) := by
    intro l
    rw [normalise, Text.splitWhitespace, joined, words, Lib.Words.nonempty]
    congr 2
    funext w
    cases w <;> rfl
  rw [hjoined, hjoined, List.map_append]
  exact joined_grows _ _

variable {t}
variable {a b c : Text} {texts texts' : List Text}

theorem GrowsTo.append (h : GrowsTo a texts b) (h' : GrowsTo b texts' c) :
    GrowsTo a (texts ++ texts') c := by
  induction h with
  | nil a => exact h'
  | cons hne hpre _ ih => exact .cons hne hpre (ih h')

theorem GrowsTo.grows (h : GrowsTo a texts b) : a <+: b ∧ ∀ text ∈ texts, text <+: b := by
  induction h with
  | nil a => exact ⟨List.prefix_refl a, fun text htext => absurd htext List.not_mem_nil⟩
  | cons _ hpre _ ih =>
    obtain ⟨hb, htexts⟩ := ih
    refine ⟨hpre.trans hb, fun text htext => ?_⟩
    rcases List.mem_cons.mp htext with rfl | htext
    · exact hb
    · exact htexts text htext

theorem GrowsTo.isChain (h : GrowsTo a texts b) : texts.IsChain (· ≠ ·) := by
  induction h with
  | nil a => exact .nil
  | cons _ _ hrest ih =>
    cases hrest with
    | nil => exact .singleton _
    | cons hne _ _ => exact .cons_cons hne ih

theorem GrowsTo.pairwise (h : GrowsTo a texts b) : (a :: texts).Pairwise (· <+: ·) := by
  induction h with
  | nil a => exact List.pairwise_singleton _ a
  | cons _ hpre hrest ih =>
    refine List.pairwise_cons.mpr ⟨fun text htext => ?_, ih⟩
    rcases List.mem_cons.mp htext with rfl | htext
    · exact hpre
    · exact hpre.trans ((List.pairwise_cons.mp ih).1 text htext)

/-! ## One frame -/

/-- What a session was told last is in its transcript. -/
def Session.Grown (s : Session σ) : Prop := s.sent <+: normalise s.raw

theorem drainLoop_frames (partials : Bool) (n : ℕ) {s : Session σ} (hs : s.Grown)
    (out : List ServerFrame) :
    ∃ texts, (drainLoop t partials n s out).1.1 = out ++ texts.map .partialText ∧
      GrowsTo s.sent texts (drainLoop t partials n s out).2.sent ∧
      (drainLoop t partials n s out).2.Grown ∧ (partials = false → texts = []) := by
  induction n generalizing s out with
  | zero => exact ⟨[], (List.append_nil out).symm, .nil _, hs, fun _ => rfl⟩
  | succ n ih =>
    rw [drainLoop]
    dsimp only
    rcases t.step s.model (s.pending.take t.chunk) with e | ⟨added, model⟩
    · exact ⟨[], (List.append_nil out).symm, .nil _, hs, fun _ => rfl⟩
    · have hgrown : s.sent <+: normalise (s.raw ++ added) := hs.trans (normalise_grows _ _)
      dsimp only
      split_ifs with hsend
      · rw [Bool.and_eq_true, decide_eq_true_eq] at hsend
        obtain ⟨texts, hout, htexts, hend, -⟩ := ih
          (s := { s with
            pending := s.pending.drop t.chunk, model := model, raw := s.raw ++ added,
            sent := normalise (s.raw ++ added) })
          (List.prefix_refl _) (out ++ [.partialText (normalise (s.raw ++ added))])
        refine ⟨normalise (s.raw ++ added) :: texts, ?_, ?_, hend, ?_⟩
        · rw [hout, List.append_assoc]
          rfl
        · exact .cons (Ne.symm hsend.2) hgrown htexts
        · intro hfalse
          rw [hsend.1] at hfalse
          cases hfalse
      · refine ih ?_ out
        exact hgrown

theorem finish_frames {s : Session σ} (hs : s.Grown) (out : List ServerFrame) :
    ∃ last, (Session.finish t s out).1 = (out ++ [last], .close) ∧ Closing s.sent last := by
  unfold Session.finish Session.drain
  dsimp only
  generalize hpadded : s.pending ++ List.replicate _ _ = padded
  obtain ⟨texts, hout, htexts, hend, hnone⟩ := drainLoop_frames (t := t) false
    (padded.length / t.chunk) (s := { s with pending := padded }) hs out
  obtain rfl := hnone rfl
  rw [List.map_nil, List.append_nil] at hout
  split
  · refine ⟨_, congrArg (fun frames => (frames ++ [_], _)) hout, .final ?_⟩
    exact htexts.grows.1.trans hend
  · exact ⟨_, congrArg (fun frames => (frames ++ [_], _)) hout, .error _⟩

/-- One answer: Partial frames that go on from what was sent, and one frame more at the end. -/
theorem handle_frames {s : Session σ} (hs : s.Grown) {f : ClientFrame} (hf : f ≠ .cancel) :
    ∃ texts told, GrowsTo s.sent texts told ∧
      ((∃ bytes, f = .audio bytes) ∧
          (Session.handle t s f).1 = (texts.map .partialText, .continue) ∧
          (Session.handle t s f).2.sent = told ∧ (Session.handle t s f).2.Grown ∨
        ∃ last, (Session.handle t s f).1 = (texts.map .partialText ++ [last], .close) ∧
          Closing told last) := by
  cases f with
  | audio bytes =>
    obtain ⟨texts, hout, htexts, hend, -⟩ := drainLoop_frames (t := t) true
      ((s.hear bytes).2.pending.length / t.chunk) (s := (s.hear bytes).2) hs []
    refine ⟨texts, _, htexts, ?_⟩
    rw [List.nil_append] at hout
    rw [Session.handle, Session.drain]
    split
    · exact .inr ⟨_, congrArg (fun frames => (frames ++ [_], _)) hout, .error _⟩
    · split_ifs
      · rw [hout]
        exact .inr (finish_frames hend _)
      · exact .inl ⟨⟨bytes, rfl⟩, congrArg (fun frames => (frames, _)) hout, rfl, hend⟩
  | «end» =>
    exact ⟨[], s.sent, .nil _, .inr (finish_frames hs [])⟩
  | cancel => exact absurd rfl hf

/-! ## A whole session -/

theorem interims_map (texts : List Text) :
    (texts.map ServerFrame.partialText).filterMap ServerFrame.interim? = texts := by
  rw [List.filterMap_map]
  exact List.filterMap_some

theorem texts_map (texts : List Text) :
    (texts.map ServerFrame.partialText).filterMap ServerFrame.text? = texts := by
  rw [List.filterMap_map]
  exact List.filterMap_some

/-- The frames of a session: Partial frames that grow, and at most one that closes it. -/
theorem batches_frames {s : Session σ} (hs : s.Grown) (fs : List ClientFrame) :
    Exchange fs (Session.batches t s fs) ∧ ∃ texts told last, GrowsTo s.sent texts told ∧
      (Session.batches t s fs).flatMap (·.1) = texts.map .partialText ++ last ∧
      ∀ frame ∈ last, last = [frame] ∧ Closing told frame := by
  induction fs generalizing s with
  | nil => exact ⟨.nil, [], s.sent, [], .nil _, rfl, fun frame h => absurd h List.not_mem_nil⟩
  | cons f fs ih =>
    rw [Session.batches]
    by_cases hf : f = .cancel
    · subst hf
      exact ⟨.cancel fs, [], s.sent, [], .nil _, rfl, fun frame h => absurd h List.not_mem_nil⟩
    · obtain ⟨texts, told, htexts, hopen | ⟨last, hframes, hlast⟩⟩ := handle_frames (t := t) hs hf
      · obtain ⟨⟨bytes, rfl⟩, hframes, hsent, hgrown⟩ := hopen
        obtain ⟨hexchange, texts', told', last, htexts', hrest, hlast⟩ := ih hgrown
        rw [hsent] at htexts'
        rw [hframes]
        refine ⟨.audio bytes texts hexchange, texts ++ texts', told', last,
          htexts.append htexts', ?_, hlast⟩
        rw [List.flatMap_cons, hrest, List.map_append, List.append_assoc]
      · rw [hframes]
        refine ⟨.close texts fs hf hlast, texts, told, [last], htexts, ?_, fun frame hframe => ?_⟩
        · rw [List.flatMap_cons, List.flatMap_nil, List.append_nil]
        · obtain rfl := List.mem_singleton.mp hframe
          exact ⟨rfl, hlast⟩

end Run

/-- **What a client is told**, over any transcriber: Partial frames while the session is open and
one Final or Error at its end, none on Cancel; each Partial differs from the one before, and each
text is a prefix of every later one. -/
theorem transcript_grows {σ : Type} (t : Transcriber σ) (model : σ) (e : Endpointing)
    (fs : List ClientFrame) :
    Exchange fs (Session.batches t (Session.withEndpointing t model e) fs) ∧
      ((Session.run t (Session.withEndpointing t model e) fs).1.filterMap
        ServerFrame.interim?).IsChain (· ≠ ·) ∧
      ((Session.run t (Session.withEndpointing t model e) fs).1.filterMap
        ServerFrame.text?).Pairwise (· <+: ·) := by
  have hgrown : (Session.withEndpointing t model e).Grown := List.nil_prefix
  obtain ⟨hexchange, texts, told, last, htexts, hframes, hlast⟩ :=
    batches_frames (t := t) hgrown fs
  rw [run_eq_batches, hframes, List.filterMap_append, List.filterMap_append, interims_map,
    texts_map]
  have hchain := htexts.isChain
  have hpairwise := (List.pairwise_cons.mp htexts.pairwise).2
  refine ⟨hexchange, ?_, ?_⟩
  · have hnone : last.filterMap ServerFrame.interim? = [] := by
      refine List.filterMap_eq_nil_iff.mpr fun frame hframe => ?_
      obtain ⟨-, hclosing⟩ := hlast frame hframe
      cases hclosing <;> rfl
    rw [hnone, List.append_nil]
    exact hchain
  · rw [List.pairwise_append]
    refine ⟨hpairwise, ?_, fun text htext later hlater => ?_⟩
    · rcases last with _ | ⟨frame, rest⟩
      · exact .nil
      · obtain ⟨hone, hclosing⟩ := hlast frame List.mem_cons_self
        rw [hone]
        cases hclosing with
        | final hpre => exact List.pairwise_singleton _ _
        | error error => exact .nil
    · obtain ⟨frame, hframe, hsome⟩ := List.mem_filterMap.mp hlater
      obtain ⟨-, hclosing⟩ := hlast frame hframe
      cases hclosing with
      | final hpre =>
        obtain rfl := Option.some.inj hsome
        exact (htexts.grows.2 text htext).trans hpre
      | error error => cases hsome

end StudioWorker.SttStream
