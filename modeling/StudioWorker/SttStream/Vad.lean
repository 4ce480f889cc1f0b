import StudioWorker.Lib.Chunks
import StudioWorker.Lib.Trailing

/-!
# SttStream.Vad — the end of an utterance

`stt_stream/vad.rs`.  The verdict is taken once for each call of `feed`, from the counters as the
last window of the call left them.

* `Follows`: the detector after a stream, however it was cut into calls.
* `Vad.endsAt` and `coveredAt`: the call that ends an utterance, and the one that should.
* `Broken`: a call in which the silence that ends an utterance is broken again.
* `endsAt_iff`: the two are the same call exactly where no call is broken.
-/

namespace StudioWorker.SttStream

open Lib.Chunks Lib.Trailing

abbrev Samples := List Float32

/-- `SAMPLE_RATE` -/
def sampleRate : ℕ := 16000
/-- `VAD_WINDOW_MS` -/
def vadWindowMs : ℕ := 200
/-- `VAD_THRESHOLD` -/
def vadThreshold : Float32 := 0.018
/-- `VAD_SILENCE_MS` -/
def vadSilenceMs : ℕ := 1500
/-- `WINDOW` -/
def window : ℕ := sampleRate * vadWindowMs / 1000

def rms (w : Samples) : Float32 :=
  ((w.map fun x => x * x).foldl (· + ·) 0 / Float32.ofNat window).sqrt

def isSpeech (w : Samples) : Bool := decide (vadThreshold ≤ rms w)

structure Vad where
  carry : Samples := []
  speechMs : ℕ := 0
  silenceMs : ℕ := 0
  endsAfterMs : ℕ

namespace Vad

def withSilenceMs (endsAfterMs : ℕ) : Vad where
  endsAfterMs := endsAfterMs

/-- One window of the loop of `feed`. -/
def judge (v : Vad) (w : Samples) : Vad :=
  if isSpeech w then { v with speechMs := v.speechMs + vadWindowMs, silenceMs := 0 }
  else if 0 < v.speechMs then { v with silenceMs := v.silenceMs + vadWindowMs }
  else v

/-- Whether the utterance has ended, and the detector after the samples. -/
def feed (v : Vad) (samples : Samples) : Bool × Vad :=
  let carry := v.carry ++ samples
  let judged := (chunks window carry).foldl judge v
  (decide (0 < judged.speechMs) && decide (judged.endsAfterMs ≤ judged.silenceMs),
    { judged with carry := rest window carry })

/-- The first call that ends the utterance. -/
def endsAt : Vad → List Samples → Option ℕ
  | _, [] => none
  | v, c :: cs => if (v.feed c).1 then some 0 else (endsAt (v.feed c).2 cs).map (· + 1)

end Vad

/-- The windows of silence that `ms` take. -/
def silentWindows (ms : ℕ) : ℕ := (ms + vadWindowMs - 1) / vadWindowMs

/-- The first call by whose end the stream, fed one window at a time, has ended. -/
def coveredAt (ms : ℕ) : Samples → List Samples → Option ℕ
  | _, [] => none
  | stream, c :: cs =>
    if ((Vad.withSilenceMs ms).endsAt (chunks window (stream ++ c))).isSome then some 0
    else (coveredAt ms (stream ++ c) cs).map (· + 1)

/-- The windows before a call have not ended, and those of the call do and go on with speech, behind
which the silence is too short again. -/
def Broken (ms : ℕ) (stream call : Samples) : Prop :=
  ¬ Ended isSpeech (silentWindows ms) (chunks window stream) ∧
    ∃ before speech silence, chunks window (stream ++ call) = before ++ speech :: silence ∧
      Ended isSpeech (silentWindows ms) before ∧ isSpeech speech = true ∧
      (∀ w ∈ silence, isSpeech w = false) ∧ silence.length < silentWindows ms

def Unbroken (ms : ℕ) (calls : List Samples) : Prop :=
  ∀ before call after, calls = before ++ call :: after → ¬ Broken ms before.flatten call

theorem window_pos : 0 < window := by decide

theorem silentWindows_le {ms n : ℕ} : silentWindows ms ≤ n ↔ ms ≤ n * vadWindowMs := by
  have hpos : 0 < vadWindowMs := by decide
  rw [silentWindows, Nat.div_le_iff_le_mul_add_pred hpos, Nat.mul_comm]
  omega

namespace Vad

/-! ## The detector after a stream -/

/-- The counters of a detector that has judged the windows. -/
structure Counted (v : Vad) (ws : List Samples) : Prop where
  speech : 0 < v.speechMs ↔ ∃ w ∈ ws, isSpeech w = true
  silence : 0 < v.speechMs → v.silenceMs = trailing isSpeech ws * vadWindowMs

theorem Counted.judge {v : Vad} {ws : List Samples} (h : v.Counted ws) (w : Samples) :
    (v.judge w).Counted (ws ++ [w]) := by
  have hconcat : trailing isSpeech (ws ++ [w]) = if isSpeech w then 0 else trailing isSpeech ws + 1 :=
    trailing_concat ws w
  unfold Vad.judge
  cases hw : isSpeech w with
  | true =>
    refine ⟨⟨fun _ => ⟨w, by simp, hw⟩, fun _ => by simp [vadWindowMs]⟩, fun _ => ?_⟩
    rw [hconcat, if_pos hw, Nat.zero_mul]
    rfl
  | false =>
    have hex : (∃ x ∈ ws ++ [w], isSpeech x = true) ↔ ∃ x ∈ ws, isSpeech x = true := by
      simp [hw, or_and_right, exists_or]
    rw [if_neg (by simp)]
    split_ifs with hv
    · refine ⟨by rw [hex]; exact h.speech, fun _ => ?_⟩
      rw [hconcat, hw, if_neg (by simp), Nat.succ_mul, ← h.silence hv]
    · exact ⟨by rw [hex]; exact h.speech, fun hpos => absurd hpos hv⟩

theorem Counted.foldl {v : Vad} {ws : List Samples} (h : v.Counted ws) (xs : List Samples) :
    (xs.foldl Vad.judge v).Counted (ws ++ xs) := by
  induction xs generalizing v ws with
  | nil => simpa using h
  | cons x xs ih =>
    have hstep := ih (h.judge x)
    rwa [List.append_assoc, List.singleton_append] at hstep

@[simp] theorem judge_endsAfterMs (v : Vad) (w : Samples) :
    (v.judge w).endsAfterMs = v.endsAfterMs := by
  unfold judge
  split_ifs
  · rfl
  · rfl
  · rfl

theorem foldl_judge_endsAfterMs (v : Vad) (xs : List Samples) :
    (xs.foldl judge v).endsAfterMs = v.endsAfterMs := by
  induction xs generalizing v with
  | nil => rfl
  | cons x xs ih => rw [List.foldl_cons, ih, judge_endsAfterMs]

/-- What a detector holds after a stream. -/
structure Follows (v : Vad) (ms : ℕ) (stream : Samples) : Prop where
  carry : v.carry = rest window stream
  endsAfter : v.endsAfterMs = ms
  counted : v.Counted (chunks window stream)

theorem follows_withSilenceMs (ms : ℕ) : (withSilenceMs ms).Follows ms [] where
  carry := rfl
  endsAfter := rfl
  counted := ⟨by simp [withSilenceMs, chunks, pieces], fun h => absurd h (Nat.lt_irrefl 0)⟩

theorem Follows.feed {v : Vad} {ms : ℕ} {stream : Samples} (h : v.Follows ms stream)
    (samples : Samples) : (v.feed samples).2.Follows ms (stream ++ samples) where
  carry := by
    have hcarry : (v.feed samples).2.carry = rest window (v.carry ++ samples) := rfl
    rw [hcarry, h.carry, ← rest_append window_pos]
  endsAfter := (foldl_judge_endsAfterMs _ _).trans h.endsAfter
  counted := by
    have hcounted := h.counted.foldl (chunks window (v.carry ++ samples))
    have hchunks : chunks window (stream ++ samples) =
        chunks window stream ++ chunks window (v.carry ++ samples) := by
      rw [h.carry, ← chunks_append window_pos]
    rw [hchunks]
    exact ⟨hcounted.speech, hcounted.silence⟩

/-- **The verdict of a call**: the windows so far end with speech and enough silence. -/
theorem Follows.verdict {v : Vad} {ms : ℕ} {stream : Samples} (h : v.Follows ms stream)
    (samples : Samples) : (v.feed samples).1 = true ↔
      EndsQuiet isSpeech (silentWindows ms) (chunks window (stream ++ samples)) := by
  have hnext := h.feed samples
  have hfeed : (v.feed samples).1 = (decide (0 < (v.feed samples).2.speechMs) &&
      decide ((v.feed samples).2.endsAfterMs ≤ (v.feed samples).2.silenceMs)) := rfl
  rw [hfeed, Bool.and_eq_true, decide_eq_true_iff, decide_eq_true_iff, endsQuiet_iff,
    silentWindows_le, ← hnext.counted.speech, hnext.endsAfter]
  refine and_congr_right fun hpos => ?_
  rw [hnext.counted.silence hpos]

/-! ## One window at a time -/

/-- Fed one window at a time, a stream ends as soon as its windows do. -/
theorem Follows.windows_endsAt {v : Vad} {ms : ℕ} {ps : List Samples}
    (hps : ∀ p ∈ ps, p.length = window) (h : v.Follows ms ps.flatten)
    (hend : ¬ Ended isSpeech (silentWindows ms) ps) {ws : List Samples}
    (hws : ∀ w ∈ ws, w.length = window) :
    (v.endsAt ws).isSome = true ↔ Ended isSpeech (silentWindows ms) (ps ++ ws) := by
  induction ws generalizing v ps with
  | nil => simpa [endsAt] using hend
  | cons w ws ih =>
    have hall : ∀ p ∈ ps ++ [w], p.length = window := fun p hp => by
      rcases List.mem_append.mp hp with hp | hp
      · exact hps p hp
      · rw [List.mem_singleton.mp hp]
        exact hws w List.mem_cons_self
    have hflat : ps.flatten ++ w = (ps ++ [w]).flatten := by simp
    have hverdict := h.verdict w
    rw [hflat, chunks_flatten window_pos hall] at hverdict
    have hcons : ps ++ w :: ws = ps ++ [w] ++ ws := by simp
    rw [endsAt, hcons]
    split_ifs with hw
    · have hended : Ended isSpeech (silentWindows ms) (ps ++ [w]) := (hverdict.mp hw).ended
      exact ⟨fun _ => hended.mono (List.prefix_append _ _), fun _ => rfl⟩
    · have hnot : ¬ Ended isSpeech (silentWindows ms) (ps ++ [w]) := fun hc =>
        (ended_concat.mp hc).elim hend fun hq => hw (hverdict.mpr hq)
      rw [Option.isSome_map]
      exact ih hall (hflat ▸ h.feed w) hnot fun x hx => hws x (List.mem_cons_of_mem _ hx)

end Vad

theorem endsAt_chunks (ms : ℕ) (stream : Samples) :
    ((Vad.withSilenceMs ms).endsAt (chunks window stream)).isSome = true ↔
      Ended isSpeech (silentWindows ms) (chunks window stream) := by
  have hnil : ∀ p ∈ ([] : List Samples), p.length = window := fun p hp => absurd hp List.not_mem_nil
  exact (Vad.follows_withSilenceMs ms).windows_endsAt hnil (not_ended_nil _)
    fun _ => length_of_mem_chunks

/-! ## Any cut into calls -/

/-- The condition call by call. -/
def UnbrokenFrom (ms : ℕ) (stream : Samples) (calls : List Samples) : Prop :=
  ∀ before call after, calls = before ++ call :: after → ¬ Broken ms (stream ++ before.flatten) call

theorem unbrokenFrom_cons {ms : ℕ} {stream c : Samples} {cs : List Samples} :
    UnbrokenFrom ms stream (c :: cs) ↔
      ¬ Broken ms stream c ∧ UnbrokenFrom ms (stream ++ c) cs := by
  constructor
  · intro h
    refine ⟨?_, fun before call after hcs => ?_⟩
    · have hc := h [] c cs rfl
      rwa [List.flatten_nil, List.append_nil] at hc
    · have hc := h (c :: before) call after (by rw [hcs]; rfl)
      rwa [List.flatten_cons, ← List.append_assoc] at hc
  · rintro ⟨hc, h⟩ before call after hcs
    cases before with
    | nil =>
      obtain ⟨rfl, -⟩ := List.cons.inj hcs
      rwa [List.flatten_nil, List.append_nil]
    | cons b before =>
      obtain ⟨rfl, hcs'⟩ := List.cons.inj hcs
      rw [List.flatten_cons, ← List.append_assoc]
      exact h before call after hcs'

/-- Nothing is broken behind an utterance that has ended. -/
theorem unbrokenFrom_of_ended {ms : ℕ} {stream : Samples} {calls : List Samples}
    (h : Ended isSpeech (silentWindows ms) (chunks window stream)) :
    UnbrokenFrom ms stream calls := by
  intro before call after _ hbroken
  refine hbroken.1 (h.mono ?_)
  rw [chunks_append window_pos]
  exact List.prefix_append _ _

/-- A call is broken where the stream ends in it and its last windows do not. -/
theorem broken_iff {ms : ℕ} {stream call : Samples}
    (h : ¬ Ended isSpeech (silentWindows ms) (chunks window stream)) :
    Broken ms stream call ↔
      Ended isSpeech (silentWindows ms) (chunks window (stream ++ call)) ∧
        ¬ EndsQuiet isSpeech (silentWindows ms) (chunks window (stream ++ call)) := by
  rw [ended_not_endsQuiet_iff, Broken, and_iff_right h]

theorem Vad.Follows.endsAt_iff {v : Vad} {ms : ℕ} {stream : Samples} (h : v.Follows ms stream)
    (hend : ¬ Ended isSpeech (silentWindows ms) (chunks window stream)) (calls : List Samples) :
    v.endsAt calls = coveredAt ms stream calls ↔ UnbrokenFrom ms stream calls := by
  induction calls generalizing v stream with
  | nil => exact ⟨fun _ before call after hnil => by simp at hnil, fun _ => rfl⟩
  | cons c cs ih =>
    rw [Vad.endsAt, coveredAt, unbrokenFrom_cons, broken_iff hend]
    by_cases hquiet : EndsQuiet isSpeech (silentWindows ms) (chunks window (stream ++ c))
    · -- the call ends the utterance and should
      rw [if_pos ((h.verdict c).mpr hquiet), if_pos ((endsAt_chunks ms _).mpr hquiet.ended)]
      exact ⟨fun _ => ⟨fun hb => hb.2 hquiet, unbrokenFrom_of_ended hquiet.ended⟩, fun _ => rfl⟩
    · rw [if_neg fun hc => hquiet ((h.verdict c).mp hc)]
      by_cases hended : Ended isSpeech (silentWindows ms) (chunks window (stream ++ c))
      · -- it should and does not
        rw [if_pos ((endsAt_chunks ms _).mpr hended)]
        refine ⟨fun heq => ?_, fun hb => absurd ⟨hended, hquiet⟩ hb.1⟩
        obtain ⟨n, -, hn⟩ := Option.map_eq_some_iff.mp heq
        exact absurd hn (Nat.succ_ne_zero n)
      · rw [if_neg fun hc => hended ((endsAt_chunks ms _).mp hc), Option.map_inj_right fun _ _ => Nat.succ.inj,
          ih (h.feed c) hended, and_iff_right fun hb => hended hb.1]

/-- **The end of an utterance** does not depend on the calls exactly where none is broken. -/
theorem endsAt_iff (ms : ℕ) (calls : List Samples) :
    (Vad.withSilenceMs ms).endsAt calls = coveredAt ms [] calls ↔ Unbroken ms calls :=
  (Vad.follows_withSilenceMs ms).endsAt_iff (not_ended_nil _) calls

end StudioWorker.SttStream
