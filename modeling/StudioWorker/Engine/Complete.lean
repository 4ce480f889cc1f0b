import Mathlib.Data.List.Range
import Mathlib.Data.List.Infix
import Mathlib.Tactic.SplitIfs
import StudioWorker.Engine.StopHold
import StudioWorker.Engine.ThinkSplitter
import StudioWorker.Lib.Chunks

/-!
# Engine.Complete — a completion of a text prompt (`engine/llama.rs`, `engine/llm_core.rs`)

llama.cpp is what it is called with: the decoded batches, the samples and the streamed pieces, in
order.  Which token a sample gives and when a cancel is seen are arbitrary sequences.

* `complete`: as in the source.  An integer that leaves its type ends the run.
* `Sound`: what the calls of a run are to be, at any time.
* `Good`: what a run is to end with.
* `feedChunks_cases`: what the batches of the prompt can do.
-/

namespace StudioWorker.Engine

open Text Lib.Chunks

/-! ## The rules of `llm_core.rs` -/

def defaultContextSize : ℕ := 8192
def u32Max : ℕ := 2 ^ 32 - 1
def i32Max : ℕ := 2 ^ 31 - 1

inductive Finish where
  | stop
  | length
deriving DecidableEq

def Finish.asStr : Finish → Text
  | .stop => "stop".toList
  | .length => "length".toList

/-- Why a completion has no answer. -/
inductive Refusal where
  | contextOverflow (promptTokens nCtx : ℕ)
  | cancelled
  | batchAdd
  | panicked
deriving DecidableEq

def planBudget (promptTokens maxTokens nCtx : ℕ) : Except Refusal ℕ :=
  let room := (if promptTokens ≤ nCtx then some (nCtx - promptTokens) else none).filter (0 < ·)
  match room with
  | some room => .ok (min (max maxTokens 1) (min room u32Max))
  | none => .error (.contextOverflow promptTokens nCtx)

/-- `trained = 0` is unknown. -/
def effectiveContext (configured : Option ℕ) (trained : ℕ) : ℕ :=
  let wanted := configured.getD defaultContextSize
  if 0 < trained then min wanted trained else wanted

def finishFor (generated budget : ℕ) (hitEnd : Bool) : Finish :=
  if !hitEnd && decide (budget ≤ generated) then .length else .stop

/-- `chat.completion`, with what the thinking was split off. -/
structure Completion where
  content : Text
  reasoning : Option Text
  promptTokens : ℕ
  completionTokens : ℕ
  totalTokens : ℕ
  finishReason : Finish

def completionJson (text : Text) (promptTokens completionTokens : ℕ) (finish : Finish) :
    Completion :=
  let split := splitReasoning text
  { content := split.1
    reasoning := split.2
    promptTokens := promptTokens
    completionTokens := completionTokens
    totalTokens := promptTokens + completionTokens
    finishReason := finish }

/-! ## The calls -/

def promptBatch : ℕ := 2048

/-- One token of a batch. -/
structure Entry (Token : Type) where
  token : Token
  pos : ℕ
  logits : Bool
deriving DecidableEq

inductive Call (Token : Type) where
  | decode (batch : List (Entry Token))
  | sample (logitsAt : ℤ)
  | piece (text : Str)

/-- The model and the decoder of its tokens' bytes. -/
structure LlamaModel (Token D : Type) where
  nCtxTrain : ℕ
  isEog : Token → Bool
  tokenToPiece : Token → List UInt8
  newDecoder : D
  decodePiece : D → List UInt8 → Str × D

structure LlmParams where
  maxTokens : ℕ
  stop : Option (List Str)

/-- What happens around a run: whether the `k`-th question whether it is cancelled is answered
with yes, and what the `k`-th sample is. -/
structure World (Token : Type) where
  cancelled : ℕ → Bool
  sampled : ℕ → Token

structure Run (Token : Type) where
  asked : ℕ
  pos : ℕ
  batch : List (Entry Token)
  calls : List (Call Token)

/-- What is left of a run that ends early: why, and what was done. -/
abbrev Outcome (Token α : Type) := Except (Refusal × Run Token) α

namespace Run

variable {Token : Type}

def new : Run Token := ⟨0, 0, [], []⟩

def ask (w : World Token) (r : Run Token) : Outcome Token (Run Token) :=
  if w.cancelled r.asked then .error (.cancelled, r) else .ok { r with asked := r.asked + 1 }

/-- `batch.clear()` -/
def clear (r : Run Token) : Run Token := { r with batch := [] }

/-- `batch.add(token, pos, &[0], logits)`, into a batch of `PROMPT_BATCH` tokens -/
def add (r : Run Token) (token : Token) (logits : Bool) : Outcome Token (Run Token) :=
  if r.batch.length = promptBatch then .error (.batchAdd, r)
  else .ok { r with batch := r.batch ++ [⟨token, r.pos, logits⟩] }

/-- `pos += 1` -/
def advance (r : Run Token) : Outcome Token (Run Token) :=
  if r.pos = i32Max then .error (.panicked, r) else .ok { r with pos := r.pos + 1 }

def call (r : Run Token) (c : Call Token) : Run Token := { r with calls := r.calls ++ [c] }

def decode (r : Run Token) : Run Token := r.call (.decode r.batch)

/-- `on_piece`, of a piece that is not empty -/
def onPiece (r : Run Token) (text : Str) : Run Token :=
  if text = [] then r else r.call (.piece text)

/-- A token that was sampled, in a batch of its own. -/
def feedToken (r : Run Token) (token : Token) : Outcome Token (Run Token) := do
  let r ← r.clear.add token true
  let r ← r.advance
  return r.decode

/-- One token of the prompt. -/
def addPrompt (last : ℕ) (r : Run Token) (token : Token) : Outcome Token (Run Token) := do
  let r ← r.add token (decide (r.pos = last))
  r.advance

def feedChunk (w : World Token) (last : ℕ) (r : Run Token) (chunk : List Token) :
    Outcome Token (Run Token) := do
  let r ← r.ask w
  let r ← chunk.foldlM (addPrompt last) r.clear
  return r.decode

/-- The prompt, in batches.  The position of the last token of an empty prompt underflows. -/
def feedPrompt (w : World Token) (tokens : List Token) (r : Run Token) :
    Outcome Token (Run Token) :=
  if tokens = [] then .error (.panicked, r)
  else (allChunks promptBatch tokens).foldlM (feedChunk w (tokens.length - 1)) r

end Run

/-! ## The generation -/

structure Generation (Token D : Type) where
  run : Run Token
  hold : StopHold
  decoder : D
  logitsAt : ℤ
  generated : ℕ
  hitEnd : Bool

namespace Generation

variable {Token D : Type}

/-- One round of the loop.  What leaves it has `hitEnd` set. -/
def step (w : World Token) (model : LlamaModel Token D) (g : Generation Token D) :
    Outcome Token (Generation Token D) := do
  let r ← g.run.ask w
  let token := w.sampled g.generated
  let r := r.call (.sample g.logitsAt)
  if model.isEog token then
    return { g with run := r, hitEnd := true }
  let (piece, decoder) := model.decodePiece g.decoder (model.tokenToPiece token)
  if g.generated = u32Max then
    throw (.panicked, r)
  match g.hold.push piece with
  | none => throw (.panicked, r)
  | some (safe, hold) =>
    let r := r.onPiece safe
    let g := { g with run := r, hold, decoder, generated := g.generated + 1 }
    if hold.stopped.isSome then
      return { g with hitEnd := true }
    let r ← r.feedToken token
    return { g with run := r, logitsAt := r.batch.length - 1 }

/-- `while generated < budget`, for `fuel` rounds: each one counts a token or leaves the loop. -/
def loop (w : World Token) (model : LlamaModel Token D) (budget : ℕ) :
    ℕ → Generation Token D → Outcome Token (Generation Token D)
  | 0, g => .ok g
  | fuel + 1, g =>
    if g.generated < budget then do
      let g ← g.step w model
      if g.hitEnd then .ok g else loop w model budget fuel g
    else .ok g

end Generation

section Complete

variable {Token D : Type}

/-- What is done before the first call. -/
def refuse {α : Type} (x : Except Refusal α) : Outcome Token α :=
  x.mapError fun e => (e, Run.new)

def complete (w : World Token) (model : LlamaModel Token D) (contextSize : Option ℕ)
    (params : LlmParams) (tokens : List Token) : Outcome Token (Run Token × Completion) := do
  let promptTokens := tokens.length
  let nCtx := effectiveContext contextSize model.nCtxTrain
  let budget ← refuse (planBudget promptTokens params.maxTokens nCtx)
  let r ← Run.new.ask w
  let r ← r.feedPrompt w tokens
  let hold := StopHold.new (params.stop.getD [])
  let g ← Generation.loop w model budget budget
    { run := r, hold, decoder := model.newDecoder, logitsAt := r.batch.length - 1, generated := 0,
      hitEnd := false }
  match g.hold.finish with
  | none => throw (.panicked, g.run)
  | some (rest, hold) =>
    let r := g.run.onPiece rest
    let finish := finishFor g.generated budget g.hitEnd
    return (r, completionJson hold.text promptTokens g.generated finish)

end Complete

/-! ## What the calls are to be -/

section Spec

variable {Token D : Type}

def Call.entries : Call Token → List (Entry Token)
  | .decode batch => batch
  | _ => []

def Call.isSample : Call Token → Bool
  | .sample _ => true
  | _ => false

/-- All that is decoded, in order. -/
def fed (calls : List (Call Token)) : List (Entry Token) := calls.flatMap Call.entries

def samples (calls : List (Call Token)) : ℕ := calls.countP Call.isSample

/-- The batch that was decoded last. -/
def lastBatch (calls : List (Call Token)) : List (Entry Token) :=
  calls.foldl (fun last c => match c with | .decode batch => batch | _ => last) []

/-- The `i`-th token that is fed: the prompt, then what is sampled.  The last token of the prompt
is the first with logits. -/
def entry (w : World Token) (tokens : List Token) (i : ℕ) : Entry Token :=
  ⟨(tokens[i]?).getD (w.sampled (i - tokens.length)), i, decide (tokens.length ≤ i + 1)⟩

/-- What is fed are the tokens in order, each once and in its place, in batches that fit; every
sample is of the logits of the token before it. -/
structure Sound (w : World Token) (tokens : List Token) (nCtx maxTokens : ℕ)
    (calls : List (Call Token)) : Prop where
  batches : ∀ batch, .decode batch ∈ calls → batch.length ≤ promptBatch
  fed : ∃ n ≤ nCtx, fed calls = (List.range n).map (entry w tokens)
  sampled : ∀ before k, before ++ [.sample k] <+: calls → 0 ≤ k ∧
    (lastBatch before)[k.toNat]? = some (entry w tokens (tokens.length + samples before - 1))
  few : samples calls ≤ max 1 maxTokens

/-- The decoder before the `n`-th token. -/
def decoderAt (w : World Token) (model : LlamaModel Token D) : ℕ → D
  | 0 => model.newDecoder
  | n + 1 => (model.decodePiece (decoderAt w model n) (model.tokenToPiece (w.sampled n))).2

def pieceAt (w : World Token) (model : LlamaModel Token D) (n : ℕ) : Str :=
  (model.decodePiece (decoderAt w model n) (model.tokenToPiece (w.sampled n))).1

/-- The text of the first `n` tokens. -/
def textOf (w : World Token) (model : LlamaModel Token D) : ℕ → Str
  | 0 => []
  | n + 1 => textOf w model n ++ pieceAt w model n

def HasStop (params : LlmParams) (text : Str) : Prop :=
  ∃ s ∈ params.stop.getD [], s ≠ [] ∧ s <:+: text

/-- The first `n` tokens have no end token and no stop. -/
def Goes (w : World Token) (model : LlamaModel Token D) (params : LlmParams) (n : ℕ) : Prop :=
  (∀ k < n, model.isEog (w.sampled k) = false) ∧ ¬ HasStop params (textOf w model n)

/-- A run is refused, or cancelled, or answers; what it did is sound, and an answer has the whole
prompt fed, keeps to its budget, and is `length` when the budget ran out first. -/
def Good (w : World Token) (model : LlamaModel Token D) (contextSize : Option ℕ)
    (params : LlmParams) (tokens : List Token) : Outcome Token (Run Token × Completion) → Prop
  | .error (e, r) =>
    ((∃ nCtx, e = .contextOverflow tokens.length nCtx ∧ r.calls = []) ∨ e = .cancelled) ∧
      Sound w tokens (effectiveContext contextSize model.nCtxTrain) params.maxTokens r.calls
  | .ok (r, c) =>
    Sound w tokens (effectiveContext contextSize model.nCtxTrain) params.maxTokens r.calls ∧
      tokens.length ≤ (fed r.calls).length ∧ c.completionTokens ≤ max 1 params.maxTokens ∧
      ∃ budget, planBudget tokens.length params.maxTokens
          (effectiveContext contextSize model.nCtxTrain) = .ok budget ∧
        (c.finishReason = .length ↔ Goes w model params budget)

/-- Nothing ends the run before its `i`-th token is fed. -/
def Feeds (w : World Token) (model : LlamaModel Token D) (params : LlmParams)
    (tokens : List Token) (budget i : ℕ) : Prop :=
  if i < tokens.length then ∀ k < i / promptBatch + 2, w.cancelled k = false
  else i - tokens.length < budget ∧ Goes w model params (i - tokens.length + 1) ∧
    ∀ k < (tokens.length + (promptBatch - 1)) / promptBatch + (i - tokens.length) + 2,
      w.cancelled k = false

end Spec

/-! ## One call more -/

section Calls

variable {Token : Type} {w : World Token} {tokens : List Token} {nCtx maxTokens : ℕ}
variable {calls : List (Call Token)} {c : Call Token}

theorem range_append (n m : ℕ) : List.range n ++ List.range' n m = List.range (n + m) := by
  have h := @List.range'_append_1 0 n m
  rw [Nat.zero_add] at h
  rw [List.range_eq_range', List.range_eq_range', h]

theorem fed_concat : fed (calls ++ [c]) = fed calls ++ c.entries := by
  rw [fed, List.flatMap_append, List.flatMap_singleton, ← fed]

theorem samples_concat : samples (calls ++ [c]) = samples calls + if c.isSample then 1 else 0 := by
  rw [samples, List.countP_append, List.countP_singleton, ← samples]

theorem lastBatch_concat : lastBatch (calls ++ [c]) =
    match c with | .decode batch => batch | _ => lastBatch calls := by
  rw [lastBatch, List.foldl_append, List.foldl_cons, List.foldl_nil, ← lastBatch]

theorem Sound.nil : Sound w tokens nCtx maxTokens [] where
  batches := fun _ h => absurd h List.not_mem_nil
  fed := ⟨0, Nat.zero_le _, rfl⟩
  sampled := fun before k h => by
    have hlen := h.length_le
    simp at hlen
  few := Nat.zero_le _

theorem Sound.sampled_concat (h : Sound w tokens nCtx maxTokens calls) (hc : c.isSample = false)
    (before : List (Call Token)) (k : ℤ) (hpre : before ++ [.sample k] <+: calls ++ [c]) :
    0 ≤ k ∧ (lastBatch before)[k.toNat]? =
      some (entry w tokens (tokens.length + samples before - 1)) := by
  rcases List.prefix_concat_iff.mp hpre with heq | hpre
  · obtain ⟨-, hlast⟩ := List.append_inj' heq rfl
    rw [← (List.cons.inj hlast).1] at hc
    cases hc
  · exact h.sampled before k hpre

theorem Sound.piece (h : Sound w tokens nCtx maxTokens calls) (text : Str) :
    Sound w tokens nCtx maxTokens (calls ++ [.piece text]) where
  batches := fun batch hmem => by
    rcases List.mem_append.mp hmem with hmem | hmem
    · exact h.batches batch hmem
    · cases List.mem_singleton.mp hmem
  fed := by
    rw [fed_concat]
    show ∃ n ≤ nCtx, StudioWorker.Engine.fed calls ++ [] = _
    rw [List.append_nil]
    exact h.fed
  sampled := h.sampled_concat rfl
  few := by
    rw [samples_concat]
    exact h.few

/-- A batch with the tokens that come next. -/
theorem Sound.decode (h : Sound w tokens nCtx maxTokens calls) {n m : ℕ}
    (hfed : StudioWorker.Engine.fed calls = (List.range n).map (entry w tokens))
    (hctx : n + m ≤ nCtx) (hm : m ≤ promptBatch) :
    Sound w tokens nCtx maxTokens
      (calls ++ [.decode ((List.range' n m).map (entry w tokens))]) where
  batches := fun batch hmem => by
    rcases List.mem_append.mp hmem with hmem | hmem
    · exact h.batches batch hmem
    · rw [Call.decode.inj (List.mem_singleton.mp hmem), List.length_map, List.length_range']
      exact hm
  fed := by
    refine ⟨n + m, hctx, ?_⟩
    rw [fed_concat, hfed, Call.entries, ← List.map_append, range_append]
  sampled := h.sampled_concat rfl
  few := by
    rw [samples_concat]
    exact h.few

/-- A sample of the last token that was fed. -/
theorem Sound.sample (h : Sound w tokens nCtx maxTokens calls) {k : ℤ} (hk : 0 ≤ k)
    (hlast : (lastBatch calls)[k.toNat]? =
      some (entry w tokens (tokens.length + samples calls - 1)))
    (hfew : samples calls < max 1 maxTokens) :
    Sound w tokens nCtx maxTokens (calls ++ [.sample k]) where
  batches := fun batch hmem => by
    rcases List.mem_append.mp hmem with hmem | hmem
    · exact h.batches batch hmem
    · cases List.mem_singleton.mp hmem
  fed := by
    rw [fed_concat]
    show ∃ n ≤ nCtx, StudioWorker.Engine.fed calls ++ [] = _
    rw [List.append_nil]
    exact h.fed
  sampled := fun before k' hpre => by
    rcases List.prefix_concat_iff.mp hpre with heq | hpre
    · obtain ⟨rfl, hlast'⟩ := List.append_inj' heq rfl
      rw [Call.sample.inj (List.cons.inj hlast').1]
      exact ⟨hk, hlast⟩
    · exact h.sampled before k' hpre
  few := by
    rw [samples_concat]
    exact hfew

end Calls

/-! ## The prompt -/

section Prompt

variable {Token : Type} {w : World Token} {tokens : List Token} {r : Run Token}

/-- The run with the next `n` tokens in its batch. -/
def Run.fill (w : World Token) (tokens : List Token) (r : Run Token) (n : ℕ) : Run Token :=
  { r with
    pos := r.pos + n
    batch := r.batch ++ (List.range' r.pos n).map (entry w tokens) }

theorem fill_fill (n m : ℕ) : (r.fill w tokens n).fill w tokens m = r.fill w tokens (n + m) := by
  rw [Run.fill, Run.fill, Run.fill]
  dsimp only
  rw [Nat.add_assoc, List.append_assoc, ← List.map_append, List.range'_append_1]

/-- A token with its place is what the run is to feed there. -/
theorem addPrompt_eq {t : Token} (hget : tokens[r.pos]? = some t)
    (hroom : r.batch.length < promptBatch) :
    r.addPrompt (tokens.length - 1) t =
      Run.advance { r with batch := r.batch ++ [entry w tokens r.pos] } := by
  have hlt : r.pos < tokens.length := (List.getElem?_eq_some_iff.mp hget).1
  have hlast : decide (r.pos = tokens.length - 1) = decide (tokens.length ≤ r.pos + 1) := by
    refine decide_eq_decide.mpr ?_
    omega
  have hadd : r.add t (decide (r.pos = tokens.length - 1)) =
      .ok { r with batch := r.batch ++ [entry w tokens r.pos] } := by
    rw [Run.add, if_neg (by omega), entry, hget, Option.getD_some, hlast]
  rw [Run.addPrompt, hadd]
  rfl

theorem addPrompt_ok {t : Token} (hget : tokens[r.pos]? = some t)
    (hroom : r.batch.length < promptBatch) (hpos : r.pos < i32Max) :
    r.addPrompt (tokens.length - 1) t = .ok (r.fill w tokens 1) := by
  rw [addPrompt_eq hget hroom, Run.advance, if_neg (by show r.pos ≠ _; omega)]
  rfl

theorem addPrompt_panicked {t : Token} (hget : tokens[r.pos]? = some t)
    (hroom : r.batch.length < promptBatch) (hpos : r.pos = i32Max) :
    ∃ r', r.addPrompt (tokens.length - 1) t = .error (.panicked, r') := by
  refine ⟨{ r with batch := r.batch ++ [entry ⟨fun _ => true, fun _ => t⟩ tokens r.pos] }, ?_⟩
  rw [addPrompt_eq hget hroom, Run.advance, if_pos hpos]

/-- The tokens that come next in the prompt are added as they are to be fed, up to the last
position there is. -/
theorem addPrompt_foldlM (w : World Token) (ts : List Token)
    (hts : ∀ i (h : i < ts.length), tokens[r.pos + i]? = some ts[i])
    (hroom : r.batch.length + ts.length ≤ promptBatch) (hpos : r.pos ≤ i32Max) :
    (r.pos + ts.length ≤ i32Max ∧
      ts.foldlM (Run.addPrompt (tokens.length - 1)) r = .ok (r.fill w tokens ts.length)) ∨
    (i32Max < r.pos + ts.length ∧
      ∃ r', ts.foldlM (Run.addPrompt (tokens.length - 1)) r = .error (.panicked, r')) := by
  induction ts generalizing r with
  | nil =>
    refine Or.inl ⟨hpos, ?_⟩
    rw [List.foldlM_nil, List.length_nil, Run.fill, List.range'_zero, List.map_nil,
      List.append_nil]
    rfl
  | cons t ts ih =>
    rw [List.length_cons] at hroom
    have hget : tokens[r.pos]? = some t := hts 0 (Nat.succ_pos _)
    rw [List.foldlM_cons, List.length_cons]
    by_cases hmax : r.pos = i32Max
    · obtain ⟨r', hr'⟩ := addPrompt_panicked hget (by omega) hmax
      rw [hr']
      exact Or.inr ⟨by omega, r', rfl⟩
    · rw [addPrompt_ok (w := w) hget (by omega) (by omega)]
      have hts' : ∀ i (h : i < ts.length), tokens[(r.fill w tokens 1).pos + i]? = some ts[i] := by
        intro i hi
        have hnext := hts (i + 1) (Nat.succ_lt_succ hi)
        rw [List.getElem_cons_succ] at hnext
        rw [← hnext]
        show tokens[r.pos + 1 + i]? = _
        rw [Nat.add_assoc, Nat.add_comm 1 i]
      have hroom' : (r.fill w tokens 1).batch.length + ts.length ≤ promptBatch := by
        show (r.batch ++ [entry w tokens r.pos]).length + ts.length ≤ _
        rw [List.length_append, List.length_singleton]
        omega
      have hpos' : (r.fill w tokens 1).pos ≤ i32Max := by
        show r.pos + 1 ≤ i32Max
        omega
      rcases ih hts' hroom' hpos' with ⟨hle, hok⟩ | ⟨hlt, hpanic⟩
      · refine Or.inl ⟨?_, ?_⟩
        · have hle : r.pos + 1 + ts.length ≤ i32Max := hle
          omega
        · rw [fill_fill, Nat.add_comm] at hok
          exact hok
      · refine Or.inr ⟨?_, hpanic⟩
        have hlt : i32Max < r.pos + 1 + ts.length := hlt
        omega

/-- Exactly the first `p` tokens of the prompt are fed. -/
structure Prompting (w : World Token) (tokens : List Token) (nCtx maxTokens p : ℕ)
    (r : Run Token) : Prop where
  pos : r.pos = p
  asked : r.asked = (p + (promptBatch - 1)) / promptBatch + 1
  going : ∀ k < r.asked, w.cancelled k = false
  sound : Sound w tokens nCtx maxTokens r.calls
  fed : fed r.calls = (List.range p).map (entry w tokens)
  samples : samples r.calls = 0
  batch : lastBatch r.calls = r.batch
  last : 0 < p → r.batch.getLast? = some (entry w tokens (p - 1))

variable {nCtx maxTokens p : ℕ}

/-- After one batch more. -/
theorem Prompting.decode (h : Prompting w tokens nCtx maxTokens p r) (hdvd : promptBatch ∣ p)
    (hgo : w.cancelled r.asked = false) {n : ℕ} (hpos : 0 < n) (hn : n ≤ promptBatch)
    (hctx : p + n ≤ nCtx) : Prompting w tokens nCtx maxTokens (p + n)
      ((Run.clear { r with asked := r.asked + 1 }).fill w tokens n).decode := by
  have hbatch : (((Run.clear { r with asked := r.asked + 1 }).fill w tokens n).decode).batch =
      (List.range' p n).map (entry w tokens) := by
    show [] ++ (List.range' r.pos n).map _ = _
    rw [List.nil_append, h.pos]
  have hcalls : (((Run.clear { r with asked := r.asked + 1 }).fill w tokens n).decode).calls =
      r.calls ++ [.decode ((List.range' p n).map (entry w tokens))] := by
    show r.calls ++ [.decode ([] ++ (List.range' r.pos n).map _)] = _
    rw [List.nil_append, h.pos]
  constructor
  · show r.pos + n = p + n
    rw [h.pos]
  · show r.asked + 1 = _
    rw [h.asked]
    obtain ⟨q, rfl⟩ := hdvd
    rw [promptBatch] at hn ⊢
    omega
  · intro k hk
    rcases Nat.lt_succ_iff_lt_or_eq.mp hk with hk | rfl
    · exact h.going k hk
    · exact hgo
  · rw [hcalls]
    exact h.sound.decode h.fed hctx hn
  · rw [hcalls, fed_concat, h.fed, Call.entries, ← List.map_append, range_append]
  · rw [hcalls, samples_concat, h.samples]
    rfl
  · rw [hcalls, lastBatch_concat, hbatch]
  · intro _
    obtain ⟨m, rfl⟩ : ∃ m, n = m + 1 := ⟨n - 1, by omega⟩
    rw [hbatch, List.range'_concat, List.map_append, Nat.one_mul]
    exact List.getLast?_concat

/-- One batch: it is cancelled, or decoded, or the positions end in it. -/
theorem feedChunk_cases (h : Prompting w tokens nCtx maxTokens p r) (hdvd : promptBatch ∣ p)
    (hp : p < tokens.length) (hmax : p ≤ i32Max) (hctx : tokens.length ≤ nCtx) {n : ℕ}
    (hn : n = min promptBatch (tokens.length - p)) :
    (w.cancelled r.asked = true ∧
      Run.feedChunk w (tokens.length - 1) r ((tokens.drop p).take promptBatch) =
        .error (.cancelled, r)) ∨
    (p + n ≤ i32Max ∧ ∃ r',
      Run.feedChunk w (tokens.length - 1) r ((tokens.drop p).take promptBatch) = .ok r' ∧
      Prompting w tokens nCtx maxTokens (p + n) r') ∨
    (w.cancelled r.asked = false ∧ i32Max < p + n ∧ ∃ r',
      Run.feedChunk w (tokens.length - 1) r ((tokens.drop p).take promptBatch) =
        .error (.panicked, r')) := by
  rcases hask : w.cancelled r.asked with _ | _
  swap
  · refine Or.inl ⟨rfl, ?_⟩
    rw [Run.feedChunk, Run.ask, if_pos hask]
    rfl
  have hlen : ((tokens.drop p).take promptBatch).length = n := by
    rw [List.length_take, List.length_drop, hn]
  have hfeed : Run.feedChunk w (tokens.length - 1) r ((tokens.drop p).take promptBatch) =
      (((tokens.drop p).take promptBatch).foldlM (Run.addPrompt (tokens.length - 1))
        (Run.clear { r with asked := r.asked + 1 })).bind fun r => .ok r.decode := by
    rw [Run.feedChunk, Run.ask, if_neg (by rw [hask]; exact Bool.false_ne_true)]
    rfl
  have hts : ∀ i (hi : i < ((tokens.drop p).take promptBatch).length),
      tokens[(Run.clear { r with asked := r.asked + 1 }).pos + i]? =
        some ((tokens.drop p).take promptBatch)[i] := by
    intro i hi
    rw [List.getElem_take, List.getElem_drop]
    show tokens[r.pos + i]? = _
    rw [h.pos]
    exact List.getElem?_eq_getElem _
  have hroom : (Run.clear { r with asked := r.asked + 1 }).batch.length +
      ((tokens.drop p).take promptBatch).length ≤ promptBatch := by
    rw [hlen, hn]
    show 0 + _ ≤ _
    omega
  have hpos : (Run.clear { r with asked := r.asked + 1 }).pos ≤ i32Max := by
    show r.pos ≤ i32Max
    rw [h.pos]
    exact hmax
  rw [hfeed]
  rcases addPrompt_foldlM w _ hts hroom hpos with ⟨hle, hok⟩ | ⟨hlt, r', hpanic⟩
  · rw [hlen, show (Run.clear { r with asked := r.asked + 1 }).pos = p from h.pos] at hle
    refine Or.inr (Or.inl ⟨hle, _, by rw [hok]; rfl, ?_⟩)
    rw [hlen]
    have hpos : 0 < promptBatch := by decide
    exact h.decode hdvd hask (by omega) (by omega) (by omega)
  · rw [hlen, show (Run.clear { r with asked := r.asked + 1 }).pos = p from h.pos] at hlt
    exact Or.inr (Or.inr ⟨rfl, hlt, r', by rw [hpanic]; rfl⟩)

/-- The prompt: all of it is fed, or it is cancelled at a batch that the positions reach, or they
end in it. -/
theorem feedChunks_cases (h : Prompting w tokens nCtx maxTokens p r)
    (hdvd : p = tokens.length ∨ promptBatch ∣ p) (hp : p ≤ tokens.length) (hmax : p ≤ i32Max)
    (hctx : tokens.length ≤ nCtx) :
    (tokens.length ≤ i32Max ∧ ∃ r',
      (allChunks promptBatch (tokens.drop p)).foldlM (Run.feedChunk w (tokens.length - 1)) r =
        .ok r' ∧ Prompting w tokens nCtx maxTokens tokens.length r') ∨
    ((∃ k, w.cancelled k = true ∧ k ≤ i32Max / promptBatch + 1 ∧
        k ≤ (tokens.length - 1) / promptBatch + 1) ∧ ∃ r',
      (allChunks promptBatch (tokens.drop p)).foldlM (Run.feedChunk w (tokens.length - 1)) r =
        .error (.cancelled, r') ∧ Sound w tokens nCtx maxTokens r'.calls) ∨
    (i32Max < tokens.length ∧ (∀ k < i32Max / promptBatch + 2, w.cancelled k = false) ∧ ∃ r',
      (allChunks promptBatch (tokens.drop p)).foldlM (Run.feedChunk w (tokens.length - 1)) r =
        .error (.panicked, r')) := by
  induction hleft : tokens.length - p using Nat.strong_induction_on generalizing p r with
  | _ left ih =>
  rcases Nat.eq_or_lt_of_le hp with rfl | hlt
  · refine Or.inl ⟨hmax, r, ?_, h⟩
    rw [List.drop_length, allChunks_nil]
    rfl
  have hdvd : promptBatch ∣ p := hdvd.resolve_left hlt.ne
  have hdrop : tokens.drop p ≠ [] := by
    rw [Ne, List.drop_eq_nil_iff, Nat.not_le]
    exact hlt
  have hbatch : 0 < promptBatch := by decide
  have hasked : r.asked = p / promptBatch + 1 := by
    rw [h.asked]
    obtain ⟨q, rfl⟩ := hdvd
    rw [promptBatch]
    omega
  rw [allChunks_of_ne_nil hbatch hdrop, List.foldlM_cons, List.drop_drop]
  rcases feedChunk_cases h hdvd hlt hmax hctx rfl with ⟨hask, heq⟩ | ⟨hle, r', heq, h'⟩ |
    ⟨hask, hover, r', heq⟩
  · refine Or.inr (Or.inl ⟨⟨r.asked, hask, ?_, ?_⟩, r, ?_, h.sound⟩)
    · rw [hasked]
      exact Nat.succ_le_succ (Nat.div_le_div_right hmax)
    · rw [hasked]
      exact Nat.succ_le_succ (Nat.div_le_div_right (by omega))
    · rw [heq]
      rfl
  · have hdvd' : p + min promptBatch (tokens.length - p) = tokens.length ∨
        promptBatch ∣ p + min promptBatch (tokens.length - p) := by
      rcases Nat.le_total promptBatch (tokens.length - p) with hle | hle
      · rw [Nat.min_eq_left hle]
        exact Or.inr (Nat.dvd_add_self_right.mpr hdvd)
      · rw [Nat.min_eq_right hle]
        exact Or.inl (by omega)
    have hrest : tokens.drop (p + promptBatch) =
        tokens.drop (p + min promptBatch (tokens.length - p)) := by
      rcases Nat.le_total promptBatch (tokens.length - p) with hle | hle
      · rw [Nat.min_eq_left hle]
      · rw [Nat.min_eq_right hle, List.drop_eq_nil_of_le (by omega),
          List.drop_eq_nil_of_le (by omega)]
    rw [heq, hrest]
    exact ih _ (by omega) h' hdvd' (by omega) hle rfl
  · refine Or.inr (Or.inr ⟨by omega, fun k hk => ?_, r', by rw [heq]; rfl⟩)
    have hlast : k < r.asked + 1 := by
      rw [hasked]
      obtain ⟨q, rfl⟩ := hdvd
      rw [i32Max, promptBatch] at *
      omega
    rcases Nat.lt_succ_iff_lt_or_eq.mp hlast with hk | rfl
    · exact h.going k hk
    · exact hask

end Prompt

end StudioWorker.Engine
