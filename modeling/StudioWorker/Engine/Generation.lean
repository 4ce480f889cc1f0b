import StudioWorker.Engine.Complete

/-!
# Engine.Generation — the rounds of a completion, and its end (`engine/llama.rs`)

* `step_cases`, `loop_cases`: what one round can do, and the whole loop.
* `complete_good_iff`: which runs are good.
-/

namespace StudioWorker.Engine

open Text Lib.Chunks

/-! ## The generation -/

section Generate

variable {Token D : Type} {w : World Token} {model : LlamaModel Token D} {params : LlmParams}
variable {tokens : List Token} {nCtx j budget : ℕ} {g : Generation Token D}

theorem not_hasStop_iff {text : Str} :
    ¬ HasStop params text ↔
      Lib.Search.cut ((params.stop.getD []).filter (· ≠ [])) text = none := by
  rw [Lib.Search.cut_eq_none]
  constructor
  · intro h s hs hin
    obtain ⟨hs, hne⟩ := List.mem_filter.mp hs
    exact h ⟨s, hs, of_decide_eq_true hne, hin⟩
  · rintro h ⟨s, hs, hne, hin⟩
    exact h s (List.mem_filter.mpr ⟨hs, decide_eq_true hne⟩) hin

/-- Exactly `j` tokens are sampled and fed, and none of them ended the run. -/
structure Generating (w : World Token) (model : LlamaModel Token D) (params : LlmParams)
    (tokens : List Token) (nCtx j : ℕ) (g : Generation Token D) : Prop where
  generated : g.generated = j
  hitEnd : g.hitEnd = false
  pos : g.run.pos = tokens.length + j
  asked : g.run.asked = (tokens.length + (promptBatch - 1)) / promptBatch + 1 + j
  going : ∀ k < g.run.asked, w.cancelled k = false
  unended : ∀ k < j, model.isEog (w.sampled k) = false
  decoder : g.decoder = decoderAt w model j
  hold : ∃ r q, r ++ q = textOf w model j ∧
    StopHold.Live ((params.stop.getD []).filter (· ≠ [])) r q g.hold
  sound : Sound w tokens nCtx params.maxTokens g.run.calls
  fed : fed g.run.calls = (List.range (tokens.length + j)).map (entry w tokens)
  samples : samples g.run.calls = j
  batch : lastBatch g.run.calls = g.run.batch
  last : g.run.batch.getLast? = some (entry w tokens (tokens.length + j - 1))
  logitsAt : g.logitsAt = g.run.batch.length - 1

/-- The run of `g` after its next sample. -/
def Generation.afterSample (g : Generation Token D) : Run Token :=
  Run.call { g.run with asked := g.run.asked + 1 } (.sample g.logitsAt)

theorem step_cancelled (hask : w.cancelled g.run.asked = true) :
    g.step w model = .error (.cancelled, g.run) := by
  rw [Generation.step, Run.ask, if_pos hask]
  rfl

theorem step_eog (hask : w.cancelled g.run.asked = false)
    (heog : model.isEog (w.sampled g.generated) = true) :
    g.step w model = .ok { g with run := g.afterSample, hitEnd := true } := by
  rw [Generation.step, Run.ask, if_neg (by rw [hask]; exact Bool.false_ne_true)]
  show (if model.isEog _ = true then _ else _) = _
  rw [if_pos heog]
  rfl

theorem step_push (hask : w.cancelled g.run.asked = false)
    (heog : model.isEog (w.sampled g.generated) = false) (hgen : g.generated ≠ u32Max)
    {safe : Str} {hold : StopHold}
    (hpush : g.hold.push (model.decodePiece g.decoder
      (model.tokenToPiece (w.sampled g.generated))).1 = some (safe, hold)) :
    g.step w model =
      let g' : Generation Token D := { g with
        run := g.afterSample.onPiece safe
        hold := hold
        decoder := (model.decodePiece g.decoder (model.tokenToPiece (w.sampled g.generated))).2
        generated := g.generated + 1 }
      if hold.stopped.isSome then .ok { g' with hitEnd := true }
      else (g'.run.feedToken (w.sampled g.generated)).bind fun r =>
        .ok { g' with run := r, logitsAt := r.batch.length - 1 } := by
  rw [Generation.step, Run.ask, if_neg (by rw [hask]; exact Bool.false_ne_true)]
  show (if model.isEog _ = true then _ else _) = _
  rw [if_neg (by rw [heog]; exact Bool.false_ne_true)]
  show (if g.generated = u32Max then _ else _) = _
  rw [if_neg hgen]
  dsimp only
  rw [hpush]
  dsimp only
  split_ifs <;> rfl

/-- One piece more: it is held and released, or the text is cut by a stop. -/
theorem hold_push {S : List Str} {text : Str} {hold : StopHold}
    (h : ∃ r q, r ++ q = text ∧ StopHold.Live S r q hold) (p : Str) :
    (∃ safe hold', hold.push p = some (safe, hold') ∧ hold'.stopped.isSome = false ∧
      Lib.Search.cut S (text ++ p) = none ∧
        ∃ r q, r ++ q = text ++ p ∧ StopHold.Live S r q hold') ∨
    (∃ safe hold', hold.push p = some (safe, hold') ∧ hold'.stopped.isSome = true ∧
      Lib.Search.cut S (text ++ p) ≠ none ∧ hold'.finish.isSome = true) := by
  obtain ⟨r, q, rfl, hlive⟩ := h
  have hcut : Lib.Search.cut S (r ++ q ++ p) = (Lib.Search.cut S (q ++ p)).map (r ++ ·) := by
    rw [List.append_assoc]
    exact (hlive.quiet.append p).cut
  rcases hc : Lib.Search.cut S (q ++ p) with _ | a
  · obtain ⟨x, y, hold', hxy, hpush, hlive'⟩ := StopHold.push_live hlive hc
    have hstopped : hold'.stopped.isSome = false := by
      rw [hlive'.stopped]
      rfl
    refine Or.inl ⟨x, hold', hpush, hstopped, ?_, r ++ x, y, ?_, hlive'⟩
    · rw [hcut, hc]
      rfl
    · rw [List.append_assoc, ← hxy, List.append_assoc]
  · obtain ⟨hold', hpush, hstop⟩ := StopHold.push_cut hlive hc
    have hfinish := StopHold.finish_eq (by rw [hstop.out, List.append_nil] : hold'.out = _ ++ [])
      hstop.emitted
    refine Or.inr ⟨a, hold', hpush, ?_, ?_, ?_⟩
    · rw [hstop.stopped]
      rfl
    · rw [hcut, hc]
      exact Option.some_ne_none _
    · rw [hfinish]
      rfl

section OnPiece

variable {r : Run Token} {text : Str}

theorem onPiece_calls : (r.onPiece text).calls = r.calls ∨
    (r.onPiece text).calls = r.calls ++ [.piece text] := by
  rw [Run.onPiece]
  split_ifs
  · exact Or.inl rfl
  · exact Or.inr rfl

@[simp] theorem pos_onPiece : (r.onPiece text).pos = r.pos := by
  rw [Run.onPiece]
  split_ifs <;> rfl

@[simp] theorem asked_onPiece : (r.onPiece text).asked = r.asked := by
  rw [Run.onPiece]
  split_ifs <;> rfl

@[simp] theorem fed_onPiece : fed (r.onPiece text).calls = fed r.calls := by
  rcases @onPiece_calls _ r text with h | h
  · rw [h]
  · rw [h, fed_concat]
    exact List.append_nil _

@[simp] theorem samples_onPiece : samples (r.onPiece text).calls = samples r.calls := by
  rcases @onPiece_calls _ r text with h | h
  · rw [h]
  · rw [h, samples_concat]
    rfl

theorem sound_onPiece {maxTokens : ℕ} (h : Sound w tokens nCtx maxTokens r.calls) :
    Sound w tokens nCtx maxTokens (r.onPiece text).calls := by
  rcases @onPiece_calls _ r text with heq | heq
  · rw [heq]
    exact h
  · rw [heq]
    exact h.piece text

end OnPiece

theorem feedToken_ok {r : Run Token} (token : Token) (h : r.pos ≠ i32Max) :
    r.feedToken token =
      .ok (Run.decode { r with pos := r.pos + 1, batch := [⟨token, r.pos, true⟩] }) := by
  have hadd : r.clear.add token true = .ok { r with batch := [⟨token, r.pos, true⟩] } := rfl
  have hadvance : Run.advance { r with batch := [⟨token, r.pos, true⟩] } =
      .ok { r with pos := r.pos + 1, batch := [⟨token, r.pos, true⟩] } := if_neg h
  rw [Run.feedToken, hadd]
  show (Run.advance _).bind _ = _
  rw [hadvance]
  rfl

theorem feedToken_panicked {r : Run Token} (token : Token) (h : r.pos = i32Max) :
    ∃ r', r.feedToken token = .error (.panicked, r') := by
  have hadd : r.clear.add token true = .ok { r with batch := [⟨token, r.pos, true⟩] } := rfl
  have hadvance : Run.advance { r with batch := [⟨token, r.pos, true⟩] } =
      .error (.panicked, { r with batch := [⟨token, r.pos, true⟩] }) := if_pos h
  refine ⟨{ r with batch := [⟨token, r.pos, true⟩] }, ?_⟩
  rw [Run.feedToken, hadd]
  show (Run.advance _).bind _ = _
  rw [hadvance]
  rfl

theorem entry_sampled (w : World Token) (tokens : List Token) (j : ℕ) :
    entry w tokens (tokens.length + j) = ⟨w.sampled j, tokens.length + j, true⟩ := by
  have hget : tokens[tokens.length + j]? = none := List.getElem?_eq_none (Nat.le_add_right _ _)
  have hlast : decide (tokens.length ≤ tokens.length + j + 1) = true :=
    decide_eq_true (by omega)
  rw [entry, hget, Option.getD_none, Nat.add_sub_cancel_left, hlast]

/-- The sample is of the token that was fed last. -/
theorem Generating.sound_sample (h : Generating w model params tokens nCtx j g)
    (hfew : j < max 1 params.maxTokens) :
    Sound w tokens nCtx params.maxTokens g.afterSample.calls := by
  have hne : g.run.batch ≠ [] := by
    intro hnil
    have hlast := h.last
    rw [hnil] at hlast
    cases hlast
  have hpos := List.length_pos_iff.mpr hne
  refine h.sound.sample ?_ ?_ ?_
  · rw [h.logitsAt]
    omega
  · have hnat : g.logitsAt.toNat = g.run.batch.length - 1 := by
      rw [h.logitsAt]
      omega
    rw [h.batch, hnat, h.samples, ← List.getLast?_eq_getElem?, h.last]
  · rw [h.samples]
    exact hfew

/-- What is left where the loop ends, after at most `n` tokens. -/
structure Ended (w : World Token) (tokens : List Token) (nCtx maxTokens n : ℕ)
    (g : Generation Token D) : Prop where
  sound : Sound w tokens nCtx maxTokens g.run.calls
  whole : tokens.length ≤ (fed g.run.calls).length
  generated : g.generated ≤ n
  finish : g.hold.finish.isSome = true

theorem Generating.whole (h : Generating w model params tokens nCtx j g) :
    tokens.length ≤ (StudioWorker.Engine.fed g.run.calls).length := by
  rw [h.fed, List.length_map, List.length_range]
  exact Nat.le_add_right _ _

theorem Generating.finish (h : Generating w model params tokens nCtx j g) :
    g.hold.finish.isSome = true := by
  obtain ⟨r, q, -, hlive⟩ := h.hold
  rw [StopHold.finish_eq hlive.out hlive.emitted]
  rfl

theorem fed_afterSample : fed g.afterSample.calls = fed g.run.calls := by
  rw [Generation.afterSample, Run.call, fed_concat]
  exact List.append_nil _

theorem goes_succ (h : Generating w model params tokens nCtx j g)
    (heog : model.isEog (w.sampled j) = false)
    (hcut : Lib.Search.cut ((params.stop.getD []).filter (· ≠ []))
      (textOf w model (j + 1)) = none) :
    Goes w model params (j + 1) := by
  refine ⟨fun k hk => ?_, not_hasStop_iff.mpr hcut⟩
  rcases Nat.lt_succ_iff_lt_or_eq.mp hk with hk | rfl
  · exact h.unended k hk
  · exact heog

/-- The token was fed, and the next one can be sampled. -/
theorem Generating.succ (h : Generating w model params tokens nCtx j g)
    (hask : w.cancelled g.run.asked = false) (heog : model.isEog (w.sampled j) = false)
    (hfew : j < max 1 params.maxTokens) (hctx : tokens.length + j < nCtx) (safe : Str)
    {hold : StopHold}
    (hhold : ∃ r q, r ++ q = textOf w model (j + 1) ∧
      StopHold.Live ((params.stop.getD []).filter (· ≠ [])) r q hold) :
    let r := Run.decode { (g.afterSample.onPiece safe) with
      pos := (g.afterSample.onPiece safe).pos + 1
      batch := [⟨w.sampled j, (g.afterSample.onPiece safe).pos, true⟩] }
    Generating w model params tokens nCtx (j + 1) { g with
      run := r
      hold := hold
      decoder := (model.decodePiece g.decoder (model.tokenToPiece (w.sampled j))).2
      generated := g.generated + 1
      logitsAt := r.batch.length - 1 } := by
  have hpos : (g.afterSample.onPiece safe).pos = tokens.length + j := by
    rw [pos_onPiece]
    exact h.pos
  have hbatch : ([⟨w.sampled j, (g.afterSample.onPiece safe).pos, true⟩] : List (Entry Token)) =
      (List.range' (tokens.length + j) 1).map (entry w tokens) := by
    rw [hpos, ← entry_sampled]
    rfl
  have hfed : StudioWorker.Engine.fed (g.afterSample.onPiece safe).calls =
      (List.range (tokens.length + j)).map (entry w tokens) := by
    rw [fed_onPiece, fed_afterSample, h.fed]
  intro r
  have hcalls : r.calls = (g.afterSample.onPiece safe).calls ++
      [.decode ((List.range' (tokens.length + j) 1).map (entry w tokens))] := by
    rw [← hbatch]
    rfl
  constructor
  · show g.generated + 1 = j + 1
    rw [h.generated]
  · exact h.hitEnd
  · show (g.afterSample.onPiece safe).pos + 1 = _
    rw [hpos, Nat.add_assoc]
  · show (g.afterSample.onPiece safe).asked = _
    rw [asked_onPiece]
    show g.run.asked + 1 = _
    rw [h.asked, Nat.add_assoc]
  · show ∀ k < (g.afterSample.onPiece safe).asked, _
    rw [asked_onPiece]
    intro k hk
    rcases Nat.lt_succ_iff_lt_or_eq.mp hk with hk | rfl
    · exact h.going k hk
    · exact hask
  · intro k hk
    rcases Nat.lt_succ_iff_lt_or_eq.mp hk with hk | rfl
    · exact h.unended k hk
    · exact heog
  · show (model.decodePiece g.decoder _).2 = _
    rw [h.decoder]
    rfl
  · exact hhold
  · show Sound w tokens nCtx params.maxTokens r.calls
    rw [hcalls]
    exact (sound_onPiece (h.sound_sample hfew)).decode hfed (by omega) (by decide)
  · show StudioWorker.Engine.fed r.calls = _
    rw [hcalls, fed_concat, hfed, Call.entries, ← List.map_append, range_append, Nat.add_assoc]
  · show StudioWorker.Engine.samples r.calls = _
    rw [hcalls, samples_concat, samples_onPiece, Generation.afterSample, Run.call, samples_concat]
    show StudioWorker.Engine.samples g.run.calls + 1 = _
    rw [h.samples]
  · show lastBatch r.calls = r.batch
    rw [hcalls, lastBatch_concat]
    exact hbatch.symm
  · show [(⟨w.sampled j, (g.afterSample.onPiece safe).pos, true⟩ : Entry Token)].getLast? = _
    rw [hpos, ← entry_sampled]
    rfl
  · rfl

/-- One round: it is cancelled, or ends the loop, or feeds its token, or the positions end. -/
theorem step_cases (h : Generating w model params tokens nCtx j g) (hgen : j < u32Max)
    (hfew : j < max 1 params.maxTokens) (hctx : tokens.length + j < nCtx)
    (hmax : tokens.length + j ≤ i32Max) :
    (w.cancelled g.run.asked = true ∧ g.step w model = .error (.cancelled, g.run)) ∨
    (¬ Goes w model params (j + 1) ∧ ∃ g', g.step w model = .ok g' ∧ g'.hitEnd = true ∧
      Ended w tokens nCtx params.maxTokens (j + 1) g') ∨
    (tokens.length + j < i32Max ∧ ∃ g', g.step w model = .ok g' ∧
      Generating w model params tokens nCtx (j + 1) g') ∨
    (tokens.length + j = i32Max ∧ w.cancelled g.run.asked = false ∧ Goes w model params (j + 1) ∧
      ∃ r', g.step w model = .error (.panicked, r')) := by
  rcases hask : w.cancelled g.run.asked with _ | _
  swap
  · exact Or.inl ⟨rfl, step_cancelled hask⟩
  rcases heog : model.isEog (w.sampled j) with _ | _
  swap
  · refine Or.inr (Or.inl ⟨fun hgoes => ?_, _, step_eog hask (by rw [h.generated]; exact heog),
      rfl, h.sound_sample hfew, ?_, ?_, h.finish⟩)
    · rw [hgoes.1 j (Nat.lt_succ_self j)] at heog
      cases heog
    · rw [fed_afterSample]
      exact h.whole
    · show g.generated ≤ j + 1
      rw [h.generated]
      exact Nat.le_succ j
  have hpiece : (model.decodePiece g.decoder (model.tokenToPiece (w.sampled g.generated))).1 =
      pieceAt w model j := by
    rw [h.decoder, h.generated, pieceAt]
  have heog' : model.isEog (w.sampled g.generated) = false := by rw [h.generated]; exact heog
  have hgen' : g.generated ≠ u32Max := by
    rw [h.generated]
    exact hgen.ne
  rcases hold_push h.hold (pieceAt w model j) with
    ⟨safe, hold, hpush, hstopped, hcut, hhold⟩ | ⟨safe, hold, hpush, hstopped, hcut, hfinish⟩
  · have hgoes := goes_succ h heog hcut
    have hstep := step_push hask heog' hgen' (hpiece ▸ hpush)
    dsimp only at hstep
    rw [if_neg (by rw [hstopped]; exact Bool.false_ne_true), h.generated] at hstep
    have hpos : (g.afterSample.onPiece safe).pos = tokens.length + j := by
      rw [pos_onPiece]
      exact h.pos
    rcases Nat.eq_or_lt_of_le hmax with heq | hlt
    · obtain ⟨r', hr'⟩ := feedToken_panicked (w.sampled j) (hpos.trans heq)
      refine Or.inr (Or.inr (Or.inr ⟨heq, rfl, hgoes, r', ?_⟩))
      rw [hstep, hr']
      rfl
    · have hfeed := feedToken_ok (w.sampled j) (by rw [hpos]; exact hlt.ne)
      have hsucc := h.succ hask heog hfew hctx safe hhold
      rw [hfeed] at hstep
      refine Or.inr (Or.inr (Or.inl ⟨hlt, _, hstep, ?_⟩))
      rw [h.generated] at hsucc
      exact hsucc
  · have hstep := step_push hask heog' hgen' (hpiece ▸ hpush)
    dsimp only at hstep
    rw [if_pos hstopped] at hstep
    refine Or.inr (Or.inl ⟨fun hgoes => hcut (not_hasStop_iff.mp hgoes.2), _, hstep, rfl,
      sound_onPiece (h.sound_sample hfew), ?_, ?_, hfinish⟩)
    · dsimp only
      rw [fed_onPiece, fed_afterSample]
      exact h.whole
    · show g.generated + 1 ≤ j + 1
      rw [h.generated]

theorem textOf_mono {n m : ℕ} (h : n ≤ m) : textOf w model n <+: textOf w model m := by
  induction m, h using Nat.le_induction with
  | base => exact List.prefix_rfl
  | succ m _ ih => exact ih.trans (List.prefix_append _ _)

theorem Goes.mono {n m : ℕ} (h : Goes w model params m) (hle : n ≤ m) :
    Goes w model params n := by
  refine ⟨fun k hk => h.1 k (hk.trans_le hle), ?_⟩
  rintro ⟨s, hs, hne, hin⟩
  exact h.2 ⟨s, hs, hne, hin.trans (textOf_mono hle).isInfix⟩

theorem Generating.goes (h : Generating w model params tokens nCtx j g) :
    Goes w model params j := by
  obtain ⟨r, q, heq, hlive⟩ := h.hold
  refine ⟨h.unended, not_hasStop_iff.mpr ?_⟩
  rw [← heq, hlive.quiet.cut, hlive.clean]
  rfl

/-- Where the prompt leaves positions, the last one is fed by the generation. -/
theorem feeds_last (h : tokens.length ≤ i32Max) :
    Feeds w model params tokens budget i32Max ↔
      i32Max - tokens.length < budget ∧ Goes w model params (i32Max - tokens.length + 1) ∧
      ∀ k < (tokens.length + (promptBatch - 1)) / promptBatch + (i32Max - tokens.length) + 2,
        w.cancelled k = false := by
  rw [Feeds, if_neg (Nat.not_lt.mpr h)]

/-- The loop: it ends, or is cancelled, before the positions do, or they end in it. -/
theorem loop_cases (fuel : ℕ) (h : Generating w model params tokens nCtx j g)
    (hfuel : j + fuel = budget) (hbudget : budget ≤ u32Max)
    (hfew : budget ≤ max 1 params.maxTokens) (hctx : tokens.length + budget ≤ nCtx)
    (hmax : tokens.length + j ≤ i32Max) :
    (¬ Feeds w model params tokens budget i32Max ∧ ∃ g',
      Generation.loop w model budget fuel g = .ok g' ∧
      Ended w tokens nCtx params.maxTokens budget g' ∧
      (finishFor g'.generated budget g'.hitEnd = .length ↔ Goes w model params budget)) ∨
    (¬ Feeds w model params tokens budget i32Max ∧ ∃ r',
      Generation.loop w model budget fuel g = .error (.cancelled, r') ∧
      Sound w tokens nCtx params.maxTokens r'.calls) ∨
    (Feeds w model params tokens budget i32Max ∧ ∃ r',
      Generation.loop w model budget fuel g = .error (.panicked, r')) := by
  have hprompt : tokens.length ≤ i32Max := by omega
  induction fuel generalizing j g with
  | zero =>
    have hj : j = budget := hfuel
    subst hj
    refine Or.inl ⟨fun hfeeds => ?_, g, rfl,
      ⟨h.sound, h.whole, h.generated.le, h.finish⟩, iff_of_true ?_ h.goes⟩
    · have hlt := ((feeds_last hprompt).mp hfeeds).1
      omega
    · rw [finishFor, h.hitEnd, h.generated, decide_eq_true le_rfl]
      rfl
  | succ fuel ih =>
    have hloop : Generation.loop w model budget (fuel + 1) g =
        (g.step w model).bind fun g =>
          if g.hitEnd then .ok g else Generation.loop w model budget fuel g := by
      rw [Generation.loop, if_pos (by rw [h.generated]; omega)]
      rfl
    rw [hloop]
    rcases step_cases h (by omega) (by omega) (by omega) hmax with ⟨hask, hstep⟩ |
      ⟨hgoes, g', hstep, hend, hended⟩ | ⟨hlt, g', hstep, hnext⟩ | ⟨heq, hask, hgoes, r', hstep⟩
    · refine Or.inr (Or.inl ⟨fun hfeeds => ?_, g.run, by rw [hstep]; rfl, h.sound⟩)
      have hall := ((feeds_last hprompt).mp hfeeds).2.2 g.run.asked (by rw [h.asked]; omega)
      rw [hask] at hall
      cases hall
    · refine Or.inl ⟨fun hfeeds => ?_, g', ?_, ?_, ?_⟩
      · exact hgoes (((feeds_last hprompt).mp hfeeds).2.1.mono (by omega))
      · rw [hstep]
        exact if_pos hend
      · exact ⟨hended.sound, hended.whole, hended.generated.trans (by omega), hended.finish⟩
      · refine iff_of_false ?_ fun hall => hgoes (hall.mono (by omega))
        rw [finishFor, hend]
        exact fun hne => by cases hne
    · have hrest : (g.step w model).bind (fun g =>
          if g.hitEnd then .ok g else Generation.loop w model budget fuel g) =
            Generation.loop w model budget fuel g' := by
        rw [hstep]
        exact if_neg (by rw [hnext.hitEnd]; exact Bool.false_ne_true)
      rw [hrest]
      exact ih hnext (by omega) (by omega)
    · refine Or.inr (Or.inr ⟨(feeds_last hprompt).mpr ⟨by omega, ?_, fun k hk => ?_⟩, r', ?_⟩)
      · exact hgoes.mono (by omega)
      · have hlt : k < g.run.asked + 1 := by
          rw [h.asked]
          omega
        rcases Nat.lt_succ_iff_lt_or_eq.mp hlt with hk | rfl
        · exact h.going k hk
        · exact hask
      · rw [hstep]
        rfl

end Generate

/-! ## A whole completion -/

section Whole

variable {Token D : Type} {w : World Token} {model : LlamaModel Token D} {params : LlmParams}
variable {contextSize : Option ℕ} {tokens : List Token} {budget nCtx maxTokens : ℕ}

theorem planBudget_ok (h : planBudget tokens.length maxTokens nCtx = .ok budget) :
    budget ≤ u32Max ∧ budget ≤ max 1 maxTokens ∧ tokens.length + budget ≤ nCtx := by
  rw [planBudget] at h
  by_cases hle : tokens.length < nCtx
  · rw [if_pos hle.le, Option.filter_some, if_pos (decide_eq_true (Nat.sub_pos_of_lt hle))] at h
    have hbudget := Except.ok.inj h
    omega
  · exfalso
    by_cases heq : tokens.length = nCtx
    · rw [if_pos heq.le, heq, Nat.sub_self] at h
      cases h
    · rw [if_neg (by omega)] at h
      cases h

theorem planBudget_error {e : Refusal} (h : planBudget tokens.length maxTokens nCtx = .error e) :
    e = .contextOverflow tokens.length nCtx := by
  rw [planBudget] at h
  split at h
  · cases h
  · exact (Except.error.inj h).symm

theorem feeds_zero (h : Feeds w model params tokens budget i32Max) : w.cancelled 0 = false := by
  rw [Feeds] at h
  split_ifs at h
  · exact h 0 (Nat.succ_pos _)
  · exact h.2.2 0 (Nat.succ_pos _)

theorem not_good_panicked {r : Run Token} :
    ¬ Good w model contextSize params tokens (.error (.panicked, r)) := by
  rintro ⟨⟨nCtx, h, -⟩ | h, -⟩
  · cases h
  · cases h

theorem good_cancelled {r : Run Token}
    (h : Sound w tokens (effectiveContext contextSize model.nCtxTrain) params.maxTokens r.calls) :
    Good w model contextSize params tokens (.error (.cancelled, r)) := ⟨Or.inr rfl, h⟩

/-- What `complete` is once its budget is planned and nothing was cancelled. -/
theorem complete_eq (hplan : planBudget tokens.length params.maxTokens
    (effectiveContext contextSize model.nCtxTrain) = .ok budget) (hask : w.cancelled 0 = false) :
    complete w model contextSize params tokens =
      (Run.feedPrompt w tokens ⟨1, 0, [], []⟩).bind fun r =>
        (Generation.loop w model budget budget
          ⟨r, StopHold.new (params.stop.getD []), model.newDecoder, r.batch.length - 1, 0,
            false⟩).bind fun g =>
          match g.hold.finish with
          | none => .error (.panicked, g.run)
          | some (rest, hold) =>
            .ok (g.run.onPiece rest, completionJson hold.text tokens.length g.generated
              (finishFor g.generated budget g.hitEnd)) := by
  have hfirst : Run.new.ask w = .ok ⟨1, 0, [], []⟩ :=
    if_neg (by show ¬ w.cancelled 0 = true; rw [hask]; exact Bool.false_ne_true)
  rw [complete]
  dsimp only
  rw [hplan]
  show (Run.new.ask w).bind _ = _
  rw [hfirst]
  rfl

/-- The generation begins with the whole prompt fed. -/
theorem Prompting.generating {r : Run Token} (hne : tokens ≠ [])
    (h : Prompting w tokens nCtx params.maxTokens tokens.length r) :
    Generating w model params tokens nCtx 0
      ⟨r, StopHold.new (params.stop.getD []), model.newDecoder, r.batch.length - 1, 0, false⟩ where
  generated := rfl
  hitEnd := rfl
  pos := h.pos
  asked := h.asked
  going := h.going
  unended := fun k hk => absurd hk (Nat.not_lt_zero k)
  decoder := rfl
  hold := ⟨[], [], rfl, StopHold.new_live _⟩
  sound := h.sound
  fed := h.fed
  samples := h.samples
  batch := h.batch
  last := h.last (List.length_pos_iff.mpr hne)
  logitsAt := rfl

theorem prompting_start (hask : w.cancelled 0 = false) :
    Prompting w tokens nCtx maxTokens 0 ⟨1, 0, [], []⟩ where
  pos := rfl
  asked := rfl
  going := fun k hk => by
    rw [Nat.lt_one_iff.mp hk]
    exact hask
  sound := .nil
  fed := rfl
  samples := rfl
  batch := rfl
  last := fun h => absurd h (Nat.lt_irrefl 0)

/-- An answer that the loop leads to is good. -/
theorem good_ended {g : Generation Token D} {rest : Str} {hold : StopHold}
    (hplan : planBudget tokens.length params.maxTokens
      (effectiveContext contextSize model.nCtxTrain) = .ok budget)
    (h : Ended w tokens (effectiveContext contextSize model.nCtxTrain) params.maxTokens budget g)
    (hfinish : finishFor g.generated budget g.hitEnd = .length ↔ Goes w model params budget) :
    Good w model contextSize params tokens
      (.ok (g.run.onPiece rest, completionJson hold.text tokens.length g.generated
        (finishFor g.generated budget g.hitEnd))) := by
  refine ⟨sound_onPiece h.sound, ?_, h.generated.trans (planBudget_ok hplan).2.1, budget, hplan,
    hfinish⟩
  rw [fed_onPiece]
  exact h.whole

/-- The runs that are good: where there is room to answer, the prompt has a token, or is cancelled
before one is looked for, and something ends the run before the last position there is. -/
theorem complete_good_iff (w : World Token) (model : LlamaModel Token D)
    (contextSize : Option ℕ) (params : LlmParams) (tokens : List Token) :
    Good w model contextSize params tokens (complete w model contextSize params tokens) ↔
      ∀ budget, planBudget tokens.length params.maxTokens
          (effectiveContext contextSize model.nCtxTrain) = .ok budget →
        (tokens ≠ [] ∨ w.cancelled 0 = true) ∧
          ¬ Feeds w model params tokens budget i32Max := by
  rcases hplan : planBudget tokens.length params.maxTokens
    (effectiveContext contextSize model.nCtxTrain) with e | budget
  · refine iff_of_true ?_ fun budget h => by cases h
    have hrun : complete w model contextSize params tokens = .error (e, Run.new) := by
      rw [complete]
      dsimp only
      rw [hplan]
      rfl
    rw [hrun]
    exact ⟨Or.inl ⟨_, planBudget_error hplan, rfl⟩, .nil⟩
  suffices hgood : Good w model contextSize params tokens
      (complete w model contextSize params tokens) ↔
        (tokens ≠ [] ∨ w.cancelled 0 = true) ∧ ¬ Feeds w model params tokens budget i32Max by
    rw [hgood]
    constructor
    · intro h budget' hok
      rw [← Except.ok.inj hok]
      exact h
    · intro h
      exact h budget rfl
  obtain ⟨hbudget, hfew, hctx⟩ := planBudget_ok hplan
  rcases hask : w.cancelled 0 with _ | _
  swap
  · have hrun : complete w model contextSize params tokens = .error (.cancelled, Run.new) := by
      have hfirst : Run.new.ask w = .error (.cancelled, Run.new) := if_pos hask
      rw [complete]
      dsimp only
      rw [hplan]
      show (Run.new.ask w).bind _ = _
      rw [hfirst]
      rfl
    refine iff_of_true (hrun ▸ good_cancelled .nil) ⟨Or.inr rfl, fun hfeeds => ?_⟩
    rw [feeds_zero hfeeds] at hask
    cases hask
  rw [complete_eq hplan hask]
  by_cases hne : tokens = []
  · have hrun : Run.feedPrompt w tokens ⟨1, 0, [], []⟩ =
        .error (.panicked, (⟨1, 0, [], []⟩ : Run Token)) := if_pos hne
    rw [hrun]
    refine iff_of_false not_good_panicked ?_
    rintro ⟨h | h, -⟩
    · exact h hne
    · cases h
  have hrun : Run.feedPrompt w tokens ⟨1, 0, [], []⟩ =
      (allChunks promptBatch (tokens.drop 0)).foldlM (Run.feedChunk w (tokens.length - 1))
        ⟨1, 0, [], []⟩ := if_neg hne
  rw [hrun]
  have hroom : tokens.length ≤ effectiveContext contextSize model.nCtxTrain := by omega
  rcases feedChunks_cases (prompting_start hask) (Or.inr (Nat.dvd_zero _)) (Nat.zero_le _)
    (Nat.zero_le _) hroom with ⟨hprompt, r, hfeed, hend⟩ |
      ⟨⟨k, hk, hpos, hlast⟩, r, hfeed, hsound⟩ | ⟨hlt, hall, r, hfeed⟩
  · rw [hfeed]
    show Good w model contextSize params tokens (Except.bind (Generation.loop _ _ _ _ _) _) ↔ _
    rcases loop_cases budget (hend.generating hne) (Nat.zero_add _) hbudget hfew hctx hprompt with
      ⟨hfeeds, g, hloop, hended, hfinish⟩ | ⟨hfeeds, r', hloop, hsound⟩ | ⟨hfeeds, r', hloop⟩
    · rw [hloop]
      refine iff_of_true ?_ ⟨Or.inl hne, hfeeds⟩
      obtain ⟨⟨rest, hold⟩, hsome⟩ := Option.isSome_iff_exists.mp hended.finish
      rw [Except.bind, hsome]
      exact good_ended hplan hended hfinish
    · rw [hloop]
      exact iff_of_true (good_cancelled hsound) ⟨Or.inl hne, hfeeds⟩
    · rw [hloop]
      exact iff_of_false not_good_panicked fun h => h.2 hfeeds
  · rw [hfeed]
    refine iff_of_true (good_cancelled hsound) ⟨Or.inl hne, fun hfeeds => ?_⟩
    have hfalse : w.cancelled k = false := by
      rw [Feeds] at hfeeds
      split_ifs at hfeeds with hlt
      · exact hfeeds k (Nat.lt_succ_of_le hpos)
      · refine hfeeds.2.2 k ?_
        rw [promptBatch] at hlast ⊢
        omega
    rw [hk] at hfalse
    cases hfalse
  · rw [hfeed]
    refine iff_of_false not_good_panicked fun h => h.2 ?_
    rw [Feeds, if_pos hlt]
    exact hall

/-- A model that samples its end token. -/
def silent : LlamaModel ℕ Unit where
  nCtxTrain := 0
  isEog := fun _ => true
  tokenToPiece := fun _ => []
  newDecoder := ()
  decodePiece := fun _ _ => ([], ())

/-- An empty prompt is not refused, and has no last token. -/
theorem complete_empty :
    (∃ r, complete ⟨fun _ => false, fun _ => 0⟩ silent none ⟨16, none⟩ [] =
      .error (.panicked, r)) ∧
    ¬ Good ⟨fun _ => false, fun _ => 0⟩ silent none ⟨16, none⟩ []
      (complete ⟨fun _ => false, fun _ => 0⟩ silent none ⟨16, none⟩ []) :=
  ⟨⟨⟨1, 0, [], []⟩, rfl⟩, not_good_panicked (r := ⟨1, 0, [], []⟩)⟩

end Whole

end StudioWorker.Engine
