import StudioWorker.Engine.Complete
import StudioWorker.Lib.Fallible

/-!
# Engine.Told — what a completion tells its caller (`engine/llama.rs`)

A completion hands on its text while it is made.  However the stops hold it back, and whatever is
sampled, all that was handed on is the text it answers with.

* `Hearing`: what was handed on, beside what is held, at any time of the loop.
* `complete_told`: an answer is the completion of what was told.
-/

namespace StudioWorker.Engine

open Lib.Fallible Lib.Chunks

def Call.text? {Token : Type} : Call Token → Option Str
  | .piece text => some text
  | _ => none

/-- The pieces that `on_piece` was called with, in order. -/
def told {Token : Type} (calls : List (Call Token)) : List Str := calls.filterMap Call.text?

section Calls

variable {Token : Type} {r r' : Run Token}

@[simp] theorem told_concat (calls : List (Call Token)) (c : Call Token) :
    told (calls ++ [c]) = told calls ++ c.text?.toList := by
  rw [told, List.filterMap_append, ← told]
  cases c <;> rfl

theorem told_onPiece (text : Str) :
    (told (r.onPiece text).calls).flatten = (told r.calls).flatten ++ text := by
  rw [Run.onPiece]
  split_ifs with h
  · rw [h, List.append_nil]
  · show (told (r.calls ++ [.piece text])).flatten = _
    rw [told_concat]
    exact List.flatten_append.trans (congrArg _ (List.append_nil text))

/-! ## The prompt tells nothing -/

theorem calls_of_ask {w : World Token} (h : r.ask w = .ok r') : r'.calls = r.calls := by
  rw [Run.ask] at h
  split_ifs at h
  obtain rfl := Except.ok.inj h
  rfl

theorem calls_of_add {token : Token} {logits : Bool} (h : r.add token logits = .ok r') :
    r'.calls = r.calls := by
  rw [Run.add] at h
  split_ifs at h
  obtain rfl := Except.ok.inj h
  rfl

theorem calls_of_advance (h : r.advance = .ok r') : r'.calls = r.calls := by
  rw [Run.advance] at h
  split_ifs at h
  obtain rfl := Except.ok.inj h
  rfl

theorem calls_of_addPrompt {last : ℕ} {token : Token} (h : r.addPrompt last token = .ok r') :
    r'.calls = r.calls := by
  rw [Run.addPrompt] at h
  obtain ⟨m, hadd, h⟩ := bind_eq_ok h
  exact (calls_of_advance h).trans (calls_of_add hadd)

/-- What every step of a fold keeps of a run, the fold keeps. -/
theorem told_of_foldlM {α : Type} {f : Run Token → α → Outcome Token (Run Token)}
    (hf : ∀ r a r', f r a = .ok r' → told r'.calls = told r.calls) :
    ∀ {as : List α} {r r' : Run Token}, as.foldlM f r = .ok r' → told r'.calls = told r.calls
  | [], r, r', h => by
    obtain rfl := Except.ok.inj h
    rfl
  | a :: as, r, r', h => by
    rw [List.foldlM_cons] at h
    obtain ⟨m, hm, h⟩ := bind_eq_ok h
    exact (told_of_foldlM hf h).trans (hf r a m hm)

theorem told_of_feedChunk {w : World Token} {last : ℕ} {chunk : List Token}
    (h : r.feedChunk w last chunk = .ok r') : told r'.calls = told r.calls := by
  rw [Run.feedChunk] at h
  obtain ⟨asked, hask, h⟩ := bind_eq_ok h
  obtain ⟨filled, hfill, h⟩ := bind_eq_ok h
  obtain rfl := Except.ok.inj h
  have hfilled : told filled.calls = told asked.clear.calls :=
    told_of_foldlM (fun r a r' h => congrArg told (calls_of_addPrompt h)) hfill
  show told (filled.calls ++ [.decode filled.batch]) = _
  rw [told_concat, hfilled, ← calls_of_ask hask]
  exact List.append_nil _

theorem told_of_feedPrompt {w : World Token} {tokens : List Token}
    (h : r.feedPrompt w tokens = .ok r') : told r'.calls = told r.calls := by
  rw [Run.feedPrompt] at h
  split_ifs at h
  exact told_of_foldlM (fun r a r' h => told_of_feedChunk h) h

theorem told_of_feedToken {token : Token} (h : r.feedToken token = .ok r') :
    told r'.calls = told r.calls := by
  rw [Run.feedToken] at h
  obtain ⟨added, hadd, h⟩ := bind_eq_ok h
  obtain ⟨advanced, hadvance, h⟩ := bind_eq_ok h
  obtain rfl := Except.ok.inj h
  show told (advanced.calls ++ [.decode advanced.batch]) = _
  rw [told_concat, calls_of_advance hadvance, calls_of_add hadd]
  exact List.append_nil _

end Calls

/-! ## The loop -/

section Loop

variable {Token D : Type} {w : World Token} {model : LlamaModel Token D}
variable {g g' : Generation Token D}

/-- What was handed on is the text but for what is held, or the text that a stop cut. -/
structure Hearing (S : List Str) (g : Generation Token D) : Prop where
  hold : (∃ q, StopHold.Live S (told g.run.calls).flatten q g.hold) ∨
    StopHold.Stopped (told g.run.calls).flatten g.hold
  counted : g.generated ≤ u32Max

/-- A piece more goes to the hold, and what it lets go to the caller. -/
theorem hearing_push {S : List Str} {r : Run Token} {hold hold' : StopHold} {piece safe : Str}
    (h : (∃ q, StopHold.Live S (told r.calls).flatten q hold) ∨
      StopHold.Stopped (told r.calls).flatten hold)
    (hpush : hold.push piece = some (safe, hold')) :
    (∃ q, StopHold.Live S (told (r.onPiece safe).calls).flatten q hold') ∨
      StopHold.Stopped (told (r.onPiece safe).calls).flatten hold' := by
  rw [told_onPiece]
  rcases h with ⟨q, hlive⟩ | hstopped
  · cases hc : Lib.Search.cut S (q ++ piece) with
    | none =>
      obtain ⟨x, y, h', -, hpush', hlive'⟩ := StopHold.push_live hlive hc
      obtain ⟨rfl, rfl⟩ := Prod.mk.inj (Option.some.inj (hpush.symm.trans hpush'))
      exact .inl ⟨y, hlive'⟩
    | some a =>
      obtain ⟨h', hpush', hstop⟩ := StopHold.push_cut hlive hc
      obtain ⟨rfl, rfl⟩ := Prod.mk.inj (Option.some.inj (hpush.symm.trans hpush'))
      exact .inr hstop
  · have hpush' := hstopped.push piece
    obtain ⟨rfl, rfl⟩ := Prod.mk.inj (Option.some.inj (hpush.symm.trans hpush'))
    rw [List.append_nil]
    exact .inr hstopped

theorem Hearing.step {S : List Str} (h : Hearing S g) (hstep : g.step w model = .ok g') :
    Hearing S g' := by
  rw [Generation.step] at hstep
  obtain ⟨r, hask, hstep⟩ := bind_eq_ok hstep
  have hsampled : told (r.call (.sample g.logitsAt)).calls = told g.run.calls := by
    show told (r.calls ++ [.sample g.logitsAt]) = _
    rw [told_concat, calls_of_ask hask]
    exact List.append_nil _
  dsimp only at hstep
  split_ifs at hstep with heog hmax
  · obtain rfl := Except.ok.inj hstep
    exact ⟨by rw [hsampled]; exact h.hold, h.counted⟩
  · cases hstep
  · have hcounted : g.generated + 1 ≤ u32Max := by
      have := h.counted
      omega
    have hheard : (∃ q, StopHold.Live S (told (r.call (.sample g.logitsAt)).calls).flatten q
        g.hold) ∨ StopHold.Stopped (told (r.call (.sample g.logitsAt)).calls).flatten g.hold := by
      rw [hsampled]
      exact h.hold
    split at hstep
    · cases hstep
    · rename_i safe hold hpush
      have hpushed := hearing_push hheard hpush
      split_ifs at hstep with hstopped
      · obtain rfl := Except.ok.inj hstep
        exact ⟨hpushed, hcounted⟩
      · obtain ⟨fed, hfeed, hstep⟩ := bind_eq_ok hstep
        obtain rfl := Except.ok.inj hstep
        exact ⟨by rw [told_of_feedToken hfeed]; exact hpushed, hcounted⟩

theorem Hearing.loop {S : List Str} {budget : ℕ} : ∀ (fuel : ℕ) {g g' : Generation Token D},
    Hearing S g → Generation.loop w model budget fuel g = .ok g' → Hearing S g'
  | 0, g, g', h, hloop => by
    obtain rfl := Except.ok.inj hloop
    exact h
  | fuel + 1, g, g', h, hloop => by
    rw [Generation.loop] at hloop
    split_ifs at hloop with hlt
    · obtain ⟨m, hstep, hloop⟩ := bind_eq_ok hloop
      split_ifs at hloop
      · obtain rfl := Except.ok.inj hloop
        exact h.step hstep
      · exact Hearing.loop fuel (h.step hstep) hloop
    · obtain rfl := Except.ok.inj hloop
      exact h

/-- At the end all of the text was handed on. -/
theorem Hearing.finish {S : List Str} (h : Hearing S g) {rest : Str} {hold : StopHold}
    (hfinish : g.hold.finish = some (rest, hold)) :
    (told (g.run.onPiece rest).calls).flatten = hold.text := by
  rw [told_onPiece]
  rcases h.hold with ⟨q, hlive⟩ | hstopped
  · have hfinish' := StopHold.finish_eq hlive.out hlive.emitted
    obtain ⟨rfl, rfl⟩ := Prod.mk.inj (Option.some.inj (hfinish.symm.trans hfinish'))
    exact hlive.out.symm
  · have hout : g.hold.out = (told g.run.calls).flatten ++ [] :=
      hstopped.out.trans (List.append_nil _).symm
    have hfinish' := StopHold.finish_eq hout hstopped.emitted
    obtain ⟨rfl, rfl⟩ := Prod.mk.inj (Option.some.inj (hfinish.symm.trans hfinish'))
    exact hout.symm

end Loop

/-- An answer is the completion of what was told, and its counts are those of its type. -/
theorem complete_told {Token D : Type} {w : World Token} {model : LlamaModel Token D}
    {contextSize : Option ℕ} {params : LlmParams} {tokens : List Token} {r : Run Token}
    {c : Completion} (h : complete w model contextSize params tokens = .ok (r, c)) :
    ∃ generated finish, generated ≤ u32Max ∧
      c = completionJson (told r.calls).flatten tokens.length generated finish := by
  rw [complete] at h
  dsimp only at h
  obtain ⟨budget, -, h⟩ := bind_eq_ok h
  obtain ⟨asked, hask, h⟩ := bind_eq_ok h
  obtain ⟨fed, hfeed, h⟩ := bind_eq_ok h
  obtain ⟨g, hloop, h⟩ := bind_eq_ok h
  have hquiet : told fed.calls = [] := by
    rw [told_of_feedPrompt hfeed, calls_of_ask hask]
    rfl
  have hhearing : Hearing ((params.stop.getD []).filter (· ≠ [])) g := by
    refine Hearing.loop budget ⟨.inl ⟨[], ?_⟩, Nat.zero_le _⟩ hloop
    dsimp only
    rw [hquiet]
    exact StopHold.new_live _
  split at h
  · cases h
  · rename_i rest hold hfinish
    obtain ⟨rfl, rfl⟩ := Prod.mk.inj (Except.ok.inj h)
    exact ⟨g.generated, _, hhearing.counted, by rw [hhearing.finish hfinish]⟩

end StudioWorker.Engine
