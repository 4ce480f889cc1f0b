import StudioWorker.Engine.ThinkSplitter

/-!
# Engine.ThinkPieces — what a stream sends of a text (`src/engine/llm_core.rs`)

The stream takes a think block where the text opens with one; a tag anywhere else is text.

* `blockOf`: the block a text opens with, and what follows it.
* `untagged`: the text without the tags of that block.
* `stream_told`: what is sent, however the text is cut.
-/

namespace StudioWorker.Engine

open Text Lib.Search Lib.Trim

/-- What follows the opening tag, where the text opens with one. -/
def opened (text : Text) : Option Text := Text.stripPrefix thinkOpen (trimStart text)

/-- What stands in the block a text opens with, and what follows it. -/
def blockOf (text : Text) : Option (Text × Text) := (opened text).bind (splitOnce thinkClose)

/-- The text without the tags of the block it opens with. -/
def untagged (text : Text) : Text :=
  match opened text with
  | none => text
  | some rest =>
    match splitOnce thinkClose rest with
    | none => rest
    | some (before, after) => before ++ after

def Blank (t : Text) : Prop := ∀ c ∈ t, isWhitespace c = true

/-- The characters that are no whitespace. -/
def visible (t : Text) : Text := t.filter fun c => !isWhitespace c

/-- Two streams of one text send the same, up to whitespace directly after the closing tag. -/
structure SentAlike (text : Text) (ds ds' : List Delta) : Prop where
  thought : (reasonings ds).flatten = (reasonings ds').flatten
  content : contentOf ds = contentOf ds' ∨ ∃ before after ws ws',
    blockOf text = some (before, after) ∧ Blank ws ∧ Blank ws' ∧
    after = ws ++ contentOf ds ∧ after = ws' ++ contentOf ds'

/-- What a stream sends of a text. -/
structure Told (text : Text) (ds : List Delta) : Prop where
  /-- The content is of what follows the block, the thinking what stands in it. -/
  block : ∀ before after, blockOf text = some (before, after) →
    (reasonings ds).flatten = trim before ∧ ∃ ws, Blank ws ∧ after = ws ++ contentOf ds
  /-- A block that is never closed leaves no content. -/
  unclosed : ∀ rest, opened text = some rest → blockOf text = none → contentOf ds = []
  /-- Each character that is no whitespace, the tags of the block apart, once and in order. -/
  once : visible ((reasonings ds).flatten ++ contentOf ds) = visible (untagged text)

/-! ## The block -/

theorem opened_some {text rest : Text} :
    opened text = some rest ↔ trimStart text = thinkOpen ++ rest := stripPrefix_some

theorem opened_none {text : Text} : opened text = none ↔ ¬ thinkOpen <+: trimStart text :=
  stripPrefix_none

/-! ## What was held at the end -/

theorem streamFrom_streamed : ∀ {text : Text} {ds : List Delta} {s : ThinkSplitter}
    (ps : List Text), Streamed text ds s → ∃ ds' s', Streamed (text ++ ps.flatten) ds' s' ∧
      ds ++ s.streamFrom ps = ds' ++ s'.finish
  | text, ds, s, [], h => ⟨ds, s, by rwa [List.flatten_nil, List.append_nil], rfl⟩
  | text, ds, s, p :: ps, h => by
    obtain ⟨ds', s', hstreamed, heq⟩ := streamFrom_streamed ps (h.push p)
    rw [List.append_assoc] at hstreamed heq
    exact ⟨ds', s', hstreamed, heq⟩

/-- A block that is never closed is sent whole. -/
theorem Streamed.finish_open {text rest : Text} {ds : List Delta} {s : ThinkSplitter}
    (h : Streamed text ds s) (hopened : trimStart text = thinkOpen ++ rest)
    (hnone : splitOnce thinkClose rest = none) :
    (reasonings (ds ++ s.finish)).flatten = trim rest := by
  have hopen : thinkOpen <+: trimStart text := hopened ▸ List.prefix_append _ _
  cases h with
  | undecided h hp => exact absurd hopen h
  | thinking rest' h hc =>
    obtain rfl := List.append_cancel_left (h.symm.trans hopened)
    have hfinish : ThinkSplitter.finish ⟨.thinking, rest'⟩ =
        if trim rest' ≠ [] then [.reasoning (trim rest')] else [] := rfl
    rw [List.nil_append, hfinish]
    split_ifs with htrim
    · exact List.append_nil _
    · exact (not_not.mp htrim).symm
  | thought rest' before ws ds h hws hc hr =>
    obtain rfl := List.append_cancel_left (h.symm.trans hopened)
    rw [hnone] at hc
    cases hc
  | plain ds h hp hr hc => exact absurd hopen h

theorem stream_open {pieces : List Text} {rest : Text}
    (hopened : trimStart pieces.flatten = thinkOpen ++ rest)
    (hnone : splitOnce thinkClose rest = none) :
    (reasonings (ThinkSplitter.stream pieces)).flatten = trim rest := by
  have hstart : Streamed [] [] {} := .undecided (by decide) (by decide)
  obtain ⟨ds, s, hstreamed, heq⟩ := streamFrom_streamed pieces hstart
  have hstream : ThinkSplitter.stream pieces = ds ++ s.finish := heq
  rw [hstream]
  exact hstreamed.finish_open hopened hnone

/-! ## What is sent -/

theorem visible_append (s t : Text) : visible (s ++ t) = visible s ++ visible t :=
  List.filter_append ..

theorem visible_blank {ws : Text} (h : Blank ws) : visible ws = [] :=
  List.filter_eq_nil_iff.mpr fun c hc => by rw [h c hc]; decide

theorem visible_trim (t : Text) : visible (trim t) = visible t := filter_trim t

/-- The three ways a text is sent. -/
theorem stream_cases (pieces : List Text) :
    let ds := ThinkSplitter.stream pieces
    (opened pieces.flatten = none ∧ reasonings ds = [] ∧ contentOf ds = pieces.flatten) ∨
      (∃ rest, opened pieces.flatten = some rest ∧ splitOnce thinkClose rest = none ∧
        (reasonings ds).flatten = trim rest ∧ contentOf ds = []) ∨
      ∃ rest before ws, opened pieces.flatten = some rest ∧ Blank ws ∧
        splitOnce thinkClose rest = some (before, ws ++ contentOf ds) ∧
        (reasonings ds).flatten = trim before := by
  rcases stream_sent pieces with
    ⟨rest, h, hc, hd⟩ | ⟨rest, before, ws, h, hws, hc, hr⟩ | ⟨h, hr, hc⟩
  · exact .inr (.inl ⟨rest, opened_some.mpr h, hc, stream_open h hc, hd⟩)
  · exact .inr (.inr ⟨rest, before, ws, opened_some.mpr h, hws, hc, hr⟩)
  · exact .inl ⟨opened_none.mpr h, hr, hc⟩

theorem told_stream (pieces : List Text) :
    Told pieces.flatten (ThinkSplitter.stream pieces) := by
  rcases stream_cases pieces with ⟨h, hr, hc⟩ | ⟨rest, h, hsplit, hr, hc⟩ |
    ⟨rest, before, ws, h, hws, hsplit, hr⟩
  · refine ⟨fun before after hblock => ?_, fun rest hrest => ?_, ?_⟩
    · rw [blockOf, h] at hblock
      cases hblock
    · cases h.symm.trans hrest
    · rw [hr, hc, untagged, h]
      rfl
  · refine ⟨fun before after hblock => ?_, fun _ _ _ => hc, ?_⟩
    · rw [blockOf, h, Option.bind_some, hsplit] at hblock
      cases hblock
    · rw [hr, hc, untagged, h, List.append_nil, visible_trim]
      simp only [hsplit]
  · refine ⟨fun before' after hblock => ?_, fun rest' _ hblock => ?_, ?_⟩
    · rw [blockOf, h, Option.bind_some, hsplit] at hblock
      cases hblock
      exact ⟨hr, ws, hws, rfl⟩
    · rw [blockOf, h, Option.bind_some, hsplit] at hblock
      cases hblock
    · rw [hr, untagged, h]
      simp only [hsplit]
      rw [visible_append, visible_append, visible_append, visible_trim, visible_blank hws,
        List.nil_append]

theorem sentAlike_stream (pieces pieces' : List Text) (heq : pieces'.flatten = pieces.flatten) :
    SentAlike pieces.flatten (ThinkSplitter.stream pieces) (ThinkSplitter.stream pieces') := by
  have hcases := stream_cases pieces'
  rw [heq] at hcases
  rcases stream_cases pieces with ⟨h, hr, hc⟩ | ⟨rest, h, hsplit, hr, hc⟩ |
    ⟨rest, before, ws, h, hws, hsplit, hr⟩
  · rcases hcases with ⟨-, hr', hc'⟩ | ⟨rest', h', -⟩ | ⟨rest', before', ws', h', -⟩
    · exact ⟨by rw [hr, hr'], .inl (hc.trans hc'.symm)⟩
    · cases h.symm.trans h'
    · cases h.symm.trans h'
  · rcases hcases with ⟨h', -⟩ | ⟨rest', h', -, hr', hc'⟩ | ⟨rest', before', ws', h', -, hsplit', -⟩
    · cases h.symm.trans h'
    · obtain rfl := Option.some.inj (h.symm.trans h')
      exact ⟨hr.trans hr'.symm, .inl (hc.trans hc'.symm)⟩
    · obtain rfl := Option.some.inj (h.symm.trans h')
      cases hsplit.symm.trans hsplit'
  · rcases hcases with
      ⟨h', -⟩ | ⟨rest', h', hsplit', -⟩ | ⟨rest', before', ws', h', hws', hsplit', hr'⟩
    · cases h.symm.trans h'
    · obtain rfl := Option.some.inj (h.symm.trans h')
      cases hsplit.symm.trans hsplit'
    · obtain rfl := Option.some.inj (h.symm.trans h')
      obtain ⟨hbefore, hafter⟩ := Prod.mk.inj (Option.some.inj (hsplit.symm.trans hsplit'))
      refine ⟨hr.trans (hbefore ▸ hr'.symm), .inr ⟨before, _, ws, ws', ?_, hws, hws', rfl, hafter⟩⟩
      rw [blockOf, h]
      exact hsplit

/-- **What a stream sends** does not depend on the cuts, keeps a block the text opens with out of
the content, and has each other character once. -/
theorem stream_told (pieces : List Text) :
    (∀ pieces' : List Text, pieces'.flatten = pieces.flatten →
      SentAlike pieces.flatten (ThinkSplitter.stream pieces) (ThinkSplitter.stream pieces')) ∧
    Told pieces.flatten (ThinkSplitter.stream pieces) :=
  ⟨fun pieces' heq => sentAlike_stream pieces pieces' heq, told_stream pieces⟩

/-- A block behind other text is content. -/
theorem later_block_is_content :
    ¬ ∀ (pieces : List Text) (front thought after : Text),
      pieces.flatten = front ++ thinkOpen ++ thought ++ thinkClose ++ after →
      ∀ c ∈ thought, c ∉ front ++ thinkOpen → c ∉ thinkClose ++ after →
        c ∉ contentOf (ThinkSplitter.stream pieces) := by
  intro h
  refine h [['a'] ++ thinkOpen ++ ['b'] ++ thinkClose] ['a'] ['b'] [] (by decide) 'b' ?_ ?_ ?_ ?_
  · exact List.mem_singleton_self _
  · decide
  · decide
  · decide

end StudioWorker.Engine
