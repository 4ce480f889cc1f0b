import StudioWorker.Text

/-!
# Engine.ThinkSplitter — thinking and answer, streamed and whole

`split_reasoning` and `ThinkSplitter` of `engine/llm_core.rs`.  The stream decides by the opening
tag, the whole text by the closing one, so they split alike only where a text has both, in order,
or neither.

* `Streamed`: what a splitter has sent and holds after a text, whatever its pieces were.
* `stream_split_iff`: the texts on which the two make the same split.
-/

namespace StudioWorker.Engine

open Text Lib.Search Lib.Trim

/-- `THINK_OPEN` -/
def thinkOpen : Text := ['<', 't', 'h', 'i', 'n', 'k', '>']

/-- `THINK_CLOSE` -/
def thinkClose : Text := ['<', '/', 't', 'h', 'i', 'n', 'k', '>']

/-- The answer, and the thinking where the text closes a think block. -/
def splitReasoning (text : Text) : Text × Option Text :=
  match splitOnce thinkClose text with
  | some (thought, answer) =>
    (trim answer, some (trim (trimStartMatches thinkOpen (trim thought))))
  | none => (trim text, none)

inductive Delta where
  | reasoning (text : Text)
  | content (text : Text)
deriving DecidableEq

inductive ThinkState where
  | undecided
  | thinking
  | answering
deriving DecidableEq

structure ThinkSplitter where
  state : ThinkState := .undecided
  buf : Text := []
deriving DecidableEq

namespace ThinkSplitter

/-! The loop of `push` only goes forward through the states; each state is a function that ends
it or goes on in the next. -/

def answer (buf : Text) : List Delta × ThinkSplitter :=
  (if buf ≠ [] then [.content buf] else [], ⟨.answering, []⟩)

def think (buf : Text) : List Delta × ThinkSplitter :=
  match splitOnce thinkClose buf with
  | some (before, after) =>
    let thought := trim before
    let (out, s) := answer (trimStart after)
    ((if thought ≠ [] then [.reasoning thought] else []) ++ out, s)
  | none => ([], ⟨.thinking, buf⟩)

def decide (buf : Text) : List Delta × ThinkSplitter :=
  let trimmed := trimStart buf
  match Text.stripPrefix thinkOpen trimmed with
  | some rest => think rest
  | none => if trimmed <+: thinkOpen then ([], ⟨.undecided, buf⟩) else answer buf

def push (s : ThinkSplitter) (piece : Text) : List Delta × ThinkSplitter :=
  let buf := s.buf ++ piece
  match s.state with
  | .undecided => decide buf
  | .thinking => think buf
  | .answering => answer buf

/-- Generation ended: whatever is buffered goes out as what it was. -/
def finish (s : ThinkSplitter) : List Delta :=
  match s.state with
  | .thinking => if trim s.buf ≠ [] then [.reasoning (trim s.buf)] else []
  | .undecided | .answering => if s.buf ≠ [] then [.content s.buf] else []

/-- The pieces pushed in order, then `finish`. -/
def streamFrom : ThinkSplitter → List Text → List Delta
  | s, [] => s.finish
  | s, p :: ps => (s.push p).1 ++ streamFrom (s.push p).2 ps

def stream (pieces : List Text) : List Delta := streamFrom {} pieces

end ThinkSplitter

/-- The Reasoning deltas. -/
def reasonings (ds : List Delta) : List Text :=
  ds.filterMap fun
    | .reasoning t => some t
    | .content _ => none

/-- The Content deltas, joined. -/
def contentOf (ds : List Delta) : Text :=
  ds.flatMap fun
    | .content t => t
    | .reasoning _ => []

/-- The deltas make the split, up to leading and trailing whitespace. -/
structure SameSplit (ds : List Delta) (split : Text × Option Text) : Prop where
  answer : trim (contentOf ds) = trim split.1
  thought : ∀ r, split.2 = some r → trim (reasonings ds).flatten = trim r
  absent : split.2 = none → reasonings ds = []

/-- A think block that is closed and does not open twice at once, or no tag at all: no opening tag
in front and no closing one anywhere. -/
def Agreeing (text : Text) : Prop :=
  match Text.stripPrefix thinkOpen (trimStart text) with
  | some rest => thinkClose <:+: rest ∧ ¬ thinkOpen <+: rest
  | none => ¬ thinkClose <:+: text

/-! ## The tags -/

theorem thinkOpen_dropWhile : thinkOpen.dropWhile isWhitespace = thinkOpen := by decide
theorem thinkOpen_rdropWhile : thinkOpen.rdropWhile isWhitespace = thinkOpen := by decide
theorem thinkClose_dropWhile : thinkClose.dropWhile isWhitespace = thinkClose := by decide
theorem thinkClose_rdropWhile : thinkClose.rdropWhile isWhitespace = thinkClose := by decide
theorem thinkOpen_ne_nil : thinkOpen ≠ [] := by decide
theorem thinkClose_ne_nil : thinkClose ≠ [] := by decide

/-- No closing tag begins in an opening one. -/
theorem quiet_thinkOpen (t : Text) : Lib.Search.Quiet [thinkClose] thinkOpen t := by
  intro a b hab hb s hs
  obtain rfl := List.mem_singleton.mp hs
  have hsuffix : b ∈ thinkOpen.tails := (List.mem_tails _ _).mpr ⟨a, hab.symm⟩
  simp only [thinkOpen, List.tails, List.mem_cons, List.not_mem_nil, or_false] at hsuffix
  rcases hsuffix with rfl | rfl | rfl | rfl | rfl | rfl | rfl | rfl
  · simp [thinkClose, List.cons_prefix_cons]
  · simp [thinkClose, List.cons_prefix_cons]
  · simp [thinkClose, List.cons_prefix_cons]
  · simp [thinkClose, List.cons_prefix_cons]
  · simp [thinkClose, List.cons_prefix_cons]
  · simp [thinkClose, List.cons_prefix_cons]
  · simp [thinkClose, List.cons_prefix_cons]
  · exact absurd rfl hb

/-- Nor in whitespace. -/
theorem quiet_whitespace {ws : Text} (h : ∀ c ∈ ws, isWhitespace c = true) (t : Text) :
    Lib.Search.Quiet [thinkClose] ws t := by
  intro a b hab hb s hs
  obtain rfl := List.mem_singleton.mp hs
  cases b with
  | nil => exact absurd rfl hb
  | cons c b =>
    have hc : isWhitespace c = true := h c (hab ▸ List.mem_append_right _ List.mem_cons_self)
    have hne : c ≠ '<' := by
      rintro rfl
      exact absurd hc (by decide)
    constructor
    · intro hp
      exact hne (List.cons_prefix_cons.mp hp).1
    · intro hp
      exact hne (List.cons_prefix_cons.mp hp).1.symm

/-- A closing tag of a text that opens with a think block comes after the opening one. -/
theorem splitOnce_opened {text rest : Text} (h : trimStart text = thinkOpen ++ rest) :
    splitOnce thinkClose text =
      (splitOnce thinkClose rest).map fun ab =>
        (text.takeWhile isWhitespace ++ (thinkOpen ++ ab.1), ab.2) := by
  have hblank : ∀ c ∈ text.takeWhile isWhitespace, isWhitespace c = true :=
    fun c hc => List.mem_takeWhile_imp hc
  have htext : text.takeWhile isWhitespace ++ (thinkOpen ++ rest) = text := by
    rw [← h]
    exact List.takeWhile_append_dropWhile
  conv_lhs => rw [← htext]
  rw [splitOnce_quiet (quiet_whitespace hblank _), splitOnce_quiet (quiet_thinkOpen _),
    Option.map_map]
  rfl

/-! ## What a stream has sent -/

@[simp] theorem reasonings_append (ds es : List Delta) :
    reasonings (ds ++ es) = reasonings ds ++ reasonings es := List.filterMap_append

@[simp] theorem contentOf_append (ds es : List Delta) :
    contentOf (ds ++ es) = contentOf ds ++ contentOf es := List.flatMap_append

/-- What was sent and what is held after a text, however it was cut. -/
inductive Streamed (text : Text) : List Delta → ThinkSplitter → Prop
  | undecided (h : ¬ thinkOpen <+: trimStart text) (hp : trimStart text <+: thinkOpen) :
      Streamed text [] ⟨.undecided, text⟩
  | thinking (rest : Text) (h : trimStart text = thinkOpen ++ rest)
      (hc : splitOnce thinkClose rest = none) : Streamed text [] ⟨.thinking, rest⟩
  | thought (rest before ws : Text) (ds : List Delta) (h : trimStart text = thinkOpen ++ rest)
      (hws : ∀ c ∈ ws, isWhitespace c = true)
      (hc : splitOnce thinkClose rest = some (before, ws ++ contentOf ds))
      (hr : (reasonings ds).flatten = trim before) : Streamed text ds ⟨.answering, []⟩
  | plain (ds : List Delta) (h : ¬ thinkOpen <+: trimStart text)
      (hp : ¬ trimStart text <+: thinkOpen) (hr : reasonings ds = [])
      (hc : contentOf ds = text) : Streamed text ds ⟨.answering, []⟩

namespace ThinkSplitter

theorem contentOf_answer (buf : Text) : contentOf (answer buf).1 = buf := by
  unfold answer
  split_ifs with h
  · exact List.flatMap_singleton _ _
  · exact (not_not.mp h).symm

theorem reasonings_answer (buf : Text) : reasonings (answer buf).1 = [] := by
  unfold answer
  split_ifs <;> rfl

theorem think_streamed {text rest : Text} (h : trimStart text = thinkOpen ++ rest) :
    Streamed text (think rest).1 (think rest).2 := by
  cases hc : splitOnce thinkClose rest with
  | none =>
    have hthink : think rest = ([], ⟨.thinking, rest⟩) := by simp only [think, hc]
    rw [hthink]
    exact .thinking rest h hc
  | some split =>
    obtain ⟨before, after⟩ := split
    have hthink : think rest =
        ((if trim before ≠ [] then [.reasoning (trim before)] else []) ++
          (answer (trimStart after)).1, ⟨.answering, []⟩) := by
      simp only [think, hc]
      rfl
    have hcontent : contentOf (think rest).1 = trimStart after := by
      rw [hthink, contentOf_append, contentOf_answer]
      split_ifs <;> rfl
    have hreason : (reasonings (think rest).1).flatten = trim before := by
      rw [hthink, reasonings_append, reasonings_answer, List.append_nil]
      split_ifs with hnil
      · exact List.append_nil _
      · exact (not_not.mp hnil).symm
    have hstate : (think rest).2 = ⟨.answering, []⟩ := by rw [hthink]
    rw [hstate]
    refine .thought rest before (after.takeWhile isWhitespace) _ h
      (fun c hc => List.mem_takeWhile_imp hc) ?_ hreason
    rw [hc, hcontent]
    exact congrArg (fun a => some (before, a)) List.takeWhile_append_dropWhile.symm

theorem decide_streamed (text : Text) : Streamed text (decide text).1 (decide text).2 := by
  cases hs : Text.stripPrefix thinkOpen (trimStart text) with
  | some rest =>
    have hdecide : decide text = think rest := by simp only [decide, hs]
    rw [hdecide]
    exact think_streamed (stripPrefix_some.mp hs)
  | none =>
    have hopen := stripPrefix_none.mp hs
    by_cases hp : trimStart text <+: thinkOpen
    · have hdecide : decide text = ([], ⟨.undecided, text⟩) := by
        simp only [decide, hs, if_pos hp]
      rw [hdecide]
      exact .undecided hopen hp
    · have hdecide : decide text = answer text := by simp only [decide, hs, if_neg hp]
      rw [hdecide]
      exact .plain _ hopen hp (reasonings_answer text) (contentOf_answer text)

end ThinkSplitter

theorem trimStart_append_of_ne {t : Text} (h : trimStart t ≠ []) (p : Text) :
    trimStart (t ++ p) = trimStart t ++ p := by
  unfold trimStart at h ⊢
  rw [List.dropWhile_append]
  simp [h]

/-- A piece that arrives: what is sent and held for the text so far. -/
theorem Streamed.push {text : Text} {ds : List Delta} {s : ThinkSplitter} (h : Streamed text ds s)
    (p : Text) : Streamed (text ++ p) (ds ++ (s.push p).1) (s.push p).2 := by
  cases h with
  | undecided h hp => exact ThinkSplitter.decide_streamed (text ++ p)
  | thinking rest h hc =>
    have hne : trimStart text ≠ [] := by rw [h]; exact List.cons_ne_nil _ _
    have hnext : trimStart (text ++ p) = thinkOpen ++ (rest ++ p) := by
      rw [trimStart_append_of_ne hne, h, List.append_assoc]
    exact ThinkSplitter.think_streamed hnext
  | thought rest before ws ds h hws hc hr =>
    have hne : trimStart text ≠ [] := by rw [h]; exact List.cons_ne_nil _ _
    refine .thought (rest ++ p) before ws _ ?_ hws ?_ ?_
    · rw [trimStart_append_of_ne hne, h, List.append_assoc]
    · have hlater := splitOnce_append hc p
      rw [contentOf_append, show contentOf (ThinkSplitter.push ⟨.answering, []⟩ p).1 = p from
        ThinkSplitter.contentOf_answer p, hlater, List.append_assoc]
    · rw [reasonings_append, show reasonings (ThinkSplitter.push ⟨.answering, []⟩ p).1 = [] from
        ThinkSplitter.reasonings_answer p, List.append_nil, hr]
  | plain ds h hp hr hc =>
    have hne : trimStart text ≠ [] := fun he => hp (by rw [he]; exact List.nil_prefix)
    have hnext := trimStart_append_of_ne hne p
    refine .plain _ ?_ ?_ ?_ ?_
    · rw [hnext]
      intro hopen
      rcases List.prefix_or_prefix_of_prefix hopen (List.prefix_append (trimStart text) p) with
        hle | hle
      · exact h hle
      · exact hp hle
    · rw [hnext]
      exact fun hopen => hp ((List.prefix_append _ _).trans hopen)
    · rw [reasonings_append, hr]
      exact ThinkSplitter.reasonings_answer p
    · rw [contentOf_append, hc]
      exact congrArg (text ++ ·) (ThinkSplitter.contentOf_answer p)

/-! ## A whole stream -/

/-- What a whole stream sends, told from the text alone. -/
inductive Sent (text : Text) (ds : List Delta) : Prop
  | open (rest : Text) (h : trimStart text = thinkOpen ++ rest)
      (hc : splitOnce thinkClose rest = none) (hd : contentOf ds = [])
  | closed (rest before ws : Text) (h : trimStart text = thinkOpen ++ rest)
      (hws : ∀ c ∈ ws, isWhitespace c = true)
      (hc : splitOnce thinkClose rest = some (before, ws ++ contentOf ds))
      (hr : (reasonings ds).flatten = trim before)
  | plain (h : ¬ thinkOpen <+: trimStart text) (hr : reasonings ds = []) (hc : contentOf ds = text)

theorem Streamed.finish {text : Text} {ds : List Delta} {s : ThinkSplitter}
    (h : Streamed text ds s) : Sent text (ds ++ s.finish) := by
  cases h with
  | undecided h hp =>
    refine .plain h ?_ ?_
    · simp only [ThinkSplitter.finish, List.nil_append]
      split_ifs <;> rfl
    · exact ThinkSplitter.contentOf_answer text
  | thinking rest h hc =>
    refine .open rest h hc ?_
    simp only [ThinkSplitter.finish, List.nil_append]
    split_ifs <;> rfl
  | thought rest before ws ds h hws hc hr =>
    have hnone : ds ++ ThinkSplitter.finish ⟨.answering, []⟩ = ds := List.append_nil ds
    rw [hnone]
    exact .closed rest before ws h hws hc hr
  | plain ds h hp hr hc =>
    have hnone : ds ++ ThinkSplitter.finish ⟨.answering, []⟩ = ds := List.append_nil ds
    rw [hnone]
    exact .plain h hr hc

theorem streamFrom_sent : ∀ {text : Text} {ds : List Delta} {s : ThinkSplitter} (ps : List Text),
    Streamed text ds s → Sent (text ++ ps.flatten) (ds ++ s.streamFrom ps)
  | text, ds, s, [], h => by
    rw [List.flatten_nil, List.append_nil]
    exact h.finish
  | text, ds, s, p :: ps, h => by
    have hrest := streamFrom_sent ps (h.push p)
    rw [List.append_assoc, List.append_assoc] at hrest
    exact hrest

/-- Every way to cut a text sends the same, up to the whitespace before the answer. -/
theorem stream_sent (pieces : List Text) :
    Sent pieces.flatten (ThinkSplitter.stream pieces) := by
  have hstart : Streamed [] [] {} := .undecided (by decide) (by decide)
  exact streamFrom_sent pieces hstart

/-! ## The two splits -/

theorem splitReasoning_none {text : Text} (h : ¬ thinkClose <:+: text) :
    splitReasoning text = (trim text, none) := by
  simp only [splitReasoning, splitOnce_none.mpr h]

/-- A text that closes a block is longer than its answer, trimmed or not. -/
theorem trim_ne_answer (thought answer : Text) :
    trim (thought ++ thinkClose ++ answer) ≠ trim answer := by
  obtain ⟨x, -, hx⟩ :=
    trim_around thinkClose_dropWhile thinkClose_rdropWhile thinkClose_ne_nil thought answer
  have hx : trim (thought ++ thinkClose ++ answer) =
    x ++ thinkClose ++ answer.rdropWhile isWhitespace := hx
  intro heq
  rw [hx] at heq
  have hlen := congrArg List.length heq
  have hle : (trim answer).length ≤ (answer.rdropWhile isWhitespace).length :=
    length_trim_le_rdropWhile answer
  have hclose : thinkClose.length = 8 := rfl
  simp only [List.length_append] at hlen
  omega

theorem trim_opened (rest : Text) :
    trim (thinkOpen ++ rest) = thinkOpen ++ rest.rdropWhile isWhitespace :=
  trim_append_of_self thinkOpen_dropWhile thinkOpen_rdropWhile thinkOpen_ne_nil rest

/-- The whole-text split takes every opening tag in front of the thinking away, the stream one. -/
theorem trim_thought_iff (before : Text) :
    trim (trimStartMatches thinkOpen (thinkOpen ++ before.rdropWhile isWhitespace)) = trim before ↔
      ¬ thinkOpen <+: before := by
  constructor
  · rintro heq ⟨r, rfl⟩
    have hback : (thinkOpen ++ r).rdropWhile isWhitespace = thinkOpen ++ r.rdropWhile isWhitespace :=
      rdropWhile_append_of_self thinkOpen_rdropWhile r
    rw [hback, trim_opened] at heq
    have hsuffix := trimStartMatches_append_suffix thinkOpen_ne_nil
      (thinkOpen ++ r.rdropWhile isWhitespace)
    have hstripped := trimStartMatches_not_prefix thinkOpen_ne_nil
      (thinkOpen ++ (thinkOpen ++ r.rdropWhile isWhitespace))
    -- what is left would have to be all of it, the second tag included
    have hlen : (trim (trimStartMatches thinkOpen
          (thinkOpen ++ (thinkOpen ++ r.rdropWhile isWhitespace)))).length ≤
        (trimStartMatches thinkOpen (thinkOpen ++ (thinkOpen ++ r.rdropWhile isWhitespace))).length :=
      length_trim_le _
    rw [heq] at hlen
    have hall := hsuffix.eq_of_length (Nat.le_antisymm hsuffix.length_le hlen)
    rw [hall] at hstripped
    exact hstripped (List.prefix_append _ _)
  · intro hno
    have hno' : ¬ thinkOpen <+: before.rdropWhile isWhitespace := fun hp =>
      hno (hp.trans (List.rdropWhile_prefix _ _))
    rw [trimStartMatches_append_of_not thinkOpen_ne_nil hno']
    exact trim_rdropWhile before

/-- What the whole-text split makes of a text that opens and closes a block. -/
theorem splitReasoning_closed {text rest before after : Text}
    (h : trimStart text = thinkOpen ++ rest)
    (hc : splitOnce thinkClose rest = some (before, after)) :
    splitReasoning text = (trim after, some (trim (trimStartMatches thinkOpen
      (thinkOpen ++ before.rdropWhile isWhitespace)))) := by
  have hblank : ∀ c ∈ text.takeWhile isWhitespace, isWhitespace c = true :=
    fun c hc => List.mem_takeWhile_imp hc
  have hthought : trim (text.takeWhile isWhitespace ++ (thinkOpen ++ before)) =
      thinkOpen ++ before.rdropWhile isWhitespace :=
    (trim_append_left hblank _).trans (trim_opened before)
  simp only [splitReasoning, splitOnce_opened h, hc, Option.map_some, hthought]

/-- The stream and the whole text split alike exactly where the tags agree. -/
theorem Sent.sameSplit_iff {text : Text} {ds : List Delta} (h : Sent text ds) :
    SameSplit ds (splitReasoning text) ↔ Agreeing text := by
  cases h with
  | «open» rest h hc hd =>
    have hs : Text.stripPrefix thinkOpen (trimStart text) = some rest := stripPrefix_some.mpr h
    have hno : ¬ thinkClose <:+: rest := splitOnce_none.mp hc
    have hsplit : splitReasoning text = (trim text, none) := by
      simp only [splitReasoning, splitOnce_opened h, hc, Option.map_none]
    rw [Agreeing, hs, hsplit]
    refine ⟨fun hsame => ?_, fun hagree => absurd hagree.1 hno⟩
    -- the stream sends no answer, the split's begins with the opening tag
    have hanswer := hsame.answer
    have htrim : trim text = thinkOpen ++ rest.rdropWhile isWhitespace := by
      rw [← trim_opened, ← h]
      exact (trim_dropWhile text).symm
    rw [hd, show trim (trim text) = trim text from trim_trim text, htrim] at hanswer
    exact absurd hanswer.symm (List.cons_ne_nil _ _)
  | closed rest before ws h hws hc hr =>
    have hs : Text.stripPrefix thinkOpen (trimStart text) = some rest := stripPrefix_some.mpr h
    obtain ⟨hrest, hcut⟩ := splitOnce_some hc
    rw [Agreeing, hs, splitReasoning_closed h hc]
    have hclose : thinkClose <:+: rest := ⟨before, ws ++ contentOf ds, hrest.symm⟩
    have hopen : thinkOpen <+: rest ↔ thinkOpen <+: before := by
      constructor
      · rintro ⟨r, rfl⟩
        rw [splitOnce_quiet (quiet_thinkOpen r)] at hc
        obtain ⟨split, -, heq⟩ := Option.map_eq_some_iff.mp hc
        rw [← (Prod.mk.inj heq).1]
        exact List.prefix_append _ _
      · exact fun hp => hp.trans (Lib.Search.cut_prefix hcut)
    have hanswer : trim (contentOf ds) = trim (trim (ws ++ contentOf ds)) :=
      ((trim_trim _).trans (trim_append_left hws _)).symm
    constructor
    · intro hsame
      refine ⟨hclose, fun hp => ?_⟩
      have hthought := hsame.thought _ rfl
      rw [hr] at hthought
      have heq := ((trim_trim before).symm.trans hthought).trans (trim_trim _)
      exact (trim_thought_iff before).mp heq.symm (hopen.mp hp)
    · rintro ⟨-, hno⟩
      refine ⟨hanswer, fun r hr' => ?_, fun hnone => by cases hnone⟩
      cases hr'
      rw [hr, (trim_thought_iff before).mpr fun hp => hno (hopen.mpr hp)]
  | plain h hr hc =>
    rw [Agreeing, stripPrefix_none.mpr h]
    constructor
    · intro hsame hclose
      obtain ⟨⟨before, after⟩, hsplit⟩ := Option.ne_none_iff_exists'.mp fun hnone =>
        splitOnce_none.mp hnone hclose
      have hanswer := hsame.answer
      have hval : (splitReasoning text).1 = trim after := by
        simp only [splitReasoning, hsplit]
      rw [hc, hval, (splitOnce_some hsplit).1] at hanswer
      exact trim_ne_answer before after (hanswer.trans (trim_trim after))
    · intro hno
      rw [splitReasoning_none hno]
      refine ⟨?_, fun r hr' => (by cases hr'), fun _ => hr⟩
      rw [hc]
      exact (trim_trim text).symm

/-- However a text is cut, its stream makes the split of the whole text exactly where the tags
agree. -/
theorem stream_split_iff (pieces : List Text) :
    SameSplit (ThinkSplitter.stream pieces) (splitReasoning pieces.flatten) ↔
      Agreeing pieces.flatten := (stream_sent pieces).sameSplit_iff

/-- A block that is never closed: thinking for the stream, answer for the whole text. -/
theorem open_block_splits_apart :
    ¬ ∀ pieces : List Text,
      SameSplit (ThinkSplitter.stream pieces) (splitReasoning pieces.flatten) := by
  intro h
  have hanswer := (h [thinkOpen, ['h', 'm']]).answer
  exact absurd hanswer (by decide)

end StudioWorker.Engine
