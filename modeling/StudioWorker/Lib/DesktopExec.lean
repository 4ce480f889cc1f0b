import Mathlib.Algebra.BigOperators.Group.List.Basic
import Mathlib.Algebra.GroupWithZero.Nat
import Mathlib.Algebra.Order.Group.Nat
import Mathlib.Tactic.SplitIfs

/-!
# Lib.DesktopExec — the command line of a desktop entry

The value of `Exec`, once its escapes are undone, is arguments parted by spaces, each bare or in
double quotes.  What a field code stands for is not in the entry, so that a line with one gives no
arguments here; `%%` is a percent sign.

* `arguments`: a value read.
* `arguments_joined_iff`: the words that are read back when they are joined by spaces.
* `command_iff`: the same, for a line among the lines of an entry.
-/

namespace Lib.DesktopExec

/-- The characters that an argument may have in quotes only. -/
def reserved : List Char := " \t\n\"'\\><~|&;$*?#()`".toList

/-- The characters that a backslash goes before in quotes. -/
def escapable : List Char := "\"`$\\".toList

/-- The escapes of a string value. -/
def unescape : List Char → Option (List Char)
  | [] => some []
  | '\\' :: 's' :: t => (unescape t).map (' ' :: ·)
  | '\\' :: 'n' :: t => (unescape t).map ('\n' :: ·)
  | '\\' :: 't' :: t => (unescape t).map ('\t' :: ·)
  | '\\' :: 'r' :: t => (unescape t).map ('\r' :: ·)
  | '\\' :: '\\' :: t => (unescape t).map ('\\' :: ·)
  | '\\' :: _ => none
  | c :: t => (unescape t).map (c :: ·)

inductive Mode where
  | between
  | bare (arg : List Char)
  /-- Behind a `%`. -/
  | percent (arg : List Char)
  | quoted (arg : List Char)
  /-- Behind a backslash. -/
  | escaped (arg : List Char)
  | closed (arg : List Char)

structure State where
  done : List (List Char)
  mode : Mode

def bareChar (done : List (List Char)) (arg : List Char) (c : Char) : Option State :=
  if c = '%' then some ⟨done, .percent arg⟩
  else if reserved.contains c then none
  else some ⟨done, .bare (arg ++ [c])⟩

def step (s : State) (c : Char) : Option State :=
  match s.mode with
  | .between =>
    if c = ' ' then some s
    else if c = '"' then some ⟨s.done, .quoted []⟩
    else bareChar s.done [] c
  | .bare arg => if c = ' ' then some ⟨s.done ++ [arg], .between⟩ else bareChar s.done arg c
  | .percent arg => if c = '%' then some ⟨s.done, .bare (arg ++ [c])⟩ else none
  | .quoted arg =>
    if c = '"' then some ⟨s.done, .closed arg⟩
    else if c = '\\' then some ⟨s.done, .escaped arg⟩
    else if c = '%' || escapable.contains c then none
    else some ⟨s.done, .quoted (arg ++ [c])⟩
  | .escaped arg => if escapable.contains c then some ⟨s.done, .quoted (arg ++ [c])⟩ else none
  | .closed arg => if c = ' ' then some ⟨s.done ++ [arg], .between⟩ else none

def finish (s : State) : Option (List (List Char)) :=
  match s.mode with
  | .between => some s.done
  | .bare arg | .closed arg => some (s.done ++ [arg])
  | _ => none

def arguments (value : List Char) : Option (List (List Char)) := do
  let text ← unescape value
  let s ← text.foldlM step ⟨[], .between⟩
  finish s

/-! ## What is read is no longer than the value -/

/-- Nothing special is in it. -/
def Word (w : List Char) : Prop := w ≠ [] ∧ ∀ c ∈ w, c ≠ '%' ∧ reserved.contains c = false

/-- The characters, with a space behind each argument. -/
def size (args : List (List Char)) : ℕ := (args.map fun a => a.length + 1).sum

def Mode.weight : Mode → ℕ
  | .between => 0
  | .bare arg | .percent arg | .quoted arg | .escaped arg | .closed arg => arg.length

def State.weight (s : State) : ℕ := size s.done + s.mode.weight

/-- Only words were read. -/
structure State.Plain (s : State) : Prop where
  done : ∀ a ∈ s.done, Word a
  mode : match s.mode with
    | .between => True
    | .bare arg => Word arg
    | _ => False

theorem size_append (args args' : List (List Char)) :
    size (args ++ args') = size args + size args' := by
  rw [size, List.map_append, List.sum_append]
  rfl

theorem size_singleton (arg : List Char) : size [arg] = arg.length + 1 := rfl

theorem unescape_length {value text : List Char} (h : unescape value = some text) :
    text.length ≤ value.length := by
  fun_induction unescape value generalizing text with
  | case1 => rw [← Option.some.inj h]
  | case7 => cases h
  | case2 _ ih | case3 _ ih | case4 _ ih | case5 _ ih | case6 _ ih =>
    obtain ⟨text, htext, rfl⟩ := Option.map_eq_some_iff.mp h
    have hle := ih htext
    simp only [List.length_cons]
    omega
  | case8 _ _ _ _ _ _ _ _ ih =>
    obtain ⟨text, htext, rfl⟩ := Option.map_eq_some_iff.mp h
    exact Nat.succ_le_succ (ih htext)

theorem bareChar_weight {done : List (List Char)} {arg : List Char} {c : Char} {s' : State}
    (h : bareChar done arg c = some s') :
    s'.weight ≤ size done + arg.length + 1 ∧
      ((∀ a ∈ done, Word a) → (∀ c ∈ arg, c ≠ '%' ∧ reserved.contains c = false) →
        s'.weight = size done + arg.length + 1 → s'.Plain) := by
  rw [bareChar] at h
  split_ifs at h with hpercent hreserved
  · obtain rfl := Option.some.inj h
    show size done + arg.length ≤ _ ∧ (_ → _ → size done + arg.length = _ → _)
    exact ⟨Nat.le_succ _, fun _ _ heq => absurd heq (Nat.ne_of_lt (Nat.lt_succ_self _))⟩
  · obtain rfl := Option.some.inj h
    have hweight : State.weight ⟨done, .bare (arg ++ [c])⟩ = size done + arg.length + 1 := by
      show size done + (arg ++ [c]).length = _
      rw [List.length_append, List.length_singleton, Nat.add_assoc]
    refine ⟨hweight.le, fun hdone harg _ => ⟨hdone, ?_, fun d hd => ?_⟩⟩
    · exact List.append_ne_nil_of_right_ne_nil _ (List.cons_ne_nil _ _)
    · rcases List.mem_append.mp hd with hd | hd
      · exact harg d hd
      · rw [List.mem_singleton.mp hd]
        exact ⟨hpercent, by simpa using hreserved⟩

/-- A character adds one at most, and only a plain one adds one to what is plain. -/
theorem step_weight {s s' : State} {c : Char} (h : step s c = some s') :
    s'.weight ≤ s.weight + 1 ∧ (s.Plain → s'.weight = s.weight + 1 → s'.Plain) := by
  obtain ⟨done, mode⟩ := s
  cases mode with
  | between =>
    rw [step] at h
    dsimp only at h
    split_ifs at h with hspace hquote
    · obtain rfl := Option.some.inj h
      exact ⟨Nat.le_succ _, fun hplain _ => hplain⟩
    · obtain rfl := Option.some.inj h
      exact ⟨Nat.le_succ _, fun _ heq => absurd heq (Nat.ne_of_lt (Nat.lt_succ_self _))⟩
    · obtain ⟨hle, hplain⟩ := bareChar_weight h
      exact ⟨hle, fun hs heq => hplain hs.done (fun c hc => absurd hc List.not_mem_nil) heq⟩
  | bare arg =>
    rw [step] at h
    dsimp only at h
    split_ifs at h with hspace
    · obtain rfl := Option.some.inj h
      have hweight : State.weight ⟨done ++ [arg], .between⟩ = size done + arg.length + 1 := by
        show size (done ++ [arg]) + 0 = _
        rw [size_append, size_singleton]
        omega
      refine ⟨hweight.le, fun hplain _ => ⟨fun a ha => ?_, trivial⟩⟩
      rcases List.mem_append.mp ha with ha | ha
      · exact hplain.done a ha
      · rw [List.mem_singleton.mp ha]
        exact hplain.mode
    · obtain ⟨hle, hplain⟩ := bareChar_weight h
      exact ⟨hle, fun hs heq => hplain hs.done hs.mode.2 heq⟩
  | percent arg =>
    refine ⟨?_, fun hplain => hplain.mode.elim⟩
    rw [step] at h
    dsimp only at h
    split_ifs at h
    obtain rfl := Option.some.inj h
    simp only [State.weight, Mode.weight, List.length_append, List.length_singleton]
    omega
  | quoted arg =>
    refine ⟨?_, fun hplain => hplain.mode.elim⟩
    rw [step] at h
    dsimp only at h
    split_ifs at h <;> obtain rfl := Option.some.inj h <;>
      simp only [State.weight, Mode.weight, List.length_append, List.length_singleton] <;> omega
  | escaped arg =>
    refine ⟨?_, fun hplain => hplain.mode.elim⟩
    rw [step] at h
    dsimp only at h
    split_ifs at h
    obtain rfl := Option.some.inj h
    simp only [State.weight, Mode.weight, List.length_append, List.length_singleton]
    omega
  | closed arg =>
    refine ⟨?_, fun hplain => hplain.mode.elim⟩
    rw [step] at h
    dsimp only at h
    split_ifs at h
    obtain rfl := Option.some.inj h
    simp only [State.weight, Mode.weight, size_append, size_singleton]
    omega

theorem foldlM_weight {text : List Char} {s s' : State} (h : text.foldlM step s = some s') :
    s'.weight ≤ s.weight + text.length ∧
      (s.Plain → s'.weight = s.weight + text.length → s'.Plain) := by
  induction text generalizing s with
  | nil =>
    rw [← Option.some.inj h]
    exact ⟨Nat.le_refl _, fun hplain _ => hplain⟩
  | cons c text ih =>
    obtain ⟨s₁, hstep, hrest⟩ := Option.bind_eq_some_iff.mp h
    obtain ⟨hle, hplain⟩ := step_weight hstep
    obtain ⟨hle', hplain'⟩ := ih hrest
    rw [List.length_cons]
    exact ⟨by omega, fun hs heq => hplain' (hplain hs (by omega)) (by omega)⟩

/-- What is read takes no more room than the value, and as much only where it is words. -/
theorem arguments_size {value : List Char} {args : List (List Char)}
    (h : arguments value = some args) :
    size args ≤ value.length + 1 ∧ (size args = value.length + 1 → ∀ a ∈ args, Word a) := by
  obtain ⟨text, htext, h⟩ := Option.bind_eq_some_iff.mp h
  obtain ⟨s, hs, h⟩ := Option.bind_eq_some_iff.mp h
  have hlen := unescape_length htext
  obtain ⟨hle, hplain⟩ := foldlM_weight hs
  have hzero : State.weight ⟨[], .between⟩ = 0 := rfl
  have hstart : State.Plain ⟨[], .between⟩ := ⟨fun a ha => absurd ha List.not_mem_nil, trivial⟩
  have hbound : size args ≤ s.weight + 1 ∧
      (size args = s.weight + 1 → s.Plain → ∀ a ∈ args, Word a) := by
    obtain ⟨done, mode⟩ := s
    cases mode with
    | between =>
      rw [← Option.some.inj h]
      exact ⟨Nat.le_succ _, fun _ hs => hs.done⟩
    | bare arg =>
      rw [← Option.some.inj h, size_append, size_singleton]
      refine ⟨Nat.le_refl _, fun _ hs a ha => ?_⟩
      rcases List.mem_append.mp ha with ha | ha
      · exact hs.done a ha
      · rw [List.mem_singleton.mp ha]
        exact hs.mode
    | closed arg =>
      rw [← Option.some.inj h, size_append, size_singleton]
      exact ⟨Nat.le_refl _, fun _ hs => hs.mode.elim⟩
    | percent arg => cases h
    | quoted arg => cases h
    | escaped arg => cases h
  exact ⟨by omega, fun heq => hbound.2 (by omega) (hplain hstart (by omega))⟩

/-! ## Words are read back -/

theorem unescape_of_notMem {value : List Char} (h : '\\' ∉ value) :
    unescape value = some value := by
  induction value with
  | nil => rfl
  | cons c value ih =>
    have hc : c ≠ '\\' := fun heq => h (heq ▸ List.mem_cons_self)
    rw [unescape, ih fun hmem => h (List.mem_cons_of_mem _ hmem)]
    · rfl
    all_goals simp [hc]

theorem reserved_space : reserved.contains ' ' = true := by decide

theorem reserved_quote : reserved.contains '"' = true := by decide

theorem step_word {done : List (List Char)} {arg : List Char} {c : Char}
    (h : c ≠ '%' ∧ reserved.contains c = false) :
    step ⟨done, .bare arg⟩ c = some ⟨done, .bare (arg ++ [c])⟩ := by
  have hspace : c ≠ ' ' := by
    rintro rfl
    rw [reserved_space] at h
    exact absurd h.2 Bool.true_eq_false_eq_False
  rw [step]
  dsimp only
  rw [if_neg hspace, bareChar, if_neg h.1, if_neg (by rw [h.2]; exact Bool.false_ne_true)]

theorem foldlM_bare {done : List (List Char)} {arg w : List Char}
    (h : ∀ c ∈ w, c ≠ '%' ∧ reserved.contains c = false) :
    w.foldlM step ⟨done, .bare arg⟩ = some ⟨done, .bare (arg ++ w)⟩ := by
  induction w generalizing arg with
  | nil =>
    rw [List.append_nil]
    rfl
  | cons c w ih =>
    rw [List.foldlM_cons, step_word (h c List.mem_cons_self)]
    show w.foldlM step ⟨done, .bare (arg ++ [c])⟩ = _
    rw [ih fun d hd => h d (List.mem_cons_of_mem _ hd), List.append_assoc]
    rfl

theorem foldlM_word {done : List (List Char)} {w : List Char} (h : Word w) :
    w.foldlM step ⟨done, .between⟩ = some ⟨done, .bare w⟩ := by
  obtain ⟨hne, hall⟩ := h
  obtain ⟨c, w, rfl⟩ := List.exists_cons_of_ne_nil hne
  obtain ⟨hpercent, hreserved⟩ := hall c List.mem_cons_self
  have hspace : c ≠ ' ' := by
    rintro rfl
    rw [reserved_space] at hreserved
    cases hreserved
  have hquote : c ≠ '"' := by
    rintro rfl
    rw [reserved_quote] at hreserved
    cases hreserved
  have hfirst : step ⟨done, .between⟩ c = some ⟨done, .bare [c]⟩ := by
    rw [step]
    dsimp only
    rw [if_neg hspace, if_neg hquote, bareChar, if_neg hpercent,
      if_neg (by rw [hreserved]; exact Bool.false_ne_true)]
    rfl
  rw [List.foldlM_cons, hfirst]
  exact foldlM_bare fun d hd => hall d (List.mem_cons_of_mem _ hd)

/-- Words, with a space between. -/
def joined (words : List (List Char)) : List Char := List.intercalate [' '] words

theorem joined_cons_cons (w w' : List Char) (words : List (List Char)) :
    joined (w :: w' :: words) = w ++ ' ' :: joined (w' :: words) := by
  rw [joined, List.intercalate_cons_cons]
  simp [joined]

theorem joined_cons (w : List Char) (words : List (List Char)) :
    ∃ t, joined (w :: words) = w ++ t := by
  rcases words with _ | ⟨w', words⟩
  · exact ⟨[], by simp [joined]⟩
  · exact ⟨_, joined_cons_cons w w' words⟩

theorem joined_append {words words' : List (List Char)} (hne : words ≠ []) (hne' : words' ≠ []) :
    joined (words ++ words') = joined words ++ ' ' :: joined words' := by
  induction words with
  | nil => exact absurd rfl hne
  | cons w words ih =>
    rcases words with _ | ⟨v, words⟩
    · obtain ⟨w', words', rfl⟩ := List.exists_cons_of_ne_nil hne'
      have hsingle : joined [w] = w := by simp [joined]
      rw [hsingle]
      exact joined_cons_cons w w' words'
    · have hcons : joined (w :: v :: words ++ words') = w ++ ' ' :: joined (v :: words ++ words') :=
        joined_cons_cons w v (words ++ words')
      rw [hcons, ih (List.cons_ne_nil _ _), joined_cons_cons, List.append_assoc]
      rfl

theorem size_joined {words : List (List Char)} (hne : words ≠ []) :
    size words = (joined words).length + 1 := by
  induction words with
  | nil => exact absurd rfl hne
  | cons w words ih =>
    rcases words with _ | ⟨w', words⟩
    · simp [size, joined]
    · rw [joined_cons_cons, List.length_append, List.length_cons]
      have hcons : size (w :: w' :: words) = w.length + 1 + size (w' :: words) := rfl
      have htail := ih (List.cons_ne_nil _ _)
      omega

theorem mem_joined {words : List (List Char)} {c : Char} (h : c ∈ joined words) :
    c = ' ' ∨ ∃ w ∈ words, c ∈ w := by
  induction words with
  | nil => cases h
  | cons w words ih =>
    rcases words with _ | ⟨w', words⟩
    · refine Or.inr ⟨w, List.mem_cons_self, ?_⟩
      simpa [joined] using h
    · rw [joined_cons_cons] at h
      rcases List.mem_append.mp h with h | h
      · exact Or.inr ⟨w, List.mem_cons_self, h⟩
      · rcases List.mem_cons.mp h with rfl | h
        · exact Or.inl rfl
        · rcases ih h with rfl | ⟨v, hv, hc⟩
          · exact Or.inl rfl
          · exact Or.inr ⟨v, List.mem_cons_of_mem _ hv, hc⟩

theorem foldlM_joined {words : List (List Char)} (hne : words ≠ []) (h : ∀ w ∈ words, Word w)
    (done : List (List Char)) :
    ((joined words).foldlM step ⟨done, .between⟩).bind finish = some (done ++ words) := by
  induction words generalizing done with
  | nil => exact absurd rfl hne
  | cons w words ih =>
    have hw := h w List.mem_cons_self
    rcases words with _ | ⟨w', words⟩
    · have hjoined : joined [w] = w := by simp [joined]
      rw [hjoined, foldlM_word hw]
      rfl
    · rw [joined_cons_cons, List.foldlM_append, foldlM_word hw]
      show (List.foldlM step ⟨done ++ [w], .between⟩ (joined (w' :: words))).bind finish = _
      rw [ih (List.cons_ne_nil _ _) (fun v hv => h v (List.mem_cons_of_mem _ hv)),
        List.append_assoc]
      rfl

/-- The arguments that are read back when they are joined by spaces. -/
theorem arguments_joined_iff {words : List (List Char)} (hne : words ≠ []) :
    arguments (joined words) = some words ↔ ∀ w ∈ words, Word w := by
  constructor
  · intro h
    exact (arguments_size h).2 (size_joined hne)
  · intro h
    have hslash : '\\' ∉ joined words := by
      intro hmem
      rcases mem_joined hmem with heq | ⟨w, hw, hc⟩
      · exact absurd heq (by decide)
      · have hplain := ((h w hw).2 _ hc).2
        exact absurd hplain (by decide)
    rw [arguments, unescape_of_notMem hslash]
    exact foldlM_joined hne h []

/-! ## The line of an entry -/

/-- The values of a key, in the lines of an entry. -/
def valuesOf (key : List Char) (entry : List Char) : List (List Char) :=
  (entry.splitOn '\n').filterMap fun line =>
    if key ++ ['='] <+: line then some (line.drop (key.length + 1)) else none

/-- The value of `Exec`, which an entry has once. -/
def exec (entry : List Char) : Option (List Char) :=
  match valuesOf "Exec".toList entry with
  | [value] => some value
  | _ => none

/-- The command of an entry: spaces before it do not count, and its program has no equals sign in
its name. -/
def command (entry : List Char) : Option (List (List Char)) := do
  let value ← exec entry
  let args ← arguments (value.dropWhile (· == ' '))
  match args with
  | [] => none
  | program :: _ => if program.contains '=' then none else some args

/-- Lines, each with its end. -/
def unlines (lines : List (List Char)) : List Char := lines.flatMap (· ++ ['\n'])

section Lines

variable {key value rest : List Char} {lines : List (List Char)}

theorem valuesOf_unlines (h : ∀ l ∈ lines, '\n' ∉ l ∧ ¬ key ++ ['='] <+: l) :
    valuesOf key (unlines lines ++ rest) = valuesOf key rest := by
  induction lines with
  | nil => rfl
  | cons l lines ih =>
    obtain ⟨hend, hkey⟩ := h l List.mem_cons_self
    have hcat : unlines (l :: lines) ++ rest = l ++ '\n' :: (unlines lines ++ rest) := by
      simp [unlines]
    rw [hcat, valuesOf, List.splitOn_append_cons_self_of_not_mem hend, List.filterMap_cons,
      if_neg hkey]
    exact ih fun l' hl' => h l' (List.mem_cons_of_mem _ hl')

theorem valuesOf_cons (hkey : '\n' ∉ key) (hvalue : '\n' ∉ value) :
    valuesOf key (key ++ '=' :: value ++ '\n' :: rest) = value :: valuesOf key rest := by
  have hline : '\n' ∉ key ++ '=' :: value := by
    rw [List.mem_append, List.mem_cons]
    rintro (h | h | h)
    · exact hkey h
    · exact absurd h (by decide)
    · exact hvalue h
  have hprefix : key ++ ['='] <+: key ++ '=' :: value := ⟨value, by simp⟩
  have hdrop : (key ++ '=' :: value).drop (key.length + 1) = value := by
    rw [List.drop_append, List.drop_eq_nil_of_le (Nat.le_succ _), Nat.add_sub_cancel_left]
    rfl
  rw [valuesOf, List.splitOn_append_cons_self_of_not_mem hline, List.filterMap_cons,
    if_pos hprefix, hdrop]
  rfl

/-- The value that is found is no longer than what was written. -/
theorem exec_length (hlines : ∀ l ∈ lines, '\n' ∉ l ∧ ¬ "Exec".toList ++ ['='] <+: l)
    {v : List Char}
    (h : exec (unlines lines ++ ("Exec".toList ++ '=' :: value ++ '\n' :: rest)) = some v) :
    v.length ≤ value.length := by
  rw [exec, valuesOf_unlines hlines] at h
  by_cases hend : '\n' ∈ value
  · obtain ⟨first, more, rfl, hnot⟩ := List.eq_append_cons_of_mem hend
    have hcat : "Exec".toList ++ '=' :: (first ++ '\n' :: more) ++ '\n' :: rest =
        "Exec".toList ++ '=' :: first ++ '\n' :: (more ++ '\n' :: rest) := by simp
    rw [hcat, valuesOf_cons (by decide) hnot] at h
    rcases hmore : valuesOf "Exec".toList (more ++ '\n' :: rest) with _ | ⟨v', vs⟩
    · rw [hmore] at h
      rw [← Option.some.inj h, List.length_append]
      exact Nat.le_add_right _ _
    · rw [hmore] at h
      cases h
  · rw [valuesOf_cons (by decide) hend] at h
    rcases hmore : valuesOf "Exec".toList rest with _ | ⟨v', vs⟩
    · rw [hmore] at h
      rw [← Option.some.inj h]
    · rw [hmore] at h
      cases h

/-- The commands that are read back from a line of an entry with their words joined by spaces. -/
theorem command_iff (hlines : ∀ l ∈ lines, '\n' ∉ l ∧ ¬ "Exec".toList ++ ['='] <+: l)
    (hrest : valuesOf "Exec".toList rest = []) (program : List Char) (args : List (List Char)) :
    command (unlines lines ++
      ("Exec".toList ++ '=' :: joined (program :: args) ++ '\n' :: rest)) = some (program :: args) ↔
      (∀ w ∈ program :: args, Word w) ∧ '=' ∉ program := by
  have hne : program :: args ≠ [] := List.cons_ne_nil _ _
  constructor
  · intro h
    obtain ⟨v, hv, h⟩ := Option.bind_eq_some_iff.mp h
    obtain ⟨args', hargs, h⟩ := Option.bind_eq_some_iff.mp h
    have hlen := exec_length hlines hv
    have hdrop := (List.dropWhile_suffix (l := v) (· == ' ')).length_le
    rcases args' with _ | ⟨program', args'⟩
    · cases h
    · dsimp only at h
      split_ifs at h with hequals
      obtain ⟨rfl, rfl⟩ := List.cons.inj (Option.some.inj h)
      obtain ⟨hle, hwords⟩ := arguments_size hargs
      have hsize := size_joined hne
      refine ⟨hwords (by omega), ?_⟩
      simpa using hequals
  · rintro ⟨hwords, hequals⟩
    have hend : '\n' ∉ joined (program :: args) := by
      intro hmem
      rcases mem_joined hmem with heq | ⟨w, hw, hc⟩
      · exact absurd heq (by decide)
      · exact absurd (hwords w hw |>.2 _ hc).2 (by decide)
    have hspaces : (joined (program :: args)).dropWhile (· == ' ') = joined (program :: args) := by
      obtain ⟨hnonempty, hall⟩ := hwords program List.mem_cons_self
      obtain ⟨c, w, rfl⟩ := List.exists_cons_of_ne_nil hnonempty
      obtain ⟨t, ht⟩ := joined_cons (c :: w) args
      have hspace : ¬ (c == ' ') = true := by
        intro heq
        rw [eq_of_beq heq] at hall
        exact absurd (hall ' ' List.mem_cons_self).2 (by decide)
      have hdrop : ∀ l : List Char, (c :: l).dropWhile (· == ' ') = c :: l := fun l =>
        List.dropWhile_cons_of_neg hspace
      rw [ht]
      exact hdrop _
    have hexec : exec (unlines lines ++
        ("Exec".toList ++ '=' :: joined (program :: args) ++ '\n' :: rest)) =
          some (joined (program :: args)) := by
      rw [exec, valuesOf_unlines hlines, valuesOf_cons (by decide) hend, hrest]
    rw [command, hexec, Option.bind_eq_bind, Option.bind_some, hspaces,
      (arguments_joined_iff hne).mpr hwords]
    exact if_neg (by simpa using hequals)

end Lines

end Lib.DesktopExec
