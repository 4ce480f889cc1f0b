import StudioWorker.Lib.Search

/-!
# Lib.Plist — an array of strings in a property list

The markup of XML that a string may have: references, CDATA, comments and processing instructions.

* `arrayOf`: the array under a key, once the line ends of the document are made one.
* `content_size`: a string is no longer than what stands for it.
* `content_iff`: the strings that stand for themselves.
-/

namespace Lib.Plist

open Lib.Search

/-- `Char` of XML 1.0 -/
def isXmlChar (c : Char) : Bool :=
  let n := c.toNat
  n == 9 || n == 10 || n == 13 || (0x20 ≤ n && n ≤ 0xD7FF) || (0xE000 ≤ n && n ≤ 0xFFFD) ||
    0x10000 ≤ n

/-- `S` of XML 1.0 -/
def isSpace (c : Char) : Bool := c == ' ' || c == '\t' || c == '\n' || c == '\r'

/-- Every line end is one line feed. -/
def lineEnds : List Char → List Char
  | [] => []
  | '\r' :: '\n' :: t => '\n' :: lineEnds t
  | '\r' :: t => '\n' :: lineEnds t
  | c :: t => c :: lineEnds t

def digit (base : ℕ) (c : Char) : Option ℕ :=
  let n := c.toNat
  let d :=
    if '0' ≤ c ∧ c ≤ '9' then some (n - 48)
    else if 'a' ≤ c ∧ c ≤ 'f' then some (n - 87)
    else if 'A' ≤ c ∧ c ≤ 'F' then some (n - 55)
    else none
  d.filter (· < base)

/-- A character by its number. -/
def numbered (base : ℕ) (digits : List Char) : Option Char := do
  if digits = [] then none
  let n ← digits.foldlM (fun n c => (digit base c).map fun d => n * base + d) 0
  let c := Char.ofNat n
  if c.toNat = n ∧ isXmlChar c then some c else none

/-- What is between `&` and `;`. -/
def reference : List Char → Option Char
  | '#' :: 'x' :: digits => numbered 16 digits
  | '#' :: digits => numbered 10 digits
  | name =>
    [("lt".toList, '<'), ("gt".toList, '>'), ("amp".toList, '&'), ("quot".toList, '"'),
      ("apos".toList, '\'')].lookup name

/-- Characters and references; `name` is that of the reference that is open. -/
def charData : Option (List Char) → List Char → Option (List Char)
  | none, [] => some []
  | some _, [] => none
  | none, c :: t => if c = '&' then charData (some []) t else (charData none t).map (c :: ·)
  | some name, c :: t =>
    if c = ';' then (reference name).bind fun d => (charData none t).map (d :: ·)
    else charData (some (name ++ [c])) t

def cdataStart : List Char := "![CDATA[".toList
def cdataEnd : List Char := "]]>".toList
def commentStart : List Char := "!--".toList
def commentEnd : List Char := "-->".toList
def instructionStart : List Char := "?".toList
def instructionEnd : List Char := "?>".toList

/-- What markup behind a `<` keeps, and what follows it. -/
def markup (t : List Char) : Option (List Char × List Char) :=
  if cdataStart <+: t then splitOnce cdataEnd (t.drop cdataStart.length)
  else if commentStart <+: t then
    (splitOnce commentEnd (t.drop commentStart.length)).map fun p => ([], p.2)
  else if instructionStart <+: t then
    (splitOnce instructionEnd (t.drop instructionStart.length)).map fun p => ([], p.2)
  else none

/-- Character data has no end of CDATA in it. -/
def text (t : List Char) : Option (List Char) :=
  if (splitOnce cdataEnd t).isSome then none else charData none t

def stringEnd : List Char := "/string>".toList

/-- The content of a string up to its end tag, and what follows that. -/
def content : ℕ → List Char → Option (List Char × List Char)
  | 0, _ => none
  | fuel + 1, t => do
    let (chars, rest) ← splitOnce ['<'] t
    let data ← text chars
    if stringEnd <+: rest then some (data, rest.drop stringEnd.length)
    else do
      let (kept, rest) ← markup rest
      let (more, rest) ← content fuel rest
      some (data ++ kept ++ more, rest)

/-- Strings up to the end tag of their array. -/
def strings : ℕ → List Char → Option (List (List Char))
  | 0, _ => none
  | fuel + 1, t =>
    let t := t.dropWhile isSpace
    if "</array>".toList <+: t then some []
    else if "<string>".toList <+: t then do
      let (s, rest) ← content t.length (t.drop "<string>".length)
      let more ← strings fuel rest
      some (s :: more)
    else none

def keyTag (key : List Char) : List Char := "<key>".toList ++ key ++ "</key>".toList

/-- What is behind the first such key. -/
def arrayAfter (key t : List Char) : Option (List (List Char)) := do
  let (_, t) ← splitOnce (keyTag key) t
  let t := t.dropWhile isSpace
  if "<array>".toList <+: t then strings t.length (t.drop "<array>".length) else none

/-- The array of strings under a key. -/
def arrayOf (key document : List Char) : Option (List (List Char)) :=
  if document.all isXmlChar then arrayAfter key (lineEnds document) else none

/-! ## Line ends -/

section LineEnds

variable {a b t : List Char}

theorem lineEnds_cons {c : Char} (h : c ≠ '\r') : lineEnds (c :: t) = c :: lineEnds t := by
  rw [lineEnds]
  all_goals simp [h]

theorem lineEnds_append_of_notMem (h : '\r' ∉ a) : lineEnds (a ++ b) = a ++ lineEnds b := by
  induction a with
  | nil => rfl
  | cons c a ih =>
    have hc : c ≠ '\r' := fun heq => h (heq ▸ List.mem_cons_self)
    rw [List.cons_append, lineEnds_cons hc, ih fun hmem => h (List.mem_cons_of_mem _ hmem)]
    rfl

theorem lineEnds_of_notMem (h : '\r' ∉ t) : lineEnds t = t := by
  have happend := lineEnds_append_of_notMem (b := []) h
  rwa [List.append_nil, lineEnds, List.append_nil] at happend

theorem notMem_lineEnds : '\r' ∉ lineEnds t := by
  fun_induction lineEnds t with
  | case1 => exact List.not_mem_nil
  | case2 t ih | case3 t _ ih =>
    rintro (_ | ⟨_, hmem⟩)
    exact ih hmem
  | case4 c t _ hreturn ih =>
    rintro (_ | ⟨_, hmem⟩)
    · exact hreturn rfl
    · exact ih hmem

theorem length_lineEnds : (lineEnds t).length ≤ t.length := by
  fun_induction lineEnds t with
  | case1 => exact Nat.le_refl _
  | case2 t ih =>
    simp only [List.length_cons]
    omega
  | case3 t _ ih => exact Nat.succ_le_succ ih
  | case4 c t _ _ ih => exact Nat.succ_le_succ ih

/-- Behind a text that does not go on with a line feed. -/
theorem lineEnds_append_cons {c : Char} (hc : c ≠ '\n') (h : '\r' ∉ c :: b) :
    lineEnds (a ++ c :: b) = lineEnds a ++ c :: b := by
  fun_induction lineEnds a with
  | case1 => exact lineEnds_of_notMem h
  | case2 t ih =>
    rw [List.cons_append, List.cons_append, lineEnds, ih]
    rfl
  | case3 t hfeed ih =>
    rw [List.cons_append, lineEnds, ih]
    · rfl
    · intro t' heq
      rcases t with _ | ⟨d, t⟩
      · exact hc (List.cons.inj heq).1
      · exact hfeed t (by rw [(List.cons.inj heq).1])
  | case4 d t _ hreturn ih =>
    rw [List.cons_append, lineEnds_cons hreturn, ih]
    rfl

end LineEnds

/-! ## What is read is no longer than the text -/

/-- No markup and no reference is in it. -/
structure Plain (t : List Char) : Prop where
  reference : '&' ∉ t
  tag : '<' ∉ t
  cdata : ¬ cdataEnd <:+: t

theorem charData_size {t d : List Char} {name : Option (List Char)} (h : charData name t = some d) :
    d.length ≤ t.length ∧ (name = none → d.length = t.length → '&' ∉ t ∧ d = t) := by
  induction t generalizing name d with
  | nil =>
    rcases name with _ | name
    · obtain rfl := Option.some.inj h
      exact ⟨Nat.le_refl _, fun _ _ => ⟨List.not_mem_nil, rfl⟩⟩
    · cases h
  | cons c t ih =>
    rcases name with _ | name
    · rw [charData] at h
      split_ifs at h with hreference
      · have hle := (ih h).1
        refine ⟨Nat.le_succ_of_le hle, fun _ heq => ?_⟩
        rw [List.length_cons] at heq
        omega
      · obtain ⟨d, hd, rfl⟩ := Option.map_eq_some_iff.mp h
        obtain ⟨hle, hplain⟩ := ih hd
        refine ⟨Nat.succ_le_succ hle, fun _ heq => ?_⟩
        obtain ⟨hnot, rfl⟩ := hplain rfl (Nat.succ.inj heq)
        refine ⟨?_, rfl⟩
        rintro (_ | ⟨_, hmem⟩)
        · exact hreference rfl
        · exact hnot hmem
    · refine ⟨?_, fun hnone => by cases hnone⟩
      rw [charData] at h
      split_ifs at h with hend
      · obtain ⟨r, -, h⟩ := Option.bind_eq_some_iff.mp h
        obtain ⟨d, hd, rfl⟩ := Option.map_eq_some_iff.mp h
        exact Nat.succ_le_succ (ih hd).1
      · exact Nat.le_succ_of_le (ih h).1

theorem charData_of_notMem {t : List Char} (h : '&' ∉ t) : charData none t = some t := by
  induction t with
  | nil => rfl
  | cons c t ih =>
    have hc : c ≠ '&' := fun heq => h (heq ▸ List.mem_cons_self)
    rw [charData, if_neg hc, ih fun hmem => h (List.mem_cons_of_mem _ hmem)]
    rfl

theorem text_size {t d : List Char} (h : text t = some d) :
    d.length ≤ t.length ∧ (d.length = t.length → '&' ∉ t ∧ ¬ cdataEnd <:+: t ∧ d = t) := by
  rw [text] at h
  split_ifs at h with hcdata
  obtain ⟨hle, hplain⟩ := charData_size h
  refine ⟨hle, fun heq => ?_⟩
  obtain ⟨hreference, rfl⟩ := hplain rfl heq
  refine ⟨hreference, ?_, rfl⟩
  rw [← splitOnce_none]
  simpa using hcdata

theorem text_plain {t : List Char} (h : Plain t) : text t = some t := by
  rw [text, splitOnce_none.mpr h.cdata, charData_of_notMem h.reference]
  exact if_neg (by simp)

section Markup

variable {c : Char} {start stop b s kept rest : List Char}

/-- A start that is before a `c` it does not have. -/
theorem drop_before (hstart : c ∉ start) (h : start <+: b ++ c :: s) :
    ∃ b', b = start ++ b' ∧ (b ++ c :: s).drop start.length = b' ++ c :: s := by
  obtain ⟨r, hr⟩ := h
  rcases List.append_eq_append_iff.mp hr with ⟨m, rfl, hm⟩ | ⟨m, rfl, hm⟩
  · exact ⟨m, rfl, by rw [List.append_assoc, List.drop_left]⟩
  · rcases m with _ | ⟨d, m⟩
    · refine ⟨[], by simp, ?_⟩
      rw [List.append_nil, List.drop_left]
      rfl
    · obtain ⟨rfl, -⟩ := List.cons.inj hm
      exact absurd (List.mem_append_right b List.mem_cons_self) hstart

/-- A stop that is not behind a `c` is before it. -/
theorem splitOnce_before (hstop : c ∉ stop) (hs : ¬ stop <:+: s)
    (h : splitOnce stop (b ++ c :: s) = some (kept, rest)) :
    ∃ e, rest = e ++ c :: s ∧ kept.length + e.length ≤ b.length := by
  obtain ⟨heq, -⟩ := splitOnce_some h
  rcases List.append_eq_append_iff.mp heq.symm with ⟨m, rfl, rfl⟩ | ⟨m, hm, hrest⟩
  · refine ⟨m, rfl, ?_⟩
    simp only [List.length_append]
    omega
  · rcases m with _ | ⟨d, m⟩
    · refine ⟨[], hrest.symm, ?_⟩
      have hlen := congrArg List.length hm
      simp only [List.length_append, List.length_nil] at hlen ⊢
      omega
    · obtain ⟨rfl, rfl⟩ := List.cons.inj hrest
      -- The stop would reach over `c`, and would have it or be behind it.
      rcases List.append_eq_append_iff.mp hm with ⟨x, rfl, hx⟩ | ⟨x, rfl, hx⟩
      · rw [hx] at hstop
        exact absurd (List.mem_append_right x List.mem_cons_self) hstop
      · rcases x with _ | ⟨d, x⟩
        · rw [← List.nil_append stop, ← hx] at hstop
          exact absurd List.mem_cons_self hstop
        · obtain ⟨rfl, rfl⟩ := List.cons.inj hx
          exact absurd ⟨x, rest, by simp⟩ hs

/-- No markup ends in it. -/
structure Open (s : List Char) : Prop where
  cdata : ¬ cdataEnd <:+: s
  comment : ¬ commentEnd <:+: s
  instruction : ¬ instructionEnd <:+: s

theorem markup_size (hs : Open s) (h : markup (b ++ '<' :: s) = some (kept, rest)) :
    ∃ e, rest = e ++ '<' :: s ∧ kept.length + e.length ≤ b.length := by
  rw [markup] at h
  split_ifs at h with hcdata hcomment hinstruction
  · obtain ⟨b', rfl, hdrop⟩ := drop_before (by decide) hcdata
    rw [hdrop] at h
    obtain ⟨e, he, hle⟩ := splitOnce_before (by decide) hs.cdata h
    exact ⟨e, he, hle.trans (by rw [List.length_append]; exact Nat.le_add_left _ _)⟩
  · obtain ⟨b', rfl, hdrop⟩ := drop_before (by decide) hcomment
    rw [hdrop] at h
    obtain ⟨p, hp, heq⟩ := Option.map_eq_some_iff.mp h
    obtain ⟨rfl, rfl⟩ := Prod.mk.inj heq
    obtain ⟨e, he, hle⟩ := splitOnce_before (by decide) hs.comment hp
    refine ⟨e, he, ?_⟩
    simp only [List.length_append, List.length_nil]
    omega
  · obtain ⟨b', rfl, hdrop⟩ := drop_before (by decide) hinstruction
    rw [hdrop] at h
    obtain ⟨p, hp, heq⟩ := Option.map_eq_some_iff.mp h
    obtain ⟨rfl, rfl⟩ := Prod.mk.inj heq
    obtain ⟨e, he, hle⟩ := splitOnce_before (by decide) hs.instruction hp
    refine ⟨e, he, ?_⟩
    simp only [List.length_append, List.length_nil]
    omega

end Markup

section Content

variable {e d s rest : List Char} {fuel : ℕ}

/-- The content that is read is no longer than the text before the end tag, and as long only where
that stands for itself. -/
theorem content_size (hs : Open (stringEnd ++ s))
    (h : content fuel (e ++ '<' :: (stringEnd ++ s)) = some (d, rest)) :
    d.length ≤ e.length ∧ (d.length = e.length → Plain e ∧ d = e) := by
  induction fuel generalizing e d rest with
  | zero => cases h
  | succ fuel ih =>
    obtain ⟨⟨chars, after⟩, hsplit, htail⟩ := Option.bind_eq_some_iff.mp h
    obtain ⟨data, hdata, hbody⟩ := Option.bind_eq_some_iff.mp htail
    clear h htail
    dsimp only at hdata hbody
    obtain ⟨hle, hplain⟩ := text_size hdata
    by_cases htag : '<' ∈ e
    · obtain ⟨a, b, rfl, ha⟩ := List.eq_append_cons_of_mem htag
      have hcat : a ++ '<' :: b ++ '<' :: (stringEnd ++ s) =
          a ++ '<' :: (b ++ '<' :: (stringEnd ++ s)) := by simp
      rw [hcat, splitOnce_singleton_some.mpr ⟨rfl, ha⟩] at hsplit
      obtain ⟨rfl, rfl⟩ := Prod.mk.inj (Option.some.inj hsplit)
      -- The tag in the text takes room that nothing read makes up for.
      suffices hlt : d.length < (a ++ '<' :: b).length from
        ⟨hlt.le, fun heq => absurd heq hlt.ne⟩
      rw [List.length_append, List.length_cons]
      split_ifs at hbody with hend
      · obtain ⟨rfl, -⟩ := Prod.mk.inj (Option.some.inj hbody)
        omega
      · obtain ⟨⟨kept, after⟩, hmarkup, hmarked⟩ := Option.bind_eq_some_iff.mp hbody
        obtain ⟨⟨more, last⟩, hmore, hall⟩ := Option.bind_eq_some_iff.mp hmarked
        obtain ⟨rfl, -⟩ := Prod.mk.inj (Option.some.inj hall)
        obtain ⟨e', rfl, hkept⟩ := markup_size hs hmarkup
        have hrest := (ih hmore).1
        simp only [List.length_append]
        omega
    · rw [splitOnce_singleton_some.mpr ⟨rfl, htag⟩] at hsplit
      obtain ⟨rfl, rfl⟩ := Prod.mk.inj (Option.some.inj hsplit)
      rw [if_pos (List.prefix_append _ _)] at hbody
      obtain ⟨rfl, -⟩ := Prod.mk.inj (Option.some.inj hbody)
      refine ⟨hle, fun heq => ?_⟩
      obtain ⟨hreference, hcdata, rfl⟩ := hplain heq
      exact ⟨⟨hreference, htag, hcdata⟩, rfl⟩

theorem content_plain (he : Plain e) :
    content (fuel + 1) (e ++ '<' :: (stringEnd ++ s)) = some (e, s) := by
  have hsplit : splitOnce ['<'] (e ++ '<' :: (stringEnd ++ s)) = some (e, stringEnd ++ s) :=
    splitOnce_singleton_some.mpr ⟨rfl, he.tag⟩
  rw [content, hsplit, Option.bind_eq_bind, Option.bind_some]
  dsimp only
  rw [text_plain he, Option.bind_eq_bind, Option.bind_some, if_pos (List.prefix_append _ _),
    List.drop_left]

theorem strings_cons {gap : List Char} (hgap : ∀ c ∈ gap, isSpace c = true) :
    strings (fuel + 1) (gap ++ ("<string>".toList ++ s)) =
      (content ("<string>".toList ++ s).length s).bind fun p =>
        (strings fuel p.2).map (p.1 :: ·) := by
  have hspaces : (gap ++ ("<string>".toList ++ s)).dropWhile isSpace = "<string>".toList ++ s := by
    rw [List.dropWhile_append_of_pos hgap]
    rfl
  have harray : ¬ "</array>".toList <+: "<string>".toList ++ s := by
    rintro ⟨r, hr⟩
    exact absurd (List.cons.inj (List.cons.inj hr).2).1 (by decide)
  have hlength : "<string>".length = "<string>".toList.length := rfl
  rw [strings]
  dsimp only
  rw [hspaces, if_neg harray, if_pos (List.prefix_append _ _), hlength, List.drop_left]
  cases content ("<string>".toList ++ s).length s with
  | none => rfl
  | some p =>
    rw [Option.bind_some]
    show (strings fuel p.2).bind _ = _
    cases strings fuel p.2 <;> rfl

/-- The first string that is read is no shorter than its text only where that stands for itself. -/
theorem strings_plain {gap : List Char} (hgap : ∀ c ∈ gap, isSpace c = true)
    (hs : Open (stringEnd ++ s)) {more : List (List Char)} :
    (strings (fuel + 1) (gap ++ ("<string>".toList ++ (e ++ '<' :: (stringEnd ++ s)))) =
        some (d :: more) ∧ e.length ≤ d.length) ↔
      Plain e ∧ d = e ∧ strings fuel s = some more := by
  obtain ⟨room, hroom⟩ :
      ∃ n, ("<string>".toList ++ (e ++ '<' :: (stringEnd ++ s))).length = n + 1 := by
    refine Nat.exists_eq_add_one.mpr (List.length_pos_iff.mpr ?_)
    exact List.append_ne_nil_of_left_ne_nil (List.cons_ne_nil _ _) _
  rw [strings_cons hgap, hroom]
  constructor
  · rintro ⟨h, hle⟩
    obtain ⟨⟨d', rest⟩, hcontent, htail⟩ := Option.bind_eq_some_iff.mp h
    obtain ⟨more', hmore, heq⟩ := Option.map_eq_some_iff.mp htail
    obtain ⟨rfl, rfl⟩ := List.cons.inj heq
    obtain ⟨hshort, hplain⟩ := content_size hs hcontent
    obtain ⟨he, rfl⟩ := hplain (Nat.le_antisymm hshort hle)
    rw [content_plain he] at hcontent
    obtain ⟨-, rfl⟩ := Prod.mk.inj (Option.some.inj hcontent)
    exact ⟨he, rfl, hmore⟩
  · rintro ⟨he, rfl, hmore⟩
    rw [content_plain he, Option.bind_some, hmore]
    exact ⟨rfl, Nat.le_refl _⟩

end Content

/-! ## The array under a key -/

/-- A string that its own text stands for in a document. -/
structure Verbatim (t : List Char) : Prop extends Plain t where
  chars : ∀ c ∈ t, isXmlChar c = true
  line : '\r' ∉ t

section Array

variable {before key gap indent e s : List Char} {more : List (List Char)}

/-- A document with an array of strings under a key, of which `e` is the first. -/
def document (before key gap indent e s : List Char) : List Char :=
  before ++ (keyTag key ++ (gap ++ ("<array>".toList ++
    (indent ++ ("<string>".toList ++ (e ++ '<' :: (stringEnd ++ s)))))))

/-- What surrounds the first string of such a document, whose other strings are `more`. -/
structure Frame (before key gap indent s : List Char) (more : List (List Char)) : Prop where
  xml : ∀ c ∈ before ++ (keyTag key ++ (gap ++ (indent ++ s))), isXmlChar c = true ∧ c ≠ '\r'
  first : splitOnce (keyTag key) (before ++ keyTag key) = some (before, [])
  gapSpace : ∀ c ∈ gap, isSpace c = true
  indentSpace : ∀ c ∈ indent, isSpace c = true
  unopened : Open (stringEnd ++ s)
  strings : ∀ fuel, s.length ≤ fuel → strings fuel s = some more

theorem all_document (h : Frame before key gap indent s more) :
    (document before key gap indent e s).all isXmlChar = true ↔ ∀ c ∈ e, isXmlChar c = true := by
  have hxml := fun c hc => (h.xml c hc).1
  simp only [List.mem_append] at hxml
  have htags : ∀ c ∈ "<array>".toList ++ "<string>".toList ++ '<' :: stringEnd,
      isXmlChar c = true := List.all_eq_true.mp (by decide)
  simp only [List.mem_append, List.mem_cons] at htags
  rw [List.all_eq_true]
  simp only [document, List.mem_append, List.mem_cons]
  constructor
  · intro hall c hc
    exact hall c (by simp [hc])
  · rintro he c (hc | hc | hc | hc | hc | hc | hc | hc | hc | hc)
    · exact hxml c (by simp [hc])
    · exact hxml c (by simp [hc])
    · exact hxml c (by simp [hc])
    · exact htags c (Or.inl (Or.inl hc))
    · exact hxml c (by simp [hc])
    · exact htags c (Or.inl (Or.inr hc))
    · exact he c hc
    · exact htags c (Or.inr (Or.inl hc))
    · exact htags c (Or.inr (Or.inr hc))
    · exact hxml c (by simp [hc])

theorem lineEnds_document (h : Frame before key gap indent s more) :
    lineEnds (document before key gap indent e s) =
      document before key gap indent (lineEnds e) s := by
  have hfeed : ∀ t : List Char,
      (∀ c ∈ t, c ∈ before ++ (keyTag key ++ (gap ++ (indent ++ s)))) → '\r' ∉ t :=
    fun t ht hmem => (h.xml '\r' (ht _ hmem)).2 rfl
  have hend : '\r' ∉ '<' :: (stringEnd ++ s) := by
    rw [← List.cons_append, List.mem_append]
    rintro (hmem | hmem)
    · exact absurd hmem (by decide)
    · exact hfeed s (fun c hc => by simp [hc]) hmem
  rw [document, lineEnds_append_of_notMem (hfeed before fun c hc => by simp [hc]),
    lineEnds_append_of_notMem (hfeed (keyTag key) fun c hc => by simp [hc]),
    lineEnds_append_of_notMem (hfeed gap fun c hc => by simp [hc]),
    lineEnds_append_of_notMem (by decide),
    lineEnds_append_of_notMem (hfeed indent fun c hc => by simp [hc]),
    lineEnds_append_of_notMem (by decide), lineEnds_append_cons (by decide) hend]
  rfl

theorem arrayAfter_document (h : Frame before key gap indent s more) {d : List Char} :
    (arrayAfter key (document before key gap indent e s) = some (d :: more) ∧
      e.length ≤ d.length) ↔ Plain e ∧ d = e := by
  have hsplit : splitOnce (keyTag key) (document before key gap indent e s) =
      some (before, gap ++ ("<array>".toList ++
        (indent ++ ("<string>".toList ++ (e ++ '<' :: (stringEnd ++ s)))))) := by
    rw [document, ← List.append_assoc before]
    exact splitOnce_append h.first _
  have hspaces : ∀ t,
      (gap ++ ("<array>".toList ++ t)).dropWhile isSpace = "<array>".toList ++ t := by
    intro t
    rw [List.dropWhile_append_of_pos h.gapSpace]
    rfl
  have hlength : "<array>".length = "<array>".toList.length := rfl
  obtain ⟨fuel, hfuel, hle⟩ : ∃ fuel, ("<array>".toList ++
      (indent ++ ("<string>".toList ++ (e ++ '<' :: (stringEnd ++ s))))).length = fuel + 1 ∧
        s.length ≤ fuel := by
    refine ⟨_, (Nat.succ_pred_eq_of_pos ?_).symm, ?_⟩
    · exact List.length_pos_iff.mpr (List.append_ne_nil_of_left_ne_nil (List.cons_ne_nil _ _) _)
    · refine Nat.le_pred_of_lt ?_
      simp only [List.length_append, List.length_cons]
      omega
  rw [arrayAfter, hsplit, Option.bind_eq_bind, Option.bind_some]
  dsimp only
  rw [hspaces, if_pos (List.prefix_append _ _), hlength, List.drop_left, hfuel,
    strings_plain h.indentSpace h.unopened]
  exact ⟨fun ⟨he, hd, _⟩ => ⟨he, hd⟩, fun ⟨he, hd⟩ => ⟨he, hd, h.strings fuel hle⟩⟩

/-- The strings that are read back when they stand in such a document as they are. -/
theorem arrayOf_iff (h : Frame before key gap indent s more) :
    arrayOf key (document before key gap indent e s) = some (e :: more) ↔ Verbatim e := by
  rw [arrayOf]
  constructor
  · intro heq
    split_ifs at heq with hall
    rw [lineEnds_document h] at heq
    obtain ⟨hplain, hline⟩ := (arrayAfter_document h).mp ⟨heq, length_lineEnds⟩
    rw [← hline] at hplain
    exact ⟨hplain, (all_document h).mp hall, hline ▸ notMem_lineEnds⟩
  · rintro ⟨hplain, hchars, hline⟩
    rw [if_pos ((all_document h).mpr hchars), lineEnds_document h, lineEnds_of_notMem hline]
    exact ((arrayAfter_document h).mpr ⟨hplain, rfl⟩).1

end Array

end Lib.Plist
