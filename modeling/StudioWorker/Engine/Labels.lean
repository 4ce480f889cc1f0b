import Mathlib.Data.List.Perm.Subperm
import StudioWorker.Engine.Download
import StudioWorker.Lib.Fallible
import StudioWorker.Lib.Json
import StudioWorker.Lib.Rows

/-!
# Engine.Labels — the class names of a vision model (`src/engine/vision/labels.rs`)

* `parse`, `fromHfConfig`, `fromLines`, `fromLine`: as in the source.
* `Answers`: every label answers for the class the file gives it to.
* `parse_iff`: a file is read so exactly when nothing blank comes before its first line.
-/

namespace StudioWorker.Engine.Labels

open Text Lib Lib.Rows

/-- JSON and the tables of Unicode. -/
structure Library where
  /-- The document in memory that a text holds; its objects give no name twice. -/
  fromStr : Text → Option Json
  toUppercase : Char → Text
  debug : Text → Text

/-- The ranks a label names. -/
structure Taxonomy where
  «class» : Option Text
  order : Option Text
  family : Option Text
  genus : Option Text
  species : Option Text
  scientificName : Option Text
deriving DecidableEq

/-- One class a model answers. -/
structure Label where
  name : Text
  taxonomy : Option Taxonomy
deriving DecidableEq

def Label.plain (name : Text) : Label := ⟨name, none⟩

section Model

variable (lib : Library)

def capitalised : Text → Text
  | first :: rest => lib.toUppercase first ++ rest
  | [] => []

def rank (s : Text) : Option Text := if s = [] then none else some s

def fromLine (line : Text) : Label :=
  match (split [';'] line).map trim with
  | [_, «class», order, family, genus, species, common] =>
    let scientific :=
      if genus ≠ [] ∧ species ≠ [] then some (capitalised lib genus ++ ' ' :: species) else none
    let name := ([common, species, genus, family, order, «class»].find? (· ≠ [])).getD line
    ⟨name, some ⟨rank «class», rank order, rank family, rank genus, rank species, scientific⟩⟩
  | _ => .plain line

/-- What `str::lines` makes of the pieces between line feeds. -/
def linesOf : List Text → List Text
  | [] => []
  | [last] => if last = [] then [] else [last]
  | line :: rest => (stripSuffix ['\r'] line).getD line :: linesOf rest

/-- `str::lines` -/
def lines (t : Text) : List Text := linesOf (t.splitOn '\n')

def fromLinesAt : ℕ → List Text → Except Text (List Label)
  | _, [] => .ok []
  | i, line :: rest => do
    let line := trim line
    if line = [] then
      .error ("labels line ".toList ++ Nat.toDigits 10 (i + 1) ++ " is empty".toList)
    else
      let labels ← fromLinesAt (i + 1) rest
      return fromLine lib line :: labels

def fromLines (text : Text) : Except Text (List Label) := fromLinesAt lib 0 (lines text)

/-- One entry of `id2label`, of as many as there are names. -/
def place (names : List (Option Text)) (entry : String × Json) :
    Except Text (List (Option Text)) :=
  match Download.parseU64 entry.1.toList with
  | none => .error ("id2label key ".toList ++ lib.debug entry.1.toList ++ " is not an index".toList)
  | some index =>
    if names.length ≤ index then
      .error ("id2label skips an index: ".toList ++ Nat.toDigits 10 index ++ " is past ".toList ++
        Nat.toDigits 10 names.length ++ " labels".toList)
    else
      match entry.2 with
      | .string name => .ok (names.set index (some name.toList))
      | _ => .error ("id2label ".toList ++ Nat.toDigits 10 index ++ " is not a string".toList)

def collect : ℕ → List (Option Text) → Except Text (List Label)
  | _, [] => .ok []
  | i, none :: _ => .error ("id2label lacks ".toList ++ Nat.toDigits 10 i)
  | i, some name :: names => do
    let labels ← collect (i + 1) names
    return .plain name :: labels

/-- The `id2label` map of a configuration. -/
def id2label : Json → Option (List (String × Json))
  | .object entries =>
    match entries.lookup "id2label" with
    | some (.object map) => some map
    | _ => none
  | _ => none

def fromHfConfig (text : Text) : Except Text (List Label) :=
  match lib.fromStr text with
  | none => .error "reading the labels config as JSON".toList
  | some config =>
    match id2label config with
    | none => .error "the labels config has no id2label map".toList
    | some map => do
      let names ← map.foldlM (place lib) (List.replicate map.length none)
      collect 0 names

/-- `serde_json::from_str` as a list of strings. -/
def stringsOf : Json → Option (List Text)
  | .array vs => vs.mapM fun
    | .string s => some s.toList
    | _ => none
  | _ => none

def byteOrderMark : Text := [Char.ofNat 0xFEFF]

def body (text : Text) : Text := trimStartMatches byteOrderMark text

/-- The labels of a text without blanks at its ends, in whichever of the formats it is. -/
def labelsOf (trimmed : Text) : Except Text (List Label) :=
  if trimmed.head? = some '\x7b' then fromHfConfig lib trimmed
  else if trimmed.head? = some '[' then
    match (lib.fromStr trimmed).bind stringsOf with
    | some names => .ok (names.map Label.plain)
    | none => .error "reading a JSON array of labels".toList
  else fromLines lib trimmed

def parse (text : Text) : Except Text (List Label) := do
  let labels ← labelsOf lib (trim (body text))
  if labels = [] then .error "the labels file names no class".toList else .ok labels

end Model

/-! ## Lines -/

section Lines

theorem trim_stripSuffix_cr (line : Text) :
    trim ((stripSuffix ['\r'] line).getD line) = trim line := by
  cases h : stripSuffix ['\r'] line with
  | none => rfl
  | some rest =>
    rw [stripSuffix_some.mp h]
    exact (trim_concat_blank (by decide) rest).symm

theorem solid_linesOf (ls : List Text) :
    solid ((linesOf ls).map trim) = solid (ls.map trim) := by
  induction ls with
  | nil => rfl
  | cons line rest ih =>
    cases rest with
    | nil =>
      rw [linesOf]
      split_ifs with hline
      · rw [hline]
        rfl
      · rfl
    | cons next rest =>
      rw [linesOf, List.map_cons, trim_stripSuffix_cr, solid_cons, ih]
      · exact (solid_cons _ _).symm
      · exact List.cons_ne_nil _ _

/-- Up to the last line that is no blank one, lines are the rows of the text. -/
theorem solid_lines (t : Text) :
    solid ((lines t).map trim) = solid (rows '\n' isWhitespace t) :=
  solid_linesOf _

theorem head_lines {t : Text} (h : t ≠ []) :
    (lines t).head?.map trim = (rows '\n' isWhitespace t).head? := by
  obtain ⟨line, rest, ht⟩ := List.exists_cons_of_ne_nil (List.splitOn_ne_nil '\n' t)
  rw [lines, rows, ht, List.map_cons, List.head?_cons]
  cases rest with
  | nil =>
    rw [linesOf]
    split_ifs with hline
    · -- a text that is one empty piece is empty
      have hjoin : ['\n'].intercalate (t.splitOn '\n') = t := List.intercalate_splitOn '\n'
      rw [ht, hline] at hjoin
      exact absurd hjoin.symm h
    · rfl
  | cons next rest =>
    rw [linesOf, List.head?_cons, Option.map_some, trim_stripSuffix_cr]
    · rfl
    · exact List.cons_ne_nil _ _

theorem fromLinesAt_eq_ok {lib : Library} {i : ℕ} {ls : List Text} {labels : List Label} :
    fromLinesAt lib i ls = .ok labels ↔
      (∀ line ∈ ls.map trim, line ≠ []) ∧ labels = (ls.map trim).map (fromLine lib) := by
  induction ls generalizing i labels with
  | nil =>
    rw [fromLinesAt, Except.ok.injEq, eq_comm]
    exact (and_iff_right fun line h => absurd h List.not_mem_nil).symm
  | cons line ls ih =>
    rw [fromLinesAt, List.map_cons, List.map_cons, List.forall_mem_cons]
    split_ifs with hline
    · exact iff_of_false (fun h => by cases h) fun h => h.1.1 hline
    · constructor
      · intro h
        obtain ⟨rest, hrest, h⟩ := Lib.Fallible.bind_eq_ok h
        obtain rfl := Except.ok.inj h
        obtain ⟨hall, rfl⟩ := ih.mp hrest
        exact ⟨⟨hline, hall⟩, rfl⟩
      · rintro ⟨⟨-, hall⟩, rfl⟩
        rw [ih.mpr ⟨hall, rfl⟩]
        rfl

end Lines

/-! ## A map of indices -/

section Map

variable {lib : Library}

/-- The index a name of `id2label` stands for. -/
def indexOf (entry : String × Json) : Option ℕ := Download.parseU64 entry.1.toList

/-- The names are the indices from 0 on, once each, and every index has the label given to it. -/
structure ByIndex (map : List (String × Json)) (labels : List Label) : Prop where
  indices : (map.map indexOf).Perm ((List.range map.length).map some)
  length : labels.length = map.length
  label : ∀ entry ∈ map, ∃ i name, indexOf entry = some i ∧ entry.2 = .string name ∧
    labels[i]? = some (.plain name.toList)

theorem collect_ok {i : ℕ} {names : List (Option Text)} {labels : List Label}
    (h : collect i names = .ok labels) :
    ∃ given : List Text, names = given.map some ∧ labels = given.map Label.plain := by
  induction names generalizing i labels with
  | nil => exact ⟨[], rfl, (Except.ok.inj h).symm⟩
  | cons name names ih =>
    cases name with
    | none => cases h
    | some name =>
      obtain ⟨rest, hrest, h⟩ := Lib.Fallible.bind_eq_ok h
      obtain ⟨given, rfl, rfl⟩ := ih hrest
      exact ⟨name :: given, rfl, (Except.ok.inj h).symm⟩

theorem place_ok {names names' : List (Option Text)} {entry : String × Json}
    (h : place lib names entry = .ok names') :
    ∃ index name, indexOf entry = some index ∧ entry.2 = .string name ∧
      names' = names.set index (some name.toList) := by
  rw [place] at h
  cases hindex : Download.parseU64 entry.1.toList with
  | none =>
    rw [hindex] at h
    cases h
  | some index =>
    rw [hindex] at h
    dsimp only at h
    split_ifs at h
    cases hvalue : entry.2 with
    | string name =>
      rw [hvalue] at h
      exact ⟨index, name, hindex, rfl, (Except.ok.inj h).symm⟩
    | _ =>
      rw [hvalue] at h
      cases h

/-- What is in a slot was given to it. -/
theorem foldlM_place_ok {map : List (String × Json)} {names names' : List (Option Text)}
    (h : map.foldlM (place lib) names = .ok names') :
    names'.length = names.length ∧ ∀ i given, names'[i]? = some (some given) →
      names[i]? = some (some given) ∨
        ∃ entry ∈ map, ∃ name, indexOf entry = some i ∧ entry.2 = .string name ∧
          given = name.toList := by
  induction map generalizing names with
  | nil =>
    obtain rfl := Except.ok.inj h
    exact ⟨rfl, fun i given hi => .inl hi⟩
  | cons entry map ih =>
    rw [List.foldlM_cons] at h
    obtain ⟨placed, hplaced, h⟩ := Lib.Fallible.bind_eq_ok h
    obtain ⟨index, name, hindex, hvalue, rfl⟩ := place_ok hplaced
    obtain ⟨hlength, hslots⟩ := ih h
    refine ⟨hlength.trans List.length_set, fun i given hi => ?_⟩
    rcases hslots i given hi with hold | ⟨other, hmem, hother⟩
    · by_cases heq : i = index
      · subst heq
        obtain ⟨hlt, hget⟩ := List.getElem?_eq_some_iff.mp hold
        rw [List.getElem_set_self] at hget
        exact .inr ⟨entry, List.mem_cons_self, name, hindex, hvalue, (Option.some_inj.mp hget).symm⟩
      · rw [List.getElem?_set_ne (Ne.symm heq)] at hold
        exact .inl hold
    · exact .inr ⟨other, List.mem_cons_of_mem entry hmem, hother⟩

/-- Every slot is filled, so by counting none is filled twice. -/
theorem byIndex_of_ok {map : List (String × Json)} {names : List (Option Text)}
    {labels : List Label}
    (hplaced : map.foldlM (place lib) (List.replicate map.length none) = .ok names)
    (hcollect : collect 0 names = .ok labels) : ByIndex map labels := by
  obtain ⟨hlength, hslots⟩ := foldlM_place_ok hplaced
  obtain ⟨given, rfl, rfl⟩ := collect_ok hcollect
  rw [List.length_map, List.length_replicate] at hlength
  have hgiven : ∀ (i : ℕ) (hi : i < given.length), ∃ entry ∈ map, ∃ name, indexOf entry = some i ∧
      entry.2 = .string name ∧ given[i] = name.toList := by
    intro i hi
    refine (hslots i given[i] ?_).resolve_left fun h => ?_
    · rw [List.getElem?_map, List.getElem?_eq_getElem hi, Option.map_some]
    · have hmem := List.mem_of_getElem? h
      exact Option.some_ne_none _ (List.eq_of_mem_replicate hmem)
  have hperm : (map.map indexOf).Perm ((List.range map.length).map some) := by
    have hnodup : ((List.range map.length).map some).Nodup :=
      List.nodup_range.map fun _ _ => Option.some.inj
    refine (List.Subperm.perm_of_length_le (hnodup.subperm fun i hi => ?_) ?_).symm
    · obtain ⟨i, hrange, rfl⟩ := List.mem_map.mp hi
      obtain ⟨entry, hentry, -, hindex, -⟩ := hgiven i (hlength ▸ List.mem_range.mp hrange)
      exact List.mem_map.mpr ⟨entry, hentry, hindex⟩
    · rw [List.length_map, List.length_map, List.length_range]
  refine ⟨hperm, by rw [List.length_map, hlength], fun entry hentry => ?_⟩
  obtain ⟨i, hrange, hi⟩ := List.mem_map.mp (hperm.subset (List.mem_map_of_mem hentry))
  have hlt : i < given.length := hlength ▸ List.mem_range.mp hrange
  obtain ⟨other, hother, name, hindex, hvalue, hname⟩ := hgiven i hlt
  have hnodup : (map.map indexOf).Nodup :=
    hperm.nodup_iff.mpr (List.nodup_range.map fun _ _ => Option.some.inj)
  obtain rfl := List.inj_on_of_nodup_map hnodup hother hentry (hindex.trans hi)
  refine ⟨i, name, hi.symm, hvalue, ?_⟩
  rw [List.getElem?_map, List.getElem?_eq_getElem hlt, Option.map_some, hname]

end Map

/-! ## What a file is read as -/

section Parse

variable {lib : Library} {text : Text}

/-- The lines a file shows, up to its last that is no blank one. -/
def shown (text : Text) : List Text := solid ((lines (body text)).map trim)

/-- Every label answers for the class the file gives it to. -/
def Answers (lib : Library) (text : Text) (labels : List Label) : Prop :=
  let trimmed := trim (body text)
  if trimmed.head? = some '\x7b' then
    ∃ map, (lib.fromStr trimmed).bind id2label = some map ∧ ByIndex map labels
  else if trimmed.head? = some '[' then
    ∃ names, (lib.fromStr trimmed).bind stringsOf = some names ∧ labels = names.map Label.plain
  else (∀ line ∈ shown text, line ≠ []) ∧ labels = (shown text).map (fromLine lib)

/-- Nothing blank comes before the first line; or it does not matter: there is no line at all, or
what there is is JSON, or a blank line is seen. -/
def Clear (text : Text) : Prop :=
  let trimmed := trim (body text)
  (lines (body text)).head?.map trim ≠ some [] ∨ trimmed = [] ∨ trimmed.head? = some '\x7b' ∨
    trimmed.head? = some '[' ∨ [] ∈ (lines trimmed).map trim

theorem parse_ok {labels : List Label} :
    parse lib text = .ok labels ↔ labelsOf lib (trim (body text)) = .ok labels ∧ labels ≠ [] := by
  constructor
  · intro h
    obtain ⟨labels', hlabels, h⟩ := Lib.Fallible.bind_eq_ok h
    split_ifs at h with hne
    obtain rfl := Except.ok.inj h
    exact ⟨hlabels, hne⟩
  · rintro ⟨hlabels, hne⟩
    rw [parse, hlabels]
    exact if_neg hne

theorem answers_config {labels : List Label} (hbrace : (trim (body text)).head? = some '\x7b')
    (h : labelsOf lib (trim (body text)) = .ok labels) : Answers lib text labels := by
  rw [labelsOf, if_pos hbrace, fromHfConfig] at h
  rw [Answers, if_pos hbrace]
  cases hconfig : lib.fromStr (trim (body text)) with
  | none =>
    rw [hconfig] at h
    cases h
  | some config =>
    cases hmap : id2label config with
    | none =>
      rw [hconfig] at h
      dsimp only at h
      rw [hmap] at h
      cases h
    | some map =>
      rw [hconfig] at h
      dsimp only at h
      rw [hmap] at h
      obtain ⟨names, hplaced, hcollect⟩ := Lib.Fallible.bind_eq_ok h
      exact ⟨map, hmap, byIndex_of_ok hplaced hcollect⟩

theorem answers_array {labels : List Label} (hbrace : (trim (body text)).head? ≠ some '\x7b')
    (hbracket : (trim (body text)).head? = some '[')
    (h : labelsOf lib (trim (body text)) = .ok labels) : Answers lib text labels := by
  rw [labelsOf, if_neg hbrace, if_pos hbracket] at h
  rw [Answers, if_neg hbrace, if_pos hbracket]
  cases hnames : (lib.fromStr (trim (body text))).bind stringsOf with
  | none =>
    rw [hnames] at h
    cases h
  | some names =>
    rw [hnames] at h
    exact ⟨names, rfl, (Except.ok.inj h).symm⟩

/-- A text without blank lines shows its rows. -/
theorem lines_trim (hfull : [] ∉ (lines (trim (body text))).map trim) :
    (lines (trim (body text))).map trim =
      solid (rows '\n' isWhitespace ((body text).dropWhile isWhitespace)) := by
  rw [← solid_of_forall fun line hline hnil => hfull (hnil ▸ hline), solid_lines]
  exact solid_rows_trim_end _

theorem shown_of_first (hne : body text ≠ [])
    (hfirst : (lines (body text)).head?.map trim ≠ some [])
    (hfull : [] ∉ (lines (trim (body text))).map trim) :
    (lines (trim (body text))).map trim = shown text := by
  rw [head_lines hne] at hfirst
  rw [lines_trim hfull, rows_trim_front hfirst, shown, solid_lines]

/-- A file is read as what it gives for every class exactly when nothing blank comes before its
first line. -/
theorem parse_iff (lib : Library) (text : Text) :
    (∀ labels, parse lib text = .ok labels → Answers lib text labels) ↔ Clear text := by
  have hbody : trim (body text) ≠ [] → body text ≠ [] := fun h hnil => h (by rw [hnil]; rfl)
  by_cases hbrace : (trim (body text)).head? = some '\x7b'
  · exact iff_of_true (fun labels h => answers_config hbrace (parse_ok.mp h).1)
      (.inr (.inr (.inl hbrace)))
  by_cases hbracket : (trim (body text)).head? = some '['
  · exact iff_of_true (fun labels h => answers_array hbrace hbracket (parse_ok.mp h).1)
      (.inr (.inr (.inr (.inl hbracket))))
  have htext : labelsOf lib (trim (body text)) = fromLines lib (trim (body text)) := by
    rw [labelsOf, if_neg hbrace, if_neg hbracket]
  have hanswers : ∀ labels, Answers lib text labels ↔
      (∀ line ∈ shown text, line ≠ []) ∧ labels = (shown text).map (fromLine lib) := by
    intro labels
    rw [Answers, if_neg hbrace, if_neg hbracket]
  have hfull : ∀ labels, parse lib text = .ok labels → trim (body text) ≠ [] ∧
      [] ∉ (lines (trim (body text))).map trim ∧
      labels = ((lines (trim (body text))).map trim).map (fromLine lib) := by
    intro labels h
    obtain ⟨hlabels, hne⟩ := parse_ok.mp h
    rw [htext, fromLines, fromLinesAt_eq_ok] at hlabels
    refine ⟨fun hnil => hne ?_, fun hmem => hlabels.1 [] hmem rfl, hlabels.2⟩
    rw [hlabels.2, hnil]
    rfl
  constructor
  · intro h
    by_contra hclear
    obtain ⟨hfirst, hne, -, -, hblank⟩ : (lines (body text)).head?.map trim = some [] ∧
        trim (body text) ≠ [] ∧ _ ∧ _ ∧ [] ∉ (lines (trim (body text))).map trim := by
      simpa only [Clear, not_or, not_not] using hclear
    have hlines : (lines (trim (body text))).map trim ≠ [] := by
      intro hnil
      have hhead := head_lines hne
      rw [List.map_eq_nil_iff.mp hnil, rows] at hhead
      have hrows := List.head?_eq_none_iff.mp hhead.symm
      exact List.splitOn_ne_nil _ _ (List.map_eq_nil_iff.mp hrows)
    have hparse : parse lib text =
        .ok (((lines (trim (body text))).map trim).map (fromLine lib)) := by
      refine parse_ok.mpr ⟨htext.trans (fromLinesAt_eq_ok.mpr ⟨fun line hline hnil => ?_, rfl⟩),
        fun hnil => hlines (List.map_eq_nil_iff.mp hnil)⟩
      exact hblank (hnil ▸ hline)
    obtain ⟨hall, hsame⟩ := (hanswers _).mp (h _ hparse)
    -- the blank first line is among those that are shown
    obtain ⟨line, rest, hshown⟩ : ∃ line rest, shown text = line :: rest := by
      refine List.exists_cons_of_ne_nil fun hnil => hlines ?_
      rw [hnil] at hsame
      exact List.map_eq_nil_iff.mp hsame
    have hprefix : shown text <+: (lines (body text)).map trim := List.rdropWhile_prefix _ _
    obtain ⟨more, hmore⟩ := hprefix
    rw [hshown, List.cons_append] at hmore
    rw [← List.head?_map, ← hmore] at hfirst
    refine hall line (hshown ▸ List.mem_cons_self) (Option.some_inj.mp hfirst)
  · rintro (hfirst | hnil | h | h | hblank) labels hlabels
    · obtain ⟨hne, hblank, rfl⟩ := hfull labels hlabels
      rw [hanswers, shown_of_first (hbody hne) hfirst hblank]
      refine ⟨fun line hline hnil => hblank ?_, rfl⟩
      rw [shown_of_first (hbody hne) hfirst hblank]
      exact hnil ▸ hline
    · exact absurd hnil (hfull labels hlabels).1
    · exact absurd h hbrace
    · exact absurd h hbracket
    · exact absurd hblank (hfull labels hlabels).2.1

/-- A library for texts of lines. -/
def plainLibrary : Library where
  fromStr _ := none
  toUppercase c := [c]
  debug t := t

/-- An empty line before the first: both birds are classes too early. -/
theorem parse_blankFirst :
    parse plainLibrary "\nrobin\nwren\n".toList =
      .ok [.plain "robin".toList, .plain "wren".toList] ∧
    (lines (body "\nrobin\nwren\n".toList)) = [[], "robin".toList, "wren".toList] ∧
    ¬ Answers plainLibrary "\nrobin\nwren\n".toList
      [.plain "robin".toList, .plain "wren".toList] := by
  refine ⟨?_, ?_, ?_⟩
  · decide +kernel
  · decide +kernel
  · rw [Answers, if_neg (by decide +kernel), if_neg (by decide +kernel)]
    decide +kernel

end Parse

end StudioWorker.Engine.Labels
