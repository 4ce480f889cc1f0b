import StudioWorker.Lib.Fallible
import StudioWorker.VoiceSamples.Take
import StudioWorker.WakeWord.Recipe

/-!
# WakeWord.Request — the body of `POST /wake-words` (`src/wake_word/request.rs`)

The body is read and checked into a `TrainingSpec`; every refusal names the field it is about.

* `Body.deserialize`, `parse`: the body as it is given, and what it is checked into.
* `Body.of_check`: the settings are the defaults under the body's overrides, and every near miss of
  the body is one of the spec.
-/

namespace StudioWorker.WakeWord

open Lib Lib.Json Lib.Fallible Text

/-- The Unicode tables, `Debug` formatting and the URL parser. -/
structure Library where
  isAlphabetic : Char → Bool
  toLowercase : Text → Text
  toUppercase : Char → Text
  debugChar : Char → String
  debug : Text → String
  /-- The scheme of a URL; `none`: it is no URL. -/
  urlScheme : Text → Option Text

def deserializeText (v : Json) : Option Text := (deserializeString v).map String.toList

/-- The body as it is given. -/
structure Body (F : Type) where
  phrase : Text
  name : Option Text
  displayName : Option Text
  languages : Option (List String)
  spellings : Option (Entries String (List Text))
  negatives : Option (List Text)
  author : Option Text
  website : Option Text
  targetFalseAcceptsPerHour : Option F
  settings : Option Json
  voiceSamples : List Text

/-- A checked training request; its spellings in the order of its languages. -/
structure TrainingSpec (F : Type) where
  phrase : Text
  name : Text
  displayName : Text
  languages : List Language
  spellings : List (Language × List Text)
  negatives : List Text
  author : Text
  website : Text
  targetFalseAcceptsPerHour : F
  settings : Settings F
  voiceSamples : List Text

def defaultAuthor : Text := "studio-worker".toList
def defaultWebsite : Text := "https://github.com/webbertakken/studio-worker".toList
def minPhraseChars : ℕ := 2
def maxPhraseChars : ℕ := 64
def maxNameChars : ℕ := 48
def maxSpellings : ℕ := 8
def maxNegatives : ℕ := 32
def maxAuthorChars : ℕ := 128
def maxWebsiteChars : ℕ := 256
def maxVoiceSampleSets : ℕ := 8

def invalid {α : Type} (message : String) : Except Invalid α := .error (.refused message)

/-! ## Texts -/

/-- Collapse runs of whitespace and trim. -/
def tidy (text : Text) : Text := [' '].intercalate (splitWhitespace text)

/-- What a spoken text may hold besides letters. -/
def isSpokenMark (c : Char) : Bool :=
  c = ' ' || c = Char.ofNat 39 || c = '-' || c = Char.ofNat 0x2019

/-- `char::is_control` -/
def isControl (c : Char) : Bool := c.toNat < 32 || (127 ≤ c.toNat && c.toNat < 160)

def slugChar (slug : Text) (c : Char) : Text :=
  if c.isAlphanum then slug ++ [c]
  else if slug.getLast? = some '_' then slug
  else slug ++ ['_']

section

variable (u : Library)

/-- A phrase, spelling or near miss: 2 to 64 letters, spaces, apostrophes and hyphens. -/
def spoken (field : String) (text : Text) : Except Invalid Text :=
  let text := tidy text
  let chars := text.length
  if chars < minPhraseChars ∨ maxPhraseChars < chars then
    invalid s!"{field} must be {minPhraseChars} to {maxPhraseChars} characters, not {chars}"
  else
    match text.find? fun c => !(u.isAlphabetic c || isSpokenMark c) with
    | some bad =>
      invalid
        s!"{field} may hold letters, spaces, apostrophes and hyphens only, not {u.debugChar bad}"
    | none => .ok text

/-- The phrase as a file name: lower case, every run of other characters one `_`. -/
def slug (phrase : Text) : Text :=
  let slug := (u.toLowercase phrase).foldl slugChar []
  ((Lib.Trim.trim (fun c => decide (c = '_')) slug).take maxNameChars).rdropWhile (· = '_')

def titleWord : Text → Text
  | [] => []
  | first :: rest => u.toUppercase first ++ rest

def titleCase (phrase : Text) : Text :=
  [' '].intercalate ((phrase.splitOn ' ').map (titleWord u))

def freeText (field : String) (text : Text) (max : ℕ) : Except Invalid Text :=
  let text := trim text
  if text = [] ∨ max < text.length then invalid s!"{field} must be 1 to {max} characters"
  else if text.any isControl then invalid s!"{field} may not hold control characters"
  else .ok text

/-! ## The parts of a request -/

def nameOf (phrase : Text) : Option Text → Except Invalid Text
  | some name =>
    if name ≠ [] ∧ (bytes name).length ≤ maxNameChars ∧
        name.all fun c => c.isLower || c.isDigit || c = '_' then .ok name
    else invalid s!"name must be 1 to {maxNameChars} of a-z, 0-9 and _, not {u.debug name}"
  | none =>
    let name := slug u phrase
    if name = [] then
      invalid "name: the phrase has no letters a-z to name the files by; give a name"
    else .ok name

def displayNameOf (phrase : Text) : Option Text → Except Invalid Text
  | some text => freeText "displayName" text maxPhraseChars
  | none => .ok (titleCase u phrase)

def addLanguage (languages : List Language) (code : String) : Except Invalid (List Language) :=
  match Language.parse code with
  | none =>
    let known := ", ".intercalate (Language.all.map Language.code)
    invalid s!"languages: {u.debug code.toList} is not one of {known}"
  | some language =>
    if language ∈ languages then invalid s!"languages: {code} is named twice"
    else .ok (languages ++ [language])

def languagesOf (codes : Option (List String)) : Except Invalid (List Language) :=
  let codes := codes.getD ["en"]
  if codes = [] then invalid "languages must name at least one language"
  else codes.foldlM (addLanguage u) []

/-- The spellings that are left to read, and those read. -/
abbrev Spellings := Entries String (List Text) × List (Language × List Text)

def addSpellings (phrase : Text) (s : Spellings) (language : Language) :
    Except Invalid Spellings :=
  match s.1.get language.code with
  | some list =>
    let field := s!"spellings.{language.code}"
    if list = [] ∨ maxSpellings < list.length then
      invalid s!"{field} must hold 1 to {maxSpellings} texts"
    else do
      let list ← list.mapM (spoken u field)
      return (s.1.erase language.code, s.2 ++ [(language, list)])
  | none => .ok (s.1, s.2 ++ [(language, [phrase])])

def spellingsOf (phrase : Text) (languages : List Language)
    (given : Option (Entries String (List Text))) :
    Except Invalid (List (Language × List Text)) := do
  let s ← languages.foldlM (addSpellings u phrase) (given.getD [], [])
  match s.1 with
  | [] => return s.2
  | (code, _) :: _ => invalid s!"spellings.{code}: {code} is not one of the languages asked for"

def addNegative (phrase : Text) (spellings : List (Language × List Text)) (checked : List Text)
    (text : Text) : Except Invalid (List Text) := do
  let text := u.toLowercase (← spoken u "negatives" text)
  if text == phrase || spellings.any fun s => s.2.any fun t => u.toLowercase t == text then
    invalid s!"negatives: {u.debug text} is the phrase itself, or one of its spellings"
  else if checked.contains text then invalid s!"negatives: {u.debug text} is named twice"
  else return checked ++ [text]

/-- The slugs so far, each with its near miss. -/
def addSlug (slugs : List (Text × Text)) (text : Text) : Except Invalid (List (Text × Text)) :=
  let name := slug u text
  if name = [] then
    invalid s!"negatives: {u.debug text} needs a letter a-z to name its samples by"
  else
    match slugs.lookup name with
    | some other =>
      invalid (s!"negatives: {u.debug other} and {u.debug text} would share the name " ++
        String.ofList name)
    | none => .ok ((name, text) :: slugs)

def negativesOf (phrase : Text) (spellings : List (Language × List Text))
    (negatives : Option (List Text)) : Except Invalid (List Text) := do
  let negatives := negatives.getD []
  if maxNegatives < negatives.length then
    invalid s!"negatives may hold at most {maxNegatives} phrases, not {negatives.length}"
  else
    let checked ← negatives.foldlM (addNegative u phrase spellings) []
    let _ ← checked.foldlM (addSlug u) []
    return checked

def authorOf : Option Text → Except Invalid Text
  | some text => freeText "author" text maxAuthorChars
  | none => .ok defaultAuthor

def websiteOf : Option Text → Except Invalid Text
  | some text => do
    let text ← freeText "website" text maxWebsiteChars
    if u.urlScheme text = some "http".toList ∨ u.urlScheme text = some "https".toList then
      return text
    else invalid "website must be an http(s) URL"
  | none => .ok defaultWebsite

def addVoiceSamples (sets : List Text) (set : Text) : Except Invalid (List Text) :=
  if VoiceSamples.checkSet set then
    if sets.contains set then invalid (s!"voiceSamples: " ++ String.ofList set ++ " is named twice")
    else .ok (sets ++ [set])
  else
    invalid (s!"voiceSamples: set {u.debug set}: 1 to {VoiceSamples.maxSetChars} of a-z, 0-9, _ " ++
      "and -, starting with a letter or digit")

def voiceSamplesOf (sets : List Text) : Except Invalid (List Text) :=
  if maxVoiceSampleSets < sets.length then
    invalid s!"voiceSamples may name at most {maxVoiceSampleSets} sets, not {sets.length}"
  else sets.foldlM (addVoiceSamples u) []

end

/-! ## The request -/

section

variable {F : Type} (f : F64 F) (u : Library)

def Body.fieldNames : List String :=
  ["phrase", "name", "displayName", "languages", "spellings", "negatives", "author", "website",
    "targetFalseAcceptsPerHour", "settings", "voiceSamples"]

def Body.deserialize (v : Json) : Option (Body F) := do
  let get ← v.fieldsOnly fieldNames
  let phrase ← required (get "phrase") deserializeText
  let name ← nullable (get "name") deserializeText
  let displayName ← nullable (get "displayName") deserializeText
  let languages ← nullable (get "languages") (Json.all deserializeString)
  let spellings ← nullable (get "spellings") (Json.map (Json.all deserializeText))
  let negatives ← nullable (get "negatives") (Json.all deserializeText)
  let author ← nullable (get "author") deserializeText
  let website ← nullable (get "website") deserializeText
  let targetFalseAcceptsPerHour ← nullable (get "targetFalseAcceptsPerHour") f.deserialize
  let settings ← nullable (get "settings") (held fun n => (f.read n).isSome)
  let voiceSamples ← defaulted (get "voiceSamples") [] (Json.all deserializeText)
  return { phrase, name, displayName, languages, spellings, negatives, author, website,
           targetFalseAcceptsPerHour, settings, voiceSamples }

def targetOf (target : Option F) : Except Invalid F :=
  let target := target.getD (f.literal 0.5)
  if f.isFinite target ∧ f.lt (f.literal 0) target ∧ ¬ f.lt (f.literal 10) target then .ok target
  else invalid "targetFalseAcceptsPerHour must be above 0 and at most 10"

def checkProsody (settings : Settings F) (languages : List Language) : Except Invalid Unit :=
  languages.forM fun language =>
    if settings.prosody.get language.code |>.isSome then .ok ()
    else invalid s!"settings.prosody.{language.code} is needed for a language asked for"

/-- The checks of a body that was read. -/
def Body.check (body : Body F) : Except Invalid (TrainingSpec F) := do
  let phrase := u.toLowercase (← spoken u "phrase" body.phrase)
  let name ← nameOf u phrase body.name
  let displayName ← displayNameOf u phrase body.displayName
  let languages ← languagesOf u body.languages
  let spellings ← spellingsOf u phrase languages body.spellings
  let negatives ← negativesOf u phrase spellings body.negatives
  let author ← authorOf body.author
  let website ← websiteOf u body.website
  let targetFalseAcceptsPerHour ← targetOf f body.targetFalseAcceptsPerHour
  let voiceSamples ← voiceSamplesOf u body.voiceSamples
  let settings ← withOverrides f (defaultSettings f) body.settings
  checkProsody settings languages
  return { phrase, name, displayName, languages, spellings, negatives, author, website,
           targetFalseAcceptsPerHour, voiceSamples, settings }

/-- Read and check a request body. -/
def parse (body : Json) : Except Invalid (TrainingSpec F) :=
  if body.depth ≤ recursionLimit then
    match Body.deserialize f body with
    | none => .error (.library "")
    | some body => body.check f u
  else .error (.library "")

/-! ## What an accepted body says -/

variable {f u}

theorem length_addNegative {phrase text : Text} {spellings : List (Language × List Text)}
    {checked checked' : List Text}
    (h : addNegative u phrase spellings checked text = .ok checked') :
    checked'.length = checked.length + 1 := by
  unfold addNegative at h
  obtain ⟨text', -, h⟩ := bind_eq_ok h
  dsimp only at h
  split_ifs at h
  · cases h
  · cases h
  · obtain rfl := Except.ok.inj h
    exact List.length_append

/-- Every near miss of the body is one of the spec. -/
theorem length_negativesOf {phrase : Text} {spellings : List (Language × List Text)}
    {given : Option (List Text)} {negatives : List Text}
    (h : negativesOf u phrase spellings given = .ok negatives) :
    negatives.length = (given.getD []).length := by
  unfold negativesOf at h
  dsimp only at h
  split_ifs at h
  · cases h
  · obtain ⟨checked, hchecked, h⟩ := bind_eq_ok h
    obtain ⟨_, -, h⟩ := bind_eq_ok h
    obtain rfl := Except.ok.inj h
    have hlen := length_of_foldlM length_addNegative hchecked
    rwa [List.length_nil, Nat.zero_add] at hlen

theorem Body.of_check {body : Body F} {spec : TrainingSpec F} (h : body.check f u = .ok spec) :
    spec.negatives.length = (body.negatives.getD []).length ∧
      withOverrides f (defaultSettings f) body.settings = .ok spec.settings := by
  unfold Body.check at h
  obtain ⟨_, -, h⟩ := bind_eq_ok h
  obtain ⟨_, -, h⟩ := bind_eq_ok h
  obtain ⟨_, -, h⟩ := bind_eq_ok h
  obtain ⟨_, -, h⟩ := bind_eq_ok h
  obtain ⟨_, -, h⟩ := bind_eq_ok h
  obtain ⟨negatives, hnegatives, h⟩ := bind_eq_ok h
  iterate 4 obtain ⟨_, -, h⟩ := bind_eq_ok h
  obtain ⟨settings, hsettings, h⟩ := bind_eq_ok h
  obtain ⟨_, -, h⟩ := bind_eq_ok h
  obtain rfl := Except.ok.inj h
  exact ⟨length_negativesOf hnegatives, hsettings⟩

/-- The overrides of a body are held in order. -/
theorem Body.settings_orderly {v : Json} {body : Body F} (h : Body.deserialize f v = some body) :
    ∀ w ∈ body.settings, Orderly w := by
  obtain ⟨get, -, h⟩ := Option.bind_eq_some_iff.mp h
  iterate 9 obtain ⟨_, -, h⟩ := Option.bind_eq_some_iff.mp h
  obtain ⟨settings, hsettings, h⟩ := Option.bind_eq_some_iff.mp h
  obtain ⟨_, -, h⟩ := Option.bind_eq_some_iff.mp h
  obtain rfl := Option.some.inj h
  intro w hw
  obtain rfl : settings = some w := hw
  unfold nullable at hsettings
  split at hsettings
  · cases hsettings
  · cases hsettings
  · obtain ⟨w', hheld, hsome⟩ := Option.map_eq_some_iff.mp hsettings
    obtain rfl := Option.some.inj hsome
    exact held_orderly hheld

end

end StudioWorker.WakeWord
