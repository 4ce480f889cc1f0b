import Mathlib.Algebra.GroupWithZero.Nat
import StudioWorker.VoiceSamples.Take

/-!
# VoiceSamples.Names — the paths of takes (`src/voice_samples/take.rs`, `src/voice_samples/store.rs`)

* `parsePath`: the set and the take of a request's path.
* `takePath`: the file `put` writes.
* `takeNames_roundTrip`: a name is read back as what it was built of, and no two takes share one.
-/

namespace StudioWorker.VoiceSamples

open Text

def Kind.asStr : Kind → Text
  | positive => "positive".toList
  | nearMiss => "near_miss".toList
  | speech => "speech".toList

def Kind.parse (text : Text) : Option Kind := all.find? (·.asStr == text)

def samplesPrefix : Text := "/voice-samples/".toList

def wavSuffix : Text := ".wav".toList

/-- `parse_path`: the set and the take, or why the path is refused.  `debug` is the format `{:?}` of
a string. -/
def parsePath (debug : Text → Text) (path : Text) : Except Text (Text × Take) :=
  let parts := ((Text.stripPrefix samplesPrefix path).map (·.splitOn '/')).getD []
  match parts with
  | [set, kind, file] =>
    if checkSet set then
      match Kind.parse kind with
      | none => .error ("kind ".toList ++ debug kind ++ ": one of positive, near_miss, speech".toList)
      | some kind =>
        match stripSuffix wavSuffix file with
        | none => .error ("take ".toList ++ debug file ++ ": a .wav file".toList)
        | some name =>
          match parseTake kind name with
          | some take => .ok (set, take)
          | none => .error ("take ".toList ++ debug name ++ " of ".toList ++ kind.asStr ++ ": ".toList ++
              match kind with
              | .nearMiss => "the near miss's slug and its number, e.g. hey_luna-002".toList
              | _ => "its number, 1 to 4 digits".toList)
    else .error ("set ".toList ++ debug set ++
      ": 1 to 64 of a-z, 0-9, _ and -, starting with a letter or digit".toList)
  | _ => .error (debug path ++ " is not /voice-samples/<set>/<kind>/<take>.wav".toList)

/-- The path a take of a set is uploaded to. -/
def pathOf (set : Text) (take : Take) : Text :=
  samplesPrefix ++ set ++ '/' :: (take.kind.asStr ++ '/' :: (take.stem ++ wavSuffix))

/-- `Path::join` on Unix. -/
def join (base component : Text) : Text :=
  if component.head? = some '/' then component
  else if base = [] ∨ base.getLast? = some '/' then base ++ component
  else base ++ '/' :: component

/-- The file `put` writes a take of a set to. -/
def takePath (root set : Text) (take : Take) : Text :=
  join (join (join root set) take.kind.asStr) (take.stem ++ wavSuffix)

/-- `Path::components` but for what it begins with: empty ones and `.` do not count. -/
def components (path : Text) : List Text :=
  (path.splitOn '/').filter fun c => !c.isEmpty && c != ['.']

/-- What a take is stored under in the store. -/
def names (set : Text) (take : Take) : List Text := [set, take.kind.asStr, take.stem ++ wavSuffix]

/-- A near miss has a slug, and only a near miss has. -/
def Take.Named (take : Take) : Prop :=
  match take.kind with
  | .nearMiss => ∃ phrase, take.phrase = some phrase ∧ isSlug phrase = true
  | .positive | .speech => take.phrase = none

/-! ## Numbers -/

theorem foldl_digits (text : Text) :
    text.foldl (fun n c => n * 10 + (c.toNat - '0'.toNat)) 0 = Nat.ofDigitChars 10 text 0 := by
  rw [Nat.ofDigitChars_eq_foldl]
  congr 1
  funext n c
  rw [Nat.mul_comm]

theorem isDigit_of_mem_padded {number : ℕ} {c : Char} (h : c ∈ padded number) :
    c.isDigit = true := by
  rcases List.mem_append.mp h with hzero | hdigit
  · rw [List.eq_of_mem_replicate hzero]
    rfl
  · exact Nat.isDigit_of_mem_toDigits (by decide) (by decide) hdigit

theorem digits_padded {number : ℕ} (h : number ≤ 9999) : digits (padded number) = some number := by
  have hne : padded number ≠ [] := fun hnil =>
    Nat.toDigits_ne_nil (List.append_eq_nil_iff.mp hnil).2
  have hlength : (Nat.toDigits 10 number).length ≤ 4 :=
    (Nat.length_toDigits_le_iff (by decide) (by decide)).mpr (Nat.lt_succ_of_le h)
  have hall : (padded number).all Char.isDigit = true :=
    List.all_eq_true.mpr fun c hc => isDigit_of_mem_padded hc
  have hshort : (padded number).length ≤ maxNumberDigits := by
    rw [padded, List.length_append, List.length_replicate, maxNumberDigits]
    omega
  rw [digits, if_pos ⟨hne, hshort, hall⟩, foldl_digits, padded, Nat.ofDigitChars_append,
    Nat.ofDigitChars_replicate_zero, Nat.mul_zero, Nat.ofDigitChars_ten_toDigits]

theorem foldl_digits_lt {text : Text} (h : text.all Char.isDigit = true) (n : ℕ) :
    text.foldl (fun n c => n * 10 + (c.toNat - '0'.toNat)) n < (n + 1) * 10 ^ text.length := by
  induction text generalizing n with
  | nil => simp
  | cons c text ih =>
    obtain ⟨hc, htext⟩ : c.isDigit = true ∧ text.all Char.isDigit = true := by simpa using h
    have hdigit : c.toNat - '0'.toNat < 10 := by
      have := (Char.isDigit_iff_toNat.mp hc).2
      have hzero : '0'.toNat = 48 := rfl
      have hnine : '9'.toNat = 57 := rfl
      omega
    rw [List.foldl_cons, List.length_cons, Nat.pow_succ]
    refine (ih htext _).trans_le ?_
    rw [Nat.mul_comm (10 ^ text.length), ← Nat.mul_assoc]
    exact Nat.mul_le_mul_right _ (by omega)

theorem digits_le {text : Text} {number : ℕ} (h : digits text = some number) : number ≤ 9999 := by
  rw [digits] at h
  split_ifs at h with hok
  obtain rfl := Option.some_inj.mp h
  have hlt := foldl_digits_lt hok.2.2 0
  have hpow : 10 ^ text.length ≤ 10 ^ maxNumberDigits := Nat.pow_le_pow_right (by decide) hok.2.1
  have hfour : 10 ^ maxNumberDigits = 10000 := rfl
  omega

/-! ## Stems -/

theorem parseTake_stem {take : Take} (hnumber : take.number ≤ 9999) (hnamed : take.Named) :
    parseTake take.kind take.stem = some take := by
  obtain ⟨kind, number, phrase⟩ := take
  cases kind with
  | nearMiss =>
    obtain ⟨slug, rfl, hslug⟩ := hnamed
    have hdash : '-' ∉ padded number := fun hmem => by
      have := isDigit_of_mem_padded hmem
      cases this
    have hsplit : rsplitOnce ['-'] (slug ++ '-' :: padded number) = some (slug, padded number) :=
      rsplitOnce_char_some.mpr ⟨rfl, hdash⟩
    simp only [Take.stem, parseTake, hsplit, hslug, if_true, digits_padded hnumber, Option.map_some]
  | positive =>
    obtain rfl : phrase = none := hnamed
    simp only [Take.stem, parseTake, digits_padded hnumber, Option.map_some]
  | speech =>
    obtain rfl : phrase = none := hnamed
    simp only [Take.stem, parseTake, digits_padded hnumber, Option.map_some]

/-- What is read of a name is a take that has one. -/
theorem named_of_parseTake {kind : Kind} {name : Text} {take : Take}
    (h : parseTake kind name = some take) : take.number ≤ 9999 ∧ take.Named := by
  cases kind with
  | nearMiss =>
    cases hsplit : rsplitOnce ['-'] name with
    | none => simp [parseTake, hsplit] at h
    | some halves =>
      obtain ⟨phrase, text⟩ := halves
      simp only [parseTake, hsplit] at h
      split_ifs at h with hslug
      obtain ⟨number, hnumber, rfl⟩ := Option.map_eq_some_iff.mp h
      exact ⟨digits_le hnumber, phrase, rfl, hslug⟩
  | positive =>
    obtain ⟨number, hnumber, rfl⟩ := Option.map_eq_some_iff.mp h
    exact ⟨digits_le hnumber, rfl⟩
  | speech =>
    obtain ⟨number, hnumber, rfl⟩ := Option.map_eq_some_iff.mp h
    exact ⟨digits_le hnumber, rfl⟩

theorem kind_parse_asStr (kind : Kind) : Kind.parse kind.asStr = some kind := by
  cases kind <;> decide

theorem asStr_injective {kind kind' : Kind} (h : kind.asStr = kind'.asStr) : kind = kind' := by
  have hparse := kind_parse_asStr kind
  rw [h, kind_parse_asStr] at hparse
  exact (Option.some_inj.mp hparse).symm

/-! ## Components -/

/-- The characters of names: no separator, and a dot only in the suffix. -/
def nameChar (c : Char) : Bool := lowerOrDigit c || c == '_' || c == '-'

theorem nameChar_of_checkSet {set : Text} (h : checkSet set = true) :
    ∀ c ∈ set, nameChar c = true := by
  cases set with
  | nil => cases h
  | cons first rest =>
    simp only [checkSet, Bool.and_eq_true, List.all_eq_true] at h
    obtain ⟨⟨hfirst, hrest⟩, -⟩ := h
    intro c hc
    rcases List.mem_cons.mp hc with rfl | hc
    · simp [nameChar, hfirst]
    · simpa [nameChar] using hrest c hc

theorem nameChar_asStr (kind : Kind) : ∀ c ∈ kind.asStr, nameChar c = true := by
  have hall : kind.asStr.all nameChar = true := by cases kind <;> decide
  exact List.all_eq_true.mp hall

theorem mem_splitFrom (sep : Char) {c : Char} {t : Text} (n : ℕ) (h : c ∈ t) :
    c = sep ∨ ∃ part ∈ splitFrom [sep] n t, c ∈ part := by
  induction n generalizing t with
  | zero => exact Or.inr ⟨t, List.mem_singleton_self t, h⟩
  | succ n ih =>
    rw [splitFrom]
    cases hsplit : Lib.Search.splitOnce [sep] t with
    | none => exact Or.inr ⟨t, List.mem_singleton_self t, h⟩
    | some halves =>
      obtain ⟨a, b⟩ := halves
      obtain ⟨rfl, -⟩ := Lib.Search.splitOnce_singleton_some.mp hsplit
      rcases List.mem_append.mp h with ha | hb
      · exact Or.inr ⟨a, List.mem_cons_self, ha⟩
      · rcases List.mem_cons.mp hb with heq | hb
        · exact Or.inl heq
        · rcases ih hb with heq | ⟨part, hpart, hmem⟩
          · exact Or.inl heq
          · exact Or.inr ⟨part, List.mem_cons_of_mem a hpart, hmem⟩

theorem nameChar_of_isSlug {slug : Text} (h : isSlug slug = true) :
    ∀ c ∈ slug, nameChar c = true := by
  intro c hc
  simp only [isSlug, Bool.and_eq_true, List.all_eq_true] at h
  rcases mem_splitFrom '_' slug.length hc with rfl | ⟨part, hpart, hmem⟩
  · decide
  · have hlower := (h.2 part hpart).2 c hmem
    simp [nameChar, hlower]

theorem nameChar_padded {number : ℕ} : ∀ c ∈ padded number, nameChar c = true := fun c hc => by
  simp [nameChar, lowerOrDigit, isDigit_of_mem_padded hc]

theorem nameChar_stem {take : Take} (h : take.Named) : ∀ c ∈ take.stem, nameChar c = true := by
  obtain ⟨kind, number, phrase⟩ := take
  cases phrase with
  | none => exact nameChar_padded
  | some slug =>
    have hslug : isSlug slug = true := by
      cases kind with
      | nearMiss =>
        obtain ⟨phrase, heq, hslug⟩ := h
        exact Option.some_inj.mp heq ▸ hslug
      | positive => cases h
      | speech => cases h
    intro c hc
    rcases List.mem_append.mp hc with hmem | hmem
    · exact nameChar_of_isSlug hslug c hmem
    · rcases List.mem_cons.mp hmem with rfl | hmem
      · decide
      · exact nameChar_padded c hmem

theorem stem_ne_nil (take : Take) : take.stem ≠ [] := by
  have hpadded : padded take.number ≠ [] := fun hnil =>
    Nat.toDigits_ne_nil (List.append_eq_nil_iff.mp hnil).2
  rw [Take.stem]
  cases take.phrase with
  | none => exact hpadded
  | some slug => exact fun hnil => by simp at hnil

theorem not_mem_of_nameChar {t : Text} (h : ∀ c ∈ t, nameChar c = true) {c : Char}
    (hc : nameChar c = false) : c ∉ t := fun hmem => by
  rw [h c hmem] at hc
  cases hc

/-- A component that stays one where paths are joined and taken apart. -/
def Plain (c : Text) : Prop := c ≠ [] ∧ c ≠ ['.'] ∧ c ≠ ['.', '.'] ∧ '/' ∉ c

theorem plain_of_nameChar {t : Text} (hne : t ≠ []) (h : ∀ c ∈ t, nameChar c = true) : Plain t := by
  have hdot := not_mem_of_nameChar h (c := '.') (by decide)
  have hslash := not_mem_of_nameChar h (c := '/') (by decide)
  refine ⟨hne, ?_, ?_, hslash⟩
  · rintro rfl
    exact hdot List.mem_cons_self
  · rintro rfl
    exact hdot List.mem_cons_self

theorem plain_names {set : Text} {take : Take} (hset : checkSet set = true) (hnamed : take.Named) :
    ∀ c ∈ names set take, Plain c := by
  have hsetne : set ≠ [] := by
    rintro rfl
    cases hset
  have hkindne : take.kind.asStr ≠ [] := by cases take.kind <;> decide
  have hslash := not_mem_of_nameChar (nameChar_stem hnamed) (c := '/') (by decide)
  have hlength : 0 < take.stem.length := List.length_pos_iff.mpr (stem_ne_nil take)
  have hfile : Plain (take.stem ++ wavSuffix) := by
    have hlong : 4 < (take.stem ++ wavSuffix).length := by
      rw [List.length_append]
      exact Nat.lt_add_of_pos_left hlength
    refine ⟨?_, ?_, ?_, ?_⟩
    · exact fun heq => by simp [heq] at hlong
    · exact fun heq => by simp [heq] at hlong
    · exact fun heq => by simp [heq] at hlong
    · rw [List.mem_append, not_or]
      exact ⟨hslash, by decide⟩
  intro c hc
  simp only [names, List.mem_cons, List.not_mem_nil, or_false] at hc
  rcases hc with rfl | rfl | rfl
  · exact plain_of_nameChar hsetne (nameChar_of_checkSet hset)
  · exact plain_of_nameChar hkindne (nameChar_asStr take.kind)
  · exact hfile

/-- Joining a plain component to a path puts one more behind its components. -/
theorem components_join (base : Text) {c : Text} (h : Plain c) :
    components (join base c) = components base ++ [c] := by
  obtain ⟨hne, hdot, -, hslash⟩ := h
  have hhead : c.head? ≠ some '/' := fun heq => hslash (List.mem_of_mem_head? heq)
  have hone : c.splitOn '/' = [c] := List.splitOn_eq_singleton hslash
  have hkept : [c].filter (fun c => !c.isEmpty && c != ['.']) = [c] := by
    simp [hne, hdot]
  rw [join, if_neg hhead]
  split_ifs with hbase
  · rcases hbase with rfl | hlast
    · rw [List.nil_append, components, components, hone, hkept]
      rfl
    · obtain ⟨init, rfl⟩ := List.getLast?_eq_some_iff.mp hlast
      rw [List.append_assoc, List.singleton_append, components, components,
        List.splitOn_append_cons_self, List.splitOn_append_cons_self, hone, List.filter_append,
        hkept, List.filter_append]
      simp
  · rw [components, List.splitOn_append_cons_self, hone, List.filter_append, hkept, components]

/-! ## Paths -/

/-- What is accepted is a checked set and a take with a name. -/
theorem of_parsePath {debug : Text → Text} {path set : Text} {take : Take}
    (h : parsePath debug path = .ok (set, take)) :
    checkSet set = true ∧ take.number ≤ 9999 ∧ take.Named := by
  simp only [parsePath] at h
  split at h
  · rename_i set' kind file hparts
    split_ifs at h with hset
    split at h
    · cases h
    · rename_i kind' hkind
      split at h
      · cases h
      · rename_i name hname
        split at h
        · rename_i take' htake
          obtain ⟨rfl, rfl⟩ := Prod.mk.inj (Except.ok.inj h)
          exact ⟨hset, named_of_parseTake htake⟩
        · cases h
  · cases h

theorem parsePath_pathOf (debug : Text → Text) {set : Text} {take : Take}
    (hset : checkSet set = true) (hnumber : take.number ≤ 9999) (hnamed : take.Named) :
    parsePath debug (pathOf set take) = .ok (set, take) := by
  have hplain := plain_names hset hnamed
  have hsetslash : '/' ∉ set := (hplain _ (by simp [names])).2.2.2
  have hkindslash : '/' ∉ take.kind.asStr := (hplain _ (by simp [names])).2.2.2
  have hfileslash : '/' ∉ take.stem ++ wavSuffix := (hplain _ (by simp [names])).2.2.2
  have hstrip : Text.stripPrefix samplesPrefix (pathOf set take) =
      some (set ++ '/' :: (take.kind.asStr ++ '/' :: (take.stem ++ wavSuffix))) :=
    Text.stripPrefix_some.mpr (List.append_assoc _ _ _)
  have hparts : (set ++ '/' :: (take.kind.asStr ++ '/' :: (take.stem ++ wavSuffix))).splitOn '/' =
      [set, take.kind.asStr, take.stem ++ wavSuffix] := by
    rw [List.splitOn_append_cons_self_of_not_mem hsetslash,
      List.splitOn_append_cons_self_of_not_mem hkindslash, List.splitOn_eq_singleton hfileslash]
  have hsuffix : stripSuffix wavSuffix (take.stem ++ wavSuffix) = some take.stem := by
    rw [stripSuffix_some]
  simp only [parsePath, hstrip, Option.map_some, Option.getD_some, hparts, hset, if_true,
    kind_parse_asStr, hsuffix, parseTake_stem hnumber hnamed]

theorem components_takePath (root : Text) {set : Text} {take : Take} (hset : checkSet set = true)
    (hnamed : take.Named) :
    components (takePath root set take) = components root ++ names set take := by
  have hplain := plain_names hset hnamed
  rw [takePath, components_join _ (hplain _ (by simp [names])),
    components_join _ (hplain _ (by simp [names])), components_join _ (hplain _ (by simp [names])),
    names, List.append_assoc, List.append_assoc]
  rfl

theorem takePath_inj (root : Text) {set set' : Text} {take take' : Take}
    (hset : checkSet set = true) (hset' : checkSet set' = true) (hnumber : take.number ≤ 9999)
    (hnumber' : take'.number ≤ 9999) (hnamed : take.Named) (hnamed' : take'.Named)
    (h : takePath root set take = takePath root set' take') : set = set' ∧ take = take' := by
  have hcomponents := congrArg components h
  rw [components_takePath root hset hnamed, components_takePath root hset' hnamed'] at hcomponents
  have hnames := List.append_cancel_left hcomponents
  simp only [names, List.cons.injEq, List.append_cancel_right_eq, and_true] at hnames
  obtain ⟨hsets, hkinds, hstems⟩ := hnames
  have hread := parseTake_stem hnumber hnamed
  rw [asStr_injective hkinds, hstems, parseTake_stem hnumber' hnamed'] at hread
  exact ⟨hsets, (Option.some_inj.mp hread).symm⟩

/-- A take is read back of its stem, an accepted path of its set and take; its file is three
components below the root, and no other take's. -/
theorem takeNames_roundTrip (debug : Text → Text) :
    (∀ take : Take, take.number ≤ 9999 → take.Named →
      parseTake take.kind take.stem = some take) ∧
    (∀ path set take, parsePath debug path = .ok (set, take) →
      parsePath debug (pathOf set take) = .ok (set, take) ∧
      (∀ root, components (takePath root set take) = components root ++ names set take) ∧
      ∀ c ∈ names set take, c ≠ [] ∧ c ≠ ['.'] ∧ c ≠ ['.', '.'] ∧ '/' ∉ c) ∧
    ∀ root path path' set set' take take', parsePath debug path = .ok (set, take) →
      parsePath debug path' = .ok (set', take') →
        (takePath root set take = takePath root set' take' ↔ set = set' ∧ take = take') := by
  refine ⟨fun take hnumber hnamed => parseTake_stem hnumber hnamed, ?_, ?_⟩
  · intro path set take h
    obtain ⟨hset, hnumber, hnamed⟩ := of_parsePath h
    exact ⟨parsePath_pathOf debug hset hnumber hnamed,
      fun root => components_takePath root hset hnamed, plain_names hset hnamed⟩
  · intro root path path' set set' take take' h h'
    obtain ⟨hset, hnumber, hnamed⟩ := of_parsePath h
    obtain ⟨hset', hnumber', hnamed'⟩ := of_parsePath h'
    constructor
    · exact takePath_inj root hset hset' hnumber hnumber' hnamed hnamed'
    · rintro ⟨rfl, rfl⟩
      rfl

end StudioWorker.VoiceSamples
