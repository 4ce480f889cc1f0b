import StudioWorker.Lib.Separators
import StudioWorker.WakeWord.Weights

/-!
# WakeWord.SpokenTexts — the texts of an accepted request (`src/wake_word/request.rs`)

* `Library.Lawful`: what Unicode says of lower case.
* `Speakable`: what a phrase, a spelling and a near miss are to be.
* `slug_slug`, `isSlug_slug`: a slug is its own slug, and a name of samples.
* `texts_iff`: every text of the spec is as it is to be exactly when the request's phrase and near
  misses are without `İ`, which is two characters in lower case.
-/

namespace StudioWorker.WakeWord

open Lib Lib.Json Lib.Fallible Lib.Trim Lib.Separators Text VoiceSamples

/-- `İ` -/
def dottedI : Char := Char.ofNat 0x130

/-- The dot above that is left of it. -/
def dotAbove : Char := Char.ofNat 0x307

/-- What one character is in lower case: `İ` an `i` and a dot above it, any other one character of
its kind. -/
structure Library.Lowers (u : Library) (c : Char) (image : Text) : Prop where
  dotted : c = dottedI → image = ['i', dotAbove]
  single : c ≠ dottedI → ∃ d, image = [d] ∧ (u.isAlphabetic c = true → u.isAlphabetic d = true) ∧
    (u.isAlphabetic c = false → d = c)

/-- What Unicode says of lower case: it goes character by character (which of its two small forms a
sigma takes depends on the text), and twice is as once. -/
structure Library.Lawful (u : Library) : Prop where
  lowers : ∀ t, ∃ cs : List (Char × Text), cs.map Prod.fst = t ∧
    (∀ p ∈ cs, u.Lowers p.1 p.2) ∧ u.toLowercase t = cs.flatMap Prod.snd
  idempotent : ∀ t, u.toLowercase (u.toLowercase t) = u.toLowercase t
  ascii : ∀ t, (∀ c ∈ t, lowerOrDigit c = true ∨ c = '_') → u.toLowercase t = t
  notUpper : ∀ t, ∀ c ∈ u.toLowercase t, c.isUpper = false
  letter : ∀ c, u.isAlphabetic c = true → isWhitespace c = false
  dot : u.isAlphabetic dotAbove = false

/-- 2 to 64 letters, spaces, apostrophes and hyphens, without double or outer spaces. -/
structure Speakable (u : Library) (t : Text) : Prop where
  length_le : minPhraseChars ≤ t.length ∧ t.length ≤ maxPhraseChars
  chars : ∀ c ∈ t, (u.isAlphabetic c || isSpokenMark c) = true
  spaces : Parted ' ' t

/-! ## Spaces -/

/-- No blank but single spaces inside. -/
structure Tidy (t : Text) : Prop where
  blank : ∀ c ∈ t, isWhitespace c = true → c = ' '
  spaces : Parted ' ' t

theorem mem_splitWhitespace {t w : Text} (hw : w ∈ splitWhitespace t) :
    w ≠ [] ∧ ∀ c ∈ w, c ∈ t ∧ isWhitespace c = false := by
  obtain ⟨hw, hne⟩ := List.mem_filter.mp hw
  exact ⟨of_decide_eq_true hne, fun c hc => mem_piece hw hc⟩

theorem mem_of_mem_tidy {t : Text} {c : Char} (hc : c ∈ tidy t) :
    c ∈ t ∧ isWhitespace c = false ∨ c = ' ' := by
  refine (mem_of_mem_intercalate hc).imp (fun ⟨w, hw, hcw⟩ => ?_) List.mem_singleton.mp
  exact (mem_splitWhitespace hw).2 c hcw

/-- What is no blank stays. -/
theorem mem_tidy {t : Text} {c : Char} (hc : c ∈ t) (hblank : isWhitespace c = false) :
    c ∈ tidy t := by
  obtain ⟨w, hw, hcw⟩ := exists_piece hc hblank
  have hne : decide (w ≠ []) = true := decide_eq_true (List.ne_nil_of_mem hcw)
  exact mem_intercalate (List.mem_filter.mpr ⟨hw, hne⟩) hcw

theorem tidy_isTidy (t : Text) : Tidy (tidy t) where
  blank c hc hblank := by
    refine (mem_of_mem_tidy hc).resolve_left fun h => ?_
    rw [h.2] at hblank
    cases hblank
  spaces := parted_intercalate fun w hw => by
    obtain ⟨hne, hchars⟩ := mem_splitWhitespace hw
    refine ⟨hne, fun hspace => ?_⟩
    have hblank := (hchars ' ' hspace).2
    revert hblank
    decide

theorem splitOnP_congr {p q : Char → Bool} {t : Text} (h : ∀ c ∈ t, p c = q c) :
    t.splitOnP p = t.splitOnP q := by
  induction t with
  | nil => rw [List.splitOnP_nil, List.splitOnP_nil]
  | cons c t ih =>
    obtain ⟨hc, ht⟩ := List.forall_mem_cons.mp h
    rw [List.splitOnP_cons_eq_if_modifyHead, List.splitOnP_cons_eq_if_modifyHead, hc, ih ht]

/-- A tidy text is left as it is. -/
theorem Tidy.tidy_eq {t : Text} (h : Tidy t) : tidy t = t := by
  have hpieces : t.splitOnP isWhitespace = t.splitOn ' ' := by
    rw [List.splitOn_eq_splitOnP]
    refine splitOnP_congr fun c hc => ?_
    cases hblank : isWhitespace c with
    | true => rw [h.blank c hc hblank]; rfl
    | false =>
      symm
      rw [beq_eq_false_iff_ne]
      rintro rfl
      revert hblank
      decide
  by_cases ht : t = []
  · subst ht
    rfl
  · have hfull : [] ∉ t.splitOn ' ' := fun hmem =>
      ((nil_mem_splitOn t).mp hmem).elim ht fun hnot => hnot h.spaces
    have hall : (t.splitOn ' ').filter (· ≠ []) = t.splitOn ' ' := by
      refine List.filter_eq_self.mpr fun w hw => decide_eq_true ?_
      rintro rfl
      exact hfull hw
    rw [tidy, splitWhitespace, hpieces, hall, List.intercalate_splitOn]

/-! ## Lower case -/

section Lower

variable {u : Library} (hu : u.Lawful)

include hu

/-- No image is empty, and none holds a blank but that of a blank. -/
theorem Library.Lawful.image {c : Char} {image : Text} (h : u.Lowers c image) :
    image ≠ [] ∧ ∀ d ∈ image, isWhitespace d = true → image = [c] ∧ d = c := by
  by_cases hc : c = dottedI
  · rw [h.dotted hc]
    refine ⟨List.cons_ne_nil _ _, fun d hd hblank => ?_⟩
    rcases List.mem_cons.mp hd with rfl | hd
    · exact absurd hblank (by decide)
    · rw [List.mem_singleton.mp hd] at hblank
      exact absurd hblank (by decide)
  · obtain ⟨d, rfl, hletter, hother⟩ := h.single hc
    refine ⟨List.cons_ne_nil _ _, fun d' hd hblank => ?_⟩
    obtain rfl := List.mem_singleton.mp hd
    cases halpha : u.isAlphabetic c with
    | true =>
      rw [hu.letter d' (hletter halpha)] at hblank
      cases hblank
    | false => exact ⟨by rw [hother halpha], hother halpha⟩

/-- A lower-cased text begins with a space only where the text does. -/
theorem Library.Lawful.head_images {cs : List (Char × Text)} (h : ∀ p ∈ cs, u.Lowers p.1 p.2)
    (hhead : (cs.flatMap Prod.snd).head? = some ' ') : (cs.map Prod.fst).head? = some ' ' := by
  cases cs with
  | nil => cases hhead
  | cons p cs =>
    obtain ⟨hne, hblank⟩ := hu.image (h p List.mem_cons_self)
    obtain ⟨d, image, himage⟩ := List.exists_cons_of_ne_nil hne
    rw [List.flatMap_cons, himage, List.cons_append, List.head?_cons] at hhead
    obtain rfl := Option.some_inj.mp hhead
    rw [List.map_cons, List.head?_cons,
      ← (hblank ' ' (himage ▸ List.mem_cons_self) (by decide)).2]

omit hu in
theorem followed_append {l l' : Text} (hl : ' ' ∉ l) (hl' : Followed ' ' l') :
    Followed ' ' (l ++ l') := by
  induction l with
  | nil => exact hl'
  | cons c l ih =>
    exact ⟨fun h => absurd h.symm (List.ne_of_not_mem_cons hl),
      ih (List.not_mem_of_not_mem_cons hl)⟩

/-- A space that another character follows is followed by one in lower case. -/
theorem Library.Lawful.followed_images {cs : List (Char × Text)} (h : ∀ p ∈ cs, u.Lowers p.1 p.2)
    (hfollowed : Followed ' ' (cs.map Prod.fst)) : Followed ' ' (cs.flatMap Prod.snd) := by
  induction cs with
  | nil => trivial
  | cons p cs ih =>
    obtain ⟨hp, hcs⟩ := List.forall_mem_cons.mp h
    obtain ⟨hnext, hrest⟩ := hfollowed
    obtain ⟨hne, hblank⟩ := hu.image hp
    rw [List.flatMap_cons]
    by_cases hspace : ' ' ∈ p.2
    · obtain ⟨himage, hc⟩ := hblank ' ' hspace (by decide)
      obtain ⟨b, hb, hbne⟩ := hnext hc.symm
      rw [himage, ← hc]
      refine ⟨fun _ => ?_, ih hcs hrest⟩
      cases hhead : (cs.flatMap Prod.snd).head? with
      | some d =>
        refine ⟨d, hhead, ?_⟩
        rintro rfl
        rw [hu.head_images hcs hhead] at hb
        exact hbne (Option.some_inj.mp hb).symm
      | none =>
        -- there is a character behind the space, and its image is not empty
        cases cs with
        | nil => cases hb
        | cons q cs =>
          have hempty := List.head?_eq_none_iff.mp hhead
          rw [List.flatMap_cons] at hempty
          exact absurd (List.append_eq_nil_iff.mp hempty).1 (hu.image (hcs q List.mem_cons_self)).1
    · exact followed_append hspace (ih hcs hrest)

/-- In lower case a tidy text is tidy. -/
theorem Library.Lawful.tidy_toLowercase {t : Text} (h : Tidy t) : Tidy (u.toLowercase t) := by
  obtain ⟨cs, rfl, hcs, hlower⟩ := hu.lowers t
  rw [hlower]
  obtain ⟨hhead, hfollowed⟩ := parted_iff.mp h.spaces
  refine ⟨fun d hd hblank => ?_, parted_iff.mpr ⟨fun hspace => ?_, ?_⟩⟩
  · obtain ⟨p, hp, hd⟩ := List.mem_flatMap.mp hd
    have hdc := ((hu.image (hcs p hp)).2 d hd hblank).2
    exact h.blank d (hdc ▸ List.mem_map_of_mem hp) hblank
  · exact hhead (hu.head_images hcs hspace)
  · exact hu.followed_images hcs hfollowed

/-- Without `İ` a text keeps its length and its kinds of characters in lower case. -/
theorem Library.Lawful.kinds_toLowercase {t : Text} (hdotted : dottedI ∉ t) :
    (u.toLowercase t).length = t.length ∧ ((∀ c ∈ t, (u.isAlphabetic c || isSpokenMark c) = true) →
      ∀ c ∈ u.toLowercase t, (u.isAlphabetic c || isSpokenMark c) = true) := by
  obtain ⟨cs, rfl, hcs, hlower⟩ := hu.lowers t
  rw [hlower]
  clear hlower
  induction cs with
  | nil => exact ⟨rfl, fun _ c hc => absurd hc List.not_mem_nil⟩
  | cons p cs ih =>
    obtain ⟨hp, hcs⟩ := List.forall_mem_cons.mp hcs
    obtain ⟨d, himage, hletter, hother⟩ :=
      hp.single fun h => List.ne_of_not_mem_cons hdotted h.symm
    obtain ⟨hlength, hkinds⟩ := ih (List.not_mem_of_not_mem_cons hdotted) hcs
    rw [List.flatMap_cons, himage, List.map_cons, List.singleton_append]
    refine ⟨by rw [List.length_cons, List.length_cons, hlength], fun hall => ?_⟩
    obtain ⟨hhead, hrest⟩ := List.forall_mem_cons.mp hall
    refine List.forall_mem_cons.mpr ⟨?_, hkinds hrest⟩
    cases halpha : u.isAlphabetic p.1 with
    | true => rw [hletter halpha, Bool.true_or]
    | false => rw [hother halpha]; exact hhead

/-- In lower case `İ` leaves its dot behind. -/
theorem Library.Lawful.dotAbove_mem {t : Text} (hdotted : dottedI ∈ t) :
    dotAbove ∈ u.toLowercase t := by
  obtain ⟨cs, rfl, hcs, hlower⟩ := hu.lowers t
  obtain ⟨p, hp, hpi⟩ := List.mem_map.mp hdotted
  rw [hlower]
  refine List.mem_flatMap.mpr ⟨p, hp, ?_⟩
  rw [(hcs p hp).dotted hpi]
  exact List.mem_cons_of_mem _ List.mem_cons_self

/-- A speakable text is speakable in lower case exactly where it has no `İ`. -/
theorem Library.Lawful.speakable_iff {t : Text} (h : Tidy t)
    (hlength : minPhraseChars ≤ t.length ∧ t.length ≤ maxPhraseChars)
    (hchars : ∀ c ∈ t, (u.isAlphabetic c || isSpokenMark c) = true) :
    Speakable u (u.toLowercase t) ↔ dottedI ∉ t := by
  constructor
  · intro hspeak hdotted
    have hdot := hspeak.chars dotAbove (hu.dotAbove_mem hdotted)
    rw [hu.dot] at hdot
    revert hdot
    decide
  · intro hdotted
    obtain ⟨hlen, hkinds⟩ := hu.kinds_toLowercase hdotted
    exact ⟨by rwa [hlen], hkinds hchars, (hu.tidy_toLowercase h).spaces⟩

end Lower

/-! ## Slugs -/

/-- What a file may be named by: `a-z`, `0-9` and single underscores inside, 48 at most. -/
structure Slugged (s : Text) : Prop where
  chars : ∀ c ∈ s, lowerOrDigit c = true ∨ c = '_'
  spaces : Parted '_' s
  length_le : s.length ≤ maxNameChars

theorem isAlpha_eq (c : Char) : c.isAlpha = (c.isUpper || c.isLower) := rfl

theorem isUpper_iff {c : Char} : c.isUpper = true ↔ 65 ≤ c.toNat ∧ c.toNat ≤ 90 :=
  decide_eq_true_iff.trans (and_congr UInt32.le_iff_toNat_le UInt32.le_iff_toNat_le)

theorem isLower_iff {c : Char} : c.isLower = true ↔ 97 ≤ c.toNat ∧ c.toNat ≤ 122 := by
  show (decide (97 ≤ c.val) && decide (c.val ≤ 122)) = true ↔ _
  rw [Bool.and_eq_true, decide_eq_true_eq, decide_eq_true_eq]
  exact and_congr UInt32.le_iff_toNat_le UInt32.le_iff_toNat_le

theorem lowerOrDigit_of {c : Char} (hupper : c.isUpper = false) (h : c.isAlphanum = true) :
    lowerOrDigit c = true := by
  rw [Char.isAlphanum, isAlpha_eq, hupper, Bool.false_or] at h
  exact h

theorem isAlphanum_of {c : Char} (h : lowerOrDigit c = true) : c.isAlphanum = true := by
  rw [lowerOrDigit, Bool.or_eq_true] at h
  rw [Char.isAlphanum, isAlpha_eq, Bool.or_eq_true, Bool.or_eq_true]
  exact h.imp_left Or.inr

/-- One character more: no capital letter comes in, and no second underscore in a row. -/
theorem slugChar_keeps {slug : Text} {c : Char} (hupper : c.isUpper = false)
    (h : (∀ d ∈ slug, lowerOrDigit d = true ∨ d = '_') ∧ ¬ ['_', '_'] <:+: slug) :
    (∀ d ∈ slugChar slug c, lowerOrDigit d = true ∨ d = '_') ∧
      ¬ ['_', '_'] <:+: slugChar slug c := by
  have hconcat : ∀ d : Char, (lowerOrDigit d = true ∨ d = '_') →
      (slug.getLast? = some '_' → d ≠ '_') →
        (∀ e ∈ slug ++ [d], lowerOrDigit e = true ∨ e = '_') ∧
          ¬ ['_', '_'] <:+: slug ++ [d] := by
    intro d hd hlast
    rw [pair_infix_concat]
    refine ⟨fun e he => ?_, fun hpair => ?_⟩
    · rcases List.mem_append.mp he with he | he
      · exact h.1 e he
      · rwa [List.mem_singleton.mp he]
    · rcases hpair with ⟨hl, hd⟩ | hpair
      · exact hlast hl hd
      · exact h.2 hpair
  rw [slugChar]
  split_ifs with halnum hlast
  · refine hconcat c (Or.inl (lowerOrDigit_of hupper halnum)) fun _ hc => ?_
    rw [hc] at halnum
    revert halnum
    decide
  · exact h
  · exact hconcat '_' (Or.inr rfl) fun hl => absurd hl hlast

theorem foldl_slugChar_keeps {t slug : Text} (hupper : ∀ c ∈ t, c.isUpper = false)
    (h : (∀ d ∈ slug, lowerOrDigit d = true ∨ d = '_') ∧ ¬ ['_', '_'] <:+: slug) :
    (∀ d ∈ t.foldl slugChar slug, lowerOrDigit d = true ∨ d = '_') ∧
      ¬ ['_', '_'] <:+: t.foldl slugChar slug := by
  induction t generalizing slug with
  | nil => exact h
  | cons c t ih =>
    obtain ⟨hc, ht⟩ := List.forall_mem_cons.mp hupper
    exact ih ht (slugChar_keeps hc h)

/-- A text that is a slug is gone through without a change. -/
theorem foldl_slugChar_eq {t slug : Text} (h : ∀ c ∈ t, lowerOrDigit c = true ∨ c = '_')
    (hsingle : ¬ ['_', '_'] <:+: slug ++ t) : t.foldl slugChar slug = slug ++ t := by
  induction t generalizing slug with
  | nil => rw [List.foldl_nil, List.append_nil]
  | cons c t ih =>
    obtain ⟨hc, ht⟩ := List.forall_mem_cons.mp h
    have hstep : slugChar slug c = slug ++ [c] := by
      rw [slugChar]
      split_ifs with halnum hlast
      · rfl
      · exfalso
        have hc : c = '_' := hc.resolve_left fun h => halnum (isAlphanum_of h)
        obtain ⟨slug, rfl⟩ := List.getLast?_eq_some_iff.mp hlast
        exact hsingle ⟨slug, t, by simp [hc]⟩
      · rw [hc.resolve_left fun h => halnum (isAlphanum_of h)]
    rw [List.foldl_cons, hstep, ih ht (by simpa using hsingle), List.append_assoc,
      List.singleton_append]

section Slug

variable {u : Library} (hu : u.Lawful)

include hu

theorem Library.Lawful.slugged_slug (t : Text) : Slugged (slug u t) := by
  obtain ⟨hchars, hsingle⟩ := @foldl_slugChar_keeps _ [] (hu.notUpper t)
    ⟨fun d hd => absurd hd List.not_mem_nil, by simp⟩
  obtain ⟨raw, hraw⟩ : ∃ raw, (u.toLowercase t).foldl slugChar [] = raw := ⟨_, rfl⟩
  rw [hraw] at hchars hsingle
  -- trimming, cutting and trimming leave a part of what was pushed
  have htrim := trimmed_trim (p := fun c => decide (c = '_')) raw
  have hcut : ((trim (fun c => decide (c = '_')) raw).take maxNameChars).rdropWhile
      (fun c => decide (c = '_')) <+: trim (fun c => decide (c = '_')) raw :=
    (List.rdropWhile_prefix _ _).trans (List.take_prefix _ _)
  have hinside : slug u t <:+: raw := by
    rw [slug, hraw]
    exact hcut.isInfix.trans
      ((trim_isPrefix raw).isInfix.trans (List.dropWhile_suffix _).isInfix)
  refine ⟨fun c hc => hchars c (hinside.subset hc), parted_of_trimmed ?_ fun hpair =>
    hsingle (hpair.trans hinside), ?_⟩
  · rw [slug, hraw]
    constructor
    · exact dropWhile_of_prefix hcut htrim.1
    · exact List.rdropWhile_idempotent _ _
  · rw [slug, hraw]
    exact (List.rdropWhile_prefix _ _).length_le.trans (List.length_take_le _ _)

theorem Library.Lawful.slug_eq {s : Text} (h : Slugged s) : slug u s = s := by
  have hself := @foldl_slugChar_eq s [] h.chars h.spaces.single
  have htrim := h.spaces.trimmed
  rw [slug, hu.ascii s h.chars, hself, List.nil_append, htrim.trim_eq,
    List.take_of_length_le h.length_le]
  exact htrim.2

/-- A slug is its own slug. -/
theorem Library.Lawful.slug_slug (t : Text) : slug u (slug u t) = slug u t :=
  hu.slug_eq (hu.slugged_slug t)

end Slug

/-- What names a near miss's samples. -/
theorem Slugged.isSlug {s : Text} (h : Slugged s) (hne : s ≠ []) : isSlug s = true := by
  rw [VoiceSamples.isSlug, split_singleton, Bool.and_eq_true, decide_eq_true_eq, List.all_eq_true]
  refine ⟨hne, fun part hpart => ?_⟩
  rw [Bool.and_eq_true, decide_eq_true_eq, List.all_eq_true]
  refine ⟨?_, fun c hc => ?_⟩
  · rintro rfl
    exact ((nil_mem_splitOn s).mp hpart).elim hne fun hnot => hnot h.spaces
  · rw [List.splitOn_eq_splitOnP] at hpart
    obtain ⟨hcs, hcx⟩ := mem_piece hpart hc
    exact (h.chars c hcs).resolve_right (beq_eq_false_iff_ne.mp hcx)

/-! ## What the checks pass -/

section Checks

variable {u : Library} {field : String} {text out phrase : Text}

theorem of_spoken (h : spoken u field text = .ok out) :
    out = tidy text ∧ (minPhraseChars ≤ out.length ∧ out.length ≤ maxPhraseChars) ∧
      ∀ c ∈ out, (u.isAlphabetic c || isSpokenMark c) = true := by
  rw [spoken] at h
  split_ifs at h with hlength
  · cases h
  · split at h
    · cases h
    · next hfind =>
      obtain rfl := Except.ok.inj h
      refine ⟨rfl, by omega, fun c hc => ?_⟩
      have hnone := List.find?_eq_none.mp hfind c hc
      rwa [Bool.not_eq_true', Bool.not_eq_false] at hnone

theorem speakable_of_spoken (h : spoken u field text = .ok out) : Speakable u out := by
  obtain ⟨rfl, hlength, hchars⟩ := of_spoken h
  exact ⟨hlength, hchars, (tidy_isTidy text).spaces⟩

/-- `İ` is no blank, so it is in a text where it is in the tidied one. -/
theorem dottedI_mem_tidy : dottedI ∈ tidy text ↔ dottedI ∈ text := by
  refine ⟨fun h => ((mem_of_mem_tidy h).resolve_right (by decide)).1, fun h => ?_⟩
  exact mem_tidy h (by decide)

/-- What is checked and then lower-cased is still as it is to be exactly where it has no `İ`. -/
theorem Library.Lawful.lower_spoken (hu : u.Lawful) (h : spoken u field text = .ok out) :
    Speakable u (u.toLowercase out) ↔ dottedI ∉ text := by
  obtain ⟨rfl, hlength, hchars⟩ := of_spoken h
  rw [hu.speakable_iff (tidy_isTidy text) hlength hchars, dottedI_mem_tidy]

theorem of_nameOf (hu : u.Lawful) {given : Option Text} {name : Text}
    (h : nameOf u phrase given = .ok name) :
    name ≠ [] ∧ name.length ≤ maxNameChars ∧ ∀ c ∈ name, lowerOrDigit c = true ∨ c = '_' := by
  cases given with
  | some text =>
    rw [nameOf] at h
    split_ifs at h with hok
    · obtain rfl := Except.ok.inj h
      obtain ⟨hne, hlength, hchars⟩ := hok
      refine ⟨hne, (length_le_bytes text).trans hlength, fun c hc => ?_⟩
      have := List.all_eq_true.mp hchars c hc
      rwa [Bool.or_eq_true, decide_eq_true_eq] at this
    · cases h
  | none =>
    rw [nameOf] at h
    split_ifs at h with hne
    · cases h
    · obtain rfl := Except.ok.inj h
      have hslug := hu.slugged_slug phrase
      exact ⟨hne, hslug.length_le, hslug.chars⟩

/-- A text of the spellings is one that was checked, or the phrase itself. -/
def Spellable (u : Library) (phrase : Text) (spellings : List (Language × List Text)) : Prop :=
  ∀ s ∈ spellings, ∀ t ∈ s.2, t = phrase ∨ Tidy t ∧ Speakable u t

theorem addSpellings_keeps {s s' : Spellings} {language : Language}
    (h : addSpellings u phrase s language = .ok s') (hs : Spellable u phrase s.2) :
    Spellable u phrase s'.2 := by
  have hconcat : ∀ list : List Text, (∀ t ∈ list, t = phrase ∨ Tidy t ∧ Speakable u t) →
      Spellable u phrase (s.2 ++ [(language, list)]) := by
    intro list hlist e he
    rcases List.mem_append.mp he with he | he
    · exact hs e he
    · rw [List.mem_singleton.mp he]
      exact hlist
  rw [addSpellings] at h
  split at h
  · dsimp only at h
    split_ifs at h
    · cases h
    · obtain ⟨list, hlist, h⟩ := bind_eq_ok h
      obtain rfl := Except.ok.inj h
      refine hconcat list fun t ht => Or.inr ?_
      obtain ⟨given, -, hspoken⟩ := mem_of_mapM_ok hlist ht
      have htidy := (of_spoken hspoken).1 ▸ tidy_isTidy given
      exact ⟨htidy, speakable_of_spoken hspoken⟩
  · obtain rfl := Except.ok.inj h
    exact hconcat [phrase] fun t ht => Or.inl (List.mem_singleton.mp ht)

theorem spellable_of_spellingsOf {languages : List Language}
    {given : Option (Entries String (List Text))} {spellings : List (Language × List Text)}
    (h : spellingsOf u phrase languages given = .ok spellings) :
    Spellable u phrase spellings := by
  have hrun : ∀ {ls : List Language} {s s' : Spellings},
      ls.foldlM (addSpellings u phrase) s = .ok s' → Spellable u phrase s.2 →
        Spellable u phrase s'.2 := by
    intro ls
    induction ls with
    | nil =>
      intro s s' h hs
      obtain rfl := Except.ok.inj h
      exact hs
    | cons language ls ih =>
      intro s s' h hs
      rw [List.foldlM_cons] at h
      obtain ⟨next, hnext, h⟩ := bind_eq_ok h
      exact ih h (addSpellings_keeps hnext hs)
  obtain ⟨s, hs, h⟩ := bind_eq_ok h
  have hall := hrun hs fun e he => absurd he List.not_mem_nil
  split at h
  · obtain rfl := Except.ok.inj h
    exact hall
  · cases h

/-- A near miss that is taken is checked and lower-cased, and is none of the texts before it. -/
theorem of_addNegative {spellings : List (Language × List Text)} {checked checked' : List Text}
    (h : addNegative u phrase spellings checked text = .ok checked') :
    (∃ out, spoken u "negatives" text = .ok out) ∧
      checked' = checked ++ [u.toLowercase (tidy text)] ∧
        u.toLowercase (tidy text) ≠ phrase ∧
          (∀ s ∈ spellings, ∀ t ∈ s.2, u.toLowercase t ≠ u.toLowercase (tidy text)) ∧
            u.toLowercase (tidy text) ∉ checked := by
  obtain ⟨out, hout, h⟩ := bind_eq_ok h
  obtain rfl := (of_spoken hout).1
  dsimp only at h
  split_ifs at h with hpositive htwice
  · cases h
  · cases h
  · obtain rfl := Except.ok.inj h
    rw [Bool.or_eq_true, not_or, beq_iff_eq, Bool.not_eq_true] at hpositive
    refine ⟨⟨_, hout⟩, rfl, hpositive.1, fun s hs t ht heq => ?_, fun hmem => htwice ?_⟩
    · have hs := List.any_eq_false.mp hpositive.2 s hs
      have ht := List.any_eq_false.mp (Bool.not_eq_true _ ▸ hs) t ht
      exact ht (beq_iff_eq.mpr heq)
    · exact List.contains_iff_mem.mpr hmem

/-- A near miss that is checked. -/
def Missing (u : Library) (phrase : Text) (spellings : List (Language × List Text)) (text : Text) :
    Prop :=
  (∃ out, spoken u "negatives" text = .ok out) ∧ u.toLowercase (tidy text) ≠ phrase ∧
    ∀ s ∈ spellings, ∀ t ∈ s.2, u.toLowercase t ≠ u.toLowercase (tidy text)

theorem of_addNegatives {spellings : List (Language × List Text)} {texts checked out : List Text}
    (h : texts.foldlM (addNegative u phrase spellings) checked = .ok out) (hnodup : checked.Nodup) :
    out = checked ++ texts.map (fun text => u.toLowercase (tidy text)) ∧ out.Nodup ∧
      ∀ text ∈ texts, Missing u phrase spellings text := by
  induction texts generalizing checked with
  | nil =>
    obtain rfl := Except.ok.inj h
    exact ⟨(List.append_nil _).symm, hnodup, fun text ht => absurd ht List.not_mem_nil⟩
  | cons text texts ih =>
    rw [List.foldlM_cons] at h
    obtain ⟨next, hnext, h⟩ := bind_eq_ok h
    obtain ⟨hspoken, rfl, hphrase, hspelling, hnew⟩ := of_addNegative hnext
    obtain ⟨rfl, hout, hall⟩ := ih h (List.nodup_append.mpr ⟨hnodup, List.nodup_singleton _,
      fun a ha b hb hab => hnew (List.mem_singleton.mp hb ▸ hab ▸ ha)⟩)
    refine ⟨?_, hout, List.forall_mem_cons.mpr ⟨⟨hspoken, hphrase, hspelling⟩, hall⟩⟩
    rw [List.map_cons, List.append_assoc, List.singleton_append]

theorem of_addSlug {slugs slugs' : List (Text × Text)} (h : addSlug u slugs text = .ok slugs') :
    slug u text ≠ [] ∧ slug u text ∉ slugs.map Prod.fst ∧
      slugs' = (slug u text, text) :: slugs := by
  rw [addSlug] at h
  split_ifs at h with hne
  · cases h
  · split at h
    · cases h
    · next hlookup =>
      obtain rfl := Except.ok.inj h
      refine ⟨hne, fun hmem => ?_, rfl⟩
      obtain ⟨p, hp, hname⟩ := List.mem_map.mp hmem
      have hother := List.lookup_eq_none_iff.mp hlookup p hp
      rw [hname] at hother
      exact absurd hother (by simp)

/-- Slugs that are taken are not empty, and none is there twice. -/
theorem of_addSlugs {texts : List Text} {slugs out : List (Text × Text)}
    (h : texts.foldlM (addSlug u) slugs = .ok out) :
    (texts.map (slug u)).Nodup ∧ ∀ text ∈ texts, slug u text ≠ [] ∧
      slug u text ∉ slugs.map Prod.fst := by
  induction texts generalizing slugs with
  | nil => exact ⟨List.nodup_nil, fun text ht => absurd ht List.not_mem_nil⟩
  | cons text texts ih =>
    rw [List.foldlM_cons] at h
    obtain ⟨next, hnext, h⟩ := bind_eq_ok h
    obtain ⟨hne, hnew, rfl⟩ := of_addSlug hnext
    obtain ⟨hnodup, hall⟩ := ih h
    rw [List.map_cons]
    refine ⟨List.nodup_cons.mpr ⟨fun hmem => ?_, hnodup⟩, List.forall_mem_cons.mpr
      ⟨⟨hne, hnew⟩, fun t ht => ⟨(hall t ht).1, fun hmem => (hall t ht).2 ?_⟩⟩⟩
    · obtain ⟨t, ht, hslug⟩ := List.mem_map.mp hmem
      refine (hall t ht).2 ?_
      rw [hslug]
      exact List.mem_cons_self
    · exact List.mem_cons_of_mem _ hmem

theorem of_negativesOf {spellings : List (Language × List Text)} {given : Option (List Text)}
    {negatives : List Text} (h : negativesOf u phrase spellings given = .ok negatives) :
    negatives = (given.getD []).map (fun text => u.toLowercase (tidy text)) ∧ negatives.Nodup ∧
      (∀ text ∈ given.getD [], Missing u phrase spellings text) ∧
        (negatives.map (slug u)).Nodup ∧ ∀ text ∈ negatives, slug u text ≠ [] := by
  rw [negativesOf] at h
  split_ifs at h
  · cases h
  · obtain ⟨checked, hchecked, h⟩ := bind_eq_ok h
    obtain ⟨slugs, hslugs, h⟩ := bind_eq_ok h
    obtain rfl := Except.ok.inj h
    obtain ⟨hmap, hnodup, hmissing⟩ := of_addNegatives hchecked List.nodup_nil
    obtain ⟨hslug, hne⟩ := of_addSlugs hslugs
    exact ⟨hmap, hnodup, hmissing, hslug, fun text ht => (hne text ht).1⟩

end Checks

/-! ## An accepted request -/

section Accepted

variable {F : Type} {f : F64 F} {u : Library} {v : Json} {spec : TrainingSpec F}

/-- Every text of a spec is as it is to be. -/
structure WellSpoken (u : Library) (spec : TrainingSpec F) : Prop where
  phrase : Speakable u spec.phrase
  spellings : ∀ s ∈ spec.spellings, ∀ t ∈ s.2, Speakable u t
  negatives : ∀ n ∈ spec.negatives, Speakable u n
  /-- Whatever their case and their spaces. -/
  apart : ∀ n ∈ spec.negatives, ∀ t, (t = spec.phrase ∨ ∃ s ∈ spec.spellings, t ∈ s.2) →
    u.toLowercase (tidy n) ≠ u.toLowercase (tidy t)
  distinct : spec.negatives.Nodup
  slugs : (spec.negatives.map (slug u)).Nodup
  isSlug : ∀ n ∈ spec.negatives, (slug u n).length ≤ maxNameChars ∧ isSlug (slug u n) = true
  name : spec.name ≠ [] ∧ spec.name.length ≤ maxNameChars ∧
    ∀ c ∈ spec.name, lowerOrDigit c = true ∨ c = '_'
  slug : ∀ t, slug u (slug u t) = slug u t

/-- Where the texts of a spec come from. -/
structure Checked (u : Library) (body : Body F) (spec : TrainingSpec F) : Prop where
  phrase : spec.phrase = u.toLowercase (tidy body.phrase)
  spoken : ∃ out, WakeWord.spoken u "phrase" body.phrase = .ok out
  name : nameOf u spec.phrase body.name = .ok spec.name
  spellings : Spellable u spec.phrase spec.spellings
  negatives : negativesOf u spec.phrase spec.spellings body.negatives = .ok spec.negatives

theorem checked_of_check {body : Body F} (h : body.check f u = .ok spec) :
    Checked u body spec := by
  unfold Body.check at h
  obtain ⟨phrase, hphrase, h⟩ := bind_eq_ok h
  obtain ⟨name, hname, h⟩ := bind_eq_ok h
  obtain ⟨_, -, h⟩ := bind_eq_ok h
  obtain ⟨_, -, h⟩ := bind_eq_ok h
  obtain ⟨spellings, hspellings, h⟩ := bind_eq_ok h
  obtain ⟨negatives, hnegatives, h⟩ := bind_eq_ok h
  iterate 6 obtain ⟨_, -, h⟩ := bind_eq_ok h
  obtain rfl := Except.ok.inj h
  exact ⟨by rw [(of_spoken hphrase).1], ⟨phrase, hphrase⟩, hname,
    spellable_of_spellingsOf hspellings, hnegatives⟩

variable (hu : u.Lawful)

include hu

/-- Every text of a spec is as it is to be exactly when the request's phrase and near misses have no
`İ`. -/
theorem wellSpoken_iff {body : Body F} (h : Checked u body spec) :
    WellSpoken u spec ↔
      dottedI ∉ body.phrase ∧ ∀ text ∈ body.negatives.getD [], dottedI ∉ text := by
  obtain ⟨hnegatives, hdistinct, hmissing, hslugs, hne⟩ := of_negativesOf h.negatives
  obtain ⟨phrase, hphrase⟩ := h.spoken
  have hspoken := hu.lower_spoken hphrase
  rw [(of_spoken hphrase).1, ← h.phrase] at hspoken
  have hnegative : ∀ text ∈ body.negatives.getD [],
      (Speakable u (u.toLowercase (tidy text)) ↔ dottedI ∉ text) := by
    intro text htext
    obtain ⟨out, hout⟩ := (hmissing text htext).1
    obtain rfl := (of_spoken hout).1
    exact hu.lower_spoken hout
  constructor
  · intro hwell
    refine ⟨hspoken.mp hwell.phrase, fun text htext => ?_⟩
    refine (hnegative text htext).mp (hwell.negatives _ ?_)
    rw [hnegatives]
    exact List.mem_map_of_mem htext
  · rintro ⟨hdotted, hall⟩
    have hphraseTidy : Tidy spec.phrase := h.phrase ▸ hu.tidy_toLowercase (tidy_isTidy body.phrase)
    have hspelled : ∀ s ∈ spec.spellings, ∀ t ∈ s.2, Tidy t ∧ Speakable u t := by
      intro s hs t ht
      rcases h.spellings s hs t ht with rfl | hspelling
      · exact ⟨hphraseTidy, hspoken.mpr hdotted⟩
      · exact hspelling
    refine {
      phrase := hspoken.mpr hdotted
      spellings := fun s hs t ht => (hspelled s hs t ht).2
      negatives := fun n hn => ?_
      apart := fun n hn t ht => ?_
      distinct := hdistinct
      slugs := hslugs
      isSlug := fun n hn =>
        ⟨(hu.slugged_slug n).length_le, (hu.slugged_slug n).isSlug (hne n hn)⟩
      name := of_nameOf hu h.name
      slug := hu.slug_slug }
    · rw [hnegatives] at hn
      obtain ⟨text, htext, rfl⟩ := List.mem_map.mp hn
      exact (hnegative text htext).mpr (hall text htext)
    · rw [hnegatives] at hn
      obtain ⟨text, htext, rfl⟩ := List.mem_map.mp hn
      obtain ⟨-, hphrase, hspelling⟩ := hmissing text htext
      rw [(hu.tidy_toLowercase (tidy_isTidy text)).tidy_eq, hu.idempotent]
      rcases ht with rfl | ⟨s, hs, ht⟩
      · rw [hphraseTidy.tidy_eq, h.phrase, hu.idempotent, ← h.phrase]
        exact hphrase
      · rw [(hspelled s hs t ht).1.tidy_eq]
        exact (hspelling s hs t ht).symm

end Accepted

/-- A character of a Latin text in lower case. -/
def latinLower (c : Char) : Text := if c = dottedI then ['i', dotAbove] else [c.toLower]

/-- The tables for ASCII texts and `İ`. -/
def latin : Library :=
  { ascii with
    isAlphabetic := fun c => c.isAlpha || c = dottedI
    toLowercase := fun t => t.flatMap latinLower }

theorem not_isUpper_of_not_isAlpha {c : Char} (h : c.isAlpha = false) : c.isUpper = false := by
  rw [isAlpha_eq, Bool.or_eq_false_iff] at h
  exact h.1

theorem toLower_of_not_isUpper {c : Char} (h : c.isUpper = false) : c.toLower = c := by
  refine (dif_neg fun hupper => ?_ : c.toLower = c)
  have hyes : c.isUpper = true := decide_eq_true hupper
  rw [h] at hyes
  cases hyes

/-- What holds of `A` to `Z` one by one. -/
theorem forall_isUpper {P : Char → Prop} (h : ∀ n < 26, P (Char.ofNat (65 + n))) {c : Char}
    (hc : c.isUpper = true) : P c := by
  obtain ⟨hlow, hhigh⟩ := isUpper_iff.mp hc
  have hself := h (c.toNat - 65) (by omega)
  rwa [Nat.add_sub_cancel' hlow, Char.ofNat_toNat] at hself

theorem latinLower_of_not_isUpper {c : Char} (hc : c ≠ dottedI) (hupper : c.isUpper = false) :
    latinLower c = [c] := by
  rw [latinLower, if_neg hc, toLower_of_not_isUpper hupper]

theorem not_isUpper_latinLower {c d : Char} (hd : d ∈ latinLower c) :
    d ≠ dottedI ∧ d.isUpper = false := by
  rw [latinLower] at hd
  split_ifs at hd with hc
  · rcases List.mem_cons.mp hd with rfl | hd
    · decide
    · rw [List.mem_singleton.mp hd]
      decide
  · obtain rfl := List.mem_singleton.mp hd
    cases hupper : c.isUpper with
    | true =>
      exact forall_isUpper (P := fun c => c.toLower ≠ dottedI ∧ c.toLower.isUpper = false)
        (by decide) hupper
    | false =>
      rw [toLower_of_not_isUpper hupper]
      exact ⟨hc, hupper⟩

theorem isAlpha_toLower {c : Char} (h : c.isAlpha = true) : c.toLower.isAlpha = true := by
  cases hupper : c.isUpper with
  | true => exact forall_isUpper (P := fun c => c.toLower.isAlpha = true) (by decide) hupper
  | false => rwa [toLower_of_not_isUpper hupper]

theorem flatMap_latinLower {t : Text} (h : ∀ c ∈ t, latinLower c = [c]) :
    t.flatMap latinLower = t := by
  induction t with
  | nil => rfl
  | cons c t ih =>
    obtain ⟨hc, ht⟩ := List.forall_mem_cons.mp h
    rw [List.flatMap_cons, hc, ih ht, List.singleton_append]

theorem isAlphabetic_latin {c : Char} :
    latin.isAlphabetic c = true ↔ c.isAlpha = true ∨ c = dottedI := by
  show (c.isAlpha || decide (c = dottedI)) = true ↔ _
  rw [Bool.or_eq_true, decide_eq_true_eq]

theorem isWhitespace_of_isAlpha {c : Char} (h : c.isAlpha = true) : isWhitespace c = false := by
  rw [isAlpha_eq, Bool.or_eq_true, isUpper_iff, isLower_iff] at h
  simp only [isWhitespace, Bool.or_eq_false_iff, Bool.and_eq_false_iff, decide_eq_false_iff_not,
    beq_eq_false_iff_ne]
  have hlow : 65 ≤ c.toNat ∧ c.toNat ≤ 122 := by
    rcases h with h | h
    · exact ⟨h.1, h.2.trans (by decide)⟩
    · exact ⟨le_trans (by decide) h.1, h.2⟩
  omega

theorem latin_lawful : latin.Lawful where
  lowers t := by
    refine ⟨t.map fun c => (c, latinLower c), ?_, fun p hp => ?_, ?_⟩
    · rw [List.map_map]
      exact List.map_id t
    · obtain ⟨c, -, rfl⟩ := List.mem_map.mp hp
      refine ⟨fun hc => if_pos hc, fun hc =>
        ⟨c.toLower, if_neg hc, fun halpha => ?_, fun hother => ?_⟩⟩
      · have halpha := (isAlphabetic_latin.mp halpha).resolve_right hc
        exact isAlphabetic_latin.mpr (Or.inl (isAlpha_toLower halpha))
      · refine toLower_of_not_isUpper (not_isUpper_of_not_isAlpha ?_)
        rw [← Bool.not_eq_true]
        intro halpha
        rw [isAlphabetic_latin.mpr (Or.inl halpha)] at hother
        cases hother
    · rw [List.flatMap_map]
      rfl
  idempotent t := by
    refine flatMap_latinLower fun c hc => ?_
    obtain ⟨b, -, hb⟩ := List.mem_flatMap.mp hc
    obtain ⟨hne, hupper⟩ := not_isUpper_latinLower hb
    exact latinLower_of_not_isUpper hne hupper
  ascii t h := by
    refine flatMap_latinLower fun c hc => ?_
    rcases h c hc with hlower | rfl
    · refine latinLower_of_not_isUpper ?_ ?_
      · rintro rfl
        revert hlower
        decide
      · rw [lowerOrDigit, Bool.or_eq_true] at hlower
        refine Bool.eq_false_iff.mpr fun hupper => ?_
        exact forall_isUpper (P := fun c => ¬ (c.isLower = true ∨ c.isDigit = true)) (by decide)
          hupper hlower
    · decide
  notUpper t c hc := by
    obtain ⟨b, -, hb⟩ := List.mem_flatMap.mp hc
    exact (not_isUpper_latinLower hb).2
  letter c hc := by
    rcases isAlphabetic_latin.mp hc with halpha | rfl
    · exact isWhitespace_of_isAlpha halpha
    · decide
  dot := by decide

def dottedBody : Json := .object [("phrase", .string "İstanbul")]

end StudioWorker.WakeWord
