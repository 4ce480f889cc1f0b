import Mathlib.Data.Bool.AllAny
import StudioWorker.Lib.Search
import StudioWorker.Lib.Separators
import StudioWorker.Lib.Trim
import StudioWorker.Lib.Url

/-!
# Lib.UrlPath — the path of a web URL, as a parser leaves it

* `parsePath`: a path parsed, its characters encoded and its dot segments removed.
* `Normal`: the paths that a parser gives, and what stands before a slash in them.
* `Normal.of_parsePath`, `Normal.parse_orRoot`: they are those that it leaves as they are.
* `Normal.parse_append`: a path that is continued by three segments.
* `parse`, `serialize`: a whole URL, up to the rules for what is not its path.
-/

namespace Lib.UrlPath

open Lib.Search Lib.Url

/-- Both part the segments of a web URL. -/
def isSlash (c : Char) : Bool := c == '/' || c == '\\'

/-- Tabs and line ends are not read. -/
def isIgnored (c : Char) : Bool := c == '\t' || c == '\n' || c == '\r'

/-- The path percent-encode set. -/
def isEncoded (c : Char) : Bool :=
  c.toNat < 0x20 || 0x7E < c.toNat || " \"<>`#?\x7b\x7d".toList.contains c

def pathChar (c : Char) : List Char := if isEncoded c then encodeChar c else [c]

def isSingleDot (seg : List Char) : Bool :=
  [".".toList, "%2e".toList].contains (seg.map Char.toLower)

def isDoubleDot (seg : List Char) : Bool :=
  ["..".toList, ".%2e".toList, "%2e.".toList, "%2e%2e".toList].contains (seg.map Char.toLower)

/-- A dot segment in its own characters. -/
def plainDots (seg : List Char) : List Char :=
  if isSingleDot seg then dot else if isDoubleDot seg then dotDot else seg

def parsePath (t : List Char) : List Char :=
  let t := t.filter (!isIgnored ·)
  let t := if t.head?.any isSlash then t.tail else t
  joinPath (removeDotSegments
    ((t.splitOnP isSlash).map fun seg => plainDots (seg.flatMap pathChar)))

/-! ## Characters and segments -/

/-- A character that is left as it is. -/
def Kept (c : Char) : Prop := isSlash c = false ∧ isEncoded c = false

structure Segment (seg : List Char) : Prop where
  kept : ∀ c ∈ seg, Kept c
  single : isSingleDot seg = false
  double : isDoubleDot seg = false

theorem Kept.not_ignored {c : Char} (h : Kept c) : isIgnored c = false := by
  rw [isIgnored]
  simp only [Bool.or_eq_false_iff, beq_eq_false_iff_ne]
  refine ⟨⟨?_, ?_⟩, ?_⟩ <;> rintro rfl <;> exact absurd h.2 (by decide)

theorem Kept.pathChar_eq {c : Char} (h : Kept c) : pathChar c = [c] := by
  rw [pathChar, h.2]
  rfl

theorem flatMap_pathChar {seg : List Char} (h : ∀ c ∈ seg, Kept c) :
    seg.flatMap pathChar = seg := by
  induction seg with
  | nil => rfl
  | cons c seg ih =>
    rw [List.flatMap_cons, (h c List.mem_cons_self).pathChar_eq,
      ih fun d hd => h d (List.mem_cons_of_mem c hd)]
    rfl

theorem toNat_of_isAlphanum {c : Char} (h : c.isAlphanum = true) :
    0x30 ≤ c.toNat ∧ c.toNat ≤ 0x7A := by
  have hval : c.val.toNat = c.toNat := rfl
  have hranges : ((c.val ≥ 'A'.val ∧ c.val ≤ 'Z'.val) || (c.val ≥ 'a'.val && c.val ≤ 'z'.val) ||
      (c.val ≥ '0'.val && c.val ≤ '9'.val)) = true := h
  simp only [ge_iff_le, UInt32.le_iff_toNat_le, Bool.or_eq_true, Bool.and_eq_true,
    decide_eq_true_eq, Char.reduceVal, UInt32.reduceToNat] at hranges
  omega

theorem kept_of_isAlphanum {c : Char} (h : c.isAlphanum = true) : Kept c := by
  obtain ⟨hlow, hhigh⟩ := toNat_of_isAlphanum h
  have hnot : ∀ d ∈ '/' :: '\\' :: " \"<>`#?\x7b\x7d".toList, c ≠ d := by
    have hall : ∀ d ∈ '/' :: '\\' :: " \"<>`#?\x7b\x7d".toList, d.isAlphanum = false :=
      List.all_iff_forall_prop.mp (by decide)
    rintro d hd rfl
    rw [hall c hd] at h
    cases h
  constructor
  · rw [isSlash, Bool.or_eq_false_iff, beq_eq_false_iff_ne, beq_eq_false_iff_ne]
    exact ⟨hnot '/' (by simp), hnot '\\' (by simp)⟩
  · have hcontains : " \"<>`#?\x7b\x7d".toList.contains c = false := by
      rw [List.contains_eq_mem, decide_eq_false_iff_not]
      exact fun hmem => hnot c (List.mem_cons_of_mem _ (List.mem_cons_of_mem _ hmem)) rfl
    have hlow' : ¬ c.toNat < 0x20 := by omega
    have hhigh' : ¬ 0x7E < c.toNat := by omega
    rw [isEncoded, hcontains, decide_eq_false hlow', decide_eq_false hhigh']
    rfl

theorem kept_of_unreserved {c : Char} (h : Unreserved c ∨ c = '%') : Kept c := by
  have hmarks : ∀ d ∈ ['-', '.', '_', '~', '%'], isSlash d = false ∧ isEncoded d = false :=
    List.all_iff_forall_prop.mp (by decide)
  rcases h with (halpha | hmark) | rfl
  · exact kept_of_isAlphanum halpha
  · exact hmarks c (List.mem_append_left ['%'] hmark)
  · exact hmarks '%' (by simp)

theorem segment_of_isAlphanum {seg : List Char} (h : seg.all Char.isAlphanum = true)
    (hdots : isSingleDot seg = false ∧ isDoubleDot seg = false) : Segment seg where
  kept c hc := kept_of_isAlphanum (List.all_eq_true.mp h c hc)
  single := hdots.1
  double := hdots.2

theorem kept_of_mem_pathChar {c d : Char} (hc : isSlash c = false) (hd : d ∈ pathChar c) :
    Kept d := by
  rw [pathChar] at hd
  split_ifs at hd with hencoded
  · refine kept_of_unreserved (of_mem_percentEncode (t := [c]) ?_)
    rw [percentEncode, List.flatMap_singleton]
    exact hd
  · obtain rfl := List.mem_singleton.mp hd
    exact ⟨hc, by simpa using hencoded⟩

theorem Segment.plainDots_eq {seg : List Char} (h : Segment seg) : plainDots seg = seg := by
  rw [plainDots, h.single, h.double]
  rfl

theorem Segment.ne_dots {seg : List Char} (h : Segment seg) : seg ≠ dot ∧ seg ≠ dotDot := by
  constructor
  · rintro rfl
    exact absurd h.single (by decide)
  · rintro rfl
    exact absurd h.double (by decide)

/-- What is left of a segment that is no dot segment. -/
theorem segment_of_plainDots {seg : List Char} (hkept : ∀ c ∈ seg, Kept c)
    (h : plainDots seg ≠ dot ∧ plainDots seg ≠ dotDot) :
    plainDots seg = seg ∧ Segment seg := by
  rw [plainDots] at h ⊢
  split_ifs at h ⊢ with hsingle hdouble
  · exact absurd rfl h.1
  · exact absurd rfl h.2
  · exact ⟨rfl, hkept, by simpa using hsingle, by simpa using hdouble⟩

/-! ## Paths -/

section Paths

variable {segments : List (List Char)}

theorem mem_joinPath {c : Char} (h : c ∈ joinPath segments) :
    c = '/' ∨ ∃ seg ∈ segments, c ∈ seg := by
  obtain ⟨seg, hseg, hc⟩ := List.mem_flatMap.mp h
  rcases List.mem_cons.mp hc with rfl | hc
  · exact Or.inl rfl
  · exact Or.inr ⟨seg, hseg, hc⟩

theorem splitOnP_joinPath {seg : List Char} (h : ∀ s ∈ seg :: segments, ∀ c ∈ s, Kept c) :
    (seg ++ joinPath segments).splitOnP isSlash = seg :: segments := by
  induction segments generalizing seg with
  | nil =>
    rw [joinPath, List.flatMap_nil, List.append_nil]
    exact List.splitOnP_eq_singleton fun c hc => (h seg List.mem_cons_self c hc).1
  | cons s segments ih =>
    have hseg : ∀ c ∈ seg, isSlash c = false := fun c hc => (h seg List.mem_cons_self c hc).1
    have hcat : seg ++ joinPath (s :: segments) = seg ++ '/' :: (s ++ joinPath segments) := rfl
    rw [hcat, List.splitOnP_append_cons_of_forall_mem hseg '/' (by decide),
      ih fun t ht => h t (List.mem_cons_of_mem seg ht)]

theorem parsePath_joinPath (hne : segments ≠ []) (h : ∀ s ∈ segments, ∀ c ∈ s, Kept c) :
    parsePath (joinPath segments) = joinPath (removeDotSegments (segments.map plainDots)) := by
  obtain ⟨seg, segments, rfl⟩ := List.exists_cons_of_ne_nil hne
  have hfilter :
      (joinPath (seg :: segments)).filter (!isIgnored ·) = joinPath (seg :: segments) := by
    refine List.filter_eq_self.mpr fun c hc => ?_
    rcases mem_joinPath hc with rfl | ⟨s, hs, hc⟩
    · rfl
    · rw [(h s hs c hc).not_ignored]
      rfl
  have hsegments : ((seg :: segments).map fun s => plainDots (s.flatMap pathChar)) =
      (seg :: segments).map plainDots :=
    List.map_congr_left fun s hs => by rw [flatMap_pathChar (h s hs)]
  rw [parsePath, hfilter]
  show joinPath (removeDotSegments (((seg ++ joinPath segments).splitOnP isSlash).map _)) = _
  rw [splitOnP_joinPath h, hsegments]

theorem mem_removeDotSegmentsFrom {kept : List (List Char)} {seg : List Char}
    (h : seg ∈ removeDotSegmentsFrom kept segments) :
    seg ∈ kept ∨ seg = [] ∨ seg ∈ segments ∧ seg ≠ dot ∧ seg ≠ dotDot := by
  induction segments generalizing kept with
  | nil => exact Or.inl (List.mem_reverse.mp h)
  | cons s segments ih =>
    have hkept : ∀ t ∈ (if s = dot then kept else if s = dotDot then kept.tail else s :: kept),
        t ∈ kept ∨ t = s ∧ s ≠ dot ∧ s ≠ dotDot := by
      intro t ht
      split_ifs at ht with hdot hdotDot
      · exact Or.inl ht
      · exact Or.inl (List.mem_of_mem_tail ht)
      · rcases List.mem_cons.mp ht with rfl | ht
        · exact Or.inr ⟨rfl, hdot, hdotDot⟩
        · exact Or.inl ht
    have hfirst : ∀ t ∈ (if s = dot then kept else if s = dotDot then kept.tail else s :: kept),
        t ∈ kept ∨ t = [] ∨ t ∈ s :: segments ∧ t ≠ dot ∧ t ≠ dotDot := by
      intro t ht
      rcases hkept t ht with ht | ⟨rfl, hdots⟩
      · exact Or.inl ht
      · exact Or.inr (Or.inr ⟨List.mem_cons_self, hdots⟩)
    rw [removeDotSegmentsFrom] at h
    by_cases hend : segments = [] ∧ (s = dot ∨ s = dotDot)
    · rw [if_pos hend] at h
      rcases List.mem_append.mp h with h | h
      · exact hfirst seg (List.mem_reverse.mp h)
      · exact Or.inr (Or.inl (List.mem_singleton.mp h))
    · rw [if_neg hend] at h
      rcases ih h with h | h | ⟨h, hdots⟩
      · exact hfirst seg h
      · exact Or.inr (Or.inl h)
      · exact Or.inr (Or.inr ⟨List.mem_cons_of_mem s h, hdots⟩)

/-- What is before dot segments is kept, as far as they do not remove it. -/
theorem removeDotSegmentsFrom_append {kept before : List (List Char)}
    (h : ∀ seg ∈ before, seg ≠ dot ∧ seg ≠ dotDot) :
    removeDotSegmentsFrom kept (before ++ segments) =
      removeDotSegmentsFrom (before.reverse ++ kept) segments := by
  induction before generalizing kept with
  | nil => rfl
  | cons s before ih =>
    obtain ⟨⟨hdot, hdotDot⟩, hbefore⟩ := List.forall_mem_cons.mp h
    have hend : ¬ (before ++ segments = [] ∧ (s = dot ∨ s = dotDot)) :=
      fun hend => hend.2.elim hdot hdotDot
    rw [List.cons_append, removeDotSegmentsFrom, if_neg hend, if_neg hdot, if_neg hdotDot,
      ih hbefore, List.reverse_cons, List.append_assoc]
    rfl

end Paths

/-! ## The paths that a parser gives -/

/-- Segments that are left as they are; none for what is before the first slash. -/
def Normal (p : List Char) : Prop :=
  ∃ segments, (∀ seg ∈ segments, Segment seg) ∧ p = joinPath segments

section Normal

variable {p q : List Char}

theorem Normal.append (hp : Normal p) (hq : Normal q) : Normal (p ++ q) := by
  obtain ⟨segments, h, rfl⟩ := hp
  obtain ⟨segments', h', rfl⟩ := hq
  refine ⟨segments ++ segments', fun seg hseg => ?_, ?_⟩
  · exact (List.mem_append.mp hseg).elim (h seg) (h' seg)
  · rw [joinPath, joinPath, joinPath, List.flatMap_append]

theorem normal_nil : Normal [] := ⟨[], fun _ hseg => absurd hseg List.not_mem_nil, rfl⟩

theorem Segment.normal {seg : List Char} (h : Segment seg) : Normal ('/' :: seg) := by
  refine ⟨[seg], fun s hs => ?_, by simp [joinPath]⟩
  rw [List.mem_singleton.mp hs]
  exact h

/-- What is before a slash. -/
theorem Normal.of_append_cons (h : Normal (p ++ '/' :: q)) : Normal p := by
  obtain ⟨segments, hall, heq⟩ := h
  induction segments generalizing p with
  | nil => exact absurd heq (List.append_ne_nil_of_right_ne_nil _ (List.cons_ne_nil _ _))
  | cons s segments ih =>
    obtain ⟨hs, hsegments⟩ := List.forall_mem_cons.mp hall
    rcases p with _ | ⟨c, p⟩
    · exact normal_nil
    · have hcat : c :: (p ++ '/' :: q) = '/' :: (s ++ joinPath segments) := heq
      obtain ⟨rfl, htail⟩ := List.cons.inj hcat
      -- The slash is behind the first segment, as there is none in it.
      rcases List.append_eq_append_iff.mp htail with ⟨m, rfl, hm⟩ | ⟨m, rfl, hm⟩
      · rcases m with _ | ⟨d, m⟩
        · rw [List.append_nil] at hs
          exact hs.normal
        · obtain ⟨rfl, -⟩ := List.cons.inj hm
          exact absurd (hs.kept '/' (List.mem_append_right p List.mem_cons_self)).1 (by decide)
      · exact hs.normal.append (ih hsegments hm.symm)

theorem Normal.of_parsePath (h : parsePath p = p) : Normal p := by
  refine ⟨removeDotSegments _, fun seg hseg => ?_, h.symm⟩
  rcases mem_removeDotSegmentsFrom hseg with hmem | rfl | ⟨hmem, hdots⟩
  · exact absurd hmem List.not_mem_nil
  · exact ⟨fun c hc => absurd hc List.not_mem_nil, rfl, rfl⟩
  · obtain ⟨raw, hraw, rfl⟩ := List.mem_map.mp hmem
    have hkept : ∀ c ∈ raw.flatMap pathChar, Kept c := by
      intro c hc
      obtain ⟨d, hd, hc⟩ := List.mem_flatMap.mp hc
      exact kept_of_mem_pathChar (Separators.mem_piece hraw hd).2 hc
    obtain ⟨heq, hsegment⟩ := segment_of_plainDots hkept hdots
    rw [heq]
    exact hsegment

theorem Normal.mem {c : Char} (h : Normal p) (hc : c ∈ p) : c = '/' ∨ Kept c := by
  obtain ⟨segments, hall, rfl⟩ := h
  rcases mem_joinPath hc with hslash | ⟨seg, hseg, hc⟩
  · exact Or.inl hslash
  · exact Or.inr ((hall seg hseg).kept c hc)

theorem Normal.exists_cons (h : Normal p) (hne : p ≠ []) : ∃ t, p = '/' :: t := by
  obtain ⟨segments, -, rfl⟩ := h
  rcases segments with _ | ⟨seg, segments⟩
  · exact absurd rfl hne
  · exact ⟨_, rfl⟩

/-- A path that is no text has one empty segment. -/
def orRoot (p : List Char) : List Char := if p = [] then ['/'] else p

theorem normal_orRoot (h : Normal p) : Normal (orRoot p) := by
  rw [orRoot]
  split_ifs
  · exact Segment.normal ⟨fun c hc => absurd hc List.not_mem_nil, rfl, rfl⟩
  · exact h

theorem Normal.parse_orRoot (h : Normal p) : parsePath (orRoot p) = orRoot p := by
  obtain ⟨segments, hall, rfl⟩ := h
  rcases segments with _ | ⟨s, segments⟩
  · decide
  · have hcanonical : (s :: segments).map plainDots = s :: segments :=
      (List.map_congr_left fun t ht => (hall t ht).plainDots_eq).trans (List.map_id _)
    have hroot : orRoot (joinPath (s :: segments)) = joinPath (s :: segments) :=
      if_neg (List.cons_ne_nil _ _)
    rw [hroot, parsePath_joinPath (List.cons_ne_nil _ _) fun t ht => (hall t ht).kept,
      hcanonical, removeDotSegments_of_plain fun t ht => (hall t ht).ne_dots]

/-- What becomes of a segment between two others. -/
def between (a seg b : List Char) : List Char := joinPath (removeDotSegments [a, plainDots seg, b])

theorem removeDotSegmentsFrom_three {kept : List (List Char)} {a seg b : List Char}
    (ha : a ≠ dot ∧ a ≠ dotDot) (hb : b ≠ dot ∧ b ≠ dotDot) :
    removeDotSegmentsFrom kept [a, seg, b] =
      kept.reverse ++ removeDotSegmentsFrom [] [a, seg, b] := by
  by_cases hdot : seg = dot
  · simp [removeDotSegmentsFrom, ha, hb, hdot]
  · by_cases hdotDot : seg = dotDot
    · have hdots : dotDot ≠ dot := by decide
      simp [removeDotSegmentsFrom, ha, hb, hdotDot, hdots]
    · simp [removeDotSegmentsFrom, ha, hb, hdot, hdotDot]

theorem Normal.parse_append {a seg b : List Char} (h : Normal p) (ha : Segment a)
    (hseg : ∀ c ∈ seg, Kept c) (hb : Segment b) :
    parsePath (p ++ joinPath [a, seg, b]) = p ++ between a seg b := by
  obtain ⟨segments, hall, rfl⟩ := h
  have hcat : joinPath segments ++ joinPath [a, seg, b] = joinPath (segments ++ [a, seg, b]) := by
    rw [joinPath, joinPath, joinPath, List.flatMap_append]
  have hkept : ∀ t ∈ segments ++ [a, seg, b], ∀ c ∈ t, Kept c := by
    intro t ht
    rcases List.mem_append.mp ht with ht | ht
    · exact (hall t ht).kept
    · simp only [List.mem_cons, List.not_mem_nil, or_false] at ht
      rcases ht with rfl | rfl | rfl
      · exact ha.kept
      · exact hseg
      · exact hb.kept
  have hcanonical : (segments ++ [a, seg, b]).map plainDots =
      segments ++ [a, plainDots seg, b] := by
    rw [List.map_append, (List.map_congr_left fun t ht => (hall t ht).plainDots_eq).trans
      (List.map_id _)]
    simp only [List.map_cons, List.map_nil, ha.plainDots_eq, hb.plainDots_eq]
  have hremoved : removeDotSegments (segments ++ [a, plainDots seg, b]) =
      segments ++ removeDotSegments [a, plainDots seg, b] := by
    rw [removeDotSegments, removeDotSegmentsFrom_append fun t ht => (hall t ht).ne_dots,
      List.append_nil, removeDotSegmentsFrom_three ha.ne_dots hb.ne_dots, List.reverse_reverse]
    rfl
  rw [hcat, parsePath_joinPath (List.append_ne_nil_of_right_ne_nil _ (List.cons_ne_nil _ _)) hkept,
    hcanonical, hremoved, joinPath, List.flatMap_append]
  rfl

end Normal

/-! ## A whole URL -/

structure WebUrl where
  scheme : List Char
  authority : List Char
  path : List Char
  query : Option (List Char)
  fragment : Option (List Char)
deriving DecidableEq

def marked (mark : Char) (t : Option (List Char)) : List Char := (t.map (mark :: ·)).getD []

def WebUrl.serialize (u : WebUrl) : List Char :=
  u.scheme ++ "://".toList ++ u.authority ++ u.path ++ marked '?' u.query ++
    marked '#' u.fragment

/-- What a parser makes of an authority under a scheme, a query and a fragment. -/
structure Rules where
  authority : List Char → List Char → Option (List Char)
  query : List Char → List Char
  fragment : List Char → List Char

def endsAuthority (c : Char) : Bool := isSlash c || c == '?' || c == '#'

/-- What is before the first mark, and what is behind it. -/
def cutAt (mark : Char) (t : List Char) : List Char × Option (List Char) :=
  match splitOnce [mark] t with
  | some (before, behind) => (before, some behind)
  | none => (t, none)

def parse (r : Rules) (t : List Char) : Option WebUrl := do
  let (scheme, t) ← splitOnce "://".toList t
  let authority ← r.authority scheme (t.takeWhile (!endsAuthority ·))
  let (t, fragment) := cutAt '#' (t.dropWhile (!endsAuthority ·))
  let (path, query) := cutAt '?' t
  some ⟨scheme, authority, parsePath path, query.map r.query, fragment.map r.fragment⟩

theorem cutAt_of_notMem {mark : Char} {t : List Char} (h : mark ∉ t) :
    cutAt mark t = (t, none) := by
  rw [cutAt, splitOnce_singleton_none.mpr h]

/-- A text with no query and no fragment. -/
theorem parse_append {r : Rules} {scheme authority path : List Char} (hscheme : ':' ∉ scheme)
    (hauthority : r.authority scheme authority = some authority)
    (hends : ∀ c ∈ authority, endsAuthority c = false) (hquery : '?' ∉ path)
    (hfragment : '#' ∉ path) :
    parse r (scheme ++ "://".toList ++ (authority ++ '/' :: path)) =
      some ⟨scheme, authority, parsePath ('/' :: path), none, none⟩ := by
  have hsplit : splitOnce "://".toList (scheme ++ "://".toList ++ (authority ++ '/' :: path)) =
      some (scheme, authority ++ '/' :: path) := by
    refine splitOnce_of_head (by decide) (fun hin => hscheme ?_) _
    exact hin.subset List.mem_cons_self
  have hplain : ∀ c ∈ authority, (!endsAuthority c) = true := fun c hc => by
    rw [hends c hc]
    rfl
  have htake : (authority ++ '/' :: path).takeWhile (!endsAuthority ·) = authority := by
    rw [List.takeWhile_append_of_pos hplain]
    exact List.append_nil authority
  have hdrop : (authority ++ '/' :: path).dropWhile (!endsAuthority ·) = '/' :: path := by
    rw [List.dropWhile_append_of_pos hplain]
    rfl
  have hmark : ∀ mark, mark ≠ '/' → mark ∉ path → mark ∉ '/' :: path := by
    intro mark hne hnot hmem
    exact (List.mem_cons.mp hmem).elim hne hnot
  rw [parse, hsplit, Option.bind_eq_bind, Option.bind_some]
  dsimp only
  rw [htake, hauthority, hdrop, cutAt_of_notMem (hmark '#' (by decide) hfragment)]
  dsimp only
  rw [cutAt_of_notMem (hmark '?' (by decide) hquery)]
  rfl

end Lib.UrlPath
