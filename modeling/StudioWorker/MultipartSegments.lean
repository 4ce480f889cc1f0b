import Mathlib.Data.List.Forall2
import StudioWorker.Multipart

/-!
# MultipartSegments — the parts of a body and the segments between its boundaries

`src/multipart.rs`, with the indices that the source computes.

* `Indexed.find`, `Indexed.parse`: the reader over indices into one body; no index leaves it
  (`Indexed.parse_eq`).
* `segments`: what lies between consecutive boundaries, up to the closing one.
* `segmented_iff`: the parts are those of the segments, one to one, exactly where every segment
  has the end of its own headers.
-/

namespace StudioWorker.Multipart

open Text Lib.Search

/-! ## Indices -/

namespace Indexed

/-- `b[i..j]`; `none` is a panic, here and below. -/
def slice (b : Bytes) (i j : ℕ) : Option Bytes :=
  if i ≤ j ∧ j ≤ b.length then some ((b.take j).drop i) else none

/-- What `find` asks of one index. -/
def occursAt (haystack needle : Bytes) (first : UInt8) (i : ℕ) : Option Bool :=
  match haystack[i]? with
  | none => none
  | some c =>
    if c = first then (slice haystack i (i + needle.length)).map (· == needle) else some false

/-- The first of `n` indices from `i` on where the needle occurs. -/
def findLoop (haystack needle : Bytes) (first : UInt8) : ℕ → ℕ → Option (Option ℕ)
  | 0, _ => some none
  | n + 1, i =>
    match occursAt haystack needle first i with
    | none => none
    | some true => some (some i)
    | some false => findLoop haystack needle first n (i + 1)

/-- Where `needle` first occurs in `haystack` at or after `start`. -/
def find (haystack needle : Bytes) (start : ℕ) : Option (Option ℕ) :=
  match needle.head? with
  | none => some none
  | some first =>
    if haystack.length < needle.length then some none
    else findLoop haystack needle first (haystack.length - needle.length + 1 - start) start

/-- The loop of `parse`, with `fuel` turns left. -/
def parseFrom (body between : Bytes) :
    ℕ → List Part → ℕ → Option (Except MultipartError (List Part))
  | 0, _, _ => none
  | fuel + 1, parts, pos => do
    let index := parts.length + 1
    let rest ← slice body pos body.length
    if dashes <+: rest then return .ok parts
    else
      match ← find body lineEnd pos with
      | none => return .error (.unterminated index)
      | some line =>
        match ← find body headerEnd (line + 2) with
        | none => return .error (.noHeaderEnd index)
        | some headersEnd =>
          match ← find body between (headersEnd + 4) with
          | none => return .error (.unterminated index)
          | some dataEnd =>
            match fromUtf8 (← slice body (line + 2) headersEnd) with
            | none => return .error (.headerEncoding index)
            | some headers =>
              match part index headers (← slice body (headersEnd + 4) dataEnd) with
              | .error e => return .error e
              | .ok p => parseFrom body between fuel (parts ++ [p]) (dataEnd + between.length)

/-- `parse`, with a turn of its loop for every byte. -/
def parse (body : Bytes) (boundary : Text) : Option (Except MultipartError (List Part)) :=
  if opening boundary <+: body then
    parseFrom body (between boundary) (body.length + 1) [] (opening boundary).length
  else do
    match ← find body (between boundary) 0 with
    | none => return .error .noOpening
    | some i =>
      parseFrom body (between boundary) (body.length + 1) [] (i + (between boundary).length)

end Indexed

/-! ## Segments -/

/-- What lies between the boundaries from a boundary on, up to the closing one. -/
def segmentsFrom (between rest : Bytes) : Option (List Bytes) :=
  if dashes <+: rest then some []
  else
    match _hfind : find rest between with
    | none => none
    | some (segment, after) => (segmentsFrom between after).map (segment :: ·)
termination_by rest.length
decreasing_by exact length_find_lt _hfind

def segments (body : Bytes) (boundary : Text) : Option (List Bytes) :=
  if opening boundary <+: body then
    segmentsFrom (between boundary) (body.drop (opening boundary).length)
  else
    match find body (between boundary) with
    | none => none
    | some (_, rest) => segmentsFrom (between boundary) rest

/-- A part is what one segment holds: its headers and data, neither with a boundary in it. -/
def ReadFrom (between segment : Bytes) (p : Part) : Prop :=
  ∃ padding lines headers text, splitOnce lineEnd segment = some (padding, lines) ∧
    splitOnce headerEnd lines = some (headers, p.data) ∧ fromUtf8 headers = some text ∧
    (∀ index, part index text p.data = .ok p) ∧
    ¬ between <:+: headers ∧ ¬ between <:+: p.data

/-- The parts are those of the segments, one to one and in order. -/
def Segmented (body : Bytes) (boundary : Text) (parts : List Part) : Prop :=
  ∃ segs, segments body boundary = some segs ∧
    List.Forall₂ (ReadFrom (between boundary)) segs parts

/-- A segment has the end of its headers within it. -/
def HasHeaders (segment : Bytes) : Prop :=
  ∃ padding lines, splitOnce lineEnd segment = some (padding, lines) ∧ headerEnd <:+: lines

/-- The body is closed, and every segment of it has the end of its headers. -/
def Complete (body : Bytes) (boundary : Text) : Prop :=
  ∃ segs, segments body boundary = some segs ∧ ∀ segment ∈ segs, HasHeaders segment

/-! ## No index leaves the body -/

namespace Indexed

theorem slice_drop {b : Bytes} {i : ℕ} (h : i ≤ b.length) :
    slice b i b.length = some (b.drop i) := by
  rw [slice, if_pos ⟨h, Nat.le_refl _⟩, List.take_length]

theorem occursAt_eq {haystack ns : Bytes} {first : UInt8} {i : ℕ}
    (h : i + (first :: ns).length ≤ haystack.length) :
    occursAt haystack (first :: ns) first i = some (decide (first :: ns <+: haystack.drop i)) := by
  have hi : i < haystack.length := by
    rw [List.length_cons] at h
    omega
  have hdrop : haystack.drop i = haystack[i] :: haystack.drop (i + 1) :=
    List.drop_eq_getElem_cons hi
  rw [occursAt, List.getElem?_eq_getElem hi]
  dsimp only
  by_cases hc : haystack[i] = first
  · have hslice : slice haystack i (i + (first :: ns).length) =
        some ((haystack.drop i).take (first :: ns).length) := by
      rw [slice, if_pos ⟨Nat.le_add_right _ _, h⟩, List.drop_take, Nat.add_sub_cancel_left]
    rw [if_pos hc, hslice, Option.map_some]
    refine congrArg some (Bool.eq_iff_iff.mpr ?_)
    rw [beq_iff_eq, decide_eq_true_iff, List.prefix_iff_eq_take]
    exact eq_comm
  · rw [if_neg hc, decide_eq_false]
    intro hp
    rw [hdrop] at hp
    exact hc (List.cons_prefix_cons.mp hp).1.symm

/-- The search over indices is the search of what lies behind the first of them. -/
theorem findLoop_eq {haystack ns : Bytes} {first : UInt8}
    (h : (first :: ns).length ≤ haystack.length) (n i : ℕ)
    (hn : n = haystack.length - (first :: ns).length + 1 - i) :
    findLoop haystack (first :: ns) first n i =
      some ((splitOnce (first :: ns) (haystack.drop i)).map fun r => i + r.1.length) := by
  induction n generalizing i with
  | zero =>
    have hpos : 0 < (first :: ns).length := Nat.succ_pos _
    have hshort : (haystack.drop i).length < (first :: ns).length := by
      rw [List.length_drop]
      omega
    rw [splitOnce_of_short hshort]
    rfl
  | succ n ih =>
    have hle : i + (first :: ns).length ≤ haystack.length := by omega
    rw [findLoop, occursAt_eq hle]
    by_cases hp : first :: ns <+: haystack.drop i
    · obtain ⟨b, hb⟩ := splitOnce_of_prefix hp
      rw [decide_eq_true hp, hb]
      rfl
    · have hi : i < haystack.length := by
        rw [List.length_cons] at hle
        omega
      have hdrop : haystack.drop i = haystack[i] :: haystack.drop (i + 1) :=
        List.drop_eq_getElem_cons hi
      rw [decide_eq_false hp]
      rw [hdrop] at hp ⊢
      dsimp only
      rw [ih (i + 1) (by omega), splitOnce_cons hp, Option.map_map]
      refine congrArg (fun f => some (Option.map f _)) (funext fun r => ?_)
      simp only [Function.comp_apply, List.length_cons]
      omega

/-- **`find`** never panics, and finds what the search of the rest of the body finds. -/
theorem find_eq (haystack needle : Bytes) (start : ℕ) :
    find haystack needle start =
      some ((Multipart.find (haystack.drop start) needle).map fun r => start + r.1.length) := by
  rcases needle with _ | ⟨first, ns⟩
  · rfl
  have hfind : Multipart.find (haystack.drop start) (first :: ns) =
      splitOnce (first :: ns) (haystack.drop start) := if_neg (List.cons_ne_nil _ _)
  rw [find, List.head?_cons, hfind]
  dsimp only
  split_ifs with hshort
  · rw [splitOnce_of_short]
    · rfl
    · rw [List.length_drop]
      omega
  · exact findLoop_eq (Nat.le_of_not_lt hshort) _ _ rfl

/-- What a search has found lies within the body. -/
theorem bounds_of_find {body needle a b : Bytes} {pos : ℕ}
    (h : Multipart.find (body.drop pos) needle = some (a, b)) :
    pos + a.length + needle.length ≤ body.length ∧
      body.drop (pos + a.length + needle.length) = b ∧
      slice body pos (pos + a.length) = some a := by
  unfold Multipart.find at h
  split_ifs at h with hne
  have hdrop := (splitOnce_some h).1
  have hlen := congrArg List.length hdrop
  have hpos : 0 < needle.length := List.length_pos_iff.mpr hne
  simp only [List.length_append, List.length_drop] at hlen
  have hle : pos + a.length + needle.length ≤ body.length := by omega
  refine ⟨hle, ?_, ?_⟩
  · have hab : (a ++ needle).length = a.length + needle.length := List.length_append
    rw [Nat.add_assoc, ← List.drop_drop, hdrop, ← hab, List.drop_left]
  · rw [slice, if_pos ⟨Nat.le_add_right _ _, by omega⟩, List.drop_take,
      Nat.add_sub_cancel_left, hdrop, List.append_assoc, List.take_left]

/-- The loop over indices reads what the loop over the rest of the body reads. -/
theorem parseFrom_eq (body between : Bytes) (fuel : ℕ) (parts : List Part) (pos : ℕ)
    (hpos : pos ≤ body.length) (hfuel : body.length < fuel + pos) :
    parseFrom body between fuel parts pos =
      some ((parseParts between (parts.length + 1) (body.drop pos)).map (parts ++ ·)) := by
  induction fuel generalizing parts pos with
  | zero => omega
  | succ fuel ih =>
    rw [parseFrom, parseParts_eq]
    simp only [slice_drop hpos, find_eq, Option.bind_eq_bind, Option.bind_some, Option.pure_def]
    split_ifs
    · simp [Except.map]
    rcases hline : Multipart.find (body.drop pos) lineEnd with _ | ⟨padding, lines⟩
    · rfl
    obtain ⟨hle, hlines, -⟩ := bounds_of_find hline
    have hlines : body.drop (pos + padding.length + 2) = lines := hlines
    simp only [Option.map_some, hlines]
    rcases hheaders : Multipart.find lines headerEnd with _ | ⟨headers, content⟩
    · rfl
    obtain ⟨hle', hcontent, hslice⟩ := bounds_of_find (hlines.symm ▸ hheaders)
    have hcontent : body.drop (pos + padding.length + 2 + headers.length + 4) = content := hcontent
    simp only [Option.map_some, hcontent]
    rcases hdata : Multipart.find content between with _ | ⟨data, after⟩
    · rfl
    obtain ⟨hle'', hafter, hslice'⟩ := bounds_of_find (hcontent.symm ▸ hdata)
    simp only [Option.map_some, hslice, Option.bind_some, hslice']
    rcases fromUtf8 headers with _ | text
    · rfl
    dsimp only
    rcases part (parts.length + 1) text data with e | p
    · rfl
    dsimp only
    rw [ih _ _ hle'' (by omega), hafter, List.length_append, List.length_singleton]
    rcases parseParts between (parts.length + 1 + 1) after with e | ps
    · rfl
    · simp [Except.map]

/-- **No index leaves the body**, and the loop ends. -/
theorem parse_eq (body : Bytes) (boundary : Text) :
    parse body boundary = some (Multipart.parse body boundary) := by
  have hmap : ∀ r : Except MultipartError (List Part), r.map ([] ++ ·) = r := by
    rintro (e | ps)
    · rfl
    · rfl
  rw [parse, Multipart.parse]
  split_ifs with hopen
  · have hlen := hopen.length_le
    rw [parseFrom_eq _ _ _ _ _ hlen (by omega)]
    exact congrArg some (hmap _)
  · simp only [find_eq, Option.bind_eq_bind, Option.bind_some, Option.pure_def, List.drop_zero]
    rcases hfind : Multipart.find body (between boundary) with _ | ⟨a, b⟩
    · rfl
    have hfind' : Multipart.find (body.drop 0) (between boundary) = some (a, b) := hfind
    obtain ⟨hle, hdrop, -⟩ := bounds_of_find hfind'
    simp only [Option.map_some]
    rw [parseFrom_eq _ _ _ _ _ hle (by omega), hdrop]
    exact congrArg some (hmap _)

end Indexed

/-! ## The parts of complete segments -/

theorem find_eq_splitOnce {haystack needle : Bytes} (h : needle ≠ []) :
    find haystack needle = splitOnce needle haystack := if_neg h

theorem segmentsFrom_eq (between rest : Bytes) :
    segmentsFrom between rest =
      if dashes <+: rest then some []
      else (find rest between).bind fun r => (segmentsFrom between r.2).map (r.1 :: ·) := by
  rw [segmentsFrom]
  split_ifs
  · rfl
  · split <;> simp only [*] <;> rfl

theorem part_data {index : ℕ} {headers : Text} {data : Bytes} {p : Part}
    (h : part index headers data = .ok p) : p.data = data := by
  unfold part at h
  dsimp only at h
  split at h
  · cases h
  · obtain rfl := Except.ok.inj h
    rfl

/-- The index of a part is only in its errors. -/
theorem part_index {index : ℕ} {headers : Text} {data : Bytes} {p : Part}
    (h : part index headers data = .ok p) (index' : ℕ) : part index' headers data = .ok p := by
  unfold part at h ⊢
  dsimp only at h ⊢
  split at h
  · cases h
  · exact h

/-- A segment that has the end of its headers holds the data up to the boundary behind it. -/
theorem find_data {between x content after segment : Bytes} (hne : between ≠ [])
    (hsegment : segment = x ++ content)
    (hcut : cut [between] (segment ++ between ++ after) = some segment) :
    find (content ++ between ++ after) between = some (content, after) := by
  rw [find_eq_splitOnce hne]
  refine splitOnce_of_first fun a' ha' => ?_
  have hin : x ++ a' ++ between <+: segment ++ between ++ after := by
    rw [hsegment]
    simpa only [List.append_assoc, List.prefix_append_right_inj] using ha'
  obtain ⟨b, hb, hle⟩ := cut_first (List.mem_singleton_self between) hin
  obtain rfl := Option.some.inj (hcut.symm.trans hb)
  have hlen := hle.length_le
  rw [hsegment, List.length_append, List.length_append] at hlen
  omega

/-- **The loop** reads one part off every segment. -/
theorem readFrom_of_hasHeaders {between : Bytes} (hne : between ≠ []) {segs : List Bytes}
    {rest : Bytes} (hsegs : segmentsFrom between rest = some segs)
    (hheaders : ∀ segment ∈ segs, HasHeaders segment) {index : ℕ} {parts : List Part}
    (hparse : parseParts between index rest = .ok parts) :
    List.Forall₂ (ReadFrom between) segs parts := by
  induction segs generalizing rest index parts with
  | nil =>
    rw [segmentsFrom_eq] at hsegs
    split_ifs at hsegs with hdash
    · rw [parseParts_eq, if_pos hdash] at hparse
      obtain rfl := Except.ok.inj hparse
      exact List.Forall₂.nil
    · obtain ⟨r, -, hr⟩ := Option.bind_eq_some_iff.mp hsegs
      obtain ⟨segs', -, hnil⟩ := Option.map_eq_some_iff.mp hr
      cases hnil
  | cons segment segs ih =>
    rw [segmentsFrom_eq] at hsegs
    split_ifs at hsegs with hdash
    · cases hsegs
    obtain ⟨⟨seg, after⟩, hfind, hr⟩ := Option.bind_eq_some_iff.mp hsegs
    obtain ⟨segs', hsegs', hcons⟩ := Option.map_eq_some_iff.mp hr
    obtain ⟨rfl, rfl⟩ := List.cons.inj hcons
    obtain ⟨hrest, hcut⟩ := splitOnce_some (find_eq_splitOnce hne ▸ hfind)
    obtain ⟨padding, lines, hline, hend⟩ := hheaders seg List.mem_cons_self
    obtain ⟨⟨headers, content⟩, hlines⟩ : ∃ r, splitOnce headerEnd lines = some r := by
      rcases h : splitOnce headerEnd lines with _ | r
      · exact absurd hend (splitOnce_none.mp h)
      · exact ⟨r, rfl⟩
    have hseg : seg = (padding ++ lineEnd ++ (headers ++ headerEnd)) ++ content := by
      rw [(splitOnce_some hline).1, (splitOnce_some hlines).1]
      simp only [List.append_assoc]
    -- what each search of the segment finds, the same search of the body finds
    have hfindLine : find rest lineEnd = some (padding, lines ++ (between ++ after)) := by
      rw [hrest, List.append_assoc]
      exact splitOnce_append hline _
    have hfindHeaders : find (lines ++ (between ++ after)) headerEnd =
        some (headers, content ++ (between ++ after)) := splitOnce_append hlines _
    have hfindData : find (content ++ (between ++ after)) between = some (content, after) := by
      rw [← List.append_assoc]
      exact find_data hne hseg (hrest ▸ hcut)
    rw [parseParts_eq, if_neg hdash, hfindLine] at hparse
    simp only [hfindHeaders, hfindData] at hparse
    rcases htext : fromUtf8 headers with _ | text
    · rw [htext] at hparse
      cases hparse
    rw [htext] at hparse
    dsimp only at hparse
    rcases hpart : part index text content with e | p
    · rw [hpart] at hparse
      cases hparse
    rw [hpart] at hparse
    dsimp only at hparse
    rcases hps : parseParts between (index + 1) after with e | ps
    · rw [hps] at hparse
      cases hparse
    rw [hps] at hparse
    obtain rfl := Except.ok.inj hparse
    have hclean : ¬ between <:+: seg :=
      cut_clean (by simpa using hne.symm) hcut (List.mem_singleton_self between)
    have hdata : p.data = content := part_data hpart
    have hsegHeaders : headers <:+: seg := by
      rw [hseg]
      exact ⟨padding ++ lineEnd, headerEnd ++ content, by simp only [List.append_assoc]⟩
    have hsegContent : content <:+: seg := by
      rw [hseg]
      exact (List.suffix_append _ _).isInfix
    refine List.Forall₂.cons ⟨padding, lines, headers, text, hline, ?_, htext, ?_, ?_, ?_⟩
      (ih hsegs' (fun s hs => hheaders s (List.mem_cons_of_mem _ hs)) hps)
    · rw [hdata]
      exact hlines
    · rw [hdata]
      exact part_index hpart
    · exact fun h => hclean (h.trans hsegHeaders)
    · rw [hdata]
      exact fun h => hclean (h.trans hsegContent)

theorem ReadFrom.hasHeaders {between segment : Bytes} {p : Part} (h : ReadFrom between segment p) :
    HasHeaders segment := by
  obtain ⟨padding, lines, headers, text, hline, hlines, -⟩ := h
  refine ⟨padding, lines, hline, headers, p.data, ?_⟩
  exact (splitOnce_some hlines).1.symm

theorem between_ne_nil (boundary : Text) : between boundary ≠ [] :=
  List.cons_ne_nil _ _

/-- The parts are those of the segments, one to one, exactly where every segment has the end of
its own headers; and no index leaves the body. -/
theorem segmented_iff (body : Bytes) (boundary : Text) :
    Indexed.parse body boundary = some (parse body boundary) ∧
      ∀ parts, parse body boundary = .ok parts →
        (Segmented body boundary parts ↔ Complete body boundary) := by
  refine ⟨Indexed.parse_eq body boundary, fun parts hparse => ⟨?_, ?_⟩⟩
  · rintro ⟨segs, hsegs, hread⟩
    refine ⟨segs, hsegs, fun segment hmem => ?_⟩
    obtain ⟨i, hi, rfl⟩ := List.getElem_of_mem hmem
    have hi' : i < parts.length := by
      rw [← hread.length_eq]
      exact hi
    exact (hread.get hi hi').hasHeaders
  · rintro ⟨segs, hsegs, hheaders⟩
    refine ⟨segs, hsegs, ?_⟩
    unfold parse at hparse
    unfold segments at hsegs
    split_ifs at hparse hsegs with hopen
    · exact readFrom_of_hasHeaders (between_ne_nil boundary) hsegs hheaders hparse
    · rcases hfind : find body (between boundary) with _ | ⟨x, rest⟩
      · rw [hfind] at hsegs
        cases hsegs
      · rw [hfind] at hsegs hparse
        exact readFrom_of_hasHeaders (between_ne_nil boundary) hsegs hheaders hparse

/-! ## A part without headers -/

def greeting : Part where
  name := "x".toList
  filename := none
  contentType := none
  data := [104, 105]

/-- The header block that is read of a part without headers and the part behind it. -/
def mergedHeaders : Text :=
  crlf ++ "hello".toList ++ crlf ++ "--b".toList ++ crlf ++ disposition greeting

/-- What follows the opening of a form whose first part has no headers. -/
def headlessRest : Bytes :=
  lineEnd ++ (bytes mergedHeaders ++
    (headerEnd ++ (greeting.data ++ (between "b".toList ++ dashes))))

theorem part_mergedHeaders (data : Bytes) :
    part 1 mergedHeaders data = .ok { greeting with data := data } := by
  have hsplit : split crlf mergedHeaders =
      [[], "hello".toList, "--b".toList, disposition greeting] := by decide
  have hline : ∀ line ∈ [[], "hello".toList, "--b".toList],
      Headers.line {} line = {} := by
    intro line hmem
    have hcolon : splitOnce [':'] line = none := by
      rw [splitOnce_singleton_none]
      revert line
      decide
    rw [Headers.line, hcolon]
  have hnil := hline [] (by decide)
  have hhello := hline "hello".toList (by decide)
  have hdelimiter := hline "--b".toList (by decide)
  unfold part
  rw [hsplit]
  simp only [List.foldl_cons, List.foldl_nil, hnil, hhello, hdelimiter, line_disposition]
  rfl

theorem parseParts_headlessRest :
    parseParts (between "b".toList) 1 headlessRest = .ok [greeting] := by
  have hdash : ¬ dashes <+: headlessRest := by
    intro h
    exact absurd (List.cons_prefix_cons.mp h).1 (by decide)
  have hheaders : find (bytes mergedHeaders ++ (headerEnd ++ (greeting.data ++
      (between "b".toList ++ dashes)))) headerEnd =
      some (bytes mergedHeaders, greeting.data ++ (between "b".toList ++ dashes)) := by
    decide +kernel
  have hdata : find (greeting.data ++ (between "b".toList ++ dashes)) (between "b".toList) =
      some (greeting.data, dashes) := by decide
  rw [parseParts_cons hdash (find_lineEnd _) hheaders hdata (fromUtf8_bytes _)
    (part_mergedHeaders greeting.data), parseParts_eq, if_pos List.prefix_rfl]
  rfl

/-- A part without headers is read as one with the part behind it. -/
theorem headless_part_is_merged :
    ¬ ∀ (body : Bytes) (boundary : Text), ∀ parts, parse body boundary = .ok parts →
      Segmented body boundary parts := by
  intro h
  have hopen : opening "b".toList <+: opening "b".toList ++ headlessRest := List.prefix_append _ _
  have hdrop : (opening "b".toList ++ headlessRest).drop (opening "b".toList).length =
      headlessRest := List.drop_left
  have hparse : parse (opening "b".toList ++ headlessRest) "b".toList = .ok [greeting] := by
    rw [parse, if_pos hopen, hdrop]
    exact parseParts_headlessRest
  obtain ⟨segs, hsegs, hread⟩ := h _ _ _ hparse
  rw [segments, if_pos hopen, hdrop, segmentsFrom_eq, if_neg (by decide)] at hsegs
  obtain ⟨⟨segment, after⟩, hfind, hr⟩ := Option.bind_eq_some_iff.mp hsegs
  obtain ⟨segs', -, rfl⟩ := Option.map_eq_some_iff.mp hr
  obtain ⟨padding, lines, hline, hend⟩ := (List.forall₂_cons.mp hread).1.hasHeaders
  have hfind' : find headlessRest (between "b".toList) = some ([13, 10, 13, 10, 104, 101, 108, 108,
      111], lineEnd ++ (bytes (disposition greeting) ++ (headerEnd ++ (greeting.data ++
        (between "b".toList ++ dashes))))) := by decide +kernel
  rw [hfind'] at hfind
  obtain ⟨rfl, -⟩ := Prod.mk.inj (Option.some.inj hfind)
  have hline' : splitOnce lineEnd [13, 10, 13, 10, 104, 101, 108, 108, 111] =
      some ([], ([13, 10, 104, 101, 108, 108, 111] : Bytes)) := by decide
  rw [hline'] at hline
  obtain ⟨-, rfl⟩ := Prod.mk.inj (Option.some.inj hline)
  exact absurd hend (by decide)

end StudioWorker.Multipart
