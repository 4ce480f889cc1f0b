import StudioWorker.Text

/-!
# Multipart — `multipart/form-data` bodies

`src/multipart.rs`.  Searches are over the bytes of one body; a header's text is read once its end
is found.  An offset into the body is the part of the body from there.

* `parse`, `boundary`: the reader.
* `encode`, `Matching`: the encoding of a form, and the content types that carry its boundary.
* `parse_encode_trimmed`: what is read back of every form.
-/

namespace StudioWorker.Multipart

open Text Lib.Search

abbrev Bytes := List UInt8

/-- One field of a form. -/
structure Part where
  name : Text
  filename : Option Text
  contentType : Option Text
  data : Bytes
deriving DecidableEq

/-- Why a body is no readable form. -/
inductive MultipartError where
  | noOpening
  | unterminated (part : ℕ)
  | noHeaderEnd (part : ℕ)
  | noName (part : ℕ)
  | headerEncoding (part : ℕ)
deriving DecidableEq

def MultipartError.message : MultipartError → String
  | noOpening => "the body never opens with its boundary"
  | unterminated part => s!"part {part} is not closed by the boundary"
  | noHeaderEnd part => s!"part {part} has no end to its headers"
  | noName part => s!"part {part} has no Content-Disposition form-data name"
  | headerEncoding part => s!"part {part} headers are not UTF-8"

def multipartFormData : Text := "multipart/form-data".toList
def boundaryKey : Text := "boundary".toList
def contentDisposition : Text := "content-disposition".toList
def formData : Text := "form-data".toList
def nameKey : Text := "name".toList
def filenameKey : Text := "filename".toList
def contentTypeKey : Text := "content-type".toList

/-! ## Parameters -/

/-- The rest of a quoted value, with its escapes read, and what follows its closing quote. -/
def unquote : Text → Text × Text
  | [] => ([], [])
  | '"' :: t => ([], t)
  | '\\' :: c :: t => (c :: (unquote t).1, (unquote t).2)
  | ['\\'] => ([], [])
  | c :: t => (c :: (unquote t).1, (unquote t).2)

/-- A value, quoted or up to the next `;`, and what follows it. -/
def readValue (rest : Text) : Text × Text :=
  match Text.stripPrefix ['"'] rest with
  | some quoted => unquote quoted
  | none => (trim (rest.takeWhile (· ≠ ';')), rest.dropWhile (· ≠ ';'))

def isSeparator (c : Char) : Bool := c = ';' || c = ' ' || c = '\t'

theorem length_unquote_le (t : Text) : (unquote t).2.length ≤ t.length := by
  fun_induction unquote t with
  | case1 => exact Nat.le_refl _
  | case2 t => exact Nat.le_succ _
  | case3 c t ih =>
    simp only [List.length_cons]
    omega
  | case4 => exact Nat.zero_le _
  | case5 c t _ _ _ ih => exact ih.trans (Nat.le_succ _)

theorem length_readValue_le (rest : Text) : (readValue rest).2.length ≤ rest.length := by
  unfold readValue
  rcases h : Text.stripPrefix ['"'] rest with _ | quoted
  · exact (List.dropWhile_suffix _).length_le
  · obtain rfl := stripPrefix_some.mp h
    refine (length_unquote_le quoted).trans ?_
    simp

/-- `key=value` pairs separated by `;`; a value may be quoted (and then hold `;`). -/
def parameters (text : Text) : List (Text × Text) :=
  match _hsplit : splitOnce ['='] (text.dropWhile isSeparator) with
  | none => []
  | some (key, rest) =>
    (trim key, (readValue (trimStart rest)).1) :: parameters (readValue (trimStart rest)).2
termination_by text.length
decreasing_by
  have hlen := congrArg List.length (splitOnce_some _hsplit).1
  have hseps : (text.dropWhile isSeparator).length ≤ text.length :=
    (List.dropWhile_suffix _).length_le
  have hstart : (trimStart rest).length ≤ rest.length := (List.dropWhile_suffix _).length_le
  have hvalue := length_readValue_le (trimStart rest)
  simp only [List.length_append, List.length_singleton] at hlen
  omega

/-- The `boundary` parameter of a `multipart/form-data` content type, if it is one. -/
def boundary (contentType : Text) : Option Text :=
  match splitOnce [';'] contentType with
  | none => none
  | some (kind, params) =>
    if eqIgnoreAsciiCase (trim kind) multipartFormData then
      (((parameters params).find? fun kv => eqIgnoreAsciiCase kv.1 boundaryKey).map
        (·.2)).filter (· ≠ [])
    else none

/-! ## Parts -/

/-- What the headers of a part have said so far. -/
structure Headers where
  name : Option Text := none
  filename : Option Text := none
  contentType : Option Text := none

def Headers.parameter (h : Headers) (kv : Text × Text) : Headers :=
  if eqIgnoreAsciiCase kv.1 nameKey then { h with name := some kv.2 }
  else if eqIgnoreAsciiCase kv.1 filenameKey then { h with filename := some kv.2 }
  else h

def Headers.line (h : Headers) (line : Text) : Headers :=
  match splitOnce [':'] line with
  | none => h
  | some (field, value) =>
    if eqIgnoreAsciiCase (trim field) contentDisposition then
      match splitOnce [';'] value with
      | none => h
      | some (kind, params) =>
        if eqIgnoreAsciiCase (trim kind) formData then
          (parameters params).foldl Headers.parameter h
        else h
    else if eqIgnoreAsciiCase (trim field) contentTypeKey then
      { h with contentType := some (trim value) }
    else h

def crlf : Text := ['\r', '\n']

def part (index : ℕ) (headers : Text) (data : Bytes) : Except MultipartError Part :=
  let h := (split crlf headers).foldl Headers.line {}
  match h.name with
  | none => .error (.noName index)
  | some name => .ok ⟨name, h.filename, h.contentType, data⟩

/-- What precedes the first `needle` and what follows it. -/
def find (haystack needle : Bytes) : Option (Bytes × Bytes) :=
  if needle = [] then none else splitOnce needle haystack

def dashes : Bytes := [45, 45]
def lineEnd : Bytes := [13, 10]
def headerEnd : Bytes := [13, 10, 13, 10]

/-- The boundary where the body begins with it. -/
def opening (boundary : Text) : Bytes := dashes ++ bytes boundary

/-- The boundary behind a part. -/
def between (boundary : Text) : Bytes := lineEnd ++ dashes ++ bytes boundary

theorem length_find_lt {haystack needle a b : Bytes} (h : find haystack needle = some (a, b)) :
    b.length < haystack.length := by
  unfold find at h
  split_ifs at h with hne
  have hlen := congrArg List.length (splitOnce_some h).1
  have hpos : 0 < needle.length := List.length_pos_iff.mpr hne
  simp only [List.length_append] at hlen
  omega

/-- The loop of `parse`, at what follows a boundary. -/
def parseParts (between : Bytes) (index : ℕ) (rest : Bytes) : Except MultipartError (List Part) :=
  if dashes <+: rest then .ok []
  else
    match _hline : find rest lineEnd with
    | none => .error (.unterminated index)
    | some (_, lines) =>
      match _hheaders : find lines headerEnd with
      | none => .error (.noHeaderEnd index)
      | some (headers, content) =>
        match _hdata : find content between with
        | none => .error (.unterminated index)
        | some (data, after) =>
          match fromUtf8 headers with
          | none => .error (.headerEncoding index)
          | some text =>
            match part index text data with
            | .error e => .error e
            | .ok p => (parseParts between (index + 1) after).map (p :: ·)
termination_by rest.length
decreasing_by
  have h1 := length_find_lt _hline
  have h2 := length_find_lt _hheaders
  have h3 := length_find_lt _hdata
  omega

/-- Every part of `body`, in order. -/
def parse (body : Bytes) (boundary : Text) : Except MultipartError (List Part) :=
  if opening boundary <+: body then
    parseParts (between boundary) 1 (body.drop (opening boundary).length)
  else
    match find body (between boundary) with
    | none => .error .noOpening
    | some (_, rest) => parseParts (between boundary) 1 rest

/-! ## The encoding of a form -/

/-- Quotes and backslashes with a backslash in front. -/
def escape (t : Text) : Text := t.flatMap fun c => if c = '"' ∨ c = '\\' then ['\\', c] else [c]

def quoted (t : Text) : Text := '"' :: escape t ++ ['"']

def contentDispositionHeader : Text := "Content-Disposition".toList
def contentTypeHeader : Text := "Content-Type".toList

def filenameParameter : Option Text → Text
  | none => []
  | some f => [';', ' '] ++ filenameKey ++ '=' :: quoted f

/-- `Content-Disposition: form-data; name="…"`, and the filename. -/
def disposition (p : Part) : Text :=
  contentDispositionHeader ++ ':' :: (' ' :: formData ++ ';' :: ([' '] ++ nameKey ++
    '=' :: (quoted p.name ++ filenameParameter p.filename)))

def contentTypeLine (contentType : Text) : Text :=
  contentTypeHeader ++ ':' :: ' ' :: contentType

/-- The header lines of a part, in order. -/
def headers (p : Part) : Text :=
  disposition p ++ (p.contentType.map fun ct => crlf ++ contentTypeLine ct).getD []

/-- A part behind a boundary, and the boundary behind it. -/
def encodePart (boundary : Text) (p : Part) : Bytes :=
  lineEnd ++ bytes (headers p) ++ headerEnd ++ p.data ++ between boundary

/-- A form, with what may stand before it and behind it. -/
def encode (boundary : Text) (parts : List Part) (preamble : Option Bytes) (epilogue : Bytes) :
    Bytes :=
  (preamble.map (· ++ lineEnd)).getD [] ++ opening boundary ++
    parts.flatMap (encodePart boundary) ++ dashes ++ epilogue

/-- The content types of a form with this boundary: quoted, or bare where nothing in it needs
quotes. -/
inductive Matching (boundary : Text) : Text → Prop
  | quoted : Matching boundary
      (multipartFormData ++ ';' :: ([' '] ++ boundaryKey ++ '=' :: quoted boundary))
  | bare (h : ∀ c ∈ boundary, c ≠ ';' ∧ c ≠ '"' ∧ isWhitespace c = false) :
    Matching boundary (multipartFormData ++ ';' :: ([' '] ++ boundaryKey ++ '=' :: boundary))

def Clean (t : Text) : Prop := '\r' ∉ t ∧ '\n' ∉ t

instance (t : Text) : Decidable (Clean t) := inferInstanceAs (Decidable (_ ∧ _))

/-- A part that the encoding can carry. -/
structure Encodable (boundary : Text) (p : Part) : Prop where
  name : Clean p.name
  filename : ∀ f ∈ p.filename, Clean f
  contentType : ∀ ct ∈ p.contentType, Clean ct
  data : ¬ between boundary <:+: p.data

/-! ## Quoting -/

theorem unquote_cons {c : Char} (hq : c ≠ '"') (hs : c ≠ '\\') (t : Text) :
    unquote (c :: t) = (c :: (unquote t).1, (unquote t).2) := by
  rw [unquote]
  · exact hq
  · rintro d t' rfl
    exact absurd rfl hs
  · intro h
    exact absurd h hs

/-- A quoted text is read back, up to its closing quote. -/
theorem unquote_escape (t rest : Text) : unquote (escape t ++ '"' :: rest) = (t, rest) := by
  induction t with
  | nil => rw [escape, List.flatMap_nil, List.nil_append, unquote]
  | cons c t ih =>
    have hcons : escape (c :: t) ++ '"' :: rest =
        (if c = '"' ∨ c = '\\' then ['\\', c] else [c]) ++ (escape t ++ '"' :: rest) := by
      rw [escape, List.flatMap_cons, List.append_assoc]
      rfl
    rw [hcons]
    split_ifs with hc
    · show unquote ('\\' :: c :: (escape t ++ '"' :: rest)) = _
      rw [unquote, ih]
    · push Not at hc
      rw [List.singleton_append, unquote_cons hc.1 hc.2, ih]

theorem readValue_quoted (t rest : Text) : readValue (quoted t ++ rest) = (t, rest) := by
  have hstrip : Text.stripPrefix ['"'] (quoted t ++ rest) = some (escape t ++ '"' :: rest) :=
    stripPrefix_some.mpr (by simp [quoted])
  rw [readValue, hstrip]
  exact unquote_escape t rest

theorem trimStart_quoted (t rest : Text) : trimStart (quoted t ++ rest) = quoted t ++ rest := by
  show trimStart ('"' :: (escape t ++ ['"'] ++ rest)) = _
  rw [trimStart, List.dropWhile_cons_of_neg (by decide)]
  rfl

/-- A bare value is read up to the end. -/
theorem readValue_bare {t : Text} (h : ∀ c ∈ t, c ≠ ';' ∧ c ≠ '"' ∧ isWhitespace c = false) :
    readValue (trimStart t) = (t, []) := by
  have hstart : trimStart t = t := by
    rcases t with _ | ⟨c, t⟩
    · rfl
    · exact List.dropWhile_cons_of_neg (by simp [(h c List.mem_cons_self).2.2])
  have hstrip : Text.stripPrefix ['"'] t = none := by
    rw [stripPrefix_none]
    intro hp
    exact (h '"' (hp.subset List.mem_cons_self)).2.1 rfl
  have htake : t.takeWhile (· ≠ ';') = t :=
    List.takeWhile_eq_self_iff.mpr fun c hc => decide_eq_true (h c hc).1
  have hdrop : t.dropWhile (· ≠ ';') = [] :=
    List.dropWhile_eq_nil_iff.mpr fun c hc => decide_eq_true (h c hc).1
  have htrim : trim t = t := by
    have hend : t.rdropWhile isWhitespace = t := by
      rw [List.rdropWhile_eq_self_iff]
      intro hne
      simp [(h _ (List.getLast_mem hne)).2.2]
    show (t.dropWhile isWhitespace).rdropWhile isWhitespace = t
    have hstart' : t.dropWhile isWhitespace = t := hstart
    rw [hstart', hend]
  rw [hstart, readValue, hstrip]
  simp only [htake, hdrop, htrim]

theorem parameters_nil : parameters [] = [] := by
  rw [parameters]
  rfl

/-- One parameter is read off, whatever separates it from what precedes it. -/
theorem parameters_cons {seps key rest : Text} (hseps : ∀ c ∈ seps, isSeparator c = true)
    (hkey : key.head?.all isSeparator = false) (heq : '=' ∉ key) (htrim : trim key = key) :
    parameters (seps ++ key ++ '=' :: rest) =
      (key, (readValue (trimStart rest)).1) :: parameters (readValue (trimStart rest)).2 := by
  have hdrop : (seps ++ key ++ '=' :: rest).dropWhile isSeparator = key ++ '=' :: rest := by
    rw [List.append_assoc, List.dropWhile_append_of_pos hseps]
    rcases key with _ | ⟨c, key⟩
    · cases hkey
    · exact List.dropWhile_cons_of_neg (by simpa using hkey)
  have hsplit : splitOnce ['='] (key ++ '=' :: rest) = some (key, rest) :=
    splitOnce_singleton_some.mpr ⟨rfl, heq⟩
  rw [parameters]
  split
  · next h =>
    rw [hdrop, hsplit] at h
    cases h
  · next key' rest' h =>
    rw [hdrop, hsplit] at h
    obtain ⟨rfl, rfl⟩ := Prod.mk.inj (Option.some.inj h)
    rw [htrim]

theorem parameters_quoted {seps key : Text} (hseps : ∀ c ∈ seps, isSeparator c = true)
    (hkey : key.head?.all isSeparator = false) (heq : '=' ∉ key) (htrim : trim key = key)
    (t rest : Text) :
    parameters (seps ++ key ++ '=' :: (quoted t ++ rest)) = (key, t) :: parameters rest := by
  rw [parameters_cons hseps hkey heq htrim, trimStart_quoted, readValue_quoted]

theorem isSeparator_space : ∀ c ∈ [' '], isSeparator c = true := List.all_eq_true.mp (by decide)

theorem isSeparator_next : ∀ c ∈ [';', ' '], isSeparator c = true :=
  List.all_eq_true.mp (by decide)

/-! ## The boundary -/

theorem boundary_of_parameters {params value : Text}
    (h : parameters params = [(boundaryKey, value)]) (hne : value ≠ []) :
    boundary (multipartFormData ++ ';' :: params) = some value := by
  have hsplit : splitOnce [';'] (multipartFormData ++ ';' :: params) =
      some (multipartFormData, params) :=
    splitOnce_singleton_some.mpr ⟨rfl, by decide⟩
  have hkind : eqIgnoreAsciiCase (trim multipartFormData) multipartFormData = true := by
    decide
  have hname : eqIgnoreAsciiCase boundaryKey boundaryKey = true := by decide
  unfold boundary
  rw [hsplit]
  dsimp only
  rw [if_pos hkind, h]
  simp [hname, hne]

theorem parameters_boundary (t : Text) : parameters ([' '] ++ boundaryKey ++ '=' :: t) =
    (boundaryKey, (readValue (trimStart t)).1) :: parameters (readValue (trimStart t)).2 :=
  parameters_cons isSeparator_space (by decide) (by decide) (by decide)

/-- **The boundary of a form** is read back from its content type. -/
theorem Matching.boundary_eq {b contentType : Text} (h : Matching b contentType) (hb : b ≠ []) :
    boundary contentType = some b := by
  rcases h with _ | hbare
  · refine boundary_of_parameters ?_ hb
    rw [parameters_boundary, ← List.append_nil (Multipart.quoted b), trimStart_quoted,
      readValue_quoted, parameters_nil]
  · refine boundary_of_parameters ?_ hb
    rw [parameters_boundary, readValue_bare hbare, parameters_nil]

/-! ## The headers of a part -/

theorem return_not_mem_quoted {t : Text} (h : Clean t) : '\r' ∉ quoted t := by
  have hescape : ∀ c ∈ escape t, c ∈ t ∨ c = '\\' := by
    intro c hc
    obtain ⟨d, hd, hmem⟩ := List.mem_flatMap.mp hc
    split_ifs at hmem
    · rcases List.mem_cons.mp hmem with rfl | hmem
      · exact .inr rfl
      · exact .inl (List.mem_singleton.mp hmem ▸ hd)
    · exact .inl (List.mem_singleton.mp hmem ▸ hd)
  intro hmem
  rcases List.mem_cons.mp hmem with hc | hmem
  · exact absurd hc (by decide)
  rcases List.mem_append.mp hmem with hmem | hmem
  · exact (hescape _ hmem).elim h.1 (by decide)
  · exact absurd (List.mem_singleton.mp hmem) (by decide)

theorem return_not_mem_disposition {p : Part} (hname : Clean p.name)
    (hfile : ∀ f ∈ p.filename, Clean f) : '\r' ∉ disposition p := by
  have hhead : '\r' ∉ contentDispositionHeader ++ [':', ' '] ++ formData ++ [';', ' '] ++ nameKey ++
      ['='] := by decide
  have htail : '\r' ∉ [';', ' '] ++ filenameKey ++ ['='] := by decide
  have hname' := return_not_mem_quoted hname
  have hfile' : '\r' ∉ filenameParameter p.filename := by
    rcases hf : p.filename with _ | f
    · exact List.not_mem_nil
    · have hf' := return_not_mem_quoted (hfile f hf)
      simp only [filenameParameter, List.mem_append, List.mem_cons, List.not_mem_nil] at htail ⊢
      tauto
  simp only [disposition, List.mem_append, List.mem_cons, List.not_mem_nil] at hhead ⊢
  tauto

theorem return_not_mem_contentTypeLine {ct : Text} (h : Clean ct) : '\r' ∉ contentTypeLine ct := by
  have hhead : '\r' ∉ contentTypeHeader ++ [':', ' '] := by decide
  have hct := h.1
  simp only [contentTypeLine, List.mem_append, List.mem_cons, List.not_mem_nil] at hhead ⊢
  tauto

/-- The header lines are split where they were put together. -/
theorem split_headers {p : Part} (hd : '\r' ∉ disposition p)
    (hct : ∀ ct ∈ p.contentType, '\r' ∉ contentTypeLine ct) :
    split crlf (headers p) = disposition p :: (p.contentType.map contentTypeLine).toList := by
  have hclean : ∀ t : Text, '\r' ∉ t → ¬ crlf <:+: t := fun t ht hin =>
    ht (hin.subset List.mem_cons_self)
  have hlast : ∀ n t, '\r' ∉ t → splitFrom crlf n t = [t] := by
    intro n t ht
    rcases n with _ | n
    · rfl
    · rw [splitFrom, splitOnce_none.mpr (hclean t ht)]
  rcases h : p.contentType with _ | ct
  · have hheaders : headers p = disposition p := by
      rw [headers, h, Option.map_none, Option.getD_none, List.append_nil]
    rw [hheaders, split, hlast _ _ hd]
    rfl
  · have hheaders : headers p = disposition p ++ crlf ++ contentTypeLine ct := by
      rw [headers, h, Option.map_some, Option.getD_some, List.append_assoc]
    have hfuel : ∃ n, (headers p).length = n + 1 := by
      refine ⟨(headers p).length - 1, ?_⟩
      rw [hheaders, List.length_append, List.length_append]
      have hcrlf : crlf.length = 2 := rfl
      omega
    obtain ⟨n, hn⟩ := hfuel
    have hcut : splitOnce crlf (headers p) = some (disposition p, contentTypeLine ct) := by
      rw [hheaders]
      exact splitOnce_of_head (by decide) (hclean _ hd) _
    rw [split, hn, splitFrom, hcut]
    dsimp only
    rw [hlast _ _ (hct ct h)]
    rfl

theorem parameters_disposition (p : Part) :
    parameters ([' '] ++ nameKey ++ '=' :: (quoted p.name ++ filenameParameter p.filename)) =
      (nameKey, p.name) :: (p.filename.map fun f => (filenameKey, f)).toList := by
  rw [parameters_quoted isSeparator_space (by decide) (by decide)
    (by decide)]
  rcases p.filename with _ | f
  · rw [filenameParameter, parameters_nil]
    rfl
  · rw [filenameParameter, ← List.append_nil (quoted f),
      parameters_quoted isSeparator_next (by decide) (by decide)
        (by decide), parameters_nil]
    rfl

theorem line_disposition (p : Part) :
    Headers.line {} (disposition p) = { name := some p.name, filename := p.filename } := by
  have hfield := splitOnce_singleton_some.mpr
    ⟨(rfl : disposition p = _ ++ ':' :: _), (by decide : ':' ∉ contentDispositionHeader)⟩
  have hkind := fun params => splitOnce_singleton_some.mpr
    ⟨(rfl : ' ' :: formData ++ ';' :: params = _ ++ ';' :: _),
      (by decide : ';' ∉ ' ' :: formData)⟩
  have hdisp : eqIgnoreAsciiCase (trim contentDispositionHeader) contentDisposition = true := by
    decide
  have hform : eqIgnoreAsciiCase (trim (' ' :: formData)) formData = true := by decide
  have hname : eqIgnoreAsciiCase nameKey nameKey = true := by decide
  have hfile : eqIgnoreAsciiCase filenameKey nameKey = false := by decide
  have hfile' : eqIgnoreAsciiCase filenameKey filenameKey = true := by decide
  rw [Headers.line, hfield]
  dsimp only
  rw [if_pos hdisp, hkind]
  dsimp only
  rw [if_pos hform, parameters_disposition, List.foldl_cons]
  rcases p.filename with _ | f
  · simp [Headers.parameter, hname]
  · simp [Headers.parameter, hname, hfile, hfile']

theorem line_contentType (h : Headers) (ct : Text) :
    h.line (contentTypeLine ct) = { h with contentType := some (trim ct) } := by
  have hfield := splitOnce_singleton_some.mpr
    ⟨(rfl : contentTypeLine ct = _ ++ ':' :: _), (by decide : ':' ∉ contentTypeHeader)⟩
  have hdisp : eqIgnoreAsciiCase (trim contentTypeHeader) contentDisposition = false := by
    decide
  have htype : eqIgnoreAsciiCase (trim contentTypeHeader) contentTypeKey = true := by
    decide
  have htrim : trim (' ' :: ct) = trim ct := by
    have hblank : ∀ c ∈ [' '], isWhitespace c = true := List.all_eq_true.mp (by decide)
    exact Lib.Trim.trim_append_left hblank ct
  rw [Headers.line, hfield]
  dsimp only
  rw [if_neg (by simp [hdisp]), if_pos htype, htrim]

/-- A part as the reader gives it back: its content type without whitespace around it. -/
def Part.trimmed (p : Part) : Part := { p with contentType := p.contentType.map trim }

theorem part_headers {b : Text} {p : Part} (h : Encodable b p) (index : ℕ) :
    part index (headers p) p.data = .ok p.trimmed := by
  have hd := return_not_mem_disposition h.name h.filename
  have hsplit := split_headers hd fun ct hct =>
    return_not_mem_contentTypeLine (h.contentType ct hct)
  unfold part
  rw [hsplit, List.foldl_cons, line_disposition]
  rcases hct : p.contentType with _ | ct
  · simp [Part.trimmed, hct]
  · simp [Part.trimmed, hct, line_contentType]

/-! ## The searches of the loop -/

theorem return_not_mem_bytes {t : Text} (h : '\r' ∉ t) : 13 ∉ bytes t := fun hmem =>
  h (mem_of_mem_bytes (c := '\r') (by decide) hmem)

theorem find_lineEnd (rest : Bytes) : find (lineEnd ++ rest) lineEnd = some ([], rest) := by
  have hsplit := splitOnce_of_head (c := (13 : UInt8)) (n := [10]) (a := []) (by decide) (by decide)
    rest
  exact hsplit

theorem splitOnce_headerEnd {r : Bytes} (h : 13 ∉ r) (content : Bytes) :
    splitOnce headerEnd (r ++ (headerEnd ++ content)) = some (r, content) := by
  have hfirst : splitOnce headerEnd (headerEnd ++ content) = some ([], content) := by
    have hsplit := @splitOnce_of_first _ _ headerEnd [] content fun a' _ => Nat.zero_le _
    rwa [List.nil_append] at hsplit
  have hquiet : Quiet [headerEnd] r (headerEnd ++ content) := quiet_of_head h _
  rw [splitOnce_quiet hquiet, hfirst, Option.map_some, List.append_nil]

/-- A single line end between two lines does not look like the end of the headers. -/
theorem splitOnce_headerEnd_lines {r r' : Bytes} (h : 13 ∉ r) (h' : 13 ∉ r') (hne : r' ≠ [])
    (content : Bytes) : splitOnce headerEnd (r ++ (lineEnd ++ (r' ++ (headerEnd ++ content)))) =
      some (r ++ (lineEnd ++ r'), content) := by
  rcases r' with _ | ⟨x, r'⟩
  · exact absurd rfl hne
  have hx : x ≠ 13 := by
    rintro rfl
    exact h' List.mem_cons_self
  have hline : Quiet [headerEnd] lineEnd ((x :: r') ++ (headerEnd ++ content)) := by
    intro a b hab hb s hs
    rw [List.mem_singleton.mp hs]
    rcases a with _ | ⟨y, _ | ⟨z, a⟩⟩
    · obtain rfl : lineEnd = b := hab
      simp [headerEnd, lineEnd, hx, Ne.symm hx]
    · obtain ⟨-, rfl⟩ := List.cons.inj hab
      simp [headerEnd]
    · obtain ⟨-, hab⟩ := List.cons.inj hab
      obtain ⟨-, hab⟩ := List.cons.inj hab
      exact absurd (List.append_eq_nil_iff.mp hab.symm).2 hb
  have hquiet : Quiet [headerEnd] r (lineEnd ++ ((x :: r') ++ (headerEnd ++ content))) :=
    quiet_of_head h _
  rw [splitOnce_quiet hquiet, splitOnce_quiet hline, splitOnce_headerEnd h', Option.map_some,
    Option.map_some]

theorem find_headers {b : Text} {p : Part} (h : Encodable b p) (content : Bytes) :
    find (bytes (headers p) ++ (headerEnd ++ content)) headerEnd =
      some (bytes (headers p), content) := by
  have hd := return_not_mem_bytes (return_not_mem_disposition h.name h.filename)
  show splitOnce headerEnd _ = _
  rcases hct : p.contentType with _ | ct
  · have hheaders : headers p = disposition p := by
      rw [headers, hct, Option.map_none, Option.getD_none, List.append_nil]
    rw [hheaders, splitOnce_headerEnd hd]
  · have hheaders : bytes (headers p) =
        bytes (disposition p) ++ (lineEnd ++ bytes (contentTypeLine ct)) := by
      rw [headers, hct, Option.map_some, Option.getD_some, bytes_append, bytes_append]
      rfl
    have hc := return_not_mem_bytes (return_not_mem_contentTypeLine (h.contentType ct hct))
    have hne : bytes (contentTypeLine ct) ≠ [] := by
      intro hnil
      have hmem : 67 ∈ bytes (contentTypeLine ct) := by
        rw [contentTypeLine, bytes_append]
        exact List.mem_append_left _ (by decide)
      rw [hnil] at hmem
      exact List.not_mem_nil hmem
    rw [hheaders, List.append_assoc, List.append_assoc, splitOnce_headerEnd_lines hd hc hne]

theorem find_between {b : Text} (hb : Clean b) {data : Bytes} (h : ¬ between b <:+: data)
    (rest : Bytes) : find (data ++ (between b ++ rest)) (between b) = some (data, rest) := by
  have hnot : 13 ∉ 10 :: 45 :: 45 :: bytes b := by
    simpa using return_not_mem_bytes hb.1
  show splitOnce (between b) _ = _
  rw [← List.append_assoc]
  exact splitOnce_of_head hnot h rest

/-! ## Every form is read back -/

/-- One turn of the loop, without the facts that its measure needs. -/
theorem parseParts_eq (between : Bytes) (index : ℕ) (rest : Bytes) :
    parseParts between index rest =
      if dashes <+: rest then .ok []
      else
        match find rest lineEnd with
        | none => .error (.unterminated index)
        | some (_, lines) =>
          match find lines headerEnd with
          | none => .error (.noHeaderEnd index)
          | some (headers, content) =>
            match find content between with
            | none => .error (.unterminated index)
            | some (data, after) =>
              match fromUtf8 headers with
              | none => .error (.headerEncoding index)
              | some text =>
                match part index text data with
                | .error e => .error e
                | .ok p => (parseParts between (index + 1) after).map (p :: ·) := by
  rw [parseParts]
  split_ifs
  · rfl
  · split <;> simp only [*]
    split <;> simp only [*]
    split
    · next h => exact h ▸ rfl
    · next h => exact h ▸ rfl

/-- One turn of the loop that reads a part. -/
theorem parseParts_cons {between : Bytes} {index : ℕ} {rest lines hs content data after : Bytes}
    {x : Bytes} {text : Text} {p : Part} (hdash : ¬ dashes <+: rest)
    (hline : find rest lineEnd = some (x, lines))
    (hheaders : find lines headerEnd = some (hs, content))
    (hdata : find content between = some (data, after)) (htext : fromUtf8 hs = some text)
    (hpart : part index text data = .ok p) :
    parseParts between index rest = (parseParts between (index + 1) after).map (p :: ·) := by
  rw [parseParts_eq, if_neg hdash, hline]
  dsimp only
  rw [hheaders]
  dsimp only
  rw [hdata]
  dsimp only
  rw [htext]
  dsimp only
  rw [hpart]

/-- **The loop** reads the parts off in order and stops at the closing boundary. -/
theorem parseParts_encode {b : Text} (hb : Clean b) (epilogue : Bytes) (index : ℕ)
    {parts : List Part} (hparts : ∀ p ∈ parts, Encodable b p) :
    parseParts (between b) index (parts.flatMap (encodePart b) ++ (dashes ++ epilogue)) =
      .ok (parts.map Part.trimmed) := by
  induction parts generalizing index with
  | nil =>
    rw [parseParts, if_pos]
    · rfl
    · exact List.prefix_append _ _
  | cons p parts ih =>
    have hp := hparts p List.mem_cons_self
    have hsplit : (p :: parts).flatMap (encodePart b) ++ (dashes ++ epilogue) =
        lineEnd ++ (bytes (headers p) ++ (headerEnd ++ (p.data ++ (between b ++
          (parts.flatMap (encodePart b) ++ (dashes ++ epilogue)))))) := by
      simp only [List.flatMap_cons, encodePart, List.append_assoc]
    have hdash : ∀ rest : Bytes, ¬ dashes <+: lineEnd ++ rest := fun rest hpre =>
      absurd (List.cons_prefix_cons.mp hpre).1 (by decide)
    rw [hsplit, parseParts_cons (hdash _) (find_lineEnd _) (find_headers hp _)
      (find_between hb hp.data _) (fromUtf8_bytes _) (part_headers hp index),
      ih (index + 1) fun q hq => hparts q (List.mem_cons_of_mem _ hq)]
    rfl

/-- **A form is read back**, up to the whitespace around its content types. -/
theorem parse_encode_trimmed {b : Text} (hb : Clean b) {parts : List Part}
    (hparts : ∀ p ∈ parts, Encodable b p) {preamble : Option Bytes}
    (hpre : ∀ x ∈ preamble, ¬ between b <:+: x ∧ ¬ opening b <+: x) (epilogue : Bytes) :
    parse (encode b parts preamble epilogue) b = .ok (parts.map Part.trimmed) := by
  have hbody : ∀ lead : Bytes, lead ++ opening b ++ parts.flatMap (encodePart b) ++ dashes ++
      epilogue = lead ++ (opening b ++ (parts.flatMap (encodePart b) ++ (dashes ++ epilogue))) := by
    intro lead
    simp only [List.append_assoc]
  rw [parse, encode, hbody]
  rcases preamble with _ | x
  · rw [Option.map_none, Option.getD_none, List.nil_append, if_pos (List.prefix_append _ _),
      List.drop_left, parseParts_encode hb epilogue 1 hparts]
  · obtain ⟨hfree, hopen⟩ := hpre x rfl
    have hnot : ¬ opening b <+: x ++ lineEnd ++
        (opening b ++ (parts.flatMap (encodePart b) ++ (dashes ++ epilogue))) := by
      intro hp
      rw [List.append_assoc] at hp
      rcases Nat.lt_or_ge x.length (opening b).length with hlt | hle
      · -- then the opening reaches the line end, and it has none
        have hin : x ++ [13] <+: opening b := by
          refine List.prefix_of_prefix_length_le ?_ hp (by rw [List.length_append]; exact hlt)
          exact (List.prefix_append_right_inj x).mpr (List.prefix_append [13] _)
        have hmem : 13 ∈ dashes ++ bytes b := hin.subset (by simp)
        rcases List.mem_append.mp hmem with hmem | hmem
        · exact absurd hmem (by decide)
        · exact return_not_mem_bytes hb.1 hmem
      · exact hopen (List.prefix_of_prefix_length_le hp (List.prefix_append x _) hle)
    have hbetween : x ++ lineEnd ++
        (opening b ++ (parts.flatMap (encodePart b) ++ (dashes ++ epilogue))) =
        x ++ (between b ++ (parts.flatMap (encodePart b) ++ (dashes ++ epilogue))) := by
      simp only [between, opening, List.append_assoc]
    rw [Option.map_some, Option.getD_some, if_neg hnot, hbetween, find_between hb hfree]
    exact parseParts_encode hb epilogue 1 hparts

/-- **Round trip.**  Every form is read back part by part, and its boundary from its content
type. -/
theorem parse_encode {b : Text} (hb : Clean b) {parts : List Part}
    (hparts : ∀ p ∈ parts, Encodable b p)
    (htrim : ∀ p ∈ parts, ∀ ct ∈ p.contentType, trim ct = ct) {preamble : Option Bytes}
    (hpre : ∀ x ∈ preamble, ¬ between b <:+: x ∧ ¬ opening b <+: x) (epilogue : Bytes) :
    parse (encode b parts preamble epilogue) b = .ok parts ∧
      (b ≠ [] → ∀ contentType, Matching b contentType → boundary contentType = some b) := by
  refine ⟨?_, fun hne contentType h => h.boundary_eq hne⟩
  have hmap : parts.map Part.trimmed = parts := by
    refine (List.map_congr_left fun p hp => ?_).trans (List.map_id parts)
    have hct : p.contentType.map trim = p.contentType := by
      rcases h : p.contentType with _ | ct
      · rfl
      · rw [Option.map_some, htrim p hp ct h]
    show { p with contentType := p.contentType.map trim } = p
    rw [hct]
  rw [parse_encode_trimmed hb hparts hpre epilogue, hmap]

/-- A part whose name needs escapes and whose data looks like headers and a boundary. -/
def trickyPart (contentType : Text) : Part where
  name := "a\"; b\\".toList
  filename := some "x;y=z.bin".toList
  contentType := some contentType
  data := [13, 10, 13, 10, 45, 45, 88]

theorem encodable_trickyPart {contentType : Text} (h : Clean contentType) :
    Encodable "XyZ".toList (trickyPart contentType) where
  name := by
    show Clean "a\"; b\\".toList
    decide
  filename := by
    rintro f ⟨⟩
    decide
  contentType := by
    rintro ct ⟨⟩
    exact h
  data := by
    show ¬ between "XyZ".toList <:+: [13, 10, 13, 10, 45, 45, 88]
    decide

theorem parse_encode_tricky :
    parse (encode "XyZ".toList [trickyPart "image/jpeg".toList] (some [45, 45]) lineEnd)
        "XyZ".toList = .ok [trickyPart "image/jpeg".toList] ∧
      ("XyZ".toList ≠ [] → ∀ contentType, Matching "XyZ".toList contentType →
        boundary contentType = some "XyZ".toList) := by
  refine parse_encode (by decide) (fun p hp => ?_) (fun p hp ct hct => ?_)
    (fun x hx => ?_) lineEnd
  · rw [List.mem_singleton.mp hp]
    exact encodable_trickyPart (by decide)
  · obtain rfl := List.mem_singleton.mp hp
    obtain rfl : "image/jpeg".toList = ct := Option.some.inj hct
    decide
  · obtain rfl := Option.some.inj hx
    decide

/-- A content type loses the whitespace around it. -/
theorem blank_content_type_trimmed :
    ¬ ∀ (b : Text) (parts : List Part) (preamble : Option Bytes) (epilogue : Bytes), Clean b →
      (∀ p ∈ parts, Encodable b p) →
      (∀ x ∈ preamble, ¬ between b <:+: x ∧ ¬ opening b <+: x) →
      parse (encode b parts preamble epilogue) b = .ok parts ∧
        ∀ contentType, Matching b contentType → boundary contentType = some b := by
  intro h
  have hparts : ∀ p ∈ [trickyPart " image/jpeg".toList], Encodable "XyZ".toList p := by
    intro p hp
    rw [List.mem_singleton.mp hp]
    exact encodable_trickyPart (by decide)
  have hnone : ∀ x ∈ (none : Option Bytes),
      ¬ between "XyZ".toList <:+: x ∧ ¬ opening "XyZ".toList <+: x := fun x hx => by cases hx
  have hclean : Clean "XyZ".toList := by decide
  have hparse := (h _ _ none lineEnd hclean hparts hnone).1
  rw [parse_encode_trimmed hclean hparts hnone] at hparse
  exact absurd (Except.ok.inj hparse) (by decide)

end StudioWorker.Multipart
