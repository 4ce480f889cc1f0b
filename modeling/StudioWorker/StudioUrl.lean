import StudioWorker.Lib.UrlPath
import StudioWorker.Text

/-!
# StudioUrl — where a worker reaches its studio

`ApiClient` of `src/http.rs` and `build_connect_url` of `src/ws/client.rs`, both from the parsed
base URL.

* `mount`: the path that the studio is mounted at, without the prefix of its API.
* `parse_apiUrl`, `buildConnectUrl_eq`: the URLs of the HTTP calls and of the session.
* `SameStudio`: the two are one, whichever way the base URL is written.
* `sameStudio_iff`: the base URLs for which they are.
-/

namespace StudioWorker.StudioUrl

open Lib Lib.UrlPath Lib.Url

def apiPrefix : Text := "/graphics/api".toList

/-- `trim_end_matches('/')` -/
def trimEndSlashes (t : Text) : Text := t.rdropWhile (· == '/')

def setPath (url : WebUrl) (path : Text) : WebUrl := { url with path := parsePath path }

/-! ## The HTTP calls -/

def normalizeBaseUrl (url : WebUrl) : Text :=
  let url := { url with query := none, fragment := none }
  let trimmedPath := trimEndSlashes url.path
  let url :=
    if apiPrefix <:+ trimmedPath then
      let withoutPrefix := trimmedPath.take (trimmedPath.length - apiPrefix.length)
      setPath url (if withoutPrefix = [] then "/".toList else withoutPrefix)
    else url
  trimEndSlashes url.serialize

/-- `ApiClient::url` -/
def apiUrl (baseUrl path : Text) : Text := baseUrl ++ apiPrefix ++ path

/-! ## The session -/

/-- The scheme to set, if it is to change. -/
def newScheme (scheme : Text) : Except Text (Option Text) :=
  if scheme = "http".toList then .ok (some "ws".toList)
  else if scheme = "https".toList then .ok (some "wss".toList)
  else if scheme = "ws".toList ∨ scheme = "wss".toList then .ok none
  else .error ("unsupported scheme: ".toList ++ scheme)

/-- The default ports of the schemes that change are the same, so that the authority stays. -/
def setScheme (url : WebUrl) (scheme : Option Text) : WebUrl :=
  { url with scheme := scheme.getD url.scheme }

/-- An error is the text of a `Transport`. -/
def buildConnectUrl (url : WebUrl) (workerId : Text) : Except Text WebUrl := do
  let url := setScheme url (← newScheme url.scheme)
  let trimmedPath := trimEndSlashes url.path
  let prefixed :=
    if apiPrefix <:+ trimmedPath then trimmedPath else trimmedPath ++ apiPrefix
  .ok (setPath url (prefixed ++ "/workers/".toList ++ workerId ++ "/connect".toList))

/-! ## The same studio -/

/-- A base URL as a parser gives it. -/
structure BaseUrl (r : Rules) where
  url : WebUrl
  scheme : url.scheme = "http".toList ∨ url.scheme = "https".toList
  authority : r.authority url.scheme url.authority = some url.authority
  host : url.authority ≠ [] ∧ ∀ c ∈ url.authority, endsAuthority c = false
  path : parsePath url.path = url.path

/-- `pchar` of RFC 3986, a percent sign for an encoded one. -/
def isPathChar (c : Char) : Bool :=
  c.isAlphanum || "-._~%!$&'()*+,;=:@".toList.contains c

structure WorkerId where
  text : Text
  chars : ∀ c ∈ text, isPathChar c = true

def connectPath (id : Text) : Text := "/workers/".toList ++ id ++ "/connect".toList

/-- The URL with its scheme mapped. -/
def toWebSocket (url : WebUrl) : WebUrl :=
  { url with scheme := if url.scheme = "http".toList then "ws".toList else "wss".toList }

/-- The path of a base URL without the slashes at its end and the prefix. -/
def mount (path : Text) : Text :=
  (Text.stripSuffix apiPrefix (trimEndSlashes path)).getD (trimEndSlashes path)

/-- The base URL with the prefix or without it, and with slashes at its end. -/
def written (url : WebUrl) (withPrefix : Bool) (slashes : ℕ) : WebUrl :=
  { url with path := orRoot (mount url.path ++ (if withPrefix then apiPrefix else []) ++
      List.replicate slashes '/') }

structure SameStudio (r : Rules) (url : WebUrl) (id : Text) : Prop where
  agree : ∃ connect, buildConnectUrl url id = .ok connect ∧
    (parse r (apiUrl (normalizeBaseUrl url) (connectPath id))).map toWebSocket = some connect
  uniform : ∀ withPrefix slashes,
    apiUrl (normalizeBaseUrl (written url withPrefix slashes)) (connectPath id) =
        apiUrl (normalizeBaseUrl url) (connectPath id) ∧
      buildConnectUrl (written url withPrefix slashes) id = buildConnectUrl url id

/-! ## Slashes at the end -/

section Slashes

variable {t : Text}

theorem trimEndSlashes_idem (t : Text) :
    trimEndSlashes (trimEndSlashes t) = trimEndSlashes t :=
  List.rdropWhile_idempotent _ _

theorem trimEndSlashes_slash (t : Text) : trimEndSlashes (t ++ ['/']) = trimEndSlashes t :=
  List.rdropWhile_concat_pos _ _ _ (by decide)

theorem trimEndSlashes_concat {c : Char} (h : c ≠ '/') (t : Text) :
    trimEndSlashes (t ++ [c]) = t ++ [c] :=
  List.rdropWhile_concat_neg _ _ _ (by simpa using h)

theorem length_trimEndSlashes_le (t : Text) : (trimEndSlashes t).length ≤ t.length :=
  (List.rdropWhile_prefix _ _).length_le

theorem trimEndSlashes_replicate (t : Text) (n : ℕ) :
    trimEndSlashes (t ++ List.replicate n '/') = trimEndSlashes t := by
  induction n with
  | zero => rw [List.replicate_zero, List.append_nil]
  | succ n ih => rw [List.replicate_succ', ← List.append_assoc, trimEndSlashes_slash, ih]

theorem trimEndSlashes_orRoot (t : Text) : trimEndSlashes (orRoot t) = trimEndSlashes t := by
  rw [orRoot]
  split_ifs with h
  · rw [h]
    rfl
  · rfl

theorem trimEndSlashes_apiPrefix (t : Text) :
    trimEndSlashes (t ++ apiPrefix) = t ++ apiPrefix := by
  have hsuf : apiPrefix.rdropWhile (· == '/') = apiPrefix := by decide
  rw [trimEndSlashes, Trim.rdropWhile_append, hsuf, if_neg (by decide)]

theorem trimEndSlashes_eq_self_iff : trimEndSlashes t = t ↔ ¬ ['/'] <:+ t := by
  constructor
  · rintro h ⟨a, rfl⟩
    rw [trimEndSlashes_slash] at h
    have hlen := length_trimEndSlashes_le a
    rw [h, List.length_append, List.length_singleton] at hlen
    omega
  · intro h
    induction t using List.reverseRecOn with
    | nil => rfl
    | append_singleton t c _ =>
      refine trimEndSlashes_concat (fun hc => h ?_) t
      rw [hc]
      exact List.suffix_append t ['/']

theorem normal_trimEndSlashes (h : Normal t) : Normal (trimEndSlashes t) := by
  induction t using List.reverseRecOn with
  | nil => exact normal_nil
  | append_singleton t c ih =>
    by_cases hc : c = '/'
    · rw [hc] at h ⊢
      rw [trimEndSlashes_slash]
      exact ih h.of_append_cons
    · rwa [trimEndSlashes_concat hc]

theorem mount_eq (t : Text) :
    mount t = if apiPrefix <:+ trimEndSlashes t then
      (trimEndSlashes t).take ((trimEndSlashes t).length - apiPrefix.length)
    else trimEndSlashes t := by
  rw [mount, Text.stripSuffix]
  split_ifs <;> rfl

/-- Both ways that a path goes on behind its mount. -/
theorem mount_cases (t : Text) :
    (apiPrefix <:+ trimEndSlashes t ∧ trimEndSlashes t = mount t ++ apiPrefix) ∨
      (¬ apiPrefix <:+ trimEndSlashes t ∧ trimEndSlashes t = mount t) := by
  rw [mount_eq]
  split_ifs with h
  · refine Or.inl ⟨h, ?_⟩
    obtain ⟨w, hw⟩ := h
    rw [← hw, List.length_append, Nat.add_sub_cancel, List.take_left]
  · exact Or.inr ⟨h, rfl⟩

theorem normal_mount (h : Normal t) : Normal (mount t) := by
  have htrim := normal_trimEndSlashes h
  rcases mount_cases t with ⟨-, heq⟩ | ⟨-, heq⟩
  · rw [heq] at htrim
    exact htrim.of_append_cons
  · rwa [heq] at htrim

/-- A mount that is one of its own has neither slashes nor the prefix at its end. -/
theorem mount_eq_self_iff : mount t = t ↔ ¬ ['/'] <:+ t ∧ ¬ apiPrefix <:+ t := by
  rw [← trimEndSlashes_eq_self_iff]
  have hle := length_trimEndSlashes_le t
  rcases mount_cases t with ⟨hsuf, heq⟩ | ⟨hsuf, heq⟩
  · have hlen := congrArg List.length heq
    have hpos : 0 < apiPrefix.length := by decide
    rw [List.length_append] at hlen
    refine iff_of_false (fun h => ?_) fun h => ?_
    · rw [h] at hlen
      omega
    · rw [h.1] at hsuf
      exact h.2 hsuf
  · constructor
    · intro h
      rw [h] at heq
      rw [heq] at hsuf
      exact ⟨heq, hsuf⟩
    · rintro ⟨h, -⟩
      rw [← heq, h]

section Written

variable (url : WebUrl) (withPrefix : Bool) (slashes : ℕ)

@[simp] theorem written_scheme : (written url withPrefix slashes).scheme = url.scheme := by
  rw [written]

@[simp] theorem written_authority :
    (written url withPrefix slashes).authority = url.authority := by
  rw [written]

theorem setPath_written (path : Text) :
    setPath (written url withPrefix slashes) path = setPath url path := by
  simp only [setPath, written]

end Written

theorem mount_written (url : WebUrl) (withPrefix : Bool) (slashes : ℕ) :
    mount (written url withPrefix slashes).path =
      if withPrefix then mount url.path else mount (mount url.path) := by
  have htrim : trimEndSlashes (written url withPrefix slashes).path =
      trimEndSlashes (mount url.path ++ if withPrefix then apiPrefix else []) := by
    rw [written, trimEndSlashes_orRoot, trimEndSlashes_replicate]
  cases withPrefix with
  | false =>
    rw [mount, htrim, if_neg Bool.false_ne_true, List.append_nil]
    rfl
  | true =>
    rw [mount, htrim, if_pos rfl, trimEndSlashes_apiPrefix, Text.stripSuffix_some.mpr rfl]
    rfl

theorem normal_apiPrefix : Normal apiPrefix := by
  refine ⟨["graphics".toList, "api".toList], fun seg hseg => ?_, by decide⟩
  simp only [List.mem_cons, List.not_mem_nil, or_false] at hseg
  rcases hseg with rfl | rfl
  · exact segment_of_isAlphanum (by decide) (by decide)
  · exact segment_of_isAlphanum (by decide) (by decide)

theorem normal_written {url : WebUrl} (h : Normal url.path) (withPrefix : Bool) (slashes : ℕ) :
    Normal (written url withPrefix slashes).path := by
  have hempty : Segment [] := ⟨fun c hc => absurd hc List.not_mem_nil, rfl, rfl⟩
  have hslashes : Normal (List.replicate slashes '/') := by
    induction slashes with
    | zero => exact normal_nil
    | succ n ih => exact hempty.normal.append ih
  have hsuf : Normal (if withPrefix then apiPrefix else []) := by
    split_ifs
    · exact normal_apiPrefix
    · exact normal_nil
  exact normal_orRoot (((normal_mount h).append hsuf).append hslashes)

end Slashes

/-! ## The URL of each call -/

section Calls

variable {url : WebUrl}

/-- The slashes at the end of a URL without query and fragment are those of its path. -/
theorem trimEndSlashes_serialize {scheme authority : Text} (hhost : authority ≠ [])
    (hends : ∀ c ∈ authority, endsAuthority c = false) (path : Text) :
    trimEndSlashes (WebUrl.serialize ⟨scheme, authority, path, none, none⟩) =
      scheme ++ "://".toList ++ (authority ++ trimEndSlashes path) := by
  obtain ⟨a, c, hcat⟩ := (List.eq_nil_or_concat authority).resolve_left hhost
  rw [List.concat_eq_append] at hcat
  subst hcat
  have hc : c ≠ '/' := by
    rintro rfl
    exact absurd (hends '/' (by simp)) (by decide)
  have hself : trimEndSlashes (scheme ++ "://".toList ++ (a ++ [c])) =
      scheme ++ "://".toList ++ (a ++ [c]) := by
    rw [← List.append_assoc, trimEndSlashes_concat hc]
  have hserialize : WebUrl.serialize ⟨scheme, a ++ [c], path, none, none⟩ =
      scheme ++ "://".toList ++ (a ++ [c]) ++ path := by
    rw [WebUrl.serialize, marked, marked, Option.map_none, Option.map_none, Option.getD_none,
      List.append_nil, List.append_nil]
  rw [hserialize, trimEndSlashes, Trim.rdropWhile_append_of_self hself, List.append_assoc]
  rfl

theorem normalizeBaseUrl_eq (hpath : Normal url.path) (hhost : url.authority ≠ [])
    (hends : ∀ c ∈ url.authority, endsAuthority c = false) :
    normalizeBaseUrl url =
      url.scheme ++ "://".toList ++ (url.authority ++ trimEndSlashes (mount url.path)) := by
  have hmount := mount_eq url.path
  have hroot : trimEndSlashes (parsePath (if mount url.path = [] then "/".toList
      else mount url.path)) = trimEndSlashes (mount url.path) := by
    show trimEndSlashes (parsePath (orRoot (mount url.path))) = _
    rw [(normal_mount hpath).parse_orRoot, trimEndSlashes_orRoot]
  rw [normalizeBaseUrl]
  dsimp only
  by_cases hsuf : apiPrefix <:+ trimEndSlashes url.path
  · rw [if_pos hsuf] at hmount
    rw [if_pos hsuf, ← hmount, setPath]
    dsimp only
    rw [trimEndSlashes_serialize hhost hends, hroot]
  · rw [if_neg hsuf] at hmount
    rw [if_neg hsuf, trimEndSlashes_serialize hhost hends, hmount, trimEndSlashes_idem]

theorem connectPath_eq (id : Text) :
    connectPath id = Lib.Url.joinPath ["workers".toList, id, "connect".toList] := by
  have hworkers : "/workers/".toList = '/' :: ("workers".toList ++ ['/']) := by decide
  have hconnect : "/connect".toList = '/' :: "connect".toList := by decide
  have hjoin : ∀ workers connect : Text, '/' :: (workers ++ ['/']) ++ id ++ '/' :: connect =
      Lib.Url.joinPath [workers, id, connect] := by
    intro workers connect
    simp [Lib.Url.joinPath]
  rw [← hjoin, ← hworkers, ← hconnect]
  rfl

theorem buildConnectUrl_eq (hscheme : url.scheme = "http".toList ∨ url.scheme = "https".toList)
    (id : Text) :
    buildConnectUrl url id =
      .ok (toWebSocket (setPath url (mount url.path ++ apiPrefix ++ connectPath id))) := by
  have hset : newScheme url.scheme = .ok (some (toWebSocket url).scheme) := by
    rw [newScheme, toWebSocket]
    rcases hscheme with h | h
    · rw [h]
      rfl
    · rw [h]
      rfl
  have hprefixed : (if apiPrefix <:+ trimEndSlashes url.path then trimEndSlashes url.path
      else trimEndSlashes url.path ++ apiPrefix) = mount url.path ++ apiPrefix := by
    rcases mount_cases url.path with ⟨hsuf, heq⟩ | ⟨hsuf, heq⟩
    · rw [if_pos hsuf, heq]
    · rw [if_neg hsuf, heq]
  rw [buildConnectUrl, hset]
  show Except.ok (setPath (setScheme url (some (toWebSocket url).scheme))
    ((if apiPrefix <:+ trimEndSlashes url.path then trimEndSlashes url.path
      else trimEndSlashes url.path ++ apiPrefix) ++ "/workers/".toList ++ id ++
        "/connect".toList)) = _
  have hpath : mount url.path ++ apiPrefix ++ "/workers/".toList ++ id ++ "/connect".toList =
      mount url.path ++ apiPrefix ++ connectPath id := by
    have hassoc : ∀ start workers connect : Text,
        start ++ workers ++ id ++ connect = start ++ (workers ++ id ++ connect) := by
      intro start workers connect
      simp only [List.append_assoc]
    exact hassoc _ _ _
  rw [hprefixed, hpath]
  rfl

theorem kept_of_isPathChar {c : Char} (h : isPathChar c = true) : Kept c := by
  have hmarks : ∀ d ∈ "-._~%!$&'()*+,;=:@".toList, isSlash d = false ∧ isEncoded d = false :=
    List.all_iff_forall_prop.mp (by decide)
  rw [isPathChar, Bool.or_eq_true] at h
  rcases h with h | h
  · exact kept_of_isAlphanum h
  · exact hmarks c (by simpa using h)

theorem segment_workers : Segment "workers".toList :=
  segment_of_isAlphanum (by decide) (by decide)

theorem segment_connect : Segment "connect".toList :=
  segment_of_isAlphanum (by decide) (by decide)

/-- A mount and the path of the call behind it, as a parser leaves them. -/
theorem parsePath_call {w : Text} (h : Normal w) (id : WorkerId) :
    parsePath (w ++ apiPrefix ++ connectPath id.text) =
      w ++ apiPrefix ++ between "workers".toList id.text "connect".toList := by
  rw [connectPath_eq]
  exact (h.append normal_apiPrefix).parse_append segment_workers
    (fun c hc => kept_of_isPathChar (id.chars c hc)) segment_connect

theorem kept_of_mem_connectPath (id : WorkerId) {c : Char} (hc : c ∈ connectPath id.text) :
    c = '/' ∨ Kept c := by
  rw [connectPath_eq] at hc
  rcases mem_joinPath hc with hslash | ⟨seg, hseg, hc⟩
  · exact Or.inl hslash
  · refine Or.inr ?_
    simp only [List.mem_cons, List.not_mem_nil, or_false] at hseg
    rcases hseg with rfl | rfl | rfl
    · exact segment_workers.kept c hc
    · exact kept_of_isPathChar (id.chars c hc)
    · exact segment_connect.kept c hc

/-- What a parser makes of the URL of the HTTP call. -/
theorem parse_apiUrl {r : Rules} (base : BaseUrl r) (id : WorkerId) :
    parse r (apiUrl (normalizeBaseUrl base.url) (connectPath id.text)) =
      some ⟨base.url.scheme, base.url.authority,
        parsePath (trimEndSlashes (mount base.url.path) ++ apiPrefix ++ connectPath id.text),
        none, none⟩ := by
  have hpath := Normal.of_parsePath base.path
  have hscheme : ':' ∉ base.url.scheme := by
    rcases base.scheme with h | h
    · rw [h]
      decide
    · rw [h]
      decide
  have hnormal := (normal_trimEndSlashes (normal_mount hpath)).append normal_apiPrefix
  have hne : trimEndSlashes (mount base.url.path) ++ apiPrefix ≠ [] :=
    List.append_ne_nil_of_right_ne_nil _ (List.cons_ne_nil _ _)
  obtain ⟨t, ht⟩ := hnormal.exists_cons hne
  have hmem : ∀ c ∈ t ++ connectPath id.text, c = '/' ∨ Kept c := by
    intro c hc
    rcases List.mem_append.mp hc with hc | hc
    · exact hnormal.mem (ht ▸ List.mem_cons_of_mem _ hc)
    · exact kept_of_mem_connectPath id hc
  have hmark : ∀ mark, mark ≠ '/' → isEncoded mark = true → mark ∉ t ++ connectPath id.text := by
    intro mark hslash hencoded hc
    rcases hmem mark hc with rfl | hkept
    · exact hslash rfl
    · rw [hkept.2] at hencoded
      cases hencoded
  have htext : apiUrl (normalizeBaseUrl base.url) (connectPath id.text) =
      base.url.scheme ++ "://".toList ++
        (base.url.authority ++ '/' :: (t ++ connectPath id.text)) := by
    have hassoc : ∀ scheme authority mount call : Text,
        scheme ++ (authority ++ mount) ++ apiPrefix ++ call =
          scheme ++ (authority ++ ((mount ++ apiPrefix) ++ call)) := by
      intro scheme authority mount call
      simp only [List.append_assoc]
    rw [apiUrl, normalizeBaseUrl_eq hpath base.host.1 base.host.2, hassoc, ht]
    rfl
  rw [htext, parse_append hscheme base.authority base.host.2 (hmark '?' (by decide) (by decide))
    (hmark '#' (by decide) (by decide)), ht]
  rfl

/-- The two calls go to one URL. -/
theorem agree_iff {r : Rules} (base : BaseUrl r) (id : WorkerId) :
    (∃ connect, buildConnectUrl base.url id.text = .ok connect ∧
        (parse r (apiUrl (normalizeBaseUrl base.url) (connectPath id.text))).map toWebSocket =
          some connect) ↔
      base.url.query = none ∧ base.url.fragment = none ∧ ¬ ['/'] <:+ mount base.url.path := by
  have hmount := normal_mount (Normal.of_parsePath base.path)
  rw [buildConnectUrl_eq base.scheme, parse_apiUrl, ← trimEndSlashes_eq_self_iff, setPath,
    parsePath_call hmount, parsePath_call (normal_trimEndSlashes hmount)]
  constructor
  · rintro ⟨connect, hconnect, heq⟩
    obtain rfl := Except.ok.inj hconnect
    obtain ⟨-, -, hpath, hquery, hfragment⟩ := WebUrl.mk.inj (Option.some.inj heq)
    refine ⟨hquery.symm, hfragment.symm, ?_⟩
    rw [List.append_assoc, List.append_assoc] at hpath
    exact List.append_cancel_right hpath
  · rintro ⟨hquery, hfragment, hpath⟩
    refine ⟨_, rfl, ?_⟩
    rw [hpath, hquery, hfragment]
    rfl

theorem path_toWebSocket_setPath (path : Text) :
    (toWebSocket (setPath url path)).path = parsePath path := by
  simp only [toWebSocket, setPath]

/-- The calls of a base URL that is written in another way. -/
theorem calls_written {r : Rules} (base : BaseUrl r) (withPrefix : Bool) (slashes : ℕ) (id : Text) :
    normalizeBaseUrl (written base.url withPrefix slashes) =
        base.url.scheme ++ "://".toList ++ (base.url.authority ++
          trimEndSlashes (mount (written base.url withPrefix slashes).path)) ∧
      buildConnectUrl (written base.url withPrefix slashes) id =
        .ok (toWebSocket (setPath base.url
          (mount (written base.url withPrefix slashes).path ++ apiPrefix ++ connectPath id))) := by
  have hscheme : (written base.url withPrefix slashes).scheme = "http".toList ∨
      (written base.url withPrefix slashes).scheme = "https".toList := by
    rw [written_scheme]
    exact base.scheme
  have hhost : (written base.url withPrefix slashes).authority ≠ [] ∧
      ∀ c ∈ (written base.url withPrefix slashes).authority, endsAuthority c = false := by
    rw [written_authority]
    exact base.host
  have hnormal := normal_written (Normal.of_parsePath base.path) withPrefix slashes
  rw [normalizeBaseUrl_eq hnormal hhost.1 hhost.2, buildConnectUrl_eq hscheme, written_scheme,
    written_authority, setPath_written]
  exact ⟨rfl, rfl⟩

theorem uniform_iff {r : Rules} (base : BaseUrl r) (id : WorkerId) :
    (∀ withPrefix slashes,
      apiUrl (normalizeBaseUrl (written base.url withPrefix slashes)) (connectPath id.text) =
          apiUrl (normalizeBaseUrl base.url) (connectPath id.text) ∧
        buildConnectUrl (written base.url withPrefix slashes) id.text =
          buildConnectUrl base.url id.text) ↔
      ¬ ['/'] <:+ mount base.url.path ∧ ¬ apiPrefix <:+ mount base.url.path := by
  have hpath := Normal.of_parsePath base.path
  rw [← mount_eq_self_iff]
  constructor
  · intro h
    have hconnect := (h false 0).2
    rw [(calls_written base false 0 id.text).2, buildConnectUrl_eq base.scheme, mount_written,
      if_neg Bool.false_ne_true] at hconnect
    have hsame := congrArg WebUrl.path (Except.ok.inj hconnect)
    rw [path_toWebSocket_setPath, path_toWebSocket_setPath,
      parsePath_call (normal_mount (normal_mount hpath)), parsePath_call (normal_mount hpath),
      List.append_assoc, List.append_assoc] at hsame
    exact List.append_cancel_right hsame
  · intro h withPrefix slashes
    have hsame : mount (written base.url withPrefix slashes).path = mount base.url.path := by
      rw [mount_written, h, ite_self]
    obtain ⟨hnormalize, hconnect⟩ := calls_written base withPrefix slashes id.text
    rw [hnormalize, hconnect, hsame, normalizeBaseUrl_eq hpath base.host.1 base.host.2,
      buildConnectUrl_eq base.scheme]
    exact ⟨rfl, rfl⟩

/-- The session and the HTTP calls reach one studio, however the base URL is written, exactly where
that has no query and no fragment, and its mount ends neither in a slash nor in the prefix. -/
theorem sameStudio_iff (r : Rules) (base : BaseUrl r) (id : WorkerId) :
    SameStudio r base.url id.text ↔
      base.url.query = none ∧ base.url.fragment = none ∧ ¬ ['/'] <:+ mount base.url.path ∧
        ¬ apiPrefix <:+ mount base.url.path := by
  constructor
  · intro h
    obtain ⟨hquery, hfragment, hslash⟩ := (agree_iff base id).mp h.agree
    exact ⟨hquery, hfragment, (uniform_iff base id).mp h.uniform⟩
  · rintro ⟨hquery, hfragment, hmount⟩
    exact ⟨(agree_iff base id).mpr ⟨hquery, hfragment, hmount.1⟩, (uniform_iff base id).mpr hmount⟩

end Calls

/-- Authorities, queries and fragments that are written as a parser leaves them. -/
def asWritten : Rules where
  authority _ authority := if authority = [] then none else some authority
  query t := t
  fragment t := t

def withQuery : BaseUrl asWritten where
  url := ⟨"https".toList, "studio.example".toList, "/".toList, some "team=a".toList, none⟩
  scheme := Or.inr rfl
  authority := by decide
  host := ⟨by decide, List.all_iff_forall_prop.mp (by decide)⟩
  path := by decide

/-- Only the HTTP calls leave the query of the base URL out. -/
theorem buildConnectUrl_keeps_query :
    buildConnectUrl withQuery.url ['w'] =
        .ok ⟨"wss".toList, "studio.example".toList, "/graphics/api/workers/w/connect".toList,
          some "team=a".toList, none⟩ ∧
      apiUrl (normalizeBaseUrl withQuery.url) (connectPath ['w']) =
        "https://studio.example/graphics/api/workers/w/connect".toList ∧
      ¬ SameStudio asWritten withQuery.url ['w'] := by
  refine ⟨?_, by decide +kernel, fun h => ?_⟩
  · rw [buildConnectUrl_eq withQuery.scheme]
    refine congrArg Except.ok ?_
    decide +kernel
  · have hnone := ((agree_iff withQuery ⟨['w'], List.all_eq_true.mp (by decide)⟩).mp h.agree).1
    cases hnone

end StudioWorker.StudioUrl
