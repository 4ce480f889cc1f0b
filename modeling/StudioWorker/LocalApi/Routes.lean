import StudioWorker.CatalogServer
import StudioWorker.Lib.Url

/-!
# LocalApi.Routes — which model a request names

`route` of `local_api.rs` past its gate, and the paths that `DaemonClient` builds.  The router
takes an id out of the path as it stands; the client puts one in as it stands and leaves the rest
to its URL library.

* `endpoint`: the handler a request is routed to, and the id it is given.
* `PlainId`: the ids that mean themselves in a path.
* `addressable_iff`: the models whose requests are routed to them.
-/

namespace StudioWorker.LocalApi

open Text Lib.Url Lib.System

inductive Method where
  | get
  | post
  | put
  | delete
  | other
deriving DecidableEq

inductive VisionRoute where
  | detect
  | classify
  | species
deriving DecidableEq

inductive Endpoint where
  | healthz
  | image
  | chat
  | tokenize
  | tts
  | stt
  | video
  | mesh
  | listModels
  | addModel
  | jobs
  | streamToken
  | voiceSamples (method : Method) (path : Text)
  | wakeWords (method : Method) (path : Text)
  | vision (route : VisionRoute)
  | daemon (method : Method) (url : Text)
  | jobLog (id : Text)
  | jobThumbnail (id : Text)
  | state (id : Text)
  | load (id : Text)
  | unload (id : Text)
  | deleteModel (id : Text)
  | notFound
deriving DecidableEq

/-! ## The router -/

/-- The routes whose path is fixed. -/
def fixedRoutes : List (Method × Text × Endpoint) :=
  [(.get, "/healthz".toList, .healthz), (.post, "/image".toList, .image),
    (.post, "/v1/chat/completions".toList, .chat), (.post, "/tokenize".toList, .tokenize),
    (.post, "/tts".toList, .tts), (.post, "/stt".toList, .stt), (.post, "/video".toList, .video),
    (.post, "/mesh".toList, .mesh), (.get, "/models".toList, .listModels),
    (.post, "/models".toList, .addModel), (.get, "/jobs".toList, .jobs),
    (.post, "/stream-tokens".toList, .streamToken)]

def voiceSampleTokens : Text := "/voice-sample-tokens".toList
def voiceSamples : Text := "/voice-samples".toList
def voiceSamplesPrefix : Text := "/voice-samples/".toList
def wakeWords : Text := "/wake-words".toList
def wakeWordsPrefix : Text := "/wake-words/".toList
def daemonPrefix : Text := "/daemon/".toList
def modelsPrefix : Text := "/models/".toList
def jobsPrefix : Text := "/jobs/".toList

def logSuffix : Text := "/log".toList
def thumbnailSuffix : Text := "/thumbnail".toList
def stateSuffix : Text := "/state".toList
def loadSuffix : Text := "/load".toList
def unloadSuffix : Text := "/unload".toList

/-- `voice_samples::is_route` -/
def isVoiceSamplesRoute (path : Text) : Bool :=
  path == voiceSampleTokens || path == voiceSamples || decide (voiceSamplesPrefix <+: path)

/-- `wake_word::is_route` -/
def isWakeWordRoute (path : Text) : Bool :=
  path == wakeWords || decide (wakeWordsPrefix <+: path)

def visionRoutes : List (Text × VisionRoute) :=
  [("/vision/detect".toList, .detect), ("/vision/classify".toList, .classify),
    ("/vision/species".toList, .species)]

/-- `vision::Route::of` -/
def visionRoute (path : Text) : Option VisionRoute := visionRoutes.lookup path

/-- `<pre><id><suf>`, for a non-empty id without slashes. -/
def idRoute (pre suf path : Text) : Option Text :=
  ((Text.stripPrefix pre path).bind (stripSuffix suf)).filter fun id => id ≠ [] ∧ '/' ∉ id

def lifecycleRoute (path suffix : Text) : Option Text := idRoute modelsPrefix suffix path

def jobRoute (path suffix : Text) : Option Text := idRoute jobsPrefix suffix path

/-- The routes below `/models/`. -/
def modelsEndpoint (method : Method) (path : Text) : Endpoint :=
  match method with
  | .get => ((lifecycleRoute path stateSuffix).map .state).getD .notFound
  | .post =>
    (((lifecycleRoute path loadSuffix).map .load).or
      ((lifecycleRoute path unloadSuffix).map .unload)).getD .notFound
  | .delete =>
    if modelsPrefix <+: path then .deleteModel (trimStartMatches modelsPrefix path) else .notFound
  | .put | .other => .notFound

/-- The routes below `/jobs/`. -/
def jobsEndpoint (method : Method) (path : Text) : Option Endpoint :=
  if method = .get then
    ((jobRoute path logSuffix).map .jobLog).or ((jobRoute path thumbnailSuffix).map .jobThumbnail)
  else none

/-- The handler of a request, in the order the router tries them.  `url` is the target as it was
sent. -/
def endpoint (method : Method) (url : Text) : Endpoint :=
  let path := url.takeWhile (· ≠ '?')
  match fixedRoutes.find? fun r => r.1 = method ∧ r.2.1 = path with
  | some r => r.2.2
  | none =>
    if isVoiceSamplesRoute path then .voiceSamples method path
    else if isWakeWordRoute path then .wakeWords method path
    else
      match if method = .post then visionRoute path else none with
      | some route => .vision route
      | none =>
        if daemonPrefix <+: path then .daemon method url
        else (jobsEndpoint method path).getD (modelsEndpoint method path)

/-! ## Below `/models/` -/

/-- A prefix that parts from `/models/` is no prefix of a path below it. -/
theorem not_prefix_models {pre rest : Text} (h : ¬ pre <+: modelsPrefix)
    (h' : ¬ modelsPrefix <+: pre) : ¬ pre <+: modelsPrefix ++ rest := by
  intro hp
  rcases List.prefix_or_prefix_of_prefix hp (List.prefix_append modelsPrefix rest) with hp | hp
  · exact h hp
  · exact h' hp

theorem ne_models {path rest : Text} (h : ¬ modelsPrefix <+: path) :
    modelsPrefix ++ rest ≠ path := by
  rintro rfl
  exact h (List.prefix_append _ _)

theorem idRoute_none {pre suf path : Text} (h : ¬ pre <+: path) : idRoute pre suf path = none := by
  rw [idRoute, stripPrefix_none.mpr h]
  rfl

theorem idRoute_eq_some {pre suf path id : Text} :
    idRoute pre suf path = some id ↔ path = pre ++ id ++ suf ∧ id ≠ [] ∧ '/' ∉ id := by
  rw [idRoute, Option.filter_eq_some_iff, Option.bind_eq_some_iff]
  simp only [stripPrefix_some, stripSuffix_some, decide_eq_true_eq]
  constructor
  · rintro ⟨⟨r, rfl, rfl⟩, hid⟩
    exact ⟨by rw [List.append_assoc], hid⟩
  · rintro ⟨rfl, hid⟩
    exact ⟨⟨_, by rw [List.append_assoc], rfl⟩, hid⟩

/-- Nothing above the routes of the models takes a path below `/models/`. -/
theorem endpoint_models {method : Method} {rest : Text} (h : '?' ∉ rest) :
    endpoint method (modelsPrefix ++ rest) = modelsEndpoint method (modelsPrefix ++ rest) := by
  have hpath : (modelsPrefix ++ rest).takeWhile (· ≠ '?') = modelsPrefix ++ rest := by
    rw [List.takeWhile_eq_self_iff]
    intro c hc
    rcases List.mem_append.mp hc with hc | hc
    · have hq : '?' ∉ modelsPrefix := by decide
      simpa using fun heq : c = '?' => hq (heq ▸ hc)
    · simpa using fun heq : c = '?' => h (heq ▸ hc)
  have hfixed : fixedRoutes.find? (fun r => r.1 = method ∧ r.2.1 = modelsPrefix ++ rest) = none := by
    rw [List.find?_eq_none]
    intro r hr hmatch
    have hnot : ∀ r ∈ fixedRoutes, ¬ modelsPrefix <+: r.2.1 := by decide
    exact ne_models (hnot r hr) (of_decide_eq_true hmatch).2.symm
  have hvoice : isVoiceSamplesRoute (modelsPrefix ++ rest) = false := by
    have h1 : modelsPrefix ++ rest ≠ voiceSampleTokens := ne_models (by decide)
    have h2 : modelsPrefix ++ rest ≠ voiceSamples := ne_models (by decide)
    have h3 : ¬ voiceSamplesPrefix <+: modelsPrefix ++ rest :=
      not_prefix_models (by decide) (by decide)
    simp [isVoiceSamplesRoute, h1, h2, h3]
  have hwake : isWakeWordRoute (modelsPrefix ++ rest) = false := by
    have h1 : modelsPrefix ++ rest ≠ wakeWords := ne_models (by decide)
    have h2 : ¬ wakeWordsPrefix <+: modelsPrefix ++ rest :=
      not_prefix_models (by decide) (by decide)
    simp [isWakeWordRoute, h1, h2]
  have hvision : visionRoute (modelsPrefix ++ rest) = none := by
    rw [visionRoute, List.lookup_eq_none_iff]
    intro p hp
    have hnot : ∀ p ∈ visionRoutes, ¬ modelsPrefix <+: p.1 := by decide
    simpa using ne_models (hnot p hp)
  have hdaemon : ¬ daemonPrefix <+: modelsPrefix ++ rest :=
    not_prefix_models (by decide) (by decide)
  have hjobs : jobsEndpoint method (modelsPrefix ++ rest) = none := by
    have hnot : ¬ jobsPrefix <+: modelsPrefix ++ rest := not_prefix_models (by decide) (by decide)
    simp [jobsEndpoint, jobRoute, idRoute_none hnot]
  unfold endpoint
  simp only [hpath, hfixed, hvoice, hwake, hvision, hdaemon, hjobs]
  simp

/-! ## The requests for a model -/

/-- What is asked of a model. -/
inductive Verb where
  | state
  | load
  | unload
  | delete
deriving DecidableEq

namespace Verb

def method : Verb → Method
  | state => .get
  | load | unload => .post
  | delete => .delete

/-- What follows the id in the path. -/
def suffix : Verb → Text
  | state => stateSuffix
  | load => loadSuffix
  | unload => unloadSuffix
  | delete => []

/-- The path of a request for a model. -/
def path (v : Verb) (id : Text) : Text := modelsPrefix ++ id ++ v.suffix

/-- The handler that is meant, with the id it is meant to get. -/
def endpoint : Verb → Text → Endpoint
  | state => .state
  | load => .load
  | unload => .unload
  | delete => .deleteModel

end Verb

/-- Every request for the model is routed to it: as the client's URL library sends it, `url` being
the target the library makes of a path, and with the id percent-encoded. -/
def Addressable (url : Text → Text) (id : Text) : Prop :=
  ∀ v : Verb, endpoint v.method (url (v.path id)) = v.endpoint id ∧
    endpoint v.method (v.path (percentEncode id)) = v.endpoint id

/-- An id that means itself in a path. -/
def PlainId (id : Text) : Prop :=
  id ≠ [] ∧ (∀ c ∈ id, Unreserved c) ∧ id ≠ dot ∧ id ≠ dotDot

instance (id : Text) : Decidable (PlainId id) :=
  letI : Decidable (∀ c ∈ id, Unreserved c) := List.decidableBAll _ id
  inferInstanceAs (Decidable (_ ∧ _ ∧ _ ∧ _))

/-- A path of unreserved characters is sent with its dot segments removed, as URL parsers do. -/
def SendsPlainPaths (url : Text → Text) : Prop :=
  ∀ segments : List Text, segments ≠ [] → (∀ seg ∈ segments, ∀ c ∈ seg, Unreserved c) →
    url (Lib.Url.joinPath segments) = Lib.Url.joinPath (removeDotSegments segments)

/-! ## Which models are addressable -/

variable {url : Text → Text} {id : Text}

/-- An id without slashes and question marks is taken out of the path as it was put in. -/
theorem endpoint_path (v : Verb) (hne : id ≠ []) (hslash : '/' ∉ id) (hquery : '?' ∉ id) :
    endpoint v.method (v.path id) = v.endpoint id := by
  have hrest : '?' ∉ id ++ v.suffix := by
    have hsuffix : '?' ∉ v.suffix := by
      cases v <;> decide
    rw [List.mem_append]
    exact fun h => h.elim hquery hsuffix
  have hroute (suf : Text) : lifecycleRoute (modelsPrefix ++ (id ++ suf)) suf = some id :=
    idRoute_eq_some.mpr ⟨by rw [List.append_assoc], hne, hslash⟩
  rw [Verb.path, List.append_assoc, endpoint_models hrest]
  cases v with
  | state =>
    show ((lifecycleRoute _ stateSuffix).map Endpoint.state).getD _ = _
    rw [Verb.suffix, hroute]
    rfl
  | load =>
    show (((lifecycleRoute _ loadSuffix).map Endpoint.load).or _).getD _ = _
    rw [Verb.suffix, hroute]
    rfl
  | unload =>
    -- no path ends in both `/load` and `/unload`
    have hnot : lifecycleRoute (modelsPrefix ++ (id ++ unloadSuffix)) loadSuffix = none := by
      rcases hload : lifecycleRoute (modelsPrefix ++ (id ++ unloadSuffix)) loadSuffix with _ | id'
      · rfl
      · have hpath := (idRoute_eq_some.mp hload).1
        have h1 : loadSuffix <:+ modelsPrefix ++ (id ++ unloadSuffix) :=
          ⟨modelsPrefix ++ id', hpath.symm⟩
        have h2 : unloadSuffix <:+ modelsPrefix ++ (id ++ unloadSuffix) :=
          ⟨modelsPrefix ++ id, by rw [List.append_assoc]⟩
        rcases List.suffix_or_suffix_of_suffix h1 h2 with h | h
        · exact absurd h (by decide)
        · exact absurd h (by decide)
    show (((lifecycleRoute _ loadSuffix).map Endpoint.load).or
      ((lifecycleRoute _ unloadSuffix).map Endpoint.unload)).getD _ = _
    rw [Verb.suffix, hnot, hroute]
    rfl
  | delete =>
    have hpre : ¬ modelsPrefix <+: id := fun h => hslash (h.subset (by decide))
    show modelsEndpoint .delete _ = _
    rw [modelsEndpoint, if_pos (List.prefix_append _ _), Verb.suffix, List.append_nil,
      trimStartMatches_append_of_not (by decide) hpre]
    rfl

/-- The segments of the path of a request for a model. -/
def Verb.segments (id : Text) : Verb → List Text
  | .state => ["models".toList, id, "state".toList]
  | .load => ["models".toList, id, "load".toList]
  | .unload => ["models".toList, id, "unload".toList]
  | .delete => ["models".toList, id]

theorem Verb.path_eq (v : Verb) (id : Text) : v.path id = Lib.Url.joinPath (v.segments id) := by
  have hprefix : modelsPrefix = '/' :: "models".toList ++ ['/'] := by decide
  have hstate : stateSuffix = '/' :: "state".toList := by decide
  have hload : loadSuffix = '/' :: "load".toList := by decide
  have hunload : unloadSuffix = '/' :: "unload".toList := by decide
  cases v <;> simp only [path, segments, Lib.Url.joinPath, suffix, List.flatMap_cons,
    List.flatMap_nil, hprefix, hstate, hload, hunload, List.append_assoc, List.cons_append,
    List.nil_append, List.append_nil]

theorem Verb.forall_segments {P : Text → Prop} (v : Verb) (h1 : P "models".toList)
    (h2 : P "state".toList) (h3 : P "load".toList) (h4 : P "unload".toList) (hid : P id) :
    ∀ seg ∈ v.segments id, P seg := by
  cases v <;> simp only [segments, List.forall_mem_cons]
  · exact ⟨h1, hid, h2, fun _ h => absurd h List.not_mem_nil⟩
  · exact ⟨h1, hid, h3, fun _ h => absurd h List.not_mem_nil⟩
  · exact ⟨h1, hid, h4, fun _ h => absurd h List.not_mem_nil⟩
  · exact ⟨h1, hid, fun _ h => absurd h List.not_mem_nil⟩

/-- What the URL library makes of a path around an unreserved id. -/
theorem url_path (hurl : SendsPlainPaths url) (v : Verb) (hid : ∀ c ∈ id, Unreserved c) :
    url (v.path id) = Lib.Url.joinPath (removeDotSegments (v.segments id)) := by
  rw [v.path_eq]
  refine hurl _ (by cases v <;> simp [Verb.segments]) ?_
  have hword {t : Text} (h : t.all Char.isAlphanum = true) : ∀ c ∈ t, Unreserved c :=
    fun c hc => .inl (List.all_eq_true.mp h c hc)
  exact v.forall_segments (hword (by decide)) (hword (by decide)) (hword (by decide))
    (hword (by decide)) hid

/-- The requests for a model reach it exactly when its id is plain. -/
theorem addressable_iff (hurl : SendsPlainPaths url) : Addressable url id ↔ PlainId id := by
  constructor
  · intro h
    have hne : id ≠ [] := by
      rintro rfl
      exact absurd (h .state).2 (by decide)
    have henc : percentEncode id ≠ [] := fun hnil => by
      have hlen := length_le_percentEncode id
      rw [hnil] at hlen
      exact hne (List.eq_nil_of_length_eq_zero (Nat.le_zero.mp hlen))
    have hchars (c : Char) (hu : ¬ Unreserved c) (hc : c ≠ '%') : c ∉ percentEncode id :=
      fun hmem => (of_mem_percentEncode hmem).elim hu hc
    have hsame := (endpoint_path .state henc (hchars '/' (by decide) (by decide))
      (hchars '?' (by decide) (by decide))).symm.trans (h .state).2
    have hid : ∀ c ∈ id, Unreserved c := percentEncode_eq_self.mp (Endpoint.state.inj hsame)
    refine ⟨hne, hid, ?_, ?_⟩
    · rintro rfl
      have hload := (h .load).1
      rw [url_path hurl .load hid] at hload
      exact absurd hload (by decide)
    · rintro rfl
      have hload := (h .load).1
      rw [url_path hurl .load hid] at hload
      exact absurd hload (by decide)
  · rintro ⟨hne, hid, hdot, hdotDot⟩ v
    have hslash : '/' ∉ id := fun h => absurd (hid _ h) (by decide)
    have hquery : '?' ∉ id := fun h => absurd (hid _ h) (by decide)
    have hsegments : ∀ seg ∈ v.segments id, seg ≠ dot ∧ seg ≠ dotDot :=
      v.forall_segments (by decide) (by decide) (by decide) (by decide) ⟨hdot, hdotDot⟩
    rw [url_path hurl v hid, removeDotSegments_of_plain hsegments, ← v.path_eq,
      percentEncode_eq_self.mpr hid]
    exact ⟨endpoint_path v hne hslash hquery, endpoint_path v hne hslash hquery⟩

/-! ## Over a history of posts -/

variable {F : Type} [Zero F] [DecidableEq F] {s : Serde F} {seeds : Catalog F} {path : Option String}

/-- The requests for every model of a catalogue reach it exactly when the ids it started with and
the ids that were posted are plain. -/
theorem addressable_after_posts (hurl : SendsPlainPaths url)
    (posts : List (Option Lib.Json × Except String Unit)) {srv srv' : CatalogServer F}
    (hr : run (CatalogServer.step s seeds path) srv
      (posts.map fun p => ServerEvent.addModel p.1 p.2) = some srv') :
    (∀ m ∈ srv'.catalog.models, Addressable url m.id.toList) ↔
      (∀ m ∈ srv.catalog.models, PlainId m.id.toList) ∧
        ∀ p ∈ posts, ∀ m ∈ p.1.bind (CatalogModel.deserialize s 0), PlainId m.id.toList := by
  simp only [addressable_iff hurl]
  induction posts generalizing srv with
  | nil =>
    rw [List.map_nil, run_nil, Option.some.injEq] at hr
    subst hr
    simp
  | cons post posts ih =>
    obtain ⟨body, save⟩ := post
    rw [List.map_cons, run_cons] at hr
    have hnext := CatalogServer.handleAddModel_catalog s srv body save
    rw [ih hr, List.forall_mem_cons, ← and_assoc, and_congr_left_iff]
    intro _
    show (∀ m ∈ (CatalogServer.handleAddModel s srv body save).2.catalog.models, _) ↔ _
    rw [hnext]
    rcases body.bind (CatalogModel.deserialize s 0) with _ | model
    · simp
    · simp only [Option.map_some, Option.getD_some, Option.mem_some_iff, forall_eq']
      rw [Catalog.forall_id_upsert (P := fun id => PlainId id.toList), and_comm]

theorem sendsPlainPaths_resolve : SendsPlainPaths resolve := by
  intro segments hne hplain
  refine resolve_joinPath hne fun seg hseg hslash => ?_
  exact absurd (hplain seg hseg _ hslash) (by decide)

/-- The seeds, with a literal for a number. -/
def seeded : CatalogServer ℚ := ⟨Catalog.seed fun q => q, some "models.json", .absent⟩

theorem seeded_plain : ∀ m ∈ seeded.catalog.models, PlainId m.id.toList := by
  decide

open CatalogServer in
theorem addressable_after_post :
    ∃ srv, run (step exactSerde seeded.catalog (some "models.json")) seeded
        ([(some (modelBody "m"), .ok ())].map fun p => ServerEvent.addModel p.1 p.2) = some srv ∧
      ((∀ m ∈ srv.catalog.models, Addressable resolve m.id.toList) ↔
        (∀ m ∈ seeded.catalog.models, PlainId m.id.toList) ∧
          ∀ p ∈ [(some (modelBody "m"), (Except.ok () : Except String Unit))],
            ∀ m ∈ p.1.bind (CatalogModel.deserialize exactSerde 0), PlainId m.id.toList) := by
  refine ⟨_, rfl, ?_⟩
  exact addressable_after_posts sendsPlainPaths_resolve [(some (modelBody "m"), .ok ())] rfl

open CatalogServer in
/-- A model named after a repository is posted, and its state is not found. -/
theorem slash_is_not_addressable :
    ¬ ∀ (url : Text → Text), SendsPlainPaths url →
      ∀ (F : Type) [Zero F] [DecidableEq F] (s : Serde F) (seeds : Catalog F)
        (path : Option String) (posts : List (Option Lib.Json × Except String Unit))
        (srv srv' : CatalogServer F),
      (∀ m ∈ srv.catalog.models, PlainId m.id.toList) →
      run (step s seeds path) srv (posts.map fun p => ServerEvent.addModel p.1 p.2) = some srv' →
      ∀ m ∈ srv'.catalog.models, Addressable url m.id.toList := by
  intro h
  have hall := h resolve sendsPlainPaths_resolve ℚ exactSerde seeded.catalog (some "models.json")
    [(some (modelBody "org/model"), .ok ())] seeded _ seeded_plain rfl
  have hmem : ∃ m ∈ (next exactSerde seeded.catalog (some "models.json") seeded
      (.addModel (some (modelBody "org/model")) (.ok ()))).catalog.models,
      ¬ PlainId m.id.toList := by
    decide
  obtain ⟨m, hm, hnot⟩ := hmem
  exact hnot ((addressable_iff sendsPlainPaths_resolve).mp (hall m hm))

end StudioWorker.LocalApi
