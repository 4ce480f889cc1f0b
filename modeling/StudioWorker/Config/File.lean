import StudioWorker.Config.Toml

/-!
# Config.File — loading and saving the config

`load`, `save` and `write_config` of `src/config.rs`.  Loading resolves a leading `~` of
`models_root`; saving writes the config as it is.

* `fromToml_toToml`: a saved config is read back field by field.
* `expandHomeWith_eq_self_iff`: the paths that loading leaves as they are.
-/

namespace StudioWorker

/-! ## Paths -/

/-- `str::strip_prefix` -/
def stripPrefix (pre s : String) : Option String :=
  if pre.toList <+: s.toList then some (String.ofList (s.toList.drop pre.toList.length)) else none

/-- `Path::is_absolute` -/
def isAbsolute (path : String) : Bool := decide (path.toList.head? = some '/')

/-- `Path::join`: an absolute path replaces what it is joined to. -/
def joinPath (base rest : String) : String :=
  if isAbsolute rest then rest
  else if base.toList = [] ∨ base.toList.getLast? = some '/' then base ++ rest
  else base ++ "/" ++ rest

/-- Resolve a leading `~` to the home dir, if there is one. -/
def expandHomeWith (path : String) (home : Option String) : String :=
  if path = "~" then home.getD path
  else match stripPrefix "~/" path, home with
    | some rest, some home => joinPath home rest
    | _, _ => path

/-- What the host of the worker answers: the user's home directory, the directory for temporary
files and the memory of its graphics card. -/
structure Machine where
  home : Option String
  tempDir : String
  detectedVramGb : F32

/-- `models_root_from` -/
def Machine.defaultModelsRoot (m : Machine) : String :=
  match m.home with
  | some home => joinPath home "models"
  | none => joinPath m.tempDir "studio-worker-models"

def Machine.expandHome (m : Machine) (path : String) : String := expandHomeWith path m.home

/-! ## The document of a config -/

/-- `x > y` of two floats: never when either is NaN. -/
def F32.gt : F32 → F32 → Bool
  | .finite x, .finite y => decide (y < x)
  | .finite _, .infinite negative => negative
  | .infinite negative, .finite _ => !negative
  | .infinite negative, .infinite negative' => !negative && negative'
  | _, _ => false

/-- Only lowers the threshold, and only to a card that was found. -/
def clampInitialThreshold (defaultThreshold detectedVram : F32) : F32 :=
  if detectedVram.gt (.finite 0) && defaultThreshold.gt detectedVram then detectedVram
  else defaultThreshold

open TomlDoc in
/-- `toml::to_string_pretty` of a config: its fields, in order. -/
def Config.toToml (cfg : Config) : Option TomlDoc :=
  (unsigned cfg.autoUpdateIntervalSecs.toNat).map fun interval => entries
    [("api_base_url", some (.string cfg.apiBaseUrl)),
     ("worker_id", cfg.workerId.map .string),
     ("auth_token", cfg.authToken.map .string),
     ("vram_threshold_gb", some (.float cfg.vramThresholdGb)),
     ("memory_max_gb", some (.integer cfg.memoryMaxGb.toNat)),
     ("auto_start", some (.boolean cfg.autoStart)),
     ("start_minimised", some (.boolean cfg.startMinimised)),
     ("only_when_idle", some (.boolean cfg.onlyWhenIdle)),
     ("auto_update_enabled", some (.boolean cfg.autoUpdateEnabled)),
     ("auto_update_interval_secs", some interval),
     ("auto_update_feed", some (.string cfg.autoUpdateFeed)),
     ("auto_update_prerelease", some (.boolean cfg.autoUpdatePrerelease)),
     ("models_root", some (.string cfg.modelsRoot)),
     ("ws_reconnect_attempts", cfg.wsReconnectAttempts.map fun n => .integer n.toNat),
     ("local_api_port", cfg.localApiPort.map fun n => .integer n.toNat),
     ("stream_port", cfg.streamPort.map fun n => .integer n.toNat),
     ("local_api_token", cfg.localApiToken.map .string),
     ("install_id", cfg.installId.map .string),
     ("registration_request_id", cfg.registrationRequestId.map .string),
     ("registration_secret", cfg.registrationSecret.map .string)]

open TomlDoc in
/-- `toml::from_str` into a config, with the defaults of its missing fields. -/
def Config.fromToml (m : Machine) (doc : TomlDoc) : Option Config := do
  let dflt := Config.default m.defaultModelsRoot
  let apiBaseUrl ← required asString (doc.lookup "api_base_url")
  let workerId ← absentOk asString (doc.lookup "worker_id")
  let authToken ← absentOk asString (doc.lookup "auth_token")
  let vramThresholdGb ← required asF32 (doc.lookup "vram_threshold_gb")
  let memoryMaxGb ← defaulted asU32 dflt.memoryMaxGb (doc.lookup "memory_max_gb")
  let autoStart ← defaulted asBool dflt.autoStart (doc.lookup "auto_start")
  let startMinimised ← defaulted asBool dflt.startMinimised (doc.lookup "start_minimised")
  let onlyWhenIdle ← defaulted asBool false (doc.lookup "only_when_idle")
  let autoUpdateEnabled ← defaulted asBool dflt.autoUpdateEnabled (doc.lookup "auto_update_enabled")
  let autoUpdateIntervalSecs ←
    defaulted asU64 dflt.autoUpdateIntervalSecs (doc.lookup "auto_update_interval_secs")
  let autoUpdateFeed ← defaulted asString dflt.autoUpdateFeed (doc.lookup "auto_update_feed")
  let autoUpdatePrerelease ← defaulted asBool false (doc.lookup "auto_update_prerelease")
  let modelsRoot ← defaulted asString dflt.modelsRoot (doc.lookup "models_root")
  let wsReconnectAttempts ← absentOk asU32 (doc.lookup "ws_reconnect_attempts")
  let localApiPort ← absentOk asU16 (doc.lookup "local_api_port")
  let streamPort ← absentOk asU16 (doc.lookup "stream_port")
  let localApiToken ← absentOk asString (doc.lookup "local_api_token")
  let installId ← absentOk asString (doc.lookup "install_id")
  let registrationRequestId ← absentOk asString (doc.lookup "registration_request_id")
  let registrationSecret ← absentOk asString (doc.lookup "registration_secret")
  return {
    apiBaseUrl, workerId, authToken, vramThresholdGb, memoryMaxGb, autoStart, startMinimised,
    onlyWhenIdle, autoUpdateEnabled, autoUpdateIntervalSecs, autoUpdateFeed,
    autoUpdatePrerelease, modelsRoot, wsReconnectAttempts, localApiPort, streamPort,
    localApiToken, installId, registrationRequestId, registrationSecret }

/-! ## Load and save -/

/-- What is at the config's path. -/
inductive ConfigFile where
  | missing
  | unreadable
  | malformed
  | doc (doc : TomlDoc)
deriving DecidableEq

inductive LoadError where
  | unreadable
  | malformed
  | notSaved
deriving DecidableEq

/-- Write the config to its path; `written` is whether the disk takes it.  A failure leaves the
file as it was. -/
def save (written : Bool) (cfg : Config) : Option TomlDoc :=
  if written then cfg.toToml else none

/-- The config at the path, the defaults saved there when it is missing. -/
def load (m : Machine) (written : Bool) : ConfigFile → Except LoadError (Config × ConfigFile)
  | .missing =>
    let dflt := Config.default m.defaultModelsRoot
    let cfg := { dflt with
      vramThresholdGb := clampInitialThreshold dflt.vramThresholdGb m.detectedVramGb }
    match save written cfg with
    | some doc => .ok (cfg, .doc doc)
    | none => .error .notSaved
  | .unreadable => .error .unreadable
  | .malformed => .error .malformed
  | .doc doc =>
    match Config.fromToml m doc with
    | some cfg => .ok ({ cfg with modelsRoot := m.expandHome cfg.modelsRoot }, .doc doc)
    | none => .error .malformed

/-! ## The paths that loading leaves alone -/

theorem stripPrefix_eq {pre s rest : String} (h : stripPrefix pre s = some rest) :
    s = pre ++ rest := by
  unfold stripPrefix at h
  split_ifs at h with hp
  obtain ⟨t, ht⟩ := hp
  rw [Option.some.injEq] at h
  rw [← String.toList_inj, String.toList_append, ← h, String.toList_ofList, ← ht,
    List.drop_left]

theorem stripPrefix_append (pre rest : String) : stripPrefix pre (pre ++ rest) = some rest := by
  unfold stripPrefix
  rw [String.toList_append, if_pos (List.prefix_append _ _), List.drop_left, String.ofList_toList]

theorem length_ne_of_append {pre s : String} (h : pre ≠ "") : s ≠ pre ++ s := by
  intro he
  have hlen := congrArg (fun t => t.toList.length) he
  simp only [String.toList_append, List.length_append] at hlen
  have hpos : 0 < pre.toList.length := by
    rw [List.length_pos_iff, ne_eq, ← String.toList_empty, String.toList_inj]
    exact h
  omega

/-- Joining gives `~/rest` back only from a home spelled `~`. -/
theorem joinPath_tilde {base rest : String} :
    joinPath base rest = "~/" ++ rest ↔
      isAbsolute rest = false ∧ (base = "~" ∨ base = "~/") := by
  unfold joinPath
  cases ha : isAbsolute rest with
  | true =>
    simp only [if_true, Bool.true_eq_false, false_and, iff_false]
    exact length_ne_of_append (by decide)
  | false =>
    simp only [Bool.false_eq_true, if_false, true_and]
    by_cases hsep : base.toList = [] ∨ base.toList.getLast? = some '/'
    · rw [if_pos hsep, String.append_left_inj]
      constructor
      · exact .inr
      · rintro (rfl | h)
        · rcases hsep with h | h <;> simp at h
        · exact h
    · have htilde : "~/" = "~" ++ "/" := rfl
      rw [if_neg hsep, String.append_left_inj, htilde, String.append_left_inj]
      constructor
      · exact .inl
      · rintro (h | rfl)
        · exact h
        · exact absurd (.inr rfl) hsep

/-- Loading keeps a path exactly when there is no home directory to resolve `~` to, the path does
not begin with it, or the home directory is itself spelled `~`. -/
theorem expandHomeWith_eq_self_iff (path : String) (home : Option String) :
    expandHomeWith path home = path ↔ ∀ h ∈ home, (path = "~" → h = "~") ∧
      ∀ rest, path = "~/" ++ rest → isAbsolute rest = false ∧ (h = "~" ∨ h = "~/") := by
  unfold expandHomeWith
  cases home with
  | none =>
    simp only [Option.getD_none, Option.not_mem_none, false_implies, implies_true, iff_true]
    split_ifs
    · rfl
    · split
      · rename_i hnone
        cases hnone
      · rfl
  | some h =>
    simp only [Option.mem_def, Option.some.injEq, forall_eq', Option.getD_some]
    by_cases htilde : path = "~"
    · subst htilde
      have hno : ∀ rest, "~" ≠ "~/" ++ rest := by
        intro rest he
        have := congrArg (fun t => t.toList.length) he
        simp [String.toList_append] at this
      rw [if_pos rfl]
      exact ⟨fun he => ⟨fun _ => he, fun rest hr => absurd hr (hno rest)⟩, fun hc => hc.1 rfl⟩
    · rw [if_neg htilde]
      cases hs : stripPrefix "~/" path with
      | none =>
        refine ⟨fun _ => ⟨fun ht => absurd ht htilde, fun rest hr => ?_⟩, fun _ => rfl⟩
        rw [hr, stripPrefix_append] at hs
        cases hs
      | some rest =>
        obtain rfl := stripPrefix_eq hs
        rw [joinPath_tilde]
        refine ⟨fun hc => ⟨fun ht => absurd ht htilde, fun rest' hr => ?_⟩, fun hc => hc.2 rest rfl⟩
        rw [String.append_right_inj] at hr
        exact hr ▸ hc

/-! ## What is saved is read back -/

open TomlDoc in
/-- A saved config is read back field by field. -/
theorem fromToml_toToml (m : Machine) {cfg : Config} {doc : TomlDoc} (h : cfg.toToml = some doc) :
    Config.fromToml m doc = some cfg := by
  obtain ⟨interval, hi, rfl⟩ := Option.map_eq_some_iff.mp h
  obtain rfl : interval = .integer cfg.autoUpdateIntervalSecs.toNat := by
    unfold unsigned at hi
    split_ifs at hi
    exact (Option.some.inj hi).symm
  have hstring : ∀ o : Option String, absentOk asString (o.map .string) = some o :=
    absentOk_map fun _ => rfl
  have hport : ∀ o : Option UInt16, absentOk asU16 (o.map fun n => .integer n.toNat) = some o :=
    absentOk_map asU16_integer
  have hattempts :
      ∀ o : Option UInt32, absentOk asU32 (o.map fun n => .integer n.toNat) = some o :=
    absentOk_map asU32_integer
  simp only [Config.fromToml, lookup_entries_cons, lookup_entries_nil, String.reduceEq, if_true,
    if_false, Option.some_or, Option.or_none, required, defaulted, hstring, hport, hattempts,
    asString, asBool, asF32, asU32_integer, asU64_integer, Option.bind_eq_bind, Option.bind_some,
    Option.pure_def]

end StudioWorker
