import Mathlib.Algebra.Order.Ring.Rat

/-!
# Config.Model — the persisted config and its editable part

`src/config.rs`, `src/daemon_api.rs` and the range of `src/memory_ceiling.rs`.  Two parties write
the config: the operator the fields of `EditableConfig`, auto-register the fields of
`Registration`; the rest is written by neither while the daemon runs.
-/

namespace StudioWorker

/-- A `f32`: over exact rationals where it is finite. -/
inductive F32 where
  | finite (value : ℚ)
  | infinite (negative : Bool)
  | nan
deriving DecidableEq

def F32.isFinite : F32 → Bool
  | finite _ => true
  | _ => false

/-- `x < 0.0`. -/
def F32.isNegative : F32 → Bool
  | finite value => decide (value < 0)
  | infinite negative => negative
  | nan => false

structure Config where
  apiBaseUrl : String
  workerId : Option String
  authToken : Option String
  vramThresholdGb : F32
  memoryMaxGb : UInt32
  autoStart : Bool
  startMinimised : Bool
  onlyWhenIdle : Bool
  autoUpdateEnabled : Bool
  autoUpdateIntervalSecs : UInt64
  autoUpdateFeed : String
  autoUpdatePrerelease : Bool
  modelsRoot : String
  wsReconnectAttempts : Option UInt32
  localApiPort : Option UInt16
  streamPort : Option UInt16
  localApiToken : Option String
  installId : Option String
  registrationRequestId : Option String
  registrationSecret : Option String
deriving DecidableEq

/-! ## The memory ceiling -/

def defaultMemoryMaxGb : UInt32 := 32
def minMemoryMaxGb : UInt32 := 4
def maxMemoryMaxGb : UInt32 := 1024

/-- A memory ceiling within the accepted range. -/
structure MemoryCeiling where
  maxGb : UInt32
  inRange : minMemoryMaxGb ≤ maxGb ∧ maxGb ≤ maxMemoryMaxGb

/-- A ceiling outside the accepted range. -/
structure OutOfRange where
  got : UInt32

def OutOfRange.message (e : OutOfRange) : String :=
  s!"must be a whole number of GB from {minMemoryMaxGb} to {maxMemoryMaxGb} (got {e.got})"

def MemoryCeiling.new (maxGb : UInt32) : Except OutOfRange MemoryCeiling :=
  if h : minMemoryMaxGb ≤ maxGb ∧ maxGb ≤ maxMemoryMaxGb then .ok ⟨maxGb, h⟩ else .error ⟨maxGb⟩

/-- The config a first launch starts from, its models under `modelsRoot`. -/
def Config.default (modelsRoot : String) : Config where
  apiBaseUrl := "https://studio.minis.gg/"
  workerId := none
  authToken := none
  vramThresholdGb := .finite 12
  memoryMaxGb := defaultMemoryMaxGb
  autoStart := true
  startMinimised := true
  onlyWhenIdle := false
  autoUpdateEnabled := true
  autoUpdateIntervalSecs := 1800
  autoUpdateFeed := "https://api.github.com/repos/webbertakken/studio-worker/releases"
  autoUpdatePrerelease := false
  modelsRoot := modelsRoot
  wsReconnectAttempts := none
  localApiPort := none
  streamPort := none
  localApiToken := none
  installId := none
  registrationRequestId := none
  registrationSecret := none

/-! ## The operator's fields -/

/-- What the Config page shows and `PUT /daemon/config` accepts. -/
structure EditableConfig where
  apiBaseUrl : String
  vramThresholdGb : F32
  memoryMaxGb : UInt32
  autoStart : Bool
  startMinimised : Bool
  onlyWhenIdle : Bool
  autoUpdateEnabled : Bool
  autoUpdateIntervalSecs : UInt64
  autoUpdateFeed : String
  autoUpdatePrerelease : Bool
  modelsRoot : String
deriving DecidableEq

/-- Why `PUT /daemon/config` refused a config. -/
structure ConfigRejection where
  field : String
  problem : String
deriving DecidableEq

def minAutoUpdateIntervalSecs : UInt64 := 60

/-- What `url::Url` says of a URL it parsed. -/
structure Url where
  scheme : String
  hasHost : Bool

/-- `parse` is `url::Url::parse`. -/
def isHttpUrl (parse : String → Option Url) (raw : String) : Bool :=
  (parse raw).any fun u => (u.scheme = "http" || u.scheme = "https") && u.hasHost

namespace EditableConfig

variable {parse : String → Option Url} {e e' : EditableConfig} {cfg : Config}

def fromConfig (cfg : Config) : EditableConfig where
  apiBaseUrl := cfg.apiBaseUrl
  vramThresholdGb := cfg.vramThresholdGb
  memoryMaxGb := cfg.memoryMaxGb
  autoStart := cfg.autoStart
  startMinimised := cfg.startMinimised
  onlyWhenIdle := cfg.onlyWhenIdle
  autoUpdateEnabled := cfg.autoUpdateEnabled
  autoUpdateIntervalSecs := cfg.autoUpdateIntervalSecs
  autoUpdateFeed := cfg.autoUpdateFeed
  autoUpdatePrerelease := cfg.autoUpdatePrerelease
  modelsRoot := cfg.modelsRoot

/-- Write these fields onto `cfg`, leaving every other field alone. -/
def applyTo (e : EditableConfig) (cfg : Config) : Config :=
  { cfg with
    apiBaseUrl := e.apiBaseUrl
    vramThresholdGb := e.vramThresholdGb
    memoryMaxGb := e.memoryMaxGb
    autoStart := e.autoStart
    startMinimised := e.startMinimised
    onlyWhenIdle := e.onlyWhenIdle
    autoUpdateEnabled := e.autoUpdateEnabled
    autoUpdateIntervalSecs := e.autoUpdateIntervalSecs
    autoUpdateFeed := e.autoUpdateFeed
    autoUpdatePrerelease := e.autoUpdatePrerelease
    modelsRoot := e.modelsRoot }

/-- Refuse a field whose value is `bad`. -/
def refuse (bad : Bool) (field problem : String) : Except ConfigRejection Unit :=
  if bad then .error ⟨field, problem⟩ else .ok ()

def refuseCeiling (memoryMaxGb : UInt32) : Except ConfigRejection Unit :=
  match MemoryCeiling.new memoryMaxGb with
  | .error out => .error ⟨"memoryMaxGb", out.message⟩
  | .ok _ => .ok ()

/-- Refuse values the worker cannot run with. -/
def validate (parse : String → Option Url) (e : EditableConfig) :
    Except ConfigRejection Unit := do
  refuse (!isHttpUrl parse e.apiBaseUrl) "apiBaseUrl" "must be an http(s) URL"
  refuse (!e.vramThresholdGb.isFinite || e.vramThresholdGb.isNegative) "vramThresholdGb"
    "must be a number of GB, 0 or more"
  refuseCeiling e.memoryMaxGb
  refuse (e.autoUpdateIntervalSecs < minAutoUpdateIntervalSecs) "autoUpdateIntervalSecs"
    "must be at least 60 seconds"
  refuse (!isHttpUrl parse e.autoUpdateFeed) "autoUpdateFeed" "must be an http(s) URL"
  refuse e.modelsRoot.isEmpty "modelsRoot" "must not be empty"

/-- What `validate` asks of one field, by the field's name on the wire. -/
def fieldOk (parse : String → Option Url) (e : EditableConfig) : String → Bool
  | "apiBaseUrl" => isHttpUrl parse e.apiBaseUrl
  | "vramThresholdGb" => e.vramThresholdGb.isFinite && !e.vramThresholdGb.isNegative
  | "memoryMaxGb" =>
    decide (minMemoryMaxGb ≤ e.memoryMaxGb ∧ e.memoryMaxGb ≤ maxMemoryMaxGb)
  | "autoUpdateIntervalSecs" => decide (minAutoUpdateIntervalSecs ≤ e.autoUpdateIntervalSecs)
  | "autoUpdateFeed" => isHttpUrl parse e.autoUpdateFeed
  | "modelsRoot" => !e.modelsRoot.isEmpty
  | _ => true

theorem refuse_error {bad : Bool} {field problem : String} {r : ConfigRejection}
    (h : refuse bad field problem = .error r) : bad = true ∧ r = ⟨field, problem⟩ := by
  unfold refuse at h
  split_ifs at h with hb
  exact ⟨hb, (Except.error.inj h).symm⟩

theorem refuse_bind_error {bad : Bool} {field problem : String} {r : ConfigRejection}
    {k : Unit → Except ConfigRejection Unit} (h : (refuse bad field problem >>= k) = .error r) :
    (bad = true ∧ r = ⟨field, problem⟩) ∨ k () = .error r := by
  cases bad with
  | true => exact Or.inl ⟨rfl, (Except.error.inj h).symm⟩
  | false => exact Or.inr h

theorem refuse_bind_ok {bad : Bool} {field problem : String}
    {k : Unit → Except ConfigRejection Unit} (h : (refuse bad field problem >>= k) = .ok ()) :
    bad = false ∧ k () = .ok () := by
  cases bad with
  | true => cases h
  | false => exact ⟨rfl, h⟩

/-- The ceiling's check is one more refusal. -/
theorem refuseCeiling_eq (memoryMaxGb : UInt32) :
    refuseCeiling memoryMaxGb =
      refuse (!decide (minMemoryMaxGb ≤ memoryMaxGb ∧ memoryMaxGb ≤ maxMemoryMaxGb)) "memoryMaxGb"
        (OutOfRange.message ⟨memoryMaxGb⟩) := by
  unfold refuseCeiling MemoryCeiling.new
  by_cases h : minMemoryMaxGb ≤ memoryMaxGb ∧ memoryMaxGb ≤ maxMemoryMaxGb
  · rw [dif_pos h, decide_eq_true h]
    rfl
  · rw [dif_neg h, decide_eq_false h]
    rfl

/-- A rejection names a field that fails its own check. -/
theorem validate_error {r : ConfigRejection} (h : e.validate parse = .error r) :
    e.fieldOk parse r.field = false := by
  unfold validate at h
  rw [refuseCeiling_eq] at h
  obtain ⟨hb, rfl⟩ | h := refuse_bind_error h
  · simpa [fieldOk] using hb
  obtain ⟨hb, rfl⟩ | h := refuse_bind_error h
  · simpa [fieldOk, imp_iff_not_or] using hb
  obtain ⟨hb, rfl⟩ | h := refuse_bind_error h
  · rwa [Bool.not_eq_true'] at hb
  obtain ⟨hb, rfl⟩ | h := refuse_bind_error h
  · simpa [fieldOk] using hb
  obtain ⟨hb, rfl⟩ | h := refuse_bind_error h
  · simpa [fieldOk] using hb
  obtain ⟨hb, rfl⟩ := refuse_error h
  simpa [fieldOk] using hb

/-- A config is accepted exactly when every field passes its check. -/
theorem validate_ok_iff : e.validate parse = .ok () ↔ ∀ field, e.fieldOk parse field = true := by
  constructor
  · intro h field
    unfold validate at h
    rw [refuseCeiling_eq] at h
    obtain ⟨h1, h⟩ := refuse_bind_ok h
    obtain ⟨h2, h⟩ := refuse_bind_ok h
    obtain ⟨h3, h⟩ := refuse_bind_ok h
    obtain ⟨h4, h⟩ := refuse_bind_ok h
    obtain ⟨h5, h⟩ := refuse_bind_ok h
    unfold fieldOk
    split
    · simpa using h1
    · simpa using h2
    · simpa using h3
    · simpa using h4
    · simpa using h5
    · unfold refuse at h
      split_ifs at h with h6
      simpa using h6
    · rfl
  · intro h
    cases hv : e.validate parse with
    | error r =>
      have h1 := validate_error hv
      rw [h] at h1
      cases h1
    | ok u => rfl

/-- The config of a first launch may be saved from the Config page as it is. -/
theorem validate_default {modelsRoot : String} (hroot : modelsRoot.isEmpty = false)
    (hurl : isHttpUrl parse (Config.default modelsRoot).apiBaseUrl = true)
    (hfeed : isHttpUrl parse (Config.default modelsRoot).autoUpdateFeed = true) :
    (fromConfig (Config.default modelsRoot)).validate parse = .ok () := by
  rw [validate_ok_iff]
  intro field
  unfold fieldOk
  split
  · exact hurl
  · rfl
  · rfl
  · rfl
  · exact hfeed
  · rw [fromConfig, Config.default, hroot]
    rfl
  · rfl

end EditableConfig

/-! ## Auto-register's fields -/

/-- The fields auto-register owns. -/
structure Registration where
  workerId : Option String
  authToken : Option String
  installId : Option String
  registrationRequestId : Option String
  registrationSecret : Option String
deriving DecidableEq

def Config.registration (cfg : Config) : Registration :=
  ⟨cfg.workerId, cfg.authToken, cfg.installId, cfg.registrationRequestId, cfg.registrationSecret⟩

end StudioWorker
