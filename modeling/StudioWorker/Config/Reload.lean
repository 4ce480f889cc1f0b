import StudioWorker.Config.File

/-!
# Config.Reload — a config edit and the restart after it

`update_config` assigns the edit to the running config as it came, while a load resolves `~`.  So
a models root that begins with `~` means one directory until the restart and another after it
(`reload_iff`).
-/

namespace StudioWorker

inductive ControlError where
  | rejected (rejection : ConfigRejection)
  | notSaved
deriving DecidableEq

/-- The running config and the file it is kept in. -/
structure Running where
  cfg : Config
  file : ConfigFile

/-- Validate `edit`, save it, then apply it to the running daemon.  Nothing changes when either
fails. -/
def updateConfig (parse : String → Option Url) (written : Bool) (d : Running)
    (edit : EditableConfig) : Except ControlError EditableConfig × Running :=
  match edit.validate parse with
  | .error rejection => (.error (.rejected rejection), d)
  | .ok () =>
    let next := edit.applyTo d.cfg
    match save written next with
    | none => (.error .notSaved, d)
    | some doc => (.ok (.fromConfig next), ⟨next, .doc doc⟩)

variable {parse : String → Option Url} {written : Bool} {d d' : Running}
  {edit answer : EditableConfig}

/-- An accepted edit is running, and saved. -/
theorem updateConfig_ok (h : updateConfig parse written d edit = (.ok answer, d')) :
    ∃ doc, d' = ⟨edit.applyTo d.cfg, .doc doc⟩ ∧ (edit.applyTo d.cfg).toToml = some doc ∧
      edit.validate parse = .ok () := by
  unfold updateConfig at h
  cases hv : edit.validate parse with
  | error rejection =>
    rw [hv] at h
    cases h
  | ok u =>
    rw [hv] at h
    dsimp only at h
    cases hs : save written (edit.applyTo d.cfg) with
    | none =>
      rw [hs] at h
      cases h
    | some doc =>
      rw [hs] at h
      cases h
      unfold save at hs
      split_ifs at hs
      exact ⟨doc, rfl, hs, rfl⟩

/-- A refused edit changes nothing. -/
theorem updateConfig_error {err : ControlError}
    (h : updateConfig parse written d edit = (.error err, d')) : d' = d := by
  unfold updateConfig at h
  split at h
  · cases h
    rfl
  · dsimp only at h
    split at h
    · cases h
      rfl
    · cases h

/-- The file an accepted edit wrote loads, with its models root resolved. -/
theorem load_updated (m : Machine) (w : Bool)
    (h : updateConfig parse written d edit = (.ok answer, d')) :
    load m w d'.file = .ok ({ d'.cfg with modelsRoot := m.expandHome d'.cfg.modelsRoot }, d'.file) := by
  obtain ⟨doc, rfl, hdoc, -⟩ := updateConfig_ok h
  simp only [load, fromToml_toToml m hdoc]

/-- The file an accepted edit wrote loads as the running config exactly when loading leaves the
edited models root alone. -/
theorem reload_iff (m : Machine) (w : Bool)
    (h : updateConfig parse written d edit = (.ok answer, d')) :
    (∃ cfg file, load m w d'.file = .ok (cfg, file) ∧ cfg = d'.cfg) ↔
      ∀ home ∈ m.home, (edit.modelsRoot = "~" → home = "~") ∧
        ∀ rest, edit.modelsRoot = "~/" ++ rest →
          isAbsolute rest = false ∧ (home = "~" ∨ home = "~/") := by
  rw [← expandHomeWith_eq_self_iff, load_updated m w h]
  obtain ⟨doc, rfl, -, -⟩ := updateConfig_ok h
  constructor
  · rintro ⟨cfg, file, hload, hcfg⟩
    cases hload
    exact congrArg Config.modelsRoot hcfg
  · intro hroot
    have hroot : m.expandHome (edit.applyTo d.cfg).modelsRoot = (edit.applyTo d.cfg).modelsRoot :=
      hroot
    exact ⟨_, _, rfl, by rw [hroot]⟩

/-- A worker of the user at `/home/w`. -/
def homed : Machine := ⟨some "/home/w", "/tmp", .finite 0⟩

/-- Every URL parses, as an `https` one with a host. -/
def anyUrl (_ : String) : Option Url := some ⟨"https", true⟩

/-- The Config page of a first launch with its models root changed. -/
def rooted (root : String) : EditableConfig :=
  { EditableConfig.fromConfig (Config.default "/home/w/models") with modelsRoot := root }

/-- The daemon of a first launch. -/
def launched : Running := ⟨Config.default "/home/w/models", .missing⟩

/-- An absolute models root survives the restart. -/
theorem reload_absolute : ∃ cfg file,
    load homed true (updateConfig anyUrl true launched (rooted "/data/models")).2.file =
      .ok (cfg, file) ∧
    cfg = (updateConfig anyUrl true launched (rooted "/data/models")).2.cfg := by
  refine (@reload_iff anyUrl true launched _ (rooted "/data/models") _ homed true rfl).mpr
    fun home _ => ⟨fun h => ?_, fun rest h => ?_⟩
  · exact absurd h (by decide)
  · have := congrArg (fun s => s.toList.head?) h
    simp [rooted, String.toList_append] at this

/-- A models root under `~` is accepted, and is another directory after the restart. -/
theorem tilde_root_moves :
    ¬ ∀ (parse : String → Option Url) (m : Machine) (d d' : Running)
      (edit answer : EditableConfig), updateConfig parse true d edit = (.ok answer, d') →
      ∃ cfg file, load m true d'.file = .ok (cfg, file) ∧ cfg = d'.cfg := by
  intro h
  have hsame := h anyUrl homed launched _ (rooted "~/models") _ rfl
  have hbad := (@reload_iff anyUrl true launched _ (rooted "~/models") _ homed true rfl).mp hsame
    "/home/w" rfl
  exact absurd (hbad.2 "models" rfl).2 (by decide)

end StudioWorker
