import StudioWorker.Config.AutoRegister
import StudioWorker.Lib.Pool
import StudioWorker.Lib.System

/-!
# Config.Daemon — the shared config, its file and the calls that write them

`DaemonControl::update_config` (`src/control.rs`) and the loop of `tick` calls, interleaved at the
config's lock.  An edit clones the config under the lock, saves the clone with the edit applied
without it, and assigns that clone under the lock again.
-/

namespace StudioWorker

/-- An `update_config` call: the config it cloned and the edit it applies. -/
structure Update where
  current : Config
  edit : EditableConfig
deriving DecidableEq

def Update.next (u : Update) : Config := u.edit.applyTo u.current

/-- An edit saves and assigns its own fields as asked. -/
@[simp] theorem Update.next_editable (u : Update) : EditableConfig.fromConfig u.next = u.edit := rfl

/-- It saves and assigns the registration it cloned. -/
@[simp] theorem Update.next_registration (u : Update) :
    u.next.registration = u.current.registration := rfl

/-- The config in memory, the config its file holds and the calls on their way. -/
structure ConfigDaemon where
  cfg : Config
  file : Option Config
  /-- Edits between their clone and their save. -/
  cloned : List Update
  /-- Edits between their save and their assignment, in the order of their saves. -/
  saved : List Update
  tick : TickPhase
deriving DecidableEq

/-- A step of an edit or of the loop of `tick` calls; a `Bool` is whether a save succeeded. -/
inductive ConfigEvent where
  | updateStarts (edit : EditableConfig)
  | updateSaves (k : ℕ) (ok : Bool)
  | updateAssigns (k : ℕ)
  | tickStarts
  | ensures (uuid secret : String)
  | tickSaves (ok : Bool)
  | branches
  | readsSecret
  | storesSecret (secret : String)
  /-- The studio's request id; `none` when the payload or the request failed. -/
  | requestEnds (answer : Option String)
  | pollFails
  /-- The studio's answer to a poll; `none` when it does not know the request. -/
  | pollEnds (answer : Option RegisterStatus)
  | resets
deriving DecidableEq

namespace ConfigDaemon

variable {parse : String → Option Url} {d d' : ConfigDaemon} {e : ConfigEvent}

/-- A write under the lock, its copy still to be saved. -/
def write (d : ConfigDaemon) (a : AutoWrite) (tick : Config → TickPhase) : ConfigDaemon :=
  { d with cfg := a.apply d.cfg, tick := tick (a.apply d.cfg) }

def step (parse : String → Option Url) (d : ConfigDaemon) : ConfigEvent → Option ConfigDaemon
  | .updateStarts edit =>
    match edit.validate parse with
    | .error _ => some d
    | .ok _ => some { d with cloned := d.cloned ++ [⟨d.cfg, edit⟩] }
  | .updateSaves k ok =>
    d.cloned[k]?.map fun u =>
      if ok then
        { d with cloned := d.cloned.eraseIdx k, saved := d.saved ++ [u], file := some u.next }
      else { d with cloned := d.cloned.eraseIdx k }
  | .updateAssigns k =>
    d.saved[k]?.map fun u => { d with saved := d.saved.eraseIdx k, cfg := u.next }
  | .tickStarts =>
    if d.tick = .idle then
      some (if d.cfg.isRegistered then d else { d with tick := .ensuring })
    else none
  | .ensures uuid secret =>
    if d.tick = .ensuring then
      if (d.cfg.ensureInstallState uuid secret).2 then
        some (d.write (.ensureInstallState uuid secret) .savingInstall)
      else some { d with tick := .branching }
    else none
  | .tickSaves ok =>
    d.tick.snapshot.map fun c =>
      { d with file := if ok then some c else d.file, tick := d.tick.afterSave ok }
  | .branches =>
    if d.tick = .branching then some { d with tick := TickPhase.branch d.cfg } else none
  | .readsSecret =>
    match d.tick with
    | .creating installId =>
      match d.cfg.registrationSecret with
      | some secret => some { d with tick := .requesting installId secret }
      | none => some { d with tick := .storingSecret installId }
    | _ => none
  | .storesSecret secret =>
    match d.tick with
    | .storingSecret installId =>
      some (d.write (.storeSecret secret) fun _ => .requesting installId secret)
    | _ => none
  | .requestEnds answer =>
    match d.tick with
    | .requesting _ _ =>
      match answer with
      | some requestId => some (d.write (.storeRequestId requestId) .saving)
      | none => some { d with tick := .idle }
    | _ => none
  | .pollFails =>
    match d.tick with
    | .polling _ _ => some { d with tick := .idle }
    | _ => none
  | .pollEnds answer =>
    match d.tick with
    | .polling _ _ =>
      match answer with
      | none => some (d.write .dropRequest .saving)
      | some .pending => some { d with tick := .idle }
      | some (.approved workerId authToken) =>
        some (d.write (.approve workerId authToken) .saving)
      | some (.rejected _) => some (d.write .dropRequest .saving)
    | _ => none
  | .resets =>
    if d.tick = .idle then some (d.write .clearRegistration .resetting) else none

/-- The write auto-register makes in a step. -/
def writeOf (d : ConfigDaemon) : ConfigEvent → Option AutoWrite
  | .ensures uuid secret =>
    if (d.cfg.ensureInstallState uuid secret).2 then some (.ensureInstallState uuid secret)
    else none
  | .storesSecret secret => some (.storeSecret secret)
  | .requestEnds (some requestId) => some (.storeRequestId requestId)
  | .pollEnds none => some .dropRequest
  | .pollEnds (some (.approved workerId authToken)) => some (.approve workerId authToken)
  | .pollEnds (some (.rejected _)) => some .dropRequest
  | .resets => some .clearRegistration
  | _ => none

/-- The edit assigned in a step. -/
def editOf (d : ConfigDaemon) : ConfigEvent → Option EditableConfig
  | .updateAssigns k => d.saved[k]?.map Update.edit
  | _ => none

/-- No write is still to be saved and no edit is on its way. -/
structure Settled (d : ConfigDaemon) : Prop where
  cloned : d.cloned = []
  saved : d.saved = []
  tick : d.tick.snapshot = none

/-- What a step does to the config and its file. -/
inductive Change (d : ConfigDaemon) (e : ConfigEvent) : ConfigDaemon → Prop
  /-- The loop moves on and touches neither. -/
  | moves {t : TickPhase} (hw : d.writeOf e = none) (hed : d.editOf e = none)
      (ht : t.snapshot = d.tick.snapshot) :
      Change d e { d with tick := t }
  | writes {a : AutoWrite} {t : TickPhase} (hw : d.writeOf e = some a) (hed : d.editOf e = none)
      (ht : t.snapshot = some (a.apply d.cfg) ∨ ∃ secret, e = .storesSecret secret) :
      Change d e { d with cfg := a.apply d.cfg, tick := t }
  | saves {c : Config} {ok : Bool} {t : TickPhase} (he : e = .tickSaves ok)
      (hc : d.tick.snapshot = some c) (ht : t.snapshot = none) :
      Change d e { d with file := if ok then some c else d.file, tick := t }
  | clones {edit : EditableConfig} (he : e = .updateStarts edit) :
      Change d e { d with cloned := d.cloned ++ [⟨d.cfg, edit⟩] }
  | updateSaves {k : ℕ} {u : Update} (he : e = .updateSaves k true) (hk : d.cloned[k]? = some u) :
      Change d e
        { d with cloned := d.cloned.eraseIdx k, saved := d.saved ++ [u], file := some u.next }
  | updateFails {k : ℕ} {u : Update} (he : e = .updateSaves k false)
      (hk : d.cloned[k]? = some u) : Change d e { d with cloned := d.cloned.eraseIdx k }
  | assigns {k : ℕ} {u : Update} (he : e = .updateAssigns k) (hk : d.saved[k]? = some u) :
      Change d e { d with saved := d.saved.eraseIdx k, cfg := u.next }

/-- A step of the loop that neither writes nor saves. -/
theorem Change.move {t t' : TickPhase} (hw : d.writeOf e = none) (hed : d.editOf e = none)
    (hd : d.tick = t) (ht : t.snapshot = none) (ht' : t'.snapshot = none) :
    Change d e { d with tick := t' } := by
  subst hd
  exact .moves hw hed (ht'.trans ht.symm)

/-- Every step is one of the changes. -/
theorem step_change (hs : step parse d e = some d') : Change d e d' := by
  cases e with
  | updateStarts edit =>
    rw [step] at hs
    split at hs
    · obtain rfl := Option.some.inj hs
      exact .moves rfl rfl rfl
    · obtain rfl := Option.some.inj hs
      exact .clones rfl
  | updateSaves k ok =>
    obtain ⟨u, hk, rfl⟩ := Option.map_eq_some_iff.mp hs
    cases ok with
    | true => exact .updateSaves rfl hk
    | false => exact .updateFails rfl hk
  | updateAssigns k =>
    obtain ⟨u, hk, rfl⟩ := Option.map_eq_some_iff.mp hs
    exact .assigns rfl hk
  | tickStarts =>
    rw [step] at hs
    split_ifs at hs with hd hreg
    · obtain rfl := Option.some.inj hs
      exact .moves rfl rfl rfl
    · obtain rfl := Option.some.inj hs
      exact .move rfl rfl hd rfl rfl
  | ensures uuid secret =>
    rw [step] at hs
    split_ifs at hs with hd hdirty
    · obtain rfl := Option.some.inj hs
      exact .writes (if_pos hdirty) rfl (Or.inl rfl)
    · obtain rfl := Option.some.inj hs
      exact .move (if_neg hdirty) rfl hd rfl rfl
  | tickSaves ok =>
    obtain ⟨c, hc, rfl⟩ := Option.map_eq_some_iff.mp hs
    exact .saves rfl hc (TickPhase.snapshot_afterSave d.tick ok)
  | branches =>
    rw [step] at hs
    split_ifs at hs with hd
    obtain rfl := Option.some.inj hs
    exact .move rfl rfl hd rfl (TickPhase.snapshot_branch d.cfg)
  | readsSecret =>
    rw [step] at hs
    split at hs
    · rename_i hd
      split at hs
      · obtain rfl := Option.some.inj hs
        exact .move rfl rfl hd rfl rfl
      · obtain rfl := Option.some.inj hs
        exact .move rfl rfl hd rfl rfl
    · cases hs
  | storesSecret secret =>
    rw [step] at hs
    split at hs
    · obtain rfl := Option.some.inj hs
      exact .writes rfl rfl (Or.inr ⟨secret, rfl⟩)
    · cases hs
  | requestEnds answer =>
    cases answer with
    | some requestId =>
      rw [step] at hs
      split at hs
      · obtain rfl := Option.some.inj hs
        exact .writes rfl rfl (Or.inl rfl)
      · cases hs
    | none =>
      rw [step] at hs
      split at hs
      · rename_i hd
        obtain rfl := Option.some.inj hs
        exact .move rfl rfl hd rfl rfl
      · cases hs
  | pollFails =>
    rw [step] at hs
    split at hs
    · rename_i hd
      obtain rfl := Option.some.inj hs
      exact .move rfl rfl hd rfl rfl
    · cases hs
  | pollEnds answer =>
    rcases answer with _ | _ | _ | _
    · rw [step] at hs
      split at hs
      · obtain rfl := Option.some.inj hs
        exact .writes rfl rfl (Or.inl rfl)
      · cases hs
    · rw [step] at hs
      split at hs
      · rename_i hd
        obtain rfl := Option.some.inj hs
        exact .move rfl rfl hd rfl rfl
      · cases hs
    · rw [step] at hs
      split at hs
      · obtain rfl := Option.some.inj hs
        exact .writes rfl rfl (Or.inl rfl)
      · cases hs
    · rw [step] at hs
      split at hs
      · obtain rfl := Option.some.inj hs
        exact .writes rfl rfl (Or.inl rfl)
      · cases hs
  | resets =>
    rw [step] at hs
    split_ifs at hs with hd
    obtain rfl := Option.some.inj hs
    exact .writes rfl rfl (Or.inl rfl)

end ConfigDaemon

end StudioWorker
