import StudioWorker.Config.Model

/-!
# Config.AutoRegister — what the registration state machine writes

`src/auto_register.rs` and `runtime::reset_registration`.  The state machine has the config's lock
for one write at a time and saves a copy of the config after it has released the lock.

* `AutoWrite`: the writes; `AutoWrite.apply` is what one does to the config it finds.
* `AutoWrite.fields`: the fields it wrote, and `apply_registration`, `apply_editable`: it wrote
  those and no others.
* `TickPhase`: where the loop of `tick` calls is between two of its steps.
-/

namespace StudioWorker

/-- The studio's answer about a registration request. -/
inductive RegisterStatus where
  | pending
  | approved (workerId authToken : String)
  | rejected (reason : String)
deriving DecidableEq

namespace Config

variable (cfg : Config)

/-- Both credentials are there: nothing to register. -/
def isRegistered : Bool := cfg.workerId.isSome && cfg.authToken.isSome

/-- Seed the install id, and the secret of the next request; `true` when the config changed. -/
def ensureInstallState (uuid secret : String) : Config × Bool :=
  let (snap, dirty) :=
    if cfg.installId.isNone then ({ cfg with installId := some uuid }, true) else (cfg, false)
  -- with a request id, the pair that is there is still valid
  if snap.registrationRequestId.isNone && snap.registrationSecret.isNone then
    ({ snap with registrationSecret := some secret }, true)
  else (snap, dirty)

/-- `create_request` found no secret. -/
def storeSecret (secret : String) : Config := { cfg with registrationSecret := some secret }

def storeRequestId (requestId : String) : Config :=
  { cfg with registrationRequestId := some requestId }

def approve (workerId authToken : String) : Config :=
  { cfg with
    workerId := some workerId
    authToken := some authToken
    registrationRequestId := none
    registrationSecret := none }

/-- The studio rejected the request, or no longer knows it. -/
def dropRequest : Config :=
  { cfg with registrationRequestId := none, registrationSecret := none }

def clearRegistration : Config :=
  { cfg with
    workerId := none
    authToken := none
    registrationRequestId := none
    registrationSecret := none
    installId := none }

end Config

/-- A write of the state machine, made while it has the config's lock. -/
inductive AutoWrite where
  | ensureInstallState (uuid secret : String)
  | storeSecret (secret : String)
  | storeRequestId (requestId : String)
  | approve (workerId authToken : String)
  | dropRequest
  | clearRegistration
deriving DecidableEq

/-- For each of auto-register's fields, the value written to it, if one was. -/
structure RegistrationWrite where
  workerId : Option (Option String) := none
  authToken : Option (Option String) := none
  installId : Option (Option String) := none
  registrationRequestId : Option (Option String) := none
  registrationSecret : Option (Option String) := none

/-- The fields after a write: what was written, and elsewhere what was there. -/
def RegistrationWrite.onto (w : RegistrationWrite) (r : Registration) : Registration where
  workerId := w.workerId.getD r.workerId
  authToken := w.authToken.getD r.authToken
  installId := w.installId.getD r.installId
  registrationRequestId := w.registrationRequestId.getD r.registrationRequestId
  registrationSecret := w.registrationSecret.getD r.registrationSecret

namespace AutoWrite

def apply (cfg : Config) : AutoWrite → Config
  | ensureInstallState uuid secret => (cfg.ensureInstallState uuid secret).1
  | storeSecret secret => cfg.storeSecret secret
  | storeRequestId requestId => cfg.storeRequestId requestId
  | approve workerId authToken => cfg.approve workerId authToken
  | dropRequest => cfg.dropRequest
  | clearRegistration => cfg.clearRegistration

/-- The fields a write writes, given the config it finds. -/
def fields (cfg : Config) : AutoWrite → RegistrationWrite
  | ensureInstallState uuid secret =>
    { installId := if cfg.installId.isNone then some (some uuid) else none
      registrationSecret :=
        if cfg.registrationRequestId.isNone && cfg.registrationSecret.isNone then
          some (some secret)
        else none }
  | storeSecret secret => { registrationSecret := some (some secret) }
  | storeRequestId requestId => { registrationRequestId := some (some requestId) }
  | approve workerId authToken =>
    { workerId := some (some workerId)
      authToken := some (some authToken)
      registrationRequestId := some none
      registrationSecret := some none }
  | dropRequest => { registrationRequestId := some none, registrationSecret := some none }
  | clearRegistration => ⟨some none, some none, some none, some none, some none⟩

/-- A write changes the registration in the fields it writes. -/
theorem apply_registration (cfg : Config) (a : AutoWrite) :
    (a.apply cfg).registration = (a.fields cfg).onto cfg.registration := by
  cases a with
  | ensureInstallState uuid secret =>
    unfold apply fields Config.ensureInstallState
    cases hi : cfg.installId <;> cases hr : cfg.registrationRequestId <;>
      cases hs : cfg.registrationSecret <;>
      simp [Config.registration, RegistrationWrite.onto, hi, hr, hs]
  | _ => rfl

/-- A write leaves the operator's fields alone. -/
@[simp] theorem apply_editable (cfg : Config) (a : AutoWrite) :
    EditableConfig.fromConfig (a.apply cfg) = EditableConfig.fromConfig cfg := by
  cases a with
  | ensureInstallState uuid secret =>
    unfold apply Config.ensureInstallState
    dsimp only
    split_ifs <;> rfl
  | _ => rfl

end AutoWrite

/-- Where the loop that calls `tick` is. -/
inductive TickPhase where
  | idle
  /-- Not registered: `ensure_install_state` is next. -/
  | ensuring
  /-- The install state is written and not yet saved. -/
  | savingInstall (snapshot : Config)
  | branching
  /-- In `create_request`, before it reads the secret. -/
  | creating (installId : String)
  | storingSecret (installId : String)
  /-- `register_request` is on its way. -/
  | requesting (installId secret : String)
  /-- `poll_register_status` is on its way. -/
  | polling (requestId secret : String)
  /-- A write at the end of a tick, not yet saved. -/
  | saving (snapshot : Config)
  /-- `reset_registration` has cleared the fields and not yet saved. -/
  | resetting (snapshot : Config)
  /-- A `reset_registration` failed to save, or `tick` found no install id: the loop is over. -/
  | stopped
deriving DecidableEq

namespace TickPhase

/-- The copy of the config the loop has still to save. -/
def snapshot : TickPhase → Option Config
  | savingInstall snapshot | saving snapshot | resetting snapshot => some snapshot
  | _ => none

/-- Where the loop goes once `config::save` has answered. -/
def afterSave (ok : Bool) : TickPhase → TickPhase
  | savingInstall _ => branching
  | saving _ => idle
  | resetting _ => if ok then idle else stopped
  | t => t

/-- The branch of `tick` on what the config holds. -/
def branch (cfg : Config) : TickPhase :=
  match cfg.registrationRequestId, cfg.registrationSecret with
  | some requestId, some secret => polling requestId secret
  | _, _ =>
    match cfg.installId with
    | some installId => creating installId
    | none => stopped

theorem snapshot_branch (cfg : Config) : (branch cfg).snapshot = none := by
  unfold branch
  split
  · rfl
  · split <;> rfl

theorem snapshot_afterSave (t : TickPhase) (ok : Bool) : (t.afterSave ok).snapshot = none := by
  cases t with
  | resetting c => cases ok <;> rfl
  | _ => rfl

end TickPhase

end StudioWorker
