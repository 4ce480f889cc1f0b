import StudioWorker.Config.Registering
import StudioWorker.Session.Reconnect

/-!
# Config.Serving — registering, serving, registering again (`src/runtime.rs`)

`serve_studio` and the loops it calls, beside the operator's edits.  `ensure_registered` ticks until
the config has credentials, the session loop opens sessions with those it finds there, a revoked
registration is cleared at once, and a rejected one when the operator asks for it.

* `Serving.step`: what the daemon's threads do, one section of the config's lock at a time.
* `granted`: the credentials the studio granted, until they are revoked or cleared.
* `sessions_granted`: the credentials a session is opened with.
-/

namespace StudioWorker

open Lib Lib.System
open Session (LoopState LoopError SessionOutcome SessionSchedule)

/-- The mirror of the registration that the UI reads; when a request was first seen is left out. -/
inductive RegistrationState where
  | pristine
  | pending (requestId : String)
  | approved
  | rejected (reason : String)
deriving DecidableEq

/-- What a tick returns, and whether it wrote it to the mirror. -/
structure TickReturn where
  state : RegistrationState
  mirrored : Bool
deriving DecidableEq

inductive ServeError where
  | notSaved
  | session (error : LoopError)
deriving DecidableEq

/-- Where `serve_studio` is. -/
inductive ServePhase where
  /-- At the head of the loop of `ensure_registered`. -/
  | checking
  | ticking (returned : Option TickReturn)
  /-- At the head of the loop of `spawn_ws_session`. -/
  | looping (maxAttempts : UInt32) (st : LoopState)
  | opening (maxAttempts : UInt32) (st : LoopState)
  | inSession (maxAttempts : UInt32) (st : LoopState)
  /-- `reset_registration` is next. -/
  | clearing
  | saving
  /-- In `wait_for_registration_reset`. -/
  | rejected
  | finished (result : Except ServeError Unit)

structure Serving where
  daemon : ConfigDaemon
  phase : ServePhase
  registration : RegistrationState
  stop : Bool
  resetRequested : Bool

inductive ServeEvent where
  /-- A step of an `update_config` call. -/
  | edits (e : ConfigEvent)
  /-- A step of `tick`. -/
  | ticks (e : ConfigEvent)
  | checks
  | tickReturns
  | looks
  | opens
  | ends (welcomed : Bool) (outcome : Except String SessionOutcome)
  | clears
  | saves (ok : Bool)
  | waits
  | requestsReset
  | stops

def ConfigEvent.ofEdit : ConfigEvent → Bool
  | .updateStarts _ | .updateSaves _ _ | .updateAssigns _ => true
  | _ => false

def ConfigEvent.isSave : ConfigEvent → Bool
  | .tickSaves _ => true
  | _ => false

namespace Config

def credentials (cfg : Config) : Option String × Option String := (cfg.workerId, cfg.authToken)

/-- `has_credentials` -/
def hasCredentials (cfg : Config) : Bool :=
  (cfg.workerId.any fun s => !s.isEmpty) && (cfg.authToken.any fun s => !s.isEmpty)

/-- `DEFAULT_RECONNECT_ATTEMPTS` is 0. -/
def reconnectAttempts (cfg : Config) : UInt32 := cfg.wsReconnectAttempts.getD 0

end Config

/-- What a step of `tick` has it return; it may have a write to save before it does. -/
def ConfigDaemon.tickReturn (d : ConfigDaemon) : ConfigEvent → Option TickReturn
  | .tickStarts => if d.cfg.isRegistered then some ⟨.approved, true⟩ else none
  | .requestEnds none => some ⟨.pristine, false⟩
  | .requestEnds (some requestId) => some ⟨.pending requestId, true⟩
  | .pollFails | .pollEnds (some .pending) =>
    match d.tick with
    | .polling requestId _ => some ⟨.pending requestId, true⟩
    | _ => none
  | .pollEnds none => some ⟨.pristine, true⟩
  | .pollEnds (some (.approved _ _)) => some ⟨.approved, true⟩
  | .pollEnds (some (.rejected reason)) => some ⟨.rejected reason, true⟩
  | _ => none

/-- What follows a pass of the session loop. -/
def ServePhase.after (maxAttempts : UInt32) : Except Session.Exit LoopState → ServePhase
  | .ok st => looping maxAttempts st
  | .error ⟨.ok .stopped, _⟩ => finished (.ok ())
  | .error ⟨.ok .registrationRevoked, _⟩ => clearing
  | .error ⟨.error error, _⟩ => finished (.error (.session error))

def missingCredentials : String := "worker_id or auth_token missing; run register"

namespace Serving

/-- The daemon as it starts, its config loaded from its file. -/
def start (cfg : Config) : Serving :=
  ⟨⟨cfg, some cfg, [], [], .idle⟩, .checking, .pristine, false, false⟩

/-- `ensure_registered` returned `Ready`: the session loop starts. -/
def ready (s : Serving) : ServePhase := .looping s.daemon.cfg.reconnectAttempts .start

def step (parse : String → Option Url) (schedule : SessionSchedule) :
    System Serving ServeEvent
  | s, .edits e =>
    if e.ofEdit then (ConfigDaemon.step parse s.daemon e).map fun d => { s with daemon := d }
    else none
  | s, .ticks e =>
    match s.phase with
    | .ticking returned =>
      if e.ofTick && (returned.isNone || e.isSave) then
        (ConfigDaemon.step parse s.daemon e).map fun d =>
          { s with
            daemon := d
            phase := .ticking (returned <|> s.daemon.tickReturn e) }
      else none
    | _ => none
  | s, .checks =>
    match s.phase with
    | .checking =>
      some { s with
        phase :=
          if s.stop then .finished (.ok ())
          else if s.daemon.cfg.isRegistered then s.ready
          else .ticking none }
    | _ => none
  | s, .tickReturns =>
    match s.phase with
    | .ticking (some returned) =>
      if s.daemon.tick = .idle then
        some { s with
          registration := if returned.mirrored then returned.state else s.registration
          phase :=
            match returned.state with
            | .approved => s.ready
            | .rejected _ => .rejected
            | .pristine | .pending _ => .checking }
      else none
    | _ => none
  | s, .looks =>
    match s.phase with
    | .looping n st =>
      some { s with
        phase :=
          if s.stop then .after n (Session.pass n schedule st .stopSet)
          else if s.daemon.cfg.hasCredentials then .opening n st
          else .after n (Session.pass n schedule st .noCredentials) }
    | _ => none
  | s, .opens =>
    -- the credentials are read once more: an edit may have come between
    match s.phase with
    | .opening n st =>
      some { s with
        phase :=
          if s.daemon.cfg.workerId.getD "" = "" ∨ s.daemon.cfg.authToken.getD "" = "" then
            .after n (Session.pass n schedule st (.session false (.ok (.fatal missingCredentials))))
          else .inSession n st }
    | _ => none
  | s, .ends welcomed outcome =>
    match s.phase with
    | .inSession n st =>
      some { s with phase := .after n (Session.pass n schedule st (.session welcomed outcome)) }
    | _ => none
  | s, .clears =>
    match s.phase with
    | .clearing =>
      (ConfigDaemon.step parse s.daemon .resets).map fun d => { s with daemon := d, phase := .saving }
    | _ => none
  | s, .saves ok =>
    match s.phase with
    | .saving =>
      (ConfigDaemon.step parse s.daemon (.tickSaves ok)).map fun d =>
        if ok then { s with daemon := d, registration := .pristine, phase := .checking }
        else { s with daemon := d, phase := .finished (.error .notSaved) }
    | _ => none
  | s, .waits =>
    match s.phase with
    | .rejected =>
      if s.stop then some { s with phase := .finished (.ok ()) }
      else if s.resetRequested then some { s with resetRequested := false, phase := .clearing }
      else some s
    | _ => none
  | s, .requestsReset =>
    match s.registration with
    | .rejected _ => some { s with resetRequested := true }
    | .pristine | .pending _ | .approved => some s
  | s, .stops => some { s with stop := true }

end Serving

/-! ## What the studio granted -/

/-- What happened to the credentials. -/
inductive ServeMark where
  | approved (workerId authToken : String)
  | opened (workerId authToken : String)
  | revoked
  | requested
  | cleared
deriving DecidableEq

/-- One mark's effect on what is granted. -/
def ServeMark.grant (granted : Option String × Option String) :
    ServeMark → Option String × Option String
  | approved workerId authToken => (some workerId, some authToken)
  | opened _ _ | requested => granted
  | revoked | cleared => (none, none)

/-- The credentials the studio granted last, none once they are revoked or cleared. -/
def granted (start : Option String × Option String) (marks : List ServeMark) :
    Option String × Option String :=
  marks.foldl ServeMark.grant start

namespace Serving

def note (marks : List ServeMark) (s : Serving) : ServeEvent → List ServeMark
  | .ticks (.pollEnds (some (.approved workerId authToken))) =>
    marks ++ [.approved workerId authToken]
  | .opens =>
    if s.daemon.cfg.workerId.getD "" = "" ∨ s.daemon.cfg.authToken.getD "" = "" then marks
    else marks ++ [.opened (s.daemon.cfg.workerId.getD "") (s.daemon.cfg.authToken.getD "")]
  | .ends _ (.ok (.registrationRevoked _)) => marks ++ [.revoked]
  | .clears => marks ++ [.cleared]
  | .requestsReset =>
    match s.registration with
    | .rejected _ => marks ++ [.requested]
    | .pristine | .pending _ | .approved => marks
  | _ => marks

/-- No edit is between its clone and its assignment while the credentials change. -/
def NoEditAcross (s : Serving) : ServeEvent → Prop
  | .ticks (.pollEnds (some (.approved _ _))) | .clears =>
    s.daemon.cloned = [] ∧ s.daemon.saved = []
  | _ => True

instance (s : Serving) (e : ServeEvent) : Decidable (NoEditAcross s e) := by
  unfold NoEditAcross
  split <;> infer_instance

end Serving

/-! ## What a step does to the credentials -/

/-- What a write makes of the credentials. -/
def AutoWrite.grant (credentials : Option String × Option String) :
    AutoWrite → Option String × Option String
  | approve workerId authToken => (some workerId, some authToken)
  | clearRegistration => (none, none)
  | ensureInstallState _ _ | storeSecret _ | storeRequestId _ | dropRequest => credentials

theorem credentials_apply (cfg : Config) (a : AutoWrite) :
    (a.apply cfg).credentials = a.grant cfg.credentials := by
  cases a with
  | ensureInstallState uuid secret =>
    unfold AutoWrite.apply Config.ensureInstallState
    dsimp only
    split_ifs <;> rfl
  | _ => rfl

/-- The config and the edits on their way hold the credentials `c`. -/
def ConfigDaemon.Holds (d : ConfigDaemon) (c : Option String × Option String) : Prop :=
  d.cfg.credentials = c ∧ ∀ u ∈ d.cloned ++ d.saved, u.current.credentials = c

/-- A write that changes the credentials finds no edit on its way, and nothing else changes
them. -/
theorem ConfigDaemon.Holds.change {d d' : ConfigDaemon} {e : ConfigEvent}
    {c c' : Option String × Option String} (h : d.Holds c) (hs : Change d e d')
    (hc : c' = (d.writeOf e).elim c (AutoWrite.grant c))
    (hno : c' ≠ c → d.cloned = [] ∧ d.saved = []) : d'.Holds c' := by
  obtain ⟨hmem, hedits⟩ := h
  cases hs with
  | moves hw hed ht =>
    rw [hw] at hc
    subst hc
    exact ⟨hmem, hedits⟩
  | @writes a t hw hed ht =>
    rw [hw] at hc
    subst hc
    refine ⟨by rw [credentials_apply, hmem]; rfl, fun u hu => ?_⟩
    by_cases hsame : AutoWrite.grant c a = c
    · exact (hedits u hu).trans hsame.symm
    · obtain ⟨hcloned, hsaved⟩ := hno hsame
      rw [hcloned, hsaved] at hu
      cases hu
  | saves he hsnap ht =>
    subst he hc
    exact ⟨hmem, hedits⟩
  | clones he =>
    subst he hc
    refine ⟨hmem, fun u hu => ?_⟩
    simp only [List.mem_append, List.mem_singleton] at hu hedits
    rcases hu with (hu | rfl) | hu
    · exact hedits u (.inl hu)
    · exact hmem
    · exact hedits u (.inr hu)
  | updateSaves he hk =>
    subst he hc
    refine ⟨hmem, fun u hu => ?_⟩
    simp only [List.mem_append, List.mem_singleton] at hu hedits
    rcases hu with hu | hu | rfl
    · exact hedits u (.inl (List.mem_of_mem_eraseIdx hu))
    · exact hedits u (.inr hu)
    · exact hedits u (.inl (Pool.mem_of_getElem? hk))
  | updateFails he hk =>
    subst he hc
    refine ⟨hmem, fun u hu => ?_⟩
    simp only [List.mem_append] at hu hedits
    exact hedits u (hu.imp_left List.mem_of_mem_eraseIdx)
  | assigns he hk =>
    subst he hc
    simp only [List.mem_append] at hedits
    refine ⟨hedits _ (.inr (Pool.mem_of_getElem? hk)), fun u hu => ?_⟩
    exact hedits u ((List.mem_append.mp hu).imp_right List.mem_of_mem_eraseIdx)

/-! ## Marks -/

theorem granted_concat (start : Option String × Option String) (marks : List ServeMark)
    (m : ServeMark) : granted start (marks ++ [m]) = m.grant (granted start marks) := by
  rw [granted, List.foldl_append]
  rfl

/-- Each session was opened with the credentials that were granted. -/
def OpensGranted (start : Option String × Option String) (marks : List ServeMark) : Prop :=
  ∀ before workerId authToken after, marks = before ++ .opened workerId authToken :: after →
    granted start before = (some workerId, some authToken)

theorem OpensGranted.concat {start : Option String × Option String} {marks : List ServeMark}
    {m : ServeMark} (h : OpensGranted start marks)
    (hm : ∀ workerId authToken, m = .opened workerId authToken →
      granted start marks = (some workerId, some authToken)) :
    OpensGranted start (marks ++ [m]) := by
  intro before workerId authToken after heq
  rcases List.eq_nil_or_concat after with rfl | ⟨after, last, rfl⟩
  · obtain ⟨rfl, hlast⟩ := List.append_inj' heq rfl
    exact hm _ _ (List.singleton_inj.mp hlast)
  · rw [List.concat_eq_append, ← List.cons_append, ← List.append_assoc] at heq
    exact h before workerId authToken after (List.append_inj' heq rfl).1

def ServePhase.isClearing : ServePhase → Bool
  | clearing => true
  | checking | ticking _ | looping _ _ | opening _ _ | inSession _ _ | saving | rejected
  | finished _ => false

/-- Only a revoked registration is cleared after a session. -/
theorem isClearing_after (n : UInt32) (schedule : SessionSchedule) (st : LoopState)
    (p : Session.Pass) :
    (ServePhase.after n (Session.pass n schedule st p)).isClearing =
      match p with
      | .session _ (.ok (.registrationRevoked _)) => true
      | _ => false := by
  have hlost : ∀ welcomed,
      (ServePhase.after n (Session.lost n schedule st welcomed)).isClearing = false := by
    intro welcomed
    unfold Session.lost
    dsimp only
    split_ifs <;> rfl
  rcases p with _ | _ | ⟨welcomed, _ | _ | _ | _ | _ | _⟩
  all_goals first | rfl | exact hlost _

namespace Serving

/-- The credentials held are the ones granted, except on the way to being cleared; sessions were
opened with granted ones, and each clearing has its revocation or its request. -/
structure Sound (start : Option String × Option String) (s : Serving × List ServeMark) :
    Prop where
  holds : s.1.phase.isClearing = false → s.1.daemon.Holds (granted start s.2)
  opened : OpensGranted start s.2
  clears : s.2.count .cleared + s.1.phase.isClearing.toNat + s.1.resetRequested.toNat ≤
    s.2.count .revoked + s.2.count .requested

variable {parse : String → Option Url} {schedule : SessionSchedule}
  {start : Option String × Option String} {s s' : Serving} {marks : List ServeMark}
  {e : ServeEvent}

/-- A step that marks nothing, writes no config and does not go on to clear. -/
theorem Sound.move (h : Sound start (s, marks)) {phase : ServePhase}
    {registration : RegistrationState} {stop : Bool} (hfrom : s.phase.isClearing = false)
    (hto : phase.isClearing = false) :
    Sound start (⟨s.daemon, phase, registration, stop, s.resetRequested⟩, marks) where
  holds _ := h.holds hfrom
  opened := h.opened
  clears := by
    have hclears := h.clears
    dsimp only at hclears ⊢
    rwa [hto, ← hfrom]

/-- A step of the config, of an edit or of a tick. -/
theorem Sound.change (h : Sound start (s, marks)) {c : ConfigEvent} {d : ConfigDaemon}
    {phase : ServePhase} {marks' : List ServeMark} (hs : ConfigDaemon.Change s.daemon c d)
    (hphase : phase.isClearing = s.phase.isClearing)
    (hgrant : granted start marks' =
      (s.daemon.writeOf c).elim (granted start marks) (AutoWrite.grant (granted start marks)))
    (hno : granted start marks' ≠ granted start marks → s.daemon.cloned = [] ∧ s.daemon.saved = [])
    (hopened : OpensGranted start marks')
    (hcount : ∀ m, (∀ w t, m ≠ .approved w t) → marks'.count m = marks.count m) :
    Sound start ({ s with daemon := d, phase := phase }, marks') where
  holds hclearing := (h.holds (hphase ▸ hclearing)).change hs hgrant hno
  opened := hopened
  clears := by
    have hclears := h.clears
    dsimp only at hclears ⊢
    rw [hphase, hcount _ (fun _ _ => by simp), hcount _ (fun _ _ => by simp),
      hcount _ (fun _ _ => by simp)]
    exact hclears

theorem sound_ticks {c : ConfigEvent} (h : Sound start (s, marks))
    (hok : NoEditAcross s (.ticks c)) (hs : step parse schedule s (.ticks c) = some s') :
    Sound start (s', note marks s (.ticks c)) := by
  rw [step] at hs
  split at hs
  · rename_i returned hphase
    split_ifs at hs with hguard
    obtain ⟨d, hd, rfl⟩ := Option.map_eq_some_iff.mp hs
    have htick : c.ofTick = true := (Bool.and_eq_true_iff.mp hguard).1
    have hchange := ConfigDaemon.step_change hd
    have hsame : (∀ w t, c ≠ .pollEnds (some (.approved w t))) →
        note marks s (.ticks c) = marks ∧ (s.daemon.writeOf c).elim (granted start marks)
          (AutoWrite.grant (granted start marks)) = granted start marks := by
      intro hne
      cases c with
      | pollEnds answer =>
        rcases answer with _ | _ | _ | _
        · exact ⟨rfl, rfl⟩
        · exact ⟨rfl, rfl⟩
        · exact absurd rfl (hne _ _)
        · exact ⟨rfl, rfl⟩
      | requestEnds answer => cases answer <;> exact ⟨rfl, rfl⟩
      | ensures uuid secret =>
        refine ⟨rfl, ?_⟩
        rw [ConfigDaemon.writeOf]
        split_ifs <;> rfl
      | resets => cases htick
      | _ => exact ⟨rfl, rfl⟩
    by_cases happroved : ∃ w t, c = .pollEnds (some (.approved w t))
    · obtain ⟨w, t, rfl⟩ := happroved
      refine h.change hchange (by rw [hphase]; rfl) (granted_concat ..) (fun _ => hok)
        (h.opened.concat fun _ _ heq => by cases heq) fun m hm => ?_
      rw [note, List.count_append, List.count_singleton, beq_eq_false_iff_ne.mpr]
      · rfl
      · exact (hm w t).symm
    · obtain ⟨hnote, hgrant⟩ := hsame fun w t heq => happroved ⟨w, t, heq⟩
      rw [hnote]
      exact h.change hchange (by rw [hphase]; rfl) hgrant.symm (fun hne => absurd rfl hne) h.opened
        fun _ _ => rfl
  · cases hs

theorem sound_step (h : Sound start (s, marks)) (hok : NoEditAcross s e)
    (hs : step parse schedule s e = some s') : Sound start (s', note marks s e) := by
  cases e with
  | edits c =>
    rw [step] at hs
    split_ifs at hs with hedit
    obtain ⟨d, hd, rfl⟩ := Option.map_eq_some_iff.mp hs
    have hwrite : s.daemon.writeOf c = none := by
      cases c <;> first | rfl | cases hedit
    exact h.change (ConfigDaemon.step_change hd) rfl (by rw [hwrite]; rfl)
      (fun hne => absurd rfl hne) h.opened fun _ _ => rfl
  | ticks c => exact sound_ticks h hok hs
  | checks =>
    rw [step] at hs
    split at hs
    · rename_i hphase
      cases hs
      refine h.move (by rw [hphase]; rfl) ?_
      split_ifs <;> rfl
    · cases hs
  | tickReturns =>
    rw [step] at hs
    split at hs
    · rename_i returned hphase
      by_cases hidle : s.daemon.tick = .idle
      · rw [if_pos hidle] at hs
        cases hs
        refine h.move (by rw [hphase]; rfl) ?_
        cases returned.state <;> rfl
      · rw [if_neg hidle] at hs
        cases hs
    · cases hs
  | looks =>
    rw [step] at hs
    split at hs
    · rename_i n st hphase
      cases hs
      refine h.move (by rw [hphase]; rfl) ?_
      split_ifs
      · rw [isClearing_after]
      · rfl
      · rw [isClearing_after]
    · cases hs
  | opens =>
    rw [step] at hs
    split at hs
    · rename_i n st hphase
      cases hs
      have hfrom : s.phase.isClearing = false := by rw [hphase]; rfl
      rw [note]
      split_ifs with hmissing
      · exact h.move hfrom (by rw [isClearing_after])
      · rw [not_or] at hmissing
        have hheld := (h.holds hfrom).1
        have hmoved : Sound start (⟨s.daemon, .inSession n st, s.registration, s.stop,
            s.resetRequested⟩, marks) := h.move hfrom rfl
        refine ⟨fun hto => ?_, h.opened.concat fun w t heq => ?_, ?_⟩
        · rw [granted_concat]
          exact hmoved.holds hto
        · obtain ⟨rfl, rfl⟩ := ServeMark.opened.inj heq
          rw [← hheld, Config.credentials]
          cases hw : s.daemon.cfg.workerId with
          | none => exact absurd (by rw [hw]; rfl) hmissing.1
          | some w =>
            cases ht : s.daemon.cfg.authToken with
            | none => exact absurd (by rw [ht]; rfl) hmissing.2
            | some t => rfl
        · have hclears := hmoved.clears
          dsimp only at hclears ⊢
          simpa [List.count_append] using hclears
    · cases hs
  | ends welcomed outcome =>
    rw [step] at hs
    split at hs
    · rename_i n st hphase
      cases hs
      have hfrom : s.phase.isClearing = false := by rw [hphase]; rfl
      have hto := isClearing_after n schedule st (.session welcomed outcome)
      by_cases hrevoked : ∃ reason, outcome = .ok (.registrationRevoked reason)
      · obtain ⟨reason, rfl⟩ := hrevoked
        refine ⟨fun hfalse => ?_, h.opened.concat fun _ _ heq => (by cases heq), ?_⟩
        · rw [hto] at hfalse
          cases hfalse
        · have hclears := h.clears
          dsimp only at hclears ⊢
          rw [hfrom] at hclears
          rw [hto, note]
          simp only [List.count_append, List.count_singleton, Bool.toNat_true, Bool.toNat_false,
            beq_self_eq_true, if_true, reduceCtorEq, beq_iff_eq, if_false] at hclears ⊢
          omega
      · have hnote : note marks s (.ends welcomed outcome) = marks := by
          rcases outcome with _ | _ | _ | _ | _ | _
          all_goals first | rfl | exact absurd ⟨_, rfl⟩ hrevoked
        rw [hnote]
        refine h.move hfrom (hto.trans ?_)
        rcases outcome with _ | _ | _ | _ | _ | _
        all_goals first | rfl | exact absurd ⟨_, rfl⟩ hrevoked
    · cases hs
  | clears =>
    rw [step] at hs
    split at hs
    · rename_i hphase
      obtain ⟨d, hd, rfl⟩ := Option.map_eq_some_iff.mp hs
      rw [ConfigDaemon.step] at hd
      split_ifs at hd
      cases hd
      obtain ⟨hcloned, hsaved⟩ := hok
      refine ⟨fun _ => ⟨?_, fun u hu => ?_⟩, h.opened.concat fun _ _ heq => (by cases heq), ?_⟩
      · rw [note, granted_concat]
        rfl
      · have hu : u ∈ s.daemon.cloned ++ s.daemon.saved := hu
        rw [hcloned, hsaved] at hu
        cases hu
      · have hclears := h.clears
        dsimp only at hclears ⊢
        rw [hphase] at hclears
        rw [note]
        simp only [List.count_append, List.count_singleton, ServePhase.isClearing, Bool.toNat_true,
          Bool.toNat_false, beq_self_eq_true, if_true, reduceCtorEq, beq_iff_eq, if_false]
          at hclears ⊢
        omega
    · cases hs
  | saves ok =>
    rw [step] at hs
    split at hs
    · rename_i hphase
      obtain ⟨d, hd, rfl⟩ := Option.map_eq_some_iff.mp hs
      have hchange := ConfigDaemon.step_change hd
      have hnext : ∀ (registration : RegistrationState) (phase : ServePhase),
          phase.isClearing = false →
          Sound start (⟨d, phase, registration, s.stop, s.resetRequested⟩, marks) := by
        intro registration phase hto
        have hsound : Sound start ({ s with daemon := d, phase := phase }, marks) :=
          h.change hchange (by rw [hphase]; exact hto) rfl (fun hne => absurd rfl hne) h.opened
            fun _ _ => rfl
        exact ⟨hsound.holds, hsound.opened, hsound.clears⟩
      cases ok with
      | true => exact hnext _ _ rfl
      | false => exact hnext _ _ rfl
    · cases hs
  | waits =>
    rw [step] at hs
    split at hs
    · rename_i hphase
      have hfrom : s.phase.isClearing = false := by rw [hphase]; rfl
      split_ifs at hs with hstop hreset
      · cases hs
        exact h.move hfrom rfl
      · cases hs
        refine ⟨fun hfalse => (by cases hfalse), h.opened, ?_⟩
        have hclears := h.clears
        dsimp only at hclears ⊢
        rw [hfrom, hreset] at hclears
        exact hclears
      · cases hs
        exact h
    · cases hs
  | requestsReset =>
    rw [step] at hs
    rw [note]
    split at hs
    · rename_i reason hregistration
      cases hs
      refine ⟨fun hto => ?_, h.opened.concat fun _ _ heq => (by cases heq), ?_⟩
      · rw [granted_concat]
        exact h.holds hto
      · have hclears := h.clears
        have hflag : s.resetRequested.toNat ≤ 1 := Bool.toNat_le _
        dsimp only at hclears ⊢
        simp only [List.count_append, List.count_singleton, Bool.toNat_true, beq_self_eq_true,
          if_true, reduceCtorEq, beq_iff_eq, if_false] at hclears ⊢
        omega
    all_goals
      cases hs
      exact h
  | stops =>
    cases hs
    exact ⟨h.holds, h.opened, h.clears⟩

end Serving

/-! ## Whole runs -/

theorem mem_of_granted {workerId authToken : String} (marks : List ServeMark)
    (h : granted (none, none) marks = (some workerId, some authToken)) :
    .approved workerId authToken ∈ marks := by
  induction marks using List.reverseRecOn with
  | nil => cases h
  | append_singleton marks m ih =>
    rw [granted_concat] at h
    rw [List.mem_append, List.mem_singleton]
    cases m with
    | approved w t =>
      obtain ⟨rfl, rfl⟩ : w = workerId ∧ t = authToken := by simpa [ServeMark.grant] using h
      exact .inr rfl
    | opened w t => exact .inl (ih h)
    | requested => exact .inl (ih h)
    | revoked => cases h
    | cleared => cases h

/-- **What a session is opened with**: over any run in which no edit of the config is between its
clone and its assignment while the credentials change, a session is opened with the credentials
the studio granted last, and after they were revoked or cleared only once it has approved a new
request.  Credentials are cleared at most once for each revocation and each reset the operator
asked for while the registration was rejected. -/
theorem sessions_granted (parse : String → Option Url) (schedule : SessionSchedule) (cfg : Config)
    (events : List ServeEvent) (s : Serving × List ServeMark)
    (hrun : run (noting (Serving.step parse schedule) Serving.note) (.start cfg, []) events = some s)
    (hok : Along (Serving.step parse schedule) Serving.NoEditAcross (.start cfg) events) :
    (∀ before workerId authToken after, s.2 = before ++ .opened workerId authToken :: after →
        granted cfg.credentials before = (some workerId, some authToken)) ∧
      (∀ before m between workerId authToken after, m = .revoked ∨ m = .cleared →
        s.2 = before ++ m :: between ++ .opened workerId authToken :: after →
        .approved workerId authToken ∈ between) ∧
      s.2.count .cleared ≤ s.2.count .revoked + s.2.count .requested := by
  have hstart : Serving.Sound cfg.credentials (Serving.start cfg, []) := by
    refine ⟨fun _ => ⟨rfl, fun u hu => absurd hu List.not_mem_nil⟩, fun before _ _ _ h => ?_,
      Nat.le_refl _⟩
    exact absurd h.symm (List.append_ne_nil_of_right_ne_nil before (List.cons_ne_nil _ _))
  have hsound := along_invariant (I := Serving.Sound cfg.credentials)
    (fun s e t hs hok ht => by
      obtain ⟨hstep, hnote⟩ := noting_some.mp ht
      obtain ⟨t, marks⟩ := t
      dsimp only at hstep hnote
      subst hnote
      exact Serving.sound_step hs hok hstep) events _ s hstart hok.noting hrun
  refine ⟨hsound.opened, fun before m between workerId authToken after hm heq => ?_, ?_⟩
  · have hgranted := hsound.opened _ workerId authToken after heq
    have hcleared : granted cfg.credentials (before ++ m :: between) =
        granted (none, none) between := by
      rw [granted, List.foldl_append, List.foldl_cons]
      rcases hm with rfl | rfl <;> rfl
    exact mem_of_granted between (hcleared.symm.trans hgranted)
  · exact Nat.le_trans (Nat.le_trans (Nat.le_add_right _ _) (Nat.le_add_right _ _)) hsound.clears

namespace Serving

/-- A worker that registers, is revoked while it serves and registers again. -/
def registersTwice : List ServeEvent :=
  let registers := fun requestId workerId authToken : String =>
    [ServeEvent.checks, .ticks .tickStarts, .ticks (.ensures "i" "s"), .ticks (.tickSaves true),
      .ticks .branches, .ticks .readsSecret, .ticks (.requestEnds (some requestId)),
      .ticks (.tickSaves true), .tickReturns, .checks, .ticks .tickStarts,
      .ticks (.ensures "i" "s"), .ticks .branches,
      .ticks (.pollEnds (some (.approved workerId authToken))), .ticks (.tickSaves true),
      .tickReturns, .looks, .opens]
  registers "r" "w" "t" ++ [.ends true (.ok (.registrationRevoked "gone")), .clears, .saves true] ++
    registers "r2" "w2" "t2"

end Serving

theorem sessions_granted_twice :
    ∃ s, run (noting (Serving.step (fun _ => none) ⟨1000, 60000⟩) Serving.note)
        (.start (Config.default "models"), []) Serving.registersTwice = some s ∧
      (∀ before workerId authToken after, s.2 = before ++ .opened workerId authToken :: after →
        granted (Config.default "models").credentials before = (some workerId, some authToken)) ∧
      (∀ before m between workerId authToken after, m = .revoked ∨ m = .cleared →
        s.2 = before ++ m :: between ++ .opened workerId authToken :: after →
        .approved workerId authToken ∈ between) ∧
      s.2.count .cleared ≤ s.2.count .revoked + s.2.count .requested :=
  exists_run (P := fun s => .opened "w2" "t2" ∈ s.2) (by decide) fun s hs _ =>
    sessions_granted _ _ _ _ s hs (by decide)

/-- An edit that was cloned before the credentials were cleared brings them back. -/
example :
    let cfg := { Config.default "models" with workerId := some "w", authToken := some "t" }
    (run (noting (Serving.step (fun _ => some ⟨"https", true⟩) ⟨1000, 60000⟩) Serving.note)
        (.start cfg, [])
        [.checks, .looks, .opens, .edits (.updateStarts (EditableConfig.fromConfig cfg)),
          .edits (.updateSaves 0 true), .ends true (.ok (.registrationRevoked "gone")), .clears,
          .saves true, .edits (.updateAssigns 0), .checks, .looks, .opens]).map Prod.snd =
      some [.opened "w" "t", .revoked, .cleared, .opened "w" "t"] := by
  decide

end StudioWorker
