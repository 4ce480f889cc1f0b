import StudioWorker.Config.Daemon

/-!
# Config.Registering — the registration across failing saves and restarts

Runs of `tick` from a fresh config.  A save may fail and a restart resumes from the config the file
last held, so memory and disk hold different stages of a registration; beside them stands what the
studio was asked and answered.

* `Consistent`: a config with a request id holds the secret whose hash that request carried.
* `Sound`: memory, file and every copy still to be saved are consistent, and the phase of the tick
  agrees with them.
-/

namespace StudioWorker

open Lib Lib.System

/-- A step of a tick, or a restart at any moment. -/
inductive RegistrationEvent where
  | tick (e : ConfigEvent)
  | restart
deriving DecidableEq

/-- The steps of `tick` itself. -/
def ConfigEvent.ofTick : ConfigEvent → Bool
  | .updateStarts _ | .updateSaves _ _ | .updateAssigns _ | .resets => false
  | _ => true

/-- What the studio answered: each request id with the hash its register request carried; and the
calls the present tick has made. -/
structure StudioLog where
  answered : List (String × String)
  calls : ℕ

namespace ConfigDaemon

/-- The worker as it first starts, its config saved. -/
def fresh (cfg : Config) : ConfigDaemon := ⟨cfg, some cfg, [], [], .idle⟩

/-- A tick's step, or the process replaced by one that loads the file. -/
def registrationStep : System ConfigDaemon RegistrationEvent
  | d, .tick e => if e.ofTick then step (fun _ => none) d e else none
  | d, .restart => d.file.map fun c => ⟨c, some c, [], [], .idle⟩

/-- What a step adds to the log: a tick begins, a call is made, a register request is answered. -/
def record (sha256 : String → String) (log : StudioLog) (d : ConfigDaemon) :
    RegistrationEvent → StudioLog
  | .tick .tickStarts => { log with calls := 0 }
  | .tick .branches =>
    match TickPhase.branch d.cfg with
    | .polling _ _ => { log with calls := log.calls + 1 }
    | _ => log
  | .tick .readsSecret =>
    if d.cfg.registrationSecret.isSome then { log with calls := log.calls + 1 } else log
  | .tick (.storesSecret _) => { log with calls := log.calls + 1 }
  | .tick (.requestEnds (some requestId)) =>
    match d.tick with
    | .requesting _ secret => { log with answered := log.answered ++ [(requestId, sha256 secret)] }
    | _ => log
  | _ => log

end ConfigDaemon

/-- The credentials come together, and a request id comes with the secret its request carried the
hash of. -/
structure Config.Consistent (sha256 : String → String) (answered : List (String × String))
    (cfg : Config) : Prop where
  credentials : cfg.workerId.isSome = cfg.authToken.isSome
  request : ∀ requestId, cfg.registrationRequestId = some requestId →
    ∃ secret, cfg.registrationSecret = some secret ∧ (requestId, sha256 secret) ∈ answered

/-- What a phase of the tick relies on. -/
def TickPhase.Agrees (sha256 : String → String) (log : StudioLog) (cfg : Config) :
    TickPhase → Prop
  | .idle | .saving _ | .stopped => log.calls ≤ 1
  | .ensuring | .savingInstall _ | .branching => cfg.isRegistered = false ∧ log.calls = 0
  | .creating _ | .storingSecret _ =>
    cfg.isRegistered = false ∧ log.calls = 0 ∧ cfg.registrationRequestId = none
  | .requesting _ secret =>
    cfg.isRegistered = false ∧ log.calls = 1 ∧ cfg.registrationRequestId = none ∧
      cfg.registrationSecret = some secret
  | .polling requestId secret =>
    cfg.isRegistered = false ∧ log.calls = 1 ∧ (requestId, sha256 secret) ∈ log.answered
  | .resetting _ => False

namespace ConfigDaemon

/-- Memory, disk and the copy on its way between them agree with what the studio answered. -/
structure Sound (sha256 : String → String) (d : ConfigDaemon) (log : StudioLog) : Prop where
  memory : d.cfg.Consistent sha256 log.answered
  file : ∀ c, d.file = some c → c.Consistent sha256 log.answered
  snapshot : ∀ c, d.tick.snapshot = some c → c.Consistent sha256 log.answered
  phase : d.tick.Agrees sha256 log d.cfg

variable {sha256 : String → String} {d d' : ConfigDaemon} {log log' : StudioLog}

theorem Sound.calls_le (h : Sound sha256 d log) : log.calls ≤ 1 := by
  have hp := h.phase
  cases ht : d.tick <;> rw [ht] at hp <;> simp only [TickPhase.Agrees] at hp <;> omega

/-- The tick moves on without a write. -/
theorem Sound.move (h : Sound sha256 d log) {t : TickPhase} (ht : t.snapshot = none)
    (ha : log'.answered = log.answered) (hp : t.Agrees sha256 log' d.cfg) :
    Sound sha256 { d with tick := t } log' where
  memory := ha ▸ h.memory
  file := ha ▸ h.file
  snapshot c hc := by
    rw [ht] at hc
    cases hc
  phase := hp

theorem Consistent.mono {cfg : Config} {answered answered' : List (String × String)}
    (h : cfg.Consistent sha256 answered) (hsub : answered ⊆ answered') :
    cfg.Consistent sha256 answered' where
  credentials := h.credentials
  request r hr := by
    obtain ⟨secret, hs, hm⟩ := h.request r hr
    exact ⟨secret, hs, hsub hm⟩

/-- The tick writes the config and has a copy of it to save, or none. -/
theorem Sound.wrote (h : Sound sha256 d log) {cfg : Config} {t : TickPhase}
    (hsub : log.answered ⊆ log'.answered) (hcfg : cfg.Consistent sha256 log'.answered)
    (ht : t.snapshot = some cfg ∨ t.snapshot = none) (hp : t.Agrees sha256 log' cfg) :
    Sound sha256 { d with cfg := cfg, tick := t } log' where
  memory := hcfg
  file c hc := Consistent.mono (h.file c hc) hsub
  snapshot c hc := by
    rcases ht with ht | ht
    · have hc : t.snapshot = some c := hc
      rw [ht, Option.some.injEq] at hc
      exact hc ▸ hcfg
    · have hc : t.snapshot = some c := hc
      rw [ht] at hc
      cases hc
  phase := hp

/-- Seeding the install state keeps the pairs, and registers nothing. -/
theorem ensured_consistent {cfg : Config} {answered : List (String × String)} (uuid secret : String)
    (h : cfg.Consistent sha256 answered) :
    (cfg.ensureInstallState uuid secret).1.Consistent sha256 answered ∧
      (cfg.ensureInstallState uuid secret).1.isRegistered = cfg.isRegistered := by
  have hreg := AutoWrite.apply_registration cfg (.ensureInstallState uuid secret)
  have hworker : (cfg.ensureInstallState uuid secret).1.workerId = cfg.workerId :=
    congrArg Registration.workerId hreg
  have htoken : (cfg.ensureInstallState uuid secret).1.authToken = cfg.authToken :=
    congrArg Registration.authToken hreg
  have hrid : (cfg.ensureInstallState uuid secret).1.registrationRequestId =
      cfg.registrationRequestId := congrArg Registration.registrationRequestId hreg
  refine ⟨⟨by rw [hworker, htoken, h.credentials], fun r hr => ?_⟩, ?_⟩
  · rw [hrid] at hr
    obtain ⟨s, hs, hm⟩ := h.request r hr
    have hsecret : (cfg.ensureInstallState uuid secret).1.registrationSecret =
        cfg.registrationSecret := by
      refine (congrArg Registration.registrationSecret hreg).trans ?_
      simp [RegistrationWrite.onto, AutoWrite.fields, hr, Config.registration]
    exact ⟨s, hsecret.trans hs, hm⟩
  · rw [Config.isRegistered, Config.isRegistered, hworker, htoken]

/-- One step of a tick. -/
theorem sound_tick {e : ConfigEvent} (h : Sound sha256 d log) (he : e.ofTick = true)
    (hs : step (fun _ => none) d e = some d') :
    Sound sha256 d' (record sha256 log d (.tick e)) := by
  have hp := h.phase
  cases e with
  | updateStarts edit => cases he
  | updateSaves k ok => cases he
  | updateAssigns k => cases he
  | resets => cases he
  | tickStarts =>
    rw [step] at hs
    split_ifs at hs with hd hreg
    · cases hs
      refine ⟨h.memory, h.file, h.snapshot, ?_⟩
      rw [hd]
      exact Nat.zero_le _
    · cases hs
      exact h.move rfl rfl ⟨by simpa using hreg, rfl⟩
  | ensures uuid secret =>
    rw [step] at hs
    split_ifs at hs with hd hdirty
    · cases hs
      obtain ⟨hc, hreg⟩ := ensured_consistent uuid secret h.memory
      rw [hd] at hp
      exact h.wrote (List.Subset.refl _) hc (.inl rfl) ⟨hreg.trans hp.1, hp.2⟩
    · cases hs
      rw [hd] at hp
      exact h.move rfl rfl hp
  | tickSaves ok =>
    obtain ⟨c, hc, rfl⟩ := Option.map_eq_some_iff.mp hs
    refine ⟨h.memory, fun c' hc' => ?_, fun c' hc' => ?_, ?_⟩
    · cases ok with
      | true =>
        have hc' : some c = some c' := hc'
        rw [Option.some.injEq] at hc'
        exact hc' ▸ h.snapshot c hc
      | false => exact h.file c' hc'
    · have hc' : (d.tick.afterSave ok).snapshot = some c' := hc'
      rw [TickPhase.snapshot_afterSave] at hc'
      cases hc'
    · cases ht : d.tick with
      | savingInstall c' =>
        rw [ht] at hp
        exact hp
      | saving c' =>
        rw [ht] at hp
        exact hp
      | resetting c' =>
        rw [ht] at hp
        exact absurd hp id
      | _ =>
        rw [ht] at hc
        cases hc
  | branches =>
    rw [step] at hs
    split_ifs at hs with hd
    cases hs
    rw [hd] at hp
    obtain ⟨hreg, hcalls⟩ := hp
    have hsnap := TickPhase.snapshot_branch d.cfg
    cases hr : d.cfg.registrationRequestId with
    | some requestId =>
      obtain ⟨secret, hsec, hm⟩ := h.memory.request requestId hr
      have hb : TickPhase.branch d.cfg = .polling requestId secret := by
        simp only [TickPhase.branch, hr, hsec]
      refine h.move hsnap ?_ ?_
      · simp only [record, hb]
      · simp only [record, hb]
        exact ⟨hreg, by rw [hcalls], hm⟩
    | none =>
      cases hi : d.cfg.installId with
      | some installId =>
        have hb : TickPhase.branch d.cfg = .creating installId := by
          simp only [TickPhase.branch, hr, hi]
        refine h.move hsnap ?_ ?_
        · simp only [record, hb]
        · simp only [record, hb]
          exact ⟨hreg, hcalls, hr⟩
      | none =>
        have hb : TickPhase.branch d.cfg = .stopped := by
          simp only [TickPhase.branch, hr, hi]
        refine h.move hsnap ?_ ?_
        · simp only [record, hb]
        · simp only [record, hb]
          exact hcalls.trans_le (Nat.zero_le _)
  | readsSecret =>
    rw [step] at hs
    split at hs
    · rename_i installId hd
      rw [hd] at hp
      obtain ⟨hreg, hcalls, hr⟩ := hp
      split at hs
      · rename_i secret hsec
        cases hs
        refine h.move rfl ?_ ?_
        · simp only [record, hsec, Option.isSome_some, if_true]
        · simp only [record, hsec, Option.isSome_some, if_true]
          exact ⟨hreg, by rw [hcalls], hr, hsec⟩
      · rename_i hsec
        cases hs
        refine h.move rfl ?_ ?_
        · simp [record, hsec]
        · simp only [record, hsec, Option.isSome_none, Bool.false_eq_true, if_false]
          exact ⟨hreg, hcalls, hr⟩
    · cases hs
  | storesSecret secret =>
    rw [step] at hs
    split at hs
    · rename_i installId hd
      cases hs
      rw [hd] at hp
      obtain ⟨hreg, hcalls, hr⟩ := hp
      refine h.wrote (List.Subset.refl _) ⟨h.memory.credentials, fun r hr' => ?_⟩ (.inr rfl)
        ⟨hreg, by rw [record, hcalls], hr, rfl⟩
      have hr' : d.cfg.registrationRequestId = some r := hr'
      rw [hr] at hr'
      cases hr'
    · cases hs
  | requestEnds answer =>
    cases answer with
    | none =>
      rw [step] at hs
      split at hs
      · rename_i installId secret hd
        cases hs
        rw [hd] at hp
        exact h.move rfl rfl (Nat.le_of_eq hp.2.1)
      · cases hs
    | some requestId =>
      rw [step] at hs
      split at hs
      · rename_i installId secret hd
        cases hs
        rw [hd] at hp
        obtain ⟨hreg, hcalls, hr, hsec⟩ := hp
        simp only [record, hd]
        refine h.wrote (List.subset_append_left _ _) ⟨h.memory.credentials, fun r hr' => ?_⟩
          (.inl rfl) (Nat.le_of_eq hcalls)
        -- the pair now in memory is the one just answered
        have hr' : some requestId = some r := hr'
        rw [Option.some.injEq] at hr'
        exact ⟨secret, hsec, by rw [← hr']; simp⟩
      · cases hs
  | pollFails =>
    rw [step] at hs
    split at hs
    · rename_i hd
      cases hs
      rw [hd] at hp
      exact h.move rfl rfl (Nat.le_of_eq hp.2.1)
    · cases hs
  | pollEnds answer =>
    have hdrop : d.cfg.dropRequest.Consistent sha256 log.answered :=
      ⟨h.memory.credentials, fun r hr => by cases hr⟩
    cases hd : d.tick with
    | polling requestId secret =>
      rw [hd] at hp
      have hcalls : log.calls ≤ 1 := Nat.le_of_eq hp.2.1
      rcases answer with _ | _ | ⟨workerId, authToken⟩ | reason
      · simp only [step, hd] at hs
        cases hs
        exact h.wrote (List.Subset.refl _) hdrop (.inl rfl) hcalls
      · simp only [step, hd] at hs
        cases hs
        exact h.move rfl rfl hcalls
      · simp only [step, hd] at hs
        cases hs
        exact h.wrote (List.Subset.refl _) ⟨rfl, fun r hr => by cases hr⟩ (.inl rfl) hcalls
      · simp only [step, hd] at hs
        cases hs
        exact h.wrote (List.Subset.refl _) hdrop (.inl rfl) hcalls
    | _ => rcases answer with _ | _ | _ | _ <;> simp [step, hd] at hs

/-- One step of a tick, or a restart. -/
theorem sound_step {e : RegistrationEvent} (h : Sound sha256 d log)
    (hs : registrationStep d e = some d') : Sound sha256 d' (record sha256 log d e) := by
  cases e with
  | tick e =>
    rw [registrationStep] at hs
    split_ifs at hs with he
    exact sound_tick h he hs
  | restart =>
    obtain ⟨c, hc, rfl⟩ := Option.map_eq_some_iff.mp hs
    have hcons := h.file c hc
    refine ⟨hcons, fun c' hc' => ?_, fun c' hc' => ?_, h.calls_le⟩
    · have hc' : some c = some c' := hc'
      rw [Option.some.injEq] at hc'
      exact hc' ▸ hcons
    · cases hc'

theorem sound_fresh {cfg : Config} (h : cfg.registration = ⟨none, none, none, none, none⟩) :
    Sound sha256 (fresh cfg) ⟨[], 0⟩ := by
  have hworker : cfg.workerId = none := congrArg Registration.workerId h
  have htoken : cfg.authToken = none := congrArg Registration.authToken h
  have hrid : cfg.registrationRequestId = none := congrArg Registration.registrationRequestId h
  have hcons : cfg.Consistent sha256 [] := by
    refine ⟨by rw [hworker, htoken], fun r hr => ?_⟩
    rw [hrid] at hr
    cases hr
  refine ⟨hcons, fun c hc => ?_, fun c hc => ?_, Nat.zero_le _⟩
  · have hc : some cfg = some c := hc
    rw [Option.some.injEq] at hc
    exact hc ▸ hcons
  · cases hc

/-! ## What a step clears and sets -/

/-- The request id and the secret are cleared both or neither, and the credentials are kept or both
set. -/
def Together (c c' : Config) : Prop :=
  (c'.registrationRequestId = none ∧ c'.registrationSecret = none ∨
    (c.registrationRequestId.isSome → c'.registrationRequestId.isSome) ∧
      (c.registrationSecret.isSome → c'.registrationSecret.isSome)) ∧
  (c'.workerId = c.workerId ∧ c'.authToken = c.authToken ∨
    c'.workerId.isSome ∧ c'.authToken.isSome)

theorem together_refl (c : Config) : Together c c :=
  ⟨.inr ⟨id, id⟩, .inl ⟨rfl, rfl⟩⟩

theorem together_apply (c : Config) {a : AutoWrite} (ha : a ≠ .clearRegistration) :
    Together c (a.apply c) := by
  cases a with
  | ensureInstallState uuid secret =>
    have hreg := AutoWrite.apply_registration c (.ensureInstallState uuid secret)
    have hrid : _ = c.registrationRequestId := congrArg Registration.registrationRequestId hreg
    have hsecret := congrArg Registration.registrationSecret hreg
    refine ⟨.inr ⟨fun h => ?_, fun h => ?_⟩, .inl ⟨congrArg Registration.workerId hreg,
      congrArg Registration.authToken hreg⟩⟩
    · exact (congrArg Option.isSome hrid).trans h
    · refine (congrArg Option.isSome hsecret).trans ?_
      simp only [RegistrationWrite.onto, AutoWrite.fields]
      split
      · rfl
      · exact h
  | storeSecret secret => exact ⟨.inr ⟨id, fun _ => rfl⟩, .inl ⟨rfl, rfl⟩⟩
  | storeRequestId requestId => exact ⟨.inr ⟨fun _ => rfl, id⟩, .inl ⟨rfl, rfl⟩⟩
  | approve workerId authToken => exact ⟨.inl ⟨rfl, rfl⟩, .inr ⟨rfl, rfl⟩⟩
  | dropRequest => exact ⟨.inl ⟨rfl, rfl⟩, .inl ⟨rfl, rfl⟩⟩
  | clearRegistration => exact absurd rfl ha

theorem writeOf_ofTick {e : ConfigEvent} {a : AutoWrite} (he : e.ofTick = true)
    (hw : d.writeOf e = some a) : a ≠ .clearRegistration := by
  rintro rfl
  cases e with
  | resets => cases he
  | ensures uuid secret =>
    rw [writeOf] at hw
    split_ifs at hw
    cases hw
  | requestEnds answer => cases answer <;> cases hw
  | pollEnds answer => rcases answer with _ | _ | _ | _ <;> cases hw
  | _ => cases hw

theorem tick_together {e : ConfigEvent} (he : e.ofTick = true)
    (hs : step (fun _ => none) d e = some d') : Together d.cfg d'.cfg := by
  cases step_change hs with
  | moves => exact together_refl _
  | writes hw => exact together_apply _ (writeOf_ofTick he hw)
  | saves => exact together_refl _
  | clones h =>
    subst h
    cases he
  | updateSaves h =>
    subst h
    cases he
  | updateFails h =>
    subst h
    cases he
  | assigns h =>
    subst h
    cases he

/-! ## Every run -/

/-- In every run of ticks and restarts from a config with no registration: a poll presents a pair
the studio answered, pairs and credentials move together, a registered worker calls no more, and a
tick calls at most once. -/
theorem registration_run (sha256 : String → String) {cfg : Config}
    (hfresh : cfg.registration = ⟨none, none, none, none, none⟩) {es : List RegistrationEvent}
    (hr : run (System.noting registrationStep (record sha256)) (fresh cfg, ⟨[], 0⟩) es =
      some (d, log)) :
    (∀ requestId secret, d.tick = .polling requestId secret →
      (requestId, sha256 secret) ∈ log.answered) ∧
    (∀ e d', e.ofTick = true → step (fun _ => none) d e = some d' → Together d.cfg d'.cfg) ∧
    (∀ c, c = d.cfg ∨ d.file = some c → c.Consistent sha256 log.answered) ∧
    (d.cfg.isRegistered = true → ∀ installId requestId secret,
      d.tick ≠ .requesting installId secret ∧ d.tick ≠ .polling requestId secret) ∧
    log.calls ≤ 1 := by
  have hsound : Sound sha256 d log := by
    refine run_invariant (I := fun s : ConfigDaemon × StudioLog => Sound sha256 s.1 s.2)
      (fun s e t hi hs => ?_) (s := (fresh cfg, ⟨[], 0⟩)) (t := (d, log)) (sound_fresh hfresh) hr
    obtain ⟨hstep, hnote⟩ := noting_some.mp hs
    rw [hnote]
    exact sound_step hi hstep
  have hp := hsound.phase
  refine ⟨fun requestId secret ht => ?_, fun e d' he hs => tick_together he hs, ?_,
    fun hreg installId requestId secret => ⟨fun ht => ?_, fun ht => ?_⟩, hsound.calls_le⟩
  · rw [ht] at hp
    exact hp.2.2
  · rintro c (rfl | hc)
    · exact hsound.memory
    · exact hsound.file c hc
  · rw [ht] at hp
    rw [hp.1] at hreg
    cases hreg
  · rw [ht] at hp
    rw [hp.1] at hreg
    cases hreg

/-- The request is answered, its save fails, and the worker restarts and asks again. -/
theorem registration_run_restarted :
    ∃ s : ConfigDaemon × StudioLog,
      run (System.noting registrationStep (record fun secret => "sha256 " ++ secret))
        (fresh (Config.default "/models"), ⟨[], 0⟩)
        [.tick .tickStarts, .tick (.ensures "install" "s1"), .tick (.tickSaves true),
          .tick .branches, .tick .readsSecret, .tick (.requestEnds (some "r1")),
          .tick (.tickSaves false), .restart, .tick .tickStarts, .tick (.ensures "x" "s2"),
          .tick .branches, .tick .readsSecret, .tick (.requestEnds (some "r2")),
          .tick (.tickSaves true), .tick .tickStarts, .tick (.ensures "x" "s3"),
          .tick .branches] = some s ∧
      s.1.tick = .polling "r2" "s1" ∧ ("r2", "sha256 s1") ∈ s.2.answered := by
  refine exists_run (P := fun s => s.1.tick = .polling "r2" "s1") (by decide +kernel)
    fun s hr hs => ⟨hs, ?_⟩
  exact (registration_run _ rfl hr).1 "r2" "s1" hs

end ConfigDaemon

end StudioWorker
