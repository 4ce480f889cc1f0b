import Mathlib.Logic.Function.Basic
import StudioWorker.Lib.System
import StudioWorker.Text

/-!
# Torch.Provision — `uv` and the environments (`src/engine/torch/provision.rs`)

An environment is used once its `recipe.json` names its recipe's hash, which is written last; `uv`
once the file beside it names its release.  Both are replaced in place, under one lock, by
provisioners that may fail or be killed anywhere; removing a directory may stop halfway.

* `step`: one step of the provisioner that holds the lock.
* `Safe`: the removals and the stops that leave nothing usable behind.
* `run_ready_whole`: what a marker stands for, over whole histories.
-/

namespace StudioWorker.Torch

open Lib Lib.System

/-! ## Recipes -/

/-- What a recipe says of its steps. -/
structure Recipe where
  name : Text
  torch : List Text
  cuda : Option Text
  noDeps : List Text
  sources : List Text
  builds : List Text
deriving DecidableEq

structure ComputeCapability where
  major : ℕ
  minor : ℕ
deriving DecidableEq

/-- A step of a build once the directory is emptied. -/
inductive BuildStep where
  | venv
  | torch
  | cuda
  | packages
  | noDeps
  | source (name : Text)
  | build (name : Text)
  | imports
deriving DecidableEq

def Recipe.hasTorch (r : Recipe) : Bool := !r.torch.isEmpty

/-- The steps of `build`, in order, from the emptied directory on. -/
def Recipe.steps (r : Recipe) : List BuildStep :=
  [.venv] ++ (if r.hasTorch then [.torch] else []) ++ (if r.cuda.isSome then [.cuda] else []) ++
    [.packages] ++ (if r.noDeps.isEmpty then [] else [.noDeps]) ++ r.sources.map .source ++
    r.builds.map .build ++ [.imports]

/-- A release tarball, checked against its sha256. -/
structure Release where
  url : Text
  sha256 : Text
deriving DecidableEq

inductive UvSource where
  | binary (path : Text)
  | release (release : Release)
deriving DecidableEq

/-- A build: what for. -/
abbrev Target := Recipe × Option ComputeCapability

/-! ## One models root -/

/-- An environment's directory. -/
structure EnvDir (H : Type) where
  /-- `recipe.json`, and the hash it names if it can be read. -/
  marker : Option (Option H)
  /-- Whether its `python` is a file. -/
  python : Bool
  /-- The build that last removed all of it; no one reads it. -/
  emptied : Option Target
  /-- The steps of that build that succeeded; no one reads them. -/
  done : List BuildStep
  /-- Something of it was removed since; no one reads it. -/
  torn : Bool

inductive Phase where
  /-- `ensure_uv` downloads and unpacks the release. -/
  | fetch
  | rename
  | mark
  | clean
  /-- `uv` is there; it installs the interpreter. -/
  | python
  | empty
  /-- What is left to do; then the marker is written. -/
  | build (rest : List BuildStep)
deriving DecidableEq

/-- The provisioner that holds the lock. -/
structure Provisioner where
  target : Target
  uv : UvSource
  phase : Phase
deriving DecidableEq

/-- A models root: its environments by their recipes' names, `bin/uv` and the release its archive
was, the file beside it, and the provisioner that holds the lock. -/
structure Root (H : Type) where
  envs : Text → EnvDir H
  uv : Option Release
  release : Option Text
  holder : Option Provisioner

inductive ProvisionEvent where
  /-- `ensure` takes the lock; `tools`: every tool is on the `PATH`. -/
  | start (target : Target) (uv : UvSource) (tools : Bool)
  | fetched
  | renamed
  /-- A part of the url is written beside the binary. -/
  | scribbled (length : ℕ)
  | marked
  | cleaned
  | interpreterInstalled
  /-- Something of the directory is removed; whether these two are left. -/
  | removed (marker python : Bool)
  | emptied
  /-- The step in progress did something. -/
  | worked (python : Bool)
  | stepped (python : Bool)
  /-- A part of the marker is written. -/
  | markerBegun
  | finished
  /-- It failed, or was killed. -/
  | stop

variable {H : Type}

namespace EnvDir

def new : EnvDir H := ⟨none, false, none, [], false⟩

/-- The hash its marker names. -/
def hash? (d : EnvDir H) : Option H := d.marker.join

end EnvDir

namespace Root

def new : Root H := ⟨fun _ => .new, none, none, none⟩

/-- The directory of a target. -/
def env (s : Root H) (t : Target) : EnvDir H := s.envs t.1.name

def setEnv (s : Root H) (t : Target) (d : EnvDir H) : Root H :=
  { s with envs := Function.update s.envs t.1.name d }

variable (hash : Target → H)

/-- `is_ready` -/
def IsReady (s : Root H) (t : Target) : Prop :=
  (s.env t).hash? = some (hash t) ∧ (s.env t).python = true

instance [DecidableEq H] (s : Root H) (t : Target) : Decidable (s.IsReady hash t) :=
  inferInstanceAs (Decidable (_ ∧ _))

/-- The provisioner goes on. -/
def go (s : Root H) (p : Provisioner) (phase : Phase) : Root H :=
  { s with holder := some { p with phase } }

variable [DecidableEq H]

/-- `ensure` before its build: `ensure_uv` looks for the binary and its marker. -/
def start (s : Root H) (t : Target) (uv : UvSource) (tools : Bool) : Root H :=
  if s.IsReady hash t ∨ tools = false then s
  else
    match uv with
    | .binary _ => { s with holder := some ⟨t, uv, .python⟩ }
    | .release r =>
      if s.uv.isSome ∧ s.release = some r.url then { s with holder := some ⟨t, uv, .python⟩ }
      else { s with holder := some ⟨t, uv, .fetch⟩ }

/-- One step of the provisioner that holds the lock. -/
def advance (s : Root H) (p : Provisioner) : ProvisionEvent → Option (Root H)
  | .start .. => none
  | .fetched => if p.phase = .fetch then some (s.go p .rename) else none
  | .renamed =>
    match p.phase, p.uv with
    | .rename, .release r => some { s.go p .mark with uv := some r }
    | _, _ => none
  | .scribbled length =>
    match p.phase, p.uv with
    | .mark, .release r => some { s with release := some (r.url.take length) }
    | _, _ => none
  | .marked =>
    match p.phase, p.uv with
    | .mark, .release r => some { s.go p .clean with release := some r.url }
    | _, _ => none
  | .cleaned => if p.phase = .clean then some (s.go p .python) else none
  | .interpreterInstalled => if p.phase = .python then some (s.go p .empty) else none
  | .removed marker python =>
    let d := s.env p.target
    if p.phase = .empty then
      some (s.setEnv p.target { d with
        marker := if marker then d.marker else none
        python := d.python && python
        torn := true })
    else none
  | .emptied =>
    if p.phase = .empty then
      some ((s.setEnv p.target ⟨none, false, some p.target, [], false⟩).go p
        (.build p.target.1.steps))
    else none
  | .worked python =>
    match p.phase with
    | .build (_ :: _) => some (s.setEnv p.target { s.env p.target with python })
    | _ => none
  | .stepped python =>
    let d := s.env p.target
    match p.phase with
    | .build (b :: rest) =>
      some ((s.setEnv p.target { d with python, done := d.done ++ [b] }).go p (.build rest))
    | _ => none
  | .markerBegun =>
    match p.phase with
    | .build [] => some (s.setEnv p.target { s.env p.target with marker := some none })
    | _ => none
  | .finished =>
    match p.phase with
    | .build [] =>
      some { s.setEnv p.target { s.env p.target with marker := some (some (hash p.target)) } with
        holder := none }
    | _ => none
  | .stop => some { s with holder := none }

def step (s : Root H) (e : ProvisionEvent) : Option (Root H) :=
  match s.holder, e with
  | none, .start t uv tools => some (s.start hash t uv tools)
  | some p, e => s.advance hash p e
  | none, _ => none

end Root

/-! ## What a marker stands for -/

variable (hash : Target → H)

/-- The directory was last emptied by a build of that hash, and all its steps succeeded. -/
def EnvDir.Built (d : EnvDir H) (h : H) : Prop :=
  ∃ t ∈ d.emptied, hash t = h ∧ d.done = t.1.steps

/-- Its marker names no other build. -/
def EnvDir.Sound (d : EnvDir H) : Prop := ∀ h, d.hash? = some h → d.Built hash h

/-- Nothing of it was removed since. -/
def EnvDir.Whole (d : EnvDir H) (h : H) : Prop := d.Built hash h ∧ d.torn = false

/-- What is left of it after a removal is not usable. -/
def EnvDir.Inert (d : EnvDir H) : Prop := d.torn = true → d.hash? = none ∨ d.python = false

/-- `ensure_uv` returned. -/
def Phase.returned : Phase → Bool
  | .python | .empty | .build _ => true
  | _ => false

/-- The binary is in place. -/
def Phase.placed : Phase → Bool
  | .fetch | .rename => false
  | _ => true

/-- Where `ensure_uv` returned for a release, the binary came from its archive. -/
def Root.Returned (s : Root H) : Prop :=
  ∀ p ∈ s.holder, p.phase.returned = true → ∀ r, p.uv = .release r → s.uv = some r

/-- A removal that stops leaves no usable environment, and a stop leaves no binary beside the url
of another release that is wanted. -/
def Root.Safe (wanted : List Release) (s : Root H) : ProvisionEvent → Prop
  | .start _ (.release r) _ => r ∈ wanted
  | .removed marker python => ∀ p ∈ s.holder, marker = true → python = true →
      (s.env p.target).python = true → (s.env p.target).hash? = none
  | .stop => ∀ p ∈ s.holder, p.phase = .mark → ∀ m ∈ s.release, ∀ r ∈ wanted, r.url = m →
      p.uv = .release r
  | _ => True

variable {hash} {s s' : Root H} {p : Provisioner} {t : Target} {d : EnvDir H} {e : ProvisionEvent}

namespace Root

/-- A directory that is set is the only one that changes. -/
theorem forall_setEnv {P : EnvDir H → Prop} (h : ∀ n, P (s.envs n)) (hd : P d) :
    ∀ n, P ((s.setEnv t d).envs n) := by
  intro n
  by_cases hn : n = t.1.name
  · rw [hn]
    change P (Function.update s.envs t.1.name d t.1.name)
    rw [Function.update_self]
    exact hd
  · change P (Function.update s.envs t.1.name d n)
    rw [Function.update_of_ne hn]
    exact h n

@[simp] theorem env_setEnv (s : Root H) (t : Target) (d : EnvDir H) : (s.setEnv t d).env t = d :=
  Function.update_self ..

/-- The directory of a build in progress: emptied for it, without a usable marker. -/
structure Building (d : EnvDir H) (t : Target) (rest : List BuildStep) : Prop where
  unmarked : d.hash? = none
  emptied : d.emptied = some t
  steps : d.done ++ rest = t.1.steps
  untorn : d.torn = false

/-- What every run keeps of the environments. -/
structure Kept (hash : Target → H) (s : Root H) : Prop where
  sound : ∀ n, (s.envs n).Sound hash
  building : ∀ p ∈ s.holder, ∀ rest, p.phase = .build rest → Building (s.env p.target) p.target rest

theorem Kept.new : Kept hash (Root.new : Root H) where
  sound _ _ h := by cases h
  building _ h := by cases h

/-- A step that touches no directory and is not a build's. -/
theorem Kept.same (h : Kept hash s) (henvs : s'.envs = s.envs)
    (hrun : ∀ p ∈ s'.holder, ∀ rest, p.phase ≠ .build rest) : Kept hash s' where
  sound := by
    rw [henvs]
    exact h.sound
  building p hp rest hrest := (hrun p hp rest hrest).elim

variable [DecidableEq H]

/-- A step is the start of a provisioner or one of the one that holds the lock. -/
theorem step_cases (hs : step hash s e = some s') :
    (s.holder = none ∧ ∃ t uv tools, e = .start t uv tools ∧ s' = s.start hash t uv tools) ∨
      ∃ p, s.holder = some p ∧ s.advance hash p e = some s' := by
  unfold step at hs
  cases hrun : s.holder with
  | none =>
    rw [hrun] at hs
    cases e with
    | start t uv tools => exact .inl ⟨rfl, t, uv, tools, rfl, (Option.some.inj hs).symm⟩
    | _ => cases hs
  | some p =>
    rw [hrun] at hs
    exact .inr ⟨p, rfl, hs⟩

theorem Kept.step (h : Kept hash s) (hs : Root.step hash s e = some s') : Kept hash s' := by
  obtain ⟨hrun, t, uv, tools, rfl, rfl⟩ | ⟨p, hrun, hs⟩ := step_cases hs
  · unfold Root.start
    split_ifs with hready
    · exact h
    · cases uv with
      | binary path => exact h.same rfl fun p hp rest => by cases hp; exact Phase.noConfusion
      | release r =>
        dsimp only
        split_ifs
        · exact h.same rfl fun p hp rest => by cases hp; exact Phase.noConfusion
        · exact h.same rfl fun p hp rest => by cases hp; exact Phase.noConfusion
  · cases e with
    | start => cases hs
    | fetched | cleaned | interpreterInstalled =>
      simp only [Root.advance, Option.ite_none_right_eq_some, Option.some.injEq] at hs
      obtain ⟨-, rfl⟩ := hs
      exact h.same rfl fun p hp rest => by cases hp; exact Phase.noConfusion
    | renamed | marked =>
      simp only [Root.advance] at hs
      split at hs
      · obtain rfl := Option.some.inj hs
        exact h.same rfl fun p hp rest => by cases hp; exact Phase.noConfusion
      · cases hs
    | scribbled length =>
      simp only [Root.advance] at hs
      split at hs
      · rename_i hphase _
        obtain rfl := Option.some.inj hs
        refine h.same rfl fun q hq rest => ?_
        obtain rfl := Option.some.inj (hrun.symm.trans hq)
        rw [hphase]
        exact Phase.noConfusion
      · cases hs
    | removed marker python =>
      simp only [Root.advance, Option.ite_none_right_eq_some, Option.some.injEq] at hs
      obtain ⟨hphase, rfl⟩ := hs
      refine ⟨?_, fun q hq rest hrest => ?_⟩
      · refine forall_setEnv h.sound
          fun h' hh' => ?_
        cases marker with
        | true => exact h.sound _ h' hh'
        | false => cases hh'
      · obtain rfl := Option.some.inj (hrun.symm.trans hq)
        rw [hphase] at hrest
        cases hrest
    | emptied =>
      simp only [Root.advance, Option.ite_none_right_eq_some, Option.some.injEq] at hs
      obtain ⟨-, rfl⟩ := hs
      refine ⟨?_, fun q hq rest hrest => ?_⟩
      · exact forall_setEnv h.sound
          fun h' hh' => by cases hh'
      · cases hq
        cases hrest
        change Building ((s.setEnv p.target _).env p.target) p.target _
        rw [env_setEnv]
        exact ⟨rfl, rfl, rfl, rfl⟩
    | worked python =>
      simp only [Root.advance] at hs
      split at hs
      · rename_i b rest hphase
        obtain rfl := Option.some.inj hs
        have hb := h.building p hrun _ hphase
        refine ⟨?_, fun q hq rest' hrest => ?_⟩
        · exact forall_setEnv h.sound
            fun h' hh' => h.sound _ h' hh'
        · obtain rfl := Option.some.inj (hrun.symm.trans hq)
          rw [env_setEnv]
          have hb' := h.building p hrun _ hrest
          exact ⟨hb'.unmarked, hb'.emptied, hb'.steps, hb'.untorn⟩
      · cases hs
    | stepped python =>
      simp only [Root.advance] at hs
      split at hs
      · rename_i b rest hphase
        obtain rfl := Option.some.inj hs
        have hb := h.building p hrun _ hphase
        refine ⟨?_, fun q hq rest' hrest => ?_⟩
        · refine forall_setEnv h.sound
            fun h' hh' => ?_
          have hnone : none = some h' := hb.unmarked.symm.trans hh'
          cases hnone
        · cases hq
          cases hrest
          change Building ((s.setEnv p.target _).env p.target) p.target _
          rw [env_setEnv]
          refine ⟨hb.unmarked, hb.emptied, ?_, hb.untorn⟩
          rw [List.append_assoc]
          exact hb.steps
      · cases hs
    | markerBegun =>
      simp only [Root.advance] at hs
      split at hs
      · rename_i hphase
        obtain rfl := Option.some.inj hs
        refine ⟨?_, fun q hq rest' hrest => ?_⟩
        · exact forall_setEnv h.sound
            fun h' hh' => by cases hh'
        · obtain rfl := Option.some.inj (hrun.symm.trans hq)
          rw [env_setEnv]
          have hb := h.building p hrun _ hrest
          exact ⟨rfl, hb.emptied, hb.steps, hb.untorn⟩
      · cases hs
    | finished =>
      simp only [Root.advance] at hs
      split at hs
      · rename_i hphase
        obtain rfl := Option.some.inj hs
        have hb := h.building p hrun _ hphase
        refine ⟨?_, fun q hq => by cases hq⟩
        refine forall_setEnv h.sound
          fun h' hh' => ?_
        obtain rfl := Option.some.inj hh'
        have hsteps := hb.steps
        rw [List.append_nil] at hsteps
        exact ⟨p.target, hb.emptied, rfl, hsteps⟩
      · cases hs
    | stop =>
      obtain rfl := Option.some.inj hs
      exact h.same rfl fun q hq => by cases hq

/-- What a run of safe removals keeps of the environments. -/
theorem inert_step (wanted : List Release) (hk : Kept hash s) (h : ∀ n, (s.envs n).Inert)
    (hsafe : s.Safe wanted e) (hs : step hash s e = some s') : ∀ n, (s'.envs n).Inert := by
  obtain ⟨hrun, t, uv, tools, rfl, rfl⟩ | ⟨p, hrun, hs⟩ := step_cases hs
  · unfold Root.start
    split_ifs
    · exact h
    · cases uv with
      | binary path => exact h
      | release r =>
        dsimp only
        split_ifs <;> exact h
  · cases e with
    | start => cases hs
    | fetched | cleaned | interpreterInstalled =>
      simp only [Root.advance, Option.ite_none_right_eq_some, Option.some.injEq] at hs
      obtain ⟨-, rfl⟩ := hs
      exact h
    | renamed | marked | scribbled =>
      simp only [Root.advance] at hs
      split at hs
      · obtain rfl := Option.some.inj hs
        exact h
      · cases hs
    | removed marker python =>
      simp only [Root.advance, Option.ite_none_right_eq_some, Option.some.injEq] at hs
      obtain ⟨-, rfl⟩ := hs
      refine forall_setEnv h fun _ => ?_
      cases marker with
      | false => exact .inl rfl
      | true =>
        cases python with
        | false => exact .inr (Bool.and_false _)
        | true =>
          cases hpython : (s.env p.target).python with
          | false => exact .inr rfl
          | true => exact .inl (hsafe p hrun rfl rfl hpython)
    | emptied =>
      simp only [Root.advance, Option.ite_none_right_eq_some, Option.some.injEq] at hs
      obtain ⟨-, rfl⟩ := hs
      exact forall_setEnv h fun htorn => by cases htorn
    | worked python | stepped python | markerBegun | finished =>
      simp only [Root.advance] at hs
      split at hs
      · rename_i hphase
        obtain rfl := Option.some.inj hs
        have huntorn : (s.env p.target).torn = false := (hk.building p hrun _ hphase).untorn
        exact forall_setEnv h fun htorn => by cases huntorn.symm.trans htorn
      · cases hs
    | stop =>
      obtain rfl := Option.some.inj hs
      exact h

omit [DecidableEq H] in
/-- A usable environment is what its build made. -/
theorem whole_of_isReady (hk : Kept hash s) (h : ∀ n, (s.envs n).Inert) (hr : s.IsReady hash t) :
    (s.env t).Whole hash (hash t) := by
  refine ⟨hk.sound _ _ hr.1, ?_⟩
  cases htorn : (s.env t).torn with
  | false => rfl
  | true =>
    rcases h _ htorn with hnone | hpython
    · cases hnone.symm.trans hr.1
    · cases hpython.symm.trans hr.2

/-! ## What `uv` is -/

/-- What a run of safe stops keeps of `uv`. -/
structure Agreed (wanted : List Release) (s : Root H) : Prop where
  agree : (∀ p ∈ s.holder, p.phase ≠ .mark) → ∀ m ∈ s.release, ∀ b ∈ s.uv, ∀ r ∈ wanted,
    r.url = m → b = r
  own : ∀ p ∈ s.holder, p.phase.placed = true → ∀ r, p.uv = .release r → s.uv = some r
  wanted : ∀ p ∈ s.holder, ∀ r, p.uv = .release r → r ∈ wanted

omit [DecidableEq H] in
theorem Agreed.new (wanted : List Release) : Agreed wanted (Root.new : Root H) where
  agree _ _ h := by cases h
  own _ h := by cases h
  wanted _ h := by cases h

omit [DecidableEq H] in
/-- A step that touches neither the binary nor its marker. -/
theorem Agreed.same {wanted : List Release} (h : Agreed wanted s) (huv : s'.uv = s.uv)
    (hrelease : s'.release = s.release) (hp : s.holder = some p) {phase : Phase}
    (hrun : s'.holder = some { p with phase }) (hplaced : phase.placed = true → p.phase.placed = true)
    (hmark : p.phase = .mark → phase = .mark) : Agreed wanted s' where
  agree hne := by
    rw [huv, hrelease]
    refine h.agree fun q hq hqm => ?_
    obtain rfl := Option.some.inj (hp.symm.trans hq)
    exact hne _ hrun (hmark hqm)
  own q hq hqp r hr := by
    obtain rfl := Option.some.inj (hrun.symm.trans hq)
    rw [huv]
    exact h.own p hp (hplaced hqp) r hr
  wanted q hq r hr := by
    obtain rfl := Option.some.inj (hrun.symm.trans hq)
    exact h.wanted p hp r hr

omit [DecidableEq H] in
/-- A step that stays in its phase. -/
theorem Agreed.idle {wanted : List Release} (h : Agreed wanted s) (huv : s'.uv = s.uv)
    (hrelease : s'.release = s.release) (hp : s.holder = some p) (hrun : s'.holder = some p) :
    Agreed wanted s' := by
  have hphase : s'.holder = some { p with phase := p.phase } := hrun
  exact h.same huv hrelease hp hphase id id

theorem Agreed.start {wanted : List Release} {uv : UvSource} {tools : Bool}
    (h : Agreed wanted s) (hrun : s.holder = none) (hsafe : ∀ r, uv = .release r → r ∈ wanted) :
    Agreed wanted (s.start hash t uv tools) := by
  have hagree := h.agree fun p hp => by rw [hrun] at hp; cases hp
  unfold Root.start
  split_ifs with hready
  · exact h
  · cases uv with
    | binary path =>
      refine ⟨fun _ => hagree, fun p hp _ r hr => ?_, fun p hp r hr => ?_⟩
      · cases hp
        cases hr
      · cases hp
        cases hr
    | release r =>
      dsimp only
      split_ifs with hlook
      · refine ⟨fun _ => hagree, fun p hp _ r' hr => ?_, fun p hp r' hr => ?_⟩
        · cases hp
          obtain rfl := UvSource.release.inj hr
          obtain ⟨b, hb⟩ := Option.isSome_iff_exists.mp hlook.1
          rw [← hagree r.url hlook.2 b hb r (hsafe r rfl) rfl]
          exact hb
        · cases hp
          exact hsafe r' hr
      · refine ⟨fun _ => hagree, fun p hp hplaced => ?_, fun p hp r' hr => ?_⟩
        · cases hp
          cases hplaced
        · cases hp
          exact hsafe r' hr

theorem Agreed.step {wanted : List Release}
    (hone : ∀ r ∈ wanted, ∀ r' ∈ wanted, r.url = r'.url → r = r') (h : Agreed wanted s)
    (hsafe : s.Safe wanted e) (hs : step hash s e = some s') : Agreed wanted s' := by
  obtain ⟨hrun, t, uv, tools, rfl, rfl⟩ | ⟨p, hrun, hs⟩ := step_cases hs
  · exact h.start hrun fun r hr => by rw [hr] at hsafe; exact hsafe
  · cases e with
    | start => cases hs
    | fetched | cleaned | interpreterInstalled =>
      simp only [Root.advance, Option.ite_none_right_eq_some, Option.some.injEq] at hs
      obtain ⟨hphase, rfl⟩ := hs
      exact h.same rfl rfl hrun rfl (by simp [hphase, Phase.placed]) (by simp [hphase])
    | renamed =>
      simp only [Root.advance] at hs
      split at hs
      · rename_i r hphase huv
        obtain rfl := Option.some.inj hs
        refine ⟨fun hne => (hne _ rfl rfl).elim, fun q hq _ r' hr => ?_, fun q hq r' hr => ?_⟩
        · cases hq
          exact congrArg some (UvSource.release.inj (huv.symm.trans hr))
        · cases hq
          exact h.wanted p hrun r' hr
      · cases hs
    | scribbled length =>
      simp only [Root.advance] at hs
      split at hs
      · rename_i r hphase huv
        obtain rfl := Option.some.inj hs
        exact ⟨fun hne => (hne p hrun hphase).elim, h.own, h.wanted⟩
      · cases hs
    | marked =>
      simp only [Root.advance] at hs
      split at hs
      · rename_i r hphase huv
        obtain rfl := Option.some.inj hs
        have hown := h.own p hrun (by rw [hphase]; rfl)
        refine ⟨fun _ m hm b hb r' hr' hurl => ?_, fun q hq _ => ?_, fun q hq => ?_⟩
        · obtain rfl := Option.some.inj hm
          obtain rfl := Option.some.inj ((hown r huv).symm.trans hb)
          exact hone r (h.wanted p hrun r huv) r' hr' hurl.symm
        · cases hq
          exact hown
        · cases hq
          exact h.wanted p hrun
      · cases hs
    | removed marker python =>
      simp only [Root.advance, Option.ite_none_right_eq_some, Option.some.injEq] at hs
      obtain ⟨-, rfl⟩ := hs
      exact h.idle rfl rfl hrun hrun
    | emptied =>
      simp only [Root.advance, Option.ite_none_right_eq_some, Option.some.injEq] at hs
      obtain ⟨hphase, rfl⟩ := hs
      exact h.same rfl rfl hrun rfl (by simp [hphase, Phase.placed]) (by simp [hphase])
    | stepped python =>
      simp only [Root.advance] at hs
      split at hs
      · rename_i hphase
        obtain rfl := Option.some.inj hs
        exact h.same rfl rfl hrun rfl (by simp [hphase, Phase.placed]) (by simp [hphase])
      · cases hs
    | worked python | markerBegun =>
      simp only [Root.advance] at hs
      split at hs
      · obtain rfl := Option.some.inj hs
        exact h.idle rfl rfl hrun hrun
      · cases hs
    | finished =>
      simp only [Root.advance] at hs
      split at hs
      · rename_i hphase
        obtain rfl := Option.some.inj hs
        refine ⟨fun _ => h.agree fun q hq hqm => ?_, fun q hq => ?_, fun q hq => ?_⟩
        · obtain rfl := Option.some.inj (hrun.symm.trans hq)
          cases hphase.symm.trans hqm
        · cases hq
        · cases hq
      · cases hs
    | stop =>
      obtain rfl := Option.some.inj hs
      refine ⟨fun _ m hm b hb r hr hurl => ?_, fun q hq => ?_, fun q hq => ?_⟩
      · by_cases hphase : p.phase = .mark
        · have huv := hsafe p hrun hphase m hm r hr hurl
          have hown := h.own p hrun (by rw [hphase]; rfl) r huv
          exact Option.some.inj (hb.symm.trans hown)
        · refine h.agree (fun q hq => ?_) m hm b hb r hr hurl
          obtain rfl := Option.some.inj (hrun.symm.trans hq)
          exact hphase
      · cases hq
      · cases hq

omit [DecidableEq H] in
theorem Agreed.returned {wanted : List Release} (h : Agreed wanted s) : s.Returned := by
  intro p hp hreturned
  refine h.own p hp ?_
  cases hphase : p.phase with
  | fetch | rename => rw [hphase] at hreturned; cases hreturned
  | mark | clean | python | empty | build => rfl

/-! ## Whole histories -/

theorem run_kept {es : List ProvisionEvent} (hr : run (step hash) new es = some s) : Kept hash s :=
  run_invariant (fun _ _ _ h hs => h.step hs) .new hr

/-- In every history a usable environment was last emptied by a build of its hash, whose steps all
succeeded; and where no removal stops with a usable environment left, no stop leaves a binary
beside another release's url and no two releases share one, nothing of it was removed since, and
where `ensure_uv` returned for a release the binary came from its archive. -/
theorem run_ready_whole (hash : Target → H) {es : List ProvisionEvent}
    (hr : run (step hash) new es = some s) :
    (∀ t, s.IsReady hash t → (s.env t).Built hash (hash t)) ∧
      ∀ wanted : List Release, (∀ r ∈ wanted, ∀ r' ∈ wanted, r.url = r'.url → r = r') →
        Along (step hash) (Safe wanted) new es →
          (∀ t, s.IsReady hash t → (s.env t).Whole hash (hash t)) ∧ s.Returned := by
  have hk := run_kept hr
  refine ⟨fun t ht => hk.sound _ _ ht.1, fun wanted hone hsafe => ?_⟩
  have hnew : ∀ n, ((new : Root H).envs n).Inert := fun _ h => by cases h
  obtain ⟨-, hinert, hagreed⟩ :=
    along_invariant (I := fun s => Kept hash s ∧ (∀ n, (s.envs n).Inert) ∧ Agreed wanted s)
      (fun _ _ _ h hok hs => ⟨h.1.step hs, inert_step wanted h.1 h.2.1 hok hs,
        h.2.2.step hone hok hs⟩) es _ _ ⟨Kept.new, hnew, Agreed.new wanted⟩ hsafe hr
  exact ⟨fun t ht => whole_of_isReady hk hinert ht, hagreed.returned⟩

instance (wanted : List Release) (s : Root H) (e : ProvisionEvent) :
    Decidable (s.Safe wanted e) :=
  match e with
  | .start _ (.release r) _ => inferInstanceAs (Decidable (r ∈ wanted))
  | .removed marker python => inferInstanceAs (Decidable (∀ p ∈ s.holder, marker = true →
      python = true → (s.env p.target).python = true → (s.env p.target).hash? = none))
  | .stop => inferInstanceAs (Decidable (∀ p ∈ s.holder, p.phase = .mark → ∀ m ∈ s.release,
      ∀ r ∈ wanted, r.url = m → p.uv = .release r))
  | .start _ (.binary _) _ | .fetched | .renamed | .scribbled _ | .marked | .cleaned
  | .interpreterInstalled | .emptied | .worked _ | .stepped _ | .markerBegun | .finished =>
    isTrue trivial

/-- An environment of three steps, before and after it asks for torch. -/
def small : Target := (⟨['t'], [], none, [], [], []⟩, none)
def grown : Target := (⟨['t'], [['t', 'o', 'r', 'c', 'h']], none, [], [], []⟩, none)

def firstUv : Release := ⟨['a'], ['1']⟩
def nextUv : Release := ⟨['b'], ['2']⟩

/-- `uv` is downloaded and the small environment built. -/
def built : List ProvisionEvent :=
  [.start small (.release firstUv) true, .fetched, .renamed, .marked, .cleaned,
    .interpreterInstalled, .emptied, .stepped true, .stepped true, .stepped true, .markerBegun,
    .finished]

/-- A build of the grown recipe fails while its directory is removed, without its marker. -/
theorem run_ready_whole_failed : ∃ s,
    run (step id) new (built ++ [.start grown (.release firstUv) true, .interpreterInstalled,
        .removed false true, .stop, .start small (.release firstUv) true]) = some s ∧
      (s.uv = some firstUv ∧ ¬ s.IsReady id small) ∧
      Along (step id) (Safe [firstUv]) new
        (built ++ [.start grown (.release firstUv) true, .interpreterInstalled,
          .removed false true, .stop, .start small (.release firstUv) true]) ∧
      ((∀ t, s.IsReady id t → (s.env t).Built id (id t)) ∧
        ∀ wanted : List Release, (∀ r ∈ wanted, ∀ r' ∈ wanted, r.url = r'.url → r = r') →
          Along (step id) (Safe wanted) new
            (built ++ [.start grown (.release firstUv) true, .interpreterInstalled,
              .removed false true, .stop, .start small (.release firstUv) true]) →
            (∀ t, s.IsReady id t → (s.env t).Whole id (id t)) ∧ s.Returned) :=
  exists_run (P := fun s => s.uv = some firstUv ∧ ¬ s.IsReady id small) (by decide)
    fun _ hr hp => ⟨hp, by decide, run_ready_whole id hr⟩

/-- A build of the grown recipe is killed while its directory is removed, with the marker and the
`python` left: the small environment is usable, without what was removed.  A `uv` killed between
its binary and its marker: back at the first release, the next one's binary is returned. -/
theorem killed_upgrades_used :
    (∃ s, run (step id) new (built ++ [.start grown (.release firstUv) true,
        .interpreterInstalled, .removed true true, .stop]) = some s ∧
      s.IsReady id small ∧ ¬ (s.env small).Whole id small) ∧
    ∃ s, run (step id) new (built ++ [.start grown (.release nextUv) true, .fetched, .renamed,
        .stop, .start grown (.release firstUv) true]) = some s ∧ ¬ s.Returned := by
  constructor
  · exact exists_run (P := fun s => s.IsReady id small ∧ (s.env small).torn = true) (by decide)
      fun s _ hp => ⟨hp.1, fun hw => by cases hw.2.symm.trans hp.2⟩
  · refine exists_run (P := fun s => s.holder = some ⟨grown, .release firstUv, .python⟩ ∧
      s.uv = some nextUv) (by decide) fun s _ hp h => ?_
    have hfirst := h _ hp.1 rfl firstUv rfl
    rw [hp.2] at hfirst
    exact absurd (Option.some.inj hfirst) (by decide)

end Root

end StudioWorker.Torch
