import StudioWorker.Host.Facts
import StudioWorker.Lib.System
import StudioWorker.Lib.Pool

/-!
# Host.Step — the host as a system of threads

One event is one critical section under the `entries` lock, or one step of a background thread
outside it.  The calls read the catalogue before they take the lock; over a fixed catalogue that
read is part of the same event.  The environment's choices are in the events: the probe's reading,
what each save answers, how a load ends, whether a wait times out.
-/

namespace StudioWorker

open Lib

inductive HostEvent where
  | load (id : String) (probe : Probe) (save : Saves)
  | unload (id : String) (save : Saves)
  /-- A `restore_residents` call begins: it reads the residents and the catalogue. -/
  | restore
  /-- The `k`-th restore in progress loads its next model, or returns. -/
  | restoreNext (k : ℕ) (probe : Probe) (save : Saves)
  /-- The `k`-th background load saw the member it waits for unloaded or failed. -/
  | waitEnds (k : ℕ)
  /-- `SWAP_TIMEOUT` passed: the `k`-th background load goes on without that member's unload. -/
  | waitTimesOut (k : ℕ)
  /-- `runtime.load` of the `k`-th background load returned; `finish_load` runs. -/
  | loadEnds (k : ℕ) (result : Except String Unit)
  /-- The `k`-th unload thread raises the lane's cancel flag. -/
  | cancelLane (k : ℕ)
  /-- The `k`-th unload thread got the lane's lock. -/
  | obtainLane (k : ℕ)
  /-- It drops the lock at once: the guard is a temporary. -/
  | dropLane (k : ℕ)
  /-- `DRAIN_TIMEOUT` passed before the lane was free. -/
  | drainTimesOut (k : ℕ)
  /-- The last critical section of the `k`-th unload thread. -/
  | unloadEnds (k : ℕ)

/-- The unload thread may enter its last critical section: drained or timed out, or no lane. -/
def UnloadThread.ready (t : UnloadThread) : Bool :=
  match t.phase with
  | .drained _ => true
  | .started => t.lane.isNone
  | _ => false

namespace ModelHost

/-- The step of the `k`-th background load. -/
def loadStep (h : ModelHost) (k : ℕ) (f : LoadThread → Option ModelHost) : Option ModelHost :=
  (h.loads[k]?).bind f

/-- The step of the `k`-th unload thread, which holds the lane it was spawned with. -/
def laneStep (h : ModelHost) (k : ℕ) (f : UnloadThread → LaneId → Option ModelHost) :
    Option ModelHost :=
  (h.unloads[k]?).bind fun t => t.lane.bind fun l => f t l

def setPhase (h : ModelHost) (k : ℕ) (t : UnloadThread) (phase : UnloadPhase) : ModelHost :=
  { h with unloads := h.unloads.set k { t with phase := phase } }

/-- The `load` call an event makes, and the restores left beside it. -/
structure LoadCall where
  id : String
  probe : Probe
  save : Saves
  restores : List (List String)

def loadCall (h : ModelHost) : HostEvent → Option LoadCall
  | .load id probe save => some ⟨id, probe, save, h.restores⟩
  | .restoreNext k probe save =>
    match h.restores[k]? with
    | some (id :: rest) => some ⟨id, probe, save, h.restores.set k rest⟩
    | _ => none
  | _ => none

/-- The host and the answer after a `load` call. -/
def runLoad (h : ModelHost) (cat : Catalog) (c : LoadCall) :
    Except HostError ModelStatus × ModelHost :=
  { h with restores := c.restores }.load cat c.probe c.save c.id

/-- One event of the host over the catalogue `cat`. -/
def step (cat : Catalog) : System ModelHost HostEvent
  | h, .load id probe save => some (h.load cat probe save id).2
  | h, .unload id save => some (h.unload cat save id).2
  | h, .restore => some { h with restores := h.restores ++ [h.restoreIds cat] }
  | h, .restoreNext k probe save =>
    (h.restores[k]?).bind fun
      | [] => some { h with restores := h.restores.eraseIdx k }
      | id :: rest => some ({ h with restores := h.restores.set k rest }.load cat probe save id).2
  | h, .waitEnds k =>
    h.loadStep k fun t =>
      match t.waitFor with
      | [] => none
      | other :: rest =>
        if (h.state other).idle then some { h with loads := h.loads.set k ⟨t.model, rest⟩ } else none
  | h, .waitTimesOut k =>
    h.loadStep k fun t =>
      match t.waitFor with
      | [] => none
      | _ :: rest => some { h with loads := h.loads.set k ⟨t.model, rest⟩ }
  | h, .loadEnds k result =>
    h.loadStep k fun t =>
      match t.waitFor with
      | [] => some ({ h with loads := h.loads.eraseIdx k }.finishLoad t.model result)
      | _ :: _ => none
  | h, .cancelLane k =>
    h.laneStep k fun t l =>
      if t.phase = .started then
        some ((h.setLane l { h.lanes l with cancel := true }).setPhase k t .draining)
      else none
  | h, .obtainLane k =>
    h.laneStep k fun t l =>
      if t.phase = .draining ∧ (h.lanes l).busy = none then
        some ((h.setLane l { h.lanes l with busy := some .unload }).setPhase k t .holding)
      else none
  | h, .dropLane k =>
    h.laneStep k fun t l =>
      if t.phase = .holding then
        some ((h.setLane l { h.lanes l with busy := none }).setPhase k t (.drained true))
      else none
  | h, .drainTimesOut k =>
    h.laneStep k fun t _ =>
      if t.phase = .draining then some (h.setPhase k t (.drained false)) else none
  | h, .unloadEnds k =>
    (h.unloads[k]?).bind fun t =>
      if t.ready then
        some ({ h with unloads := h.unloads.eraseIdx k }.finishUnload t.id)
      else none

/-- The model whose `load` the event answers with success. -/
def answeredLoad (cat : Catalog) (h : ModelHost) (e : HostEvent) : Option String :=
  (h.loadCall e).bind fun c => if (h.runLoad cat c).1.isOk then some c.id else none

/-- The model whose `unload` the event answers with success. -/
def answeredUnload (cat : Catalog) (h : ModelHost) : HostEvent → Option String
  | .unload id save => if (h.unload cat save id).1.isOk then some id else none
  | _ => none

/-! ## Everything an event can do -/

/-- The step relation of the host: one constructor for each way an event changes the state. -/
inductive Trans (cat : Catalog) (h : ModelHost) : HostEvent → ModelHost → Prop where
  | loadRejected {e : HostEvent} {c : LoadCall} (hc : h.loadCall e = some c)
      (ha : h.answeredLoad cat e = none) : Trans cat h e { h with restores := c.restores }
  | loadFails {e : HostEvent} {c : LoadCall} {model : CatalogModel} {err : HostError}
      {h' : ModelHost} (hc : h.loadCall e = some c) (ha : h.answeredLoad cat e = none)
      (hget : cat.get c.id = some model)
      (hl : { h with restores := c.restores }.loadLocked model cat.models c.probe c.save c.id =
        (.error err, h')) : Trans cat h e h'
  | load {e : HostEvent} {c : LoadCall} {model : CatalogModel} {st : ModelStatus}
      {h' : ModelHost} (hc : h.loadCall e = some c) (ha : h.answeredLoad cat e = some c.id)
      (hget : cat.get c.id = some model) (hen : model.enabled = true)
      (hl : { h with restores := c.restores }.loadLocked model cat.models c.probe c.save c.id =
        (.ok st, h')) : Trans cat h e h'
  | unloadFails {id : String} {save : Saves}
      (ha : h.answeredUnload cat (.unload id save) = none) : Trans cat h (.unload id save) h
  | unload {id : String} {save : Saves} {model : CatalogModel} {st : ModelStatus}
      {h' : ModelHost} (ha : h.answeredUnload cat (.unload id save) = some id)
      (hget : cat.get id = some model) (hl : h.unloadLocked save id = (.ok st, h')) :
      Trans cat h (.unload id save) h'
  | restore : Trans cat h .restore { h with restores := h.restores ++ [h.restoreIds cat] }
  | restored {k : ℕ} {probe : Probe} {save : Saves} (hk : h.restores[k]? = some []) :
      Trans cat h (.restoreNext k probe save) { h with restores := h.restores.eraseIdx k }
  | waitEnds {k : ℕ} {t : LoadThread} {other : String} {rest : List String}
      (hk : h.loads[k]? = some t) (hw : t.waitFor = other :: rest)
      (hidle : (h.state other).idle = true) :
      Trans cat h (.waitEnds k) { h with loads := h.loads.set k ⟨t.model, rest⟩ }
  | waitTimesOut {k : ℕ} {t : LoadThread} {other : String} {rest : List String}
      (hk : h.loads[k]? = some t) (hw : t.waitFor = other :: rest) :
      Trans cat h (.waitTimesOut k) { h with loads := h.loads.set k ⟨t.model, rest⟩ }
  | loadEnds {k : ℕ} {result : Except String Unit} {t : LoadThread} (hk : h.loads[k]? = some t)
      (hw : t.waitFor = []) :
      Trans cat h (.loadEnds k result)
        ({ h with loads := h.loads.eraseIdx k }.finishLoad t.model result)
  | cancelLane {k : ℕ} {t : UnloadThread} {l : LaneId} (hk : h.unloads[k]? = some t)
      (hl : t.lane = some l) (hp : t.phase = .started) :
      Trans cat h (.cancelLane k)
        ((h.setLane l { h.lanes l with cancel := true }).setPhase k t .draining)
  | obtainLane {k : ℕ} {t : UnloadThread} {l : LaneId} (hk : h.unloads[k]? = some t)
      (hl : t.lane = some l) (hp : t.phase = .draining) (hb : (h.lanes l).busy = none) :
      Trans cat h (.obtainLane k)
        ((h.setLane l { h.lanes l with busy := some .unload }).setPhase k t .holding)
  | dropLane {k : ℕ} {t : UnloadThread} {l : LaneId} (hk : h.unloads[k]? = some t)
      (hl : t.lane = some l) (hp : t.phase = .holding) :
      Trans cat h (.dropLane k)
        ((h.setLane l { h.lanes l with busy := none }).setPhase k t (.drained true))
  | drainTimesOut {k : ℕ} {t : UnloadThread} {l : LaneId} (hk : h.unloads[k]? = some t)
      (hl : t.lane = some l) (hp : t.phase = .draining) :
      Trans cat h (.drainTimesOut k) (h.setPhase k t (.drained false))
  | unloadEnds {k : ℕ} {t : UnloadThread} (hk : h.unloads[k]? = some t)
      (hr : t.ready = true) :
      Trans cat h (.unloadEnds k) ({ h with unloads := h.unloads.eraseIdx k }.finishUnload t.id)

variable {cat : Catalog} {h h' : ModelHost}

/-- A `load` is rejected before the lock, or runs on an enabled catalogue entry. -/
theorem load_cases (cat : Catalog) (h : ModelHost) (probe : Probe) (save : Saves) (id : String) :
    (∃ e, h.load cat probe save id = (.error e, h)) ∨
      ∃ model, cat.get id = some model ∧ model.enabled = true ∧
        h.load cat probe save id = h.loadLocked model cat.models probe save id := by
  unfold load catalogueModel
  cases hg : cat.get id with
  | none => exact Or.inl ⟨_, rfl⟩
  | some model =>
    dsimp only
    by_cases he : model.enabled = true
    · exact Or.inr ⟨model, rfl, he, by rw [if_pos he]⟩
    · exact Or.inl ⟨.disabled id, by rw [if_neg he]⟩

theorem unload_cases (cat : Catalog) (h : ModelHost) (save : Saves) (id : String) :
    (∃ e, h.unload cat save id = (.error e, h)) ∨
      ∃ model, cat.get id = some model ∧ h.unload cat save id = h.unloadLocked save id := by
  unfold unload catalogueModel
  cases hg : cat.get id with
  | none => exact Or.inl ⟨_, rfl⟩
  | some model => exact Or.inr ⟨model, rfl, rfl⟩

/-- A `load` call is the operator's, or the next of a restore in progress. -/
theorem loadCall_some {e : HostEvent} {c : LoadCall} (hc : h.loadCall e = some c) :
    (∃ id probe save, e = .load id probe save ∧ c = ⟨id, probe, save, h.restores⟩) ∨
      ∃ k probe save id rest, e = .restoreNext k probe save ∧
        h.restores[k]? = some (id :: rest) ∧ c = ⟨id, probe, save, h.restores.set k rest⟩ := by
  cases e with
  | load id probe save => exact Or.inl ⟨id, probe, save, rfl, (Option.some.inj hc).symm⟩
  | restoreNext k probe save =>
    cases hk : h.restores[k]? with
    | none => simp [loadCall, hk] at hc
    | some ids =>
      cases ids with
      | nil => simp [loadCall, hk] at hc
      | cons id rest =>
        rw [loadCall, hk] at hc
        exact Or.inr ⟨k, probe, save, id, rest, rfl, hk, (Option.some.inj hc).symm⟩
  | _ => cases hc

theorem loadStep_some {k : ℕ} {f : LoadThread → Option ModelHost} (hs : h.loadStep k f = some h') :
    ∃ t, h.loads[k]? = some t ∧ f t = some h' := Option.bind_eq_some_iff.mp hs

theorem laneStep_some {k : ℕ} {f : UnloadThread → LaneId → Option ModelHost}
    (hs : h.laneStep k f = some h') :
    ∃ t l, h.unloads[k]? = some t ∧ t.lane = some l ∧ f t l = some h' := by
  obtain ⟨t, h1, h2⟩ := Option.bind_eq_some_iff.mp hs
  obtain ⟨l, h3, h4⟩ := Option.bind_eq_some_iff.mp h2
  exact ⟨t, l, h1, h3, h4⟩

theorem answeredLoad_eq {e : HostEvent} {c : LoadCall} (hc : h.loadCall e = some c) :
    h.answeredLoad cat e = if (h.runLoad cat c).1.isOk then some c.id else none := by
  unfold answeredLoad
  rw [hc]
  rfl

/-- What a `load` call does, whichever event makes it. -/
theorem load_trans {e : HostEvent} {c : LoadCall} (hc : h.loadCall e = some c) :
    Trans cat h e (h.runLoad cat c).2 := by
  have ha : h.answeredLoad cat e = _ := answeredLoad_eq hc
  rcases load_cases cat { h with restores := c.restores } c.probe c.save c.id with
    ⟨err, h1⟩ | ⟨model, hg, hen, h1⟩
  · rw [runLoad, h1] at ha ⊢
    exact .loadRejected hc ha
  · rw [runLoad, h1] at ha ⊢
    cases hl : { h with restores := c.restores }.loadLocked model cat.models c.probe c.save c.id with
    | mk r h' =>
      rw [hl] at ha
      cases r with
      | error err => exact .loadFails hc ha hg hl
      | ok st => exact .load hc ha hg hen hl

theorem unload_trans (id : String) (save : Saves) :
    Trans cat h (.unload id save) (h.unload cat save id).2 := by
  have ha : h.answeredUnload cat (.unload id save) =
    if (h.unload cat save id).1.isOk then some id else none := rfl
  rcases unload_cases cat h save id with ⟨err, h1⟩ | ⟨model, hg, h1⟩
  · rw [h1] at ha ⊢
    exact .unloadFails ha
  · rw [h1] at ha ⊢
    cases hl : h.unloadLocked save id with
    | mk r h' =>
      rw [hl] at ha
      cases r with
      | error err =>
        obtain rfl := unloadLocked_error hl
        exact .unloadFails ha
      | ok st => exact .unload ha hg hl

/-- Every step of the host is one of the transitions. -/
theorem step_trans {e : HostEvent} (hs : step cat h e = some h') : Trans cat h e h' := by
  cases e with
  | load id probe save =>
    rw [step, Option.some.injEq] at hs
    exact hs ▸ load_trans (c := ⟨id, probe, save, h.restores⟩) rfl
  | unload id save =>
    rw [step, Option.some.injEq] at hs
    exact hs ▸ unload_trans id save
  | restore =>
    rw [step, Option.some.injEq] at hs
    exact hs ▸ .restore
  | restoreNext k probe save =>
    obtain ⟨ids, hk, hs⟩ := Option.bind_eq_some_iff.mp hs
    cases ids with
    | nil =>
      rw [Option.some.injEq] at hs
      exact hs ▸ .restored hk
    | cons id rest =>
      rw [Option.some.injEq] at hs
      have hc : h.loadCall (.restoreNext k probe save) =
          some ⟨id, probe, save, h.restores.set k rest⟩ := by rw [loadCall, hk]
      exact hs ▸ load_trans hc
  | waitEnds k =>
    obtain ⟨t, hk, hs⟩ := loadStep_some hs
    cases hw : t.waitFor with
    | nil => rw [hw] at hs; cases hs
    | cons other rest =>
      rw [hw] at hs
      dsimp only at hs
      split_ifs at hs with hi
      rw [Option.some.injEq] at hs
      exact hs ▸ .waitEnds hk hw hi
  | waitTimesOut k =>
    obtain ⟨t, hk, hs⟩ := loadStep_some hs
    cases hw : t.waitFor with
    | nil => rw [hw] at hs; cases hs
    | cons other rest =>
      rw [hw] at hs
      dsimp only at hs
      rw [Option.some.injEq] at hs
      exact hs ▸ .waitTimesOut hk hw
  | loadEnds k result =>
    obtain ⟨t, hk, hs⟩ := loadStep_some hs
    cases hw : t.waitFor with
    | nil =>
      rw [hw] at hs
      dsimp only at hs
      rw [Option.some.injEq] at hs
      exact hs ▸ .loadEnds hk hw
    | cons other rest => rw [hw] at hs; cases hs
  | cancelLane k =>
    obtain ⟨t, l, hk, hl, hs⟩ := laneStep_some hs
    split_ifs at hs with hp
    rw [Option.some.injEq] at hs
    exact hs ▸ .cancelLane hk hl hp
  | obtainLane k =>
    obtain ⟨t, l, hk, hl, hs⟩ := laneStep_some hs
    split_ifs at hs with hp
    rw [Option.some.injEq] at hs
    exact hs ▸ .obtainLane hk hl hp.1 hp.2
  | dropLane k =>
    obtain ⟨t, l, hk, hl, hs⟩ := laneStep_some hs
    split_ifs at hs with hp
    rw [Option.some.injEq] at hs
    exact hs ▸ .dropLane hk hl hp
  | drainTimesOut k =>
    obtain ⟨t, l, hk, hl, hs⟩ := laneStep_some hs
    split_ifs at hs with hp
    rw [Option.some.injEq] at hs
    exact hs ▸ .drainTimesOut hk hl hp
  | unloadEnds k =>
    obtain ⟨t, hk, hs⟩ := Option.bind_eq_some_iff.mp hs
    split_ifs at hs with hr
    rw [Option.some.injEq] at hs
    exact hs ▸ .unloadEnds hk hr

/-! ## A small host to run -/

/-- Two members of the group `g`, 1 GiB each. -/
def pairCatalog : Catalog :=
  ⟨[⟨"a", "a", .llm, 1, none, ⟨.llamaCpp, [], {}⟩, true, "local", some "g"⟩,
    ⟨"b", "b", .llm, 1, none, ⟨.llamaCpp, [], {}⟩, true, "local", some "g"⟩], []⟩

/-- A device with 20 GiB free. -/
def roomy : Probe := ⟨some 20, none, none⟩

/-- A host with nothing loaded, nothing resident and no residency file to write. -/
def empty : ModelHost := .new ⟨∅, none, .notFound⟩

end ModelHost

end StudioWorker
