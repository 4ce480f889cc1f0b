import Mathlib.Data.List.Nodup
import StudioWorker.Lib.Slot
import StudioWorker.Lib.System
import StudioWorker.Text

/-!
# WakeWord.Training — trainings, the job gate and the recordings they hold
(`src/wake_word/training.rs`, `src/job_gate.rs`)

A call of `start` and the thread it spawns are one party, named by the training's id, which a
counter gives out once.  Parties step beside each other and beside the gate's other users; `end`
holds the lock of the list while it sets the state and drops the claim.

* `Trainings.step`: one access to the gate, the holds or the list.
* `Sound`: what ties the running training, the gate and the holds together.
* `run_sound_iff`: it holds throughout a run exactly when no run panics and every thread spawns.
-/

namespace StudioWorker.WakeWord

open Lib Lib.System

inductive State where
  | running
  | completed
  | failed
  | cancelled
deriving DecidableEq, Repr

/-- How `train` ended. -/
inductive Outcome where
  | completed
  | cancelled
  | failed (reason : String)
deriving DecidableEq, Repr

def Outcome.state : Outcome → State
  | .completed => .completed
  | .cancelled => .cancelled
  | .failed _ => .failed

/-- A training of the list; its stage and result are left out. -/
structure Entry where
  id : ℕ
  state : State
  cancel : Bool
deriving DecidableEq, Repr

/-- Where a call of `start`, and then its thread, stands. -/
inductive Phase where
  | idle
  /-- The checks passed, the recordings are held. -/
  | checked
  | reserved
  | listed
  | running
  /-- The thread was not spawned, its closure is dropped, `end` was not called yet. -/
  | unspawned
  /-- In `end`: the state is set. -/
  | ended
  /-- In `end`: the reservation is dropped. -/
  | freed
  /-- The call was refused, or the thread is over. -/
  | left
deriving DecidableEq, Repr

def Phase.hasGate : Phase → Bool
  | .reserved | .listed | .running | .ended => true
  | _ => false

def Phase.hasVoice : Phase → Bool
  | .checked | .reserved | .listed | .running | .ended | .freed => true
  | _ => false

/-- It is in `end`, past the lookup. -/
def Phase.inEnd : Phase → Bool
  | .ended | .freed => true
  | _ => false

/-- Its training is listed and has not ended. -/
def Phase.isRunning : Phase → Bool
  | .listed | .running | .unspawned => true
  | _ => false

/-- Its thread is spawned or will be. -/
def Phase.isLive : Phase → Bool
  | .listed | .running => true
  | _ => false

/-- Its training is not listed yet. -/
def Phase.isEarly : Phase → Bool
  | .idle | .checked | .reserved => true
  | _ => false

/-- Who set the gate's flag; the flag itself tells only that someone did. -/
inductive Holder where
  | training (id : ℕ)
  | other
deriving DecidableEq, Repr

structure Trainings where
  phase : ℕ → Phase
  /-- The sets each request names. -/
  sets : ℕ → List Text
  entries : List Entry
  gate : Option Holder
  /-- The sets a party holds in the store. -/
  holds : ℕ → Option (List Text)
  /-- Live reservations of the gate's other users. -/
  others : ℕ
  /-- The training whose `end` has the list's lock. -/
  lock : Option ℕ

namespace Trainings

def new : Trainings := ⟨fun _ => .idle, fun _ => [], [], none, fun _ => none, 0, none⟩

def keptTrainings : ℕ := 50

/-- No hold where no set is named. -/
def heldOf (sets : List Text) : Option (List Text) := if sets = [] then none else some sets

/-- The oldest ended training is forgotten when there are too many. -/
def evict (entries : List Entry) : List Entry :=
  if keptTrainings < (entries.filter fun e => e.state ≠ .running).length then
    entries.eraseP fun e => e.state ≠ .running
  else entries

/-- Change the first entry of that id. -/
def modify (id : ℕ) (f : Entry → Entry) : List Entry → List Entry
  | [] => []
  | e :: entries => if e.id = id then f e :: entries else e :: modify id f entries

@[simp] def goto (w : Trainings) (id : ℕ) (phase : Phase) : Trainings :=
  { w with phase := Function.update w.phase id phase }

@[simp] def dropVoice (w : Trainings) (id : ℕ) : Trainings :=
  { w with holds := Function.update w.holds id none }

inductive Event where
  /-- The platform, the disk or the store refuses. -/
  | refuse (id : ℕ)
  | hold (id : ℕ) (sets : List Text)
  /-- The takes do not split. -/
  | splitFails (id : ℕ)
  | tryReserve (id : ℕ)
  | list (id : ℕ)
  | spawn (id : ℕ)
  | spawnFails (id : ℕ)
  /-- `end` of a training whose thread was not spawned. -/
  | endUnspawned (id : ℕ)
  | panic (id : ℕ)
  /-- `end`, up to the drop of the claim. -/
  | end (id : ℕ) (outcome : Outcome)
  | dropReservation (id : ℕ)
  /-- The hold is dropped and the lock released. -/
  | unlock (id : ℕ)
  | cancel (id : ℕ)
  | otherReserve
  | otherRelease
deriving DecidableEq, Repr

def step : System Trainings Event
  | w, .refuse id => if w.phase id = .idle then some (w.goto id .left) else none
  | w, .hold id sets =>
    if w.phase id = .idle then
      some { w.goto id .checked with
        sets := Function.update w.sets id sets
        holds := Function.update w.holds id (heldOf sets) }
    else none
  | w, .splitFails id =>
    if w.phase id = .checked then some ((w.goto id .left).dropVoice id) else none
  | w, .tryReserve id =>
    if w.phase id = .checked then
      if w.gate.isSome then some ((w.goto id .left).dropVoice id)
      else some { w.goto id .reserved with gate := some (.training id) }
    else none
  | w, .list id =>
    if w.phase id = .reserved ∧ w.lock = none then
      some { w.goto id .listed with entries := evict (w.entries ++ [⟨id, .running, false⟩]) }
    else none
  | w, .spawn id => if w.phase id = .listed then some (w.goto id .running) else none
  | w, .spawnFails id =>
    if w.phase id = .listed then
      some { (w.goto id .unspawned).dropVoice id with gate := none }
    else none
  | w, .endUnspawned id =>
    if w.phase id = .unspawned ∧ w.lock = none then
      some { w.goto id .left with
        entries := modify id (fun e => { e with state := .failed }) w.entries }
    else none
  | w, .panic id =>
    if w.phase id = .running then
      some { (w.goto id .left).dropVoice id with gate := none }
    else none
  | w, .end id outcome =>
    if w.phase id = .running ∧ w.lock = none then
      if w.entries.any (fun e => e.id = id) then
        some { w.goto id .ended with
          entries := modify id (fun e => { e with state := outcome.state }) w.entries
          lock := some id }
      else some { (w.goto id .left).dropVoice id with gate := none }
    else none
  | w, .dropReservation id =>
    if w.phase id = .ended then some { w.goto id .freed with gate := none } else none
  | w, .unlock id =>
    if w.phase id = .freed then some { (w.goto id .left).dropVoice id with lock := none }
    else none
  | w, .cancel id =>
    if w.lock = none then
      some { w with
        entries := modify id
          (fun e => if e.state = .running then { e with cancel := true } else e) w.entries }
    else none
  | w, .otherReserve =>
    if w.gate.isSome then some w
    else some { w with gate := some .other, others := w.others + 1 }
  | w, .otherRelease =>
    if w.others = 0 then none else some { w with gate := none, others := w.others - 1 }

/-! ## What is kept -/

/-- A listed training keeps a terminal state, and is not listed again once it is evicted. -/
def KeepsTerminal (w w' : Trainings) : Prop :=
  ∀ id state, (w.phase id).isEarly = false → state ≠ .running →
    (∀ e ∈ w.entries, e.id = id → e.state = state) → ∀ e ∈ w'.entries, e.id = id → e.state = state

/-- A refusal gives back what the call took and touches nothing else. -/
def Refuses (id : ℕ) (w w' : Trainings) : Prop :=
  w'.gate = w.gate ∧ w'.entries = w.entries ∧ w'.holds = Function.update w.holds id none

structure Sound (w : Trainings) : Prop where
  one : (w.entries.filter fun e => e.state = .running).length ≤ 1
  claims : ∀ e ∈ w.entries, e.state = .running → (w.phase e.id).hasGate = true ∧
    w.gate = some (.training e.id) ∧ w.holds e.id = heldOf (w.sets e.id)
  /-- A thread that is over, or a call that was refused, has let go of everything. -/
  leaves : ∀ id, w.phase id = .left → w.gate ≠ some (.training id) ∧ w.holds id = none ∧
    ∀ e ∈ w.entries, e.id = id → e.state ≠ .running
  /-- Once the list can be read, an ended training does not keep the gate. -/
  free : w.lock = none → ∀ e ∈ w.entries, w.gate = some (.training e.id) → e.state = .running
  terminal : ∀ event w', step w event = some w' → KeepsTerminal w w'
  kept : ∀ event w', step w event = some w' →
    ∀ e ∈ w.entries, e.state = .running → ∃ e' ∈ w'.entries, e'.id = e.id
  refusal : ∀ event w' id, step w event = some w' → w.phase id ≠ .left → w'.phase id = .left →
    (w.phase id).isEarly = true → Refuses id w w'

/-- Neither a panic nor a thread that is not spawned. -/
@[simp] def Event.undisturbed : Event → Bool
  | .spawnFails _ | .panic _ => false
  | _ => true

variable {w w' : Trainings} {event : Event}

/-! ## What a step can do -/

/-- A party moves: it takes what it then has and leaves what it had. -/
structure Moves (w : Trainings) (id : ℕ) (q : Phase) (w' : Trainings) : Prop where
  phase : w'.phase = Function.update w.phase id q
  gate : w'.gate = Slot.moved Phase.hasGate Holder.training id (w.phase id) q w.gate
  free : q.hasGate = true → (w.phase id).hasGate = true ∨ w.gate = none
  lock : w'.lock = Slot.moved Phase.inEnd (fun id => id) id (w.phase id) q w.lock
  unlocked : q.inEnd = true → (w.phase id).inEnd = true ∨ w.lock = none
  others : w'.others = w.others
  elsewhere : ∀ j, j ≠ id → w'.holds j = w.holds j ∧ w'.sets j = w.sets j
  voice : w'.holds id = if (w.phase id).hasVoice = q.hasVoice then w.holds id
    else if q.hasVoice then heldOf (w'.sets id) else none
  sets : (w.phase id).hasVoice = true → w'.sets id = w.sets id

/-- What a step does to the list beside the move. -/
inductive Lists (w : Trainings) (event : Event) (id : ℕ) (q : Phase) (w' : Trainings) : Prop
  | same (h : w'.entries = w.entries) (running : q.isRunning = true → (w.phase id).isRunning = true)
      (early : q.isEarly = true → (w.phase id).isEarly = true)
      (stays : event.undisturbed = true → (w.phase id).isLive = true →
        (∃ e ∈ w.entries, e.id = id) → q.isLive = true)
      (refused : q = .left → (w.phase id).isEarly = true → (w.phase id).hasGate = false)
  | added (hp : w.phase id = .reserved) (hq : q = .listed)
      (h : w'.entries = evict (w.entries ++ [⟨id, .running, false⟩]))
  | ended (state : State) (hstate : state ≠ .running) (hp : (w.phase id).isRunning = true)
      (hq : q.isRunning = false) (hearly : q.isEarly = false)
      (h : w'.entries = modify id (fun e => { e with state }) w.entries)

inductive Trans (w : Trainings) (event : Event) (w' : Trainings) : Prop
  | move (id : ℕ) (q : Phase) (m : w.Moves id q w') (l : Lists w event id q w')
  | cancel (id : ℕ) (h : w' = { w with
      entries := modify id
        (fun e => if e.state = .running then { e with cancel := true } else e) w.entries })
  | other (gate : Option Holder) (others : ℕ) (h : w' = { w with gate, others })
      (taken : w.gate = none ∧ gate = some .other ∧ others = w.others + 1 ∨
        gate = none ∧ w.others = others + 1 ∨ gate = w.gate ∧ others = w.others)

section Trans

attribute [local simp] Phase.hasGate Phase.hasVoice Phase.inEnd Phase.isRunning Phase.isEarly Phase.isLive

theorem step_trans (h : step w event = some w') : w.Trans event w' := by
  cases event with
  | refuse id =>
    obtain ⟨hp, h⟩ := Option.ite_none_right_eq_some.mp h
    obtain rfl := Option.some.inj h
    refine .move id .left ?_ (.same rfl nofun nofun (by simp [hp]) (by simp [hp]))
    constructor <;> simp +contextual [Slot.moved, hp]
  | hold id sets =>
    obtain ⟨hp, h⟩ := Option.ite_none_right_eq_some.mp h
    obtain rfl := Option.some.inj h
    refine .move id .checked ?_ (.same rfl nofun (by simp [hp]) (by simp [hp]) (by simp [hp]))
    constructor <;> simp +contextual [Slot.moved, hp]
  | splitFails id =>
    obtain ⟨hp, h⟩ := Option.ite_none_right_eq_some.mp h
    obtain rfl := Option.some.inj h
    refine .move id .left ?_ (.same rfl nofun nofun (by simp [hp]) (by simp [hp]))
    constructor <;> simp +contextual [Slot.moved, hp]
  | tryReserve id =>
    obtain ⟨hp, h⟩ := Option.ite_none_right_eq_some.mp h
    split_ifs at h with hg
    · obtain rfl := Option.some.inj h
      refine .move id .left ?_ (.same rfl nofun nofun (by simp [hp]) (by simp [hp]))
      constructor <;> simp +contextual [Slot.moved, hp]
    · obtain rfl := Option.some.inj h
      refine .move id .reserved ?_ (.same rfl nofun (by simp [hp]) (by simp [hp]) (by simp [hp]))
      constructor <;> simp_all +contextual [Slot.moved]
  | list id =>
    obtain ⟨⟨hp, hl⟩, h⟩ := Option.ite_none_right_eq_some.mp h
    obtain rfl := Option.some.inj h
    refine .move id .listed ?_ (.added hp rfl rfl)
    constructor <;> simp +contextual [Slot.moved, hp]
  | spawn id =>
    obtain ⟨hp, h⟩ := Option.ite_none_right_eq_some.mp h
    obtain rfl := Option.some.inj h
    refine .move id .running ?_ (.same rfl (by simp [hp]) nofun (by simp) (by simp [hp]))
    constructor <;> simp +contextual [Slot.moved, hp]
  | spawnFails id =>
    obtain ⟨hp, h⟩ := Option.ite_none_right_eq_some.mp h
    obtain rfl := Option.some.inj h
    refine .move id .unspawned ?_ (.same rfl (by simp [hp]) nofun nofun (by simp [hp]))
    constructor <;> simp +contextual [Slot.moved, hp]
  | endUnspawned id =>
    obtain ⟨⟨hp, hl⟩, h⟩ := Option.ite_none_right_eq_some.mp h
    obtain rfl := Option.some.inj h
    refine .move id .left ?_ (.ended .failed nofun (by simp [hp]) rfl rfl rfl)
    constructor <;> simp +contextual [Slot.moved, hp]
  | panic id =>
    obtain ⟨hp, h⟩ := Option.ite_none_right_eq_some.mp h
    obtain rfl := Option.some.inj h
    refine .move id .left ?_ (.same rfl nofun nofun nofun (by simp [hp]))
    constructor <;> simp +contextual [Slot.moved, hp]
  | «end» id outcome =>
    obtain ⟨⟨hp, hl⟩, h⟩ := Option.ite_none_right_eq_some.mp h
    split_ifs at h with hany
    · obtain rfl := Option.some.inj h
      have hstate : outcome.state ≠ .running := by cases outcome <;> simp [Outcome.state]
      refine .move id .ended ?_ (.ended outcome.state hstate (by simp [hp]) rfl rfl rfl)
      constructor <;> simp +contextual [Slot.moved, hp, hl]
    · obtain rfl := Option.some.inj h
      refine .move id .left ?_ (.same rfl nofun nofun (fun _ _ hmem => absurd ?_ hany) (by simp [hp]))
      · constructor <;> simp +contextual [Slot.moved, hp]
      · obtain ⟨e, he, hid⟩ := hmem
        exact List.any_eq_true.mpr ⟨e, he, by simpa using hid⟩
  | dropReservation id =>
    obtain ⟨hp, h⟩ := Option.ite_none_right_eq_some.mp h
    obtain rfl := Option.some.inj h
    refine .move id .freed ?_ (.same rfl nofun nofun (by simp [hp]) (by simp [hp]))
    constructor <;> simp +contextual [Slot.moved, hp]
  | unlock id =>
    obtain ⟨hp, h⟩ := Option.ite_none_right_eq_some.mp h
    obtain rfl := Option.some.inj h
    refine .move id .left ?_ (.same rfl nofun nofun (by simp [hp]) (by simp [hp]))
    constructor <;> simp +contextual [Slot.moved, hp]
  | cancel id =>
    obtain ⟨hl, h⟩ := Option.ite_none_right_eq_some.mp h
    exact .cancel id (Option.some.inj h).symm
  | otherReserve =>
    simp only [step] at h
    split_ifs at h with hg
    · exact .other w.gate w.others (Option.some.inj h).symm (.inr (.inr ⟨rfl, rfl⟩))
    · exact .other _ _ (Option.some.inj h).symm (.inl ⟨by simpa using hg, rfl, rfl⟩)
  | otherRelease =>
    simp only [step] at h
    split_ifs at h with ho
    exact .other _ _ (Option.some.inj h).symm (.inr (.inl ⟨rfl, by omega⟩))

end Trans

/-! ## The list -/

theorem map_id_modify {id : ℕ} {f : Entry → Entry} (hf : ∀ e, (f e).id = e.id)
    (entries : List Entry) : (modify id f entries).map (·.id) = entries.map (·.id) := by
  induction entries with
  | nil => rfl
  | cons e entries ih =>
    unfold modify
    split_ifs with he
    · rw [List.map_cons, List.map_cons, hf]
    · rw [List.map_cons, List.map_cons, ih]

theorem mem_modify {id : ℕ} {f : Entry → Entry} {entries : List Entry}
    (hn : (entries.map (·.id)).Nodup) {e : Entry} :
    e ∈ modify id f entries ↔ (e ∈ entries ∧ e.id ≠ id) ∨ ∃ e₀ ∈ entries, e₀.id = id ∧ e = f e₀ := by
  induction entries with
  | nil => simp [modify]
  | cons a entries ih =>
    obtain ⟨hna, hn⟩ := List.nodup_cons.mp hn
    unfold modify
    by_cases ha : a.id = id
    · have hrest : ∀ b ∈ entries, b.id ≠ id := fun b hb hid =>
        hna (List.mem_map.mpr ⟨b, hb, hid.trans ha.symm⟩)
      rw [if_pos ha, List.mem_cons]
      constructor
      · rintro (rfl | he)
        · exact .inr ⟨a, List.mem_cons_self, ha, rfl⟩
        · exact .inl ⟨List.mem_cons_of_mem _ he, hrest e he⟩
      · rintro (⟨he, hid⟩ | ⟨b, hb, hid, rfl⟩)
        · exact .inr ((List.mem_cons.mp he).resolve_left fun h => hid (h ▸ ha))
        · rcases List.mem_cons.mp hb with rfl | hb
          · exact .inl rfl
          · exact absurd hid (hrest b hb)
    · rw [if_neg ha, List.mem_cons, ih hn]
      constructor
      · rintro (rfl | ⟨he, hid⟩ | ⟨b, hb, h⟩)
        · exact .inl ⟨List.mem_cons_self, ha⟩
        · exact .inl ⟨List.mem_cons_of_mem _ he, hid⟩
        · exact .inr ⟨b, List.mem_cons_of_mem _ hb, h⟩
      · rintro (⟨he, hid⟩ | ⟨b, hb, h⟩)
        · rcases List.mem_cons.mp he with rfl | he
          · exact .inl rfl
          · exact .inr (.inl ⟨he, hid⟩)
        · rcases List.mem_cons.mp hb with rfl | hb
          · exact absurd h.1 ha
          · exact .inr (.inr ⟨b, hb, h⟩)

theorem evict_sublist (entries : List Entry) : (evict entries).Sublist entries := by
  unfold evict
  split_ifs
  · exact List.eraseP_sublist
  · exact List.Sublist.refl _

theorem mem_evict_of_running {entries : List Entry} {e : Entry} (h : e ∈ entries)
    (hs : e.state = .running) : e ∈ evict entries := by
  unfold evict
  split_ifs
  · exact (List.mem_eraseP_of_neg (by simp [hs])).mpr h
  · exact h

/-! ## The invariant of every run -/

structure Inv (w : Trainings) : Prop where
  nodup : (w.entries.map (·.id)).Nodup
  early : ∀ e ∈ w.entries, (w.phase e.id).isEarly = false
  listed : ∀ id, (w.phase id).isRunning = true →
    ∃ e ∈ w.entries, e.id = id ∧ e.state = .running
  gate : Slot.Owned Phase.hasGate Holder.training w.phase w.gate
  lock : Slot.Owned Phase.inEnd (fun id => id) w.phase w.lock
  others : w.others = if w.gate = some .other then 1 else 0
  voice : ∀ id, w.holds id = if (w.phase id).hasVoice then heldOf (w.sets id) else none

/-- Throughout an undisturbed run: a training that runs has its thread. -/
def Threaded (w : Trainings) : Prop :=
  ∀ e ∈ w.entries, e.state = .running → (w.phase e.id).isLive = true

theorem Inv.new : Inv new where
  nodup := List.nodup_nil
  early := nofun
  listed _ h := by cases h
  gate _ := by simp [Trainings.new, Phase.hasGate]
  lock _ := by simp [Trainings.new, Phase.inEnd]
  others := rfl
  voice _ := rfl

theorem Inv.others_move (hi : Inv w) {id : ℕ} {q : Phase} (m : w.Moves id q w') :
    w'.others = if w'.gate = some .other then 1 else 0 := by
  rw [m.others, m.gate]
  unfold Slot.moved
  by_cases heq : (w.phase id).hasGate = q.hasGate
  · rw [if_pos heq]
    exact hi.others
  rw [if_neg heq]
  by_cases hq : q.hasGate = true
  · have hnone : w.gate = none := (m.free hq).resolve_left fun hp => heq (hp.trans hq.symm)
    rw [if_pos hq, hi.others, hnone]
    rfl
  · have hp : (w.phase id).hasGate = true := by simpa [hq] using heq
    rw [if_neg hq, hi.others, (hi.gate id).mp hp]
    rfl

theorem Inv.voice_move (hi : Inv w) {id : ℕ} {q : Phase} (m : w.Moves id q w') (j : ℕ) :
    w'.holds j = if (w'.phase j).hasVoice then heldOf (w'.sets j) else none := by
  rw [m.phase]
  by_cases hj : j = id
  · subst hj
    rw [Function.update_self, m.voice]
    by_cases heq : (w.phase j).hasVoice = q.hasVoice
    · rw [if_pos heq, hi.voice j, heq]
      by_cases hq : q.hasVoice = true
      · rw [if_pos hq, if_pos hq, m.sets (heq.trans hq)]
      · rw [if_neg hq, if_neg hq]
    · rw [if_neg heq]
  · rw [Function.update_of_ne hj, (m.elsewhere j hj).1, (m.elsewhere j hj).2]
    exact hi.voice j

/-- What a move does to the list keeps the ids apart and the listed trainings listed. -/
theorem Inv.lists (hi : Inv w) {id : ℕ} {q : Phase} (m : w.Moves id q w')
    (l : w.Lists event id q w') :
    (w'.entries.map (·.id)).Nodup ∧ (∀ e ∈ w'.entries, (w'.phase e.id).isEarly = false) ∧
      ∀ j, (w'.phase j).isRunning = true → ∃ e ∈ w'.entries, e.id = j ∧ e.state = .running := by
  rw [m.phase]
  cases l with
  | same h running early stays =>
    rw [h]
    refine ⟨hi.nodup, fun e he => ?_, fun j hj => hi.listed j ?_⟩
    · by_cases hid : e.id = id
      · rw [hid, Function.update_self]
        have hearly := hi.early e he
        rw [hid] at hearly
        exact Bool.eq_false_iff.mpr fun hq => by simp [early hq] at hearly
      · rw [Function.update_of_ne hid]
        exact hi.early e he
    · by_cases hid : j = id
      · rw [hid, Function.update_self] at hj
        rw [hid]
        exact running hj
      · rwa [Function.update_of_ne hid] at hj
  | added hp hq h =>
    rw [h]
    have hfresh : ∀ e ∈ w.entries, e.id ≠ id := fun e he hid => by
      have hearly := hi.early e he
      rw [hid, hp] at hearly
      cases hearly
    have hall : ((w.entries ++ [(⟨id, .running, false⟩ : Entry)]).map (·.id)).Nodup := by
      rw [List.map_append, List.nodup_append]
      refine ⟨hi.nodup, List.nodup_singleton _, fun a ha b hb hab => ?_⟩
      obtain ⟨e, he, rfl⟩ := List.mem_map.mp ha
      exact hfresh e he (hab.trans (by simpa using hb))
    refine ⟨((evict_sublist _).map _).nodup hall, fun e he => ?_, fun j hj => ?_⟩
    · rcases List.mem_append.mp ((evict_sublist _).subset he) with he | he
      · rw [Function.update_of_ne (hfresh e he)]
        exact hi.early e he
      · rw [List.mem_singleton.mp he, Function.update_self, hq]
        rfl
    · by_cases hid : j = id
      · exact ⟨⟨id, .running, false⟩, mem_evict_of_running (by simp) rfl, hid.symm, rfl⟩
      · rw [Function.update_of_ne hid] at hj
        obtain ⟨e, he, hej, hs⟩ := hi.listed j hj
        exact ⟨e, mem_evict_of_running (List.mem_append_left _ he) hs, hej, hs⟩
  | ended state hstate hp hq hearly h =>
    rw [h]
    have hids : (modify id (fun e => { e with state }) w.entries).map (·.id) =
        w.entries.map (·.id) :=
      map_id_modify (f := fun e => { e with state }) (fun _ => rfl) w.entries
    refine ⟨hids ▸ hi.nodup, fun e he => ?_, fun j hj => ?_⟩
    · rcases (mem_modify hi.nodup).mp he with ⟨he, hid⟩ | ⟨e₀, he, hid, rfl⟩
      · rw [Function.update_of_ne hid]
        exact hi.early e he
      · show (Function.update w.phase id q e₀.id).isEarly = false
        rw [hid, Function.update_self]
        exact hearly
    · by_cases hid : j = id
      · rw [hid, Function.update_self, hq] at hj
        cases hj
      · rw [Function.update_of_ne hid] at hj
        obtain ⟨e, he, rfl, hs⟩ := hi.listed j hj
        exact ⟨e, (mem_modify hi.nodup).mpr (.inl ⟨he, hid⟩), rfl, hs⟩

theorem training_injective : Function.Injective Holder.training := fun _ _ h => Holder.training.inj h

/-- A cancel changes no id and no state. -/
theorem mem_cancel {id : ℕ} {entries : List Entry} (hn : (entries.map (·.id)).Nodup) {i : ℕ}
    {state : State} :
    (∃ e ∈ modify id (fun e => if e.state = .running then { e with cancel := true } else e) entries,
      e.id = i ∧ e.state = state) ↔ ∃ e ∈ entries, e.id = i ∧ e.state = state := by
  have hsame : ∀ e : Entry, (if e.state = .running then { e with cancel := true } else e).id = e.id ∧
      (if e.state = .running then { e with cancel := true } else e).state = e.state := by
    intro e
    split_ifs <;> exact ⟨rfl, rfl⟩
  constructor
  · rintro ⟨e, he, hid, hs⟩
    rcases (mem_modify hn).mp he with ⟨he, -⟩ | ⟨e₀, he₀, -, rfl⟩
    · exact ⟨e, he, hid, hs⟩
    · exact ⟨e₀, he₀, (hsame e₀).1.symm.trans hid, (hsame e₀).2.symm.trans hs⟩
  · rintro ⟨e, he, hid, hs⟩
    by_cases h : e.id = id
    · exact ⟨_, (mem_modify hn).mpr (.inr ⟨e, he, h, rfl⟩), (hsame e).1.trans hid,
        (hsame e).2.trans hs⟩
    · exact ⟨e, (mem_modify hn).mpr (.inl ⟨he, h⟩), hid, hs⟩

theorem Inv.step (hi : Inv w) (h : Trainings.step w event = some w') : Inv w' := by
  cases step_trans h with
  | move id q m l =>
    obtain ⟨hnodup, hearly, hlisted⟩ := hi.lists m l
    refine ⟨hnodup, hearly, hlisted, ?_, ?_, hi.others_move m, hi.voice_move m⟩
    · rw [m.phase, m.gate]
      exact hi.gate.move training_injective m.free
    · rw [m.phase, m.lock]
      exact hi.lock.move Function.injective_id m.unlocked
  | cancel id h =>
    subst h
    refine ⟨?_, fun e he => ?_, fun j hj => ?_, hi.gate, hi.lock, hi.others, hi.voice⟩
    · rw [map_id_modify fun e => by split_ifs <;> rfl]
      exact hi.nodup
    · obtain ⟨e₀, he₀, hid, -⟩ := (mem_cancel hi.nodup).mp ⟨e, he, rfl, rfl⟩
      exact hid ▸ hi.early e₀ he₀
    · exact (mem_cancel hi.nodup).mpr (hi.listed j hj)
  | other gate others h taken =>
    subst h
    have hname : ∀ id, Holder.other ≠ .training id := nofun
    rcases taken with ⟨hnone, rfl, rfl⟩ | ⟨rfl, hlt⟩ | ⟨rfl, rfl⟩
    · refine ⟨hi.nodup, hi.early, hi.listed, Slot.Owned.take (hnone ▸ hi.gate) hname, hi.lock, ?_,
        hi.voice⟩
      have hzero := hi.others
      rw [hnone] at hzero
      exact congrArg (· + 1) hzero
    · have hone := hi.others
      split_ifs at hone with hg
      · exact ⟨hi.nodup, hi.early, hi.listed, Slot.Owned.leave (hg ▸ hi.gate) hname, hi.lock,
          show others = 0 by omega, hi.voice⟩
      · omega
    · exact hi

/-! ## What a step keeps -/

theorem Phase.isLive_has {q : Phase} :
    q.isLive = true → q.hasGate = true ∧ q.hasVoice = true := by
  cases q <;> decide

theorem Phase.isRunning_of {q : Phase} :
    q.hasGate = true → q.isEarly = false → q.inEnd = false → q.isRunning = true := by
  cases q <;> decide

theorem Phase.isRunning_of_isEarly {q : Phase} : q.isEarly = true → q.isRunning = false := by
  cases q <;> decide

theorem Inv.eq_of_id (hi : Inv w) {e e' : Entry} (he : e ∈ w.entries) (he' : e' ∈ w.entries)
    (h : e.id = e'.id) : e = e' := List.inj_on_of_nodup_map hi.nodup he he' h

theorem Inv.keepsTerminal (hi : Inv w) (h : Trainings.step w event = some w') :
    KeepsTerminal w w' := by
  intro i state hearly hstate hall e he hid
  cases step_trans h with
  | move id q m l =>
    cases l with
    | same h => exact hall e (h ▸ he) hid
    | added hp hq h =>
      rw [h] at he
      rcases List.mem_append.mp ((evict_sublist _).subset he) with he | he
      · exact hall e he hid
      · rw [List.mem_singleton.mp he] at hid
        rw [← hid] at hearly
        rw [hp] at hearly
        cases hearly
    | ended state' hstate' hp hq hearly' h =>
      rw [h] at he
      rcases (mem_modify hi.nodup).mp he with ⟨he, -⟩ | ⟨e₀, he₀, hid₀, rfl⟩
      · exact hall e he hid
      · obtain ⟨e₁, he₁, hid₁, hrun⟩ := hi.listed id hp
        have hi₁ : e₁.id = i := hid₁.trans (hid₀.symm.trans hid)
        exact absurd ((hall e₁ he₁ hi₁).symm.trans hrun) hstate
  | cancel id h =>
    subst h
    obtain ⟨e₀, he₀, hid₀, hs₀⟩ := (mem_cancel hi.nodup).mp ⟨e, he, hid, rfl⟩
    exact hs₀ ▸ hall e₀ he₀ hid₀
  | other gate others h => subst h; exact hall e he hid

theorem Inv.keepsRunning (hi : Inv w) (h : Trainings.step w event = some w') {e : Entry}
    (he : e ∈ w.entries) (hs : e.state = .running) : ∃ e' ∈ w'.entries, e'.id = e.id := by
  cases step_trans h with
  | move id q m l =>
    cases l with
    | same h => exact ⟨e, h ▸ he, rfl⟩
    | added hp hq h => exact ⟨e, h ▸ mem_evict_of_running (List.mem_append_left _ he) hs, rfl⟩
    | ended state hstate hp hq hearly h =>
      by_cases hid : e.id = id
      · exact ⟨{ e with state }, h ▸ (mem_modify hi.nodup).mpr (.inr ⟨e, he, hid, rfl⟩), rfl⟩
      · exact ⟨e, h ▸ (mem_modify hi.nodup).mpr (.inl ⟨he, hid⟩), rfl⟩
  | cancel id h =>
    subst h
    obtain ⟨e', he', hid, -⟩ := (mem_cancel hi.nodup).mpr ⟨e, he, rfl, rfl⟩
    exact ⟨e', he', hid⟩
  | other gate others h => subst h; exact ⟨e, he, rfl⟩

theorem Inv.refuses (hi : Inv w) (h : Trainings.step w event = some w') {id : ℕ}
    (hp : w.phase id ≠ .left) (hq : w'.phase id = .left) (hearly : (w.phase id).isEarly = true) :
    Refuses id w w' := by
  cases step_trans h with
  | move i q m l =>
    rw [m.phase] at hq
    by_cases hid : id = i
    · subst hid
      rw [Function.update_self] at hq
      subst hq
      cases l with
      | same h running early stays refused =>
        have hgate := m.gate
        unfold Slot.moved at hgate
        rw [refused rfl hearly] at hgate
        refine ⟨hgate, h, funext fun j => ?_⟩
        by_cases hj : j = id
        · subst hj
          rw [Function.update_self, m.voice]
          split_ifs with heq
          · rw [hi.voice j, heq]
            rfl
          · contradiction
          · rfl
        · rw [Function.update_of_ne hj]
          exact (m.elsewhere j hj).1
      | added hp' hq' => cases hq'
      | ended state hstate hrun =>
        exact absurd hrun (Bool.eq_false_iff.mp (Phase.isRunning_of_isEarly hearly))
    · rw [Function.update_of_ne hid] at hq
      exact absurd hq hp
  | cancel i h => subst h; exact absurd hq hp
  | other gate others h => subst h; exact absurd hq hp

theorem Threaded.step (ht : Threaded w) (hi : Inv w) (hu : event.undisturbed = true)
    (h : Trainings.step w event = some w') : Threaded w' := by
  intro e he hs
  cases step_trans h with
  | move id q m l =>
    rw [m.phase]
    cases l with
    | same h running early stays =>
      rw [h] at he
      by_cases hid : e.id = id
      · rw [hid, Function.update_self]
        exact stays hu (hid ▸ ht e he hs) ⟨e, he, hid⟩
      · rw [Function.update_of_ne hid]
        exact ht e he hs
    | added hp hq h =>
      rw [h] at he
      by_cases hid : e.id = id
      · rw [hid, Function.update_self, hq]
        rfl
      · rw [Function.update_of_ne hid]
        rcases List.mem_append.mp ((evict_sublist _).subset he) with he | he
        · exact ht e he hs
        · exact absurd (congrArg Entry.id (List.mem_singleton.mp he)) hid
    | ended state hstate hp hq hearly h =>
      rw [h] at he
      rcases (mem_modify hi.nodup).mp he with ⟨he, hid⟩ | ⟨e₀, he₀, hid, rfl⟩
      · rw [Function.update_of_ne hid]
        exact ht e he hs
      · exact absurd hs hstate
  | cancel id h =>
    subst h
    obtain ⟨e₀, he₀, hid, hs₀⟩ := (mem_cancel hi.nodup).mp ⟨e, he, rfl, hs⟩
    exact hid ▸ ht e₀ he₀ hs₀
  | other gate others h => subst h; exact ht e he hs

theorem sound (hi : Inv w) (ht : Threaded w) : w.Sound := by
  have hclaims : ∀ e ∈ w.entries, e.state = .running → (w.phase e.id).hasGate = true ∧
      w.gate = some (.training e.id) ∧ w.holds e.id = heldOf (w.sets e.id) := by
    intro e he hs
    obtain ⟨hg, hv⟩ := Phase.isLive_has (ht e he hs)
    exact ⟨hg, (hi.gate e.id).mp hg, by rw [hi.voice e.id, if_pos hv]⟩
  refine ⟨?_, hclaims, fun id hp => ⟨fun hg => ?_, ?_, ?_⟩, fun hl e he hg => ?_, fun _ _ h =>
    hi.keepsTerminal h, fun _ _ h e he hs => hi.keepsRunning h he hs, fun _ _ _ h hp hq hearly =>
    hi.refuses h hp hq hearly⟩
  · have hsame : ∀ e ∈ w.entries, ∀ e' ∈ w.entries, e.state = .running → e'.state = .running →
        e = e' := by
      intro e he e' he' hs hs'
      have hgate := (hclaims e he hs).2.1.symm.trans (hclaims e' he' hs').2.1
      exact hi.eq_of_id he he' (training_injective (Option.some.inj hgate))
    have hnodup : (w.entries.filter fun e => e.state = .running).Nodup :=
      List.filter_sublist.nodup hi.nodup.of_map
    match hf : w.entries.filter fun e => e.state = .running with
    | [] => rw [hf]; exact Nat.zero_le 1
    | [_] => rw [hf]; exact Nat.le_refl 1
    | e :: e' :: rest =>
      have hmem : ∀ x ∈ e :: e' :: rest, x ∈ w.entries ∧ x.state = .running := by
        intro x hx
        rw [← hf, List.mem_filter] at hx
        exact ⟨hx.1, by simpa using hx.2⟩
      obtain ⟨he, hs⟩ := hmem e (by simp)
      obtain ⟨he', hs'⟩ := hmem e' (by simp)
      rw [hf, hsame e he e' he' hs hs'] at hnodup
      simp at hnodup
  · have := (hi.gate id).mpr hg
    rw [hp] at this
    cases this
  · rw [hi.voice id, hp]
    rfl
  · intro e he hid hs
    have hlive := ht e he hs
    rw [hid, hp] at hlive
    cases hlive
  · have hgate := (hi.gate e.id).mpr hg
    have hearly := hi.early e he
    have hend : (w.phase e.id).inEnd = false := by
      rw [Bool.eq_false_iff]
      intro hend
      rw [(hi.lock e.id).mp hend] at hl
      cases hl
    have hrun := Phase.isRunning_of hgate hearly hend
    obtain ⟨e', he', hid, hs⟩ := hi.listed e.id hrun
    rw [hi.eq_of_id he he' hid.symm]
    exact hs

/-- A panic leaves the training running for good; a thread that is not spawned leaves it running
without its claim. -/
theorem Inv.not_sound (hi : Inv w) (hu : event.undisturbed = false)
    (h : Trainings.step w event = some w') : ¬ w'.Sound := by
  intro hsound
  cases event with
  | panic id =>
    obtain ⟨hp, h⟩ := Option.ite_none_right_eq_some.mp h
    obtain rfl := Option.some.inj h
    obtain ⟨e, he, hid, hs⟩ := hi.listed id (by rw [hp]; rfl)
    exact (hsound.leaves id (Function.update_self ..)).2.2 e he hid hs
  | spawnFails id =>
    obtain ⟨hp, h⟩ := Option.ite_none_right_eq_some.mp h
    obtain rfl := Option.some.inj h
    obtain ⟨e, he, hid, hs⟩ := hi.listed id (by rw [hp]; rfl)
    have hgate := (hsound.claims e he hs).2.1
    cases hgate
  | _ => cases hu

theorem run_inv {es : List Event} (h : run step new es = some w) : Inv w :=
  run_invariant (fun _ _ _ hi h => hi.step h) Inv.new h

/-- The training, the gate and the holds are tied together throughout a run exactly when no run
panics and every thread is spawned. -/
theorem run_sound_iff {es : List Event} (h : run step new es = some w) :
    (∀ before s, before <+: es → run step new before = some s → s.Sound) ↔
      ∀ event ∈ es, event.undisturbed = true := by
  constructor
  · intro hsound event hmem
    by_contra hu
    obtain ⟨before, after, rfl⟩ := List.append_of_mem hmem
    rw [run_append] at h
    obtain ⟨s, hs, h⟩ := Option.bind_eq_some_iff.mp h
    obtain ⟨t, ht, -⟩ := run_cons_some.mp h
    have hrun : run step new (before ++ [event]) = some t := run_snoc_some.mpr ⟨s, hs, ht⟩
    have hpre : before ++ [event] <+: before ++ event :: after := ⟨after, by simp⟩
    exact (run_inv hs).not_sound (by simpa using hu) ht (hsound _ t hpre hrun)
  · intro hu before s hpre hs
    have halong : Along step (fun _ event => event.undisturbed = true) new before :=
      along_of_forall fun event hmem => hu event (hpre.subset hmem)
    have hboth : Inv s ∧ Threaded s :=
      along_invariant (I := fun s => Inv s ∧ Threaded s)
        (fun _ _ _ hi hu h => ⟨hi.1.step h, hi.2.step hi.1 hu h⟩) before new s
        ⟨Inv.new, nofun⟩ halong hs
    exact sound hboth.1 hboth.2

/-- A training is cancelled while another start is refused; then another job takes the worker. -/
def cancelled : List Event :=
  [.hold 0 [['s', '1']], .tryReserve 0, .list 0, .spawn 0, .hold 1 [['s', '1']], .tryReserve 1,
    .cancel 0, .end 0 .cancelled, .dropReservation 0, .otherReserve, .unlock 0, .otherRelease]

theorem cancelled_sound_iff : ∃ w, run step new cancelled = some w ∧
    (w.entries = [⟨0, .cancelled, true⟩] ∧ w.gate = none ∧ w.phase 1 = .left) ∧
    ((∀ before s, before <+: cancelled → run step new before = some s → s.Sound) ↔
      ∀ event ∈ cancelled, event.undisturbed = true) :=
  exists_run (P := fun w =>
      w.entries = [⟨0, .cancelled, true⟩] ∧ w.gate = none ∧ w.phase 1 = .left) (by decide)
    fun _ hr hp => ⟨hp, run_sound_iff hr⟩

/-- The thread of the first training panics: it runs for good, and the second runs beside it. -/
theorem panicked_runs_for_good : ∃ w, run step new
      [.hold 0 [['s', '1']], .tryReserve 0, .list 0, .spawn 0, .panic 0,
        .hold 1 [], .tryReserve 1, .list 1, .spawn 1] = some w ∧
    w.entries = [⟨0, .running, false⟩, ⟨1, .running, false⟩] ∧ w.phase 0 = .left ∧
      w.holds 0 = none :=
  exists_run (P := fun w => w.entries = [⟨0, .running, false⟩, ⟨1, .running, false⟩] ∧
    w.phase 0 = .left ∧ w.holds 0 = none) (by decide) fun _ _ hp => hp

end Trainings

end StudioWorker.WakeWord
