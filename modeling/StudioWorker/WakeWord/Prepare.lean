import Mathlib.Logic.Function.Basic
import StudioWorker.Lib.System
import StudioWorker.Text

/-!
# WakeWord.Prepare — the datasets a training reads (`python/wakeword/prepare.py`)

A dataset is built in `<target>.partial` and renamed; `<target>.ready` names the download it was
built from.  A rebuild removes the old directory under its old marker, and writes the new marker
after the rename; a run may fail or be killed anywhere, and removing a directory may stop halfway.
Runs follow each other, and no target lies in another one.

* `items`: the targets of a request and their keys.
* `step`: one step of the run in progress.
* `Exposed`: a target beside a marker that is not its own.
* `Root.ready_dataset_whole`: what `_ready` stands for, over whole histories.
-/

namespace StudioWorker.Datasets

open Lib Lib.System

/-! ## A request -/

/-- A feature archive or an audio archive. -/
structure Download where
  name : Text
  sha256 : Text
deriving DecidableEq

structure Speech where
  group : Text
  split : Text
  name : Text
  sha256 : Text
  /-- As Python prints them. -/
  selectionHours : Option Text
deriving DecidableEq

structure Request where
  negativeFeatures : List Download
  backgroundAudio : List Download
  impulseResponses : Download
  speech : List Speech
deriving DecidableEq

/-- A directory below the datasets root, by its segments. -/
abbrev Target := List Text

def negativeFeaturesDir : Text :=
  ['n', 'e', 'g', 'a', 't', 'i', 'v', 'e', '-', 'f', 'e', 'a', 't', 'u', 'r', 'e', 's']
def at16k : Text := ['-', '1', '6', 'k']
def features : Text := ['-', 'f', 'e', 'a', 't', 'u', 'r', 'e', 's']
def selectFeatures : Text := ['-', 's', 'e', 'l', 'e', 'c', 't'] ++ features

/-- The sets of a speech dataset: all of it, and its first hours for the selection. -/
def Speech.items (s : Speech) : List (Target × Text) :=
  ([s.group ++ features, s.split, s.name], s.sha256) ::
    (s.selectionHours.map fun hours =>
      ([s.group ++ selectFeatures, s.split, s.name], s.sha256 ++ [':'] ++ hours)).toList

/-- What `run` builds, in its order: each target and its key. -/
def Request.items (r : Request) : List (Target × Text) :=
  r.negativeFeatures.map (fun d => ([negativeFeaturesDir, d.name], d.sha256)) ++
    (r.backgroundAudio ++ [r.impulseResponses]).map (fun d => ([d.name ++ at16k], d.sha256)) ++
      r.speech.flatMap Speech.items

/-! ## The datasets root -/

/-- `PREPARE_FORMAT` -/
def prepareFormat : ℕ := 1

/-- What a marker says. -/
structure Marker where
  format : ℕ
  key : Text
deriving DecidableEq

/-- A directory, by what no one reads of it: the key it was built for, whether that build returned,
and whether something of it was removed since. -/
structure Made where
  key : Text
  complete : Bool
  torn : Bool
deriving DecidableEq

/-- A target, its `.partial` and its `.ready`. -/
structure Slot where
  target : Option Made
  building : Option Made
  marker : Option Marker
deriving DecidableEq

inductive Phase where
  /-- Removes a stale `.partial`. -/
  | stalePartial
  /-- Removes a stale target; whether something of it is gone already. -/
  | staleTarget (begun : Bool)
  | make
  | build
  | replace
  /-- Writes the marker. -/
  | mark
deriving DecidableEq

/-- The run in progress: the item it builds and the ones behind it. -/
structure Building where
  target : Target
  key : Text
  phase : Phase
  rest : List (Target × Text)
deriving DecidableEq

structure Root where
  slots : Target → Slot
  run : Option Building

inductive PrepareEvent where
  | start (request : Request)
  /-- Something of the directory that is removed is gone. -/
  | removed
  /-- It is gone, or was never there. -/
  | cleared
  | made
  /-- A part of the dataset is written. -/
  | wrote
  /-- The build returned. -/
  | built
  | replaced
  | marked
  /-- It failed, or was killed. -/
  | stop
deriving DecidableEq

namespace Slot

def new : Slot := ⟨none, none, none⟩

/-- `_ready` -/
def Ready (s : Slot) (key : Text) : Prop :=
  s.target.isSome = true ∧ s.marker = some ⟨prepareFormat, key⟩

instance (s : Slot) (key : Text) : Decidable (s.Ready key) := inferInstanceAs (Decidable (_ ∧ _))

/-- The target was built completely for the key, and nothing of it has been removed since. -/
def Whole (s : Slot) (key : Text) : Prop := s.target = some ⟨key, true, false⟩

instance (s : Slot) (key : Text) : Decidable (s.Whole key) := inferInstanceAs (Decidable (_ = _))

end Slot

namespace Root

def new : Root := ⟨fun _ => .new, none⟩

/-- The first of the items that is not ready, and those behind it; `_build` returns at once for
the ones in front. -/
def next (slots : Target → Slot) : List (Target × Text) → Option Building
  | [] => none
  | (target, key) :: rest =>
    if (slots target).Ready key then next slots rest else some ⟨target, key, .stalePartial, rest⟩

/-- The item in progress goes on, and its slot is set. -/
def go (s : Root) (b : Building) (slot : Slot) (phase : Phase) : Root :=
  ⟨Function.update s.slots b.target slot, some { b with phase }⟩

/-- One step of the run in progress. -/
def advance (s : Root) (b : Building) : PrepareEvent → Option Root
  | .start _ => none
  | .removed =>
    let slot := s.slots b.target
    match b.phase with
    | .stalePartial =>
      slot.building.map fun m =>
        s.go b { slot with building := some { m with torn := true } } b.phase
    | .staleTarget _ =>
      slot.target.map fun m =>
        s.go b { slot with target := some { m with torn := true } } (.staleTarget true)
    | .make | .build | .replace | .mark => none
  | .cleared =>
    let slot := s.slots b.target
    match b.phase with
    | .stalePartial => some (s.go b { slot with building := none } (.staleTarget false))
    | .staleTarget _ => some (s.go b { slot with target := none } .make)
    | .make | .build | .replace | .mark => none
  | .made =>
    let slot := s.slots b.target
    if b.phase = .make then
      some (s.go b { slot with building := some ⟨b.key, false, false⟩ } .build)
    else none
  | .wrote => if b.phase = .build then some s else none
  | .built =>
    let slot := s.slots b.target
    if b.phase = .build then
      some (s.go b { slot with building := slot.building.map fun m => { m with complete := true } }
        .replace)
    else none
  | .replaced =>
    let slot := s.slots b.target
    if b.phase = .replace then
      some (s.go b { slot with target := slot.building, building := none } .mark)
    else none
  | .marked =>
    let slots := Function.update s.slots b.target
      { s.slots b.target with marker := some ⟨prepareFormat, b.key⟩ }
    if b.phase = .mark then some ⟨slots, next slots b.rest⟩ else none
  | .stop => some { s with run := none }

def step (s : Root) (e : PrepareEvent) : Option Root :=
  match s.run, e with
  | none, .start request => some { s with run := next s.slots request.items }
  | some b, e => s.advance b e
  | none, _ => none

/-- The target in progress is beside a marker that is not its own: partly removed under it, or
renamed into place before its own is written. -/
def Exposed (s : Root) (target : Target) : Prop :=
  ∃ b ∈ s.run, b.target = target ∧ ∃ m ∈ (s.slots target).marker,
    b.phase = .staleTarget true ∨ b.phase = .mark ∧ m ≠ ⟨prepareFormat, b.key⟩

/-- A run does not stop while its target is exposed. -/
def Safe (s : Root) : PrepareEvent → Prop
  | .stop => ∀ b ∈ s.run, ¬ s.Exposed b.target
  | _ => True

end Root

/-! ## What a run keeps -/

/-- A target beside a marker is what the marker says. -/
def Slot.Sound (s : Slot) : Prop := ∀ m ∈ s.marker, s.target.isSome = true → s.Whole m.key

/-- Where the item in progress stands. -/
def Building.Sound (b : Building) (s : Slot) : Prop :=
  match b.phase with
  | .stalePartial | .staleTarget false => s.Sound
  | .staleTarget true => True
  | .make => s.target = none
  | .build => s.target = none ∧ s.building = some ⟨b.key, false, false⟩
  | .replace => s.target = none ∧ s.building = some ⟨b.key, true, false⟩
  | .mark => s.Whole b.key

namespace Root

variable {s s' : Root} {b : Building} {slot : Slot} {phase : Phase} {e : PrepareEvent}

/-- The targets that no item is building are sound, and the one that is stands as its phase says. -/
structure Kept (s : Root) : Prop where
  others : ∀ t, (∀ b ∈ s.run, b.target ≠ t) → (s.slots t).Sound
  building : ∀ b ∈ s.run, b.Sound (s.slots b.target)

theorem Kept.new : Kept new where
  others t _ m hm := by cases hm
  building b hb := by cases hb

theorem Kept.go (h : s.Kept) (hrun : s.run = some b)
    (hb : Building.Sound { b with phase } slot) : (s.go b slot phase).Kept where
  others t ht := by
    have hne : b.target ≠ t := ht { b with phase } rfl
    have hsame : (s.go b slot phase).slots t = s.slots t := Function.update_of_ne hne.symm ..
    rw [hsame]
    refine h.others t fun b' hb' => ?_
    obtain rfl := Option.some.inj (hrun.symm.trans hb')
    exact hne
  building b' hb' := by
    obtain rfl := Option.some.inj hb'
    have hself : (s.go b slot phase).slots b.target = slot := Function.update_self ..
    show Building.Sound { b with phase } ((s.go b slot phase).slots b.target)
    rw [hself]
    exact hb

/-- The next item begins with its stale `.partial`. -/
theorem next_phase {slots : Target → Slot} {items : List (Target × Text)}
    (h : next slots items = some b) : b.phase = .stalePartial := by
  induction items with
  | nil => cases h
  | cons item items ih =>
    rw [next] at h
    split_ifs at h
    · exact ih h
    · obtain rfl := Option.some.inj h
      rfl

theorem Kept.next {slots : Target → Slot} (h : ∀ t, (slots t).Sound)
    (items : List (Target × Text)) : Kept ⟨slots, next slots items⟩ where
  others t _ := h t
  building b hb := by
    rw [Building.Sound, next_phase hb]
    exact h b.target

/-- A target that is not exposed is sound. -/
theorem Kept.sound (h : s.Kept) {t : Target} (hexposed : ¬ s.Exposed t) : (s.slots t).Sound := by
  by_cases hb : ∃ b ∈ s.run, b.target = t
  · obtain ⟨b, hrun, rfl⟩ := hb
    have hbuilding := h.building b hrun
    intro m hm htarget
    unfold Building.Sound at hbuilding
    split at hbuilding
    · exact hbuilding m hm htarget
    · exact hbuilding m hm htarget
    · rename_i hphase
      exact absurd ⟨b, hrun, rfl, m, hm, .inl hphase⟩ hexposed
    · rw [hbuilding] at htarget
      cases htarget
    · rw [hbuilding.1] at htarget
      cases htarget
    · rw [hbuilding.1] at htarget
      cases htarget
    · rename_i hphase
      by_cases hown : m = ⟨prepareFormat, b.key⟩
      · rw [hown]
        exact hbuilding
      · exact absurd ⟨b, hrun, rfl, m, hm, .inr ⟨hphase, hown⟩⟩ hexposed
  · exact h.others t fun b hrun heq => hb ⟨b, hrun, heq⟩

theorem step_cases (h : step s e = some s') :
    (s.run = none ∧ ∃ request, e = .start request ∧
        s' = { s with run := next s.slots request.items }) ∨
      ∃ b, s.run = some b ∧ s.advance b e = some s' := by
  unfold step at h
  split at h
  · rename_i request hrun
    exact .inl ⟨hrun, request, rfl, (Option.some.inj h).symm⟩
  · rename_i b hrun
    exact .inr ⟨b, hrun, h⟩
  · cases h

theorem Kept.step (h : s.Kept) (hsafe : s.Safe e) (hs : Root.step s e = some s') : s'.Kept := by
  obtain ⟨hrun, request, rfl, rfl⟩ | ⟨b, hrun, hs⟩ := step_cases hs
  · refine Kept.next (fun t => h.sound fun hexposed => ?_) request.items
    obtain ⟨b, hb, -⟩ := hexposed
    cases hrun.symm.trans hb
  · have hb := h.building b hrun
    cases e with
    | start => cases hs
    | removed =>
      simp only [advance] at hs
      split at hs
      · rename_i hphase
        obtain ⟨m, -, rfl⟩ := Option.map_eq_some_iff.mp hs
        refine h.go hrun ?_
        rw [Building.Sound, hphase] at hb ⊢
        exact hb
      · obtain ⟨m, -, rfl⟩ := Option.map_eq_some_iff.mp hs
        exact h.go hrun trivial
      · cases hs
      · cases hs
      · cases hs
      · cases hs
    | cleared =>
      simp only [advance] at hs
      split at hs
      · rename_i hphase
        obtain rfl := Option.some.inj hs
        refine h.go hrun ?_
        rw [Building.Sound, hphase] at hb
        exact hb
      · obtain rfl := Option.some.inj hs
        exact h.go hrun rfl
      · cases hs
      · cases hs
      · cases hs
      · cases hs
    | made =>
      simp only [advance, Option.ite_none_right_eq_some, Option.some.injEq] at hs
      obtain ⟨hphase, rfl⟩ := hs
      rw [Building.Sound, hphase] at hb
      exact h.go hrun ⟨hb, rfl⟩
    | wrote =>
      simp only [advance, Option.ite_none_right_eq_some, Option.some.injEq] at hs
      obtain ⟨-, rfl⟩ := hs
      exact h
    | built =>
      simp only [advance, Option.ite_none_right_eq_some, Option.some.injEq] at hs
      obtain ⟨hphase, rfl⟩ := hs
      rw [Building.Sound, hphase] at hb
      obtain ⟨htarget, hbuilding⟩ := hb
      refine h.go hrun ⟨htarget, ?_⟩
      show (s.slots b.target).building.map _ = _
      rw [hbuilding]
      rfl
    | replaced =>
      simp only [advance, Option.ite_none_right_eq_some, Option.some.injEq] at hs
      obtain ⟨hphase, rfl⟩ := hs
      rw [Building.Sound, hphase] at hb
      exact h.go hrun hb.2
    | marked =>
      simp only [advance, Option.ite_none_right_eq_some, Option.some.injEq] at hs
      obtain ⟨hphase, rfl⟩ := hs
      rw [Building.Sound, hphase] at hb
      refine Kept.next (fun t => ?_) b.rest
      by_cases ht : t = b.target
      · subst ht
        rw [Function.update_self]
        intro m hm _
        obtain rfl := Option.some.inj hm
        exact hb
      · rw [Function.update_of_ne ht]
        refine h.others t fun b' hb' => ?_
        obtain rfl := Option.some.inj (hrun.symm.trans hb')
        exact Ne.symm ht
    | stop =>
      obtain rfl := Option.some.inj hs
      refine ⟨fun t _ => h.sound fun hexposed => ?_, fun b hb => by cases hb⟩
      have htarget := hexposed
      obtain ⟨b, hb, rfl, -⟩ := htarget
      exact hsafe b hb hexposed

/-! ## Whole histories -/

/-- In every history of runs none of which stops while its target is exposed, a target that is
ready for a key, and not exposed just now, was built completely for that key and nothing of it has
been removed since. -/
theorem ready_dataset_whole {es : List PrepareEvent} (hsafe : Along step Safe new es)
    (hrun : System.run step new es = some s) {target : Target} {key : Text}
    (hexposed : ¬ s.Exposed target) (hready : (s.slots target).Ready key) :
    (s.slots target).Whole key := by
  have hkept : s.Kept :=
    along_invariant (fun _ _ _ h hok hs => h.step hok hs) es _ _ Kept.new hsafe hrun
  exact hkept.sound hexposed _ hready.2 hready.1

instance (s : Root) (target : Target) : Decidable (s.Exposed target) :=
  inferInstanceAs (Decidable (∃ b ∈ s.run, _ ∧ ∃ m ∈ (s.slots target).marker, _ ∨ _ ∧ _))

instance (s : Root) (e : PrepareEvent) : Decidable (s.Safe e) :=
  match e with
  | .stop => inferInstanceAs (Decidable (∀ b ∈ s.run, ¬ s.Exposed b.target))
  | .start _ | .removed | .cleared | .made | .wrote | .built | .replaced | .marked => isTrue trivial

/-- A request of one archive, by its digest; the impulse responses have a digest of their own. -/
def oneArchive (sha256 : Text) : Request := ⟨[⟨['s'], sha256⟩], [], ⟨['i'], ['0']⟩, []⟩

def archiveTarget : Target := [negativeFeaturesDir, ['s']]

/-- One item from its stale `.partial` to its marker. -/
def buildAll : List PrepareEvent := [.cleared, .cleared, .made, .wrote, .built, .replaced, .marked]

/-- Both sets are built. -/
def firstRun : List PrepareEvent := .start (oneArchive ['1']) :: buildAll ++ buildAll

/-- The archive changes; the run that rebuilds its set is killed in its build, and the next one
finishes. -/
theorem ready_dataset_whole_killed : ∃ s,
    System.run step new (firstRun ++ [.start (oneArchive ['2']), .cleared, .removed, .cleared,
      .made, .wrote, .stop, .start (oneArchive ['2']), .removed] ++ buildAll) = some s ∧
      (s.slots archiveTarget).Whole ['2'] := by
  refine exists_run (P := fun s => ¬ s.Exposed archiveTarget ∧
    (s.slots archiveTarget).Ready ['2']) (by decide) fun s hrun ⟨hexposed, hready⟩ => ?_
  exact ready_dataset_whole (by decide) hrun hexposed hready

/-- The archive changes and changes back: the run between is killed while it removes the set. -/
theorem marker_outlives_dataset :
    ¬ ∀ (es : List PrepareEvent) (s : Root), System.run step new es = some s → s.run = none →
      ∀ target key, (s.slots target).Ready key → (s.slots target).Whole key := by
  intro h
  have hbad : ∃ s, System.run step new (firstRun ++ [.start (oneArchive ['2']), .cleared,
      .removed, .stop]) = some s ∧ s.run = none ∧ (s.slots archiveTarget).Ready ['1'] ∧
      ¬ (s.slots archiveTarget).Whole ['1'] :=
    exists_run (P := fun s => s.run = none ∧ (s.slots archiveTarget).Ready ['1'] ∧
      ¬ (s.slots archiveTarget).Whole ['1']) (by decide) fun _ _ h => h
  obtain ⟨s, hrun, hidle, hready, hwhole⟩ := hbad
  exact hwhole (h _ s hrun hidle archiveTarget ['1'] hready)

end Root

end StudioWorker.Datasets
