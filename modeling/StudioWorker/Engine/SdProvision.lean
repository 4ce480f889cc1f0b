import StudioWorker.Engine.Archive
import StudioWorker.Lib.Pool
import StudioWorker.Lib.System

/-!
# Engine.SdProvision — the `sd-cli` under `bin/` (`src/engine/sd_provision.rs`, `ensure_sd_cli` of
`src/engine/sdcpp.rs`)

The slot serves a url once `.sd-cli-release` names it, which is written last; the files beside it
are replaced one by one before that, and `llama-cli` is unpacked into the same directory.  Runs go
beside each other, and each may fail or be killed anywhere.

* `Provisioning.step`: one step of one run.
* `Safe`: no run falls into an installation or leaves one half done.
* `run_installed`: what a run that returns leaves in the slot, over whole histories.
-/

namespace StudioWorker.SdProvision

open Archive Lib Lib.System

/-- `.sd-cli-release` -/
def releaseMarker : Text :=
  ['.', 's', 'd', '-', 'c', 'l', 'i', '-', 'r', 'e', 'l', 'e', 'a', 's', 'e']

def needsProvision (binaryPresent : Bool) (marker : Option Text) (wantedUrl : Text) : Bool :=
  !binaryPresent || marker.map Text.trim != some wantedUrl

/-! ## The runs -/

inductive Run where
  /-- `provision` of `sd-cli` downloads and unpacks into its staging; `slot`: `ensure_sd_cli` called
  it for the slot it found. -/
  | sdFetch (url : Text) (slot : Bool)
  /-- Its files are moved, in any order; whether any was touched. -/
  | sdInstall (url : Text) (slot : Bool) (moved : List Text) (touched : Bool)
  | llamaFetch (url : Text)
  /-- `llama-cli` is unpacked in place: the entries to come. -/
  | llamaUnpack (rest : List NamedFile)
  | ended
deriving DecidableEq

/-- What a caller got; no one reads it. -/
inductive Note where
  /-- `provision` returned `Ok` for the url. -/
  | ok (url : Text) (files : Files)
  /-- `ensure_sd_cli` keeps the slot after a failed refresh. -/
  | kept (files : Files)

/-- `bin/` and the runs. -/
structure Provisioning where
  files : Files
  runs : List Run
  notes : List Note

inductive RunEvent where
  | fetched
  /-- A name is removed (`none`), or a part of its new file is copied. -/
  | replacing (name : Text) (part : Option ℕ)
  | replaced (name : Text)
  /-- A part of the marker is written. -/
  | scribbled (length : ℕ)
  | marked
  /-- A part of the next entry is written. -/
  | unpacking (length : ℕ)
  | unpacked
  | failed
  | killed

inductive Event where
  | sd (url : Text) (engine : Bool)
  | llama (url : Text)
  | run (i : ℕ) (e : RunEvent)

/-- It has touched the slot and not marked it. -/
def Run.installing : Run → Bool
  | .sdInstall _ _ _ touched => touched
  | _ => false

/-- The entry `llama-cli` unpacks next. -/
def Run.next? : Run → Option NamedFile
  | .llamaUnpack rest => rest.head?
  | _ => none

/-- On failure its caller keeps the slot. -/
def Run.keeps : Run → Bool
  | .sdFetch _ slot => slot
  | .sdInstall _ slot _ _ => slot
  | _ => false

namespace Provisioning

def new : Provisioning := ⟨fun _ => none, [], []⟩

/-- The url's marker. -/
def markerOf (url : Text) : Text := url ++ ['\n']

def put (s : Provisioning) (name : Text) (content : Option Text) : Provisioning :=
  { s with files := Function.update s.files name content }

def setRun (s : Provisioning) (i : ℕ) (r : Run) : Provisioning := { s with runs := s.runs.set i r }

def note (s : Provisioning) (n : Note) : Provisioning := { s with notes := s.notes ++ [n] }

variable (zip : Text → List ZipEntry)

/-- The files of the url's archive. -/
def archive (url : Text) : List NamedFile := unzip (zip url)

/-- `provision`, up to its download. -/
def startSd (s : Provisioning) (url : Text) (engine : Bool) : Provisioning :=
  let present := (s.files sdCli).isSome
  if needsProvision present (s.files releaseMarker) url then
    { s with runs := s.runs ++ [.sdFetch url (engine && present)] }
  else s.note (.ok url s.files)

/-- `llama_subprocess::provision`, up to its download. -/
def startLlama (s : Provisioning) (url : Text) : Provisioning :=
  if (s.files llamaCli).isSome then s else { s with runs := s.runs ++ [.llamaFetch url] }

/-- A run returns an error; `ensure_sd_cli` keeps the slot it found. -/
def fail (s : Provisioning) (i : ℕ) (slot : Bool) : Provisioning :=
  let s := s.setRun i .ended
  if slot then s.note (.kept s.files) else s

/-- One step of the run `i`. -/
def advance (s : Provisioning) (i : ℕ) : Run → RunEvent → Option Provisioning
  | .sdFetch url slot, .fetched =>
    if (given (archive zip url) sdCli).isSome then some (s.setRun i (.sdInstall url slot [] false))
    else none
  | .sdInstall url slot moved _, .replacing name part =>
    if name ∈ (archive zip url).map Prod.fst ∧ name ∉ moved then
      some ((s.put name (part.bind fun k => (given (archive zip url) name).map (·.take k))).setRun i
        (.sdInstall url slot moved true))
    else none
  | .sdInstall url slot moved _, .replaced name =>
    if name ∈ (archive zip url).map Prod.fst ∧ name ∉ moved then
      some ((s.put name (given (archive zip url) name)).setRun i
        (.sdInstall url slot (name :: moved) true))
    else none
  | .sdInstall url _ moved true, .scribbled length =>
    if ∀ e ∈ archive zip url, e.1 ∈ moved then
      some (s.put releaseMarker (some ((markerOf url).take length)))
    else none
  | .sdInstall url _ moved true, .marked =>
    if ∀ e ∈ archive zip url, e.1 ∈ moved then
      let s := (s.put releaseMarker (some (markerOf url))).setRun i .ended
      some (s.note (.ok url s.files))
    else none
  | .llamaFetch url, .fetched => some (s.setRun i (.llamaUnpack (archive zip url)))
  | .llamaUnpack (e :: _), .unpacking length => some (s.put e.1 (some (e.2.take length)))
  | .llamaUnpack (e :: rest), .unpacked =>
    some ((s.put e.1 (some e.2)).setRun i (.llamaUnpack rest))
  | .sdFetch _ slot, .failed => some (s.fail i slot)
  | .sdInstall _ slot _ _, .failed => some (s.fail i slot)
  | .llamaFetch _, .failed | .llamaUnpack _, .failed => some (s.setRun i .ended)
  | .ended, _ => none
  | _, .killed => some (s.setRun i .ended)
  | _, _ => none

def step (s : Provisioning) : Event → Option Provisioning
  | .sd url engine => some (s.startSd url engine)
  | .llama url => some (s.startLlama url)
  | .run i e => (s.runs[i]?).bind fun r => s.advance zip i r e

/-! ## What the slot promises -/

/-- The slot holds its binary and every file of the url's archive, as the archive has it. -/
def Installed (files : Files) (url : Text) : Prop :=
  (files sdCli).isSome ∧ Unpacked files (archive zip url)

instance (files : Files) (url : Text) : Decidable (Installed zip files url) :=
  inferInstanceAs (Decidable (_ ∧ _))

end Provisioning

open Provisioning

def Note.Sound (zip : Text → List ZipEntry) : Note → Prop
  | .ok url files => Installed zip files url
  | .kept files => ∃ url, Installed zip files url

/-- `llama-cli` writes no name of the slot: not the marker, not the binary and no file of the
release that is marked. -/
def Avoids (zip : Text → List ZipEntry) (files : Files) (name : Text) : Prop :=
  name ≠ releaseMarker ∧ name ≠ sdCli ∧
    ∀ m ∈ files releaseMarker, name ∉ (archive zip (Text.trim m)).map Prod.fst

instance (zip : Text → List ZipEntry) (files : Files) (name : Text) :
    Decidable (Avoids zip files name) :=
  inferInstanceAs (Decidable (_ ∧ _ ∧ ∀ m ∈ files releaseMarker, _))

/-- No run is at work in the slot. -/
def Quiet (s : Provisioning) : Prop := ∀ r ∈ s.runs, r.installing = false

/-- There is neither a binary nor a marker. -/
def Bare (files : Files) : Prop := files sdCli = none ∧ files releaseMarker = none

/-- `provision` takes the slot for the url's release, or its caller takes it for a release to fall
back on. -/
def Provisioning.relies (s : Provisioning) (url : Text) (engine : Bool) : Bool :=
  let present := (s.files sdCli).isSome
  !needsProvision present (s.files releaseMarker) url || (engine && present)

instance (s : Provisioning) : Decidable (Quiet s) :=
  inferInstanceAs (Decidable (∀ r ∈ s.runs, _))

instance (files : Files) : Decidable (Bare files) := inferInstanceAs (Decidable (_ ∧ _))

/-- Nobody relies on a slot another run is at work in, nobody else works there meanwhile, and none
stops there unless there is still no release; the archives write each other's names nowhere. -/
def Safe (zip : Text → List ZipEntry) (s : Provisioning) : Event → Prop
  | .sd url engine => (s.relies url engine = true → Quiet s) ∧ Text.trim url = url ∧
      releaseMarker ∉ (archive zip url).map Prod.fst
  | .llama _ => True
  | .run _ .fetched => True
  | .run i .killed => ∀ r ∈ s.runs[i]?, r.installing = false ∨ Bare s.files
  | .run i .failed => ∀ r ∈ s.runs[i]?,
      if r.keeps then Quiet s else r.installing = false ∨ Bare s.files
  | .run i (.unpacking _) | .run i .unpacked =>
      Quiet s ∧ ∀ r ∈ s.runs[i]?, ∀ e ∈ r.next?, Avoids zip s.files e.1
  | .run i _ => ∀ r ∈ s.runs.eraseIdx i, r.installing = false

/-! ## What the directory keeps -/

variable {zip : Text → List ZipEntry} {s s' : Provisioning} {files files' : Files} {url : Text}
  {i : ℕ} {r r' q : Run}

theorem trim_markerOf (url : Text) : Text.trim (markerOf url) = Text.trim url := by
  unfold Text.trim markerOf
  rw [← Lib.Trim.trim_rdropWhile, List.rdropWhile_concat_pos _ _ _ (by decide),
    Lib.Trim.trim_rdropWhile]

/-- The slot is one release's, which the marker names. -/
structure Marked (zip : Text → List ZipEntry) (files : Files) (url : Text) : Prop where
  marker : files releaseMarker = some (markerOf url)
  trimmed : Text.trim url = url
  apart : releaseMarker ∉ (archive zip url).map Prod.fst
  installed : Installed zip files url

/-- The slot is bare, or one release's. -/
def Clean (zip : Text → List ZipEntry) (files : Files) : Prop :=
  Bare files ∨ ∃ url, Marked zip files url

theorem Clean.installed (h : Clean zip files) (hp : (files releaseMarker).isSome) :
    ∃ url, Installed zip files url := by
  rcases h with ⟨-, hnone⟩ | ⟨url, hm⟩
  · rw [hnone] at hp
    cases hp
  · exact ⟨url, hm.installed⟩

/-- What needs no provisioning is the wanted release. -/
theorem Clean.wanted (h : Clean zip files)
    (hn : needsProvision (files sdCli).isSome (files releaseMarker) url = false) :
    Installed zip files url := by
  simp only [needsProvision, Bool.or_eq_false_iff, Bool.not_eq_false', bne_eq_false_iff_eq] at hn
  rcases h with ⟨hnone, -⟩ | ⟨url', hm⟩
  · rw [hnone] at hn
    cases hn.1
  · have hurl := hn.2
    rw [hm.marker, Option.map_some, trim_markerOf, hm.trimmed] at hurl
    rw [← Option.some.inj hurl]
    exact hm.installed

/-- Unpacking what the slot does not have leaves it as it is. -/
theorem Clean.put {name : Text} (h : Clean zip files) (ha : Avoids zip files name)
    (content : Option Text) : Clean zip (Function.update files name content) := by
  obtain ⟨hmarker, hbinary, hnames⟩ := ha
  rcases h with ⟨hnone, hnomark⟩ | ⟨url, hm⟩
  · refine .inl ⟨?_, ?_⟩
    · rw [Function.update_of_ne hbinary.symm]
      exact hnone
    · rw [Function.update_of_ne hmarker.symm]
      exact hnomark
  · have hname : name ∉ (archive zip url).map Prod.fst := by
      have := hnames _ hm.marker
      rw [trim_markerOf, hm.trimmed] at this
      exact this
    refine .inr ⟨url, ?_, hm.trimmed, hm.apart, ?_, hm.installed.2.update hname content⟩
    · rw [Function.update_of_ne hmarker.symm]
      exact hm.marker
    · rw [Function.update_of_ne hbinary.symm]
      exact hm.installed.1

/-- A run of `sd-cli` is for a url whose archive has a binary and no marker, and what it has moved
is in place. -/
def Run.Sound (zip : Text → List ZipEntry) (files : Files) : Run → Prop
  | .sdFetch url _ => Text.trim url = url ∧ releaseMarker ∉ (archive zip url).map Prod.fst
  | .sdInstall url _ moved touched =>
    (Text.trim url = url ∧ releaseMarker ∉ (archive zip url).map Prod.fst) ∧
      (given (archive zip url) sdCli).isSome ∧
      (∀ n ∈ moved, n ∈ (archive zip url).map Prod.fst) ∧
      (∀ n ∈ moved, files n = given (archive zip url) n) ∧ (touched = false → moved = [])
  | _ => True

/-- A run that has touched nothing does not depend on the directory. -/
theorem Run.Sound.congr (h : r.Sound zip files) (hi : r.installing = false) :
    r.Sound zip files' := by
  cases r with
  | sdInstall url slot moved touched =>
    obtain ⟨hurl, hbinary, -, -, hnil⟩ := h
    obtain rfl := hnil hi
    refine ⟨hurl, hbinary, fun n hn => ?_, fun n hn => ?_, fun _ => rfl⟩
    · cases hn
    · cases hn
  | _ => exact h

structure Inv (zip : Text → List ZipEntry) (s : Provisioning) : Prop where
  clean : Quiet s → Clean zip s.files
  /-- What a caller falls back on was marked. -/
  slot : ∀ r ∈ s.runs, r.keeps = true → (s.files releaseMarker).isSome
  runs : ∀ r ∈ s.runs, r.Sound zip s.files
  notes : ∀ n ∈ s.notes, n.Sound zip

theorem Inv.new : Inv zip Provisioning.new where
  clean _ := .inl ⟨rfl, rfl⟩
  slot r hr := by cases hr
  runs r hr := by cases hr
  notes n hn := by cases hn

/-! ## One step -/

@[simp] theorem put_self (s : Provisioning) (name : Text) (content : Option Text) :
    (s.put name content).files name = content := Function.update_self ..

theorem put_of_ne {n name : Text} (h : n ≠ name) (content : Option Text) :
    (s.put name content).files n = s.files n := Function.update_of_ne h ..

/-- One run steps while no other is at work. -/
theorem Inv.stepRun (h : Inv zip s) (hr : s.runs[i]? = some r)
    (hothers : ∀ q ∈ s.runs.eraseIdx i, q.installing = false) (hruns : s'.runs = s.runs.set i r')
    (hclean : r'.installing = false → Clean zip s'.files)
    (hmarker : (s.files releaseMarker).isSome → (s'.files releaseMarker).isSome)
    (hkeeps : r'.keeps = true → r.keeps = true) (hrun : r'.Sound zip s'.files)
    (hnotes : ∀ n ∈ s'.notes, n.Sound zip) : Inv zip s' := by
  obtain ⟨hslot, hslots⟩ := (Pool.forall_iff hr).mp h.slot
  obtain ⟨-, hruns'⟩ := (Pool.forall_iff hr).mp h.runs
  refine ⟨fun hquiet => ?_, ?_, ?_, hnotes⟩
  · rw [Quiet, hruns, Pool.forall_set hr] at hquiet
    exact hclean hquiet.1
  · rw [hruns, Pool.forall_set hr]
    exact ⟨fun hk => hmarker (hslot (hkeeps hk)), fun q hq hqk => hmarker (hslots q hq hqk)⟩
  · rw [hruns, Pool.forall_set hr]
    exact ⟨hrun, fun q hq => (hruns' q hq).congr (hothers q hq)⟩

/-- One run steps and leaves the slot alone: it was not at work there, or there was nothing yet. -/
theorem Inv.stepIdle (h : Inv zip s) (hr : s.runs[i]? = some r)
    (hidle : r.installing = false ∨ Bare s.files) (hkeeps : r'.keeps = true → r.keeps = true)
    (hrun : r'.Sound zip s.files) : Inv zip (s.setRun i r') where
  clean hquiet := by
    rcases hidle with hri | hbare
    · exact h.clean ((Pool.forall_iff hr).mpr ⟨hri, ((Pool.forall_set hr).mp hquiet).2⟩)
    · exact .inl hbare
  slot := by
    obtain ⟨hslot, hslots⟩ := (Pool.forall_iff hr).mp h.slot
    exact (Pool.forall_set hr).mpr ⟨fun hk => hslot (hkeeps hk), hslots⟩
  runs := (Pool.forall_set hr).mpr ⟨hrun, ((Pool.forall_iff hr).mp h.runs).2⟩
  notes := h.notes

theorem Inv.note (h : Inv zip s) {n : Note} (hn : n.Sound zip) : Inv zip (s.note n) :=
  ⟨h.clean, h.slot, h.runs, fun m hm => by
    rcases List.mem_append.mp hm with hm | hm
    · exact h.notes m hm
    · exact List.mem_singleton.mp hm ▸ hn⟩

/-- `llama-cli` writes a name the slot does not have. -/
theorem Inv.stepUnpack {rest rest' : List NamedFile} {name : Text} {content : Option Text}
    (h : Inv zip s) (hr : s.runs[i]? = some (.llamaUnpack rest)) (hquiet : Quiet s)
    (ha : Avoids zip s.files name) :
    Inv zip ((s.put name content).setRun i (.llamaUnpack rest')) := by
  have hothers := ((Pool.forall_iff hr).mp hquiet).2
  refine h.stepRun hr hothers rfl (fun _ => (h.clean hquiet).put ha content) (fun hm => ?_)
    (fun hk => by cases hk) trivial h.notes
  exact (congrArg Option.isSome (put_of_ne ha.1.symm _)).trans hm

/-- A run fails where nobody is at work: what its caller keeps is one release. -/
theorem Inv.fail {slot : Bool} (h : Inv zip s) (hr : s.runs[i]? = some r) (hkeeps : r.keeps = slot)
    (hsafe : if r.keeps then Quiet s else r.installing = false ∨ Bare s.files) :
    Inv zip (s.fail i slot) := by
  unfold Provisioning.fail
  rw [hkeeps] at hsafe
  cases slot with
  | false => exact h.stepIdle hr hsafe (fun hk => by cases hk) trivial
  | true =>
    have hri := ((Pool.forall_iff hr).mp hsafe).1
    have hended : Inv zip (s.setRun i .ended) :=
      h.stepIdle hr (.inl hri) (fun hk => by cases hk) trivial
    refine hended.note ?_
    exact (h.clean hsafe).installed (h.slot r (List.mem_of_getElem? hr) hkeeps)

/-- The last file is in place and the marker is written: the slot is the url's release. -/
theorem Inv.marked {slot : Bool} {moved : List Text} (h : Inv zip s)
    (hr : s.runs[i]? = some (.sdInstall url slot moved true))
    (hothers : ∀ q ∈ s.runs.eraseIdx i, q.installing = false)
    (hall : ∀ e ∈ archive zip url, e.1 ∈ moved) :
    Inv zip (((s.put releaseMarker (some (markerOf url))).setRun i .ended).note
      (.ok url (s.put releaseMarker (some (markerOf url))).files)) := by
  obtain ⟨⟨htrim, hapart⟩, hbinary, -, hmoved, -⟩ := h.runs _ (List.mem_of_getElem? hr)
  have hunpacked : Unpacked (Function.update s.files releaseMarker (some (markerOf url)))
      (archive zip url) := (unpacked_of_moved hmoved hall).update hapart _
  have hpresent : (Function.update s.files releaseMarker (some (markerOf url)) sdCli).isSome := by
    rw [hunpacked.get (given_isSome_iff.mp hbinary)]
    exact hbinary
  have hmarker : Function.update s.files releaseMarker (some (markerOf url)) releaseMarker =
      some (markerOf url) := Function.update_self ..
  have hstep : Inv zip ((s.put releaseMarker (some (markerOf url))).setRun i .ended) := by
    refine h.stepRun hr hothers rfl ?_ ?_ (fun hk => by cases hk) trivial h.notes
    · exact fun _ => .inr ⟨url, hmarker, htrim, hapart, hpresent, hunpacked⟩
    · exact fun _ => Option.isSome_of_eq_some hmarker
  exact hstep.note ⟨hpresent, hunpacked⟩

/-- A run starts. -/
theorem Inv.start (h : Inv zip s)
    (hkeeps : r.keeps = true → (s.files releaseMarker).isSome) (hrun : r.Sound zip s.files) :
    Inv zip { s with runs := s.runs ++ [r] } where
  clean hquiet := h.clean fun q hq => hquiet q (List.mem_append_left _ hq)
  slot q hq hqk := by
    rcases List.mem_append.mp hq with hq | hq
    · exact h.slot q hq hqk
    · rw [List.mem_singleton.mp hq] at hqk
      exact hkeeps hqk
  runs q hq := by
    rcases List.mem_append.mp hq with hq | hq
    · exact h.runs q hq
    · rw [List.mem_singleton.mp hq]
      exact hrun
  notes := h.notes

theorem Inv.startSd {engine : Bool} (h : Inv zip s)
    (hsafe : Safe zip s (.sd url engine)) : Inv zip (s.startSd url engine) := by
  obtain ⟨hrelies, hurl⟩ := hsafe
  unfold Provisioning.relies at hrelies
  unfold Provisioning.startSd
  dsimp only at hrelies ⊢
  split_ifs with hneeds
  · refine h.start (fun hk => ?_) hurl
    replace hk : (engine && (s.files sdCli).isSome) = true := hk
    rcases h.clean (hrelies (by rw [hk, Bool.or_true])) with ⟨hnone, -⟩ | ⟨url', hm⟩
    · rw [hnone, Option.isSome_none, Bool.and_false] at hk
      cases hk
    · exact Option.isSome_of_eq_some hm.marker
  · have hno := Bool.eq_false_iff.mpr hneeds
    refine h.note ((h.clean (hrelies ?_)).wanted hno)
    rw [hno, Bool.not_false, Bool.true_or]

/-- What a safe step of a run keeps. -/
theorem Inv.advance {e : RunEvent} (h : Inv zip s) (hr : s.runs[i]? = some r)
    (hsafe : Safe zip s (.run i e)) (hs : s.advance zip i r e = some s') : Inv zip s' := by
  have hrun := h.runs r (List.mem_of_getElem? hr)
  unfold Provisioning.advance at hs
  split at hs
  · -- `sdFetch`, fetched: the staging is complete.
    split_ifs at hs with hbinary
    obtain rfl := Option.some.inj hs
    refine h.stepIdle hr (.inl rfl) id ⟨hrun, hbinary, fun n hn => ?_, fun n hn => ?_, fun _ => rfl⟩
    · cases hn
    · cases hn
  · -- `sdInstall`, a name is removed or partly copied: what is in place is another's.
    rename_i url slot moved touched name part
    split_ifs at hs with hname
    obtain rfl := Option.some.inj hs
    obtain ⟨hurl, hbinary, hsub, hmoved, -⟩ := hrun
    have hne : releaseMarker ≠ name := fun heq => hurl.2 (heq ▸ hname.1)
    refine h.stepRun hr hsafe rfl (fun hi => by cases hi) (fun hm => ?_) id ?_ h.notes
    · exact (congrArg Option.isSome (put_of_ne hne _)).trans hm
    · refine ⟨hurl, hbinary, hsub, fun n hn => ?_, fun ht => by cases ht⟩
      have hne : n ≠ name := fun heq => hname.2 (heq ▸ hn)
      exact (put_of_ne hne _).trans (hmoved n hn)
  · -- `sdInstall`, a name is in place.
    rename_i url slot moved touched name
    split_ifs at hs with hname
    obtain rfl := Option.some.inj hs
    obtain ⟨hurl, hbinary, hsub, hmoved, -⟩ := hrun
    have hne : releaseMarker ≠ name := fun heq => hurl.2 (heq ▸ hname.1)
    refine h.stepRun hr hsafe rfl (fun hi => by cases hi) (fun hm => ?_) id ?_ h.notes
    · exact (congrArg Option.isSome (put_of_ne hne _)).trans hm
    · refine ⟨hurl, hbinary, fun n hn => ?_, moved_cons hmoved name, fun ht => by cases ht⟩
      rcases List.mem_cons.mp hn with rfl | hn
      · exact hname.1
      · exact hsub n hn
  · -- `sdInstall`, a part of the marker: no file of the archive.
    rename_i url slot moved length
    split_ifs at hs with hall
    obtain rfl := Option.some.inj hs
    obtain ⟨hurl, hbinary, hsub, hmoved, -⟩ := hrun
    refine h.stepRun hr hsafe (Pool.set_self hr).symm (fun hi => by cases hi) (fun _ => ?_) id ?_ h.notes
    · exact congrArg Option.isSome (put_self s releaseMarker _)
    · refine ⟨hurl, hbinary, hsub, fun n hn => ?_, fun ht => by cases ht⟩
      have hne : n ≠ releaseMarker := fun heq => hurl.2 (heq ▸ hsub n hn)
      exact (put_of_ne hne _).trans (hmoved n hn)
  · -- `sdInstall`, marked.
    split_ifs at hs with hall
    obtain rfl := Option.some.inj hs
    exact h.marked hr hsafe hall
  · -- `llamaFetch`, fetched.
    obtain rfl := Option.some.inj hs
    exact h.stepIdle hr (.inl rfl) id trivial
  · -- `llamaUnpack`, a part of the next entry.
    rename_i e rest length
    obtain rfl := Option.some.inj hs
    have hset : (s.put e.1 (some (e.2.take length))).setRun i (.llamaUnpack (e :: rest)) =
        s.put e.1 (some (e.2.take length)) :=
      congrArg (fun l => { s.put e.1 (some (e.2.take length)) with runs := l }) (Pool.set_self hr)
    rw [← hset]
    exact h.stepUnpack hr hsafe.1 (hsafe.2 _ hr e rfl)
  · -- `llamaUnpack`, the next entry.
    rename_i e rest
    obtain rfl := Option.some.inj hs
    exact h.stepUnpack hr hsafe.1 (hsafe.2 _ hr e rfl)
  · obtain rfl := Option.some.inj hs
    exact h.fail hr rfl (hsafe _ hr)
  · obtain rfl := Option.some.inj hs
    exact h.fail hr rfl (hsafe _ hr)
  · obtain rfl := Option.some.inj hs
    exact h.stepIdle hr (.inl rfl) (fun hk => by cases hk) trivial
  · obtain rfl := Option.some.inj hs
    exact h.stepIdle hr (.inl rfl) (fun hk => by cases hk) trivial
  · cases hs
  · -- Killed: it was not at work in the slot, or there is nothing yet.
    obtain rfl := Option.some.inj hs
    exact h.stepIdle hr (hsafe _ hr) (fun hk => by cases hk) trivial
  · cases hs

theorem Inv.step {e : Event} (h : Inv zip s) (hsafe : Safe zip s e)
    (hs : s.step zip e = some s') : Inv zip s' := by
  cases e with
  | sd url engine =>
    obtain rfl := Option.some.inj hs
    exact h.startSd hsafe
  | llama url =>
    obtain rfl := Option.some.inj hs
    unfold Provisioning.startLlama
    split_ifs
    · exact h
    · exact h.start (fun hk => by cases hk) trivial
  | run i e =>
    obtain ⟨r, hr, hs⟩ := Option.bind_eq_some_iff.mp hs
    exact h.advance hr hsafe hs

/-! ## Whole histories -/

/-- Over any history without an unsafe step: where a run of `sd-cli` returns `Ok` the slot holds the
binary and every file of its url's archive, and where `ensure_sd_cli` keeps the slot it holds those
of one release. -/
theorem run_installed {es : List Event} (hr : run (step zip) new es = some s)
    (hsafe : Along (step zip) (Safe zip) new es) : ∀ n ∈ s.notes, n.Sound zip :=
  (along_invariant (I := Inv zip) (fun _ _ _ h hok hs => h.step hok hs) es _ _ Inv.new hsafe hr).notes

instance (zip : Text → List ZipEntry) (s : Provisioning) : (e : Event) → Decidable (Safe zip s e)
  | .sd _ _ => inferInstanceAs (Decidable ((_ → _) ∧ _ ∧ _))
  | .llama _ => isTrue trivial
  | .run _ .fetched => isTrue trivial
  | .run i .killed => inferInstanceAs (Decidable (∀ r ∈ s.runs[i]?, _))
  | .run i .failed => inferInstanceAs (Decidable (∀ r ∈ s.runs[i]?,
      if r.keeps then Quiet s else r.installing = false ∨ Bare s.files))
  | .run i (.unpacking _) | .run i .unpacked =>
    inferInstanceAs (Decidable (Quiet s ∧ ∀ r ∈ s.runs[i]?, ∀ e ∈ r.next?, Avoids zip s.files e.1))
  | .run i (.replacing _ _) | .run i (.replaced _) | .run i (.scribbled _) | .run i .marked =>
    inferInstanceAs (Decidable (∀ r ∈ s.runs.eraseIdx i, r.installing = false))

/-- A check that finds a note unsound. -/
def Note.broken (zip : Text → List ZipEntry) : Note → Bool
  | .ok url files => !decide (Installed zip files url)
  | .kept files => (files sdCli).isNone

theorem Note.not_sound_of_broken {n : Note} (h : n.broken zip = true) : ¬ n.Sound zip := by
  cases n with
  | ok url files =>
    intro hs
    replace hs : Installed zip files url := hs
    rw [broken, decide_eq_true hs] at h
    cases h
  | kept files =>
    rintro ⟨url, hpresent, -⟩
    rw [broken, Option.isNone_iff_eq_none] at h
    rw [h] at hpresent
    cases hpresent

/-- Two releases of the binary and a library, and one of `llama-cli`. -/
def releases (url : Text) : List ZipEntry :=
  if url = ['u'] then [⟨sdCli, ['0'], false⟩, ⟨['b', '/', 'l', 'i', 'b'], ['1'], false⟩]
  else if url = ['v'] then [⟨sdCli, ['2'], false⟩, ⟨['b', '/', 'l', 'i', 'b'], ['3'], false⟩]
  else [⟨llamaCli, ['4', '5'], false⟩]

def installedFirst : List Event :=
  [.sd ['u'] true, .run 0 .fetched, .run 0 (.replaced sdCli), .run 0 (.replaced ['l', 'i', 'b']),
    .run 0 .marked]

/-- The first release, an upgrade that fails while it downloads, `llama-cli` killed while it
unpacks, and the upgrade. -/
def upgraded : List Event :=
  installedFirst ++ [.sd ['v'] true, .run 1 .failed, .llama ['w'], .run 2 .fetched,
    .run 2 (.unpacking 1), .run 2 .killed, .sd ['v'] true, .run 3 .fetched,
    .run 3 (.replacing ['l', 'i', 'b'] none), .run 3 (.replaced ['l', 'i', 'b']),
    .run 3 (.replaced sdCli), .run 3 (.scribbled 1), .run 3 .marked]

theorem upgraded_installed : ∃ s, run (step releases) new upgraded = some s ∧
    (s.notes.length = 3 ∧ s.files sdCli = some ['2']) ∧
    Along (step releases) (Safe releases) new upgraded ∧ ∀ n ∈ s.notes, n.Sound releases :=
  exists_run (P := fun s => s.notes.length = 3 ∧ s.files sdCli = some ['2']) (by decide)
    fun _ hr hp => ⟨hp, by decide, run_installed hr (by decide)⟩

/-- An upgrade is killed between its files and the worker is rolled back: the first release is
returned with the second one's library.  An upgrade fails once it removed the binary: the slot is
kept without one. -/
theorem stopped_upgrades_used :
    (∃ s, run (step releases) new (installedFirst ++ [.sd ['v'] true, .run 1 .fetched,
        .run 1 (.replaced ['l', 'i', 'b']), .run 1 .killed, .sd ['u'] true]) = some s ∧
      ¬ ∀ n ∈ s.notes, n.Sound releases) ∧
    ∃ s, run (step releases) new (installedFirst ++ [.sd ['v'] true, .run 1 .fetched,
        .run 1 (.replacing sdCli none), .run 1 .failed]) = some s ∧
      ¬ ∀ n ∈ s.notes, n.Sound releases := by
  have hbroken : ∀ s : Provisioning, (∃ n ∈ s.notes, n.broken releases = true) →
      ¬ ∀ n ∈ s.notes, n.Sound releases := fun s ⟨n, hn, hb⟩ h =>
    Note.not_sound_of_broken hb (h n hn)
  constructor
  · exact exists_run (P := fun s => ∃ n ∈ s.notes, n.broken releases = true) (by decide)
      fun s _ hp => hbroken s hp
  · exact exists_run (P := fun s => ∃ n ∈ s.notes, n.broken releases = true) (by decide)
      fun s _ hp => hbroken s hp

end StudioWorker.SdProvision
