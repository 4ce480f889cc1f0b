import StudioWorker.Lib.Pool
import StudioWorker.Lib.System
import StudioWorker.Lib.Unpack

/-!
# Lib.InPlace — a directory filled in place, ready once one name is there

A run that finds its release's name returns it; else it fetches the release's archive and unpacks
it over what is there, entry by entry.  Runs go beside each other, and each may stop anywhere.

* `Dir.step`: one step of one run.
* `Dir.Safe`: nobody finds another release's name, or one a run is at work beside.
* `Inv.step`: along such steps whoever finds the name finds its release whole.
-/

namespace Lib.InPlace

open Lib.System

variable {N R β : Type*}

inductive Run (N R β : Type*) where
  | fetch (wanted : R)
  /-- The entries to come; whether it wrote anything. -/
  | unpack (wanted : R) (rest : List (N × List β)) (touched : Bool)
  | ended
deriving DecidableEq

namespace Run

def wanted? : Run N R β → Option R
  | fetch w => some w
  | unpack w _ _ => some w
  | ended => none

/-- It has written something, and not everything. -/
def writing : Run N R β → Bool
  | unpack _ (_ :: _) touched => touched
  | _ => false

theorem writing_cases {r : Run N R β} (h : r.writing = true) :
    ∃ w e rest, r = unpack w (e :: rest) true := by
  cases r with
  | fetch | ended => cases h
  | unpack w rest touched =>
    cases rest with
    | nil => cases h
    | cons e rest => exact ⟨w, e, rest, congrArg _ h⟩

end Run

/-- What a run returned, and the directory it was returned in. -/
structure Note (N R β : Type*) where
  wanted : R
  files : N → Option (List β)

/-- No run reads `origin` (whose archive was unpacked last) or `notes`. -/
structure Dir (N R β : Type*) where
  files : N → Option (List β)
  runs : List (Run N R β)
  origin : Option R
  notes : List (Note N R β)

inductive RunEvent where
  | fetched
  /-- The next entry is created and a part of it written. -/
  | writing (length : ℕ)
  | written
  | finished
  /-- It fails or is killed. -/
  | stopped

namespace Dir

def new : Dir N R β := ⟨fun _ => none, [], none, []⟩

variable [DecidableEq N]

/-- An entry of a release is written. -/
def write (d : Dir N R β) (w : R) (name : N) (content : List β) : Dir N R β :=
  { d with files := Function.update d.files name (some content), origin := some w }

def setRun (d : Dir N R β) (i : ℕ) (r : Run N R β) : Dir N R β := { d with runs := d.runs.set i r }

def note (d : Dir N R β) (w : R) : Dir N R β := { d with notes := d.notes ++ [⟨w, d.files⟩] }

variable (dest : R → N) (entries : R → List (N × List β))

/-- A run starts: it is done where its name is there. -/
def start (d : Dir N R β) (w : R) : Dir N R β :=
  if (d.files (dest w)).isSome then d.note w else { d with runs := d.runs ++ [.fetch w] }

def advance (d : Dir N R β) (i : ℕ) : Run N R β → RunEvent → Option (Dir N R β)
  | .fetch w, .fetched => some (d.setRun i (.unpack w (entries w) false))
  | .unpack w (e :: rest) _, .writing length =>
    some ((d.write w e.1 (e.2.take length)).setRun i (.unpack w (e :: rest) true))
  | .unpack w (e :: rest) _, .written =>
    some ((d.write w e.1 e.2).setRun i (.unpack w rest true))
  | .unpack w [] _, .finished =>
    let d := d.setRun i .ended
    some (if (d.files (dest w)).isSome then d.note w else d)
  | .ended, _ => none
  | _, .stopped => some (d.setRun i .ended)
  | _, _ => none

/-- One step of the run `i`. -/
def step (d : Dir N R β) (i : ℕ) (e : RunEvent) : Option (Dir N R β) :=
  (d.runs[i]?).bind fun r => d.advance dest entries i r e

/-- Nobody is at work. -/
def Quiet (d : Dir N R β) : Prop := ∀ r ∈ d.runs, r.writing = false

/-- Who finds the name of a release finds the release unpacked last, and nobody at work. -/
def Finds (d : Dir N R β) (w : R) : Prop :=
  (d.files (dest w)).isSome → d.Quiet ∧ d.origin = some w

/-- The release is not one without its name, beside another's. -/
def Brings (d : Dir N R β) (w : R) : Prop :=
  d.files (dest w) = none ∨ dest w ∈ (entries w).map Prod.fst

def Safe (d : Dir N R β) (i : ℕ) : RunEvent → Prop
  | .fetched => True
  | .writing _ | .written => (∀ r ∈ d.runs.eraseIdx i, r.writing = false) ∧
      ∀ r ∈ d.runs[i]?, ∀ w ∈ r.wanted?, d.Brings dest entries w
  | .finished => ∀ r ∈ d.runs[i]?, ∀ w ∈ r.wanted?, d.Finds dest w
  | .stopped => ∀ r ∈ d.runs[i]?, r.writing = false ∨ ∀ w ∈ r.wanted?, d.files (dest w) = none

instance (d : Dir N R β) : Decidable d.Quiet := inferInstanceAs (Decidable (∀ r ∈ d.runs, _))

instance [DecidableEq R] (d : Dir N R β) (w : R) : Decidable (d.Finds dest w) :=
  inferInstanceAs (Decidable (_ → _ ∧ _))

instance (d : Dir N R β) (w : R) : Decidable (d.Brings dest entries w) :=
  inferInstanceAs (Decidable (_ ∨ _))

instance [DecidableEq R] (d : Dir N R β) (i : ℕ) :
    (e : RunEvent) → Decidable (d.Safe dest entries i e)
  | .fetched => isTrue trivial
  | .writing _ | .written => inferInstanceAs (Decidable ((∀ r ∈ d.runs.eraseIdx i, _) ∧
      ∀ r ∈ d.runs[i]?, ∀ w ∈ r.wanted?, d.Brings dest entries w))
  | .finished => inferInstanceAs (Decidable (∀ r ∈ d.runs[i]?, ∀ w ∈ r.wanted?, d.Finds dest w))
  | .stopped => inferInstanceAs (Decidable (∀ r ∈ d.runs[i]?,
      r.writing = false ∨ ∀ w ∈ r.wanted?, d.files (dest w) = none))

end Dir

variable [DecidableEq N]

/-- The release's name is there, and every entry of its archive is there as the archive has it. -/
def Provisioned (dest : R → N) (entries : R → List (N × List β)) (files : N → Option (List β))
    (w : R) : Prop :=
  dest w ∈ (entries w).map Prod.fst ∧ Unpacked files (entries w)

instance [DecidableEq β] (dest : R → N) (entries : R → List (N × List β))
    (files : N → Option (List β)) (w : R) : Decidable (Provisioned dest entries files w) :=
  inferInstanceAs (Decidable (_ ∧ _))

/-! ## What the steps keep -/

variable {dest : R → N} {entries : R → List (N × List β)} {d d' : Dir N R β} {w : R} {i : ℕ}
  {r r' : Run N R β} {files files' : N → Option (List β)}

theorem Provisioned.present (h : Provisioned dest entries files w) : (files (dest w)).isSome := by
  rw [h.2.get h.1]
  exact given_isSome_iff.mpr h.1

/-- While nobody is at work the release unpacked last is whole, or its name is not there. -/
def Clean (dest : R → N) (entries : R → List (N × List β)) (d : Dir N R β) : Prop :=
  ∀ w ∈ d.origin, d.files (dest w) = none ∨ Provisioned dest entries d.files w

/-- What a run has written is in place while it is at work, but for the entry it is at. -/
def Run.Sound (dest : R → N) (entries : R → List (N × List β)) (d : Dir N R β) :
    Run N R β → Prop
  | .unpack w rest touched => ∃ done, entries w = done ++ rest ∧ (touched = false → done = []) ∧
      ∀ e ∈ rest.head?, touched = true →
        UnpackedBut d.files done e.1 ∧ d.origin = some w ∧ d.Brings dest entries w
  | _ => True

/-- A run that is not at work does not depend on the directory. -/
theorem Run.Sound.congr (h : r.Sound dest entries d) (hw : r.writing = false) :
    r.Sound dest entries d' := by
  cases r with
  | unpack w rest touched =>
    obtain ⟨done, hdone, htouched, -⟩ := h
    refine ⟨done, hdone, htouched, fun e he ht => ?_⟩
    cases rest with
    | nil => cases he
    | cons e' rest => cases hw.symm.trans ht
  | _ => exact h

structure Inv (dest : R → N) (entries : R → List (N × List β)) (d : Dir N R β) : Prop where
  clean : d.Quiet → Clean dest entries d
  runs : ∀ r ∈ d.runs, r.Sound dest entries d
  notes : ∀ n ∈ d.notes, Provisioned dest entries n.files n.wanted

theorem Inv.new : Inv dest entries (Dir.new : Dir N R β) where
  clean _ w hw := by cases hw
  runs r hr := by cases hr
  notes n hn := by cases hn

/-- Whoever finds the name returns its release. -/
theorem Inv.note (h : Inv dest entries d) (hfinds : d.Finds dest w)
    (hp : (d.files (dest w)).isSome) : Inv dest entries (d.note w) where
  clean := h.clean
  runs := h.runs
  notes n hn := by
    rcases List.mem_append.mp hn with hn | hn
    · exact h.notes n hn
    · obtain ⟨hquiet, horigin⟩ := hfinds hp
      rw [List.mem_singleton.mp hn]
      rcases h.clean hquiet w horigin with hnone | hwhole
      · rw [hnone] at hp
        cases hp
      · exact hwhole

/-- One run steps and writes nothing: it was not at work, or its name is not there. -/
theorem Inv.stepIdle (h : Inv dest entries d) (hr : d.runs[i]? = some r)
    (hidle : r.writing = false ∨ ∀ w ∈ d.origin, d.files (dest w) = none)
    (hrun : r'.Sound dest entries d) : Inv dest entries (d.setRun i r') where
  clean hquiet := by
    rcases hidle with hri | hnone
    · exact h.clean ((Pool.forall_iff hr).mpr ⟨hri, ((Pool.forall_set hr).mp hquiet).2⟩)
    · exact fun w hw => .inl (hnone w hw)
  runs := (Pool.forall_set hr).mpr ⟨hrun, ((Pool.forall_iff hr).mp h.runs).2⟩
  notes := h.notes

/-- One run writes while no other is at work. -/
theorem Inv.stepWrite {name : N} {content : List β} (h : Inv dest entries d)
    (hr : d.runs[i]? = some r) (hothers : ∀ q ∈ d.runs.eraseIdx i, q.writing = false)
    (hclean : r'.writing = false → Clean dest entries (d.write w name content))
    (hrun : r'.Sound dest entries (d.write w name content)) :
    Inv dest entries ((d.write w name content).setRun i r') where
  clean hquiet := hclean ((Pool.forall_set hr).mp hquiet).1
  runs := by
    obtain ⟨-, hruns⟩ := (Pool.forall_iff hr).mp h.runs
    exact (Pool.forall_set hr).mpr ⟨hrun, fun q hq => (hruns q hq).congr (hothers q hq)⟩
  notes := h.notes

/-- Writing an entry of a release brings no other's name. -/
theorem Dir.Brings.write {e : N × List β} (h : d.Brings dest entries w) (he : e ∈ entries w)
    (content : List β) : (d.write w e.1 content).Brings dest entries w := by
  rcases h with hnone | hmem
  · by_cases heq : dest w = e.1
    · exact .inr (heq ▸ List.mem_map_of_mem he)
    · exact .inl ((Function.update_of_ne heq ..).trans hnone)
  · exact .inr hmem

/-- Where the entries of an unpacking run stand. -/
theorem Run.Sound.unpacked {rest : List (N × List β)} {touched : Bool} {e : N × List β}
    (h : (Run.unpack w (e :: rest) touched).Sound dest entries d) :
    ∃ done, entries w = done ++ e :: rest ∧ UnpackedBut d.files done e.1 := by
  obtain ⟨done, hdone, huntouched, htouched⟩ := h
  refine ⟨done, hdone, ?_⟩
  cases touched with
  | false =>
    rw [huntouched rfl]
    exact (Unpacked.nil d.files).but e.1
  | true => exact (htouched e rfl rfl).1

/-- The next entry is written: the release is whole once it was the last. -/
theorem Inv.written {rest : List (N × List β)} {touched : Bool} {e : N × List β}
    (h : Inv dest entries d) (hr : d.runs[i]? = some (.unpack w (e :: rest) touched))
    (hothers : ∀ q ∈ d.runs.eraseIdx i, q.writing = false) (hbrings : d.Brings dest entries w) :
    Inv dest entries ((d.write w e.1 e.2).setRun i (.unpack w rest true)) := by
  obtain ⟨done, hdone, hunpacked⟩ := (h.runs _ (List.mem_of_getElem? hr)).unpacked
  have hmem : e ∈ entries w := hdone ▸ List.mem_append_right _ List.mem_cons_self
  have hdone' : entries w = (done ++ [e]) ++ rest := by rw [hdone, List.append_assoc]; rfl
  have hbrings' := hbrings.write hmem e.2
  have hunpacked' : Unpacked (d.write w e.1 e.2).files (done ++ [e]) := hunpacked.concat
  refine h.stepWrite hr hothers (fun hidle w' hw' => ?_)
    ⟨done ++ [e], hdone', fun ht => (by cases ht), fun e' _ _ => ?_⟩
  · obtain rfl := Option.some.inj hw'
    cases rest with
    | cons e' rest => cases hidle
    | nil =>
      rw [List.append_nil] at hdone'
      exact hbrings'.imp_right fun hmem => ⟨hmem, hdone'.symm ▸ hunpacked'⟩
  · exact ⟨hunpacked'.but e'.1, rfl, hbrings'⟩

/-- A part of the next entry is written: the ones before it are in place. -/
theorem Inv.scribbled {rest : List (N × List β)} {touched : Bool} {e : N × List β} {length : ℕ}
    (h : Inv dest entries d) (hr : d.runs[i]? = some (.unpack w (e :: rest) touched))
    (hothers : ∀ q ∈ d.runs.eraseIdx i, q.writing = false) (hbrings : d.Brings dest entries w) :
    Inv dest entries ((d.write w e.1 (e.2.take length)).setRun i (.unpack w (e :: rest) true)) := by
  obtain ⟨done, hdone, hunpacked⟩ := (h.runs _ (List.mem_of_getElem? hr)).unpacked
  have hmem : e ∈ entries w := hdone ▸ List.mem_append_right _ List.mem_cons_self
  refine h.stepWrite hr hothers (fun hidle => by cases hidle)
    ⟨done, hdone, fun ht => (by cases ht), fun e' he' _ => ?_⟩
  obtain rfl := Option.some.inj he'
  exact ⟨hunpacked.update _, rfl, hbrings.write hmem _⟩

/-- A run has written everything and looks for its name. -/
theorem Inv.finished {touched : Bool} (h : Inv dest entries d)
    (hr : d.runs[i]? = some (.unpack w [] touched)) (hfinds : d.Finds dest w) :
    Inv dest entries (if (d.files (dest w)).isSome then (d.setRun i .ended).note w
      else d.setRun i .ended) := by
  have hidle : Inv dest entries (d.setRun i .ended) := h.stepIdle hr (.inl rfl) trivial
  split_ifs with hp
  · refine hidle.note (fun hp => ?_) hp
    obtain ⟨hquiet, horigin⟩ := hfinds hp
    exact ⟨(Pool.forall_set hr).mpr ⟨rfl, ((Pool.forall_iff hr).mp hquiet).2⟩, horigin⟩
  · exact hidle

/-- A run stops where it is not at work, or before its name is there. -/
theorem Inv.stopped (h : Inv dest entries d) (hr : d.runs[i]? = some r)
    (hsafe : r.writing = false ∨ ∀ w ∈ r.wanted?, d.files (dest w) = none) :
    Inv dest entries (d.setRun i .ended) := by
  refine h.stepIdle hr ?_ trivial
  cases hw : r.writing with
  | false => exact .inl rfl
  | true =>
    obtain ⟨w, e, rest, rfl⟩ := Run.writing_cases hw
    obtain ⟨done, -, -, htouched⟩ := h.runs _ (List.mem_of_getElem? hr)
    obtain ⟨-, horigin, -⟩ := htouched e rfl rfl
    have hnone := hsafe.resolve_left (fun hidle => by cases hidle)
    refine .inr fun w' hw' => ?_
    rw [horigin, Option.mem_some] at hw'
    exact hw' ▸ hnone w rfl

/-- A run starts. -/
theorem Inv.start (h : Inv dest entries d) (hfinds : d.Finds dest w) :
    Inv dest entries (d.start dest w) := by
  unfold Dir.start
  split_ifs with hp
  · exact h.note hfinds hp
  · refine ⟨fun hquiet => h.clean fun r hr => hquiet r (List.mem_append_left _ hr),
      fun r hr => ?_, h.notes⟩
    rcases List.mem_append.mp hr with hr | hr
    · exact h.runs r hr
    · rw [List.mem_singleton.mp hr]
      trivial

theorem Inv.step {e : RunEvent} (h : Inv dest entries d) (hsafe : d.Safe dest entries i e)
    (hs : d.step dest entries i e = some d') : Inv dest entries d' := by
  obtain ⟨r, hr, hs⟩ := Option.bind_eq_some_iff.mp hs
  unfold Dir.advance at hs
  split at hs
  · -- The archive is fetched.
    obtain rfl := Option.some.inj hs
    refine h.stepIdle hr (.inl rfl) ⟨[], rfl, fun _ => rfl, fun e _ ht => ?_⟩
    cases ht
  · obtain rfl := Option.some.inj hs
    exact h.scribbled hr hsafe.1 (hsafe.2 _ hr _ rfl)
  · obtain rfl := Option.some.inj hs
    exact h.written hr hsafe.1 (hsafe.2 _ hr _ rfl)
  · obtain rfl := Option.some.inj hs
    exact h.finished hr (hsafe _ hr _ rfl)
  · cases hs
  · obtain rfl := Option.some.inj hs
    exact h.stopped hr (hsafe _ hr)
  · cases hs

/-! ## Who is asked for -/

variable {P : R → Prop}

/-- What was unpacked, is wanted and was returned are releases of one kind. -/
structure Dir.Only (d : Dir N R β) (P : R → Prop) : Prop where
  origin : ∀ w ∈ d.origin, P w
  runs : ∀ r ∈ d.runs, ∀ w ∈ r.wanted?, P w
  notes : ∀ n ∈ d.notes, P n.wanted

omit [DecidableEq N] in
theorem Dir.Only.new : (Dir.new : Dir N R β).Only P where
  origin w hw := by cases hw
  runs r hr := by cases hr
  notes n hn := by cases hn

omit [DecidableEq N] in
theorem Dir.Only.setRun (h : d.Only P) (hr : d.runs[i]? = some r)
    (hwanted : ∀ w ∈ r'.wanted?, w ∈ r.wanted?) : (d.setRun i r').Only P where
  origin := h.origin
  runs := by
    obtain ⟨hrun, hothers⟩ := (Pool.forall_iff hr).mp h.runs
    exact (Pool.forall_set hr).mpr ⟨fun w hw => hrun w (hwanted w hw), hothers⟩
  notes := h.notes

omit [DecidableEq N] in
theorem Dir.Only.note (h : d.Only P) (hw : P w) : (d.note w).Only P where
  origin := h.origin
  runs := h.runs
  notes n hn := by
    rcases List.mem_append.mp hn with hn | hn
    · exact h.notes n hn
    · rw [List.mem_singleton.mp hn]
      exact hw

theorem Dir.Only.write (h : d.Only P) (hw : P w) (name : N) (content : List β) :
    (d.write w name content).Only P where
  origin _ hv := Option.some.inj hv ▸ hw
  runs := h.runs
  notes := h.notes

omit [DecidableEq N] in
theorem Dir.Only.start (h : d.Only P) (hw : P w) : (d.start dest w).Only P := by
  unfold Dir.start
  split_ifs
  · exact h.note hw
  · refine ⟨h.origin, fun r hr v hv => ?_, h.notes⟩
    rcases List.mem_append.mp hr with hr | hr
    · exact h.runs r hr v hv
    · rw [List.mem_singleton.mp hr] at hv
      exact Option.some.inj hv ▸ hw

theorem Dir.Only.step {e : RunEvent} (h : d.Only P) (hs : d.step dest entries i e = some d') :
    d'.Only P := by
  obtain ⟨r, hr, hs⟩ := Option.bind_eq_some_iff.mp hs
  have hwanted := h.runs r (List.mem_of_getElem? hr)
  unfold Dir.advance at hs
  split at hs
  · obtain rfl := Option.some.inj hs
    exact h.setRun hr fun _ => id
  · obtain rfl := Option.some.inj hs
    exact (h.write (hwanted _ rfl) _ _).setRun hr fun _ => id
  · obtain rfl := Option.some.inj hs
    exact (h.write (hwanted _ rfl) _ _).setRun hr fun _ => id
  · obtain rfl := Option.some.inj hs
    have hended : (d.setRun i .ended).Only P := h.setRun hr fun w hw => by cases hw
    split_ifs
    · exact hended.note (hwanted _ rfl)
    · exact hended
  · cases hs
  · obtain rfl := Option.some.inj hs
    exact h.setRun hr fun w hw => by cases hw
  · cases hs

end Lib.InPlace
