import StudioWorker.Host.Memory

/-!
# Host.Transient — one job beside the loaded models

The job gate lets one transient job through at a time: `admit_transient`, then its own load, its
run and its release, outside every lifecycle.  From admission to release the host's account does
not know of it; only a probed device shows its weights, and only once they are placed.

* `step_loadedGib`: only an admitted load raises what the models take, by its own estimate.
* `transient_step`: where no load slips past the job, job and models stay within the device.
-/

namespace StudioWorker

open Lib Lib.System

namespace ModelHost

variable {cat : Catalog} {h h' : ModelHost} {e : HostEvent} {o : String}

/-! ## What a step adds to the account -/

/-- Only an admitted load takes an idle model out of idleness. -/
theorem idle_of_step (hm : h.Matched) (hs : step cat h e = some h')
    (ho : (h.state o).idle = true) :
    (h'.state o).idle = true ∨ ∃ a ∈ h.admitted cat e, a.1.id = o := by
  have hreq : ∀ l : Lifecycle, l.requestUnload.1.state.idle = l.state.idle := fun l => by
    rw [Lifecycle.requestUnload_state, ModelState.idle_afterUnloadRequest]
  cases step_change hm hs with
  | quiet _ _ hent _ => left; unfold state; rw [hent]; exact ho
  | loadFails _ _ _ _ hlc _ =>
    left
    unfold state
    rcases hlc o with h1 | ⟨-, h1⟩
    · rw [h1]; exact ho
    · rw [h1, hreq]; exact ho
  | @load c model hc _ _ hget hen hadm _ hlc _ =>
    by_cases hoc : o = c.id
    · right
      subst hoc
      exact ⟨(c, model), admitted_eq hc hget hen ho hadm, rfl⟩
    · left
      unfold state
      rw [hlc, if_neg hoc]
      split_ifs
      · rw [hreq]; exact ho
      · exact ho
  | unload _ _ _ hlc _ =>
    left
    unfold state
    rw [hlc]
    split_ifs
    · rw [hreq]; exact ho
    · exact ho
  | @loadEnds k t result _ _ _ hst hent _ =>
    left
    have hne : o ≠ t.model.id := by
      rintro rfl
      rw [hst] at ho
      cases ho
    unfold state
    rw [hent, Function.update_of_ne hne]
    exact ho
  | @unloadEnds id _ _ hst hent _ =>
    left
    have hne : o ≠ id := by
      rintro rfl
      rw [hst] at ho
      cases ho
    unfold state
    rw [hent, Function.update_of_ne hne]
    exact ho

/-- With every id once in the catalogue, an id weighs what its entry does. -/
theorem weigh_id {M : Type*} [AddCommMonoid M] (w : CatalogModel → M) {model : CatalogModel} :
    ∀ {models : List CatalogModel}, (models.map (·.id)).Nodup → model ∈ models →
      weigh w (fun m => decide (m.id = model.id)) models = w model
  | [], _, hm => by cases hm
  | a :: models, hnd, hm => by
    rw [List.map_cons, List.nodup_cons] at hnd
    obtain ⟨hnotin, hnd⟩ := hnd
    rw [weigh_cons]
    rcases List.mem_cons.mp hm with rfl | hm
    · have h0 : weigh w (fun m => decide (m.id = model.id)) models = 0 := by
        refine weigh_eq_zero w fun b hb hid => ?_
        exact absurd (List.mem_map.mpr ⟨b, hb, of_decide_eq_true hid⟩) hnotin
      rw [h0, if_pos (decide_eq_true rfl), add_zero]
    · have hne : a.id ≠ model.id := fun hh => hnotin (hh ▸ List.mem_map.mpr ⟨model, hm, rfl⟩)
      rw [if_neg (by simpa using hne), zero_add]
      exact weigh_id w hnd hm

/-- A step adds nothing to what the models take, or the estimate of the load it admits. -/
theorem step_loadedGib (hest : ∀ m ∈ cat.models, 0 ≤ m.vramGbEstimate)
    (hnd : (cat.models.map (·.id)).Nodup) (hm : h.Matched) (hs : step cat h e = some h') :
    h'.loadedGib cat.models ≤ h.loadedGib cat.models ∨
      ∃ a ∈ h.admitted cat e,
        h'.loadedGib cat.models ≤ h.loadedGib cat.models + a.2.vramGbEstimate := by
  have hback : ∀ o, (h'.state o).holdsMemory = true → (h.state o).holdsMemory = true ∨
      ∃ a ∈ h.admitted cat e, a.1.id = o := by
    intro o ho
    cases hi : (h.state o).idle with
    | false => left; simp [hi]
    | true =>
      refine Or.inr ((idle_of_step hm hs hi).resolve_left fun h1 => ?_)
      simp [h1] at ho
  cases ha : h.admitted cat e with
  | none =>
    left
    refine weigh_mono hest fun m _ hh => (hback m.id hh).resolve_right ?_
    rintro ⟨a, h1, -⟩
    rw [ha] at h1
    cases h1
  | some a =>
    right
    obtain ⟨hget, hidle, -⟩ := admitted_some ha
    refine ⟨a, rfl, ?_⟩
    calc h'.loadedGib cat.models
        ≤ weigh (·.vramGbEstimate) (fun m => (h.state m.id).holdsMemory ||
            decide (m.id = a.2.id)) cat.models := by
          refine weigh_mono hest fun m _ hh => ?_
          rw [Bool.or_eq_true, decide_eq_true_eq]
          refine (hback m.id hh).imp_right ?_
          rintro ⟨b, hb, hid⟩
          obtain rfl : a = b := Option.some.inj (ha.symm.trans hb)
          rw [← hid, Catalog.get_id hget]
      _ = h.loadedGib cat.models + weigh (·.vramGbEstimate)
            (fun m => decide (m.id = a.2.id)) cat.models := by
          refine weigh_or _ fun m _ hh => ?_
          refine decide_eq_false fun hid => ?_
          rw [hid, Catalog.get_id hget, ModelState.holdsMemory_eq_not_idle, hidle] at hh
          cases hh
      _ = h.loadedGib cat.models + a.2.vramGbEstimate := by
          rw [weigh_id _ hnd (Catalog.get_mem hget)]

/-- A transient job is admitted where memory is known only if it fits. -/
theorem admitTransient_ok {catalog : List CatalogModel} {probe : Probe} {need : MemoryNeed}
    (hadm : h.admitTransient catalog probe need = .ok ())
    (hknown : freeNow probe (h.loadedGib catalog) ≠ .unknown) :
    admitDevice need.deviceGib (freeNow probe (h.loadedGib catalog)) = .ok () := by
  unfold admitTransient at hadm
  dsimp only at hadm
  rw [if_neg hknown] at hadm
  cases hd : admitDevice need.deviceGib (freeNow probe (h.loadedGib catalog)) with
  | ok u => rfl
  | error r =>
    rw [hd] at hadm
    cases hadm

end ModelHost

/-! ## The host and the job -/

/-- The transient job: none, admitted and not yet loaded, or placed, with the device memory it was
admitted for. -/
inductive Transient where
  | idle
  | admitted (gib : ℚ)
  | placed (gib : ℚ)
deriving DecidableEq

namespace Transient

/-- The device memory of a job between its admission and its release. -/
def inFlight : Transient → Option ℚ
  | idle => none
  | admitted gib | placed gib => some gib

/-- What the job's weights take on the device. -/
def placedGib : Transient → ℚ
  | placed gib => gib
  | _ => 0

end Transient

structure TransientHost where
  host : ModelHost
  transient : Transient

inductive TransientEvent where
  | host (e : HostEvent)
  /-- `admit_transient`, at the moment it reads the account and the device. -/
  | admitTransient (need : MemoryNeed) (probe : Probe)
  /-- The job's weights are placed. -/
  | place
  /-- The job's load failed. -/
  | fail
  /-- The job ended and dropped its model. -/
  | release

namespace TransientHost

open ModelHost

/-- One event of the host with its transient job. -/
def step (cat : Catalog) : System TransientHost TransientEvent
  | s, .host e => (ModelHost.step cat s.host e).map fun h => { s with host := h }
  | s, .admitTransient need probe =>
    if s.transient = .idle then
      match s.host.admitTransient cat.models probe need with
      | .ok () => some { s with transient := .admitted need.deviceGib }
      | .error _ => some s
    else none
  | s, .place =>
    match s.transient with
    | .admitted gib => some { s with transient := .placed gib }
    | _ => none
  | s, .fail =>
    match s.transient with
    | .admitted _ => some { s with transient := .idle }
    | _ => none
  | s, .release =>
    match s.transient with
    | .placed _ => some { s with transient := .idle }
    | _ => none

variable {cat : Catalog} {total : ℚ} {s s' : TransientHost} {e : TransientEvent}

/-- What is in use on the device. -/
def takenGib (s : TransientHost) (cat : Catalog) : ℚ :=
  s.host.placedGib cat.models + s.transient.placedGib

/-- The probe an event reads is faithful, and what a job is admitted on can be measured. -/
def Reads (cat : Catalog) (total : ℚ) (s : TransientHost) : TransientEvent → Prop
  | .host e => ∀ a ∈ s.host.admitted cat e, Measures total (s.takenGib cat) a.1.probe
  | .admitTransient _ probe => Measures total (s.takenGib cat) probe ∧
      (probe.freeGib.isSome ∨ probe.totalGib.isSome)
  | _ => True

/-- No load slips past the job and the job past no load: a load admitted while a job is in flight
reads its placed weights off the device, with no model loading and nothing to swap, and a job is
not admitted off the device while a model is loading. -/
def NoneSlips (cat : Catalog) (s : TransientHost) : TransientEvent → Prop
  | .host e => ∀ a ∈ s.host.admitted cat e, s.transient = .idle ∨
      (s.transient = .placed s.transient.placedGib ∧ a.1.probe.freeGib.isSome ∧
        NoneLoading cat s.host ∧ NothingToSwap cat s.host a.1.id)
  | .admitTransient need probe => 0 ≤ need.deviceGib ∧ (probe.freeGib.isSome → NoneLoading cat s.host)
  | _ => True

/-- The job, while it is in flight, fits beside everything that takes memory. -/
def Fits (cat : Catalog) (total : ℚ) (s : TransientHost) : Prop :=
  ∀ gib ∈ s.transient.inFlight,
    gib + s.host.loadedGib cat.models ≤ total - admissionMarginGib

instance : Decidable (Reads cat total s e) := by
  cases e <;> unfold Reads <;> infer_instance

instance : Decidable (NoneSlips cat s e) := by
  cases e <;> unfold NoneSlips <;> infer_instance

instance : Decidable (Fits cat total s) := by unfold Fits; infer_instance

theorem admitDevice_fits (hest : ∀ m ∈ cat.models, 0 ≤ m.vramGbEstimate) (hm : s.host.Matched)
    {need : MemoryNeed} {probe : Probe} (hidle : s.transient = .idle)
    (hadm : s.host.admitTransient cat.models probe need = .ok ())
    (hreads : Reads cat total s (.admitTransient need probe))
    (hslip : NoneSlips cat s (.admitTransient need probe)) :
    need.deviceGib + s.host.loadedGib cat.models ≤ total - admissionMarginGib := by
  obtain ⟨⟨hfree, htotal⟩, hknown⟩ := hreads
  obtain ⟨hneed, hnone⟩ := hslip
  have htaken : s.takenGib cat = s.host.placedGib cat.models := by
    rw [takenGib, hidle]
    exact add_zero _
  have hmargin : (0 : ℚ) < admissionMarginGib := by decide
  have hfree' : freeNow probe (s.host.loadedGib cat.models) ≠ .unknown := by
    unfold freeNow
    cases hp : probe.freeGib with
    | some gib => simp
    | none =>
      cases ht : probe.totalGib with
      | some t => simp
      | none =>
        rw [hp, ht] at hknown
        simp at hknown
  obtain ⟨-, hfit⟩ := admitDevice_ok (admitTransient_ok hadm hfree')
  cases hp : probe.freeGib with
  | some gib =>
    have hgib : gib = total - s.takenGib cat := hfree gib hp
    rw [loadedGib_eq_placedGib hm hest (hnone (by rw [hp]; rfl))]
    rw [freeNow, hp] at hfit
    simp only [FreeMemory.gib] at hfit
    linarith
  | none =>
    cases ht : probe.totalGib with
    | none => exact absurd (by rw [freeNow, hp, ht]) hfree'
    | some t =>
      obtain rfl : t = total := htotal t ht
      rw [freeNow, hp, ht] at hfit
      simp only [FreeMemory.gib] at hfit
      rcases le_total (s.host.loadedGib cat.models) t with hle | hlt
      · rw [max_eq_left (by linarith)] at hfit
        linarith
      · rw [max_eq_right (by linarith)] at hfit
        linarith

/-- Everything an event can do. -/
inductive Trans (cat : Catalog) (s : TransientHost) : TransientEvent → TransientHost → Prop where
  | host {e : HostEvent} {h : ModelHost} (hs : ModelHost.step cat s.host e = some h) :
      Trans cat s (.host e) { s with host := h }
  | admitted {need : MemoryNeed} {probe : Probe} (hidle : s.transient = .idle)
      (hadm : s.host.admitTransient cat.models probe need = .ok ()) :
      Trans cat s (.admitTransient need probe) { s with transient := .admitted need.deviceGib }
  | refused {need : MemoryNeed} {probe : Probe} : Trans cat s (.admitTransient need probe) s
  | placed {gib : ℚ} (ht : s.transient = .admitted gib) :
      Trans cat s .place { s with transient := .placed gib }
  | failed : Trans cat s .fail { s with transient := .idle }
  | released : Trans cat s .release { s with transient := .idle }

theorem step_trans (hs : step cat s e = some s') : Trans cat s e s' := by
  cases e with
  | host e =>
    obtain ⟨h, hh, rfl⟩ := Option.map_eq_some_iff.mp hs
    exact .host hh
  | admitTransient need probe =>
    rw [step] at hs
    split_ifs at hs with hidle
    cases hadm : s.host.admitTransient cat.models probe need with
    | ok u =>
      rw [hadm] at hs
      exact Option.some.inj hs ▸ .admitted hidle hadm
    | error r =>
      rw [hadm] at hs
      exact Option.some.inj hs ▸ .refused
  | place =>
    rw [step] at hs
    cases ht : s.transient with
    | admitted gib => rw [ht] at hs; exact Option.some.inj hs ▸ .placed ht
    | idle => rw [ht] at hs; cases hs
    | placed gib => rw [ht] at hs; cases hs
  | fail =>
    rw [step] at hs
    cases ht : s.transient with
    | admitted gib => rw [ht] at hs; exact Option.some.inj hs ▸ .failed
    | idle => rw [ht] at hs; cases hs
    | placed gib => rw [ht] at hs; cases hs
  | release =>
    rw [step] at hs
    cases ht : s.transient with
    | placed gib => rw [ht] at hs; exact Option.some.inj hs ▸ .released
    | idle => rw [ht] at hs; cases hs
    | admitted gib => rw [ht] at hs; cases hs

/-- A load admitted beside a job whose weights the device shows leaves both within it. -/
theorem load_fits {e : HostEvent} {a : LoadCall × CatalogModel}
    (hest : ∀ m ∈ cat.models, 0 ≤ m.vramGbEstimate) (hm : s.host.Matched)
    (ha : a ∈ s.host.admitted cat e) (hmeas : Measures total (s.takenGib cat) a.1.probe)
    (hprobed : a.1.probe.freeGib.isSome) (hnone : NoneLoading cat s.host)
    (hswap : NothingToSwap cat s.host a.1.id) :
    s.transient.placedGib + (s.host.loadedGib cat.models + a.2.vramGbEstimate) ≤
      total - admissionMarginGib := by
  obtain ⟨hget, hidle, hadm⟩ := admitted_some ha
  obtain ⟨free, hp⟩ := Option.isSome_iff_exists.mp hprobed
  have hfree : free = total - s.takenGib cat := hmeas.1 free hp
  rw [takenGib, ← loadedGib_eq_placedGib hm hest hnone] at hfree
  unfold admitLoad at hadm
  rw [if_pos hidle] at hadm
  obtain ⟨hknown, hfit⟩ := admitDevice_ok hadm
  rw [credit_gib (mt credit_unknown.mpr hknown), freed_eq_zero hest hget hswap, freeNow, hp] at hfit
  simp only [FreeMemory.gib] at hfit
  linarith

theorem transient_step (hest : ∀ m ∈ cat.models, 0 ≤ m.vramGbEstimate)
    (hnd : (cat.models.map (·.id)).Nodup) (hm : s.host.Matched)
    (hreads : Reads cat total s e) (hslip : NoneSlips cat s e) (hs : step cat s e = some s')
    (hfits : Fits cat total s) : Fits cat total s' := by
  cases step_trans hs with
  | host hh =>
    intro gib hgib
    have h0 := hfits gib hgib
    rcases step_loadedGib hest hnd hm hh with hle | ⟨a, ha, hle⟩
    · exact le_trans ((add_le_add_iff_left gib).mpr hle) h0
    · rcases hslip a ha with hno | ⟨hplaced, hprobed, hnone, hswap⟩
      · rw [Option.mem_def, hno] at hgib
        cases hgib
      · rw [Option.mem_def, hplaced] at hgib
        obtain rfl : s.transient.placedGib = gib := Option.some.inj hgib
        exact le_trans ((add_le_add_iff_left _).mpr hle)
          (load_fits hest hm ha (hreads a ha) hprobed hnone hswap)
  | admitted hidle hadm =>
    intro gib hgib
    obtain rfl := Option.some.inj hgib
    exact admitDevice_fits hest hm hidle hadm hreads hslip
  | refused => exact hfits
  | placed ht =>
    intro gib hgib
    exact hfits gib (by rw [ht]; exact hgib)
  | failed => exact fun gib hgib => by cases hgib
  | released => exact fun gib hgib => by cases hgib

theorem matched_step (hs : step cat s e = some s') (hm : s.host.Matched) : s'.host.Matched := by
  cases step_trans hs with
  | host hh => exact ModelHost.matched_step hh hm
  | _ => exact hm

/-! ## Over whole runs -/

/-- **The transient job fits from its admission to its release**, in every run in which no load
slips past the job and the job past no load. -/
theorem transient_fits {r : Residency} {es : List TransientEvent}
    (hest : ∀ m ∈ cat.models, 0 ≤ m.vramGbEstimate) (hnd : (cat.models.map (·.id)).Nodup)
    (hr : run (step cat) ⟨ModelHost.new r, .idle⟩ es = some s)
    (hok : Along (step cat) (fun s e => Reads cat total s e ∧ NoneSlips cat s e)
      ⟨ModelHost.new r, .idle⟩ es) :
    ∀ gib ∈ s.transient.inFlight,
      gib + s.host.loadedGib cat.models ≤ total - admissionMarginGib :=
  (along_invariant (I := fun s => s.host.Matched ∧ Fits cat total s)
    (fun _ _ _ hI hok hs => ⟨matched_step hs hI.1,
      transient_step hest hnd hI.1 hok.1 hok.2 hs hI.2⟩)
    es _ _ ⟨matched_new r, fun _ hgib => by cases hgib⟩ hok hr).2

/-- A job of 3 GiB beside a placed model, and a load admitted beside the placed job. -/
theorem transient_fits_beside :
    ∃ s, run (step crowd) ⟨empty, .idle⟩
        [.host (.load "a" (probed 10) Saves.ok), .host (.loadEnds 0 (.ok ())),
          .admitTransient ⟨3, none⟩ (probed 5), .place, .host (.load "d" (probed 2) Saves.ok)] = some s ∧
      s.transient = .placed 3 ∧ s.host.state "d" = .loading ∧
      3 + s.host.loadedGib crowd.models ≤ 10 - admissionMarginGib := by
  refine exists_run (P := fun s => s.transient = .placed 3 ∧ s.host.state "d" = .loading)
    (by decide +kernel) fun s hr hs => ⟨hs.1, hs.2, ?_⟩
  exact transient_fits (by decide +kernel) (by decide +kernel) hr (by decide +kernel) 3
    (by rw [hs.1]; rfl)

/-- Three ways past the device, each with every probe faithful: a load admitted before the job's
weights are placed, a load whose account never hears of the job, and a job admitted off the device
while a model is loading. -/
theorem transient_overcommits :
    (∃ s, run (step crowd) ⟨empty, .idle⟩
        [.admitTransient ⟨5, none⟩ (probed 10), .host (.load "e" (probed 10) Saves.ok)] = some s ∧
      Along (step crowd) (Reads crowd 10) ⟨empty, .idle⟩
        [.admitTransient ⟨5, none⟩ (probed 10), .host (.load "e" (probed 10) Saves.ok)] ∧
      ¬ Fits crowd 10 s) ∧
    (∃ s, run (step crowd) ⟨empty, .idle⟩
        [.admitTransient ⟨5, none⟩ accounted, .place, .host (.load "e" accounted Saves.ok)] = some s ∧
      Along (step crowd) (Reads crowd 10) ⟨empty, .idle⟩
        [.admitTransient ⟨5, none⟩ accounted, .place, .host (.load "e" accounted Saves.ok)] ∧
      ¬ Fits crowd 10 s) ∧
    (∃ s, run (step crowd) ⟨empty, .idle⟩
        [.host (.load "e" (probed 10) Saves.ok), .admitTransient ⟨5, none⟩ (probed 10)] = some s ∧
      Along (step crowd) (Reads crowd 10) ⟨empty, .idle⟩
        [.host (.load "e" (probed 10) Saves.ok), .admitTransient ⟨5, none⟩ (probed 10)] ∧
      ¬ Fits crowd 10 s) :=
  ⟨exists_run (P := fun s => ¬ Fits crowd 10 s) (by decide +kernel)
      fun _ _ hs => ⟨by decide +kernel, hs⟩,
    exists_run (P := fun s => ¬ Fits crowd 10 s) (by decide +kernel)
      fun _ _ hs => ⟨by decide +kernel, hs⟩,
    exists_run (P := fun s => ¬ Fits crowd 10 s) (by decide +kernel)
      fun _ _ hs => ⟨by decide +kernel, hs⟩⟩

end TransientHost

end StudioWorker
