import StudioWorker.Config.Daemon

/-!
# Config.LostUpdate — edits and registration writes side by side

`Written` is what each party wrote last, field by field, with nobody else to undo it.  An edit
assigns the whole config it cloned, so a registration write made after the clone is lost, and two
saves that cross the assignments leave the file behind the memory.  `Ordered` is the order of steps
in which neither happens; along it the config in memory is `Written` and the file holds it.
-/

namespace StudioWorker

open Lib Lib.System

/-- What each party wrote last to each field it owns. -/
structure Written where
  editable : EditableConfig
  registration : Registration

def Written.of (cfg : Config) : Written := ⟨EditableConfig.fromConfig cfg, cfg.registration⟩

namespace ConfigDaemon

variable {parse : String → Option Url} {d₀ d d' : ConfigDaemon} {e : ConfigEvent} {w : Written}

/-- Record the edit that is assigned, or the fields auto-register writes. -/
def noteWritten (w : Written) (d : ConfigDaemon) (e : ConfigEvent) : Written where
  editable := (d.editOf e).getD w.editable
  registration :=
    match d.writeOf e with
    | some a => (a.fields d.cfg).onto w.registration
    | none => w.registration

/-- Every save of the step succeeds. -/
def SavesOk : ConfigEvent → Prop
  | .updateSaves _ ok | .tickSaves ok => ok = true
  | _ => True

instance : DecidablePred SavesOk
  | .updateSaves _ ok | .tickSaves ok => inferInstanceAs (Decidable (ok = true))
  | .updateStarts _ | .updateAssigns _ | .tickStarts | .ensures _ _ | .branches | .readsSecret
  | .storesSecret _ | .requestEnds _ | .pollFails | .pollEnds _ | .resets => isTrue trivial

/-- The order of steps in which no write is undone: an edit saves while no write of auto-register
is still to be saved, of two edits the one saved last is assigned last, `create_request` finds the
secret that `ensure_install_state` saw to, and auto-register writes while no edit is between its
clone and its assignment. -/
def Ordered (d : ConfigDaemon) : ConfigEvent → Prop
  | .updateSaves _ _ => d.tick.snapshot = none
  | .updateAssigns k => d.saved.length = 1 ∨ k + 1 < d.saved.length
  | .storesSecret _ => False
  | e => (d.writeOf e).isSome → d.cloned = [] ∧ d.saved = []

instance : DecidablePred (Ordered d)
  | .updateSaves _ _ => inferInstanceAs (Decidable (d.tick.snapshot = none))
  | .updateAssigns k => inferInstanceAs (Decidable (d.saved.length = 1 ∨ k + 1 < d.saved.length))
  | .storesSecret _ => isFalse not_false
  | .updateStarts _ | .tickStarts | .ensures _ _ | .tickSaves _ | .branches | .readsSecret
  | .requestEnds _ | .pollFails | .pollEnds _ | .resets =>
    inferInstanceAs (Decidable ((d.writeOf _).isSome → d.cloned = [] ∧ d.saved = []))

theorem Ordered.write {a : AutoWrite} (ho : Ordered d e) (hw : d.writeOf e = some a) :
    (d.cloned = [] ∧ d.saved = []) ∧ ∀ secret, e ≠ .storesSecret secret := by
  have hsome : (d.writeOf e).isSome := by rw [hw]; rfl
  cases e with
  | updateSaves k ok => cases hw
  | updateAssigns k => cases hw
  | storesSecret secret => exact ho.elim
  | _ => exact ⟨ho hsome, fun secret he => by cases he⟩

/-- The memory holds what was written, and the file holds the memory up to the writes on their
way. -/
structure Kept (d₀ d : ConfigDaemon) (w : Written) : Prop where
  editable : EditableConfig.fromConfig d.cfg = w.editable
  registration : d.cfg.registration = w.registration
  clones : ∀ u ∈ d.cloned, u.current.registration = d.cfg.registration
  assigns : ∀ u ∈ d.saved, u.current.registration = d.cfg.registration
  saving : ∀ c, d.tick.snapshot = some c → c = d.cfg ∧ d.saved = []
  fileSaved : ∀ u, d.saved.getLast? = some u → d.file = some u.next
  fileKept : d.tick.snapshot = none → d.saved = [] →
    d.file = some d.cfg ∨ (d.file = d₀.file ∧ d.cfg = d₀.cfg)

theorem Settled.kept (hs : d₀.Settled) : Kept d₀ d₀ (Written.of d₀.cfg) where
  editable := rfl
  registration := rfl
  clones u hu := by rw [hs.cloned] at hu; cases hu
  assigns u hu := by rw [hs.saved] at hu; cases hu
  saving c hc := by rw [hs.tick] at hc; cases hc
  fileSaved u hu := by rw [hs.saved] at hu; cases hu
  fileKept _ _ := Or.inr ⟨rfl, rfl⟩

theorem noteWritten_of_none (hw : d.writeOf e = none) (hed : d.editOf e = none) :
    noteWritten w d e = w := by
  unfold noteWritten
  rw [hw, hed]
  rfl

/-! ## What one change keeps -/

/-- A registration write with no edit on its way is in memory, and its copy is to be saved. -/
theorem Kept.write {a : AutoWrite} {t : TickPhase} (hk : Kept d₀ d w) (hc : d.cloned = [])
    (hsv : d.saved = []) (ht : t.snapshot = some (a.apply d.cfg)) :
    Kept d₀ { d with cfg := a.apply d.cfg, tick := t }
      ⟨w.editable, (a.fields d.cfg).onto w.registration⟩ := by
  refine ⟨?_, ?_, ?_, ?_, ?_, ?_, ?_⟩
  · rw [AutoWrite.apply_editable]
    exact hk.editable
  · rw [AutoWrite.apply_registration, hk.registration]
  · intro u hu
    rw [hc] at hu
    cases hu
  · intro u hu
    rw [hsv] at hu
    cases hu
  · intro c hcs
    exact ⟨(Option.some.inj (ht.symm.trans hcs)).symm, hsv⟩
  · intro u hu
    rw [hsv] at hu
    cases hu
  · intro hn
    cases ht.symm.trans hn

/-- Once its copy is saved the file holds the memory. -/
theorem Kept.save {c : Config} {t : TickPhase} (hk : Kept d₀ d w) (hc : d.tick.snapshot = some c)
    (ht : t.snapshot = none) : Kept d₀ { d with file := some c, tick := t } w := by
  obtain ⟨rfl, hsv⟩ := hk.saving c hc
  exact { hk with
    saving := fun c hc => by cases ht.symm.trans hc
    fileSaved := fun u hu => by rw [hsv] at hu; cases hu
    fileKept := fun _ _ => Or.inl rfl }

/-- A clone holds the registration in memory. -/
theorem Kept.clone {edit : EditableConfig} (hk : Kept d₀ d w) :
    Kept d₀ { d with cloned := d.cloned ++ [⟨d.cfg, edit⟩] } w :=
  { hk with
    clones := fun u hu => by
      rcases List.mem_append.mp hu with hu | hu
      · exact hk.clones u hu
      · rw [List.mem_singleton.mp hu] }

/-- The file holds the edit saved last. -/
theorem Kept.updateSave {k : ℕ} {u : Update} (hk : Kept d₀ d w) (hget : d.cloned[k]? = some u)
    (hn : d.tick.snapshot = none) :
    Kept d₀ { d with
      cloned := d.cloned.eraseIdx k, saved := d.saved ++ [u], file := some u.next } w :=
  { hk with
    clones := fun v hv => hk.clones v (List.mem_of_mem_eraseIdx hv)
    assigns := fun v hv => by
      rcases List.mem_append.mp hv with hv | hv
      · exact hk.assigns v hv
      · rw [List.mem_singleton.mp hv]
        exact hk.clones u (Pool.mem_of_getElem? hget)
    saving := fun c hc => by cases hn.symm.trans hc
    fileSaved := fun v hv => by
      rw [List.getLast?_append, List.getLast?_singleton] at hv
      rw [← Option.some.inj hv]
    fileKept := fun _ hv => absurd hv (by simp) }

/-- The only edit still to be assigned is the one saved last. -/
theorem getLast?_of_length_one {k : ℕ} {u : Update} (hget : d.saved[k]? = some u)
    (h1 : d.saved.length = 1) : d.saved.getLast? = some u ∧ d.saved.eraseIdx k = [] := by
  obtain ⟨v, hv⟩ := List.length_eq_one_iff.mp h1
  have hk : k = 0 := by
    have hlt := (List.getElem?_eq_some_iff.mp hget).1
    omega
  rw [hv, hk] at hget ⊢
  obtain rfl : v = u := Option.some.inj hget
  exact ⟨rfl, rfl⟩

/-- An assignment puts back the registration that is in memory, and the edit it was saved with. -/
theorem Kept.assign {k : ℕ} {u : Update} (hk : Kept d₀ d w) (hget : d.saved[k]? = some u)
    (hord : d.saved.length = 1 ∨ k + 1 < d.saved.length) :
    Kept d₀ { d with saved := d.saved.eraseIdx k, cfg := u.next } ⟨u.edit, w.registration⟩ := by
  have hu : u ∈ d.saved := Pool.mem_of_getElem? hget
  have hreg : u.next.registration = d.cfg.registration := by
    rw [Update.next_registration]
    exact hk.assigns u hu
  have hn : d.tick.snapshot = none := by
    cases hc : d.tick.snapshot with
    | none => rfl
    | some c =>
      rw [(hk.saving c hc).2] at hu
      cases hu
  refine ⟨Update.next_editable u, hreg.trans hk.registration, ?_, ?_, ?_, ?_, ?_⟩
  · intro v hv
    exact (hk.clones v hv).trans hreg.symm
  · intro v hv
    exact (hk.assigns v (List.mem_of_mem_eraseIdx hv)).trans hreg.symm
  · intro c hc
    cases hn.symm.trans hc
  · intro v hv
    dsimp only at hv
    rcases hord with h1 | hlt
    · rw [(getLast?_of_length_one hget h1).2] at hv
      cases hv
    · -- the edit saved last is still to be assigned
      rw [Pool.getLast?_eraseIdx hlt] at hv
      exact hk.fileSaved v hv
  · intro _ hemp
    rcases hord with h1 | hlt
    · exact Or.inl (hk.fileSaved u (getLast?_of_length_one hget h1).1)
    · have hlen := congrArg List.length hemp
      rw [List.length_eraseIdx_of_lt (by omega), List.length_nil] at hlen
      omega

/-- An ordered step keeps the memory as written and the file behind it by what is on its way. -/
theorem kept_step (hs : step parse d e = some d') (hok : SavesOk e) (ho : Ordered d e)
    (hk : Kept d₀ d w) : Kept d₀ d' (noteWritten w d e) := by
  cases step_change hs with
  | moves hw hed ht =>
    rw [noteWritten_of_none hw hed]
    exact { hk with
      saving := fun c hc => hk.saving c (ht ▸ hc)
      fileKept := fun hn => hk.fileKept (ht ▸ hn) }
  | @writes a t hw hed ht =>
    obtain ⟨⟨hc, hsv⟩, hsecret⟩ := ho.write hw
    have ht : t.snapshot = some (a.apply d.cfg) :=
      ht.resolve_right fun ⟨secret, he⟩ => hsecret secret he
    have hnote : noteWritten w d e = ⟨w.editable, (a.fields d.cfg).onto w.registration⟩ := by
      unfold noteWritten
      rw [hw, hed]
      rfl
    rw [hnote]
    exact hk.write hc hsv ht
  | @saves c ok t he hc ht =>
    subst he
    obtain rfl : ok = true := hok
    exact hk.save hc ht
  | clones he =>
    subst he
    exact hk.clone
  | updateSaves he hget =>
    subst he
    exact hk.updateSave hget ho
  | updateFails he _ =>
    subst he
    cases hok
  | @assigns k u he hget =>
    subst he
    have hnote : noteWritten w d (.updateAssigns k) = ⟨u.edit, w.registration⟩ := by
      rw [noteWritten, editOf, hget]
      rfl
    rw [hnote]
    exact hk.assign hget ho

/-! ## Over whole runs -/

/-- **No write is lost.**  Start with no call on its way and no write to save.  Over any run of
edits and registration steps with every save succeeding and the steps `Ordered`: the memory holds
the last value each party wrote to each of its fields, and whenever no call is on its way the file
holds the memory (or nothing has been written yet). -/
theorem no_write_lost {es : List ConfigEvent} (hsettled : d₀.Settled)
    (hr : run (noting (step parse) noteWritten) (d₀, Written.of d₀.cfg) es = some (d, w))
    (hok : Along (step parse) (fun d e => SavesOk e ∧ Ordered d e) d₀ es) :
    EditableConfig.fromConfig d.cfg = w.editable ∧ d.cfg.registration = w.registration ∧
    (d.Settled → d.file = some d.cfg ∨ (d.file = d₀.file ∧ d.cfg = d₀.cfg)) := by
  have hk : Kept d₀ d w := along_invariant (I := fun s : ConfigDaemon × Written => Kept d₀ s.1 s.2)
    (fun s e t hI hok hs => by
      obtain ⟨h1, h2⟩ := noting_some.mp hs
      exact h2 ▸ kept_step h1 hok.1 hok.2 hI)
    es _ _ hsettled.kept hok.noting hr
  exact ⟨hk.editable, hk.registration, fun h => hk.fileKept h.tick h.saved⟩

/-- A daemon whose request is with the studio. -/
def pendingDaemon : ConfigDaemon :=
  let cfg := ((Config.default "/home/op/models").ensureInstallState "install" "secret").1
  ⟨cfg.storeRequestId "request", some (cfg.storeRequestId "request"), [], [], .idle⟩

/-- An edit that turns the idle-only switch on. -/
def idleEdit : EditableConfig :=
  { EditableConfig.fromConfig pendingDaemon.cfg with onlyWhenIdle := true }

/-- Every URL of these configs parses, with a host. -/
def httpsUrls (_ : String) : Option Url := some ⟨"https", true⟩

/-- An edit after the approval keeps the credentials. -/
theorem no_write_lost_approved :
    ∃ s, run (noting (step httpsUrls) noteWritten) (pendingDaemon, Written.of pendingDaemon.cfg)
        [.tickStarts, .ensures "uuid" "fresh", .branches,
          .pollEnds (some (.approved "w-1" "token")), .tickSaves true,
          .updateStarts idleEdit, .updateSaves 0 true, .updateAssigns 0] = some s ∧
      s.2.registration.authToken = some "token" ∧
      s.1.cfg.registration = s.2.registration ∧ s.1.file = some s.1.cfg := by
  refine exists_run (P := fun s => s.2.registration.authToken = some "token" ∧
    s.1.file = some s.1.cfg) (by decide +kernel) fun s hr hs => ⟨hs.1, ?_, hs.2⟩
  exact (no_write_lost ⟨rfl, rfl, rfl⟩ hr (by decide +kernel)).2.1

/-- Credentials approved while an edit is being saved are gone from memory and from the file once
both calls have returned. -/
theorem approval_lost :
    ∃ s, run (noting (step httpsUrls) noteWritten) (pendingDaemon, Written.of pendingDaemon.cfg)
        [.tickStarts, .ensures "uuid" "fresh", .branches, .updateStarts idleEdit,
          .pollEnds (some (.approved "w-1" "token")), .tickSaves true,
          .updateSaves 0 true, .updateAssigns 0] = some s ∧
      s.1.Settled ∧ s.2.registration.authToken = some "token" ∧ s.1.cfg.authToken = none ∧
      s.1.file = some s.1.cfg := by
  refine exists_run (P := fun s => (s.1.cloned = [] ∧ s.1.saved = [] ∧ s.1.tick.snapshot = none) ∧
    s.2.registration.authToken = some "token" ∧ s.1.cfg.authToken = none ∧
    s.1.file = some s.1.cfg) (by decide +kernel) fun s _ hs => ⟨?_, hs.2⟩
  exact ⟨hs.1.1, hs.1.2.1, hs.1.2.2⟩

end ConfigDaemon

end StudioWorker
