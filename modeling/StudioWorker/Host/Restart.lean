import StudioWorker.Host.Change

/-!
# Host.Restart — residency across restarts of the daemon

A restart keeps the residency file and nothing else: it starts a host with nothing loaded, reads
the file and restores what it finds, in catalogue order, before the local API serves requests.

Over one exclusive group, `last` is a history variable: the member whose `load` the operator was
last answered.  `Follows` says that it is the only member the host, the file or a restore in
progress can bring back.  A `load` parts them when it finds another resident member that is neither
loading nor loaded, because only those are swapped out.
-/

namespace StudioWorker

open Lib Lib.System

/-- What happens to a daemon: an event of its host, or a restart. -/
inductive DaemonEvent where
  | host (e : HostEvent)
  | restart (renamed : Bool)

namespace ModelHost

variable {cat : Catalog} {h h' : ModelHost} {e : HostEvent} {g a b : String}
  {path last : Option String}

/-- The daemon at start: the residency from the file, and its restore under way. -/
def boot (cat : Catalog) (path : Option String) (file : FileRead) (renamed : Bool) : ModelHost :=
  let h := ModelHost.new (Residency.loadForServing path file renamed)
  { h with restores := [h.restoreIds cat] }

/-- The local API serves requests only once the restore at start has returned. -/
def Serves (h : ModelHost) : HostEvent → Prop
  | .load _ _ _ | .unload _ _ => h.restores = []
  | _ => True

instance : Decidable (h.Serves e) := by
  cases e <;> unfold Serves <;> infer_instance

/-- One event of a daemon whose residency file is at `path`. -/
def daemonStep (cat : Catalog) (path : Option String) : System ModelHost DaemonEvent
  | h, .host e => if h.Serves e then step cat h e else none
  | h, .restart renamed => some (boot cat path h.residency.file renamed)

/-- The `load` the operator is answered, if it is of a member of `g`. -/
def operatorLoad (cat : Catalog) (g : String) (h : ModelHost) : HostEvent → Option String
  | .load id probe save => (h.answeredLoad cat (.load id probe save)).filter fun id => cat.Member g id
  | _ => none

/-- The member of `g` the operator was last answered a `load` of. -/
def noteLast (cat : Catalog) (g : String) (last : Option String) (h : ModelHost) :
    DaemonEvent → Option String
  | .host e => (h.operatorLoad cat g e).or last
  | .restart _ => last

/-- Every save the event makes succeeds. -/
def DaemonSavesOk : DaemonEvent → Prop
  | .host e => SavesOk e
  | .restart _ => True

/-- A `load` the operator is answered finds the other resident members of its group loading or
loaded. -/
def SwapsResidents (cat : Catalog) (g : String) (h : ModelHost) : DaemonEvent → Prop
  | .host e => ∀ id ∈ h.operatorLoad cat g e, ∀ o ∈ h.residency.resident,
      cat.Member g o → o ≠ id → (h.state o).swappable = true
  | .restart _ => True

instance {e : DaemonEvent} : Decidable (SwapsResidents cat g h e) := by
  cases e <;> unfold SwapsResidents <;> infer_instance

/-! ## The pieces of a step -/

/-- The operator's own `load` leaves the restores alone. -/
theorem operatorLoad_restores (ha : h.operatorLoad cat g e = some a) (hs : step cat h e = some h') :
    h'.restores = h.restores := by
  cases e with
  | load id probe save =>
    rw [step, Option.some.injEq] at hs
    subst hs
    rcases load_cases cat h probe save id with ⟨err, h1⟩ | ⟨model, -, -, h1⟩
    · rw [h1]
    · rw [h1, loadLocked_restores]
  | _ => cases ha

theorem operatorLoad_some (ha : h.operatorLoad cat g e = some a) :
    h.answeredLoad cat e = some a ∧ cat.Member g a ∧ (h.Serves e → h.restores = []) := by
  cases e with
  | load id probe save =>
    obtain ⟨h1, h2⟩ := Option.filter_eq_some_iff.mp ha
    exact ⟨h1, of_decide_eq_true h2, fun hh => hh⟩
  | _ => cases ha

/-- A `load` that is answered is the operator's, of another group, or the next of a restore. -/
theorem answeredLoad_cases (ha : h.answeredLoad cat e = some a) (hg : cat.Member g a) :
    h.operatorLoad cat g e = some a ∨ ∃ ids ∈ h.restores, a ∈ ids := by
  obtain ⟨c, hc, hans⟩ := Option.bind_eq_some_iff.mp ha
  split_ifs at hans
  obtain rfl := Option.some.inj hans
  rcases loadCall_some hc with ⟨id, probe, save, rfl, rfl⟩ | ⟨k, probe, save, id, rest, rfl, hk, rfl⟩
  · left
    rw [operatorLoad, ha, Option.filter_some, if_pos (decide_eq_true hg)]
  · exact Or.inr ⟨id :: rest, List.mem_of_getElem? hk, List.mem_cons_self⟩

/-- The restores left beside a `load` call hold nothing new. -/
theorem loadCall_restores {c : LoadCall} (hc : h.loadCall e = some c) {ids : List String}
    (hids : ids ∈ c.restores) (ha : a ∈ ids) : ∃ ids₀ ∈ h.restores, a ∈ ids₀ := by
  rcases loadCall_some hc with ⟨id, probe, save, rfl, rfl⟩ | ⟨k, probe, save, id, rest, rfl, hk, rfl⟩
  · exact ⟨ids, hids, ha⟩
  · rcases Pool.mem_set hk hids with rfl | hids
    · exact ⟨id :: ids, List.mem_of_getElem? hk, List.mem_cons_of_mem _ ha⟩
    · exact ⟨ids, hids, ha⟩

/-- What a restore still has to load was in it before, or is resident as it begins. -/
theorem step_restores (hs : step cat h e = some h') {ids : List String} (hids : ids ∈ h'.restores)
    (ha : a ∈ ids) : (∃ ids₀ ∈ h.restores, a ∈ ids₀) ∨ a ∈ h.residency.resident := by
  cases step_trans hs with
  | loadRejected hc _ => exact Or.inl (loadCall_restores hc hids ha)
  | loadFails hc _ _ hl =>
    obtain rfl := congrArg Prod.snd hl
    rw [loadLocked_restores] at hids
    exact Or.inl (loadCall_restores hc hids ha)
  | load hc _ _ _ hl =>
    obtain rfl := congrArg Prod.snd hl
    rw [loadLocked_restores] at hids
    exact Or.inl (loadCall_restores hc hids ha)
  | unload _ _ hl =>
    obtain rfl := congrArg Prod.snd hl
    rw [unloadLocked_restores] at hids
    exact Or.inl ⟨ids, hids, ha⟩
  | restore =>
    rcases List.mem_append.mp hids with hids | hids
    · exact Or.inl ⟨ids, hids, ha⟩
    · right
      rw [List.mem_singleton.mp hids] at ha
      exact of_decide_eq_true (List.mem_filter.mp ha).2
  | restored _ => exact Or.inl ⟨ids, List.mem_of_mem_eraseIdx hids, ha⟩
  | loadEnds _ _ =>
    rw [finishLoad_restores] at hids
    exact Or.inl ⟨ids, hids, ha⟩
  | unloadEnds _ _ =>
    rw [finishUnload_restores] at hids
    exact Or.inl ⟨ids, hids, ha⟩
  | _ => exact Or.inl ⟨ids, hids, ha⟩

theorem persists_step (hs : step cat h e = some h')
    (hp : h.residency.Persists path) : h'.residency.Persists path := by
  have hset : ∀ (h : ModelHost) (o : String) (b : Bool) (s : Except String Unit),
      h.residency.Persists path → (h.setResident o b s).2.residency.Persists path :=
    fun _ _ _ _ => Residency.persists_set
  have hload : ∀ {c : LoadCall} {model : CatalogModel}, ({ h with
      restores := c.restores }.loadLocked model cat.models c.probe c.save
        c.id).2.residency.Persists path := fun {c model} =>
    loadLocked_keeps (I := fun h => h.residency.Persists path) (fun h o b s _ => hset h o b s)
      (fun _ _ hI => by simpa using hI) (fun _ _ hI => by simpa using hI) hp
  cases step_trans hs with
  | loadFails _ _ _ hl =>
    obtain rfl := congrArg Prod.snd hl
    exact hload
  | load _ _ _ _ hl =>
    obtain rfl := congrArg Prod.snd hl
    exact hload
  | unload _ _ hl =>
    obtain rfl := congrArg Prod.snd hl
    exact unloadLocked_keeps (I := fun h => h.residency.Persists path) hset
      (fun _ _ hI => by simpa using hI) hp
  | loadEnds _ _ => rw [finishLoad_residency]; exact hp
  | unloadEnds _ _ => rw [finishUnload_residency]; exact hp
  | _ => exact hp

/-! ## Only the last one can come back -/

/-- The member of `g` the operator last asked for is the only one resident, and the only one a
restore in progress can load. -/
structure FollowsLast (cat : Catalog) (g : String) (h : ModelHost) (last : Option String) :
    Prop where
  resident : ∀ a ∈ h.residency.resident, cat.Member g a → last = some a
  restores : ∀ ids ∈ h.restores, ∀ a ∈ ids, cat.Member g a → last = some a

theorem followsLast_step (hm : h.Matched) (hserve : h.Serves e) (hs : step cat h e = some h')
    (hsave : SavesOk e) (hswap : SwapsResidents cat g h (.host e))
    (hf : FollowsLast cat g h last) :
    FollowsLast cat g h' (noteLast cat g last h (.host e)) := by
  have hnote : h.operatorLoad cat g e = none → noteLast cat g last h (.host e) = last := by
    intro hn
    simp only [noteLast, hn, Option.none_or]
  have hnone : h.answeredLoad cat e = none → noteLast cat g last h (.host e) = last := by
    intro hn
    refine hnote (Option.eq_none_iff_forall_ne_some.mpr fun a ha => ?_)
    rw [(operatorLoad_some ha).1] at hn
    cases hn
  constructor
  · intro a ha hg
    cases step_change hm hs with
    | quiet hans _ _ hres =>
      rw [hnone hans]
      exact hf.resident a (hres ▸ ha) hg
    | loadFails hc hans _ hl _ _ =>
      rw [hnone hans]
      exact hf.resident a ((loadFails_quiet hsave hc hl).2 ▸ ha) hg
    | unload hans _ hres _ _ =>
      rw [hnone hans]
      exact hf.resident a ((hres a).mp ha).1 hg
    | loadEnds _ hans _ _ _ hres =>
      rw [hnone hans]
      exact hf.resident a (hres ▸ ha) hg
    | unloadEnds hans _ _ _ hres =>
      rw [hnone hans]
      exact hf.resident a (hres ▸ ha) hg
    | @load c model hc hans _ hget _ _ hres _ _ =>
      rcases (hres a).mp ha with rfl | ⟨hold, hout⟩
      · rcases answeredLoad_cases hans hg with h1 | ⟨ids, hids, hmem⟩
        · simp only [noteLast, h1, Option.some_or]
        · cases hop : h.operatorLoad cat g e with
          | none => rw [hnote hop]; exact hf.restores ids hids _ hmem hg
          | some id =>
            rw [(operatorLoad_some hop).2.2 hserve] at hids
            cases hids
      · cases hop : h.operatorLoad cat g e with
        | none => rw [hnote hop]; exact hf.resident a hold hg
        | some id =>
          -- another resident member would have been swapped out
          obtain ⟨h1, h2, -⟩ := operatorLoad_some hop
          obtain rfl : c.id = id := Option.some.inj (hans.symm.trans h1)
          by_cases hac : a = c.id
          · simp only [noteLast, hop, Option.some_or, hac]
          · have hsw := hswap c.id hop a hold hg hac
            obtain ⟨ma, h3, h4⟩ := hg
            obtain ⟨mc, h5, h6⟩ := h2
            refine absurd ((mem_swapOut_iff hget).mpr ⟨(Catalog.mem_rivals h5).mpr
              ⟨hac, g, h6, ma, Catalog.get_mem h3, Catalog.get_id h3, h4⟩, hsw⟩) hout
  · intro ids hids a ha hg
    have h1 : (∃ ids₀ ∈ h.restores, a ∈ ids₀) ∨ a ∈ h.residency.resident :=
      step_restores hs hids ha
    cases hop : h.operatorLoad cat g e with
    | none =>
      rw [hnote hop]
      rcases h1 with ⟨ids₀, h2, h3⟩ | h2
      · exact hf.restores ids₀ h2 a h3 hg
      · exact hf.resident a h2 hg
    | some id =>
      -- the operator is not served while a restore is in progress
      rw [operatorLoad_restores hop hs, (operatorLoad_some hop).2.2 hserve] at hids
      cases hids

/-! ## Over whole runs -/

theorem mem_restoreIds (ha : a ∈ h.restoreIds cat) : a ∈ h.residency.resident :=
  of_decide_eq_true (List.mem_filter.mp ha).2

theorem boot_resident (file : FileRead) (renamed : Bool) :
    (boot cat path file renamed).residency.resident = Residency.readBack path file :=
  Residency.loadForServing_resident path file renamed

/-- A start brings back what the file holds and nothing else. -/
theorem followsLast_boot {file : FileRead} {renamed : Bool}
    (hfile : ∀ a ∈ Residency.readBack path file, cat.Member g a → last = some a) :
    FollowsLast cat g (boot cat path file renamed) last := by
  have hres : ∀ a ∈ (boot cat path file renamed).residency.resident, cat.Member g a →
      last = some a := by
    rw [boot_resident]
    exact hfile
  refine ⟨hres, fun ids hids a ha => hres a ?_⟩
  rw [List.mem_singleton.mp hids] at ha
  exact mem_restoreIds ha

/-- What holds of a daemon between any two events. -/
structure Running (cat : Catalog) (path : Option String) (g : String) (h : ModelHost)
    (last : Option String) : Prop where
  matched : h.Matched
  persists : h.residency.Persists path
  follows : FollowsLast cat g h last

theorem running_boot {file : FileRead} {renamed : Bool}
    (hfile : ∀ a ∈ Residency.readBack path file, cat.Member g a → last = some a) :
    Running cat path g (boot cat path file renamed) last :=
  ⟨(matched_new _).withRestores _, Residency.persists_loadForServing path file renamed,
    followsLast_boot hfile⟩

theorem running_step {e : DaemonEvent} (hs : daemonStep cat path h e = some h')
    (hsave : DaemonSavesOk e) (hswap : SwapsResidents cat g h e)
    (hr : Running cat path g h last) : Running cat path g h' (noteLast cat g last h e) := by
  cases e with
  | host e =>
    rw [daemonStep] at hs
    split_ifs at hs with hserve
    exact ⟨matched_step hs hr.matched, persists_step hs hr.persists,
      followsLast_step hr.matched hserve hs hsave hswap hr.follows⟩
  | restart renamed =>
    rw [daemonStep, Option.some.injEq] at hs
    subst hs
    exact running_boot fun a ha => hr.follows.resident a (hr.persists.sub ha)

/-- **The last `load` is the one that comes back.**  If the file the daemon starts from holds at
most one member of `g`, then over any run of requests, ends of background work and restarts in
which every answered `load` finds the other resident members of its group loading or loaded: at
most one member is resident, it is the one whose `load` was last answered, and a restore loads no
other. -/
theorem last_load_comes_back {file : FileRead} {renamed : Bool} {last₀ : Option String}
    {es : List DaemonEvent}
    (hfile : ∀ a ∈ Residency.readBack path file, cat.Member g a → last₀ = some a)
    (hr : run (noting (daemonStep cat path) (noteLast cat g))
      (boot cat path file renamed, last₀) es = some (h, last))
    (hok : Along (daemonStep cat path) (fun h e => DaemonSavesOk e ∧ SwapsResidents cat g h e)
      (boot cat path file renamed) es) :
    (∀ a ∈ h.residency.resident, ∀ b ∈ h.residency.resident,
      cat.Member g a → cat.Member g b → a = b) ∧
    (∀ a ∈ h.residency.resident, cat.Member g a → last = some a) ∧
    (∀ ids ∈ h.restores, ∀ a ∈ ids, cat.Member g a → last = some a) := by
  have hf : Running cat path g h last := along_invariant
    (I := fun s : ModelHost × Option String => Running cat path g s.1 s.2)
    (fun s e t hI hok hs => by
      obtain ⟨h1, h2⟩ := noting_some.mp hs
      exact h2 ▸ running_step h1 hok.1 hok.2 hI)
    es _ _ (running_boot hfile) hok.noting hr
  refine ⟨fun a ha b hb hga hgb => ?_, hf.follows.resident, hf.follows.restores⟩
  exact Option.some.inj ((hf.follows.resident a ha hga).symm.trans (hf.follows.resident b hb hgb))

/-- A daemon with no residency file yet. -/
def firstStart : ModelHost := boot pairCatalog (some "residency.json") .notFound false

/-- A swap and a restart: `b` is what comes back. -/
theorem last_load_comes_back_swap :
    ∃ s, run (noting (daemonStep pairCatalog (some "residency.json")) (noteLast pairCatalog "g"))
        (firstStart, none)
        [.host (.restoreNext 0 roomy Saves.ok), .host (.load "a" roomy Saves.ok),
          .host (.load "b" roomy Saves.ok), .restart false] = some s ∧
      s.1.restores = [["b"]] ∧ s.2 = some "b" ∧
      ∀ a ∈ s.1.residency.resident, pairCatalog.Member "g" a → s.2 = some a := by
  refine exists_run (P := fun s => s.1.restores = [["b"]] ∧ s.2 = some "b") (by decide +kernel)
    fun s hr hs => ⟨hs.1, hs.2, ?_⟩
  have hok : ∀ e ∈ [DaemonEvent.host (.restoreNext 0 roomy Saves.ok),
      .host (.load "a" roomy Saves.ok), .host (.load "b" roomy Saves.ok), .restart false],
      DaemonSavesOk e := by
    simp [DaemonSavesOk, SavesOk]
  exact (last_load_comes_back (by decide) hr
    ((along_of_forall hok).and (by decide +kernel))).2.1

/-- A load that failed stays resident beside the member loaded after it, and comes back first. -/
theorem failed_load_comes_back :
    ∃ s, run (noting (daemonStep pairCatalog (some "residency.json")) (noteLast pairCatalog "g"))
        (firstStart, none)
        [.host (.restoreNext 0 roomy Saves.ok), .host (.load "a" roomy Saves.ok),
          .host (.loadEnds 0 (.error "out of memory")), .host (.load "b" roomy Saves.ok),
          .restart false, .host (.restoreNext 0 roomy Saves.ok)] = some s ∧
      s.2 = some "b" ∧ "a" ∈ s.1.residency.resident ∧ "b" ∈ s.1.residency.resident ∧
      s.1.state "a" = .loading :=
  exists_run (by decide +kernel) fun _ _ hs => hs

end ModelHost

end StudioWorker
