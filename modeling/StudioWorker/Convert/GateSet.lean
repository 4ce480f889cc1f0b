import Mathlib.Data.List.Duplicate
import StudioWorker.Convert.Sampler
import StudioWorker.Lib.System
import StudioWorker.VoiceSamples.Names

/-!
# Convert.GateSet — every label's drawings, and their cache (`python/convert/sampler.py`)

A pool's schedule is which state of the world each read meets; a history is the runs before.

* `readCache`, `writeCache`, `drawGateSet`: as in the source.
* `Sound`: what the cache holds are fresh drawings; `triple_drawGateSet`: every run keeps it.
* `history_irrelevant`: when the drawings of a run are the fresh ones, whatever ran before.
-/

namespace StudioWorker.Convert

open Text Lib Lib.Steps

/-- What the drawings depend on, and the directory of the cache. -/
structure World (F : Type) where
  /-- What is behind a URL. -/
  dataset : Text → Bytes
  baseUrl : Text
  seed : ℕ
  cacheDir : Option Text
  /-- The file a path leads to. -/
  lead : Text → F
  /-- Two names of one directory that end differently are two files. -/
  lead_ne : ∀ a b, lead (a ++ ".ndjson.partial".toList) ≠ lead (b ++ ".ndjson".toList)

section Model

variable {D K F σ : Type} [DecidableEq K] [DecidableEq F] (lib : Library D K) (w : World F)

def World.file (label : Text) : Bytes := w.dataset (labelUrl w.baseUrl label)

def World.stream (label : Text) : SplitMix64 := SplitMix64.keyed w.seed label

def World.cachePath (label : Text) : Option Text :=
  w.cacheDir.bind fun dir =>
    if dir = [] then none else some (VoiceSamples.join dir (label ++ ".ndjson".toList))

def World.cache (label : Text) : Option F := (w.cachePath label).map w.lead

/-- The lines of the files that are there. -/
abbrev Files (F : Type) := F → Option (List Text)

/-- The arguments of one run, and what it meets: a state of the world for every read of the pool, a
server for every label's file, and what fails. -/
structure Run (σ : Type) where
  labels : List Text
  count : ℕ
  server : ∀ label, Server (w.file label) Text σ
  /-- Why the size of a label's file is not had. -/
  sizing : Text → Option Text
  pooled : ℕ → ℕ → σ
  redrawing : ℕ → σ
  /-- Why a label's cache is not read. -/
  reading : Text → Option Text
  /-- Why a cache is not written, and what is left of it under the name of the unfinished one. -/
  writing : ℕ → Option (Text × List Text)

def readCache (failure : Option Text) (lines : Option (List Text)) (count : ℕ) :
    Except Text (Option (List D)) :=
  match lines, failure with
  | none, _ => .ok none
  | some _, some why => .error why
  | some lines, none => do
    let cached ← (lines.filter fun line => trim line ≠ []).mapM lib.loadsText
    return if count ≤ cached.length then some (cached.take count) else none

def writeCache (failure : Option (Text × List Text)) (path : Text) (drawings : List D) :
    Steps (Files F) Text Unit := fun files =>
  let unfinished := w.lead (path ++ ".partial".toList)
  match failure with
  | some (why, written) => (.error why, Function.update files unfinished (some written))
  | none => (.ok (), Function.update (Function.update files unfinished none) (w.lead path)
      (some (drawings.map lib.dumps)))

/-- What is planned of a label: its stream after the numbers drawn ahead, and what the pool has
read for these. -/
structure Plan (D : Type) where
  stream : SplitMix64
  futures : List (Except Text D)

variable {w} (run : Run w σ)

def Run.planned (label : Text) (pass : ℕ) : Except Text (Plan D) := do
  let url := labelUrl w.baseUrl label
  let size := (w.file label).length
  let (offsets, stream) ← (w.stream label).offsets size run.count
  return ⟨stream, offsets.mapIdx fun draw offset =>
    (fetch lib (run.server label).read url size offset (run.pooled pass draw)).1⟩

/-- `plans`: a label that comes again is planned again. -/
def Run.plan : List Text → ℕ → (Text → Option (Plan D)) → Except Text (Text → Option (Plan D))
  | [], _, plans => .ok plans
  | label :: missing, pass, plans => do
    match run.sizing label with
    | some why => .error why
    | none =>
      let planned ← run.planned lib label pass
      plan missing (pass + 1) (Function.update plans label (some planned))

def Run.drawMissing : List Text → ℕ → (Text → Option (Plan D)) → (Text → Option (List D)) →
    Steps (Files F) Text (Text → Option (List D))
  | [], _, _, gate => pure gate
  | label :: missing, pass, plans, gate => do
    let plan ← need (plans label) label
    let _ ← result (plan.futures.mapM id)
    let order := ⟨label, labelUrl w.baseUrl label, (w.file label).length, run.count⟩
    let (drawings, stream) ← result (choose lib order (run.server label).read
      (plan.futures.map result) plan.stream (run.redrawing pass)).1
    match w.cachePath label with
    | some path => writeCache lib w (run.writing pass) path drawings
    | none => pure ()
    drawMissing missing (pass + 1) (Function.update plans label (some { plan with stream }))
      (Function.update gate label (some drawings))

def Run.readCaches (files : Files F) : List Text → (Text → Option (List D)) →
    Except Text (Text → Option (List D))
  | [], gate => .ok gate
  | label :: labels, gate => do
    let cached ← readCache lib (run.reading label) ((w.cache label).bind files) run.count
    readCaches files labels (Function.update gate label cached)

def drawGateSet : Steps (Files F) Text (Text → Option (List D)) := do
  let files ← Steps.get
  let gate ← result (run.readCaches lib files run.labels fun _ => none)
  let missing := run.labels.filter fun label => (gate label).isNone
  let plans ← result (run.plan lib missing 0 fun _ => none)
  run.drawMissing lib missing 0 plans gate

end Model

/-! ## What is planned -/

section Planned

variable {D K F σ : Type} {lib : Library D K} {w : World F} {run : Run w σ}

/-- The plan of a label whose stream nobody drew from yet. -/
structure Plan.Ready (lib : Library D K) (w : World F) (count : ℕ) (label : Text) (p : Plan D) :
    Prop where
  stream : p.stream = (w.stream label).drawn count
  fetches : Fetches (σ := σ) lib (w.file label) (w.stream label) (p.futures.map result)
  length : p.futures.length = count

theorem planned_ready {label : Text} {pass : ℕ} {p : Plan D}
    (h : run.planned lib label pass = .ok p) : p.Ready (σ := σ) lib w run.count label := by
  obtain ⟨⟨offsets, stream⟩, hoffsets, h⟩ := Lib.Fallible.bind_eq_ok h
  obtain rfl := Except.ok.inj h
  obtain ⟨hmap, hstream, hpos⟩ := offsets_start hoffsets
  refine ⟨hstream, fun i hi => ?_, ?_⟩
  · simp only [List.length_map, List.length_mapIdx] at hi
    have hsize := hpos (List.ne_nil_of_length_pos (Nat.zero_lt_of_lt hi))
    have hi' := hi
    rw [hmap, List.length_map] at hi'
    have hoffset : offsets[i] = (w.stream label).offset (w.file label).length i := by
      simp only [hmap, List.getElem_map, List.getElem_range', Nat.zero_add, Nat.one_mul]
    simp only [List.getElem_map, List.getElem_mapIdx]
    rw [hoffset]
    exact triple_mono (triple_result_fst (triple_fetch (run.server label) hsize) trivial
      fun _ => True) (fun _ h => h) (fun _ _ h => h.1) (fun _ _ h => h)
  · rw [List.length_mapIdx, hmap, List.length_map, List.length_range']

theorem plan_ready {missing : List Text} {pass : ℕ} {plans plans' : Text → Option (Plan D)}
    (h : run.plan lib missing pass plans = .ok plans') {label : Text}
    (hready : label ∈ missing ∨
      ∃ p, plans label = some p ∧ p.Ready (σ := σ) lib w run.count label) :
    ∃ p, plans' label = some p ∧ p.Ready (σ := σ) lib w run.count label := by
  induction missing generalizing pass plans with
  | nil =>
    obtain rfl := Except.ok.inj h
    exact hready.resolve_left List.not_mem_nil
  | cons head missing ih =>
    rw [Run.plan] at h
    cases hsize : run.sizing head with
    | some why =>
      rw [hsize] at h
      cases h
    | none =>
      rw [hsize] at h
      obtain ⟨planned, hplanned, h⟩ := Lib.Fallible.bind_eq_ok h
      refine ih h ?_
      by_cases heq : label = head
      · subst heq
        rw [Function.update_self]
        exact .inr ⟨planned, rfl, planned_ready hplanned⟩
      · rw [Function.update_of_ne heq]
        exact hready.imp_left fun hmem => (List.mem_cons.mp hmem).resolve_left heq

end Planned

/-! ## What the cache holds -/

section Spec

variable {D K F σ : Type} {lib : Library D K} {w : World F} {words : Set Text}

/-- No two labels have one cache. -/
def World.Apart (w : World F) (words : Set Text) : Prop :=
  ∀ label ∈ words, ∀ label' ∈ words, ∀ f, w.cache label = some f → w.cache label' = some f →
    label = label'

/-- The cache of a label holds that many lines. -/
def World.Served (w : World F) (files : Files F) (label : Text) (count : ℕ) : Prop :=
  ∃ f lines, w.cache label = some f ∧ files f = some lines ∧ count ≤ lines.length

theorem mapM_loadsText (hlib : lib.Lawful) {ds : List D}
    (hds : ∀ d ∈ ds, ∃ line, lib.loads line = .ok d) :
    ((ds.map lib.dumps).filter fun line => trim line ≠ []).mapM lib.loadsText = .ok ds := by
  induction ds with
  | nil => rfl
  | cons d ds ih =>
    obtain ⟨⟨line, hline⟩, hds⟩ := List.forall_mem_cons.mp hds
    have hdumps : decide (trim (lib.dumps d) ≠ []) = true := decide_eq_true (hlib.trim_dumps hline)
    rw [List.map_cons, List.filter_cons, if_pos hdumps, List.mapM_cons, hlib.loadsText_dumps hline,
      ih hds]
    rfl

variable [DecidableEq K]

variable (lib w) in
def IsFresh (label : Text) (count : ℕ) (ds : List D) : Prop :=
  Fresh lib (w.file label) (w.stream label) count ds

variable (lib w words) in
/-- Every cache holds fresh drawings. -/
def Sound (files : Files F) : Prop :=
  ∀ label ∈ words, ∀ f, w.cache label = some f → ∀ lines, files f = some lines →
    ∃ n ds, IsFresh lib w label n ds ∧ lines = ds.map lib.dumps

/-- What is served is fresh, and whoever has enough lines is served. -/
def Good (lib : Library D K) (w : World F) (files : Files F) (count : ℕ) (label : Text)
    (cached : Option (List D)) : Prop :=
  (∀ ds, cached = some ds → IsFresh lib w label count ds) ∧
    (w.Served files label count → cached ≠ none)

theorem readCache_good (hlib : lib.Lawful) {files : Files F} (hfiles : Sound lib w words files)
    {label : Text} (hlabel : label ∈ words) {failure : Option Text} {count : ℕ}
    {cached : Option (List D)}
    (h : readCache lib failure ((w.cache label).bind files) count = .ok cached) :
    Good lib w files count label cached := by
  cases hcache : (w.cache label).bind files with
  | none =>
    rw [hcache, readCache] at h
    obtain rfl := Except.ok.inj h
    refine ⟨fun ds h => (Option.some_ne_none ds h.symm).elim, ?_⟩
    rintro ⟨f, lines, hf, hlines, -⟩
    rw [hf, Option.bind_some, hlines] at hcache
    cases hcache
  | some lines =>
    rw [hcache] at h
    obtain ⟨f, hf, hlines⟩ := Option.bind_eq_some_iff.mp hcache
    obtain ⟨n, ds, hfresh, rfl⟩ := hfiles label hlabel f hf lines hlines
    cases failure with
    | some why => cases h
    | none =>
      rw [readCache, mapM_loadsText hlib fun d hd => hfresh.loads hd] at h
      obtain rfl := Except.ok.inj h
      refine ⟨fun ds' h => ?_, ?_⟩
      · split_ifs at h with hle
        obtain ⟨-, -, -, hn⟩ := id hfresh
        rw [← Option.some_inj.mp h]
        exact hfresh.take (hle.trans_eq hn)
      · rintro ⟨f', lines', hf', hlines', hle⟩
        obtain rfl := Option.some_inj.mp (hf.symm.trans hf')
        rw [hlines, Option.some_inj] at hlines'
        rw [← hlines', List.length_map] at hle
        rw [if_pos hle]
        exact Option.some_ne_none _

theorem readCaches_good (hlib : lib.Lawful) {files : Files F} (hfiles : Sound lib w words files)
    {run : Run w σ} {labels : List Text} (hlabels : ∀ label ∈ labels, label ∈ words)
    {gate gate' : Text → Option (List D)} (h : run.readCaches lib files labels gate = .ok gate')
    {label : Text} (hgood : label ∈ labels ∨ Good lib w files run.count label (gate label)) :
    Good lib w files run.count label (gate' label) := by
  induction labels generalizing gate with
  | nil =>
    obtain rfl := Except.ok.inj h
    exact hgood.resolve_left List.not_mem_nil
  | cons head labels ih =>
    obtain ⟨hhead, hlabels⟩ := List.forall_mem_cons.mp hlabels
    obtain ⟨cached, hcached, h⟩ := Lib.Fallible.bind_eq_ok h
    refine ih hlabels h ?_
    by_cases heq : label = head
    · subst heq
      rw [Function.update_self]
      exact .inr (readCache_good hlib hfiles hhead hcached)
    · rw [Function.update_of_ne heq]
      exact hgood.imp_left fun hmem => (List.mem_cons.mp hmem).resolve_left heq

theorem exists_join (dir component : Text) :
    ∃ a, VoiceSamples.join dir component = a ++ component := by
  rw [VoiceSamples.join]
  split_ifs
  · exact ⟨[], rfl⟩
  · exact ⟨dir, rfl⟩
  · exact ⟨dir ++ ['/'], by rw [List.append_assoc]; rfl⟩

theorem exists_cachePath {label path : Text} (h : w.cachePath label = some path) :
    ∃ a, path = a ++ ".ndjson".toList := by
  obtain ⟨dir, -, h⟩ := Option.bind_eq_some_iff.mp h
  split_ifs at h
  obtain ⟨a, ha⟩ := exists_join dir (label ++ ".ndjson".toList)
  exact ⟨a ++ label, by rw [← Option.some_inj.mp h, ha, List.append_assoc]⟩

/-- The name a cache is written under is that of no cache. -/
theorem cache_ne_unfinished {label label' path : Text} {f : F}
    (hpath : w.cachePath label = some path) (hf : w.cache label' = some f) : f ≠ w.lead (path ++ ".partial".toList) := by
  obtain ⟨path', hpath', rfl⟩ := Option.map_eq_some_iff.mp hf
  obtain ⟨a, rfl⟩ := exists_cachePath hpath
  obtain ⟨b, rfl⟩ := exists_cachePath hpath'
  rw [List.append_assoc]
  exact (w.lead_ne a b).symm

variable [DecidableEq F]

theorem triple_writeCache (hapart : w.Apart words) {label path : Text} (hlabel : label ∈ words)
    (hpath : w.cachePath label = some path) {count : ℕ} {ds : List D}
    (hds : IsFresh lib w label count ds) {failure : Option (Text × List Text)} :
    Triple (Sound lib w words) (writeCache lib w failure path ds)
      (fun _ => Sound lib w words) (fun _ => Sound lib w words) := by
  intro s hs
  cases failure with
  | some failure =>
    intro label' hlabel' f hf lines hlines
    rw [Function.update_of_ne (cache_ne_unfinished hpath hf)] at hlines
    exact hs label' hlabel' f hf lines hlines
  | none =>
    intro label' hlabel' f hf lines hlines
    by_cases heq : f = w.lead path
    · have hcache : w.cache label = some f := by rw [World.cache, hpath, heq]; rfl
      obtain rfl := hapart label hlabel label' hlabel' f hcache hf
      rw [heq, Function.update_self] at hlines
      exact ⟨count, ds, hds, (Option.some_inj.mp hlines).symm⟩
    · rw [Function.update_of_ne heq, Function.update_of_ne (cache_ne_unfinished hpath hf)] at hlines
      exact hs label' hlabel' f hf lines hlines

/-- A pass draws fresh drawings, and leaves streams as they were wherever one is used again. -/
theorem triple_drawMissing (hapart : w.Apart words) {run : Run w σ} {missing : List Text}
    (hmissing : ∀ label ∈ missing, label ∈ words)
    (hvaried : ∀ label, missing.Duplicate label →
      Varied lib (w.file label) (w.stream label) run.count)
    {pass : ℕ} {plans : Text → Option (Plan D)} {gate : Text → Option (List D)}
    (hplans : ∀ label ∈ missing,
      ∃ p, plans label = some p ∧ p.Ready (σ := σ) lib w run.count label) :
    Triple (Sound lib w words) (run.drawMissing lib missing pass plans gate)
      (fun gate' s => Sound lib w words s ∧ ∀ label,
        (label ∈ missing ∨ ∃ ds, gate label = some ds ∧ IsFresh lib w label run.count ds) →
          ∃ ds, gate' label = some ds ∧ IsFresh lib w label run.count ds)
      (fun _ => Sound lib w words) := by
  induction missing generalizing pass plans gate with
  | nil =>
    exact triple_pure fun s hs => ⟨hs, fun label h => h.resolve_left List.not_mem_nil⟩
  | cons head missing ih =>
    obtain ⟨hhead, hmissing⟩ := List.forall_mem_cons.mp hmissing
    obtain ⟨p, hp, hready⟩ := hplans head List.mem_cons_self
    rw [Run.drawMissing]
    refine triple_bind (triple_need fun s hs => hs) fun plan => ?_
    refine triple_mono (triple_given fun hplan => ?_) (fun _ h => h) (fun _ _ h => h)
      (fun _ _ h => h)
    obtain rfl := Option.some_inj.mp (hp.symm.trans hplan)
    have hall : Triple (Sound lib w words) (result (p.futures.mapM id))
        (fun _ => Sound lib w words) (fun _ => Sound lib w words) :=
      triple_mono (triple_result fun _ _ h => h) (fun _ h => h) (fun _ _ h => h.2) (fun _ _ h => h)
    refine triple_bind hall fun _ => ?_
    have hlength : (p.futures.map (result (σ := σ))).length = run.count := by
      rw [List.length_map, hready.length]
    have hchoose := triple_choose (run.server head)
      ⟨head, labelUrl w.baseUrl head, (w.file head).length, run.count⟩ rfl
      hready.fetches hlength
    rw [← hready.stream] at hchoose
    refine triple_bind (triple_result_fst hchoose trivial (Sound lib w words))
      fun (drawings, stream) => ?_
    refine triple_mono (triple_given fun hchosen => ?_) (fun _ h => h) (fun _ _ h => h)
      (fun _ _ h => h)
    obtain ⟨hfresh, hstream⟩ := hchosen
    have hrest : Triple (Sound lib w words) (run.drawMissing lib missing (pass + 1)
        (Function.update plans head (some { p with stream }))
        (Function.update gate head (some drawings)))
        (fun gate' s => Sound lib w words s ∧ ∀ label,
          (label ∈ head :: missing ∨
            ∃ ds, gate label = some ds ∧ IsFresh lib w label run.count ds) →
            ∃ ds, gate' label = some ds ∧ IsFresh lib w label run.count ds)
        (fun _ => Sound lib w words) := by
      refine triple_mono (ih hmissing (fun label h => hvaried label (h.duplicate_cons head)) ?_)
        (fun _ hs => hs) ?_ (fun _ _ hs => hs)
      · intro label hlabel
        by_cases heq : label = head
        · subst heq
          rw [Function.update_self]
          have hsame := hstream (hvaried label (List.Mem.duplicate_cons_self hlabel))
          exact ⟨_, rfl, hsame.trans hready.stream, hready.fetches, hready.length⟩
        · rw [Function.update_of_ne heq]
          exact hplans label (List.mem_cons_of_mem head hlabel)
      · rintro gate' s ⟨hs, hgate⟩
        refine ⟨hs, fun label h => hgate label ?_⟩
        by_cases heq : label = head
        · subst heq
          rw [Function.update_self]
          exact .inr ⟨drawings, rfl, hfresh⟩
        · rw [Function.update_of_ne heq]
          exact h.imp_left fun hmem => (List.mem_cons.mp hmem).resolve_left heq
    dsimp only
    cases hpath : w.cachePath head with
    | some path =>
      exact triple_bind (triple_writeCache hapart hhead hpath hfresh) fun _ => hrest
    | none => exact hrest

/-! ## What a run draws -/

variable (lib words) in
/-- The labels are among `words`, and one listed twice is served, or draws nothing twice. -/
structure Run.Clean (files : Files F) (run : Run w σ) : Prop where
  named : ∀ label ∈ run.labels, label ∈ words
  varied : ∀ label, run.labels.Duplicate label → w.Served files label run.count ∨
    Varied lib (w.file label) (w.stream label) run.count

theorem triple_drawGateSet (hlib : lib.Lawful) (hapart : w.Apart words) {files : Files F}
    (hfiles : Sound lib w words files) {run : Run w σ} (hclean : run.Clean lib words files) :
    Triple (fun s => s = files) (drawGateSet lib run)
      (fun gate s => Sound lib w words s ∧ ∀ label ∈ run.labels,
        ∃ ds, gate label = some ds ∧ IsFresh lib w label run.count ds)
      (fun _ => Sound lib w words) := by
  have hsound : ∀ s, s = files → Sound lib w words s := by
    rintro s rfl
    exact hfiles
  rw [drawGateSet]
  refine triple_bind triple_get fun read => ?_
  refine triple_bind (triple_result fun _ s h => hsound s h.2) fun gate => ?_
  refine triple_bind (triple_result fun _ s h => hsound s h.2.2) fun plans => ?_
  refine triple_mono (triple_given fun hplans => triple_given fun hgate => triple_given
    fun hread => ?_) (fun s h => ⟨h.1, h.2.1, h.2.2.1.trans h.2.2.2, hsound s h.2.2.2⟩)
    (fun _ _ h => h) (fun _ _ h => h)
  subst hread
  have hgood : ∀ label ∈ run.labels, Good lib w read run.count label (gate label) :=
    fun label h => readCaches_good hlib hfiles hclean.named hgate (.inl h)
  have hsub : (run.labels.filter fun label => (gate label).isNone).Sublist run.labels :=
    List.filter_sublist
  refine triple_mono (triple_drawMissing hapart (fun label h => hclean.named label (hsub.subset h))
    (fun label h => ?_) fun label h => plan_ready hplans (.inl h)) (fun _ h => h) ?_
    (fun _ _ h => h)
  · refine (hclean.varied label (h.mono_sublist hsub)).resolve_left fun hserved => ?_
    obtain ⟨hmem, hnone⟩ := List.mem_filter.mp h.mem
    exact (hgood label hmem).2 hserved (Option.isNone_iff_eq_none.mp hnone)
  · rintro gate' s ⟨hs, hgate'⟩
    refine ⟨hs, fun label hlabel => hgate' label ?_⟩
    cases hlabel' : gate label with
    | none =>
      exact .inl (List.mem_filter.mpr ⟨hlabel, Option.isNone_iff_eq_none.mpr hlabel'⟩)
    | some ds => exact .inr ⟨ds, rfl, (hgood label hlabel).1 ds hlabel'⟩

variable (lib) in
/-- One run after another, with one cache. -/
def history : System (Files F) (Run w σ) := fun files run => some (drawGateSet lib run files).2

theorem sound_history (hlib : lib.Lawful) (hapart : w.Apart words) {runs : List (Run w σ)}
    {files : Files F}
    (halong : System.Along (history lib) (fun files run => run.Clean lib words files)
      (fun _ => none) runs)
    (hrun : System.run (history lib) (fun _ => none) runs = some files) :
    Sound lib w words files := by
  refine System.along_invariant (fun s run t hs hclean hstep => ?_) runs _ files ?_ halong hrun
  · obtain rfl := Option.some_inj.mp hstep
    have hpost := triple_drawGateSet hlib hapart hs hclean s rfl
    cases hdraw : drawGateSet lib run s with
    | mk r t =>
      rw [hdraw] at hpost
      cases r with
      | ok gate => exact hpost.1
      | error e => exact hpost
  · intro label _ f _ lines hlines
    cases hlines

/-- Fresh drawings are told by the file, the seed, the label and their number, the fewer being the
first of the more, and none comes twice.  A label drawn by itself has them, and after runs that are
clean its cache and the gate set of a clean run have them too. -/
theorem history_irrelevant (hlib : lib.Lawful) (hapart : w.Apart words) {runs : List (Run w σ)}
    {files : Files F}
    (halong : System.Along (history lib) (fun files run => run.Clean lib words files)
      (fun _ => none) runs)
    (hrun : System.run (history lib) (fun _ => none) runs = some files) :
    (∀ label c c' ds ds', IsFresh lib w label c ds → IsFresh lib w label c' ds' → c ≤ c' →
      ds = ds'.take c ∧ ds.length = c ∧ (ds.map lib.keyId).Nodup) ∧
    (∀ label count (server : Server (w.file label) Text σ) s ds,
      (drawLabel lib server.read w.baseUrl label w.seed count (w.file label).length s).1 = .ok ds →
        IsFresh lib w label count ds) ∧
    (∀ label ∈ words, ∀ failure count ds,
      readCache lib failure ((w.cache label).bind files) count = .ok (some ds) →
        IsFresh lib w label count ds) ∧
    ∀ run : Run w σ, run.Clean lib words files → ∀ gate, (drawGateSet lib run files).1 = .ok gate →
      ∀ label ∈ run.labels, ∃ ds, gate label = some ds ∧ IsFresh lib w label run.count ds := by
  have hsound := sound_history hlib hapart halong hrun
  refine ⟨fun label c c' ds ds' h h' hle => ?_, fun label count server s ds h => ?_,
    fun label hlabel failure count ds h => ?_, fun run hclean gate hgate => ?_⟩
  · obtain ⟨-, -, -, hlength⟩ := id h
    exact ⟨h.eq_take h' hle, hlength, h.nodup⟩
  · exact drawLabel_fresh server h
  · exact (readCache_good hlib hsound hlabel h).1 ds rfl
  · exact ((triple_drawGateSet hlib hapart hsound hclean).of_ok rfl
      (Prod.ext (y := (_, _)) hgate rfl)).2

end Spec

/-! ## A label listed twice -/

def catLine (digit : Char) : Text :=
  "\x7b\"word\":\"cat\",\"key_id\":\"".toList ++ digit :: "\"\x7d".toList

/-- The JSON of drawings of a cat, each its number. -/
def catLibrary : Library Char Char where
  loads line :=
    match ['1', '2', '3'].find? fun digit => bytes (catLine digit) == line with
    | some digit => .ok digit
    | none => .error "Expecting value".toList
  loadsText line :=
    match ['1', '2', '3'].find? fun digit => catLine digit == line with
    | some digit => .ok digit
    | none => .error "Expecting value".toList
  dumps := catLine
  keyId := .ok
  word _ := some "cat".toList
  reprWord _ := "'cat'".toList
  reprText t := t

theorem catLibrary_lawful : catLibrary.Lawful := by
  have hdigit : ∀ {line d}, catLibrary.loads line = .ok d → d ∈ ['1', '2', '3'] := by
    intro line d h
    dsimp only [catLibrary] at h
    split at h
    · rename_i digit hfind
      rw [← Except.ok.inj h]
      exact List.mem_of_find?_eq_some hfind
    · cases h
  have hall : ∀ d ∈ ['1', '2', '3'],
      catLibrary.loadsText (catLine d) = .ok d ∧ trim (catLine d) ≠ [] := by
    refine List.forall_mem_cons.mpr ⟨by decide +kernel, ?_⟩
    exact List.forall_mem_cons.mpr
      ⟨by decide +kernel, List.forall_mem_singleton.mpr (by decide +kernel)⟩
  exact ⟨fun h => (hall _ (hdigit h)).1, fun h => (hall _ (hdigit h)).2⟩

def catWorld : World Text where
  dataset _ := ['1', '2', '3'].flatMap fun digit => bytes (catLine digit ++ ['\n'])
  baseUrl := "https://h/raw".toList
  seed := 7
  cacheDir := some "/gate".toList
  lead path := path
  lead_ne a b h := by
    have hlast := congrArg List.getLast? h
    have hfirst : ".ndjson.partial".toList.getLast? = some 'l' := by decide
    have hsecond : ".ndjson".toList.getLast? = some 'n' := by decide
    rw [List.getLast?_append, List.getLast?_append, hfirst, hsecond, Option.some_or,
      Option.some_or] at hlast
    exact absurd hlast (by decide)

def catRun (labels : List Text) : Run catWorld Unit where
  labels := labels
  count := 2
  server label := Server.whole (catWorld.file label)
  sizing _ := none
  pooled _ _ := ()
  redrawing _ := ()
  reading _ := none
  writing _ := none

/-- The first run and the one that is served by what it wrote. -/
theorem history_irrelevant_cat :
    ((drawGateSet catLibrary (catRun ["cat".toList])
      (drawGateSet catLibrary (catRun ["cat".toList]) fun _ => none).2).1.toOption.bind
      (· "cat".toList)) = some ['3', '2'] ∧
    IsFresh catLibrary catWorld "cat".toList 2 ['3', '2'] := by
  have hdrawn : ((drawGateSet catLibrary (catRun ["cat".toList])
      (drawGateSet catLibrary (catRun ["cat".toList]) fun _ => none).2).1.toOption.bind
      (· "cat".toList)) = some ['3', '2'] := by
    decide +kernel
  have hclean : ∀ files, (catRun ["cat".toList]).Clean catLibrary {"cat".toList} files :=
    fun files => ⟨fun label h => List.mem_singleton.mp h,
      fun label h => absurd h (List.not_duplicate_singleton _ _)⟩
  have hapart : catWorld.Apart {"cat".toList} := fun _ h _ h' _ _ _ => h.trans h'.symm
  refine ⟨hdrawn, ?_⟩
  obtain ⟨gate, hgate, hcat⟩ := Option.bind_eq_some_iff.mp hdrawn
  obtain ⟨ds, hds, hfresh⟩ := (history_irrelevant catLibrary_lawful hapart
    (show System.Along _ _ _ [catRun ["cat".toList]] from ⟨hclean _, fun _ _ => trivial⟩) rfl).2.2.2
    _ (hclean _) gate (Lib.Fallible.toOption_eq_some hgate) "cat".toList (List.mem_singleton_self _)
  rw [hcat] at hds
  exact Option.some_inj.mp hds ▸ hfresh

/-- The second drawing of the label depends on whether it was ever listed twice. -/
theorem drawGateSet_twice :
    ((drawGateSet catLibrary (catRun ["cat".toList]) fun _ => none).1.toOption.bind
      (· "cat".toList)) = some ['3', '2'] ∧
    ((drawGateSet catLibrary (catRun ["cat".toList])
      (drawGateSet catLibrary (catRun ["cat".toList, "cat".toList])
        fun _ => none).2).1.toOption.bind (· "cat".toList)) = some ['3', '1'] := by
  decide +kernel

end StudioWorker.Convert
