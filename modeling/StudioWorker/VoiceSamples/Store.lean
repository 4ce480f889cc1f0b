import Mathlib.Algebra.GroupWithZero.Nat
import Mathlib.Algebra.Order.Ring.Rat
import Mathlib.Data.List.Perm.Basic
import Mathlib.Data.List.Sort
import StudioWorker.Lib.Entries
import StudioWorker.Lib.Refcount
import StudioWorker.Lib.System
import StudioWorker.VoiceSamples.Take

/-!
# VoiceSamples.Store — the recording sets and the trainings' holds (`src/voice_samples/store.rs`)

One lock orders every operation, so a run is a list of them; what the file system answers is in
the operation.  The audio check and the digest are parameters.

* `Store.put`, `Store.delete`, `Store.hold`, `Store.drop`: the four operations.
* `Store.Kept`: a hold's sets hold what it listed.
* `Store.run_kept`: what every run keeps.
-/

namespace StudioWorker.VoiceSamples

open Text Lib Lib.System

abbrev Bytes := List UInt8

/-- The files of each kind of a set, as its directories list them. -/
abbrev SetDir := Kind → Entries Text Bytes

inductive StoreError where
  | badWav (message : String)
  | inTraining (set : Text)
  | unknownSet (set : Text)
  | io (message : String)
deriving DecidableEq, Repr

/-- A stored take, as a training reads it; its path is the set, the kind and the file name. -/
structure TakeFile where
  set : Text
  kind : Kind
  number : ℕ
  phrase : Option Text
  file : Text
  sha256 : Text
deriving DecidableEq, Repr

def TakeFile.withSha (t : TakeFile) (sha256 : Text) : TakeFile := { t with sha256 }

structure Stored where
  created : Bool
  seconds : ℚ
  bytes : ℕ
deriving DecidableEq

/-- A training's hold on its sets. -/
structure Held where
  takes : List TakeFile
  sets : List Text
deriving DecidableEq

/-- The directory, the sets trainings hold with how often, and the holds that live. -/
structure Store where
  root : Entries Text SetDir
  held : Refcount.Counts Text
  holds : List Held

namespace Store

def new (root : Entries Text SetDir) : Store := ⟨root, fun _ => none, []⟩

/-! ## `put` -/

/-- How far the file system lets a `put` come; a failure is told by its message. -/
inductive PutIo where
  | noStore (e : String)
  /-- The directory of the set may be there all the same. -/
  | noSet (there : Bool) (e : String)
  | noKind (e : String)
  /-- The partial file was written this far, or not at all. -/
  | noTake (written : Option Bytes) (e : String)
  | written

def wav : Text := ['.', 'w', 'a', 'v']
def partialExt : Text := ['.', 'p', 'a', 'r', 't', 'i', 'a', 'l']

def setDir (s : Store) (set : Text) : SetDir := (s.root.get set).getD fun _ => []

/-- A name in the directory of one kind leads to `bytes` from now on. -/
def putFile (dir : SetDir) (kind : Kind) (name : Text) (bytes : Bytes) : SetDir :=
  Function.update dir kind ((dir kind).put name bytes)

/-- Store one take of `set`, replacing the same take; the audio is checked first. -/
def put (checkWav : Bytes → Except String ℚ) (s : Store) (set : Text) (take : Take)
    (bytes : Bytes) (io : PutIo) : Store × Except StoreError Stored :=
  match checkWav bytes with
  | .error e => (s, .error (.badWav e))
  | .ok seconds =>
    if (s.held set).isSome then (s, .error (.inTraining set))
    else
      let dir := s.setDir set
      let made (dir : SetDir) : Store := { s with root := s.root.put set dir }
      let previous := (dir take.kind).get (take.stem ++ wav)
      let stored : Stored := ⟨previous.isNone, seconds, bytes.length⟩
      match io with
      | .noStore e => (s, .error (.io ("creating the store: " ++ e)))
      | .noSet there e =>
        (if there then made dir else s, .error (.io ("creating the set: " ++ e)))
      | .noKind e => (made dir, .error (.io ("creating the kind: " ++ e)))
      | .noTake written e =>
        if previous = some bytes then (made dir, .ok stored)
        else
          (made (written.elim dir (putFile dir take.kind (take.stem ++ partialExt))),
            .error (.io ("writing the take: " ++ e)))
      | .written =>
        if previous = some bytes then (made dir, .ok stored)
        else (made (putFile dir take.kind (take.stem ++ wav) bytes), .ok stored)

/-! ## `delete` -/

/-- What removing a set's directory comes to; one that fails has removed what it has. -/
inductive RemoveIo where
  | removed
  | stopped (keep : Kind → Text → Bool) (e : String)

def compareText : Text → Text → Ordering
  | [], [] => .eq
  | [], _ :: _ => .lt
  | _ :: _, [] => .gt
  | a :: s, b :: t => (compare a.toNat b.toNat).then (compareText s t)

def setNames (root : Entries Text SetDir) : List Text :=
  ((root.map (·.1)).filter checkSet).insertionSort fun a b => compareText a b ≠ .gt

/-- Remove the sets in order, up to the first that fails. -/
def removeAll (io : Text → RemoveIo) :
    Entries Text SetDir → List Text → Entries Text SetDir × Except StoreError Unit
  | root, [] => (root, .ok ())
  | root, set :: sets =>
    match io set with
    | .removed => removeAll io (root.erase set) sets
    | .stopped keep e =>
      match root.get set with
      | some dir =>
        (root.put set fun kind => (dir kind).filter fun f => keep kind f.1,
          .error (.io ("deleting the set: " ++ e)))
      | none => (root, .error (.io ("deleting the set: " ++ e)))

/-- The sets a delete is about: `set`, or every set. -/
def toDelete (s : Store) : Option Text → Except StoreError (List Text)
  | some set => if (s.root.get set).isSome then .ok [set] else .error (.unknownSet set)
  | none => .ok (setNames s.root)

/-- Delete `set`, or every set; a set a training holds stops the whole delete. -/
def delete (s : Store) (set : Option Text) (io : Text → RemoveIo) :
    Store × Except StoreError (List Text) :=
  match s.toDelete set with
  | .error e => (s, .error e)
  | .ok sets =>
    match sets.find? fun set => (s.held set).isSome with
    | some busy => (s, .error (.inTraining busy))
    | none =>
      let (root, done) := removeAll io s.root sets
      ({ s with root }, done.map fun _ => sets)

/-! ## `hold` and the drop of a hold -/

def Kind.rank : Kind → ℕ
  | .positive => 0
  | .nearMiss => 1
  | .speech => 2

def comparePhrase : Option Text → Option Text → Ordering
  | none, none => .eq
  | none, some _ => .lt
  | some _, none => .gt
  | some a, some b => compareText a b

def compareTakes (a b : TakeFile × Bytes) : Ordering :=
  (compare (Kind.rank a.1.kind) (Kind.rank b.1.kind)).then
    ((comparePhrase a.1.phrase b.1.phrase).then (compare a.1.number b.1.number))

/-- The take a file of the set is, if it is one. -/
def takeFile (set : Text) (kind : Kind) (file : Text) : Option TakeFile :=
  (stripSuffix wav file).bind fun stem =>
    (parseTake kind stem).map fun take => ⟨set, kind, take.number, take.phrase, file, []⟩

/-- Every take of `set` and what its file holds, in order of kind, phrase and number. -/
def takesOf (set : Text) (dir : SetDir) : List (TakeFile × Bytes) :=
  (Kind.all.flatMap fun kind =>
    (dir kind).filterMap fun f => (takeFile set kind f.1).map fun take => (take, f.2)).insertionSort
      fun a b => compareTakes a b ≠ .gt

/-- The takes of the sets with their digests; reading a set may fail. -/
def collect (sha256 : Bytes → Text) (root : Entries Text SetDir) (fails : Text → Option String) :
    List Text → Except StoreError (List TakeFile)
  | [] => .ok []
  | set :: sets =>
    match root.get set, fails set with
    | none, _ => .error (.unknownSet set)
    | some _, some e => .error (.io e)
    | some dir, none =>
      (collect sha256 root fails sets).map fun takes =>
        (takesOf set dir).map (fun f => f.1.withSha (sha256 f.2)) ++ takes

/-- Hold `sets` for a training. -/
def hold (sha256 : Bytes → Text) (s : Store) (sets : List Text) (fails : Text → Option String) :
    Store × Except StoreError Held :=
  match collect sha256 s.root fails sets with
  | .error e => (s, .error e)
  | .ok takes =>
    ({ s with held := Refcount.acquire s.held sets, holds := s.holds ++ [⟨takes, sets⟩] },
      .ok ⟨takes, sets⟩)

/-- Drop the hold at `k`. -/
def drop (s : Store) (k : ℕ) : Option Store :=
  s.holds[k]?.map fun h =>
    { s with held := Refcount.release s.held h.sets, holds := s.holds.eraseIdx k }

/-! ## Runs -/

/-- The operations in the order the lock gives them; every caller checks its names first. -/
inductive Op where
  | put (set : SetName) (take : Take) (bytes : Bytes) (io : PutIo)
  | delete (set : Option SetName) (io : Text → RemoveIo)
  | hold (sets : List SetName) (fails : Text → Option String)
  | drop (k : ℕ)

def step (checkWav : Bytes → Except String ℚ) (sha256 : Bytes → Text) : System Store Op
  | s, .put set take bytes io => some (s.put checkWav set.1 take bytes io).1
  | s, .delete set io => some (s.delete (set.map (·.1)) io).1
  | s, .hold sets fails => some (s.hold sha256 (sets.map (·.1)) fails).1
  | s, .drop k => s.drop k

/-! ## What a run keeps -/

/-- How often live holds name the set. -/
def mentions (s : Store) (set : Text) : ℕ := (s.holds.map fun h => Refcount.mentions h.sets set).sum

/-- The take files of the hold's sets are those it listed, holding the bytes it hashed. -/
structure Kept (sha256 : Bytes → Text) (s : Store) (h : Held) : Prop where
  there : ∀ set ∈ h.sets, ∃ dir, s.root.get set = some dir
  listed : ∀ t, t ∈ h.takes ↔ t.set ∈ h.sets ∧ ∃ dir bytes, s.root.get t.set = some dir ∧
    (t.file, bytes) ∈ dir t.kind ∧ takeFile t.set t.kind t.file = some (t.withSha []) ∧
    t.sha256 = sha256 bytes

/-- What ties the counts, the files and the refusals together. -/
structure Guarded (checkWav : Bytes → Except String ℚ) (sha256 : Bytes → Text) (s : Store) :
    Prop where
  kept : ∀ h ∈ s.holds, s.Kept sha256 h
  count : ∀ set, (s.held set).getD 0 = s.mentions set
  released : ∀ set, s.held set = none ↔ ∀ h ∈ s.holds, set ∉ h.sets
  /-- A set that is held becomes free in the drop of its last hold and in no other step. -/
  releases : ∀ set e s', step checkWav sha256 s e = some s' → s.held set ≠ none →
    (s'.held set = none ↔ (∃ k, e = .drop k) ∧ ∀ h ∈ s'.holds, set ∉ h.sets)
  putRefused : ∀ set take bytes io busy,
    (s.put checkWav set take bytes io).2 = .error (.inTraining busy) →
      (s.put checkWav set take bytes io).1 = s
  deleteRefused : ∀ set io busy, (s.delete set io).2 = .error (.inTraining busy) →
    (s.delete set io).1 = s
  deleteAll : ∀ h ∈ s.holds, h.sets ≠ [] → ∀ io, ∃ busy,
    s.delete none io = (s, .error (.inTraining busy))

/-- The invariant: counts are mentions, and every hold would list again what it listed. -/
structure Inv (sha256 : Bytes → Text) (s : Store) : Prop where
  counts : ∀ set, s.held set = Refcount.counted (s.mentions set)
  relists : ∀ h ∈ s.holds, collect sha256 s.root (fun _ => none) h.sets = .ok h.takes
  checked : ∀ h ∈ s.holds, ∀ set ∈ h.sets, checkSet set = true

variable {checkWav : Bytes → Except String ℚ} {sha256 : Bytes → Text} {s s' : Store}

theorem mentions_eq_zero {set : Text} :
    s.mentions set = 0 ↔ ∀ h ∈ s.holds, set ∉ h.sets := by
  unfold mentions
  rw [List.sum_eq_zero_iff_forall_eq_nat]
  simp [Refcount.mentions_eq_zero]

theorem Inv.held_eq_none (hi : Inv sha256 s) {set : Text} :
    s.held set = none ↔ ∀ h ∈ s.holds, set ∉ h.sets := by
  rw [hi.counts set, ← mentions_eq_zero]
  cases s.mentions set <;> simp

/-! ### The listing of a hold -/

/-- What a hold lists depends on its sets' directories alone. -/
theorem collect_congr {root root' : Entries Text SetDir} {fails : Text → Option String}
    {sets : List Text} (h : ∀ set ∈ sets, root'.get set = root.get set) :
    collect sha256 root' fails sets = collect sha256 root fails sets := by
  induction sets with
  | nil => rfl
  | cons set sets ih =>
    unfold collect
    rw [h set List.mem_cons_self, ih fun set hs => h set (List.mem_cons_of_mem _ hs)]

theorem collect_cons_ok {root : Entries Text SetDir} {fails : Text → Option String} {set : Text}
    {sets : List Text} {takes : List TakeFile}
    (h : collect sha256 root fails (set :: sets) = .ok takes) :
    ∃ dir rest, root.get set = some dir ∧ fails set = none ∧
      collect sha256 root fails sets = .ok rest ∧
      takes = (takesOf set dir).map (fun f => f.1.withSha (sha256 f.2)) ++ rest := by
  unfold collect at h
  cases hd : root.get set with
  | none => rw [hd] at h; cases h
  | some dir =>
    cases hf : fails set with
    | some e => rw [hd, hf] at h; cases h
    | none =>
      rw [hd, hf] at h
      cases hc : collect sha256 root fails sets with
      | error e => rw [hc] at h; cases h
      | ok rest =>
        rw [hc] at h
        exact ⟨dir, rest, rfl, rfl, rfl, (Except.ok.inj h).symm⟩

/-- A hold that was made would be made again if nothing failed. -/
theorem collect_ok {root : Entries Text SetDir} {fails : Text → Option String} {sets : List Text}
    {takes : List TakeFile} (h : collect sha256 root fails sets = .ok takes) :
    collect sha256 root (fun _ => none) sets = .ok takes := by
  induction sets generalizing takes with
  | nil => exact h
  | cons set sets ih =>
    obtain ⟨dir, rest, hd, -, hr, rfl⟩ := collect_cons_ok h
    unfold collect
    rw [hd, ih hr]
    rfl

theorem takeFile_some {set : Text} {kind : Kind} {file : Text} {t : TakeFile}
    (h : takeFile set kind file = some t) :
    t.set = set ∧ t.kind = kind ∧ t.file = file ∧ t.sha256 = [] := by
  unfold takeFile at h
  obtain ⟨stem, -, h⟩ := Option.bind_eq_some_iff.mp h
  obtain ⟨take, -, rfl⟩ := Option.map_eq_some_iff.mp h
  exact ⟨rfl, rfl, rfl, rfl⟩

theorem mem_takesOf {set : Text} {dir : SetDir} {t : TakeFile} {bytes : Bytes} :
    (t, bytes) ∈ takesOf set dir ↔
      (t.file, bytes) ∈ dir t.kind ∧ takeFile set t.kind t.file = some t := by
  unfold takesOf
  rw [List.mem_insertionSort, List.mem_flatMap]
  constructor
  · rintro ⟨kind, -, h⟩
    obtain ⟨⟨file, bytes⟩, hf, ht⟩ := List.mem_filterMap.mp h
    obtain ⟨t, hn, heq⟩ := Option.map_eq_some_iff.mp ht
    obtain ⟨rfl, rfl⟩ := Prod.mk.inj heq
    obtain ⟨-, hk, hfile, -⟩ := takeFile_some hn
    rw [hk, hfile]
    exact ⟨hf, hn⟩
  · rintro ⟨hf, ht⟩
    have hk : t.kind ∈ Kind.all := by cases t.kind <;> decide
    exact ⟨t.kind, hk, List.mem_filterMap.mpr ⟨(t.file, bytes), hf, by rw [ht]; rfl⟩⟩

/-- What a hold lists, take by take. -/
theorem mem_collect {root : Entries Text SetDir} {sets : List Text} {takes : List TakeFile}
    (h : collect sha256 root (fun _ => none) sets = .ok takes) (t : TakeFile) :
    t ∈ takes ↔ t.set ∈ sets ∧ ∃ dir bytes, root.get t.set = some dir ∧
      (t.file, bytes) ∈ dir t.kind ∧ takeFile t.set t.kind t.file = some (t.withSha []) ∧
      t.sha256 = sha256 bytes := by
  induction sets generalizing takes with
  | nil =>
    obtain rfl : [] = takes := Except.ok.inj h
    simp
  | cons set sets ih =>
    obtain ⟨dir, rest, hd, -, hr, rfl⟩ := collect_cons_ok h
    rw [List.mem_append, ih hr, List.mem_cons]
    constructor
    · rintro (ht | ⟨hs, h⟩)
      · obtain ⟨⟨t, bytes⟩, hf, rfl⟩ := List.mem_map.mp ht
        obtain ⟨hf, hn⟩ := mem_takesOf.mp hf
        obtain ⟨hset, -, -, hsha⟩ := takeFile_some hn
        refine ⟨.inl hset, dir, bytes, (congrArg root.get hset).trans hd, hf, ?_, rfl⟩
        show takeFile t.set t.kind t.file = some (t.withSha [])
        rw [hset, hn, ← hsha]
        rfl
      · exact ⟨.inr hs, h⟩
    · rintro ⟨rfl | hs, dir', bytes, hd', hf, hn, hsha⟩
      · obtain rfl : dir = dir' := Option.some.inj (hd.symm.trans hd')
        refine .inl (List.mem_map.mpr ⟨(t.withSha [], bytes), mem_takesOf.mpr ⟨hf, hn⟩, ?_⟩)
        show t.withSha (sha256 bytes) = t
        rw [← hsha]
        rfl
      · exact .inr ⟨hs, dir', bytes, hd', hf, hn, hsha⟩

theorem get_of_collect {root : Entries Text SetDir} {sets : List Text} {takes : List TakeFile}
    (h : collect sha256 root (fun _ => none) sets = .ok takes) :
    ∀ set ∈ sets, ∃ dir, root.get set = some dir := by
  induction sets generalizing takes with
  | nil => simp
  | cons set sets ih =>
    obtain ⟨dir, rest, hd, -, hr, -⟩ := collect_cons_ok h
    intro set' hs
    rcases List.mem_cons.mp hs with rfl | hs
    · exact ⟨dir, hd⟩
    · exact ih hr set' hs

theorem Inv.kept (hi : Inv sha256 s) {h : Held} (hh : h ∈ s.holds) : s.Kept sha256 h :=
  ⟨get_of_collect (hi.relists h hh), mem_collect (hi.relists h hh)⟩

/-! ### What each operation does -/

/-- The step changed no directory of a held set, and nothing else. -/
def Frees (s s' : Store) : Prop :=
  ∃ root, s' = { s with root } ∧ ∀ set, s.held set ≠ none → root.get set = s.root.get set

theorem Frees.refl : s.Frees s := ⟨s.root, rfl, fun _ _ => rfl⟩

theorem Frees.put {set : Text} (h : s.held set = none) (dir : SetDir) :
    s.Frees { s with root := s.root.put set dir } :=
  ⟨_, rfl, fun _ hs => Entries.get_put_ne fun heq => hs (heq ▸ h)⟩

theorem put_frees (set : Text) (take : Take) (bytes : Bytes) (io : PutIo) :
    s.Frees (s.put checkWav set take bytes io).1 := by
  unfold put
  cases checkWav bytes with
  | error e => exact .refl
  | ok seconds =>
    dsimp only
    by_cases hheld : (s.held set).isSome = true
    · rw [if_pos hheld]
      exact .refl
    · rw [if_neg hheld]
      have hfree : s.held set = none := by simpa using hheld
      cases io with
      | noStore e => exact .refl
      | noSet there e =>
        cases there
        · exact .refl
        · exact .put hfree _
      | noKind e => exact .put hfree _
      | noTake written e => dsimp only; split_ifs <;> exact .put hfree _
      | written => dsimp only; split_ifs <;> exact .put hfree _

theorem removeAll_get {io : Text → RemoveIo} {set : Text} {sets : List Text}
    (h : set ∉ sets) (root : Entries Text SetDir) :
    (removeAll io root sets).1.get set = root.get set := by
  induction sets generalizing root with
  | nil => rfl
  | cons first sets ih =>
    obtain ⟨hne, hs⟩ := not_or.mp (mt List.mem_cons.mpr h)
    unfold removeAll
    cases io first with
    | removed =>
      dsimp only
      rw [ih hs, Entries.get_erase_ne hne]
    | stopped keep e =>
      dsimp only
      cases root.get first with
      | some dir => exact Entries.get_put_ne hne
      | none => rfl

theorem delete_frees (set : Option Text) (io : Text → RemoveIo) :
    s.Frees (s.delete set io).1 := by
  unfold delete
  cases s.toDelete set with
  | error e => exact .refl
  | ok sets =>
    dsimp only
    cases hb : sets.find? fun set => (s.held set).isSome with
    | some busy => exact .refl
    | none =>
      refine ⟨_, rfl, fun set hs => removeAll_get (fun hmem => ?_) s.root⟩
      have := List.find?_eq_none.mp hb set hmem
      exact this (Option.isSome_iff_ne_none.mpr hs)

theorem Inv.frees (hi : Inv sha256 s) (hf : s.Frees s') : Inv sha256 s' := by
  obtain ⟨root, rfl, hroot⟩ := hf
  refine ⟨hi.counts, fun h hh => ?_, hi.checked⟩
  rw [← hi.relists h hh]
  refine collect_congr fun set hs => hroot set fun hnone => ?_
  exact hi.held_eq_none.mp hnone h hh hs

theorem mentions_drop {k : ℕ} {h : Held} (hk : s.holds[k]? = some h) (set : Text) :
    s.mentions set = ((s.holds.eraseIdx k).map fun h => Refcount.mentions h.sets set).sum +
      Refcount.mentions h.sets set := by
  obtain ⟨hlt, rfl⟩ := List.getElem?_eq_some_iff.mp hk
  unfold mentions
  have hperm := List.getElem_cons_eraseIdx_perm hlt
  rw [← (hperm.map fun h => Refcount.mentions h.sets set).sum_nat, List.map_cons, List.sum_cons, Nat.add_comm]

theorem Inv.hold (hi : Inv sha256 s) (sets : List SetName) (fails : Text → Option String) :
    Inv sha256 (s.hold sha256 (sets.map (·.1)) fails).1 := by
  unfold Store.hold
  cases hc : collect sha256 s.root fails (sets.map (·.1)) with
  | error e => exact hi
  | ok takes =>
    refine ⟨fun set => ?_, fun h hh => ?_, fun h hh set hs => ?_⟩
    · dsimp only
      rw [Refcount.acquire_eq hi.counts]
      simp [mentions]
    · rcases List.mem_append.mp hh with hh | hh
      · exact hi.relists h hh
      · obtain rfl := List.mem_singleton.mp hh
        exact collect_ok hc
    · rcases List.mem_append.mp hh with hh | hh
      · exact hi.checked h hh set hs
      · obtain rfl := List.mem_singleton.mp hh
        obtain ⟨set, -, rfl⟩ := List.mem_map.mp hs
        exact set.2

theorem Inv.drop (hi : Inv sha256 s) {k : ℕ} (hd : s.drop k = some s') : Inv sha256 s' := by
  obtain ⟨h, hk, rfl⟩ := Option.map_eq_some_iff.mp hd
  refine ⟨Refcount.release_eq fun set => ?_, fun h' hh => ?_, fun h' hh => ?_⟩
  · rw [hi.counts set, mentions_drop hk]
    rfl
  · exact hi.relists h' (List.mem_of_mem_eraseIdx hh)
  · exact hi.checked h' (List.mem_of_mem_eraseIdx hh)

theorem Inv.step (hi : Inv sha256 s) {e : Op} (hs : step checkWav sha256 s e = some s') :
    Inv sha256 s' := by
  cases e with
  | put set take bytes io => exact Option.some.inj hs ▸ hi.frees (put_frees set.1 take bytes io)
  | delete set io => exact Option.some.inj hs ▸ hi.frees (delete_frees (set.map (·.1)) io)
  | hold sets fails => exact Option.some.inj hs ▸ hi.hold sets fails
  | drop k => exact hi.drop hs

theorem Inv.new (root : Entries Text SetDir) : Inv sha256 (new root) :=
  ⟨fun _ => rfl, fun _ h => absurd h List.not_mem_nil, fun _ h => absurd h List.not_mem_nil⟩

/-! ### The refusals -/

theorem put_refused {set : Text} {take : Take} {bytes : Bytes} {io : PutIo} {busy : Text}
    (h : (s.put checkWav set take bytes io).2 = .error (.inTraining busy)) :
    (s.put checkWav set take bytes io).1 = s := by
  unfold put at h ⊢
  cases hw : checkWav bytes with
  | error e => rfl
  | ok seconds =>
    rw [hw] at h
    dsimp only at h ⊢
    by_cases hheld : (s.held set).isSome = true
    · rw [if_pos hheld]
    · rw [if_neg hheld] at h
      cases io with
      | noTake written e => dsimp only at h; split_ifs at h; cases h
      | written => dsimp only at h; split_ifs at h
      | _ => cases h

theorem removeAll_error {io : Text → RemoveIo} {sets : List Text} {root : Entries Text SetDir}
    {busy : Text} : (removeAll io root sets).2 ≠ .error (.inTraining busy) := by
  induction sets generalizing root with
  | nil => exact fun h => by cases h
  | cons set sets ih =>
    unfold removeAll
    cases io set with
    | removed => exact ih
    | stopped keep e => cases root.get set <;> exact fun h => by cases h

theorem delete_refused {set : Option Text} {io : Text → RemoveIo} {busy : Text}
    (h : (s.delete set io).2 = .error (.inTraining busy)) : (s.delete set io).1 = s := by
  unfold delete at h ⊢
  cases hd : s.toDelete set with
  | error e => rfl
  | ok sets =>
    rw [hd] at h
    dsimp only at h ⊢
    cases hb : sets.find? fun set => (s.held set).isSome with
    | some busy => rfl
    | none =>
      rw [hb] at h
      dsimp only at h
      cases hr : (removeAll io s.root sets).2 with
      | ok _ => rw [hr] at h; cases h
      | error e =>
        rw [hr] at h
        obtain rfl := Except.error.inj h
        exact absurd hr removeAll_error

theorem mem_setNames {root : Entries Text SetDir} {set : Text} :
    set ∈ setNames root ↔ checkSet set = true ∧ ∃ dir, root.get set = some dir := by
  unfold setNames
  rw [List.mem_insertionSort, List.mem_filter, Entries.mem_map_iff, and_comm]

/-- While a set is held, a delete of all sets is refused. -/
theorem Inv.delete_all (hi : Inv sha256 s) {h : Held} (hh : h ∈ s.holds) (hne : h.sets ≠ [])
    (io : Text → RemoveIo) : ∃ busy, s.delete none io = (s, .error (.inTraining busy)) := by
  obtain ⟨set, hset⟩ := List.exists_mem_of_ne_nil _ hne
  have hname : set ∈ setNames s.root :=
    mem_setNames.mpr ⟨hi.checked h hh set hset, (hi.kept hh).there set hset⟩
  have hheld : (s.held set).isSome = true := by
    rw [Option.isSome_iff_ne_none]
    exact fun hnone => hi.held_eq_none.mp hnone h hh hset
  have hfind : ((setNames s.root).find? fun set => (s.held set).isSome).isSome = true :=
    List.find?_isSome.mpr ⟨set, hname, hheld⟩
  obtain ⟨busy, hb⟩ := Option.isSome_iff_exists.mp hfind
  refine ⟨busy, ?_⟩
  unfold delete toDelete
  dsimp only
  rw [hb]

/-! ### Releases -/

theorem Frees.held (hf : s.Frees s') : s'.held = s.held := by
  obtain ⟨root, rfl, -⟩ := hf
  rfl

/-- Only the drop of a hold frees a set. -/
theorem Inv.releases (hi : Inv sha256 s) {set : Text} {e : Op}
    (hs : Store.step checkWav sha256 s e = some s') (hheld : s.held set ≠ none) :
    s'.held set = none ↔ (∃ k, e = .drop k) ∧ ∀ h ∈ s'.holds, set ∉ h.sets := by
  have hi' := hi.step hs
  rw [hi'.held_eq_none]
  refine ⟨fun hnone => ⟨?_, hnone⟩, And.right⟩
  have hfree : s'.held set = none := hi'.held_eq_none.mpr hnone
  cases e with
  | put name take bytes io =>
    rw [← Option.some.inj hs, (put_frees name.1 take bytes io).held] at hfree
    exact absurd hfree hheld
  | delete name io =>
    rw [← Option.some.inj hs, (delete_frees (name.map (·.1)) io).held] at hfree
    exact absurd hfree hheld
  | hold sets fails =>
    exfalso
    apply hheld
    rw [hi.held_eq_none]
    intro h hh
    refine hnone h ?_
    rw [← Option.some.inj hs]
    unfold Store.hold
    cases collect sha256 s.root fails (sets.map (·.1)) with
    | error e => exact hh
    | ok takes => exact List.mem_append_left _ hh
  | drop k => exact ⟨k, rfl⟩

theorem Inv.guarded (hi : Inv sha256 s) : Guarded checkWav sha256 s where
  kept _ hh := hi.kept hh
  count set := by rw [hi.counts set, Refcount.getD_counted]
  released _ := hi.held_eq_none
  releases _ _ _ hs hheld := hi.releases hs hheld
  putRefused _ _ _ _ _ h := put_refused h
  deleteRefused _ _ _ h := delete_refused h
  deleteAll _ hh hne io := hi.delete_all hh hne io

/-- Over any operations in any order the holds keep their takes, the counts are exact and the
refusals change nothing. -/
theorem run_guarded (checkWav : Bytes → Except String ℚ) (sha256 : Bytes → Text)
    (root : Entries Text SetDir) {es : List Op} {s : Store}
    (hr : run (step checkWav sha256) (new root) es = some s) : Guarded checkWav sha256 s :=
  (run_invariant (fun _ _ _ hi hs => hi.step hs) (Inv.new root) hr : Inv sha256 s).guarded

def setOne : SetName := ⟨['s', '1'], by decide⟩

def shaOne : Text := "4bf5122f344554c53bde2ebb8cd2b7e3d1600ad631c385a5d7cce23c7785459a".toList

/-- Two holds, one of them on the set twice; what asks for the set meanwhile is refused. -/
def overlapping : List Op :=
  [.hold [setOne, setOne] fun _ => none, .hold [setOne] fun _ => none,
    .put setOne ⟨.positive, 1, none⟩ [104, 105] .written, .drop 0, .delete none fun _ => .removed]

theorem overlapping_guarded :
    let refuse : Bytes → Except String ℚ := fun _ => .error "not a WAV file (no RIFF/WAVE header)"
    let root : Entries Text SetDir :=
      [(setOne.1, fun kind => if kind = .positive then [(['7'] ++ wav, [1])] else [])]
    ∃ s, run (step refuse fun _ => shaOne) (new root) overlapping = some s ∧
      (s.holds = [⟨[⟨setOne.1, .positive, 7, none, ['7'] ++ wav, shaOne⟩], [setOne.1]⟩] ∧
        s.held setOne.1 = some 1) ∧ Guarded refuse (fun _ => shaOne) s := by
  intro refuse root
  exact exists_run (P := fun s =>
      s.holds = [⟨[⟨setOne.1, .positive, 7, none, ['7'] ++ wav, shaOne⟩], [setOne.1]⟩] ∧
        s.held setOne.1 = some 1) (by decide)
    fun s hr hp => ⟨hp, run_guarded refuse (fun _ => shaOne) root hr⟩

end Store

end StudioWorker.VoiceSamples
