import Mathlib.Data.Finset.Basic

/-!
# Residency — the persisted wish that a model is loaded (`src/residency.rs`)

The outcome of a save is an argument: any save may fail.  A failed save leaves the file as it was
(the write goes to a temporary file and is renamed over the target).
-/

namespace StudioWorker

/-- What reading the residency file gives: `contents` with what `parse` makes of it, `none` for
bad JSON or an unknown version. -/
inductive FileRead where
  | notFound
  | unreadable
  | contents (parsed : Option (Finset String))
deriving DecidableEq

/-- The resident set, the file it persists to (`none`: memory only) and what that file holds. -/
structure Residency where
  resident : Finset String
  path : Option String
  file : FileRead
deriving DecidableEq

namespace Residency

/-- Load for serving; `renamed` is whether a corrupt file could be quarantined. -/
def loadForServing (path : Option String) (file : FileRead) (renamed : Bool) : Residency :=
  match path with
  | none => ⟨∅, none, file⟩
  | some path =>
    match file with
    | .contents (some resident) => ⟨resident, some path, file⟩
    | .contents none => ⟨∅, some path, if renamed then .notFound else file⟩
    | .notFound => ⟨∅, some path, .notFound⟩
    | .unreadable => ⟨∅, none, .unreadable⟩

def isResident (r : Residency) (id : String) : Bool := id ∈ r.resident

/-- The resident set with `id` marked resident or not. -/
def next (r : Residency) (id : String) (resident : Bool) : Finset String :=
  if resident then insert id r.resident else r.resident.erase id

/-- Mark `id` resident or not; `ok true` when something changed.  Persists before committing. -/
def set (r : Residency) (id : String) (resident : Bool) (save : Except String Unit) :
    Except String Bool × Residency :=
  if r.isResident id = resident then (.ok false, r)
  else
    match r.path with
    | none => (.ok true, { r with resident := r.next id resident })
    | some _ =>
      match save with
      | .error e => (.error e, r)
      | .ok () =>
        (.ok true, { r with
          resident := r.next id resident
          file := .contents (some (r.next id resident)) })

variable {r : Residency} {id : String} {b : Bool} {save : Except String Unit}

theorem mem_next {o : String} :
    o ∈ r.next id b ↔ (o = id ∧ b = true) ∨ (o ≠ id ∧ o ∈ r.resident) := by
  unfold next
  by_cases ho : o = id <;> cases b <;> simp [ho]

/-- Setting what already is changes nothing and saves nothing. -/
theorem set_of_eq (h : r.isResident id = b) : r.set id b save = (.ok false, r) := if_pos h

theorem next_of_eq (h : r.isResident id = b) : r.next id b = r.resident := by
  ext o
  rw [mem_next]
  constructor
  · rintro (⟨rfl, rfl⟩ | ⟨-, ho⟩)
    · exact of_decide_eq_true h
    · exact ho
  · intro ho
    by_cases hid : o = id
    · subst hid
      exact Or.inl ⟨rfl, h ▸ decide_eq_true ho⟩
    · exact Or.inr ⟨hid, ho⟩

/-- A `set` fails only at the save of something new, and then changes nothing, in memory or on
disk. -/
theorem set_error {e : String} (h : (r.set id b save).1 = .error e) :
    (r.set id b save).2 = r ∧ r.isResident id ≠ b ∧ r.path.isSome = true ∧ save = .error e := by
  unfold set at h ⊢
  by_cases h1 : r.isResident id = b
  · rw [if_pos h1] at h
    cases h
  · rw [if_neg h1] at h ⊢
    cases hp : r.path with
    | none => rw [hp] at h; cases h
    | some p =>
      rw [hp] at h
      cases save with
      | error e' => cases h; exact ⟨rfl, h1, rfl, rfl⟩
      | ok u => cases h

/-- A `set` that answers left exactly the asked membership behind. -/
theorem set_ok {c : Bool} (h : (r.set id b save).1 = .ok c) :
    (r.set id b save).2.resident = r.next id b := by
  unfold set at h ⊢
  by_cases h1 : r.isResident id = b
  · rw [if_pos h1, next_of_eq h1]
  · rw [if_neg h1] at h ⊢
    cases hp : r.path with
    | none => rfl
    | some p =>
      rw [hp] at h
      cases save with
      | error e => cases h
      | ok u => rfl

/-- With the save succeeding, a `set` answers. -/
theorem set_isOk (r : Residency) (id : String) (b : Bool) : ∃ c, (r.set id b (.ok ())).1 = .ok c := by
  cases hs : (r.set id b (.ok ())).1 with
  | error e => cases (set_error hs).2.2.2
  | ok c => exact ⟨c, rfl⟩

/-! ## What the next start reads back -/

/-- The resident set a start reads from the file. -/
def readBack (path : Option String) (file : FileRead) : Finset String :=
  match path, file with
  | some _, .contents (some resident) => resident
  | _, _ => ∅

theorem loadForServing_resident (path : Option String) (file : FileRead) (renamed : Bool) :
    (loadForServing path file renamed).resident = readBack path file := by
  cases path with
  | none => rfl
  | some p =>
    cases file with
    | contents parsed => cases parsed <;> rfl
    | _ => rfl

/-- A start from the file at `path` would bring back nothing that is not resident now, and nothing
at all while the residency is in memory only. -/
structure Persists (path : Option String) (r : Residency) : Prop where
  sub : readBack path r.file ⊆ r.resident
  memoryOnly : r.path = none → readBack path r.file = ∅

theorem persists_loadForServing (path : Option String) (file : FileRead) (renamed : Bool) :
    Persists path (loadForServing path file renamed) := by
  cases path with
  | none => exact ⟨subset_rfl, fun _ => rfl⟩
  | some p =>
    cases file with
    | contents parsed =>
      cases parsed with
      | none => cases renamed <;> exact ⟨subset_rfl, fun _ => rfl⟩
      | some resident => exact ⟨subset_rfl, fun h => by cases h⟩
    | notFound => exact ⟨subset_rfl, fun _ => rfl⟩
    | unreadable => exact ⟨subset_rfl, fun _ => rfl⟩

/-- Setting a membership keeps memory and file together, whether or not the save succeeds. -/
theorem persists_set {path : Option String} (hp : Persists path r) :
    Persists path (r.set id b save).2 := by
  unfold set
  by_cases h1 : r.isResident id = b
  · rw [if_pos h1]; exact hp
  · rw [if_neg h1]
    cases hpath : r.path with
    | none =>
      refine ⟨?_, fun _ => hp.memoryOnly hpath⟩
      show readBack path r.file ⊆ _
      rw [hp.memoryOnly hpath]
      exact Finset.empty_subset _
    | some p =>
      cases save with
      | error e => exact hp
      | ok u =>
        refine ⟨?_, fun h => by cases h⟩
        cases path with
        | none => exact Finset.empty_subset _
        | some p' => exact subset_rfl

end Residency

end StudioWorker
