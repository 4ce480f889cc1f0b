import Mathlib.Data.List.Basic
import Mathlib.Logic.Function.Basic
import Mathlib.Tactic.SplitIfs

/-!
# Lib.Directory — names, files and open handles

A name leads to a file and a handle to a file, not to a name: removing or renaming a name leaves
what is open on its file alone, and opening a name again does not move a handle.

* `Directory.file`: the file a name leads to, and what it holds.
* `Directory.Frames`: everything but the files of some names is as it was.
-/

namespace Lib

/-- A directory of files of `α`s.  No two names lead to one file. -/
structure Directory (N α : Type*) where
  entry : N → Option ℕ
  content : ℕ → List α
  /-- The next file to be made. -/
  next : ℕ
  bounded : ∀ n i, entry n = some i → i < next
  single : ∀ n m i, entry n = some i → entry m = some i → n = m

namespace Directory

variable {N α : Type*}

def empty : Directory N α where
  entry _ := none
  content _ := []
  next := 0
  bounded _ _ h := by cases h
  single _ _ _ h := by cases h

/-- The file a name leads to, and what it holds. -/
def file (d : Directory N α) (n : N) : Option (ℕ × List α) :=
  (d.entry n).map fun i => (i, d.content i)

theorem file_eq_some {d : Directory N α} {n : N} {i : ℕ} {c : List α} :
    d.file n = some (i, c) ↔ d.entry n = some i ∧ d.content i = c := by
  unfold file
  rw [Option.map_eq_some_iff]
  constructor
  · rintro ⟨j, hj, heq⟩
    obtain ⟨rfl, rfl⟩ := Prod.mk.inj heq
    exact ⟨hj, rfl⟩
  · rintro ⟨hi, rfl⟩
    exact ⟨i, hi, rfl⟩

/-- Names other than those in `S` lead to the files they led to, holding what they held. -/
def Frames (S : N → Prop) (d d' : Directory N α) : Prop :=
  ∀ n, ¬ S n → d'.file n = d.file n

theorem Frames.refl {S : N → Prop} (d : Directory N α) : Frames S d d := fun _ _ => rfl

variable [DecidableEq N]

/-- Make a name lead to a new, empty file. -/
def createNew (d : Directory N α) (n : N) : Directory N α where
  entry := Function.update d.entry n (some d.next)
  content := Function.update d.content d.next []
  next := d.next + 1
  bounded m i h := by
    by_cases hm : m = n
    · rw [hm, Function.update_self, Option.some.injEq] at h
      omega
    · rw [Function.update_of_ne hm] at h
      exact Nat.lt_succ_of_lt (d.bounded m i h)
  single m m' i h h' := by
    by_cases hm : m = n <;> by_cases hm' : m' = n
    · exact hm.trans hm'.symm
    · rw [hm, Function.update_self, Option.some.injEq] at h
      rw [Function.update_of_ne hm'] at h'
      exact absurd (d.bounded m' i h') (by omega)
    · rw [hm', Function.update_self, Option.some.injEq] at h'
      rw [Function.update_of_ne hm] at h
      exact absurd (d.bounded m i h) (by omega)
    · rw [Function.update_of_ne hm] at h
      rw [Function.update_of_ne hm'] at h'
      exact d.single m m' i h h'

/-- Replace what a file holds. -/
def put (d : Directory N α) (i : ℕ) (c : List α) : Directory N α :=
  { d with content := Function.update d.content i c }

/-- Open a name for writing from the start: its file, emptied, or a new one. -/
def create (d : Directory N α) (n : N) : Directory N α × ℕ :=
  match d.entry n with
  | some i => (d.put i [], i)
  | none => (d.createNew n, d.next)

/-- What a file holds after a write at an offset; a gap is filled with `zero`. -/
def overwrite (zero : α) (c : List α) (offset : ℕ) (chunk : List α) : List α :=
  (c ++ List.replicate (offset - c.length) zero).take offset ++ chunk ++
    c.drop (offset + chunk.length)

def remove (d : Directory N α) (n : N) : Directory N α :=
  { d with
    entry := Function.update d.entry n none
    bounded := fun m i h => by
      by_cases hm : m = n
      · rw [hm, Function.update_self] at h
        cases h
      · rw [Function.update_of_ne hm] at h
        exact d.bounded m i h
    single := fun m m' i h h' => by
      by_cases hm : m = n
      · rw [hm, Function.update_self] at h
        cases h
      · by_cases hm' : m' = n
        · rw [hm', Function.update_self] at h'
          cases h'
        · rw [Function.update_of_ne hm] at h
          rw [Function.update_of_ne hm'] at h'
          exact d.single m m' i h h' }

/-- What a name leads to once `source`, which leads to the file `i`, was renamed. -/
def renamedEntry (d : Directory N α) (source target : N) (i : ℕ) (m : N) : Option ℕ :=
  if m = target then some i else if m = source then none else d.entry m

theorem renamedEntry_eq {d : Directory N α} {source target m : N} {i j : ℕ}
    (hi : d.entry source = some i) (h : d.renamedEntry source target i m = some j) :
    (m = target ∧ j = i) ∨ (m ≠ target ∧ m ≠ source ∧ d.entry m = some j ∧ j ≠ i) := by
  unfold renamedEntry at h
  split_ifs at h with h1 h2
  · exact .inl ⟨h1, (Option.some.inj h).symm⟩
  · refine .inr ⟨h1, h2, h, ?_⟩
    rintro rfl
    exact h2 (d.single m source j h hi)

/-- Rename a name that leads to the file `i`, replacing what the target led to. -/
def renameFile (d : Directory N α) (source target : N) (i : ℕ) (hi : d.entry source = some i) :
    Directory N α :=
  { d with
    entry := d.renamedEntry source target i
    bounded := fun m j h => by
      rcases renamedEntry_eq hi h with ⟨-, rfl⟩ | ⟨-, -, h, -⟩
      · exact d.bounded source _ hi
      · exact d.bounded m j h
    single := fun m m' j h h' => by
      rcases renamedEntry_eq hi h with ⟨rfl, rfl⟩ | ⟨-, -, h, hne⟩
      · rcases renamedEntry_eq hi h' with ⟨rfl, -⟩ | ⟨-, -, -, hne⟩
        · rfl
        · exact absurd rfl hne
      · rcases renamedEntry_eq hi h' with ⟨-, rfl⟩ | ⟨-, -, h', -⟩
        · exact absurd rfl hne
        · exact d.single m m' j h h' }

/-- Rename a name; `none` when it leads nowhere. -/
def rename (d : Directory N α) (source target : N) : Option (Directory N α) :=
  match hi : d.entry source with
  | some i => some (d.renameFile source target i hi)
  | none => none

/-! ## What the operations leave -/

variable {d d' : Directory N α} {n m : N} {i : ℕ} {c : List α}

omit [DecidableEq N] in
theorem file_put (h : d.entry n = some i) : (d.put i c).file n = some (i, c) :=
  file_eq_some.mpr ⟨h, Function.update_self ..⟩

omit [DecidableEq N] in
/-- Replacing what a name's file holds leaves the other names alone. -/
theorem frames_put (h : d.entry n = some i) : Frames (· = n) d (d.put i c) := by
  intro m hm
  unfold file
  refine Option.map_congr fun j hj => ?_
  have hne : j ≠ i := by
    rintro rfl
    exact hm (d.single m n j hj h)
  exact congrArg (Prod.mk j) (Function.update_of_ne hne ..)

theorem file_create (d : Directory N α) (n : N) :
    (d.create n).1.file n = some ((d.create n).2, []) := by
  unfold create
  rcases h : d.entry n with _ | i
  · exact file_eq_some.mpr ⟨Function.update_self .., Function.update_self ..⟩
  · exact file_put h

theorem frames_create (d : Directory N α) (n : N) : Frames (· = n) d (d.create n).1 := by
  unfold create
  rcases h : d.entry n with _ | i
  · intro m hm
    have hentry : (d.createNew n).entry m = d.entry m := Function.update_of_ne hm ..
    unfold file
    dsimp only
    rw [hentry]
    refine Option.map_congr fun j hj => ?_
    have hne : j ≠ d.next := Nat.ne_of_lt (d.bounded m j hj)
    exact congrArg (Prod.mk j) (Function.update_of_ne hne ..)
  · exact frames_put h

theorem frames_remove (d : Directory N α) (n : N) : Frames (· = n) d (d.remove n) := by
  intro m hm
  have hentry : (d.remove n).entry m = d.entry m := Function.update_of_ne hm ..
  unfold file
  rw [hentry]
  rfl

theorem rename_eq_some {target : N} :
    d.rename n target = some d' ↔ ∃ i, ∃ h : d.entry n = some i, d.renameFile n target i h = d' := by
  unfold rename
  split
  · rename_i i hi
    rw [Option.some.injEq]
    constructor
    · rintro rfl
      exact ⟨i, hi, rfl⟩
    · rintro ⟨j, hj, rfl⟩
      obtain rfl : j = i := Option.some.inj (hj.symm.trans hi)
      rfl
  · rename_i hnone
    constructor
    · intro h
      cases h
    · rintro ⟨i, hi, -⟩
      rw [hnone] at hi
      cases hi

/-- The target of a rename leads to the file that was renamed. -/
theorem file_rename {target : N} (h : d.rename n target = some d') : d'.file target = d.file n := by
  obtain ⟨i, hi, rfl⟩ := rename_eq_some.mp h
  have hentry : (d.renameFile n target i hi).entry target = some i := if_pos rfl
  rw [file, file, hentry, hi]
  rfl

theorem frames_rename {target : N} (h : d.rename n target = some d') :
    Frames (fun m => m = n ∨ m = target) d d' := by
  obtain ⟨i, hi, rfl⟩ := rename_eq_some.mp h
  intro m hm
  have hentry : (d.renameFile n target i hi).entry m = d.entry m :=
    (if_neg fun h => hm (.inr h)).trans (if_neg fun h => hm (.inl h))
  rw [file, file, hentry]
  rfl

/-- Writing where a file ends appends to it. -/
theorem overwrite_length (zero : α) (c chunk : List α) :
    overwrite zero c c.length chunk = c ++ chunk := by
  simp [overwrite]

end Directory

end Lib
