import Mathlib.Data.List.Basic

/-!
# Lib.Entries — named entries, as a directory lists them

A list of names with what each leads to.  Putting and erasing a name leaves the others alone.
-/

namespace Lib

abbrev Entries (N α : Type*) := List (N × α)

namespace Entries

variable {N α : Type*} [DecidableEq N] {e : Entries N α} {n m : N} {a : α}

def get (e : Entries N α) (n : N) : Option α := e.lookup n

def erase (e : Entries N α) (n : N) : Entries N α := e.filter fun p => p.1 ≠ n

/-- The name leads to the value from now on. -/
def put (e : Entries N α) (n : N) (a : α) : Entries N α := (n, a) :: e.erase n

theorem get_cons (p : N × α) : get (p :: e) n = if n = p.1 then some p.2 else get e n := by
  unfold get
  rw [List.lookup_cons]
  by_cases h : n = p.1
  · rw [if_pos h, beq_iff_eq.mpr h]
  · rw [if_neg h, beq_eq_false_iff_ne.mpr h]

theorem get_erase_ne (h : n ≠ m) : (e.erase m).get n = e.get n := by
  induction e with
  | nil => rfl
  | cons p e ih =>
    unfold erase at ih ⊢
    by_cases hp : p.1 = m
    · rw [List.filter_cons_of_neg (by simpa using hp), ih, get_cons, if_neg (hp ▸ h)]
    · rw [List.filter_cons_of_pos (by simpa using hp), get_cons, get_cons, ih]

@[simp] theorem get_erase_self : (e.erase n).get n = none := by
  unfold get erase
  rw [List.lookup_eq_none_iff]
  intro p hp
  have hne := (List.mem_filter.mp hp).2
  exact bne_iff_ne.mpr (Ne.symm (by simpa using hne))

@[simp] theorem get_put_self : (e.put n a).get n = some a := by
  unfold put
  rw [get_cons, if_pos rfl]

theorem get_put_ne (h : n ≠ m) : (e.put m a).get n = e.get n := by
  unfold put
  rw [get_cons, if_neg h, get_erase_ne h]

/-- A name is listed where it leads to something. -/
theorem mem_map_iff : n ∈ e.map (·.1) ↔ ∃ a, e.get n = some a := by
  induction e with
  | nil => simp [get]
  | cons p e ih =>
    rw [List.map_cons, List.mem_cons, get_cons, ih]
    by_cases h : n = p.1
    · simp [h]
    · simp [h]

end Entries

end Lib
