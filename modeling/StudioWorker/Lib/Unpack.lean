import Mathlib.Data.List.Basic
import Mathlib.Logic.Function.Basic

/-!
# Lib.Unpack — files by name, and the entries of an archive

Where an archive has a name twice its last entry is what unpacking it leaves.

* `given`: what a list of entries gives a name.
* `Unpacked`: every name of the entries holds what they give it.
* `UnpackedBut.concat`, `unpacked_of_moved`: entry by entry, in their order or in any.
-/

namespace Lib

variable {N α : Type*} [DecidableEq N] {es : List (N × α)} {files : N → Option α} {n : N}

/-- What the entries give a name: the last of them that has it. -/
def given (es : List (N × α)) (n : N) : Option α := es.reverse.lookup n

theorem given_concat (es : List (N × α)) (e : N × α) (n : N) :
    given (es ++ [e]) n = if n = e.1 then some e.2 else given es n := by
  unfold given
  rw [List.reverse_concat, List.lookup_cons]
  by_cases h : n = e.1
  · rw [if_pos h, beq_iff_eq.mpr h]
  · rw [if_neg h, beq_eq_false_iff_ne.mpr h]

theorem given_isSome_iff : (given es n).isSome ↔ n ∈ es.map Prod.fst := by
  rw [given, List.lookup_isSome_iff, List.mem_map]
  constructor
  · rintro ⟨e, he, hn⟩
    exact ⟨e, List.mem_reverse.mp he, (beq_iff_eq.mp hn).symm⟩
  · rintro ⟨e, he, rfl⟩
    exact ⟨e, List.mem_reverse.mpr he, beq_self_eq_true _⟩

/-- Every name of the entries holds what they give it. -/
def Unpacked (files : N → Option α) (es : List (N × α)) : Prop :=
  ∀ e ∈ es, files e.1 = given es e.1

instance [DecidableEq α] (files : N → Option α) (es : List (N × α)) :
    Decidable (Unpacked files es) :=
  inferInstanceAs (Decidable (∀ e ∈ es, files e.1 = given es e.1))

theorem Unpacked.nil (files : N → Option α) : Unpacked files [] := fun e he => by cases he

theorem Unpacked.get (h : Unpacked files es) (hn : n ∈ es.map Prod.fst) : files n = given es n := by
  obtain ⟨e, he, rfl⟩ := List.mem_map.mp hn
  exact h e he

/-- A name that is no entry's may change. -/
theorem Unpacked.update (h : Unpacked files es) (hn : n ∉ es.map Prod.fst) (a : Option α) :
    Unpacked (Function.update files n a) es := by
  intro e he
  have hne : e.1 ≠ n := fun heq => hn (List.mem_map.mpr ⟨e, he, heq⟩)
  rw [Function.update_of_ne hne]
  exact h e he

/-- Every name of the entries but one holds what they give it. -/
def UnpackedBut (files : N → Option α) (es : List (N × α)) (n : N) : Prop :=
  ∀ e ∈ es, e.1 ≠ n → files e.1 = given es e.1

theorem Unpacked.but (h : Unpacked files es) (n : N) : UnpackedBut files es n :=
  fun e he _ => h e he

theorem UnpackedBut.update (h : UnpackedBut files es n) (a : Option α) :
    UnpackedBut (Function.update files n a) es n := by
  intro e he hne
  rw [Function.update_of_ne hne]
  exact h e he hne

/-- The next entry is written over what was there. -/
theorem UnpackedBut.concat {e : N × α} (h : UnpackedBut files es e.1) :
    Unpacked (Function.update files e.1 (some e.2)) (es ++ [e]) := by
  intro e' he'
  rw [given_concat]
  by_cases hne : e'.1 = e.1
  · rw [if_pos hne, hne, Function.update_self]
  · rw [if_neg hne, Function.update_of_ne hne]
    rcases List.mem_append.mp he' with he' | he'
    · exact h e' he' hne
    · exact absurd (congrArg Prod.fst (List.mem_singleton.mp he')) hne

/-- Once each name was moved, in whatever order, all of them are in place. -/
theorem unpacked_of_moved {moved : List N} (h : ∀ n ∈ moved, files n = given es n)
    (hall : ∀ e ∈ es, e.1 ∈ moved) : Unpacked files es := fun e he => h e.1 (hall e he)

/-- One more name is moved. -/
theorem moved_cons {moved : List N} (h : ∀ n ∈ moved, files n = given es n) (n : N) :
    ∀ m ∈ n :: moved, Function.update files n (given es n) m = given es m := by
  intro m hm
  by_cases hne : m = n
  · rw [hne, Function.update_self]
  · rw [Function.update_of_ne hne]
    rcases List.mem_cons.mp hm with hm | hm
    · exact absurd hm hne
    · exact h m hm

end Lib
