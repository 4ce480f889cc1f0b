import Mathlib.Data.List.Infix
import Mathlib.Data.List.Nodup

/-!
# Lib.Firsts — a list without what comes again

`firsts key l` keeps of every key the first item that has it.  What is kept of a list comes first
in what is kept of a longer one.
-/

namespace Lib.Firsts

variable {α κ : Type*} [DecidableEq κ] (key : α → κ)

def add (kept : List α) (a : α) : List α :=
  if key a ∈ kept.map key then kept else kept ++ [a]

def firsts (l : List α) : List α := l.foldl (add key) []

variable {key}

theorem add_of_mem {kept : List α} {a : α} (h : key a ∈ kept.map key) : add key kept a = kept :=
  if_pos h

theorem add_of_not_mem {kept : List α} {a : α} (h : key a ∉ kept.map key) :
    add key kept a = kept ++ [a] :=
  if_neg h

theorem prefix_add (kept : List α) (a : α) : kept <+: add key kept a := by
  rw [add]
  split_ifs
  · exact List.prefix_rfl
  · exact List.prefix_append kept [a]

theorem firsts_concat (l : List α) (a : α) : firsts key (l ++ [a]) = add key (firsts key l) a := by
  rw [firsts, List.foldl_append]
  rfl

theorem firsts_prefix_append (l r : List α) : firsts key l <+: firsts key (l ++ r) := by
  induction r using List.reverseRecOn with
  | nil => rw [List.append_nil]
  | append_singleton r a ih =>
    rw [← List.append_assoc, firsts_concat]
    exact ih.trans (prefix_add _ a)

theorem mem_of_mem_firsts {l : List α} {a : α} (h : a ∈ firsts key l) : a ∈ l := by
  induction l using List.reverseRecOn with
  | nil => exact h
  | append_singleton l b ih =>
    rw [firsts_concat, add] at h
    split_ifs at h
    · exact List.mem_append_left _ (ih h)
    · exact (List.mem_append.mp h).elim (fun h => List.mem_append_left _ (ih h))
        (List.mem_append_right l)

/-- No key is kept twice. -/
theorem nodup_firsts (l : List α) : ((firsts key l).map key).Nodup := by
  induction l using List.reverseRecOn with
  | nil => exact List.nodup_nil
  | append_singleton l a ih =>
    rw [firsts_concat, add]
    split_ifs with h
    · exact ih
    · rw [List.map_append]
      exact ih.append (List.nodup_singleton _) (List.disjoint_singleton.mpr h)

/-- Nothing is left out of a list without repetitions. -/
theorem firsts_eq_self {l : List α} (h : (l.map key).Nodup) : firsts key l = l := by
  induction l using List.reverseRecOn with
  | nil => rfl
  | append_singleton l a ih =>
    rw [List.map_append] at h
    have hnew : key a ∉ l.map key := List.disjoint_singleton.mp (List.disjoint_of_nodup_append h)
    rw [firsts_concat, ih (List.Nodup.of_append_left h), add_of_not_mem hnew]

/-- Of two lists of which one goes on where the other ends, the fewer are kept first. -/
theorem firsts_prefix {l l' : List α} (h : l <+: l' ∨ l' <+: l)
    (hle : (firsts key l).length ≤ (firsts key l').length) : firsts key l <+: firsts key l' := by
  rcases h with ⟨r, rfl⟩ | ⟨r, rfl⟩
  · exact firsts_prefix_append l r
  · rw [(firsts_prefix_append l' r).eq_of_length_le hle]

/-- As many as are kept at all are kept of some front part. -/
theorem exists_take_firsts {l : List α} {n : ℕ} (h : n ≤ (firsts key l).length) :
    ∃ m ≤ l.length, firsts key (l.take m) = (firsts key l).take n := by
  induction l using List.reverseRecOn with
  | nil => exact ⟨0, le_rfl, by rw [List.take_nil]; exact List.take_nil.symm⟩
  | append_singleton l a ih =>
    by_cases hle : n ≤ (firsts key l).length
    · obtain ⟨m, hm, htake⟩ := ih hle
      refine ⟨m, ?_, ?_⟩
      · rw [List.length_append]
        omega
      · rw [List.take_append_of_le_length hm, htake]
        obtain ⟨r, hr⟩ : firsts key l <+: firsts key (l ++ [a]) := firsts_prefix_append l [a]
        rw [← hr, List.take_append_of_le_length hle]
    · have hall : (firsts key (l ++ [a])).length ≤ n := by
        rw [firsts_concat, add] at h ⊢
        split_ifs at h ⊢
        · omega
        · rw [List.length_append, List.length_singleton]
          omega
      refine ⟨(l ++ [a]).length, le_rfl, ?_⟩
      rw [List.take_length, List.take_of_length_le hall]

end Lib.Firsts
