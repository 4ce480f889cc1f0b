import Mathlib.Order.Lattice
import StudioWorker.Lib.Entries

/-!
# Lib.Sorted — named entries in the order of their names

`insert` keeps a name's place and replaces what it leads to.  A list of entries is gathered one by
one, so the last one of a name counts.
-/

namespace Lib.Entries

variable {N α β : Type*} [LinearOrder N] {e : Entries N α} {n m : N} {a : α}

def insert : Entries N α → N → α → Entries N α
  | [], n, a => [(n, a)]
  | p :: e, n, a =>
    if n < p.1 then (n, a) :: p :: e
    else if n = p.1 then (n, a) :: e
    else p :: insert e n a

/-- The entries of a list, in order; the last one of a name counts. -/
def gather (l : List (N × α)) : Entries N α := l.foldl (fun e p => e.insert p.1 p.2) []

def Sorted (e : Entries N α) : Prop := e.Pairwise fun p q => p.1 < q.1

/-! ## What a name leads to -/

theorem get_insert : (e.insert n a).get m = if m = n then some a else e.get m := by
  induction e with
  | nil => rw [insert, get_cons]
  | cons p e ih =>
    rw [insert]
    by_cases hlt : n < p.1
    · rw [if_pos hlt, get_cons]
    · rw [if_neg hlt]
      by_cases heq : n = p.1
      · rw [if_pos heq, get_cons, get_cons, ← heq]
        split_ifs <;> rfl
      · rw [if_neg heq, get_cons, get_cons, ih]
        by_cases hm : m = n
        · rw [if_pos hm, if_pos hm, if_neg (by rw [hm]; exact heq)]
        · rw [if_neg hm, if_neg hm]

@[simp] theorem get_insert_self : (e.insert n a).get n = some a := by
  rw [get_insert, if_pos rfl]

theorem get_insert_ne (h : m ≠ n) : (e.insert n a).get m = e.get m := by
  rw [get_insert, if_neg h]

/-- A name leads to nothing where it is not listed. -/
theorem get_eq_none_iff : e.get n = none ↔ n ∉ e.map (·.1) := by
  rw [mem_map_iff, Option.eq_none_iff_forall_ne_some]
  exact not_exists.symm

/-- Every name of a list is gathered, and no other. -/
theorem mem_gather {l : List (N × α)} : n ∈ (gather l).map (·.1) ↔ n ∈ l.map (·.1) := by
  have hfold : ∀ e : Entries N α, n ∈ (l.foldl (fun e p => e.insert p.1 p.2) e).map (·.1) ↔
      n ∈ e.map (·.1) ∨ n ∈ l.map (·.1) := by
    induction l with
    | nil => simp
    | cons p l ih =>
      intro e
      have hinsert : n ∈ (e.insert p.1 p.2).map (·.1) ↔ n = p.1 ∨ n ∈ e.map (·.1) := by
        rw [mem_map_iff, mem_map_iff, get_insert]
        split_ifs with h
        · simp [h]
        · simp [h]
      rw [List.foldl_cons, ih, hinsert, List.map_cons, List.mem_cons]
      exact or_assoc.trans or_left_comm
  rw [gather, hfold]
  simp

/-! ## The order -/

theorem mem_insert {p : N × α} (h : p ∈ e.insert n a) : p = (n, a) ∨ p ∈ e := by
  induction e with
  | nil => exact Or.inl (List.mem_singleton.mp h)
  | cons q e ih =>
    rw [insert] at h
    split_ifs at h with hlt heq
    · exact List.mem_cons.mp h
    · exact (List.mem_cons.mp h).imp_right (List.mem_cons_of_mem q)
    · rcases List.mem_cons.mp h with rfl | hmem
      · exact Or.inr List.mem_cons_self
      · exact (ih hmem).imp_right (List.mem_cons_of_mem q)

theorem Sorted.insert (h : e.Sorted) : (e.insert n a).Sorted := by
  induction e with
  | nil => exact List.pairwise_singleton _ _
  | cons p e ih =>
    have hp := List.pairwise_cons.mp h
    rw [Entries.insert]
    split_ifs with hlt heq
    · refine List.Pairwise.cons (fun q hq => ?_) h
      rcases List.mem_cons.mp hq with rfl | hmem
      · exact hlt
      · exact lt_trans hlt (hp.1 q hmem)
    · refine List.Pairwise.cons (fun q hq => ?_) hp.2
      rw [heq]
      exact hp.1 q hq
    · refine List.Pairwise.cons (fun q hq => ?_) (ih hp.2)
      rcases mem_insert hq with rfl | hmem
      · exact lt_of_le_of_ne (not_lt.mp hlt) (Ne.symm heq)
      · exact hp.1 q hmem

theorem of_mem_gather {l : List (N × α)} {p : N × α} (h : p ∈ gather l) : p ∈ l := by
  have hfold : ∀ e : Entries N α, p ∈ l.foldl (fun e p => e.insert p.1 p.2) e → p ∈ e ∨ p ∈ l := by
    clear h
    induction l with
    | nil => exact fun e he => Or.inl he
    | cons q l ih =>
      intro e he
      rcases ih _ he with hmem | hmem
      · rcases mem_insert hmem with rfl | hmem
        · exact Or.inr List.mem_cons_self
        · exact Or.inl hmem
      · exact Or.inr (List.mem_cons_of_mem q hmem)
  exact (hfold [] h).resolve_left List.not_mem_nil

theorem gather_sorted (l : List (N × α)) : (gather l).Sorted := by
  have hfold : ∀ e : Entries N α, e.Sorted →
      Sorted (l.foldl (fun e p => e.insert p.1 p.2) e) := by
    induction l with
    | nil => exact fun e he => he
    | cons p l ih => exact fun e he => ih _ he.insert
  exact hfold [] List.Pairwise.nil

/-- No name is listed twice. -/
theorem Sorted.nodup (h : e.Sorted) : (e.map (·.1)).Nodup :=
  List.pairwise_map.mpr (h.imp fun hlt => ne_of_lt hlt)

theorem get_gather {l : List (N × α)} (h : (l.map (·.1)).Nodup) : (gather l).get n = get l n := by
  have hfold : ∀ e : Entries N α, (∀ p ∈ l, p.1 ∉ e.map (·.1)) →
      get (l.foldl (fun e p => e.insert p.1 p.2) e) n = (get l n).or (e.get n) := by
    induction l with
    | nil => exact fun e _ => rfl
    | cons p l ih =>
      intro e he
      rw [List.map_cons, List.nodup_cons] at h
      have hinsert : ∀ q ∈ l, q.1 ∉ (e.insert p.1 p.2).map (·.1) := by
        intro q hq hmem
        obtain ⟨a, ha⟩ := mem_map_iff.mp hmem
        have hne : q.1 ≠ p.1 := fun heq => h.1 (heq ▸ List.mem_map_of_mem hq)
        rw [get_insert_ne hne] at ha
        exact he q (List.mem_cons_of_mem p hq) (mem_map_iff.mpr ⟨a, ha⟩)
      rw [List.foldl_cons, ih h.2 _ hinsert, get_cons, get_insert]
      by_cases hn : n = p.1
      · have hnone : get l n = none := by
          rw [get_eq_none_iff, hn]
          exact h.1
        rw [if_pos hn, if_pos hn, hnone, Option.none_or, Option.some_or]
      · rw [if_neg hn, if_neg hn]
  rw [gather, hfold [] (fun p _ => List.not_mem_nil)]
  exact Option.or_none

theorem Sorted.erase (h : e.Sorted) : (e.erase n).Sorted := List.Pairwise.filter _ h

theorem Sorted.le_of_get {p : N × α} (h : Sorted (p :: e)) (hn : get (p :: e) n = some a) :
    p.1 ≤ n := by
  rw [get_cons] at hn
  split_ifs at hn with heq
  · exact le_of_eq heq.symm
  · obtain ⟨q, hq, rfl⟩ := List.mem_map.mp (mem_map_iff.mpr ⟨a, hn⟩)
    exact le_of_lt ((List.pairwise_cons.mp h).1 q hq)

/-- Entries in order are told by what each name leads to. -/
theorem Sorted.ext {e' : Entries N α} (h : e.Sorted) (h' : e'.Sorted)
    (hget : ∀ n, e.get n = e'.get n) : e = e' := by
  induction e generalizing e' with
  | nil =>
    cases e' with
    | nil => rfl
    | cons q e' =>
      have hq := hget q.1
      rw [get_cons, if_pos rfl] at hq
      cases hq
  | cons p e ih =>
    cases e' with
    | nil =>
      have hp := hget p.1
      rw [get_cons, if_pos rfl] at hp
      cases hp
    | cons q e' =>
      have hp : get (q :: e') p.1 = some p.2 := by
        rw [← hget, get_cons, if_pos rfl]
      have hq : get (p :: e) q.1 = some q.2 := by
        rw [hget, get_cons, if_pos rfl]
      have hname : p.1 = q.1 := le_antisymm (h.le_of_get hq) (h'.le_of_get hp)
      rw [get_cons, if_pos hname] at hp
      have hpq : p = q := Prod.ext hname (Option.some.inj hp).symm
      subst hpq
      have hrest : ∀ n, Entries.get e n = Entries.get e' n := by
        intro n
        by_cases hn : n = p.1
        · have hnot := (List.nodup_cons.mp h.nodup).1
          have hnot' := (List.nodup_cons.mp h'.nodup).1
          rw [get_eq_none_iff.mpr (hn ▸ hnot), get_eq_none_iff.mpr (hn ▸ hnot')]
        · have hn' := hget n
          rw [get_cons, get_cons, if_neg hn, if_neg hn] at hn'
          exact hn'
      rw [ih (List.pairwise_cons.mp h).2 (List.pairwise_cons.mp h').2 hrest]

end Lib.Entries
