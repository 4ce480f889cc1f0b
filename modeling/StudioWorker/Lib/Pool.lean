import Mathlib.Data.List.Basic

/-!
# Lib.Pool — a list of threads, addressed by position

A thread is spawned by appending it, takes a step by `List.set` and ends by `List.eraseIdx`.
`split_getElem?` cuts the pool at a thread once, so that membership and counts of the pool after
any of these are read off with `simp`.
-/

namespace Lib.Pool

variable {α : Type*}

/-- A pool cut at its `k`-th thread: what replacing and removing that thread give. -/
theorem split_getElem? {l : List α} {k : ℕ} {a : α} (h : l[k]? = some a) :
    ∃ l₁ l₂, l = l₁ ++ a :: l₂ ∧ l.eraseIdx k = l₁ ++ l₂ ∧
      ∀ b, l.set k b = l₁ ++ b :: l₂ := by
  obtain ⟨hk, ha⟩ := List.getElem?_eq_some_iff.mp h
  have hlen : (l.take k).length = k := by rw [List.length_take]; omega
  have hl : l = l.take k ++ a :: l.drop (k + 1) := by
    rw [← ha, List.getElem_cons_drop, List.take_append_drop]
  refine ⟨l.take k, l.drop (k + 1), hl, List.eraseIdx_eq_take_drop_succ .., fun b => ?_⟩
  rw [List.set_eq_take_append_cons_drop, if_pos hk]

theorem mem_of_getElem? {l : List α} {k : ℕ} {a : α} (h : l[k]? = some a) : a ∈ l :=
  List.mem_of_getElem? h

/-- Ending a thread lowers a count by what the thread counted for. -/
theorem countP_eraseIdx {l : List α} {k : ℕ} {a : α} (h : l[k]? = some a) (p : α → Bool) :
    l.countP p = (l.eraseIdx k).countP p + if p a then 1 else 0 := by
  obtain ⟨l₁, l₂, h1, h2, -⟩ := split_getElem? h
  rw [h2, h1, List.countP_append, List.countP_append, List.countP_cons]
  omega

/-- A thread's step that does not change what is counted of it changes no count. -/
theorem countP_set {l : List α} {k : ℕ} {a b : α} (h : l[k]? = some a) {p : α → Bool}
    (hp : p b = p a) : (l.set k b).countP p = l.countP p := by
  obtain ⟨l₁, l₂, h1, -, h3⟩ := split_getElem? h
  rw [h3, h1, List.countP_append, List.countP_append, List.countP_cons, List.countP_cons, hp]

/-- A thread's step moves a count by what it stops and starts counting for. -/
theorem countP_set_add {l : List α} {k : ℕ} {a b : α} (h : l[k]? = some a) (p : α → Bool) :
    (l.set k b).countP p + (if p a then 1 else 0) = l.countP p + if p b then 1 else 0 := by
  obtain ⟨l₁, l₂, h1, -, h3⟩ := split_getElem? h
  rw [h3, h1, List.countP_append, List.countP_append, List.countP_cons, List.countP_cons]
  omega

/-- Two different threads that are counted make the count two at least. -/
theorem two_le_countP {l : List α} {a b : α} {p : α → Bool} (ha : a ∈ l) (hb : b ∈ l) (hab : a ≠ b)
    (hpa : p a = true) (hpb : p b = true) : 2 ≤ l.countP p := by
  obtain ⟨l₁, l₂, rfl⟩ := List.append_of_mem ha
  have hother : b ∈ l₁ ++ l₂ := by
    simp only [List.mem_append, List.mem_cons] at hb ⊢
    rcases hb with hb | rfl | hb
    · exact .inl hb
    · exact absurd rfl hab
    · exact .inr hb
  have hpos : 0 < (l₁ ++ l₂).countP p := List.countP_pos_iff.mpr ⟨b, hother, hpb⟩
  rw [List.countP_append] at hpos ⊢
  rw [List.countP_cons_of_pos hpa]
  omega

/-- The threads after a step: the one that took it, or one that was there before. -/
theorem mem_set {l : List α} {k : ℕ} {a b c : α} (h : l[k]? = some a) (hc : c ∈ l.set k b) :
    c = b ∨ c ∈ l := by
  obtain ⟨l₁, l₂, h1, -, h3⟩ := split_getElem? h
  rw [h3] at hc
  rw [h1]
  simp only [List.mem_append, List.mem_cons] at hc ⊢
  tauto

theorem set_self {l : List α} {k : ℕ} {a : α} (h : l[k]? = some a) : l.set k a = l := by
  obtain ⟨l₁, l₂, h1, -, h3⟩ := split_getElem? h
  rw [h3, ← h1]

/-- After a step there are the thread that took it and the others. -/
theorem forall_set {l : List α} {k : ℕ} {a b : α} (h : l[k]? = some a) {P : α → Prop} :
    (∀ c ∈ l.set k b, P c) ↔ P b ∧ ∀ c ∈ l.eraseIdx k, P c := by
  obtain ⟨l₁, l₂, -, h2, h3⟩ := split_getElem? h
  rw [h2, h3]
  simp only [List.mem_append, List.mem_cons]
  constructor
  · intro hall
    refine ⟨hall b (.inr (.inl rfl)), fun c hc => hall c ?_⟩
    exact hc.imp_right .inr
  · rintro ⟨hb, hothers⟩ c (hc | rfl | hc)
    · exact hothers c (.inl hc)
    · exact hb
    · exact hothers c (.inr hc)

theorem forall_iff {l : List α} {k : ℕ} {a : α} (h : l[k]? = some a) {P : α → Prop} :
    (∀ c ∈ l, P c) ↔ P a ∧ ∀ c ∈ l.eraseIdx k, P c := by
  have hset := forall_set (b := a) (P := P) h
  rwa [set_self h] at hset

/-- Ending a thread before the last one leaves the last one last. -/
theorem getLast?_eraseIdx {l : List α} {k : ℕ} (hk : k + 1 < l.length) :
    (l.eraseIdx k).getLast? = l.getLast? := by
  have hlen : (l.eraseIdx k).length = l.length - 1 := List.length_eraseIdx_of_lt (by omega)
  rw [List.getLast?_eq_getElem?, List.getLast?_eq_getElem?, hlen,
    List.getElem?_eraseIdx_of_ge (by omega)]
  congr 1
  omega

end Lib.Pool
