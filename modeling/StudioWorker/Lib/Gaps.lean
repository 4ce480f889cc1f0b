import Mathlib.Data.Nat.Find
import Mathlib.Data.Set.Insert
import Mathlib.Order.Basic

/-!
# Lib.Gaps — the gaps between kept places, and a worklist of them

`Gap K a b`: `a` and `b` are kept, and nothing between them is.

* `gap_insert`: what keeping one more place does to the gaps.
* `Pending done K todo`: every gap is done with or still to do; `Pending.settle`, `Pending.split`.
* `exists_gap`: what is not kept lies in a gap.
-/

namespace Lib.Gaps

variable {α : Type*} [LinearOrder α]

structure Gap (K : Set α) (a b : α) : Prop where
  lt : a < b
  left : a ∈ K
  right : b ∈ K
  between : ∀ i, a < i → i < b → i ∉ K

theorem Gap.unique {K : Set α} {a b c d i : α} (h : Gap K a b) (h' : Gap K c d)
    (hi : a < i ∧ i < b) (hi' : c < i ∧ i < d) : a = c ∧ b = d := by
  have hac : ∀ {a b c d : α}, Gap K a b → Gap K c d → a < i → i < d → ¬ c < a :=
    fun h h' hai hid hlt => h'.between _ hlt (hai.trans hid) h.left
  have hdb : ∀ {a b c d : α}, Gap K a b → Gap K c d → c < i → i < b → ¬ b < d :=
    fun h h' hci hib hlt => h'.between _ (hci.trans hib) hlt h.right
  constructor
  · exact le_antisymm (not_lt.mp (hac h h' hi.1 hi'.2)) (not_lt.mp (hac h' h hi'.1 hi.2))
  · exact le_antisymm (not_lt.mp (hdb h' h hi.1 hi'.2)) (not_lt.mp (hdb h h' hi'.1 hi.2))

section Insert

variable {K : Set α} {a b m : α}

/-- Keeping a place of a gap makes two of it, and leaves the others. -/
theorem gap_insert (h : Gap K a b) (ham : a < m) (hmb : m < b) {c d : α} :
    Gap (insert m K) c d ↔
      (c = a ∧ d = m) ∨ (c = m ∧ d = b) ∨ (Gap K c d ∧ ¬ (c = a ∧ d = b)) := by
  constructor
  · intro hcd
    have hout : ∀ i, c < i → i < d → i ≠ m ∧ i ∉ K := fun i hci hid =>
      not_or.mp (hcd.between i hci hid)
    by_cases hdm : d = m
    · subst hdm
      refine .inl ⟨le_antisymm (not_lt.mp fun hlt => ?_) (not_lt.mp fun hlt => ?_), rfl⟩
      · exact h.between c hlt (hcd.lt.trans hmb) (hcd.left.resolve_left hcd.lt.ne)
      · exact (hout a hlt ham).2 h.left
    · by_cases hcm : c = m
      · subst hcm
        refine .inr (.inl ⟨rfl, le_antisymm (not_lt.mp fun hlt => ?_) (not_lt.mp fun hlt => ?_)⟩)
        · exact (hout b hmb hlt).2 h.right
        · exact h.between d (ham.trans hcd.lt) hlt (hcd.right.resolve_left hdm)
      · refine .inr (.inr ⟨⟨hcd.lt, hcd.left.resolve_left hcm, hcd.right.resolve_left hdm,
          fun i hci hid => (hout i hci hid).2⟩, ?_⟩)
        rintro ⟨rfl, rfl⟩
        exact (hout m ham hmb).1 rfl
  · rintro (⟨rfl, rfl⟩ | ⟨rfl, rfl⟩ | ⟨hcd, hne⟩)
    · exact ⟨ham, .inr h.left, .inl rfl, fun i hci hid =>
        not_or.mpr ⟨hid.ne, h.between i hci (hid.trans hmb)⟩⟩
    · exact ⟨hmb, .inl rfl, .inr h.right, fun i hci hid =>
        not_or.mpr ⟨hci.ne', h.between i (ham.trans hci) hid⟩⟩
    · refine ⟨hcd.lt, .inr hcd.left, .inr hcd.right, fun i hci hid =>
        not_or.mpr ⟨?_, hcd.between i hci hid⟩⟩
      rintro rfl
      exact hne (hcd.unique h ⟨hci, hid⟩ ⟨ham, hmb⟩)

end Insert

/-! ## The worklist -/

/-- The gaps still to do are listed once each, and all the others are done with. -/
structure Pending (done : α → α → Prop) (K : Set α) (todo : List (α × α)) : Prop where
  nodup : todo.Nodup
  gap : ∀ p ∈ todo, Gap K p.1 p.2
  rest : ∀ a b, Gap K a b → (a, b) ∈ todo ∨ done a b

variable {done : α → α → Prop} {K : Set α} {todo : List (α × α)} {a b m : α}

theorem Pending.settle (h : Pending done K ((a, b) :: todo)) (hdone : done a b) :
    Pending done K todo where
  nodup := h.nodup.of_cons
  gap p hp := h.gap p (List.mem_cons_of_mem _ hp)
  rest c d hcd := by
    rcases h.rest c d hcd with hmem | hmem
    · rcases List.mem_cons.mp hmem with heq | hmem
      · obtain ⟨rfl, rfl⟩ := Prod.mk.inj heq
        exact .inr hdone
      · exact .inl hmem
    · exact .inr hmem

theorem Pending.split (h : Pending done K ((a, b) :: todo)) (ham : a < m) (hmb : m < b) :
    Pending done (insert m K) ((m, b) :: (a, m) :: todo) := by
  have hab := h.gap (a, b) List.mem_cons_self
  have hm : m ∉ K := hab.between m ham hmb
  have hnew : ∀ p ∈ todo, p.1 ≠ m ∧ p.2 ≠ m := by
    intro p hp
    have hgap := h.gap p (List.mem_cons_of_mem _ hp)
    constructor
    · rintro rfl
      exact hm hgap.left
    · rintro rfl
      exact hm hgap.right
  refine ⟨?_, fun p hp => ?_, fun c d hcd => ?_⟩
  · rw [List.nodup_cons, List.nodup_cons, List.mem_cons, not_or]
    refine ⟨⟨fun heq => ham.ne' (Prod.mk.inj heq).1, fun hmem => (hnew _ hmem).1 rfl⟩,
      fun hmem => (hnew _ hmem).2 rfl, h.nodup.of_cons⟩
  · rw [gap_insert hab ham hmb]
    rcases List.mem_cons.mp hp with rfl | hp
    · exact .inr (.inl ⟨rfl, rfl⟩)
    rcases List.mem_cons.mp hp with rfl | hp
    · exact .inl ⟨rfl, rfl⟩
    · refine .inr (.inr ⟨h.gap p (List.mem_cons_of_mem _ hp), fun heq => ?_⟩)
      obtain rfl : p = (a, b) := Prod.ext heq.1 heq.2
      exact (List.nodup_cons.mp h.nodup).1 hp
  · rcases (gap_insert hab ham hmb).mp hcd with ⟨rfl, rfl⟩ | ⟨rfl, rfl⟩ | ⟨hcd, hne⟩
    · exact .inl (List.mem_cons_of_mem _ List.mem_cons_self)
    · exact .inl List.mem_cons_self
    · refine (h.rest c d hcd).imp_left fun hmem => ?_
      refine List.mem_cons_of_mem _ (List.mem_cons_of_mem _ ?_)
      exact (List.mem_cons.mp hmem).resolve_left fun heq => hne (Prod.mk.inj heq)

/-- Between two kept places, what is not kept lies in a gap. -/
theorem exists_gap {K : Set ℕ} {lo hi i : ℕ} (hlo : lo ∈ K) (hhi : hi ∈ K) (hloi : lo ≤ i)
    (hihi : i ≤ hi) (hi' : i ∉ K) : ∃ a b, Gap K a b ∧ a < i ∧ i < b := by
  classical
  have hbelow : Nat.findGreatest (· ∈ K) i ∈ K := Nat.findGreatest_spec (P := (· ∈ K)) hloi hlo
  have hle : Nat.findGreatest (· ∈ K) i ≤ i := Nat.findGreatest_le i
  have hlt : Nat.findGreatest (· ∈ K) i < i :=
    lt_of_le_of_ne hle fun heq => hi' (heq ▸ hbelow)
  have hex : ∃ b, i ≤ b ∧ b ∈ K := ⟨hi, hihi, hhi⟩
  obtain ⟨hfind, habove⟩ := Nat.find_spec hex
  have hgt : i < Nat.find hex := lt_of_le_of_ne hfind fun heq => hi' (heq ▸ habove)
  refine ⟨_, _, ⟨hlt.trans hgt, hbelow, habove, fun j hj hj' hmem => ?_⟩, hlt, hgt⟩
  rcases le_total j i with hji | hij
  · exact absurd (Nat.le_findGreatest hji hmem) (not_le.mpr hj)
  · exact absurd (Nat.find_min' hex ⟨hij, hmem⟩) (not_le.mpr hj')

end Lib.Gaps
