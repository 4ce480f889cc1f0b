import Mathlib.Data.List.Induction
import Mathlib.Order.Defs.PartialOrder

/-!
# Lib.LastRun — the run of equal keys at the end of a list

A list of keys with the times at which they were noted.  `lastRun l` is the key that `l` ends with,
and the time since which it is the only one.
-/

namespace Lib.LastRun

variable {κ τ : Type*} [DecidableEq κ]

/-- The run after one more item. -/
def extend (run : Option (κ × τ)) (item : κ × τ) : Option (κ × τ) :=
  match run with
  | some (key, since) => if key = item.1 then some (key, since) else some item
  | none => some item

def lastRun (l : List (κ × τ)) : Option (κ × τ) := l.foldl extend none

@[simp] theorem lastRun_nil : lastRun ([] : List (κ × τ)) = none := rfl

theorem lastRun_concat (l : List (κ × τ)) (item : κ × τ) :
    lastRun (l ++ [item]) = extend (lastRun l) item := by
  rw [lastRun, List.foldl_append]
  rfl

theorem extend_of_eq {key : κ} {since t : τ} :
    extend (some (key, since)) (key, t) = some (key, since) := if_pos rfl

theorem extend_of_ne {run : Option (κ × τ)} {item : κ × τ} (h : ∀ p ∈ run, p.1 ≠ item.1) :
    extend run item = some item := by
  rcases run with _ | p
  · rfl
  · exact if_neg (h p rfl)

/-- A run starts at an item of its key, and from there on there is no other key. -/
theorem of_lastRun {l : List (κ × τ)} {key : κ} {since : τ} (h : lastRun l = some (key, since)) :
    ∃ before between, l = before ++ (key, since) :: between ∧ ∀ o ∈ between, o.1 = key := by
  induction l using List.reverseRecOn with
  | nil => cases h
  | append_singleton l item ih =>
    rw [lastRun_concat] at h
    rcases hrun : lastRun l with _ | ⟨k, t⟩
    · rw [hrun] at h
      obtain rfl := Option.some.inj h
      exact ⟨l, [], rfl, fun o ho => absurd ho List.not_mem_nil⟩
    rw [hrun, extend] at h
    split_ifs at h with hk
    · obtain ⟨rfl, rfl⟩ := Prod.mk.inj (Option.some.inj h)
      obtain ⟨before, between, rfl, hbetween⟩ := ih hrun
      refine ⟨before, between ++ [item], by rw [List.append_assoc, List.cons_append], ?_⟩
      intro o ho
      rcases List.mem_append.mp ho with ho | ho
      · exact hbetween o ho
      · rw [List.mem_singleton.mp ho, hk]
    · obtain rfl := Option.some.inj h
      exact ⟨l, [], rfl, fun o ho => absurd ho List.not_mem_nil⟩

/-- Where there is no other key any more, the run has begun. -/
theorem exists_lastRun [Preorder τ] {before between : List (κ × τ)} {key : κ} {t : τ}
    (hbetween : ∀ o ∈ between, o.1 = key)
    (htimes : (before ++ (key, t) :: between).Pairwise fun o o' => o.2 ≤ o'.2) :
    ∃ since, lastRun (before ++ (key, t) :: between) = some (key, since) ∧ since ≤ t := by
  induction between using List.reverseRecOn with
  | nil =>
    rw [lastRun_concat]
    rcases hrun : lastRun before with _ | ⟨k, since⟩
    · exact ⟨t, rfl, le_rfl⟩
    by_cases hk : k = key
    · subst hk
      obtain ⟨before', between', rfl, -⟩ := of_lastRun hrun
      refine ⟨since, extend_of_eq, ?_⟩
      have hle := (List.pairwise_append.mp htimes).2.2
      exact hle (k, since) (List.mem_append_right _ List.mem_cons_self) (k, t)
        (List.mem_singleton_self _)
    · exact ⟨t, if_neg hk, le_rfl⟩
  | append_singleton between item ih =>
    rw [← List.cons_append, ← List.append_assoc] at htimes ⊢
    obtain ⟨since, hrun, hle⟩ := ih (fun o ho => hbetween o (List.mem_append_left _ ho))
      (List.pairwise_append.mp htimes).1
    have hkey : item.1 = key := hbetween item (List.mem_append_right _ (List.mem_singleton_self _))
    refine ⟨since, ?_, hle⟩
    rw [lastRun_concat, hrun, extend, if_pos hkey.symm]

end Lib.LastRun
