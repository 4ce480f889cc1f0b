import Mathlib.Data.List.Basic
import StudioWorker.Lib.Steps

/-!
# Lib.Owned — files and the list of those that will be removed

Files are created, renamed and removed by steps that may fail, and some of them are registered with
an owner, who removes these at the end.

* `Scratch.Kept G`: the files are among the registered ones, `G`.
* `Scratch.Loose G n`: so are all but `n`, which is there.
* `Scratch.remaining`: what the owner leaves.
-/

namespace Lib

/-- The files that there are, and those that are registered. -/
structure Scratch (N : Type) where
  files : List N
  guard : List N

namespace Scratch

variable {N : Type}

def created (s : Scratch N) (n : N) : Scratch N := { s with files := n :: s.files }

def removed [DecidableEq N] (s : Scratch N) (n : N) : Scratch N :=
  { s with files := s.files.filter (· ≠ n) }

/-- A file that is there, under another name. -/
def renamed [DecidableEq N] (s : Scratch N) (a b : N) : Scratch N := (s.removed a).created b

def pushed (s : Scratch N) (n : N) : Scratch N := { s with guard := n :: s.guard }

/-- The files there are when the owner has removed the registered ones. -/
def remaining [DecidableEq N] (s : Scratch N) : List N := s.files.filter (· ∉ s.guard)

def Owned (s : Scratch N) : Prop := ∀ m ∈ s.files, m ∈ s.guard

theorem remaining_nil_iff_owned [DecidableEq N] {s : Scratch N} : s.remaining = [] ↔ s.Owned := by
  rw [remaining, List.filter_eq_nil_iff, Owned]
  refine forall₂_congr fun m _ => ?_
  rw [decide_eq_true_iff, not_not]

def Kept (G : List N) (s : Scratch N) : Prop := s.guard = G ∧ ∀ m ∈ s.files, m ∈ G

def Loose (G : List N) (n : N) (s : Scratch N) : Prop :=
  s.guard = G ∧ n ∈ s.files ∧ ∀ m ∈ s.files, m = n ∨ m ∈ G

variable {G : List N} {n a b : N} {s : Scratch N}

theorem Kept.owned (h : Kept G s) : s.Owned := by
  rw [Owned, h.1]
  exact h.2

/-- A file that is not registered is left. -/
theorem Loose.not_owned (h : Loose G n s) (hn : n ∉ G) : ¬ s.Owned := by
  intro howned
  have hmem := howned n h.2.1
  rw [h.1] at hmem
  exact hn hmem

theorem Loose.kept (h : Loose G n s) (hn : n ∈ G) : Kept G s := by
  refine ⟨h.1, fun m hm => ?_⟩
  rcases h.2.2 m hm with rfl | hG
  · exact hn
  · exact hG

/-! ## The steps -/

theorem Kept.created (h : Kept G s) : Loose G n (s.created n) := by
  refine ⟨h.1, List.mem_cons_self, fun m hm => ?_⟩
  rcases List.mem_cons.mp hm with rfl | hm
  · exact .inl rfl
  · exact .inr (h.2 m hm)

theorem Kept.removed [DecidableEq N] (h : Kept G s) : Kept G (s.removed n) :=
  ⟨h.1, fun m hm => h.2 m (List.mem_filter.mp hm).1⟩

theorem Loose.removed [DecidableEq N] (h : Loose G n s) : Kept G (s.removed n) := by
  refine ⟨h.1, fun m hm => ?_⟩
  obtain ⟨hm, hne⟩ := List.mem_filter.mp hm
  exact (h.2.2 m hm).resolve_left (of_decide_eq_true hne)

theorem Loose.renamed [DecidableEq N] (h : Loose G a s) : Loose G b (s.renamed a b) :=
  h.removed.created

/-- A registered file whose new name is not. -/
theorem Kept.renamed [DecidableEq N] (h : Kept G s) : Loose G b (s.renamed a b) :=
  h.removed.created

theorem Loose.pushed (h : Loose G n s) : Kept (n :: G) (s.pushed n) := by
  refine ⟨congrArg (n :: ·) h.1, fun m hm => ?_⟩
  rcases h.2.2 m hm with rfl | hG
  · exact List.mem_cons_self
  · exact List.mem_cons_of_mem _ hG

theorem Kept.pushed (h : Kept G s) : Kept (n :: G) (s.pushed n) :=
  ⟨congrArg (n :: ·) h.1, fun m hm => List.mem_cons_of_mem _ (h.2 m hm)⟩

variable {ε : Type}

/-- A step that works. -/
def change (f : Scratch N → Scratch N) : Steps (Scratch N) ε Unit := fun s => (.ok (), f s)

def create (n : N) : Steps (Scratch N) ε Unit := change (·.created n)
def remove [DecidableEq N] (n : N) : Steps (Scratch N) ε Unit := change (·.removed n)
def rename [DecidableEq N] (a b : N) : Steps (Scratch N) ε Unit := change (·.renamed a b)
def push (n : N) : Steps (Scratch N) ε Unit := change (·.pushed n)

theorem triple_change {f : Scratch N → Scratch N} {pre post : Scratch N → Prop}
    {err : ε → Scratch N → Prop} (h : ∀ s, pre s → post (f s)) :
    Steps.Triple pre (change f) (fun _ => post) err := h

end Scratch

end Lib
