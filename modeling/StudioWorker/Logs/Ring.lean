import Mathlib.Data.List.Induction
import StudioWorker.Logs.Replica

/-!
# Logs.Ring — the offsets of `recent_logs_after` (`src/runtime.rs`)

The subtractions are unchecked: a debug build stops where one goes below zero, a release build
wraps.

* `WorkerLogRing.pushAll`: the ring after any pushes.
* `recentLogsAfter?`: the answer of a build that checks.
* `wanted`: the entries with a greater number, or the whole ring.
* `recentLogsAfter_iff`: where the answer is the one that is wanted.
-/

namespace StudioWorker

variable {α : Type}

/-- The ring after the pushes of some entries, oldest first. -/
def WorkerLogRing.pushAll (pushed : List α) : WorkerLogRing α := pushed.foldl push ⟨[], 0⟩

/-- `a - b` on `u64`, `none` where it overflows. -/
def checkedSub (a b : ℕ) : Option ℕ := if b ≤ a then some (a - b) else none

/-- The answer when overflow is checked; `none` is a panic. -/
def recentLogsAfter? (ring : WorkerLogRing α) (after : ℕ) : Option (LogsPage α) :=
  let newest := ring.seq
  (checkedSub newest ring.entries.length).bind fun oldest =>
    let after := if newest < after then 0 else max after oldest
    (checkedSub after oldest).map fun skip => ⟨ring.entries.drop skip, newest⟩

/-- The entries with the numbers the counter gave them. -/
def numbered (pushed : List α) : List (ℕ × α) :=
  (pushed.zipIdx 1).map fun p => (p.2 % 2 ^ 64, p.1)

/-- The newest number, and the entries of the ring with a greater number than `after`; the whole
ring when no entry is numbered that far. -/
def wanted (pushed : List α) (after : ℕ) : LogsPage α :=
  let seq := pushed.length % 2 ^ 64
  ⟨if seq < after then newest pushed
    else ((newest (numbered pushed)).filter fun p => after < p.1).map (·.2), seq⟩

/-! ## The ring -/

theorem pushAll_eq (pushed : List α) :
    WorkerLogRing.pushAll pushed = ⟨newest pushed, pushed.length % 2 ^ 64⟩ := by
  induction pushed using List.reverseRecOn with
  | nil => simp [WorkerLogRing.pushAll]
  | append_singleton pushed entry ih =>
    rw [WorkerLogRing.pushAll, List.foldl_append, List.foldl_cons, List.foldl_nil,
      ← WorkerLogRing.pushAll, ih, WorkerLogRing.push, newest_newest_append, List.length_append,
      List.length_singleton, Nat.mod_add_mod]

theorem length_numbered (pushed : List α) : (numbered pushed).length = pushed.length := by
  rw [numbered, List.length_map, List.length_zipIdx]

/-- From a number on, in a list that is numbered in order. -/
theorem filter_zipIdx (l : List α) (first after : ℕ) :
    ((l.zipIdx first).filter fun p => after < p.2).map (·.1) = l.drop (after + 1 - first) := by
  induction l generalizing first with
  | nil => simp
  | cons x l ih =>
    rw [List.zipIdx_cons]
    by_cases h : after < first
    · have hfirst : after + 1 - first = 0 := by omega
      have hrest : after + 1 - (first + 1) = 0 := by omega
      rw [List.filter_cons_of_pos (by simpa using h), List.map_cons, ih, hfirst, hrest,
        List.drop_zero, List.drop_zero]
    · have hfirst : after + 1 - first = after + 1 - (first + 1) + 1 := by omega
      rw [List.filter_cons_of_neg (by simpa using h), ih, hfirst, List.drop_succ_cons]

/-- What the ring holds, numbered. -/
theorem newest_numbered (pushed : List α) :
    newest (numbered pushed) = ((newest pushed).zipIdx (pushed.length - recentLogsCap + 1)).map
      fun p => (p.2 % 2 ^ 64, p.1) := by
  have hsplit : pushed.zipIdx 1 = (pushed.take (pushed.length - recentLogsCap)).zipIdx 1 ++
      (newest pushed).zipIdx (pushed.length - recentLogsCap + 1) := by
    have hlen : (pushed.take (pushed.length - recentLogsCap)).length =
        pushed.length - recentLogsCap := by
      rw [List.length_take]
      omega
    conv_lhs => rw [← List.take_append_drop (pushed.length - recentLogsCap) pushed]
    rw [List.zipIdx_append, hlen, Nat.add_comm 1, newest]
  have hlen : (((pushed.take (pushed.length - recentLogsCap)).zipIdx 1).map
      fun p => (p.2 % 2 ^ 64, p.1)).length = pushed.length - recentLogsCap := by
    rw [List.length_map, List.length_zipIdx, List.length_take]
    omega
  have hnumbered : newest (numbered pushed) =
      (numbered pushed).drop (pushed.length - recentLogsCap) := by
    rw [newest, length_numbered]
  rw [hnumbered, numbered, hsplit, List.map_append]
  exact List.drop_left' hlen

/-- While the newest number covers the ring, the numbers there ascend to it. -/
theorem filter_newest_numbered {pushed : List α} {after : ℕ}
    (hcovers : (newest pushed).length ≤ pushed.length % 2 ^ 64) :
    ((newest (numbered pushed)).filter fun p => after < p.1).map (·.2) =
      (newest pushed).drop (after - (pushed.length % 2 ^ 64 - (newest pushed).length)) := by
  have hlen := length_newest pushed
  have hdiv := Nat.div_add_mod pushed.length (2 ^ 64)
  generalize hq : 2 ^ 64 * (pushed.length / 2 ^ 64) = q at hdiv
  have hmod : q % 2 ^ 64 = 0 := by rw [← hq, Nat.mul_mod_right]
  have hlt : pushed.length % 2 ^ 64 < 2 ^ 64 := Nat.mod_lt _ (by decide)
  rw [newest_numbered, List.filter_map, List.map_map]
  -- a number is what the position says, less the rounds of the counter
  have hnumber : ∀ p ∈ (newest pushed).zipIdx (pushed.length - recentLogsCap + 1),
      decide (after < p.2 % 2 ^ 64) = decide (q + after < p.2) := by
    intro p hp
    have hlow := List.le_snd_of_mem_zipIdx hp
    have hhigh := List.snd_lt_of_mem_zipIdx hp
    have hsub : p.2 % 2 ^ 64 = p.2 - q := by omega
    rw [hsub, decide_eq_decide]
    omega
  have hfilter := List.filter_congr hnumber
  have hfirst : q + after + 1 - (pushed.length - recentLogsCap + 1) =
      after - (pushed.length % 2 ^ 64 - (newest pushed).length) := by omega
  calc (((newest pushed).zipIdx (pushed.length - recentLogsCap + 1)).filter
          fun p => decide (after < p.2 % 2 ^ 64)).map (·.1)
      = (((newest pushed).zipIdx (pushed.length - recentLogsCap + 1)).filter
          fun p => decide (q + after < p.2)).map (·.1) := by rw [hfilter]
    _ = (newest pushed).drop (after - (pushed.length % 2 ^ 64 - (newest pushed).length)) := by
      rw [filter_zipIdx, hfirst]

/-! ## The offsets -/

theorem checkedSub_of_le {a b : ℕ} (h : b ≤ a) : checkedSub a b = some (a - b) := if_pos h

theorem checkedSub_of_lt {a b : ℕ} (h : a < b) : checkedSub a b = none := if_neg (by omega)

/-- What a build that checks answers, every build answers. -/
theorem recentLogsAfter_of_checked {ring : WorkerLogRing α} {after : ℕ} {page : LogsPage α}
    (hseq : ring.seq < 2 ^ 64) (hafter : after < 2 ^ 64)
    (h : recentLogsAfter? ring after = some page) : recentLogsAfter ring after = page := by
  have hsub : ∀ {a b c : ℕ}, a < 2 ^ 64 → checkedSub a b = some c → subU64 a b = c := by
    intro a b c ha hc
    unfold checkedSub at hc
    split_ifs at hc with hle
    rw [subU64_of_le hle ha]
    exact Option.some.inj hc
  obtain ⟨oldest, holdest, h⟩ := Option.bind_eq_some_iff.mp h
  obtain ⟨skip, hskip, rfl⟩ := Option.map_eq_some_iff.mp h
  have hlow : oldest < 2 ^ 64 := by
    unfold checkedSub at holdest
    split_ifs at holdest
    have heq := Option.some.inj holdest
    omega
  have hclamped : (if ring.seq < after then 0 else max after oldest) < 2 ^ 64 := by
    split_ifs
    · decide
    · exact max_lt hafter hlow
  rw [recentLogsAfter]
  simp only [hsub hseq holdest, hsub hclamped hskip]

/-- **No offset underflows and the answer is the one that is wanted** exactly while the newest
number covers the ring, and for a cursor beyond it while the ring holds all numbers. -/
theorem recentLogsAfter_iff (pushed : List α) (after : ℕ) :
    recentLogsAfter? (.pushAll pushed) after = some (wanted pushed after) ↔
      (newest pushed).length ≤ pushed.length % 2 ^ 64 ∧
        (pushed.length % 2 ^ 64 < after →
          pushed.length % 2 ^ 64 = (newest pushed).length) := by
  rw [pushAll_eq, recentLogsAfter?, wanted]
  generalize hseq : pushed.length % 2 ^ 64 = seq
  dsimp only
  by_cases hcovers : (newest pushed).length ≤ seq
  · rw [checkedSub_of_le hcovers, Option.bind_some]
    by_cases hbeyond : seq < after
    · simp only [hbeyond, hcovers, if_true, true_and, forall_const]
      by_cases hall : seq = (newest pushed).length
      · rw [checkedSub_of_le (by omega), Option.map_some, Nat.zero_sub, List.drop_zero]
        simp only [hall]
      · rw [checkedSub_of_lt (by omega), Option.map_none]
        simp only [hall, reduceCtorEq]
    · have hfilter := @filter_newest_numbered _ pushed after (hseq.symm ▸ hcovers)
      rw [hseq] at hfilter
      have hskip : max after (seq - (newest pushed).length) - (seq - (newest pushed).length) =
          after - (seq - (newest pushed).length) := by omega
      simp only [hbeyond, if_false, hfilter, hcovers, true_and, false_implies, iff_true]
      rw [checkedSub_of_le (le_max_right _ _), Option.map_some, hskip]
  · rw [checkedSub_of_lt (by omega), Option.bind_none]
    simp only [hcovers, false_and, reduceCtorEq]

/-- A cursor beyond the newest number of a ring that has dropped an entry. -/
theorem beyond_dropped_underflows :
    ¬ ∀ (pushed : List Unit) (after : ℕ),
      recentLogsAfter? (.pushAll pushed) after = some (wanted pushed after) := by
  intro h
  have hlen : (List.replicate 1001 ()).length = 1001 := List.length_replicate
  have hnone : recentLogsAfter? (.pushAll (List.replicate 1001 ())) 1002 = none := by
    rw [pushAll_eq, recentLogsAfter?]
    dsimp only
    rw [length_newest, hlen]
    rfl
  have hsome := h (List.replicate 1001 ()) 1002
  rw [hnone] at hsome
  cases hsome

end StudioWorker
