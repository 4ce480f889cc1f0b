import Mathlib.Data.List.Basic
import Mathlib.Algebra.Order.Group.Nat

/-!
# Lib.Chunks — a list cut into pieces of one length

`chunks n l` are the whole pieces of `l`, `rest n l` is what is left behind them.  A list that
arrives in parts gives the same pieces when the rest of each part is carried to the next
(`chunks_append`, `rest_append`).
-/

namespace Lib.Chunks

variable {α : Type*}

def pieces (n : ℕ) : ℕ → List α → List (List α)
  | 0, _ => []
  | k + 1, l => l.take n :: pieces n k (l.drop n)

/-- The whole pieces of length `n`. -/
def chunks (n : ℕ) (l : List α) : List (List α) := pieces n (l.length / n) l

/-- What is left behind the whole pieces. -/
def rest (n : ℕ) (l : List α) : List α := l.drop (l.length / n * n)

theorem flatten_pieces (n k : ℕ) (l : List α) : (pieces n k l).flatten = l.take (k * n) := by
  induction k generalizing l with
  | zero => rw [Nat.zero_mul, List.take_zero, pieces, List.flatten_nil]
  | succ k ih =>
    have hsum : (k + 1) * n = n + k * n := by rw [Nat.succ_mul, Nat.add_comm]
    rw [pieces, List.flatten_cons, ih, hsum, List.take_add]

theorem length_of_mem_pieces {n k : ℕ} {l p : List α} (hp : p ∈ pieces n k l)
    (h : k * n ≤ l.length) : p.length = n := by
  induction k generalizing l with
  | zero => exact absurd hp List.not_mem_nil
  | succ k ih =>
    rw [Nat.succ_mul] at h
    rcases List.mem_cons.mp hp with rfl | hp
    · rw [List.length_take]
      omega
    · refine ih hp ?_
      rw [List.length_drop]
      omega

/-- Nothing is lost or moved. -/
theorem chunks_append_rest (n : ℕ) (l : List α) : (chunks n l).flatten ++ rest n l = l := by
  rw [chunks, flatten_pieces, rest, List.take_append_drop]

theorem length_of_mem_chunks {n : ℕ} {l p : List α} (hp : p ∈ chunks n l) : p.length = n :=
  length_of_mem_pieces hp (Nat.div_mul_le_self _ _)

theorem chunks_of_lt {n : ℕ} {l : List α} (h : l.length < n) : chunks n l = [] := by
  rw [chunks, Nat.div_eq_of_lt h, pieces]

theorem rest_of_lt {n : ℕ} {l : List α} (h : l.length < n) : rest n l = l := by
  rw [rest, Nat.div_eq_of_lt h, Nat.zero_mul, List.drop_zero]

/-- A whole piece in front comes off. -/
theorem chunks_append_of_length {n : ℕ} (hn : 0 < n) {p : List α} (hp : p.length = n)
    (l : List α) : chunks n (p ++ l) = p :: chunks n l := by
  have hdiv : (p ++ l).length / n = l.length / n + 1 := by
    rw [List.length_append, hp, Nat.add_div_left _ hn]
  rw [chunks, hdiv, pieces, ← hp, List.take_left, List.drop_left, chunks]

theorem rest_append_of_length {n : ℕ} (hn : 0 < n) {p : List α} (hp : p.length = n)
    (l : List α) : rest n (p ++ l) = rest n l := by
  have hdiv : (p ++ l).length / n * n = p.length + l.length / n * n := by
    rw [List.length_append, hp, Nat.add_div_left _ hn, Nat.succ_mul, Nat.add_comm]
  rw [rest, hdiv, List.drop_append, List.drop_eq_nil_of_le (Nat.le_add_right _ _),
    Nat.add_sub_cancel_left, List.nil_append, rest]

/-- Whole pieces in front come off. -/
theorem chunks_flatten_append {n : ℕ} (hn : 0 < n) {ps : List (List α)}
    (hps : ∀ p ∈ ps, p.length = n) (l : List α) :
    chunks n (ps.flatten ++ l) = ps ++ chunks n l := by
  induction ps with
  | nil => rfl
  | cons p ps ih =>
    rw [List.flatten_cons, List.append_assoc,
      chunks_append_of_length hn (hps p List.mem_cons_self),
      ih fun q hq => hps q (List.mem_cons_of_mem _ hq), List.cons_append]

theorem rest_flatten_append {n : ℕ} (hn : 0 < n) {ps : List (List α)}
    (hps : ∀ p ∈ ps, p.length = n) (l : List α) : rest n (ps.flatten ++ l) = rest n l := by
  induction ps with
  | nil => rfl
  | cons p ps ih =>
    rw [List.flatten_cons, List.append_assoc,
      rest_append_of_length hn (hps p List.mem_cons_self),
      ih fun q hq => hps q (List.mem_cons_of_mem _ hq)]

theorem length_flatten {n : ℕ} {ps : List (List α)} (hps : ∀ p ∈ ps, p.length = n) :
    ps.flatten.length = ps.length * n := by
  induction ps with
  | nil => rw [List.flatten_nil, List.length_nil, List.length_nil, Nat.zero_mul]
  | cons p ps ih =>
    rw [List.flatten_cons, List.length_append, hps p List.mem_cons_self,
      ih fun q hq => hps q (List.mem_cons_of_mem _ hq), List.length_cons, Nat.succ_mul,
      Nat.add_comm]

/-- Pieces of one length are the chunks of their concatenation. -/
theorem chunks_flatten {n : ℕ} (hn : 0 < n) {ps : List (List α)}
    (hps : ∀ p ∈ ps, p.length = n) : chunks n ps.flatten = ps := by
  have hnil : chunks n ([] : List α) = [] := chunks_of_lt hn
  have h := chunks_flatten_append hn hps []
  rwa [hnil, List.append_nil, List.append_nil] at h

/-- **The pieces of a list in two parts**: the rest of the first goes in front of the second. -/
theorem chunks_append {n : ℕ} (hn : 0 < n) (l m : List α) :
    chunks n (l ++ m) = chunks n l ++ chunks n (rest n l ++ m) := by
  have hl : l ++ m = (chunks n l).flatten ++ (rest n l ++ m) := by
    rw [← List.append_assoc, chunks_append_rest]
  rw [hl, chunks_flatten_append hn fun _ => length_of_mem_chunks]

theorem rest_append {n : ℕ} (hn : 0 < n) (l m : List α) :
    rest n (l ++ m) = rest n (rest n l ++ m) := by
  have hl : l ++ m = (chunks n l).flatten ++ (rest n l ++ m) := by
    rw [← List.append_assoc, chunks_append_rest]
  rw [hl, rest_flatten_append hn fun _ => length_of_mem_chunks]

/-- A list of whole pieces leaves nothing. -/
theorem rest_of_dvd {n : ℕ} {l : List α} (h : n ∣ l.length) : rest n l = [] := by
  rw [rest, Nat.div_mul_cancel h, List.drop_length]

/-! ## With the rest -/

/-- The whole pieces, and what is left behind them where there is something. -/
def allChunks (n : ℕ) (l : List α) : List (List α) :=
  chunks n l ++ if (rest n l).isEmpty then [] else [rest n l]

theorem allChunks_nil (n : ℕ) : allChunks n ([] : List α) = [] := by
  have hdiv : ([] : List α).length / n = 0 := Nat.zero_div n
  rw [allChunks, chunks, rest, hdiv, pieces, List.drop_nil]
  rfl

theorem allChunks_of_ne_nil {n : ℕ} (hn : 0 < n) {l : List α} (hl : l ≠ []) :
    allChunks n l = l.take n :: allChunks n (l.drop n) := by
  by_cases hlt : l.length < n
  · have hempty : l.isEmpty = false := by simpa using hl
    rw [List.take_of_length_le hlt.le, List.drop_of_length_le hlt.le, allChunks_nil, allChunks,
      chunks_of_lt hlt, rest_of_lt hlt, hempty]
    rfl
  · have hlen : (l.take n).length = n := by
      rw [List.length_take]
      omega
    have hsplit := List.take_append_drop n l
    rw [allChunks, allChunks, ← List.cons_append, ← chunks_append_of_length hn hlen,
      ← rest_append_of_length hn hlen (l.drop n), hsplit]

theorem length_rest_lt {n : ℕ} (hn : 0 < n) (l : List α) : (rest n l).length < n := by
  rw [rest, List.length_drop, Nat.mul_comm]
  have hmod := Nat.mod_lt l.length hn
  have hsplit := Nat.div_add_mod l.length n
  omega

theorem flatten_allChunks (n : ℕ) (l : List α) : (allChunks n l).flatten = l := by
  have hl := chunks_append_rest n l
  rw [allChunks, List.flatten_append]
  split_ifs with h
  · rw [List.isEmpty_iff.mp h] at hl
    exact hl
  · rw [List.flatten_singleton]
    exact hl

/-- Behind whole pieces the pieces begin anew. -/
theorem allChunks_append_of_dvd {n : ℕ} (hn : 0 < n) {l : List α} (h : n ∣ l.length)
    (m : List α) : allChunks n (l ++ m) = allChunks n l ++ allChunks n m := by
  have hrest : rest n l = [] := rest_of_dvd h
  have hfront : allChunks n l = chunks n l := by
    rw [allChunks, hrest]
    exact List.append_nil _
  rw [hfront, allChunks, allChunks, chunks_append hn, rest_append hn, hrest, List.nil_append,
    List.append_assoc]

/-- One item more: it fills the piece that was left, or is left with it. -/
theorem chunks_concat {n : ℕ} (hn : 0 < n) (l : List α) (x : α) :
    (chunks n (l ++ [x]), rest n (l ++ [x])) =
      if (rest n l ++ [x]).length = n then (chunks n l ++ [rest n l ++ [x]], [])
      else (chunks n l, rest n l ++ [x]) := by
  rw [chunks_append hn, rest_append hn]
  have hlt := length_rest_lt hn l
  split_ifs with h
  · have hone : chunks n [rest n l ++ [x]].flatten = [rest n l ++ [x]] :=
      chunks_flatten hn fun p hp => by
        rw [List.mem_singleton.mp hp]
        exact h
    rw [List.flatten_singleton] at hone
    have hnone : rest n (rest n l ++ [x]) = [] := rest_of_dvd ⟨1, by rw [h, Nat.mul_one]⟩
    rw [hone, hnone]
  · have hless : (rest n l ++ [x]).length < n := by
      rw [List.length_append, List.length_singleton] at h ⊢
      omega
    rw [chunks_of_lt hless, rest_of_lt hless, List.append_nil]

end Lib.Chunks
