import Mathlib.Data.List.Infix
import Mathlib.Data.List.Range

/-!
# Lib.Occurrences — every place where a needle occurs in a text

* `occurrences needle t`: the places of `t` at which `needle` begins, in order.
* `Spills line needle next`: the needle begins inside a line that `next` follows.
* `occurrences_lines_iff`: in front of a text, lines that begin with the needle hold it at their
  starts and nowhere else exactly when the text does not hold it and no line spills.
-/

namespace Lib.Occurrences

variable {α : Type*} {needle line t : List α}

/-! ## Lines -/

/-- A needle begins inside a line, not at its start, where `next` follows it. -/
def Spills (line needle next : List α) : Prop :=
  ∃ j, 0 < j ∧ j < line.length ∧ needle <+: line.drop j ++ next

/-- `n` lines in front of a text. -/
def lines (line : List α) (n : ℕ) : List α := (List.replicate n line).flatten

theorem lines_succ (n : ℕ) : lines line (n + 1) = line ++ lines line n := by
  rw [lines, List.replicate_succ, List.flatten_cons]
  rfl

/-- The starts of the first lines. -/
def starts (line : List α) (n : ℕ) : List ℕ := (List.range n).map (· * line.length)

theorem starts_succ (n : ℕ) :
    starts line (n + 1) = 0 :: (starts line n).map (line.length + ·) := by
  rw [starts, List.range_succ_eq_map, List.map_cons, Nat.zero_mul, List.map_map, starts,
    List.map_map]
  congr 1
  refine List.map_congr_left fun k _ => ?_
  simp only [Function.comp_apply, Nat.succ_mul]
  exact Nat.add_comm _ _

/-- Whether a line spills is seen in as much of what follows as the needle is long. -/
theorem spills_iff_of_prefix {next : List α} (h : needle <+: next) :
    Spills line needle next ↔ Spills line needle needle := by
  obtain ⟨rest, rfl⟩ := h
  refine exists_congr fun j => and_congr_right fun _ => and_congr_right fun _ => ?_
  rw [← List.append_assoc]
  refine ⟨fun h => List.prefix_of_prefix_length_le h (List.prefix_append _ _) ?_, fun h =>
    h.trans (List.prefix_append _ _)⟩
  rw [List.length_append]
  exact Nat.le_add_left _ _

/-! ## Occurrences -/

section Places

variable [DecidableEq α]

/-- The places at which a needle begins. -/
def occurrences (needle t : List α) : List ℕ :=
  (List.range (t.length + 1)).filter fun i => needle <+: t.drop i

theorem mem_occurrences {i : ℕ} :
    i ∈ occurrences needle t ↔ i ≤ t.length ∧ needle <+: t.drop i := by
  rw [occurrences, List.mem_filter, List.mem_range, decide_eq_true_eq, Nat.lt_succ_iff]

theorem occurrences_eq_nil_iff : occurrences needle t = [] ↔ ¬ needle <:+: t := by
  rw [List.eq_nil_iff_forall_not_mem]
  constructor
  · rintro h ⟨a, b, rfl⟩
    refine h a.length (mem_occurrences.mpr ⟨?_, ?_⟩)
    · rw [List.append_assoc, List.length_append]
      exact Nat.le_add_right _ _
    · rw [List.append_assoc, List.drop_left]
      exact List.prefix_append needle b
  · intro h i hi
    exact h ((mem_occurrences.mp hi).2.isInfix.trans (List.drop_suffix i t).isInfix)

/-- In two parts: the places in the first, where the needle may run into the second, and those in
the second. -/
theorem occurrences_append (a b : List α) :
    occurrences needle (a ++ b) =
      ((List.range a.length).filter fun i => needle <+: a.drop i ++ b) ++
        (occurrences needle b).map (a.length + ·) := by
  have hrange : List.range ((a ++ b).length + 1) =
      List.range a.length ++ (List.range (b.length + 1)).map (a.length + ·) := by
    rw [List.length_append, Nat.add_assoc, List.range_add]
  rw [occurrences, hrange, List.filter_append, List.filter_map, occurrences]
  congr 1
  · refine List.filter_congr fun i hi => ?_
    rw [List.drop_append_of_le_length (List.mem_range.mp hi).le]
  · congr 1
    refine List.filter_congr fun i _ => ?_
    rw [Function.comp_apply, List.drop_append, List.drop_eq_nil_of_le (Nat.le_add_right _ _),
      List.nil_append, Nat.add_sub_cancel_left]

/-- The places in a line: its start, and where it spills. -/
theorem places_of_line (next : List α) (hline : needle <+: line) (hpos : 0 < line.length) :
    ∃ inner : List ℕ, ((List.range line.length).filter fun i => needle <+: line.drop i ++ next) =
        0 :: inner ∧ (∀ j ∈ inner, j < line.length) ∧ (inner = [] ↔ ¬ Spills line needle next) := by
  obtain ⟨n, hn⟩ := Nat.exists_eq_add_one_of_ne_zero hpos.ne'
  refine ⟨((List.range n).map Nat.succ).filter fun i => needle <+: line.drop i ++ next, ?_, ?_, ?_⟩
  · rw [hn, List.range_succ_eq_map, List.filter_cons_of_pos]
    rw [List.drop_zero, decide_eq_true_eq]
    exact hline.trans (List.prefix_append line next)
  · intro j hj
    obtain ⟨i, hi, rfl⟩ := List.mem_map.mp (List.mem_filter.mp hj).1
    have := List.mem_range.mp hi
    omega
  · rw [List.filter_eq_nil_iff]
    constructor
    · rintro h ⟨j, hj, hlt, hspill⟩
      refine h j (List.mem_map.mpr ⟨j - 1, List.mem_range.mpr (by omega), by omega⟩) ?_
      rw [decide_eq_true_eq]
      exact hspill
    · intro h j hj hspill
      obtain ⟨i, hi, rfl⟩ := List.mem_map.mp hj
      have := List.mem_range.mp hi
      exact h ⟨i + 1, Nat.succ_pos i, by omega, decide_eq_true_eq.mp hspill⟩

/-- One more line: it must not spill into what follows. -/
theorem occurrences_lines_succ (hline : needle <+: line) (hpos : 0 < line.length) (n : ℕ) :
    occurrences needle (lines line (n + 1) ++ t) = starts line (n + 1) ↔
      ¬ Spills line needle (lines line n ++ t) ∧
        occurrences needle (lines line n ++ t) = starts line n := by
  obtain ⟨inner, hplaces, hlt, hinner⟩ := places_of_line (lines line n ++ t) hline hpos
  have hinj : Function.Injective (line.length + ·) := fun a b h => Nat.add_left_cancel h
  rw [lines_succ, List.append_assoc, occurrences_append, hplaces, starts_succ, List.cons_append,
    List.cons_inj_right, ← hinner]
  constructor
  · intro h
    cases inner with
    | nil => exact ⟨rfl, List.map_injective_iff.mpr hinj h⟩
    | cons j inner =>
      -- a place inside the line comes before the start of the next
      have hj : j ∈ (starts line n).map (line.length + ·) := h ▸ List.mem_cons_self
      obtain ⟨k, -, hk⟩ := List.mem_map.mp hj
      have := hlt j List.mem_cons_self
      omega
  · rintro ⟨rfl, h⟩
    rw [List.nil_append, h]

/-- Lines that begin with the needle hold it at their starts and nowhere else, and so does what
they make with a text behind them, exactly when the text does not hold it and no line spills. -/
theorem occurrences_lines_iff (hline : needle <+: line) (hpos : 0 < line.length) {n : ℕ}
    (hn : 0 < n) :
    occurrences needle (lines line n ++ t) = starts line n ↔
      ¬ needle <:+: t ∧ ¬ Spills line needle t ∧ (2 ≤ n → ¬ Spills line needle needle) := by
  induction n, hn using Nat.le_induction with
  | base =>
    rw [occurrences_lines_succ hline hpos 0]
    show ¬ Spills line needle t ∧ occurrences needle t = [] ↔ _
    rw [occurrences_eq_nil_iff]
    exact ⟨fun h => ⟨h.2, h.1, fun h => absurd h (by decide)⟩, fun h => ⟨h.2.1, h.1⟩⟩
  | succ n hn ih =>
    obtain ⟨m, rfl⟩ := Nat.exists_eq_add_of_le' hn
    have hnext : needle <+: lines line (m + 1) ++ t := by
      rw [lines_succ, List.append_assoc]
      exact hline.trans (List.prefix_append line _)
    rw [occurrences_lines_succ hline hpos (m + 1), spills_iff_of_prefix hnext, ih]
    exact ⟨fun h => ⟨h.2.1, h.2.2.1, fun _ => h.1⟩,
      fun h => ⟨h.2.2 (by omega), h.1, h.2.1, fun _ => h.2.2 (by omega)⟩⟩

end Places

end Lib.Occurrences
