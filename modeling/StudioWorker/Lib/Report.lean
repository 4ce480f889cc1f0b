import Mathlib.Data.List.Infix
import StudioWorker.Lib.Json

/-!
# Lib.Report — a child that reports over a pipe, one record a line

Of what a writer printed its reader is given a beginning: the writer may be killed at any point, and
a line it was printing is cut short.

* `printed`: the lines of the records, each ended.  `lines`: a text cut at the ends of lines.
* `Printable`: what printing and reading a record must do to one another.
* `filterMap_lines`: a beginning is heard as the first records, less those that cannot be read.
* `foldl_hear_printed`: what a reader makes of a report whose last record is what it is for.
* `tagged`: a record that names its kind.
-/

namespace Lib.Report

variable {α ρ : Type*}

/-- What the records print: a line each, and its end. -/
def printed (print : ρ → List α) (eol : α) (rs : List ρ) : List α :=
  rs.flatMap fun r => print r ++ [eol]

/-- The lines of a text, less the blank ones. -/
def lines (ends : α → Bool) (blank : List α → Bool) (t : List α) : List (List α) :=
  (t.splitOnP ends).filter fun l => !blank l

/-- A record prints one line, which is read as that record or not at all, and of which no part is
read. -/
structure Printable (print : ρ → List α) (read : List α → Option ρ) (ends : α → Bool)
    (blank : List α → Bool) (r : ρ) : Prop where
  one : ∀ c ∈ print r, ends c = false
  shown : blank (print r) = false
  back : ∀ s, read (print r) = some s → s = r
  whole : ∀ p, p <+: print r → p ≠ print r → read p = none

section Lines

variable {print : ρ → List α} {read : List α → Option ρ} {eol : α} {ends : α → Bool}
  {blank : List α → Bool}

@[simp] theorem printed_nil : printed print eol [] = [] := rfl

theorem printed_cons (r : ρ) (rs : List ρ) :
    printed print eol (r :: rs) = print r ++ eol :: printed print eol rs := by
  rw [printed, List.flatMap_cons, List.append_assoc]
  rfl

theorem lines_nil (hblank : blank [] = true) : lines ends blank [] = [] := by
  simp [lines, List.splitOnP_nil, hblank]

/-- A text without an end of line is one line, or none. -/
theorem filterMap_lines_single {l : List α} (h : ∀ c ∈ l, ends c = false)
    (hread : blank l = true → read l = none) :
    (lines ends blank l).filterMap read = (read l).toList := by
  rw [lines, List.splitOnP_eq_singleton h]
  cases hb : blank l with
  | true => simp [hb, hread hb]
  | false => cases hr : read l <;> simp [hb, hr]

theorem lines_append {l : List α} (h : ∀ c ∈ l, ends c = false) (hshown : blank l = false)
    (heol : ends eol = true) (t : List α) :
    lines ends blank (l ++ eol :: t) = l :: lines ends blank t := by
  rw [lines, List.splitOnP_append_cons_of_forall_mem h _ heol,
    List.filter_cons_of_pos (by simp [hshown])]
  rfl

/-- A line that is printed is heard as its record, or not at all. -/
theorem not_ends_of_all {l : List α} (h : l.all (fun c => !ends c) = true) :
    ∀ c ∈ l, ends c = false := by
  intro c hc
  simpa using List.all_eq_true.mp h c hc

theorem Printable.toList_read {r : ρ} (h : Printable print read ends blank r) :
    (read (print r)).toList = [r].filter fun r => (read (print r)).isSome := by
  cases hr : read (print r) with
  | none => simp [hr]
  | some s => simp [hr, h.back s hr]

/-- **A beginning of what was printed** is heard as the first so many records, less those whose line
cannot be read; it is all of them exactly when the last line is there. -/
theorem filterMap_lines (heol : ends eol = true) (hblank : blank [] = true)
    (hread : ∀ l, blank l = true → read l = none) :
    ∀ {rs : List ρ} {t : List α}, (∀ r ∈ rs, Printable print read ends blank r) →
      t <+: printed print eol rs →
      ∃ n ≤ rs.length, (lines ends blank t).filterMap read =
          (rs.take n).filter (fun r => (read (print r)).isSome) ∧
        (n = rs.length ↔ (printed print eol rs).dropLast <+: t)
  | [], t, _, ht => by
    obtain rfl := List.prefix_nil.mp ht
    refine ⟨0, Nat.le_refl 0, ?_, ?_⟩
    · rw [lines_nil hblank]
      rfl
    · simp
  | r :: rs, t, hrs, ht => by
    have hr := hrs r List.mem_cons_self
    rw [printed_cons] at ht ⊢
    by_cases hlt : t.length ≤ (print r).length
    · -- the writer was cut off within the first line, or at its very end
      have hpre : t <+: print r := List.prefix_of_prefix_length_le ht (List.prefix_append _ _) hlt
      have hsep : ∀ c ∈ t, ends c = false := fun c hc => hr.one c (hpre.subset hc)
      have hheard := filterMap_lines_single hsep (hread t)
      by_cases heq : t = print r
      · subst heq
        refine ⟨1, Nat.succ_pos _, ?_, ?_⟩
        · rw [hheard, hr.toList_read, List.take_succ_cons, List.take_zero]
        · cases rs with
          | nil => simp
          | cons r' rs =>
            refine ⟨fun h => by simp at h, fun h => ?_⟩
            have hlen := h.length_le
            rw [printed_cons] at hlen
            simp only [List.length_dropLast, List.length_append, List.length_cons] at hlen
            omega
      · refine ⟨0, Nat.zero_le _, ?_, ?_⟩
        · rw [hheard, hr.whole t hpre heq]
          rfl
        · refine ⟨fun h => by simp at h, fun h => ?_⟩
          have hlen := h.length_le
          have hne : t.length ≠ (print r).length := fun he => heq (hpre.eq_of_length he)
          simp only [List.length_dropLast, List.length_append, List.length_cons] at hlen
          omega
    · obtain ⟨u, rfl⟩ : ∃ u, t = print r ++ eol :: u := by
        obtain ⟨w, hw⟩ : print r ++ [eol] <+: t :=
          List.prefix_of_prefix_length_le
            ⟨printed print eol rs, by rw [List.append_assoc, List.singleton_append]⟩ ht (by
              rw [List.length_append, List.length_singleton]
              omega)
        exact ⟨w, by rw [← hw, List.append_assoc, List.singleton_append]⟩
      have hu : u <+: printed print eol rs := by
        have h := (List.prefix_append_right_inj (print r)).mp ht
        exact (List.cons_prefix_cons.mp h).2
      obtain ⟨n, hn, hheard, hall⟩ := filterMap_lines heol hblank hread
        (fun r' h => hrs r' (List.mem_cons_of_mem r h)) hu
      refine ⟨n + 1, Nat.succ_le_succ hn, ?_, ?_⟩
      · have hcons : (print r :: lines ends blank u).filterMap read =
            (read (print r)).toList ++ (lines ends blank u).filterMap read := by
          rw [List.filterMap_cons]
          cases read (print r) <;> rfl
        rw [lines_append hr.one hr.shown heol, hcons, hheard, hr.toList_read, ← List.filter_append]
        rfl
      · rw [List.length_cons, Nat.add_right_cancel_iff, hall]
        cases rs with
        | nil => simp
        | cons r' rs =>
          have hne : printed print eol (r' :: rs) ≠ [] := by
            rw [printed_cons]
            exact List.append_ne_nil_of_right_ne_nil _ (List.cons_ne_nil _ _)
          rw [List.dropLast_append_of_ne_nil (List.cons_ne_nil _ _),
            List.dropLast_cons_of_ne_nil hne, List.prefix_append_right_inj,
            List.prefix_cons_inj]

end Lines

/-! ## What the reader keeps -/

section Hear

variable {σ ι : Type*} {print : ρ → List α} {read : List α → Option ρ} {eol : α} {ends : α → Bool}
  {blank : List α → Bool} {line : ι → Option (List α)} {note : σ → ρ → σ}

/-- One item of what the reader is handed: a line of the pipe, or something else. -/
def hear (line : ι → Option (List α)) (read : List α → Option ρ) (note : σ → ρ → σ) (s : σ) (x : ι) :
    σ :=
  ((line x).bind read).elim s (note s)

/-- Whatever comes between the lines, they alone count. -/
theorem foldl_hear (xs : List ι) (s : σ) :
    xs.foldl (hear line read note) s = ((xs.filterMap line).filterMap read).foldl note s := by
  rw [List.filterMap_filterMap]
  induction xs generalizing s with
  | nil => rfl
  | cons x xs ih =>
    rw [List.foldl_cons, List.filterMap_cons, ih, hear]
    cases (line x).bind read <;> rfl

theorem foldl_quiet {rs : List ρ} (h : ∀ r ∈ rs, ∀ s, note s r = s) (s : σ) :
    rs.foldl note s = s := by
  induction rs with
  | nil => rfl
  | cons r rs ih =>
    rw [List.foldl_cons, h r List.mem_cons_self]
    exact ih fun x hx => h x (List.mem_cons_of_mem r hx)

/-- **What a reader makes of a report** whose records but the last tell it nothing: the last record,
where its line has arrived and can be read; else nothing. -/
theorem foldl_hear_printed [DecidableEq α] (heol : ends eol = true) (hblank : blank [] = true)
    (hread : ∀ l, blank l = true → read l = none) {quiet : List ρ} {last : ρ}
    (hrs : ∀ r ∈ quiet ++ [last], Printable print read ends blank r)
    (hquiet : ∀ r ∈ quiet, ∀ s, note s r = s) {t : List α}
    (ht : t <+: printed print eol (quiet ++ [last])) {xs : List ι}
    (hxs : xs.filterMap line = lines ends blank t) (s : σ) :
    xs.foldl (hear line read note) s =
      if (printed print eol (quiet ++ [last])).dropLast <+: t ∧ (read (print last)).isSome then
        note s last
      else s := by
  obtain ⟨n, hn, hheard, hall⟩ := filterMap_lines heol hblank hread hrs ht
  rw [foldl_hear, hxs, hheard]
  by_cases h : n = (quiet ++ [last]).length
  · rw [h, List.take_length, List.filter_append, List.foldl_append,
      foldl_quiet fun r hr => hquiet r (List.mem_of_mem_filter hr)]
    have hall := hall.mp h
    cases hr : (read (print last)).isSome with
    | false => simp [hr]
    | true => simp [hr, hall]
  · have hle : n ≤ quiet.length := by
      rw [List.length_append, List.length_singleton] at h hn
      omega
    rw [if_neg fun hall' => h (hall.mpr hall'.1), List.take_append_of_le_length hle]
    exact foldl_quiet (fun r hr => hquiet r (List.mem_of_mem_take (List.mem_of_mem_filter hr))) s

/-- A report cut off before anything was told. -/
theorem foldl_hear_quiet (heol : ends eol = true) (hblank : blank [] = true)
    (hread : ∀ l, blank l = true → read l = none) {quiet : List ρ}
    (hrs : ∀ r ∈ quiet, Printable print read ends blank r) (hquiet : ∀ r ∈ quiet, ∀ s, note s r = s)
    {t : List α} (ht : t <+: printed print eol quiet) {xs : List ι}
    (hxs : xs.filterMap line = lines ends blank t) (s : σ) :
    xs.foldl (hear line read note) s = s := by
  obtain ⟨n, -, hheard, -⟩ := filterMap_lines heol hblank hread hrs ht
  rw [foldl_hear, hxs, hheard]
  exact foldl_quiet (fun r hr => hquiet r (List.mem_of_mem_take (List.mem_of_mem_filter hr))) s

end Hear

/-! ## A record that names its kind -/

/-- The kind of a record, and the record without it: the first item of an array, or the one entry of
that name. -/
def tagged (tag : String) : Json → Option (String × Json)
  | .object entries =>
    match entries.filter fun e => e.1 == tag with
    | [(_, .string kind)] => some (kind, .object (entries.filter fun e => e.1 != tag))
    | _ => none
  | .array (.string kind :: vs) => some (kind, .array vs)
  | _ => none

/-- A written record is read back with its kind. -/
theorem tagged_record {tag kind : String} {es : List (String × Option Json)}
    (h : tag ∉ es.map Prod.fst) :
    tagged tag (Json.record ((tag, some (.string kind)) :: es)) = some (kind, Json.record es) := by
  have hne : ∀ e ∈ es.filterMap fun e => e.2.map (Prod.mk e.1), e.1 ≠ tag := by
    intro a ha heq
    obtain ⟨e, he, hea⟩ := List.mem_filterMap.mp ha
    obtain ⟨w, -, rfl⟩ := Option.map_eq_some_iff.mp hea
    exact h (List.mem_map.mpr ⟨e, he, heq⟩)
  have hnone : (es.filterMap fun e => e.2.map (Prod.mk e.1)).filter (fun e => e.1 == tag) = [] := by
    rw [List.filter_eq_nil_iff]
    exact fun e he => by simpa using hne e he
  have hall : (es.filterMap fun e => e.2.map (Prod.mk e.1)).filter (fun e => e.1 != tag) =
      es.filterMap fun e => e.2.map (Prod.mk e.1) := by
    rw [List.filter_eq_self]
    exact fun e he => by simpa using hne e he
  show tagged tag (.object ((tag, .string kind) :: es.filterMap fun e => e.2.map (Prod.mk e.1))) = _
  rw [tagged, List.filter_cons_of_pos (by simp), hnone, List.filter_cons_of_neg (by simp), hall]
  rfl

end Lib.Report
