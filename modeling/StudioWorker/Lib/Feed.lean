import Mathlib.Data.List.Basic
import Mathlib.Tactic.SplitIfs
import StudioWorker.Lib.System

/-!
# Lib.Feed — a bounded channel of messages, read in pieces

A sender hands on messages through a channel of `capacity` places; the reader takes them apart in
pieces of its own size, and may leave.  A send waits for a place, and fails once the reader left;
after that nothing is sent.

* `Feed.step`: one send, one read, or the reader leaving.
* `Feed.Inv`: what was read, what is under way and what is left are all the messages, in order.
* `Feed.exists_drain`: a reader that stays can read all of it.
-/

namespace Lib

structure Feed (α : Type) where
  /-- The messages that are not sent yet; the sender's end is dropped with the last one. -/
  left : List (List α)
  /-- A send has failed. -/
  gone : Bool := false
  queue : List (List α) := []
  /-- The message that is read, and how much of it was. -/
  buf : List α := []
  pos : ℕ := 0
  dropped : Bool := false
  /-- A read gave nothing, so the reader takes the stream to be over. -/
  ended : Bool := false
  written : List α := []

namespace Feed

inductive Event where
  | send
  | read (n : ℕ)
  | leave

variable {α : Type}

def send (capacity : ℕ) (s : Feed α) : Option (Feed α) :=
  match s.left with
  | [] => none
  | m :: rest =>
    if s.gone then some { s with left := rest }
    else if s.dropped then some { s with left := rest, gone := true }
    else if s.queue.length < capacity then some { s with left := rest, queue := s.queue ++ [m] }
    else none

/-- A read of at most `n` items of the message in hand. -/
def copy (n : ℕ) (s : Feed α) : Feed α :=
  let k := min n (s.buf.length - s.pos)
  { s with pos := s.pos + k
           written := s.written ++ (s.buf.drop s.pos).take k
           ended := s.ended || (decide (k = 0) && decide (0 < n)) }

def read (n : ℕ) (s : Feed α) : Option (Feed α) :=
  if s.dropped then none
  else if s.pos = s.buf.length then
    match s.queue with
    | m :: rest => some (copy n { s with buf := m, pos := 0, queue := rest })
    | [] => if s.left.isEmpty then some { s with ended := s.ended || decide (0 < n) } else none
  else some (copy n s)

def leave (s : Feed α) : Option (Feed α) :=
  if s.dropped then none else some { s with dropped := true, queue := [] }

def step (capacity : ℕ) : System (Feed α) Event
  | s, .send => s.send capacity
  | s, .read n => s.read n
  | s, .leave => s.leave

/-- What is under way: the rest of the message in hand, the queue, and what is not sent. -/
def coming (s : Feed α) : List α := s.buf.drop s.pos ++ s.queue.flatten ++ s.left.flatten

structure Inv (capacity : ℕ) (ms : List (List α)) (s : Feed α) : Prop where
  held : s.pos ≤ s.buf.length
  bounded : s.queue.length ≤ capacity
  failed : s.gone = true → s.dropped = true
  read : s.written <+: ms.flatten
  whole : s.dropped = false → s.written ++ s.coming = ms.flatten
  solid : ∀ m ∈ s.queue ++ s.left, m ≠ []
  done : s.ended = true → s.written = ms.flatten

section Step

variable {capacity : ℕ} {ms : List (List α)} {s t : Feed α} {e : Event}

theorem Inv.new (h : ∀ m ∈ ms, m ≠ []) : Inv capacity ms { left := ms } where
  held := Nat.le_refl 0
  bounded := Nat.zero_le _
  failed := fun h => by cases h
  read := List.nil_prefix
  whole := fun _ => rfl
  solid := h
  done := fun h => by cases h

theorem Inv.of_send (h : Inv capacity ms s) (hstep : s.send capacity = some t) :
    Inv capacity ms t := by
  cases hleft : s.left with
  | nil =>
    rw [send, hleft] at hstep
    cases hstep
  | cons m rest =>
    rw [send, hleft] at hstep
    have hsolid : ∀ m' ∈ s.queue ++ rest, m' ≠ [] := fun m' hm => by
      refine h.solid m' ?_
      rw [hleft]
      rcases List.mem_append.mp hm with hm | hm
      · exact List.mem_append_left _ hm
      · exact List.mem_append_right _ (List.mem_cons_of_mem _ hm)
    dsimp only at hstep
    split_ifs at hstep with hgone hdropped hroom
    · obtain rfl := Option.some.inj hstep
      exact ⟨h.held, h.bounded, h.failed, h.read,
        fun hd => absurd (h.failed hgone) (by rw [hd]; exact Bool.false_ne_true), hsolid, h.done⟩
    · obtain rfl := Option.some.inj hstep
      exact ⟨h.held, h.bounded, fun _ => hdropped, h.read,
        fun hd => absurd hdropped (by rw [hd]; exact Bool.false_ne_true), hsolid, h.done⟩
    · obtain rfl := Option.some.inj hstep
      refine ⟨h.held, ?_, h.failed, h.read, fun hd => ?_, ?_, h.done⟩
      · rw [List.length_append]
        exact hroom
      · rw [← h.whole hd, coming, coming, hleft]
        simp
      · intro m' hm
        refine h.solid m' ?_
        rw [hleft]
        simpa using hm

/-- A read of the message in hand. -/
theorem Inv.of_copy (h : Inv capacity ms s) (hlt : s.pos < s.buf.length)
    (hd : s.dropped = false) (n : ℕ) : Inv capacity ms (s.copy n) := by
  have hparts : s.buf.drop s.pos = (s.buf.drop s.pos).take (min n (s.buf.length - s.pos)) ++
      s.buf.drop (s.pos + min n (s.buf.length - s.pos)) := by
    rw [← List.drop_drop, List.take_append_drop]
  have hwhole : (s.copy n).written ++ (s.copy n).coming = ms.flatten := by
    rw [← h.whole hd]
    show (s.written ++ _) ++ (s.buf.drop (s.pos + _) ++ s.queue.flatten ++ s.left.flatten) =
      s.written ++ (s.buf.drop s.pos ++ s.queue.flatten ++ s.left.flatten)
    conv_rhs => rw [hparts]
    simp only [List.append_assoc]
  refine ⟨?_, h.bounded, h.failed, ⟨_, hwhole⟩, fun _ => hwhole, h.solid, fun hended => ?_⟩
  · show s.pos + min n (s.buf.length - s.pos) ≤ s.buf.length
    omega
  · have hbefore : s.ended = true := by
      simp only [copy, Bool.or_eq_true, Bool.and_eq_true, decide_eq_true_eq] at hended
      rcases hended with hended | ⟨hzero, hpos⟩
      · exact hended
      · omega
    -- All was written before, so nothing is left to copy.
    have hnil : (s.copy n).written.length ≤ s.written.length := by
      rw [h.done hbefore, ← hwhole, List.length_append]
      exact Nat.le_add_right _ _
    have hpre : s.written <+: (s.copy n).written := List.prefix_append _ _
    rw [← hpre.eq_of_length_le hnil]
    exact h.done hbefore

theorem Inv.of_read {n : ℕ} (h : Inv capacity ms s) (hstep : s.read n = some t) :
    Inv capacity ms t := by
  rw [Feed.read] at hstep
  by_cases hd : s.dropped = true
  · rw [if_pos hd] at hstep
    cases hstep
  rw [if_neg hd] at hstep
  rw [Bool.not_eq_true] at hd
  by_cases hpos : s.pos = s.buf.length
  · rw [if_pos hpos] at hstep
    have hempty : s.buf.drop s.pos = [] := by rw [hpos, List.drop_length]
    have hwhole := h.whole hd
    rw [coming, hempty, List.nil_append] at hwhole
    cases hqueue : s.queue with
    | cons m rest =>
      rw [hqueue] at hstep hwhole
      obtain rfl := Option.some.inj hstep
      have hmem : m ∈ s.queue ++ s.left := by
        rw [hqueue]
        exact List.mem_append_left _ List.mem_cons_self
      have hlen := h.bounded
      rw [hqueue, List.length_cons] at hlen
      refine Inv.of_copy (s := { s with buf := m, pos := 0, queue := rest })
        ⟨Nat.zero_le _, (Nat.le_succ _).trans hlen, h.failed, h.read, fun _ => ?_,
          fun m' hm => ?_, h.done⟩ (List.length_pos_iff.mpr (h.solid m hmem)) hd n
      · rw [← hwhole, List.flatten_cons]
        rfl
      · refine h.solid m' ?_
        rw [hqueue]
        exact List.mem_cons_of_mem _ hm
    | nil =>
      rw [hqueue] at hstep hwhole
      dsimp only at hstep
      by_cases hleft : s.left.isEmpty = true
      · rw [if_pos hleft] at hstep
        obtain rfl := Option.some.inj hstep
        rw [List.isEmpty_iff.mp hleft] at hwhole
        have hall : s.written = ms.flatten := (List.append_nil _).symm.trans hwhole
        refine ⟨h.held, Nat.zero_le _, h.failed, h.read, fun _ => ?_,
          fun m hm => h.solid m (List.mem_append_right _ hm), fun _ => hall⟩
        show s.written ++ (s.buf.drop s.pos ++ [] ++ s.left.flatten) = _
        rw [hempty, List.isEmpty_iff.mp hleft]
        exact hwhole
      · rw [if_neg hleft] at hstep
        cases hstep
  · rw [if_neg hpos] at hstep
    obtain rfl := Option.some.inj hstep
    exact h.of_copy (lt_of_le_of_ne h.held hpos) hd n

theorem Inv.of_leave (h : Inv capacity ms s) (hstep : s.leave = some t) : Inv capacity ms t := by
  rw [leave] at hstep
  split_ifs at hstep
  obtain rfl := Option.some.inj hstep
  exact ⟨h.held, Nat.zero_le _, fun _ => rfl, h.read, fun hd => (by cases hd),
    fun m hm => h.solid m (List.mem_append_right _ hm), h.done⟩

theorem Inv.step (h : Inv capacity ms s) (hstep : Feed.step capacity s e = some t) :
    Inv capacity ms t := by
  cases e with
  | send => exact h.of_send hstep
  | read n => exact h.of_read hstep
  | leave => exact h.of_leave hstep

end Step

/-! ## A reader that stays -/

section Drain

variable {capacity : ℕ} {ms : List (List α)}

/-- How many messages are still to be handed on, those not sent twice. -/
def todo (s : Feed α) : ℕ :=
  2 * s.left.length + s.queue.length + if s.pos = s.buf.length then 0 else 1

theorem copy_all (s : Feed α) (hpos : s.pos ≤ s.buf.length) :
    (s.copy (s.buf.length - s.pos)).pos = (s.copy (s.buf.length - s.pos)).buf.length := by
  show s.pos + min (s.buf.length - s.pos) (s.buf.length - s.pos) = s.buf.length
  omega

/-- Something can be done that leaves less to do. -/
theorem exists_less {s : Feed α} (h : Inv capacity ms s) (hcap : 0 < capacity)
    (hd : s.dropped = false) (htodo : 0 < s.todo) :
    ∃ e t, step capacity s e = some t ∧ t.dropped = false ∧ t.todo < s.todo := by
  by_cases hpos : s.pos = s.buf.length
  · cases hqueue : s.queue with
    | cons m rest =>
      refine ⟨.read m.length, copy m.length { s with buf := m, pos := 0, queue := rest },
        ?_, hd, ?_⟩
      · show s.read m.length = _
        rw [Feed.read, if_neg (by rw [hd]; exact Bool.false_ne_true), if_pos hpos, hqueue]
      · have hall : (copy m.length { s with buf := m, pos := 0, queue := rest }).pos =
            (copy m.length { s with buf := m, pos := 0, queue := rest }).buf.length :=
          copy_all { s with buf := m, pos := 0, queue := rest } (Nat.zero_le _)
        rw [todo, todo, if_pos hall, if_pos hpos, hqueue]
        show 2 * s.left.length + rest.length + 0 < 2 * s.left.length + (rest.length + 1) + 0
        omega
    | nil =>
      cases hleft : s.left with
      | nil =>
        rw [todo, hleft, hqueue, if_pos hpos] at htodo
        exact absurd htodo (Nat.lt_irrefl 0)
      | cons m rest =>
        have hgone : ¬ s.gone = true := fun hg => by
          rw [h.failed hg] at hd
          cases hd
        refine ⟨.send, { s with left := rest, queue := s.queue ++ [m] }, ?_, hd, ?_⟩
        · show s.send capacity = _
          rw [send, hleft]
          dsimp only
          rw [if_neg hgone, if_neg (by rw [hd]; exact Bool.false_ne_true),
            if_pos (by rw [hqueue]; exact hcap)]
        · rw [todo, todo, hleft, hqueue, if_pos hpos]
          show 2 * rest.length + 1 + 0 < 2 * (rest.length + 1) + 0 + 0
          omega
  · refine ⟨.read (s.buf.length - s.pos), s.copy (s.buf.length - s.pos), ?_, hd, ?_⟩
    · show s.read _ = _
      rw [Feed.read, if_neg (by rw [hd]; exact Bool.false_ne_true), if_neg hpos]
    · rw [todo, todo, if_pos (copy_all s h.held), if_neg hpos]
      exact Nat.lt_succ_self _

/-- While the reader stays it can read on to the end. -/
theorem exists_drain (hcap : 0 < capacity) : ∀ (n : ℕ) {s : Feed α}, Inv capacity ms s →
    s.dropped = false → s.todo ≤ n →
      ∃ es t, System.run (step capacity) s es = some t ∧ t.ended = true ∧ t.written = ms.flatten
  | 0, s, h, hd, htodo => by
    have hzero : s.todo = 0 := Nat.le_zero.mp htodo
    have hpos : s.pos = s.buf.length := by
      by_contra hne
      rw [todo, if_neg hne] at hzero
      omega
    rw [todo, if_pos hpos] at hzero
    have hleft : s.left = [] := List.length_eq_zero_iff.mp (by omega)
    have hqueue : s.queue = [] := List.length_eq_zero_iff.mp (by omega)
    have hstep : step capacity s (.read 1) =
        some { s with ended := s.ended || decide (0 < 1) } := by
      show s.read 1 = _
      rw [Feed.read, if_neg (by rw [hd]; exact Bool.false_ne_true), if_pos hpos, hqueue, hleft]
      rfl
    have hended : (s.ended || decide (0 < 1)) = true := Bool.or_true _
    exact ⟨[.read 1], _, System.run_cons_some.mpr ⟨_, hstep, rfl⟩, hended,
      (h.step hstep).done hended⟩
  | n + 1, s, h, hd, htodo => by
    by_cases hzero : 0 < s.todo
    · obtain ⟨e, t, hstep, hd', hless⟩ := exists_less h hcap hd hzero
      obtain ⟨es, u, hrun, hu⟩ := exists_drain hcap n (h.step hstep) hd' (by omega)
      exact ⟨e :: es, u, System.run_cons_some.mpr ⟨t, hstep, hrun⟩, hu⟩
    · exact exists_drain hcap n h hd (by omega)

/-- Once the reader left, nothing holds the sender up. -/
theorem exists_finish : ∀ (n : ℕ) {s : Feed α}, s.dropped = true → s.left.length = n →
    ∃ t, System.run (step capacity) s (List.replicate n .send) = some t ∧ t.left = []
  | 0, s, _, hlen => ⟨s, rfl, List.length_eq_zero_iff.mp hlen⟩
  | n + 1, s, hd, hlen => by
    cases hleft : s.left with
    | nil =>
      rw [hleft] at hlen
      cases hlen
    | cons m rest =>
      rw [hleft] at hlen
      have hrest : rest.length = n := Nat.succ.inj hlen
      have hstep : ∃ t, step capacity s .send = some t ∧ t.dropped = true ∧ t.left = rest := by
        show ∃ t, s.send capacity = some t ∧ _
        rw [send, hleft]
        by_cases hgone : s.gone = true
        · exact ⟨{ s with left := rest }, by dsimp only; rw [if_pos hgone], hd, rfl⟩
        · exact ⟨{ s with left := rest, gone := true },
            by dsimp only; rw [if_neg hgone, if_pos hd], hd, rfl⟩
      obtain ⟨t, ht, hd', rfl⟩ := hstep
      obtain ⟨u, hrun, hu⟩ := exists_finish n hd' hrest
      exact ⟨u, System.run_cons_some.mpr ⟨t, ht, hrun⟩, hu⟩

end Drain

/-! ## Every run -/

/-- What any run of a feed of `ms` keeps. -/
structure Fed (capacity : ℕ) (ms : List (List α)) (s : Feed α) : Prop where
  /-- What was read is the first of it, whatever the pieces; at most `capacity` messages wait. -/
  read : s.written <+: ms.flatten ∧ s.queue.length ≤ capacity
  /-- The stream is over only when all of it was read. -/
  whole : s.ended = true → s.written = ms.flatten
  /-- A send fails only to a reader that left. -/
  failed : s.gone = true → s.dropped = true
  /-- A reader that stays can read to the end. -/
  stays : s.dropped = false → ∃ es t, System.run (step capacity) s es = some t ∧
    t.ended = true ∧ t.written = ms.flatten
  /-- One that left does not hold the sender up. -/
  leaves : s.dropped = true → ∃ t,
    System.run (step capacity) s (List.replicate s.left.length .send) = some t ∧ t.left = []

theorem run_fed {capacity : ℕ} (hcap : 0 < capacity) {ms : List (List α)}
    (hsolid : ∀ m ∈ ms, m ≠ []) {es : List Event} {s : Feed α}
    (hr : System.run (step capacity) { left := ms } es = some s) : Fed capacity ms s := by
  have h : Inv capacity ms s :=
    System.run_invariant (fun _ _ _ hi hs => hi.step hs) (Inv.new hsolid) hr
  exact ⟨⟨h.read, h.bounded⟩, h.done, h.failed, fun hd => exists_drain hcap _ h hd le_rfl,
    fun hd => exists_finish _ hd rfl⟩

end Feed

end Lib
