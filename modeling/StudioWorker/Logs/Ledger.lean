import StudioWorker.Logs.Ship

/-!
# Logs.Ledger — what became of every pushed entry

Beside a run of the queue and its pump stands a ledger with the same entries, each with the number
of its push, and each drop marker with the numbers of the entries it stands for.

* `Slot.log`, `Mirrors`: the ledger without its numbers is the state.
* `Accounts`: every push so far is exactly once in the ledger, in order, or in a marker that names
  how many it stands for.
* `accounts_run`: so it is as long as no batch is abandoned, no restored batch is clipped and no
  marker is itself dropped.
-/

namespace StudioWorker

open Lib Lib.System

/-- A pushed entry, or a drop marker: the push that made it, its time, the count it names and the
pushes it stands for. -/
inductive Slot where
  | entry (n : ℕ) (e : LogEntry)
  | marker (n : ℕ) (now : String) (count : ℕ) (dropped : List ℕ)
deriving DecidableEq

namespace Slot

/-- The entry as the queue has it. -/
def log : Slot → LogEntry
  | entry _ e => e
  | marker _ now count _ => dropMarker now count

/-- The pushes a slot answers for. -/
def numbers : Slot → List ℕ
  | entry n _ => [n]
  | marker _ _ _ dropped => dropped

/-- Its place in push order: a marker stands right before the entry it made room for. -/
def key : Slot → ℕ
  | entry n _ => 2 * n + 1
  | marker n _ _ _ => 2 * n

def isMarker : Slot → Bool
  | entry _ _ => false
  | marker _ _ _ _ => true

/-- The count a marker names is that of the pushes it stands for. -/
def Honest : Slot → Prop
  | entry _ _ => True
  | marker _ _ count dropped => count = dropped.length

/-- The marker that push `n` makes of the slots it drops. -/
def mark (n : ℕ) (now : String) (dropped : List Slot) : Slot :=
  marker n now dropped.length (dropped.flatMap numbers)

end Slot

structure Ledger where
  pushes : ℕ
  shipped : List Slot
  batch : List Slot
  queue : List Slot
deriving DecidableEq

namespace Ledger

def empty : Ledger := ⟨0, [], [], []⟩

/-- Every slot, the oldest first. -/
def slots (l : Ledger) : List Slot := l.shipped ++ l.batch ++ l.queue

/-- What an event does to the ledger: what it does to the state, on numbered entries. -/
def label (l : Ledger) (_ : ShipState) : ShipEvent → Ledger
  | .push now entry =>
    { l with
      pushes := l.pushes + 1
      queue := pushCapped (Slot.mark l.pushes now) l.queue (.entry l.pushes entry) }
  | .sessionStarts => l
  | .take => { l with batch := l.queue, queue := [] }
  | .sendSucceeds => { l with shipped := l.shipped ++ l.batch, batch := [] }
  | .sendFails => { l with batch := [], queue := restoreClipped l.queue l.batch }
  | .teardown => { l with batch := [] }

/-- The ledger without its numbers is the state. -/
structure Mirrors (l : Ledger) (s : ShipState) : Prop where
  queue : l.queue.map Slot.log = s.queue
  batch : l.batch.map Slot.log = s.batch
  shipped : l.shipped.map Slot.log = s.shipped

/-- Every push is exactly once among the slots' numbers; the slots are in push order; the markers
name what they stand for. -/
structure Accounts (l : Ledger) : Prop where
  perm : (l.slots.flatMap Slot.numbers).Perm (List.range l.pushes)
  sorted : (l.slots.map Slot.key).Pairwise (· < ·)
  bound : ∀ x ∈ l.slots, x.key < 2 * l.pushes
  honest : ∀ x ∈ l.slots, x.Honest

/-- No batch is abandoned, no restored batch is clipped and no marker is dropped. -/
def KeepsAccount (s : ShipState × Ledger) : ShipEvent → Prop
  | .push _ _ =>
    s.2.queue.length < logShipQueueCap ∨
      ∀ x ∈ s.2.queue.take (s.2.queue.length + 2 - logShipQueueCap), x.isMarker = false
  | .sendFails => s.2.batch.length + s.2.queue.length ≤ logShipQueueCap
  | .teardown => s.2.batch = []
  | _ => True

instance (s : ShipState × Ledger) : ∀ e, Decidable (KeepsAccount s e)
  | .push _ _ => inferInstanceAs (Decidable (_ ∨ _))
  | .sendFails => inferInstanceAs (Decidable (_ ≤ _))
  | .teardown => inferInstanceAs (Decidable (_ = _))
  | .sessionStarts | .take | .sendSucceeds => isTrue trivial

variable {s t : ShipState} {l : Ledger} {e : ShipEvent}

/-! ## The ledger follows the state -/

theorem mirrors_step (h : l.Mirrors s) (hs : ShipState.step s e = some t) :
    (l.label s e).Mirrors t := by
  cases ShipState.step_trans hs with
  | push now entry =>
    refine ⟨?_, h.batch, h.shipped⟩
    have hmark : ∀ d : List Slot, (Slot.mark l.pushes now d).log =
        dropMarker now (d.map Slot.log).length := fun d => by rw [List.length_map]; rfl
    have hmap := @map_pushCapped _ _ Slot.log _ (fun d => dropMarker now d.length) hmark
      l.queue (.entry l.pushes entry)
    rw [h.queue] at hmap
    exact hmap
  | sessionStarts hoff =>
    have hbatch : s.batch = [] := by rw [ShipState.batch, hoff]
    exact ⟨h.queue, h.batch.trans hbatch, h.shipped⟩
  | waits hwaiting hempty =>
    have hbatch : s.batch = [] := by rw [ShipState.batch, hwaiting]
    exact ⟨hempty.symm, (h.queue.trans hempty).trans hbatch.symm, h.shipped⟩
  | takes hwaiting => exact ⟨rfl, h.queue, h.shipped⟩
  | sendSucceeds batch hsending =>
    have hbatch : s.batch = batch := by rw [ShipState.batch, hsending]
    refine ⟨h.queue, rfl, ?_⟩
    show (l.shipped ++ l.batch).map Slot.log = s.shipped ++ batch
    rw [List.map_append, h.shipped, h.batch, hbatch]
  | sendFails batch hsending =>
    have hbatch : s.batch = batch := by rw [ShipState.batch, hsending]
    refine ⟨?_, rfl, h.shipped⟩
    show (restoreClipped l.queue l.batch).map Slot.log = restoreClipped s.queue batch
    rw [map_restoreClipped, h.queue, h.batch, hbatch]
  | teardown => exact ⟨h.queue, rfl, h.shipped⟩

/-! ## The account is kept -/

/-- A push moves the slots it drops into a marker behind the others. -/
theorem accounts_push {r d q : List Slot} {n : ℕ} (now : String) (entry : LogEntry)
    (hperm : ((r ++ (d ++ q)).flatMap Slot.numbers).Perm (List.range n))
    (hsorted : ((r ++ (d ++ q)).map Slot.key).Pairwise (· < ·))
    (hbound : ∀ x ∈ r ++ (d ++ q), x.key < 2 * n) :
    ((r ++ (q ++ [Slot.mark n now d] ++ [Slot.entry n entry])).flatMap Slot.numbers).Perm
        (List.range (n + 1)) ∧
      ((r ++ (q ++ [Slot.mark n now d] ++ [Slot.entry n entry])).map Slot.key).Pairwise (· < ·) ∧
      ∀ x ∈ r ++ (q ++ [Slot.mark n now d] ++ [Slot.entry n entry]), x.key < 2 * (n + 1) := by
  have hsub : (r ++ q).Sublist (r ++ (d ++ q)) :=
    (List.sublist_append_right d q).append_left r
  refine ⟨?_, ?_, ?_⟩
  · have hnumbers : (r ++ (q ++ [Slot.mark n now d] ++ [Slot.entry n entry])).flatMap Slot.numbers =
        r.flatMap Slot.numbers ++ (q.flatMap Slot.numbers ++ d.flatMap Slot.numbers) ++ [n] := by
      simp [Slot.mark, Slot.numbers]
    have hold : (r ++ (d ++ q)).flatMap Slot.numbers =
        r.flatMap Slot.numbers ++ (d.flatMap Slot.numbers ++ q.flatMap Slot.numbers) := by
      simp
    rw [hold] at hperm
    rw [hnumbers, List.range_succ]
    exact ((List.perm_append_comm.append_left _).trans hperm).append_right [n]
  · have hkeys : (r ++ (q ++ [Slot.mark n now d] ++ [Slot.entry n entry])).map Slot.key =
        (r ++ q).map Slot.key ++ [2 * n, 2 * n + 1] := by
      simp [Slot.mark, Slot.key]
    rw [hkeys]
    refine List.pairwise_append.mpr ⟨hsorted.sublist (hsub.map _), by simp, fun a ha b hb => ?_⟩
    obtain ⟨x, hx, rfl⟩ := List.mem_map.mp ha
    have hlt := hbound x (hsub.subset hx)
    simp only [List.mem_cons, List.not_mem_nil, or_false] at hb
    omega
  · intro x hx
    simp only [List.mem_append, List.mem_singleton] at hx
    rcases hx with hx | (hx | rfl) | rfl
    · have := hbound x (List.mem_append_left _ hx)
      omega
    · have := hbound x (List.mem_append_right _ (List.mem_append_right _ hx))
      omega
    · simp only [Slot.mark, Slot.key]
      omega
    · simp only [Slot.key]
      omega

/-- Entries alone answer for one push each. -/
theorem length_numbers {d : List Slot} (h : ∀ x ∈ d, x.isMarker = false) :
    (d.flatMap Slot.numbers).length = d.length := by
  induction d with
  | nil => rfl
  | cons x d ih =>
    have hx := h x List.mem_cons_self
    have hd := ih fun y hy => h y (List.mem_cons_of_mem _ hy)
    cases x with
    | entry n e =>
      rw [List.flatMap_cons, List.length_append, hd, List.length_cons, Slot.numbers,
        List.length_singleton, Nat.add_comm]
    | marker n now count dropped => cases hx

/-- Slots that only move from one part of the ledger to another stay accounted for. -/
theorem Accounts.of_slots_eq {l' : Ledger} (h : l.Accounts) (hslots : l'.slots = l.slots)
    (hpushes : l'.pushes = l.pushes) : l'.Accounts where
  perm := by rw [hslots, hpushes]; exact h.perm
  sorted := by rw [hslots]; exact h.sorted
  bound := by rw [hslots, hpushes]; exact h.bound
  honest := by rw [hslots]; exact h.honest

/-- A push into a full queue: its oldest slots become a marker. -/
theorem Accounts.push_full (h : l.Accounts) (now : String) (entry : LogEntry)
    (hfull : logShipQueueCap ≤ l.queue.length)
    (hdropped : ∀ x ∈ l.queue.take (l.queue.length + 2 - logShipQueueCap), x.isMarker = false) :
    (l.label s (.push now entry)).Accounts := by
  obtain ⟨hperm, hsorted, hbound, hhonest⟩ := h
  have hsplit := (List.take_append_drop (l.queue.length + 2 - logShipQueueCap) l.queue).symm
  have hqueue : pushCapped (Slot.mark l.pushes now) l.queue (.entry l.pushes entry) =
      l.queue.drop (l.queue.length + 2 - logShipQueueCap) ++
        [Slot.mark l.pushes now (l.queue.take (l.queue.length + 2 - logShipQueueCap))] ++
        [Slot.entry l.pushes entry] := by
    rw [pushCapped, if_pos hfull]
  have hlen := length_numbers hdropped
  generalize l.queue.take (l.queue.length + 2 - logShipQueueCap) = d at *
  generalize l.queue.drop (l.queue.length + 2 - logShipQueueCap) = q at *
  have hslots : l.slots = l.shipped ++ l.batch ++ (d ++ q) := by rw [slots, hsplit]
  rw [hslots] at hperm hsorted hbound hhonest
  obtain ⟨hp, hso, hb⟩ := accounts_push now entry hperm hsorted hbound
  have hnew : (l.label s (.push now entry)).slots = l.shipped ++ l.batch ++
      (q ++ [Slot.mark l.pushes now d] ++ [Slot.entry l.pushes entry]) := by
    rw [← hqueue]
    rfl
  refine ⟨hnew ▸ hp, hnew ▸ hso, hnew ▸ hb, fun x hx => ?_⟩
  rw [hnew] at hx
  simp only [List.mem_append, List.mem_singleton] at hx hhonest
  rcases hx with hx | (hx | rfl) | rfl
  · exact hhonest x (.inl hx)
  · exact hhonest x (.inr (.inr hx))
  · exact hlen.symm
  · trivial

/-- A push into a queue with room for it. -/
theorem Accounts.push_room (h : l.Accounts) (now : String) (entry : LogEntry)
    (hroom : l.queue.length < logShipQueueCap) : (l.label s (.push now entry)).Accounts := by
  obtain ⟨hperm, hsorted, hbound, hhonest⟩ := h
  have hqueue : pushCapped (Slot.mark l.pushes now) l.queue (.entry l.pushes entry) =
      l.queue ++ [Slot.entry l.pushes entry] := by
    rw [pushCapped, if_neg (Nat.not_le.mpr hroom)]
  have hnew : (l.label s (.push now entry)).slots = l.slots ++ [.entry l.pushes entry] := by
    show l.shipped ++ l.batch ++ pushCapped _ _ _ = _
    rw [hqueue, ← List.append_assoc]
    rfl
  refine ⟨?_, ?_, fun x hx => ?_, fun x hx => ?_⟩
  · rw [hnew, List.flatMap_append]
    show (_ ++ [l.pushes]).Perm (List.range (l.pushes + 1))
    rw [List.range_succ]
    exact hperm.append_right _
  · rw [hnew, List.map_append]
    refine List.pairwise_append.mpr ⟨hsorted, by simp, fun a ha b hb => ?_⟩
    obtain ⟨x, hx, rfl⟩ := List.mem_map.mp ha
    have hlt := hbound x hx
    have hb : b = 2 * l.pushes + 1 := by simpa [Slot.key] using hb
    omega
  · rw [hnew, List.mem_append, List.mem_singleton] at hx
    show x.key < 2 * (l.pushes + 1)
    rcases hx with hx | rfl
    · have := hbound x hx
      omega
    · simp only [Slot.key]
      omega
  · rw [hnew, List.mem_append, List.mem_singleton] at hx
    rcases hx with hx | rfl
    · exact hhonest x hx
    · trivial

theorem accounts_label (h : l.Accounts) (hbatch : s.pump ≠ .waiting ∨ l.batch = [])
    (hs : ShipState.step s e = some t) (hok : KeepsAccount (s, l) e) : (l.label s e).Accounts := by
  cases e with
  | push now entry =>
    by_cases hfull : logShipQueueCap ≤ l.queue.length
    · exact h.push_full now entry hfull (hok.resolve_left (Nat.not_lt.mpr hfull))
    · exact h.push_room now entry (Nat.lt_of_not_le hfull)
  | sessionStarts => exact h
  | take =>
    have hwaiting : s.pump = .waiting := by
      cases ShipState.step_trans hs with
      | waits hwaiting hempty => exact hwaiting
      | takes hwaiting => exact hwaiting
    have hempty : l.batch = [] := hbatch.resolve_left fun hne => hne hwaiting
    refine h.of_slots_eq ?_ rfl
    simp only [label, slots, hempty, List.append_nil]
  | sendSucceeds =>
    refine h.of_slots_eq ?_ rfl
    simp only [label, slots, List.append_nil]
  | sendFails =>
    have hfits : ¬ logShipQueueCap < (l.batch ++ l.queue).length := by
      rw [List.length_append]
      exact Nat.not_lt.mpr hok
    have hrestored : restoreClipped l.queue l.batch = l.batch ++ l.queue := by
      rw [restoreClipped, if_neg hfits]
    refine h.of_slots_eq ?_ rfl
    simp only [label, slots, hrestored, List.append_nil, List.append_assoc]
  | teardown =>
    have hempty : l.batch = [] := hok
    refine h.of_slots_eq ?_ rfl
    simp only [label, slots, hempty]

/-! ## Every run -/

theorem accounts_empty : empty.Accounts :=
  ⟨by simp [empty, slots], by simp [empty, slots], by simp [empty, slots], by simp [empty, slots]⟩

theorem Mirrors.batch_nil (h : l.Mirrors s) (hp : s.pump = .waiting) : l.batch = [] := by
  have hb := h.batch
  rw [ShipState.batch, hp] at hb
  exact List.map_eq_nil_iff.mp hb

/-- In every run that abandons no batch, clips no restored batch and drops no marker, the queue
keeps its cap and every pushed entry is queued, on its way, shipped or named by a marker, once and
in order. -/
theorem accounts_run {es : List ShipEvent}
    (hr : run (System.noting ShipState.step label) (.start, empty) es = some (s, l))
    (hok : Along (System.noting ShipState.step label) KeepsAccount (.start, empty) es) :
    s.queue.length ≤ logShipQueueCap ∧ l.Mirrors s ∧ l.Accounts := by
  refine along_invariant
    (I := fun x : ShipState × Ledger =>
      x.1.queue.length ≤ logShipQueueCap ∧ x.2.Mirrors x.1 ∧ x.2.Accounts)
    (fun x e y hi ho hs => ?_) es (.start, empty) (s, l)
    ⟨Nat.zero_le _, ⟨rfl, rfl, rfl⟩, accounts_empty⟩ hok hr
  obtain ⟨hcap, hmirrors, haccounts⟩ := hi
  obtain ⟨hstep, hnote⟩ := noting_some.mp hs
  have hbatch : x.1.pump ≠ .waiting ∨ x.2.batch = [] := by
    by_cases hp : x.1.pump = .waiting
    · exact .inr (hmirrors.batch_nil hp)
    · exact .inl hp
  rw [hnote]
  exact ⟨ShipState.queue_le_cap hcap hstep, mirrors_step hmirrors hstep,
    accounts_label haccounts hbatch hstep ho⟩

/-- An entry of the worker's own log. -/
def line (message : String) : LogEntry := ⟨"t", "info", "ws", message, none⟩

/-- A send fails with an entry behind it, and the next session ships both. -/
theorem accounts_run_resent :
    ∃ x : ShipState × Ledger, run (System.noting ShipState.step label) (.start, empty)
        [.push "t" (line "a"), .sessionStarts, .take, .push "t" (line "b"), .sendFails, .teardown,
          .sessionStarts, .take, .sendSucceeds] = some x ∧
      x.1.shipped = [line "a", line "b"] ∧ x.2.Accounts := by
  refine exists_run (P := fun x => x.1.shipped = [line "a", line "b"]) (by decide +kernel)
    fun x hr hx => ⟨hx, ?_⟩
  exact (accounts_run hr (by decide +kernel)).2.2

/-- The session ends while the batch is being sent. -/
theorem abandoned_batch_lost :
    ¬ ∀ (es : List ShipEvent) (s : ShipState) (l : Ledger),
      run (System.noting ShipState.step label) (.start, empty) es = some (s, l) → l.Accounts := by
  intro h
  have hbad := (h [.push "t" (line "a"), .sessionStarts, .take, .teardown] _ _ rfl).perm.length_eq
  exact absurd hbad (by decide)

end Ledger

end StudioWorker
