import StudioWorker.Engine.Download
import StudioWorker.Lib.Retry

/-!
# Engine.Restarts — how often one download asks the server (`src/engine/download.rs`)

`download_file_verified_within` calls itself again on a `416` or on a `206` that starts elsewhere,
after a removal of the `.part` file whose failure is only logged.

* `Attempt`: what the file system and the server do to one call.
* `attempt`: one call, up to what it does with the answer.
* `returns_iff_settles`: the environments in which the calls end.
-/

namespace StudioWorker.Download

open Lib Lib.Retry

inductive Answer where
  | requestError
  | response (status : ℕ) (contentRange : Option Text)
deriving DecidableEq

/-- What happens to one call. -/
structure Attempt where
  /-- The URL passes, the directory and the client can be made. -/
  prepared : Bool
  /-- The `.part` file's metadata can be read. -/
  metadata : Bool
  answer : Answer
  /-- A `.part` file that is to be removed could be. -/
  removed : Bool
  /-- How long another program leaves the `.part` file until the next call, if one touches it. -/
  between : Option ℕ
deriving DecidableEq

inductive Outcome where
  /-- Returned before any request. -/
  | unprepared
  | requestError
  /-- `GET {url} -> {status}` -/
  | refused (status : ℕ)
  /-- Drop the `.part` file and call itself. -/
  | restart
  /-- Stream the body, behind the leftover or anew; no more requests. -/
  | stream (resuming : Bool)
deriving DecidableEq

/-- `StatusCode::is_success` -/
def isSuccess (status : ℕ) : Bool := 200 ≤ status && status < 300

/-- One call that finds `left` bytes in the `.part` file, none when there is no file. -/
def attempt (left : ℕ) (a : Attempt) : Outcome :=
  if a.prepared = false then .unprepared
  else
    let resumeFrom := if a.metadata then left else 0
    match a.answer with
    | .requestError => .requestError
    | .response status contentRange =>
      if 0 < resumeFrom ∧ status = 416 then .restart
      else if isSuccess status = false then .refused status
      else if 0 < resumeFrom ∧ status = 206 then
        if contentRange.bind contentRangeStart ≠ some resumeFrom then .restart
        else .stream true
      else .stream false

/-- What the next call finds in the `.part` file. -/
def leftAfter (left : ℕ) (a : Attempt) : ℕ :=
  a.between.getD (if a.removed then 0 else left)

/-- The call that follows, by what it finds. -/
def callAgain (left : ℕ) (a : Attempt) : Option ℕ :=
  match attempt left a with
  | .restart => some (leftAfter left a)
  | .unprepared | .requestError | .refused _ | .stream _ => none

/-- The requests of one call. -/
def requests (left : ℕ) (a : Attempt) : ℕ :=
  match attempt left a with
  | .unprepared => 0
  | .requestError | .refused _ | .restart | .stream _ => 1

/-! ## When the calls end -/

/-- The answer to a request for what follows `left` bytes is no reason to start again. -/
def Answer.Fits (left : ℕ) : Answer → Prop
  | .requestError => True
  | .response status contentRange =>
    status ≠ 416 ∧ (status = 206 → contentRange.bind contentRangeStart = some left)

/-- A call that asks for the whole file, or not at all, or gets what it asked for. -/
def Settles (left : ℕ) (a : Attempt) : Prop :=
  a.prepared = false ∨ a.metadata = false ∨ left = 0 ∨ a.answer.Fits left

/-- What the `k`-th call finds, when all calls before it start again. -/
def leftBefore (env : ℕ → Attempt) (left : ℕ) : ℕ → ℕ
  | 0 => left
  | k + 1 => leftAfter (leftBefore env left k) (env k)

variable {left : ℕ} {a : Attempt} {env : ℕ → Attempt}

theorem attempt_eq_restart : attempt left a = .restart ↔ ¬ Settles left a := by
  obtain ⟨prepared, metadata, answer, removed, between⟩ := a
  unfold attempt Settles
  cases prepared with
  | false => simp
  | true =>
    cases metadata with
    | false =>
      cases answer with
      | requestError => simp
      | response status contentRange =>
        simp only [Bool.true_eq_false, if_false, Bool.false_eq_true, lt_irrefl, false_and]
        split_ifs <;> simp
    | true =>
      cases answer with
      | requestError => simp [Answer.Fits]
      | response status contentRange =>
        by_cases hleft : left = 0
        · subst hleft
          simp only [Bool.true_eq_false, if_false, if_true, lt_irrefl, false_and]
          split_ifs <;> simp
        · have hpos : 0 < left := Nat.pos_of_ne_zero hleft
          simp only [Bool.true_eq_false, if_false, if_true, hpos, true_and, hleft, false_or,
            Answer.Fits]
          by_cases h416 : status = 416
          · simp [h416]
          · by_cases h206 : status = 206
            · by_cases hrange : contentRange.bind contentRangeStart = some left
              · simp [h206, hrange, isSuccess]
              · simp [h206, hrange, isSuccess]
            · rw [if_neg h416, if_neg h206]
              split_ifs <;> simp [h416, h206]

theorem callAgain_eq_none : callAgain left a = none ↔ Settles left a := by
  rw [← not_iff_not, ← attempt_eq_restart, callAgain]
  cases attempt left a <;> simp

theorem called_leftBefore : Called callAgain env (leftBefore env left) := by
  intro k left' h
  unfold callAgain at h
  split at h
  · exact (Option.some.inj h).symm
  · cases h
  · cases h
  · cases h
  · cases h

/-- A call returns exactly when one of the calls it leads to calls no other. -/
theorem returns_iff_last (env : ℕ → Attempt) (left : ℕ) :
    Returns callAgain requests env left ↔
      ∃ k, callAgain (leftBefore env left k) (env k) = none :=
  returns_iff called_leftBefore

/-- **One call makes finitely many requests** exactly when one of the calls it leads to settles. -/
theorem returns_iff_settles (env : ℕ → Attempt) (left : ℕ) :
    Returns callAgain requests env left ↔ ∃ k, Settles (leftBefore env left k) (env k) := by
  rw [returns_iff_last]
  simp only [callAgain_eq_none]

/-- A server that answers `416` to a leftover that cannot be removed. -/
theorem restarts_never_end :
    ¬ ∀ (env : ℕ → Attempt) (left : ℕ), Returns callAgain requests env left := by
  intro h
  let env : ℕ → Attempt := fun _ => ⟨true, true, .response 416 none, false, none⟩
  have hleft : ∀ k, leftBefore env 1 k = 1 := by
    intro k
    induction k with
    | zero => rfl
    | succ k ih => exact ih
  have hagain : ∀ k, callAgain (leftBefore env 1 k) (env k) ≠ none := by
    intro k
    rw [hleft]
    decide
  obtain ⟨fuel, n, htotal⟩ := h env 1
  have hnever : total callAgain requests env fuel 0 1 = none :=
    total_eq_none called_leftBefore hagain fuel 0
  rw [htotal] at hnever
  cases hnever

/-! ## When no other program touches the file -/

/-- The leftover stays until a removal works. -/
theorem leftBefore_undisturbed (h : ∀ k, (env k).between = none) (k : ℕ) :
    leftBefore env left k = if ∃ j < k, (env j).removed = true then 0 else left := by
  induction k with
  | zero => simp [leftBefore]
  | succ k ih =>
    rw [leftBefore, leftAfter, h k, Option.getD_none, ih]
    by_cases hk : (env k).removed = true
    · have hex : ∃ j < k + 1, (env j).removed = true := ⟨k, Nat.lt_succ_self k, hk⟩
      rw [if_pos hk, if_pos hex]
    · have hiff : (∃ j < k + 1, (env j).removed = true) ↔ ∃ j < k, (env j).removed = true := by
        constructor
        · rintro ⟨j, hj, hr⟩
          have hne : j ≠ k := fun heq => hk (heq ▸ hr)
          exact ⟨j, by omega, hr⟩
        · rintro ⟨j, hj, hr⟩
          exact ⟨j, by omega, hr⟩
      rw [if_neg hk]
      simp only [hiff]

/-- Then only a leftover that is never removed, and that no call can do without, keeps it going. -/
theorem returns_iff_undisturbed (h : ∀ k, (env k).between = none) :
    Returns callAgain requests env left ↔ left = 0 ∨ ∃ k, (env k).prepared = false ∨
      (env k).metadata = false ∨ (env k).answer.Fits left ∨ (env k).removed = true := by
  rw [returns_iff_last]
  simp only [callAgain_eq_none]
  refine ⟨?_, ?_⟩
  · rintro ⟨k, hk⟩
    rw [leftBefore_undisturbed h] at hk
    by_cases hr : ∃ j < k, (env j).removed = true
    · obtain ⟨j, -, hj⟩ := hr
      exact .inr ⟨j, .inr (.inr (.inr hj))⟩
    · rw [if_neg hr] at hk
      rcases hk with hk | hk | hk | hk
      · exact .inr ⟨k, .inl hk⟩
      · exact .inr ⟨k, .inr (.inl hk)⟩
      · exact .inl hk
      · exact .inr ⟨k, .inr (.inr (.inl hk))⟩
  · have hempty : ∀ k, (∃ j < k, (env j).removed = true) →
        Settles (leftBefore env left k) (env k) := by
      intro k hk
      rw [leftBefore_undisturbed h, if_pos hk]
      exact .inr (.inr (.inl rfl))
    rintro (hleft | ⟨k, hk⟩)
    · exact ⟨0, .inr (.inr (.inl hleft))⟩
    · by_cases hr : ∃ j < k, (env j).removed = true
      · exact ⟨k, hempty k hr⟩
      · have hsame : leftBefore env left k = left := by
          rw [leftBefore_undisturbed h, if_neg hr]
        rcases hk with hk | hk | hk | hk
        · exact ⟨k, .inl hk⟩
        · exact ⟨k, .inr (.inl hk)⟩
        · exact ⟨k, .inr (.inr (.inr (hsame.symm ▸ hk)))⟩
        · exact ⟨k + 1, hempty (k + 1) ⟨k, Nat.lt_succ_self k, hk⟩⟩

end StudioWorker.Download
