import StudioWorker.Session.Reconnect

/-!
# Session.ReconnectCap — when the retry loop gives up

The counter starts again at zero after a welcomed session and is then raised for the drop of that
very session.  So after the first welcomed session a finite cap ends the loop one failed attempt
early, and the cap is kept as stated exactly on the runs where that does not show.
-/

namespace StudioWorker.Session

variable {cap : UInt32} {schedule : SessionSchedule}

/-- What the cap and the backoff promise of a run of lost attempts. -/
structure AsStated (cap : UInt32) (schedule : SessionSchedule) (os : List Attempt) : Prop where
  /-- It gives up exactly when more attempts in a row than the cap failed to be welcomed. -/
  gives_up : ∀ q a st, q ++ [a] <+: os → retryLoop cap schedule q = .ok st →
    (GaveUp (retryLoop cap schedule (q ++ [a])) ↔
      0 < cap.toNat ∧ cap.toNat < failedStreak (q ++ [a]))
  /-- No wait is above the ceiling, and a failed attempt does not shorten the wait. -/
  paced : ∀ q a st st', q ++ [a] <+: os → retryLoop cap schedule q = .ok st →
    retryLoop cap schedule (q ++ [a]) = .ok st' →
      st'.waitedMs ≤ schedule.maxBackoffMs.toNat ∧
        (a.welcomed = false → st.waitedMs ≤ st'.waitedMs)
  /-- The backoff is the exact capped exponential at every attempt number. -/
  backoff : ∀ n, backoffFor n schedule =
    min (schedule.baseBackoffMs.toNat * 2 ^ (n.toNat - 1)) schedule.maxBackoffMs.toNat

/-- The runs on which it does: the drop of a welcomed session is never followed by `cap` failures,
unless the loop should have ended before.  At the two caps that never end the loop, what can show
is only that the counter wraps. -/
def Counted (cap : UInt32) (schedule : SessionSchedule) (os : List Attempt) : Prop :=
  if cap.toNat = 0 then
    schedule.Flat ∨ ∀ q, q <+: os → counter q < 2 ^ 32
  else if cap.toNat = 2 ^ 32 - 1 then
    (∀ q, q <+: os → failedStreak q < 2 ^ 32) ∧
      (schedule.Flat ∨ ∀ q, q <+: os → counter q < 2 ^ 32)
  else
    ∀ q, q <+: os → (∀ q', q' <+: q → failedStreak q' ≤ cap.toNat) →
      (∃ a ∈ q, a.welcomed = true) → failedStreak q ≠ cap.toNat

theorem prefix_of_snoc {α : Type*} {q os : List α} {a : α} (h : q ++ [a] <+: os) : q <+: os :=
  (List.prefix_append q [a]).trans h

/-- A property of prefixes is shown one attempt at a time. -/
theorem prefix_induction {α : Type*} {os : List α} {P : List α → Prop} (h0 : P [])
    (hs : ∀ q a, q ++ [a] <+: os → P q → P (q ++ [a])) : ∀ q, q <+: os → P q := by
  intro q
  induction q using List.reverseRecOn with
  | nil => exact fun _ => h0
  | append_singleton q a ih => exact fun h => hs q a h (ih (prefix_of_snoc h))

theorem counter_eq_streak {q : List Attempt} (h : ¬ ∃ a ∈ q, a.welcomed = true) :
    counter q = failedStreak q := by
  have hany : q.any (·.welcomed) = false := by
    rw [List.any_eq_false]
    exact fun a ha hw => h ⟨a, ha, hw⟩
  rw [counter, hany]
  rfl

theorem counter_eq_succ {q : List Attempt} (h : ∃ a ∈ q, a.welcomed = true) :
    counter q = failedStreak q + 1 := by
  rw [counter, List.any_eq_true.mpr h]
  rfl

theorem counter_snoc_le (q : List Attempt) (a : Attempt) : counter (q ++ [a]) ≤ counter q + 1 := by
  rw [counter_snoc]
  split <;> omega

/-- A loop that is still running was running before. -/
theorem ok_of_ok_append {q r : List Attempt} {st : LoopState}
    (h : retryLoop cap schedule (q ++ r) = .ok st) : ∃ st', retryLoop cap schedule q = .ok st' := by
  rw [retryLoop, spawnWsSession, List.map_append, List.foldlM_append] at h
  cases hq : retryLoop cap schedule q with
  | ok st' => exact ⟨st', rfl⟩
  | error e =>
    rw [retryLoop, spawnWsSession] at hq
    rw [hq] at h
    cases h

/-! ## How long it waits -/

theorem waitedMs_le {q : List Attempt} {a : Attempt} {st : LoopState}
    (h : retryLoop cap schedule (q ++ [a]) = .ok st) :
    st.waitedMs ≤ schedule.maxBackoffMs.toNat := by
  rw [(retryLoop_attempt h).2 (by simp)]
  exact backoffFor_le _ _

/-- A failed attempt does not shorten the wait, unless the counter wraps under a growing backoff. -/
theorem waitedMs_mono {q : List Attempt} {a : Attempt} {st st' : LoopState}
    (hq : retryLoop cap schedule q = .ok st) (hq' : retryLoop cap schedule (q ++ [a]) = .ok st')
    (h : schedule.Flat ∨ counter q < 2 ^ 32 ∧ counter (q ++ [a]) < 2 ^ 32)
    (hw : a.welcomed = false) : st.waitedMs ≤ st'.waitedMs := by
  have hatt := retryLoop_attempt hq
  have hatt' := retryLoop_attempt hq'
  rw [hatt'.2 (by simp)]
  by_cases hnil : q = []
  · subst hnil
    cases hq
    exact Nat.zero_le _
  · rw [hatt.2 hnil]
    rcases h with hflat | ⟨hlt, hlt'⟩
    · exact Nat.le_of_eq (backoffFor_flat hflat _ _)
    · have hsnoc : counter (q ++ [a]) = counter q + 1 := by
        rw [counter_snoc, hw]
        simp
      refine backoffFor_mono ?_ _
      rw [hatt.1, hatt'.1, Nat.mod_eq_of_lt hlt, Nat.mod_eq_of_lt hlt', hsnoc]
      omega

/-! ## Caps that end the loop -/

section Finite

variable (h0 : cap.toNat ≠ 0) (hmax : cap.toNat ≠ 2 ^ 32 - 1)
include h0 hmax

/-- While the loop runs its counter has not passed the cap, nor wrapped. -/
theorem counter_le_of_ok : ∀ {q : List Attempt} {st : LoopState},
    retryLoop cap schedule q = .ok st → counter q ≤ cap.toNat := by
  have hcap := cap.toNat_lt
  intro q
  induction q using List.reverseRecOn with
  | nil => exact fun _ => Nat.zero_le _
  | append_singleton q a ih =>
    intro st h
    cases hq : retryLoop cap schedule q with
    | error e =>
      rw [retryLoop_snoc, hq] at h
      cases h
    | ok st₀ =>
      have hle := ih hq
      have hstep := counter_snoc_le q a
      rcases retryLoop_next hq a with ⟨-, -, hg⟩ | ⟨hno, -⟩
      · rw [h] at hg
        exact absurd hg not_gaveUp_ok
      · have hmod : counter (q ++ [a]) % 2 ^ 32 = counter (q ++ [a]) :=
          Nat.mod_eq_of_lt (by omega)
        rw [hmod] at hno
        omega

theorem asStated_of_counted {os : List Attempt}
    (hc : ∀ q, q <+: os → (∀ q', q' <+: q → failedStreak q' ≤ cap.toNat) →
      (∃ a ∈ q, a.welcomed = true) → failedStreak q ≠ cap.toNat) :
    AsStated cap schedule os where
  gives_up q a st hp hq := by
    have hcap := cap.toNat_lt
    have hle := counter_le_of_ok h0 hmax hq
    have hstep := counter_snoc_le q a
    have hmod : counter (q ++ [a]) % 2 ^ 32 = counter (q ++ [a]) := Nat.mod_eq_of_lt (by omega)
    have hsc := failedStreak_le_counter (q ++ [a])
    rw [gaveUp_snoc hq, hmod]
    refine and_congr_right fun _ => ⟨fun hlt => ?_, fun hlt => by omega⟩
    by_contra hno
    -- the counter is past the cap and the streak is not: a drop was counted
    have hw : ∃ b ∈ q ++ [a], b.welcomed = true := by
      by_contra hw
      rw [counter_eq_streak hw] at hlt
      exact hno hlt
    have heq := counter_eq_succ hw
    refine hc _ hp (fun q' hq' => ?_) hw (by omega)
    rcases List.prefix_concat_iff.mp hq' with rfl | hq'
    · omega
    · obtain ⟨r, rfl⟩ := hq'
      have hstreak := failedStreak_le_counter q'
      obtain ⟨st', hst'⟩ := ok_of_ok_append hq
      have := counter_le_of_ok h0 hmax hst'
      omega
  paced q a st st' hp hq hq' := by
    have hcap := cap.toNat_lt
    have hle := counter_le_of_ok h0 hmax hq
    have hle' := counter_le_of_ok h0 hmax hq'
    exact ⟨waitedMs_le hq', waitedMs_mono hq hq' (.inr ⟨by omega, by omega⟩)⟩
  backoff n := backoffFor_eq n schedule

theorem counted_of_asStated {os : List Attempt} (h : AsStated cap schedule os) :
    ∀ q, q <+: os → (∀ q', q' <+: q → failedStreak q' ≤ cap.toNat) →
      (∃ a ∈ q, a.welcomed = true) → failedStreak q ≠ cap.toNat := by
  have hcap := cap.toNat_lt
  intro q hq hstreak hw heq
  have hall : ∀ r, r <+: q → counter r ≤ cap.toNat ∧ ∃ st, retryLoop cap schedule r = .ok st := by
    refine prefix_induction ⟨Nat.zero_le _, _, rfl⟩ ?_
    rintro r a hp ⟨hle, st, hr⟩
    have hno : ¬ GaveUp (retryLoop cap schedule (r ++ [a])) := by
      rw [h.gives_up r a st (hp.trans hq) hr]
      have := hstreak _ hp
      omega
    rcases retryLoop_next hr a with ⟨-, -, hg⟩ | ⟨-, st', hok, -⟩
    · exact absurd hg hno
    · exact ⟨counter_le_of_ok h0 hmax hok, st', hok⟩
  have hlast := (hall q List.prefix_rfl).1
  rw [counter_eq_succ hw] at hlast
  omega

end Finite

/-! ## Caps that never do -/

section Endless

variable (hend : cap.toNat = 0 ∨ cap.toNat = 2 ^ 32 - 1)
include hend

theorem ok_of_endless (os : List Attempt) : ∃ st, retryLoop cap schedule os = .ok st := by
  induction os using List.reverseRecOn with
  | nil => exact ⟨_, rfl⟩
  | append_singleton q a ih =>
    obtain ⟨st, hq⟩ := ih
    have hmod := Nat.mod_lt (counter (q ++ [a])) (Nat.two_pow_pos 32)
    rcases retryLoop_next hq a with ⟨hpos, hlt, -⟩ | ⟨-, st', hok, -⟩
    · omega
    · exact ⟨st', hok⟩

theorem never_gaveUp (os : List Attempt) : ¬ GaveUp (retryLoop cap schedule os) := by
  obtain ⟨st, hst⟩ := @ok_of_endless cap schedule hend os
  rw [hst]
  exact not_gaveUp_ok

/-- The waits never shrink on a failure exactly when the backoff is flat or the counter does not
wrap. -/
theorem paced_iff (os : List Attempt) :
    (∀ q a st st', q ++ [a] <+: os → retryLoop cap schedule q = .ok st →
      retryLoop cap schedule (q ++ [a]) = .ok st' →
        st'.waitedMs ≤ schedule.maxBackoffMs.toNat ∧
          (a.welcomed = false → st.waitedMs ≤ st'.waitedMs)) ↔
      (schedule.Flat ∨ ∀ q, q <+: os → counter q < 2 ^ 32) := by
  constructor
  · intro h
    by_cases hflat : schedule.Flat
    · exact .inl hflat
    · refine .inr (prefix_induction (Nat.two_pow_pos 32) fun q a hp hlt => ?_)
      by_contra hge
      -- the counter wraps here, so this attempt failed and its wait is back at the base
      obtain ⟨st, hq⟩ := @ok_of_endless cap schedule hend q
      obtain ⟨st', hq'⟩ := @ok_of_endless cap schedule hend (q ++ [a])
      have hatt := retryLoop_attempt hq
      have hatt' := retryLoop_attempt hq'
      have hsnoc := counter_snoc q a
      cases hw : a.welcomed with
      | true =>
        rw [hw] at hsnoc
        simp only [if_true] at hsnoc
        omega
      | false =>
        rw [hw] at hsnoc
        simp only [Bool.false_eq_true, if_false] at hsnoc
        have hnil : q ≠ [] := by
          rintro rfl
          have : counter [] = 0 := rfl
          omega
        have hwait := (h q a st st' hp hq hq').2 hw
        rw [hatt.2 hnil, hatt'.2 (by simp)] at hwait
        have hval : st.attempt.toNat = 2 ^ 32 - 1 := by
          rw [hatt.1]
          omega
        have hval' : st'.attempt.toNat = 0 := by
          rw [hatt'.1, hsnoc]
          omega
        exact hflat (flat_of_wrap hval hval' hwait)
  · intro h q a st st' hp hq hq'
    exact ⟨waitedMs_le hq', waitedMs_mono hq hq' (h.imp_right fun hlt =>
      ⟨hlt _ (prefix_of_snoc hp), hlt _ hp⟩)⟩

end Endless

/-! ## Every cap -/

/-- The loop gives up and paces itself as its cap promises exactly on the runs of `Counted`. -/
theorem asStated_iff (cap : UInt32) (schedule : SessionSchedule) (os : List Attempt) :
    AsStated cap schedule os ↔ Counted cap schedule os := by
  rw [Counted]
  by_cases h0 : cap.toNat = 0
  · rw [if_pos h0, ← paced_iff (.inl h0)]
    refine ⟨AsStated.paced, fun hp => ⟨fun q a st _ _ => ?_, hp, fun n => backoffFor_eq n _⟩⟩
    have hno := @never_gaveUp cap schedule (.inl h0) (q ++ [a])
    exact ⟨fun hg => absurd hg hno, fun hc => by omega⟩
  · rw [if_neg h0]
    by_cases hmax : cap.toNat = 2 ^ 32 - 1
    · rw [if_pos hmax, ← paced_iff (.inr hmax)]
      have hno := @never_gaveUp cap schedule (.inr hmax)
      constructor
      · refine fun h => ⟨prefix_induction (Nat.two_pow_pos 32) fun q a hp _ => ?_, h.paced⟩
        obtain ⟨st, hq⟩ := @ok_of_endless cap schedule (.inr hmax) q
        by_contra hge
        exact hno _ ((h.gives_up q a st hp hq).mpr ⟨by omega, by omega⟩)
      · rintro ⟨hlt, hp⟩
        refine ⟨fun q a st hpre _ => ?_, hp, fun n => backoffFor_eq n _⟩
        have := hlt _ hpre
        exact ⟨fun hg => absurd hg (hno _), fun hc => by omega⟩
    · rw [if_neg hmax]
      exact ⟨counted_of_asStated h0 hmax, asStated_of_counted h0 hmax⟩

/-- Cap one: a welcomed session drops, one attempt fails, and the loop is over. -/
theorem welcomed_drop_counts :
    ¬ ∀ (cap : UInt32) (schedule : SessionSchedule) (os : List Attempt),
      AsStated cap schedule os := by
  intro h
  have hbad := (h 1 ⟨1000, 60000⟩ [⟨true, none⟩, ⟨false, none⟩]).gives_up [⟨true, none⟩]
    ⟨false, none⟩ _ List.prefix_rfl rfl
  have hgave : GaveUp (retryLoop 1 ⟨1000, 60000⟩ [⟨true, none⟩, ⟨false, none⟩]) := ⟨_, rfl, rfl⟩
  exact absurd (hbad.mp hgave).2 (by decide)

end StudioWorker.Session
