import Mathlib.Order.Nat
import StudioWorker.Lib.LastRun

/-!
# ExeWatch — a replaced executable (`src/exe_watch.rs`)

Identities of the file at the launch path are only compared, and `none` where it is missing; times
are in nanoseconds.

* `ExeWatch.observe`: one check.
* `ExeWatch.after`: the watch after some checks; `pending_after` says what is pending then.
* `observe_restart_iff`: the checks that answer to restart.
-/

namespace StudioWorker

open Lib Lib.LastRun

/-- What one check decided. -/
inductive WatchStep where
  | unchanged
  | missing (first : Bool)
  | settling
  | restart
deriving DecidableEq

/-- The launch path's identity over time. -/
structure ExeWatch (I : Type) where
  baseline : Option I
  pending : Option (I × ℕ)
  missing : Bool
  settle : ℕ

/-- The identity that was read, and when. -/
abbrev Observation (I : Type) := Option I × ℕ

namespace ExeWatch

variable {I : Type} [DecidableEq I]

/-- Watch from `baseline`, the identity when the process started. -/
def new (baseline : Option I) (settle : ℕ) : ExeWatch I := ⟨baseline, none, false, settle⟩

/-- One check: `now` is the identity read at `time`. -/
def observe (w : ExeWatch I) (now : Option I) (time : ℕ) : WatchStep × ExeWatch I :=
  match now with
  | none => (.missing (!w.missing), { w with pending := none, missing := true })
  | some now =>
    let w := { w with missing := false }
    if some now = w.baseline then (.unchanged, { w with pending := none })
    else
      match w.pending with
      | some (pending, since) =>
        if pending = now then
          -- a time before `since` is as far from it as none
          if w.settle ≤ time - since then
            (.restart, { w with baseline := some now, pending := none })
          else (.settling, w)
        else (.settling, { w with pending := some (now, time) })
      | none => (.settling, { w with pending := some (now, time) })

def after (w : ExeWatch I) (seen : List (Observation I)) : ExeWatch I :=
  seen.foldl (fun w o => (w.observe o.1 o.2).2) w

variable {w : ExeWatch I} {seen : List (Observation I)} {now : Option I} {time : ℕ}

theorem after_concat (o : Observation I) :
    w.after (seen ++ [o]) = ((w.after seen).observe o.1 o.2).2 := by
  rw [after, List.foldl_append]
  rfl

theorem after_append (later : List (Observation I)) :
    w.after (seen ++ later) = (w.after seen).after later :=
  List.foldl_append

/-! ## One check -/

/-- What is pending when the observations end with `run`: its identity, unless that is the
baseline. -/
def pendingOf (baseline : Option I) (run : Option (Observation I)) : Option (I × ℕ) :=
  match run with
  | some (some id, since) => if some id = baseline then none else some (id, since)
  | _ => none

/-- A file that is not the baseline and has been the same for long enough. -/
def Settled (w : ExeWatch I) (run : Option (Observation I)) (now : Option I) (time : ℕ) : Prop :=
  now ≠ none ∧ now ≠ w.baseline ∧ ∃ since, run = some (now, since) ∧ w.settle ≤ time - since

variable {run : Option (Observation I)} (hpending : w.pending = pendingOf w.baseline run)

include hpending

theorem observe_eq_restart_iff : (w.observe now time).1 = .restart ↔ w.Settled run now time := by
  rcases now with _ | id
  · refine iff_of_false (fun h => ?_) fun h => h.1 rfl
    cases h
  rw [observe]
  dsimp only
  by_cases hid : some id = w.baseline
  · rw [if_pos hid]
    refine iff_of_false (fun h => ?_) fun h => h.2.1 hid
    cases h
  rw [if_neg hid, hpending]
  rcases run with _ | ⟨_ | key, since⟩
  · refine iff_of_false (fun h => ?_) ?_
    · cases h
    · rintro ⟨-, -, since, hrun, -⟩
      cases hrun
  · refine iff_of_false (fun h => ?_) ?_
    · cases h
    · rintro ⟨-, -, since, hrun, -⟩
      cases hrun
  by_cases hkey : key = id
  · subst hkey
    rw [pendingOf, if_neg hid]
    dsimp only
    rw [if_pos rfl]
    split_ifs with hsettle
    · exact iff_of_true rfl ⟨Option.some_ne_none _, hid, since, rfl, hsettle⟩
    · refine iff_of_false (fun h => ?_) ?_
      · cases h
      · rintro ⟨-, -, since', hrun, hle⟩
        obtain rfl := (Prod.mk.inj (Option.some.inj hrun)).2
        exact hsettle hle
  · have hnot : ¬ w.Settled (some (some key, since)) (some id) time := by
      rintro ⟨-, -, since', hrun, -⟩
      exact hkey (Option.some.inj (Prod.mk.inj (Option.some.inj hrun)).1)
    refine iff_of_false (fun h => ?_) hnot
    rw [pendingOf] at h
    split_ifs at h
    dsimp only at h
    rw [if_neg hkey] at h
    cases h

/-- One check keeps what is pending in step with the observations. -/
theorem pending_observe :
    (w.observe now time).2.pending =
      pendingOf (w.observe now time).2.baseline (extend run (now, time)) := by
  rcases now with _ | id
  · rw [observe]
    dsimp only
    rcases run with _ | ⟨key, since⟩
    · rfl
    by_cases hkey : key = none
    · rw [hkey, extend_of_eq]
      rfl
    · rw [extend, if_neg hkey]
      rfl
  rw [observe]
  dsimp only
  by_cases hid : some id = w.baseline
  · rw [if_pos hid]
    show none = pendingOf w.baseline _
    rcases run with _ | ⟨key, since⟩
    · show none = pendingOf w.baseline (some (some id, time))
      rw [pendingOf, if_pos hid]
    by_cases hkey : key = some id
    · rw [hkey, extend_of_eq, pendingOf, if_pos hid]
    · rw [extend, if_neg hkey, pendingOf, if_pos hid]
  rw [if_neg hid]
  by_cases hsame : ∃ since, run = some (some id, since)
  · obtain ⟨since, rfl⟩ := hsame
    have hkept : w.pending = some (id, since) := by
      rw [hpending, pendingOf, if_neg hid]
    rw [extend_of_eq, hkept]
    dsimp only
    rw [if_pos rfl]
    split_ifs with hsettle
    · show none = pendingOf (some id) (some (some id, since))
      rw [pendingOf, if_pos rfl]
    · show some (id, since) = pendingOf w.baseline (some (some id, since))
      rw [pendingOf, if_neg hid]
  · have hnew : extend run (some id, time) = some (some id, time) := by
      refine extend_of_ne fun p hp hkey => hsame ⟨p.2, ?_⟩
      have hkey : p.1 = some id := hkey
      rw [Option.mem_def.mp hp, ← hkey]
    rw [hnew]
    rcases hp : w.pending with _ | ⟨pending, since⟩
    · show some (id, time) = pendingOf w.baseline (some (some id, time))
      rw [pendingOf, if_neg hid]
    dsimp only
    have hother : pending ≠ id := by
      rintro rfl
      rw [hpending] at hp
      rcases run with _ | ⟨_ | key, t⟩
      · cases hp
      · cases hp
      rw [pendingOf] at hp
      split_ifs at hp
      obtain ⟨rfl, rfl⟩ := Prod.mk.inj (Option.some.inj hp)
      exact hsame ⟨t, rfl⟩
    rw [if_neg hother]
    show some (id, time) = pendingOf w.baseline (some (some id, time))
    rw [pendingOf, if_neg hid]

omit hpending

/-! ## Every run -/

theorem settle_observe : (w.observe now time).2.settle = w.settle := by
  rcases now with _ | id
  · rfl
  rw [observe]
  dsimp only
  split_ifs
  · rfl
  rcases w.pending with _ | ⟨pending, since⟩
  · rfl
  dsimp only
  split_ifs <;> rfl

/-- Only a restart moves the baseline, to the identity that it was answered for. -/
theorem baseline_of_observe {decided : WatchStep} {w' : ExeWatch I}
    (h : w.observe now time = (decided, w')) :
    w'.baseline = if decided = .restart then now else w.baseline := by
  rcases now with _ | id
  · cases h
    rfl
  rw [observe] at h
  dsimp only at h
  split_ifs at h with hid
  · cases h
    rfl
  rcases hp : w.pending with _ | ⟨pending, since⟩
  · rw [hp] at h
    cases h
    rfl
  rw [hp] at h
  dsimp only at h
  split_ifs at h <;> cases h <;> rfl

theorem baseline_observe :
    (w.observe now time).2.baseline =
      if (w.observe now time).1 = .restart then now else w.baseline :=
  baseline_of_observe rfl

theorem settle_after : (w.after seen).settle = w.settle := by
  induction seen using List.reverseRecOn with
  | nil => rfl
  | append_singleton seen o ih => rw [after_concat, settle_observe, ih]

variable (baseline : Option I) (settle : ℕ) (seen : List (Observation I)) (now : Option I)
  (time : ℕ)

/-- The watch has in mind what the run of equal identities at the end of its observations says. -/
theorem pending_after :
    ((new baseline settle).after seen).pending =
      pendingOf ((new baseline settle).after seen).baseline (lastRun seen) := by
  induction seen using List.reverseRecOn with
  | nil => rfl
  | append_singleton seen o ih =>
    rw [after_concat, lastRun_concat]
    exact pending_observe ih

variable {baseline settle seen now time}

/-- While the file is the baseline, the baseline stays. -/
theorem baseline_after_of_same {between : List (Observation I)}
    (hpending : w.pending = pendingOf w.baseline (lastRun seen))
    (hsame : ∀ o ∈ between, o.1 = w.baseline) : (w.after between).baseline = w.baseline := by
  induction between generalizing w seen with
  | nil => rfl
  | cons o between ih =>
    have hstay : (w.observe o.1 o.2).2.baseline = w.baseline := by
      rw [baseline_observe, if_neg]
      intro hrestart
      obtain ⟨-, hne, -⟩ := (observe_eq_restart_iff hpending).mp hrestart
      exact hne (hsame o List.mem_cons_self)
    have hnext := @pending_observe _ _ w o.1 o.2 _ hpending
    rw [← lastRun_concat] at hnext
    show ((w.observe o.1 o.2).2.after between).baseline = w.baseline
    rw [ih hnext fun o' ho' => by rw [hstay]; exact hsame o' (List.mem_cons_of_mem _ ho'), hstay]

/-! ## The restarts -/

/-- A check answers to restart exactly when the file differs from the baseline, and has been seen
at least `settle` before and has been the same from then on.  Anything else in between starts the
settling again, and between two restarts the file has changed. -/
theorem observe_restart_iff (baseline : Option I) (settle : ℕ) (seen : List (Observation I))
    (now : Option I) (time : ℕ)
    (htimes : (seen ++ [(now, time)]).Pairwise fun o o' => o.2 ≤ o'.2) :
    let w := (new baseline settle).after seen
    ((w.observe now time).1 = .restart ↔
      now ≠ none ∧ now ≠ w.baseline ∧ ∃ before t between, seen = before ++ (now, t) :: between ∧
        t + settle ≤ time ∧ ∀ o ∈ between, o.1 = now) ∧
    (∀ older other t rest, seen = older ++ (other, t) :: rest → other ≠ now →
      (w.observe now time).1 = .restart → ∃ o ∈ rest, o.1 = now ∧ o.2 + settle ≤ time) ∧
    (∀ older first t between, seen = older ++ (first, t) :: between →
      (((new baseline settle).after older).observe first t).1 = .restart →
      (w.observe now time).1 = .restart → ∃ o ∈ between ++ [(now, time)], o.1 ≠ first) ∧
    (w.observe now time).2.baseline =
      if (w.observe now time).1 = .restart then now else w.baseline := by
  intro w
  have hpending : w.pending = pendingOf w.baseline (lastRun seen) := pending_after _ _ _
  have hsettle : w.settle = settle := settle_after
  have hiff : (w.observe now time).1 = .restart ↔
      now ≠ none ∧ now ≠ w.baseline ∧ ∃ before t between, seen = before ++ (now, t) :: between ∧
        t + settle ≤ time ∧ ∀ o ∈ between, o.1 = now := by
    rw [observe_eq_restart_iff hpending, Settled, hsettle]
    refine and_congr_right fun _ => and_congr_right fun _ => ⟨?_, ?_⟩
    · rintro ⟨since, hrun, hle⟩
      obtain ⟨before, between, rfl, hbetween⟩ := of_lastRun hrun
      have hmono : since ≤ time := by
        refine (List.pairwise_append.mp htimes).2.2 (now, since) ?_ (now, time)
          (List.mem_singleton_self _)
        exact List.mem_append_right _ List.mem_cons_self
      exact ⟨before, since, between, rfl, by omega, hbetween⟩
    · rintro ⟨before, t, between, rfl, hle, hbetween⟩
      obtain ⟨since, hrun, hsince⟩ := exists_lastRun hbetween (List.pairwise_append.mp htimes).1
      exact ⟨since, hrun, by omega⟩
  refine ⟨hiff, ?_, ?_, baseline_observe⟩
  · intro older other t rest hseen hother hrestart
    obtain ⟨-, -, before, t', between, hsplit, hle, hbetween⟩ := hiff.mp hrestart
    rw [hseen] at hsplit
    rcases List.append_eq_append_iff.mp hsplit with ⟨middle, rfl, htail⟩ | ⟨middle, rfl, htail⟩
    · rcases middle with _ | ⟨o, middle⟩
      · obtain ⟨rfl, -⟩ := Prod.mk.inj (List.cons.inj htail).1
        exact absurd rfl hother
      · refine ⟨(now, t'), ?_, rfl, hle⟩
        rw [(List.cons.inj htail).2]
        exact List.mem_append_right _ List.mem_cons_self
    · rcases middle with _ | ⟨o, middle⟩
      · obtain ⟨rfl, -⟩ := Prod.mk.inj (List.cons.inj htail).1
        exact absurd rfl hother
      · refine absurd (hbetween (other, t) ?_) hother
        rw [(List.cons.inj htail).2]
        exact List.mem_append_right _ List.mem_cons_self
  · intro older first t between hseen hfirst hrestart
    by_contra hnone
    push Not at hnone
    have hmid := @pending_observe _ _ _ first t _ (pending_after baseline settle older)
    have hbase : (((new baseline settle).after older).observe first t).2.baseline = first := by
      rw [baseline_observe, if_pos hfirst]
    rw [← lastRun_concat] at hmid
    have hw : w = (((new baseline settle).after older).observe first t).2.after between := by
      show (new baseline settle).after seen = _
      rw [hseen, after_append]
      rfl
    have hkept : w.baseline = first := by
      rw [hw, baseline_after_of_same hmid, hbase]
      intro o ho
      rw [hbase]
      exact hnone o (List.mem_append_left _ ho)
    obtain ⟨-, hne, -⟩ := hiff.mp hrestart
    refine hne ?_
    rw [hkept]
    exact hnone (now, time) (List.mem_append_right _ (List.mem_singleton_self _))

theorem observe_restart_iff_replaced :
    let w := (new (some "v1") 10).after [(some "v1", 0), (some "v2", 3), (none, 5), (some "v2", 6)]
    (w.observe (some "v2") 16).1 = .restart :=
  (observe_restart_iff (some "v1") 10 [(some "v1", 0), (some "v2", 3), (none, 5), (some "v2", 6)]
    (some "v2") 16 (by decide)).1.mpr
    ⟨by decide, by decide, [(some "v1", 0), (some "v2", 3), (none, 5)], 6, [], rfl, by decide,
      fun _ ho => absurd ho List.not_mem_nil⟩

end ExeWatch

end StudioWorker
