import Mathlib.Data.Set.Basic

/-!
# Lib.System — guarded steps, runs and the rules for invariants

A system is a partial step function: what an event does to a state, `none` when it cannot happen
there.  All nondeterminism (the order of threads, what the environment answers) is in the events,
so a run is a list of events and is executable.

* `System.run`: the state after a list of events.
* `System.Along ok`: every event of the run met `ok` in the state it happened in.
* `run_invariant`, `along_invariant`: what one step keeps, a whole run keeps.
* `System.noting`: the system with a history variable beside its state.
-/

namespace Lib

/-- What an event does to a state; `none` when the event cannot happen there. -/
abbrev System (σ ε : Type*) := σ → ε → Option σ

namespace System

variable {σ ε γ : Type*} (step : System σ ε)

/-! ## Runs -/

/-- The state after the events of a list, in order. -/
def run : σ → List ε → Option σ
  | s, [] => some s
  | s, e :: es => (step s e).bind fun t => run t es

/-- Every event of the run met `ok` in the state it happened in. -/
def Along (ok : σ → ε → Prop) : σ → List ε → Prop
  | _, [] => True
  | s, e :: es => ok s e ∧ ∀ t, step s e = some t → Along ok t es

/-- `t` is reached from `s` by some run. -/
def Reaches (s t : σ) : Prop := ∃ es, run step s es = some t

@[simp] theorem run_nil (s : σ) : run step s [] = some s := rfl

theorem run_cons (s : σ) (e : ε) (es : List ε) :
    run step s (e :: es) = (step s e).bind fun t => run step t es := rfl

variable {step}

theorem run_cons_some {s t : σ} {e : ε} {es : List ε} :
    run step s (e :: es) = some t ↔ ∃ m, step s e = some m ∧ run step m es = some t := by
  rw [run_cons, Option.bind_eq_some_iff]

theorem run_append {s : σ} (es es' : List ε) :
    run step s (es ++ es') = (run step s es).bind fun t => run step t es' := by
  induction es generalizing s with
  | nil => rfl
  | cons e es ih =>
    rw [List.cons_append, run_cons, run_cons, Option.bind_assoc]
    exact congrArg _ (funext fun t => ih)

theorem run_snoc_some {s t : σ} {e : ε} {es : List ε} :
    run step s (es ++ [e]) = some t ↔ ∃ m, run step s es = some m ∧ step m e = some t := by
  rw [run_append, Option.bind_eq_some_iff]
  constructor
  · rintro ⟨m, h1, h2⟩
    obtain ⟨t', h3, h4⟩ := run_cons_some.mp h2
    rw [run_nil, Option.some.injEq] at h4
    exact ⟨m, h1, h4 ▸ h3⟩
  · rintro ⟨m, h1, h2⟩
    exact ⟨m, h1, run_cons_some.mpr ⟨t, h2, rfl⟩⟩

/-- A run of fixed events ends well when a check that evaluates it says so. -/
theorem exists_run {P Q : σ → Prop} [DecidablePred P] {s : σ} {es : List ε}
    (h : ((run step s es).any fun t => decide (P t)) = true)
    (hq : ∀ t, run step s es = some t → P t → Q t) : ∃ t, run step s es = some t ∧ Q t := by
  obtain ⟨t, ht, hP⟩ := (Option.any_eq_true _ _).mp h
  exact ⟨t, ht, hq t ht (of_decide_eq_true hP)⟩

theorem Reaches.refl (s : σ) : Reaches step s s := ⟨[], rfl⟩

theorem Reaches.trans {s t u : σ} (h : Reaches step s t) (h' : Reaches step t u) :
    Reaches step s u := by
  obtain ⟨es, hes⟩ := h
  obtain ⟨es', hes'⟩ := h'
  exact ⟨es ++ es', by rw [run_append, hes]; exact hes'⟩

/-! ## Invariants -/

/-- What every step whose event meets `ok` keeps, a run along `ok` keeps. -/
theorem along_invariant {ok : σ → ε → Prop} {I : σ → Prop}
    (hstep : ∀ s e t, I s → ok s e → step s e = some t → I t) :
    ∀ (es : List ε) (s t : σ), I s → Along step ok s es → run step s es = some t → I t
  | [], s, t, hs, _, hr => by
    rw [run_nil, Option.some.injEq] at hr
    exact hr ▸ hs
  | e :: es, s, t, hs, ha, hr => by
    obtain ⟨m, hm, hr⟩ := run_cons_some.mp hr
    exact along_invariant hstep es m t (hstep s e m hs ha.1 hm) (ha.2 m hm) hr

theorem along_true (s : σ) (es : List ε) : Along step (fun _ _ => True) s es := by
  induction es generalizing s with
  | nil => trivial
  | cons e es ih => exact ⟨trivial, fun t _ => ih t⟩

/-- What every step keeps, a run keeps. -/
theorem run_invariant {I : σ → Prop} (hstep : ∀ s e t, I s → step s e = some t → I t)
    {s t : σ} {es : List ε} (hs : I s) (hr : run step s es = some t) : I t :=
  along_invariant (fun s e t h _ => hstep s e t h) es s t hs (along_true s es) hr

theorem Along.mono {ok ok' : σ → ε → Prop} (h : ∀ s e, ok s e → ok' s e) :
    ∀ {s : σ} {es : List ε}, Along step ok s es → Along step ok' s es
  | _, [], _ => trivial
  | s, e :: _, ha => ⟨h s e ha.1, fun t ht => Along.mono h (ha.2 t ht)⟩

/-- Along a run that keeps an invariant, each event may use it. -/
theorem Along.imp_invariant {ok ok' : σ → ε → Prop} {I : σ → Prop}
    (hstep : ∀ s e t, I s → ok s e → step s e = some t → I t)
    (himp : ∀ s e, I s → ok s e → ok' s e) :
    ∀ {s : σ} {es : List ε}, I s → Along step ok s es → Along step ok' s es
  | _, [], _, _ => trivial
  | s, e :: _, hs, ha => ⟨himp s e hs ha.1, fun t ht =>
      Along.imp_invariant hstep himp (hstep s e t hs ha.1 ht) (ha.2 t ht)⟩

theorem along_append {ok : σ → ε → Prop} {s : σ} {es es' : List ε} :
    Along step ok s (es ++ es') ↔
      Along step ok s es ∧ ∀ t, run step s es = some t → Along step ok t es' := by
  induction es generalizing s with
  | nil => simp [Along]
  | cons e es ih =>
    rw [List.cons_append]
    constructor
    · rintro ⟨h, ha⟩
      refine ⟨⟨h, fun m hm => (ih.mp (ha m hm)).1⟩, fun t ht => ?_⟩
      obtain ⟨m, hm, hr⟩ := run_cons_some.mp ht
      exact (ih.mp (ha m hm)).2 t hr
    · rintro ⟨⟨h, ha⟩, hr⟩
      exact ⟨h, fun m hm => ih.mpr ⟨ha m hm, fun t ht => hr t (run_cons_some.mpr ⟨m, hm, ht⟩)⟩⟩

theorem Along.and {ok ok' : σ → ε → Prop} :
    ∀ {s : σ} {es : List ε}, Along step ok s es → Along step ok' s es →
      Along step (fun s e => ok s e ∧ ok' s e) s es
  | _, [], _, _ => trivial
  | _, _ :: _, ha, hb => ⟨⟨ha.1, hb.1⟩, fun t ht => Along.and (ha.2 t ht) (hb.2 t ht)⟩

/-- Where a step keeps `P` exactly when its event meets `ok`, a run keeps it throughout exactly
along `ok`. -/
theorem forall_prefix_iff_along {ok : σ → ε → Prop} {P : σ → Prop}
    (hstep : ∀ s e t, P s → step s e = some t → (P t ↔ ok s e)) :
    ∀ {es : List ε} {s t : σ}, P s → run step s es = some t →
      ((∀ before u, before <+: es → run step s before = some u → P u) ↔ Along step ok s es)
  | [], s, t, hs, _ => by
    refine ⟨fun _ => trivial, fun _ before u hpre hu => ?_⟩
    obtain rfl := List.prefix_nil.mp hpre
    rw [run_nil, Option.some.injEq] at hu
    exact hu ▸ hs
  | e :: es, s, t, hs, hr => by
    obtain ⟨m, hm, hrest⟩ := run_cons_some.mp hr
    constructor
    · intro h
      have hPm : P m :=
        h [e] m ⟨es, rfl⟩ (run_cons_some.mpr ⟨m, hm, run_nil step m⟩)
      refine ⟨(hstep s e m hs hm).mp hPm, fun m' hm' => ?_⟩
      obtain rfl := Option.some.inj (hm.symm.trans hm')
      refine (forall_prefix_iff_along hstep hPm hrest).mp fun before u hpre hu => ?_
      exact h (e :: before) u ((List.cons_prefix_cons).mpr ⟨rfl, hpre⟩)
        (run_cons_some.mpr ⟨m, hm, hu⟩)
    · rintro ⟨hok, ha⟩ before u hpre hu
      cases before with
      | nil =>
        rw [run_nil, Option.some.injEq] at hu
        exact hu ▸ hs
      | cons e' before =>
        obtain ⟨rfl, hrun⟩ := List.cons_prefix_cons.mp hpre
        obtain ⟨m', hm', hu⟩ := run_cons_some.mp hu
        obtain rfl := Option.some.inj (hm.symm.trans hm')
        exact (forall_prefix_iff_along hstep ((hstep s e' m hs hm).mpr hok) hrest).mpr (ha m hm)
          before u hrun hu

/-- A condition on the events alone holds along a run of events that meet it. -/
theorem along_of_forall {ok : ε → Prop} :
    ∀ {s : σ} {es : List ε}, (∀ e ∈ es, ok e) → Along step (fun _ e => ok e) s es
  | _, [], _ => trivial
  | _, e :: _, h => ⟨h e List.mem_cons_self, fun _ _ =>
      along_of_forall fun e he => h e (List.mem_cons_of_mem _ he)⟩

/-- Over fixed events the condition along a run is checked by evaluating the run. -/
def decidableAlong {ok : σ → ε → Prop} [∀ s e, Decidable (ok s e)] :
    ∀ (s : σ) (es : List ε), Decidable (Along step ok s es)
  | _, [] => isTrue trivial
  | s, e :: es =>
    match hs : step s e with
    | none => decidable_of_iff (ok s e) ⟨fun h => ⟨h, fun t ht => by simp [hs] at ht⟩, And.left⟩
    | some t =>
      haveI : Decidable (Along step ok t es) := decidableAlong t es
      decidable_of_iff (ok s e ∧ Along step ok t es)
        ⟨fun h => ⟨h.1, fun t' ht => by rw [hs, Option.some.injEq] at ht; exact ht ▸ h.2⟩,
          fun h => ⟨h.1, h.2 t hs⟩⟩

instance {ok : σ → ε → Prop} [∀ s e, Decidable (ok s e)] (s : σ) (es : List ε) :
    Decidable (Along step ok s es) := decidableAlong s es

/-! ## History variables -/

variable (step)

/-- The system with a history variable: `note` records each event that happens and constrains
none. -/
def noting (note : γ → σ → ε → γ) : System (σ × γ) ε :=
  fun s e => (step s.1 e).map fun t => (t, note s.2 s.1 e)

variable {step}

theorem noting_some {note : γ → σ → ε → γ} {s t : σ × γ} {e : ε} :
    noting step note s e = some t ↔ step s.1 e = some t.1 ∧ t.2 = note s.2 s.1 e := by
  unfold noting
  rw [Option.map_eq_some_iff]
  constructor
  · rintro ⟨m, h1, rfl⟩
    exact ⟨h1, rfl⟩
  · rintro ⟨h1, h2⟩
    exact ⟨t.1, h1, Prod.ext rfl h2.symm⟩

/-- A run with a history variable is a run of the system. -/
theorem run_of_noting {note : γ → σ → ε → γ} :
    ∀ {es : List ε} {s t : σ × γ}, run (noting step note) s es = some t → run step s.1 es = some t.1
  | [], s, t, h => by
    rw [run_nil, Option.some.injEq] at h
    rw [run_nil, h]
  | e :: es, s, t, h => by
    obtain ⟨m, h1, h2⟩ := run_cons_some.mp h
    exact run_cons_some.mpr ⟨m.1, (noting_some.mp h1).1, run_of_noting h2⟩

/-- What holds along a run holds along it with a history variable. -/
theorem Along.noting {note : γ → σ → ε → γ} {ok : σ → ε → Prop} :
    ∀ {es : List ε} {s : σ} {c : γ}, Along step ok s es →
      Along (System.noting step note) (fun t e => ok t.1 e) (s, c) es
  | [], _, _, _ => trivial
  | _ :: _, _, _, ha =>
    ⟨ha.1, fun t ht => Along.noting (c := t.2) (ha.2 t.1 (noting_some.mp ht).1)⟩

end System

end Lib
