import Mathlib.Logic.Basic

/-!
# Lib.Steps — steps on a state that may fail, and what holds after them

A step that fails leaves the state it came to.  `Triple pre m ok err` says that `m`, started where
`pre` holds, gives a value and a state of `ok`, or fails with an error in a state of `err`.

* `Steps.bind`, `Steps.fail`, `Steps.catching`: one step after another, a failure, and its handling.
* `Steps.result`: what a computation without state gave.
* `triple_pure`, `triple_fail`, `triple_bind`, `triple_catching`: their rules.
* `triple_mono`, `triple_exists`, `triple_given`: what may be weakened, and what is a hypothesis.
-/

namespace Lib

/-- A step from a state to a value, or an error, and the state it leaves. -/
def Steps (σ ε α : Type) : Type := σ → Except ε α × σ

namespace Steps

variable {σ ε α β : Type}

protected def pure (a : α) : Steps σ ε α := fun s => (.ok a, s)

protected def bind (m : Steps σ ε α) (f : α → Steps σ ε β) : Steps σ ε β := fun s =>
  match m s with
  | (.ok a, s') => f a s'
  | (.error e, s') => (.error e, s')

instance : Monad (Steps σ ε) where
  pure := Steps.pure
  bind := Steps.bind

def fail (e : ε) : Steps σ ε α := fun s => (.error e, s)

/-- When `m` fails, `handle` goes on from the state it left. -/
def catching (m : Steps σ ε α) (handle : ε → Steps σ ε α) : Steps σ ε α := fun s =>
  match m s with
  | (.ok a, s') => (.ok a, s')
  | (.error e, s') => handle e s'

/-- A value that is there, or a failure. -/
def need (v : Option α) (e : ε) : Steps σ ε α :=
  match v with
  | some a => Steps.pure a
  | none => fail e

/-- A part of the world that works, or a failure. -/
def works (failure : Option ε) : Steps σ ε Unit :=
  match failure with
  | some e => fail e
  | none => Steps.pure ()

protected def get : Steps σ ε σ := fun s => (.ok s, s)

/-- What was had elsewhere. -/
def result (r : Except ε α) : Steps σ ε α := fun s => (r, s)

theorem bind_of_ok {m : Steps σ ε α} {f : α → Steps σ ε β} {s s' : σ} {a : α}
    (h : m s = (.ok a, s')) : (m >>= f) s = f a s' := by
  show Steps.bind m f s = _
  rw [Steps.bind, h]

def Triple (pre : σ → Prop) (m : Steps σ ε α) (ok : α → σ → Prop) (err : ε → σ → Prop) : Prop :=
  ∀ s, pre s → match m s with
    | (.ok a, s') => ok a s'
    | (.error e, s') => err e s'

variable {pre : σ → Prop} {m : Steps σ ε α} {ok : α → σ → Prop} {err : ε → σ → Prop}

theorem Triple.of_ok (h : Triple pre m ok err) {s s' : σ} {a : α} (hs : pre s)
    (hm : m s = (.ok a, s')) : ok a s' := by
  have hpost := h s hs
  rw [hm] at hpost
  exact hpost

theorem Triple.of_fst {P : α → Prop} (h : Triple pre m (fun a _ => P a) err) {s : σ} {a : α}
    (hs : pre s) (hm : (m s).1 = .ok a) : P a :=
  h.of_ok hs (Prod.ext hm rfl)

theorem triple_mono {pre' : σ → Prop} {ok' : α → σ → Prop} {err' : ε → σ → Prop}
    (h : Triple pre m ok err) (hpre : ∀ s, pre' s → pre s) (hok : ∀ a s, ok a s → ok' a s)
    (herr : ∀ e s, err e s → err' e s) : Triple pre' m ok' err' := by
  intro s hs
  have hpost := h s (hpre s hs)
  cases hm : m s with
  | mk result s' =>
    rw [hm] at hpost
    cases result with
    | ok a => exact hok a s' hpost
    | error e => exact herr e s' hpost

theorem triple_exists {ι : Sort*} {pre : ι → σ → Prop} (h : ∀ i, Triple (pre i) m ok err) :
    Triple (fun s => ∃ i, pre i s) m ok err := fun s ⟨i, hs⟩ => h i s hs

/-- What does not depend on the state is a hypothesis. -/
theorem triple_given {fact : Prop} (h : fact → Triple pre m ok err) :
    Triple (fun s => fact ∧ pre s) m ok err := fun s ⟨hfact, hs⟩ => h hfact s hs

theorem triple_pure {a : α} (h : ∀ s, pre s → ok a s) : Triple pre (pure a) ok err := h

theorem triple_fail {e : ε} (h : ∀ s, pre s → err e s) : Triple pre (fail e : Steps σ ε α) ok err :=
  h

theorem triple_bind {f : α → Steps σ ε β} {ok' : β → σ → Prop} (hm : Triple pre m ok err)
    (hf : ∀ a, Triple (ok a) (f a) ok' err) : Triple pre (m >>= f) ok' err := by
  intro s hs
  have hpost := hm s hs
  show match Steps.bind m f s with | (.ok b, s') => ok' b s' | (.error e, s') => err e s'
  rw [Steps.bind]
  cases h : m s with
  | mk result s' =>
    rw [h] at hpost
    cases result with
    | ok a => exact hf a s' hpost
    | error e => exact hpost

theorem triple_catching {handle : ε → Steps σ ε α} {err' : ε → σ → Prop}
    (hm : Triple pre m ok err) (hhandle : ∀ e, Triple (err e) (handle e) ok err') :
    Triple pre (catching m handle) ok err' := by
  intro s hs
  have hpost := hm s hs
  rw [catching]
  cases h : m s with
  | mk result s' =>
    rw [h] at hpost
    cases result with
    | ok a => exact hpost
    | error e => exact hhandle e s' hpost

theorem triple_need {v : Option α} {e : ε} (h : ∀ s, pre s → err e s) :
    Triple pre (need v e) (fun a s => v = some a ∧ pre s) err := by
  intro s hs
  cases v with
  | none => exact h s hs
  | some a => exact ⟨rfl, hs⟩

theorem triple_get : Triple pre (Steps.get : Steps σ ε σ) (fun a s => a = s ∧ pre s) err :=
  fun _ hs => ⟨rfl, hs⟩

theorem triple_result {r : Except ε α} (h : ∀ e s, pre s → err e s) :
    Triple pre (result r) (fun a s => r = .ok a ∧ pre s) err := by
  intro s hs
  cases r with
  | error e => exact h e s hs
  | ok a => exact ⟨rfl, hs⟩

/-- What was had by steps from another state; this one is kept. -/
theorem triple_result_fst {τ : Type} {P : α → Prop} (h : Triple pre m (fun a _ => P a) err) {s : σ}
    (hs : pre s) (keep : τ → Prop) :
    Triple keep (result (m s).1) (fun a s => P a ∧ keep s) (fun _ => keep) := by
  intro s' hs'
  cases hm : (m s).1 with
  | ok a => exact ⟨h.of_fst hs hm, hs'⟩
  | error e => exact hs'

theorem triple_works {failure : Option ε} (h : ∀ e s, pre s → err e s) :
    Triple pre (works failure) (fun _ s => failure = none ∧ pre s) err := by
  intro s hs
  cases failure with
  | none => exact ⟨rfl, hs⟩
  | some e => exact h e s hs

end Steps

end Lib
