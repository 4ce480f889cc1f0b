import StudioWorker.WakeWord.Settings

/-!
# WakeWord.MergePatch — JSON merge patches (`src/wake_word/settings.rs`)

A path is the names that lead into a document; it does not look into arrays.

* `Untouched`: the paths that a patch says nothing of.
* `Patched`: what RFC 7386 says of a document, a patch and the result.
* `mergePatch_patched`: the merge is that.
* `mergePatch_again`: a patch applied again changes nothing.
-/

namespace StudioWorker.WakeWord

open Lib Lib.Json

/-! ## Paths -/

/-- What the names lead to, one after the other. -/
def valueAt : List String → Json → Option Json
  | [], v => some v
  | name :: path, v => ((entriesOf v).get name).bind (valueAt path)

/-- The patch says nothing of the path: on the way there its objects come to an end by not having
the next name. -/
def Untouched : List String → Json → Prop
  | [], _ => False
  | name :: path, patch =>
    ∃ es : Entries String Json, patch = .object es ∧ ∀ v, es.get name = some v → Untouched path v

/-- No `null` outside arrays. -/
def NullFree (v : Json) : Prop := ∀ path, valueAt path v ≠ some .null

/-- What RFC 7386 says of `result`, which is `target` with `patch` applied. -/
structure Patched (target patch result : Json) : Prop where
  /-- A value that the patch names replaces what was there; `null` does where it is the patch. -/
  named : ∀ path v, valueAt path patch = some v → (∀ es, v ≠ .object es) →
    (v = .null → path = []) → valueAt path result = some v
  removed : ∀ path, path ≠ [] → valueAt path patch = some .null → valueAt path result = none
  /-- An object that the patch names is merged into an object. -/
  merged : ∀ path es, valueAt path patch = some (.object es) →
    ∃ es', valueAt path result = some (.object es')
  untouched : ∀ path, Untouched path patch → valueAt path result = valueAt path target
  nullFree : (∃ es, patch = .object es) → NullFree target → NullFree result

@[simp] theorem valueAt_nil (v : Json) : valueAt [] v = some v := rfl

@[simp] theorem valueAt_object {name : String} {path : List String} {es : Entries String Json} :
    valueAt (name :: path) (.object es) = (es.get name).bind (valueAt path) := rfl

theorem valueAt_cons_of_not_object {name : String} {path : List String} {v : Json}
    (h : ∀ es, v ≠ .object es) : valueAt (name :: path) v = none := by
  cases v with
  | object es => exact absurd rfl (h es)
  | _ => rfl

/-- A value that is found below an object's name. -/
theorem of_valueAt_cons {name : String} {path : List String} {v w : Json}
    (h : valueAt (name :: path) v = some w) :
    ∃ es x, v = .object es ∧ Entries.get es name = some x ∧ valueAt path x = some w := by
  cases v with
  | object es =>
    obtain ⟨x, hx, hw⟩ := Option.bind_eq_some_iff.mp h
    exact ⟨es, x, rfl, hx, hw⟩
  | _ => cases h

theorem not_untouched_null {path : List String} : ¬ Untouched path .null := by
  intro h
  cases path with
  | nil => exact h
  | cons name path =>
    obtain ⟨es, hes, -⟩ := h
    cases hes

/-- Below a name that an object does not have there is nothing, as there is nothing below `null`. -/
theorem valueAt_getD {path : List String} {v : Option Json} :
    (valueAt path (v.getD .null)).getD .null = (v.bind (valueAt path)).getD .null := by
  cases v with
  | none =>
    cases path with
    | nil => rfl
    | cons name path => rfl
  | some v => rfl

/-! ## One name -/

section

variable {target : Json} {es : Entries String Json} {name : String} {v : Json}

theorem mergePatch_object :
    mergePatch target (.object es) = .object (mergeEntries (entriesOf target) es) := rfl

theorem valueAt_mergePatch_of_none (hes : es.Sorted) (h : es.get name = none)
    (path : List String) :
    valueAt (name :: path) (mergePatch target (.object es)) = valueAt (name :: path) target := by
  rw [mergePatch_object, valueAt_object, get_mergeEntries hes.nodup, h]
  rfl

theorem valueAt_mergePatch_of_null (hes : es.Sorted) (h : es.get name = some .null)
    (path : List String) :
    valueAt (name :: path) (mergePatch target (.object es)) = none := by
  rw [mergePatch_object, valueAt_object, get_mergeEntries hes.nodup, h]
  rfl

theorem valueAt_mergePatch_of_some (hes : es.Sorted) (h : es.get name = some v)
    (hv : v ≠ .null) (path : List String) :
    valueAt (name :: path) (mergePatch target (.object es)) =
      valueAt path (mergePatch (((entriesOf target).get name).getD .null) v) := by
  have hnull : ¬ isNull v = true := fun hnull => hv (isNull_iff.mp hnull)
  rw [mergePatch_object, valueAt_object, get_mergeEntries hes.nodup, h]
  dsimp only
  rw [if_neg hnull]
  rfl

/-- Of a name on the way to an untouched path, the patch says nothing, or something that does not
touch the rest of it. -/
theorem get_mergeEntries_of_untouched (hp : Orderly (.object es)) {path : List String}
    (hun : ∀ v, es.get name = some v → Untouched path v) (entries : Entries String Json) :
    (mergeEntries entries es).get name = entries.get name ∨
    ∃ v, Orderly v ∧ Untouched path v ∧
      (mergeEntries entries es).get name =
        some (mergePatch ((entries.get name).getD .null) v) := by
  rw [get_mergeEntries hp.sorted.nodup]
  rcases hv : Entries.get es name with _ | v
  · exact Or.inl rfl
  · have hnull : ¬ isNull v = true := by
      intro hnull
      rw [isNull_iff.mp hnull] at hv
      exact not_untouched_null (hun _ hv)
    refine Or.inr ⟨v, hp.of_get hv, hun v hv, ?_⟩
    dsimp only
    rw [if_neg hnull]

end

/-! ## Every path -/

/-- What the patch names is merged into what was there. -/
theorem valueAt_mergePatch {path : List String} {target patch v : Json} (hp : Orderly patch)
    (h : valueAt path patch = some v) (hv : v = .null → path = []) :
    valueAt path (mergePatch target patch) =
      some (mergePatch ((valueAt path target).getD .null) v) := by
  induction path generalizing target patch with
  | nil =>
    obtain rfl := Option.some.inj h
    rfl
  | cons name path ih =>
    have hne : v ≠ .null := fun hnull => List.cons_ne_nil _ _ (hv hnull)
    obtain ⟨es, x, rfl, hx, hw⟩ := of_valueAt_cons h
    have hxne : x ≠ .null := by
      rintro rfl
      cases path with
      | nil => exact hne (Option.some.inj hw).symm
      | cons name path => cases hw
    rw [valueAt_mergePatch_of_some hp.sorted hx hxne,
      ih (hp.of_get hx) hw (fun hnull => absurd hnull hne), valueAt_getD]
    rfl

theorem valueAt_mergePatch_removed {path : List String} {target patch : Json} (hp : Orderly patch)
    (hpath : path ≠ []) (h : valueAt path patch = some .null) :
    valueAt path (mergePatch target patch) = none := by
  induction path generalizing target patch with
  | nil => exact absurd rfl hpath
  | cons name path ih =>
    obtain ⟨es, x, rfl, hx, hw⟩ := of_valueAt_cons h
    cases path with
    | nil =>
      obtain rfl := Option.some.inj hw
      exact valueAt_mergePatch_of_null hp.sorted hx []
    | cons next path =>
      have hxne : x ≠ .null := by
        rintro rfl
        cases hw
      rw [valueAt_mergePatch_of_some hp.sorted hx hxne]
      exact ih (hp.of_get hx) (List.cons_ne_nil next path) hw

theorem valueAt_mergePatch_untouched {path : List String} {target patch : Json}
    (hp : Orderly patch) (h : Untouched path patch) :
    valueAt path (mergePatch target patch) = valueAt path target := by
  induction path generalizing target patch with
  | nil => exact h.elim
  | cons name path ih =>
    obtain ⟨es, rfl, hes⟩ := h
    rw [mergePatch_object, valueAt_object]
    show _ = ((entriesOf target).get name).bind (valueAt path)
    rcases get_mergeEntries_of_untouched hp hes (entriesOf target) with hget | ⟨v, hv, hun, hget⟩
    · rw [hget]
    rw [hget, Option.bind_some, ih hv hun]
    cases (entriesOf target).get name with
    | none =>
      cases path with
      | nil => exact hun.elim
      | cons next path => rfl
    | some y => rfl

/-- Below the root there is no `null` after an object patch, when there was none before. -/
theorem valueAt_mergePatch_ne_null {path : List String} {target : Json}
    {es : Entries String Json} (hp : Orderly (.object es))
    (h : ∀ name path, valueAt (name :: path) target ≠ some .null) :
    valueAt path (mergePatch target (.object es)) ≠ some .null := by
  induction path generalizing target es with
  | nil =>
    intro hnull
    cases hnull
  | cons name path ih =>
    rcases hx : es.get name with _ | x
    · rw [valueAt_mergePatch_of_none hp.sorted hx]
      exact h name path
    by_cases hxne : x = .null
    · rw [valueAt_mergePatch_of_null hp.sorted (hxne ▸ hx)]
      exact (Option.some_ne_none _).symm
    rw [valueAt_mergePatch_of_some hp.sorted hx hxne]
    by_cases hobj : ∃ fs, x = .object fs
    · obtain ⟨fs, rfl⟩ := hobj
      refine ih (hp.of_get hx) fun next rest => ?_
      -- what was there is below the root of the target
      have hbelow := h name (next :: rest)
      intro hnull
      apply hbelow
      show ((entriesOf target).get name).bind (valueAt (next :: rest)) = some .null
      rcases hy : (entriesOf target).get name with _ | y
      · rw [hy] at hnull
        cases hnull
      · rw [hy] at hnull
        exact hnull
    · have hleaf : ∀ fs, x ≠ .object fs := fun fs hfs => hobj ⟨fs, hfs⟩
      rw [mergePatch_of_not_object hleaf]
      cases path with
      | nil => exact fun hnull => hxne (Option.some.inj hnull)
      | cons next path =>
        rw [valueAt_cons_of_not_object hleaf]
        exact (Option.some_ne_none _).symm

/-- **The merge** is what RFC 7386 says. -/
theorem mergePatch_patched {target patch : Json} (hp : Orderly patch) :
    Patched target patch (mergePatch target patch) where
  named path v h hleaf hnull := by
    rw [valueAt_mergePatch hp h hnull, mergePatch_of_not_object hleaf]
  removed path hpath h := valueAt_mergePatch_removed hp hpath h
  merged path es h := by
    refine ⟨_, valueAt_mergePatch hp h ?_⟩
    intro hnull
    cases hnull
  untouched path h := valueAt_mergePatch_untouched hp h
  nullFree := by
    rintro ⟨es, rfl⟩ hfree path
    exact valueAt_mergePatch_ne_null hp fun name rest => hfree (name :: rest)

/-! ## Applied again -/

theorem sorted_entriesOf {v : Json} (h : Orderly v) : (entriesOf v).Sorted := by
  cases v with
  | object es => exact h.sorted
  | _ => exact List.Pairwise.nil

theorem sorted_mergeEntries {target : Entries String Json} {patch : List (String × Json)}
    (h : target.Sorted) : (mergeEntries target patch).Sorted := by
  induction patch generalizing target with
  | nil => exact h
  | cons p patch ih =>
    rw [mergeEntries]
    split_ifs
    · exact ih h.erase
    · exact ih h.insert

theorem orderly_get {target : Json} (h : Orderly target) (name : String) :
    Orderly (((entriesOf target).get name).getD .null) := by
  cases target with
  | object es =>
    show Orderly ((Entries.get es name).getD .null)
    rcases hv : Entries.get es name with _ | v
    · exact Orderly.null
    · exact h.of_get hv
  | _ => exact Orderly.null

/-- **A patch applied again** changes nothing. -/
theorem mergePatch_again {target patch : Json} (ht : Orderly target) (hp : Orderly patch) :
    mergePatch (mergePatch target patch) patch = mergePatch target patch := by
  induction hp generalizing target with
  | object hs _ ih =>
    rename_i es _
    rw [mergePatch_object, mergePatch_object]
    refine congrArg Json.object ?_
    have hmerged : (mergeEntries (entriesOf target) es).Sorted :=
      sorted_mergeEntries (sorted_entriesOf ht)
    refine (sorted_mergeEntries hmerged).ext hmerged fun name => ?_
    show (mergeEntries (mergeEntries (entriesOf target) es) es).get name = _
    rw [get_mergeEntries hs.nodup, get_mergeEntries hs.nodup]
    rcases hv : Entries.get es name with _ | v
    · rfl
    dsimp only
    split_ifs with hnull
    · rfl
    · rw [Option.getD_some, ih (name, v) (mem_of_get hv) (orderly_get ht name)]
  | _ => rfl

end StudioWorker.WakeWord
