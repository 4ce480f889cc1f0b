import Mathlib.Data.Rat.Defs
import Mathlib.Data.List.Nodup
import Mathlib.Logic.Basic

/-!
# Lib.Json — documents as trees, and records read from them field by field

A record is read as derived readers do: from an object by name, refusing a known name given twice
and passing over unknown ones, or from an array by position.

* `Json.record`: an object of the fields that are present.
* `fields_record`: a written record is read back field by field.
* `nullable_map_eq_some`, `all_map_eq_some`: when one field is.
-/

namespace Lib

/-- A number as it is spelled: with a fraction or an exponent, or without. -/
inductive Number where
  | int (n : ℤ)
  | dec (q : ℚ)
deriving DecidableEq

def Number.value : Number → ℚ
  | int n => n
  | dec q => q

inductive Json where
  | null
  | bool (b : Bool)
  | number (n : Number)
  | string (s : String)
  | array (vs : List Json)
  | object (entries : List (String × Json))

namespace Json

variable {α β : Type*}

/-! ## Depth -/

mutual

/-- How deep arrays and objects nest. -/
def depth : Json → ℕ
  | array vs => depthOfAll vs + 1
  | object entries => depthOfFields entries + 1
  | _ => 0

def depthOfAll : List Json → ℕ
  | [] => 0
  | v :: vs => max (depth v) (depthOfAll vs)

def depthOfFields : List (String × Json) → ℕ
  | [] => 0
  | (_, v) :: es => max (depth v) (depthOfFields es)

end

/-! ## Records -/

/-- The fields of a record whose fields are `names`, in this order: what each name is given.
`none`: not a record of them. -/
def fields (names : List String) : Json → Option (String → Option Json)
  | object entries =>
    if ∀ n ∈ names, (entries.filter fun e => e.1 == n).length ≤ 1 then
      some fun n => entries.lookup n
    else none
  | array vs => if vs.length ≤ names.length then some fun n => vs[names.idxOf n]? else none
  | _ => none

/-- A field that must be given. -/
def required (v : Option Json) (read : Json → Option α) : Option α := v.bind read

/-- A field that may be left out or be `null`. -/
def nullable (v : Option Json) (read : Json → Option α) : Option (Option α) :=
  match v with
  | none | some null => some none
  | some v => (read v).map some

/-- A field with a default where it is left out. -/
def defaulted (v : Option Json) (d : α) (read : Json → Option α) : Option α :=
  match v with
  | none => some d
  | some v => read v

/-- Every item of an array. -/
def all (read : Json → Option α) : Json → Option (List α)
  | array vs => vs.mapM read
  | _ => none

/-- The object of the fields that are present. -/
def record (entries : List (String × Option Json)) : Json :=
  object (entries.filterMap fun e => e.2.map (Prod.mk e.1))

/-! ## A written record is read back -/

theorem filter_record_length (n : String) {es : List (String × Option Json)}
    (hn : (es.map Prod.fst).Nodup) :
    ((es.filterMap fun e => e.2.map (Prod.mk e.1)).filter fun e => e.1 == n).length ≤ 1 := by
  induction es with
  | nil => exact Nat.zero_le 1
  | cons e es ih =>
    obtain ⟨k, v⟩ := e
    rw [List.map_cons, List.nodup_cons] at hn
    cases v with
    | none => exact ih hn.2
    | some v =>
      show (((k, v) :: es.filterMap fun e => e.2.map (Prod.mk e.1)).filter _).length ≤ 1
      by_cases hk : k = n
      · have hnone : (es.filterMap fun e => e.2.map (Prod.mk e.1)).filter (fun e => e.1 == n) =
            [] := by
          rw [List.filter_eq_nil_iff]
          intro a ha hkn
          obtain ⟨e, he, hea⟩ := List.mem_filterMap.mp ha
          obtain ⟨w, -, rfl⟩ := Option.map_eq_some_iff.mp hea
          have heq : e.1 = n := beq_iff_eq.mp hkn
          exact hn.1 (List.mem_map.mpr ⟨e, he, heq.trans hk.symm⟩)
        rw [List.filter_cons_of_pos (by simpa using hk), hnone]
        exact Nat.le_refl 1
      · rw [List.filter_cons_of_neg (by simpa using hk)]
        exact ih hn.2

/-- A name that is not among the entries is given nothing. -/
theorem lookup_record_none {n : String} {es : List (String × Option Json)}
    (hn : n ∉ es.map Prod.fst) :
    (es.filterMap fun e => e.2.map (Prod.mk e.1)).lookup n = none := by
  rw [List.lookup_eq_none_iff]
  intro p hp
  obtain ⟨e, he, hep⟩ := List.mem_filterMap.mp hp
  obtain ⟨w, -, rfl⟩ := Option.map_eq_some_iff.mp hep
  have hne : n ≠ e.1 := fun h => hn (List.mem_map.mpr ⟨e, he, h.symm⟩)
  simpa using hne

theorem lookup_record {es : List (String × Option Json)} (hn : (es.map Prod.fst).Nodup)
    {e : String × Option Json} (he : e ∈ es) :
    (es.filterMap fun e => e.2.map (Prod.mk e.1)).lookup e.1 = e.2 := by
  induction es with
  | nil => cases he
  | cons a es ih =>
    obtain ⟨k, v⟩ := a
    rw [List.map_cons, List.nodup_cons] at hn
    rcases List.mem_cons.mp he with rfl | hmem
    · cases v with
      | none =>
        show (es.filterMap _).lookup k = none
        exact lookup_record_none hn.1
      | some v => exact List.lookup_cons_self
    · have hne : e.1 ≠ k := fun h => hn.1 (List.mem_map.mpr ⟨e, hmem, h⟩)
      cases v with
      | none => exact ih hn.2 hmem
      | some v =>
        show ((k, v) :: es.filterMap _).lookup e.1 = _
        rw [List.lookup_cons, beq_eq_false_iff_ne.mpr hne]
        exact ih hn.2 hmem

/-- A record whose names differ gives each field what it was written with. -/
theorem fields_record {names : List String} {es : List (String × Option Json)}
    (hes : es.map Prod.fst = names) (hn : names.Nodup) :
    ∃ f, fields names (record es) = some f ∧ ∀ e ∈ es, f e.1 = e.2 := by
  subst hes
  have hone : ∀ n ∈ es.map Prod.fst,
      ((es.filterMap fun e => e.2.map (Prod.mk e.1)).filter fun e => e.1 == n).length ≤ 1 :=
    fun n _ => filter_record_length n hn
  exact ⟨_, if_pos hone, fun e he => lookup_record hn he⟩

/-! ## One field -/

@[simp] theorem required_some (v : Json) (read : Json → Option α) :
    required (some v) read = read v := by
  rw [required, Option.bind_some]

@[simp] theorem nullable_none (read : Json → Option α) : nullable none read = some none := rfl

@[simp] theorem defaulted_none (d : α) (read : Json → Option α) : defaulted none d read = some d :=
  rfl

@[simp] theorem defaulted_some (v : Json) (d : α) (read : Json → Option α) :
    defaulted (some v) d read = read v := rfl

/-- An optional field is read back when its value is, and is not written as `null`. -/
theorem nullable_map_eq_some {read : Json → Option α} {write : α → Json} {o : Option α} :
    nullable (o.map write) read = some o ↔ ∀ x ∈ o, write x ≠ null ∧ read (write x) = some x := by
  cases o with
  | none => simp [nullable]
  | some x =>
    rw [Option.map_some]
    generalize hw : write x = w
    simp only [Option.mem_some_iff, forall_eq', hw]
    cases w <;> simp [nullable]

/-- An array is read back when each of its items is. -/
theorem all_map_eq_some {read : Json → Option α} {write : α → Json} {xs : List α} :
    all read (array (xs.map write)) = some xs ↔ ∀ x ∈ xs, read (write x) = some x := by
  show (xs.map write).mapM read = some xs ↔ _
  induction xs with
  | nil => simp
  | cons x xs ih =>
    rw [List.map_cons, List.mapM_cons, List.forall_mem_cons, ← ih]
    cases read (write x) with
    | none => simp
    | some y =>
      cases (xs.map write).mapM read with
      | none => simp
      | some ys => simp

theorem read_of_mem_all {read : Json → Option α} {v : Json} {xs : List α} (h : all read v = some xs)
    {x : α} (hx : x ∈ xs) : ∃ v, read v = some x := by
  unfold all at h
  split at h
  · rename_i vs
    induction vs generalizing xs with
    | nil =>
      cases h
      cases hx
    | cons v vs ih =>
      rw [List.mapM_cons] at h
      obtain ⟨y, hy, h⟩ := Option.bind_eq_some_iff.mp h
      obtain ⟨ys, hys, h⟩ := Option.bind_eq_some_iff.mp h
      cases h
      rcases List.mem_cons.mp hx with rfl | hx
      · exact ⟨v, hy⟩
      · exact ih hx hys
  · cases h

end Json

end Lib
