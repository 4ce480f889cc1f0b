import Mathlib.Data.String.Basic
import StudioWorker.Lib.Json
import StudioWorker.Lib.Sorted

/-!
# Lib.Values — documents as they are held in memory

A document that is read without a type is held with every object in the order of its names; of a
name given twice the last one counts.  Records that are read from it may refuse unknown names.

* `held`: the document in memory.
* `Orderly`: every object within is in order (`held_orderly`).
-/

namespace Lib.Json

variable {α : Type*}

/-! ## Held in memory -/

mutual

/-- `none`: one of its numbers is out of range. -/
def held (inRange : Number → Bool) : Json → Option Json
  | number n => if inRange n then some (number n) else none
  | array vs => (heldAll inRange vs).map array
  | object entries => (heldFields inRange entries).map fun es => object (Entries.gather es)
  | v => some v

def heldAll (inRange : Number → Bool) : List Json → Option (List Json)
  | [] => some []
  | v :: vs => (held inRange v).bind fun w => (heldAll inRange vs).map (w :: ·)

def heldFields (inRange : Number → Bool) :
    List (String × Json) → Option (List (String × Json))
  | [] => some []
  | (n, v) :: es => (held inRange v).bind fun w => (heldFields inRange es).map ((n, w) :: ·)

end

/-- Every object within is in the order of its names. -/
inductive Orderly : Json → Prop
  | null : Orderly null
  | bool (b : Bool) : Orderly (bool b)
  | number (n : Number) : Orderly (number n)
  | string (s : String) : Orderly (string s)
  | array {vs : List Json} (h : ∀ v ∈ vs, Orderly v) : Orderly (array vs)
  | object {es : Entries String Json} (hs : es.Sorted) (h : ∀ p ∈ es, Orderly p.2) :
    Orderly (object es)

theorem Orderly.sorted {es : Entries String Json} (h : Orderly (.object es)) : es.Sorted := by
  cases h with
  | object hs h => exact hs

theorem mem_of_get {es : Entries String α} {n : String} {v : α} (h : es.get n = some v) :
    (n, v) ∈ es := by
  induction es with
  | nil => cases h
  | cons p es ih =>
    rw [Entries.get_cons] at h
    split_ifs at h with hn
    · obtain rfl := Option.some.inj h
      rw [hn]
      exact List.mem_cons_self
    · exact List.mem_cons_of_mem p (ih h)

theorem Orderly.of_get {es : Entries String Json} (h : Orderly (.object es)) {n : String} {v : Json}
    (hv : es.get n = some v) : Orderly v := by
  cases h with
  | object hs h => exact h (n, v) (mem_of_get hv)

mutual

/-- A document that is held is in order. -/
theorem held_orderly {inRange : Number → Bool} : ∀ {v w : Json}, held inRange v = some w → Orderly w
  | null, w, h => by
    obtain rfl := Option.some.inj h
    exact Orderly.null
  | bool b, w, h => by
    obtain rfl := Option.some.inj h
    exact Orderly.bool b
  | string s, w, h => by
    obtain rfl := Option.some.inj h
    exact Orderly.string s
  | number n, w, h => by
    rw [held] at h
    split_ifs at h
    obtain rfl := Option.some.inj h
    exact Orderly.number n
  | array vs, w, h => by
    rw [held] at h
    obtain ⟨ws, hws, rfl⟩ := Option.map_eq_some_iff.mp h
    exact Orderly.array (heldAll_orderly hws)
  | object es, w, h => by
    rw [held] at h
    obtain ⟨fs, hfs, rfl⟩ := Option.map_eq_some_iff.mp h
    exact Orderly.object (Entries.gather_sorted fs) fun p hp =>
      heldFields_orderly hfs p (Entries.of_mem_gather hp)

theorem heldAll_orderly {inRange : Number → Bool} :
    ∀ {vs ws : List Json}, heldAll inRange vs = some ws → ∀ w ∈ ws, Orderly w
  | [], ws, h => by
    obtain rfl := Option.some.inj h
    exact fun w hw => absurd hw List.not_mem_nil
  | v :: vs, ws, h => by
    rw [heldAll] at h
    obtain ⟨x, hx, h⟩ := Option.bind_eq_some_iff.mp h
    obtain ⟨xs, hxs, rfl⟩ := Option.map_eq_some_iff.mp h
    exact List.forall_mem_cons.mpr ⟨held_orderly hx, heldAll_orderly hxs⟩

theorem heldFields_orderly {inRange : Number → Bool} :
    ∀ {es fs : List (String × Json)}, heldFields inRange es = some fs → ∀ p ∈ fs, Orderly p.2
  | [], fs, h => by
    obtain rfl := Option.some.inj h
    exact fun p hp => absurd hp List.not_mem_nil
  | (n, v) :: es, fs, h => by
    rw [heldFields] at h
    obtain ⟨x, hx, h⟩ := Option.bind_eq_some_iff.mp h
    obtain ⟨xs, hxs, rfl⟩ := Option.map_eq_some_iff.mp h
    exact List.forall_mem_cons.mpr ⟨held_orderly hx, heldFields_orderly hxs⟩

end

/-! ## Records and maps -/

/-- The fields of a record that refuses unknown names. -/
def fieldsOnly (names : List String) : Json → Option (String → Option Json)
  | object entries =>
    if ∀ e ∈ entries, e.1 ∈ names then fields names (object entries) else none
  | v => fields names v

/-- An object whose names are data. -/
def map (read : Json → Option α) : Json → Option (Entries String α)
  | object entries =>
    (entries.mapM fun e => (read e.2).map (Prod.mk e.1)).map Entries.gather
  | _ => none

theorem get_of_fieldsOnly {names : List String} {es : Entries String Json}
    {f : String → Option Json} (h : fieldsOnly names (object es) = some f) : f = es.get := by
  rw [fieldsOnly] at h
  split_ifs at h
  rw [fields] at h
  split_ifs at h
  exact (Option.some.inj h).symm

theorem get_of_fieldsOnly_array {names : List String} {vs : List Json} {f : String → Option Json}
    (h : fieldsOnly names (array vs) = some f) : f = fun n => vs[names.idxOf n]? := by
  rw [fieldsOnly, fields] at h
  · split_ifs at h
    exact (Option.some.inj h).symm
  · intro es hes
    cases hes

theorem names_of_mapM {read : Json → Option α} {es : List (String × Json)}
    {fs : List (String × α)} (h : es.mapM (fun e => (read e.2).map (Prod.mk e.1)) = some fs) :
    fs.map (·.1) = es.map (·.1) := by
  induction es generalizing fs with
  | nil =>
    obtain rfl := Option.some.inj h
    rfl
  | cons e es ih =>
    rw [List.mapM_cons] at h
    obtain ⟨p, hp, h⟩ := Option.bind_eq_some_iff.mp h
    obtain ⟨ps, hps, h⟩ := Option.bind_eq_some_iff.mp h
    obtain rfl := Option.some.inj h
    obtain ⟨a, -, rfl⟩ := Option.map_eq_some_iff.mp hp
    rw [List.map_cons, List.map_cons, ih hps]

theorem get_of_mapM {read : Json → Option α} {es : List (String × Json)} {fs : List (String × α)}
    (h : es.mapM (fun e => (read e.2).map (Prod.mk e.1)) = some fs) (n : String) :
    Entries.get fs n = (Entries.get es n).bind read := by
  induction es generalizing fs with
  | nil =>
    obtain rfl := Option.some.inj h
    rfl
  | cons e es ih =>
    rw [List.mapM_cons] at h
    obtain ⟨p, hp, h⟩ := Option.bind_eq_some_iff.mp h
    obtain ⟨ps, hps, h⟩ := Option.bind_eq_some_iff.mp h
    obtain rfl := Option.some.inj h
    obtain ⟨a, ha, rfl⟩ := Option.map_eq_some_iff.mp hp
    rw [Entries.get_cons, Entries.get_cons, ih hps]
    by_cases hn : n = e.1
    · rw [if_pos hn, if_pos hn, Option.bind_some, ha]
    · rw [if_neg hn, if_neg hn]

/-- A map leads where the object it is read from does. -/
theorem get_of_map {read : Json → Option α} {es : Entries String Json} {m : Entries String α}
    (h : map read (object es) = some m) (hes : (es.map (·.1)).Nodup) (n : String) :
    m.get n = (es.get n).bind read := by
  obtain ⟨fs, hfs, rfl⟩ := Option.map_eq_some_iff.mp h
  rw [Entries.get_gather (by rw [names_of_mapM hfs]; exact hes), get_of_mapM hfs]

theorem sorted_of_map {read : Json → Option α} {v : Json} {m : Entries String α}
    (h : map read v = some m) : m.Sorted := by
  cases v with
  | object es =>
    obtain ⟨fs, -, rfl⟩ := Option.map_eq_some_iff.mp h
    exact Entries.gather_sorted fs
  | _ => cases h

/-- A map has the names of the object it is read from. -/
theorem names_of_map {read : Json → Option α} {v : Json} {m : Entries String α}
    (h : map read v = some m) :
    ∃ es, v = object es ∧ ∀ n, n ∈ m.map (·.1) ↔ n ∈ es.map (·.1) := by
  cases v with
  | object es =>
    obtain ⟨fs, hfs, rfl⟩ := Option.map_eq_some_iff.mp h
    refine ⟨es, rfl, fun n => ?_⟩
    rw [Entries.mem_gather, names_of_mapM hfs]
  | _ => cases h

end Lib.Json
