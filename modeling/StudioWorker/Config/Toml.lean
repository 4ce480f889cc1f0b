import StudioWorker.Config.Model

/-!
# Config.Toml — the document a config file holds

The `toml` crate writes and re-reads a document exactly, so a file is the document it stands for.
A record is written field by field, an absent optional field not at all, and an integer above
`i64::MAX` not at all; it is read back key by key, a missing key by its default.
-/

namespace StudioWorker

inductive TomlValue where
  | string (value : String)
  | boolean (value : Bool)
  | integer (value : ℤ)
  | float (value : F32)
deriving DecidableEq

/-- A table: its keys with their values, in order. -/
abbrev TomlDoc := List (String × TomlValue)

namespace TomlDoc

/-! ## Writing -/

/-- The field `key`, left out when it has no value. -/
def entry (key : String) : Option TomlValue → TomlDoc
  | some value => [(key, value)]
  | none => []

/-- The fields of a record, in order. -/
def entries (fields : List (String × Option TomlValue)) : TomlDoc :=
  fields.flatMap fun field => entry field.1 field.2

/-- An unsigned integer, refused above `i64::MAX`. -/
def unsigned (n : ℕ) : Option TomlValue :=
  if n < 2 ^ 63 then some (.integer n) else none

/-! ## Reading -/

def asString : TomlValue → Option String
  | .string value => some value
  | _ => none

def asBool : TomlValue → Option Bool
  | .boolean value => some value
  | _ => none

/-- `f32` accepts an integer as well. -/
def asF32 : TomlValue → Option F32
  | .float value => some value
  | .integer value => some (.finite value)
  | _ => none

/-- An unsigned integer below `bound`. -/
def asUnsigned (bound : ℕ) : TomlValue → Option ℕ
  | .integer value => if 0 ≤ value ∧ value < bound then some value.toNat else none
  | _ => none

def asU16 (v : TomlValue) : Option UInt16 := (asUnsigned (2 ^ 16) v).map UInt16.ofNat
def asU32 (v : TomlValue) : Option UInt32 := (asUnsigned (2 ^ 32) v).map UInt32.ofNat
def asU64 (v : TomlValue) : Option UInt64 := (asUnsigned (2 ^ 64) v).map UInt64.ofNat

variable {α : Type} (read : TomlValue → Option α)

/-- A field the record cannot do without. -/
def required (value : Option TomlValue) : Option α := value.bind read

/-- `#[serde(default = ..)]` -/
def defaulted (default : α) : Option TomlValue → Option α
  | some value => read value
  | none => some default

/-- An `Option` field. -/
def absentOk : Option TomlValue → Option (Option α)
  | some value => (read value).map some
  | none => some none

variable {read}

/-! ## Reading what was written -/

/-- A key is looked up in the fields of a record one by one. -/
theorem lookup_entries_cons (k key : String) (value : Option TomlValue)
    (fields : List (String × Option TomlValue)) :
    (entries ((key, value) :: fields)).lookup k =
      if k = key then value.or ((entries fields).lookup k) else (entries fields).lookup k := by
  have hcons : entries ((key, value) :: fields) = entry key value ++ entries fields := rfl
  rw [hcons]
  cases value with
  | none => simp [entry]
  | some v =>
    by_cases h : k = key
    · subst h
      simp [entry]
    · have hne : (k == key) = false := by simpa using h
      simp [entry, List.lookup_cons, hne, h]

theorem lookup_entries_nil (k : String) : (entries []).lookup k = none := rfl

theorem asUnsigned_integer {bound n : ℕ} (h : n < bound) :
    asUnsigned bound (.integer n) = some n := by
  simp only [asUnsigned]
  rw [if_pos ⟨Int.natCast_nonneg n, by exact_mod_cast h⟩]
  rfl

theorem asU16_integer (n : UInt16) : asU16 (.integer n.toNat) = some n := by
  rw [asU16, asUnsigned_integer n.toNat_lt, Option.map_some, UInt16.ofNat_toNat]

theorem asU32_integer (n : UInt32) : asU32 (.integer n.toNat) = some n := by
  rw [asU32, asUnsigned_integer n.toNat_lt, Option.map_some, UInt32.ofNat_toNat]

theorem asU64_integer (n : UInt64) : asU64 (.integer n.toNat) = some n := by
  rw [asU64, asUnsigned_integer n.toNat_lt, Option.map_some, UInt64.ofNat_toNat]

/-- An optional field is read back as it was, when its values are. -/
theorem absentOk_map {write : α → TomlValue} (h : ∀ a, read (write a) = some a) (o : Option α) :
    absentOk read (o.map write) = some o := by
  cases o with
  | none => rfl
  | some a =>
    show (read (write a)).map some = _
    rw [h]
    rfl

end TomlDoc

end StudioWorker
