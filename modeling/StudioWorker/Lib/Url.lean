import Mathlib.Data.List.Basic
import Mathlib.Data.List.GetD

/-!
# Lib.Url — percent-encoding and dot segments

* `percentEncode`: every byte that is not of an unreserved character, as `%XX`.
* `percentEncode_eq_self`: the texts it leaves alone.
* `removeDotSegments`: what URL parsers make of `.` and `..` in a path.
-/

namespace Lib.Url

/-- The characters that mean themselves everywhere in a URL. -/
def Unreserved (c : Char) : Prop := c.isAlphanum = true ∨ c ∈ ['-', '.', '_', '~']

instance : DecidablePred Unreserved := fun _ => inferInstanceAs (Decidable (_ ∨ _))

/-! ## Percent-encoding -/

def hexDigits : List Char :=
  ['0', '1', '2', '3', '4', '5', '6', '7', '8', '9', 'A', 'B', 'C', 'D', 'E', 'F']

def encodeByte (b : UInt8) : List Char :=
  if Unreserved (Char.ofNat b.toNat) then [Char.ofNat b.toNat]
  else ['%', hexDigits.getD (b.toNat / 16) '0', hexDigits.getD (b.toNat % 16) '0']

def encodeChar (c : Char) : List Char := (String.utf8EncodeChar c).flatMap encodeByte

def percentEncode (t : List Char) : List Char := t.flatMap encodeChar

/-- Unreserved characters are ASCII. -/
theorem unreserved_lt {c : Char} (h : Unreserved c) : c.toNat < 128 := by
  rcases h with h | h
  · have hval : c.val.toNat = c.toNat := rfl
    have hranges : ((c.val ≥ 'A'.val ∧ c.val ≤ 'Z'.val) || (c.val ≥ 'a'.val && c.val ≤ 'z'.val) ||
        (c.val ≥ '0'.val && c.val ≤ '9'.val)) = true := h
    simp only [ge_iff_le, UInt32.le_iff_toNat_le, Bool.or_eq_true, Bool.and_eq_true,
      decide_eq_true_eq, Char.reduceVal, UInt32.reduceToNat] at hranges
    omega
  · simp only [List.mem_cons, List.not_mem_nil, or_false] at h
    rcases h with rfl | rfl | rfl | rfl <;> decide

theorem hexDigit_unreserved (i : Nat) : Unreserved (hexDigits.getD i '0') := by
  have hall : ∀ c ∈ hexDigits, c.isAlphanum = true := List.all_eq_true.mp (by decide)
  by_cases hi : i < hexDigits.length
  · rw [List.getD_eq_getElem hexDigits '0' hi]
    exact .inl (hall _ (List.getElem_mem hi))
  · rw [List.getD_eq_default hexDigits '0' (Nat.le_of_not_lt hi)]
    exact .inl (by decide)

theorem encodeByte_of_unreserved {b : UInt8} (h : Unreserved (Char.ofNat b.toNat)) :
    encodeByte b = [Char.ofNat b.toNat] :=
  if_pos h

/-- Every other byte is written as three characters. -/
theorem encodeByte_length {b : UInt8} (h : ¬ Unreserved (Char.ofNat b.toNat)) :
    (encodeByte b).length = 3 := by
  rw [encodeByte, if_neg h]
  rfl

theorem encodeByte_mem {b : UInt8} {c : Char} (h : c ∈ encodeByte b) : Unreserved c ∨ c = '%' := by
  rw [encodeByte] at h
  split at h
  · rename_i hu
    exact .inl (List.mem_singleton.mp h ▸ hu)
  · simp only [List.mem_cons, List.not_mem_nil, or_false] at h
    rcases h with rfl | rfl | rfl
    · exact .inr rfl
    · exact .inl (hexDigit_unreserved _)
    · exact .inl (hexDigit_unreserved _)

/-- Every character that is written is unreserved, or the percent sign. -/
theorem of_mem_percentEncode {t : List Char} {c : Char} (h : c ∈ percentEncode t) :
    Unreserved c ∨ c = '%' := by
  obtain ⟨d, -, hd⟩ := List.mem_flatMap.mp h
  obtain ⟨b, -, hb⟩ := List.mem_flatMap.mp hd
  exact encodeByte_mem hb

/-- The one byte that an ASCII character is. -/
theorem ofNat_toNat_byte {c : Char} (h : c.toNat < 128) :
    Char.ofNat (UInt8.ofNat c.toNat).toNat = c := by
  rw [UInt8.toNat_ofNat', Nat.mod_eq_of_lt (by omega), Char.ofNat_toNat]

theorem encodeChar_of_unreserved {c : Char} (h : Unreserved c) : encodeChar c = [c] := by
  have hlt := unreserved_lt h
  have hbyte := ofNat_toNat_byte hlt
  have hbytes : String.utf8EncodeChar c = [UInt8.ofNat c.toNat] := by
    unfold String.utf8EncodeChar
    have hle : c.val.toNat ≤ 127 := by
      have hval : c.val.toNat = c.toNat := rfl
      omega
    exact if_pos hle
  rw [encodeChar, hbytes, List.flatMap_singleton, encodeByte_of_unreserved (by rwa [hbyte]), hbyte]

/-- A byte past ASCII is no character of its own. -/
theorem encodeByte_length_of_le {b : UInt8} (h : 128 ≤ b.toNat) : (encodeByte b).length = 3 := by
  apply encodeByte_length
  intro hu
  have hlt := unreserved_lt hu
  have hb := b.toNat_lt
  have hvalid : b.toNat.isValidChar := .inl (by omega)
  have hchar : (Char.ofNat b.toNat).toNat = b.toNat := by
    rw [Char.ofNat, dif_pos hvalid]
    rfl
  omega

theorem encodeChar_length {c : Char} (h : ¬ Unreserved c) : 3 ≤ (encodeChar c).length := by
  have hlead (b : UInt8) (bs : List UInt8) (hb : 128 ≤ b.toNat) :
      3 ≤ ((b :: bs).flatMap encodeByte).length := by
    rw [List.flatMap_cons, List.length_append, encodeByte_length_of_le hb]
    omega
  have hval : c.val.toNat = c.toNat := rfl
  unfold encodeChar String.utf8EncodeChar
  dsimp only
  split_ifs with h1
  · rw [List.flatMap_singleton, hval]
    have hbyte : ¬ Unreserved (Char.ofNat (UInt8.ofNat c.toNat).toNat) := by
      rwa [ofNat_toNat_byte (by omega)]
    exact Nat.le_of_eq (encodeByte_length hbyte).symm
  · refine hlead _ _ ?_
    rw [UInt8.toNat_ofNat']
    omega
  · refine hlead _ _ ?_
    rw [UInt8.toNat_ofNat']
    omega
  · refine hlead _ _ ?_
    rw [UInt8.toNat_ofNat']
    omega

theorem length_le_percentEncode (t : List Char) : t.length ≤ (percentEncode t).length := by
  induction t with
  | nil => exact Nat.le_refl 0
  | cons c t ih =>
    have hc : 1 ≤ (encodeChar c).length := by
      by_cases hu : Unreserved c
      · rw [encodeChar_of_unreserved hu]
        exact Nat.le_refl 1
      · exact Nat.le_trans (by omega) (encodeChar_length hu)
    rw [percentEncode, List.flatMap_cons, List.length_append, List.length_cons]
    rw [percentEncode] at ih
    omega

/-- Encoding leaves alone the texts of unreserved characters, and no others. -/
theorem percentEncode_eq_self {t : List Char} :
    percentEncode t = t ↔ ∀ c ∈ t, Unreserved c := by
  constructor
  · intro h c hc
    by_contra hu
    obtain ⟨a, b, rfl⟩ := List.append_of_mem hc
    have hlen := congrArg List.length h
    have ha := length_le_percentEncode a
    have hb := length_le_percentEncode b
    have h3 := encodeChar_length hu
    rw [percentEncode] at ha hb
    simp only [percentEncode, List.flatMap_append, List.flatMap_cons, List.length_append,
      List.length_cons] at hlen
    omega
  · intro h
    induction t with
    | nil => rfl
    | cons c t ih =>
      obtain ⟨hc, ht⟩ := List.forall_mem_cons.mp h
      rw [percentEncode, List.flatMap_cons, encodeChar_of_unreserved hc]
      exact congrArg (c :: ·) (ih ht)

/-! ## Paths -/

/-- `/a/b/c`. -/
def joinPath (segments : List (List Char)) : List Char := segments.flatMap ('/' :: ·)

def dot : List Char := ['.']
def dotDot : List Char := ['.', '.']

/-- Drop every `.`, and every `..` with the segment before it; `kept` are the segments kept so far,
the last one first.  A path that ends in either ends in an empty segment. -/
def removeDotSegmentsFrom : List (List Char) → List (List Char) → List (List Char)
  | kept, [] => kept.reverse
  | kept, seg :: rest =>
    let kept' := if seg = dot then kept else if seg = dotDot then kept.tail else seg :: kept
    if rest = [] ∧ (seg = dot ∨ seg = dotDot) then (kept'.reverse) ++ [[]]
    else removeDotSegmentsFrom kept' rest

def removeDotSegments (segments : List (List Char)) : List (List Char) :=
  removeDotSegmentsFrom [] segments

theorem removeDotSegmentsFrom_of_plain {kept segments : List (List Char)}
    (h : ∀ seg ∈ segments, seg ≠ dot ∧ seg ≠ dotDot) :
    removeDotSegmentsFrom kept segments = kept.reverse ++ segments := by
  induction segments generalizing kept with
  | nil => rw [removeDotSegmentsFrom, List.append_nil]
  | cons seg rest ih =>
    obtain ⟨⟨h1, h2⟩, hrest⟩ := List.forall_mem_cons.mp h
    have hend : ¬(rest = [] ∧ (seg = dot ∨ seg = dotDot)) := by
      rintro ⟨-, hd | hd⟩
      · exact h1 hd
      · exact h2 hd
    rw [removeDotSegmentsFrom, if_neg h1, if_neg h2, if_neg hend, ih hrest, List.reverse_cons, List.append_assoc, List.singleton_append]

/-- A path without dot segments is left as it is. -/
theorem removeDotSegments_of_plain {segments : List (List Char)}
    (h : ∀ seg ∈ segments, seg ≠ dot ∧ seg ≠ dotDot) : removeDotSegments segments = segments :=
  removeDotSegmentsFrom_of_plain h

/-- The path with its dot segments removed. -/
def resolve (path : List Char) : List Char :=
  joinPath (removeDotSegments (path.tail.splitOn '/'))

theorem joinPath_eq_intercalate {segments : List (List Char)} (h : segments ≠ []) :
    joinPath segments = '/' :: ['/'].intercalate segments := by
  induction segments with
  | nil => exact absurd rfl h
  | cons seg rest ih =>
    cases rest with
    | nil => simp [joinPath]
    | cons seg' rest =>
      have ih := ih (List.cons_ne_nil _ _)
      rw [joinPath] at ih ⊢
      rw [List.flatMap_cons, ih]
      simp [List.intercalate]

theorem resolve_joinPath {segments : List (List Char)} (hne : segments ≠ [])
    (h : ∀ seg ∈ segments, '/' ∉ seg) :
    resolve (joinPath segments) = joinPath (removeDotSegments segments) := by
  rw [resolve, joinPath_eq_intercalate hne, List.tail_cons, List.splitOn_intercalate '/' h hne]

end Lib.Url
