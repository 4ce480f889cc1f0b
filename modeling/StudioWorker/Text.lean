import StudioWorker.Lib.Search
import StudioWorker.Lib.Trim

/-!
# Text — the string functions of the standard library

A string is the list of its characters.
-/

namespace StudioWorker

abbrev Text := List Char

namespace Text

open Lib.Search Lib.Trim

/-- `char::is_whitespace` -/
def isWhitespace (c : Char) : Bool :=
  let n := c.toNat
  (9 ≤ n && n ≤ 13) || n == 0x20 || n == 0x85 || n == 0xA0 || n == 0x1680 ||
    (0x2000 ≤ n && n ≤ 0x200A) || n == 0x2028 || n == 0x2029 || n == 0x202F || n == 0x205F ||
    n == 0x3000

def trimStart (t : Text) : Text := t.dropWhile isWhitespace

def trim (t : Text) : Text := Lib.Trim.trim isWhitespace t

def stripPrefix (pre t : Text) : Option Text :=
  if pre <+: t then some (t.drop pre.length) else none

def stripSuffix (suf t : Text) : Option Text :=
  if suf <:+ t then some (t.take (t.length - suf.length)) else none

/-- `str::rsplit_once`: what precedes the last `needle` and what follows it. -/
def rsplitOnce (needle t : Text) : Option (Text × Text) :=
  (splitOnce needle.reverse t.reverse).map fun ab => (ab.2.reverse, ab.1.reverse)

def trimStartMatchesFrom (pat : Text) : ℕ → Text → Text
  | 0, t => t
  | n + 1, t => if pat <+: t then trimStartMatchesFrom pat n (t.drop pat.length) else t

/-- `str::trim_start_matches` of a string that is not empty. -/
def trimStartMatches (pat t : Text) : Text := trimStartMatchesFrom pat t.length t

def eqIgnoreAsciiCase (s t : Text) : Bool := s.map Char.toLower == t.map Char.toLower

def splitWhitespace (t : Text) : List Text := (t.splitOnP isWhitespace).filter (· ≠ [])

def splitFrom (needle : Text) : ℕ → Text → List Text
  | 0, t => [t]
  | n + 1, t =>
    match splitOnce needle t with
    | some (a, b) => a :: splitFrom needle n b
    | none => [t]

/-- `str::split` at a needle that is not empty. -/
def split (needle t : Text) : List Text := splitFrom needle t.length t

/-- `str::as_bytes` -/
def bytes (t : Text) : List UInt8 := t.flatMap String.utf8EncodeChar

/-- `str::from_utf8` -/
def fromUtf8 (b : List UInt8) : Option Text := b.toByteArray.utf8Decode?.map Array.toList

/-! ## Prefixes -/

theorem stripPrefix_some {pre t rest : Text} :
    stripPrefix pre t = some rest ↔ t = pre ++ rest := by
  unfold stripPrefix
  constructor
  · intro h
    split_ifs at h with hp
    cases h
    obtain ⟨r, rfl⟩ := hp
    rw [List.drop_left]
  · rintro rfl
    rw [if_pos (List.prefix_append _ _), List.drop_left]

theorem stripPrefix_none {pre t : Text} : stripPrefix pre t = none ↔ ¬ pre <+: t := by
  unfold stripPrefix
  split_ifs with h
  · simp [h]
  · simp [h]

theorem stripSuffix_some {suf t rest : Text} :
    stripSuffix suf t = some rest ↔ t = rest ++ suf := by
  unfold stripSuffix
  constructor
  · intro h
    split_ifs at h with hs
    cases h
    obtain ⟨r, rfl⟩ := hs
    rw [List.length_append, Nat.add_sub_cancel, List.take_left]
  · rintro rfl
    rw [if_pos (List.suffix_append _ _), List.length_append, Nat.add_sub_cancel, List.take_left]

/-! ## The last occurrence of a character -/

theorem rsplitOnce_char_none {c : Char} {t : Text} : rsplitOnce [c] t = none ↔ c ∉ t := by
  have hsplit : splitOnce [c] t.reverse = none ↔ c ∉ t := by
    rw [splitOnce_singleton_none, List.mem_reverse]
  rw [rsplitOnce, Option.map_eq_none_iff]
  exact hsplit

theorem rsplitOnce_char_some {c : Char} {t a b : Text} :
    rsplitOnce [c] t = some (a, b) ↔ t = a ++ c :: b ∧ c ∉ b := by
  rw [rsplitOnce, Option.map_eq_some_iff]
  constructor
  · rintro ⟨⟨x, y⟩, hxy, heq⟩
    obtain ⟨rfl, rfl⟩ := Prod.mk.inj heq
    have hxy : splitOnce [c] t.reverse = some (x, y) := hxy
    obtain ⟨ht, hc⟩ := splitOnce_singleton_some.mp hxy
    refine ⟨?_, by simpa using hc⟩
    rw [← List.reverse_reverse t, ht]
    simp
  · rintro ⟨rfl, hc⟩
    refine ⟨(b.reverse, a.reverse), ?_, by simp⟩
    have hxy : splitOnce [c] (a ++ c :: b).reverse = some (b.reverse, a.reverse) :=
      splitOnce_singleton_some.mpr ⟨by simp, by simpa using hc⟩
    exact hxy

/-! ## Pieces -/

theorem splitFrom_singleton {c : Char} {n : ℕ} {t : Text} (h : t.length ≤ n) :
    splitFrom [c] n t = t.splitOn c := by
  induction n generalizing t with
  | zero =>
    obtain rfl := List.eq_nil_of_length_eq_zero (Nat.le_zero.mp h)
    exact (List.splitOn_nil c).symm
  | succ n ih =>
    rw [splitFrom]
    cases hsplit : splitOnce [c] t with
    | none => exact (List.splitOn_eq_singleton (splitOnce_singleton_none.mp hsplit)).symm
    | some ab =>
      obtain ⟨ht, hc⟩ := splitOnce_singleton_some.mp hsplit
      rw [ht, List.length_append, List.length_cons] at h
      rw [ht, List.splitOn_append_cons_self_of_not_mem hc, ← ih (by omega)]

/-- At one character, the pieces are those between its occurrences. -/
theorem split_singleton (c : Char) (t : Text) : split [c] t = t.splitOn c :=
  splitFrom_singleton le_rfl

/-! ## Case and bytes -/

/-- A character whose lower case is none of `t`'s is in no spelling of `t`. -/
theorem not_mem_of_eqIgnoreAsciiCase {s t : Text} (h : eqIgnoreAsciiCase s t = true) {c : Char}
    (hc : c.toLower ∉ t.map Char.toLower) : c ∉ s := fun hmem => by
  rw [eqIgnoreAsciiCase, beq_iff_eq] at h
  exact hc (h ▸ List.mem_map_of_mem hmem)

theorem bytes_injective {s t : Text} (h : bytes s = bytes t) : s = t := by
  have hencode : s.utf8Encode = t.utf8Encode := congrArg List.toByteArray h
  have hdecode := congrArg ByteArray.utf8Decode? hencode
  rw [List.utf8Decode?_utf8Encode, List.utf8Decode?_utf8Encode] at hdecode
  exact Array.toList_inj.mpr (Option.some.inj hdecode)

theorem fromUtf8_bytes (t : Text) : fromUtf8 (bytes t) = some t := by
  have hencode : (bytes t).toByteArray = t.utf8Encode := rfl
  rw [fromUtf8, hencode, List.utf8Decode?_utf8Encode, Option.map_some]

@[simp] theorem bytes_append (s t : Text) : bytes (s ++ t) = bytes s ++ bytes t :=
  List.flatMap_append

theorem length_le_bytes (t : Text) : t.length ≤ (bytes t).length := by
  induction t with
  | nil => exact Nat.le_refl 0
  | cons c t ih =>
    have hc : 0 < (String.utf8EncodeChar c).length := by
      unfold String.utf8EncodeChar
      dsimp only
      split_ifs <;> exact Nat.succ_pos _
    rw [show bytes (c :: t) = String.utf8EncodeChar c ++ bytes t from rfl, List.length_append,
      List.length_cons]
    omega

/-- An ASCII byte of a text is a character of it. -/
theorem mem_of_mem_bytes {c : Char} (hc : c.toNat < 128) {t : Text}
    (h : UInt8.ofNat c.toNat ∈ bytes t) : c ∈ t := by
  obtain ⟨d, hd, hmem⟩ := List.mem_flatMap.mp h
  have hval : c.toNat = d.toNat := by
    unfold String.utf8EncodeChar at hmem
    have hd' : d.toNat = d.val.toNat := rfl
    dsimp only at hmem
    split_ifs at hmem <;> simp only [List.mem_cons, List.not_mem_nil, or_false,
      ← UInt8.toNat_inj, UInt8.toNat_ofNat'] at hmem <;> omega
  rwa [Char.toNat_inj.mp hval]

/-! ## Repeated prefixes -/

theorem trimStartMatchesFrom_suffix (pat : Text) (n : ℕ) (t : Text) :
    trimStartMatchesFrom pat n t <:+ t := by
  induction n generalizing t with
  | zero => exact List.suffix_rfl
  | succ n ih =>
    rw [trimStartMatchesFrom]
    split_ifs
    · exact (ih _).trans (List.drop_suffix _ _)
    · exact List.suffix_rfl

/-- No prefix is left. -/
theorem trimStartMatchesFrom_not_prefix {pat : Text} (hpat : pat ≠ []) (n : ℕ) (t : Text)
    (h : t.length ≤ n) : ¬ pat <+: trimStartMatchesFrom pat n t := by
  induction n generalizing t with
  | zero =>
    have hnil : t = [] := List.eq_nil_of_length_eq_zero (Nat.le_zero.mp h)
    rw [trimStartMatchesFrom, hnil, List.prefix_nil]
    exact hpat
  | succ n ih =>
    rw [trimStartMatchesFrom]
    split_ifs with hp
    · have hpos : 0 < pat.length := List.length_pos_iff.mpr hpat
      refine ih _ ?_
      rw [List.length_drop]
      omega
    · exact hp

theorem trimStartMatches_not_prefix {pat : Text} (hpat : pat ≠ []) (t : Text) :
    ¬ pat <+: trimStartMatches pat t := trimStartMatchesFrom_not_prefix hpat _ t le_rfl

/-- One prefix at least goes. -/
theorem trimStartMatches_append_suffix {pat : Text} (hpat : pat ≠ []) (t : Text) :
    trimStartMatches pat (pat ++ t) <:+ t := by
  cases pat with
  | nil => exact absurd rfl hpat
  | cons c pat =>
    rw [trimStartMatches, List.cons_append, List.length_cons, trimStartMatchesFrom,
      ← List.cons_append, if_pos (List.prefix_append _ _), List.drop_left]
    exact trimStartMatchesFrom_suffix _ _ _

/-- A single prefix goes, and no more. -/
theorem trimStartMatches_append_of_not {pat t : Text} (hpat : pat ≠ []) (h : ¬ pat <+: t) :
    trimStartMatches pat (pat ++ t) = t := by
  have hstop : ∀ n, trimStartMatchesFrom pat n t = t := fun n => by
    cases n with
    | zero => rfl
    | succ n => rw [trimStartMatchesFrom, if_neg h]
  cases pat with
  | nil => exact absurd rfl hpat
  | cons c pat =>
    rw [trimStartMatches, List.cons_append, List.length_cons, trimStartMatchesFrom,
      ← List.cons_append, if_pos (List.prefix_append _ _), List.drop_left, hstop]

end Text

end StudioWorker
