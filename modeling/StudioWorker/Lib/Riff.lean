import Mathlib.Data.List.Basic
import Mathlib.Algebra.Order.Group.Nat

/-!
# Lib.Riff — a run of tagged, sized chunks

A chunk is a tag of four bytes, a little-endian size of four, and a body padded to an even size.
`chunks` reads them off a byte list to its end; the last may be cut short.
-/

namespace Lib.Riff

abbrev Bytes := List UInt8

/-- The little-endian value of all the bytes. -/
def le : Bytes → ℕ
  | [] => 0
  | b :: rest => b.toNat + 256 * le rest

theorem le_lt (bytes : Bytes) : le bytes < 256 ^ bytes.length := by
  induction bytes with
  | nil => exact Nat.one_pos
  | cons b rest ih =>
    have hb : b.toNat < 256 := b.toNat_lt
    rw [le, List.length_cons, Nat.pow_succ']
    omega

/-- The value of `n` bytes from place `i` on, if they are there. -/
def field (n : ℕ) (bytes : Bytes) (i : ℕ) : Option ℕ :=
  if i + n ≤ bytes.length then some (le ((bytes.drop i).take n)) else none

theorem field_drop (n : ℕ) {bytes : Bytes} {start : ℕ} (h : start ≤ bytes.length) (i : ℕ) :
    field n (bytes.drop start) i = field n bytes (start + i) := by
  have hiff : i + n ≤ (bytes.drop start).length ↔ start + i + n ≤ bytes.length := by
    rw [List.length_drop]
    omega
  rw [field, field, List.drop_drop]
  simp only [hiff]

theorem length_of_field {n i v : ℕ} {bytes : Bytes} (h : field n bytes i = some v) :
    i + n ≤ bytes.length := by
  rw [field] at h
  by_contra hshort
  rw [if_neg hshort] at h
  cases h

/-- Bytes behind the field do not count. -/
theorem field_take {n i size : ℕ} (h : i + n ≤ size) (bytes : Bytes) :
    field n (bytes.take size) i = field n bytes i := by
  have hiff : i + n ≤ (bytes.take size).length ↔ i + n ≤ bytes.length := by
    rw [List.length_take]
    omega
  have hsame : ((bytes.take size).drop i).take n = (bytes.drop i).take n := by
    rw [List.drop_take, List.take_take, Nat.min_eq_left (by omega)]
  rw [field, field, hsame]
  simp only [hiff]

/-- A size, padded to be even. -/
def padded (size : ℕ) : ℕ := size + size % 2

/-- A chunk: what its header says, and everything behind that header. -/
structure Chunk where
  tag : Bytes
  size : ℕ
  behind : Bytes
deriving DecidableEq, Repr

namespace Chunk

/-- The chunk's own bytes, as far as they are there. -/
def body (c : Chunk) : Bytes := c.behind.take c.size

/-- All of the body is there. -/
def Whole (c : Chunk) : Prop := c.size ≤ c.behind.length

/-- What comes after the padded body. -/
def rest (c : Chunk) : Bytes := c.behind.drop (padded c.size)

end Chunk

/-- The chunk a header starts. -/
def firstChunk (bytes : Bytes) : Chunk :=
  ⟨bytes.take 4, le ((bytes.drop 4).take 4), bytes.drop 8⟩

/-- The chunks to the end of the bytes. -/
def chunks (bytes : Bytes) : List Chunk :=
  if bytes.length < 8 then [] else firstChunk bytes :: chunks (firstChunk bytes).rest
termination_by bytes.length
decreasing_by
  rw [Chunk.rest, firstChunk, List.length_drop, List.length_drop]
  omega

theorem chunks_of_short {bytes : Bytes} (h : bytes.length < 8) : chunks bytes = [] := by
  rw [chunks, if_pos h]

theorem chunks_of_long {bytes : Bytes} (h : 8 ≤ bytes.length) :
    chunks bytes = firstChunk bytes :: chunks (firstChunk bytes).rest := by
  rw [chunks, if_neg (by omega)]

/-- Read off a header and what is behind it. -/
theorem chunks_append {tag size : Bytes} (htag : tag.length = 4) (hsize : size.length = 4)
    (behind : Bytes) :
    chunks (tag ++ (size ++ behind)) =
      ⟨tag, le size, behind⟩ :: chunks (behind.drop (padded (le size))) := by
  have hfirst : firstChunk (tag ++ (size ++ behind)) = ⟨tag, le size, behind⟩ := by
    have hbehind : (tag ++ (size ++ behind)).drop 8 = behind := by
      rw [← List.append_assoc]
      exact List.drop_left' (by rw [List.length_append, htag, hsize])
    rw [firstChunk, List.take_left' htag, List.drop_left' htag, List.take_left' hsize, hbehind]
  rw [chunks_of_long (by simp only [List.length_append]; omega), hfirst]
  rfl

/-- Only the last chunk can be cut short. -/
theorem whole_of_mem_chunks (bytes : Bytes) :
    ∀ before c after, chunks bytes = before ++ c :: after → after ≠ [] → c.Whole := by
  induction bytes using chunks.induct with
  | case1 bytes hshort =>
    intro before c after h
    rw [chunks_of_short hshort] at h
    simp at h
  | case2 bytes hlong ih =>
    intro before c after h hafter
    rw [chunks_of_long (by omega)] at h
    rcases before with - | ⟨first, before⟩
    · obtain ⟨rfl, hrest⟩ := List.cons.inj h
      by_contra hcut
      have hempty : (firstChunk bytes).rest = [] := by
        rw [Chunk.Whole] at hcut
        rw [Chunk.rest, padded]
        exact List.drop_eq_nil_of_le (by omega)
      rw [hempty, chunks_of_short (by decide)] at hrest
      exact hafter hrest.symm
    · exact ih before c after (List.cons.inj h).2 hafter

/-- The last chunk with a tag. -/
def lastOf (tag : Bytes) (cs : List Chunk) : Option Chunk := (cs.filter (·.tag == tag)).getLast?

theorem lastOf_cons (tag : Bytes) (c : Chunk) (cs : List Chunk) :
    lastOf tag (c :: cs) =
      (lastOf tag cs).or (if c.tag == tag then some c else none) := by
  rw [lastOf, lastOf, List.filter_cons]
  split_ifs with h
  · rw [List.getLast?_cons]
    cases (cs.filter (·.tag == tag)).getLast? <;> rfl
  · rw [Option.or_none]

/-- All chunks with a tag are whole when the last of them is. -/
theorem forall_whole_iff (tag bytes : Bytes) :
    (∀ c ∈ chunks bytes, c.tag = tag → c.Whole) ↔
      ∀ c, lastOf tag (chunks bytes) = some c → c.Whole := by
  constructor
  · intro h c hc
    obtain ⟨hmem, htag⟩ := List.mem_filter.mp (List.mem_of_getLast? hc)
    exact h c hmem (eq_of_beq htag)
  · intro h c hc htag
    obtain ⟨before, after, hsplit⟩ := List.append_of_mem hc
    by_cases hafter : after = []
    · refine h c ?_
      rw [lastOf, hsplit, hafter, List.filter_append, List.filter_cons,
        if_pos (beq_iff_eq.mpr htag), List.filter_nil, List.getLast?_concat]
    · exact whole_of_mem_chunks bytes before c after hsplit hafter

end Lib.Riff
