import Mathlib.Data.List.Induction
import Mathlib.Algebra.Ring.Nat
import StudioWorker.Lib.Riff

/-!
# Lib.Container — sized, typed chunks, and pieces laid into a buffer

A chunk is a size of four bytes, a kind of four, and so many bytes.  A buffer is filled piece by
piece, with something after each piece that brings the next one to its place.

* `leBytes`: a number as so many little-endian bytes.
* `readChunks_write`: chunks are read back off a file to its end.
* `lay`: the buffer, and where each piece begins; `lay_reads`, `lay_apart`.
-/

namespace Lib.Container

open Riff (Bytes le)

/-! ## Numbers -/

/-- The number's low `n` bytes, the lowest first. -/
def leBytes : ℕ → ℕ → Bytes
  | 0, _ => []
  | n + 1, v => UInt8.ofNat (v % 256) :: leBytes n (v / 256)

@[simp] theorem length_leBytes (n v : ℕ) : (leBytes n v).length = n := by
  induction n generalizing v with
  | zero => rfl
  | succ n ih => rw [leBytes, List.length_cons, ih]

theorem le_leBytes (n v : ℕ) : le (leBytes n v) = v % 256 ^ n := by
  induction n generalizing v with
  | zero => simp [leBytes, le, Nat.mod_one]
  | succ n ih =>
    have hbyte : (UInt8.ofNat (v % 256)).toNat = v % 256 := by
      rw [UInt8.toNat_ofNat']
      exact Nat.mod_eq_of_lt (Nat.mod_lt v (by decide))
    rw [leBytes, le, ih, hbyte, pow_succ', Nat.mod_mul]

theorem le_leBytes_of_lt {n v : ℕ} (h : v < 256 ^ n) : le (leBytes n v) = v := by
  rw [le_leBytes, Nat.mod_eq_of_lt h]

theorem leBytes_mod (n v : ℕ) : leBytes n (v % 256 ^ n) = leBytes n v := by
  induction n generalizing v with
  | zero => rfl
  | succ n ih =>
    have hlow : v % 256 ^ (n + 1) % 256 = v % 256 :=
      Nat.mod_mod_of_dvd v ⟨256 ^ n, pow_succ' 256 n⟩
    have hhigh : v % 256 ^ (n + 1) / 256 = v / 256 % 256 ^ n := by
      rw [pow_succ', Nat.mod_mul_right_div_self]
    rw [leBytes, leBytes, hlow, hhigh, ih]

/-! ## Chunks -/

structure Chunk where
  kind : ℕ
  data : Bytes
deriving DecidableEq

def Chunk.write (c : Chunk) : Bytes := leBytes 4 c.data.length ++ leBytes 4 c.kind ++ c.data

/-- The chunks to the end of the bytes, if the last of them ends there. -/
def readChunks (bytes : Bytes) : Option (List Chunk) :=
  if bytes.length = 0 then some []
  else if bytes.length < 8 then none
  else
    let size := le (bytes.take 4)
    let kind := le ((bytes.drop 4).take 4)
    if bytes.length < 8 + size then none
    else (readChunks (bytes.drop (8 + size))).map (⟨kind, (bytes.drop 8).take size⟩ :: ·)
termination_by bytes.length
decreasing_by
  rw [List.length_drop]
  omega

theorem readChunks_append {c : Chunk} {rest : Bytes} (hsize : c.data.length < 256 ^ 4)
    (hkind : c.kind < 256 ^ 4) :
    readChunks (c.write ++ rest) = (readChunks rest).map (c :: ·) := by
  have hlength : (c.write ++ rest).length = 8 + c.data.length + rest.length := by
    simp only [Chunk.write, List.length_append, length_leBytes]
  have hbytes : c.write ++ rest =
      leBytes 4 c.data.length ++ (leBytes 4 c.kind ++ (c.data ++ rest)) := by
    rw [Chunk.write, List.append_assoc, List.append_assoc]
  have htake : (c.write ++ rest).take 4 = leBytes 4 c.data.length := by
    rw [hbytes, List.take_left' (length_leBytes 4 _)]
  have hdrop : (c.write ++ rest).drop 4 = leBytes 4 c.kind ++ (c.data ++ rest) := by
    rw [hbytes, List.drop_left' (length_leBytes 4 _)]
  have hbody : (c.write ++ rest).drop 8 = c.data ++ rest := by
    rw [show 8 = 4 + 4 from rfl, ← List.drop_drop, hdrop, List.drop_left' (length_leBytes 4 _)]
  rw [readChunks, if_neg (by omega), if_neg (by omega), htake, hdrop, hbody,
    List.take_left' (length_leBytes 4 _), le_leBytes_of_lt hsize, le_leBytes_of_lt hkind,
    if_neg (by omega), List.take_left' rfl, ← List.drop_drop, hbody, List.drop_left' rfl]

theorem readChunks_write {cs : List Chunk}
    (h : ∀ c ∈ cs, c.data.length < 256 ^ 4 ∧ c.kind < 256 ^ 4) :
    readChunks (cs.flatMap Chunk.write) = some cs := by
  induction cs with
  | nil =>
    rw [readChunks]
    rfl
  | cons c cs ih =>
    obtain ⟨hc, hcs⟩ := List.forall_mem_cons.mp h
    rw [List.flatMap_cons, readChunks_append hc.1 hc.2, ih hcs]
    rfl

/-! ## Pieces -/

section Pieces

variable {α : Type*} (pad : List α → List α)

/-- One more piece; where it begins is noted. -/
def put (laid : List α × List ℕ) (piece : List α) : List α × List ℕ :=
  (pad (laid.1 ++ piece), laid.2 ++ [laid.1.length])

def lay (pieces : List (List α)) : List α × List ℕ := pieces.foldl (put pad) ([], [])

theorem lay_concat (pieces : List (List α)) (piece : List α) :
    lay pad (pieces ++ [piece]) = put pad (lay pad pieces) piece := by
  rw [lay, List.foldl_append]
  rfl

theorem length_lay (pieces : List (List α)) : (lay pad pieces).2.length = pieces.length := by
  induction pieces using List.reverseRecOn with
  | nil => rfl
  | append_singleton pieces piece ih =>
    rw [lay_concat, put, List.length_append, ih, List.length_append]
    rfl

variable {pad}

/-- Each piece is where it was noted, whatever is put behind it. -/
theorem lay_reads (hpad : ∀ l, l <+: pad l) {pieces : List (List α)} {k : ℕ} {piece : List α}
    (h : pieces[k]? = some piece) :
    ∃ start, (lay pad pieces).2[k]? = some start ∧
      start + piece.length ≤ (lay pad pieces).1.length ∧
      ((lay pad pieces).1.drop start).take piece.length = piece := by
  induction pieces using List.reverseRecOn with
  | nil => simp at h
  | append_singleton pieces last ih =>
    have hlength := length_lay pad pieces
    rw [lay_concat, put]
    obtain ⟨fill, hfill⟩ := hpad ((lay pad pieces).1 ++ last)
    rcases Nat.lt_or_ge k pieces.length with hk | hk
    · rw [List.getElem?_append_left hk] at h
      obtain ⟨start, hstart, hle, hread⟩ := ih h
      refine ⟨start, ?_, ?_, ?_⟩
      · rw [List.getElem?_append_left (by omega), hstart]
      · rw [← hfill, List.length_append, List.length_append]
        omega
      · have htake : piece.length ≤ ((lay pad pieces).1.drop start).length := by
          rw [List.length_drop]
          omega
        rw [← hfill, List.append_assoc, List.drop_append_of_le_length (by omega),
          List.take_append_of_le_length htake, hread]
    · have hkl : k = pieces.length := by
        have := (List.getElem?_eq_some_iff.mp h).1
        rw [List.length_append, List.length_singleton] at this
        omega
      subst hkl
      rw [List.getElem?_concat_length, Option.some.injEq] at h
      subst h
      refine ⟨(lay pad pieces).1.length, ?_, ?_, ?_⟩
      · rw [← hlength, List.getElem?_concat_length]
      · rw [← hfill, List.length_append, List.length_append]
        omega
      · rw [← hfill, List.append_assoc, List.drop_left' rfl, List.take_left' rfl]

/-- A piece begins where nothing has been put yet, or where the padding ends. -/
theorem lay_starts {P : ℕ → Prop} (hzero : P 0) (hpad : ∀ l, P (pad l).length)
    (pieces : List (List α)) :
    (∀ start ∈ (lay pad pieces).2, P start) ∧ P (lay pad pieces).1.length := by
  induction pieces using List.reverseRecOn with
  | nil => exact ⟨fun start h => (by cases h), hzero⟩
  | append_singleton pieces last ih =>
    rw [lay_concat, put]
    refine ⟨fun start h => ?_, hpad _⟩
    rcases List.mem_append.mp h with h | h
    · exact ih.1 start h
    · exact List.mem_singleton.mp h ▸ ih.2

/-- Of two pieces the earlier ends before the later begins. -/
theorem lay_apart (hpad : ∀ l, l <+: pad l) (pieces : List (List α)) :
    ((lay pad pieces).2.zip pieces).Pairwise fun a b => a.1 + a.2.length ≤ b.1 := by
  induction pieces using List.reverseRecOn with
  | nil => exact List.Pairwise.nil
  | append_singleton pieces last ih =>
    rw [lay_concat, put, List.zip_append (length_lay pad pieces)]
    refine List.pairwise_append.mpr ⟨ih, List.pairwise_singleton _ _, fun a ha b hb => ?_⟩
    obtain rfl := List.mem_singleton.mp hb
    obtain ⟨k, hk, rfl⟩ := List.getElem_of_mem ha
    have hpiece := List.getElem?_eq_getElem hk
    obtain ⟨hstart, hpiece⟩ := List.getElem?_zip_eq_some.mp hpiece
    obtain ⟨start, hs, hle, -⟩ := lay_reads hpad hpiece
    rw [hstart, Option.some.injEq] at hs
    exact hs ▸ hle

end Pieces

end Lib.Container
