import Mathlib.Algebra.Order.Ring.Rat
import Mathlib.Algebra.GroupWithZero.Nat
import StudioWorker.Lib.Fallible
import StudioWorker.Lib.Riff
import StudioWorker.Text

/-!
# VoiceSamples.Wav — whether a take's bytes are its audio (`src/voice_samples/take.rs`)

A `usize` is 64 bits, every sum is checked, and a slice no longer than a slice can be; `none` is a
panic.  Seconds are exact; how one is shown with some decimals is a parameter.

* `checkWav`: as in the source.
* `IsTake`: the audio a take is, of the file's chunks; one that comes again replaces the one before.
* `checkWav_exact_iff`: the check never panics, and it accepts the takes alone exactly where the
  bytes it reads as a format lie in their chunk and the samples are whole.
-/

namespace StudioWorker.VoiceSamples

open Lib Lib.Riff

/-- A slice holds at most `isize::MAX` bytes. -/
structure Slice where
  bytes : Riff.Bytes
  fits : bytes.length < 2 ^ 63

def sampleRate : ℕ := 16000
def minTakeSeconds : ℚ := 1 / 4
def maxTakeSeconds : ℚ := 31

def tag (text : Text) : Riff.Bytes := text.map fun c => UInt8.ofNat c.toNat

def riff : Riff.Bytes := tag ['R', 'I', 'F', 'F']
def wave : Riff.Bytes := tag ['W', 'A', 'V', 'E']
def fmt : Riff.Bytes := tag ['f', 'm', 't', ' ']
def data : Riff.Bytes := tag ['d', 'a', 't', 'a']

def addUsize (a b : ℕ) : Option ℕ := if a + b < 2 ^ 64 then some (a + b) else none

def subUsize (a b : ℕ) : Option ℕ := if b ≤ a then some (a - b) else none

/-- `usize::saturating_add` -/
def saturatingAdd (a b : ℕ) : ℕ := min (a + b) (2 ^ 64 - 1)

/-- `get(start..stop)` -/
def Slice.get (s : Slice) (start stop : ℕ) : Option Riff.Bytes :=
  if start ≤ stop ∧ stop ≤ s.bytes.length then some ((s.bytes.drop start).take (stop - start))
  else none

/-- `u16_at` for two bytes, `u32_at` for four. -/
def uintAt (width : ℕ) (s : Slice) (start : ℕ) : Option (Option ℕ) := do
  let stop ← addUsize start width
  return (s.get start stop).map le

def u16At : Slice → ℕ → Option (Option ℕ) := uintAt 2
def u32At : Slice → ℕ → Option (Option ℕ) := uintAt 4

/-- What is read of a `fmt ` chunk. -/
structure Format where
  encoding : Option ℕ
  channels : Option ℕ
  rate : Option ℕ
  bits : Option ℕ
deriving DecidableEq, Repr

structure Found where
  format : Option Format
  data : Option ℕ
deriving DecidableEq, Repr

structure Audio where
  seconds : ℚ
deriving DecidableEq

def decimalSize (n : ℕ) : Text := Nat.toDigits 10 n

/-- `{:?}` of a field that may not be there. -/
def debugField : Option ℕ → Text
  | some n => "Some(".toList ++ decimalSize n ++ [')']
  | none => "None".toList

def cutShort (size held : ℕ) : Text :=
  "its data chunk says ".toList ++ decimalSize size ++ " bytes, the file holds ".toList ++
    decimalSize held

def formatAt (s : Slice) (body : ℕ) : Option Format := do
  let encoding ← u16At s body
  let channels ← u16At s (← addUsize body 2)
  let rate ← u32At s (← addUsize body 4)
  let bits ← u16At s (← addUsize body 14)
  return ⟨encoding, channels, rate, bits⟩

/-- One turn of the loop: where the next chunk starts, and what is found. -/
def turn (s : Slice) (offset : ℕ) (found : Found) : Option (Except Text (ℕ × Found)) := do
  let id ← s.get offset (← addUsize offset 4)
  -- `expect`: eight bytes are there
  let size ← (← u32At s (← addUsize offset 4))
  let body ← addUsize offset 8
  -- chunks are padded to an even size
  let next := saturatingAdd (saturatingAdd body size) (size % 2)
  if id = fmt then
    let format ← formatAt s body
    return .ok (next, { found with format := some format })
  else if id = data then
    let stop ← addUsize body size
    if s.bytes.length < stop then
      let held ← subUsize s.bytes.length body
      return .error (cutShort size held)
    else return .ok (next, { found with data := some (min size (s.bytes.length - body)) })
  else return .ok (next, found)

/-! ## What a turn does -/

section Turn

variable {s : Slice}

theorem addUsize_of_lt {a b : ℕ} (h : a + b < 2 ^ 64) : addUsize a b = some (a + b) := if_pos h

theorem eq_of_addUsize {a b c : ℕ} (h : addUsize a b = some c) : c = a + b := by
  rw [addUsize] at h
  split_ifs at h
  exact (Option.some_inj.mp h).symm

theorem le_of_get {start stop : ℕ} {bytes : Riff.Bytes} (h : s.get start stop = some bytes) :
    stop ≤ s.bytes.length := by
  rw [Slice.get] at h
  by_contra hstop
  rw [if_neg fun hle => hstop hle.2] at h
  cases h

theorem get_of_le {start n : ℕ} (h : start + n ≤ s.bytes.length) :
    s.get start (start + n) = some ((s.bytes.drop start).take n) := by
  rw [Slice.get, if_pos ⟨by omega, h⟩, Nat.add_sub_cancel_left]

theorem uintAt_eq {width start : ℕ} (h : start + width < 2 ^ 64) :
    uintAt width s start = some (field width s.bytes start) := by
  rw [uintAt, addUsize_of_lt h, field]
  simp only [Option.bind_eq_bind, Option.bind_some, Option.pure_def]
  split_ifs with hin
  · rw [get_of_le hin, Option.map_some]
  · rw [Slice.get, if_neg fun hle => hin hle.2, Option.map_none]

/-- The fields of a format, if its body starts the bytes. -/
def formatOf (bytes : Riff.Bytes) : Format :=
  ⟨field 2 bytes 0, field 2 bytes 2, field 4 bytes 4, field 2 bytes 14⟩

/-- Sixteen bytes are read. -/
theorem formatOf_take {size : ℕ} (h : 16 ≤ size) (bytes : Riff.Bytes) :
    formatOf (bytes.take size) = formatOf bytes := by
  rw [formatOf, formatOf, field_take (by omega), field_take (by omega), field_take (by omega),
    field_take (by omega)]

theorem formatAt_eq {body : ℕ} (h : body ≤ s.bytes.length) :
    formatAt s body = some (formatOf (s.bytes.drop body)) := by
  have hfits := s.fits
  rw [formatAt, u16At, u32At, uintAt_eq (by omega), addUsize_of_lt (by omega),
    addUsize_of_lt (by omega), addUsize_of_lt (by omega)]
  simp only [Option.bind_eq_bind, Option.bind_some]
  rw [uintAt_eq (by omega), uintAt_eq (by omega), uintAt_eq (by omega), formatOf,
    field_drop 2 h, field_drop 2 h, field_drop 4 h, field_drop 2 h]
  rfl

/-- A chunk goes into what is found. -/
def see (found : Found) (c : Chunk) : Except Text Found :=
  if c.tag = fmt then .ok { found with format := some (formatOf c.behind) }
  else if c.tag = data then
    if c.behind.length < c.size then .error (cutShort c.size c.behind.length)
    else .ok { found with data := some c.size }
  else .ok found

theorem size_firstChunk_lt (bytes : Riff.Bytes) : (firstChunk bytes).size < 2 ^ 32 := by
  have hlt := le_lt ((bytes.drop 4).take 4)
  have hlength : ((bytes.drop 4).take 4).length ≤ 4 := List.length_take_le 4 _
  have hpow : 256 ^ ((bytes.drop 4).take 4).length ≤ 256 ^ 4 :=
    Nat.pow_le_pow_right (by decide) hlength
  exact hlt.trans_le hpow

/-- A turn sees the chunk at its place, and goes on behind it. -/
theorem turn_eq {offset : ℕ} (h : offset + 8 ≤ s.bytes.length) (found : Found) :
    turn s offset found = some ((see found (firstChunk (s.bytes.drop offset))).map fun found =>
      (offset + 8 + Riff.padded (firstChunk (s.bytes.drop offset)).size, found)) := by
  have hfits := s.fits
  have hsize := size_firstChunk_lt (s.bytes.drop offset)
  have hid : s.get offset (offset + 4) = some (firstChunk (s.bytes.drop offset)).tag :=
    get_of_le (by omega)
  have hread : u32At s (offset + 4) = some (some (firstChunk (s.bytes.drop offset)).size) := by
    rw [u32At, uintAt_eq (by omega), field, if_pos (by omega), firstChunk, List.drop_drop]
  have hformat : formatAt s (offset + 8) =
      some (formatOf (firstChunk (s.bytes.drop offset)).behind) := by
    rw [formatAt_eq h, ← List.drop_drop]
    rfl
  have hheld : (firstChunk (s.bytes.drop offset)).behind.length =
      s.bytes.length - (offset + 8) := by
    show ((s.bytes.drop offset).drop 8).length = _
    rw [List.drop_drop, List.length_drop]
  -- nothing below looks at how the chunk was read
  generalize firstChunk (s.bytes.drop offset) = c at hsize hid hread hformat hheld
  have hnext : saturatingAdd (saturatingAdd (offset + 8) c.size) (c.size % 2) =
      offset + 8 + Riff.padded c.size := by
    rw [saturatingAdd, saturatingAdd, Riff.padded]
    omega
  rw [turn, addUsize_of_lt (by omega), addUsize_of_lt (by omega)]
  simp only [Option.bind_eq_bind, Option.bind_some, hid, hread, hnext]
  rw [see]
  by_cases hfmt : c.tag = fmt
  · rw [if_pos hfmt, if_pos hfmt, hformat]
    rfl
  · rw [if_neg hfmt, if_neg hfmt]
    by_cases hdata : c.tag = data
    · rw [if_pos hdata, if_pos hdata, addUsize_of_lt (by omega), Option.bind_some]
      by_cases hcut : s.bytes.length < offset + 8 + c.size
      · rw [if_pos hcut, if_pos (by omega), subUsize, if_pos h, hheld]
        rfl
      · rw [if_neg hcut, if_neg (by omega), Nat.min_eq_left (by omega)]
        rfl
    · rw [if_neg hdata, if_neg hdata]
      rfl

/-- Without a whole header the read of its size fails. -/
theorem header_of_turn {offset : ℕ} {found : Found} {r : Except Text (ℕ × Found)}
    (h : turn s offset found = some r) : offset + 8 ≤ s.bytes.length := by
  rw [turn] at h
  obtain ⟨stop, -, h⟩ := Option.bind_eq_some_iff.mp h
  obtain ⟨id, hid, h⟩ := Option.bind_eq_some_iff.mp h
  obtain ⟨start, hstart, h⟩ := Option.bind_eq_some_iff.mp h
  obtain ⟨read, hread, h⟩ := Option.bind_eq_some_iff.mp h
  obtain ⟨size, rfl, -⟩ := Option.bind_eq_some_iff.mp h
  obtain ⟨stop, hstop, hread⟩ := Option.bind_eq_some_iff.mp hread
  obtain ⟨bytes, hget, -⟩ := Option.map_eq_some_iff.mp (Option.some_inj.mp hread)
  have hle := le_of_get hget
  rw [eq_of_addUsize hstop, eq_of_addUsize hstart] at hle
  exact hle

theorem turn_lt {offset next : ℕ} {found found' : Found}
    (h : turn s offset found = some (.ok (next, found'))) :
    offset < next ∧ offset < s.bytes.length := by
  have hheader := header_of_turn h
  rw [turn_eq hheader] at h
  cases hsee : see found (firstChunk (s.bytes.drop offset)) with
  | error e =>
    rw [hsee] at h
    cases h
  | ok seen =>
    rw [hsee] at h
    obtain ⟨rfl, -⟩ := Prod.mk.inj (Except.ok.inj (Option.some_inj.mp h))
    omega

end Turn

/-- The loop, from one offset on. -/
def walk (s : Slice) (offset : ℕ) (found : Found) : Option (Except Text Found) := do
  if (← addUsize offset 8) ≤ s.bytes.length then
    match h : turn s offset found with
    | none => none
    | some (.error e) => return .error e
    | some (.ok (next, found)) =>
      have := turn_lt h
      walk s next found
  else return .ok found
termination_by s.bytes.length - offset

/-- What `check_wav` makes of what the loop found; `fixed n` shows a number with `n` decimals. -/
def judge (fixed : ℕ → ℚ → Text) (found : Found) : Except Text Audio :=
  match found.format with
  | none => .error "no fmt chunk".toList
  | some format =>
    if format.encoding ≠ some 1 ∨ format.bits ≠ some 16 then
      .error ("not 16-bit PCM (format ".toList ++ debugField format.encoding ++ ", ".toList ++
        debugField format.bits ++ " bits)".toList)
    else if format.channels ≠ some 1 then
      .error ("not mono (".toList ++ debugField format.channels ++ " channels)".toList)
    else if format.rate ≠ some sampleRate then
      .error ("not 16 kHz (".toList ++ debugField format.rate ++ " Hz)".toList)
    else
      match found.data with
      | none => .error "no data chunk".toList
      | some data =>
        let seconds : ℚ := data / (sampleRate * 2)
        if seconds < minTakeSeconds then
          .error (fixed 2 seconds ++ " s is shorter than 0.25 s".toList)
        else if maxTakeSeconds < seconds then
          .error (fixed 1 seconds ++ " s is longer than 31 s".toList)
        else .ok ⟨seconds⟩

/-- `check_wav` -/
def checkWav (fixed : ℕ → ℚ → Text) (s : Slice) : Option (Except Text Audio) :=
  if s.get 0 4 ≠ some riff ∨ s.get 8 12 ≠ some wave then
    some (.error "not a WAV file (no RIFF/WAVE header)".toList)
  else do return (← walk s 12 ⟨none, none⟩).bind (judge fixed)

/-! ## What it accepts -/

/-- A WAV file's form. -/
def Headed (bytes : Riff.Bytes) : Prop := bytes.take 4 = riff ∧ (bytes.drop 8).take 4 = wave

/-- PCM, mono, 16 kHz, 16 bits. -/
def pcm : Format := ⟨some 1, some 1, some sampleRate, some 16⟩

/-- What a data chunk of this size lasts. -/
def lasts (size : ℕ) : ℚ := size / (sampleRate * 2)

/-- The last chunk with that tag. -/
def found (tag bytes : Riff.Bytes) : Option Chunk := lastOf tag (chunks (bytes.drop 12))

/-- The bytes are a take's audio, of so many seconds. -/
structure IsTake (bytes : Riff.Bytes) (seconds : ℚ) : Prop where
  headed : Headed bytes
  /-- The format lies in its own chunk. -/
  format : ∃ c, found fmt bytes = some c ∧ 16 ≤ c.body.length ∧ formatOf c.body = pcm
  /-- The data lies in the file, in whole samples. -/
  samples : ∃ c, found data bytes = some c ∧ c.Whole ∧ 2 ∣ c.size ∧
    minTakeSeconds ≤ lasts c.size ∧ lasts c.size ≤ maxTakeSeconds ∧ seconds = lasts c.size

/-- What the check accepts: the format is read wherever its chunk ends, and any size lasts. -/
structure Accepted (bytes : Riff.Bytes) (seconds : ℚ) : Prop where
  headed : Headed bytes
  format : ∃ c, found fmt bytes = some c ∧ formatOf c.behind = pcm
  samples : ∃ c, found data bytes = some c ∧ c.Whole ∧
    minTakeSeconds ≤ lasts c.size ∧ lasts c.size ≤ maxTakeSeconds ∧ seconds = lasts c.size

/-- Where all that the check looks at is right, its format chunk is long enough and its data chunk
is even. -/
def Fitting (bytes : Riff.Bytes) : Prop :=
  ∀ format samples, found fmt bytes = some format → found data bytes = some samples →
    Headed bytes → formatOf format.behind = pcm → samples.Whole →
    minTakeSeconds ≤ lasts samples.size → lasts samples.size ≤ maxTakeSeconds →
    16 ≤ format.size ∧ 2 ∣ samples.size

/-- It gives an answer, and the answer is the seconds of a take exactly where the bytes are one. -/
def Exact (fixed : ℕ → ℚ → Text) (s : Slice) : Prop :=
  ∃ answer, checkWav fixed s = some answer ∧
    ∀ seconds, answer = .ok ⟨seconds⟩ ↔ IsTake s.bytes seconds

section Walk

variable {s : Slice}

/-- A turn that fails ends the loop. -/
theorem walk_of_error {offset : ℕ} {found : Found} {e : Text}
    (h : turn s offset found = some (.error e)) : walk s offset found = some (.error e) := by
  have hin := header_of_turn h
  have hfits := s.fits
  rw [walk, addUsize_of_lt (by omega)]
  simp only [Option.bind_eq_bind, Option.bind_some]
  rw [if_pos hin]
  split
  next hnone =>
    rw [h] at hnone
    cases hnone
  next e' herror =>
    rw [h] at herror
    obtain rfl := Except.error.inj (Option.some_inj.mp herror)
    rfl
  next hok =>
    rw [h] at hok
    cases hok

/-- A turn that goes on is followed by the next. -/
theorem walk_of_ok {offset next : ℕ} {found seen : Found}
    (h : turn s offset found = some (.ok (next, seen))) : walk s offset found = walk s next seen := by
  have hin := header_of_turn h
  have hfits := s.fits
  rw [walk, addUsize_of_lt (by omega)]
  simp only [Option.bind_eq_bind, Option.bind_some]
  rw [if_pos hin]
  split
  next hnone =>
    rw [h] at hnone
    cases hnone
  next herror =>
    rw [h] at herror
    cases herror
  next hok =>
    rw [h] at hok
    obtain ⟨rfl, rfl⟩ := Prod.mk.inj (Except.ok.inj (Option.some_inj.mp hok))
    rfl

/-- The loop sees the chunks in order. -/
theorem walk_eq {offset : ℕ} (h : offset ≤ s.bytes.length + 2 ^ 33) (found : Found) :
    walk s offset found = some ((chunks (s.bytes.drop offset)).foldlM see found) := by
  induction hn : s.bytes.length - offset using Nat.strong_induction_on
    generalizing offset found with
  | _ n ih =>
    have hfits := s.fits
    by_cases hin : offset + 8 ≤ s.bytes.length
    · have hchunks : chunks (s.bytes.drop offset) = firstChunk (s.bytes.drop offset) ::
          chunks (s.bytes.drop
            (offset + 8 + Riff.padded (firstChunk (s.bytes.drop offset)).size)) := by
        rw [chunks_of_long (by rw [List.length_drop]; omega), ← List.drop_drop, ← List.drop_drop]
        rfl
      have hturn := turn_eq hin found
      rw [hchunks, List.foldlM_cons]
      cases hsee : see found (firstChunk (s.bytes.drop offset)) with
      | error e =>
        rw [hsee] at hturn
        exact walk_of_error hturn
      | ok seen =>
        rw [hsee] at hturn
        have hsize := size_firstChunk_lt (s.bytes.drop offset)
        have hpadded : Riff.padded (firstChunk (s.bytes.drop offset)).size ≤ 2 ^ 32 + 1 := by
          rw [Riff.padded]
          omega
        exact (walk_of_ok hturn).trans (ih _ (by omega) (by omega) _ rfl)
    · rw [walk, addUsize_of_lt (by omega)]
      simp only [Option.bind_eq_bind, Option.bind_some]
      rw [if_neg hin, chunks_of_short (by rw [List.length_drop]; omega)]
      rfl

/-- The last is one of the rest, or else the first. -/
theorem map_or_some {α β : Type} (last : Option α) (first : α) (g : α → β) (before : Option β) :
    ((last.or (some first)).map g).or before = (last.map g).or (some (g first)) := by
  cases last <;> rfl

/-- What the loop finds: the last chunks, unless a data chunk is cut short. -/
theorem foldlM_see {cs : List Chunk} {found seen : Found} :
    cs.foldlM see found = .ok seen ↔ (∀ c ∈ cs, c.tag = data → c.Whole) ∧
      seen = ⟨((lastOf fmt cs).map fun c => formatOf c.behind).or found.format,
        ((lastOf data cs).map (·.size)).or found.data⟩ := by
  have hne : data ≠ fmt := by decide
  induction cs generalizing found with
  | nil =>
    constructor
    · intro h
      obtain rfl := Except.ok.inj h
      exact ⟨fun c hc => absurd hc List.not_mem_nil, rfl⟩
    · rintro ⟨-, rfl⟩
      rfl
  | cons c cs ih =>
    rw [List.foldlM_cons, lastOf_cons, lastOf_cons, List.forall_mem_cons, see]
    by_cases hfmt : c.tag = fmt
    · have hdata : c.tag ≠ data := fun h => hne (h.symm.trans hfmt)
      rw [if_pos hfmt, if_pos (beq_iff_eq.mpr hfmt), if_neg (fun h => hdata (eq_of_beq h)),
        Option.or_none, map_or_some, and_iff_right (fun h => absurd h hdata)]
      exact ih
    · rw [if_neg hfmt, if_neg (fun h => hfmt (eq_of_beq h)), Option.or_none]
      by_cases hdata : c.tag = data
      · rw [if_pos hdata, if_pos (beq_iff_eq.mpr hdata), map_or_some]
        by_cases hcut : c.behind.length < c.size
        · rw [if_pos hcut]
          refine iff_of_false (fun h => ?_) fun h => ?_
          · cases h
          · exact absurd (h.1.1 hdata) (not_le.mpr hcut)
        · have hwhole : c.tag = data → c.Whole := fun _ => not_lt.mp hcut
          rw [if_neg hcut, and_iff_right hwhole]
          exact ih
      · rw [if_neg hdata, if_neg (fun h => hdata (eq_of_beq h)), Option.or_none,
          and_iff_right (fun h => absurd h hdata)]
        exact ih

end Walk

theorem get_header_iff {s : Slice} {start : ℕ} {bytes : Riff.Bytes} (hlength : bytes.length = 4) :
    s.get start (start + 4) = some bytes ↔ (s.bytes.drop start).take 4 = bytes := by
  rw [Slice.get, Nat.add_sub_cancel_left]
  constructor
  · intro h
    split_ifs at h
    exact Option.some_inj.mp h
  · intro h
    have hle := congrArg List.length h
    rw [List.length_take, List.length_drop, hlength] at hle
    rw [if_pos ⟨by omega, by omega⟩, h]

theorem judge_ok_iff (fixed : ℕ → ℚ → Text) (found : Found) (seconds : ℚ) :
    judge fixed found = .ok ⟨seconds⟩ ↔ found.format = some pcm ∧ ∃ size, found.data = some size ∧
      minTakeSeconds ≤ lasts size ∧ lasts size ≤ maxTakeSeconds ∧ seconds = lasts size := by
  constructor
  · intro h
    rw [judge] at h
    split at h
    next => cases h
    next format hformat =>
      split_ifs at h with hcoding hchannels hrate
      have hpcm : format = pcm := by
        simp only [ne_eq, not_or, not_not] at hcoding hchannels hrate
        cases format
        simp only at hcoding hchannels hrate
        rw [pcm, hcoding.1, hcoding.2, hchannels, hrate]
      split at h
      next => cases h
      next size hsize =>
        change (if lasts size < minTakeSeconds then _ else if maxTakeSeconds < lasts size then _
          else _) = _ at h
        split_ifs at h with hshort hlong
        obtain rfl := congrArg Audio.seconds (Except.ok.inj h)
        exact ⟨hpcm ▸ hformat, size, hsize, not_lt.mp hshort, not_lt.mp hlong, rfl⟩
  · rintro ⟨hformat, size, hsize, hshort, hlong, rfl⟩
    have hpcm : ¬ (pcm.encoding ≠ some 1 ∨ pcm.bits ≠ some 16) := by decide
    rw [judge, hformat]
    simp only [hsize, if_neg hpcm]
    rw [if_neg (by decide), if_neg (by decide)]
    show (if lasts size < minTakeSeconds then _ else if maxTakeSeconds < lasts size then _
      else _) = _
    rw [if_neg (not_lt.mpr hshort), if_neg (not_lt.mpr hlong)]
    rfl

section Check

variable (fixed : ℕ → ℚ → Text) (s : Slice)

/-- The check answers, and accepts what it accepts. -/
theorem checkWav_accepts : ∃ answer, checkWav fixed s = some answer ∧
    ∀ seconds, answer = .ok ⟨seconds⟩ ↔ Accepted s.bytes seconds := by
  have hriff : s.get 0 4 = some riff ↔ (s.bytes.drop 0).take 4 = riff := get_header_iff rfl
  have hwave : s.get 8 12 = some wave ↔ (s.bytes.drop 8).take 4 = wave := get_header_iff rfl
  by_cases hheaded : Headed s.bytes
  · have hget : ¬ (s.get 0 4 ≠ some riff ∨ s.get 8 12 ≠ some wave) := by
      rw [not_or, not_not, not_not]
      exact ⟨hriff.mpr hheaded.1, hwave.mpr hheaded.2⟩
    have hwalk := @walk_eq s 12 (by omega) ⟨none, none⟩
    refine ⟨((chunks (s.bytes.drop 12)).foldlM see ⟨none, none⟩).bind (judge fixed), ?_,
      fun seconds => ?_⟩
    · rw [checkWav, if_neg hget, hwalk]
      rfl
    · cases hfold : (chunks (s.bytes.drop 12)).foldlM see ⟨none, none⟩ with
      | error e =>
        refine iff_of_false (fun h => ?_) fun haccepted => ?_
        · cases h
        · obtain ⟨c, hlast, hwhole, -⟩ := haccepted.samples
          have hall := (forall_whole_iff data (s.bytes.drop 12)).mpr fun other hother => by
            rw [found, hother] at hlast
            exact Option.some_inj.mp hlast ▸ hwhole
          have hok := (@foldlM_see _ ⟨none, none⟩ _).mpr ⟨hall, rfl⟩
          rw [hfold] at hok
          cases hok
      | ok seen =>
        obtain ⟨hwhole, rfl⟩ := foldlM_see.mp hfold
        refine (judge_ok_iff fixed _ seconds).trans ?_
        simp only [Option.or_none, Option.map_eq_some_iff]
        constructor
        · rintro ⟨⟨format, hformat, hpcm⟩, size, ⟨c, hc, rfl⟩, hlasts⟩
          exact ⟨hheaded, ⟨format, hformat, hpcm⟩, c, hc,
            (forall_whole_iff data _).mp hwhole c hc, hlasts⟩
        · rintro ⟨-, ⟨format, hformat, hpcm⟩, c, hc, -, hlasts⟩
          exact ⟨⟨format, hformat, hpcm⟩, c.size, ⟨c, hc, rfl⟩, hlasts⟩
  · refine ⟨_, if_pos ?_, fun seconds => iff_of_false (fun h => ?_) fun h => hheaded h.headed⟩
    · by_contra hboth
      rw [not_or, not_not, not_not, hriff, hwave] at hboth
      exact hheaded hboth
    · cases h

/-- A take is what is accepted where the format lies in its chunk and the samples are whole. -/
theorem isTake_iff {bytes : Riff.Bytes} {seconds : ℚ} :
    IsTake bytes seconds ↔ Accepted bytes seconds ∧
      ∀ format samples, found fmt bytes = some format → found data bytes = some samples →
        16 ≤ format.size ∧ 2 ∣ samples.size := by
  constructor
  · rintro ⟨hheaded, ⟨c, hc, hlong, hpcm⟩, d, hd, hwhole, heven, hlasts⟩
    have hsize : 16 ≤ c.size := by
      rw [Chunk.body, List.length_take] at hlong
      omega
    refine ⟨⟨hheaded, ⟨c, hc, ?_⟩, d, hd, hwhole, hlasts⟩,
      fun format samples hformat hsamples => ?_⟩
    · rw [← hpcm, Chunk.body, formatOf_take hsize]
    · rw [hc] at hformat
      rw [hd] at hsamples
      exact Option.some_inj.mp hformat ▸ Option.some_inj.mp hsamples ▸ ⟨hsize, heven⟩
  · rintro ⟨⟨hheaded, ⟨c, hc, hpcm⟩, d, hd, hwhole, hlasts⟩, hfitting⟩
    obtain ⟨hsize, heven⟩ := hfitting c d hc hd
    have hbits : field 2 c.behind 14 = some 16 := congrArg Format.bits hpcm
    have hlong := length_of_field hbits
    refine ⟨hheaded, ⟨c, hc, ?_, ?_⟩, d, hd, hwhole, heven, hlasts⟩
    · rw [Chunk.body, List.length_take]
      omega
    · rw [Chunk.body, formatOf_take hsize, hpcm]

theorem fitting_of_exact (h : Exact fixed s) : Fitting s.bytes := by
  obtain ⟨answer, hanswer, haccepts⟩ := checkWav_accepts fixed s
  obtain ⟨same, hsame, hexact⟩ := h
  rw [hanswer] at hsame
  obtain rfl := Option.some_inj.mp hsame
  intro format samples hformat hsamples hheaded hpcm hwhole hshort hlong
  have haccepted : Accepted s.bytes (lasts samples.size) :=
    ⟨hheaded, ⟨format, hformat, hpcm⟩, samples, hsamples, hwhole, hshort, hlong, rfl⟩
  have htake := (hexact _).mp ((haccepts _).mpr haccepted)
  exact (isTake_iff.mp htake).2 format samples hformat hsamples

/-- For every byte string: the check answers, and it accepts the takes alone, with their seconds,
exactly where what it reads as a format and counts as samples fits. -/
theorem checkWav_exact_iff :
    (checkWav fixed s).isSome ∧ (Exact fixed s ↔ Fitting s.bytes) := by
  obtain ⟨answer, hanswer, haccepts⟩ := checkWav_accepts fixed s
  refine ⟨by rw [hanswer]; rfl, fitting_of_exact fixed s, fun hfitting => ?_⟩
  refine ⟨answer, hanswer, fun seconds => (haccepts seconds).trans ?_⟩
  rw [isTake_iff, iff_self_and]
  rintro ⟨hheaded, ⟨c, hc, hpcm⟩, d, hd, hwhole, hshort, hlong, -⟩ format samples hformat hsamples
  rw [hc] at hformat
  rw [hd] at hsamples
  obtain rfl := Option.some_inj.mp hformat
  obtain rfl := Option.some_inj.mp hsamples
  exact hfitting c d hc hd hheaded hpcm hwhole hshort hlong

end Check

/-- A WAV file of these chunks. -/
def wavOf (cs : Riff.Bytes) : Riff.Bytes := (riff ++ [0, 0, 0, 0] ++ wave) ++ cs

theorem found_wavOf (tag cs : Riff.Bytes) : found tag (wavOf cs) = lastOf tag (chunks cs) := by
  have hdrop : (wavOf cs).drop 12 = cs := List.drop_left' rfl
  rw [found, hdrop]

theorem headed_wavOf (cs : Riff.Bytes) : Headed (wavOf cs) := ⟨rfl, rfl⟩

/-- Encoding, channels, rate, byte rate and block size, and no more. -/
def fourteen : Riff.Bytes := [1, 0, 1, 0, 0x80, 0x3e, 0, 0, 0, 0x7d, 0, 0, 2, 0]

/-- A data chunk of silence, of the size its header says. -/
def silentData (size : Riff.Bytes) : Riff.Bytes := data ++ (size ++ List.replicate (le size) 0)

theorem chunks_silentData {size : Riff.Bytes} (hsize : size.length = 4) :
    chunks (silentData size) = [⟨data, le size, List.replicate (le size) 0⟩] := by
  have hrest :
      ((List.replicate (le size) (0 : UInt8)).drop (Riff.padded (le size))).length < 8 := by
    rw [List.length_drop, List.length_replicate, Riff.padded]
    omega
  rw [silentData, chunks_append rfl hsize, chunks_of_short hrest]

/-- A quarter of a second of silence is 8000 bytes. -/
def quarter : Riff.Bytes := [0x40, 0x1f, 0, 0]

/-- One byte more. -/
def quarterAndOne : Riff.Bytes := [0x41, 0x1f, 0, 0]

/-- A format of sixteen bytes, and data of an odd number of them. -/
def oddSamples : Slice :=
  ⟨wavOf (fmt ++ ([16, 0, 0, 0] ++ ((fourteen ++ [16, 0]) ++ silentData quarterAndOne))), by
    simp only [wavOf, silentData, List.length_append, List.length_replicate]
    decide⟩

/-- What follows a format of fourteen bytes: a chunk whose tag says the bits, and the data. -/
def afterFourteen : Riff.Bytes := [16, 0, 0, 0] ++ ([0, 0, 0, 0] ++ silentData quarter)

def shortFormat : Slice :=
  ⟨wavOf (fmt ++ ([14, 0, 0, 0] ++ (fourteen ++ afterFourteen))), by
    simp only [wavOf, afterFourteen, silentData, List.length_append, List.length_replicate]
    decide⟩

/-- Sixteen bytes that say what a take needs are a format, whatever follows. -/
theorem formatOf_eq_pcm {bytes : Riff.Bytes} (h : bytes.take 16 = fourteen ++ [16, 0]) :
    formatOf bytes = pcm := by
  rw [← formatOf_take le_rfl, h]
  rfl

theorem not_exact_oddSamples : ¬ Exact (fun _ _ => []) oddSamples := by
  intro h
  have hskip : ((fourteen ++ [16, 0]) ++ silentData quarterAndOne).drop 16 =
      silentData quarterAndOne := List.drop_left' rfl
  have hchunks : chunks (fmt ++ ([16, 0, 0, 0] ++
      ((fourteen ++ [16, 0]) ++ silentData quarterAndOne))) =
      [⟨fmt, 16, (fourteen ++ [16, 0]) ++ silentData quarterAndOne⟩,
        ⟨data, 8001, List.replicate 8001 0⟩] := by
    rw [chunks_append rfl rfl]
    show _ :: chunks (((fourteen ++ [16, 0]) ++ silentData quarterAndOne).drop 16) = _
    rw [hskip, chunks_silentData rfl]
    rfl
  have hfitting := fitting_of_exact _ _ h
    ⟨fmt, 16, (fourteen ++ [16, 0]) ++ silentData quarterAndOne⟩
    ⟨data, 8001, List.replicate 8001 0⟩ (by rw [oddSamples, found_wavOf, hchunks]; rfl)
    (by rw [oddSamples, found_wavOf, hchunks]; rfl) (headed_wavOf _) (formatOf_eq_pcm rfl)
    List.length_replicate.ge (by decide +kernel) (by decide +kernel)
  exact absurd hfitting.2 (by decide)

theorem not_exact_shortFormat : ¬ Exact (fun _ _ => []) shortFormat := by
  intro h
  have hskip : (fourteen ++ afterFourteen).drop 14 = afterFourteen := List.drop_left' rfl
  have hchunks : chunks (fmt ++ ([14, 0, 0, 0] ++ (fourteen ++ afterFourteen))) =
      [⟨fmt, 14, fourteen ++ afterFourteen⟩, ⟨[16, 0, 0, 0], 0, silentData quarter⟩,
        ⟨data, 8000, List.replicate 8000 0⟩] := by
    rw [chunks_append rfl rfl]
    show _ :: chunks ((fourteen ++ afterFourteen).drop 14) = _
    rw [hskip, afterFourteen, chunks_append rfl rfl]
    show _ :: _ :: chunks ((silentData quarter).drop 0) = _
    rw [List.drop_zero, chunks_silentData rfl]
    rfl
  have hfitting := fitting_of_exact _ _ h ⟨fmt, 14, fourteen ++ afterFourteen⟩
    ⟨data, 8000, List.replicate 8000 0⟩ (by rw [shortFormat, found_wavOf, hchunks]; rfl)
    (by rw [shortFormat, found_wavOf, hchunks]; rfl) (headed_wavOf _) (formatOf_eq_pcm rfl)
    List.length_replicate.ge (by decide +kernel) (by decide +kernel)
  exact absurd hfitting.1 (by decide)

/-- Odd data is accepted, and so is a format cut short. -/
theorem exists_not_exact : ¬ Exact (fun _ _ => []) oddSamples ∧
    ¬ Exact (fun _ _ => []) shortFormat := ⟨not_exact_oddSamples, not_exact_shortFormat⟩

end StudioWorker.VoiceSamples
