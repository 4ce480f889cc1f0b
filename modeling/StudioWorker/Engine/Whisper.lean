import Mathlib.Algebra.Order.Floor.Ring
import Mathlib.Data.List.GetD
import Mathlib.Data.Rat.Floor
import StudioWorker.Lib.Fallible
import StudioWorker.Lib.Interpolate
import StudioWorker.Text

/-!
# Engine.Whisper — the audio a transcription is given (`src/engine/whisper.rs`)

Over exact rationals.  The reader of the file is a parameter; a division by zero, an index out of
range and a request for memory beyond what there are addresses for are faults of their own.

* `decodeWavToMono16khz`: a file to the samples of one channel at 16 kHz.
* `monoSignal`, `Resampled`: what they are to be.
* `decode_good_iff`: the files that are decoded without a fault, and rightly.
-/

namespace StudioWorker.Engine.Whisper

open Lib.Fallible Lib.Interpolate

inductive SampleFormat where
  | int
  | float
deriving DecidableEq

structure WavSpec where
  channels : UInt16
  sampleRate : UInt32
  bitsPerSample : UInt16
  sampleFormat : SampleFormat

/-- An open reader: what the samples give when they are asked for in each type.  It counts them in
a `u32`. -/
structure WavReader (ε : Type) where
  spec : WavSpec
  len : UInt32
  samplesI16 : { l : List (Except ε Int16) // l.length = len.toNat }
  samplesI32 : { l : List (Except ε Int32) // l.length = len.toNat }
  samplesF32 : { l : List (Except ε ℚ) // l.length = len.toNat }

inductive Refusal (ε : Type) where
  | open (context : Text) (e : ε)
  | sample (e : ε)
  | bail (message : Text)

inductive Fault where
  | divideByZero
  | outOfRange
  | addOverflow
  | capacityOverflow
deriving DecidableEq

/-- Why there are no samples. -/
inductive Stop (ε : Type) where
  | refused (why : Refusal ε)
  | panicked (fault : Fault)

/-! ## Machine operations -/

section Machine

variable {ε α : Type}

def usizeMax : ℕ := 2 ^ 64 - 1
def isizeMax : ℕ := 2 ^ 63 - 1

def divUsize (a b : ℕ) : Except (Stop ε) ℕ :=
  if b = 0 then .error (.panicked .divideByZero) else .ok (a / b)

def addUsize (a b : ℕ) : Except (Stop ε) ℕ :=
  if a + b ≤ usizeMax then .ok (a + b) else .error (.panicked .addOverflow)

def index (l : List α) (i : ℕ) : Except (Stop ε) α :=
  match l[i]? with
  | some a => .ok a
  | none => .error (.panicked .outOfRange)

/-- `Vec::with_capacity` of 4-byte items. -/
def withCapacity (n : ℕ) : Except (Stop ε) Unit :=
  if 4 * n ≤ isizeMax then .ok () else .error (.panicked .capacityOverflow)

/-- A quotient of floats whose dividend is above zero: `none` is infinity. -/
def quotient (a b : ℚ) : Option ℚ := if b = 0 then none else some (a / b)

/-- `ceil() as usize` -/
def ceilAsUsize : Option ℚ → ℕ
  | some q => min ⌈q⌉₊ usizeMax
  | none => usizeMax

/-- `floor() as usize` -/
def floorAsUsize (q : ℚ) : ℕ := min ⌊q⌋₊ usizeMax

end Machine

/-! ## Decoding -/

section Decode

variable {ε : Type}

/-- The samples up to the first that is an error, which ends the call. -/
def collect {α : Type} (toF32 : α → ℚ) (samples : List (Except ε α)) :
    Except (Stop ε) (List ℚ) :=
  samples.mapM fun s =>
    match s with
    | .ok a => .ok (toF32 a)
    | .error e => .error (.refused (.sample e))

def SampleFormat.debug : SampleFormat → Text
  | .int => "Int".toList
  | .float => "Float".toList

def unsupported (format : SampleFormat) (bits : UInt16) : Text :=
  "unsupported WAV sample format: ".toList ++ format.debug ++ [' '] ++
    Nat.toDigits 10 bits.toNat ++ " bits".toList

def interleaved (reader : WavReader ε) : Except (Stop ε) (List ℚ) :=
  match reader.spec.sampleFormat, reader.spec.bitsPerSample with
  | .int, 16 => collect (fun s => s.toInt / Int16.maxValue.toInt) reader.samplesI16.val
  | .int, 32 => collect (fun s => s.toInt / Int32.maxValue.toInt) reader.samplesI32.val
  | .float, 32 => collect (fun s => s) reader.samplesF32.val
  | format, bits => .error (.refused (.bail (unsupported format bits)))

def downmix (samples : List ℚ) (channels : ℕ) : Except (Stop ε) (List ℚ) :=
  if channels = 1 then .ok samples
  else do
    let frames ← divUsize samples.length channels
    withCapacity frames
    (List.range frames).mapM fun i => do
      let sum ← (List.range channels).foldlM
        (fun sum c => (index samples (i * channels + c)).map (sum + ·)) 0
      .ok (sum / channels)

def resampleLinear (samples : List ℚ) (sourceRate targetRate : ℕ) :
    Except (Stop ε) (List ℚ) :=
  if sourceRate = targetRate ∨ samples = [] then .ok samples
  else do
    let ratio : ℚ := sourceRate / targetRate
    let outLen := ceilAsUsize (quotient samples.length ratio)
    withCapacity outLen
    (List.range outLen).mapM fun n : ℕ => do
      let pos := n * ratio
      let i := floorAsUsize pos
      let frac := pos - i
      let a ← index samples (min i (samples.length - 1))
      let next ← addUsize i 1
      let b ← index samples (min next (samples.length - 1))
      .ok (a + (b - a) * frac)

def decodeWavToMono16khz (new : List UInt8 → Except ε (WavReader ε)) (bytes : List UInt8) :
    Except (Stop ε) (List ℚ) :=
  match new bytes with
  | .error e => .error (.refused (.open "WAV parse: not a valid WAV file".toList e))
  | .ok reader => do
    let samples ← interleaved reader
    let mono ← downmix samples reader.spec.channels.toNat
    resampleLinear mono reader.spec.sampleRate.toNat 16000

end Decode

/-! ## What is to come out -/

/-- The mean of each frame. -/
def monoSignal (channels : ℕ) (samples : List ℚ) : List ℚ :=
  (List.range (samples.length / channels)).map fun i =>
    ((samples.drop (i * channels)).take channels).sum / channels

structure Resampled (mono : List ℚ) (rate : ℕ) (out : List ℚ) : Prop where
  length : out.length = ⌈(mono.length * 16000 / rate : ℚ)⌉₊
  bounded : out.length ≤ 16000 * mono.length
  value : ∀ n, (h : n < out.length) → OnLine (held mono) (n * rate / 16000) out[n]
  between : ∀ n, (h : n < out.length) → ∀ k : ℕ,
    (k : ℚ) ≤ n * rate / 16000 → (n * rate / 16000 : ℚ) ≤ k + 1 →
      min (held mono k) (held mono (k + 1)) ≤ out[n] ∧
        out[n] ≤ max (held mono k) (held mono (k + 1))

section Good

variable {ε : Type}

/-- No fault, and what comes out is the signal of the file. -/
def Good (new : List UInt8 → Except ε (WavReader ε)) (bytes : List UInt8) :
    Except (Stop ε) (List ℚ) → Prop
  | .ok out => ∃ reader samples, new bytes = .ok reader ∧ interleaved reader = .ok samples ∧
      Resampled (monoSignal reader.spec.channels.toNat samples) reader.spec.sampleRate.toNat out
  | .error (.refused _) => True
  | .error (.panicked _) => False

end Good

/-! ## The mono signal -/

section Downmix

variable {ε : Type} {samples : List ℚ} {channels : ℕ}

theorem index_of_lt {α : Type} {l : List α} {i : ℕ} (h : i < l.length) :
    (index l i : Except (Stop ε) α) = .ok l[i] := by
  rw [index, List.getElem?_eq_getElem h]

/-- The samples of a frame, one after another. -/
theorem foldlM_frame {b m : ℕ} (h : b + m ≤ samples.length) :
    (List.range m).foldlM (fun sum c => (index samples (b + c)).map (sum + ·)) (0 : ℚ) =
      (.ok ((samples.drop b).take m).sum : Except (Stop ε) ℚ) := by
  induction m with
  | zero => rfl
  | succ m ih =>
    have hm : b + m < samples.length := by omega
    have htake : (samples.drop b).take (m + 1) = (samples.drop b).take m ++ [samples[b + m]] := by
      rw [List.take_add_one, List.getElem?_drop, List.getElem?_eq_getElem hm]
      rfl
    rw [List.range_succ, List.foldlM_append, ih (by omega), htake, List.sum_append,
      List.sum_singleton, ok_bind, List.foldlM_cons, index_of_lt hm]
    rfl

theorem length_monoSignal : (monoSignal channels samples).length = samples.length / channels := by
  rw [monoSignal, List.length_map, List.length_range]

theorem monoSignal_one : monoSignal 1 samples = samples := by
  refine List.ext_getElem (by rw [length_monoSignal, Nat.div_one]) fun i h h' => ?_
  have hdrop : (samples.drop i).take 1 = [samples[i]] := by
    rw [List.take_one, List.head?_drop, List.getElem?_eq_getElem h']
    rfl
  simp only [monoSignal, List.getElem_map, List.getElem_range, Nat.mul_one, hdrop,
    List.sum_singleton, Nat.cast_one, div_one]

theorem downmix_zero :
    (downmix samples 0 : Except (Stop ε) (List ℚ)) = .error (.panicked .divideByZero) := rfl

theorem downmix_eq (hchannels : channels ≠ 0) (hlen : 4 * samples.length ≤ isizeMax) :
    (downmix samples channels : Except (Stop ε) (List ℚ)) = .ok (monoSignal channels samples) := by
  rw [downmix]
  split_ifs with hone
  · rw [hone, monoSignal_one]
  · have hframes : 4 * (samples.length / channels) ≤ isizeMax :=
      (Nat.mul_le_mul_left 4 (Nat.div_le_self _ _)).trans hlen
    rw [divUsize, if_neg hchannels, ok_bind, withCapacity, if_pos hframes, ok_bind]
    refine mapM_eq_ok_map fun i hi => ?_
    have hframe : i * channels + channels ≤ samples.length := by
      rw [← Nat.succ_mul]
      exact (Nat.mul_le_mul_right channels (List.mem_range.mp hi)).trans
        (Nat.div_mul_le_self _ _)
    rw [foldlM_frame hframe, ok_bind]

end Downmix

/-! ## Resampling -/

section Resample

variable {ε : Type} {samples : List ℚ} {rate target : ℕ}

/-- The last sample is read where the index would be behind it. -/
theorem index_held (hne : samples ≠ []) (k : ℕ) :
    (index samples (min k (samples.length - 1)) : Except (Stop ε) ℚ) = .ok (held samples k) := by
  have hpos := List.length_pos_iff.mpr hne
  have hlt : min k (samples.length - 1) < samples.length := by omega
  rw [index_of_lt hlt, held, List.getD_eq_getElem _ _ hlt]

theorem ceil_le (hrate : rate ≠ 0) :
    ⌈(samples.length * target / rate : ℚ)⌉₊ ≤ target * samples.length := by
  have hone : (1 : ℚ) ≤ rate := Nat.one_le_cast.mpr (Nat.one_le_iff_ne_zero.mpr hrate)
  refine Nat.ceil_le.mpr ?_
  rw [Nat.cast_mul, mul_comm (target : ℚ)]
  exact div_le_self (by positivity) hone

theorem outLen_eq (hrate : rate ≠ 0) (htarget : target ≠ 0)
    (hlen : 4 * (target * samples.length) ≤ isizeMax) :
    ceilAsUsize (quotient samples.length (rate / target : ℚ)) =
      ⌈(samples.length * target / rate : ℚ)⌉₊ := by
  have hratio : (rate / target : ℚ) ≠ 0 :=
    div_ne_zero (Nat.cast_ne_zero.mpr hrate) (Nat.cast_ne_zero.mpr htarget)
  have hle : ⌈(samples.length * target / rate : ℚ)⌉₊ ≤ target * samples.length := ceil_le hrate
  have hmax : isizeMax ≤ usizeMax := by decide
  rw [quotient, if_neg hratio, div_div_eq_mul_div]
  exact min_eq_left (by omega)

/-- What is reckoned at a position. -/
def sampleAt (samples : List ℚ) (pos : ℚ) : ℚ :=
  held samples ⌊pos⌋₊ + (held samples (⌊pos⌋₊ + 1) - held samples ⌊pos⌋₊) * (pos - ⌊pos⌋₊)

theorem resample_at (hne : samples ≠ []) (hlen : samples.length < usizeMax) {pos : ℚ}
    (hpos : 0 ≤ pos) (hlt : pos < samples.length) :
    ((index samples (min (floorAsUsize pos) (samples.length - 1))).bind fun a =>
      (addUsize (floorAsUsize pos) 1).bind fun next =>
        (index samples (min next (samples.length - 1))).bind fun b =>
          .ok (a + (b - a) * (pos - floorAsUsize pos)) : Except (Stop ε) ℚ) =
      .ok (sampleAt samples pos) := by
  have hbelow : ⌊pos⌋₊ < samples.length := (Nat.floor_lt hpos).mpr hlt
  have hfloor : floorAsUsize pos = ⌊pos⌋₊ := min_eq_left (by omega)
  have hnext : (addUsize ⌊pos⌋₊ 1 : Except (Stop ε) ℕ) = .ok (⌊pos⌋₊ + 1) :=
    if_pos (by omega)
  rw [hfloor, index_held hne, hnext]
  show (index samples (min (⌊pos⌋₊ + 1) (samples.length - 1))).bind _ = _
  rw [index_held hne]
  rfl

theorem resampleLinear_zero (hne : samples ≠ []) (htarget : target ≠ 0) :
    (resampleLinear samples 0 target : Except (Stop ε) (List ℚ)) =
      .error (.panicked .capacityOverflow) := by
  have hcond : ¬ (0 = target ∨ samples = []) := not_or.mpr ⟨Ne.symm htarget, hne⟩
  have hratio : ((0 : ℕ) / target : ℚ) = 0 := by rw [Nat.cast_zero, zero_div]
  have hcapacity : (withCapacity usizeMax : Except (Stop ε) Unit) =
      .error (.panicked .capacityOverflow) := if_neg (by decide)
  rw [resampleLinear, if_neg hcond, hratio]
  show (withCapacity usizeMax : Except (Stop ε) Unit) >>= _ = _
  rw [hcapacity]
  rfl

theorem resampleLinear_ok (hrate : rate ≠ 0) (htarget : target ≠ 0)
    (hlen : 4 * (target * samples.length) ≤ isizeMax) :
    ∃ out, (resampleLinear samples rate target : Except (Stop ε) (List ℚ)) = .ok out ∧
      out.length = ⌈(samples.length * target / rate : ℚ)⌉₊ ∧
      ∀ n, (h : n < out.length) → OnLine (held samples) (n * rate / target) out[n] := by
  have hrate' : (rate : ℚ) ≠ 0 := Nat.cast_ne_zero.mpr hrate
  have htarget' : (target : ℚ) ≠ 0 := Nat.cast_ne_zero.mpr htarget
  by_cases hsame : rate = target ∨ samples = []
  · refine ⟨samples, by rw [resampleLinear, if_pos hsame], ?_, fun n h => ?_⟩
    · rcases hsame with rfl | rfl
      · rw [mul_div_cancel_right₀ _ hrate', Nat.ceil_natCast]
      · rw [List.length_nil, Nat.cast_zero, zero_mul, zero_div, Nat.ceil_zero]
    · rcases hsame with rfl | rfl
      · have hheld : held samples n = samples[n] := by
          have hmin : min n (samples.length - 1) = n := by omega
          rw [held, hmin, List.getD_eq_getElem _ _ h]
        rw [mul_div_cancel_right₀ _ hrate', ← hheld]
        exact onLine_nat (held samples) n
      · exact absurd h (Nat.not_lt_zero n)
  · have hne := (not_or.mp hsame).2
    have hceil := outLen_eq hrate htarget hlen
    have hfits : 4 * ⌈(samples.length * target / rate : ℚ)⌉₊ ≤ isizeMax :=
      (Nat.mul_le_mul_left 4 (ceil_le hrate)).trans hlen
    have hshort : samples.length < usizeMax := by
      have hmul := Nat.le_mul_of_pos_left samples.length (Nat.pos_of_ne_zero htarget)
      have hmax : isizeMax < 4 * usizeMax := by decide
      omega
    refine ⟨(List.range ⌈(samples.length * target / rate : ℚ)⌉₊).map fun n : ℕ =>
      sampleAt samples (n * (rate / target)), ?_, ?_, ?_⟩
    · rw [resampleLinear, if_neg hsame]
      dsimp only
      rw [hceil, withCapacity, if_pos hfits, ok_bind]
      refine mapM_eq_ok_map fun n hn => ?_
      have hlt : (n * (rate / target) : ℚ) < samples.length := by
        have hn' := Nat.lt_ceil.mp (List.mem_range.mp hn)
        rw [← mul_div_assoc, div_lt_iff₀ (Nat.cast_pos.mpr (Nat.pos_of_ne_zero htarget))]
        rwa [lt_div_iff₀ (Nat.cast_pos.mpr (Nat.pos_of_ne_zero hrate))] at hn'
      exact resample_at hne hshort (by positivity) hlt
    · rw [List.length_map, List.length_range]
    · intro n h
      rw [List.getElem_map, List.getElem_range, mul_div_assoc]
      exact onLine_floor (held samples) (by positivity)

end Resample

/-! ## A file -/

section File

variable {ε : Type} {new : List UInt8 → Except ε (WavReader ε)} {bytes : List UInt8}

theorem length_interleaved {reader : WavReader ε} {samples : List ℚ}
    (h : interleaved reader = .ok samples) : samples.length = reader.len.toNat := by
  rw [interleaved] at h
  split at h
  · rw [length_of_mapM_ok h]
    exact reader.samplesI16.property
  · rw [length_of_mapM_ok h]
    exact reader.samplesI32.property
  · rw [length_of_mapM_ok h]
    exact reader.samplesF32.property
  · cases h

/-- A sample that cannot be read and a format that is not supported are refused. -/
theorem interleaved_error {reader : WavReader ε} {stop : Stop ε}
    (h : interleaved reader = .error stop) : ∃ why, stop = .refused why := by
  have hcollect : ∀ {α : Type} {toF32 : α → ℚ} {samples : List (Except ε α)},
      collect toF32 samples = .error stop → ∃ why, stop = .refused why := by
    intro α toF32 samples hstop
    obtain ⟨s, -, hs⟩ := mapM_error hstop
    rcases s with e | a
    · exact ⟨.sample e, (Except.error.inj hs).symm⟩
    · cases hs
  rw [interleaved] at h
  split at h
  · exact hcollect h
  · exact hcollect h
  · exact hcollect h
  · exact ⟨_, (Except.error.inj h).symm⟩

theorem resampled_of {mono out : List ℚ} {rate : ℕ} (hrate : rate ≠ 0)
    (hlength : out.length = ⌈(mono.length * (16000 : ℕ) / rate : ℚ)⌉₊)
    (hvalue : ∀ n, (h : n < out.length) → OnLine (held mono) (n * rate / (16000 : ℕ)) out[n]) :
    Resampled mono rate out where
  length := hlength
  bounded := hlength ▸ ceil_le hrate
  value := hvalue
  between := fun n h _ hk hk' => (hvalue n h).between hk hk'

/-- Both ways that samples of a file can go. -/
theorem mono16khz_cases {samples : List ℚ} (hlen : samples.length < 2 ^ 32) (channels rate : ℕ) :
    if channels ≠ 0 ∧ (rate ≠ 0 ∨ samples.length < channels) then
      ∃ out, (downmix samples channels >>= fun mono => resampleLinear mono rate 16000 :
          Except (Stop ε) (List ℚ)) = .ok out ∧ Resampled (monoSignal channels samples) rate out
    else
      ∃ fault, (downmix samples channels >>= fun mono => resampleLinear mono rate 16000 :
          Except (Stop ε) (List ℚ)) = .error (.panicked fault) := by
  have hmax : 4 * (16000 * 2 ^ 32) ≤ isizeMax := by decide
  by_cases hchannels : channels = 0
  · rw [if_neg fun h => h.1 hchannels, hchannels, downmix_zero]
    exact ⟨.divideByZero, rfl⟩
  · have hframes : (monoSignal channels samples).length = samples.length / channels :=
      length_monoSignal
    have hshort : (monoSignal channels samples).length ≤ samples.length :=
      hframes ▸ Nat.div_le_self _ _
    rw [downmix_eq hchannels (by omega), ok_bind]
    by_cases hrate : rate = 0
    · obtain rfl := hrate
      have hempty : monoSignal channels samples = [] ↔ samples.length < channels := by
        rw [← List.length_eq_zero_iff, hframes, Nat.div_eq_zero_iff]
        exact or_iff_right hchannels
      by_cases hnone : samples.length < channels
      · rw [if_pos ⟨hchannels, Or.inr hnone⟩, hempty.mpr hnone]
        refine ⟨[], by rw [resampleLinear, if_pos (Or.inr rfl)], ?_, Nat.le_refl _, ?_, ?_⟩
        · rw [List.length_nil, Nat.cast_zero, zero_mul, zero_div, Nat.ceil_zero]
        · exact fun n h => absurd h (Nat.not_lt_zero n)
        · exact fun n h => absurd h (Nat.not_lt_zero n)
      · rw [if_neg fun h => h.2.elim (fun hzero => hzero rfl) hnone]
        exact ⟨_, resampleLinear_zero (hempty.not.mpr hnone) (by decide)⟩
    · rw [if_pos ⟨hchannels, Or.inl hrate⟩]
      have htarget : 16000 ≠ 0 := by decide
      have hcapacity : 4 * (16000 * (monoSignal channels samples).length) ≤ isizeMax := by omega
      obtain ⟨out, hout, hlength, hvalue⟩ := @resampleLinear_ok ε _ _ _ hrate htarget hcapacity
      exact ⟨out, hout, resampled_of hrate hlength hvalue⟩

/-- Every file that the reader takes is decoded without a fault, and to the signal it has, exactly
where it has a channel, and a rate unless it has no frame. -/
theorem decode_good_iff (new : List UInt8 → Except ε (WavReader ε)) (bytes : List UInt8) :
    Good new bytes (decodeWavToMono16khz new bytes) ↔
      ∀ reader samples, new bytes = .ok reader → interleaved reader = .ok samples →
        reader.spec.channels.toNat ≠ 0 ∧
          (reader.spec.sampleRate.toNat ≠ 0 ∨
            samples.length < reader.spec.channels.toNat) := by
  rw [decodeWavToMono16khz]
  cases hnew : new bytes with
  | error e => exact iff_of_true trivial fun reader samples hreader => by cases hreader
  | ok reader =>
    dsimp only
    cases hsamples : interleaved reader with
    | error stop =>
      obtain ⟨why, rfl⟩ := interleaved_error hsamples
      refine iff_of_true trivial fun reader' samples hreader hok => ?_
      obtain rfl := Except.ok.inj hreader
      rw [hsamples] at hok
      cases hok
    | ok samples =>
      have hcondition : (∀ reader' samples', (.ok reader : Except ε (WavReader ε)) = .ok reader' →
          interleaved reader' = .ok samples' → reader'.spec.channels.toNat ≠ 0 ∧
            (reader'.spec.sampleRate.toNat ≠ 0 ∨
              samples'.length < reader'.spec.channels.toNat)) ↔
          reader.spec.channels.toNat ≠ 0 ∧ (reader.spec.sampleRate.toNat ≠ 0 ∨
            samples.length < reader.spec.channels.toNat) := by
        constructor
        · intro h
          exact h reader samples rfl hsamples
        · intro h reader' samples' hreader hok
          obtain rfl := Except.ok.inj hreader
          rw [hsamples] at hok
          obtain rfl := Except.ok.inj hok
          exact h
      have hlen : samples.length < 2 ^ 32 :=
        length_interleaved hsamples ▸ reader.len.toNat_lt
      have hcases := @mono16khz_cases ε _ hlen reader.spec.channels.toNat
        reader.spec.sampleRate.toNat
      rw [hcondition, ok_bind]
      split_ifs at hcases with hgood
      · obtain ⟨out, hout, hresampled⟩ := hcases
        rw [hout]
        exact iff_of_true ⟨reader, samples, hnew, hsamples, hresampled⟩ hgood
      · obtain ⟨fault, hfault⟩ := hcases
        rw [hfault]
        exact iff_of_false id hgood

end File

/-- One channel of one sample, and no rate. -/
def rateZeroFile : List UInt8 :=
  [0x52, 0x49, 0x46, 0x46, 38, 0, 0, 0, 0x57, 0x41, 0x56, 0x45, 0x66, 0x6D, 0x74, 0x20,
    16, 0, 0, 0, 1, 0, 1, 0, 0, 0, 0, 0, 0, 0, 0, 0, 2, 0, 16, 0, 0x64, 0x61, 0x74, 0x61,
    2, 0, 0, 0, 1, 0]

def rateZeroReader : WavReader Unit where
  spec := ⟨1, 0, 16, .int⟩
  len := 1
  samplesI16 := ⟨[.ok 1], rfl⟩
  samplesI32 := ⟨[.error ()], rfl⟩
  samplesF32 := ⟨[.error ()], rfl⟩

def readRateZero (bytes : List UInt8) : Except Unit (WavReader Unit) :=
  if bytes = rateZeroFile then .ok rateZeroReader else .error ()

/-- The length of what is to come out is without bound there. -/
theorem decode_rateZero :
    decodeWavToMono16khz readRateZero rateZeroFile = .error (.panicked .capacityOverflow) ∧
      ¬ Good readRateZero rateZeroFile (decodeWavToMono16khz readRateZero rateZeroFile) := by
  have hread : readRateZero rateZeroFile = .ok rateZeroReader := if_pos rfl
  have hfault : decodeWavToMono16khz readRateZero rateZeroFile =
      .error (.panicked .capacityOverflow) := by
    rw [decodeWavToMono16khz, hread]
    have htarget : 16000 ≠ 0 := by decide
    exact resampleLinear_zero (List.cons_ne_nil _ _) htarget
  refine ⟨hfault, ?_⟩
  rw [hfault]
  exact id

end StudioWorker.Engine.Whisper
