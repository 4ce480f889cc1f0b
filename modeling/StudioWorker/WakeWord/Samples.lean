import Mathlib.Data.List.Nodup
import Mathlib.Logic.Relation
import StudioWorker.Lib.Fallible
import StudioWorker.VoiceSamples.Names

/-!
# WakeWord.Samples — synthetic speech of a phrase (`python/wakeword/samples.py`)

The voice is a parameter: what it makes of a text, and in what state that leaves it.

* `Generator.generateFrom`, `Generator.generate`: as in the source; a written file is noted with
  which of the texts it was voiced of.
* `Unsilenced`: the voice is never silent from some point on; `ends_iff_unsilenced`.
* `generate_iff`: for which counts every spelling is voiced, whatever the voice leaves out.
-/

namespace StudioWorker.WakeWord

open Text

/-- The samples of a clip, without the silence at both ends. -/
abbrev Clip := List ℤ

/-- One language's multi-speaker generator, with its random numbers in its state. -/
structure Generator (σ : Type) where
  voice : Text
  sampleRate : ℕ
  getPhonemes : Text → List ℕ
  batch : σ → List ℕ → ℕ → List Clip × σ
  batch_length : ∀ s ids size, (batch s ids size).1.length = size

/-- A file that is written, and which of the texts it was voiced of. -/
structure Wav where
  path : Text
  samples : Clip
  rate : ℕ
  turn : ℕ

/-- What `_generate` is asked for, its texts as phonemes. -/
structure Voicing where
  ids : List (List ℕ)
  count : ℕ
  batchSize : ℕ
  into : Text
  stem : Text

/-- `{number:06d}` -/
def sixDigits (number : ℕ) : Text :=
  let digits := Nat.toDigits 10 number
  List.replicate (6 - digits.length) '0' ++ digits

def Voicing.path (sp : Voicing) (written : ℕ) : Text :=
  VoiceSamples.join sp.into (sp.stem ++ '-' :: (sixDigits written ++ ".wav".toList))

/-- `(written // batch_size) % len(ids)` -/
def Voicing.turn (sp : Voicing) (written : ℕ) : ℕ := written / sp.batchSize % sp.ids.length

def Voicing.size (sp : Voicing) (written : ℕ) : ℕ := min sp.batchSize (sp.count - written)

namespace Generator

variable {σ : Type} (g : Generator σ) (sp : Voicing)

def phonemeIds (text : Text) : Except Text (List ℕ) :=
  let ids := g.getPhonemes text
  if ids.length ≤ 4 then
    .error ("'".toList ++ text ++ "' has no phonemes the ".toList ++ g.voice ++
      " voice can speak".toList)
  else .ok ids

/-- The next batch. -/
def ask (s : σ) (written : ℕ) : List Clip × σ :=
  g.batch s (sp.ids.getD (sp.turn written) []) (sp.size written)

/-- The clips of a batch that are not all silence, each written as the next file. -/
def write (turn : ℕ) (written : List Wav) (clips : List Clip) : List Wav :=
  clips.foldl (fun written clip =>
    if clip.length = 0 then written
    else written ++ [⟨sp.path written.length, clip, g.sampleRate, turn⟩]) written

/-- `while written < count`; `none` when that many batches do not get there. -/
def generateFrom : ℕ → σ → List Wav → Option (List Wav)
  | fuel, s, written =>
    if sp.count ≤ written.length then some written
    else
      match fuel with
      | 0 => none
      | fuel + 1 =>
        let (clips, s) := g.ask sp s written.length
        generateFrom fuel s (g.write sp (sp.turn written.length) written clips)

def generate (fuel : ℕ) (s : σ) (texts : List Text) (count batchSize : ℕ) (into stem : Text) :
    Except Text (Option (List Wav)) := do
  let ids ← texts.mapM g.phonemeIds
  return g.generateFrom ⟨ids, count, batchSize, into, stem⟩ fuel s []

/-! ## What is heard -/

/-- How many clips of the next batch are not all silence. -/
def heard (s : σ) (written : ℕ) : ℕ :=
  ((g.ask sp s written).1.filter fun clip => clip.length ≠ 0).length

/-- One batch: the state it leaves the voice in, and how many files there are then. -/
def Asks (c c' : σ × ℕ) : Prop :=
  c.2 < sp.count ∧ c' = ((g.ask sp c.1 c.2).2, c.2 + g.heard sp c.1 c.2)

/-- The state after `m` batches of which nothing is heard. -/
def waited (written m : ℕ) (s : σ) : σ := (fun s => (g.ask sp s written).2)^[m] s

/-- As long as files are missing there comes, asked often enough, a clip that is heard. -/
def Unsilenced (s : σ) : Prop :=
  ∀ c, Relation.ReflTransGen (g.Asks sp) (s, 0) c → c.2 < sp.count →
    ∃ m, 0 < g.heard sp (g.waited sp c.2 m c.1) c.2

variable {g sp}

theorem generateFrom_of_le {fuel : ℕ} {s : σ} {written : List Wav}
    (h : sp.count ≤ written.length) : g.generateFrom sp fuel s written = some written := by
  cases fuel with
  | zero => exact if_pos h
  | succ fuel => exact if_pos h

theorem generateFrom_succ {fuel : ℕ} {s : σ} {written : List Wav} (h : written.length < sp.count) :
    g.generateFrom sp (fuel + 1) s written = g.generateFrom sp fuel (g.ask sp s written.length).2
      (g.write sp (sp.turn written.length) written (g.ask sp s written.length).1) := by
  rw [generateFrom]
  exact if_neg (not_le.mpr h)

theorem exists_succ {fuel : ℕ} {s : σ} {written r : List Wav} (h : written.length < sp.count)
    (hr : g.generateFrom sp fuel s written = some r) : ∃ k, fuel = k + 1 := by
  cases fuel with
  | succ k => exact ⟨k, rfl⟩
  | zero =>
    rw [generateFrom, if_neg (not_le.mpr h)] at hr
    cases hr

variable (g sp) in
/-- What a batch adds. -/
theorem write_eq (turn : ℕ) (written : List Wav) (clips : List Clip) :
    ∃ new, g.write sp turn written clips = written ++ new ∧
      new.length = (clips.filter fun clip => clip.length ≠ 0).length ∧
      (∀ wav ∈ new, wav.turn = turn) ∧
      new.map Wav.path = (List.range' written.length new.length).map sp.path := by
  induction clips generalizing written with
  | nil => exact ⟨[], (List.append_nil _).symm, rfl, fun _ h => absurd h List.not_mem_nil, rfl⟩
  | cons clip clips ih =>
    by_cases hclip : clip.length = 0
    · obtain ⟨new, hnew, hlength, hturn, hpath⟩ := ih written
      refine ⟨new, ?_, ?_, hturn, hpath⟩
      · rw [← hnew, write, List.foldl_cons, if_pos hclip, write]
      · rw [hlength, List.filter_cons, if_neg (by simpa using hclip)]
    · obtain ⟨new, hnew, hlength, hturn, hpath⟩ :=
        ih (written ++ [⟨sp.path written.length, clip, g.sampleRate, turn⟩])
      refine ⟨⟨sp.path written.length, clip, g.sampleRate, turn⟩ :: new, ?_, ?_, ?_, ?_⟩
      · rw [write, List.foldl_cons, if_neg hclip]
        exact hnew.trans (List.append_assoc _ _ _)
      · rw [List.length_cons, hlength, List.filter_cons, if_pos (by simpa using hclip),
          List.length_cons]
      · exact List.forall_mem_cons.mpr ⟨rfl, hturn⟩
      · rw [List.length_append, List.length_singleton] at hpath
        rw [List.map_cons, List.length_cons, List.range'_succ, List.map_cons, hpath]

theorem length_write (s : σ) (turn : ℕ) (written : List Wav) :
    (g.write sp turn written (g.ask sp s written.length).1).length =
      written.length + g.heard sp s written.length := by
  obtain ⟨new, hnew, hlength, -, -⟩ :=
    write_eq g sp turn written (g.ask sp s written.length).1
  rw [hnew, List.length_append, hlength, heard]

/-! ## When it ends -/

/-- The rest of a run ends with it. -/
theorem ends_of_reached {s : σ} {fuel : ℕ} {r : List Wav}
    (hr : g.generateFrom sp fuel s [] = some r) {c : σ × ℕ} (hc : Relation.ReflTransGen (g.Asks sp) (s, 0) c) :
    ∃ fuel written, written.length = c.2 ∧ g.generateFrom sp fuel c.1 written = some r := by
  induction hc with
  | refl => exact ⟨fuel, [], rfl, hr⟩
  | tail _ hstep ih =>
    obtain ⟨fuel, written, hlength, hr⟩ := ih
    obtain ⟨hmore, rfl⟩ := hstep
    rw [← hlength] at hmore ⊢
    obtain ⟨k, rfl⟩ := exists_succ hmore hr
    rw [generateFrom_succ hmore] at hr
    exact ⟨k, _, length_write _ _ _, hr⟩

/-- Whoever ends heard something. -/
theorem exists_heard {fuel : ℕ} {s : σ} {written r : List Wav}
    (hr : g.generateFrom sp fuel s written = some r) (hmore : written.length < sp.count) :
    ∃ m, 0 < g.heard sp (g.waited sp written.length m s) written.length := by
  induction fuel generalizing s with
  | zero =>
    obtain ⟨k, hk⟩ := exists_succ hmore hr
    cases hk
  | succ fuel ih =>
    by_cases hheard : 0 < g.heard sp s written.length
    · exact ⟨0, hheard⟩
    · rw [generateFrom_succ hmore] at hr
      obtain ⟨new, hnew, hlength, -, -⟩ := write_eq g sp (sp.turn written.length)
        written (g.ask sp s written.length).1
      have hnil : new = [] := List.eq_nil_of_length_eq_zero
        (hlength.trans (Nat.eq_zero_of_not_pos hheard))
      rw [hnew, hnil, List.append_nil] at hr
      obtain ⟨m, hm⟩ := ih hr
      exact ⟨m + 1, hm⟩

/-- A run ends when it does so after one more batch. -/
theorem ends_of_ask {s : σ} {w : ℕ} (hmore : w < sp.count)
    (hnext : ∀ written : List Wav, written.length = w + g.heard sp s w →
      ∃ fuel r, g.generateFrom sp fuel (g.ask sp s w).2 written = some r)
    (written : List Wav) (hw : written.length = w) :
    ∃ fuel r, g.generateFrom sp fuel s written = some r := by
  subst hw
  obtain ⟨fuel, r, hr⟩ := hnext _ (length_write s (sp.turn written.length) written)
  exact ⟨fuel + 1, r, by rw [generateFrom_succ hmore, hr]⟩

theorem ends_of_unsilenced {s : σ} (h : g.Unsilenced sp s) {c : σ × ℕ}
    (hc : Relation.ReflTransGen (g.Asks sp) (s, 0) c) (written : List Wav)
    (hw : written.length = c.2) : ∃ fuel r, g.generateFrom sp fuel c.1 written = some r := by
  induction hn : sp.count - c.2 using Nat.strong_induction_on generalizing c written with
  | _ n ih =>
    by_cases hdone : sp.count ≤ c.2
    · exact ⟨0, written, generateFrom_of_le (hw.symm ▸ hdone)⟩
    · have hmore : c.2 < sp.count := not_le.mp hdone
      obtain ⟨m, hm⟩ := h c hc hmore
      obtain ⟨s', w⟩ := c
      dsimp only at hw hm hmore hn
      -- nothing is heard of the first `m` batches, but of the next
      induction m generalizing s' written with
      | zero =>
        refine ends_of_ask hmore (fun written' hw' => ?_) written hw
        have hm' : 0 < g.heard sp s' w := hm
        have hstep : g.Asks sp (s', w) ((g.ask sp s' w).2, w + g.heard sp s' w) := ⟨hmore, rfl⟩
        exact ih _ (by dsimp only; omega) (hc.tail hstep) written' hw' rfl
      | succ m ihm =>
        refine ends_of_ask hmore (fun written' hw' => ?_) written hw
        have hstep : g.Asks sp (s', w) ((g.ask sp s' w).2, w + g.heard sp s' w) := ⟨hmore, rfl⟩
        by_cases hheard : g.heard sp s' w = 0
        · rw [hheard, Nat.add_zero] at hstep hw'
          exact ihm written' (g.ask sp s' w).2 (hc.tail hstep) hw' hdone hm
        · exact ih _ (by dsimp only; omega) (hc.tail hstep) written' hw' rfl

theorem ends_iff_unsilenced {s : σ} :
    (∃ fuel r, g.generateFrom sp fuel s [] = some r) ↔ g.Unsilenced sp s := by
  constructor
  · rintro ⟨fuel, r, hr⟩ c hc hmore
    obtain ⟨fuel, written, hw, hr⟩ := ends_of_reached hr hc
    rw [← hw] at hmore ⊢
    exact exists_heard hr hmore
  · exact fun h => ends_of_unsilenced h Relation.ReflTransGen.refl [] rfl

/-! ## What is written -/

/-- The names of the files so far, and the texts that had their turn. -/
structure Voiced (sp : Voicing) (written : List Wav) : Prop where
  enough : written.length ≤ sp.count
  path : written.map Wav.path = (List.range written.length).map sp.path
  turn : ∀ wav ∈ written, wav.turn < sp.ids.length
  -- a full stretch of files is begun with the text whose turn it is
  block : ∀ j, (j + 1) * sp.batchSize ≤ written.length →
    ∃ wav ∈ written, wav.turn = j % sp.ids.length

theorem voiced_nil (sp : Voicing) (hbatch : 0 < sp.batchSize) : Voiced sp [] where
  enough := Nat.zero_le _
  path := rfl
  turn _ h := absurd h List.not_mem_nil
  block j h := absurd h (not_le.mpr (Nat.mul_pos (Nat.succ_pos j) hbatch))

theorem voiced_write (hids : sp.ids ≠ []) {s : σ} {written : List Wav}
    (h : Voiced sp written) :
    Voiced sp (g.write sp (sp.turn written.length) written (g.ask sp s written.length).1) := by
  obtain ⟨new, hnew, hlength, hturn, hpath⟩ :=
    write_eq g sp (sp.turn written.length) written (g.ask sp s written.length).1
  have hsize : new.length ≤ sp.size written.length := by
    rw [hlength, ← g.batch_length s _ (sp.size written.length)]
    exact List.length_filter_le _ _
  have hsize' := hsize
  rw [Voicing.size] at hsize'
  have henough := h.enough
  rw [hnew]
  refine ⟨?_, ?_, fun wav hwav => ?_, fun j hj => ?_⟩
  · rw [List.length_append]
    omega
  · have hrange := List.range'_append_1 (s := 0) (m := written.length) (n := new.length)
    rw [Nat.zero_add] at hrange
    rw [List.map_append, h.path, hpath, List.length_append, List.range_eq_range',
      List.range_eq_range', ← List.map_append, hrange]
  · rcases List.mem_append.mp hwav with hwav | hwav
    · exact h.turn wav hwav
    · rw [hturn wav hwav]
      exact Nat.mod_lt _ (List.length_pos_iff.mpr hids)
  · by_cases hold : (j + 1) * sp.batchSize ≤ written.length
    · obtain ⟨wav, hwav, heq⟩ := h.block j hold
      exact ⟨wav, List.mem_append_left _ hwav, heq⟩
    · rw [List.length_append] at hj
      have hpos : 0 < new.length := by omega
      have hsucc : (j + 1) * sp.batchSize = j * sp.batchSize + sp.batchSize := Nat.succ_mul j _
      have hj' : written.length / sp.batchSize = j :=
        Nat.div_eq_of_lt_le (by omega) (not_le.mp hold)
      refine ⟨new[0], List.mem_append_right _ (List.getElem_mem hpos), ?_⟩
      rw [hturn _ (List.getElem_mem hpos), Voicing.turn, hj']

theorem voiced_generateFrom (hids : sp.ids ≠ []) {fuel : ℕ} {s : σ}
    {written r : List Wav} (h : Voiced sp written)
    (hr : g.generateFrom sp fuel s written = some r) : Voiced sp r ∧ r.length = sp.count := by
  induction fuel generalizing s written with
  | zero =>
    by_cases hdone : sp.count ≤ written.length
    · rw [generateFrom_of_le hdone] at hr
      obtain rfl := Option.some_inj.mp hr
      exact ⟨h, le_antisymm h.enough hdone⟩
    · obtain ⟨k, hk⟩ := exists_succ (not_le.mp hdone) hr
      cases hk
  | succ fuel ih =>
    by_cases hdone : sp.count ≤ written.length
    · rw [generateFrom_of_le hdone] at hr
      obtain rfl := Option.some_inj.mp hr
      exact ⟨h, le_antisymm h.enough hdone⟩
    · rw [generateFrom_succ (not_le.mp hdone)] at hr
      exact ih (voiced_write hids h) hr

end Generator

/-! ## Names -/

theorem sixDigits_injective {a b : ℕ} (h : sixDigits a = sixDigits b) : a = b := by
  have hread : ∀ n, Nat.ofDigitChars 10 (sixDigits n) 0 = n := by
    intro n
    rw [sixDigits, Nat.ofDigitChars_append, Nat.ofDigitChars_replicate_zero, Nat.mul_zero,
      Nat.ofDigitChars_ten_toDigits]
  rw [← hread a, h, hread]

theorem Voicing.path_injective (sp : Voicing) {a b : ℕ} (h : sp.path a = sp.path b) : a = b := by
  have hname : ∀ {x y : Text}, x.head? = y.head? → VoiceSamples.join sp.into x =
      VoiceSamples.join sp.into y → x = y := by
    intro x y hhead hjoin
    rw [VoiceSamples.join, VoiceSamples.join, hhead] at hjoin
    split_ifs at hjoin
    · exact hjoin
    · exact List.append_cancel_left hjoin
    · exact (List.cons.inj (List.append_cancel_left hjoin)).2
  refine sixDigits_injective (List.append_cancel_right (List.cons.inj (List.append_cancel_left
    (hname ?_ h))).2)
  rw [List.head?_append, List.head?_append]
  rfl

/-! ## Which texts are voiced -/

section Coverage

variable {σ : Type} (texts : List Text) (count batchSize : ℕ) (into stem : Text)

/-- The run ends, with as many files as were asked for, under names that differ; and when these are
as many as the texts, each text is voiced. -/
def Generator.Covers (g : Generator σ) (s : σ) : Prop :=
  ∃ fuel written, g.generate fuel s texts count batchSize into stem = .ok (some written) ∧
    written.length = count ∧ (written.map Wav.path).Nodup ∧
    (texts.length ≤ count → ∀ k < texts.length, ∃ wav ∈ written, wav.turn = k)

variable {texts count batchSize into stem}

theorem generate_eq {g : Generator σ} {s : σ} {fuel : ℕ} {ids : List (List ℕ)}
    (hids : texts.mapM g.phonemeIds = .ok ids) :
    g.generate fuel s texts count batchSize into stem =
      .ok (g.generateFrom ⟨ids, count, batchSize, into, stem⟩ fuel s []) := by
  rw [Generator.generate, hids]
  rfl

theorem covers_of_unsilenced {g : Generator σ} {s : σ} {ids : List (List ℕ)} (htexts : texts ≠ [])
    (hbatch : 0 < batchSize) (hids : texts.mapM g.phonemeIds = .ok ids)
    (h : g.Unsilenced ⟨ids, count, batchSize, into, stem⟩ s)
    (hcount : texts.length ≤ count → texts.length = 1 ∨ texts.length * batchSize ≤ count) :
    g.Covers texts count batchSize into stem s := by
  have hlength : ids.length = texts.length := Lib.Fallible.length_of_mapM_ok hids
  have hne : ids ≠ [] := by
    rintro rfl
    exact htexts (List.eq_nil_of_length_eq_zero hlength.symm)
  obtain ⟨fuel, r, hr⟩ := Generator.ends_iff_unsilenced.mpr h
  obtain ⟨hvoiced, hr'⟩ := Generator.voiced_generateFrom hne (Generator.voiced_nil _ hbatch) hr
  refine ⟨fuel, r, by rw [generate_eq hids, hr], hr', ?_, fun hle k hk => ?_⟩
  · rw [hvoiced.path]
    exact List.nodup_range.map fun _ _ => Voicing.path_injective _
  · rcases hcount hle with hone | hmany
    · have hpos : 0 < r.length := by
        rw [hr']
        exact Nat.zero_lt_of_lt (hk.trans_le hle)
      have hturn := hvoiced.turn r[0] (List.getElem_mem hpos)
      dsimp only at hturn
      exact ⟨r[0], List.getElem_mem hpos, by omega⟩
    · have hblock : (k + 1) * batchSize ≤ r.length := by
        rw [hr']
        exact (Nat.mul_le_mul_right _ hk).trans hmany
      obtain ⟨wav, hwav, heq⟩ := hvoiced.block k hblock
      dsimp only at heq
      rw [hlength, Nat.mod_eq_of_lt hk] at heq
      exact ⟨wav, hwav, heq⟩

/-- A voice that is heard for some clips, then pauses to the end of the batch, and is heard from
then on. -/
def pausing : Generator ℕ where
  voice := []
  sampleRate := 22050
  getPhonemes _ := List.replicate 5 0
  batch left _ size :=
    if left = 0 then (List.replicate size [1], 0)
    else (List.replicate (min left size) [1] ++ List.replicate (size - min left size) [],
      left - size)
  batch_length left _ size := by
    split_ifs
    · exact List.length_replicate
    · rw [List.length_append, List.length_replicate, List.length_replicate]
      omega

section Pausing

variable {sp : Voicing}

theorem heard_pausing (left w : ℕ) : pausing.heard sp left w =
    if left = 0 then sp.size w else min left (sp.size w) := by
  have hone : ∀ m : ℕ, ((List.replicate m ([1] : Clip)).filter fun clip => clip.length ≠ 0) =
      List.replicate m [1] := fun m => List.filter_eq_self.mpr fun clip hclip => by
    rw [List.eq_of_mem_replicate hclip]
    rfl
  have hnone : ∀ m : ℕ, ((List.replicate m ([] : Clip)).filter fun clip => clip.length ≠ 0) = [] :=
    fun m => List.filter_eq_nil_iff.mpr fun clip hclip => by
      rw [List.eq_of_mem_replicate hclip]
      exact Bool.false_ne_true
  rw [Generator.heard, Generator.ask, pausing]
  dsimp only
  split_ifs
  · rw [hone, List.length_replicate]
  · rw [List.filter_append, hone, hnone, List.append_nil, List.length_replicate]

theorem ask_pausing (left w : ℕ) : (pausing.ask sp left w).2 = left - sp.size w := by
  rw [Generator.ask, pausing]
  dsimp only
  split_ifs with hzero
  · rw [hzero, Nat.zero_sub]
  · rfl

theorem pausing_unsilenced (hbatch : 0 < sp.batchSize) (left : ℕ) : pausing.Unsilenced sp left := by
  intro c _ hmore
  refine ⟨0, ?_⟩
  show 0 < pausing.heard sp c.1 c.2
  have hsize : 0 < sp.size c.2 := by
    rw [Voicing.size]
    omega
  rw [heard_pausing]
  split_ifs
  · exact hsize
  · omega

/-- When it pauses so that the last batch fills up what is missing, the last text has no turn. -/
theorem turn_pausing (hlength : 2 ≤ sp.ids.length) (hfew : sp.count < sp.ids.length * sp.batchSize)
    {fuel left : ℕ} {written r : List Wav}
    (hleft : written.length + left = sp.count - sp.batchSize ∨ sp.count ≤ written.length)
    (hturn : ∀ wav ∈ written, wav.turn < sp.ids.length - 1)
    (hr : pausing.generateFrom sp fuel left written = some r) :
    ∀ wav ∈ r, wav.turn < sp.ids.length - 1 := by
  induction fuel generalizing left written with
  | zero =>
    by_cases hdone : sp.count ≤ written.length
    · rw [Generator.generateFrom_of_le hdone] at hr
      exact Option.some_inj.mp hr ▸ hturn
    · obtain ⟨k, hk⟩ := Generator.exists_succ (not_le.mp hdone) hr
      cases hk
  | succ fuel ih =>
    by_cases hdone : sp.count ≤ written.length
    · rw [Generator.generateFrom_of_le hdone] at hr
      exact Option.some_inj.mp hr ▸ hturn
    · have hw := hleft.resolve_right hdone
      have hmore := not_le.mp hdone
      rw [Generator.generateFrom_succ hmore] at hr
      have hbefore : written.length < (sp.ids.length - 1) * sp.batchSize := by
        rw [Nat.sub_mul, Nat.one_mul]
        have hone := Nat.mul_le_mul_right sp.batchSize hlength
        omega
      have hnow : sp.turn written.length < sp.ids.length - 1 :=
        (Nat.mod_le _ _).trans_lt (Nat.div_lt_of_lt_mul (Nat.mul_comm _ _ ▸ hbefore))
      refine ih ?_ ?_ hr
      · rw [Generator.length_write, heard_pausing, ask_pausing, Voicing.size]
        split_ifs
        · omega
        · omega
      · intro wav hwav
        obtain ⟨new, hnew, -, hturn', -⟩ := Generator.write_eq pausing sp (sp.turn written.length)
          written (pausing.ask sp left written.length).1
        rw [hnew] at hwav
        rcases List.mem_append.mp hwav with hwav | hwav
        · exact hturn wav hwav
        · rw [hturn' wav hwav]
          exact hnow

end Pausing

theorem mapM_pausing (texts : List Text) : ∃ ids, texts.mapM pausing.phonemeIds = .ok ids :=
  Lib.Fallible.mapM_ok_iff.mpr fun _ _ => ⟨List.replicate 5 0, rfl⟩

end Coverage

/-- A run ends exactly when its voice does not fall silent for good; and the files are all that was
asked of them, for every such voice, exactly when there is one text only or a full batch for every
text, or fewer files than texts. -/
theorem generate_iff {texts : List Text} (htexts : texts ≠ []) {batchSize : ℕ}
    (hbatch : 0 < batchSize) (count : ℕ) (into stem : Text) :
    (∀ (σ : Type) (g : Generator σ) (s : σ) ids, texts.mapM g.phonemeIds = .ok ids →
      ((∃ fuel written, g.generate fuel s texts count batchSize into stem = .ok (some written)) ↔
        g.Unsilenced ⟨ids, count, batchSize, into, stem⟩ s)) ∧
    ((∀ (σ : Type) (g : Generator σ) (s : σ) ids, texts.mapM g.phonemeIds = .ok ids →
      g.Unsilenced ⟨ids, count, batchSize, into, stem⟩ s →
        g.Covers texts count batchSize into stem s) ↔
      (texts.length ≤ count → texts.length = 1 ∨ texts.length * batchSize ≤ count)) := by
  refine ⟨fun σ g s ids hids => ?_, fun hall hle => ?_, fun hcount σ g s ids hids h =>
    covers_of_unsilenced htexts hbatch hids h hcount⟩
  · rw [← Generator.ends_iff_unsilenced]
    simp only [generate_eq hids, Except.ok.injEq]
  · by_contra hnot
    obtain ⟨hone, hfew⟩ := not_or.mp hnot
    have hpos := List.length_pos_iff.mpr htexts
    obtain ⟨ids, hids⟩ := mapM_pausing texts
    have hlength : ids.length = texts.length := Lib.Fallible.length_of_mapM_ok hids
    obtain ⟨fuel, r, hr, -, -, hcovered⟩ := hall ℕ pausing (count - batchSize) ids hids
      (pausing_unsilenced hbatch _)
    rw [generate_eq hids, Except.ok.injEq] at hr
    obtain ⟨wav, hwav, hlast⟩ := hcovered hle (texts.length - 1) (by omega)
    have hturn := turn_pausing (by dsimp only; omega)
      (by dsimp only; rw [hlength]; exact not_le.mp hfew)
      (.inl (Nat.zero_add _)) (fun _ h => absurd h List.not_mem_nil) hr wav hwav
    dsimp only at hturn
    omega

/-- Two spellings, a full batch for each. -/
theorem generate_iff_two :
    (["hey roona".toList, "hey runa".toList] : List Text) ≠ [] ∧ 0 < 50 ∧
      pausing.Covers ["hey roona".toList, "hey runa".toList] 100 50 "samples".toList "en".toList
        30 := by
  have htexts : (["hey roona".toList, "hey runa".toList] : List Text) ≠ [] := List.cons_ne_nil _ _
  refine ⟨htexts, by decide, ?_⟩
  obtain ⟨ids, hids⟩ := mapM_pausing ["hey roona".toList, "hey runa".toList]
  exact ((generate_iff htexts (by decide) 100 _ _).2.mpr fun _ => .inr le_rfl) ℕ pausing 30 ids hids
    (pausing_unsilenced (Nat.succ_pos 49) 30)

/-- Of two spellings only the first is voiced when one batch is all there is. -/
theorem generate_oneBatch :
    ((pausing.generate 1 0 ["hey roona".toList, "hey runa".toList] 100 256 "samples".toList
      "en".toList).toOption.bind fun written => written.map fun written => written.map Wav.turn) =
      some (List.replicate 100 0) := by
  decide +kernel

end StudioWorker.WakeWord
