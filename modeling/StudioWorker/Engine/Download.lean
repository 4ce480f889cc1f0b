import Mathlib.Algebra.GroupWithZero.Nat
import StudioWorker.Lib.Directory
import StudioWorker.Lib.Pool
import StudioWorker.Lib.System
import StudioWorker.Text

/-!
# Engine.Download — resumable downloads into one directory (`src/engine/download.rs`)

`download_file_verified` streams a body into `<stem>.part` and renames it over its destination.  A
leftover `.part` is resumed: what it holds is taken for the start of the body, whoever wrote it.

The digest is of what was read from the leftover and what was streamed, not of the file that is
renamed.  Runs go in any order, and each may stop anywhere.

* `Run.advance`: what one run does next.
* `Fits`: the steps that no other run and no foreign leftover can spoil.
* `done_holds_body`: what a run that returns `Ok` leaves, over whole histories.
-/

namespace StudioWorker.Download

open Lib Lib.System Text

abbrev Bytes := List UInt8

abbrev Dir := Directory Text UInt8

/-! ## Names and checks -/

def partExtension : Text := ['.', 'p', 'a', 'r', 't']

/-- `Path::file_stem`: the name before its last dot, unless that is the first character. -/
def fileStem (name : Text) : Text :=
  match rsplitOnce ['.'] name with
  | some (stem, _) => if stem = [] then name else stem
  | none => name

/-- `dest.with_extension("part")` -/
def partOf (dest : Text) : Text := fileStem dest ++ partExtension

def verifyDownloadLen (copied : ℕ) : Option ℕ → Bool
  | some expected => copied == expected
  | none => true

def verifySha256 (actualHex : Text) : Option Text → Bool
  | some expected => eqIgnoreAsciiCase actualHex (trim expected)
  | none => true

/-- `u64::from_str` -/
def parseU64 (t : Text) : Option ℕ :=
  let digits := (Text.stripPrefix ['+'] t).getD t
  if digits = [] ∨ digits.any (fun c => !c.isDigit) then none
  else
    let n := digits.foldl (fun acc c => acc * 10 + (c.toNat - '0'.toNat)) 0
    if n < 2 ^ 64 then some n else none

def bytesUnit : Text := ['b', 'y', 't', 'e', 's', ' ']

def contentRangeStart (header : Text) : Option ℕ :=
  (Text.stripPrefix bytesUnit (trim header)).bind fun range => parseU64 (range.takeWhile (· ≠ '-'))

/-! ## One run -/

/-- A body being streamed into an open file. -/
structure Stream where
  inode : ℕ
  /-- Where the next write goes; `none` is a handle that appends. -/
  offset : Option ℕ
  /-- What the digest covers so far. -/
  digested : Bytes
  copied : ℕ
  /-- What the server has yet to send. -/
  remaining : Bytes
  declared : Option ℕ
deriving DecidableEq

/-- The stream past a chunk. -/
def Stream.past (h : Stream) (n : ℕ) : Stream :=
  { h with
    offset := h.offset.map (· + n)
    digested := h.digested ++ h.remaining.take n
    copied := h.copied + n
    remaining := h.remaining.drop n }

inductive Phase where
  | started
  /-- The request is sent, with a range when the leftover is not empty. -/
  | waiting (resumeFrom : ℕ)
  /-- The server answers the range that was asked for. -/
  | resuming (resumeFrom : ℕ) (declared : Option ℕ)
  /-- About to open the file: to append to the leftover that was digested, or anew. -/
  | opening (leftover : Option Bytes) (declared : Option ℕ) (remaining : Bytes)
  | streaming (stream : Stream)
  /-- Length and digest hold. -/
  | verified
  /-- Returned `Ok`. -/
  | done
  | failed
  | killed
deriving DecidableEq

structure Run where
  url : Text
  dest : Text
  expected : Option Text
  phase : Phase
deriving DecidableEq

/-- What the server or the system does to a run next.  `removed` is whether a file that is to be
removed could be. -/
inductive RunEvent where
  /-- Look at the leftover and send the request. -/
  | look
  | requestError
  /-- `416`. -/
  | notSatisfiable (removed : Bool)
  /-- A status that is no success. -/
  | refused
  /-- The whole body. -/
  | full (declared : Option ℕ)
  /-- `206`: the body from `start` on, and what the `Content-Range` says. -/
  | ranged (start : ℕ) (contentRange : Option Text) (declared : Option ℕ) (removed : Bool)
  /-- Fold the leftover into the digest. -/
  | digestPart
  | openFile
  /-- The next bytes arrive and are written. -/
  | chunk (n : ℕ)
  | readError (removed : Bool)
  /-- The body ended: compare its length and its digest. -/
  | verify (removed : Bool)
  | rename
  /-- An open, a read of the leftover or a rename fails. -/
  | ioError
  | kill
deriving DecidableEq

namespace Run

def part (r : Run) : Text := partOf r.dest

/-- The run has neither returned nor been killed. -/
def Live (r : Run) : Prop := r.phase ≠ .done ∧ r.phase ≠ .failed ∧ r.phase ≠ .killed

instance (r : Run) : Decidable r.Live := inferInstanceAs (Decidable (_ ∧ _ ∧ _))

/-- The length of the leftover. -/
def resumeFrom (r : Run) (d : Dir) : ℕ := ((d.file r.part).map (·.2.length)).getD 0

/-- `remove_temp_file`: a removal that fails is only logged. -/
def discard (r : Run) (d : Dir) (removed : Bool) : Dir := if removed then d.remove r.part else d

/-- The bytes of a chunk, written through the handle. -/
def write (d : Dir) (h : Stream) (bytes : Bytes) : Dir :=
  match h.offset with
  | none => d.put h.inode (d.content h.inode ++ bytes)
  | some offset => d.put h.inode (Directory.overwrite 0 (d.content h.inode) offset bytes)

variable (body : Text → Bytes) (sha : Bytes → Text)

/-- What one run does next, to the directory and to itself.  A `206` is honest: its body starts
within the whole and where its `Content-Range` says. -/
def advance (d : Dir) (r : Run) : RunEvent → Option (Dir × Run)
  | .look =>
    match r.phase with
    | .started => some (d, { r with phase := .waiting (r.resumeFrom d) })
    | _ => none
  | .requestError | .refused =>
    match r.phase with
    | .waiting _ => some (d, { r with phase := .failed })
    | _ => none
  | .notSatisfiable removed =>
    match r.phase with
    | .waiting n =>
      if 0 < n then some (r.discard d removed, { r with phase := .started })
      else some (d, { r with phase := .failed })
    | _ => none
  | .full declared =>
    match r.phase with
    | .waiting _ => some (d, { r with phase := .opening none declared (body r.url) })
    | _ => none
  | .ranged start contentRange declared removed =>
    match r.phase with
    | .waiting n =>
      if 0 < n ∧ start < (body r.url).length ∧
          ∀ m ∈ contentRange.bind contentRangeStart, m = start then
        if contentRange.bind contentRangeStart = some n then
          some (d, { r with phase := .resuming n declared })
        else some (r.discard d removed, { r with phase := .started })
      else none
    | _ => none
  | .digestPart =>
    match r.phase with
    | .resuming n declared =>
      match d.file r.part with
      | some (_, c) =>
        some (d, { r with phase := .opening (some c) declared ((body r.url).drop n) })
      | none => some (d, { r with phase := .failed })
    | _ => none
  | .openFile =>
    match r.phase with
    | .opening none declared remaining =>
      some ((d.create r.part).1,
        { r with phase := .streaming ⟨(d.create r.part).2, some 0, [], 0, remaining, declared⟩ })
    | .opening (some leftover) declared remaining =>
      match d.entry r.part with
      | some i =>
        some (d, { r with phase := .streaming ⟨i, none, leftover, 0, remaining, declared⟩ })
      | none => some (d, { r with phase := .failed })
    | _ => none
  | .chunk n =>
    match r.phase with
    | .streaming h =>
      if 0 < n ∧ n ≤ h.remaining.length then
        some (write d h (h.remaining.take n), { r with phase := .streaming (h.past n) })
      else none
    | _ => none
  | .readError removed =>
    match r.phase with
    | .streaming _ => some (r.discard d removed, { r with phase := .failed })
    | _ => none
  | .verify removed =>
    match r.phase with
    | .streaming h =>
      if h.remaining = [] then
        if verifyDownloadLen h.copied h.declared && verifySha256 (sha h.digested) r.expected then
          some (d, { r with phase := .verified })
        else some (r.discard d removed, { r with phase := .failed })
      else none
    | _ => none
  | .rename =>
    match r.phase with
    | .verified =>
      match d.rename r.part r.dest with
      | some d' => some (d', { r with phase := .done })
      | none => some (d, { r with phase := .failed })
    | _ => none
  | .ioError =>
    match r.phase with
    | .resuming _ _ | .opening _ _ _ | .verified => some (d, { r with phase := .failed })
    | _ => none
  | .kill => if r.Live then some (d, { r with phase := .killed }) else none

/-! ## What a run relies on -/

/-- What was read and what is to come make up the body, or fail the digest that is expected. -/
def Right (r : Run) (seen rest : Bytes) : Prop :=
  seen ++ rest = body r.url ∨ verifySha256 (sha (seen ++ rest)) r.expected = false

/-- The `.part` file is as the run left it, and what it holds is right so far. -/
def Sound (d : Dir) (r : Run) : Prop :=
  match r.phase with
  | .waiting n | .resuming n _ => r.resumeFrom d = n
  | .opening none _ rest => rest = body r.url
  | .opening (some leftover) _ rest =>
    (∃ i, d.file r.part = some (i, leftover)) ∧ r.Right body sha leftover rest
  | .streaming h =>
    d.file r.part = some (h.inode, h.digested) ∧ (∀ o ∈ h.offset, o = h.digested.length) ∧
      r.Right body sha h.digested h.remaining
  | .verified =>
    (∃ i, d.file r.part = some (i, body r.url)) ∧
      verifySha256 (sha (body r.url)) r.expected = true
  | .started | .done | .failed | .killed => True

/-- A leftover that is about to be resumed is the start of the body, or the expected digest will
tell. -/
def FitsLeftover (d : Dir) (r : Run) : Prop :=
  ∀ f ∈ d.file r.part, r.Right body sha f.2 ((body r.url).drop f.2.length)

/-- The step can be spoiled by no foreign leftover. -/
def FitsEvent (d : Dir) (r : Run) : RunEvent → Prop
  | .digestPart => r.FitsLeftover body sha d
  | _ => True

variable {body sha} {d d' : Dir} {r r' : Run} {e : RunEvent}

/-- What a run relies on is the file its `.part` name leads to. -/
theorem Sound.congr (h : r.Sound body sha d) (hfile : d'.file r.part = d.file r.part) :
    r.Sound body sha d' := by
  unfold Sound resumeFrom at h ⊢
  rw [hfile]
  exact h

/-- A run whose bytes were all read holds the body, when their digest is the one expected. -/
theorem Right.eq_body {seen : Bytes} (h : r.Right body sha seen [])
    (hsha : verifySha256 (sha seen) r.expected = true) : seen = body r.url := by
  unfold Right at h
  rw [List.append_nil] at h
  rcases h with h | h
  · exact h
  · rw [hsha] at h
    cases h

theorem Right.past {h : Stream} (hr : r.Right body sha h.digested h.remaining) (n : ℕ) :
    r.Right body sha (h.past n).digested (h.past n).remaining := by
  unfold Right at hr ⊢
  have happ : (h.past n).digested ++ (h.past n).remaining = h.digested ++ h.remaining := by
    show h.digested ++ h.remaining.take n ++ h.remaining.drop n = _
    rw [List.append_assoc, List.take_append_drop]
  rw [happ]
  exact hr

/-- A run in a phase that relies on nothing. -/
theorem sound_of_phase (h : r.phase = .started ∨ r.phase = .done ∨ r.phase = .failed ∨
    r.phase = .killed) : r.Sound body sha d := by
  unfold Sound
  rcases h with h | h | h | h <;> rw [h] <;> trivial

/-- What a step is to the other runs and to the run itself. -/
structure Advanced (body : Text → Bytes) (sha : Bytes → Text) (d : Dir) (r : Run) (d' : Dir)
    (r' : Run) : Prop where
  live : r.Live
  url : r'.url = r.url
  dest : r'.dest = r.dest
  expected : r'.expected = r.expected
  frames : Directory.Frames (fun n => n = r.part ∨ n = r.dest) d d'
  sound : r'.Sound body sha d'

/-- A step that changes nothing but the phase. -/
theorem advanced_phase {p : Phase} (hlive : r.Live)
    (hsound : Sound body sha d { r with phase := p }) :
    Advanced body sha d r d { r with phase := p } :=
  ⟨hlive, rfl, rfl, rfl, .refl d, hsound⟩

/-- A step that gives up what the `.part` file holds. -/
theorem advanced_discard {p : Phase} {removed : Bool} (hlive : r.Live)
    (hp : p = .started ∨ p = .failed) :
    Advanced body sha d r (r.discard d removed) { r with phase := p } := by
  refine ⟨hlive, rfl, rfl, rfl, ?_, sound_of_phase (by tauto)⟩
  unfold discard
  split_ifs
  · intro n hn
    exact Directory.frames_remove d r.part n fun h => hn (.inl h)
  · exact .refl d

/-- One step of a sound run. -/
theorem advanced (hs : r.Sound body sha d) (hfit : r.FitsEvent body sha d e)
    (h : r.advance body sha d e = some (d', r')) : Advanced body sha d r d' r' := by
  obtain ⟨url, dest, expected, phase⟩ := r
  cases e with
  | look =>
    simp only [advance] at h
    split at h <;> cases h
    exact advanced_phase (by simp [Live]) rfl
  | requestError =>
    simp only [advance] at h
    split at h <;> cases h
    exact advanced_phase (by simp [Live]) trivial
  | refused =>
    simp only [advance] at h
    split at h <;> cases h
    exact advanced_phase (by simp [Live]) trivial
  | notSatisfiable removed =>
    simp only [advance] at h
    split at h
    · split_ifs at h <;> cases h
      · exact advanced_discard (by simp [Live]) (.inl rfl)
      · exact advanced_phase (by simp [Live]) trivial
    · cases h
  | full declared =>
    simp only [advance] at h
    split at h <;> cases h
    exact advanced_phase (by simp [Live]) rfl
  | ranged start contentRange declared removed =>
    simp only [advance] at h
    split at h
    · split_ifs at h <;> cases h
      · exact advanced_phase (by simp [Live]) hs
      · exact advanced_discard (by simp [Live]) (.inl rfl)
    · cases h
  | digestPart =>
    simp only [advance] at h
    split at h
    · rename_i n declared
      split at h
      · rename_i i c hfile
        cases h
        have hlen : c.length = n := by
          have hs : resumeFrom _ d = n := hs
          rw [resumeFrom, hfile] at hs
          exact hs
        have hright := hfit (i, c) hfile
        rw [hlen] at hright
        exact advanced_phase (by simp [Live]) ⟨⟨i, hfile⟩, hright⟩
      · cases h
        exact advanced_phase (by simp [Live]) trivial
    · cases h
  | openFile =>
    simp only [advance] at h
    split at h
    · rename_i declared remaining
      cases h
      refine ⟨by simp [Live], rfl, rfl, rfl, fun n hn => ?_, ?_⟩
      · exact Directory.frames_create d _ n fun h => hn (.inl h)
      · refine ⟨Directory.file_create d _, fun o ho => ?_, .inl hs⟩
        cases ho
        rfl
    · rename_i leftover declared remaining
      obtain ⟨⟨i, hfile⟩, hright⟩ := hs
      obtain ⟨hentry, -⟩ := Directory.file_eq_some.mp hfile
      have hentry : d.entry (part ⟨url, dest, expected, .opening (some leftover) declared remaining⟩) =
        some i := hentry
      rw [hentry] at h
      cases h
      exact advanced_phase (by simp [Live]) ⟨hfile, fun o ho => (by cases ho), hright⟩
    · cases h
  | chunk n =>
    simp only [advance] at h
    split at h
    · rename_i stream
      split_ifs at h with hn
      cases h
      obtain ⟨hfile, hoffset, hright⟩ := hs
      obtain ⟨hentry, hcontent⟩ := Directory.file_eq_some.mp hfile
      have hwrite : write d stream (stream.remaining.take n) =
          d.put stream.inode (stream.digested ++ stream.remaining.take n) := by
        unfold write
        rcases ho : stream.offset with _ | o
        · rw [hcontent]
        · rw [hcontent, hoffset o ho]
          exact congrArg (d.put stream.inode) (Directory.overwrite_length ..)
      refine ⟨by simp [Live], rfl, rfl, rfl, fun m hm => ?_, ?_, ?_, hright.past n⟩
      · rw [hwrite]
        exact Directory.frames_put hentry m fun h => hm (.inl h)
      · rw [hwrite]
        exact Directory.file_put hentry
      · intro o ho
        obtain ⟨o', ho', rfl⟩ := Option.map_eq_some_iff.mp ho
        show o' + n = (stream.digested ++ stream.remaining.take n).length
        rw [hoffset o' ho', List.length_append, List.length_take, Nat.min_eq_left hn.2]
    · cases h
  | readError removed =>
    simp only [advance] at h
    split at h <;> cases h
    exact advanced_discard (by simp [Live]) (.inr rfl)
  | verify removed =>
    simp only [advance] at h
    split at h
    · rename_i stream
      split_ifs at h with hend hok <;> cases h
      · obtain ⟨hfile, -, hright⟩ := hs
        rw [Bool.and_eq_true] at hok
        rw [hend] at hright
        have hbody := hright.eq_body hok.2
        refine advanced_phase (by simp [Live]) ⟨⟨stream.inode, ?_⟩, ?_⟩
        · exact hfile.trans (congrArg (fun c => some (stream.inode, c)) hbody)
        · exact hbody ▸ hok.2
      · exact advanced_discard (by simp [Live]) (.inr rfl)
    · cases h
  | rename =>
    simp only [advance] at h
    split at h
    · split at h
      · rename_i d'' hrename
        cases h
        exact ⟨by simp [Live], rfl, rfl, rfl, Directory.frames_rename hrename, trivial⟩
      · cases h
        exact advanced_phase (by simp [Live]) trivial
    · cases h
  | ioError =>
    simp only [advance] at h
    split at h <;> cases h
    all_goals exact advanced_phase (by simp [Live]) trivial
  | kill =>
    simp only [advance] at h
    split_ifs at h with hlive
    cases h
    exact advanced_phase hlive trivial

/-- A sound run that returns `Ok` renamed the whole body. -/
theorem Sound.rename_done (hs : r.Sound body sha d)
    (h : r.advance body sha d .rename = some (d', r')) (hdone : r'.phase = .done) :
    (d'.file r'.dest).map (·.2) = some (body r'.url) ∧
      verifySha256 (sha (body r'.url)) r'.expected = true := by
  obtain ⟨url, dest, expected, phase⟩ := r
  simp only [advance] at h
  split at h
  · obtain ⟨⟨i, hfile⟩, hsha⟩ := hs
    split at h
    · rename_i d'' hrename
      cases h
      refine ⟨?_, hsha⟩
      rw [Directory.file_rename hrename, hfile]
      rfl
    · cases h
      cases hdone
  · cases h

end Run

/-! ## Runs into one directory -/

/-- The directory and the runs that were started, in order. -/
structure Downloads where
  dir : Dir
  runs : List Run

inductive Event where
  | start (url dest : Text) (expected : Option Text)
  /-- The `k`-th run goes on. -/
  | run (k : ℕ) (e : RunEvent)
deriving DecidableEq

/-- No run of two that are live touches the file that the other one fills. -/
def Apart (r r' : Run) : Prop :=
  r.Live → r'.Live → r.part ≠ r'.part ∧ r.dest ≠ r'.part ∧ r'.dest ≠ r.part

namespace Downloads

variable (body : Text → Bytes) (sha : Bytes → Text)

def step : System Downloads Event
  | s, .start url dest expected =>
    some { s with runs := s.runs ++ [⟨url, dest, expected, .started⟩] }
  | s, .run k e =>
    match s.runs[k]? with
    | some r => (r.advance body sha s.dir e).map fun p => ⟨p.1, s.runs.set k p.2⟩
    | none => none

/-- A run is started beside no live run on the same `.part` file, or that one would rename over
the other's; and the leftovers that are resumed fit. -/
def Fits (s : Downloads) : Event → Prop
  | .start _ dest _ => ∀ r ∈ s.runs, r.Live →
      r.part ≠ partOf dest ∧ r.dest ≠ partOf dest ∧ dest ≠ r.part
  | .run k e => ∀ r ∈ s.runs[k]?, r.FitsEvent body sha s.dir e

/-- The live runs keep out of each other's way, and each finds its file as it left it. -/
structure Sound (s : Downloads) : Prop where
  apart : s.runs.Pairwise Apart
  runs : ∀ r ∈ s.runs, r.Sound body sha s.dir

variable {body sha} {s t : Downloads} {e : Event}

/-- A step of one run leaves the runs it is apart from as they were. -/
theorem sound_of_apart {d d' : Dir} {r r' q : Run} (hadv : Run.Advanced body sha d r d' r')
    (hq : q.Sound body sha d) (hapart : q.Live → r.part ≠ q.part ∧ r.dest ≠ q.part) :
    q.Sound body sha d' := by
  by_cases hlive : q.Live
  · obtain ⟨hpart, hdest⟩ := hapart hlive
    refine hq.congr (hadv.frames q.part ?_)
    rintro (h | h)
    · exact hpart h.symm
    · exact hdest h.symm
  · unfold Run.Live at hlive
    exact Run.sound_of_phase (by tauto)

theorem sound_step (hs : s.Sound body sha) (hfit : s.Fits body sha e)
    (h : step body sha s e = some t) : t.Sound body sha := by
  cases e with
  | start url dest expected =>
    cases h
    refine ⟨?_, fun r hr => ?_⟩
    · rw [List.pairwise_append]
      refine ⟨hs.apart, List.pairwise_singleton _ _, fun r hr q hq hlive _ => ?_⟩
      obtain rfl := List.mem_singleton.mp hq
      exact hfit r hr hlive
    · rcases List.mem_append.mp hr with hr | hr
      · exact hs.runs r hr
      · obtain rfl := List.mem_singleton.mp hr
        exact Run.sound_of_phase (.inl rfl)
  | run k e =>
    rcases hk : s.runs[k]? with _ | r
    · simp [step, hk] at h
    · rw [step, hk] at h
      obtain ⟨⟨d', r'⟩, hadvance, rfl⟩ := Option.map_eq_some_iff.mp h
      have hadv := Run.advanced (hs.runs r (List.mem_of_getElem? hk)) (hfit r hk) hadvance
      have hpart : r'.part = r.part := congrArg partOf hadv.dest
      obtain ⟨l₁, l₂, hl, -, hset⟩ := Pool.split_getElem? hk
      have hapart := hs.apart
      have hruns := hs.runs
      rw [hl, List.pairwise_append, List.pairwise_cons] at hapart
      rw [hl] at hruns
      obtain ⟨h₁, ⟨hr₂, h₂⟩, h₁₂⟩ := hapart
      have hr₁ : ∀ q ∈ l₁, Apart q r := fun q hq => h₁₂ q hq r List.mem_cons_self
      refine ⟨?_, fun q hq => ?_⟩
      · show (s.runs.set k r').Pairwise Apart
        rw [hset, List.pairwise_append, List.pairwise_cons]
        refine ⟨h₁, ⟨fun q hq _ hlive => ?_, h₂⟩, fun q hq p hp => ?_⟩
        · have hq := hr₂ q hq hadv.live hlive
          rwa [hpart, hadv.dest]
        · rcases List.mem_cons.mp hp with rfl | hp
          · intro hlive _
            have hq := hr₁ q hq hlive hadv.live
            rwa [hpart, hadv.dest]
          · exact h₁₂ q hq p (List.mem_cons_of_mem _ hp)
      · have hq : q ∈ s.runs.set k r' := hq
        rw [hset, List.mem_append, List.mem_cons] at hq
        rcases hq with hq | rfl | hq
        · refine sound_of_apart hadv (hruns q (List.mem_append_left _ hq)) fun hlive => ?_
          obtain ⟨h1, -, h3⟩ := hr₁ q hq hlive hadv.live
          exact ⟨h1.symm, h3⟩
        · exact hadv.sound
        · refine sound_of_apart hadv (hruns q (by simp [hq])) fun hlive => ?_
          obtain ⟨h1, h2, -⟩ := hr₂ q hq hadv.live hlive
          exact ⟨h1, h2⟩

instance (r : Run) (d : Dir) : Decidable (r.FitsLeftover body sha d) :=
  inferInstanceAs (Decidable (∀ f ∈ d.file r.part, _ ∨ _))

instance (r : Run) (d : Dir) : ∀ e, Decidable (r.FitsEvent body sha d e)
  | .digestPart => inferInstanceAs (Decidable (r.FitsLeftover body sha d))
  | .look | .requestError | .notSatisfiable _ | .refused | .full _ | .ranged _ _ _ _ | .openFile
  | .chunk _ | .readError _ | .verify _ | .rename | .ioError | .kill => isTrue trivial

instance (s : Downloads) : ∀ e, Decidable (s.Fits body sha e)
  | .start _ _ _ => inferInstanceAs (Decidable (∀ r ∈ s.runs, _ → _ ∧ _ ∧ _))
  | .run k e => inferInstanceAs (Decidable (∀ r ∈ s.runs[k]?, r.FitsEvent body sha s.dir e))

/-- The bodies of two URLs. -/
def twoBodies (url : Text) : Bytes := if url = ['a'] then [1, 2, 3, 4] else [5, 6, 7, 8]

/-- A digest that is the length. -/
def lengthHex (bytes : Bytes) : Text := (toString bytes.length).toList

def gguf : Text := ['m', '.', 'g', 'g', 'u', 'f']
def safetensors : Text := ['m', '.', 's', 'a', 'f', 'e', 't', 'e', 'n', 's', 'o', 'r', 's']

/-- A download of `m.gguf` that is killed half way. -/
def halfWay : List Event :=
  [.start ['a'] gguf none, .run 0 .look, .run 0 (.full (some 4)), .run 0 .openFile,
    .run 0 (.chunk 2), .run 0 .kill]

/-- What the next run does, up to its rename: it resumes. -/
def resume : List Event :=
  [.run 1 .look, .run 1 (.ranged 2 (some "bytes 2-3/4".toList) (some 2) true),
    .run 1 .digestPart, .run 1 .openFile, .run 1 (.chunk 2), .run 1 (.verify true)]

/-- The second run has returned `Ok`. -/
def SecondDone (s : Downloads) : Prop := ∃ r ∈ s.runs[1]?, r.phase = .done

instance : DecidablePred SecondDone := fun s => inferInstanceAs (Decidable (∃ r ∈ s.runs[1]?, _))

end Downloads

end StudioWorker.Download
