import StudioWorker.Lib.Fallible
import StudioWorker.Lib.Reader
import StudioWorker.Text

/-!
# VoiceSamples.Head — a request's head, read off a stream (`src/voice_samples/upload.rs`)

How a string is shown in a message (`{:?}`) is a parameter.

* `parseHead`, `readHead`: as in the source.
* `seen`: what a read of the head comes to: the head and all that follows it, or why there is none.
* `readHead_uncut_iff`: it is the same however the stream is cut into reads, exactly when the blank
  line does not end behind the limit but within a last read of it.
-/

namespace StudioWorker.VoiceSamples

open Lib Lib.Search Lib.Fallible Text

/-- The longest request head read. -/
def maxHeadBytes : ℕ := 16 * 1024

/-- A request's head: its method, path and headers (names lower-cased). -/
structure Head where
  method : Text
  path : Text
  query : Option Text
  headers : List (Text × Text)
deriving DecidableEq

def Head.header (head : Head) (name : Text) : Option Text :=
  (head.headers.find? fun h => h.1 == name).map (·.2)

/-- The token in `Authorization: Bearer <token>` (scheme in any case). -/
def Head.bearer (head : Head) : Option Text := do
  let (scheme, token) ← splitOnce [' '] (← head.header "authorization".toList)
  let token := trim token
  if eqIgnoreAsciiCase scheme "bearer".toList && !token.isEmpty then some token else none

def lineBreak : Text := ['\r', '\n']

def parseHeader (debug : Text → Text) (line : Text) : Except Text (Text × Text) :=
  match splitOnce [':'] line with
  | none => .error ("not a header: ".toList ++ debug line)
  | some (name, value) => .ok ((trim name).map Char.toLower, trim value)

/-- `parse_head`: a whole head, without its blank line. -/
def parseHead (debug : Text → Text) (bytes : List UInt8) : Except Text Head :=
  match fromUtf8 bytes with
  | none => .error "the request head is not UTF-8".toList
  | some text =>
    let lines := split lineBreak text
    let line := lines.headD []
    match split [' '] line with
    | [method, target, version] =>
      if (Text.stripPrefix "HTTP/1.".toList version).isNone then
        .error ("not HTTP/1.x: ".toList ++ debug version)
      else
        let (path, query) := match splitOnce ['?'] target with
          | some (path, query) => (path, some query)
          | none => (target, none)
        (((lines.drop 1).filter fun line => !line.isEmpty).mapM (parseHeader debug)).map fun headers =>
          ⟨method, path, query, headers⟩
    | _ => .error ("not a request line: ".toList ++ debug line)

/-- A head read from a stream: the head, every byte read, and where its body starts in them. -/
structure ReadHead where
  head : Head
  consumed : List UInt8
  bodyStart : ℕ

/-- Whatever of the body came with the head. -/
def ReadHead.body (read : ReadHead) : List UInt8 := read.consumed.drop read.bodyStart

/-- What a read fails with. -/
inductive ReadError where
  | invalidData (message : Text)
  | unexpectedEof
deriving DecidableEq

def tooLong : Text := "the request head is too long".toList

def blankLine : List UInt8 := [13, 10, 13, 10]

/-- The head that is in the buffer. -/
def readOf (debug : Text → Text) (buffer head : List UInt8) : Except ReadError ReadHead :=
  match parseHead debug head with
  | .error e => .error (.invalidData e)
  | .ok parsed => .ok ⟨parsed, buffer, head.length + 4⟩

section Read

variable (debug : Text → Text) {σ τ : Type} (r : Reader UInt8 σ) (q : Reader UInt8 τ)

/-- `read_head`, with what is in its buffer. -/
def readHead (buffer : List UInt8) (s : σ) : Except ReadError ReadHead × σ :=
  match splitOnce blankLine buffer with
  | some (head, _) => (readOf debug buffer head, s)
  | none =>
    if maxHeadBytes < buffer.length then (.error (.invalidData tooLong), s)
    else if (r.read 1024 s).1 = [] then (.error .unexpectedEof, (r.read 1024 s).2)
    else readHead (buffer ++ (r.read 1024 s).1) (r.read 1024 s).2
termination_by maxHeadBytes + 1 - buffer.length
decreasing_by
  have hpos := List.length_pos_iff.mpr ‹_›
  rw [List.length_append]
  omega

/-- What a read of the head comes to: the head and all that follows it, or why there is none. -/
def seen (read : Except ReadError ReadHead × σ) : Except ReadError (Head × List UInt8) :=
  read.1.map fun found => (found.head, found.body ++ r.rest read.2)

end Read

/-- However a stream is cut into reads, the same comes of it. -/
def Uncut (debug : Text → Text) (stream : List UInt8) : Prop :=
  ∀ (σ τ : Type) (r : Reader UInt8 σ) (q : Reader UInt8 τ) (s : σ) (t : τ),
    r.rest s = stream → q.rest t = stream →
      seen r (readHead debug r [] s) = seen q (readHead debug q [] t)

/-- Where the blank line ends, it is at the limit and a byte, or behind a read more than the
limit. -/
def Clear (stream : List UInt8) : Prop :=
  ∀ head body, splitOnce blankLine stream = some (head, body) →
    head.length + 4 ≤ maxHeadBytes + 1 ∨ maxHeadBytes + 1024 < head.length + 4

/-! ## The blank line in what is read so far -/

section Split

variable {stream buffer later head body : List UInt8}

/-- It is in the buffer when it ends there. -/
theorem split_buffer (h : splitOnce blankLine stream = some (head, body))
    (hstream : buffer ++ later = stream) (hlong : head.length + 4 ≤ buffer.length) :
    ∃ rest, splitOnce blankLine buffer = some (head, rest) := by
  have hin : head ++ blankLine <+: buffer := by
    have hprefix : head ++ blankLine <+: stream := by
      rw [(splitOnce_some h).1]
      exact List.prefix_append _ _
    refine List.prefix_of_prefix_length_le hprefix (hstream ▸ List.prefix_append _ _) ?_
    rw [List.length_append]
    exact hlong
  obtain ⟨found, hfound⟩ : ∃ found, splitOnce blankLine buffer = some found := by
    refine Option.ne_none_iff_exists'.mp fun hnone => splitOnce_none.mp hnone ?_
    exact (List.infix_append head blankLine []).trans (by simpa using hin.isInfix)
  have hsame := splitOnce_append hfound later
  rw [hstream, h] at hsame
  obtain ⟨rfl, -⟩ := Prod.mk.inj (Option.some_inj.mp hsame)
  exact ⟨found.2, hfound⟩

/-- What is found in the buffer is what the stream has. -/
theorem split_stream (h : splitOnce blankLine buffer = some (head, body)) (later : List UInt8) :
    splitOnce blankLine (buffer ++ later) = some (head, body ++ later) ∧
      head.length + 4 ≤ buffer.length := by
  refine ⟨splitOnce_append h later, ?_⟩
  rw [(splitOnce_some h).1, List.length_append, List.length_append]
  exact Nat.le_add_right _ _

end Split

/-- What a head comes to, and what follows it. -/
def outcome (debug : Text → Text) (head body : List UInt8) : Except ReadError (Head × List UInt8) :=
  match parseHead debug head with
  | .error e => .error (.invalidData e)
  | .ok parsed => .ok (parsed, body)

section Read

variable {debug : Text → Text} {σ : Type} {r : Reader UInt8 σ} {stream head body : List UInt8}

theorem seen_readOf {buffer : List UInt8} (h : splitOnce blankLine buffer = some (head, body))
    (s : σ) : seen r (readOf debug buffer head, s) = outcome debug head (body ++ r.rest s) := by
  have hbody : buffer.drop (head.length + 4) = body := by
    rw [(splitOnce_some h).1]
    exact List.drop_left' (by rw [List.length_append]; rfl)
  rw [seen, readOf, outcome]
  cases parseHead debug head with
  | error e => rfl
  | ok parsed =>
    show Except.ok (parsed, buffer.drop (head.length + 4) ++ r.rest s) = _
    rw [hbody]

/-- A head that is read was in the buffer, and the buffer and what is to come are the stream. -/
theorem of_readHead {buffer : List UInt8} {s s' : σ} {read : ReadHead}
    (h : readHead debug r buffer s = (.ok read, s')) :
    ∃ head, splitOnce blankLine read.consumed = some (head, read.body) ∧
      parseHead debug head = .ok read.head ∧ read.consumed ++ r.rest s' = buffer ++ r.rest s := by
  fun_induction readHead debug r buffer s with
  | case1 buffer s found rest hfound =>
    obtain ⟨hread, rfl⟩ := Prod.mk.inj h
    rw [readOf] at hread
    cases hparse : parseHead debug found with
    | error e =>
      rw [hparse] at hread
      cases hread
    | ok parsed =>
      rw [hparse] at hread
      obtain rfl := Except.ok.inj hread
      have hbody : buffer.drop (found.length + 4) = rest := by
        rw [(splitOnce_some hfound).1]
        exact List.drop_left' (by rw [List.length_append]; rfl)
      refine ⟨found, ?_, hparse, rfl⟩
      rw [hfound, ReadHead.body, hbody]
  | case2 buffer s hnone hlong => cases (Prod.mk.inj h).1
  | case3 buffer s hnone hshort hend => cases (Prod.mk.inj h).1
  | case4 buffer s hnone hshort hmore ih =>
    obtain ⟨head, hsplit, hparse, hall⟩ := ih h
    refine ⟨head, hsplit, hparse, ?_⟩
    rw [hall, List.append_assoc, ← r.rest_eq]

/-- The blank line is found, if no read ends behind the limit and before it. -/
theorem seen_of_found (h : splitOnce blankLine stream = some (head, body))
    {Inv : List UInt8 → σ → Prop}
    (hread : ∀ buffer s, Inv buffer s → Inv (buffer ++ (r.read 1024 s).1) (r.read 1024 s).2)
    (hlimit : ∀ buffer s, Inv buffer s → buffer ++ r.rest s = stream →
      buffer.length < head.length + 4 → buffer.length ≤ maxHeadBytes)
    {buffer : List UInt8} {s : σ} (hstream : buffer ++ r.rest s = stream) (hinv : Inv buffer s) :
    seen r (readHead debug r buffer s) = outcome debug head body := by
  fun_induction readHead debug r buffer s with
  | case1 buffer s found rest hfound =>
    have hsame := (split_stream hfound (r.rest s)).1
    rw [hstream, h] at hsame
    obtain ⟨rfl, rfl⟩ := Prod.mk.inj (Option.some_inj.mp hsame)
    exact seen_readOf hfound s
  | case2 buffer s hnone hlong =>
    have hbefore : buffer.length < head.length + 4 := by
      by_contra hin
      obtain ⟨rest, hfound⟩ := split_buffer h hstream (not_lt.mp hin)
      rw [hnone] at hfound
      cases hfound
    exact absurd (hlimit buffer s hinv hstream hbefore) (not_le.mpr hlong)
  | case3 buffer s hnone hshort hend =>
    rw [r.progress (by decide) hend, List.append_nil] at hstream
    rw [hstream, h] at hnone
    cases hnone
  | case4 buffer s hnone hshort hmore ih =>
    refine ih ?_ (hread buffer s hinv)
    rw [List.append_assoc, ← r.rest_eq, hstream]

/-- A head that ends early enough is found, however it is cut. -/
theorem seen_of_early (h : splitOnce blankLine stream = some (head, body))
    (hearly : head.length + 4 ≤ maxHeadBytes + 1) {s : σ} (hstream : r.rest s = stream) :
    seen r (readHead debug r [] s) = outcome debug head body :=
  @seen_of_found _ _ r _ _ _ h (fun _ _ => True) (fun _ _ _ => trivial)
    (fun _ _ _ _ hbefore => by omega) [] s hstream trivial

/-- Without a blank line, or with one too far away, it is refused, however it is cut. -/
theorem seen_of_late (h : ∀ head body, splitOnce blankLine stream = some (head, body) →
      maxHeadBytes + 1024 < head.length + 4)
    {buffer : List UInt8} {s : σ} (hstream : buffer ++ r.rest s = stream)
    (hlength : buffer.length ≤ maxHeadBytes + 1024) :
    seen r (readHead debug r buffer s) =
      if maxHeadBytes < stream.length then .error (.invalidData tooLong)
      else .error .unexpectedEof := by
  fun_induction readHead debug r buffer s with
  | case1 buffer s found rest hfound =>
    obtain ⟨hsame, hin⟩ := split_stream hfound (r.rest s)
    rw [hstream] at hsame
    have hfar := h found _ hsame
    omega
  | case2 buffer s hnone hlong =>
    rw [← hstream, if_pos (by rw [List.length_append]; omega)]
    rfl
  | case3 buffer s hnone hshort hend =>
    rw [r.progress (by decide) hend, List.append_nil] at hstream
    rw [← hstream, if_neg hshort]
    rfl
  | case4 buffer s hnone hshort hmore ih =>
    have hle := r.length_le 1024 s
    refine ih ?_ ?_
    · rw [List.append_assoc, ← r.rest_eq, hstream]
    · rw [List.length_append]
      omega

/-- Read byte by byte, a head that ends behind the limit is refused. -/
theorem seen_of_bytewise (h : splitOnce blankLine stream = some (head, body))
    (hbehind : maxHeadBytes + 1 < head.length + 4)
    (hbyte : ∀ s, (r.read 1024 s).1.length ≤ 1)
    {buffer : List UInt8} {s : σ} (hstream : buffer ++ r.rest s = stream)
    (hlength : buffer.length ≤ maxHeadBytes + 1) :
    seen r (readHead debug r buffer s) = .error (.invalidData tooLong) := by
  fun_induction readHead debug r buffer s with
  | case1 buffer s found rest hfound =>
    obtain ⟨hsame, hin⟩ := split_stream hfound (r.rest s)
    rw [hstream, h] at hsame
    obtain ⟨rfl, -⟩ := Prod.mk.inj (Option.some_inj.mp hsame)
    omega
  | case2 buffer s hnone hlong => rfl
  | case3 buffer s hnone hshort hend =>
    rw [r.progress (by decide) hend, List.append_nil] at hstream
    rw [hstream, h] at hnone
    cases hnone
  | case4 buffer s hnone hshort hmore ih =>
    have hle := hbyte s
    refine ih ?_ ?_
    · rw [List.append_assoc, ← r.rest_eq, hstream]
    · rw [List.length_append]
      omega

end Read

section Steady

variable {debug : Text → Text} {stream head body : List UInt8}

/-- Read in full, a head that ends within a read of the limit is found: what is read is a number of
full reads, or all there is. -/
theorem seen_of_full (h : splitOnce blankLine stream = some (head, body))
    (hwithin : head.length + 4 ≤ maxHeadBytes + 1024) :
    seen (Reader.steady 1024 (by decide))
      (readHead debug (Reader.steady 1024 (by decide)) [] stream) = outcome debug head body := by
  refine @seen_of_found _ _ _ _ _ _ h (fun buffer s => 1024 ∣ buffer.length ∨ s = [])
    (fun buffer s hinv => ?_) (fun buffer s hinv hstream hbefore => ?_) [] stream rfl
    (Or.inl ⟨0, rfl⟩)
  · show 1024 ∣ (buffer ++ s.take 1024).length ∨ s.drop 1024 = []
    rcases hinv with hfull | rfl
    · rcases Nat.lt_or_ge 1024 s.length with hlong | hshort
      · rw [List.length_append, List.length_take, Nat.min_eq_left hlong.le]
        exact Or.inl (Nat.dvd_add hfull (Nat.dvd_refl 1024))
      · exact Or.inr (List.drop_eq_nil_of_le hshort)
    · exact Or.inr rfl
  · rcases hinv with ⟨reads, hreads⟩ | rfl
    · rw [maxHeadBytes] at hwithin ⊢
      omega
    · have hall : buffer = stream := by
        rw [← hstream]
        exact (List.append_nil buffer).symm
      have hlength := congrArg List.length (splitOnce_some h).1
      rw [List.length_append, List.length_append, ← hall] at hlength
      have hfour : blankLine.length = 4 := rfl
      omega

end Steady

/-- No head that is read is refused with the words for a head that is not. -/
theorem parseHead_ne_tooLong (debug : Text → Text) (bytes : List UInt8) :
    parseHead debug bytes ≠ .error tooLong := by
  intro h
  rw [parseHead] at h
  split at h
  next =>
    have hsame := Except.error.inj h
    revert hsame
    decide
  next text _ =>
    dsimp only at h
    split at h
    next method target version _ =>
      split_ifs at h
      · cases Except.error.inj h
      · cases hall : ((split lineBreak text).drop 1 |>.filter fun line => !line.isEmpty).mapM
            (parseHeader debug) with
        | error e =>
          rw [hall] at h
          obtain rfl := Except.error.inj h
          obtain ⟨line, -, hline⟩ := mapM_error hall
          rw [parseHeader] at hline
          split at hline
          · cases Except.error.inj hline
          · cases hline
        | ok headers =>
          rw [hall] at h
          cases h
    next => cases Except.error.inj h

/-- However it is cut, the same comes of it, exactly where the blank line ends early or late. -/
theorem readHead_uncut_iff (debug : Text → Text) (stream : List UInt8) :
    Uncut debug stream ↔ Clear stream := by
  constructor
  · intro huncut head body hsplit
    by_contra hbetween
    rw [not_or, not_le, not_lt] at hbetween
    have hfull := @seen_of_full debug stream head body hsplit hbetween.2
    have hbyte := @seen_of_bytewise debug _ (Reader.steady 1 Nat.one_pos) stream head body hsplit
      hbetween.1 (fun s => List.length_take_le 1 s) [] stream rfl (Nat.zero_le _)
    have hsame := huncut _ _ (Reader.steady 1024 (by decide)) (Reader.steady 1 Nat.one_pos) stream
      stream rfl rfl
    rw [hfull, hbyte, outcome] at hsame
    cases hparse : parseHead debug head with
    | error e =>
      rw [hparse] at hsame
      obtain rfl := ReadError.invalidData.inj (Except.error.inj hsame)
      exact parseHead_ne_tooLong debug head hparse
    | ok parsed =>
      rw [hparse] at hsame
      cases hsame
  · intro hclear σ τ r q s t hr hq
    cases hsplit : splitOnce blankLine stream with
    | none =>
      have hlate : ∀ head body, splitOnce blankLine stream = some (head, body) →
          maxHeadBytes + 1024 < head.length + 4 := fun head body h => by
        rw [hsplit] at h
        cases h
      rw [seen_of_late hlate hr (Nat.zero_le _), seen_of_late hlate hq (Nat.zero_le _)]
    | some found =>
      obtain ⟨head, body⟩ := found
      rcases hclear head body hsplit with hearly | hlate
      · rw [seen_of_early hsplit hearly hr, seen_of_early hsplit hearly hq]
      · have hlate : ∀ head' body', splitOnce blankLine stream = some (head', body') →
            maxHeadBytes + 1024 < head'.length + 4 := fun head' body' h => by
          rw [hsplit] at h
          obtain ⟨rfl, -⟩ := Prod.mk.inj (Option.some_inj.mp h)
          exact hlate
        rw [seen_of_late hlate hr (Nat.zero_le _), seen_of_late hlate hq (Nat.zero_le _)]

end StudioWorker.VoiceSamples
