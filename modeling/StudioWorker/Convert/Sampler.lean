import StudioWorker.Convert.Prng
import StudioWorker.Convert.Window
import StudioWorker.Lib.Fallible
import StudioWorker.Lib.Firsts
import StudioWorker.Lib.Url

/-!
# Convert.Sampler — the drawings of one label (`python/convert/sampler.py`)

JSON is a parameter, `Library`: what a line reads as, and what a drawing is written as.

* `choose`, `drawLabel`: as in the source; what has been fetched ahead is a list of steps.
* `Fresh`: a label's drawings by the numbers of its stream alone, whatever is fetched ahead.
* `triple_choose`: whoever fetched what, the drawings chosen are the fresh ones.
-/

namespace StudioWorker.Convert

open Text Lib Lib.Steps Lib.Lines Lib.Firsts

/-- Drawings as the JSON library has them, and what is asked of one. -/
structure Library (D K : Type) where
  loads : Bytes → Except Text D
  loadsText : Text → Except Text D
  dumps : D → Text
  /-- `drawing.get("key_id")`, where there is one to be had and a set can hold it. -/
  keyId : D → Except Text K
  word : D → Option Text
  reprWord : D → Text
  reprText : Text → Text

/-- A drawing that was read is read back from what it is written as, which is no blank line. -/
structure Library.Lawful {D K : Type} (lib : Library D K) : Prop where
  loadsText_dumps : ∀ {line d}, lib.loads line = .ok d → lib.loadsText (lib.dumps d) = .ok d
  trim_dumps : ∀ {line d}, lib.loads line = .ok d → trim (lib.dumps d) ≠ []

def chunkBytes : ℕ := 16 * 1024
def redrawsPerDrawing : ℕ := 20

/-- `urllib.parse.quote`: a slash is left as it is. -/
def quote (t : Text) : Text := t.flatMap fun c => if c = '/' then [c] else Url.encodeChar c

def labelUrl (baseUrl label : Text) : Text :=
  baseUrl.rdropWhile (· == '/') ++ '/' :: (quote label ++ ".ndjson".toList)

section Draw

variable {D K σ : Type} [DecidableEq K] (lib : Library D K)

def parseLine (url : Text) (offset : ℕ) (line : Bytes) : Except Text D :=
  match lib.loads line with
  | .ok drawing => .ok drawing
  | .error error => .error (url ++ " at byte ".toList ++ (toString offset).toList ++
      ": not a JSON line (".toList ++ error ++ [')'])

def fetch (read : ℕ → ℕ → Steps σ Text Bytes) (url : Text) (size offset : ℕ) : Steps σ Text D := do
  let line ← lineFrom read chunkBytes size offset
  result (parseLine lib url offset line)

/-- The variables of `choose`. -/
structure Choice (D K : Type) where
  stream : SplitMix64
  drawings : List D
  seen : List K
  draw : ℕ
  redraws : ℕ

/-- A label, its file, and how many drawings of it are asked for. -/
structure Order where
  label : Text
  url : Text
  size : ℕ
  count : ℕ

variable (order : Order) (read : ℕ → ℕ → Steps σ Text Bytes) (fetched : List (Steps σ Text D))

/-- The next drawing: one of those fetched ahead, or one that is read at once. -/
def nextDrawing (draw : ℕ) (stream : SplitMix64) : Steps σ Text (D × SplitMix64) :=
  match fetched[draw]? with
  | some call => do
    let drawing ← call
    return (drawing, stream)
  | none => do
    let (offset, stream) ← result (stream.below order.size)
    let drawing ← fetch lib read order.url order.size offset
    return (drawing, stream)

def chooseFrom (c : Choice D K) : Steps σ Text (List D × SplitMix64) :=
  if order.count ≤ c.drawings.length then pure (c.drawings, c.stream)
  else do
    let (drawing, stream) ← nextDrawing lib order read fetched c.draw c.stream
    let key ← result (lib.keyId drawing)
    if key ∈ c.seen then
      if redrawsPerDrawing * order.count < c.redraws + 1 then
        fail (order.label ++ ": too few distinct drawings for ".toList ++
          (toString order.count).toList)
      else chooseFrom { c with stream, draw := c.draw + 1, redraws := c.redraws + 1 }
    else if lib.word drawing ≠ some order.label then
      fail (order.url ++ ": a drawing of ".toList ++ lib.reprWord drawing ++ ", not ".toList ++
        lib.reprText order.label)
    else chooseFrom { c with
      stream
      drawings := c.drawings ++ [drawing]
      seen := c.seen ++ [key]
      draw := c.draw + 1 }
termination_by
  (order.count - c.drawings.length) + (redrawsPerDrawing * order.count + 1 - c.redraws)
decreasing_by
  · omega
  · rw [List.length_append, List.length_singleton]
    omega

/-- The drawings chosen, and the stream they left. -/
def choose (stream : SplitMix64) : Steps σ Text (List D × SplitMix64) :=
  chooseFrom lib order read fetched ⟨stream, [], [], 0, 0⟩

/-- `[stream.below(size) for _ in range(count)]` -/
def SplitMix64.offsets (size : ℕ) : ℕ → SplitMix64 → Except Text (List ℕ × SplitMix64)
  | 0, stream => .ok ([], stream)
  | count + 1, stream => do
    let (offset, stream) ← stream.below size
    let (offsets, stream) ← offsets size count stream
    return (offset :: offsets, stream)

def drawLabel (baseUrl label : Text) (seed count size : ℕ) : Steps σ Text (List D) := do
  let url := labelUrl baseUrl label
  let (offsets, stream) ← result ((SplitMix64.keyed seed label).offsets size count)
  let fetched := offsets.map (fetch lib read url size)
  let (drawings, _) ← choose lib ⟨label, url, size, count⟩ read fetched stream
  return drawings

end Draw

/-! ## The drawings a stream stands for -/

section Fresh

variable {D K : Type} (lib : Library D K) (file : Bytes) (stream : SplitMix64)

/-- The drawing the stream's `i`-th number stands for. -/
def Drawn (i : ℕ) (d : D) : Prop :=
  ∃ line, IsLineFrom isNewline file (stream.offset file.length i) line ∧ lib.loads line = .ok d

/-- The drawings, with their keys, of the first numbers of the stream. -/
structure Draws (pairs : List (D × K)) : Prop where
  drawn : ∀ (i : ℕ) (h : i < pairs.length), Drawn lib file stream i pairs[i].1
  keyed : ∀ p ∈ pairs, lib.keyId p.1 = .ok p.2

/-- No drawing comes again among the first `count`. -/
def Varied (count : ℕ) : Prop :=
  ∀ pairs, Draws lib file stream pairs → pairs.length ≤ count → (pairs.map Prod.snd).Nodup

variable {lib file stream}

theorem Drawn.unique {i : ℕ} {d d' : D} (h : Drawn lib file stream i d)
    (h' : Drawn lib file stream i d') : d = d' := by
  obtain ⟨line, hline, hd⟩ := h
  obtain ⟨line', hline', hd'⟩ := h'
  rw [hline'.unique hline] at hd'
  exact Except.ok.inj (hd.symm.trans hd')

theorem Draws.take {pairs : List (D × K)} (h : Draws lib file stream pairs) (n : ℕ) :
    Draws lib file stream (pairs.take n) where
  drawn i hi := by
    rw [List.getElem_take]
    exact h.drawn i (hi.trans_le (List.length_take_le' _ _))
  keyed p hp := h.keyed p (List.mem_of_mem_take hp)

theorem Draws.concat {pairs : List (D × K)} {d : D} {k : K} (h : Draws lib file stream pairs)
    (hd : Drawn lib file stream pairs.length d) (hk : lib.keyId d = .ok k) :
    Draws lib file stream (pairs ++ [(d, k)]) where
  drawn i hi := by
    rw [List.length_append, List.length_singleton] at hi
    by_cases hlt : i < pairs.length
    · rw [List.getElem_append_left hlt]
      exact h.drawn i hlt
    · obtain rfl : i = pairs.length := by omega
      rw [List.getElem_concat_length rfl]
      exact hd
  keyed p hp := by
    rcases List.mem_append.mp hp with hp | hp
    · exact h.keyed p hp
    · rw [List.mem_singleton.mp hp]
      exact hk

theorem Draws.prefix_of_le {pairs pairs' : List (D × K)} (h : Draws lib file stream pairs)
    (h' : Draws lib file stream pairs') (hle : pairs.length ≤ pairs'.length) :
    pairs <+: pairs' := by
  rw [List.prefix_iff_eq_take]
  refine List.ext_getElem (List.length_take_of_le hle).symm fun i hi hi' => ?_
  rw [List.getElem_take]
  have hlt : i < pairs'.length := hi.trans_le hle
  have hd : pairs[i].1 = pairs'[i].1 := (h.drawn i hi).unique (h'.drawn i hlt)
  have hk := h.keyed _ (List.getElem_mem hi)
  rw [hd, h'.keyed _ (List.getElem_mem hlt)] at hk
  exact Prod.ext hd (Except.ok.inj hk).symm

theorem Draws.comparable {pairs pairs' : List (D × K)} (h : Draws lib file stream pairs)
    (h' : Draws lib file stream pairs') : pairs <+: pairs' ∨ pairs' <+: pairs :=
  (le_total pairs.length pairs'.length).imp (h.prefix_of_le h') (h'.prefix_of_le h)

variable [DecidableEq K]

variable (lib file stream) in
/-- The first `count` drawings that are not ones already drawn. -/
def Fresh (count : ℕ) (ds : List D) : Prop :=
  ∃ pairs, Draws lib file stream pairs ∧ (firsts Prod.snd pairs).map Prod.fst = ds ∧
    ds.length = count

/-- The fewer are the first of the more. -/
theorem Fresh.eq_take {c c' : ℕ} {ds ds' : List D} (h : Fresh lib file stream c ds)
    (h' : Fresh lib file stream c' ds') (hle : c ≤ c') : ds = ds'.take c := by
  obtain ⟨pairs, hpairs, rfl, rfl⟩ := h
  obtain ⟨pairs', hpairs', rfl, rfl⟩ := h'
  rw [List.length_map, List.length_map] at hle
  have hprefix := firsts_prefix (hpairs.comparable hpairs') hle
  rw [List.length_map, ← List.map_take, ← List.prefix_iff_eq_take.mp hprefix]

theorem Fresh.take {c c' : ℕ} {ds : List D} (h : Fresh lib file stream c' ds) (hle : c ≤ c') :
    Fresh lib file stream c (ds.take c) := by
  obtain ⟨pairs, hpairs, rfl, rfl⟩ := h
  rw [List.length_map] at hle
  obtain ⟨m, -, hm⟩ := exists_take_firsts hle
  refine ⟨pairs.take m, hpairs.take m, ?_, ?_⟩
  · rw [hm, List.map_take]
  · rw [List.length_take_of_le]
    rwa [List.length_map]

theorem Fresh.nodup {c : ℕ} {ds : List D} (h : Fresh lib file stream c ds) :
    (ds.map lib.keyId).Nodup := by
  obtain ⟨pairs, hpairs, rfl, -⟩ := h
  have hmem : ∀ p ∈ firsts Prod.snd pairs, p ∈ pairs := fun p hp => mem_of_mem_firsts hp
  have hkeys : ((firsts Prod.snd pairs).map Prod.fst).map lib.keyId =
      ((firsts Prod.snd pairs).map Prod.snd).map Except.ok := by
    rw [List.map_map, List.map_map]
    exact List.map_congr_left fun p hp => hpairs.keyed p (hmem p hp)
  rw [hkeys]
  exact (nodup_firsts pairs).map fun _ _ => Except.ok.inj

/-- A fresh drawing was read of a line of the file. -/
theorem Fresh.loads {c : ℕ} {ds : List D} (h : Fresh lib file stream c ds) {d : D} (hd : d ∈ ds) :
    ∃ line, lib.loads line = .ok d := by
  obtain ⟨pairs, hpairs, rfl, -⟩ := h
  obtain ⟨p, hp, rfl⟩ := List.mem_map.mp hd
  obtain ⟨i, hi, hget⟩ := List.getElem_of_mem (mem_of_mem_firsts hp)
  obtain ⟨line, -, hline⟩ := hpairs.drawn i hi
  rw [hget] at hline
  exact ⟨line, hline⟩

end Fresh

/-! ## What is chosen -/

section Spec

variable {D K σ : Type} {lib : Library D K} {file : Bytes} (server : Server file Text σ)
  {stream : SplitMix64}

theorem below_ok {s s' : SplitMix64} {n offset : ℕ} (h : s.below n = .ok (offset, s')) :
    0 < n := by
  rw [SplitMix64.below] at h
  split_ifs at h with hn
  exact Nat.pos_of_ne_zero hn

theorem triple_fetch {url : Text} {i : ℕ} (hsize : 0 < file.length) :
    Triple (fun _ => True)
      (fetch lib server.read url file.length (stream.offset file.length i))
      (fun d _ => Drawn lib file stream i d) (fun _ _ => True) := by
  rw [fetch]
  refine triple_bind (triple_mono (triple_lineFrom server _ (stream.offset_lt hsize i))
    (fun _ h => h) (fun _ _ h => h) (fun _ _ _ => trivial)) fun line => ?_
  refine triple_mono (triple_result fun _ _ _ => trivial) (fun _ h => h) ?_ (fun _ _ h => h)
  rintro d - ⟨hparse, hline⟩
  rw [parseLine] at hparse
  cases hloads : lib.loads line with
  | error e =>
    rw [hloads] at hparse
    cases hparse
  | ok drawing =>
    rw [hloads] at hparse
    exact ⟨line, hline, hloads.trans hparse⟩

/-- Each of the steps fetches the drawing of its own number. -/
def Fetches (lib : Library D K) (file : Bytes) (stream : SplitMix64)
    (fetched : List (Steps σ Text D)) : Prop :=
  ∀ (i : ℕ) (h : i < fetched.length),
    Triple (fun _ => True) fetched[i] (fun d _ => Drawn lib file stream i d) (fun _ _ => True)

variable {order : Order} {fetched : List (Steps σ Text D)}

/-- One number is used up where nothing is fetched ahead. -/
theorem triple_nextDrawing (hsize : order.size = file.length)
    (hfetched : Fetches lib file stream fetched) (draw : ℕ) :
    Triple (fun _ => True) (nextDrawing lib order server.read fetched draw
        (stream.drawn (max draw fetched.length)))
      (fun r _ => Drawn lib file stream draw r.1 ∧
        r.2 = stream.drawn (max (draw + 1) fetched.length)) (fun _ _ => True) := by
  rw [nextDrawing]
  by_cases hlt : draw < fetched.length
  · rw [List.getElem?_eq_getElem hlt]
    refine triple_bind (hfetched draw hlt) fun d => triple_pure fun _ hd => ⟨hd, ?_⟩
    rw [Nat.max_eq_right hlt.le, Nat.max_eq_right hlt]
  · have hle : fetched.length ≤ draw := not_lt.mp hlt
    rw [List.getElem?_eq_none hle, Nat.max_eq_left hle, Nat.max_eq_left (hle.trans (Nat.le_succ _)),
      hsize]
    refine triple_bind (triple_result fun _ _ _ => trivial) fun (offset, s) => ?_
    refine triple_mono (triple_given fun hbelow => ?_) (fun _ h => h) (fun _ _ h => h)
      (fun _ _ h => h)
    have hpos := below_ok hbelow
    rw [SplitMix64.below_drawn _ hpos] at hbelow
    obtain ⟨rfl, rfl⟩ := Prod.mk.inj (Except.ok.inj hbelow)
    exact triple_bind (triple_fetch server hpos) fun d => triple_pure fun _ hd => ⟨hd, rfl⟩

variable [DecidableEq K]

/-- What the variables of `choose` hold after the draws of `pairs`. -/
structure Kept (lib : Library D K) (file : Bytes) (stream : SplitMix64) (count : ℕ)
    (c : Choice D K) (pairs : List (D × K)) : Prop where
  draws : Draws lib file stream pairs
  draw : pairs.length = c.draw
  drawings : (firsts Prod.snd pairs).map Prod.fst = c.drawings
  seen : (firsts Prod.snd pairs).map Prod.snd = c.seen
  stream : c.stream = stream.drawn (max c.draw count)
  enough : c.drawings.length ≤ count
  -- more is drawn than was fetched ahead only when that was not enough
  short : count < c.draw → (firsts Prod.snd (pairs.take count)).length < count

theorem Kept.stream_eq {count : ℕ} {c : Choice D K} {pairs : List (D × K)}
    (h : Kept lib file stream count c pairs) (hvaried : Varied lib file stream count) :
    c.stream = stream.drawn count := by
  rw [h.stream]
  congr 1
  refine Nat.max_eq_right (not_lt.mp fun hlt => ?_)
  have hlen : (pairs.take count).length = count :=
    List.length_take_of_le (h.draw ▸ hlt.le)
  have hshort := h.short hlt
  rw [firsts_eq_self (hvaried _ (h.draws.take count) hlen.le), hlen] at hshort
  exact lt_irrefl _ hshort

/-- Where more is fetched ahead than is used, nothing is drawn yet that was not. -/
theorem Kept.short_succ {count : ℕ} {c : Choice D K} {pairs : List (D × K)}
    (h : Kept lib file stream count c pairs) (hmore : c.drawings.length < count) (p : D × K)
    (hlt : count < c.draw + 1) : (firsts Prod.snd ((pairs ++ [p]).take count)).length < count := by
  have hle : count ≤ pairs.length := by
    rw [h.draw]
    exact Nat.le_of_lt_succ hlt
  rw [List.take_append_of_le_length hle]
  rcases Nat.lt_or_eq_of_le (h.draw ▸ hle) with hlt | heq
  · exact h.short hlt
  · have hlength := congrArg List.length h.drawings
    rw [List.length_map] at hlength
    rw [List.take_of_length_le (by rw [h.draw, heq]), hlength]
    exact hmore

section Step

variable {count : ℕ} {c : Choice D K} {pairs : List (D × K)} {d : D} {k : K} {s : SplitMix64}

/-- A drawing already drawn changes nothing but the counts. -/
theorem Kept.repeated (h : Kept lib file stream count c pairs)
    (hmore : c.drawings.length < count) (hd : Drawn lib file stream c.draw d)
    (hk : lib.keyId d = .ok k) (hs : s = stream.drawn (max (c.draw + 1) count)) (hseen : k ∈ c.seen)
    (redraws : ℕ) :
    Kept lib file stream count { c with stream := s, draw := c.draw + 1, redraws }
      (pairs ++ [(d, k)]) := by
  have hold : firsts Prod.snd (pairs ++ [(d, k)]) = firsts Prod.snd pairs := by
    rw [firsts_concat]
    refine add_of_mem ?_
    rw [h.seen]
    exact hseen
  refine ⟨h.draws.concat (h.draw.symm ▸ hd) hk, ?_, ?_, ?_, hs, h.enough, h.short_succ hmore _⟩
  · rw [List.length_append, h.draw, List.length_singleton]
  · rw [hold]
    exact h.drawings
  · rw [hold]
    exact h.seen

theorem Kept.chosen (h : Kept lib file stream count c pairs) (hmore : c.drawings.length < count)
    (hd : Drawn lib file stream c.draw d) (hk : lib.keyId d = .ok k)
    (hs : s = stream.drawn (max (c.draw + 1) count)) (hseen : k ∉ c.seen) :
    Kept lib file stream count
      { c with
        stream := s, drawings := c.drawings ++ [d], seen := c.seen ++ [k], draw := c.draw + 1 }
      (pairs ++ [(d, k)]) := by
  have hnew : firsts Prod.snd (pairs ++ [(d, k)]) = firsts Prod.snd pairs ++ [(d, k)] := by
    rw [firsts_concat]
    refine add_of_not_mem ?_
    rw [h.seen]
    exact hseen
  refine ⟨h.draws.concat (h.draw.symm ▸ hd) hk, ?_, ?_, ?_, hs, ?_, h.short_succ hmore _⟩
  · rw [List.length_append, h.draw, List.length_singleton]
  · rw [hnew, List.map_append, h.drawings]
    rfl
  · rw [hnew, List.map_append, h.seen]
    rfl
  · rw [List.length_append, List.length_singleton]
    exact hmore

end Step

/-- Whoever fetched what, the drawings chosen are the fresh ones, and the stream stays where it is
when none of the first comes again. -/
theorem triple_chooseFrom (hsize : order.size = file.length)
    (hfetched : Fetches lib file stream fetched) (hlength : fetched.length = order.count)
    {c : Choice D K} {pairs : List (D × K)} (hc : Kept lib file stream order.count c pairs) :
    Triple (fun _ => True) (chooseFrom lib order server.read fetched c)
      (fun r _ => Fresh lib file stream order.count r.1 ∧
        (Varied lib file stream order.count → r.2 = stream.drawn order.count))
      (fun _ _ => True) := by
  induction hn : (order.count - c.drawings.length) +
      (redrawsPerDrawing * order.count + 1 - c.redraws) using Nat.strong_induction_on
    generalizing c pairs with
  | _ n ih =>
    rw [chooseFrom]
    by_cases hdone : order.count ≤ c.drawings.length
    · rw [if_pos hdone]
      refine triple_pure fun _ _ => ⟨⟨pairs, hc.draws, hc.drawings, ?_⟩, hc.stream_eq⟩
      exact le_antisymm hc.enough hdone
    · rw [if_neg hdone]
      have hmore := not_le.mp hdone
      have hnext := triple_nextDrawing server hsize hfetched c.draw
      rw [hlength, ← hc.stream] at hnext
      refine triple_bind hnext fun (drawing, s) => ?_
      refine triple_bind (triple_result fun _ _ _ => trivial) fun key => ?_
      refine triple_mono (triple_given fun hkey => triple_given fun hdrawn => ?_)
        (fun _ h => ⟨h.1, h.2, trivial⟩) (fun _ _ h => h) (fun _ _ h => h)
      obtain ⟨hdrawn, hs⟩ := hdrawn
      split_ifs with hseen hmany
      · exact triple_fail fun _ _ => trivial
      · refine ih _ ?_ (hc.repeated hmore hdrawn hkey hs hseen _) rfl
        dsimp only
        omega
      · exact triple_fail fun _ _ => trivial
      · refine ih _ ?_ (hc.chosen hmore hdrawn hkey hs hseen) rfl
        dsimp only
        rw [List.length_append, List.length_singleton]
        omega

variable (order) in
theorem triple_choose (hsize : order.size = file.length)
    (hfetched : Fetches lib file stream fetched) (hlength : fetched.length = order.count) :
    Triple (fun _ => True)
      (choose lib order server.read fetched (stream.drawn order.count))
      (fun r _ => Fresh lib file stream order.count r.1 ∧
        (Varied lib file stream order.count → r.2 = stream.drawn order.count))
      (fun _ _ => True) := by
  have hdraws : Draws lib file stream [] :=
    ⟨fun i hi => absurd hi (Nat.not_lt_zero i), fun p hp => absurd hp List.not_mem_nil⟩
  have hstream : stream.drawn order.count = stream.drawn (max 0 order.count) := by
    rw [Nat.max_eq_right (Nat.zero_le _)]
  exact triple_chooseFrom server hsize hfetched hlength ⟨hdraws, rfl, rfl, rfl, hstream,
    Nat.zero_le _, fun h => absurd h (Nat.not_lt_zero _)⟩

/-- The numbers drawn ahead are the stream's first. -/
theorem offsets_ok {size count : ℕ} {s' : SplitMix64} {os : List ℕ} {i : ℕ}
    (h : (stream.drawn i).offsets size count = .ok (os, s')) :
    os = (List.range' i count).map (stream.offset size) ∧ s' = stream.drawn (i + count) ∧
      (os ≠ [] → 0 < size) := by
  induction count generalizing i os with
  | zero =>
    obtain ⟨rfl, rfl⟩ := Prod.mk.inj (Except.ok.inj h)
    exact ⟨rfl, rfl, fun h => absurd rfl h⟩
  | succ count ih =>
    obtain ⟨⟨offset, s⟩, hbelow, h⟩ := Lib.Fallible.bind_eq_ok h
    obtain ⟨⟨os', s''⟩, hrest, h⟩ := Lib.Fallible.bind_eq_ok h
    obtain ⟨rfl, rfl⟩ := Prod.mk.inj (Except.ok.inj h)
    have hpos := below_ok hbelow
    rw [SplitMix64.below_drawn _ hpos] at hbelow
    obtain ⟨rfl, rfl⟩ := Prod.mk.inj (Except.ok.inj hbelow)
    obtain ⟨rfl, rfl, -⟩ := ih hrest
    refine ⟨?_, ?_, fun _ => hpos⟩
    · rw [List.range'_succ, List.map_cons]
    · rw [Nat.add_assoc, Nat.add_comm 1]

theorem offsets_start {size count : ℕ} {s' : SplitMix64} {os : List ℕ}
    (h : stream.offsets size count = .ok (os, s')) :
    os = (List.range' 0 count).map (stream.offset size) ∧ s' = stream.drawn count ∧
      (os ≠ [] → 0 < size) := by
  have hzero := offsets_ok (i := 0) h
  rwa [Nat.zero_add] at hzero

/-- A label drawn by itself has the fresh drawings. -/
theorem drawLabel_fresh {baseUrl label : Text} {seed count : ℕ} {s : σ} {ds : List D}
    (h : (drawLabel lib server.read baseUrl label seed count file.length s).1 = .ok ds) :
    Fresh lib file (SplitMix64.keyed seed label) count ds := by
  have htriple : Triple (fun _ => True)
      (drawLabel lib server.read baseUrl label seed count file.length)
      (fun ds _ => Fresh lib file (SplitMix64.keyed seed label) count ds)
      (fun _ _ => True) := by
    rw [drawLabel]
    refine triple_bind (triple_result fun _ _ _ => trivial) fun (os, s') => ?_
    refine triple_mono (triple_given fun hoffsets => ?_) (fun _ h => h) (fun _ _ h => h)
      (fun _ _ h => h)
    obtain ⟨rfl, rfl, hpos⟩ := offsets_start hoffsets
    refine triple_bind (triple_choose server ⟨label, _, file.length, count⟩ rfl ?_ ?_)
      fun r => triple_pure fun _ h => h.1
    · intro i hi
      have hsize : 0 < file.length := by
        refine hpos fun hnil => ?_
        rw [hnil] at hi
        exact absurd hi (Nat.not_lt_zero i)
      simp only [List.getElem_map, List.getElem_range', Nat.zero_add, Nat.one_mul]
      exact triple_fetch server hsize
    · rw [List.length_map, List.length_map, List.length_range']
  exact htriple.of_fst trivial h

end Spec

end StudioWorker.Convert
