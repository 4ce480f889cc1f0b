import StudioWorker.Lib.Lines
import StudioWorker.Lib.Steps

/-!
# Convert.Window — a line of a file that is read by range (`python/convert/sampler.py`)

A range read is a step of the server's own; it answers as much of the file as it likes, or fails.

* `Window.findNewline`, `lineFrom`: as in the source; the chunk size is an argument.
* `triple_lineFrom`: what is read is the first line from the offset on.
* `exists_lineFrom`: it is read, whatever the answers hold of the file and whatever is asked for.
-/

namespace StudioWorker.Convert

open Lib Lib.Steps Lib.Lines

abbrev Bytes := List UInt8

def isNewline (byte : UInt8) : Bool := byte == 10

/-- A file behind a server.  An answer starts where it was asked to, and may end anywhere. -/
structure Server (file : Bytes) (ε σ : Type) where
  read : ℕ → ℕ → Steps σ ε Bytes
  answers : ∀ {start length : ℕ} {s s' : σ} {chunk : Bytes}, start < file.length →
    read start length s = (.ok chunk, s') → chunk ≠ [] ∧ chunk <+: file.drop start

/-- Every read is answered. -/
def Server.Steady {file : Bytes} {ε σ : Type} (server : Server file ε σ) : Prop :=
  ∀ start length s, start < file.length → ∃ chunk, (server.read start length s).1 = .ok chunk

/-- Bytes of a file from `start`. -/
structure Window where
  start : ℕ
  data : Bytes

/-- `data[begin - start:end - start]` -/
def Window.slice (w : Window) (first stop : ℕ) : Bytes :=
  (w.data.drop (first - w.start)).take (stop - first)

section Read

variable {ε σ : Type} (read : ℕ → ℕ → Steps σ ε Bytes) (chunkBytes size : ℕ)

/-- The file position of the first newline from `position` on, reading on as the search needs. -/
def Window.findNewline (position : ℕ) (w : Window) : Steps σ ε (Option ℕ × Window) :=
  match find isNewline w.data (position - w.start) with
  | some index => pure (some (w.start + index), w)
  | none =>
    if size ≤ w.start + w.data.length then pure (none, w)
    else do
      let chunk ← read (w.start + w.data.length) chunkBytes
      if chunk = [] then return (none, w)
      else findNewline position { w with data := w.data ++ chunk }
termination_by size - (w.start + w.data.length)
decreasing_by
  have hpos := List.length_pos_iff.mpr ‹_›
  rw [List.length_append]
  omega

/-- The file's first line. -/
def wrap : Steps σ ε Bytes := do
  let (stop, window) ← Window.findNewline read chunkBytes size 0 ⟨0, []⟩
  return window.slice 0 (stop.getD size)

/-- The first whole line starting at or after `offset`. -/
def lineFrom (offset : ℕ) : Steps σ ε Bytes :=
  if 0 < offset then do
    -- a newline just before the offset starts a line there
    let (newline, window) ←
      Window.findNewline read chunkBytes size (offset - 1) ⟨offset - 1, []⟩
    match newline with
    | some newline =>
      if newline + 1 < size then
        let (stop, window) ← window.findNewline read chunkBytes size (newline + 1)
        return window.slice (newline + 1) (stop.getD size)
      else wrap read chunkBytes size
    | none => wrap read chunkBytes size
  else wrap read chunkBytes size

end Read

/-! ## What is read -/

section Spec

variable {file : Bytes} {ε σ : Type} (server : Server file ε σ) {chunkBytes : ℕ}

/-- The window holds the file from its start on, up to `stop` at least. -/
structure Window.Holds (file : Bytes) (w : Window) (stop : ℕ) : Prop where
  held : w.data <+: file.drop w.start
  reach : stop ≤ w.start + w.data.length

theorem triple_read {start : ℕ} (h : start < file.length) :
    Triple (fun _ => True) (server.read start chunkBytes)
      (fun chunk _ => chunk ≠ [] ∧ chunk <+: file.drop start) (fun _ _ => ¬ server.Steady) := by
  intro s _
  cases hread : server.read start chunkBytes s with
  | mk result s' =>
    cases result with
    | ok chunk => exact server.answers h hread
    | error e =>
      intro hsteady
      obtain ⟨chunk, hchunk⟩ := hsteady start chunkBytes s h
      rw [hread] at hchunk
      cases hchunk

theorem find_window {w : Window} {position : ℕ} (hw : w.data <+: file.drop w.start)
    (hposition : w.start ≤ position) :
    (∀ index, find isNewline w.data (position - w.start) = some index →
      find isNewline file position = some (w.start + index)) ∧
    (file.length ≤ w.start + w.data.length → find isNewline w.data (position - w.start) = none →
      find isNewline file position = none) := by
  have hfile : find isNewline file position =
      (find isNewline (file.drop w.start) (position - w.start)).map (w.start + ·) := by
    rw [← find_drop, Nat.add_sub_cancel' hposition]
  obtain ⟨rest, hrest⟩ := hw
  rw [hfile, ← hrest]
  constructor
  · intro index hindex
    rw [find_append hindex, Option.map_some]
  · intro hall hnone
    have hlength := congrArg List.length hrest
    rw [List.length_append, List.length_drop] at hlength
    have hnil : rest = [] := List.eq_nil_of_length_eq_zero (by omega)
    rw [hnil, List.append_nil, hnone, Option.map_none]

/-- A search finds what the file has, and the window then holds the file up to there. -/
theorem triple_findNewline {w : Window} {position : ℕ} (hw : w.data <+: file.drop w.start)
    (hposition : w.start ≤ position) (hstart : w.start ≤ file.length) :
    Triple (fun _ => True) (w.findNewline server.read chunkBytes file.length position)
      (fun r _ => r.1 = find isNewline file position ∧ r.2.start = w.start ∧
        r.2.Holds file (r.1.getD file.length)) (fun _ _ => ¬ server.Steady) := by
  induction hn : file.length - (w.start + w.data.length) using Nat.strong_induction_on
    generalizing w with
  | _ n ih =>
    obtain ⟨hfound, hnone⟩ := find_window hw hposition
    rw [Window.findNewline]
    cases hfind : find isNewline w.data (position - w.start) with
    | some index =>
      have hlt := lt_length_of_find hfind
      refine triple_pure fun _ _ => ⟨(hfound index hfind).symm, rfl, hw, ?_⟩
      show w.start + index ≤ w.start + w.data.length
      omega
    | none =>
      by_cases hall : file.length ≤ w.start + w.data.length
      · rw [if_pos hall]
        exact triple_pure fun _ _ => ⟨(hnone hall hfind).symm, rfl, hw, hall⟩
      · rw [if_neg hall]
        refine triple_bind (triple_read server (not_le.mp hall)) fun chunk => ?_
        refine triple_mono (triple_given fun hchunk => ?_) (fun _ h => ⟨h, trivial⟩)
          (fun _ _ h => h) (fun _ _ h => h)
        rw [if_neg hchunk.1]
        have hpos := List.length_pos_iff.mpr hchunk.1
        have hheld : w.data ++ chunk <+: file.drop w.start := by
          obtain ⟨rest, hrest⟩ := hw
          have hdrop : rest = file.drop (w.start + w.data.length) := by
            rw [← List.drop_drop, ← hrest, List.drop_left]
          rw [← hrest, hdrop]
          exact (List.prefix_append_right_inj w.data).mpr hchunk.2
        refine ih _ ?_ hheld hposition hstart rfl
        simp only [List.length_append]
        omega

/-- A slice of what the window holds is that of the file. -/
theorem slice_of_holds {w : Window} {first stop : ℕ} (hw : w.Holds file stop)
    (hfirst : w.start ≤ first) : w.slice first stop = (file.drop first).take (stop - first) := by
  obtain ⟨⟨rest, hrest⟩, hreach⟩ := hw
  have hdrop : file.drop first = (w.data ++ rest).drop (first - w.start) := by
    rw [hrest, List.drop_drop]
    congr 1
    omega
  rw [Window.slice, hdrop, List.drop_append, List.take_append_of_le_length]
  rw [List.length_drop]
  omega

/-- The line up to the first newline of the file, or up to its end. -/
theorem triple_line {w : Window} {first : ℕ} (hw : w.data <+: file.drop w.start)
    (hfirst : w.start ≤ first) (hstart : w.start ≤ file.length) :
    Triple (fun _ => True) (do
      let (stop, window) ← w.findNewline server.read chunkBytes file.length first
      return window.slice first (stop.getD file.length))
      (fun line _ => line = lineAt isNewline file first) (fun _ _ => ¬ server.Steady) := by
  refine triple_bind (triple_findNewline server hw hfirst hstart) fun r => ?_
  refine triple_pure fun _ h => ?_
  obtain ⟨hfind, hsame, hholds⟩ := h
  rw [slice_of_holds hholds (by omega), lineAt_eq, hfind]

theorem triple_wrap :
    Triple (fun _ => True) (wrap server.read chunkBytes file.length)
      (fun line _ => line = lineAt isNewline file 0) (fun _ _ => ¬ server.Steady) :=
  triple_line server List.nil_prefix le_rfl (Nat.zero_le _)

variable (chunkBytes)

/-- A line that is read is the first one from the offset on. -/
theorem triple_lineFrom {offset : ℕ} (hoffset : offset < file.length) :
    Triple (fun _ => True) (lineFrom server.read chunkBytes file.length offset)
      (fun line _ => IsLineFrom isNewline file offset line) (fun _ _ => ¬ server.Steady) := by
  rw [lineFrom]
  split_ifs with hpos
  · have hstart : offset - 1 ≤ file.length := by omega
    refine triple_bind (triple_findNewline server List.nil_prefix le_rfl hstart)
      fun (newline, window) => ?_
    refine triple_mono (triple_given fun hfound => ?_) (fun _ h => ⟨h, trivial⟩)
      (fun _ _ h => h) (fun _ _ h => h)
    obtain ⟨hfind, hsame, hholds⟩ := hfound
    have hwrap : (∀ q, find isNewline file (offset - 1) = some q → file.length ≤ q + 1) →
        Triple (fun _ => True) (wrap server.read chunkBytes file.length)
          (fun line _ => IsLineFrom isNewline file offset line) (fun _ _ => ¬ server.Steady) :=
      fun hnone => triple_mono (triple_wrap server) (fun _ h => h)
        (fun _ _ h => Or.inr ⟨fun p hp => lt_of_not_find hpos hnone hp, h⟩) (fun _ _ h => h)
    dsimp only at hfind hsame hholds ⊢
    cases newline with
    | none =>
      refine hwrap fun q hq => ?_
      rw [hq] at hfind
      cases hfind
    | some newline =>
      dsimp only
      split_ifs with hlast
      · obtain ⟨hle, -, -⟩ := find_eq_some_iff.mp hfind.symm
        refine triple_mono (triple_line server hholds.held ?_ ?_) (fun _ h => h)
          (fun _ _ h => Or.inl ⟨_, isLeast_of_find hpos hfind.symm hlast, h⟩) (fun _ _ h => h)
        · omega
        · omega
      · refine hwrap fun q hq => ?_
        obtain rfl := Option.some_inj.mp (hfind.trans hq)
        exact not_lt.mp hlast
  · obtain rfl : offset = 0 := by omega
    have hfile : file ≠ [] := List.length_pos_iff.mp hoffset
    exact triple_mono (triple_wrap server) (fun _ h => h)
      (fun _ _ h => Or.inl ⟨0, isLeast_zero hfile, h⟩) (fun _ _ h => h)

theorem lineFrom_ok {offset : ℕ} (hoffset : offset < file.length) (hsteady : server.Steady)
    (s : σ) : ∃ line, (lineFrom server.read chunkBytes file.length offset s).1 = .ok line ∧
      IsLineFrom isNewline file offset line := by
  have htriple := triple_lineFrom server chunkBytes hoffset s trivial
  cases hrun : lineFrom server.read chunkBytes file.length offset s with
  | mk result s' =>
    rw [hrun] at htriple
    cases result with
    | ok line => exact ⟨line, rfl, htriple⟩
    | error e => exact absurd hsteady htriple

end Spec

/-- A server that answers all there is. -/
def Server.whole {ε : Type} (file : Bytes) : Server file ε Unit where
  read start _ := pure (file.drop start)
  answers {start length s s' chunk} h hread := by
    obtain rfl : file.drop start = chunk := Except.ok.inj (congrArg Prod.fst hread)
    exact ⟨fun hnil => absurd (List.drop_eq_nil_iff.mp hnil) (not_le.mpr h), List.prefix_rfl⟩

theorem Server.whole_steady {ε : Type} (file : Bytes) : (Server.whole (ε := ε) file).Steady :=
  fun start _ _ _ => ⟨file.drop start, rfl⟩

/-- For every file and every offset in it there is one line that is read, and it is the first that
starts at the offset or behind it, or the file's first; neither where the answers end nor the
chunk size matters. -/
theorem exists_lineFrom (file : Bytes) (offset : ℕ) (hoffset : offset < file.length) :
    ∃ line, IsLineFrom isNewline file offset line ∧
      ∀ (ε σ : Type) (server : Server file ε σ), server.Steady → ∀ chunkBytes s,
        (lineFrom server.read chunkBytes file.length offset s).1 = .ok line := by
  obtain ⟨line, -, hline⟩ :=
    lineFrom_ok (Server.whole (ε := Empty) file) 1 hoffset (Server.whole_steady file) ()
  refine ⟨line, hline, fun ε σ server hsteady chunkBytes s => ?_⟩
  obtain ⟨line', hrun, hline'⟩ := lineFrom_ok server chunkBytes hoffset hsteady s
  rw [hrun, hline'.unique hline]

/-- `a` and `b`, each on its own line: from the second byte on there is only `b`. -/
theorem exists_lineFrom_lastLine :
    1 < ([97, 10, 98] : Bytes).length ∧
      ∃ line, IsLineFrom isNewline [97, 10, 98] 1 line ∧
        (lineFrom (Server.whole (ε := Empty) [97, 10, 98]).read 1 3 1 ()).1 = .ok line := by
  refine ⟨by decide, ?_⟩
  obtain ⟨line, hline, hread⟩ := exists_lineFrom [97, 10, 98] 1 (by decide)
  exact ⟨line, hline, hread Empty Unit (Server.whole _) (Server.whole_steady _) 1 ()⟩

end StudioWorker.Convert
