import StudioWorker.Lib.Offset
import StudioWorker.Lib.Search

/-!
# Engine.StopHold — text held back while it could still become a stop string

`StopHold` of `engine/llm_core.rs`, over byte offsets into UTF-8 text.  A string is the list of its
characters and every slice is partial: at an offset that is no character boundary it has no result,
as the source panics there.

* `push_live`: one pushed piece, against the cut of the text so far.
* `generate_spec`: a whole generation, however its text is cut into pieces.
-/

namespace StudioWorker.Engine

open Lib.Offset

/-- A UTF-8 string: its characters, addressed by byte offset. -/
abbrev Str := List Char

namespace Str

/-- `str::len`, in bytes. -/
def len (s : Str) : ℕ := width Char.utf8Size s

/-- `&s[i..]` -/
def sliceFrom (s : Str) (i : ℕ) : Option Str := dropAt Char.utf8Size s i

/-- `&s[i..j]` -/
def slice (s : Str) (i j : ℕ) : Option Str := Lib.Offset.slice Char.utf8Size s i j

/-- `String::truncate`: nothing happens past the end. -/
def truncate (s : Str) (n : ℕ) : Option Str :=
  if s.len < n then some s else takeAt Char.utf8Size s n

/-- `str::char_indices`, the offsets. -/
def charIndices (s : Str) : List ℕ := starts Char.utf8Size s

/-- `str::find` of a string: the offset of its first occurrence. -/
def find (s : Str) : Str → Option ℕ
  | [] => if s = [] then some 0 else none
  | c :: cs => if s <+: c :: cs then some 0 else (find s cs).map (· + c.utf8Size)

end Str

structure StopHold where
  stops : List Str
  out : Str
  emitted : ℕ
  stopped : Option ℕ
  deriving DecidableEq

namespace StopHold

def new (stops : List Str) : StopHold :=
  { stops := stops.filter (· ≠ []), out := [], emitted := 0, stopped := none }

def release (h : StopHold) (upto : ℕ) : Option (Str × StopHold) := do
  let upto := max upto h.emitted
  let text ← h.out.slice h.emitted upto
  return (text, { h with emitted := upto })

/-- Length of the longest pending suffix that is a proper prefix of a stop. -/
def heldSuffix (h : StopHold) : Option ℕ := do
  let pending ← h.out.sliceFrom h.emitted
  let found ← pending.charIndices.findM? fun i => do
    let tail ← pending.sliceFrom i
    return h.stops.any fun s => decide (tail.len < s.len) && decide (tail <+: s)
  return match found with
    | some i => pending.len - i
    | none => 0

/-- The slice that is searched is the same for every stop, so it is taken once. -/
def push (h : StopHold) (piece : Str) : Option (Str × StopHold) :=
  if h.stopped.isSome then
    some ([], h)
  else do
    let searchFrom := h.emitted
    let h := { h with out := h.out ++ piece }
    let pending ← h.out.sliceFrom searchFrom
    match (h.stops.filterMap fun s => (Str.find s pending).map (· + searchFrom)).min? with
    | some cutAt =>
      let out ← h.out.truncate cutAt
      release { h with out := out, stopped := some cutAt } cutAt
    | none =>
      let held ← h.heldSuffix
      h.release (h.out.len - held)

def finish (h : StopHold) : Option (Str × StopHold) := h.release h.out.len

def text (h : StopHold) : Str := h.out

/-- The pieces of a generation pushed in order, with what each push released. -/
def pushAll : StopHold → List Str → Option (List Str × StopHold)
  | h, [] => some ([], h)
  | h, p :: ps => do
    let (r, h) ← h.push p
    let (rs, h) ← pushAll h ps
    return (r :: rs, h)

/-- A whole generation: every piece pushed, then `finish`. -/
def generate (stops : List Str) (pieces : List Str) : Option (List Str × StopHold) := do
  let (rs, h) ← pushAll (new stops) pieces
  let (r, h) ← h.finish
  return (rs ++ [r], h)

end StopHold

/-! ## Strings as lists -/

namespace Str

@[simp] theorem len_append (s t : Str) : len (s ++ t) = len s + len t := width_append _ s t

theorem sliceFrom_append (a b : Str) : sliceFrom (a ++ b) (len a) = some b :=
  dropAt_append Char.utf8Size_pos a b

theorem slice_append (a b c : Str) : slice (a ++ b ++ c) (len a) (len (a ++ b)) = some b :=
  Lib.Offset.slice_append Char.utf8Size_pos a b c

theorem truncate_append (a b : Str) : truncate (a ++ b) (len a) = some a := by
  rw [truncate, if_neg (by rw [len_append]; omega)]
  exact takeAt_append Char.utf8Size_pos a b

/-- `find` gives the offset of what precedes the first occurrence. -/
theorem find_eq (s : Str) : ∀ t : Str, find s t = (Lib.Search.cut [s] t).map len
  | [] => by
    by_cases hs : s = []
    · subst hs; rfl
    · rw [find, Lib.Search.cut, if_neg hs, if_neg (by simpa using Ne.symm hs)]
      rfl
  | c :: cs => by
    rw [find, Lib.Search.cut]
    by_cases hs : s <+: c :: cs
    · rw [if_pos hs, if_pos ⟨s, List.mem_singleton_self s, hs⟩]
      rfl
    · rw [if_neg hs, if_neg (by simpa using hs), find_eq s cs, Option.map_map, Option.map_map]
      refine congrArg (Option.map · _) (funext fun a => ?_)
      simp only [Function.comp_apply, len, width_cons]
      omega

/-- The least offset at which a stop is found is that of the cut. -/
theorem min?_find (S : List Str) (t : Str) (k : ℕ) :
    (S.filterMap fun s => (find s t).map (· + k)).min? =
      (Lib.Search.cut S t).map fun a => len a + k := by
  cases hc : Lib.Search.cut S t with
  | none =>
    have hnone : ∀ s ∈ S, (find s t).map (· + k) = none := fun s hs => by
      have hno := Lib.Search.cut_eq_none.mp hc s hs
      have : Lib.Search.cut [s] t = none := Lib.Search.cut_eq_none.mpr (by simpa using hno)
      rw [find_eq, this]
      rfl
    have hempty : (S.filterMap fun s => (find s t).map (· + k)) = [] :=
      List.filterMap_eq_nil_iff.mpr hnone
    rw [hempty]
    rfl
  | some a =>
    obtain ⟨s, hs, hp⟩ := Lib.Search.cut_occurs hc
    refine List.min?_eq_some_iff.mpr ⟨List.mem_filterMap.mpr ⟨s, hs, ?_⟩, fun n hn => ?_⟩
    · obtain ⟨b, hb, hba⟩ := Lib.Search.cut_first (S := [s]) (List.mem_singleton_self s) hp
      obtain ⟨s', hs', hp'⟩ := Lib.Search.cut_occurs hb
      obtain rfl := List.mem_singleton.mp hs'
      obtain ⟨a', ha', hab⟩ := Lib.Search.cut_first hs hp'
      rw [hc] at ha'
      cases ha'
      have hEq : b = a := hba.eq_of_length (Nat.le_antisymm hba.length_le hab.length_le)
      rw [find_eq, hb, hEq]
      rfl
    · obtain ⟨s', hs', hn⟩ := List.mem_filterMap.mp hn
      rw [find_eq, Option.map_map] at hn
      obtain ⟨b, hb, rfl⟩ := Option.map_eq_some_iff.mp hn
      obtain ⟨s'', hs'', hp''⟩ := Lib.Search.cut_occurs hb
      obtain rfl := List.mem_singleton.mp hs''
      obtain ⟨a', ha', r, rfl⟩ := Lib.Search.cut_first hs' hp''
      rw [hc] at ha'
      cases ha'
      simp only [Function.comp_apply, len_append]
      omega

end Str

namespace StopHold

/-! ## One piece -/

/-- Nothing cut yet: `r` is released, `q` held, and no stop can begin in `r`. -/
structure Live (S : List Str) (r q : Str) (h : StopHold) : Prop where
  stops : h.stops = S
  out : h.out = r ++ q
  emitted : h.emitted = r.len
  stopped : h.stopped = none
  quiet : Lib.Search.Quiet S r q
  clean : Lib.Search.cut S q = none

/-- The text was cut to `r`, and all of it is released. -/
structure Stopped (r : Str) (h : StopHold) : Prop where
  out : h.out = r
  emitted : h.emitted = r.len
  stopped : h.stopped = some r.len

/-- Releasing up to a boundary not before what is out gives the text between. -/
theorem release_eq {h : StopHold} {r a b : Str} (ho : h.out = r ++ a ++ b)
    (he : h.emitted = r.len) :
    h.release (r ++ a).len = some (a, { h with emitted := (r ++ a).len }) := by
  have hmax : max (r ++ a).len h.emitted = (r ++ a).len := by
    rw [he, Str.len_append]
    omega
  rw [release, hmax, ho, he, Str.slice_append]
  rfl

/-- `finish` releases everything still held. -/
theorem finish_eq {h : StopHold} {r q : Str} (ho : h.out = r ++ q) (he : h.emitted = r.len) :
    h.finish = some (q, { h with emitted := h.out.len }) := by
  have hout : h.out = r ++ q ++ [] := by rw [ho, List.append_nil]
  have hlen : h.out.len = (r ++ q).len := by rw [ho]
  rw [finish, hlen]
  exact release_eq hout he

/-- A tail is shorter in bytes than the stop it begins exactly when it is not the whole stop. -/
theorem pending_iff (S : List Str) (t : Str) :
    (S.any fun s => decide (t.len < s.len) && decide (t <+: s)) = true ↔
      ∃ s ∈ S, t <+: s ∧ t ≠ s := by
  simp only [List.any_eq_true, Bool.and_eq_true, decide_eq_true_eq]
  refine exists_congr fun s => and_congr_right fun _ => ⟨?_, ?_⟩
  · rintro ⟨hlt, hp⟩
    exact ⟨hp, fun he => by rw [he] at hlt; omega⟩
  · rintro ⟨⟨e, rfl⟩, hne⟩
    have hpos : 0 < Str.len e := by
      cases e with
      | nil => simp at hne
      | cons c e =>
        have := Char.utf8Size_pos c
        simp only [Str.len, width_cons]
        omega
    exact ⟨by rw [Str.len_append]; omega, List.prefix_append _ _⟩

/-- The scan over the character offsets of `b`, which stands behind `a`, stops at the longest
tail that satisfies `P`. -/
theorem findM?_charIndices (P : Str → Bool) : ∀ a b : Str,
    ∃ x y, b = x ++ y ∧ (y ≠ [] → P y = true) ∧
      (∀ u v, x = u ++ v → v ≠ [] → P (v ++ y) = false) ∧
      ((Str.charIndices b).map (· + a.len)).findM?
        (fun i => do let tail ← Str.sliceFrom (a ++ b) i; return P tail) =
          some (if y = [] then none else some (a ++ x).len)
  | a, [] => ⟨[], [], rfl, by simp, by simp, rfl⟩
  | a, c :: b => by
    have hhead : (do let tail ← Str.sliceFrom (a ++ c :: b) (0 + a.len); return P tail) =
        some (P (c :: b)) := by
      rw [Nat.zero_add, Str.sliceFrom_append]
      rfl
    have hshift : ((Str.charIndices b).map (· + c.utf8Size)).map (· + a.len) =
        (Str.charIndices b).map (· + (a ++ [c]).len) := by
      rw [List.map_map]
      refine List.map_congr_left fun i _ => ?_
      simp only [Function.comp_apply, Str.len, width_append, width_cons, width_nil]
      omega
    have hcat : a ++ c :: b = a ++ [c] ++ b := by simp
    simp only [Str.charIndices, starts, List.map_cons, List.findM?, hhead]
    cases hP : P (c :: b) with
    | true =>
      refine ⟨[], c :: b, rfl, fun _ => hP, fun u v huv hv => ?_, ?_⟩
      · exact absurd (List.append_eq_nil_iff.mp huv.symm).2 hv
      · rw [if_neg (by simp), List.append_nil, Nat.zero_add]
        rfl
    | false =>
      obtain ⟨x, y, rfl, hy, hx, hf⟩ := findM?_charIndices P (a ++ [c]) b
      refine ⟨c :: x, y, rfl, hy, fun u v huv hv => ?_, ?_⟩
      · cases u with
        | nil =>
          obtain rfl : c :: x = v := huv
          exact hP
        | cons d u =>
          obtain ⟨-, huv⟩ := List.cons.inj huv
          exact hx u v huv hv
      · have hres : (a ++ c :: x).len = (a ++ [c] ++ x).len := by simp
        rw [hres, ← hf, ← hshift, hcat]
        rfl

/-- What is held: the longest pending suffix that a stop could go on from. -/
theorem heldSuffix_eq {h : StopHold} {r q : Str} (ho : h.out = r ++ q) (he : h.emitted = r.len) :
    ∃ x y, q = x ++ y ∧ h.heldSuffix = some y.len ∧ (y ≠ [] → ∃ s ∈ h.stops, y <+: s ∧ y ≠ s) ∧
      ∀ u v, x = u ++ v → v ≠ [] → ∀ s ∈ h.stops, ¬ (v ++ y <+: s ∧ v ++ y ≠ s) := by
  obtain ⟨x, y, hxy, hy, hx, hf⟩ := findM?_charIndices
    (fun t => h.stops.any fun s => decide (t.len < s.len) && decide (t <+: s)) [] q
  have hzero : (Str.charIndices q).map (· + Str.len []) = Str.charIndices q := by
    simp [Str.len]
  rw [hzero, List.nil_append, List.nil_append] at hf
  refine ⟨x, y, hxy, ?_, fun hne => (pending_iff _ _).mp (hy hne), fun u v huv hv s hs hp => ?_⟩
  · rw [heldSuffix, ho, he, Str.sliceFrom_append]
    simp only [Option.bind_eq_bind, Option.bind_some]
    rw [Option.bind_eq_bind] at hf
    rw [hf]
    by_cases hne : y = []
    · simp [hne, Str.len]
    · rw [if_neg hne, hxy, Str.len_append]
      simp
  · have := hx u v huv hv
    rw [(pending_iff _ _).mpr ⟨s, hs, hp⟩] at this
    cases this

theorem new_live (stops : List Str) :
    Live (stops.filter (· ≠ [])) [] [] (new stops) where
  stops := rfl
  out := rfl
  emitted := rfl
  stopped := rfl
  quiet := Lib.Search.quiet_nil []
  clean := by simp [Lib.Search.cut]

/-- A stop in the text so far: it is cut there, and what was still held before it goes out. -/
theorem push_cut {S : List Str} {r q p a : Str} {h : StopHold} (hl : Live S r q h)
    (hc : Lib.Search.cut S (q ++ p) = some a) :
    ∃ h', h.push p = some (a, h') ∧ Stopped (r ++ a) h' := by
  obtain ⟨b, hb⟩ := Lib.Search.cut_prefix hc
  have hout : h.out ++ p = r ++ a ++ b := by rw [hl.out, List.append_assoc, ← hb]; simp
  have hpending : Str.sliceFrom (h.out ++ p) h.emitted = some (q ++ p) := by
    rw [hl.out, hl.emitted, List.append_assoc, Str.sliceFrom_append]
  have hmin : (h.stops.filterMap fun s => (Str.find s (q ++ p)).map (· + h.emitted)).min? =
      some (r ++ a).len := by
    rw [Str.min?_find, hl.stops, hc, hl.emitted, Str.len_append, Nat.add_comm]
    rfl
  have htrunc : Str.truncate (h.out ++ p) (r ++ a).len = some (r ++ a) := by
    rw [hout, Str.truncate_append]
  refine ⟨{ h with out := r ++ a, emitted := (r ++ a).len, stopped := some (r ++ a).len }, ?_,
    rfl, rfl, rfl⟩
  rw [push, if_neg (by rw [hl.stopped]; exact Bool.false_ne_true)]
  simp only [Option.bind_eq_bind, hpending, Option.bind_some, hmin, htrunc]
  exact release_eq (b := []) (by simp) hl.emitted

/-- No stop in the text so far: what no stop can begin in goes out. -/
theorem push_live {S : List Str} {r q p : Str} {h : StopHold} (hl : Live S r q h)
    (hc : Lib.Search.cut S (q ++ p) = none) :
    ∃ x y h', q ++ p = x ++ y ∧ h.push p = some (x, h') ∧ Live S (r ++ x) y h' := by
  have hpending : Str.sliceFrom (h.out ++ p) h.emitted = some (q ++ p) := by
    rw [hl.out, hl.emitted, List.append_assoc, Str.sliceFrom_append]
  have hmin : (h.stops.filterMap fun s => (Str.find s (q ++ p)).map (· + h.emitted)).min? =
      none := by
    rw [Str.min?_find, hl.stops, hc]
    rfl
  have hout : h.out ++ p = r ++ (q ++ p) := by rw [hl.out, List.append_assoc]
  obtain ⟨x, y, hxy, hheld, -, hx⟩ :=
    heldSuffix_eq (h := { h with out := h.out ++ p }) hout hl.emitted
  have hout' : h.out ++ p = r ++ x ++ y := by rw [hout, hxy, List.append_assoc]
  have hupto : (h.out ++ p).len - y.len = (r ++ x).len := by
    rw [hout', Str.len_append]
    omega
  refine ⟨x, y, { h with out := h.out ++ p, emitted := (r ++ x).len }, hxy, ?_, hl.stops, hout',
    rfl, hl.stopped, ?_, ?_⟩
  · rw [push, if_neg (by rw [hl.stopped]; exact Bool.false_ne_true)]
    simp only [Option.bind_eq_bind, hpending, Option.bind_some, hmin, hheld, hupto]
    exact release_eq (h := { h with out := h.out ++ p }) hout' hl.emitted
  · have hq := hl.quiet.append p
    rw [hxy] at hq hc
    exact hq.release hc fun u v huv hv s hs => hx u v huv hv s (hl.stops ▸ hs)
  · rw [hxy] at hc
    exact Lib.Search.cut_eq_none.mpr fun s hs hin =>
      Lib.Search.cut_eq_none.mp hc s hs (hin.trans (List.suffix_append x y).isInfix)

theorem Stopped.push {r : Str} {h : StopHold} (hs : Stopped r h) (p : Str) :
    h.push p = some ([], h) := by
  rw [StopHold.push, hs.stopped]
  rfl

/-! ## A whole generation -/

theorem pushAll_append (h : StopHold) (ps qs : List Str) :
    pushAll h (ps ++ qs) = (pushAll h ps).bind fun r =>
      (pushAll r.2 qs).bind fun r' => some (r.1 ++ r'.1, r'.2) := by
  induction ps generalizing h with
  | nil =>
    rw [List.nil_append, pushAll, Option.bind_some]
    cases pushAll h qs <;> rfl
  | cons p ps ih =>
    simp only [List.cons_append, pushAll, ih, Option.bind_eq_bind, Option.pure_def,
      Option.bind_assoc, Option.bind_some]

/-- After a cut every further piece is dropped. -/
theorem Stopped.pushAll {r : Str} {h : StopHold} (hs : Stopped r h) :
    ∀ ps, StopHold.pushAll h ps = some (ps.map fun _ => [], h)
  | [] => rfl
  | p :: ps => by
    simp only [StopHold.pushAll, hs.push, Option.bind_eq_bind, Option.bind_some,
      Stopped.pushAll hs ps, Option.pure_def, List.map_cons]

/-- The pieces pushed one by one: the text is cut where the stream of them is. -/
theorem pushAll_spec {S : List Str} : ∀ (ps : List Str) {r q : Str} {h : StopHold},
    Live S r q h → ∃ rs h', pushAll h ps = some (rs, h') ∧
      match Lib.Search.streamCut S (r ++ q) ps with
      | some t => r ++ rs.flatten = t ∧ Stopped t h'
      | none => ∃ y, r ++ q ++ ps.flatten = r ++ rs.flatten ++ y ∧ Live S (r ++ rs.flatten) y h'
  | [], r, q, h, hl => by
    refine ⟨[], h, rfl, q, ?_, ?_⟩
    · simp
    · simpa using hl
  | p :: ps, r, q, h, hl => by
    have hcut : Lib.Search.cut S (r ++ q ++ p) = (Lib.Search.cut S (q ++ p)).map (r ++ ·) := by
      rw [List.append_assoc]
      exact (hl.quiet.append p).cut
    simp only [Lib.Search.streamCut, hcut]
    cases hc : Lib.Search.cut S (q ++ p) with
    | some a =>
      obtain ⟨h', hpush, hstop⟩ := push_cut hl hc
      have hall := hstop.pushAll ps
      refine ⟨a :: ps.map fun _ => [], h', ?_, ?_, hstop⟩
      · simp only [pushAll, hpush, Option.bind_eq_bind, Option.bind_some, hall, Option.pure_def]
      · simp
    | none =>
      obtain ⟨x, y, h', hxy, hpush, hlive⟩ := push_live hl hc
      obtain ⟨rs, h'', hall, hres⟩ := pushAll_spec ps hlive
      have hseen : r ++ q ++ p = r ++ x ++ y := by
        rw [List.append_assoc, hxy, List.append_assoc]
      refine ⟨x :: rs, h'', ?_, ?_⟩
      · simp only [pushAll, hpush, Option.bind_eq_bind, Option.bind_some, hall, Option.pure_def]
      · simp only [Option.map_none, hseen]
        have hflat : r ++ (x :: rs).flatten = r ++ x ++ rs.flatten := by simp
        have hwhole : r ++ q ++ (p :: ps).flatten = r ++ x ++ y ++ ps.flatten := by
          rw [List.flatten_cons, ← List.append_assoc, hseen]
        rw [hflat, hwhole]
        exact hres

/-- A generation never slices inside a character; its text is the stream's cut, or all of it when
there is none, and all of the text is released. -/
theorem generate_spec (stops pieces : List Str) :
    ∃ rs h, generate stops pieces = some (rs, h) ∧ rs.flatten = h.text ∧
      match Lib.Search.streamCut (stops.filter (· ≠ [])) [] pieces with
      | some t => h.text = t ∧ h.stopped = some (Str.len t)
      | none => h.text = pieces.flatten ∧ h.stopped = none := by
  obtain ⟨rs, h, hall, hres⟩ := pushAll_spec pieces (new_live stops)
  rw [List.append_nil] at hres
  cases hc : Lib.Search.streamCut (stops.filter (· ≠ [])) [] pieces with
  | some t =>
    rw [hc] at hres
    obtain ⟨rfl, hstop⟩ := hres
    rw [List.nil_append] at hstop
    have hout : h.out = rs.flatten ++ [] := by rw [hstop.out, List.append_nil]
    have hfin := finish_eq hout hstop.emitted
    refine ⟨rs ++ [[]], { h with emitted := h.out.len }, ?_, ?_, hstop.out, hstop.stopped⟩
    · simp only [generate, hall, Option.bind_eq_bind, Option.bind_some, hfin, Option.pure_def]
    · rw [List.flatten_concat, ← hout]
      rfl
  | none =>
    rw [hc] at hres
    obtain ⟨y, htext, hlive⟩ := hres
    simp only [List.nil_append] at htext hlive
    have hfin := finish_eq hlive.out hlive.emitted
    refine ⟨rs ++ [y], { h with emitted := h.out.len }, ?_, ?_, ?_, hlive.stopped⟩
    · simp only [generate, hall, Option.bind_eq_bind, Option.bind_some, hfin, Option.pure_def]
    · rw [List.flatten_concat, ← hlive.out]
      rfl
    · exact hlive.out.trans htext.symm

end StopHold

end StudioWorker.Engine
