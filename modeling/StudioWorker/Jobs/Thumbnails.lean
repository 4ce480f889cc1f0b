import Mathlib.Data.List.Dedup
import StudioWorker.Text

/-!
# Jobs.Thumbnails — the bounded ring of thumbnails (`src/thumbnail.rs`)

A ring of job ids with their pictures, the oldest in front, and never more than `thumbnailsCap`.

* `Thumbnails.insert`, `get`, `contains`, `retain`: as in the source.
* `Thumbnails.ofPuts`: the ring after any inserts.
* `get_ofPuts_iff`: the picture a job has is its last one, until a ring's worth of other jobs have
  had theirs since.
-/

namespace StudioWorker.Jobs

/-- `RECENT_JOBS_CAP` of `src/runtime.rs`. -/
def recentJobsCap : ℕ := 50

def thumbnailsCap : ℕ := 2 * recentJobsCap

variable {Png : Type}

abbrev Thumbnails (Png : Type) := List (Text × Png)

namespace Thumbnails

/-- Drop the front while the ring is too long. -/
def clamp (ring : Thumbnails Png) : Thumbnails Png := ring.drop (ring.length - thumbnailsCap)

def insert (ring : Thumbnails Png) (jobId : Text) (png : Png) : Thumbnails Png :=
  clamp (ring.filter (fun e => e.1 != jobId) ++ [(jobId, png)])

def get (ring : Thumbnails Png) (jobId : Text) : Option Png :=
  (ring.find? fun e => e.1 == jobId).map (·.2)

def contains (ring : Thumbnails Png) (jobId : Text) : Bool := ring.any fun e => e.1 == jobId

def retain (ring : Thumbnails Png) (keep : Text → Bool) : Thumbnails Png :=
  ring.filter fun e => keep e.1

/-- The jobs that have a thumbnail. -/
def ids (ring : Thumbnails Png) : List Text := ring.map (·.1)

def ofPuts (puts : List (Text × Png)) : Thumbnails Png :=
  puts.foldl (fun ring p => ring.insert p.1 p.2) []

/-- The last put of every job, in the order of these puts. -/
def lasts : List (Text × Png) → List (Text × Png)
  | [] => []
  | p :: puts => if contains puts p.1 then lasts puts else p :: lasts puts

/-! ## The ring is cut in front -/

theorem clamp_of_length_le {ring : Thumbnails Png} (h : ring.length ≤ thumbnailsCap) :
    clamp ring = ring := by
  rw [clamp, Nat.sub_eq_zero_of_le h, List.drop_zero]

theorem clamp_append {back : Thumbnails Png} (front : Thumbnails Png)
    (h : thumbnailsCap ≤ back.length) : clamp (front ++ back) = clamp back := by
  have hlen : (front ++ back).length - thumbnailsCap =
      front.length + (back.length - thumbnailsCap) := by
    rw [List.length_append]
    omega
  rw [clamp, hlen, List.drop_length_add_append, clamp]

theorem clamp_append_cons_iff {ring : Thumbnails Png} {e : Text × Png} (hnodup : ring.Nodup) :
    e ∈ clamp ring ↔ ∃ older newer, ring = older ++ e :: newer ∧ newer.length < thumbnailsCap := by
  constructor
  · intro h
    obtain ⟨older, newer, hsplit⟩ := List.append_of_mem h
    refine ⟨ring.take (ring.length - thumbnailsCap) ++ older, newer, ?_, ?_⟩
    · rw [List.append_assoc, ← hsplit, clamp, List.take_append_drop]
    · have hlen : (clamp ring).length = ring.length - (ring.length - thumbnailsCap) :=
        List.length_drop
      rw [hsplit, List.length_append, List.length_cons] at hlen
      omega
  · rintro ⟨older, newer, rfl, hnewer⟩
    rw [clamp, List.length_append, List.length_cons]
    have hle : older.length + (newer.length + 1) - thumbnailsCap ≤ older.length := by omega
    rw [List.drop_append_of_le_length hle]
    exact List.mem_append_right _ List.mem_cons_self

/-! ## The last put of every job -/

theorem contains_iff {ring : Thumbnails Png} {jobId : Text} :
    ring.contains jobId = true ↔ jobId ∈ ids ring := by
  simp [contains, ids]

theorem lasts_cons_of_mem {p : Text × Png} {puts : List (Text × Png)} (h : p.1 ∈ ids puts) :
    lasts (p :: puts) = lasts puts :=
  if_pos (contains_iff.mpr h)

theorem lasts_cons_of_not_mem {p : Text × Png} {puts : List (Text × Png)} (h : p.1 ∉ ids puts) :
    lasts (p :: puts) = p :: lasts puts :=
  if_neg (mt contains_iff.mp h)

theorem ids_lasts (puts : List (Text × Png)) : ids (lasts puts) = (ids puts).dedup := by
  induction puts with
  | nil => rfl
  | cons p puts ih =>
    rw [show ids (p :: puts) = p.1 :: ids puts from rfl]
    by_cases h : p.1 ∈ ids puts
    · rw [lasts_cons_of_mem h, ih, List.dedup_cons_of_mem h]
    · rw [lasts_cons_of_not_mem h, List.dedup_cons_of_notMem h, ← ih]
      rfl

theorem nodup_ids_lasts (puts : List (Text × Png)) : (ids (lasts puts)).Nodup := by
  rw [ids_lasts]
  exact List.nodup_dedup _

theorem lasts_concat (puts : List (Text × Png)) (p : Text × Png) :
    lasts (puts ++ [p]) = (lasts puts).filter (fun e => e.1 != p.1) ++ [p] := by
  induction puts with
  | nil => rfl
  | cons q puts ih =>
    have hids : ids (puts ++ [p]) = ids puts ++ [p.1] := List.map_append
    rw [List.cons_append]
    by_cases hq : q.1 ∈ ids puts
    · have hlater : q.1 ∈ ids (puts ++ [p]) := by
        rw [hids]
        exact List.mem_append_left _ hq
      rw [lasts_cons_of_mem hq, lasts_cons_of_mem hlater, ih]
    · rw [lasts_cons_of_not_mem hq, List.filter_cons]
      by_cases hp : q.1 = p.1
      · have hlater : q.1 ∈ ids (puts ++ [p]) := by simp [hids, hp]
        rw [lasts_cons_of_mem hlater, ih, if_neg (by simp [hp])]
      · have hlater : q.1 ∉ ids (puts ++ [p]) := by simp [hids, hp, hq]
        rw [lasts_cons_of_not_mem hlater, ih, if_pos (by simp [hp]), List.cons_append]

/-- What is put later comes later. -/
theorem lasts_append (before after : List (Text × Png)) :
    ∃ older, lasts (before ++ after) = older ++ lasts after := by
  induction before with
  | nil => exact ⟨[], rfl⟩
  | cons p before ih =>
    obtain ⟨older, ih⟩ := ih
    rw [List.cons_append]
    by_cases h : p.1 ∈ ids (before ++ after)
    · exact ⟨older, by rw [lasts_cons_of_mem h, ih]⟩
    · exact ⟨p :: older, by rw [lasts_cons_of_not_mem h, ih, List.cons_append]⟩

/-- Behind the last put of a job are the jobs that were put since. -/
theorem exists_split_lasts_iff {puts newer : List (Text × Png)} {p : Text × Png} :
    (∃ older, lasts puts = older ++ p :: newer) ↔
      ∃ before after, puts = before ++ p :: after ∧ p.1 ∉ ids after ∧ newer = lasts after := by
  constructor
  · rintro ⟨older, h⟩
    induction puts generalizing older with
    | nil => simp [lasts] at h
    | cons q puts ih =>
      by_cases hq : q.1 ∈ ids puts
      · rw [lasts_cons_of_mem hq] at h
        obtain ⟨before, after, rfl, hlast, hnewer⟩ := ih older h
        exact ⟨q :: before, after, rfl, hlast, hnewer⟩
      · rw [lasts_cons_of_not_mem hq] at h
        cases older with
        | nil =>
          obtain ⟨rfl, rfl⟩ := List.cons_eq_cons.mp h
          exact ⟨[], puts, rfl, hq, rfl⟩
        | cons q' older =>
          obtain ⟨-, h⟩ := List.cons_eq_cons.mp h
          obtain ⟨before, after, rfl, hlast, hnewer⟩ := ih older h
          exact ⟨q :: before, after, rfl, hlast, hnewer⟩
  · rintro ⟨before, after, rfl, hlast, rfl⟩
    obtain ⟨older, h⟩ := lasts_append before (p :: after)
    rw [lasts_cons_of_not_mem hlast] at h
    exact ⟨older, h⟩

/-! ## The ring after any puts -/

/-- One put takes at most one other picture out. -/
theorem le_length_filter {ring : Thumbnails Png} (h : (ids ring).Nodup) (jobId : Text) :
    ring.length ≤ (ring.filter fun e => e.1 != jobId).length + 1 := by
  have hsplit := List.length_eq_countP_add_countP (l := ring) fun e => e.1 != jobId
  have hcount : ring.countP (fun e => decide ¬(e.1 != jobId) = true) ≤ 1 := by
    have hone := List.nodup_iff_count_le_one.mp h jobId
    rw [ids, List.count, List.countP_map] at hone
    refine le_of_eq_of_le (List.countP_congr fun e _ => ?_) hone
    simp
  rw [← List.countP_eq_length_filter]
  omega

theorem insert_clamp {ring : Thumbnails Png} (h : (ids ring).Nodup) (jobId : Text) (png : Png) :
    (clamp ring).insert jobId png =
      clamp (ring.filter (fun e => e.1 != jobId) ++ [(jobId, png)]) := by
  rw [insert]
  rcases Nat.le_total ring.length thumbnailsCap with hle | hge
  · rw [clamp_of_length_le hle]
  · -- what the ring has dropped stays dropped: a ring's worth comes behind it
    have hback : (clamp ring).length = thumbnailsCap := by
      rw [clamp, List.length_drop]
      omega
    have hnodup : (ids (clamp ring)).Nodup :=
      h.sublist ((List.drop_sublist _ _).map _)
    have hlen := le_length_filter hnodup jobId
    have hsplit : ring = ring.take (ring.length - thumbnailsCap) ++ clamp ring :=
      (List.take_append_drop _ _).symm
    conv_rhs => rw [hsplit, List.filter_append, List.append_assoc]
    refine (clamp_append _ ?_).symm
    rw [List.length_append, List.length_singleton]
    omega

theorem ofPuts_eq (puts : List (Text × Png)) : ofPuts puts = clamp (lasts puts) := by
  induction puts using List.reverseRecOn with
  | nil => rfl
  | append_singleton puts p ih =>
    have hstep : ofPuts (puts ++ [p]) = (ofPuts puts).insert p.1 p.2 := by
      rw [ofPuts, List.foldl_append]
      rfl
    rw [hstep, ih, insert_clamp (nodup_ids_lasts puts), lasts_concat]

/-- Where no job occurs twice, a job's picture is the one that is there for it. -/
theorem get_eq_some_iff {ring : Thumbnails Png} (h : (ids ring).Nodup) {jobId : Text} {png : Png} :
    ring.get jobId = some png ↔ (jobId, png) ∈ ring := by
  induction ring with
  | nil => simp [get]
  | cons e ring ih =>
    obtain ⟨hnew, hnodup⟩ := List.nodup_cons.mp h
    rw [List.mem_cons]
    rcases eq_or_ne e.1 jobId with rfl | he
    · have hget : get (e :: ring) e.1 = some e.2 := by simp [get]
      rw [hget, Option.some.injEq]
      constructor
      · rintro rfl
        exact .inl rfl
      · rintro (heq | hmem)
        · exact (congrArg Prod.snd heq).symm
        · exact absurd (List.mem_map_of_mem hmem) hnew
    · have hget : get (e :: ring) jobId = get ring jobId := by simp [get, he]
      rw [hget, ih hnodup]
      exact ⟨.inr, fun hmem => hmem.resolve_left fun heq => he (heq ▸ rfl)⟩

/-- A job's picture is the last one that was put for it, and is there until a ring's worth of other
jobs have had one put since. -/
theorem get_ofPuts_iff (puts : List (Text × Png)) (jobId : Text) (png : Png) :
    (ofPuts puts).get jobId = some png ↔
      ∃ before after, puts = before ++ (jobId, png) :: after ∧ jobId ∉ ids after ∧
        (ids after).dedup.length < thumbnailsCap := by
  have hnodup : (ids (ofPuts puts)).Nodup := by
    rw [ofPuts_eq]
    exact (nodup_ids_lasts puts).sublist ((List.drop_sublist _ _).map _)
  have hlasts : (lasts puts).Nodup := (nodup_ids_lasts puts).of_map
  rw [get_eq_some_iff hnodup, ofPuts_eq, clamp_append_cons_iff hlasts]
  constructor
  · rintro ⟨older, newer, hsplit, hlen⟩
    obtain ⟨before, after, hputs, hlast, rfl⟩ := exists_split_lasts_iff.mp ⟨older, hsplit⟩
    refine ⟨before, after, hputs, hlast, ?_⟩
    rwa [← ids_lasts, ids, List.length_map]
  · rintro ⟨before, after, hputs, hlast, hlen⟩
    obtain ⟨older, hsplit⟩ := exists_split_lasts_iff.mpr ⟨before, after, hputs, hlast, rfl⟩
    refine ⟨older, lasts after, hsplit, ?_⟩
    rwa [← ids_lasts, ids, List.length_map] at hlen

end Thumbnails
end StudioWorker.Jobs
