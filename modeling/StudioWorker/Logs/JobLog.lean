import Mathlib.Data.List.DropRight
import Mathlib.Algebra.Order.Group.Nat
import StudioWorker.Lib.Lives
import StudioWorker.Text

/-!
# Logs.JobLog — the bounded store of per-job logs (`src/job_log.rs`)

`JobLogStore` is a queue of entries, the oldest in front, each with a queue of lines; both drop
their front when they are full.  `dropped` is a `u64`.

* `push`, `get`: as in the source; `none` of `push` is an index out of bounds.
* `run`: the store after any pushes, and the ids of the entries they created.
* `LatestCreation`: where the entry of a job was last created, and what was pushed from there on.
* `jobLogStore_spec`: what the store holds of every job.
-/

namespace StudioWorker.JobLogs

def jobLogJobsCap : ℕ := 128

def jobLogLinesCap : ℕ := 400

def jobLogLineChars : ℕ := 2000

structure JobLogLine where
  ts : ℤ
  level : Text
  target : Text
  message : Text

structure JobLog where
  lines : List JobLogLine
  dropped : ℕ

structure Entry where
  jobId : Text
  lines : List JobLogLine
  dropped : ℕ

/-- A longer message is clipped, and marked. -/
def clip (line : JobLogLine) : JobLogLine :=
  if jobLogLineChars < line.message.length then
    { line with message := line.message.take jobLogLineChars ++ ['…'] }
  else line

/-- What `push` does to the entry of the job. -/
def Entry.push (entry : Entry) (line : JobLogLine) : Entry :=
  let lines := entry.lines ++ [line]
  if jobLogLinesCap < lines.length then
    { entry with lines := lines.tail, dropped := (entry.dropped + 1) % 2 ^ 64 }
  else { entry with lines }

/-- `VecDeque::iter().rposition(..)` -/
def rposition {α : Type*} (p : α → Bool) (l : List α) : Option ℕ :=
  (l.reverse.findIdx? p).map (l.length - 1 - ·)

def push (jobs : List Entry) (jobId : Text) (line : JobLogLine) : Option (List Entry) :=
  let line := clip line
  let (jobs, index) : List Entry × ℕ := match rposition (·.jobId == jobId) jobs with
    | some index => (jobs, index)
    | none =>
      let jobs := jobs ++ [⟨jobId, [], 0⟩]
      let jobs := if jobLogJobsCap < jobs.length then jobs.tail else jobs
      (jobs, jobs.length - 1)
  if h : index < jobs.length then some (jobs.set index (jobs[index].push line)) else none

def get (jobs : List Entry) (jobId : Text) : Option JobLog :=
  (jobs.reverse.find? (·.jobId == jobId)).map fun e => ⟨e.lines, e.dropped⟩

/-- The jobs that have an entry. -/
def ids (jobs : List Entry) : List Text := jobs.map Entry.jobId

/-- The store, and the id of every entry that was ever created, oldest first. -/
structure Run where
  jobs : List Entry
  created : List Text

def Run.step (run : Run) (p : Text × JobLogLine) : Option Run :=
  (push run.jobs p.1 p.2).map fun jobs =>
    ⟨jobs, if (ids run.jobs).contains p.1 then run.created else run.created ++ [p.1]⟩

/-- The store after some pushes; `none` when one of them panicked. -/
def run (pushes : List (Text × JobLogLine)) : Option Run := pushes.foldlM Run.step ⟨[], []⟩

/-- The lines pushed for a job. -/
def linesFor (jobId : Text) (pushes : List (Text × JobLogLine)) : List JobLogLine :=
  (pushes.filter (·.1 = jobId)).map (·.2)

/-- The entry of `jobId` was last created by the first push of `since`; behind it the entries of
`newer` were created. -/
def LatestCreation (pushes : List (Text × JobLogLine)) (jobId : Text)
    (since : List (Text × JobLogLine)) (newer : List Text) : Prop :=
  ∃ before first final, pushes = before ++ since ∧ since.head?.map (·.1) = some jobId ∧
    run before = some first ∧ jobId ∉ ids first.jobs ∧
    run pushes = some final ∧ final.created = first.created ++ jobId :: newer ∧ jobId ∉ newer

theorem linesFor_eq_itemsOf (jobId : Text) (pushes : List (Text × JobLogLine)) :
    linesFor jobId pushes = Lib.Lives.itemsOf jobId pushes := rfl

/-! ## Searching from the back -/

section Rposition

variable {α : Type*} {p : α → Bool} {l : List α}

theorem rposition_concat_of_pos {x : α} (h : p x = true) :
    rposition p (l ++ [x]) = some l.length := by
  simp [rposition, List.findIdx?_cons, h]

theorem rposition_concat_of_neg {x : α} (h : p x = false) :
    rposition p (l ++ [x]) = rposition p l := by
  rw [rposition, List.reverse_append, List.reverse_singleton, List.singleton_append,
    List.findIdx?_cons, h, rposition, List.length_append, List.length_singleton]
  simp only [Bool.false_eq_true, if_false, Option.map_map]
  congr 1
  funext i
  simp only [Function.comp]
  omega

theorem rposition_eq_none_iff : rposition p l = none ↔ ∀ x ∈ l, p x = false := by
  simp [rposition]

theorem set_rposition {f : α → α} {i : ℕ} (h : rposition p l = some i) :
    ∃ hi : i < l.length, (l.set i (f l[i])).reverse =
      l.reverse.replaceF fun x => if p x then some (f x) else none := by
  induction l using List.reverseRecOn with
  | nil => simp [rposition] at h
  | append_singleton l x ih =>
    cases hx : p x with
    | true =>
      rw [rposition_concat_of_pos hx] at h
      obtain rfl := Option.some_inj.mp h
      exact ⟨by simp, by simp [hx]⟩
    | false =>
      rw [rposition_concat_of_neg hx] at h
      obtain ⟨hi, hset⟩ := ih h
      have hi' : i < (l ++ [x]).length := by
        rw [List.length_append]
        omega
      refine ⟨hi', ?_⟩
      rw [List.getElem_append_left hi, List.set_append_left _ _ hi, List.reverse_append, hset]
      simp [hx]

end Rposition

/-! ## The store keeps the newest of the lives -/

/-- What is kept of everything that was pushed for a job. -/
def entryOf (life : Lib.Lives.Life Text JobLogLine) : Entry :=
  ⟨life.key, (life.items.map clip).rtake jobLogLinesCap,
    (life.items.length - jobLogLinesCap) % 2 ^ 64⟩

def storeOf (lives : List (Lib.Lives.Life Text JobLogLine)) : List Entry :=
  ((lives.take jobLogJobsCap).map entryOf).reverse

theorem rtake_concat {α : Type*} (l : List α) (x : α) (n : ℕ) :
    (l ++ [x]).rtake n = if n < (l.rtake n ++ [x]).length then (l.rtake n ++ [x]).tail
      else l.rtake n ++ [x] := by
  rw [← List.rtake_concat_succ, List.rtake, List.rtake, List.length_drop, List.length_append,
    List.length_singleton]
  split_ifs with h
  · rw [List.tail_drop]
    congr 1
    omega
  · congr 1
    omega

theorem entryOf_add (life : Lib.Lives.Life Text JobLogLine) (line : JobLogLine) :
    entryOf (life.add line) = (entryOf life).push (clip line) := by
  have hlines := rtake_concat (life.items.map clip) (clip line) jobLogLinesCap
  have hlength : ((life.items.map clip).rtake jobLogLinesCap ++ [clip line]).length =
      min life.items.length jobLogLinesCap + 1 := by
    rw [List.length_append, List.rtake, List.length_drop, List.length_map, List.length_singleton]
    omega
  rw [Entry.push, entryOf, entryOf, Lib.Lives.Life.add]
  simp only [List.map_append, List.map_cons, List.map_nil, List.length_append,
    List.length_singleton, hlines]
  rw [List.length_append, List.length_singleton] at hlength
  rw [hlength]
  split_ifs with h
  · have hmod : life.items.length + 1 - jobLogLinesCap =
        life.items.length - jobLogLinesCap + 1 := by omega
    rw [hmod, Nat.mod_add_mod]
  · have hzero : life.items.length + 1 - jobLogLinesCap = life.items.length - jobLogLinesCap := by
      omega
    rw [hzero]

theorem map_entryOf_extend (jobId : Text) (line : JobLogLine)
    (lives : List (Lib.Lives.Life Text JobLogLine)) :
    (Lib.Lives.extend jobId line lives).map entryOf = (lives.map entryOf).replaceF fun e =>
      if e.jobId == jobId then some (e.push (clip line)) else none := by
  induction lives with
  | nil => rfl
  | cons life lives ih =>
    have hid : (entryOf life).jobId = life.key := rfl
    rw [List.map_cons, List.replaceF_cons, hid]
    by_cases h : life.key = jobId
    · rw [Lib.Lives.extend_cons_of_eq h, List.map_cons, entryOf_add]
      simp [h]
    · rw [Lib.Lives.extend_cons_of_ne h, List.map_cons, ih]
      simp [h]

theorem ids_storeOf (lives : List (Lib.Lives.Life Text JobLogLine)) :
    ids (storeOf lives) = (Lib.Lives.keys (lives.take jobLogJobsCap)).reverse := by
  rw [ids, storeOf, List.map_reverse, List.map_map, Lib.Lives.keys]
  rfl

theorem mem_ids_storeOf {lives : List (Lib.Lives.Life Text JobLogLine)} {jobId : Text} :
    jobId ∈ ids (storeOf lives) ↔ jobId ∈ Lib.Lives.keys (lives.take jobLogJobsCap) := by
  rw [ids_storeOf, List.mem_reverse]

theorem push_of_mem {jobs : List Entry} {jobId : Text} (h : jobId ∈ ids jobs) (line : JobLogLine) :
    ∃ jobs', push jobs jobId line = some jobs' ∧ jobs'.reverse = jobs.reverse.replaceF fun e =>
      if e.jobId == jobId then some (e.push (clip line)) else none := by
  have hsome : rposition (·.jobId == jobId) jobs ≠ none := by
    intro hnone
    obtain ⟨e, he, rfl⟩ := List.mem_map.mp h
    have hne := rposition_eq_none_iff.mp hnone e he
    simp at hne
  obtain ⟨index, hindex⟩ := Option.ne_none_iff_exists'.mp hsome
  obtain ⟨hlt, hset⟩ := set_rposition (f := (·.push (clip line))) hindex
  refine ⟨jobs.set index (jobs[index].push (clip line)), ?_, hset⟩
  simp only [push, hindex]
  rw [dif_pos hlt]

/-- The entry of a job that had none is the last, whether or not the first one went. -/
theorem push_of_not_mem {jobs : List Entry} {jobId : Text} (h : jobId ∉ ids jobs)
    (line : JobLogLine) :
    push jobs jobId line =
      some ((if jobLogJobsCap ≤ jobs.length then jobs.tail else jobs) ++
        [entryOf ⟨jobId, [line]⟩]) := by
  have hnone : rposition (·.jobId == jobId) jobs = none := by
    refine rposition_eq_none_iff.mpr fun e he => ?_
    have hne : e.jobId ≠ jobId := fun heq => h (heq ▸ List.mem_map_of_mem he)
    simpa using hne
  have hentry : (⟨jobId, [], 0⟩ : Entry).push (clip line) = entryOf ⟨jobId, [line]⟩ := by
    simp [Entry.push, entryOf, jobLogLinesCap, List.rtake]
  have hkept : ∀ e : Entry, (if jobLogJobsCap < (jobs ++ [e]).length then (jobs ++ [e]).tail
      else jobs ++ [e]) = (if jobLogJobsCap ≤ jobs.length then jobs.tail else jobs) ++ [e] := by
    intro e
    rw [List.length_append, List.length_singleton]
    split_ifs with hlt hle hle
    · refine List.tail_append_of_ne_nil fun hnil => ?_
      rw [hnil] at hle
      exact absurd hle (by decide)
    · omega
    · omega
    · rfl
  simp only [push, hnone, hkept]
  simp [hentry]

/-- A push goes to the life it goes to, and never out of bounds. -/
theorem push_storeOf (lives : List (Lib.Lives.Life Text JobLogLine)) (jobId : Text)
    (line : JobLogLine) :
    push (storeOf lives) jobId line =
      some (storeOf (Lib.Lives.step jobLogJobsCap lives (jobId, line))) := by
  by_cases h : jobId ∈ Lib.Lives.keys (lives.take jobLogJobsCap)
  · obtain ⟨jobs', hpush, hjobs'⟩ := push_of_mem (mem_ids_storeOf.mpr h) line
    rw [hpush, Lib.Lives.step_of_mem h, storeOf, Lib.Lives.take_extend jobId line lives _ h,
      map_entryOf_extend, ← List.reverse_reverse jobs', hjobs', storeOf, List.reverse_reverse]
  · rw [push_of_not_mem (fun hmem => h (mem_ids_storeOf.mp hmem)), Lib.Lives.step_of_not_mem h,
      storeOf, storeOf, List.length_reverse, List.length_map, List.length_take]
    have hcap : jobLogJobsCap = 127 + 1 := rfl
    congr 1
    rw [hcap, List.take_succ_cons, List.map_cons, List.reverse_cons]
    congr 1
    split_ifs with hfull
    · rw [List.tail_reverse, ← List.map_dropLast, List.dropLast_eq_take, List.take_take,
        List.length_take]
      congr 3
      omega
    · rw [List.take_of_length_le (by omega), List.take_of_length_le (by omega)]

theorem run_eq (pushes : List (Text × JobLogLine)) :
    run pushes = some ⟨storeOf (Lib.Lives.run jobLogJobsCap pushes),
      (Lib.Lives.keys (Lib.Lives.run jobLogJobsCap pushes)).reverse⟩ := by
  induction pushes using List.reverseRecOn with
  | nil => rfl
  | append_singleton pushes p ih =>
    obtain ⟨jobId, line⟩ := p
    rw [run, List.foldlM_append, ← run, ih, Lib.Lives.run_concat]
    simp only [Option.bind_eq_bind, Option.bind_some, List.foldlM_cons, List.foldlM_nil]
    rw [Run.step, push_storeOf, Option.map_some]
    simp only [List.contains_iff_mem, mem_ids_storeOf, Option.bind_some, Option.pure_def]
    by_cases h : jobId ∈ Lib.Lives.keys
        ((Lib.Lives.run jobLogJobsCap pushes).take jobLogJobsCap)
    · rw [if_pos h, Lib.Lives.step_of_mem h, Lib.Lives.keys_extend]
    · rw [if_neg h, Lib.Lives.step_of_not_mem h, Lib.Lives.keys_cons, List.reverse_cons]

/-! ## What the store holds of a job -/

theorem mem_take_iff {α : Type*} {x : α} {l : List α} {n : ℕ} :
    x ∈ l.take n ↔ ∃ before after, l = before ++ x :: after ∧ x ∉ before ∧ before.length < n := by
  constructor
  · intro h
    obtain ⟨before, after, htake, hnot⟩ := List.eq_append_cons_of_mem h
    refine ⟨before, after ++ l.drop n, ?_, hnot, ?_⟩
    · rw [← List.cons_append, ← List.append_assoc, ← htake, List.take_append_drop]
    · have hlength := congrArg List.length htake
      rw [List.length_append, List.length_cons, List.length_take] at hlength
      omega
  · rintro ⟨before, after, rfl, -, hlt⟩
    rw [List.take_append, List.mem_append]
    right
    have hpos : n - before.length = n - before.length - 1 + 1 := by omega
    rw [hpos, List.take_succ_cons]
    exact List.mem_cons_self

theorem length_lt_of_mem_take {α : Type*} {x : α} {before after : List α} {n : ℕ}
    (hnot : x ∉ before) (h : x ∈ (before ++ after).take n) : before.length < n := by
  by_contra hle
  rw [List.take_append_of_le_length (not_lt.mp hle)] at h
  exact hnot (List.mem_of_mem_take h)

/-- The same of the lives: where the latest life of a job began. -/
theorem latestCreation_iff {pushes : List (Text × JobLogLine)} {jobId : Text}
    {since : List (Text × JobLogLine)} {newer : List Text} :
    LatestCreation pushes jobId since newer ↔
      ∃ before line rest, pushes = before ++ since ∧ since = (jobId, line) :: rest ∧
        jobId ∉ Lib.Lives.keys ((Lib.Lives.run jobLogJobsCap before).take jobLogJobsCap) ∧
        Lib.Lives.keys (Lib.Lives.run jobLogJobsCap pushes) =
          newer.reverse ++ jobId :: Lib.Lives.keys (Lib.Lives.run jobLogJobsCap before) ∧
        jobId ∉ newer := by
  have hcreated : ∀ older newer' : List Text, ∀ keys : List Text,
      keys.reverse = older.reverse ++ jobId :: newer' ↔ keys = newer'.reverse ++ jobId :: older := by
    intro older newer' keys
    rw [List.reverse_eq_iff]
    simp
  constructor
  · rintro ⟨before, first, final, rfl, hhead, hfirst, hnew, hfinal, hkeys, hnot⟩
    rw [run_eq] at hfirst hfinal
    obtain rfl := Option.some_inj.mp hfirst
    obtain rfl := Option.some_inj.mp hfinal
    cases since with
    | nil => cases hhead
    | cons p rest =>
      obtain ⟨id, line⟩ := p
      obtain rfl : id = jobId := Option.some_inj.mp hhead
      exact ⟨before, line, rest, rfl, rfl, fun hmem => hnew (mem_ids_storeOf.mpr hmem),
        (hcreated _ _ _).mp hkeys, hnot⟩
  · rintro ⟨before, line, rest, rfl, rfl, hnew, hkeys, hnot⟩
    exact ⟨before, _, _, rfl, rfl, run_eq before, fun hmem => hnew (mem_ids_storeOf.mp hmem),
      run_eq _, (hcreated _ _ _).mpr hkeys, hnot⟩

theorem get_storeOf {newer older : List (Lib.Lives.Life Text JobLogLine)}
    {life : Lib.Lives.Life Text JobLogLine} (hnot : life.key ∉ Lib.Lives.keys newer)
    (hlt : newer.length < jobLogJobsCap) :
    get (storeOf (newer ++ life :: older)) life.key =
      some ⟨(entryOf life).lines, (entryOf life).dropped⟩ := by
  have hskip : ∀ l : List (Lib.Lives.Life Text JobLogLine), life.key ∉ Lib.Lives.keys l →
      (l.map entryOf).find? (·.jobId == life.key) = none := by
    intro l hl
    refine List.find?_eq_none.mpr fun e he heq => hl ?_
    obtain ⟨other, hother, rfl⟩ := List.mem_map.mp he
    have heq : other.key = life.key := eq_of_beq heq
    exact heq ▸ List.mem_map_of_mem hother
  have hpos : jobLogJobsCap - newer.length = jobLogJobsCap - newer.length - 1 + 1 := by omega
  rw [get, storeOf, List.reverse_reverse, List.take_append,
    List.take_of_length_le (Nat.le_of_lt hlt), hpos, List.take_succ_cons, List.map_append,
    List.map_cons, List.find?_append, hskip newer hnot, Option.none_or, List.find?_cons_of_pos]
  · rfl
  · exact beq_self_eq_true _

/-- The ids are distinct and at most the cap, a job has an entry where fewer than the cap were
created behind its latest one, and that entry holds the newest lines pushed since. -/
theorem jobLogStore_spec (pushes : List (Text × JobLogLine)) :
    ∃ final, run pushes = some final ∧
      (ids final.jobs).Nodup ∧ (ids final.jobs).length ≤ jobLogJobsCap ∧
      (∀ jobId, jobId ∈ ids final.jobs ↔
        ∃ since newer, LatestCreation pushes jobId since newer ∧ newer.length < jobLogJobsCap) ∧
      ∀ jobId since newer, jobId ∈ ids final.jobs → LatestCreation pushes jobId since newer →
        ∃ log, get final.jobs jobId = some log ∧
          log.lines = ((linesFor jobId since).map clip).rtake jobLogLinesCap ∧
          log.dropped = ((linesFor jobId since).length - log.lines.length) % 2 ^ 64 := by
  refine ⟨_, run_eq pushes, ?_, ?_, ?_, ?_⟩
  · rw [ids_storeOf]
    exact List.pairwise_reverse.mpr ((Lib.Lives.nodup_keys_take pushes).imp Ne.symm)
  · rw [ids_storeOf, List.length_reverse, Lib.Lives.keys_take]
    exact List.length_take_le _ _
  · intro jobId
    rw [mem_ids_storeOf, Lib.Lives.keys_take, mem_take_iff]
    constructor
    · rintro ⟨newer, older, hkeys, hnot, hlt⟩
      obtain ⟨before, line, rest, rfl, hnew, rfl⟩ := Lib.Lives.exists_put hkeys
      refine ⟨(jobId, line) :: rest, newer.reverse, ?_, by rwa [List.length_reverse]⟩
      exact latestCreation_iff.mpr ⟨before, line, rest, rfl, rfl, hnew,
        by rw [List.reverse_reverse, hkeys], fun hmem => hnot (List.mem_reverse.mp hmem)⟩
    · rintro ⟨since, newer, hlatest, hlt⟩
      obtain ⟨before, line, rest, -, -, -, hkeys, hnot⟩ := latestCreation_iff.mp hlatest
      exact ⟨newer.reverse, _, hkeys, fun hmem => hnot (List.mem_reverse.mp hmem),
        by rwa [List.length_reverse]⟩
  · intro jobId since newer hmem hlatest
    obtain ⟨before, line, rest, rfl, rfl, hnew, hkeys, hnot⟩ := latestCreation_iff.mp hlatest
    rw [mem_ids_storeOf, Lib.Lives.keys_take, hkeys] at hmem
    have hlt : newer.length < jobLogJobsCap := by
      rw [← List.length_reverse]
      exact length_lt_of_mem_take (fun h => hnot (List.mem_reverse.mp h)) hmem
    obtain ⟨later, life, older, hrun, holder, hkey, hitems⟩ := Lib.Lives.run_since hnew rest
    rw [hrun, Lib.Lives.keys_append, Lib.Lives.keys_cons, holder, hkey] at hkeys
    have hlater : Lib.Lives.keys later = newer.reverse := (List.append_left_inj _).mp hkeys
    have hnotlater : jobId ∉ Lib.Lives.keys later := by
      rw [hlater]
      exact fun h => hnot (List.mem_reverse.mp h)
    have hlength : later.length = newer.length := by
      have hkeyslength := congrArg List.length hlater
      rwa [Lib.Lives.keys, List.length_map, List.length_reverse] at hkeyslength
    rw [linesFor_eq_itemsOf, ← hitems hnotlater]
    refine ⟨⟨(entryOf life).lines, (entryOf life).dropped⟩, ?_, by simp only [entryOf], ?_⟩
    · simp only [hrun]
      rw [← hkey]
      exact get_storeOf (by rwa [hkey]) (by rwa [hlength])
    · simp only [entryOf, List.rtake, List.length_drop, List.length_map]
      rw [Nat.sub_sub_self (Nat.sub_le _ _)]

end StudioWorker.JobLogs
