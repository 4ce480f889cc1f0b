import Mathlib.Data.List.DropRight

/-!
# Lib.Lives — keyed logs of which only the newest `cap` can be added to

An item put under a key goes to the newest life of that key when it is among the newest `cap`
lives, else it begins a life of its own.  `run cap puts` is every life there ever was, newest
first.

* `nodup_keys_take`: among the newest `cap` no key occurs twice.
* `run_since`: what a life holds is what was put under its key since it began.
* `exists_put`: every life began with a put.
-/

namespace Lib.Lives

variable {κ ι : Type*}

structure Life (κ ι : Type*) where
  key : κ
  items : List ι

def Life.add (life : Life κ ι) (x : ι) : Life κ ι := { life with items := life.items ++ [x] }

def keys (lives : List (Life κ ι)) : List κ := lives.map Life.key

@[simp] theorem keys_nil : keys ([] : List (Life κ ι)) = [] := rfl

@[simp] theorem keys_cons (life : Life κ ι) (lives : List (Life κ ι)) :
    keys (life :: lives) = life.key :: keys lives := rfl

@[simp] theorem keys_append (l m : List (Life κ ι)) : keys (l ++ m) = keys l ++ keys m :=
  List.map_append

theorem keys_take (l : List (Life κ ι)) (n : ℕ) : keys (l.take n) = (keys l).take n :=
  List.map_take

variable [DecidableEq κ]

/-- The newest life of the key takes one more item. -/
def extend (k : κ) (x : ι) (lives : List (Life κ ι)) : List (Life κ ι) :=
  lives.replaceF fun life => if life.key = k then some (life.add x) else none

def step (cap : ℕ) (lives : List (Life κ ι)) (put : κ × ι) : List (Life κ ι) :=
  if put.1 ∈ keys (lives.take cap) then extend put.1 put.2 lives else ⟨put.1, [put.2]⟩ :: lives

def run (cap : ℕ) (puts : List (κ × ι)) : List (Life κ ι) := puts.foldl (step cap) []

/-- The items put under a key. -/
def itemsOf (k : κ) (puts : List (κ × ι)) : List ι :=
  (puts.filter fun put => put.1 = k).map (·.2)

theorem itemsOf_concat_self (k : κ) (puts : List (κ × ι)) (x : ι) :
    itemsOf k (puts ++ [(k, x)]) = itemsOf k puts ++ [x] := by
  simp [itemsOf]

theorem itemsOf_concat_of_ne {k k' : κ} (h : k' ≠ k) (puts : List (κ × ι)) (x : ι) :
    itemsOf k (puts ++ [(k', x)]) = itemsOf k puts := by
  simp [itemsOf, h]

/-! ## One put -/

theorem extend_cons_of_eq {k : κ} {life : Life κ ι} (h : life.key = k) (x : ι)
    (lives : List (Life κ ι)) : extend k x (life :: lives) = life.add x :: lives := by
  simp [extend, h]

theorem extend_cons_of_ne {k : κ} {life : Life κ ι} (h : life.key ≠ k) (x : ι)
    (lives : List (Life κ ι)) : extend k x (life :: lives) = life :: extend k x lives := by
  simp [extend, h]

@[simp] theorem keys_extend (k : κ) (x : ι) (lives : List (Life κ ι)) :
    keys (extend k x lives) = keys lives := by
  induction lives with
  | nil => rfl
  | cons life lives ih =>
    by_cases h : life.key = k
    · rw [extend_cons_of_eq h]
      rfl
    · rw [extend_cons_of_ne h, keys_cons, keys_cons, ih]

theorem take_extend (k : κ) (x : ι) (lives : List (Life κ ι)) (n : ℕ) (h : k ∈ keys (lives.take n)) :
    (extend k x lives).take n = extend k x (lives.take n) := by
  induction lives generalizing n with
  | nil => simp [extend]
  | cons life lives ih =>
    cases n with
    | zero => simp at h
    | succ n =>
      rw [List.take_succ_cons, keys_cons] at h
      rw [List.take_succ_cons]
      by_cases hkey : life.key = k
      · rw [extend_cons_of_eq hkey, extend_cons_of_eq hkey, List.take_succ_cons]
      · have hmem : k ∈ keys (lives.take n) :=
          (List.mem_cons.mp h).resolve_left fun heq => hkey heq.symm
        rw [extend_cons_of_ne hkey, extend_cons_of_ne hkey, List.take_succ_cons, ih n hmem]

/-- Only the newest life of the key changes. -/
theorem extend_append {k : κ} {newer : List (Life κ ι)} (h : k ∉ keys newer) (x : ι)
    (lives : List (Life κ ι)) : extend k x (newer ++ lives) = newer ++ extend k x lives := by
  induction newer with
  | nil => rfl
  | cons life newer ih =>
    rw [keys_cons, List.mem_cons, not_or] at h
    rw [List.cons_append, extend_cons_of_ne (Ne.symm h.1), ih h.2, List.cons_append]

/-- A life behind one of the same key stays as it is. -/
theorem extend_append_of_mem {k : κ} {newer : List (Life κ ι)} (h : k ∈ keys newer) (x : ι)
    (lives : List (Life κ ι)) : extend k x (newer ++ lives) = extend k x newer ++ lives := by
  induction newer with
  | nil => simp at h
  | cons life newer ih =>
    by_cases hkey : life.key = k
    · rw [List.cons_append, extend_cons_of_eq hkey, extend_cons_of_eq hkey, List.cons_append]
    · have hmem : k ∈ keys newer := (List.mem_cons.mp h).resolve_left fun heq => hkey heq.symm
      rw [List.cons_append, extend_cons_of_ne hkey, extend_cons_of_ne hkey, ih hmem,
        List.cons_append]

variable {cap : ℕ}

theorem step_of_mem {lives : List (Life κ ι)} {k : κ} (h : k ∈ keys (lives.take cap)) (x : ι) :
    step cap lives (k, x) = extend k x lives := if_pos h

theorem step_of_not_mem {lives : List (Life κ ι)} {k : κ} (h : k ∉ keys (lives.take cap)) (x : ι) :
    step cap lives (k, x) = ⟨k, [x]⟩ :: lives := if_neg h

/-! ## Every run -/

theorem run_concat (puts : List (κ × ι)) (put : κ × ι) :
    run cap (puts ++ [put]) = step cap (run cap puts) put := by
  rw [run, List.foldl_append, List.foldl_cons, List.foldl_nil, run]

theorem nodup_keys_take (puts : List (κ × ι)) : (keys ((run cap puts).take cap)).Nodup := by
  induction puts using List.reverseRecOn with
  | nil => simp [run]
  | append_singleton puts put ih =>
    obtain ⟨k, x⟩ := put
    rw [run_concat]
    by_cases h : k ∈ keys ((run cap puts).take cap)
    · rw [step_of_mem h, keys_take, keys_extend, ← keys_take]
      exact ih
    · rw [step_of_not_mem h]
      cases cap with
      | zero => exact List.nodup_nil
      | succ n =>
        have hsub : (keys ((run (n + 1) puts).take n)).Sublist
            (keys ((run (n + 1) puts).take (n + 1))) := by
          rw [keys_take, keys_take]
          exact List.take_sublist_take_left (Nat.le_succ n)
        rw [List.take_succ_cons, keys_cons]
        exact List.nodup_cons.mpr ⟨fun hmem => h (hsub.subset hmem), ih.sublist hsub⟩

/-- A life goes on where it began, and while no newer one has its key it takes what is put under
that key. -/
theorem run_since {before : List (κ × ι)} {k : κ} {x : ι}
    (hnew : k ∉ keys ((run cap before).take cap)) (rest : List (κ × ι)) :
    ∃ newer life older, run cap (before ++ (k, x) :: rest) = newer ++ life :: older ∧
      keys older = keys (run cap before) ∧ life.key = k ∧
      (k ∉ keys newer → life.items = itemsOf k ((k, x) :: rest)) := by
  induction rest using List.reverseRecOn with
  | nil =>
    refine ⟨[], ⟨k, [x]⟩, run cap before, ?_, rfl, rfl, fun _ => by simp [itemsOf]⟩
    rw [run_concat, step_of_not_mem hnew, List.nil_append]
  | append_singleton rest put ih =>
    obtain ⟨newer, life, older, hrun, holder, hkey, hitems⟩ := ih
    obtain ⟨k', y⟩ := put
    have hassoc : before ++ (k, x) :: (rest ++ [(k', y)]) =
        (before ++ (k, x) :: rest) ++ [(k', y)] := by simp
    rw [hassoc, run_concat, hrun, ← List.cons_append]
    by_cases h : k' ∈ keys ((newer ++ life :: older).take cap)
    · rw [step_of_mem h]
      by_cases hnewer : k' ∈ keys newer
      · refine ⟨extend k' y newer, life, older, extend_append_of_mem hnewer y _, holder, hkey,
          fun hk => ?_⟩
        rw [keys_extend] at hk
        have hne : k' ≠ k := fun heq => hk (heq ▸ hnewer)
        rw [itemsOf_concat_of_ne hne, hitems hk]
      · rw [extend_append hnewer]
        by_cases hself : life.key = k'
        · refine ⟨newer, life.add y, older, by rw [extend_cons_of_eq hself], holder, hkey,
            fun hk => ?_⟩
          obtain rfl : k' = k := hself.symm.trans hkey
          rw [itemsOf_concat_self, Life.add, hitems hk]
        · refine ⟨newer, life, extend k' y older, by rw [extend_cons_of_ne hself], ?_, hkey,
            fun hk => ?_⟩
          · rw [keys_extend, holder]
          · rw [itemsOf_concat_of_ne fun heq => hself (hkey.trans heq.symm), hitems hk]
    · rw [step_of_not_mem h]
      refine ⟨⟨k', [y]⟩ :: newer, life, older, rfl, holder, hkey, fun hk => ?_⟩
      rw [keys_cons, List.mem_cons, not_or] at hk
      rw [itemsOf_concat_of_ne (Ne.symm hk.1), hitems hk.2]

/-- Every life began with a put, under a key that was not among the newest then. -/
theorem exists_put {puts : List (κ × ι)} {newer older : List κ} {k : κ}
    (h : keys (run cap puts) = newer ++ k :: older) :
    ∃ before x rest, puts = before ++ (k, x) :: rest ∧ k ∉ keys ((run cap before).take cap) ∧
      keys (run cap before) = older := by
  induction puts using List.reverseRecOn generalizing newer with
  | nil => simp [run] at h
  | append_singleton puts put ih =>
    obtain ⟨k', y⟩ := put
    rw [run_concat] at h
    have hold : ∀ {newer}, keys (run cap puts) = newer ++ k :: older →
        ∃ before x rest, puts ++ [(k', y)] = before ++ (k, x) :: rest ∧
          k ∉ keys ((run cap before).take cap) ∧ keys (run cap before) = older := by
      intro newer hkeys
      obtain ⟨before, x, rest, rfl, hnew, holder⟩ := ih hkeys
      exact ⟨before, x, rest ++ [(k', y)], by simp, hnew, holder⟩
    by_cases hmem : k' ∈ keys ((run cap puts).take cap)
    · rw [step_of_mem hmem, keys_extend] at h
      exact hold h
    · rw [step_of_not_mem hmem, keys_cons] at h
      cases newer with
      | nil =>
        rw [List.nil_append] at h
        obtain ⟨hk, hrest⟩ := List.cons_eq_cons.mp h
        obtain rfl : k' = k := hk
        exact ⟨puts, y, [], rfl, hmem, hrest⟩
      | cons k'' newer => exact hold (List.cons_eq_cons.mp h).2

end Lib.Lives
