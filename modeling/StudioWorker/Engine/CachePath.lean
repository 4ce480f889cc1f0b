import Mathlib.Data.List.Forall2
import StudioWorker.Text

/-!
# Engine.CachePath — where a model's files are cached (`src/engine/download.rs`)

A path is the list of its components, as `Path::components` gives them on Unix; two paths are one
file when they are equal.

* `sanitiseModelDir`, `modelDir`, `modelCachePath`: the source's functions.
* `Alike`: the ids that become one directory name.
* `apart_iff`: when two models keep apart.
-/

namespace StudioWorker.CachePath

open Text

/-! ## Paths -/

inductive Component where
  | rootDir
  | curDir
  | parentDir
  | normal (name : Text)
deriving DecidableEq

abbrev Path := List Component

/-- A piece between two `/` that is not the first: empty ones and `.` are skipped. -/
def piece (name : Text) : Option Component :=
  if name = [] ∨ name = ['.'] then none
  else if name = ['.', '.'] then some .parentDir
  else some (.normal name)

/-- `Path::components`: a leading `/` is the root, a leading `.` stays. -/
def components (path : Text) : Path :=
  match path.splitOn '/' with
  | [] :: rest => if rest = [] then [] else .rootDir :: rest.filterMap piece
  | ['.'] :: rest => .curDir :: rest.filterMap piece
  | pieces => pieces.filterMap piece

/-- `Path::join`: an absolute path replaces the one it is joined to. -/
def join (dir : Path) (path : Text) : Path :=
  match components path with
  | .rootDir :: rest => .rootDir :: rest
  | .curDir :: rest => if dir = [] then .curDir :: rest else dir ++ rest
  | rest => dir ++ rest

/-! ## The source's functions -/

/-- `c.is_ascii_alphanumeric() || matches!(c, '.' | '_' | '-')` -/
def kept (c : Char) : Bool := c.isAlphanum || c == '.' || c == '_' || c == '-'

def mask (c : Char) : Char := if kept c then c else '_'

/-- Map a model id onto a safe single directory-segment name. -/
def sanitiseModelDir (modelId : Text) : Text :=
  let out := modelId.map mask
  let out := if out = [] then ['_'] else out
  match out with
  | '.' :: rest => '_' :: rest
  | out => out

/-- Per-model cache directory. -/
def modelDir (modelsRoot : Path) (modelId : Text) : Path :=
  join modelsRoot (sanitiseModelDir modelId)

/-- `model filename must be a plain file name: {filename:?}` -/
structure NotPlain where
  filename : Text
deriving DecidableEq

/-- Resolve `filename` to a path inside `dir`, refusing anything that is not a plain file name. -/
def modelCachePath (dir : Path) (filename : Text) : Except NotPlain Path :=
  match components filename with
  | [.normal name] =>
    if filename.contains '/' || filename.contains '\\' then .error ⟨filename⟩
    else .ok (join dir name)
  | _ => .error ⟨filename⟩

/-! ## One segment -/

/-- A name that is one component everywhere: neither `.` nor `..`, not hidden, no separator. -/
structure Segment (name : Text) : Prop where
  ne_nil : name ≠ []
  kept : ∀ c ∈ name, kept c = true
  visible : ∀ c ∈ name.head?, c ≠ '.'

theorem kept_mask (c : Char) : kept (mask c) = true := by
  unfold mask
  split_ifs with h
  · exact h
  · decide

/-- What becomes of an id's first character. -/
def maskFirst (c : Char) : Char := if mask c = '.' then '_' else mask c

@[simp] theorem sanitiseModelDir_nil : sanitiseModelDir [] = ['_'] := rfl

theorem sanitiseModelDir_cons (c : Char) (rest : Text) :
    sanitiseModelDir (c :: rest) = maskFirst c :: rest.map mask := by
  rw [sanitiseModelDir, maskFirst, List.map_cons, if_neg (List.cons_ne_nil _ _)]
  by_cases h : mask c = '.'
  · rw [h, if_pos rfl]
    rfl
  · rw [if_neg h]
    split
    · rename_i heq
      exact absurd (List.cons.inj heq).1 h
    · rfl

theorem maskFirst_ne (c : Char) : maskFirst c ≠ '.' := by
  unfold maskFirst
  split_ifs with h
  · decide
  · exact h

theorem kept_maskFirst (c : Char) : kept (maskFirst c) = true := by
  unfold maskFirst
  split_ifs
  · decide
  · exact kept_mask c

theorem segment_sanitiseModelDir (modelId : Text) : Segment (sanitiseModelDir modelId) := by
  cases modelId with
  | nil =>
    refine ⟨by simp, fun d hd => ?_, fun d hd => ?_⟩
    · obtain rfl := List.mem_singleton.mp hd
      rfl
    · obtain rfl := Option.some.inj hd
      decide
  | cons c rest =>
    rw [sanitiseModelDir_cons]
    refine ⟨List.cons_ne_nil _ _, fun d hd => ?_, fun d hd => ?_⟩
    · rcases List.mem_cons.mp hd with rfl | hd
      · exact kept_maskFirst c
      · obtain ⟨e, -, rfl⟩ := List.mem_map.mp hd
        exact kept_mask e
    · obtain rfl := Option.some.inj hd
      exact maskFirst_ne c

/-- A segment is one normal component, and joining it goes down by that one. -/
theorem Segment.components {name : Text} (h : Segment name) :
    CachePath.components name = [.normal name] := by
  have hslash : '/' ∉ name := fun hmem => absurd (h.kept _ hmem) (by decide)
  have hdot : name ≠ ['.'] := fun heq => h.visible '.' (by rw [heq]; rfl) rfl
  have hdots : name ≠ ['.', '.'] := fun heq => h.visible '.' (by rw [heq]; rfl) rfl
  have hpiece : piece name = some (.normal name) := by
    rw [piece, if_neg (by simp [h.ne_nil, hdot]), if_neg hdots]
  rw [CachePath.components, List.splitOn_eq_singleton hslash]
  split
  · rename_i heq
    exact absurd (List.cons.inj heq).1 h.ne_nil
  · rename_i heq
    exact absurd (List.cons.inj heq).1 hdot
  · rw [List.filterMap_cons_some hpiece, List.filterMap_nil]

theorem Segment.join {name : Text} (h : Segment name) (dir : Path) :
    CachePath.join dir name = dir ++ [.normal name] := by
  rw [CachePath.join, h.components]

theorem modelDir_eq (root : Path) (modelId : Text) :
    modelDir root modelId = root ++ [.normal (sanitiseModelDir modelId)] :=
  (segment_sanitiseModelDir modelId).join root

/-! ## Two models -/

/-- A character that is written `_`; as the first one, `.` is too. -/
def Lost (c : Char) : Prop := c = '_' ∨ kept c = false

def LostFirst (c : Char) : Prop := c = '.' ∨ Lost c

/-- Two ids that differ only in characters that are written `_`; the empty id is written `_`. -/
def Alike : Text → Text → Prop
  | [], [] => True
  | [], c :: rest | c :: rest, [] => LostFirst c ∧ rest = []
  | c :: rest, d :: rest' =>
    (c = d ∨ LostFirst c ∧ LostFirst d) ∧
      List.Forall₂ (fun c d => c = d ∨ Lost c ∧ Lost d) rest rest'

theorem mask_eq_underscore {c : Char} : mask c = '_' ↔ Lost c := by
  unfold mask Lost
  split_ifs with h
  · simp [h]
  · simp [h]

theorem maskFirst_eq_underscore {c : Char} : maskFirst c = '_' ↔ LostFirst c := by
  have hdot : mask c = '.' ↔ c = '.' := by
    unfold mask
    split_ifs with h
    · rfl
    · refine iff_of_false (by decide) ?_
      rintro rfl
      exact h (by decide)
  unfold maskFirst LostFirst
  rw [← mask_eq_underscore, ← hdot]
  split_ifs with h
  · simp [h]
  · simp [h]

/-- Two characters are written alike when they are one or both are written `_`. -/
theorem mask_eq_mask {c d : Char} : mask c = mask d ↔ c = d ∨ Lost c ∧ Lost d := by
  constructor
  · intro h
    by_cases hc : Lost c
    · exact .inr ⟨hc, mask_eq_underscore.mp (h ▸ mask_eq_underscore.mpr hc)⟩
    · have hd : ¬ Lost d := fun hd => hc (mask_eq_underscore.mp (h ▸ mask_eq_underscore.mpr hd))
      unfold Lost at hc hd
      have hkc : kept c = true := by simpa using (not_or.mp hc).2
      have hkd : kept d = true := by simpa using (not_or.mp hd).2
      rw [mask, mask, if_pos hkc, if_pos hkd] at h
      exact .inl h
  · rintro (rfl | ⟨hc, hd⟩)
    · rfl
    · rw [mask_eq_underscore.mpr hc, mask_eq_underscore.mpr hd]

theorem maskFirst_eq_maskFirst {c d : Char} :
    maskFirst c = maskFirst d ↔ c = d ∨ LostFirst c ∧ LostFirst d := by
  constructor
  · intro h
    by_cases hc : LostFirst c
    · exact .inr ⟨hc, maskFirst_eq_underscore.mp (h ▸ maskFirst_eq_underscore.mpr hc)⟩
    · have hd : ¬ LostFirst d := fun hd =>
        hc (maskFirst_eq_underscore.mp (h ▸ maskFirst_eq_underscore.mpr hd))
      have hmask : ∀ {e : Char}, ¬ LostFirst e → maskFirst e = mask e := fun he => by
        refine if_neg fun hdot => he (maskFirst_eq_underscore.mp ?_)
        exact if_pos hdot
      rw [hmask hc, hmask hd] at h
      refine .inl ((mask_eq_mask.mp h).resolve_right fun hlost => hc (.inr hlost.1))
  · rintro (rfl | ⟨hc, hd⟩)
    · rfl
    · rw [maskFirst_eq_underscore.mpr hc, maskFirst_eq_underscore.mpr hd]

theorem map_mask_eq {s t : Text} :
    s.map mask = t.map mask ↔ List.Forall₂ (fun c d => c = d ∨ Lost c ∧ Lost d) s t := by
  have hrel : (fun c d => c = d ∨ Lost c ∧ Lost d) = fun c d => mask c = mask d := by
    funext c d
    exact propext mask_eq_mask.symm
  rw [hrel, ← List.forall₂_map_right_iff (R := fun a b => mask a = b),
    ← List.forall₂_map_left_iff (R := Eq), List.forall₂_eq_eq_eq]

theorem sanitiseModelDir_eq_iff {a b : Text} :
    sanitiseModelDir a = sanitiseModelDir b ↔ Alike a b := by
  rcases a with _ | ⟨c, s⟩ <;> rcases b with _ | ⟨d, t⟩
  · exact iff_of_true rfl trivial
  · rw [sanitiseModelDir_nil, sanitiseModelDir_cons, List.cons.injEq, eq_comm,
      maskFirst_eq_underscore, eq_comm, List.map_eq_nil_iff]
    rfl
  · rw [sanitiseModelDir_nil, sanitiseModelDir_cons, List.cons.injEq, maskFirst_eq_underscore,
      List.map_eq_nil_iff]
    rfl
  · rw [sanitiseModelDir_cons, sanitiseModelDir_cons, List.cons.injEq, maskFirst_eq_maskFirst,
      map_mask_eq]
    rfl

/-- What `modelCachePath` accepts goes down by the file name from the directory it is given. -/
theorem modelCachePath_ok {dir p : Path} {filename : Text}
    (h : modelCachePath dir filename = .ok p) : p = dir ++ [.normal filename] := by
  unfold modelCachePath at h
  split at h
  · rename_i name hname
    split_ifs at h with hsep
    have hslash : '/' ∉ filename := fun hmem => hsep (by simp [hmem])
    have hfile : name = filename := by
      unfold components at hname
      rw [List.splitOn_eq_singleton hslash] at hname
      split at hname
      · rename_i heq
        rw [if_pos (List.cons.inj heq).2.symm] at hname
        cases hname
      · cases hname
      · rw [List.filterMap_cons, List.filterMap_nil] at hname
        unfold piece at hname
        split_ifs at hname
        all_goals simp at hname
        exact hname.symm
    subst hfile
    rw [← Except.ok.inj h, join, hname]
  · cases h

/-- What the cache promises two models: directories of their own right below the models root, and
no file of one path in both. -/
structure Apart (root : Path) (a b : Text) : Prop where
  names : sanitiseModelDir a ≠ sanitiseModelDir b
  left : Segment (sanitiseModelDir a) ∧ modelDir root a = root ++ [.normal (sanitiseModelDir a)]
  right : Segment (sanitiseModelDir b) ∧ modelDir root b = root ++ [.normal (sanitiseModelDir b)]
  files : ∀ filename p, modelCachePath (modelDir root a) filename = .ok p →
    modelCachePath (modelDir root b) filename ≠ .ok p

/-- **Two models keep apart** below any models root unless their ids are alike. -/
theorem apart_iff (root : Path) (a b : Text) : Apart root a b ↔ ¬ Alike a b := by
  constructor
  · intro h halike
    exact h.names (sanitiseModelDir_eq_iff.mpr halike)
  · intro h
    have hne : sanitiseModelDir a ≠ sanitiseModelDir b := fun heq =>
      h (sanitiseModelDir_eq_iff.mp heq)
    refine ⟨hne, ⟨segment_sanitiseModelDir a, modelDir_eq root a⟩,
      ⟨segment_sanitiseModelDir b, modelDir_eq root b⟩, fun filename p ha hb => ?_⟩
    have hpath := (modelCachePath_ok ha).symm.trans (modelCachePath_ok hb)
    rw [modelDir_eq, modelDir_eq] at hpath
    have hdirs := List.append_cancel_left (List.append_cancel_right hpath)
    exact hne (Component.normal.inj (List.cons.inj hdirs).1)

/-- Ids that differ in the one character that becomes `_`. -/
theorem alike_ids_share_a_file :
    ¬ ∀ (root : Path) (a b : Text), a ≠ b → Apart root a b := by
  intro h
  have hapart := h [.rootDir] ['a', '/', 'b'] ['a', ':', 'b'] (by decide)
  refine hapart.files ['m'] [.rootDir, .normal ['a', '_', 'b'], .normal ['m']] ?_ ?_
  · decide
  · decide

end StudioWorker.CachePath
