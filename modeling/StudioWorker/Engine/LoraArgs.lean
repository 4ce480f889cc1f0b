import StudioWorker.Catalog
import StudioWorker.Engine.CachePath
import StudioWorker.Engine.Download
import StudioWorker.Lib.Fallible

/-!
# Engine.LoraArgs — the LoRA files of an image job (`src/engine/sdcpp.rs`, `src/engine/download.rs`)

What `sd-cli` makes of a tag is a parameter, `SdCli`: how a tag is read, and the extensions that a
name is tried with.

* `ensureFiles`: where each file of a source is, and the files there are afterwards.
* `loraArgs`: the arguments of `build_sdcli_args` that are about LoRA files.
* `Suited`: the files that are found by their tags, in the directory of the first.
* `loraArgs_find`: what the arguments are, and that these files are all.
-/

namespace StudioWorker.LoraArgs

open Text CachePath Download

/-! ## The cached files -/

/-- What `is_file` says. -/
abbrev Files := Path → Bool

inductive EnsureError where
  | notPlain (e : NotPlain)
  | download (e : Text)

/-- `dest.with_extension("part")` -/
def partPath (dest : Path) : Path :=
  match dest.getLast? with
  | some (.normal name) => dest.dropLast ++ [.normal (partOf name)]
  | _ => dest

/-- A finished `.part` file is renamed over its destination. -/
def downloaded (files : Files) (target : Path) : Files := fun p =>
  p == target || (files p && p != partPath target)

def plain (path : Except NotPlain Path) : Except EnsureError Path :=
  match path with
  | .ok p => .ok p
  | .error e => .error (.notPlain e)

section Ensure

variable (modelsRoot : Path) (modelId : Text) (failure : ModelFile → Option Text)

/-- `failure` is why a download does not succeed. -/
def ensureFileForModel (files : Files) (file : ModelFile) : Except EnsureError (Path × Files) := do
  let filename := file.filename.toList
  let subdir := modelDir modelsRoot modelId
  let target ← plain (modelCachePath subdir filename)
  if files target then return (target, files)
  else
    let legacy ← plain (modelCachePath modelsRoot filename)
    if files legacy then return (legacy, files)
    else
      match failure file with
      | some e => .error (.download e)
      | none => return (target, downloaded files target)

/-- The files of a source, each with its role, in the same order. -/
def ensureFiles (cached : Files) (files : List ModelFile) :
    Except EnsureError (List (ModelFileRole × Path) × Files) :=
  files.foldlM (fun acc file => do
    let (path, now) ← ensureFileForModel modelsRoot modelId failure acc.2 file
    return (acc.1 ++ [(file.role, path)], now)) ([], cached)

end Ensure

/-! ## The arguments -/

/-- `Path::file_name` -/
def fileName (p : Path) : Option Text :=
  match p.getLast? with
  | some (.normal name) => some name
  | _ => none

/-- `Path::parent` -/
def parent (p : Path) : Option Path :=
  match p.getLast? with
  | none | some .rootDir => none
  | some _ => some p.dropLast

/-- `Path::extension`, of a file name. -/
def extension (name : Text) : Option Text :=
  (rsplitOnce ['.'] name).bind fun (stem, ext) => if stem = [] then none else some ext

def recognised : List Text := ["safetensors".toList, "ckpt".toList, "gguf".toList]

def loraStem (path : Path) : Option Text := do
  let name ← fileName path
  let ext ← extension name
  if recognised.contains (ext.map Char.toLower) then
    let stem := fileStem name
    if stem = [] then none else some stem
  else none

/-- An argument of a command. -/
inductive Arg where
  | text (t : Text)
  | path (p : Path)
deriving DecidableEq

def tag (stem weight : Text) : Text := "<lora:".toList ++ (stem ++ ':' :: (weight ++ ['>']))

/-- One LoRA more: the directory that is passed, and the tags. -/
def loraStep (weight : Text) (acc : Option Path × List Text) (lora : Path) :
    Option Path × List Text :=
  match loraStem lora with
  | none => acc
  | some stem => (if acc.1.isNone then parent lora else acc.1, acc.2 ++ [tag stem weight])

def loraArgs (prompt weight : Text) (loras : List Path) : List Arg :=
  let (dir, tags) := loras.foldl (loraStep weight) (none, [])
  (match dir with
    | some dir => [.text "--lora-model-dir".toList, .path dir]
    | none => []) ++
  [.text "-p".toList,
    .text (if tags.isEmpty then prompt else prompt ++ ' ' :: [' '].intercalate tags)]

/-- `source.cli_defaults.lora_weight.unwrap_or(1.0)` -/
def loraWeight {F : Type} [One F] (source : ModelSource F) : F :=
  source.cliDefaults.loraWeight.getD 1

def lorasOf (resolved : List (ModelFileRole × Path)) : List Path :=
  (resolved.filter fun f => f.1 == .lora).map Prod.snd

/-! ## What `sd-cli` does -/

structure SdCli where
  /-- The name and the weight in a tag. -/
  readTag : Text → Option (Text × Text)
  /-- What a name is tried with, in this order. -/
  extensions : List Text

/-- A tag is `<lora:name:weight>`, and a name is tried with every extension that is recognised. -/
structure SdCli.Documented (sd : SdCli) : Prop where
  readTag_iff : ∀ t name weight, sd.readTag t = some (name, weight) ↔
    t = tag name weight ∧ name ≠ [] ∧ ':' ∉ name ∧ weight ≠ [] ∧ '>' ∉ weight
  extensions_perm : sd.extensions.Perm recognised

/-- A file of a directory. -/
def candidate (dir : Path) (name ext : Text) : Path := dir ++ [.normal (name ++ '.' :: ext)]

/-- The file that a name stands for in a directory. -/
def SdCli.find (sd : SdCli) (files : Files) (dir : Path) (name : Text) : Option Path :=
  (sd.extensions.map (candidate dir name)).find? files

/-- The tag gives the weight, and in the directory the file. -/
def SdCli.Finds (sd : SdCli) (files : Files) (dir : Path) (weight t : Text) (p : Path) : Prop :=
  ∃ name, sd.readTag t = some (name, weight) ∧ sd.find files dir name = some p

/-- The tag of a LoRA that is passed on. -/
def loraTag (weight : Text) (lora : Path) : Text := tag ((loraStem lora).getD []) weight

/-- A LoRA that is addressed in the directory by its stem: its extension is written as it is tried,
and no other file of the stem is tried before. -/
def Suited (sd : SdCli) (files : Files) (dir lora : Path) : Prop :=
  ∃ stem before ext after, sd.extensions = before ++ ext :: after ∧ lora = candidate dir stem ext ∧
    ':' ∉ stem ∧ ∀ e ∈ before, files (candidate dir stem e) = false

/-! ## Names -/

variable {p dir : Path} {name stem ext weight : Text}

theorem fileName_concat : fileName (dir ++ [.normal name]) = some name := by
  rw [fileName, List.getLast?_concat]

theorem extension_of_dot (hstem : stem ≠ []) (hext : '.' ∉ ext) :
    extension (stem ++ '.' :: ext) = some ext ∧ fileStem (stem ++ '.' :: ext) = stem := by
  have hsplit : rsplitOnce ['.'] (stem ++ '.' :: ext) = some (stem, ext) :=
    rsplitOnce_char_some.mpr ⟨rfl, hext⟩
  constructor
  · rw [extension, hsplit, Option.bind_some]
    exact if_neg hstem
  · rw [fileStem, hsplit]
    exact if_neg hstem

theorem extension_eq_some (h : extension name = some ext) :
    name = fileStem name ++ '.' :: ext ∧ '.' ∉ ext ∧ fileStem name ≠ [] := by
  rw [extension] at h
  obtain ⟨⟨s, e⟩, hsplit, he⟩ := Option.bind_eq_some_iff.mp h
  dsimp only at he
  split_ifs at he with hs
  obtain rfl := Option.some.inj he
  obtain ⟨rfl, hdot⟩ := rsplitOnce_char_some.mp hsplit
  rw [(extension_of_dot hs hdot).2]
  exact ⟨rfl, hdot, hs⟩

/-- What a stem says of its file. -/
theorem loraStem_eq_some (h : loraStem p = some stem) :
    ∃ dir ext, p = candidate dir stem ext ∧ stem ≠ [] ∧ '.' ∉ ext ∧
      ext.map Char.toLower ∈ recognised := by
  rw [loraStem] at h
  obtain ⟨name, hname, h⟩ := Option.bind_eq_some_iff.mp h
  obtain ⟨ext, hext, h⟩ := Option.bind_eq_some_iff.mp h
  dsimp only at h
  split_ifs at h with hknown hne
  obtain rfl := Option.some.inj h
  obtain ⟨hsplit, hdot, -⟩ := extension_eq_some hext
  rw [fileName] at hname
  split at hname
  · rename_i name' hlast
    obtain rfl := Option.some.inj hname
    obtain ⟨dir, rfl⟩ := List.getLast?_eq_some_iff.mp hlast
    exact ⟨dir, ext, by rw [candidate, ← hsplit], hne, hdot, List.contains_iff_mem.mp hknown⟩
  · cases hname

theorem dot_notMem_recognised (h : ext ∈ recognised) : '.' ∉ ext := by
  revert ext
  decide

theorem toLower_recognised (h : ext ∈ recognised) : ext.map Char.toLower = ext := by
  revert ext
  decide

theorem loraStem_candidate (hstem : stem ≠ []) (hext : ext ∈ recognised) :
    loraStem (candidate dir stem ext) = some stem := by
  obtain ⟨hextension, hfileStem⟩ := extension_of_dot hstem (dot_notMem_recognised hext)
  rw [loraStem, candidate, fileName_concat, Option.bind_eq_bind, Option.bind_some, hextension,
    Option.bind_some, toLower_recognised hext, if_pos (List.contains_iff_mem.mpr hext), hfileStem]
  exact if_neg hstem

theorem candidate_inj {dir' : Path} {stem' ext' : Text} (hext : '.' ∉ ext) (hext' : '.' ∉ ext')
    (h : candidate dir stem ext = candidate dir' stem' ext') :
    dir = dir' ∧ stem = stem' ∧ ext = ext' := by
  obtain ⟨hdir, hlast⟩ := List.append_inj' h rfl
  have hname := Component.normal.inj (List.cons.inj hlast).1
  have hsplit := rsplitOnce_char_some.mpr (⟨rfl, hext⟩ : stem ++ '.' :: ext = _ ∧ _)
  rw [hname, rsplitOnce_char_some.mpr ⟨rfl, hext'⟩] at hsplit
  obtain ⟨hstem, hext⟩ := Prod.mk.inj (Option.some.inj hsplit)
  exact ⟨hdir, hstem.symm, hext.symm⟩

/-! ## The cache -/

section Cache

variable {modelsRoot : Path} {modelId : Text} {failure : ModelFile → Option Text}
  {files files' cached cached' : Files} {file : ModelFile}

/-- A download leaves every file that can be passed as a LoRA. -/
theorem downloaded_of_file {target : Path} (hstem : (loraStem p).isSome = true)
    (hp : files p = true) : downloaded files target p = true := by
  rw [downloaded, hp, Bool.true_and, Bool.or_eq_true, bne_iff_ne, beq_iff_eq]
  by_cases heq : p = target
  · exact .inl heq
  refine .inr ?_
  obtain ⟨stem, hstem⟩ := Option.isSome_iff_exists.mp hstem
  obtain ⟨dir, ext, rfl, -, hdot, hknown⟩ := loraStem_eq_some hstem
  rw [partPath]
  split
  · rename_i name hlast
    intro hpart
    have hcandidate : candidate dir stem ext = candidate target.dropLast (fileStem name)
        "part".toList := hpart
    obtain ⟨-, -, rfl⟩ := candidate_inj hdot (by decide) hcandidate
    revert hknown
    decide
  · exact heq

theorem isFile_of_ensure
    (h : ensureFileForModel modelsRoot modelId failure files file = .ok (p, files')) :
    files' p = true ∧
      ∀ q, (loraStem q).isSome = true → files q = true → files' q = true := by
  rw [ensureFileForModel] at h
  obtain ⟨target, -, h⟩ := Lib.Fallible.bind_eq_ok h
  split_ifs at h with htarget
  · obtain ⟨rfl, rfl⟩ := Prod.mk.inj (Except.ok.inj h)
    exact ⟨htarget, fun q _ hq => hq⟩
  obtain ⟨legacy, -, h⟩ := Lib.Fallible.bind_eq_ok h
  split_ifs at h with hlegacy
  · obtain ⟨rfl, rfl⟩ := Prod.mk.inj (Except.ok.inj h)
    exact ⟨hlegacy, fun q _ hq => hq⟩
  cases hfailure : failure file with
  | some e =>
    rw [hfailure] at h
    cases h
  | none =>
    rw [hfailure] at h
    obtain ⟨rfl, rfl⟩ := Prod.mk.inj (Except.ok.inj h)
    refine ⟨?_, fun q => downloaded_of_file⟩
    rw [downloaded, BEq.rfl, Bool.true_or]

/-- Every LoRA that a source names is there when its files are. -/
theorem isFile_of_ensureFiles {fs : List ModelFile} {resolved : List (ModelFileRole × Path)}
    (h : ensureFiles modelsRoot modelId failure cached fs = .ok (resolved, cached')) :
    ∀ p ∈ lorasOf resolved, (loraStem p).isSome = true → cached' p = true := by
  suffices hall : ∀ f ∈ resolved, (loraStem f.2).isSome = true → cached' f.2 = true by
    intro p hp hstem
    obtain ⟨f, hf, rfl⟩ := List.mem_map.mp hp
    exact hall f (List.mem_filter.mp hf).1 hstem
  induction fs using List.reverseRecOn generalizing resolved cached' with
  | nil =>
    obtain ⟨rfl, rfl⟩ := Prod.mk.inj (Except.ok.inj h)
    exact fun f hf => absurd hf List.not_mem_nil
  | append_singleton fs file ih =>
    rw [ensureFiles, List.foldlM_append] at h
    obtain ⟨⟨before, files⟩, hbefore, h⟩ := Lib.Fallible.bind_eq_ok h
    rw [List.foldlM_cons] at h
    obtain ⟨next, hnext, h⟩ := Lib.Fallible.bind_eq_ok h
    obtain rfl := Except.ok.inj h
    obtain ⟨⟨path, now⟩, hensure, h⟩ := Lib.Fallible.bind_eq_ok hnext
    obtain ⟨rfl, rfl⟩ := Prod.mk.inj (Except.ok.inj h)
    obtain ⟨hpath, hkept⟩ := isFile_of_ensure hensure
    intro f hf hstem
    rcases List.mem_append.mp hf with hf | hf
    · exact hkept _ hstem (ih hbefore f hf hstem)
    · rw [List.mem_singleton.mp hf]
      exact hpath

end Cache

/-! ## The tags -/

theorem foldl_loraStep (loras : List Path) (acc : Option Path × List Text) :
    loras.foldl (loraStep weight) acc =
      let passed := loras.filter fun p => (loraStem p).isSome
      (if acc.1.isNone then passed.head?.bind parent else acc.1,
        acc.2 ++ passed.map (loraTag weight)) := by
  induction loras generalizing acc with
  | nil =>
    obtain ⟨dir, tags⟩ := acc
    rw [List.filter_nil]
    show (dir, tags) = (if dir.isNone then none else dir, tags ++ [])
    rw [List.append_nil]
    rcases dir with _ | dir <;> rfl
  | cons lora loras ih =>
    rw [List.foldl_cons, ih]
    rcases hstem : loraStem lora with _ | stem
    · rw [loraStep, hstem, List.filter_cons_of_neg (by rw [hstem]; exact Bool.false_ne_true)]
    · obtain ⟨dir', ext, rfl, -⟩ := loraStem_eq_some hstem
      have hparent : parent (candidate dir' stem ext) = some dir' := by
        rw [parent, candidate, List.getLast?_concat, List.dropLast_concat]
      have htag : loraTag weight (candidate dir' stem ext) = tag stem weight := by
        rw [loraTag, hstem, Option.getD_some]
      rw [loraStep, hstem, List.filter_cons_of_pos (by rw [hstem]; rfl)]
      dsimp only
      rw [hparent, List.map_cons, htag, List.head?_cons, Option.bind_some, hparent,
        List.append_assoc]
      rcases acc.1 with _ | dir <;> rfl

/-- The arguments: the directory of the first LoRA that is passed on, and the tags of all. -/
theorem loraArgs_eq (prompt : Text) (loras : List Path) :
    loraArgs prompt weight loras =
      let passed := loras.filter fun p => (loraStem p).isSome
      match passed.head? with
      | none => [.text "-p".toList, .text prompt]
      | some first =>
        [.text "--lora-model-dir".toList, .path first.dropLast, .text "-p".toList,
          .text (prompt ++ ' ' :: [' '].intercalate (passed.map (loraTag weight)))] := by
  rw [loraArgs, foldl_loraStep]
  dsimp only
  rcases hpassed : loras.filter fun p => (loraStem p).isSome with _ | ⟨first, rest⟩
  · rfl
  · have hfirst : first ∈ loras.filter fun p => (loraStem p).isSome := by
      rw [hpassed]
      exact List.mem_cons_self
    obtain ⟨stem, hstem⟩ := Option.isSome_iff_exists.mp (List.mem_filter.mp hfirst).2
    obtain ⟨dir', ext, rfl, -⟩ := loraStem_eq_some hstem
    have hparent : parent (candidate dir' stem ext) = some dir' := by
      rw [parent, candidate, List.getLast?_concat, List.dropLast_concat]
    rw [List.head?_cons, Option.bind_some, hparent]
    dsimp only
    rw [candidate, List.dropLast_concat]
    rfl

theorem tag_inj {stem' : Text} (h : tag stem weight = tag stem' weight) : stem = stem' := by
  have hcons := List.append_cancel_left h
  exact List.append_cancel_right hcons

theorem find_eq_some_iff {sd : SdCli} {files : Files} :
    sd.find files dir name = some p ↔
      files p = true ∧ ∃ before ext after, sd.extensions = before ++ ext :: after ∧
        p = candidate dir name ext ∧ ∀ e ∈ before, files (candidate dir name e) = false := by
  rw [SdCli.find, List.find?_eq_some_iff_append]
  refine and_congr_right fun _ => ?_
  constructor
  · rintro ⟨before, after, hsplit, hbefore⟩
    obtain ⟨exts, rest, hexts, hmap, hrest⟩ := List.map_eq_append_iff.mp hsplit
    obtain ⟨ext, after', rfl, rfl, -⟩ := List.map_eq_cons_iff.mp hrest
    refine ⟨exts, ext, after', hexts, rfl, fun e he => ?_⟩
    have hmem := List.mem_map_of_mem (f := candidate dir name) he
    rw [hmap] at hmem
    exact (Bool.not_eq_true' _).mp (hbefore _ hmem)
  · rintro ⟨before, ext, after, hsplit, rfl, hbefore⟩
    refine ⟨before.map (candidate dir name), after.map (candidate dir name), ?_, ?_⟩
    · rw [hsplit, List.map_append, List.map_cons]
    · intro a ha
      obtain ⟨e, he, rfl⟩ := List.mem_map.mp ha
      rw [hbefore e he]
      rfl

/-- A tag finds its LoRA exactly when the LoRA is suited to the directory. -/
theorem finds_iff {sd : SdCli} (hsd : sd.Documented) {files : Files} (hweight : weight ≠ [])
    (hclose : '>' ∉ weight) (hfile : files p = true) (hstem : (loraStem p).isSome = true) :
    sd.Finds files dir weight (loraTag weight p) p ↔ Suited sd files dir p := by
  obtain ⟨stem, hstem⟩ := Option.isSome_iff_exists.mp hstem
  obtain ⟨dir', ext', hp, hne, hdot, -⟩ := loraStem_eq_some hstem
  have htag : loraTag weight p = tag stem weight := by rw [loraTag, hstem, Option.getD_some]
  have hexts : ∀ {before ext after}, sd.extensions = before ++ ext :: after → ext ∈ recognised := by
    intro before ext after hsplit
    refine hsd.extensions_perm.mem_iff.mp ?_
    rw [hsplit]
    exact List.mem_append_right _ List.mem_cons_self
  rw [htag]
  constructor
  · rintro ⟨name, hread, hfind⟩
    obtain ⟨heq, -, hcolon, -⟩ := (hsd.readTag_iff _ _ _).mp hread
    obtain rfl := tag_inj heq
    obtain ⟨-, before, ext, after, hsplit, hcandidate, hbefore⟩ := find_eq_some_iff.mp hfind
    exact ⟨stem, before, ext, after, hsplit, hcandidate, hcolon, hbefore⟩
  · rintro ⟨stem', before, ext, after, hsplit, hcandidate, hcolon, hbefore⟩
    have hstem' : stem = stem' :=
      (candidate_inj hdot (dot_notMem_recognised (hexts hsplit)) (hp.symm.trans hcandidate)).2.1
    subst hstem'
    refine ⟨stem, (hsd.readTag_iff _ _ _).mpr ⟨rfl, hne, hcolon, hweight, hclose⟩, ?_⟩
    exact find_eq_some_iff.mpr ⟨hfile, before, ext, after, hsplit, hcandidate, hbefore⟩

/-- Every LoRA with a recognised extension is passed on, in order and with the weight of the source,
and every other one is skipped.  In the directory of the first each is found by its tag exactly when
all are suited to it, and then different files have different tags. -/
theorem loraArgs_find {F : Type} [One F] (sd : SdCli) (hsd : sd.Documented) (display : F → Text)
    (hdisplay : ∀ w, display w ≠ [] ∧ '>' ∉ display w) (modelsRoot : Path) (modelId : Text)
    (failure : ModelFile → Option Text) (cached cached' : Files) (source : ModelSource F)
    (resolved : List (ModelFileRole × Path))
    (h : ensureFiles modelsRoot modelId failure cached source.files = .ok (resolved, cached'))
    (prompt : Text) :
    let weight := display (loraWeight source)
    let passed := (lorasOf resolved).filter fun p => (loraStem p).isSome
    (loraArgs prompt weight (lorasOf resolved) =
      match passed.head? with
      | none => [.text "-p".toList, .text prompt]
      | some first =>
        [.text "--lora-model-dir".toList, .path first.dropLast, .text "-p".toList,
          .text (prompt ++ ' ' :: [' '].intercalate (passed.map (loraTag weight)))]) ∧
    ∀ first ∈ passed.head?,
      ((∀ p ∈ passed, sd.Finds cached' first.dropLast weight (loraTag weight p) p) ↔
        ∀ p ∈ passed, Suited sd cached' first.dropLast p) ∧
      ((∀ p ∈ passed, Suited sd cached' first.dropLast p) →
        ∀ p ∈ passed, ∀ q ∈ passed, p ≠ q → loraTag weight p ≠ loraTag weight q) := by
  intro weight passed
  obtain ⟨hweight, hclose⟩ := hdisplay (loraWeight source)
  have hfinds : ∀ dir, ∀ p ∈ passed,
      (sd.Finds cached' dir weight (loraTag weight p) p ↔ Suited sd cached' dir p) := by
    intro dir p hp
    obtain ⟨hlora, hstem⟩ := List.mem_filter.mp hp
    exact finds_iff hsd hweight hclose (isFile_of_ensureFiles h p hlora hstem) hstem
  refine ⟨loraArgs_eq prompt _, fun first _ => ⟨?_, fun hsuited p hp q hq hne htag => hne ?_⟩⟩
  · exact forall₂_congr (hfinds _)
  · obtain ⟨name, hread, hfind⟩ := (hfinds _ p hp).mpr (hsuited p hp)
    obtain ⟨name', hread', hfind'⟩ := (hfinds _ q hq).mpr (hsuited q hq)
    rw [htag, hread'] at hread
    obtain ⟨rfl, -⟩ := Prod.mk.inj (Option.some.inj hread)
    exact Option.some.inj (hfind.symm.trans hfind')

/-- Tags by their separators, and the extensions in the order in which they are listed. -/
def bySeparators : SdCli where
  readTag t := do
    let rest ← Text.stripPrefix "<lora:".toList t
    let (name, tail) ← Lib.Search.splitOnce [':'] rest
    let weight ← Text.stripSuffix ['>'] tail
    if name = [] ∨ weight = [] ∨ '>' ∈ weight then none else some (name, weight)
  extensions := recognised

theorem bySeparators_documented : bySeparators.Documented := by
  refine ⟨fun t name weight => ?_, List.Perm.refl _⟩
  show Option.bind _ _ = _ ↔ _
  constructor
  · intro h
    obtain ⟨rest, hrest, h⟩ := Option.bind_eq_some_iff.mp h
    obtain ⟨⟨name', tail⟩, hsplit, h⟩ := Option.bind_eq_some_iff.mp h
    obtain ⟨weight', htail, h⟩ := Option.bind_eq_some_iff.mp h
    split_ifs at h with hempty
    obtain ⟨rfl, rfl⟩ := Prod.mk.inj (Option.some.inj h)
    push Not at hempty
    obtain rfl := Text.stripPrefix_some.mp hrest
    obtain ⟨rfl, hcolon⟩ := Lib.Search.splitOnce_singleton_some.mp hsplit
    obtain rfl := Text.stripSuffix_some.mp htail
    exact ⟨rfl, hempty.1, hcolon, hempty.2.1, hempty.2.2⟩
  · rintro ⟨rfl, hname, hcolon, hweight, hclose⟩
    have hsplit := Lib.Search.splitOnce_singleton_some.mpr
      (⟨rfl, hcolon⟩ : name ++ ':' :: (weight ++ ['>']) = _ ∧ _)
    have hrest : Text.stripPrefix "<lora:".toList (tag name weight) =
        some (name ++ ':' :: (weight ++ ['>'])) := Text.stripPrefix_some.mpr rfl
    rw [hrest, Option.bind_some, hsplit, Option.bind_eq_bind, Option.bind_some]
    show Option.bind (Text.stripSuffix ['>'] (weight ++ ['>'])) _ = _
    rw [Text.stripSuffix_some.mpr rfl, Option.bind_some]
    exact if_neg (by push Not; exact ⟨hname, hweight, hclose⟩)

/-- A model with the LoRAs `names`. -/
def loraSource (names : List String) : ModelSource :=
  ⟨.sdCpp, names.map fun name => { role := .lora, url := "", filename := name }, {}⟩

/-- A model's own directory, with a LoRA and a file that is none, and a LoRA in the models root. -/
def mixedCache : Files := fun p =>
  p ∈ ([[.rootDir, .normal ['m'], .normal "a.gguf".toList],
    [.rootDir, .normal ['m'], .normal "c.bin".toList],
    [.rootDir, .normal "b.gguf".toList]] : List Path)

theorem loraArgs_find_own :
    bySeparators.Finds mixedCache [.rootDir, .normal ['m']] ['1'] "<lora:a:1>".toList
      [.rootDir, .normal ['m'], .normal "a.gguf".toList] := by
  have hfind := loraArgs_find bySeparators bySeparators_documented (fun _ : ℚ => ['1'])
    (fun _ => by decide) [.rootDir] ['m'] (fun _ => none) mixedCache mixedCache
    (loraSource ["a.gguf"]) [(.lora, [.rootDir, .normal ['m'], .normal "a.gguf".toList])] rfl []
  refine (hfind.2 _ rfl).1.mpr ?_ _ (List.mem_singleton_self _)
  intro p hp
  obtain rfl := List.mem_singleton.mp hp
  exact ⟨['a'], ["safetensors".toList, "ckpt".toList], "gguf".toList, [], rfl, rfl, by decide,
    by decide⟩

/-- A LoRA that is left in the models root is not found beside one that is not, and one without a
recognised extension is not passed on. -/
theorem lora_not_found :
    (∃ resolved,
      ensureFiles [.rootDir] ['m'] (fun _ => none) mixedCache
        (loraSource ["a.gguf", "b.gguf"]).files = .ok (resolved, mixedCache) ∧
      loraArgs [] ['1'] (lorasOf resolved) =
        [.text "--lora-model-dir".toList, .path [.rootDir, .normal ['m']], .text "-p".toList,
          .text " <lora:a:1> <lora:b:1>".toList] ∧
      ∃ p ∈ lorasOf resolved, ∀ t,
        ¬ bySeparators.Finds mixedCache [.rootDir, .normal ['m']] ['1'] t p) ∧
    ∃ resolved,
      ensureFiles [.rootDir] ['m'] (fun _ => none) mixedCache (loraSource ["c.bin"]).files =
        .ok (resolved, mixedCache) ∧
      lorasOf resolved ≠ [] ∧
      loraArgs [] ['1'] (lorasOf resolved) = [.text "-p".toList, .text []] := by
  refine ⟨⟨[(.lora, [.rootDir, .normal ['m'], .normal "a.gguf".toList]),
    (.lora, [.rootDir, .normal "b.gguf".toList])], rfl, by decide, _,
    List.mem_cons_of_mem _ (List.mem_singleton_self _), ?_⟩,
    ⟨[(.lora, [.rootDir, .normal ['m'], .normal "c.bin".toList])], rfl, by decide, by decide⟩⟩
  rintro t ⟨name, -, hfind⟩
  obtain ⟨-, before, ext, after, -, hp, -⟩ := find_eq_some_iff.mp hfind
  have hlength : 2 = 3 := congrArg List.length hp
  cases hlength

end StudioWorker.LoraArgs
