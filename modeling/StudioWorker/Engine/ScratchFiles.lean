import StudioWorker.Lib.Owned
import StudioWorker.Text

/-!
# Engine.ScratchFiles — the scratch files of image jobs (`src/engine/sdcpp.rs`, `src/engine/onnx.rs`)

The names of a job begin with its process and its time, so none of them is there before it, and no
`.part` file is resumed.  What may fail is told by its error.

* `dispatchImage`, `dispatchRemoval`: the steps of a job on the two engines.
* `Job.remaining`: the files that are there when it has returned.
* `remaining_eq_nil_iff`: when there is none.
-/

namespace StudioWorker.ScratchFiles

open Text Lib Lib.Scratch Lib.Steps

inductive Role where
  | out
  | init
  | mask
  | reference
deriving DecidableEq

/-- `{stem}.{ext}`, `{stem}-init.{ext}` and so on; a stem has no dot. -/
structure Name where
  role : Role
  ext : Option Text
deriving DecidableEq

def Name.withExtension (n : Name) (ext : Text) : Name := { n with ext := some ext }

abbrev JobSteps := Steps (Scratch Name) Text

/-! ## One input (`src/engine/download.rs`) -/

/-- What happens to a download: its request up to the status, and the steps after it. -/
structure Http where
  request : Option Text
  create : Option Text
  stream : Option Text
  length : Option Text
  rename : Option Text

/-- What happens to a data URL; `true` is a write that stops after the file was created. -/
structure Inline where
  decode : Option Text
  directory : Option Text
  write : Option (Bool × Text)

/-- What happens to an input, and the bytes it begins with. -/
structure Input where
  http : Http
  inline : Inline
  opening : Option Text
  reading : Option Text
  header : List UInt8
  correcting : Option Text

def writeDataUrl (env : Inline) (dest : Name) : JobSteps Unit := do
  works env.decode
  works env.directory
  match env.write with
  | none => create dest
  | some (true, e) => do
    create dest
    fail e
  | some (false, e) => fail e

/-- The `.part` file of a download that failed. -/
def discard (part : Name) (failure : Option Text) : JobSteps Unit :=
  match failure with
  | none => pure ()
  | some e => do
    remove part
    fail e

def downloadFileVerified (env : Http) (dest : Name) : JobSteps Unit := do
  works env.request
  let part := dest.withExtension "part".toList
  works env.create
  create part
  discard part env.stream
  discard part env.length
  works env.rename
  rename part dest

def isDataUrl (url : Text) : Bool := "data:".toList.isPrefixOf url

def downloadFile (url : Text) (env : Input) (dest : Name) : JobSteps Unit :=
  if isDataUrl url then writeDataUrl env.inline dest else downloadFileVerified env.http dest

def sniffImageExtension (bytes : List UInt8) : Option Text :=
  let starts sig := List.isPrefixOf sig bytes
  if starts [0xff, 0xd8, 0xff] then some "jpg".toList
  else if starts [0x89, 0x50, 0x4e, 0x47, 0x0d, 0x0a, 0x1a, 0x0a] then some "png".toList
  else if starts (Text.bytes "RIFF".toList) && (bytes.drop 8).take 4 == Text.bytes "WEBP".toList then
    some "webp".toList
  else if starts (Text.bytes "GIF87a".toList) || starts (Text.bytes "GIF89a".toList) then
    some "gif".toList
  else if starts (Text.bytes "BM".toList) then some "bmp".toList
  else if starts [0x49, 0x49, 0x2a, 0x00] || starts [0x4d, 0x4d, 0x00, 0x2a] then some "tif".toList
  else none

/-- The name that the file is given instead, when its extension is not that of its content. -/
def correctedName (env : Input) (path : Name) : Option Name := do
  let actual ← sniffImageExtension (env.header.take 16)
  let current := path.ext.map fun ext => ext.map Char.toLower
  if current = some actual ∨ (actual = "jpg".toList ∧ current = some "jpeg".toList) then none
  else some (path.withExtension actual)

def ensureCorrectImageExtension (env : Input) (path : Name) : JobSteps Name := do
  works env.opening
  works env.reading
  match correctedName env path with
  | none => pure path
  | some corrected => do
    works env.correcting
    rename path corrected
    pure corrected

/-! ## The two engines -/

structure ImageParams where
  ext : Text
  initImageUrl : Option Text
  maskUrl : Option Text
  refImageUrl : Option Text

/-- What happens to a job besides its inputs: to what precedes its files, and to the engine's run,
which may leave an output. -/
structure Env where
  prepared : Option Text
  init : Input
  mask : Input
  reference : Input
  output : Bool
  run : Option Text
  readOutput : Option Text

def normalizeOutputExt (ext : Text) : Text :=
  let ext := (trim ext).map Char.toLower
  if ext = "png".toList then "png".toList
  else if ext = "jpg".toList ∨ ext = "jpeg".toList then "jpg".toList
  else if ext = "bmp".toList then "bmp".toList
  else "webp".toList

/-- The known extensions that a URL may end in, and what they are written. -/
def urlExtensions : List (Text × Text) :=
  [("png", "png"), ("jpg", "jpg"), ("jpeg", "jpg"), ("webp", "webp"), ("bmp", "bmp"), ("gif", "gif"),
    ("tif", "tif"), ("tiff", "tif")].map fun p => (p.1.toList, p.2.toList)

def initImageExtension (url : Text) : Text :=
  let path := url.takeWhile fun c => c != '?' && c != '#'
  let tail := (path.splitOn '.').getLast?.getD []
  ((urlExtensions.lookup (tail.map Char.toLower)).getD "webp".toList)

/-- An input that is there: fetched, registered, and under a name of its content's extension. -/
def sdInput (role : Role) (env : Input) (url : Option Text) : JobSteps (Option Name) :=
  match url with
  | none | some [] => pure none
  | some url => do
    let path := ⟨role, some (initImageExtension url)⟩
    downloadFile url env path
    push path
    let usable ← ensureCorrectImageExtension env path
    if usable ≠ path then push usable
    pure (some usable)

/-- What `sd-cli` leaves. -/
def leaveOutput (written : Bool) (out : Name) : JobSteps Unit :=
  if written then create out else pure ()

/-- `dispatch_image`, from the binary and the model's files to the bytes of the output. -/
def dispatchImage (params : ImageParams) (env : Env) : JobSteps Unit := do
  works env.prepared
  let out := ⟨.out, some (normalizeOutputExt params.ext)⟩
  push out
  let initImg ← sdInput .init env.init params.initImageUrl
  let hasBase := initImg.isSome || params.refImageUrl.isSome
  let _mask ← sdInput .mask env.mask (if hasBase then params.maskUrl else none)
  let _refImg ← sdInput .reference env.reference params.refImageUrl
  leaveOutput env.output out
  works env.run
  works env.readOutput

/-- `filter(|s| !s.is_empty()).ok_or_else(..)` -/
def required (url : Option Text) (message : String) : JobSteps Text :=
  match url with
  | none | some [] => fail message.toList
  | some url => pure url

def dispatchRemoval (params : ImageParams) (env : Env) : JobSteps Unit := do
  let initUrl ← required params.initImageUrl
    "onnx/LaMa removal requires \x60initImageUrl\x60 (the original image)"
  let maskUrl ← required params.maskUrl
    "onnx/LaMa removal requires \x60maskUrl\x60 (the region to remove)"
  works env.prepared
  let init := ⟨.init, none⟩
  let mask := ⟨.mask, none⟩
  push init
  push mask
  downloadFile initUrl env.init init
  downloadFile maskUrl env.mask mask
  works env.run

inductive Engine where
  | sdcpp
  | onnx
deriving DecidableEq

/-- An image job, and what happens to it. -/
structure Job where
  engine : Engine
  params : ImageParams
  env : Env

def Job.steps (job : Job) : JobSteps Unit :=
  match job.engine with
  | .sdcpp => dispatchImage job.params job.env
  | .onnx => dispatchRemoval job.params job.env

/-- The scratch files that are there when the job has returned and its guard is dropped. -/
def Job.remaining (job : Job) : List Name := (job.steps ⟨[], []⟩).2.remaining

/-! ## What may be left -/

/-- The download comes to the rename. -/
structure Http.Finished (env : Http) : Prop where
  request : env.request = none
  create : env.create = none
  stream : env.stream = none
  length : env.length = none

/-- The data URL comes to the write. -/
def Inline.Decoded (env : Inline) : Prop := env.decode = none ∧ env.directory = none

def Input.Downloads (env : Input) (url : Text) : Prop :=
  if isDataUrl url then env.inline.Decoded ∧ env.inline.write = none
  else env.http.Finished ∧ env.http.rename = none

/-- A download that fails once its file is there: a finished one that is not renamed, or, where its
destination is not registered yet, a write that stops. -/
def Input.Leaks (registered : Bool) (env : Input) (url : Text) : Prop :=
  if isDataUrl url then
    registered = false ∧ env.inline.Decoded ∧ ∃ e, env.inline.write = some (true, e)
  else env.http.Finished ∧ env.http.rename ≠ none

theorem Input.Downloads.not_leaks {env : Input} {url : Text} {registered : Bool}
    (h : env.Downloads url) : ¬ env.Leaks registered url := by
  rw [Input.Downloads] at h
  rw [Input.Leaks]
  split_ifs at h ⊢
  · rintro ⟨-, -, e, hwrite⟩
    cases h.2.symm.trans hwrite
  · exact fun hleaks => hleaks.2 h.2

/-- Its extension can be made that of its content. -/
def Input.Corrects (env : Input) (path : Name) : Prop :=
  env.opening = none ∧ env.reading = none ∧ (correctedName env path ≠ none → env.correcting = none)

/-- Whether an input leaks, and whether the job goes on after it. -/
structure Fate where
  leaks : Prop
  passes : Prop

/-- No input leaks that the job comes to. -/
def NoLeak : List Fate → Prop
  | [] => True
  | i :: rest => ¬ i.leaks ∧ (i.passes → NoLeak rest)

def AllPass (l : List Fate) : Prop := ∀ i ∈ l, i.passes

theorem noLeak_append {l l' : List Fate} :
    NoLeak (l ++ l') ↔ NoLeak l ∧ (AllPass l → NoLeak l') := by
  induction l with
  | nil => exact ⟨fun h => ⟨trivial, fun _ => h⟩, fun h => h.2 fun i hi => absurd hi List.not_mem_nil⟩
  | cons i l ih =>
    have hall : AllPass (i :: l) ↔ i.passes ∧ AllPass l := List.forall_mem_cons
    rw [List.cons_append, NoLeak, NoLeak, ih, hall]
    tauto

theorem allPass_append {l l' : List Fate} : AllPass (l ++ l') ↔ AllPass l ∧ AllPass l' :=
  List.forall_mem_append

/-- The job has come past these inputs. -/
def Passed (l : List Fate) : Prop := AllPass l ∧ NoLeak l

/-- `sdInput` on a URL that is not empty. -/
def sdFate (role : Role) (env : Input) (url : Text) : Fate :=
  ⟨env.Leaks false url,
    env.Downloads url ∧ env.Corrects ⟨role, some (initImageExtension url)⟩⟩

def sdFates (role : Role) (env : Input) (url : Option Text) : List Fate :=
  match url with
  | none | some [] => []
  | some url => [sdFate role env url]

def present (url : Option Text) : Bool :=
  match url with
  | none | some [] => false
  | some _ => true

/-- The inputs of a job, in the order in which they are fetched. -/
def Job.fates (job : Job) : List Fate :=
  let params := job.params
  let env := job.env
  match job.engine with
  | .sdcpp =>
    sdFates .init env.init params.initImageUrl ++
      (sdFates .mask env.mask
          (if present params.initImageUrl || params.refImageUrl.isSome then params.maskUrl
          else none) ++
        sdFates .reference env.reference params.refImageUrl)
  | .onnx =>
    match params.initImageUrl, params.maskUrl with
    | some (c :: cs), some (d :: ds) =>
      [⟨env.init.Leaks true (c :: cs), env.init.Downloads (c :: cs)⟩,
        ⟨env.mask.Leaks true (d :: ds), env.mask.Downloads (d :: ds)⟩]
    | _, _ => []

/-! ## One download -/

variable {G : List Name} {env : Input} {url : Text} {dest path : Name} {role : Role}

/-- Either all is well, or it fails and what is registered is all there is, unless it leaks. -/
def After (G : List Name) (n : Name) (passes leaks : Prop) {α : Type} (m : JobSteps α) : Prop :=
  Triple (Kept G) m (fun _ s => passes ∧ Loose G n s)
    (fun _ s => ¬ passes ∧ (s.Owned ↔ ¬ leaks))

theorem after_writeDataUrl {inline : Inline} :
    After G dest (inline.Decoded ∧ inline.write = none)
      (dest ∉ G ∧ inline.Decoded ∧ ∃ e, inline.write = some (true, e))
      (writeDataUrl inline dest) := by
  intro s hs
  rw [writeDataUrl]
  rcases hdecode : inline.decode with _ | e
  case some =>
    refine And.intro (fun h => ?_) (iff_of_true hs.owned fun h => ?_)
    · cases h.1.1.symm.trans hdecode
    · cases h.2.1.1.symm.trans hdecode
  rcases hdirectory : inline.directory with _ | e
  case some =>
    refine And.intro (fun h => ?_) (iff_of_true hs.owned fun h => ?_)
    · cases h.1.2.symm.trans hdirectory
    · cases h.2.1.2.symm.trans hdirectory
  have hdecoded : inline.Decoded := ⟨hdecode, hdirectory⟩
  have hloose : Loose G dest (s.created dest) := hs.created
  rcases hwrite : inline.write with _ | ⟨created, e⟩
  · exact And.intro ⟨hdecoded, rfl⟩ hloose
  cases created with
  | false =>
    refine And.intro (fun h => by cases h.2) (iff_of_true hs.owned ?_)
    rintro ⟨-, -, e', he'⟩
    cases he'
  | true =>
    refine And.intro (fun h => by cases h.2) ?_
    by_cases hdest : dest ∈ G
    · exact iff_of_true (hloose.kept hdest).owned fun h => h.1 hdest
    · exact iff_of_false (hloose.not_owned hdest) fun h => h ⟨hdest, hdecoded, e, rfl⟩

theorem after_downloadFileVerified {http : Http}
    (hpart : dest.withExtension "part".toList ∉ G) :
    After G dest (http.Finished ∧ http.rename = none) (http.Finished ∧ http.rename ≠ none)
      (downloadFileVerified http dest) := by
  intro s hs
  rw [downloadFileVerified]
  rcases hrequest : http.request with _ | e
  case some =>
    refine And.intro (fun h => ?_) (iff_of_true hs.owned fun h => ?_)
    · cases h.1.request.symm.trans hrequest
    · cases h.1.request.symm.trans hrequest
  rcases hcreate : http.create with _ | e
  case some =>
    refine And.intro (fun h => ?_) (iff_of_true hs.owned fun h => ?_)
    · cases h.1.create.symm.trans hcreate
    · cases h.1.create.symm.trans hcreate
  set part := dest.withExtension "part".toList
  have hloose : Loose G part (s.created part) := hs.created
  have hremoved : Kept G ((s.created part).removed part) := hloose.removed
  rcases hstream : http.stream with _ | e
  case some =>
    refine And.intro (fun h => ?_) (iff_of_true hremoved.owned fun h => ?_)
    · cases h.1.stream.symm.trans hstream
    · cases h.1.stream.symm.trans hstream
  rcases hlength : http.length with _ | e
  case some =>
    refine And.intro (fun h => ?_) (iff_of_true hremoved.owned fun h => ?_)
    · cases h.1.length.symm.trans hlength
    · cases h.1.length.symm.trans hlength
  have hfinished : http.Finished := ⟨hrequest, hcreate, hstream, hlength⟩
  rcases hrename : http.rename with _ | e
  · have hrenamed : Loose G dest ((s.created part).renamed part dest) := hloose.renamed
    exact And.intro ⟨hfinished, rfl⟩ hrenamed
  · refine And.intro (fun h => by cases h.2) (iff_of_false (hloose.not_owned hpart) fun h => h ?_)
    exact ⟨hfinished, Option.some_ne_none e⟩

theorem after_downloadFile (hpart : dest.withExtension "part".toList ∉ G) :
    After G dest (env.Downloads url) (env.Leaks (decide (dest ∈ G)) url)
      (downloadFile url env dest) := by
  rw [downloadFile, Input.Downloads, Input.Leaks]
  by_cases hdata : isDataUrl url = true
  · rw [if_pos hdata, if_pos hdata, if_pos hdata, decide_eq_false_iff_not]
    exact after_writeDataUrl
  · rw [if_neg hdata, if_neg hdata, if_neg hdata]
    exact after_downloadFileVerified hpart

/-- The renamed file is still to be registered. -/
theorem triple_ensureCorrectImageExtension :
    Triple (Kept G) (ensureCorrectImageExtension env path)
      (fun usable s => env.Corrects path ∧
        (usable = path ∧ Kept G s ∨ usable.role = path.role ∧ Loose G usable s))
      (fun _ s => ¬ env.Corrects path ∧ s.Owned) := by
  intro s hs
  rw [ensureCorrectImageExtension]
  rcases hopening : env.opening with _ | e
  case some => exact And.intro (fun h => by cases h.1.symm.trans hopening) hs.owned
  rcases hreading : env.reading with _ | e
  case some => exact And.intro (fun h => by cases h.2.1.symm.trans hreading) hs.owned
  rcases hname : correctedName env path with _ | corrected
  · refine And.intro ⟨hopening, hreading, fun h => absurd hname h⟩ (.inl ⟨rfl, hs⟩)
  rcases hcorrecting : env.correcting with _ | e
  case some =>
    refine And.intro (fun h => ?_) hs.owned
    cases (h.2.2 (by rw [hname]; exact Option.some_ne_none _)).symm.trans hcorrecting
  refine And.intro ⟨hopening, hreading, fun _ => hcorrecting⟩ (.inr ?_)
  rw [correctedName] at hname
  obtain ⟨actual, -, hname⟩ := Option.bind_eq_some_iff.mp hname
  dsimp only at hname
  split_ifs at hname
  obtain rfl := Option.some.inj hname
  exact ⟨rfl, hs.renamed⟩

/-! ## Parts of a job -/

/-- What a part of a job says at its end, of the inputs that it fetches. -/
def Tells {α : Type} (l : List Fate) (pre : Scratch Name → Prop) (m : JobSteps α)
    (ok : α → Scratch Name → Prop) : Prop :=
  Triple pre m (fun a s => Passed l ∧ ok a s) (fun _ s => s.Owned ↔ NoLeak l)

/-- A part that fetches inputs, when it fails one of them is the reason. -/
def Fetches {α : Type} (l : List Fate) (pre : Scratch Name → Prop) (m : JobSteps α)
    (ok : α → Scratch Name → Prop) : Prop :=
  Triple pre m (fun a s => Passed l ∧ ok a s) (fun _ s => ¬ AllPass l ∧ (s.Owned ↔ NoLeak l))

theorem tells_bind {α β : Type} {l l' : List Fate} {pre : Scratch Name → Prop} {m : JobSteps α}
    {f : α → JobSteps β} {mid : α → Scratch Name → Prop} {ok : β → Scratch Name → Prop}
    (hm : Fetches l pre m mid) (hf : ∀ a, Tells l' (mid a) (f a) ok) :
    Tells (l ++ l') pre (m >>= f) ok := by
  refine triple_bind (triple_mono hm (fun _ h => h) (fun _ _ h => h) fun _ s h => ?_)
    fun a => triple_given fun hpassed => triple_mono (hf a) (fun _ h => h) (fun b s h => ?_)
      fun _ s h => ?_
  · rw [h.2, noLeak_append]
    exact ⟨fun hl => ⟨hl, fun hall => absurd hall h.1⟩, fun hl => hl.1⟩
  · exact ⟨⟨allPass_append.mpr ⟨hpassed.1, h.1.1⟩, noLeak_append.mpr ⟨hpassed.2, fun _ => h.1.2⟩⟩, h.2⟩
  · rw [h, noLeak_append]
    exact ⟨fun hl => ⟨hpassed.2, fun _ => hl⟩, fun hl => hl.2 hpassed.1⟩

theorem triple_works_none {pre : Scratch Name → Prop} {err : Text → Scratch Name → Prop} :
    Triple pre (works none : JobSteps Unit) (fun _ => pre) err := fun _ hs => hs

theorem triple_works_kept {failure : Option Text} :
    Triple (Kept G) (works failure : JobSteps Unit) (fun _ => Kept G)
      (fun _ s => s.Owned ↔ NoLeak []) :=
  triple_mono (triple_works fun _ s (hs : Kept G s) => hs.owned) (fun _ h => h) (fun _ _ h => h.2)
    fun _ _ h => iff_of_true h trivial

theorem passed_nil : Passed [] := ⟨fun _ hi => absurd hi List.not_mem_nil, trivial⟩

theorem fetches_pure {α : Type} {pre : Scratch Name → Prop} {a : α}
    {ok : α → Scratch Name → Prop} (h : ∀ s, pre s → ok a s) : Fetches [] pre (pure a) ok :=
  triple_pure fun s hs => ⟨passed_nil, h s hs⟩

/-- The last step. -/
theorem tells_works {failure : Option Text} :
    Tells [] (Kept G) (works failure : JobSteps Unit) (fun _ s => s.Owned) :=
  triple_mono triple_works_kept (fun _ h => h) (fun _ _ h => ⟨passed_nil, h.owned⟩) fun _ _ h => h

theorem triple_required {pre : Scratch Name → Prop} {err : Text → Scratch Name → Prop} (c : Char)
    (cs : Text) {message : String} :
    Triple pre (required (some (c :: cs)) message) (fun url s => url = c :: cs ∧ pre s) err :=
  fun _ hs => ⟨rfl, hs⟩

/-! ## The inputs of `sd-cli` -/

/-- What is registered, the output too, is of these roles. -/
def Within (out : Name) (roles : List Role) (s : Scratch Name) : Prop :=
  ∃ G, (out ∈ G ∧ ∀ m ∈ G, m.role ∈ roles) ∧ Kept G s

theorem within_cons {out n : Name} {roles : List Role} {s : Scratch Name} (hs : Kept (n :: G) s)
    (hout : out ∈ G) (hG : ∀ m ∈ G, m.role ∈ roles) : Within out (n.role :: roles) s := by
  refine ⟨n :: G, ⟨List.mem_cons_of_mem _ hout, fun m hm => ?_⟩, hs⟩
  rcases List.mem_cons.mp hm with rfl | hm
  · exact List.mem_cons_self
  · exact List.mem_cons_of_mem _ (hG m hm)

theorem fetches_sdInput {out : Name} {roles : List Role} (hrole : role ∉ roles)
    (url : Option Text) :
    Fetches (sdFates role env url) (Within out roles) (sdInput role env url)
      (fun usable s => usable.isSome = present url ∧ Within out (role :: roles) s) := by
  have hnone : Fetches [] (Within out roles) (pure none : JobSteps (Option Name))
      (fun usable s => usable.isSome = false ∧ Within out (role :: roles) s) := by
    refine fetches_pure fun s hs => ⟨rfl, ?_⟩
    obtain ⟨G, ⟨hout, hG⟩, hs⟩ := hs
    exact ⟨G, ⟨hout, fun m hm => List.mem_cons_of_mem _ (hG m hm)⟩, hs⟩
  rcases url with _ | _ | ⟨c, cs⟩
  · exact hnone
  · exact hnone
  set url := c :: cs
  set path : Name := ⟨role, some (initImageExtension url)⟩
  refine triple_exists fun G => triple_given fun ⟨hout, hG⟩ => ?_
  have hall : AllPass [sdFate role env url] ↔ env.Downloads url ∧ env.Corrects path :=
    List.forall_mem_singleton
  have hno : NoLeak [sdFate role env url] ↔ ¬ env.Leaks false url :=
    ⟨fun h => h.1, fun h => ⟨h, fun _ => trivial⟩⟩
  have hfresh : ∀ ext, (⟨role, ext⟩ : Name) ∉ G := fun ext h => hrole (hG _ h)
  have hdownload := @after_downloadFile G env url path (hfresh _)
  rw [decide_eq_false (hfresh _)] at hdownload
  show Triple (Kept G) _
    (fun (usable : Option Name) s => (AllPass [sdFate role env url] ∧ NoLeak [sdFate role env url]) ∧
      usable.isSome = true ∧ Within out (role :: roles) s)
    (fun _ s => ¬ AllPass [sdFate role env url] ∧ (s.Owned ↔ NoLeak [sdFate role env url]))
  rw [hall, hno]
  refine triple_bind (triple_mono hdownload (fun _ h => h) (fun _ _ h => h)
    fun _ s h => ⟨fun hp => h.1 hp.1, h.2⟩) fun _ => triple_given fun hpasses => ?_
  have hleaks : ¬ env.Leaks false url := hpasses.not_leaks
  refine triple_bind (triple_change fun _ hs => hs.pushed) fun _ => ?_
  refine triple_bind (triple_mono triple_ensureCorrectImageExtension (fun _ h => h) (fun _ _ h => h)
    fun _ s h => ⟨fun hp => h.1 hp.2, iff_of_true h.2 hleaks⟩) fun usable =>
      triple_given fun hcorrects => ?_
  have hkept : ∀ {s : Scratch Name}, Kept (path :: G) s → Within out (role :: roles) s :=
    fun hs => within_cons hs hout hG
  rintro s (⟨rfl, hs⟩ | ⟨hsame, hs⟩)
  · rw [if_neg (not_not.mpr rfl)]
    exact ⟨⟨⟨hpasses, hcorrects⟩, hleaks⟩, rfl, hkept hs⟩
  · by_cases husable : usable = path
    · rw [if_neg (not_not.mpr husable)]
      refine ⟨⟨⟨hpasses, hcorrects⟩, hleaks⟩, rfl, hkept (hs.kept ?_)⟩
      rw [husable]
      exact List.mem_cons_self
    · rw [if_pos husable]
      refine And.intro ⟨⟨hpasses, hcorrects⟩, hleaks⟩ (And.intro rfl ?_)
      obtain ⟨hgrown, hG'⟩ : out ∈ path :: G ∧ ∀ m ∈ path :: G, m.role ∈ role :: roles := by
        refine ⟨List.mem_cons_of_mem _ hout, fun m hm => ?_⟩
        rcases List.mem_cons.mp hm with rfl | hm
        · exact List.mem_cons_self
        · exact List.mem_cons_of_mem _ (hG m hm)
      refine ⟨usable :: path :: G, ⟨List.mem_cons_of_mem _ hgrown, fun m hm => ?_⟩,
        hs.pushed⟩
      rcases List.mem_cons.mp hm with rfl | hm
      · rw [hsame]
        exact List.mem_cons_self
      · exact hG' m hm

/-! ## The jobs -/

variable {params : ImageParams} {env : Env}

theorem tells_engine_run {out : Name} {roles : List Role} :
    Tells [] (Within out roles)
      (do
        leaveOutput env.output out
        works env.run
        works env.readOutput : JobSteps Unit)
      (fun _ s => s.Owned) := by
  refine triple_exists fun G => triple_given fun ⟨hout, _⟩ => ?_
  have hcreate : Triple (Kept G) (leaveOutput env.output out)
      (fun _ => Kept G) (fun _ s => s.Owned ↔ NoLeak []) := by
    rw [leaveOutput]
    cases env.output with
    | false => exact triple_pure fun s hs => hs
    | true => exact triple_change fun s hs => hs.created.kept hout
  exact triple_bind hcreate fun _ => triple_bind triple_works_kept fun _ => tells_works

theorem tells_dispatchImage (hprepared : env.prepared = none) :
    Tells (Job.fates ⟨.sdcpp, params, env⟩) (Kept []) (dispatchImage params env)
      (fun _ s => s.Owned) := by
  rw [dispatchImage, hprepared]
  set out : Name := ⟨.out, some (normalizeOutputExt params.ext)⟩
  have hpush : Triple (Kept []) (push out : JobSteps Unit) (fun _ => Within out [.out])
      (fun _ s => s.Owned ↔ NoLeak (Job.fates ⟨.sdcpp, params, env⟩)) := by
    refine triple_change fun s hs => ⟨[out], ⟨List.mem_cons_self, fun m hm => ?_⟩, hs.pushed⟩
    rw [List.mem_singleton.mp hm]
    exact List.mem_cons_self
  refine triple_bind triple_works_none fun _ => triple_bind hpush fun _ => ?_
  refine tells_bind (fetches_sdInput (by decide) params.initImageUrl) fun initImg => ?_
  refine triple_given fun hinit => ?_
  dsimp only
  rw [hinit]
  refine tells_bind (fetches_sdInput (by decide) _) fun _ => triple_given fun _ => ?_
  rw [← List.append_nil (sdFates .reference env.reference params.refImageUrl)]
  refine tells_bind (fetches_sdInput (by decide) params.refImageUrl) fun _ => ?_
  exact triple_given fun _ => tells_engine_run

/-- A download to a place that is registered. -/
theorem fetches_downloadFile {input : Input} (hdest : dest ∈ G)
    (hpart : dest.withExtension "part".toList ∉ G) :
    Fetches [⟨input.Leaks true url, input.Downloads url⟩] (Kept G) (downloadFile url input dest)
      (fun _ => Kept G) := by
  have hall : AllPass [⟨input.Leaks true url, input.Downloads url⟩] ↔ input.Downloads url :=
    List.forall_mem_singleton
  have hno : NoLeak [⟨input.Leaks true url, input.Downloads url⟩] ↔ ¬ input.Leaks true url :=
    ⟨fun h => h.1, fun h => ⟨h, fun _ => trivial⟩⟩
  have hafter := @after_downloadFile G input url dest hpart
  rw [decide_eq_true hdest] at hafter
  rw [Fetches, Passed, hall, hno]
  exact triple_mono hafter (fun _ h => h)
    (fun _ s h => ⟨⟨h.1, h.1.not_leaks⟩, h.2.kept hdest⟩) fun _ _ h => h

theorem tells_dispatchRemoval (hprepared : env.prepared = none) :
    Tells (Job.fates ⟨.onnx, params, env⟩) (Kept []) (dispatchRemoval params env)
      (fun _ s => s.Owned) := by
  have hnone : Tells [] (Kept []) (fail [] : JobSteps Unit) (fun _ s => s.Owned) :=
    fun s hs => iff_of_true hs.owned trivial
  rw [Job.fates, dispatchRemoval, hprepared]
  dsimp only
  rcases params.initImageUrl with _ | _ | ⟨c, cs⟩
  · exact hnone
  · exact hnone
  rcases params.maskUrl with _ | _ | ⟨d, ds⟩
  · exact hnone
  · exact hnone
  have hinit : ∀ {err}, Triple (Kept []) (push ⟨.init, none⟩ : JobSteps Unit)
      (fun _ => Kept [⟨.init, none⟩]) err := triple_change fun s hs => hs.pushed
  have hmask : ∀ {err}, Triple (Kept [⟨.init, none⟩]) (push ⟨.mask, none⟩ : JobSteps Unit)
      (fun _ => Kept [⟨.mask, none⟩, ⟨.init, none⟩]) err := triple_change fun s hs => hs.pushed
  refine triple_bind (triple_required _ _) fun initUrl => triple_given fun hurl => ?_
  refine triple_bind (triple_required _ _) fun maskUrl => triple_given fun hurl' => ?_
  subst hurl hurl'
  refine triple_bind triple_works_none fun _ => triple_bind hinit fun _ => ?_
  refine triple_bind hmask fun _ => ?_
  refine @tells_bind _ _ [_] [_] _ _ _ _ _ (fetches_downloadFile (by decide) (by decide))
    fun _ => ?_
  refine @tells_bind _ _ [_] [] _ _ _ _ _ (fetches_downloadFile (by decide) (by decide))
    fun _ => ?_
  exact tells_works

/-- Nothing is left exactly when no input leaks that the job comes to. -/
theorem remaining_eq_nil_iff (job : Job) :
    job.remaining = [] ↔ (job.env.prepared = none → NoLeak job.fates) := by
  obtain ⟨engine, params, env⟩ := job
  rw [Job.remaining, Scratch.remaining_nil_iff_owned]
  have hstart : Kept [] (⟨[], []⟩ : Scratch Name) := ⟨rfl, fun m hm => hm⟩
  have hsteps : env.prepared = none → Tells (Job.fates ⟨engine, params, env⟩) (Kept [])
      (Job.steps ⟨engine, params, env⟩) (fun _ s => s.Owned) := by
    intro hprepared
    cases engine with
    | sdcpp => exact tells_dispatchImage hprepared
    | onnx => exact tells_dispatchRemoval hprepared
  rcases hprepared : env.prepared with _ | e
  · have htells := hsteps hprepared _ hstart
    rw [forall_prop_of_true rfl]
    revert htells
    rcases Job.steps ⟨engine, params, env⟩ ⟨[], []⟩ with ⟨_ | _, s⟩
    · exact fun h => h
    · exact fun h => iff_of_true h.2 h.1.2
  · refine iff_of_true ?_ fun h => by cases h
    cases engine with
    | sdcpp =>
      show Scratch.Owned (dispatchImage params env ⟨[], []⟩).2
      rw [dispatchImage, hprepared]
      exact hstart.owned
    | onnx =>
      show Scratch.Owned (dispatchRemoval params env ⟨[], []⟩).2
      rw [dispatchRemoval, hprepared]
      rcases params.initImageUrl with _ | _ | ⟨c, cs⟩
      · exact hstart.owned
      · exact hstart.owned
      rcases params.maskUrl with _ | _ | ⟨d, ds⟩
      · exact hstart.owned
      · exact hstart.owned
      · exact hstart.owned

/-- An input to which nothing happens. -/
def quietInput : Input := ⟨⟨none, none, none, none, none⟩, ⟨none, none, none⟩, none, none, [], none⟩

/-- A write that stops after part of an inline image leaves the file on `sd-cli`, and a `.part` file
that is not renamed is left on both. -/
theorem scratch_left :
    Job.remaining ⟨.sdcpp, ⟨"png".toList, some "data:image/png;base64,AAAA".toList, none, none⟩,
      { prepared := none, init := { quietInput with inline.write := some (true, "disk full".toList) },
        mask := quietInput, reference := quietInput, output := false, run := none,
        readOutput := none }⟩ = [⟨.init, some "webp".toList⟩] ∧
    ∀ engine, ⟨.init, some "part".toList⟩ ∈ Job.remaining ⟨engine,
      ⟨"png".toList, some "https://h/a.png".toList, some "https://h/m.png".toList, none⟩,
      { prepared := none, init := { quietInput with http.rename := some "denied".toList },
        mask := quietInput, reference := quietInput, output := false, run := none,
        readOutput := none }⟩ := by
  refine ⟨by decide, fun engine => ?_⟩
  cases engine with
  | sdcpp => decide
  | onnx => decide

end StudioWorker.ScratchFiles
