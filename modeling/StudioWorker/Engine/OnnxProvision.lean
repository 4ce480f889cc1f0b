import StudioWorker.Engine.Archive
import StudioWorker.Lib.InPlace

/-!
# Engine.OnnxProvision — ONNX Runtime's libraries (`src/engine/onnx_provision.rs`) and `llama-cli`
(`provision` of `src/engine/llama_subprocess.rs`)

Neither keeps a marker: a run takes what has its library's name for the release it wants, and
unpacks that release in place where there is nothing of the name.

* `platformLibFor`, `wantedLib`, `cachedName`, `cacheDir`: which archive, what of it, and where.
* `step`: runs for any releases into one models root, by workers of any version.
* `run_provisioned`: what a run that returns leaves behind its name, over whole histories.
-/

namespace StudioWorker.OnnxProvision

open Archive Lib Lib.InPlace Lib.System

/-! ## Archives -/

inductive OrtFlavour where
  | cpu
  | cuda12
  | cuda13
deriving DecidableEq

def OrtFlavour.name : OrtFlavour → Text
  | cpu => ['c', 'p', 'u']
  | cuda12 => ['c', 'u', 'd', 'a', '1', '2']
  | cuda13 => ['c', 'u', 'd', 'a', '1', '3']

def OrtFlavour.isCuda (flavour : OrtFlavour) : Bool := flavour != cpu

inductive ArchiveKind where
  | tarGz
  | zip

structure PlatformLib where
  asset : Text
  kind : ArchiveKind
  outName : Text

def linux : Text := ['l', 'i', 'n', 'u', 'x']
def macos : Text := ['m', 'a', 'c', 'o', 's']
def windows : Text := ['w', 'i', 'n', 'd', 'o', 'w', 's']
def x86_64 : Text := ['x', '8', '6', '_', '6', '4']
def aarch64 : Text := ['a', 'a', 'r', 'c', 'h', '6', '4']
def onnxruntime : Text := ['o', 'n', 'n', 'x', 'r', 'u', 'n', 't', 'i', 'm', 'e']
def lib : Text := ['l', 'i', 'b']
def so : Text := ['.', 's', 'o']
def dylib : Text := ['.', 'd', 'y', 'l', 'i', 'b']
def dll : Text := ['.', 'd', 'l', 'l']
def providers : Text := ['p', 'r', 'o', 'v', 'i', 'd', 'e', 'r', 's']
def test : Text := ['t', 'e', 's', 't']
def shared : Text := ['s', 'h', 'a', 'r', 'e', 'd']
def cuda : Text := ['c', 'u', 'd', 'a']

/-- The parts of an asset's name before and behind its version. -/
def asset (platform gpu v ext : Text) : Text :=
  onnxruntime ++ '-' :: platform ++ gpu ++ '-' :: v ++ ext

def tgz : Text := ['.', 't', 'g', 'z']
def zip : Text := ['.', 'z', 'i', 'p']

def platformLibFor (os arch : Text) (flavour : OrtFlavour) (v : Text) : Except Text PlatformLib :=
  let gpu : Text :=
    match flavour with
    | .cpu => []
    | .cuda12 => ['-', 'g', 'p', 'u']
    | .cuda13 => ['-', 'g', 'p', 'u', '_', 'c', 'u', 'd', 'a', '1', '3']
  if flavour.isCuda ∧ ¬ ((os = linux ∨ os = windows) ∧ arch = x86_64) then
    .error ("no CUDA build of ONNX Runtime for ".toList ++ os ++ '/' :: arch ++
      " is published upstream".toList)
  else if os = linux ∧ arch = x86_64 then
    .ok ⟨asset ['l', 'i', 'n', 'u', 'x', '-', 'x', '6', '4'] gpu v tgz, .tarGz,
      lib ++ onnxruntime ++ so⟩
  else if os = linux ∧ arch = aarch64 then
    .ok ⟨asset ['l', 'i', 'n', 'u', 'x', '-', 'a', 'a', 'r', 'c', 'h', '6', '4'] [] v tgz,
      .tarGz, lib ++ onnxruntime ++ so⟩
  else if os = macos ∧ arch = aarch64 then
    .ok ⟨asset ['o', 's', 'x', '-', 'a', 'r', 'm', '6', '4'] [] v tgz, .tarGz,
      lib ++ onnxruntime ++ dylib⟩
  else if os = windows ∧ arch = x86_64 then
    .ok ⟨asset ['w', 'i', 'n', '-', 'x', '6', '4'] gpu v zip, .zip, onnxruntime ++ dll⟩
  else if os = windows ∧ arch = aarch64 then
    .ok ⟨asset ['w', 'i', 'n', '-', 'a', 'r', 'm', '6', '4'] [] v zip, .zip, onnxruntime ++ dll⟩
  else
    .error ("the onnx engines have no ONNX Runtime build for ".toList ++ os ++ '/' :: arch ++
      " (none is published upstream); onnx jobs are unsupported on this platform".toList)

def basename (path : Text) : Text :=
  ((path.splitOnP fun c => c == '/' || c == '\\').getLast?.getD path).map Char.toLower

def isSharedLib (base : Text) : Bool := so <:+: base || dylib <:+ base || dll <:+ base

def isMainLib (path : Text) : Bool :=
  let base := basename path
  let isLib := lib ++ onnxruntime <+: base || onnxruntime <+: base
  isLib && isSharedLib base && !decide (providers <:+: base) && !decide (test <:+: base)

/-- Whether a file of the archive is one the flavour needs. -/
def wantedLib (flavour : OrtFlavour) (path : Text) : Bool :=
  let base := basename path
  let provider (name : Text) :=
    onnxruntime ++ '_' :: providers ++ '_' :: name <:+: base && isSharedLib base
  isMainLib path || (flavour.isCuda && (provider shared || provider cuda))

def cachedName (path mainName : Text) : Text := if isMainLib path then mainName else basename path

/-- Where a flavour's libraries are, below the models root. -/
def cacheDir (flavour : OrtFlavour) : List Text :=
  match flavour with
  | .cpu => [onnxruntime]
  | gpu => [onnxruntime, gpu.name]

structure TarEntry where
  path : Text
  content : Text
  isFile : Bool

/-- What `extract_targz` writes, in its order. -/
def extractTargz (tar : List TarEntry) (flavour : OrtFlavour) (mainName : Text) : List NamedFile :=
  tar.filterMap fun e =>
    if e.isFile && wantedLib flavour e.path then some (cachedName e.path mainName, e.content)
    else none

/-- What `extract_zip` writes. -/
def extractZip (zip : List ZipEntry) (flavour : OrtFlavour) (mainName : Text) : List NamedFile :=
  zip.filterMap fun e =>
    if e.isFile && wantedLib flavour e.name then some (cachedName e.name mainName, e.content)
    else none

/-! ## Releases -/

/-- What a worker wants: ONNX Runtime of the version it is pinned to in a flavour, or `llama-cli`
from a url. -/
inductive Release where
  | ort (flavour : OrtFlavour) (version : Text)
  | llama (url : Text)
deriving DecidableEq

/-- A platform, and what urls publish. -/
structure Host where
  os : Text
  arch : Text
  tgz : Text → List TarEntry
  zip : Text → List ZipEntry

def releasesUrl : Text :=
  ['h', 't', 't', 'p', 's', ':', '/', '/', 'g', 'i', 't', 'h', 'u', 'b', '.', 'c', 'o', 'm', '/',
   'm', 'i', 'c', 'r', 'o', 's', 'o', 'f', 't', '/', 'o', 'n', 'n', 'x', 'r', 'u', 'n', 't', 'i',
   'm', 'e', '/', 'r', 'e', 'l', 'e', 'a', 's', 'e', 's', '/', 'd', 'o', 'w', 'n', 'l', 'o', 'a',
   'd', '/', 'v']

def bin : Text := ['b', 'i', 'n']

namespace Release

variable (h : Host)

/-- The directory a run for the release provisions. -/
def dir : Release → List Text
  | ort flavour _ => cacheDir flavour
  | llama _ => [bin]

/-- What a worker is pinned to. -/
def version : Release → Text
  | ort _ v => v
  | llama url => url

/-- The library or binary a run for the release returns. -/
def dest : Release → Text
  | ort flavour v =>
    match platformLibFor h.os h.arch flavour v with
    | .ok plat => plat.outName
    | .error _ => []
  | llama _ => llamaCli

/-- The files of the release, in the order of its archive. -/
def files : Release → List NamedFile
  | ort flavour v =>
    match platformLibFor h.os h.arch flavour v with
    | .ok plat =>
      let url := releasesUrl ++ v ++ '/' :: plat.asset
      match plat.kind with
      | .tarGz => extractTargz (h.tgz url) flavour plat.outName
      | .zip => extractZip (h.zip url) flavour plat.outName
    | .error _ => []
  | llama url => unzip (h.zip url)

end Release

/-! ## Runs -/

/-- What is below the models root. -/
abbrev Root := List Text → Dir Text Release Char

inductive Event where
  | ort (flavour : OrtFlavour) (version : Text)
  | llama (url : Text)
  | run (dir : List Text) (i : ℕ) (e : RunEvent)

namespace Root

variable (h : Host)

def new : Root := fun _ => Dir.new

/-- A run for the release starts. -/
def start (s : Root) (w : Release) : Root :=
  Function.update s w.dir ((s w.dir).start (Release.dest h) w)

/-- `provision_flavour` of a worker pinned to the version, up to its download. -/
def provisionFlavour (s : Root) (flavour : OrtFlavour) (v : Text) : Except Text Root :=
  (platformLibFor h.os h.arch flavour v).map fun _ => s.start h (.ort flavour v)

/-- `llama_subprocess::provision`, up to its download. -/
def provision (s : Root) (url : Text) : Root := s.start h (.llama url)

def step (s : Root) : Event → Option Root
  | .ort flavour v =>
    match s.provisionFlavour h flavour v with
    | .ok s' => some s'
    | .error _ => some s
  | .llama url => some (s.provision h url)
  | .run dir i e =>
    ((s dir).step (Release.dest h) (Release.files h) i e).map fun d => Function.update s dir d

/-- Where a run finds its library, its directory was unpacked last for a worker pinned to what its
own worker is, and no run is at work there. -/
def Finds (d : Dir Text Release Char) (w : Release) : Prop :=
  (d.files (w.dest h)).isSome → d.Quiet ∧ d.origin.map Release.version = some w.version

/-- No run finds another version's library, or one that is being written; no run stops between its
first and its last file once the library is there; two do not write into one directory at a time,
and no archive without the library is unpacked beside one. -/
def Safe (s : Root) : Event → Prop
  | .ort flavour v => Finds h (s (cacheDir flavour)) (.ort flavour v)
  | .llama url => Finds h (s [bin]) (.llama url)
  | .run dir i .finished => ∀ r ∈ (s dir).runs[i]?, ∀ w ∈ r.wanted?, Finds h (s dir) w
  | .run dir i e => (s dir).Safe (Release.dest h) (Release.files h) i e

/-! ## What the directories keep -/

variable {h} {s s' : Root} {d d' : Dir Text Release Char} {w w' : Release} {dir : List Text}

/-- Flavours and `llama-cli` are provisioned apart: a directory and a version are one release. -/
theorem eq_of_dir_eq (hdir : w.dir = w'.dir) (hversion : w.version = w'.version) : w = w' := by
  cases w with
  | ort flavour v =>
    cases w' with
    | ort flavour' v' =>
      obtain rfl : v = v' := hversion
      have hflavour : cacheDir flavour = cacheDir flavour' := hdir
      cases flavour <;> cases flavour' <;> first | rfl | exact absurd hflavour (by decide)
    | llama url =>
      have hflavour : cacheDir flavour = [bin] := hdir
      cases flavour <;> exact absurd hflavour (by decide)
  | llama url =>
    cases w' with
    | ort flavour v =>
      have hflavour : [bin] = cacheDir flavour := hdir
      cases flavour <;> exact absurd hflavour (by decide)
    | llama url' => exact congrArg _ hversion

/-- Each directory keeps what one that is filled in place does, for releases that go there. -/
structure Kept (h : Host) (dir : List Text) (d : Dir Text Release Char) : Prop where
  inv : InPlace.Inv (Release.dest h) (Release.files h) d
  only : d.Only fun w => w.dir = dir

theorem Kept.new : Kept h dir Dir.new := ⟨Inv.new, Dir.Only.new⟩

theorem Kept.finds (hk : Kept h dir d) (hw : w.dir = dir) (hfinds : Finds h d w) :
    d.Finds (Release.dest h) w := by
  intro hp
  obtain ⟨hquiet, horigin⟩ := hfinds hp
  obtain ⟨o, ho, hversion⟩ := Option.map_eq_some_iff.mp horigin
  have hdir := hk.only.origin o ho
  exact ⟨hquiet, ho.trans (congrArg some (eq_of_dir_eq (hdir.trans hw.symm) hversion))⟩

theorem Kept.start (hk : Kept h dir d) (hw : w.dir = dir) (hfinds : Finds h d w) :
    Kept h dir (d.start (Release.dest h) w) :=
  ⟨hk.inv.start (hk.finds hw hfinds), hk.only.start hw⟩

theorem Kept.step {i : ℕ} {e : RunEvent} (hk : Kept h dir d)
    (hsafe : d.Safe (Release.dest h) (Release.files h) i e)
    (hs : d.step (Release.dest h) (Release.files h) i e = some d') : Kept h dir d' :=
  ⟨hk.inv.step hsafe hs, hk.only.step hs⟩

/-- One directory changes. -/
theorem forall_update (hk : ∀ dir, Kept h dir (s dir)) (hd : Kept h dir d) :
    ∀ dir', Kept h dir' (Function.update s dir d dir') := by
  intro dir'
  by_cases heq : dir' = dir
  · rw [heq, Function.update_self]
    exact hd
  · rw [Function.update_of_ne heq]
    exact hk dir'

theorem provisionFlavour_ok {flavour : OrtFlavour} {v : Text}
    (hs : s.provisionFlavour h flavour v = .ok s') : s' = s.start h (.ort flavour v) := by
  unfold provisionFlavour at hs
  cases hplat : platformLibFor h.os h.arch flavour v with
  | error err =>
    rw [hplat] at hs
    cases hs
  | ok plat =>
    rw [hplat] at hs
    exact (Except.ok.inj hs).symm

theorem kept_step {e : Event} (hk : ∀ dir, Kept h dir (s dir)) (hsafe : s.Safe h e)
    (hs : s.step h e = some s') : ∀ dir, Kept h dir (s' dir) := by
  cases e with
  | ort flavour v =>
    replace hs : (match s.provisionFlavour h flavour v with
      | .ok s' => some s'
      | .error _ => some s) = some s' := hs
    split at hs
    · rename_i t hstart
      obtain rfl := Option.some.inj hs
      rw [provisionFlavour_ok hstart]
      exact forall_update hk ((hk (cacheDir flavour)).start rfl hsafe)
    · obtain rfl := Option.some.inj hs
      exact hk
  | llama url =>
    obtain rfl := Option.some.inj hs
    exact forall_update hk ((hk [bin]).start rfl hsafe)
  | run dir i e =>
    obtain ⟨d, hd, rfl⟩ := Option.map_eq_some_iff.mp hs
    refine forall_update hk ((hk dir).step ?_ hd)
    cases e with
    | finished =>
      exact fun r hr w hw =>
        (hk dir).finds ((hk dir).only.runs r (List.mem_of_getElem? hr) w hw) (hsafe r hr w hw)
    | fetched | writing | written | stopped => exact hsafe

/-- Over any history without an unsafe step, of workers of any versions: what a run returned is the
library of the release and flavour its worker wants, in the directory of that flavour, and every
file the release has for it is beside it, whole. -/
theorem run_provisioned (h : Host) {es : List Event} (hr : run (step h) new es = some s)
    (hsafe : Along (step h) (Safe h) new es) (dir : List Text) :
    ∀ n ∈ (s dir).notes, n.wanted.dir = dir ∧
      Provisioned (Release.dest h) (Release.files h) n.files n.wanted := by
  have hk : ∀ dir, Kept h dir (s dir) :=
    along_invariant (I := fun s : Root => ∀ dir, Kept h dir (s dir))
      (fun s e t hk hok hs => @kept_step h s t e hk hok hs) es _ _ (fun _ => Kept.new) hsafe hr
  exact fun n hn => ⟨(hk dir).only.notes n hn, (hk dir).inv.notes n hn⟩

instance (h : Host) (d : Dir Text Release Char) (w : Release) : Decidable (Finds h d w) :=
  inferInstanceAs (Decidable (_ → _ ∧ _))

instance (h : Host) (s : Root) : (e : Event) → Decidable (Safe h s e)
  | .ort flavour v => inferInstanceAs (Decidable (Finds h (s (cacheDir flavour)) (.ort flavour v)))
  | .llama url => inferInstanceAs (Decidable (Finds h (s [bin]) (.llama url)))
  | .run dir i .finished =>
    inferInstanceAs (Decidable (∀ r ∈ (s dir).runs[i]?, ∀ w ∈ r.wanted?, Finds h (s dir) w))
  | .run dir i .fetched =>
    inferInstanceAs (Decidable ((s dir).Safe (Release.dest h) (Release.files h) i .fetched))
  | .run dir i (.writing n) =>
    inferInstanceAs (Decidable ((s dir).Safe (Release.dest h) (Release.files h) i (.writing n)))
  | .run dir i .written =>
    inferInstanceAs (Decidable ((s dir).Safe (Release.dest h) (Release.files h) i .written))
  | .run dir i .stopped =>
    inferInstanceAs (Decidable ((s dir).Safe (Release.dest h) (Release.files h) i .stopped))

/-- A host, the files of two versions in the two flavours and of one `llama-cli`. -/
def sample : Host where
  os := linux
  arch := x86_64
  tgz url :=
    let main := if '2' ∈ url then ['3', '4'] else ['1', '2']
    [⟨lib ++ '/' :: lib ++ onnxruntime ++ so, main, true⟩,
      ⟨lib ++ '/' :: lib ++ onnxruntime ++ '_' :: providers ++ '_' :: cuda ++ so, ['5'], true⟩]
  zip _ := [⟨lib ++ so, ['6'], false⟩, ⟨llamaCli, ['7', '8'], false⟩]

/-- A version's libraries for a CUDA host. -/
def firstCuda : List Event :=
  let dir := cacheDir .cuda12
  [.ort .cuda12 ['1'], .run dir 0 .fetched, .run dir 0 (.writing 1), .run dir 0 .written,
    .run dir 0 .written, .run dir 0 .finished]

/-- Beside it, `llama-cli` is killed before its binary and provisioned again; the other version is
wanted for the CPU, and the first one once more for the CUDA host. -/
def mixed : List Event :=
  firstCuda ++ [.llama [], .run [bin] 0 .fetched, .run [bin] 0 .written, .run [bin] 0 .stopped,
    .llama [], .run [bin] 1 .fetched, .run [bin] 1 .written, .run [bin] 1 .written,
    .run [bin] 1 .finished, .ort .cpu ['2'], .run [onnxruntime] 0 .fetched,
    .run [onnxruntime] 0 .written, .run [onnxruntime] 0 .finished, .ort .cuda12 ['1']]

theorem mixed_provisioned : ∃ s, run (step sample) new mixed = some s ∧
    ((s (cacheDir .cuda12)).notes.length = 2 ∧ (s [bin]).notes.length = 1 ∧
      (s [onnxruntime]).notes.length = 1) ∧
    Along (step sample) (Safe sample) new mixed ∧ ∀ n ∈ (s (cacheDir .cuda12)).notes,
      n.wanted.dir = cacheDir .cuda12 ∧
        Provisioned (Release.dest sample) (Release.files sample) n.files n.wanted :=
  exists_run (P := fun s => (s (cacheDir .cuda12)).notes.length = 2 ∧ (s [bin]).notes.length = 1 ∧
      (s [onnxruntime]).notes.length = 1) (by decide)
    fun _ hr hp => ⟨hp, by decide, run_provisioned sample hr (by decide) _⟩

/-- A run is killed while it writes the main library: the next one returns the part there is,
without the provider beside it.  A worker of the next version returns the first one's library. -/
theorem half_and_old_returned :
    (∃ s, run (step sample) new (firstCuda.take 3 ++
        [.run (cacheDir .cuda12) 0 .stopped, .ort .cuda12 ['1']]) = some s ∧
      ∃ n ∈ (s (cacheDir .cuda12)).notes,
        ¬ Provisioned (Release.dest sample) (Release.files sample) n.files n.wanted) ∧
    ∃ s, run (step sample) new (firstCuda ++ [.ort .cuda12 ['2']]) = some s ∧
      ∃ n ∈ (s (cacheDir .cuda12)).notes,
        ¬ Provisioned (Release.dest sample) (Release.files sample) n.files n.wanted := by
  constructor
  · exact exists_run (P := fun s : Root => ∃ n ∈ (s (cacheDir .cuda12)).notes,
      ¬ Provisioned (Release.dest sample) (Release.files sample) n.files n.wanted) (by decide)
      fun _ _ hp => hp
  · exact exists_run (P := fun s : Root => ∃ n ∈ (s (cacheDir .cuda12)).notes,
      ¬ Provisioned (Release.dest sample) (Release.files sample) n.files n.wanted) (by decide)
      fun _ _ hp => hp

end Root

end StudioWorker.OnnxProvision
