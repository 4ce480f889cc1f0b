import Mathlib.Data.List.MinMax
import Mathlib.Data.Prod.Lex
import StudioWorker.Text

/-!
# Release — the release feed and the update taken from it

`src/update.rs` and `src/self_install.rs`.  `decide` looks for the newest version among the
releases that are neither drafts nor prereleases the operator did not opt in to;
`apply_variant_with` then takes the first release of the feed with that version, whatever it is.

* `parse` is `semver::Version::parse`, over any type of versions in their order.
* `applyVariantWith`: the calls an update makes, each with the release it is made for.
* `installs_admitted_iff`: when they are all for a release that `decide` admitted.
-/

namespace StudioWorker.Update

/-! ## The feed -/

structure GithubReleaseAsset where
  name : String
  browserDownloadUrl : String
deriving DecidableEq

structure GithubRelease where
  tagName : String
  prerelease : Bool := false
  draft : Bool := false
  assets : List GithubReleaseAsset := []
deriving DecidableEq

inductive CheckOutcome (V : Type*) where
  | upToDate (current : V)
  | newerAvailable (current latest : V)
deriving DecidableEq

section Decide

variable {V : Type*} (parse : Text → Option V)

/-- The version of a tag: the tag itself, without its `v`, or what follows its last `-v`. -/
def parseTag (tag : String) : Option V :=
  let tag := tag.toList
  [tag, (Text.stripPrefix ['v'] tag).getD tag,
    ((Text.rsplitOnce ['-', 'v'] tag).map (·.2)).getD tag].findSome? parse

/-- Not a draft, and not a prerelease unless the operator opted in. -/
def admitted (prereleaseOk : Bool) (r : GithubRelease) : Bool :=
  !r.draft && (prereleaseOk || !r.prerelease)

variable [LinearOrder V]

def decide (releases : List GithubRelease) (current : V) (prereleaseOk : Bool) : CheckOutcome V :=
  let latest := ((releases.filter (admitted prereleaseOk)).filterMap
    fun r => parseTag parse r.tagName).max?
  match latest with
  | some v => if current < v then .newerAvailable current v else .upToDate current
  | none => .upToDate current

end Decide

/-! ## The installer -/

inductive Variant where
  | cpu
  | cuda
deriving DecidableEq

inductive VariantReason where
  | keepCuda
  | cudaFallback
  | driverFound
  | noDriver
  | noCudaBuild
deriving DecidableEq

structure VariantChoice where
  variant : Variant
  reason : VariantReason
deriving DecidableEq

/-- `INSTALLER_ENV` -/
def installerEnv : String := "STUDIO_WORKER_VARIANT"

def cudaArchiveName (target : String) : String := s!"studio-worker-{target}-cuda.tar.xz"
def archiveAssetName (target : String) : String := s!"studio-worker-{target}.zip"

/-- What the updater knows of its machine; `selfInstall` is whether it replaces its own executable,
`windows` the platform it was built for. -/
structure UpdateHost where
  running : Variant
  target : Option String
  nvidiaDriver : Bool
  selfInstall : Bool
  windows : Bool

def UpdateHost.installerAssetName (host : UpdateHost) : String :=
  if host.windows then "studio-worker-installer.ps1" else "studio-worker-installer.sh"

/-- The URL of a release's asset. -/
def GithubRelease.assetUrl (r : GithubRelease) (name : String) : Option String :=
  (r.assets.find? fun a => a.name == name).map (·.browserDownloadUrl)

def UpdateHost.resolveInstallerUrl (host : UpdateHost) (r : GithubRelease) : Option String :=
  r.assetUrl host.installerAssetName

def UpdateHost.chooseVariant (host : UpdateHost) (r : GithubRelease) : VariantChoice :=
  let cudaShipped := host.target.any fun target =>
    r.assets.any fun a => a.name == cudaArchiveName target
  match host.running, cudaShipped, host.nvidiaDriver with
  | .cuda, true, _ => ⟨.cuda, .keepCuda⟩
  | .cuda, false, _ => ⟨.cpu, .cudaFallback⟩
  | .cpu, true, true => ⟨.cuda, .driverFound⟩
  | .cpu, true, false => ⟨.cpu, .noDriver⟩
  | .cpu, false, _ => ⟨.cpu, .noCudaBuild⟩

/-- The hex digest that leads the first line that is not blank. -/
def parseChecksumFile (text : String) : Option Text := do
  let first ← ((text.toList.splitOn '\n').find? fun l => Text.trim l ≠ [])
  let token := (Text.trimStart first).takeWhile fun c => !Text.isWhitespace c
  if token.length = 64 ∧ token.all fun c => c.isDigit || ('a' ≤ c.toLower && c.toLower ≤ 'f') then
    some (token.map Char.toLower)
  else none

/-- What the world answers an update.  Downloads give the bytes of the file. -/
structure UpdateRunner where
  download : String → Except String (List UInt8)
  fetchChecksum : String → Except String (Option String)
  /-- The running executable moved out of the way; nothing to do outside Windows. -/
  park : Except String Unit
  runInstaller : List UInt8 → Variant → Except String Unit
  /-- A new executable is where the parked one was. -/
  confirmReplaced : Except String Unit
  /-- The binary taken out of the archive and put in place. -/
  place : List UInt8 → Except String Unit
  /-- The digest of a file, in hex. -/
  sha256 : List UInt8 → Text

/-- What an update does, and the release it does it for. -/
inductive RunnerCall where
  | download (r : GithubRelease) (url : String)
  | fetchChecksum (r : GithubRelease) (url : String)
  | runInstaller (r : GithubRelease) (variant : Variant)
  | place (r : GithubRelease)
deriving DecidableEq

def RunnerCall.release : RunnerCall → GithubRelease
  | download r _ | fetchChecksum r _ | runInstaller r _ | place r => r

def verifyFileSha256 (runner : UpdateRunner) (body : List UInt8) (expected : Text) :
    Except String Unit :=
  if runner.sha256 body = expected then .ok () else .error "installer sha256 mismatch"

/-- An installer without a checksum is run; one whose checksum says nothing is not. -/
def verifyInstaller (runner : UpdateRunner) (body : List UInt8) :
    Option String → Except String Unit
  | some text =>
    match parseChecksumFile text with
    | some expected => verifyFileSha256 runner body expected
    | none => .error ("the release publishes an installer checksum sidecar but it contains no " ++
        "parseable sha256 — refusing to run the installer")
  | none => .ok ()

/-- The CUDA build needs a script that reads the variant. -/
def ensureInstallerSupportsVariants (body : List UInt8) : Variant → Except String Unit
  | .cpu => .ok ()
  | .cuda =>
    match String.fromUTF8? ⟨body.toArray⟩ with
    | none => .error "reading installer"
    | some script =>
      if installerEnv.toList <:+: script.toList then .ok ()
      else .error "the release installer does not read STUDIO_WORKER_VARIANT"

/-- The installer script of a release: downloaded, checked, run. -/
def installFrom (host : UpdateHost) (runner : UpdateRunner) (r : GithubRelease) (url : String) :
    List RunnerCall × Except String Unit :=
  let variant := (host.chooseVariant r).variant
  let downloads := [RunnerCall.download r url]
  match runner.download url with
  | .error e => (downloads, .error e)
  | .ok body =>
    let calls := downloads ++ [.fetchChecksum r (url ++ ".sha256")]
    match runner.fetchChecksum (url ++ ".sha256") with
    | .error e => (calls, .error e)
    | .ok sidecar =>
      let checked := do
        verifyInstaller runner body sidecar
        ensureInstallerSupportsVariants body variant
        runner.park
      match checked with
      | .error e => (calls, .error e)
      | .ok () =>
        (calls ++ [.runInstaller r variant],
          match runner.runInstaller body variant with
          | .ok () => runner.confirmReplaced
          | .error e => .error e)

/-- `self_install`: the release's archive, downloaded, checked and put in place. -/
def selfInstallFrom (runner : UpdateRunner) (r : GithubRelease) (url : String) :
    List RunnerCall × Except String Unit :=
  let downloads := [RunnerCall.download r url]
  match runner.download url with
  | .error e => (downloads, .error e)
  | .ok body =>
    let calls := downloads ++ [.fetchChecksum r (url ++ ".sha256")]
    match runner.fetchChecksum (url ++ ".sha256") with
    | .error e => (calls, .error e)
    | .ok none => (calls, .error "the release publishes no checksum; refusing to install it")
    | .ok (some text) =>
      match parseChecksumFile text with
      | none => (calls, .error "the checksum sidecar holds no sha256; refusing to install it")
      | some expected =>
        match verifyFileSha256 runner body expected with
        | .error e => (calls, .error e)
        | .ok () => (calls ++ [.place r], runner.place body)

/-- The asset of a release that this host takes. -/
def UpdateHost.assetUrl (host : UpdateHost) (r : GithubRelease) : Option String :=
  if host.selfInstall then host.target.bind fun target => r.assetUrl (archiveAssetName target)
  else host.resolveInstallerUrl r

section Apply

variable {V : Type*} [DecidableEq V] (parse : Text → Option V)

/-- The first release of the feed with version `latest`. -/
def releaseFor (releases : List GithubRelease) (latest : V) : Option GithubRelease :=
  releases.find? fun r => parseTag parse r.tagName = some latest

def applyVariantWith (host : UpdateHost) (runner : UpdateRunner) (releases : List GithubRelease)
    (latest : V) : List RunnerCall × Except String Unit :=
  match releaseFor parse releases latest with
  | none => ([], .error "release not present in feed")
  | some r =>
    if host.selfInstall then
      match host.target with
      | none => ([], .error "this build names no release target to update from")
      | some target =>
        match r.assetUrl (archiveAssetName target) with
        | none => ([], .error s!"release {r.tagName} has no {archiveAssetName target}")
        | some url => selfInstallFrom runner r url
    else
      match host.resolveInstallerUrl r with
      | none => ([], .error s!"release is missing installer asset {host.installerAssetName}")
      | some url => installFrom host runner r url

end Apply

/-! ## What an update takes -/

variable {host : UpdateHost} {runner : UpdateRunner} {r : GithubRelease} {url : String}

/-- The installer is downloaded, and every call is for its release. -/
theorem installFrom_calls :
    ∃ calls, (installFrom host runner r url).1 = .download r url :: calls ∧
      ∀ c ∈ calls, c.release = r := by
  unfold installFrom
  cases runner.download url with
  | error e => exact ⟨[], rfl, by simp⟩
  | ok body =>
    dsimp only
    split
    · exact ⟨_, rfl, by simp [RunnerCall.release]⟩
    · split
      · exact ⟨_, rfl, by simp [RunnerCall.release]⟩
      · exact ⟨_, rfl, by simp [RunnerCall.release]⟩

theorem selfInstallFrom_calls :
    ∃ calls, (selfInstallFrom runner r url).1 = .download r url :: calls ∧
      ∀ c ∈ calls, c.release = r := by
  unfold selfInstallFrom
  cases runner.download url with
  | error e => exact ⟨[], rfl, by simp⟩
  | ok body =>
    dsimp only
    split
    · exact ⟨_, rfl, by simp [RunnerCall.release]⟩
    · exact ⟨_, rfl, by simp [RunnerCall.release]⟩
    · split
      · exact ⟨_, rfl, by simp [RunnerCall.release]⟩
      · split
        · exact ⟨_, rfl, by simp [RunnerCall.release]⟩
        · exact ⟨_, rfl, by simp [RunnerCall.release]⟩

section Apply

variable {V : Type*} [DecidableEq V] {parse : Text → Option V} {releases : List GithubRelease}
  {latest : V}

/-- An update makes calls for one release, the first with the version, and only where that has the
asset this host takes. -/
theorem applyVariantWith_calls (hr : releaseFor parse releases latest = some r) :
    (host.assetUrl r = none → (applyVariantWith parse host runner releases latest).1 = []) ∧
      (∀ url, host.assetUrl r = some url →
        ∃ calls, (applyVariantWith parse host runner releases latest).1 =
          .download r url :: calls ∧ ∀ c ∈ calls, c.release = r) := by
  unfold applyVariantWith UpdateHost.assetUrl
  rw [hr]
  dsimp only
  split_ifs with hself
  · cases ht : host.target with
    | none => exact ⟨fun _ => rfl, fun url hurl => by cases hurl⟩
    | some target =>
      dsimp only
      rw [Option.bind_some]
      cases ha : r.assetUrl (archiveAssetName target) with
      | none => exact ⟨fun _ => rfl, fun url hurl => by cases hurl⟩
      | some u =>
        refine ⟨fun hnone => (by cases hnone), fun url hurl => ?_⟩
        cases hurl
        exact selfInstallFrom_calls
  · cases ha : host.resolveInstallerUrl r with
    | none => exact ⟨fun _ => rfl, fun url hurl => by cases hurl⟩
    | some u =>
      refine ⟨fun hnone => (by cases hnone), fun url hurl => ?_⟩
      cases hurl
      exact installFrom_calls

/-- The first release with a version, as the feed shows it. -/
theorem releaseFor_some : releaseFor parse releases latest = some r ↔
    parseTag parse r.tagName = some latest ∧ ∃ before after, releases = before ++ r :: after ∧
      ∀ b ∈ before, parseTag parse b.tagName ≠ some latest := by
  unfold releaseFor
  rw [List.find?_eq_some_iff_append]
  simp

end Apply

section Decide

variable {V : Type*} [LinearOrder V] {parse : Text → Option V} {releases : List GithubRelease}
  {current current' latest : V} {prereleaseOk : Bool}

/-- The version `decide` reports is that of a release it admitted. -/
theorem decide_admitted
    (h : decide parse releases current prereleaseOk = .newerAvailable current' latest) :
    ∃ r ∈ releases, admitted prereleaseOk r = true ∧ parseTag parse r.tagName = some latest := by
  unfold decide at h
  dsimp only at h
  split at h
  · next v hv =>
    split_ifs at h
    cases h
    have hmem := List.max?_mem hv
    obtain ⟨r, hr, hparse⟩ := List.mem_filterMap.mp hmem
    obtain ⟨hin, hadmitted⟩ := List.mem_filter.mp hr
    exact ⟨r, hin, hadmitted, hparse⟩
  · cases h

/-- An update takes only what `decide` admitted exactly when the first release with the version it
found is admitted, or has nothing that this host takes. -/
theorem installs_admitted_iff (host : UpdateHost) (runner : UpdateRunner)
    (h : decide parse releases current prereleaseOk = .newerAvailable current' latest) :
    (∀ c ∈ (applyVariantWith parse host runner releases latest).1,
        admitted prereleaseOk c.release = true ∧ parseTag parse c.release.tagName = some latest) ↔
      ∀ before r after, releases = before ++ r :: after →
        parseTag parse r.tagName = some latest →
        (∀ b ∈ before, parseTag parse b.tagName ≠ some latest) →
          admitted prereleaseOk r = true ∨ host.assetUrl r = none := by
  obtain ⟨a, ha, -, hparse⟩ := decide_admitted h
  have hfound : (releaseFor parse releases latest).isSome = true := by
    unfold releaseFor
    rw [List.find?_isSome]
    exact ⟨a, ha, by simpa using hparse⟩
  obtain ⟨first, hfirst⟩ := Option.isSome_iff_exists.mp hfound
  obtain ⟨hversion, before, after, hsplit, hbefore⟩ := releaseFor_some.mp hfirst
  obtain ⟨hnone, hsome⟩ := @applyVariantWith_calls host runner _ _ _ _ _ _ hfirst
  constructor
  · intro hall pre r post hreleases hr hpre
    have hsame : releaseFor parse releases latest = some r :=
      releaseFor_some.mpr ⟨hr, pre, post, hreleases, hpre⟩
    rw [hfirst] at hsame
    cases hsame
    cases hurl : host.assetUrl first with
    | none => exact .inr rfl
    | some url =>
      obtain ⟨calls, hcalls, -⟩ := hsome url hurl
      have hdownload := hall (.download first url) (hcalls ▸ List.mem_cons_self)
      exact .inl hdownload.1
  · intro hcond c hc
    rcases hcond before first after hsplit hversion hbefore with hadmitted | hasset
    · cases hurl : host.assetUrl first with
      | none =>
        rw [hnone hurl] at hc
        cases hc
      | some url =>
        obtain ⟨calls, hcalls, hrelease⟩ := hsome url hurl
        rw [hcalls] at hc
        have hfor : c.release = first := by
          rcases List.mem_cons.mp hc with rfl | hc
          · rfl
          · exact hrelease c hc
        rw [hfor]
        exact ⟨hadmitted, hversion⟩
    · rw [hnone hasset] at hc
      cases hc

end Decide

/-! ## Two releases of one version -/

/-- A number without leading zeros. -/
def numericPart (t : Text) : Option ℕ :=
  if t ≠ [] ∧ t.all Char.isDigit ∧ (t.head? = some '0' → t = ['0']) then
    some (t.foldl (fun n c => 10 * n + (c.toNat - '0'.toNat)) 0)
  else none

/-- The versions without a pre-release or build part. -/
def plainVersion (t : Text) : Option (ℕ ×ₗ ℕ ×ₗ ℕ) :=
  match (t.splitOn '.').map numericPart with
  | [some major, some minor, some patch] => some (toLex (major, toLex (minor, patch)))
  | _ => none

/-- Version 1.1.0 with an installer script. -/
def release110 (draft : Bool) (url : String) : GithubRelease where
  tagName := "studio-worker-v1.1.0"
  draft := draft
  assets := [⟨"studio-worker-installer.sh", url⟩]

def linuxHost : UpdateHost := ⟨.cpu, some "x86_64-unknown-linux-gnu", false, false, false⟩

def willingRunner : UpdateRunner where
  download _ := .ok []
  fetchChecksum _ := .ok none
  park := .ok ()
  runInstaller _ _ := .ok ()
  confirmReplaced := .ok ()
  place _ := .ok ()
  sha256 _ := []

/-- A draft behind the release changes nothing. -/
theorem installs_admitted_before_draft :
    let feed := [release110 false "https://github.com/a", release110 true "https://github.com/b"]
    ∀ c ∈ (applyVariantWith plainVersion linuxHost willingRunner feed
        (toLex (1, toLex (1, 0)))).1,
      admitted false c.release = true ∧
        parseTag plainVersion c.release.tagName = some (toLex (1, toLex (1, 0))) := by
  have hdecide : decide plainVersion
      [release110 false "https://github.com/a", release110 true "https://github.com/b"]
      (toLex (1, toLex (0, 0))) false =
        .newerAvailable (toLex (1, toLex (0, 0))) (toLex (1, toLex (1, 0))) := by decide
  refine (installs_admitted_iff linuxHost willingRunner hdecide).mpr ?_
  intro before r after hsplit hr hbefore
  cases before with
  | nil =>
    obtain ⟨rfl, -⟩ := List.cons.inj hsplit
    exact .inl rfl
  | cons b before =>
    obtain ⟨rfl, -⟩ := List.cons.inj hsplit
    exact absurd (by decide) (hbefore _ List.mem_cons_self)

/-- A draft of the same version in front is what the update runs. -/
theorem draft_in_front_runs :
    ¬ ∀ (host : UpdateHost) (runner : UpdateRunner) (releases : List GithubRelease)
        (current current' latest : ℕ ×ₗ ℕ ×ₗ ℕ) (prereleaseOk : Bool),
      decide plainVersion releases current prereleaseOk = .newerAvailable current' latest →
        ∀ c ∈ (applyVariantWith plainVersion host runner releases latest).1,
          admitted prereleaseOk c.release = true ∧
            parseTag plainVersion c.release.tagName = some latest := by
  intro h
  have hrun := h linuxHost willingRunner
    [release110 true "https://github.com/b", release110 false "https://github.com/a"]
    (toLex (1, toLex (0, 0))) (toLex (1, toLex (0, 0))) (toLex (1, toLex (1, 0))) false
    (by decide) (.runInstaller (release110 true "https://github.com/b") .cpu)
    (by decide)
  exact absurd hrun.1 (by decide)

end StudioWorker.Update
