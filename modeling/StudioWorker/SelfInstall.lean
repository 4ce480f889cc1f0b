import Mathlib.Logic.Function.Basic
import StudioWorker.Engine.Archive
import StudioWorker.Lib.Fallible
import StudioWorker.Lib.Steps
import StudioWorker.Release

/-!
# SelfInstall — the running binary replaced in place (`src/self_install.rs`, `src/update.rs`)

The four files a self-install touches are different ones and nobody else touches them.  The outside
world, and whether each step works, is an argument; a step that fails may leave part of a file.  The
digest of a file, in hex, and the entries of a zip are parameters.

* `selfInstall`: as in the source, `ExeReplaceGuard` being `park`, `confirmReplaced`, `rollback`.
* `Lawful`: an error leaves the old binary, and `Ok` the release's own.
* `selfInstall_lawful_iff`: that is so exactly when making the new binary executable does not fail.
-/

namespace StudioWorker.SelfInstall

open Lib Lib.Steps Update

abbrev Bytes := List UInt8

/-- The files, by their part in it. -/
inductive Place where
  | exe
  | parked
  | archive
  | binary
deriving DecidableEq, Repr

abbrev Files := Place → Option Bytes

/-- An error and its causes, the outermost first. -/
abbrev Error := List String

/-- An entry of a zip: its path where that stays inside, and its content, or how much of it can be
read. -/
structure Entry where
  enclosedName : Option Text
  content : Except (Bytes × String) Bytes

/-- What is relied on of other crates. -/
structure Crates where
  sha256 : Bytes → Text
  unzip : Bytes → Except String (List (Except String Entry))

inductive Platform where
  | unix
  | windows
deriving DecidableEq

/-- What a download leaves at its destination. -/
inductive Download where
  | stored (body : Bytes)
  | broken (written : Option Bytes) (e : String)

/-- What each step comes to; a step with no error works. -/
structure Env where
  platform : Platform
  display : Place → String
  workFolder : Option String
  download : String → Download
  fetchChecksum : String → Except String (Option String)
  hashing : Option String
  opening : Option String
  creating : Option String
  /-- What was written before the copy stopped, and why it did. -/
  extracting : Option (Bytes × String)
  removing : Option String
  parking : Option String
  /-- What is at the destination after a copy that stopped, and why it did. -/
  placing : Option (Option Bytes × String)
  /-- What `is_file` says of a file. -/
  isFile : Bool
  restoring : Option String
  permissions : Option String

def binaryName : Platform → Text
  | .windows => "studio-worker.exe".toList
  | .unix => "studio-worker".toList

def notFound : String := "No such file or directory (os error 2)"

def readFile (place : Place) (context : String) : Steps Files Error Bytes := fun s =>
  match s place with
  | some body => (.ok body, s)
  | none => (.error [context, notFound], s)

/-- `std::fs::rename` -/
def rename (failure : Option String) (source target : Place) (context : String) :
    Steps Files Error Unit := fun s =>
  match failure, s source with
  | some e, _ => (.error [context, e], s)
  | none, none => (.error [context, notFound], s)
  | none, some body =>
    (.ok (), Function.update (Function.update s target (some body)) source none)

section Install

variable (crates : Crates) (env : Env)

def download (url : String) : Steps Files Error Unit := fun s =>
  match env.download url with
  | .stored body => (.ok (), Function.update s .archive (some body))
  | .broken written e => (.error [e], Function.update s .archive written)

def fetchChecksum (url : String) : Steps Files Error (Option String) :=
  match env.fetchChecksum url with
  | .ok sidecar => pure sidecar
  | .error e => fail [e]

/-- `verify_file_sha256` -/
def verifyFileSha256 (expected : Text) : Steps Files Error Unit := do
  let body ← readFile .archive ("opening " ++ env.display .archive ++ " for hashing")
  works (env.hashing.map fun e => ["hashing " ++ env.display .archive, e])
  if Text.eqIgnoreAsciiCase (crates.sha256 body) (Text.trim expected) then pure ()
  else fail ["installer sha256 mismatch: downloaded file hashes to " ++
    String.ofList (crates.sha256 body) ++ " but the release publishes " ++ String.ofList expected ++
    " (corrupted or tampered download)"]

/-- Whether a zip's entry can be read and has the file name `name`. -/
def named (name : Text) : Except String Entry → Bool
  | .ok entry => (entry.enclosedName.bind Archive.fileName) == some name
  | .error _ => false

def ofExcept {α : Type} (context : Error) : Except String α → Steps Files Error α
  | .ok a => pure a
  | .error e => fail (context ++ [e])

/-- `io::copy` of an entry into the file created for it. -/
def extract (entry : Entry) : Steps Files Error Unit := fun s =>
  match entry.content, env.extracting with
  | .error (written, e), _ | .ok _, some (written, e) =>
    (.error ["extracting the new binary", e], Function.update s .binary (some written))
  | .ok content, none => (.ok (), Function.update s .binary (some content))

/-- `extract_named_file` -/
def extractNamedFile (name : Text) : Steps Files Error Unit := do
  let context := "opening the release archive " ++ env.display .archive
  works (env.opening.map fun e => [context, e])
  let body ← readFile .archive context
  let zip ← ofExcept ["reading the release archive"] (crates.unzip body)
  let found ← need (zip.find? (named name)) ["the release archive holds no " ++ String.ofList name]
  let entry ← ofExcept [] found
  works (env.creating.map fun e => ["writing the new binary to " ++ env.display .binary, e])
  extract env entry

/-- What comes before the running binary is touched: download, verify, extract. -/
def fetch (release : GithubRelease) (target : String) : Steps Files Error Unit := do
  let asset := archiveAssetName target
  let url ← need (release.assetUrl asset) ["release " ++ release.tagName ++ " has no " ++ asset]
  works (env.workFolder.map fun e => ["creating a working folder for the update", e])
  download env url
  -- a self-install verifies or refuses: there is no installer to fall back on
  let sidecar ← fetchChecksum env (url ++ ".sha256")
  let text ← need sidecar ["release " ++ release.tagName ++ " publishes no checksum for " ++ asset ++
    "; refusing to install it"]
  let expected ← need (parseChecksumFile text) ["the checksum sidecar for " ++ asset ++
    " holds no sha256; refusing to install it"]
  verifyFileSha256 crates env expected
  extractNamedFile crates env (binaryName env.platform)

/-- A parked binary of a previous update is removed. -/
def removeStale : Steps Files Error Unit := fun s =>
  if (s .parked).isSome then
    match env.removing with
    | some e => (.error ["removing stale parked binary " ++ env.display .parked, e], s)
    | none => (.ok (), Function.update s .parked none)
  else (.ok (), s)

/-- `ExeReplaceGuard::park` -/
def park : Steps Files Error Unit := do
  removeStale env
  rename env.parking .exe .parked
    ("parking running binary " ++ env.display .exe ++ " -> " ++ env.display .parked)

/-- `std::fs::copy` of the new binary. -/
def place : Steps Files Error Unit := fun s =>
  let context := "placing the new binary at " ++ env.display .exe
  match s .binary, env.placing with
  | none, _ => (.error [context, notFound], s)
  | some _, some (written, e) => (.error [context, e], Function.update s .exe written)
  | some body, none => (.ok (), Function.update s .exe (some body))

/-- `ExeReplaceGuard::confirm_replaced` -/
def confirmReplaced : Steps Files Error Unit := fun s =>
  if env.isFile && (s .exe).isSome then (.ok (), s)
  else (.error ["installer did not write a new binary at " ++ env.display .exe ++
    " (custom install dir?)"], s)

/-- `ExeReplaceGuard::rollback` -/
def rollback : Steps Files Error Unit :=
  rename env.restoring .parked .exe
    ("restoring parked binary " ++ env.display .parked ++ " -> " ++ env.display .exe)

/-- The new binary put where the parked one was, or that one put back; a failure to put it back is
logged. -/
def replace : Steps Files Error Unit :=
  catching (do place env; confirmReplaced env) fun error => do
    catching (rollback env) fun _ => pure ()
    fail error

def makeExecutable : Steps Files Error Unit :=
  if env.platform = .unix then
    works (env.permissions.map fun e => ["making " ++ env.display .exe ++ " executable", e])
  else pure ()

/-- `self_install` -/
def selfInstall (release : GithubRelease) (target : String) : Steps Files Error Unit := do
  fetch crates env release target
  park env
  replace env
  makeExecutable env

/-! ## What is promised -/

/-- The binary of an archive: that of its first entry with the name, if all of it can be read. -/
def binaryOf (name : Text) (archive : Bytes) : Option Bytes := do
  let zip ← (crates.unzip archive).toOption
  let found ← zip.find? (named name)
  let entry ← found.toOption
  entry.content.toOption

/-- The binary of the release's archive, whose digest is the one of the release's sidecar. -/
def Released (release : GithubRelease) (target : String) (binary : Bytes) : Prop :=
  ∃ url archive text expected, release.assetUrl (archiveAssetName target) = some url ∧
    env.download url = .stored archive ∧
    env.fetchChecksum (url ++ ".sha256") = .ok (some text) ∧
    parseChecksumFile text = some expected ∧
    Text.eqIgnoreAsciiCase (crates.sha256 archive) (Text.trim expected) = true ∧
    binaryOf crates (binaryName env.platform) archive = some binary

/-- An error leaves the file at the executable's path as it was, and `Ok` the release's binary. -/
def Lawful (release : GithubRelease) (target : String) (files : Files) : Prop :=
  match selfInstall crates env release target files with
  | (.error _, after) => after .exe = files .exe
  | (.ok (), after) => ∃ binary, Released crates env release target binary ∧
      after .exe = some binary

/-- The new binary is fetched, for which all of these steps work. -/
structure Fetched (release : GithubRelease) (target : String) (binary : Bytes) : Prop where
  released : Released crates env release target binary
  workFolder : env.workFolder = none
  hashing : env.hashing = none
  opening : env.opening = none
  creating : env.creating = none
  extracting : env.extracting = none

/-- The new binary is put in place, for which these steps work too. -/
structure Placed (release : GithubRelease) (target : String) (files : Files) (binary : Bytes) :
    Prop where
  fetched : Fetched crates env release target binary
  removing : (files .parked).isSome → env.removing = none
  exe : (files .exe).isSome
  parking : env.parking = none
  placing : env.placing = none
  isFile : env.isFile = true

/-- Where the new binary is put in place and cannot be made executable, it is the old one. -/
def Lasting (release : GithubRelease) (target : String) (files : Files) : Prop :=
  env.platform = .unix → env.permissions ≠ none →
    ∀ binary, Placed crates env release target files binary → files .exe = some binary

/-! ## What each part does -/

/-- The running binary and the parked one are as they were. -/
def Before (files s : Files) : Prop := s .exe = files .exe ∧ s .parked = files .parked

section Fetch

variable {files : Files}

theorem triple_readFile {pre : Files → Prop} {place : Place} {context : String} :
    Triple pre (readFile place context) (fun body s => s place = some body ∧ pre s)
      (fun _ => pre) := by
  intro s hs
  rw [readFile]
  cases h : s place with
  | none => exact hs
  | some body => exact ⟨h, hs⟩

theorem triple_ofExcept {α : Type} {pre : Files → Prop} {context : Error} {r : Except String α} :
    Triple pre (ofExcept context r) (fun a s => r = .ok a ∧ pre s) (fun _ => pre) := by
  intro s hs
  cases r with
  | ok a => exact ⟨rfl, hs⟩
  | error e => exact hs

theorem triple_download {pre : Files → Prop} {url : String}
    (hpre : ∀ s body, pre s → pre (Function.update s .archive body)) :
    Triple pre (download env url)
      (fun _ s => ∃ body, env.download url = .stored body ∧ s .archive = some body ∧ pre s)
      (fun _ => pre) := by
  intro s hs
  rw [download]
  cases h : env.download url with
  | stored body => exact ⟨body, rfl, Function.update_self _ _ _, hpre s _ hs⟩
  | broken written e => exact hpre s _ hs

theorem triple_fetchChecksum {pre : Files → Prop} {url : String} :
    Triple pre (fetchChecksum env url)
      (fun sidecar s => env.fetchChecksum url = .ok sidecar ∧ pre s) (fun _ => pre) := by
  intro s hs
  rw [fetchChecksum]
  cases h : env.fetchChecksum url with
  | ok sidecar => exact ⟨rfl, hs⟩
  | error e => exact hs

theorem before_update {s : Files} {p : Place} (hexe : p ≠ .exe) (hparked : p ≠ .parked)
    (h : Before files s) (body : Option Bytes) : Before files (Function.update s p body) := by
  rw [Before, Function.update_of_ne hexe.symm, Function.update_of_ne hparked.symm]
  exact h

/-- It is verified against the digest, which leaves everything as it was. -/
theorem triple_verify {pre : Files → Prop} {expected : Text} :
    Triple pre (verifyFileSha256 crates env expected)
      (fun _ s => env.hashing = none ∧ (∃ body, s .archive = some body ∧
        Text.eqIgnoreAsciiCase (crates.sha256 body) (Text.trim expected) = true) ∧ pre s)
      (fun _ => pre) := by
  refine triple_bind (triple_mono triple_readFile (fun _ h => h) (fun _ _ h => h) fun _ _ h => h)
    fun body => ?_
  refine triple_bind (triple_works fun _ _ h => h.2) fun _ => ?_
  rintro s ⟨hhashing, harchive, hs⟩
  by_cases hsame : Text.eqIgnoreAsciiCase (crates.sha256 body) (Text.trim expected) = true
  · rw [if_pos hsame]
    exact ⟨Option.map_eq_none_iff.mp hhashing, ⟨body, harchive, hsame⟩, hs⟩
  · rw [if_neg hsame]
    exact hs

/-- The entry is taken out of the archive, which leaves what does not ask for it. -/
theorem triple_extract {pre : Files → Prop} {name : Text}
    (hpre : ∀ s body, pre s → pre (Function.update s .binary body)) :
    Triple pre (extractNamedFile crates env name)
      (fun _ s => env.opening = none ∧ env.creating = none ∧ env.extracting = none ∧
        (∃ archive binary, s .archive = some archive ∧ binaryOf crates name archive = some binary ∧
          s .binary = some binary) ∧ pre s)
      (fun _ => pre) := by
  refine triple_bind (triple_works fun _ _ h => h) fun _ => ?_
  refine triple_bind (triple_mono triple_readFile (fun _ h => h) (fun _ _ h => h) fun _ _ h => h.2)
    fun archive => ?_
  refine triple_bind (triple_mono triple_ofExcept (fun _ h => h) (fun _ _ h => h)
    fun _ _ h => h.2.2) fun zip => ?_
  refine triple_bind (triple_need fun _ h => h.2.2.2) fun found => ?_
  refine triple_bind (triple_mono triple_ofExcept (fun _ h => h) (fun _ _ h => h)
    fun _ _ h => h.2.2.2.2) fun entry => ?_
  refine triple_bind (triple_works fun _ _ h => h.2.2.2.2.2) fun _ => ?_
  rintro s ⟨hcreating, rfl, hfound, hzip, harchive, hopening, hs⟩
  rw [extract]
  cases hcontent : entry.content with
  | error stopped => exact hpre s _ hs
  | ok content =>
    cases hextracting : env.extracting with
    | some stopped => exact hpre s _ hs
    | none =>
      have hbinary : binaryOf crates name archive = some content := by
        rw [binaryOf, hzip]
        show (zip.find? (named name)).bind _ = _
        rw [hfound]
        show entry.content.toOption = _
        rw [hcontent]
        rfl
      exact ⟨Option.map_eq_none_iff.mp hopening, Option.map_eq_none_iff.mp hcreating, rfl,
        ⟨archive, content, harchive, hbinary, Function.update_self _ _ _⟩, hpre s _ hs⟩

/-- A failure before the running binary is touched leaves it; else the release's binary is there. -/
theorem triple_fetch (release : GithubRelease) (target : String) :
    Triple (Before files) (fetch crates env release target)
      (fun _ s => ∃ binary, Fetched crates env release target binary ∧ s .binary = some binary ∧
        Before files s) (fun _ => Before files) := by
  refine triple_bind (triple_need fun _ h => h) fun url => ?_
  refine triple_bind (triple_works fun _ _ h => h.2) fun _ => ?_
  refine triple_bind (triple_mono (triple_download env fun s body h =>
    ⟨h.1, h.2.1, before_update (by decide) (by decide) h.2.2 body⟩) (fun _ h => h) (fun _ _ h => h)
    fun _ _ h => h.2.2) fun _ => ?_
  refine triple_bind (triple_mono (triple_fetchChecksum env) (fun _ h => h) (fun _ _ h => h)
    fun _ _ h => ?_) fun sidecar => ?_
  · obtain ⟨-, -, -, -, -, hbefore⟩ := h
    exact hbefore
  refine triple_bind (triple_need fun _ h => ?_) fun text => ?_
  · obtain ⟨-, -, -, -, -, -, hbefore⟩ := h
    exact hbefore
  refine triple_bind (triple_need fun _ h => ?_) fun expected => ?_
  · obtain ⟨-, -, -, -, -, -, -, hbefore⟩ := h
    exact hbefore
  refine triple_bind (triple_mono (triple_verify crates env) (fun _ h => h) (fun _ _ h => h)
    fun _ _ h => ?_) fun _ => ?_
  · obtain ⟨-, -, -, -, -, -, -, -, hbefore⟩ := h
    exact hbefore
  refine triple_mono (triple_extract crates env fun s body h => ?_) (fun _ h => h)
    (fun _ s h => ?_) fun _ _ h => ?_
  · obtain ⟨hhashing, hverified, hexpected, htext, hsidecar, archive, hdownload, harchive, hwork,
      hurl, hbefore⟩ := h
    exact ⟨hhashing, hverified, hexpected, htext, hsidecar, archive, hdownload, harchive, hwork,
      hurl, before_update (by decide) (by decide) hbefore body⟩
  · obtain ⟨hopening, hcreating, hextracting, ⟨archive', binary, harchive', hbinary, hthere⟩,
      hhashing, ⟨archive'', harchive'', hsame⟩, hexpected, rfl, hsidecar, archive, hdownload,
      harchive, hwork, hurl, hbefore⟩ := h
    obtain rfl := Option.some_inj.mp (harchive'.symm.trans harchive)
    obtain rfl := Option.some_inj.mp (harchive''.symm.trans harchive)
    exact ⟨binary, ⟨⟨url, _, text, expected, hurl, hdownload, hsidecar, hexpected, hsame, hbinary⟩,
      Option.map_eq_none_iff.mp hwork, hhashing, hopening, hcreating, hextracting⟩, hthere, hbefore⟩
  · obtain ⟨-, -, -, -, -, -, -, -, -, -, hbefore⟩ := h
    exact hbefore

theorem binaryOf_eq_some {name : Text} {archive binary : Bytes}
    (h : binaryOf crates name archive = some binary) : ∃ zip entry,
      crates.unzip archive = .ok zip ∧ zip.find? (named name) = some (.ok entry) ∧
        entry.content = .ok binary := by
  rw [binaryOf] at h
  obtain ⟨zip, hzip, h⟩ := Option.bind_eq_some_iff.mp h
  obtain ⟨found, hfound, h⟩ := Option.bind_eq_some_iff.mp h
  obtain ⟨entry, hentry, h⟩ := Option.bind_eq_some_iff.mp h
  refine ⟨zip, entry, Fallible.toOption_eq_some hzip, ?_, Fallible.toOption_eq_some h⟩
  rw [hfound, Fallible.toOption_eq_some hentry]

/-- Where every step works, the binary is fetched. -/
theorem fetch_of_fetched {release : GithubRelease} {target : String} {binary : Bytes}
    (h : Fetched crates env release target binary) : ∃ s,
      fetch crates env release target files = (.ok (), s) ∧ s .binary = some binary := by
  obtain ⟨⟨url, archive, text, expected, hurl, hdownload, hsidecar, hexpected, hsame, hbinary⟩,
    hwork, hhashing, hopening, hcreating, hextracting⟩ := h
  obtain ⟨zip, entry, hzip, hfound, hcontent⟩ := binaryOf_eq_some crates hbinary
  simp [fetch, need, works, hurl, hwork, download, hdownload, fetchChecksum, hsidecar, hexpected,
    verifyFileSha256, readFile, hhashing, hsame, extractNamedFile, hopening, ofExcept, hzip, hfound,
    hcreating, extract, hcontent, hextracting, bind, Steps.bind, pure, Steps.pure]

end Fetch

section Replace

variable {files : Files} {binary : Bytes}

/-- A file that is renamed is where the target was, or nothing is changed. -/
theorem triple_rename {pre : Files → Prop} {failure : Option String} {source target : Place}
    {context : String} (hne : source ≠ target) :
    Triple pre (rename failure source target context)
      (fun _ s => failure = none ∧ ∃ before body, pre before ∧ before source = some body ∧
        s target = some body ∧ ∀ p, p ≠ source → p ≠ target → s p = before p)
      (fun _ => pre) := by
  intro s hs
  rw [rename.eq_def]
  cases failure with
  | some e => exact hs
  | none =>
    cases hbody : s source with
    | none => exact hs
    | some body =>
      refine ⟨rfl, s, body, hs, hbody, ?_, fun p hsource htarget => ?_⟩
      · rw [Function.update_of_ne hne.symm, Function.update_self]
      · rw [Function.update_of_ne hsource, Function.update_of_ne htarget]

theorem triple_removeStale :
    Triple (fun s => s .binary = some binary ∧ Before files s) (removeStale env)
      (fun _ s => ((files .parked).isSome → env.removing = none) ∧ s .binary = some binary ∧
        s .exe = files .exe) (fun _ s => s .exe = files .exe) := by
  rintro s ⟨hbinary, hexe, hparked⟩
  rw [removeStale, ← hparked]
  by_cases hstale : (s .parked).isSome = true
  · rw [if_pos hstale]
    cases hremoving : env.removing with
    | some e => exact hexe
    | none => exact ⟨fun _ => rfl, hbinary, hexe⟩
  · rw [if_neg hstale]
    exact ⟨fun h => absurd h hstale, hbinary, hexe⟩

/-- The running binary is parked, or left where it was. -/
theorem triple_park : Triple (fun s => s .binary = some binary ∧ Before files s) (park env)
    (fun _ s => ((files .parked).isSome → env.removing = none) ∧ (files .exe).isSome ∧
      env.parking = none ∧ s .binary = some binary ∧ s .parked = files .exe)
    (fun _ s => s .exe = files .exe) := by
  refine triple_bind (triple_removeStale env) fun _ => ?_
  refine triple_mono (triple_rename (by decide)) (fun _ h => h) (fun _ s h => ?_)
    fun _ _ h => h.2.2
  obtain ⟨hparking, before, body, ⟨hstale, hbinary, hexe⟩, hbody, hparked, hrest⟩ := h
  rw [hexe] at hbody
  have hthere : s .binary = some binary := by rw [hrest .binary (by decide) (by decide), hbinary]
  exact ⟨hstale, by rw [hbody]; rfl, hparking, hthere, by rw [hparked, hbody]⟩

/-- The new binary is in place, or the old one is back. -/
theorem triple_replace (hrestoring : env.restoring = none) (old : Bytes) :
    Triple (fun s => s .binary = some binary ∧ s .parked = some old) (replace env)
      (fun _ s => env.placing = none ∧ env.isFile = true ∧ s .exe = some binary)
      (fun _ s => s .exe = some old) := by
  have hplace : Triple (fun s => s .binary = some binary ∧ s .parked = some old) (place env)
      (fun _ s => env.placing = none ∧ s .exe = some binary ∧ s .parked = some old)
      (fun _ s => s .parked = some old) := by
    rintro s ⟨hbinary, hparked⟩
    rw [place.eq_def, hbinary]
    cases hplacing : env.placing with
    | some stopped => exact hparked
    | none => exact ⟨rfl, rfl, hparked⟩
  have hconfirm : Triple (fun s => env.placing = none ∧ s .exe = some binary ∧ s .parked = some old)
      (confirmReplaced env)
      (fun _ s => env.placing = none ∧ env.isFile = true ∧ s .exe = some binary)
      (fun _ s => s .parked = some old) := by
    rintro s ⟨hplacing, hexe, hparked⟩
    rw [confirmReplaced, hexe, Option.isSome_some, Bool.and_true]
    cases hfile : env.isFile with
    | false => exact hparked
    | true => exact ⟨hplacing, rfl, hexe⟩
  have hrollback : Triple (fun s => s .parked = some old) (rollback env)
      (fun _ s => s .exe = some old) (fun _ _ => False) := by
    intro s hparked
    rw [rollback, rename.eq_def, hrestoring, hparked]
    rfl
  refine triple_catching (triple_bind hplace fun _ => hconfirm) fun error => ?_
  refine triple_bind (triple_mono (triple_catching hrollback fun _ => ?_) (fun _ h => h)
    (fun _ _ h => h) fun _ _ h => h) fun _ => ?_
  · exact triple_pure fun _ h => h.elim
  · exact triple_fail fun _ h => h

end Replace

section Whole

variable {release : GithubRelease} {target : String} {files : Files} {binary : Bytes}

theorem triple_makeExecutable {pre : Files → Prop} : Triple pre (makeExecutable env)
    (fun _ s => (env.platform = .unix → env.permissions = none) ∧ pre s)
    (fun _ s => env.platform = .unix ∧ env.permissions ≠ none ∧ pre s) := by
  intro s hs
  rw [makeExecutable]
  by_cases hunix : env.platform = .unix
  · rw [if_pos hunix]
    cases hpermissions : env.permissions with
    | none => exact ⟨fun _ => rfl, hs⟩
    | some e => exact ⟨hunix, by simp, hs⟩
  · rw [if_neg hunix]
    exact ⟨fun h => absurd h hunix, hs⟩

/-- What is at the executable's path after a self-install. -/
theorem triple_selfInstall (hrestoring : env.restoring = none) :
    Triple (fun s => s = files) (selfInstall crates env release target)
      (fun _ s => (env.platform = .unix → env.permissions = none) ∧
        ∃ binary, Placed crates env release target files binary ∧ s .exe = some binary)
      (fun _ s => s .exe = files .exe ∨ env.platform = .unix ∧ env.permissions ≠ none ∧
        ∃ binary, Placed crates env release target files binary ∧ s .exe = some binary) := by
  refine triple_bind (triple_mono (triple_fetch crates env release target) ?_ (fun _ _ h => h)
    fun _ _ h => Or.inl h.1) fun _ => ?_
  · rintro s rfl
    exact ⟨rfl, rfl⟩
  refine triple_exists fun binary => triple_given fun hfetched => ?_
  refine triple_bind (triple_mono (triple_park env) (fun _ h => h) (fun _ _ h => h)
    fun _ _ h => Or.inl h) fun _ => ?_
  refine triple_given fun hremoving => triple_given fun hexe => triple_given fun hparking => ?_
  obtain ⟨old, hold⟩ := Option.isSome_iff_exists.mp hexe
  refine triple_bind (triple_mono (triple_replace env hrestoring old)
    (fun _ h => ⟨h.1, h.2.trans hold⟩) (fun _ _ h => h) fun _ _ h => Or.inl (h.trans hold.symm))
    fun _ => ?_
  refine triple_given fun hplacing => triple_given fun hfile => ?_
  have hplaced : Placed crates env release target files binary :=
    ⟨hfetched, hremoving, hexe, hparking, hplacing, hfile⟩
  exact triple_mono (triple_makeExecutable env) (fun _ h => h)
    (fun _ _ h => ⟨h.1, binary, hplaced, h.2⟩)
    fun _ _ h => Or.inr ⟨h.1, h.2.1, binary, hplaced, h.2.2⟩

/-- Where every step but the last works, the new binary is in place for it. -/
theorem selfInstall_of_placed (h : Placed crates env release target files binary) : ∃ s,
    selfInstall crates env release target files = makeExecutable env s ∧ s .exe = some binary := by
  obtain ⟨fetched, hfetch, hbinary⟩ := @fetch_of_fetched crates env files _ _ _ h.fetched
  obtain ⟨-, -, -, hbefore⟩ := (triple_fetch crates env release target).of_ok ⟨rfl, rfl⟩ hfetch
  obtain ⟨old, hold⟩ := Option.isSome_iff_exists.mp h.exe
  have hstale : ∃ s, removeStale env fetched = (.ok (), s) ∧ s .exe = some old ∧
      s .binary = some binary := by
    rw [removeStale]
    split_ifs with hthere
    · rw [h.removing (hbefore.2 ▸ hthere)]
      exact ⟨_, rfl, hbefore.1.trans hold, hbinary⟩
    · exact ⟨_, rfl, hbefore.1.trans hold, hbinary⟩
  obtain ⟨clean, hclean, hexe, hthere⟩ := hstale
  have hpark : ∃ s, park env fetched = (.ok (), s) ∧ s .binary = some binary := by
    refine ⟨Function.update (Function.update clean .parked (some old)) .exe none, ?_, hthere⟩
    rw [park, bind_of_ok hclean, rename.eq_def, h.parking, hexe]
  obtain ⟨aside, hpark, hthere⟩ := hpark
  have hplace : place env aside = (.ok (), Function.update aside .exe (some binary)) := by
    rw [place.eq_def, hthere, h.placing]
  have hreplace : replace env aside = (.ok (), Function.update aside .exe (some binary)) := by
    rw [replace, catching, bind_of_ok hplace, confirmReplaced, h.isFile, Function.update_self]
    rfl
  refine ⟨Function.update aside .exe (some binary), ?_, rfl⟩
  rw [selfInstall, bind_of_ok hfetch, bind_of_ok hpark, bind_of_ok hreplace]

theorem lasting_of_lawful (h : Lawful crates env release target files) :
    Lasting crates env release target files := by
  intro hunix hpermissions binary hplaced
  obtain ⟨s, hrun, hexe⟩ := selfInstall_of_placed crates env hplaced
  obtain ⟨e, hfails⟩ := Option.ne_none_iff_exists'.mp hpermissions
  rw [Lawful, hrun, makeExecutable, if_pos hunix, hfails] at h
  exact h.symm.trans hexe

end Whole

end Install

/-- A zip that holds `studio-worker`, which holds `new`. -/
def newArchive : Bytes :=
  [80, 75, 3, 4, 20, 0, 0, 0, 0, 0, 0, 0, 33, 0, 69, 68, 227, 107, 3, 0, 0, 0, 3, 0, 0, 0, 13, 0, 0,
    0, 115, 116, 117, 100, 105, 111, 45, 119, 111, 114, 107, 101, 114, 110, 101, 119, 80, 75, 1, 2,
    20, 3, 20, 0, 0, 0, 0, 0, 0, 0, 33, 0, 69, 68, 227, 107, 3, 0, 0, 0, 3, 0, 0, 0, 13, 0, 0, 0, 0,
    0, 0, 0, 0, 0, 0, 0, 128, 1, 0, 0, 0, 0, 115, 116, 117, 100, 105, 111, 45, 119, 111, 114, 107,
    101, 114, 80, 75, 5, 6, 0, 0, 0, 0, 1, 0, 1, 0, 59, 0, 0, 0, 46, 0, 0, 0, 0, 0]

def newDigest : String := "573d1b55dd5e39ba899546d38f74e87f796e1a231153d729ec4b71439b671c21"

def newBinary : Bytes := [110, 101, 119]

/-- The crates, on that archive. -/
def knownCrates : Crates where
  sha256 body := if body = newArchive then newDigest.toList else []
  unzip body :=
    if body = newArchive then .ok [.ok ⟨some "studio-worker".toList, .ok newBinary⟩]
    else .error "invalid Zip archive"

/-- Every step works but, when there is an error, the last. -/
def workingBut (permissions : Option String) : Env where
  platform := .unix
  display := fun _ => "studio-worker"
  workFolder := none
  download := fun _ => .stored newArchive
  fetchChecksum := fun _ => .ok (some (newDigest ++ "  studio-worker-t.zip"))
  hashing := none
  opening := none
  creating := none
  extracting := none
  removing := none
  parking := none
  placing := none
  isFile := true
  restoring := none
  permissions

def newRelease : GithubRelease where
  tagName := "studio-worker-v0.4.22"
  assets := [⟨"studio-worker-t.zip", "https://github.com/x/y/studio-worker-t.zip"⟩]

def oldFiles : Files
  | .exe => some [111, 108, 100]
  | _ => none

theorem placed_newBinary (permissions : Option String) :
    Placed knownCrates (workingBut permissions) newRelease "t" oldFiles newBinary := by
  have hbinary : binaryOf knownCrates (binaryName .unix) newArchive = some newBinary := by
    decide +kernel
  have hreleased : Released knownCrates (workingBut permissions) newRelease "t" newBinary :=
    ⟨"https://github.com/x/y/studio-worker-t.zip", newArchive,
      newDigest ++ "  studio-worker-t.zip", newDigest.toList, by decide +kernel, rfl, rfl,
      by decide +kernel, by decide +kernel, hbinary⟩
  exact ⟨⟨hreleased, rfl, rfl, rfl, rfl, rfl⟩, fun h => absurd h (by decide), rfl, rfl, rfl, rfl⟩

end StudioWorker.SelfInstall
