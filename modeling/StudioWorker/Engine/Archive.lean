import StudioWorker.Lib.Unpack
import StudioWorker.Text

/-!
# Engine.Archive — release archives, and their files by their bare names (the `extract_zip` of
`src/engine/sd_provision.rs` and of `src/engine/llama_subprocess.rs`)

Contents are lists of characters, one for each byte.
-/

namespace StudioWorker.Archive

open Lib

/-- A directory: what its names hold. -/
abbrev Files := Text → Option Text

/-- A file written by its name, and what it holds. -/
abbrev NamedFile := Text × Text

structure ZipEntry where
  name : Text
  content : Text
  isSymlink : Bool

/-- `entry.is_dir()` -/
def ZipEntry.isDir (e : ZipEntry) : Bool :=
  e.name.getLast? == some '/' || e.name.getLast? == some '\\'

/-- `entry.is_file()` -/
def ZipEntry.isFile (e : ZipEntry) : Bool := !e.isDir && !e.isSymlink

/-- `Path::file_name`: the last component, unless it is `..`. -/
def fileName (path : Text) : Option Text :=
  match ((path.splitOnP (· == '/')).filter fun c => c ≠ [] ∧ c ≠ ['.']).getLast? with
  | some c => if c = ['.', '.'] then none else some c
  | none => none

/-- The files of a zip by their bare names, in its order. -/
def unzip (zip : List ZipEntry) : List NamedFile :=
  zip.filterMap fun e => if e.isDir then none else (fileName e.name).map fun n => (n, e.content)

/-- `bin/`, as both provisioners name its files. -/
def sdCli : Text := ['s', 'd', '-', 'c', 'l', 'i']
def llamaCli : Text := ['l', 'l', 'a', 'm', 'a', '-', 'c', 'l', 'i']

example : fileName ['.', '.', '/', 'e', 't', 'c', '/', 'p'] = some ['p'] := by decide

end StudioWorker.Archive
