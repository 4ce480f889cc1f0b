import Mathlib.Data.Bool.AllAny
import StudioWorker.Config.Model
import StudioWorker.Lib.CommandLine
import StudioWorker.Lib.DesktopExec
import StudioWorker.Lib.Plist
import StudioWorker.Text

/-!
# Autostart — the login entry of the tray UI

`src/autostart.rs` and the launcher of `src/memory_ceiling.rs`.  The path of the executable is put
into an entry as it is: into the `Exec` line of a desktop entry, a string of a property list, or
between the quotes of a `Run` value.

* `ensureAt`: the entry once it was made current.
* `read`: the arguments in an entry, by the rules of its format.
* `read_ensureAt_iff`: the paths that an entry gives back.
-/

namespace StudioWorker

open Lib

/-- What a path is made of: characters, and what is none. -/
inductive PathUnit where
  | char (c : Char)
  | stray (n : ℕ)
deriving DecidableEq

structure ExePath where
  units : List PathUnit
  noNul : .char '\x00' ∉ units

/-- A string as an argument. -/
def osString (t : Text) : List PathUnit := t.map .char

def PathUnit.lossy : PathUnit → Char
  | .char c => c
  | .stray _ => '\uFFFD'

/-- `to_string_lossy` and `display`: what is no character is written as one replacement. -/
def ExePath.lossy (exe : ExePath) : Text := exe.units.map PathUnit.lossy

/-! ## The launcher -/

namespace MemoryCeiling

def memoryMax (c : MemoryCeiling) : Text := Nat.toDigits 10 c.maxGb.toNat ++ ['G']

/-- The product of the floats has this floor at every ceiling in range. -/
def memoryHigh (c : MemoryCeiling) : Text :=
  Nat.toDigits 10 (c.maxGb.toNat * 1024 * 9 / 10) ++ ['M']

def properties (c : MemoryCeiling) : Text × Text :=
  ("MemoryHigh=".toList ++ c.memoryHigh, "MemoryMax=".toList ++ c.memoryMax)

def launcher (c : MemoryCeiling) : List Text :=
  ["systemd-run".toList, "--user".toList, "--scope".toList, "--unit=studio-worker".toList,
    "--collect".toList, "--quiet".toList, "-p".toList, c.properties.1, "-p".toList,
    c.properties.2]

end MemoryCeiling

/-- What goes before the command line of the tray UI. -/
def launcherOf (ceiling : Option MemoryCeiling) : List Text :=
  (ceiling.map MemoryCeiling.launcher).getD []

def trayArgv (ceiling : Option MemoryCeiling) (exe : ExePath) (args : List Text) :
    List (List PathUnit) :=
  (launcherOf ceiling).map osString ++ exe.units :: args.map osString

/-! ## The entry -/

namespace Autostart

inductive Os where
  | linux
  | macos
  | windows

def renderDesktopEntry (exe : Text) (ceiling : Option MemoryCeiling) : Text :=
  let launcher := (ceiling.map fun c => DesktopExec.joined c.launcher ++ [' ']).getD []
  "[Desktop Entry]\n".toList ++
  "Type=Application\n".toList ++
  "Name=studio-worker\n".toList ++
  "Comment=Pull-based generation worker for the minis.gg studio\n".toList ++
  "Exec=".toList ++ launcher ++ exe ++ " ui\n".toList ++
  "Terminal=false\n".toList ++
  "X-GNOME-Autostart-enabled=true\n".toList

def renderLaunchAgent (exe : Text) : Text :=
  "<?xml version=\"1.0\" encoding=\"UTF-8\"?>\n".toList ++
  "<!DOCTYPE plist PUBLIC \"-//Apple//DTD PLIST 1.0//EN\" ".toList ++
  "\"http://www.apple.com/DTDs/PropertyList-1.0.dtd\">\n".toList ++
  "<plist version=\"1.0\">\n".toList ++
  "  <dict>\n".toList ++
  "    <key>Label</key>\n".toList ++
  "    <string>gg.minis.studio-worker-ui</string>\n".toList ++
  "    <key>ProgramArguments</key>\n".toList ++
  "    <array>\n".toList ++
  "      <string>".toList ++ exe ++ "</string>\n".toList ++
  "      <string>ui</string>\n".toList ++
  "    </array>\n".toList ++
  "    <key>RunAtLoad</key>\n".toList ++
  "    <true/>\n".toList ++
  "  </dict>\n".toList ++
  "</plist>\n".toList

def autostartCommand (exe : ExePath) : Text := '"' :: (exe.lossy ++ "\" ui".toList)

inductive EnsureAction where
  | write
  | alreadyCurrent

def ensureAction (existing : Option Text) (wanted : Text) : EnsureAction :=
  match existing with
  | some current => if current = wanted then .alreadyCurrent else .write
  | none => .write

/-- A memory ceiling is for Linux only. -/
def capped (os : Os) (ceiling : Option MemoryCeiling) : Option MemoryCeiling :=
  match os with
  | .linux => ceiling
  | .macos | .windows => none

def renderArtefact (os : Os) (exe : ExePath) (ceiling : Option MemoryCeiling) : Text :=
  match os with
  | .linux => renderDesktopEntry exe.lossy ceiling
  | .macos => renderLaunchAgent exe.lossy
  | .windows => autostartCommand exe

/-- The entry behind a call that succeeds. -/
def ensureAt (os : Os) (exe : ExePath) (ceiling : Option MemoryCeiling) (existing : Option Text) :
    Option Text :=
  let wanted := renderArtefact os exe ceiling
  match ensureAction existing wanted with
  | .alreadyCurrent => existing
  | .write => some wanted

theorem ensureAt_eq (os : Os) (exe : ExePath) (ceiling : Option MemoryCeiling)
    (existing : Option Text) :
    ensureAt os exe ceiling existing = some (renderArtefact os exe ceiling) := by
  rcases existing with _ | current
  · rfl
  · by_cases h : current = renderArtefact os exe ceiling
    · simp [ensureAt, ensureAction, h]
    · simp [ensureAt, ensureAction, h]

/-- The arguments in an entry, by the rules of its format. -/
def read (os : Os) (entry : Text) : Option (List Text) :=
  match os with
  | .linux => DesktopExec.command entry
  | .macos => Plist.arrayOf "ProgramArguments".toList entry
  | .windows => some (CommandLine.argv entry)

/-- The paths that a format keeps as they are. -/
def Kept (os : Os) (ceiling : Option MemoryCeiling) (t : Text) : Prop :=
  match os with
  | .linux => DesktopExec.Word t ∧ (ceiling = none → '=' ∉ t)
  | .macos => Plist.Verbatim t
  | .windows => '"' ∉ t

/-! ## A desktop entry -/

section Linux

/-- A character of a word. -/
def wordChar (c : Char) : Bool := c != '%' && !DesktopExec.reserved.contains c

theorem word_iff {t : Text} : DesktopExec.Word t ↔ t ≠ [] ∧ t.all wordChar = true := by
  refine and_congr_right fun _ => ?_
  rw [List.all_eq_true]
  refine forall₂_congr fun c _ => ?_
  simp [wordChar]

theorem wordChar_of_isDigit {c : Char} (h : c.isDigit = true) : wordChar c = true := by
  have hreserved : ∀ d ∈ '%' :: DesktopExec.reserved, d.isDigit = false :=
    List.all_iff_forall_prop.mp (by decide)
  have hnot : c ∉ '%' :: DesktopExec.reserved := fun hmem => by
    rw [hreserved c hmem] at h
    cases h
  rw [List.mem_cons, not_or] at hnot
  simp [wordChar, hnot]

theorem all_wordChar_toDigits (n : ℕ) : (Nat.toDigits 10 n).all wordChar = true := by
  rw [List.all_eq_true]
  intro c hc
  exact wordChar_of_isDigit (Nat.isDigit_of_mem_toDigits (by decide) (by decide) hc)

theorem word_setting {name : Text} {n : ℕ} {unit : Char} (hname : name ≠ [])
    (h : (name ++ [unit]).all wordChar = true) :
    DesktopExec.Word (name ++ (Nat.toDigits 10 n ++ [unit])) := by
  refine word_iff.mpr ⟨List.append_ne_nil_of_left_ne_nil hname _, ?_⟩
  rw [List.all_append, Bool.and_eq_true] at h
  rw [List.all_append, List.all_append, all_wordChar_toDigits, h.1, h.2]
  rfl

theorem word_launcher (c : MemoryCeiling) : ∀ w ∈ c.launcher, DesktopExec.Word w := by
  have hfront : ∀ w ∈ ["systemd-run".toList, "--user".toList, "--scope".toList,
      "--unit=studio-worker".toList, "--collect".toList, "--quiet".toList, "-p".toList],
      w ≠ [] ∧ w.all wordChar = true := by decide +kernel
  have hhigh : DesktopExec.Word c.properties.1 := word_setting (by decide) (by decide)
  have hmax : DesktopExec.Word c.properties.2 := word_setting (by decide) (by decide)
  have hlauncher : c.launcher = ["systemd-run".toList, "--user".toList, "--scope".toList,
      "--unit=studio-worker".toList, "--collect".toList, "--quiet".toList, "-p".toList] ++
        [c.properties.1, "-p".toList, c.properties.2] := rfl
  intro w hw
  rw [hlauncher, List.mem_append] at hw
  rcases hw with hw | hw
  · exact word_iff.mpr (hfront w hw)
  · simp only [List.mem_cons, List.not_mem_nil, or_false] at hw
    rcases hw with rfl | rfl | rfl
    · exact hhigh
    · exact word_iff.mpr (by decide)
    · exact hmax

def headerLines : List Text :=
  ["[Desktop Entry]".toList, "Type=Application".toList, "Name=studio-worker".toList,
    "Comment=Pull-based generation worker for the minis.gg studio".toList]

def trailer : Text := "Terminal=false\nX-GNOME-Autostart-enabled=true\n".toList

theorem joined_trayWords (t : Text) (ceiling : Option MemoryCeiling) :
    DesktopExec.joined (launcherOf ceiling ++ [t, "ui".toList]) =
      (ceiling.map fun c => DesktopExec.joined c.launcher ++ [' ']).getD [] ++
        (t ++ " ui".toList) := by
  have hpair : DesktopExec.joined [t, "ui".toList] = t ++ " ui".toList := by
    rw [DesktopExec.joined_cons_cons]
    rfl
  cases ceiling with
  | none => exact hpair
  | some c =>
    have hne : c.launcher ≠ [] := List.cons_ne_nil _ _
    show DesktopExec.joined (c.launcher ++ [t, "ui".toList]) =
      DesktopExec.joined c.launcher ++ [' '] ++ (t ++ " ui".toList)
    rw [DesktopExec.joined_append hne (List.cons_ne_nil _ _), hpair, List.append_assoc]
    rfl

theorem header_eq : "[Desktop Entry]\n".toList ++ "Type=Application\n".toList ++
    "Name=studio-worker\n".toList ++
    "Comment=Pull-based generation worker for the minis.gg studio\n".toList ++ "Exec=".toList =
      DesktopExec.unlines headerLines ++ ("Exec".toList ++ ['=']) := by
  decide +kernel

theorem trailer_eq : " ui\n".toList ++ "Terminal=false\n".toList ++
    "X-GNOME-Autostart-enabled=true\n".toList = " ui".toList ++ '\n' :: trailer := by
  decide

theorem renderDesktopEntry_eq (t : Text) (ceiling : Option MemoryCeiling) :
    renderDesktopEntry t ceiling = DesktopExec.unlines headerLines ++ ("Exec".toList ++
      '=' :: DesktopExec.joined (launcherOf ceiling ++ [t, "ui".toList]) ++ '\n' :: trailer) := by
  have happend : ∀ header rest : Text, ∀ launcher : Text,
      header ++ ("Exec".toList ++ ['=']) ++ launcher ++ t ++ (" ui".toList ++ '\n' :: rest) =
        header ++ ("Exec".toList ++ '=' :: (launcher ++ (t ++ " ui".toList)) ++ '\n' :: rest) := by
    intro header rest launcher
    simp
  have hassoc : ∀ start line rest last : Text,
      start ++ line ++ rest ++ last = start ++ (line ++ rest ++ last) := by
    intro start line rest last
    simp
  rw [joined_trayWords, ← happend, ← header_eq, ← trailer_eq]
  exact hassoc _ _ _ _

theorem read_desktopEntry_iff (t : Text) (ceiling : Option MemoryCeiling) :
    read .linux (renderDesktopEntry t ceiling) = some (launcherOf ceiling ++ [t, "ui".toList]) ↔
      Kept .linux ceiling t := by
  have hlines : ∀ l ∈ headerLines, '\n' ∉ l ∧ ¬ "Exec".toList ++ ['='] <+: l := by
    decide +kernel
  have hrest : DesktopExec.valuesOf "Exec".toList trailer = [] := by decide +kernel
  have hui : DesktopExec.Word "ui".toList := word_iff.mpr (by decide)
  have htray : DesktopExec.Word t → ∀ w ∈ [t, "ui".toList], DesktopExec.Word w := by
    intro ht w hw
    rcases List.mem_cons.mp hw with rfl | hw
    · exact ht
    · rw [List.mem_singleton.mp hw]
      exact hui
  rw [read, renderDesktopEntry_eq]
  cases ceiling with
  | none =>
    show DesktopExec.command _ = some (t :: ["ui".toList]) ↔ _
    refine (DesktopExec.command_iff hlines hrest t _).trans ?_
    constructor
    · rintro ⟨hwords, hequals⟩
      exact ⟨hwords t List.mem_cons_self, fun _ => hequals⟩
    · rintro ⟨ht, hequals⟩
      exact ⟨htray ht, hequals rfl⟩
  | some c =>
    refine (DesktopExec.command_iff hlines hrest "systemd-run".toList _).trans ?_
    show (∀ w ∈ c.launcher ++ [t, "ui".toList], DesktopExec.Word w) ∧ _ ↔ _
    constructor
    · rintro ⟨hwords, -⟩
      exact ⟨hwords t (by simp), fun hnone => by cases hnone⟩
    · rintro ⟨ht, -⟩
      refine ⟨fun w hw => ?_, by decide⟩
      rcases List.mem_append.mp hw with hw | hw
      · exact word_launcher c w hw
      · exact htray ht w hw

end Linux

/-! ## A property list -/

section Macos

def dictStart : Text :=
  "<?xml version=\"1.0\" encoding=\"UTF-8\"?>\n".toList ++
  "<!DOCTYPE plist PUBLIC \"-//Apple//DTD PLIST 1.0//EN\" ".toList ++
  "\"http://www.apple.com/DTDs/PropertyList-1.0.dtd\">\n".toList ++
  "<plist version=\"1.0\">\n".toList ++
  "  <dict>\n".toList ++
  "    <key>Label</key>\n".toList ++
  "    <string>gg.minis.studio-worker-ui</string>\n".toList

def beforeKey : Text := dictStart ++ "    ".toList

def behindPath : Text :=
  "\n".toList ++
  "      <string>ui</string>\n".toList ++
  "    </array>\n".toList ++
  "    <key>RunAtLoad</key>\n".toList ++
  "    <true/>\n".toList ++
  "  </dict>\n".toList ++
  "</plist>\n".toList

theorem frame_launchAgent :
    Plist.Frame beforeKey "ProgramArguments".toList "\n    ".toList "\n      ".toList behindPath
      ["ui".toList] where
  xml := List.all_iff_forall_prop.mp (by decide +kernel)
  first := by decide +kernel
  gapSpace := List.all_eq_true.mp (by decide)
  indentSpace := List.all_eq_true.mp (by decide)
  unopened := ⟨by decide +kernel, by decide +kernel, by decide +kernel⟩
  strings := by
    intro fuel hfuel
    have hlength : 2 ≤ behindPath.length := by decide
    obtain ⟨fuel, rfl⟩ := Nat.exists_eq_add_of_le' (hlength.trans hfuel)
    rfl

theorem beforePath_eq : "    <key>ProgramArguments</key>\n".toList ++ "    <array>\n".toList ++
    "      <string>".toList = "    ".toList ++ (Plist.keyTag "ProgramArguments".toList ++
      ("\n    ".toList ++ ("<array>".toList ++ ("\n      ".toList ++ "<string>".toList)))) := by
  decide +kernel

theorem behindPath_eq : "</string>\n".toList ++ "      <string>ui</string>\n".toList ++
    "    </array>\n".toList ++ "    <key>RunAtLoad</key>\n".toList ++ "    <true/>\n".toList ++
    "  </dict>\n".toList ++ "</plist>\n".toList = '<' :: (Plist.stringEnd ++ behindPath) := by
  decide +kernel

theorem renderLaunchAgent_eq (t : Text) :
    renderLaunchAgent t = Plist.document beforeKey "ProgramArguments".toList "\n    ".toList
      "\n      ".toList t behindPath := by
  have happend : ∀ start space key gap array indent tag rest : Text,
      start ++ (space ++ (key ++ (gap ++ (array ++ (indent ++ tag))))) ++ t ++ rest =
        (start ++ space) ++ (key ++ (gap ++ (array ++ (indent ++ (tag ++ (t ++ rest)))))) := by
    intro start space key gap array indent tag rest
    simp only [List.append_assoc]
  have hassoc : ∀ start a b c d e f g h i j : Text,
      start ++ a ++ b ++ c ++ t ++ d ++ e ++ f ++ g ++ h ++ i ++ j =
        start ++ (a ++ b ++ c) ++ t ++ (d ++ e ++ f ++ g ++ h ++ i ++ j) := by
    intro start a b c d e f g h i j
    simp only [List.append_assoc]
  rw [Plist.document, beforeKey, ← happend, ← beforePath_eq, ← behindPath_eq]
  exact hassoc _ _ _ _ _ _ _ _ _ _ _

theorem read_launchAgent_iff (t : Text) :
    read .macos (renderLaunchAgent t) = some [t, "ui".toList] ↔ Plist.Verbatim t := by
  rw [read, renderLaunchAgent_eq]
  exact Plist.arrayOf_iff frame_launchAgent

end Macos

/-! ## The argument list -/

theorem lossy_osString (t : Text) : (osString t).map PathUnit.lossy = t := by
  rw [osString, List.map_map]
  exact List.map_id t

theorem osString_lossy_iff (exe : ExePath) :
    osString exe.lossy = exe.units ↔ ∀ n, .stray n ∉ exe.units := by
  rw [osString, ExePath.lossy, List.map_map]
  constructor
  · intro h n hmem
    rw [← h] at hmem
    obtain ⟨u, -, hu⟩ := List.mem_map.mp hmem
    cases hu
  · intro h
    have hself : ∀ u ∈ exe.units, (PathUnit.char ∘ PathUnit.lossy) u = id u := by
      rintro (c | n) hu
      · rfl
      · exact absurd hu (h n)
    rw [List.map_congr_left hself, List.map_id]

/-- A text that is read is the argument list only where every character of the path was written. -/
theorem map_osString_iff (ceiling : Option MemoryCeiling) (exe : ExePath) (args : List Text)
    (read : List Text) :
    read.map osString = trayArgv ceiling exe args ↔
      (∀ n, .stray n ∉ exe.units) ∧ read = launcherOf ceiling ++ exe.lossy :: args := by
  have hback : ∀ words : List Text, (words.map osString).map (·.map PathUnit.lossy) = words := by
    intro words
    rw [List.map_map]
    exact (List.map_congr_left fun t _ => lossy_osString t).trans (List.map_id _)
  have hlossy : (trayArgv ceiling exe args).map (·.map PathUnit.lossy) =
      launcherOf ceiling ++ exe.lossy :: args := by
    rw [trayArgv, List.map_append, List.map_cons, hback, hback]
    rfl
  rw [← osString_lossy_iff]
  constructor
  · intro h
    have hread : read = launcherOf ceiling ++ exe.lossy :: args := by
      rw [← hlossy, ← h, hback]
    refine ⟨?_, hread⟩
    rw [hread, List.map_append, trayArgv] at h
    exact (List.cons.inj (List.append_cancel_left h)).1
  · rintro ⟨hunits, rfl⟩
    rw [List.map_append, List.map_cons, hunits]
    rfl

theorem read_render_iff (os : Os) (exe : ExePath) (ceiling : Option MemoryCeiling) :
    read os (renderArtefact os exe ceiling) =
        some (launcherOf (capped os ceiling) ++ [exe.lossy, "ui".toList]) ↔
      Kept os ceiling exe.lossy := by
  cases os with
  | linux => exact read_desktopEntry_iff exe.lossy ceiling
  | macos => exact read_launchAgent_iff exe.lossy
  | windows =>
    have hui : CommandLine.arguments "ui".toList = ["ui".toList] := by decide
    show some (CommandLine.argv ('"' :: (exe.lossy ++ '"' :: ' ' :: "ui".toList))) =
      some [exe.lossy, "ui".toList] ↔ '"' ∉ exe.lossy
    rw [Option.some_inj, ← hui]
    exact CommandLine.argv_quoted_iff

def homeWithSpace : ExePath where
  units := osString "/home/jo doe/studio-worker".toList
  noNul := by decide

end Autostart

end StudioWorker
