import Mathlib.Data.List.Basic
import Mathlib.Tactic.SplitIfs

/-!
# Lib.CommandLine — the arguments in a Windows command line

The program is up to the first blank that is not in quotes, and quotes are not part of it.  Behind
it a quote can be escaped: by a backslash, where the backslashes before a quote count half, or by a
second quote in quotes.

* `argv`: a command line read.
* `argv_quoted_iff`: the programs that are read back from between quotes.
-/

namespace Lib.CommandLine

def isBlank (c : Char) : Bool := c == ' ' || c == '\t'

/-- The program, from in or outside quotes on, and what is behind it. -/
def program : Bool → List Char → List Char × List Char
  | _, [] => ([], [])
  | quoted, c :: t =>
    if c = '"' then program (!quoted) t
    else if isBlank c && !quoted then ([], t)
    else (c :: (program quoted t).1, (program quoted t).2)

inductive Quotes where
  | outside
  | inside
  /-- Behind a quote in quotes. -/
  | closing

def Quotes.settled : Quotes → Quotes
  | .inside => .inside
  | _ => .outside

structure State where
  done : List (List Char)
  current : Option (List Char)
  /-- The backslashes behind it. -/
  slashes : ℕ
  quotes : Quotes

/-- The argument so far, with `n` backslashes. -/
def State.held (s : State) (n : ℕ) : List Char :=
  s.current.getD [] ++ List.replicate n '\\'

def State.finish (s : State) : List (List Char) :=
  match s.current with
  | none => s.done
  | some _ => s.done ++ [s.held s.slashes]

def quote (s : State) : State :=
  if s.slashes % 2 = 1 then
    ⟨s.done, some (s.held (s.slashes / 2) ++ ['"']), 0, s.quotes.settled⟩
  else
    match s.quotes with
    | .outside => ⟨s.done, some (s.held (s.slashes / 2)), 0, .inside⟩
    | .inside => ⟨s.done, some (s.held (s.slashes / 2)), 0, .closing⟩
    | .closing => ⟨s.done, some (s.held (s.slashes / 2) ++ ['"']), 0, .inside⟩

def step (s : State) (c : Char) : State :=
  if c = '"' then quote s
  else if c = '\\' then ⟨s.done, some (s.held 0), s.slashes + 1, s.quotes.settled⟩
  else
    match isBlank c, s.quotes.settled with
    | true, .outside => ⟨s.finish, none, 0, .outside⟩
    | _, quotes => ⟨s.done, some (s.held s.slashes ++ [c]), 0, quotes⟩

def arguments (t : List Char) : List (List Char) :=
  (t.foldl step ⟨[], none, 0, .outside⟩).finish

def argv (line : List Char) : List (List Char) :=
  (program false line).1 :: arguments (program false line).2

/-! ## A program in quotes -/

theorem quote_notMem_program (quoted : Bool) (t : List Char) : '"' ∉ (program quoted t).1 := by
  induction t generalizing quoted with
  | nil => exact List.not_mem_nil
  | cons c t ih =>
    rw [program]
    split_ifs with hquote hblank
    · exact ih (!quoted)
    · exact List.not_mem_nil
    · rintro (_ | ⟨_, hmem⟩)
      · exact hquote rfl
      · exact ih quoted hmem

theorem program_inside {e t : List Char} (h : '"' ∉ e) :
    program true (e ++ '"' :: t) = (e ++ (program false t).1, (program false t).2) := by
  induction e with
  | nil => rfl
  | cons c e ih =>
    have hc : c ≠ '"' := fun heq => h (heq ▸ List.mem_cons_self)
    rw [List.cons_append, program, if_neg hc, ih fun hmem => h (List.mem_cons_of_mem _ hmem)]
    simp

/-- The programs that are read back from between quotes, before a blank. -/
theorem argv_quoted_iff {e t : List Char} :
    argv ('"' :: (e ++ '"' :: ' ' :: t)) = e :: arguments t ↔ '"' ∉ e := by
  constructor
  · intro h
    rw [← (List.cons.inj h).1]
    exact quote_notMem_program _ _
  · intro h
    have hprogram : program false ('"' :: (e ++ '"' :: ' ' :: t)) = (e, t) := by
      have hstart : program false ('"' :: (e ++ '"' :: ' ' :: t)) =
          program true (e ++ '"' :: ' ' :: t) := rfl
      have hend : program false (' ' :: t) = ([], t) := rfl
      rw [hstart, program_inside h, hend, List.append_nil]
    rw [argv, hprogram]

/-- A backslash before a quote, and a quote by two of them. -/
example : arguments "a\\\"b \"c d\" \"e\"\"f\\\\\"".toList =
    ["a\"b".toList, "c d".toList, "e\"f\\".toList] := by decide

end Lib.CommandLine
