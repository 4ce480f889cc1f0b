import StudioWorker.Text

/-!
# VoiceSamples.Take — what a take and a set are called (`src/voice_samples/take.rs`)

* `parseTake`: the take a file stem names.
* `SetName`: the names a set may have; every caller of the store checks them.
-/

namespace StudioWorker.VoiceSamples

open Text

/-- What a take holds. -/
inductive Kind where
  | positive
  | nearMiss
  | speech
deriving DecidableEq, Repr

def Kind.all : List Kind := [positive, nearMiss, speech]

/-- One take's identity: its kind, number and, for a near miss, the near miss's slug. -/
structure Take where
  kind : Kind
  number : ℕ
  phrase : Option Text
deriving DecidableEq, Repr

/-- The number, zeros before it up to three digits. -/
def padded (number : ℕ) : Text :=
  let digits := Nat.toDigits 10 number
  List.replicate (3 - digits.length) '0' ++ digits

/-- The file stem a take is stored as. -/
def Take.stem (take : Take) : Text :=
  match take.phrase with
  | some phrase => phrase ++ '-' :: padded take.number
  | none => padded take.number

def maxNumberDigits : ℕ := 4
def maxSetChars : ℕ := 64

def digits (text : Text) : Option ℕ :=
  if text ≠ [] ∧ text.length ≤ maxNumberDigits ∧ text.all Char.isDigit then
    some (text.foldl (fun n c => n * 10 + (c.toNat - '0'.toNat)) 0)
  else none

def lowerOrDigit (c : Char) : Bool := c.isLower || c.isDigit

/-- A near miss's slug: `[a-z0-9]+(_[a-z0-9]+)*`. -/
def isSlug (text : Text) : Bool :=
  text ≠ [] && (split ['_'] text).all fun part => part ≠ [] && part.all lowerOrDigit

/-- A set's name: `[a-z0-9][a-z0-9_-]{0,63}`. -/
def checkSet : Text → Bool
  | [] => false
  | c :: rest => lowerOrDigit c && rest.all (fun c => lowerOrDigit c || c = '_' || c = '-') &&
      (c :: rest).length ≤ maxSetChars

/-- A name that was checked. -/
abbrev SetName := { set : Text // checkSet set = true }

/-- A take of `kind` in a file of that stem. -/
def parseTake (kind : Kind) (name : Text) : Option Take :=
  match kind with
  | .positive | .speech => (digits name).map fun number => ⟨kind, number, none⟩
  | .nearMiss =>
    match rsplitOnce ['-'] name with
    | some (phrase, number) =>
      if isSlug phrase then (digits number).map fun number => ⟨kind, number, some phrase⟩ else none
    | none => none

example : parseTake .nearMiss (Take.stem ⟨.nearMiss, 2, some ['h', 'i']⟩) =
    some ⟨.nearMiss, 2, some ['h', 'i']⟩ := by decide

end StudioWorker.VoiceSamples
