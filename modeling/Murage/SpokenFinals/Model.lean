import Murage.Library.Spacing

/-!
Owns: what a text-only end of turn adds to the finals already sent: the spoken words of a text, the
place where the end's tokens pass the finals, and the answer.

Does not own: the rest of the stream contract; the case mapping of characters beyond ASCII, which
is a parameter with what the reading of a text relies on.
-/

namespace Murage.SpokenFinals

open Murage.Library.Utf16 Murage.Library.Replacing Murage.Library.Replacing.Pattern
open Murage.Library.Spacing

/-! ### Lower case -/

def lowerUnit (c : UInt16) : UInt16 := if isUpper c then c + 32 else c

/-- `toLowerCase`. A final sigma has its own lower case, and what is final is looked for over some
white space too; both forms are outside ASCII. -/
structure Casing where
  toLowerCase : Text → Text
  ascii : ∀ text, (∀ c ∈ text, c < 128) → toLowerCase text = text.map lowerUnit
  atSpace : ∀ text stop more, isSpace stop = true →
    (toLowerCase (text ++ stop :: more)).map seen =
      (toLowerCase text ++ stop :: toLowerCase more).map seen

/-! ### Spoken words -/

def ONES : List Text :=
  ["zero", "one", "two", "three", "four", "five", "six", "seven", "eight", "nine", "ten", "eleven",
    "twelve", "thirteen", "fourteen", "fifteen", "sixteen", "seventeen", "eighteen",
    "nineteen"].map units

def TENS : List Text :=
  ["", "", "twenty", "thirty", "forty", "fifty", "sixty", "seventy", "eighty", "ninety"].map units

def ORDINALS : List (Text × Text) :=
  [("1st", "first"), ("2nd", "second"), ("3rd", "third"), ("4th", "fourth"), ("5th", "fifth"),
    ("6th", "sixth"), ("7th", "seventh"), ("8th", "eighth"), ("9th", "ninth"),
    ("10th", "tenth")].map fun entry => (units entry.1, units entry.2)

/-- `ONES[n]` -/
def oneWord (n : Nat) : Text := ONES.getD n []

def digitValue (digit : UInt16) : Nat := (digit - unit '0').toNat

def digitWords (digits : Text) : Text := join (digits.map fun digit => oneWord (digitValue digit))

/-- The branches of `numberWords` below 100, which is all it calls itself for. -/
def smallNumberWords (n : Nat) : Text :=
  if n < 20 then oneWord n
  else TENS.getD (n / 10) [] ++ if n % 10 ≠ 0 then unit ' ' :: oneWord (n % 10) else []

def numberWords (n : Nat) : Text :=
  if n < 100 then smallNumberWords n
  else if n < 1000 then
    oneWord (n / 100) ++ units " hundred" ++
      if n % 100 ≠ 0 then unit ' ' :: smallNumberWords (n % 100) else []
  else if n < 10000 ∧ n % 100 ≠ 0 then
    smallNumberWords (n / 100) ++ unit ' ' :: smallNumberWords (n % 100)
  else digitWords ((Nat.toDigits 10 n).map unit)

/-- `Number` of a run of digits. -/
def numberOf (digits : Text) : Nat :=
  digits.foldl (fun number digit => 10 * number + digitValue digit) 0

/-- `/cancelled/` -/
def cancelledPattern : Pattern Text := do
  literal (units "cancelled") (by decide)
  return units "canceled"

/-- `/([a-z])(\d)/` -/
def letterDigitPattern : Pattern Text := do
  let letter ← one .lower
  let digit ← one .digit
  return [letter, unit ' ', digit]

/-- `/(\d+):(\d\d)/` -/
def clockPattern : Pattern Text := do
  let h ← run .digit
  let _ ← one (.only (unit ':') (by decide))
  let tens ← one .digit
  let ones ← one .digit
  return h ++ [unit ' ', tens, ones]

def suffix (fixed : Text) (isPlain : (fixed.all fun c => c < 128 && !isSpace c) = true) :
    Pattern Text := do
  literal fixed isPlain
  return fixed

/-- `/\b(\d+)(st|nd|rd|th)\b/` -/
def ordinalPattern : Pattern Text := do
  boundary
  let digits ← run .digit
  let ending ← either (suffix (units "st") (by decide)) (either (suffix (units "nd") (by decide))
    (either (suffix (units "rd") (by decide)) (suffix (units "th") (by decide))))
  boundary
  return (ORDINALS.lookup (digits ++ ending)).getD (digits ++ ending)

/-- `/\b0(\d)/` -/
def leadingZeroPattern : Pattern Text := do
  boundary
  let _ ← one (.only (unit '0') (by decide))
  let digit ← one .digit
  return units "oh " ++ [digit]

/-- `/\d+/` -/
def numberPattern : Pattern Text := do
  let digits ← run .digit
  return if digits.length > 4 then digitWords digits else numberWords (numberOf digits)

/-- `/\bzero\b/` -/
def zeroPattern : Pattern Text := do
  boundary
  literal (units "zero") (by decide)
  boundary
  return units "oh"

/-- `/\bdr\b\.?/` -/
def doctorPattern : Pattern Text := do
  boundary
  literal (units "dr") (by decide)
  boundary
  let _ ← either (do let _ ← one (.only (unit '.') (by decide))) (return ())
  return units "doctor"

/-- The text with its numbers, times, ordinals and titles in words, and no unit that is neither a
letter nor white space. -/
def readAloud (text : Text) : Text :=
  let t := replaceAll letterDigitPattern (replaceAll cancelledPattern text)
  let t := replaceAll clockPattern t
  let t := replaceAll ordinalPattern t
  let t := replaceAll leadingZeroPattern t
  let t := replaceAll numberPattern t
  let t := replaceAll doctorPattern (replaceAll zeroPattern t)
  let t := (t.filter (· != 0x27)).map fun c => if c = unit '-' then unit ' ' else c
  t.map fun c => if isLower c || isSpace c then c else unit ' '

variable (casing : Casing)

def spokenWords (text : Text) : List Text :=
  let t := trim (collapse (readAloud (casing.toLowerCase text)))
  if t = [] then [] else parts (· == unit ' ') t

/-! ### The end of a turn -/

/-- `text.trim().split(/\s+/).filter(Boolean)`: a split at each run of white space is a split at
single blanks after each run became one. -/
def tokensOf (text : Text) : List Text :=
  (parts (· == unit ' ') (collapse (trim text))).filter fun token => !token.isEmpty

structure Cut where
  k : Nat
  carry : List Text
deriving DecidableEq

structure TextEnd where
  newFinal : Option Text
  endText : Text
  conflict : Bool
deriving DecidableEq

/-- The loop of `splitAfterFinals` from one `k` on. -/
def cutFrom (done : List Text) (tokens : List Text) : List Nat → Option Cut
  | [] => none
  | k :: later =>
    let said := spokenWords casing (join (tokens.take k))
    if said.length < done.length then cutFrom done tokens later
    else if done <+: said then some ⟨k, said.drop done.length⟩
    else none

def splitAfterFinals (finalized : Text) (tokens : List Text) : Option Cut :=
  let done := spokenWords casing finalized
  if done.length = 0 then some ⟨0, []⟩
  else cutFrom casing done tokens (List.range' 1 tokens.length)

def reconcileTextEnd (finalized text : Text) : TextEnd :=
  let tokens := tokensOf text
  if (spokenWords casing finalized).length = 0 then
    { newFinal := if tokens.length ≠ 0 then some (join tokens) else none
      endText := trim text
      conflict := false }
  else
    match splitAfterFinals casing finalized tokens with
    | none => { newFinal := none, endText := trim finalized, conflict := true }
    | some cut =>
      let rest := join (cut.carry ++ tokens.drop cut.k)
      { newFinal := if rest ≠ [] ∧ (spokenWords casing rest).length ≠ 0 then some rest else none
        endText := trim text
        conflict := false }

end Murage.SpokenFinals
