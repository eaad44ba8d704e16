import Murage.Library.WholeDoubles

/-!
Owns texts as JavaScript has them: lists of UTF-16 code units, the searches and the character
classes the reader uses on them, and numbers read from digits.

Does not own: what a command means.
-/

namespace Murage.Shell

open Murage.Library.WholeDoubles

abbrev Text := List UInt16

/-- The code unit of a character that is one. -/
def u (c : Char) : UInt16 := c.val.toUInt16

def units (s : String) : Text := s.toList.map u

def backslash : UInt16 := 0x5c
def singleQuote : UInt16 := 0x27
def doubleQuote : UInt16 := 0x22
def backquote : UInt16 := 0x60

/-! ## Classes -/

def isDigit (c : UInt16) : Bool := u '0' ≤ c && c ≤ u '9'

def isLetter (c : UInt16) : Bool := (u 'a' ≤ c && c ≤ u 'z') || (u 'A' ≤ c && c ≤ u 'Z')

/-- `[A-Za-z_]` -/
def nameStart (c : UInt16) : Bool := isLetter c || c == u '_'

/-- `[A-Za-z0-9_]` -/
def nameChar (c : UInt16) : Bool := nameStart c || isDigit c

/-- `[A-Za-z0-9._-]` -/
def tildeUser (c : UInt16) : Bool := nameChar c || c == u '.' || c == u '-'

/-- `\s` -/
def isSpace (c : UInt16) : Bool :=
  (9 ≤ c && c ≤ 13) || c == 0x20 || c == 0xa0 || c == 0x1680 || (0x2000 ≤ c && c ≤ 0x200a) ||
    c == 0x2028 || c == 0x2029 || c == 0x202f || c == 0x205f || c == 0x3000 || c == 0xfeff

def isBlank (c : UInt16) : Bool := c == u ' ' || c == u '\t'

/-- `WORD_END` -/
def wordEnd (c : UInt16) : Bool := (units " \t\n;&|()<>").contains c

/-- `SPECIAL_VAR` -/
def specialVar (c : UInt16) : Bool := (units "@*#?-$!0123456789").contains c

/-! ## Searches -/

/-- What is before the first `stop`, and what begins with it. -/
def upTo (stop : UInt16) : Text → Option (Text × Text)
  | [] => none
  | c :: rest =>
    if c = stop then some ([], c :: rest)
    else (upTo stop rest).map fun found => (c :: found.1, found.2)

/-- The same for the first `stop` that no backslash escapes. -/
def upToUnescaped (stop : UInt16) : Text → Option (Text × Text)
  | [] => none
  | c :: rest =>
    if c = backslash then
      match rest with
      | [] => none
      | escaped :: rest =>
        (upToUnescaped stop rest).map fun found => (c :: escaped :: found.1, found.2)
    else if c = stop then some ([], c :: rest)
    else (upToUnescaped stop rest).map fun found => (c :: found.1, found.2)

def splitOn (separator : UInt16) : Text → List Text
  | [] => [[]]
  | c :: rest =>
    if c = separator then [] :: splitOn separator rest
    else
      match splitOn separator rest with
      | [] => [[c]]
      | first :: others => (c :: first) :: others

def joinWith (separator : UInt16) : List Text → Text
  | [] => []
  | [part] => part
  | part :: rest => part ++ separator :: joinWith separator rest

/-- Whether `part` occurs. -/
def includes (text part : Text) : Bool := text.tails.any part.isPrefixOf

/-- Whether a character of `first` is followed by `(`: `[…]\(`. -/
def opensParen (first : Text) : Text → Bool
  | c :: d :: rest => (first.contains c && d == u '(') || opensParen first (d :: rest)
  | _ => false

/-! ## Numbers -/

/-- A number that digits and the reader's arithmetic give. -/
inductive Num where
  | nan
  | infinite (negative : Bool)
  | finite (value : Int)
deriving DecidableEq, Repr

/-- The number nearest to a whole number. -/
def Num.ofInt (n : Int) : Num :=
  let magnitude := roundNat n.natAbs
  if limit ≤ magnitude then .infinite (n < 0)
  else .finite (if n < 0 then -magnitude else magnitude)

namespace Num

def neg : Num → Num
  | nan => nan
  | infinite negative => infinite (!negative)
  | finite value => finite (-value)

def add : Num → Num → Num
  | finite x, finite y => ofInt (x + y)
  | infinite a, infinite b => if a = b then infinite a else nan
  | infinite a, finite _ => infinite a
  | finite _, infinite b => infinite b
  | _, _ => nan

def sub (x y : Num) : Num := x.add y.neg

def abs : Num → Num
  | nan => nan
  | infinite _ => infinite false
  | finite value => finite value.natAbs

/-- `<=`, false as soon as one side is no number. -/
def le : Num → Num → Bool
  | finite x, finite y => x ≤ y
  | infinite a, infinite b => a || !b
  | infinite a, finite _ => a
  | finite _, infinite b => !b
  | _, _ => false

def lt (x y : Num) : Bool := x.le y && !y.le x

end Num

def digitsValue (digits : Text) : Nat :=
  digits.foldl (fun value c => 10 * value + (c.toNat - (u '0').toNat)) 0

/-- `Number`, on digits with or without a sign. -/
def Num.ofText : Text → Num
  | c :: digits =>
    if c = u '-' then .ofInt (-(digitsValue digits : Int)) else .ofInt (digitsValue (c :: digits))
  | [] => .finite 0

example : Num.ofText (units "9007199254740993") = .finite 9007199254740992 := by decide +kernel

end Murage.Shell
