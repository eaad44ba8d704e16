import Mathlib.Data.List.SplitOn
import Mathlib.Data.Nat.Digits.Defs

/-!
Owns the bucket of a client address: the readers of the two kinds of address and the text of the
bucket.

Does not own: the counters of a bucket, and its digest.
-/

namespace Murage.ClientBucket

abbrev Text := List UInt16

/-- The code unit of a character that is one. -/
def u (c : Char) : UInt16 := c.val.toUInt16

def units (s : String) : Text := s.toList.map u

/-! ## Numbers -/

def isDigit (c : UInt16) : Bool := 0x30 ≤ c && c ≤ 0x39

/-- `[0-9a-f]` -/
def isHexDigit (c : UInt16) : Bool := isDigit c || (0x61 ≤ c && c ≤ 0x66)

def digitOf (c : UInt16) : Nat := if isDigit c then c.toNat - 0x30 else c.toNat - 0x61 + 10

/-- `Number` and `parseInt`, of digits. -/
def numberOf (base : Nat) (text : Text) : Nat := text.foldl (fun n c => n * base + digitOf c) 0

def unitOf (digit : Nat) : UInt16 :=
  if digit < 10 then UInt16.ofNat (0x30 + digit) else UInt16.ofNat (0x61 + (digit - 10))

/-- `n.toString(base)` -/
def numberText (base n : Nat) : Text :=
  if n = 0 then [u '0'] else (Nat.digits base n).reverse.map unitOf

/-- `text.padStart(4, "0")` -/
def padStart4 (text : Text) : Text := List.replicate (4 - text.length) (u '0') ++ text

/-! ## The two kinds of address -/

def join (separator : UInt16) (parts : List Text) : Text := [separator].intercalate parts

/-- `\d{1,3}` -/
def isOctetText (text : Text) : Bool := 1 ≤ text.length && text.length ≤ 3 && text.all isDigit

def ipv4 (value : Text) : Option (List Nat) :=
  let parts := value.splitOn (u '.')
  if parts.length = 4 && parts.all isOctetText then
    let octets := parts.map (numberOf 10)
    if octets.all fun octet => octet ≤ 255 then some octets else none
  else none

/-- `HEXTET` -/
def isHextet (text : Text) : Bool := 1 ≤ text.length && text.length ≤ 4 && text.all isHexDigit

/-- `text.split("::")` -/
def splitPairs : Text → List Text
  | c :: d :: rest =>
    if c = u ':' ∧ d = u ':' then [] :: splitPairs rest
    else (splitPairs (d :: rest)).modifyHead (c :: ·)
  | text => [text]

/-- A dotted quad at the end becomes two groups. -/
def joined (value : Text) : Option Text :=
  let parts := value.splitOn (u ':')
  let tail := parts.getLastD []
  if tail.contains (u '.') then
    match ipv4 tail with
    | some [a, b, c, d] =>
      some (join (u ':') (parts.dropLast ++
        [numberText 16 ((a <<< 8) ||| b), numberText 16 ((c <<< 8) ||| d)]))
    | _ => none
  else some (join (u ':') parts)

def groupsOf (half : Text) : List Text := if half = [] then [] else half.splitOn (u ':')

/-- The eight groups, when each is one. -/
def hextets (all : List Text) : Option (List Nat) :=
  if all.all isHextet then some (all.map (numberOf 16)) else none

/-- The groups of a text whose `::` stands for the ones that are missing. -/
def groups8 (joined : Text) : Option (List Nat) :=
  match splitPairs joined with
  | [head] =>
    let head := groupsOf head
    if 8 - (head.length : Int) ≠ 0 then none else hextets head
  | [head, rest] =>
    let head := groupsOf head
    let rest := groupsOf rest
    let missing := 8 - (head.length : Int) - rest.length
    if missing < 1 then none
    else hextets (head ++ List.replicate missing.toNat [u '0'] ++ rest)
  | _ => none

def ipv6 (value : Text) : Option (List Nat) := (joined value).bind groups8

/-! ## The bucket -/

def lowerUnit (c : UInt16) : UInt16 := if 0x41 ≤ c ∧ c ≤ 0x5a then c + 0x20 else c

/-- `toLowerCase`: the letters of ASCII one by one, and beyond ASCII no lower case is made of
hexadecimal digits, colons and dots alone. -/
structure Casing where
  toLowerCase : Text → Text
  ascii : ∀ text : Text, (∀ c ∈ text, c < 0x80) → toLowerCase text = text.map lowerUnit
  beyond : ∀ text : Text, (∃ c ∈ text, 0x80 ≤ c) →
    ∃ c ∈ toLowerCase text, isHexDigit c = false ∧ c ≠ u ':' ∧ c ≠ u '.'

/-- What `.` does not match. -/
def endsLine (c : UInt16) : Bool := c = 0x0a || c = 0x0d || c = 0x2028 || c = 0x2029

/-- `address.replace(/^\[(.*)\]$/, "$1")` -/
def unbracketed (address : Text) : Text :=
  match address with
  | [] => []
  | c :: rest =>
    if c = u '[' ∧ rest.getLast? = some (u ']') ∧ rest.dropLast.all (!endsLine ·) then
      rest.dropLast
    else c :: rest

/-- `.replace(/%.*$/, "")` -/
def zoneless : Text → Text
  | [] => []
  | c :: rest =>
    if c = u '%' ∧ rest.all (!endsLine ·) then [] else c :: zoneless rest

def ip4Text (octets : List Nat) : Text := units "ip4=" ++ join (u '.') (octets.map (numberText 10))

def ip6Text (groups : List Nat) : Text :=
  units "ip6=" ++ join (u ':') ((groups.take 4).map fun group => padStart4 (numberText 16 group)) ++
    units "::/64"

/-- The bucket of the eight groups of an address. -/
def groupsText (groups : List Nat) : Text :=
  if (groups.take 5).all (· = 0) && groups.getD 5 0 = 0xffff then
    ip4Text [groups.getD 6 0 >>> 8, groups.getD 6 0 &&& 255, groups.getD 7 0 >>> 8,
      groups.getD 7 0 &&& 255]
  else ip6Text groups

def clientBucket (casing : Casing) (address : Option Text) : Text :=
  match address with
  | none => units "none"
  | some address =>
    match ipv4 address with
    | some v4 => ip4Text v4
    | none =>
      let bare := casing.toLowerCase (zoneless (unbracketed address))
      match if bare.contains (u ':') then ipv6 bare else none with
      | some v6 => groupsText v6
      | none => units "raw=" ++ address

end Murage.ClientBucket
