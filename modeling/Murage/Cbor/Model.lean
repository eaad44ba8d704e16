import Mathlib
import Murage.Library.Utf8

/-!
Owns `decodeCbor`: the reader of an attestation object, over the bytes that are left.

Does not own: what the texts of the thrown errors say beyond their names, and the property
order of an object: a map is the list of its entries in the order they were set.
-/

namespace Murage.Cbor

open Murage.Library
open Murage.Library.Utf8 (Bytes)

inductive Value where
  | bool (value : Bool)
  | null
  | int (value : Int)
  | bytes (value : Bytes)
  | text (value : String)
  | array (items : List Value)
  | map (entries : List (String × Value))

/-- What reads on from the cursor: a result and the bytes after it, or a throw. -/
abbrev Reader := StateT Bytes (Except String)

/-! ## Thirty-two bit numbers -/

/-- The number a bitwise operator gives. -/
def int32 (bits : Nat) : Int := Int.bmod bits (2 ^ 32)

/-- `number >>> 0`. -/
def uint32 (number : Int) : Nat := (number % 2 ^ 32).toNat

/-! ## The readers -/

def byte : Reader Nat
  | [] => .error "cbor: truncated"
  | first :: rest => .ok (first.toNat, rest)

/-- The argument of a head, by its five low bits. -/
def length (info : Nat) : Reader Int :=
  if info < 24 then pure info
  else if info = 24 then do
    let first ← byte
    return first
  else if info = 25 then do
    let first ← byte
    let second ← byte
    return int32 ((first <<< 8) ||| second)
  else if info = 26 then do
    let first ← byte
    let second ← byte
    let third ← byte
    let fourth ← byte
    return uint32 (int32 (first <<< 24)) + int32 (second <<< 16) + int32 (third <<< 8) + fourth
  else throw "cbor: unsupported length"

def take (n : Nat) : Reader Bytes := fun bytes =>
  if bytes.length < n then .error "cbor: truncated" else .ok (bytes.take n, bytes.drop n)

/-- `n` items, one after another. -/
def items (item : Reader Value) : Nat → Reader (List Value)
  | 0 => return []
  | n + 1 => do
      let value ← item
      let values ← items item n
      return value :: values

/-- `n` entries more of a map. -/
def entries (item : Reader Value) : Nat → List (String × Value) → Reader (List (String × Value))
  | 0, map => return map
  | n + 1, map => do
      match ← item with
      | .text key =>
        -- A repeated key could hide a second value.
        if key = "__proto__" ∨ key ∈ map.map (·.1) then throw "cbor: bad key"
        else
          let value ← item
          entries item n (map ++ [(key, value)])
      | _ => throw "cbor: non-text key"

/-- What follows a head of a major type below seven. -/
def content (item : Reader Value) (major n : Nat) : Reader Value :=
  match major with
  | 0 => return .int n
  | 1 => return .int (-1 - n)
  | 2 => do
      let taken ← take n
      return .bytes taken
  | 3 => do
      let taken ← take n
      match Utf8.decode taken with
      | some text => return .text (String.ofList text)
      | none => throw "TypeError"
  | 4 => do
      let values ← items item n
      return .array values
  | 5 => do
      let map ← entries item n []
      return .map map
  | _ => throw "cbor: unsupported major type"

/-- A value of major type seven. -/
def simple (info : Nat) : Reader Value :=
  if info = 20 then return .bool false
  else if info = 21 then return .bool true
  else if info = 22 then return .null
  else throw "cbor: unsupported simple value"

/-- One item; `room` is how many levels there may be, its own with them. -/
def item : Nat → Reader Value
  | 0 => throw "cbor: too deep"
  | room + 1 => do
      let initial ← byte
      let major := initial >>> 5
      let info := initial &&& 0x1F
      if major = 7 then simple info
      else
        let n ← length info
        content (item room) major n.toNat

/-- The deepest level is the sixteenth below the first. -/
def decodeCbor (bytes : Bytes) : Except String Value :=
  match item 17 bytes with
  | .error message => .error message
  | .ok (value, rest) => if rest ≠ [] then .error "cbor: trailing bytes" else .ok value

end Murage.Cbor
