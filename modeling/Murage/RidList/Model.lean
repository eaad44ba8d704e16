import Mathlib.Data.List.Sort
import Murage.Library.Bisect

/-!
Owns the list of rowids in sorted blocks behind a head index: filing a rowid, dropping the lowest
ones, and reading the list either way.

Does not own: what a rowid names, and the counters of moved elements.
-/

namespace Murage.RidList

open Murage.Library

def RID_BLOCK : Nat := 512
/-- Free slots kept in front of the first block when the front runs out of room. -/
def FRONT_SLACK : Nat := 16

abbrev Block := List Int

abbrev Slot := Option Block

structure RidList where
  blocks : List Slot := []
  head : Nat := 0
  size : Nat := 0
deriving DecidableEq, Repr

def readSlot (blocks : List Slot) (place : Nat) : Option Block :=
  match blocks[place]? with
  | some slot => slot
  | none => none

def RidList.count (list : RidList) : Nat := list.blocks.length - list.head

/-- The search of `blockOf`, from `lo` to `hi`: the first block whose last rowid is `rid` or
more. -/
def blockOf (blocks : List Slot) (head : Nat) (rid : Int) (lo hi : Nat) : Option Nat :=
  if lo < hi then
    let mid := (lo + hi) / 2
    match readSlot blocks (head + mid) with
    | none => none
    | some block =>
      match block.getLast? with
      | none => none
      | some last =>
        if last < rid then blockOf blocks head rid (mid + 1) hi
        else blockOf blocks head rid lo mid
  else some lo
termination_by hi - lo

/-- `for (let i = 0; i < index; i++) b[head + i] = b[head + i + 1]`. -/
def shiftDown (blocks : List Slot) (head : Nat) : (index : Nat) → Option (List Slot)
  | 0 => some blocks
  | index + 1 =>
    match shiftDown blocks head index with
    | none => none
    | some shifted =>
      match readSlot shifted (head + index + 1) with
      | none => none
      | some moved => some (shifted.set (head + index) (some moved))

/-- Put a block before the one at `index`, moving the fewer of the blocks before it or after it. -/
def placeBefore (list : RidList) (index : Nat) (block : Block) : Option RidList :=
  let count := list.count
  if index < count - index then
    let refilled :=
      if list.head = 0 then
        { list with
          blocks := List.replicate (max FRONT_SLACK count) none ++ list.blocks
          head := max FRONT_SLACK count }
      else list
    let head := refilled.head - 1
    match shiftDown refilled.blocks head index with
    | none => none
    | some shifted =>
      some { refilled with blocks := shifted.set (head + index) (some block), head := head }
  else
    some { list with
      blocks := list.blocks.take (list.head + index) ++
        some block :: list.blocks.drop (list.head + index) }

def findPlace (list : RidList) (rid : Int) : Option (Nat × Block × Option Nat) :=
  match readSlot list.blocks (list.blocks.length - 1) with
  | none => none
  | some last =>
    match last.getLast? with
    | none => none
    | some highest =>
      if highest < rid then some (list.count - 1, last, some last.length)
      else
        match blockOf list.blocks list.head rid 0 (list.count - 1) with
        | none => none
        | some index =>
          match readSlot list.blocks (list.head + index) with
          | none => none
          | some block =>
            let lo := bisect (fun mid => block.getD mid 0 < rid) 0 block.length
            some (index, block, if block[lo]? = some rid then none else some lo)

/-- File a rowid: the list, and whether it was not held. -/
def insert (list : RidList) (rid : Int) : Option (RidList × Bool) :=
  if list.count = 0 then
    some ({ list with
      blocks := list.blocks.take list.head ++ [some [rid]], size := list.size + 1 }, true)
  else
    match findPlace list rid with
    | none => none
    | some (_, _, none) => some (list, false)
    | some (index, block, some lo) =>
      let filed := block.take lo ++ rid :: block.drop lo
      if RID_BLOCK < filed.length then
        -- the lower half becomes a block of its own before this one
        let split := { list with
          blocks := list.blocks.set (list.head + index) (some (filed.drop (RID_BLOCK / 2)))
          size := list.size + 1 }
        match placeBefore split index (filed.take (RID_BLOCK / 2)) with
        | none => none
        | some placed => some (placed, true)
      else
        some ({ list with
          blocks := list.blocks.set (list.head + index) (some filed), size := list.size + 1 }, true)

def readAll (blocks : List Slot) : (places : List Nat) → Option (List Block)
  | [] => some []
  | place :: places =>
    match readSlot blocks place, readAll blocks places with
    | some block, some rest => some (block :: rest)
    | _, _ => none

def RidList.places (list : RidList) : List Nat :=
  List.range' list.head (list.blocks.length - list.head)

def ascending (list : RidList) : Option (List Int) :=
  (readAll list.blocks list.places).map List.flatten

def descending (list : RidList) : Option (List Int) :=
  (readAll list.blocks list.places.reverse).map fun blocks => (blocks.map List.reverse).flatten

def toArray (list : RidList) : Option (List Int) :=
  ((list.blocks.drop list.head).mapM id).map List.flatten

def dropBlocks : (fuel : Nat) → Nat → RidList → Option (Nat × RidList)
  | 0, n, list => some (n, list)
  | fuel + 1, n, list =>
    if 0 < n ∧ list.head < list.blocks.length then
      match readSlot list.blocks list.head with
      | none => none
      | some block =>
        if block.length ≤ n then
          dropBlocks fuel (n - block.length)
            { blocks := list.blocks.set list.head none
              head := list.head + 1
              size := list.size - block.length }
        else some (n, list)
    else some (n, list)

/-- Drop the `count` lowest rowids. The loop advances the head, so it takes one turn for each slot at
most. -/
def dropFront (list : RidList) (count : Nat) : Option RidList :=
  match dropBlocks (list.blocks.length + 1) (min count list.size) list with
  | none => none
  | some (n, list) =>
    let cut :=
      if 0 < n ∧ list.head < list.blocks.length then
        match readSlot list.blocks list.head with
        | none => none
        | some block =>
          some { list with
            blocks := list.blocks.set list.head (some (block.drop n)), size := list.size - n }
      else some list
    cut.map fun list =>
      if list.head = list.blocks.length then { list with blocks := [], head := 0 }
      else if FRONT_SLACK < list.head ∧ 2 * list.count < list.head then
        { list with blocks := list.blocks.drop list.head, head := 0 }
      else list

end Murage.RidList
