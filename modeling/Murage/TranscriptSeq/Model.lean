import Mathlib.Logic.Function.Basic
import Murage.Library.Numbers
import Murage.Library.Transition

/-!
Owns the numbered messages table: its rows, the insert that may replace a row, the
deletion of a conversation, and the walk that numbers the rows stored before the index.

Does not own: invariants over runs, what listeners are told, the walk's figures.
-/

namespace Murage.TranscriptSeq

open Murage.Library.Numbers

/-- A stored message. `replaced` is no column: it marks a row that took an older row's place. -/
structure Row where
  rowid : Nat
  threadId : String
  id : String
  seq : Option Nat
  replaced : Bool
deriving DecidableEq, Repr

/-- The table, in the order of its positions, with the walk's stored state. -/
structure Db where
  rows : List Row
  indexReady : Bool
  cursor : Nat
  done : Bool
  /-- The cursors read by calls whose transaction has not begun. -/
  reads : List Nat
deriving Repr

def Row.isKey (threadId id : String) (row : Row) : Bool := row.threadId == threadId && row.id == id

def numbersOf (rows : List Row) (threadId : String) : List Nat :=
  (rows.filter (·.threadId == threadId)).filterMap (·.seq)

/-- `COALESCE(MAX(seq), 0) + 1`. -/
def nextSeq (rows : List Row) (threadId : String) : Nat := top (numbersOf rows threadId) + 1

def newestRowid (rows : List Row) : Nat := top (rows.map (·.rowid))

namespace Db

def prior (db : Db) (threadId id : String) : Option Row := db.rows.find? (Row.isKey threadId id)

def seqOfRow (db : Db) (threadId id : String) : Option Nat := (db.prior threadId id).bind (·.seq)

def threadNumbered (db : Db) (threadId : String) : Bool :=
  db.indexReady && !db.rows.any fun row => row.threadId == threadId && row.seq.isNone

def storedSeq (db : Db) (threadId id : String) : Option Nat :=
  match db.seqOfRow threadId id with
  | some held => some held
  | none => if db.threadNumbered threadId then some (nextSeq db.rows threadId) else none

/-- `INSERT OR REPLACE`: the position is taken before the replaced row goes. -/
def replaceRow (db : Db) (threadId id : String) : Db :=
  { db with
    rows := db.rows.filter (fun row => !row.isKey threadId id) ++
      [{ rowid := newestRowid db.rows + 1, threadId, id, seq := db.storedSeq threadId id,
         replaced := (db.prior threadId id).isSome }] }

def deleteThread (db : Db) (threadId : String) : Db :=
  { db with rows := db.rows.filter fun row => row.threadId != threadId }

def createIndex (db : Db) : Db := { db with indexReady := true }

end Db

/-- The variables of the walk's loop. -/
structure Walk where
  rows : List Row
  next : String → Option Nat
  scanned : Nat
  cursor : Nat

def seqDeadlineEvery : Nat := 25

/-- `UPDATE messages SET seq = ? WHERE rowid = ?`. -/
def setSeq (rows : List Row) (seq rowid : Nat) : List Row :=
  rows.map fun row => if row.rowid = rowid then { row with seq := some seq } else row

namespace Walk

/-- The number the loop gives a row of the conversation. -/
def number (walk : Walk) (threadId : String) : Nat :=
  (walk.next threadId).getD (top (numbersOf walk.rows threadId)) + 1

/-- One turn of the loop, `row` as the batch read it. -/
def visit (walk : Walk) (row : Row) : Walk :=
  match row.seq with
  | some _ => { walk with scanned := walk.scanned + 1, cursor := row.rowid }
  | none =>
    { rows := setSeq walk.rows (walk.number row.threadId) row.rowid
      next := Function.update walk.next row.threadId (some (walk.number row.threadId))
      scanned := walk.scanned + 1
      cursor := row.rowid }

/-- The loop. `late scanned` is what the clock says after `scanned` rows. -/
def loop (late : Nat → Bool) (batchLength : Nat) : List Row → Walk → Walk
  | [], walk => walk
  | row :: rest, walk =>
    let visited := walk.visit row
    if visited.scanned % seqDeadlineEvery = 0 ∧ visited.scanned < batchLength ∧
        late visited.scanned = true then visited
    else loop late batchLength rest visited

end Walk

/-- `LIMIT rows`: a negative limit is none. -/
def limited (rows : Int) (found : List Row) : List Row :=
  if rows < 0 then found else found.take rows.toNat

namespace Db

/-- The walk's batch: the rows above the cursor, in order, at most `rows` of them. -/
def batch (db : Db) (cursor : Nat) (rows : Int) : List Row :=
  limited rows (db.rows.filter fun row => cursor < row.rowid)

/-- `numberSeqChunk` up to its transaction: the index is probed and the walk's state read. -/
def readIndexState (db : Db) : Db :=
  if db.indexReady && !db.done then { db with reads := db.cursor :: db.reads } else db

/-- The transaction of `numberSeqChunk`, from the cursor its call read. -/
def numberRows (db : Db) (cursor : Nat) (rows : Int) (late : Nat → Bool) : Db :=
  match db.batch cursor rows with
  | [] => { db with done := true, cursor }
  | batch@(_ :: _) =>
    let walk := Walk.loop late batch.length batch
      { rows := db.rows, next := fun _ => none, scanned := 0, cursor }
    { db with rows := walk.rows, done := false, cursor := walk.cursor }

/-- A call's transaction ends the call. -/
def numberSeqChunk (db : Db) (cursor : Nat) (rows : Int) (late : Nat → Bool) : Db :=
  if cursor ∈ db.reads then
    { db.numberRows cursor rows late with reads := db.reads.erase cursor }
  else db

end Db

inductive Op where
  | replaceRow (threadId id : String)
  | deleteThread (threadId : String)
  | createIndex
  | readIndexState
  | numberSeqChunk (cursor : Nat) (rows : Int) (late : Nat → Bool)

/-- A crash before the commit loses a transaction whole. -/
inductive Txn where
  | committed (op : Op)
  | lost (op : Op)

namespace Db

def commit (db : Db) : Op → Db
  | .replaceRow threadId id => db.replaceRow threadId id
  | .deleteThread threadId => db.deleteThread threadId
  | .createIndex => db.createIndex
  | .readIndexState => db.readIndexState
  | .numberSeqChunk cursor rows late => db.numberSeqChunk cursor rows late

def apply (db : Db) : Txn → Db
  | .committed op => db.commit op
  | .lost _ => db

/-- A file from before the numbering. SQLite's positions start at 1. -/
structure Legacy (db : Db) : Prop where
  ordered : db.rows.Pairwise (·.rowid < ·.rowid)
  keys : db.rows.Pairwise fun row other => ¬(row.threadId = other.threadId ∧ row.id = other.id)
  positions : ∀ row ∈ db.rows, 1 ≤ row.rowid
  unnumbered : ∀ row ∈ db.rows, row.seq = none
  indexReady : db.indexReady = false
  cursor : db.cursor = 0
  done : db.done = false
  reads : db.reads = []

end Db

end Murage.TranscriptSeq
