import Mathlib
import Murage.Library.Resumption
import Murage.Library.SqlText

/-!
Owns a home's billing lease: the lease row and the statements on it, the condition that fences a
statement under a lease, and the calls that take, extend, use and give back a lease, as programs
that stop at every await.

Does not own: what the billing tables hold, and what a database does with a statement it read.
-/

namespace Murage.BillingLease

open Murage.Library.Resumption
open Murage.Library.SqlText

def BILLING_LEASE_MS : Int := 2 * 60000

structure HomeLease where
  homeId : String
  holder : String
  generation : Int
deriving DecidableEq, Repr

/-- A row of `billing_home_leases`. -/
structure LeaseRow where
  holder : Option String
  leaseUntil : Option Int
  generation : Int
deriving DecidableEq, Repr

/-- The database: the lease rows by home, the billing tables, and its own clock. -/
structure Db (Tables : Type) where
  leases : String → Option LeaseRow
  tables : Tables
  now : Int

/-- Milliseconds since the epoch, on the database's clock. -/
def DB_NOW : Text :=
  [.word "CAST", .opening, .opening, .word "julianday", .opening, .literal "now", .closing,
    .word "-", .word "2440587.5", .closing, .word "*", .word "86400000", .word "AS",
    .word "INTEGER", .closing]

def HELD : Text :=
  [.word "EXISTS", .opening, .keyword .SELECT, .word "1", .word "FROM",
    .word "billing_home_leases", .keyword .WHERE, .word "home_id", .word "=", .param none,
    .keyword .AND, .word "holder", .word "=", .param none, .keyword .AND, .word "generation",
    .word "=", .param none, .keyword .AND, .word "lease_until", .word ">="] ++ DB_NOW ++ [.closing]

def heldBinds (l : HomeLease) : List Value :=
  [.text l.homeId, .text l.holder, .integer l.generation]

def heldText (l : HomeLease) : Text := bound (heldBinds l) 0 HELD

section

variable {Tables Row : Type}

/-! ## The database -/

/-- `HELD`: the lease is the home's and has not expired. -/
def Db.held (db : Db Tables) (l : HomeLease) : Bool :=
  (db.leases l.homeId).any fun row =>
    row.holder == some l.holder && row.generation == l.generation &&
      row.leaseUntil.any fun leaseUntil => decide (db.now ≤ leaseUntil)

/-- What a database does with a statement it read. -/
structure Engine (Tables Row : Type) where
  /-- The rows an `UPDATE` or `DELETE` runs over. -/
  rows : Db Tables → Text → List Row
  /-- A factor of a condition, at a row or at none. -/
  test : Db Tables → Option Row → Text → Option Bool
  change : Db Tables → Text → List Row → Text → Except String (Tables × Nat)
  insert : Db Tables → Text → Text → Text → Except String (Tables × Nat)
  test_held : ∀ db row l, test db row (heldText l) = some (db.held l)
  /-- A statement whose condition no row meets changes nothing. -/
  change_none : ∀ db head tail, change db head [] tail = .ok (db.tables, 0)

namespace Engine

def apply (e : Engine Tables Row) (db : Db Tables) : Reading → Except String (Tables × Nat)
  | .change head condition tail =>
    e.change db head
      ((e.rows db head).filter fun row => condition.all (meets (e.test db (some row)))) tail
  | .insert head rows condition tail =>
    if condition.all (meets (e.test db none)) then e.insert db head rows tail
    else .ok (db.tables, 0)

/-- One statement, prepared, bound and run. -/
def execute (e : Engine Tables Row) (db : Db Tables) (sql : Text) (binds : List Value) :
    Except String (Tables × Nat) :=
  if largest 0 sql ≠ binds.length then .error "wrong_number_of_parameter_bindings"
  else
    match readStatement (bound binds 0 sql) with
    | none => .error "syntax_error"
    | some reading => e.apply db reading

end Engine

/-- An `UPDATE` of a lease row. -/
def Db.updateLease (db : Db Tables) (homeId : String) (guard : LeaseRow → Bool)
    (set : LeaseRow → LeaseRow) : Db Tables × Nat :=
  match db.leases homeId with
  | some row =>
    if guard row then
      ({ db with leases := Function.update db.leases homeId (some (set row)) }, 1)
    else (db, 0)
  | none => (db, 0)

def LeaseRow.isOf (row : LeaseRow) (l : HomeLease) : Bool :=
  row.holder == some l.holder && row.generation == l.generation

namespace Db

/-- `INSERT OR IGNORE`: every home has a lease row. -/
def insertLease (db : Db Tables) (homeId : String) : Db Tables :=
  match db.leases homeId with
  | some _ => db
  | none =>
    { db with
      leases :=
        Function.update db.leases homeId
          (some { holder := none, leaseUntil := none, generation := 0 }) }

def takeLease (db : Db Tables) (homeId holder : String) : Db Tables × Nat :=
  db.updateLease homeId
    (fun row => row.holder == none || row.leaseUntil.any (fun u => decide (u < db.now)) ||
      row.holder == some holder)
    fun row =>
      { holder := some holder
        leaseUntil := some (db.now + BILLING_LEASE_MS)
        generation := row.generation + 1 }

def extendLease (db : Db Tables) (l : HomeLease) : Db Tables × Nat :=
  db.updateLease l.homeId
    (fun row => row.isOf l && row.leaseUntil.any fun u => decide (db.now ≤ u))
    fun row => { row with leaseUntil := some (db.now + BILLING_LEASE_MS) }

/-- `renewLeaseStatement`: the batch's guard has just checked that the lease is held. -/
def renewLease (db : Db Tables) (l : HomeLease) : Db Tables × Nat :=
  db.updateLease l.homeId (·.isOf l)
    fun row => { row with leaseUntil := some (db.now + BILLING_LEASE_MS) }

def releaseLease (db : Db Tables) (l : HomeLease) : Db Tables × Nat :=
  db.updateLease l.homeId (·.isOf l) fun row => { row with holder := none, leaseUntil := none }

end Db

/-! ## Fenced statements -/

/-- `/\bWHERE\b/i` finds the word in a literal too. -/
def Tok.mentionsWhere : Tok → Bool
  | .keyword .WHERE => true
  | .literal text =>
    (text.toList.splitOnP fun c => !(c.isAlphanum || c == '_')).any fun found =>
      found.map Char.toUpper == ['W', 'H', 'E', 'R', 'E']
  | _ => false

/-- `match(/\?/g)` counts in literals too. -/
def questionMarks (text : Text) : Nat :=
  (text.map fun t => match t with
    | .param _ => 1
    | .literal text => text.toList.count '?'
    | _ => 0).sum

/-- The text before the first `VALUES (`, and the text after it. -/
def beforeValues : Text → Option (Text × Text)
  | [] => none
  | .keyword .VALUES :: .opening :: rest => some ([], rest)
  | t :: rest => (beforeValues rest).map fun (head, rest) => (t :: head, rest)

/-- The text before the first `)` that ends the statement or has `ON CONFLICT` after it. -/
def beforeTail : Text → Option (Text × Text)
  | [] => none
  | .closing :: [] => some ([], [])
  | .closing :: .keyword .ON :: .keyword .CONFLICT :: rest =>
    some ([], .keyword .ON :: .keyword .CONFLICT :: rest)
  | t :: rest => (beforeTail rest).map fun (values, tail) => (t :: values, tail)

/-- `/^(INSERT\b[\s\S]*?)\bVALUES\s*\(([\s\S]*?)\)(\s*ON CONFLICT[\s\S]*)?$/i` -/
def insertParts : Text → Option (Text × Text × Text)
  | .keyword .INSERT :: rest => do
      let (head, rest) ← beforeValues (.keyword .INSERT :: rest)
      let (values, tail) ← beforeTail rest
      some (head, values, tail)
  | _ => none

/-- Adds the lease condition to a write. -/
def fenceSql (sql : Text) (binds : List Value) (lease : HomeLease) :
    Except String (Text × List Value) :=
  let s := trimmed sql
  let changes :=
    match s with
    | .keyword .UPDATE :: _ => true
    | .keyword .DELETE :: _ => true
    | _ => false
  if changes then
    if !s.any Tok.mentionsWhere then .error "fenced_write_needs_where"
    else .ok (s ++ .keyword .AND :: HELD, binds ++ heldBinds lease)
  else
    match insertParts s with
    | none => .error "fenced_write_unsupported"
    | some (head, values, tail) =>
      -- The binds follow the text: the values, the lease condition, the rest.
      let n := questionMarks values
      .ok (head ++ .keyword .SELECT :: (values ++ .keyword .WHERE :: (HELD ++ tail)),
        binds.take n ++ (heldBinds lease ++ binds.drop n))

/-! ## The calls -/

/-- A statement of a batch. -/
inductive Item where
  | write (sql : Text) (binds : List Value)
  /-- `renewLeaseStatement`. -/
  | renew (lease : HomeLease)
deriving DecidableEq, Repr

namespace Engine

def executeItem (e : Engine Tables Row) (db : Db Tables) : Item → Except String (Db Tables × Nat)
  | .write sql binds => (e.execute db sql binds).map fun (tables, n) => ({ db with tables }, n)
  | .renew lease => .ok (db.renewLease lease)

/-- A batch: one transaction. -/
def executeAll (e : Engine Tables Row) (db : Db Tables) :
    List Item → Except String (Db Tables × List Nat)
  | [] => .ok (db, [])
  | item :: rest => do
      let (db, n) ← e.executeItem db item
      let (db, changes) ← e.executeAll db rest
      .ok (db, n :: changes)

end Engine

/-- What a statement of a call did, as the database saw it. -/
inductive Observation (Tables : Type) where
  /-- `fencedRun`'s statement, under the lease. -/
  | ran (lease : HomeLease) (sql : Text) (binds : List Value) (before after : Db Tables)
      (changes : Except String Nat)
  | batched (lease : HomeLease) (stmts : List Item) (before after : Db Tables)
      (changes : Except String (List Nat))
  /-- An acquisition took the lease row. -/
  | took (homeId holder : String) (generation : Int)
  /-- An acquisition returns its lease: the row it read, and when its own taking was. -/
  | acquired (lease : HomeLease) (since : Nat)
  | extended (lease : HomeLease) (before after : Db Tables)
  | released (lease : HomeLease) (before after : Db Tables)

/-- The database, and what its statements did so far, oldest first. -/
structure World (Tables : Type) where
  db : Db Tables
  trace : List (Observation Tables) := []

def World.saw (w : World Tables) (after : Db Tables) (o : Observation Tables) : World Tables :=
  { db := after, trace := w.trace ++ [o] }

variable {α : Type}

/-- One statement and its answer: either may fail, the answer after the statement was run. -/
def query (run : World Tables → World Tables × Except String α) : Prog (World Tables) α :=
  .await (fun w fails => if fails then w else (run w).1) fun w fails =>
    if fails then Prog.fail "d1_unavailable"
    else
      .await (fun w _ => w) fun _ lost =>
        if lost then Prog.fail "d1_connection_lost" else .done (run w).2

def runFenced (e : Engine Tables Row) (lease : HomeLease) (sql : Text) (binds : List Value)
    (fenced : Text × List Value) (w : World Tables) : World Tables × Except String Nat :=
  match e.execute w.db fenced.1 fenced.2 with
  | .ok (tables, n) =>
    let after := { w.db with tables }
    (w.saw after (.ran lease sql binds w.db after (.ok n)), .ok n)
  | .error error => (w.saw w.db (.ran lease sql binds w.db w.db (.error error)), .error error)

/-- The guard row's `CHECK` fails when the lease is gone, and the batch with it. -/
def runBatch (e : Engine Tables Row) (lease : HomeLease) (stmts : List Item) (w : World Tables) :
    World Tables × Except String (List Nat) :=
  let result :=
    if w.db.held lease then e.executeAll w.db stmts else .error "CHECK constraint failed: ok=1"
  match result with
  | .ok (after, changes) =>
    (w.saw after (.batched lease stmts w.db after (.ok changes)), .ok changes)
  | .error error =>
    (w.saw w.db (.batched lease stmts w.db w.db (.error error)), .error error)

/-- The `UPDATE` of an acquisition, with the moment of its taking. -/
def runTake (homeId holder : String) (w : World Tables) :
    World Tables × Except String (Nat × Nat) :=
  match w.db.takeLease homeId holder with
  | (after, 1) =>
    let generation := ((after.leases homeId).map (·.generation)).getD 0
    (w.saw after (.took homeId holder generation), .ok (1, w.trace.length))
  | (_, n) => (w, .ok (n, w.trace.length))

/-- The `SELECT` of an acquisition. -/
def runRead (homeId holder : String) (since : Nat) (w : World Tables) :
    World Tables × Except String (Option HomeLease) :=
  match (w.db.leases homeId).filter fun row => row.holder == some holder with
  | none => (w, .ok none)
  | some row =>
    let lease := { homeId, holder, generation := row.generation }
    (w.saw w.db (.acquired lease since), .ok (some lease))

def stillHeld (lease : HomeLease) : Prog (World Tables) Bool :=
  query fun w => (w, .ok (w.db.held lease))

def acquireHomeLease (homeId holder : String) : Prog (World Tables) (Option HomeLease) := do
  query fun w => ({ w with db := w.db.insertLease homeId }, .ok ())
  let (changes, since) ← query (runTake homeId holder)
  if changes ≠ 1 then return none
  query (runRead homeId holder since)

def fence (lease : HomeLease) : Prog (World Tables) Unit := do
  let changes ← query fun w =>
    let (after, n) := w.db.extendLease lease
    (w.saw after (.extended lease w.db after), .ok n)
  if changes ≠ 1 then Prog.fail "lease_lost"

def fencedRun (e : Engine Tables Row) (lease : HomeLease) (sql : Text) (binds : List Value) :
    Prog (World Tables) Nat :=
  match fenceSql sql binds lease with
  | .error error => Prog.fail error
  | .ok fenced => do
      let changes ← query (runFenced e lease sql binds fenced)
      if changes = 0 then
        if ← stillHeld lease then return changes
        Prog.fail "lease_lost"
      else return changes

def fencedBatch (e : Engine Tables Row) (lease : HomeLease) (stmts : List Item) :
    Prog (World Tables) (List Nat) := do
  match ← (query (runBatch e lease stmts)).attempt with
  | .ok changes => return changes
  | .error error =>
    if ← stillHeld lease then Prog.fail error
    else Prog.fail "lease_lost"

def releaseHomeLease (lease : HomeLease) : Prog (World Tables) Unit :=
  query fun w =>
    let after := (w.db.releaseLease lease).1
    (w.saw after (.released lease w.db after), .ok ())

end

end Murage.BillingLease
