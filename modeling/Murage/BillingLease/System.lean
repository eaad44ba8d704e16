import Murage.BillingLease.Fencing
import Murage.Library.Transition

/-!
Owns the system of a lease: any number of workers over one database whose clock moves, and what
is asked of everything their statements did.

Does not own: which runs meet it.
-/

namespace Murage.BillingLease

open Murage.Library.Resumption
open Murage.Library.SqlText
open Murage.Library.Transition

variable {Tables Row : Type}

/-- The programs of workers: the calls, in any order and nesting, with awaits of anything else
between them. -/
inductive Works (e : Engine Tables Row) : {α : Type} → Prog (World Tables) α → Prop
  | done {α : Type} (value : Except String α) : Works e (.done value)
  | elsewhere {α : Type} (next : World Tables → Bool → Prog (World Tables) α)
      (works : ∀ w fails, Works e (next w fails)) : Works e (.await (fun w _ => w) next)
  | acquireHomeLease (homeId holder : String) : Works e (acquireHomeLease homeId holder)
  | fence (lease : HomeLease) : Works e (fence lease)
  | fencedRun (lease : HomeLease) (sql : Text) (binds : List Value) :
      Works e (fencedRun e lease sql binds)
  | fencedBatch (lease : HomeLease) (stmts : List Item) : Works e (fencedBatch e lease stmts)
  | releaseHomeLease (lease : HomeLease) : Works e (releaseHomeLease lease)
  | bind {α β : Type} {program : Prog (World Tables) α} {rest : α → Prog (World Tables) β}
      (works : Works e program) (works' : ∀ value, Works e (rest value)) :
      Works e (program >>= rest)
  | attempt {α : Type} {program : Prog (World Tables) α} (works : Works e program) :
      Works e program.attempt

structure Worker (e : Engine Tables Row) where
  program : Prog (World Tables) Unit
  works : Works e program

inductive Event (e : Engine Tables Row) where
  | start (worker : Worker e)
  /-- One await of one worker. -/
  | run (worker : Nat) (fails : Bool)
  /-- The database's clock moves forward. -/
  | tick (ms : Nat)
  /-- Statements that no lease fences. -/
  | others (tables : Tables)

abbrev System (Tables : Type) := Pool (World Tables) Unit

def apply (e : Engine Tables Row) (s : System Tables) : Event e → System Tables
  | .start worker => s.start worker.program
  | .run worker fails => s.step worker fails
  | .tick ms => { s with world := { s.world with db := { s.world.db with now := s.world.db.now + ms } } }
  | .others tables => { s with world := { s.world with db := { s.world.db with tables } } }

def Step (e : Engine Tables Row) : System Tables → Event e → System Tables → Prop :=
  ofFunction (apply e)

def start (db : Db Tables) : System Tables := { world := { db } }

/-! ## What is asked -/

def LeavesOthers (lease : HomeLease) (before after : Db Tables) : Prop :=
  ∀ homeId row, before.leases homeId = some row → ¬ (homeId = lease.homeId ∧ row.isOf lease = true) →
    after.leases homeId = some row

/-- What a fenced statement, a batch, an extension or a release did is what it may do. -/
def Observation.Fenced (e : Engine Tables Row) : Observation Tables → Prop
  | .ran lease sql binds before after changes =>
    (before.held lease = true →
      match e.execute before sql binds with
      | .ok (tables, n) => after = { before with tables } ∧ changes = .ok n
      | .error error => after = before ∧ changes = .error error) ∧
    (before.held lease = false → after = before)
  | .batched lease stmts before after changes =>
    (before.held lease = true →
      match e.executeAll before stmts with
      | .ok (db, counts) => after = db ∧ changes = .ok counts
      | .error error => after = before ∧ changes = .error error) ∧
    (before.held lease = false → after = before) ∧
    ∀ homeId row, before.leases homeId = some row →
      (∀ lease, .renew lease ∈ stmts → ¬ (homeId = lease.homeId ∧ row.isOf lease = true)) →
        after.leases homeId = some row
  | .extended lease before after => LeavesOthers lease before after
  | .released lease before after => LeavesOthers lease before after
  | .took _ _ _ => True
  | .acquired _ _ => True

/-- A later taking of a home's lease answers with a greater generation. -/
def Increasing (trace : List (Observation Tables)) : Prop :=
  ∀ first second since later, .acquired first since ∈ trace → .acquired second later ∈ trace →
    first.homeId = second.homeId → since < later → first.generation < second.generation

/-- A statement that ran is one the lease condition fences, in the state it ran in. -/
def Observation.Covered (e : Engine Tables Row) : Observation Tables → Prop
  | .ran lease sql binds before _ _ => Fences e before lease sql binds
  | _ => True

/-- No holder took the lease again between the two statements of an acquisition of its own. -/
def NoOverlap (seen : List (Observation Tables)) : Prop :=
  ∀ position lease since, seen[position]? = some (Observation.acquired lease since) →
    ∀ between generation, since < between → between < position →
      seen[between]? ≠ some (Observation.took lease.homeId lease.holder generation)

end Murage.BillingLease
