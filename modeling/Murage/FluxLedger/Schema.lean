import Mathlib
import Murage.GrantFence.Model

/-!
Owns the tables of the B4 grant ledger for one grant
(`src/cloudflare/control-plane/src/b4-flux-ledger.ts`, its migrations, and the
returned money of `dispute-sql.ts`): their rows, their CHECKs and unique indexes,
and the updates every batch is made of. An update whose row fails a CHECK, or
that collides in a unique index, fails its batch.

The payment records are those of the grant's home and invoice. The rows of
`flux_grant_causes` and `cloud_alerts` are written and never read by a batch, so
they are left out.

Does not own: which batches there are.
-/

namespace Murage.FluxLedger

open Murage.Library.Batch
open Murage.GrantFence (FenceDb)

inductive DispatchKind where
  | deliver
  | revoke
  | operator
deriving DecidableEq, Repr

inductive DispatchState where
  | opened
  | applied
  | refused
  | superseded
deriving DecidableEq, Repr

inductive RouterState where
  | none
  | maybe
  | delivered
  | revoking
  | revoked
  | manual
deriving DecidableEq, Repr

inductive PaidSource where
  | refundCoverage
  | refundOps
  | operator
deriving DecidableEq, Repr

inductive GrantStatus where
  | pending
  | done
  | failed
  | cancelled
  | reversed
  | expired
deriving DecidableEq, Repr

inductive Redeliver where
  | held
  | due
deriving DecidableEq, Repr

/-- `flux_grants`: the columns the ledger's batches read or write. -/
structure Grant where
  invoiceId : Option String
  kind : String := "period"
  amountMicrocents : Int
  status : GrantStatus := .pending
  redeliver : Option Redeliver := none
  attempts : Nat := 0
  claimId : Option String := none
deriving DecidableEq, Repr

/-- `flux_grant_accounts`. -/
structure Account where
  invoiceId : Option String
  amountMicrocents : Int
  paidCents : Option Int := none
  paidSource : Option PaidSource := none
  sizingEvidence : Option String := none
  sizedBy : Option String := none
  returnedCents : Int := 0
  sized : Bool := true
  desiredMicrocents : Int
  appliedMicrocents : Int := 0
  deliveredConfirmedMicrocents : Int := 0
  routerState : RouterState := .none
  revision : Nat := 1
  settledRevision : Option Nat := none
  debtSince : Option Nat := none
  lastTriedAt : Option Nat := none
  updatedAt : Nat
deriving DecidableEq, Repr

/-- `flux_grant_dispatches`, one row. -/
structure Dispatch where
  dispatchId : String
  kind : DispatchKind
  revision : Nat
  targetMicrocents : Int
  claimedAt : Nat
  expiresAt : Nat
  state : DispatchState := .opened
  outcome : Option String := none
  lastOutcome : Option String := none
  attempts : Nat := 1
  appliedMicrocents : Option Int := none
  adjustmentRef : Option String := none
  evidence : Option String := none
  performedBy : Option String := none
  completedAt : Option Nat := none
  receiptMicrocents : Option Int := none
  receiptEvidence : Option String := none
  receiptBy : Option String := none
  receiptAt : Option Nat := none
  wireGrantId : Option String := none
  remoteRevision : Option Nat := none
deriving DecidableEq, Repr

/-! ## The payment's records -/

/-- A row of `refund_coverage`. -/
structure Coverage where
  coveredCents : Int
  paidCents : Option Int
deriving DecidableEq, Repr

inductive DisputeOutcome where
  | won
  | lost
deriving DecidableEq, Repr

/-- A row of `payment_disputes`. -/
structure PaymentDispute where
  closedAt : Option Nat
  movementExact : Bool
  outcome : Option DisputeOutcome
  resolvedAt : Option Nat
  resolvedReturnedCents : Option Int
  returnedCents : Option Int
  amountCents : Option Int
deriving DecidableEq, Repr

structure Payments where
  coverage : List Coverage := []
  disputes : List PaymentDispute := []
  /-- The `paid_cents` of the invoice's refund operations. -/
  ops : List (Option Int) := []
deriving DecidableEq, Repr

/-- `DISPUTE_RETURNED_SQL`. -/
def PaymentDispute.returned (d : PaymentDispute) : Int :=
  if d.closedAt.isNone then 0
  else if !d.movementExact then
    if d.outcome = some .lost ∧ d.resolvedAt.isSome then d.resolvedReturnedCents.getD 0 else 0
  else
    match d.returnedCents with
    | some returned => returned
    | none => if d.outcome = some .lost then d.amountCents.getD 0 else 0

/-- `MAX(paid_cents) … WHERE paid_cents>0`. -/
def largestPaid (paid : List (Option Int)) : Option Int :=
  (paid.filterMap id |>.filter (0 < ·)).max?

/-- The money returned, all causes together. -/
def Payments.returned (p : Payments) : Int :=
  max 0 (p.coverage.map (·.coveredCents)).sum + max 0 (p.disputes.map (·.returned)).sum

/-- `amount - (amount * MIN(returned, paid)) / paid`, in SQL's integers. -/
def desiredFor (amount returned paid : Int) : Int := amount - (amount * min returned paid).tdiv paid

/-! ## CHECKs -/

/-- `length(trim(x)) > 0`; NULL fails. -/
def nonblank (text : Option String) : Bool := text.any fun t => t.toList.any (· != ' ')

/-- The CHECKs of `flux_grant_accounts`. -/
def Account.check (a : Account) : Bool :=
  decide (0 < a.amountMicrocents) && a.paidCents.all (0 < ·) && decide (0 ≤ a.returnedCents) &&
    decide (0 ≤ a.deliveredConfirmedMicrocents) && decide (1 ≤ a.revision) &&
    decide (0 ≤ a.desiredMicrocents ∧ a.desiredMicrocents ≤ a.amountMicrocents) &&
    decide (0 ≤ a.appliedMicrocents ∧ a.appliedMicrocents ≤ a.amountMicrocents) &&
    (a.sized || (decide (0 < a.returnedCents) && a.paidCents.isNone)) &&
    (!a.sized || decide (a.returnedCents = 0 ∧ a.desiredMicrocents = a.amountMicrocents) ||
      a.paidCents.any fun paid =>
        decide (a.desiredMicrocents = desiredFor a.amountMicrocents a.returnedCents paid)) &&
    (a.paidSource != some .operator || (nonblank a.sizingEvidence && nonblank a.sizedBy))

/-- The CHECKs of `flux_grant_dispatches`. -/
def Dispatch.check (d : Dispatch) : Bool :=
  (d.kind != .operator || d.state != .applied ||
    (d.appliedMicrocents.isSome && nonblank d.evidence && nonblank d.adjustmentRef &&
      nonblank d.performedBy)) &&
    (d.receiptAt.isNone || (d.kind == .operator && d.receiptMicrocents.isSome &&
      nonblank d.receiptEvidence && nonblank d.receiptBy))

/-! ## The tables and their updates -/

/-- The tables of one grant, with the fence of every Flux grant id. -/
structure LedgerDb where
  grant : Option Grant := none
  account : Option Account := none
  dispatches : List Dispatch := []
  payments : Payments := {}
  fences : String → FenceDb := fun _ => {}

/-- A statement of the ledger; `RETURNING` is read only for its count. -/
abbrev LedgerStatement := Statement LedgerDb Unit

/-- The dispatch of `token` is open. -/
def LedgerDb.owns (db : LedgerDb) (token : String) : Bool :=
  db.dispatches.any fun d => d.dispatchId == token && d.state == .opened

def LedgerDb.hasOpen (db : LedgerDb) : Bool := db.dispatches.any (·.state == .opened)

/-- `UPDATE flux_grant_accounts SET … WHERE grant_id=? AND …`. -/
def updateAccount (matching : LedgerDb → Account → Bool) (set : LedgerDb → Account → Account) :
    LedgerStatement := fun _ db =>
  match db.account.filter (matching db) with
  | none => .ok ⟨db, 0, []⟩
  | some account =>
    if (set db account).check then .ok ⟨{ db with account := some (set db account) }, 1, [()]⟩
    else .error .check

/-- `UPDATE flux_grants SET … WHERE grant_id=? AND …`. -/
def updateGrant (matching : LedgerDb → Bool) (set : Grant → Grant) : LedgerStatement := fun _ db =>
  match db.grant.filter fun _ => matching db with
  | none => .ok ⟨db, 0, []⟩
  | some grant => .ok ⟨{ db with grant := some (set grant) }, 1, [()]⟩

/-- The rows of an update, each matching one replaced. -/
def Dispatch.updated (matching : Dispatch → Bool) (set : Dispatch → Dispatch) (d : Dispatch) :
    Dispatch := if matching d then set d else d

/-- No two rows share an adjustment reference. -/
def distinctRefs (dispatches : List Dispatch) : Bool :=
  decide (dispatches.filterMap (·.adjustmentRef)).Nodup

/-- `UPDATE flux_grant_dispatches SET … WHERE grant_id=? AND …`. No update sets a
dispatch open, so its only unique collision is on a reference. -/
def updateDispatches (matching : LedgerDb → Dispatch → Bool) (set : Dispatch → Dispatch) :
    LedgerStatement := fun _ db =>
  let after := db.dispatches.map (Dispatch.updated (matching db) set)
  if !after.all (·.check) then .error .check
  else if !distinctRefs after then .error .unique
  else
    .ok ⟨{ db with dispatches := after }, db.dispatches.countP (matching db),
      List.replicate (db.dispatches.countP (matching db)) ()⟩

/-- `INSERT OR IGNORE INTO flux_grant_dispatches … SELECT …`: a row that collides
with the primary key, the open index or a reference is ignored. -/
def insertDispatch (row : LedgerDb → Option Dispatch) : LedgerStatement := fun _ db =>
  match row db with
  | none => .ok ⟨db, 0, []⟩
  | some dispatch =>
    if db.dispatches.any (·.dispatchId == dispatch.dispatchId) || db.hasOpen ||
        !distinctRefs (db.dispatches ++ [dispatch]) then .ok ⟨db, 0, []⟩
    else .ok ⟨{ db with dispatches := db.dispatches ++ [dispatch] }, 1, [()]⟩

/-- The row of `cloud_write_guards` whose CHECK ends the batch. -/
def requireGuard (holds : LedgerDb → Bool) : LedgerStatement := fun _ db =>
  if holds db then .ok ⟨db, 0, []⟩ else .error .check

/-- A statement on the fence tables of `id`. -/
def updateFence (id : String) (set : LedgerDb → FenceDb → FenceDb) : LedgerStatement := fun _ db =>
  .ok ⟨{ db with fences := Function.update db.fences id (set db (db.fences id)) }, 1, []⟩

end Murage.FluxLedger
