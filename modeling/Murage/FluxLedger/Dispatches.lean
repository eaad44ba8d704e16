import Murage.FluxLedger.Schema

/-!
Owns the automatic side of the grant ledger (`b4-flux-ledger.ts`): the account a
grant's outbox row makes, the refresh of its desired amount from the payment's
records, the debt's clock, and the claims and completions of deliveries and
revokes. Each function is one batch.

Does not own: the operator's claims and receipts.
-/

namespace Murage.FluxLedger

open Murage.Library.Batch

/-- How long an automatic dispatch may be in flight before a dispatch of a kind
that subsumes it may supersede it. -/
def DISPATCH_TTL_MS : Nat := 5 * 60000

/-- Automatic revokes of one grant before it becomes an alerted obligation. -/
def MAX_REVOKES : Nat := 20

/-! ## Accounts -/

def Grant.account (g : Grant) (now : Nat) : Account :=
  { invoiceId := g.invoiceId
    amountMicrocents := g.amountMicrocents
    desiredMicrocents := g.amountMicrocents
    appliedMicrocents := if g.status = .done then g.amountMicrocents else 0
    deliveredConfirmedMicrocents :=
      if g.status = .done ∨ g.status = .reversed then g.amountMicrocents else 0
    routerState :=
      if g.status = .done then .delivered
      else if g.status = .reversed then .revoked
      else if 0 < g.attempts ∨ g.claimId.isSome then .maybe
      else .none
    updatedAt := now }

/-- `ensureSql`, `INSERT OR IGNORE`. -/
def ensureAccount (now : Nat) : LedgerStatement := fun _ db =>
  match db.account, db.grant with
  | none, some grant =>
    if (grant.account now).check then
      .ok ⟨{ db with account := some (grant.account now) }, 1, []⟩
    else .ok ⟨db, 0, []⟩
  | _, _ => .ok ⟨db, 0, []⟩

/-- The payment's amount from its records first; an operator's evidenced sizing
only where the records have none. -/
def Account.payment (a : Account) (p : Payments) : Option (Int × PaidSource) :=
  match largestPaid (p.coverage.map (·.paidCents)), largestPaid p.ops with
  | some paid, _ => some (paid, .refundCoverage)
  | none, some paid => some (paid, .refundOps)
  | none, none =>
    if a.paidSource = some .operator then a.paidCents.map fun paid => (paid, .operator) else none

def Account.derived (a : Account) (p : Payments) : Account :=
  { a with
    returnedCents := p.returned
    paidCents := (a.payment p).map (·.1)
    paidSource := (a.payment p).map (·.2)
    sized := decide (p.returned = 0) || (a.payment p).isSome
    desiredMicrocents :=
      if p.returned = 0 then a.amountMicrocents
      else
        match a.payment p with
        | none => a.desiredMicrocents
        | some (paid, _) => desiredFor a.amountMicrocents p.returned paid }

def refreshAccount (now : Nat) : LedgerStatement :=
  updateAccount
    (fun db a => db.grant.isSome && a.invoiceId.isSome && a.derived db.payments != a)
    (fun db a => { a.derived db.payments with revision := a.revision + 1, updatedAt := now })

/-- `refreshStatements`. -/
def refreshStatements (now : Nat) : List LedgerStatement := [ensureAccount now, refreshAccount now]

def refresh (now : Nat) (db : LedgerDb) : LedgerDb := (batch (refreshStatements now) db).1

/-- Something is owed or may be in flight. -/
def Account.hasDebt (a : Account) : Bool :=
  decide (a.desiredMicrocents ≠ a.appliedMicrocents) ||
    (a.routerState == .maybe || a.routerState == .revoking)

/-- When the debt arose, of `syncAlertStatements`: kept while it stands, cleared
once settled. -/
def syncDebt (now : Nat) : LedgerStatement :=
  updateAccount (fun _ a => a.hasDebt != a.debtSince.isSome)
    fun _ a => { a with debtSince := if a.hasDebt then some (a.debtSince.getD now) else none }

/-- `syncAlertStatements`, of which the ledger's own tables keep the debt's clock. -/
def syncAlertStatements (now : Nat) : List LedgerStatement := [syncDebt now]

def syncAlerts (now : Nat) (db : LedgerDb) : LedgerDb := (batch (syncAlertStatements now) db).1

/-! ## Claims -/

/-- The kinds of automatic dispatch: every `DispatchKind` but the operator's. -/
inductive AutoKind where
  | deliver
  | revoke
deriving DecidableEq, Repr

def AutoKind.kind : AutoKind → DispatchKind
  | .deliver => .deliver
  | .revoke => .revoke

/-- `kind IN subsumes`. -/
def AutoKind.subsumes : AutoKind → DispatchKind → Bool
  | .deliver, other => other == .deliver
  | .revoke, other => other == .deliver || other == .revoke

def AutoKind.claimed : AutoKind → RouterState → RouterState
  | .deliver, state => if state = .none then .maybe else state
  | .revoke, _ => .revoking

abbrev Eligibility := LedgerDb → Account → Grant → Bool

/-- `DELIVER_AUTO`. -/
def deliverAuto : Eligibility := fun _ a g =>
  (g.status == .pending || (g.status == .cancelled && g.redeliver == some .held)) && a.sized &&
    decide (a.desiredMicrocents = a.amountMicrocents) &&
    (a.routerState == .none || a.routerState == .maybe)

/-- `REVOKE_AUTO`. -/
def revokeAuto : Eligibility := fun db a _ =>
  a.sized && decide (a.desiredMicrocents = 0) &&
    (a.routerState == .maybe || a.routerState == .delivered || a.routerState == .revoking) &&
    decide (db.dispatches.countP (·.kind == .revoke) < MAX_REVOKES)

structure DispatchRequest where
  token : String
  kind : AutoKind
  eligible : Eligibility
  /-- The caller's time, which stamps rows and decides nothing. -/
  now : Nat
  /-- The caller's updates of the grant, each guarded by the open dispatch. -/
  extra : List (Grant → Grant) := []

/-- The condition over the joined rows. -/
def LedgerDb.eligible (db : LedgerDb) (eligible : Eligibility) : Bool :=
  match db.account, db.grant with
  | some account, some grant => eligible db account grant
  | _, _ => false

def Dispatch.ended (d : Dispatch) (now : Nat) (state : DispatchState) (outcome : String) :
    Dispatch :=
  { d with state := state, outcome := some outcome, completedAt := some now }

def supersedeExpired (clock : Nat) (r : DispatchRequest) : LedgerStatement :=
  updateDispatches
    (fun db d => d.state == .opened && r.kind.subsumes d.kind && decide (d.expiresAt ≤ clock) &&
      db.eligible r.eligible)
    (·.ended clock .superseded ("expired_superseded_by:" ++ r.token))

def DispatchRequest.row (r : DispatchRequest) (clock : Nat) (a : Account) : Dispatch :=
  { dispatchId := r.token
    kind := r.kind.kind
    revision := a.revision
    targetMicrocents := a.desiredMicrocents
    claimedAt := clock
    expiresAt := clock + DISPATCH_TTL_MS }

def insertClaim (clock : Nat) (r : DispatchRequest) : LedgerStatement :=
  insertDispatch fun db => if db.eligible r.eligible then db.account.map (r.row clock) else none

/-- The claim is the point after which the request may reach the router. -/
def markClaimed (r : DispatchRequest) : LedgerStatement :=
  updateAccount (fun db _ => db.owns r.token)
    fun _ a => { a with routerState := r.kind.claimed a.routerState }

/-- A revoke attempt, claimed or not, waits its retry interval. -/
def markTried (now : Nat) : LedgerStatement :=
  updateAccount (fun _ _ => true) fun _ a => { a with lastTriedAt := some now }

/-- The updates of the grant while `token` owns its dispatch. -/
def grantUpdates (token : String) (updates : List (Grant → Grant)) : List LedgerStatement :=
  updates.map fun update => updateGrant (·.owns token) update

structure DispatchClaim where
  token : String
  revision : Nat
  claimedAt : Nat
deriving DecidableEq, Repr

/-- The open dispatch of `token`, read after the claim's batch. -/
def LedgerDb.claimOf (db : LedgerDb) (token : String) : Option DispatchClaim :=
  (db.dispatches.find? fun d => d.dispatchId == token && d.state == .opened).map
    fun d => ⟨token, d.revision, d.claimedAt⟩

def claimStatements (clock : Nat) (r : DispatchRequest) : List LedgerStatement :=
  refreshStatements r.now ++
    ([supersedeExpired clock r, insertClaim clock r, markClaimed r] ++
      ((if r.kind = .revoke then [markTried r.now] else []) ++ grantUpdates r.token r.extra))

def claimDispatch (clock : Nat) (r : DispatchRequest) (db : LedgerDb) :
    LedgerDb × Option DispatchClaim :=
  ((batch (claimStatements clock r) db).1, (batch (claimStatements clock r) db).1.claimOf r.token)

/-- `recordRemoteRevision`: the Flux grant id and revision a dispatch's request
carries, recorded before it leaves. -/
def recordRemoteRevision (clock : Nat) (token wire : String) (revision : Nat) (db : LedgerDb) :
    LedgerDb :=
  (batch [updateDispatches
    (fun _ d => d.dispatchId == token && d.state == .opened && decide (clock < d.expiresAt))
    fun d => { d with wireGrantId := some wire, remoteRevision := some revision }] db).1

/-! ## Completions -/

inductive DeliverResult where
  | applied
  | tombstoned
  | refused (code : String)
  | ambiguous (code : String)
  | superseded (code : String)
deriving DecidableEq, Repr

inductive RevokeOutcome where
  | revoked
  | tombstoned
deriving DecidableEq, Repr

def RevokeOutcome.text : RevokeOutcome → String
  | .revoked => "revoked"
  | .tombstoned => "tombstoned"

inductive RevokeResult where
  | applied (outcome : RevokeOutcome)
  | ambiguous (code : String)
  | superseded (code : String)
  | refused (code : String)
deriving DecidableEq, Repr

/-- The update of the account while `token` owns its dispatch. -/
def ownedAccount (token : String) (set : LedgerDb → Account → Account) : LedgerStatement :=
  updateAccount (fun db _ => db.owns token) set

/-- The update of the dispatch that `token` owns. -/
def ownedDispatch (token : String) (set : Dispatch → Dispatch) : LedgerStatement :=
  updateDispatches (fun _ d => d.dispatchId == token && d.state == .opened) set

/-- An ambiguous answer keeps the dispatch open, due at once for a retry of a kind
that subsumes it. -/
def stillOpen (clock : Nat) (token code : String) : LedgerStatement :=
  ownedDispatch token fun d =>
    { d with
      lastOutcome := some code
      attempts := d.attempts + 1
      expiresAt := min d.expiresAt clock }

def finish (clock : Nat) (token : String) (state : DispatchState) (outcome : String) :
    LedgerStatement :=
  ownedDispatch token fun d => { d.ended clock state outcome with lastOutcome := some outcome }

def Account.delivered (a : Account) (now : Nat) : Account :=
  { a with
    routerState := .delivered
    appliedMicrocents := a.amountMicrocents
    deliveredConfirmedMicrocents := a.amountMicrocents
    revision := a.revision + if a.appliedMicrocents = a.amountMicrocents then 0 else 1
    updatedAt := now }

def Account.revoked (a : Account) (now : Nat) : Account :=
  { a with
    routerState := .revoked
    revision := a.revision + if a.appliedMicrocents = 0 then 0 else 1
    appliedMicrocents := 0
    updatedAt := now }

def LedgerDb.otherDelivery (db : LedgerDb) (token : String) : Bool :=
  db.dispatches.any fun d => d.kind == .deliver && d.state != .refused && d.dispatchId != token

/-- Back to `none` only when every delivery of the grant was refused. -/
def Account.deliveryRefused (a : Account) (db : LedgerDb) (token : String) (now : Nat) : Account :=
  { a with
    routerState :=
      if a.routerState = .maybe ∧ !db.otherDelivery token then .none else a.routerState
    updatedAt := now }

def Account.afterDelivery (a : Account) (db : LedgerDb) (token : String) (now : Nat) :
    DeliverResult → Account
  | .applied => a.delivered now
  | .tombstoned => a.revoked now
  | .refused _ => a.deliveryRefused db token now
  | .ambiguous _ | .superseded _ => { a with updatedAt := now }

/-- The dispatch's own statement on a delivery's answer. -/
def finishDelivery (clock : Nat) (token : String) : DeliverResult → LedgerStatement
  | .applied => finish clock token .applied "delivered"
  | .tombstoned => finish clock token .applied "flux_revoked"
  | .refused code => finish clock token .refused code
  | .superseded code => finish clock token .superseded code
  | .ambiguous code => stillOpen clock token code

structure DeliveryAnswer where
  token : String
  result : DeliverResult
  now : Nat
  /-- The outbox's own updates. -/
  grantStmts : List (Grant → Grant) := []

def deliveryStatements (clock : Nat) (a : DeliveryAnswer) : List LedgerStatement :=
  ownedAccount a.token (fun db account => account.afterDelivery db a.token a.now a.result) ::
    (grantUpdates a.token a.grantStmts ++ [finishDelivery clock a.token a.result])

def lastChangedOne (result : Except SqlError (List (List Unit))) : Bool :=
  match result with
  | .ok rows => rows.getLast?.any (·.length == 1)
  | .error _ => false

/-- The completion of a delivery; whether the token still owned it. -/
def completeDelivery (clock : Nat) (a : DeliveryAnswer) (db : LedgerDb) : LedgerDb × Bool :=
  ((batch (deliveryStatements clock a) db).1,
    lastChangedOne (batch (deliveryStatements clock a) db).2)

/-- A tombstone ends delivery too. -/
def Grant.tombstoned (g : Grant) : Grant :=
  { g with
    status := match g.status with
      | .done => .reversed
      | .pending => .cancelled
      | status => status
    claimId := none
    redeliver := none }

structure RevokeAnswer where
  token : String
  result : RevokeResult
  now : Nat

def revokeStatements (clock : Nat) (a : RevokeAnswer) : List LedgerStatement :=
  match a.result with
  | .applied outcome => [
      ownedAccount a.token fun _ account => account.revoked a.now,
      updateGrant (·.owns a.token) (·.tombstoned),
      finish clock a.token .applied outcome.text]
  | .superseded code => [
      ownedAccount a.token fun _ account => { account with updatedAt := a.now },
      finish clock a.token .superseded code]
  | .refused code => [
      ownedAccount a.token fun _ account => { account with updatedAt := a.now },
      finish clock a.token .refused code]
  | .ambiguous code => [
      ownedAccount a.token fun _ account => { account with updatedAt := a.now },
      stillOpen clock a.token code]

/-- The completion of a revoke; whether the token still owned it. -/
def completeRevoke (clock : Nat) (a : RevokeAnswer) (db : LedgerDb) : LedgerDb × Bool :=
  ((batch (revokeStatements clock a) db).1, lastChangedOne (batch (revokeStatements clock a) db).2)

end Murage.FluxLedger
