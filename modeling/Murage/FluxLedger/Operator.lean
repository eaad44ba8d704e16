import Murage.FluxLedger.Dispatches

/-!
Owns the operator's side of the grant ledger (`b4-flux-ledger.ts`): the claim,
which takes the Flux grant's fence with its dispatch or neither, and the receipt,
which stays pending until Flux's own record confirms it. A claim and a receipt
read the tables before and after their batch, so each batch and each read is a
function of its own.

Does not own: what an operator does at Flux.
-/

namespace Murage.FluxLedger

open Murage.Library.Batch
open Murage.GrantFence (FenceDb FenceRow)

/-- How long an operator's claim holds the grant before another operator may take
it over. -/
def OPERATOR_TTL_MS : Nat := 24 * 3600000

/-! ## Claims -/

structure OperatorRequest where
  token : String
  grantId : String
  performedBy : String
  evidence : Option String := none
  tombstone : Bool := false
  now : Nat
deriving DecidableEq, Repr

/-- What `String.prototype.trim` removes. -/
def trimmable (c : Char) : Bool :=
  (9 ≤ c.toNat && c.toNat ≤ 13) || (0x2000 ≤ c.toNat && c.toNat ≤ 0x200A) ||
    [32, 160, 0x1680, 0x2028, 0x2029, 0x202F, 0x205F, 0x3000, 0xFEFF].contains c.toNat

def trim (text : List Char) : List Char :=
  ((text.dropWhile trimmable).reverse.dropWhile trimmable).reverse

/-- The evidence, trimmed; none when it is blank. -/
def OperatorRequest.trimmed (r : OperatorRequest) : Option String :=
  ((r.evidence.map fun text => trim text.toList).filter (!·.isEmpty)).map String.ofList

/-- An expired operator claim is superseded when there is evidence, an expired
automatic dispatch only with a written tombstone, and a claim that holds a
receipt never. -/
def supersedeForOperator (clock : Nat) (r : OperatorRequest) : LedgerStatement :=
  updateDispatches
    (fun _ d => d.state == .opened && decide (d.expiresAt ≤ clock) && r.trimmed.isSome &&
      (d.kind == .operator || r.tombstone) && d.receiptAt.isNone)
    fun d =>
      { d.ended clock .superseded
          ("expired_superseded_by:" ++ r.token ++ if d.kind = .operator then "" else ":tombstone")
        with
        evidence := r.trimmed
        performedBy := some (d.performedBy.getD r.performedBy) }

/-- The reference the claim issues for the adjustment at Flux. -/
def OperatorRequest.reference (r : OperatorRequest) (revision : Nat) : String :=
  "murage:" ++ r.grantId ++ ":r" ++ toString revision ++ ":" ++ r.token

def OperatorRequest.row (r : OperatorRequest) (clock : Nat) (a : Account) : Dispatch :=
  { dispatchId := r.token
    kind := .operator
    revision := a.revision
    targetMicrocents := a.desiredMicrocents
    claimedAt := clock
    expiresAt := clock + OPERATOR_TTL_MS
    performedBy := some r.performedBy
    evidence := r.trimmed
    adjustmentRef := some (r.reference a.revision) }

def insertOperatorClaim (clock : Nat) (r : OperatorRequest) : LedgerStatement :=
  insertDispatch fun db => db.account.map (r.row clock)

def LedgerDb.supersededOperator (db : LedgerDb) (token : String) : Bool :=
  db.dispatches.any fun d =>
    d.dispatchId == token && d.kind == .operator && d.state == .superseded

/-- The fence is free, expired, or held by a claim this one superseded. -/
def fenceTakeable (row : FenceRow) (db : LedgerDb) (clock : Nat) : Bool :=
  row.owner.all fun owner =>
    decide (owner.expiresAt ≤ clock) || db.supersededOperator owner.token

def fenceTaken (row : FenceRow) (clock : Nat) (token : String) : FenceRow :=
  { row with
    epoch := row.epoch + 1
    owner := some { token := token, kind := "b4_operator", expiresAt := clock + OPERATOR_TTL_MS }
    updatedAt := clock }

def insertOperatorFence (clock : Nat) (token wire : String) : LedgerStatement :=
  updateFence wire fun db fence =>
    if db.owns token && fence.row.isNone then
      { fence with row := some { homeId := none, updatedAt := clock } }
    else fence

def takeOperatorFence (clock : Nat) (token wire : String) : LedgerStatement :=
  updateFence wire fun db fence =>
    { fence with row := fence.row.map fun row =>
        if db.owns token && fenceTakeable row db clock then fenceTaken row clock token
        else row }

/-- `token` owns the fence of `wire`. -/
def LedgerDb.ownsFence (db : LedgerDb) (wire token : String) : Bool :=
  (db.fences wire).row.any fun row => row.owner.any (·.token == token)

/-- All or nothing: the claim stands only with the fence. -/
def operatorFence (clock : Nat) (token wire : String) : List LedgerStatement := [
  insertOperatorFence clock token wire,
  takeOperatorFence clock token wire,
  requireGuard fun db => !db.owns token || db.ownsFence wire token]

/-- The claim's batch, under the Flux grant id read before it. -/
def operatorClaimStatements (clock : Nat) (r : OperatorRequest) (wire : Option String) :
    List LedgerStatement :=
  refreshStatements r.now ++
    ([supersedeForOperator clock r, insertOperatorClaim clock r] ++
      match wire with
      | none => []
      | some wire => operatorFence clock r.token wire)

def claimForOperator (clock : Nat) (r : OperatorRequest) (wire : Option String) (db : LedgerDb) :
    LedgerDb :=
  (batch (operatorClaimStatements clock r wire) db).1

/-- The wire revision allocated under the claim. -/
def allocateForOperator (clock : Nat) (token wire : String) (epoch : Nat) (db : LedgerDb) :
    LedgerDb × Option Nat :=
  let allocated := GrantFence.allocateFenceRevision clock ⟨token, epoch⟩ { op := .operator }
    (db.fences wire)
  ({ db with fences := Function.update db.fences wire allocated.1 },
    match allocated.2 with
    | .ok revision => revision
    | .error _ => none)

def recordWireRevision (token wire : String) (revision : Nat) (db : LedgerDb) : LedgerDb :=
  (batch [ownedDispatch token fun d =>
    { d with wireGrantId := some wire, remoteRevision := some revision }] db).1

/-- The claim given up, its fence with it: no revision could be allocated. -/
def giveUpClaim (clock : Nat) (token wire : String) (db : LedgerDb) : LedgerDb :=
  (batch [
    ownedDispatch token (·.ended clock .superseded "grant_fence_lost"),
    updateFence wire fun _ fence =>
      { fence with row := fence.row.map fun row =>
          { row with owner := row.owner.filter (·.token != token) } }] db).1

/-! ## Receipts -/

inductive OperatorAppliedResult where
  | applied
  | claimRequired
  | revisionMismatch
  | unsized
  | adjustmentRefReused
  | adjustmentRefMismatch
  | terminationUnconfirmed
  | pendingVerification
  | receiptConflict
  | verificationMismatch
  | wireRevisionMismatch
  | fenceLost
deriving DecidableEq, Repr

structure Sizing where
  paidCents : Int
  evidence : String
deriving DecidableEq, Repr

structure OperatorReceipt where
  token : String
  revision : Nat
  appliedMicrocents : Int
  adjustmentRef : String
  wireRevision : Option Nat := none
  evidence : String
  performedBy : String
  sizing : Option Sizing := none
  now : Nat
  /-- What Flux's own record of the adjustment says the grant holds. -/
  verified : Option Int := none
deriving DecidableEq, Repr

/-- Flux's own record confirms the receipt's amount. -/
def OperatorReceipt.isVerified (a : OperatorReceipt) : Bool :=
  a.verified == some a.appliedMicrocents

/-- `token` owns the fence of `wire` and has not expired. -/
def LedgerDb.holdsFence (db : LedgerDb) (clock : Nat) (wire token : String) : Bool :=
  (db.fences wire).row.any fun row =>
    row.owner.any fun owner => owner.token == token && decide (clock < owner.expiresAt)

def LedgerDb.invoiced (db : LedgerDb) : Bool := db.grant.any (·.invoiceId.isSome)

/-- `fencedOperator`: the dispatch holds the Flux grant's fence, or the grant has
no Flux grant id at all. -/
def fencedOperator (clock : Nat) (db : LedgerDb) (d : Dispatch) : Bool :=
  match d.wireGrantId with
  | none => !db.invoiced
  | some wire => db.holdsFence clock wire d.dispatchId

/-- A superseded revoke that may still execute. -/
def LedgerDb.unterminated (db : LedgerDb) (x : Dispatch) : Bool :=
  x.kind == .revoke && x.state == .superseded &&
    match x.remoteRevision with
    | some revision =>
      let appliedRevision :=
        (x.wireGrantId.bind fun wire => (db.fences wire).row.map (·.appliedRevision)).getD 0
      decide (appliedRevision < revision)
    | none =>
      !db.dispatches.any fun y =>
        y.kind == .revoke && y.state == .applied && decide (x.claimedAt ≤ y.claimedAt)

/-- `REVOKE_UNTERMINATED`. -/
def revokeUnterminated (db : LedgerDb) : Bool := db.dispatches.any db.unterminated

/-- The operator's open dispatch of `token`. -/
def LedgerDb.operatorClaimOf (db : LedgerDb) (token : String) : Option Dispatch :=
  db.dispatches.find? fun d =>
    d.dispatchId == token && d.kind == .operator && d.state == .opened

/-- The checks a receipt passes before its batch. -/
def receiptRefusal (clock : Nat) (a : OperatorReceipt) (db : LedgerDb) :
    Option OperatorAppliedResult :=
  match db.operatorClaimOf a.token with
  | none => some .claimRequired
  | some claim =>
    if claim.revision ≠ a.revision then some .revisionMismatch
    else if claim.adjustmentRef ≠ some a.adjustmentRef then some .adjustmentRefMismatch
    else if claim.wireGrantId.isNone ∧ db.invoiced then some .fenceLost
    else if claim.wireGrantId.isSome ∧
        (claim.remoteRevision.isNone ∨ claim.remoteRevision ≠ a.wireRevision) then
      some .wireRevisionMismatch
    else if claim.wireGrantId.any fun wire => !db.holdsFence clock wire a.token then
      some .fenceLost
    else if claim.receiptAt.isSome ∧ claim.receiptMicrocents ≠ some a.appliedMicrocents then
      some .receiptConflict
    else if 0 < a.appliedMicrocents ∧ revokeUnterminated db then some .terminationUnconfirmed
    else if db.dispatches.any fun d => d.adjustmentRef == some a.adjustmentRef &&
        d.state == .applied && d.dispatchId != a.token then
      some .adjustmentRefReused
    else none

def OperatorReceipt.claims (a : OperatorReceipt) (d : Dispatch) : Bool :=
  d.dispatchId == a.token && d.kind == .operator && d.state == .opened && d.revision == a.revision

/-- `?1 BETWEEN 0 AND amount_microcents`. -/
def OperatorReceipt.within (a : OperatorReceipt) (account : Account) : Bool :=
  decide (0 ≤ a.appliedMicrocents) && decide (a.appliedMicrocents ≤ account.amountMicrocents)

def sizeAccount (a : OperatorReceipt) (sizing : Sizing) : LedgerStatement :=
  updateAccount
    (fun db account => !account.sized && decide (0 < account.returnedCents) &&
      decide (0 < sizing.paidCents) && db.dispatches.any a.claims)
    fun _ account =>
      { account with
        paidCents := some sizing.paidCents
        paidSource := some .operator
        sizingEvidence := some sizing.evidence
        sizedBy := some a.performedBy
        sized := true
        desiredMicrocents :=
          desiredFor account.amountMicrocents account.returnedCents sizing.paidCents
        revision := account.revision + 1
        updatedAt := a.now }

/-- The receipt kept on its open claim. -/
def keepReceipt (clock : Nat) (a : OperatorReceipt) : LedgerStatement :=
  updateDispatches
    (fun db d => a.claims d && db.account.any (fun account => a.within account && account.sized) &&
      (d.receiptAt.isNone || d.receiptMicrocents == some a.appliedMicrocents) &&
      fencedOperator clock db d)
    fun d =>
      { d with
        receiptMicrocents := some a.appliedMicrocents
        receiptEvidence := some a.evidence
        receiptBy := some a.performedBy
        receiptAt := some (d.receiptAt.getD a.now) }

def LedgerDb.settles (db : LedgerDb) (clock : Nat) (a : OperatorReceipt) : Bool :=
  db.dispatches.any fun d => a.claims d && fencedOperator clock db d

def settleAccount (clock : Nat) (a : OperatorReceipt) : LedgerStatement :=
  updateAccount
    (fun db account => account.sized && a.within account && db.settles clock a &&
      (a.appliedMicrocents == 0 || !revokeUnterminated db))
    fun _ account =>
      { account with
        appliedMicrocents := a.appliedMicrocents
        routerState := .manual
        revision := account.revision + 1
        settledRevision := some (account.revision + 1)
        updatedAt := a.now }

/-- The claim's own dispatch, only when the account was settled. -/
def settleClaim (clock : Nat) (a : OperatorReceipt) : LedgerStatement := fun changes db =>
  updateDispatches
    (fun _ d => d.dispatchId == a.token && d.kind == .operator && d.state == .opened &&
      changes == 1)
    (fun d =>
      { d with
        state := .applied
        appliedMicrocents := some a.appliedMicrocents
        evidence := some a.evidence
        adjustmentRef := some a.adjustmentRef
        performedBy := some a.performedBy
        completedAt := some clock
        outcome := db.account.map fun account => "revision:" ++ toString account.revision })
    changes db

/-- The Flux grant id of the token's applied dispatch. -/
def LedgerDb.appliedWire (db : LedgerDb) (token : String) : Option (String × Option Nat) :=
  (db.dispatches.find? fun d => d.dispatchId == token && d.state == .applied).bind fun d =>
    d.wireGrantId.map fun wire => (wire, d.remoteRevision)

def settleWireRevision (clock : Nat) (token : String) : LedgerStatement := fun changes db =>
  match db.appliedWire token with
  | none => .ok ⟨db, 0, []⟩
  | some (wire, revision) =>
    updateFence wire
      (fun _ fence =>
        { fence with journal := fence.journal.map fun entry =>
            if entry.op = .operator ∧ entry.outcome.isNone ∧ revision = some entry.revision then
              entry.ended clock .appliedByHand
            else entry })
      changes db

/-- The Flux grant's fence released, only with the receipt that applied. -/
def releaseOperatorFence (clock : Nat) (token : String) : LedgerStatement := fun changes db =>
  match db.appliedWire token with
  | none => .ok ⟨db, 0, []⟩
  | some (wire, _) =>
    updateFence wire
      (fun _ fence =>
        { fence with row := fence.row.map fun row =>
            if row.owner.any (·.token == token) then
              { row with owner := none, stateSeq := row.stateSeq + 1, updatedAt := clock }
            else row })
      changes db

def sizingStatements (a : OperatorReceipt) : List LedgerStatement :=
  match a.sizing with
  | none => []
  | some sizing => [sizeAccount a sizing]

def receiptStatements (clock : Nat) (a : OperatorReceipt) : List LedgerStatement :=
  sizingStatements a ++
    ((if a.isVerified then
        [settleAccount clock a, settleClaim clock a, settleWireRevision clock a.token,
          releaseOperatorFence clock a.token]
      else [keepReceipt clock a]) ++
      syncAlertStatements a.now)

def applyReceipt (clock : Nat) (a : OperatorReceipt) (db : LedgerDb) : LedgerDb :=
  (batch (receiptStatements clock a) db).1

end Murage.FluxLedger
