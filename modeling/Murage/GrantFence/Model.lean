import Murage.Library.Batch

/-!
Owns the grant fence (`src/cloudflare/control-plane/src/flux-grant-fence.ts` and
its migration): the owner row of one Flux grant id, the journal of its revisions
and every statement that moves them. A batch is atomic and sees one reading of the
database clock.

The two tables are restricted to one grant id, which is what every `WHERE` does.
The schema's CHECK that the owner's token and expiry are set together is the type
of `FenceRow.owner`. Of an alert only what makes it unique is kept.

Does not own: what is sent under a claim.
-/

namespace Murage.GrantFence

open Murage.Library.Batch

inductive FenceOp where
  | grant
  | reverse
  | target
  | operator
deriving DecidableEq, Repr

structure FenceClaim where
  token : String
  epoch : Nat
deriving DecidableEq, Repr

inductive FenceOutcome where
  | applied
  | superseded
  | mismatch
  | unknown
  | refused
deriving DecidableEq, Repr

inductive RevisionOutcome where
  | settled (outcome : FenceOutcome)
  | notSent
  | landedOrSuperseded
  | appliedByHand
deriving DecidableEq, Repr

inductive LastOutcome where
  | settled (outcome : FenceOutcome)
  | reconciled
deriving DecidableEq, Repr

structure Owner where
  token : String
  kind : String
  expiresAt : Nat
deriving DecidableEq, Repr

/-- `flux_grant_fence`, the row of the grant. -/
structure FenceRow where
  homeId : Option String
  epoch : Nat := 0
  owner : Option Owner := none
  nextRevision : Nat := 0
  appliedRevision : Nat := 0
  lastRevision : Option Nat := none
  lastOutcome : Option LastOutcome := none
  needsReconcile : Bool := false
  remoteState : Option String := none
  remoteRemainingMicrocents : Option Int := none
  reconciledAt : Option Nat := none
  stateSeq : Nat := 0
  snapshotRevision : Option Nat := none
  snapshotDueRevision : Option Nat := none
  readAttemptedAt : Option Nat := none
  updatedAt : Nat
deriving DecidableEq, Repr

/-- `flux_grant_revisions`, one row. -/
structure Revision where
  revision : Nat
  epoch : Nat
  op : FenceOp
  bodySha : Option String
  logicalRevision : Option Int
  allocatedAt : Nat
  outcome : Option RevisionOutcome := none
  settledAt : Option Nat := none
deriving DecidableEq, Repr

inductive FenceAlert where
  | revisionMismatch (revision : Nat)
  | staleClaimAdjusted (revision : Nat)
deriving DecidableEq, Repr

structure FenceDb where
  row : Option FenceRow := none
  journal : List Revision := []
  alerts : List FenceAlert := []
deriving DecidableEq, Repr

/-! ## Statements -/

/-- `UPDATE flux_grant_fence SET … WHERE grant_id=? AND …`, returning the row. -/
def updateRow (matching : FenceRow → Bool) (set : FenceRow → FenceRow) :
    Statement FenceDb FenceRow := fun _ db =>
  match db.row.filter matching with
  | some row => .ok ⟨{ db with row := some (set row) }, 1, [set row]⟩
  | none => .ok ⟨db, 0, []⟩

/-- `UPDATE flux_grant_revisions SET … WHERE grant_id=? AND …`. -/
def updateJournal (matching : Revision → Bool) (set : Revision → Revision) :
    Statement FenceDb FenceRow := fun _ db =>
  .ok ⟨{ db with journal := db.journal.map fun entry => if matching entry then set entry else entry },
    db.journal.countP matching, []⟩

/-- `INSERT INTO cloud_alerts … ON CONFLICT DO NOTHING`, for each selected alert. -/
def raiseAlerts (select : FenceDb → List FenceAlert) : Statement FenceDb FenceRow := fun _ db =>
  let fresh := (select db).filter fun alert => !db.alerts.contains alert
  .ok ⟨{ db with alerts := db.alerts ++ fresh }, fresh.length, []⟩

/-- The claim `c` is the row's owner. -/
def FenceRow.ownedBy (row : FenceRow) (c : FenceClaim) : Bool :=
  row.owner.any (·.token == c.token) && row.epoch == c.epoch

/-- The claim `c` is the row's owner and has not expired. -/
def FenceRow.heldBy (row : FenceRow) (now : Nat) (c : FenceClaim) : Bool :=
  row.owner.any (fun owner => owner.token == c.token && decide (now < owner.expiresAt)) &&
    row.epoch == c.epoch

/-- `owner_token` and its two columns cleared when the token is the row's own. -/
def FenceRow.released (row : FenceRow) (token : String) : FenceRow :=
  { row with owner := row.owner.filter (·.token != token) }

/-- An outcome that a later statement may still settle. -/
def Revision.unresolved (entry : Revision) : Bool :=
  entry.outcome.all (· == .settled .unknown)

/-! ## Claims and allocations -/

/-- How long an automatic owner holds a grant. -/
def FENCE_TTL_MS : Nat := 5 * 60000

structure ClaimRequest where
  token : String
  kind : String
  ttlMs : Nat := FENCE_TTL_MS
  homeId : Option String := none
deriving DecidableEq, Repr

/-- `INSERT OR IGNORE` of the grant's row. -/
def insertFence (now : Nat) (a : ClaimRequest) : Statement FenceDb FenceRow := fun _ db =>
  match db.row with
  | some _ => .ok ⟨db, 0, []⟩
  | none => .ok ⟨{ db with row := some { homeId := a.homeId, updatedAt := now } }, 1, []⟩

def FenceRow.free (row : FenceRow) (now : Nat) : Bool :=
  row.owner.all fun owner => decide (owner.expiresAt ≤ now)

def FenceRow.claimed (row : FenceRow) (now : Nat) (a : ClaimRequest) : FenceRow :=
  { row with
    epoch := row.epoch + 1
    owner := some { token := a.token, kind := a.kind, expiresAt := now + a.ttlMs }
    updatedAt := now }

def claimGrantFence (now : Nat) (a : ClaimRequest) (db : FenceDb) :
    FenceDb × Except SqlError (Option FenceClaim) :=
  let (after, result) :=
    batch [insertFence now a, updateRow (·.free now) (·.claimed now a)] db
  (after, (rowsOf result 1).map fun rows => rows.head?.map fun row => ⟨a.token, row.epoch⟩)

/-- What an allocation asks for. `guard` is what the caller's extra condition
evaluates to in the statement. -/
structure AllocationRequest where
  op : FenceOp
  bodySha : Option String := none
  floor : Option Int := none
  logical : Option Int := none
  guard : Bool := true
deriving DecidableEq, Repr

/-- `MAX(next_revision, applied_revision, floor-1)+1`. -/
def FenceRow.wireRevision (row : FenceRow) (floor : Int) : Nat :=
  max (max row.nextRevision row.appliedRevision) (floor - 1).toNat + 1

/-- A later logical revision is journaled. -/
def FenceDb.supersedes (db : FenceDb) (logical : Option Int) : Bool :=
  logical.any fun logical =>
    db.journal.any fun entry => entry.logicalRevision.any fun other => decide (logical < other)

/-- The allocation's `WHERE`. -/
def FenceDb.allocatable (db : FenceDb) (now : Nat) (c : FenceClaim) (a : AllocationRequest)
    (row : FenceRow) : Bool :=
  row.heldBy now c && !db.supersedes a.logical && a.guard

def FenceRow.allocated (row : FenceRow) (now : Nat) (a : AllocationRequest) : FenceRow :=
  { row with
    nextRevision := row.wireRevision (a.floor.getD 0)
    stateSeq := row.stateSeq + 1
    updatedAt := now }

/-- `UPDATE flux_grant_fence SET next_revision=…`; the journal is read in its
`WHERE`. -/
def takeRevision (now : Nat) (c : FenceClaim) (a : AllocationRequest) :
    Statement FenceDb FenceRow := fun changes db =>
  updateRow (db.allocatable now c a) (·.allocated now a) changes db

def FenceRow.journaled (row : FenceRow) (now : Nat) (a : AllocationRequest) : Revision :=
  { revision := row.nextRevision
    epoch := row.epoch
    op := a.op
    bodySha := a.bodySha
    logicalRevision := a.logical
    allocatedAt := now }

/-- `INSERT INTO flux_grant_revisions … WHERE … AND changes()=1`. -/
def journalRevision (now : Nat) (c : FenceClaim) (a : AllocationRequest) :
    Statement FenceDb FenceRow := fun changes db =>
  match db.row.filter fun row => row.ownedBy c && changes == 1 with
  | none => .ok ⟨db, 0, []⟩
  | some row =>
    if db.journal.any (·.revision == row.nextRevision) then .error .unique
    else .ok ⟨{ db with journal := db.journal ++ [row.journaled now a] }, 1, []⟩

def allocateFenceRevision (now : Nat) (c : FenceClaim) (a : AllocationRequest) (db : FenceDb) :
    FenceDb × Except SqlError (Option Nat) :=
  let (after, result) := batch [takeRevision now c a, journalRevision now c a] db
  (after, (rowsOf result 0).map fun rows => rows.head?.map (·.nextRevision))

def Revision.ended (entry : Revision) (now : Nat) (outcome : RevisionOutcome) : Revision :=
  { entry with outcome := some outcome, settledAt := some now }

/-- A revision allocated but never sent. -/
def abandonFenceRevision (now : Nat) (revision : Nat) (db : FenceDb) : FenceDb :=
  (batch [updateJournal (fun entry => entry.revision == revision && entry.outcome.isNone)
    (·.ended now .notSent)] db).1

/-! ## Settlements -/

structure Settlement where
  revision : Nat
  outcome : FenceOutcome
  appliedRevision : Option Nat := none
deriving DecidableEq, Repr

def Settlement.applied (a : Settlement) : Nat :=
  if a.outcome = .applied then max a.revision (a.appliedRevision.getD 0)
  else a.appliedRevision.getD 0

/-- Whether the outcome asks for a read-back. -/
def Settlement.reconcile (a : Settlement) : Bool :=
  !(a.outcome = .applied ∨ a.outcome = .refused)

/-- `needs_reconcile` after a settlement, from the row before it. -/
def FenceRow.stillDue (row : FenceRow) (a : Settlement) : Bool :=
  if a.reconcile then true
  else if row.snapshotDueRevision.any fun due =>
      row.snapshotRevision.all fun snapshot => decide (snapshot < max due a.revision) then true
  else if max row.appliedRevision a.applied ≤ a.revision then false
  else row.needsReconcile

def FenceRow.settled (row : FenceRow) (now : Nat) (c : FenceClaim) (a : Settlement) : FenceRow :=
  ({ row with
    appliedRevision := max row.appliedRevision a.applied
    lastRevision := some a.revision
    lastOutcome := some (.settled a.outcome)
    stateSeq := row.stateSeq + 1
    needsReconcile := row.stillDue a
    updatedAt := now } : FenceRow).released c.token

/-- The answer to a request, recorded, and the owner row released by its own
token. -/
def settleFenceRevision (now : Nat) (c : FenceClaim) (a : Settlement) (db : FenceDb) : FenceDb :=
  let settle := updateJournal (fun entry => entry.revision == a.revision && entry.unresolved)
    (·.ended now (.settled a.outcome))
  let older := updateJournal (fun entry => decide (entry.revision < a.applied) && entry.unresolved)
    (·.ended now .landedOrSuperseded)
  let row := updateRow (fun _ => true) (·.settled now c a)
  let alert := raiseAlerts fun _ => [.revisionMismatch a.revision]
  (batch ([settle] ++ (if a.applied > 0 then [older] else []) ++ [row] ++
    (if a.outcome = .mismatch then [alert] else [])) db).1

/-- Releases the owner row without a request. -/
def releaseGrantFence (c : FenceClaim) (db : FenceDb) : FenceDb :=
  (batch [updateRow (fun row => row.owner.any (·.token == c.token))
    fun row => { row with owner := none }] db).1

/-! ## Reconciliation -/

structure RemoteGrantState where
  state : String
  appliedRevision : Nat
  remainingMicrocents : Option Int
deriving DecidableEq, Repr

/-- A journaled revision above what Flux holds that was settled `unknown`, or was
never settled and whose owner is gone. -/
def Revision.mayLand (entry : Revision) (now : Nat) (row : FenceRow) : Bool :=
  decide (row.appliedRevision < entry.revision) &&
    (entry.outcome == some (.settled .unknown) ||
      (entry.outcome.isNone &&
        (decide (entry.epoch < row.epoch) || row.owner.all fun owner => decide (owner.expiresAt ≤ now))))

/-- `FENCE_DUE`: the grant is due a read-back. -/
def fenceDue (now : Nat) (db : FenceDb) : Bool :=
  db.row.any fun row => row.needsReconcile || db.journal.any fun entry => entry.mayLand now row

/-- The snapshot is still current: nothing changed the row since the read began,
and it is not older than what the row holds. -/
def FenceRow.publishes (row : FenceRow) (r : RemoteGrantState) (seenSeq : Option Nat) : Bool :=
  seenSeq == some row.stateSeq && decide (row.appliedRevision ≤ r.appliedRevision)

def FenceRow.published (row : FenceRow) (now : Nat) (r : RemoteGrantState) : FenceRow :=
  { row with
    remoteState := some r.state
    remoteRemainingMicrocents := r.remainingMicrocents
    snapshotRevision := some r.appliedRevision
    needsReconcile := false
    lastOutcome := some .reconciled
    reconciledAt := some now
    stateSeq := row.stateSeq + 1
    updatedAt := now
    snapshotDueRevision := row.snapshotDueRevision.filter (r.appliedRevision < ·) }

/-- No published snapshot covers the observation. -/
def FenceRow.uncovered (row : FenceRow) (r : RemoteGrantState) : Bool :=
  row.snapshotRevision.all fun snapshot => decide (snapshot < r.appliedRevision)

def FenceRow.demanding (row : FenceRow) (r : RemoteGrantState) : FenceRow :=
  { row with
    needsReconcile := true
    snapshotDueRevision := some (max (row.snapshotDueRevision.getD 0) r.appliedRevision) }

def FenceRow.raised (row : FenceRow) (now : Nat) (r : RemoteGrantState) : FenceRow :=
  { row with
    appliedRevision := max row.appliedRevision r.appliedRevision
    nextRevision := max row.nextRevision r.appliedRevision
    updatedAt := now }

/-- The operator revisions of expired claims that Flux holds. -/
def FenceDb.staleClaims (db : FenceDb) (r : RemoteGrantState) : List FenceAlert :=
  (db.journal.filter fun entry =>
    entry.revision == r.appliedRevision && entry.op == .operator &&
      db.row.any (fun row => decide (entry.epoch < row.epoch)) &&
      entry.outcome != some (.settled .applied)).map fun entry => .staleClaimAdjusted entry.revision

/-- Record what Flux holds. Resolves whether the snapshot was published. -/
def recordReconciled (now : Nat) (r : RemoteGrantState) (seenSeq : Option Nat) (db : FenceDb) :
    FenceDb × Except SqlError Bool :=
  let landed := updateJournal
    (fun entry => decide (entry.revision ≤ r.appliedRevision) && entry.unresolved)
    (·.ended now .landedOrSuperseded)
  let (after, result) := batch [
    updateRow (·.publishes r seenSeq) (·.published now r),
    updateRow (·.uncovered r) (·.demanding r),
    landed,
    raiseAlerts (·.staleClaims r),
    updateRow (fun _ => true) (·.raised now r)] db
  (after, (rowsOf result 0).map fun rows => rows.length == 1)

def stampReadAttempt (now : Nat) (db : FenceDb) : FenceDb :=
  (batch [updateRow (fun _ => true) fun row => { row with readAttemptedAt := some now }] db).1

end Murage.GrantFence
