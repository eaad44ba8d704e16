import Mathlib
import Murage.Library.KeyedTable

/-!
Owns the fold of a backlog of audience-only revokes into one bulk revoke: the tables it reads
and writes, the revoke's primitives it calls (flow queue, pending windows, the commit of a
receipt's root), the stages of the fold and one slice of it.

Does not own: what the slices add up to.
-/

namespace Murage.RevokeFold

open Murage.Library

/-! ## Tables -/

inductive JobKind
  | line
  | thread
  | bot
  | memory
  | scope
  | receipt
  | session
  | bulk
  | inherit
  | undo
  deriving DecidableEq

inductive JobState
  | active
  | undoing
  | done
  | undone
  | folded
  | seeding
  deriving DecidableEq

inductive JobPhase
  | flow
  | mark
  | hold
  | tidy
  | undo
  | done
  deriving DecidableEq

/-- `lo` and `hi`: the least and the greatest `startedLsn` of the members. -/
structure FoldCohort where
  lo : Int
  hi : Int
  ids : List Nat

/-- The job row's root, as far as the fold reads it. -/
structure Root where
  cause : Option String := none
  bundleId : Option String := none
  cohort : Option FoldCohort := none
  closureIds : Option (List Nat) := none
  narrow : Bool := false

inductive Stage
  | enrol
  | root
  | frontier
  | holds
  | clean
  | sweep
  deriving DecidableEq

/-- `after`: the last frontier seq copied; `key`: the last hold copied; `pk`: the last pending
row copied, present only while the member's pending copy runs (`true`: of the scopes' table). -/
structure FoldCursor where
  stage : Stage
  job : Nat
  after : Option Int := none
  key : Option String := none
  pk : Option (Bool × String × Int) := none
  deriving DecidableEq

/-- The cursor column: the fold's, or any other text. -/
inductive JobCursor
  | fold (cursor : FoldCursor)
  | other (text : String)
  deriving DecidableEq

/-- A row of `memory_revoke_jobs`; `root` is `none` when the column does not parse. The cursor
column of the fold's bulk is beside the tables. -/
structure Job where
  id : Nat
  kind : JobKind
  root : Option Root
  rootLsn : Int
  startedLsn : Int
  phase : JobPhase
  state : JobState

/-- A node of the flow closure: a thread's id, or `scope:` and a scope's id. -/
inductive FlowNode
  | thread (id : String)
  | scope (id : String)
  deriving DecidableEq

def FlowNode.key : FlowNode → String
  | .thread id => id
  | .scope id => id

inductive NodeText
  | flow (node : FlowNode) (since : Int)
  | receipt (bundleId : String)
  | other (text : String)
  deriving DecidableEq

/-- The pending rows of one revoke, by thread (or scope) and lsn. -/
abbrev PendingTable := KeyedTable (String ×ₗ Int) Unit

/-- A record or a source that a revoked receipt hangs on, to the receipt's first line. -/
structure Carry where
  item : String
  threadId : String
  lsn : Int
  deriving DecidableEq

structure ReceiptStart where
  threadId : String
  firstLsn : Int

/-- What the tables say of a receipt: where its outputs start, its thread, and the items it
hangs on (`receiptHoldPlan`). -/
structure Receipt where
  start : Option ReceiptStart := none
  thread : Option String := none
  plan : Option (List String) := none

/-- The tables; those whose keys start with a revoke's id are given by revoke. -/
structure Db where
  nextLsn : Int
  denyGeneration : Nat
  jobs : List Job
  audience : List Nat
  /-- `memory_revoke_fold`: the folded revoke, and the bulk that took it over. -/
  foldMap : List (Nat × Nat)
  pending : Nat → PendingTable
  pendingScope : Nat → PendingTable
  frontier : Nat → KeyedTable Int NodeText
  /-- `memory_revoke_reached`: the visited rows and the holds, with `from_lsn`. -/
  reached : Nat → KeyedTable String Int
  carries : List Carry
  receipts : String → Receipt

def pendingAllThreads : String := "*"

def pendingAllScopes : String := "*"

/-- `Number.MIN_SAFE_INTEGER`. -/
def firstLsn : Int := -(2 ^ 53 - 1)

def markerSliceRows : Nat := 256

def foldCause : String := "fold"

namespace Db

def job (db : Db) (id : Nat) : Option Job := db.jobs.find? (·.id = id)

def updateJob (db : Db) (id : Nat) (change : Job → Job) : Db :=
  { db with jobs := db.jobs.map fun job => if job.id = id then change job else job }

end Db

/-! ## Primitives of a revoke -/

def bumpDenyGeneration (db : Db) : Db := { db with denyGeneration := db.denyGeneration + 1 }

def takeCommitLsn (db : Db) : Int × Db := (db.nextLsn, { db with nextLsn := db.nextLsn + 1 })

def nextSeq (db : Db) (revokeId : Nat) : Int :=
  (db.frontier revokeId).rows.foldr (fun row top => max row.1 top) 0 + 1

def insertFrontier (revokeId : Nat) (seq : Int) (node : NodeText) (db : Db) : Db :=
  { db with
    frontier := Function.update db.frontier revokeId ((db.frontier revokeId).insert (seq, node)) }

def enqueueNode (revokeId : Nat) (node : NodeText) (db : Db) : Db :=
  insertFrontier revokeId (nextSeq db revokeId) node db

/-- The flow queue is at negative seqs; the one nearest zero goes first. -/
def pushFlow (revokeId : Nat) (node : FlowNode) (since : Int) (db : Db) : Db :=
  let first := (db.frontier revokeId).rows.foldr (fun row least => min row.1 least) 0
  insertFrontier revokeId (first - 1) (.flow node since) db

def Db.window (db : Db) (revokeId : Nat) : FlowNode → PendingTable
  | .thread _ => db.pending revokeId
  | .scope _ => db.pendingScope revokeId

/-- `INSERT OR IGNORE` of a pending row. -/
def insertPending (revokeId : Nat) (node : FlowNode) (since : Int) (db : Db) : Db :=
  let table := (db.window revokeId node).insert (toLex (node.key, since), ())
  match node with
  | .thread _ => { db with pending := Function.update db.pending revokeId table }
  | .scope _ => { db with pendingScope := Function.update db.pendingScope revokeId table }

/-- `min(since_lsn)` over the rows of a key, above a bound if there is one. -/
def heldSince (table : PendingTable) (key : String) (above : Option Int) : Option Int :=
  ((table.rows.map fun row => ofLex row.1).filterMap fun row =>
    if row.1 = key ∧ above.all (· < row.2) then some row.2 else none).min?

/-- A thread's row after the revoke's commit is compared with such rows only. -/
def comparedAbove (db : Db) (revokeId : Nat) (since : Int) : FlowNode → Option Int
  | .scope _ => none
  | .thread _ => ((db.job revokeId).map (·.startedLsn)).filter (· < since)

/-- Pending row for a node, kept at the smallest since. `none`: the node is held already. -/
def markPending (revokeId : Nat) (node : FlowNode) (since : Int) (db : Db) : Option Db :=
  if (heldSince (db.window revokeId node) node.key
      (comparedAbove db revokeId since node)).any (· ≤ since) then none
  else some (insertPending revokeId node since db)

def seedFlow (revokeId : Nat) (node : FlowNode) (since : Int) (db : Db) : Db :=
  match markPending revokeId node since db with
  | none => db
  | some db => pushFlow revokeId node since db

def Receipt.rootLsn (receipt : Receipt) (now : Int) : Int :=
  (receipt.start.map (·.firstLsn)).getD now

/-- The edges that hang a revoked receipt on what it cites. -/
def Receipt.carries (receipt : Receipt) : List Carry :=
  match receipt.start, receipt.plan with
  | some start, some plan =>
    plan.map fun item => { item := item, threadId := start.threadId, lsn := start.firstLsn }
  | _, _ => []

def insertCarry (db : Db) (carry : Carry) : Db :=
  if carry ∈ db.carries then db else { db with carries := db.carries ++ [carry] }

def holdRevokedReceipt (receipt : Receipt) (db : Db) : Db := receipt.carries.foldl insertCarry db

/-- A receipt's root, committed into an open bulk revoke. -/
def commitRevoke (bulk : Nat) (bundleId : String) (db : Db) : Except String Db :=
  let taken := takeCommitLsn db
  if bulk ∉ taken.2.audience then .error "MEMORY_REVOKE_BULK_AUDIENCE"
  else
    let receipt := db.receipts bundleId
    let rootLsn := receipt.rootLsn taken.1
    let held := holdRevokedReceipt receipt (enqueueNode bulk (.receipt bundleId) taken.2)
    let rooted := held.updateJob bulk fun job => { job with rootLsn := min job.rootLsn rootLsn }
    let marked := (markPending bulk (.thread pendingAllThreads) rootLsn rooted).getD rooted
    let windowed := insertPending bulk (.scope pendingAllScopes) rootLsn marked
    .ok (bumpDenyGeneration
      (receipt.thread.elim windowed fun thread =>
        seedFlow bulk (.thread thread) rootLsn windowed))

/-- `coalesce(max(revoke_id),0)+1`. -/
def Db.newRevoke (db : Db) : Nat := db.jobs.foldr (fun job top => max job.id top) 0 + 1

/-- A bulk revoke whose roots are still to come; it binds audience readers only. -/
def openBulkRevoke (cause : String) (db : Db) : Nat × Db :=
  let taken := takeCommitLsn db
  let job : Job :=
    { id := db.newRevoke
      kind := .bulk
      root := some { cause := some cause }
      rootLsn := taken.1
      startedLsn := taken.1
      phase := .flow
      state := .seeding }
  (job.id, { taken.2 with jobs := db.jobs ++ [job], audience := db.audience ++ [job.id] })

/-- The bulk's roots are all in: its cap moves to a slot of its own, taken now. -/
def activateBulkRevoke (revokeId : Nat) (db : Db) : Db :=
  let taken := takeCommitLsn db
  bumpDenyGeneration <|
    if (db.job revokeId).any (·.state = .seeding) then
      taken.2.updateJob revokeId fun job => { job with state := .active, startedLsn := taken.1 }
    else db

/-! ## Opening a fold -/

/-- Whether a job may be folded. -/
def Db.eligible (db : Db) (phases : List JobPhase) (job : Job) : Bool :=
  job.state = .active && (job.kind = .receipt || job.kind = .bulk || job.kind = .inherit) &&
    phases.contains job.phase && db.audience.contains job.id &&
    !(db.foldMap.map (·.2)).contains job.id &&
    job.root.any fun root =>
      root.cause ≠ some foldCause && root.cause ≠ some "upgrade-seed" &&
        (job.kind ≠ .receipt || (root.bundleId.isSome && root.cause = some "receipt-revoked"))

def foldCandidates (db : Db) (phases : List JobPhase) : List Job :=
  db.jobs.filter (db.eligible phases)

def rootLsnOf (members : List Job) : Int := ((members.map (·.rootLsn)).min?).getD 0

/-- The tables, and the cursor of the fold's bulk as it was saved. -/
structure Store where
  db : Db
  cursor : JobCursor

/-- From this commit the bulk alone covers every member's window. -/
def openFold (cohort : FoldCohort) (members : List Job) (db : Db) : Nat × Store :=
  let opened := openBulkRevoke foldCause db
  let bulk := opened.1
  let rootLsn := rootLsnOf members
  let db := opened.2.updateJob bulk fun job =>
    { job with
      root := some { cause := some foldCause, cohort := some cohort }
      rootLsn := rootLsn
      startedLsn := cohort.hi }
  let db := (markPending bulk (.thread pendingAllThreads) rootLsn db).getD db
  let db := insertPending bulk (.scope pendingAllScopes) rootLsn db
  (bulk, { db := bumpDenyGeneration db, cursor := .fold { stage := .enrol, job := 0 } })

/-! ## Stages -/

/-- What the slice's budget answers at the head of one step: the rows left, and whether the
commit of a receipt's root still fits. -/
structure Turn where
  rows : Int
  fits : Bool

def Turn.page (turn : Turn) : Nat := (max 1 (min (markerSliceRows / 4 : Int) turn.rows)).toNat

def enrol (bulk : Nat) (db : Db) (id : Nat) : Db :=
  if (db.foldMap.map (·.1)).contains id then db
  else { db with foldMap := db.foldMap ++ [(id, bulk)] }

def Db.receiptRoot (db : Db) (id : Nat) : Option String :=
  match db.job id with
  | some job => if job.kind = .receipt then job.root.bind (·.bundleId) else none
  | none => none

def NodeText.item : NodeText → Except String (FlowNode × Int)
  | .flow node since => .ok (node, since)
  | _ => .error "MEMORY_REVOKE_NODE_UNREADABLE"

/-- A page of a member's frontier: flow items are seeded again, mark nodes take fresh seqs. -/
def copyFrontier (bulk : Nat) : List (Int × NodeText) → Int → Db → Except String Db
  | [], _, db => .ok db
  | (old, node) :: rows, seq, db =>
    if old < 0 then
      match node.item with
      | .error text => .error text
      | .ok item =>
        let db := seedFlow bulk item.1 item.2 db
        copyFrontier bulk rows (nextSeq db bulk) db
    else copyFrontier bulk rows (seq + 1) (insertFrontier bulk seq node db)

def pendingNode (ofScopes : Bool) (key : String) : Option FlowNode :=
  if ofScopes then if key = pendingAllScopes then none else some (.scope key)
  else if key = pendingAllThreads then none else some (.thread key)

def copyPending (bulk : Nat) (ofScopes : Bool) (db : Db) (row : (String ×ₗ Int) × Unit) : Db :=
  match pendingNode ofScopes (ofLex row.1).1 with
  | none => db
  | some node => seedFlow bulk node (ofLex row.1).2 db

def Db.pendingOf (db : Db) (ofScopes : Bool) (id : Nat) : PendingTable :=
  if ofScopes then db.pendingScope id else db.pending id

def Root.noteClosure (index : Nat) (root : Root) : Root :=
  let ids := root.closureIds.getD []
  if ids.contains index then root
  else { root with closureIds := some ((ids ++ [index]).insertionSort (· ≤ ·)) }

/-- Adds a member's index to the bulk's `closureIds`. -/
def noteClosure (bulk index : Nat) (db : Db) : Db :=
  db.updateJob bulk fun job => { job with root := job.root.map (Root.noteClosure index) }

/-- A row of `memory_revoke_reached` that is a hold. -/
def isHold (threadId : String) : Prop := "hold:" ≤ threadId ∧ threadId < "hold;"

instance : DecidablePred isHold := fun _ => instDecidableAnd

def Db.holds (db : Db) (id : Nat) : KeyedTable String Int :=
  (db.reached id).filter fun row => isHold row.1

def copyHold (bulk : Nat) (db : Db) (row : String × Int) : Db :=
  { db with
    reached := Function.update db.reached bulk ((db.reached bulk).insert (row.1, 0)) }

/-- `UPDATE memory_revoke_jobs SET state='folded' WHERE revoke_id=? AND state='active'`. -/
def retire (id : Nat) (db : Db) : Db :=
  db.updateJob id fun job => if job.state = .active then { job with state := .folded } else job

inductive MemberTable
  | pending
  | pendingScope
  | frontier
  | reached

def memberTables : List MemberTable := [.pending, .pendingScope, .frontier, .reached]

/-- Up to `n` rows of one table of a member go; how many went. -/
def deleteMemberPage (table : MemberTable) (id n : Nat) (db : Db) : Nat × Db :=
  match table with
  | .pending =>
    (min n (db.pending id).rows.length,
      { db with pending := Function.update db.pending id ((db.pending id).drop n) })
  | .pendingScope =>
    (min n (db.pendingScope id).rows.length,
      { db with
        pendingScope := Function.update db.pendingScope id ((db.pendingScope id).drop n) })
  | .frontier =>
    (min n (db.frontier id).rows.length,
      { db with frontier := Function.update db.frontier id ((db.frontier id).drop n) })
  | .reached =>
    (min n (db.reached id).rows.length,
      { db with reached := Function.update db.reached id ((db.reached id).drop n) })

def deleteFrom (n id : Nat) (gone : Nat × Db) (table : MemberTable) : Nat × Db :=
  if gone.1 < n then
    let page := deleteMemberPage table id (n - gone.1) gone.2
    (gone.1 + page.1, page.2)
  else gone

def deleteMember (n : Nat) (gone : Nat × Db) (id : Nat) : Nat × Db :=
  memberTables.foldl (deleteFrom n id) gone

/-- Every member's pending copy ran. -/
def certified (ids : List Nat) (root : Root) : Bool :=
  (List.range ids.length).all (root.closureIds.getD []).contains

def Root.certify (ids : List Nat) (root : Root) : Root :=
  if certified ids root then { root with narrow := true } else root

/-- The end of the sweep: the bulk walks. -/
def closeFold (bulk : Nat) (ids : List Nat) (db : Db) : Db :=
  activateBulkRevoke bulk (db.updateJob bulk fun job =>
    { job with root := job.root.map (Root.certify ids) })

/-- What a step of the fold leads to. -/
inductive Stepped
  | next (cursor : FoldCursor) (db : Db)
  | blocked
  | active (db : Db)

/-- One map row per member. -/
def enrolStep (bulk : Nat) (ids : List Nat) (n : Nat) (c : FoldCursor) (db : Db) : Stepped :=
  let take := (ids.drop c.job).take n
  let job := c.job + take.length
  .next (if ids.length ≤ job then { stage := .root, job := 0 } else { c with job := job })
    (take.foldl (enrol bulk) db)

/-- A receipt's revoke commits its root again, into the bulk. -/
def rootStep (bulk id : Nat) (fits : Bool) (c : FoldCursor) (db : Db) : Except String Stepped :=
  let next : FoldCursor := { stage := .frontier, job := c.job, after := some firstLsn }
  match db.receiptRoot id with
  | none => .ok (.next next db)
  | some bundleId =>
    if fits then (commitRevoke bulk bundleId db).map (.next next) else .ok .blocked

/-- The member's pending rows become flow seeds of the bulk. -/
def pendingStep (bulk id n : Nat) (ofScopes : Bool) (start : String ×ₗ Int) (c : FoldCursor)
    (db : Db) : Stepped :=
  let rows := (db.pendingOf ofScopes id).page start n
  let db := rows.foldl (copyPending bulk ofScopes) db
  let last := ofLex (KeyedTable.resume start rows)
  if rows.length < n then
    if ofScopes then .next { stage := .holds, job := c.job } (noteClosure bulk c.job db)
    else .next { c with pk := some (true, "", firstLsn) } db
  else .next { c with pk := some (ofScopes, last.1, last.2) } db

/-- Every frontier row of the member, in seq order. -/
def frontierStep (closure : Bool) (bulk id n : Nat) (c : FoldCursor) (db : Db) :
    Except String Stepped :=
  let start := c.after.getD firstLsn
  let rows := (db.frontier id).page start n
  let after := (rows.getLast?.map (·.1)).or c.after
  let next : FoldCursor :=
    if rows.length < n then
      if closure then { c with after := after, pk := some (false, "", firstLsn) }
      else { stage := .holds, job := c.job }
    else { c with after := after }
  (copyFrontier bulk rows (nextSeq db bulk) db).map (.next next)

/-- The member's holds; it retires with the last page. -/
def holdsStep (bulk id n : Nat) (c : FoldCursor) (db : Db) : Stepped :=
  let start := c.key.getD ""
  let rows := (db.holds id).page start n
  let key := (rows.getLast?.map (·.1)).or c.key
  let db := rows.foldl (copyHold bulk) db
  if rows.length < n then
    .next { stage := .clean, job := c.job } (bumpDenyGeneration (retire id db))
  else .next { c with key := key } db

/-- The member's own rows go. -/
def cleanStep (id n : Nat) (c : FoldCursor) (db : Db) : Stepped :=
  let gone := deleteMember n (0, db) id
  if gone.1 < n then .next { stage := .root, job := c.job + 1 } (bumpDenyGeneration gone.2)
  else .next c gone.2

/-- No row of a member is left, then the bulk is active. -/
def sweepStep (bulk : Nat) (ids : List Nat) (n : Nat) (c : FoldCursor) (db : Db) : Stepped :=
  let gone := ids.foldl (deleteMember n) (0, db)
  if n ≤ gone.1 then .next c gone.2 else .active (closeFold bulk ids gone.2)

/-- One step: one page of the stage the cursor is at. `closure`: the pending copy is on. -/
def foldStep (closure : Bool) (bulk : Nat) (ids : List Nat) (turn : Turn) (c : FoldCursor)
    (db : Db) : Except String Stepped :=
  if c.stage = .enrol then .ok (enrolStep bulk ids turn.page c db)
  else
    match ids[c.job]? with
    | none => .ok (.next { stage := .sweep, job := 0 } db)
    | some id =>
      match c.stage, c.pk with
      | .root, _ => rootStep bulk id turn.fits c db
      | .frontier, some (ofScopes, key, since) =>
        if closure then .ok (pendingStep bulk id turn.page ofScopes (toLex (key, since)) c db)
        else frontierStep closure bulk id turn.page c db
      | .frontier, none => frontierStep closure bulk id turn.page c db
      | .holds, _ => .ok (holdsStep bulk id turn.page c db)
      | .clean, _ => .ok (cleanStep id turn.page c db)
      | _, _ => .ok (sweepStep bulk ids turn.page c db)

/-! ## Slices -/

inductive Outcome
  | moved
  | blocked
  deriving DecidableEq

/-- Whole steps, until the budget has no more turns. -/
def foldLoop (closure : Bool) (bulk : Nat) (ids : List Nat) :
    List Turn → FoldCursor → Bool → Db → Except String (Outcome × Store)
  | [], c, _, db => .ok (.moved, { db := db, cursor := .fold c })
  | turn :: turns, c, moved, db =>
    match foldStep closure bulk ids turn c db with
    | .error text => .error text
    | .ok (.next c db) => foldLoop closure bulk ids turns c true db
    | .ok .blocked => .ok (if moved then .moved else .blocked, { db := db, cursor := .fold c })
    | .ok (.active db) => .ok (.moved, { db := db, cursor := .other "" })

def resumeAt : JobCursor → FoldCursor
  | .fold c => c
  | .other _ => { stage := .enrol, job := 0 }

def runFold (closure : Bool) (job : Job) (turns : List Turn) (s : Store) :
    Except String (Outcome × Store) :=
  match job.root.bind (·.cohort) with
  | none => .error "MEMORY_REVOKE_NODE_UNREADABLE"
  | some cohort => foldLoop closure job.id cohort.ids turns (resumeAt s.cursor) false s.db

/-- The fold bulk whose members are still being copied. -/
def seedingFold (db : Db) : Option Job :=
  db.jobs.find? fun job =>
    job.state = .seeding && job.kind = .bulk && job.root.any (·.cause = some foldCause)

/-- One slice of a fold that is open. `none`: there is none. -/
def foldSlice (closure : Bool) (turns : List Turn) (s : Store) :
    Except String (Option (Outcome × Store)) :=
  match seedingFold s.db with
  | none => .ok none
  | some job => (runFold closure job turns s).map some

end Murage.RevokeFold
