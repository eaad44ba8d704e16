import Mathlib.Data.Char
import Mathlib.Data.List.Lex
import Mathlib.Data.Prod.Lex
import Mathlib.Order.Fin.Basic
import Murage.Library.KeyedTable

/-!
Owns: the flow phase of a revoke: the tables it reads and writes, the pending rows it keeps, its
queue, and one step of its walk.

Does not own: the other phases of a revoke, the rows a slice may spend, and who else writes the flow
tables while a job walks them.
-/

namespace Murage.FlowClosure

open Murage.Library

/-- A text in code points, in the order the database compares texts. -/
abbrev Text := List Char

/-- A whole number that JavaScript holds exactly; the database's reader refuses others. -/
abbrev Lsn := {n : Int // -9007199254740991 ≤ n ∧ n ≤ 9007199254740991}

instance : LinearOrder Lsn := @Subtype.instLinearOrder Int Int.instLinearOrder _

instance : DecidableLT Lsn := fun a b => inferInstanceAs (Decidable (a.val < b.val))

instance : DecidableLE Lsn := fun a b => inferInstanceAs (Decidable (a.val ≤ b.val))

/-! ### Tables -/

/-- A thread or a `scope:` node: it has an id that is not empty, and is none of the two that stand for
all threads and all scopes. -/
def IsNode (node : Text) : Prop :=
  node ≠ [] ∧ node ≠ "*".toList ∧ node ≠ "scope:*".toList

instance : DecidablePred IsNode := fun node => by unfold IsNode; infer_instance

/-- `memory_thread_flow` and, where the file has it, `memory_thread_flow_last`. -/
structure Graph where
  flow : KeyedTable (Text ×ₗ Text) Lsn
  last : Option (KeyedTable (Text ×ₗ Text) Lsn)
  named : ∀ row ∈ flow, IsNode (ofLex row.1).2

/-- A row of `memory_deny_pending` or `memory_deny_pending_scope`. -/
structure PendingRow where
  key : Text
  since_lsn : Lsn
  revoke_id : Nat
deriving DecidableEq

/-- What the queue holds for a node. -/
structure FlowItem where
  node : Text
  since : Lsn
deriving DecidableEq

/-- A row of `memory_revoke_frontier`; `node` is what its text reads as, if it is a flow item. -/
structure FrontierRow where
  revoke_id : Nat
  seq : Int
  node : Option FlowItem
deriving DecidableEq

structure Db where
  pending : List PendingRow
  pendingScope : List PendingRow
  frontier : List FrontierRow
  /-- `started_lsn` of the rows of `memory_revoke_jobs`. -/
  started : Nat → Option Lsn

def scopePrefix : Text := "scope:".toList

def isScope (node : Text) : Bool := scopePrefix.isPrefixOf node

def keyOf (node : Text) : Text := if isScope node then node.drop scopePrefix.length else node

def Db.tableOf (db : Db) (node : Text) : List PendingRow :=
  if isScope node then db.pendingScope else db.pending

/-- `INSERT OR IGNORE`: the whole row is the primary key. -/
def insertOrIgnore (row : PendingRow) (rows : List PendingRow) : List PendingRow :=
  if row ∈ rows then rows else rows ++ [row]

def Db.insertPending (db : Db) (node : Text) (row : PendingRow) : Db :=
  if isScope node then { db with pendingScope := insertOrIgnore row db.pendingScope }
  else { db with pending := insertOrIgnore row db.pending }

/-! ### The queue -/

/-- The flow phase's queue lives at negative seqs. -/
def pushFlow (db : Db) (revokeId : Nat) (node : Text) (since : Lsn) : Db :=
  let first := ((db.frontier.filter (·.revoke_id = revokeId)).map (·.seq)).min?
  let seq := min 0 (first.getD 0) - 1
  { db with frontier := db.frontier ++ [⟨revokeId, seq, some ⟨node, since⟩⟩] }

def Db.heldSince (db : Db) (revokeId : Nat) (node : Text) : List Lsn :=
  ((db.tableOf node).filter fun row => row.key = keyOf node ∧ row.revoke_id = revokeId).map
    (·.since_lsn)

/-- The revoke's own commit, which a scope's row does not look at. -/
def Db.startedFor (db : Db) (revokeId : Nat) (node : Text) : Option Lsn :=
  if isScope node then none else db.started revokeId

/-- The positions that may cover a new one: those on the same side of the commit. -/
def Db.covering (db : Db) (revokeId : Nat) (node : Text) (since : Lsn) : List Lsn :=
  match db.startedFor revokeId node with
  | none => db.heldSince revokeId node
  | some started =>
    if started < since then (db.heldSince revokeId node).filter (started < ·)
    else db.heldSince revokeId node

def markPending (db : Db) (revokeId : Nat) (node : Text) (since : Lsn) : Db × Bool :=
  if (db.covering revokeId node since).min?.any (· ≤ since) then (db, false)
  else (db.insertPending node ⟨keyOf node, since, revokeId⟩, true)

def seedFlow (db : Db) (revokeId : Nat) (node : Text) (since : Lsn) : Db :=
  let marked := markPending db revokeId node since
  if marked.2 then pushFlow marked.1 revokeId node since else marked.1

/-! ### A step of the walk -/

/-- The edges out of a node: the other node and `first_lsn`, by the other node. -/
def Graph.edges (graph : Graph) (node : Text) : KeyedTable Text Lsn where
  rows := (graph.flow.rows.filter fun row => (ofLex row.1).1 = node).map fun row =>
    ((ofLex row.1).2, row.2)
  sorted := by
    rw [List.pairwise_map]
    refine (graph.flow.sorted.filter _).imp_of_mem ?_
    intro row later isRow isLater isBefore
    have isSame := of_decide_eq_true (List.mem_filter.mp isRow).2
    have isSameToo := of_decide_eq_true (List.mem_filter.mp isLater).2
    rcases Prod.Lex.lt_iff.mp isBefore with isLess | ⟨-, isLess⟩
    · exact absurd isLess (by rw [isSame, isSameToo]; exact lt_irrefl _)
    · exact isLess

/-- `last_lsn` of an edge, if it has a stamp. -/
def Graph.lastOf (graph : Graph) (node other : Text) : Option Lsn :=
  graph.last.bind fun table =>
    (table.rows.find? fun row => row.1 = toLex (node, other)).map (·.2)

/-- An edge that is not skipped at a position. -/
def Graph.follows (graph : Graph) (node other : Text) (since : Lsn) : Bool :=
  match graph.lastOf node other with
  | none => true
  | some last => !(decide (last < since) && !(isScope node && isScope other))

/-- `c.f` and `c.after`. -/
structure Cursor where
  f : Option Int
  after : Option Text
deriving DecidableEq

/-- `MEMORY_REVOKE_NODE_UNREADABLE` -/
inductive Failure where
  | nodeUnreadable

/-- The row the next step takes: the one nearest zero. -/
def headOf (db : Db) (revokeId : Nat) : Option FrontierRow :=
  let rows := db.frontier.filter fun row => row.revoke_id = revokeId ∧ row.seq < 0
  (rows.map (·.seq)).max?.bind fun seq => rows.find? (·.seq = seq)

/-- The loop over a page of edges of the node that is walked. -/
def seedEdges (graph : Graph) (revokeId : Nat) (item : FlowItem) (edges : List (Text × Lsn))
    (db : Db) : Db :=
  edges.foldl (fun db edge =>
    if graph.follows item.node edge.1 item.since then
      seedFlow db revokeId edge.1 (max edge.2 item.since)
    else db) db

/-- `flowStep` with a page of `n` rows; whether the queue was empty is the last part of its answer. -/
def flowStep (graph : Graph) (db : Db) (revokeId : Nat) (c : Cursor) (n : Nat) :
    Except Failure (Db × Cursor × Bool) :=
  match headOf db revokeId with
  | none => .ok (db, c, true)
  | some head =>
    match head.node with
    | none => .error .nodeUnreadable
    | some item =>
      let after := if c.f = some head.seq then c.after.getD [] else []
      let edges := (graph.edges item.node).page after n
      let seeded := seedEdges graph revokeId item edges db
      if edges.length = n then
        .ok (seeded, ⟨some head.seq, some ((edges.getLast?.map (·.1)).getD [])⟩, false)
      else
        .ok ({ seeded with frontier := seeded.frontier.filter fun row =>
          ¬(row.revoke_id = revokeId ∧ row.seq = head.seq) }, ⟨none, none⟩, false)

/-! ### Runs -/

/-- What is called for a job, in any order: a seed, or a step with a page of at least one row. -/
inductive Call where
  | seed (item : FlowItem) (isNode : IsNode item.node)
  | step (n : Nat) (positive : 0 < n)

structure State where
  db : Db
  cursor : Cursor

variable (graph : Graph) (revokeId : Nat)

def call (state : State) : Call → Except Failure State
  | .seed item _ => .ok { state with db := seedFlow state.db revokeId item.node item.since }
  | .step n _ => (flowStep graph state.db revokeId state.cursor n).map fun answer =>
    ⟨answer.1, answer.2.1⟩

def run (state : State) (calls : List Call) : Except Failure State :=
  calls.foldlM (call graph revokeId) state

def seedsOf (calls : List Call) : List FlowItem :=
  calls.filterMap fun
    | .seed item _ => some item
    | .step _ _ => none

end Murage.FlowClosure
