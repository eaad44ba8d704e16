import Mathlib
import Murage.FlowClosure.Walk

/-!
Owns: that the flow phase ends and leaves the least of the largest: a node's smallest pending
position is the least, over the paths from the seeds to it, of the largest position on the path.
-/

namespace Murage.FlowClosure

open Murage.Library Murage.Library.Propagation

variable {graph : Graph} {revokeId : Nat} {all : List FlowItem}

/-! ### Ending -/

/-- Every node that is seeded or that an edge leads to, at every position that is seeded or that an
edge has. -/
def cells (graph : Graph) (all : List FlowItem) : List (Text × Lsn) :=
  (all.map (·.node) ++ graph.flow.rows.map fun row => (ofLex row.1).2) ×ˢ
    (all.map (·.since) ++ graph.flow.rows.map (·.2))

variable {node : Text}

theorem edge_row {edge : Text × Lsn} (isEdge : edge ∈ graph.edges node) :
    edge.1 ∈ graph.flow.rows.map (fun row => (ofLex row.1).2) ∧
      edge.2 ∈ graph.flow.rows.map (·.2) := by
  obtain ⟨row, isRow, rfl⟩ := List.mem_map.mp isEdge
  have isIn := (List.mem_filter.mp isRow).1
  exact ⟨List.mem_map_of_mem isIn, List.mem_map_of_mem isIn⟩

variable {since : Lsn}

theorem cells_carried {edge : Text × Lsn} (isCell : (node, since) ∈ cells graph all)
    (isEdge : edge ∈ graph.edges node) :
    (edge.1, max edge.2 since) ∈ cells graph all := by
  obtain ⟨isTarget, isFirst⟩ := edge_row isEdge
  have isSince := (List.mem_product.mp isCell).2
  refine List.mem_product.mpr ⟨List.mem_append_right _ isTarget, ?_⟩
  rcases max_choice edge.2 since with isMax | isMax
  · rw [isMax]
    exact List.mem_append_right _ isFirst
  · rw [isMax]
    exact isSince

theorem Reached.cell (isReached : Reached graph all node since) :
    (node, since) ∈ cells graph all := by
  induction isReached with
  | seed isSeed =>
    exact List.mem_product.mpr ⟨List.mem_append_left _ (List.mem_map_of_mem isSeed),
      List.mem_append_left _ (List.mem_map_of_mem isSeed)⟩
  | @carried edge position _ isLet ih =>
    exact cells_carried ih isLet.1

/-- How many of the cells a job does not hold. -/
def missing (graph : Graph) (all : List FlowItem) (revokeId : Nat) (db : Db) : Nat :=
  ((cells graph all).filter fun cell => ¬Held db revokeId cell.1 cell.2).length

theorem missing_seedFlow {db : Db} (isNode : IsNode node) (isCell : (node, since) ∈ cells graph all) :
    missing graph all revokeId (seedFlow db revokeId node since) +
        (queue (seedFlow db revokeId node since) revokeId).length ≤
      missing graph all revokeId db + (queue db revokeId).length := by
  rcases seedFlow_cases db revokeId isNode since with ⟨isSame, -⟩ | ⟨isNew, isHeld, seq, isQueue, -⟩
  · rw [isSame]
  · have isFewer : missing graph all revokeId (seedFlow db revokeId node since) <
        missing graph all revokeId db := by
      have isSub : ((cells graph all).filter fun cell =>
          ¬Held (seedFlow db revokeId node since) revokeId cell.1 cell.2) =
            ((cells graph all).filter fun cell => ¬Held db revokeId cell.1 cell.2).filter
              fun cell => ¬Held (seedFlow db revokeId node since) revokeId cell.1 cell.2 := by
        rw [List.filter_filter]
        refine List.filter_congr fun cell _ => ?_
        rw [Bool.eq_iff_iff, Bool.and_eq_true, decide_eq_true_iff, decide_eq_true_iff]
        exact ⟨fun isOut => ⟨isOut, fun isOld => isOut ((isHeld _ _).mpr (.inl isOld))⟩, And.left⟩
      rw [missing, missing, isSub, List.length_filter_lt_length_iff_exists]
      refine ⟨(node, since), List.mem_filter.mpr ⟨isCell, decide_eq_true isNew⟩, ?_⟩
      rw [decide_eq_true_iff, not_not]
      exact (isHeld node since).mpr (.inr ⟨rfl, rfl⟩)
    rw [isQueue, List.length_append, List.length_singleton]
    omega

theorem missing_seedEdges {db : Db} {item : FlowItem} (isCell : (item.node, item.since) ∈ cells graph all)
    {edges : List (Text × Lsn)} (isPage : ∀ edge ∈ edges, edge ∈ graph.edges item.node) :
    missing graph all revokeId (seedEdges graph revokeId item edges db) +
        (queue (seedEdges graph revokeId item edges db) revokeId).length ≤
      missing graph all revokeId db + (queue db revokeId).length := by
  induction edges generalizing db with
  | nil => exact le_refl _
  | cons edge edges ih =>
    rw [List.forall_mem_cons] at isPage
    rw [seedEdges, List.foldl_cons]
    split
    · exact (ih isPage.2).trans (missing_seedFlow (edges_named isPage.1)
        (cells_carried isCell isPage.1))
    · exact ih isPage.2

/-- One more than the edges of the head that were not read yet. -/
def unread (graph : Graph) (cursor : Cursor) (head : FrontierRow) : Nat :=
  match head.node with
  | none => 1
  | some item => ((graph.edges item.node).after (afterOf cursor head)).length + 1

def rowSteps (graph : Graph) : Nat := graph.flow.rows.length + 1

theorem unread_le (cursor : Cursor) (head : FrontierRow) : unread graph cursor head ≤ rowSteps graph := by
  rw [unread, rowSteps]
  cases head.node with
  | none => exact Nat.succ_le_succ (Nat.zero_le _)
  | some item =>
    refine Nat.succ_le_succ ((List.length_filter_le _ _).trans ?_)
    show ((graph.flow.rows.filter _).map _).length ≤ _
    rw [List.length_map]
    exact List.length_filter_le _ _

variable (graph) in
theorem unread_pos (cursor : Cursor) (head : FrontierRow) : 0 < unread graph cursor head := by
  rw [unread]
  split
  · exact Nat.one_pos
  · exact Nat.succ_pos _

def queueSteps (graph : Graph) (cursor : Cursor) : List FrontierRow → Nat
  | [] => 0
  | head :: tail => rowSteps graph * tail.length + unread graph cursor head

variable (graph) in
theorem queueSteps_le (cursor : Cursor) (rows : List FrontierRow) :
    queueSteps graph cursor rows ≤ rowSteps graph * rows.length := by
  cases rows with
  | nil => exact Nat.zero_le _
  | cons head tail =>
    rw [queueSteps, List.length_cons, Nat.mul_succ]
    exact Nat.add_le_add_left (unread_le cursor head) _

/-- Enough steps for all that the queue holds and may still hold. -/
def stepsLeft (graph : Graph) (all : List FlowItem) (revokeId : Nat) (state : State) : Nat :=
  rowSteps graph * missing graph all revokeId state.db +
    queueSteps graph state.cursor (queue state.db revokeId)

/-- **A step of a queue that is not empty leaves fewer steps.** -/
theorem step_fewer {state : State} (isInv : Inv graph revokeId all state) {n : Nat}
    (isPositive : 0 < n) (isFull : queue state.db revokeId ≠ []) {db : Db} {cursor : Cursor}
    {isDone : Bool} (isStep : flowStep graph state.db revokeId state.cursor n = .ok (db, cursor, isDone)) :
    stepsLeft graph all revokeId ⟨db, cursor⟩ < stepsLeft graph all revokeId state := by
  cases isQueue : queue state.db revokeId with
  | nil => exact absurd isQueue isFull
  | cons head tail =>
    obtain ⟨item, isItem, isItemHeld⟩ := isInv.items head (isQueue ▸ List.mem_cons_self)
    have isReached := isInv.sound _ _ isItemHeld
    generalize isEdges : (graph.edges item.node).page (afterOf state.cursor head) n = edges
    have isPage : ∀ edge ∈ edges, edge ∈ graph.edges item.node :=
      fun edge isIn => page_mem (isEdges ▸ isIn)
    obtain ⟨isSeeded, isGrown, -⟩ := isInv.page isReached isPage
    have isCount : missing graph all revokeId (seedEdges graph revokeId item edges state.db) +
          (queue (seedEdges graph revokeId item edges state.db) revokeId).length ≤
        missing graph all revokeId state.db + (queue state.db revokeId).length :=
      missing_seedEdges (Reached.cell isReached) isPage
    generalize isDb : seedEdges graph revokeId item edges state.db = seeded
      at isSeeded isGrown isCount
    obtain ⟨pushed, isPushed⟩ := isGrown.queued
    rw [isQueue, List.cons_append] at isPushed
    rw [isPushed, isQueue, List.length_cons, List.length_cons, List.length_append] at isCount
    have isFewer : missing graph all revokeId seeded + pushed.length ≤
        missing graph all revokeId state.db := by omega
    have isLess : rowSteps graph * missing graph all revokeId seeded +
        rowSteps graph * pushed.length ≤ rowSteps graph * missing graph all revokeId state.db := by
      rw [← Nat.mul_add]
      exact Nat.mul_le_mul_left _ isFewer
    have isUnread : unread graph state.cursor head =
        ((graph.edges item.node).after (afterOf state.cursor head)).length + 1 := by
      rw [unread, isItem]
    rw [stepsLeft, stepsLeft, isQueue, queueSteps, isUnread]
    by_cases isWhole : edges.length = n
    · rw [flowStep_full isInv isQueue isItem isEdges isDb isWhole, Except.ok.injEq, Prod.mk.injEq,
        Prod.mk.injEq] at isStep
      obtain ⟨rfl, rfl, -⟩ := isStep
      have isSome : edges ≠ [] := List.ne_nil_of_length_pos (isWhole ▸ isPositive)
      have isResumed : (edges.getLast?.map (·.1)).getD [] =
          KeyedTable.resume (afterOf state.cursor head) edges := by
        rw [KeyedTable.resume, List.getLast?_eq_some_getLast isSome]
        rfl
      have isRead : ((graph.edges item.node).after (afterOf state.cursor head)).length =
          n + ((graph.edges item.node).after ((edges.getLast?.map (·.1)).getD [])).length := by
        rw [← KeyedTable.page_append (k := afterOf state.cursor head) (n := n), isEdges,
          List.length_append, isWhole, isResumed]
      have isNow : unread graph ⟨some head.seq, some ((edges.getLast?.map (·.1)).getD [])⟩ head =
          ((graph.edges item.node).after ((edges.getLast?.map (·.1)).getD [])).length + 1 := by
        rw [unread, isItem, afterOf, if_pos rfl, Option.getD_some]
      show rowSteps graph * missing graph all revokeId seeded +
        queueSteps graph _ (queue seeded revokeId) < _
      rw [isPushed, queueSteps, isNow, List.length_append, Nat.mul_add]
      omega
    · rw [flowStep_short isInv isQueue isItem isEdges isDb isWhole, Except.ok.injEq,
        Prod.mk.injEq, Prod.mk.injEq] at isStep
      obtain ⟨rfl, rfl, -⟩ := isStep
      have isTail := queue_delete isSeeded.ordered isPushed
      have isSteps := queueSteps_le graph ⟨none, none⟩ (tail ++ pushed)
      rw [List.length_append, Nat.mul_add] at isSteps
      show rowSteps graph * missing graph all revokeId seeded +
        queueSteps graph ⟨none, none⟩ (queue _ _) < _
      rw [isTail]
      omega

/-! ### Runs -/

theorem run_cons (state : State) (first : Call) (calls : List Call) :
    run graph revokeId state (first :: calls) =
      (call graph revokeId state first).bind fun next => run graph revokeId next calls :=
  List.foldlM_cons

/-- **A run keeps the invariant**, and holds each of its seeds at or below its position. -/
theorem run_inv {state : State} (isInv : Inv graph revokeId all state) (calls : List Call)
    (isAll : ∀ item ∈ seedsOf calls, item ∈ all) :
    ∃ last, run graph revokeId state calls = .ok last ∧ Inv graph revokeId all last ∧
      (∀ node since, Held state.db revokeId node since → Held last.db revokeId node since) ∧
      ∀ item ∈ seedsOf calls, ∃ position ≤ item.since, Held last.db revokeId item.node position := by
  induction calls generalizing state with
  | nil => exact ⟨state, rfl, isInv, fun _ _ isHeld => isHeld, fun _ isIn => nomatch isIn⟩
  | cons first calls ih =>
    rw [run_cons]
    cases first with
    | seed item isNode =>
      have isSeeds : seedsOf (.seed item isNode :: calls) = item :: seedsOf calls := rfl
      rw [isSeeds, List.forall_mem_cons] at isAll
      rw [isSeeds]
      obtain ⟨isGrown, position, isLow, isHeld⟩ :=
        seedFlow_grows revokeId state.db isNode item.since
      obtain ⟨last, isRun, isLast, isKept, isSeeded⟩ :=
        ih (isInv.seed isNode (.seed isAll.1)) isAll.2
      refine ⟨last, isRun, isLast, fun node since isOld => isKept _ _ (isGrown.kept _ _ isOld), ?_⟩
      rw [List.forall_mem_cons]
      exact ⟨⟨position, isLow, isKept _ _ isHeld⟩, isSeeded⟩
    | step n positive =>
      obtain ⟨db, cursor, isDone, isStep, isNext, isKeptNow⟩ := isInv.step positive
      obtain ⟨last, isRun, isLast, isKept, isSeeded⟩ := ih isNext isAll
      refine ⟨last, ?_, isLast, fun node since isOld => isKept _ _ (isKeptNow _ _ isOld), isSeeded⟩
      rw [call, isStep]
      exact isRun

theorem run_ends {state : State} (isInv : Inv graph revokeId all state)
    (sizes : List {n : Nat // 0 < n})
    (isEnough : queue state.db revokeId = [] ∨ stepsLeft graph all revokeId state ≤ sizes.length) :
    ∃ last, run graph revokeId state (sizes.map fun n => .step n.1 n.2) = .ok last ∧
      queue last.db revokeId = [] := by
  induction sizes generalizing state with
  | nil =>
    refine ⟨state, rfl, isEnough.elim id fun isNone => ?_⟩
    cases isQueue : queue state.db revokeId with
    | nil => rfl
    | cons head tail =>
      have isUnread := unread_pos graph state.cursor head
      rw [stepsLeft, isQueue, queueSteps, List.length_nil] at isNone
      omega
  | cons size sizes ih =>
    obtain ⟨db, cursor, isDone, isStep, isNext, -⟩ := isInv.step size.2
    have isLeft : queue db revokeId = [] ∨
        stepsLeft graph all revokeId ⟨db, cursor⟩ ≤ sizes.length := by
      rw [List.length_cons] at isEnough
      by_cases isEmpty : queue state.db revokeId = []
      · rw [flowStep_empty isInv size.1 isEmpty, Except.ok.injEq, Prod.mk.injEq,
          Prod.mk.injEq] at isStep
        exact .inl (isStep.1 ▸ isEmpty)
      · have isFewer := step_fewer isInv size.2 isEmpty isStep
        have isCount := isEnough.resolve_left isEmpty
        exact .inr (by omega)
    obtain ⟨last, isRun, isQueue⟩ := ih isNext isLeft
    refine ⟨last, ?_, isQueue⟩
    rw [List.map_cons, run_cons, call, isStep]
    exact isRun

/-! ### Paths -/

/-- The largest of a seed's position and the `first_lsn` values of a path. -/
def largest (since : Lsn) (path : List (Text × Lsn)) : Lsn :=
  path.foldl (fun position edge => max edge.2 position) since

/-- A path of edges of the graph from one node to another, each taken from its node at the largest
position so far: unless it has a stamp below that position and is not from scope to scope. -/
def Taken (graph : Graph) : Text → Lsn → List (Text × Lsn) → Text → Prop
  | node, _, [], other => node = other
  | node, since, edge :: path, other =>
    edge ∈ graph.edges node ∧ graph.follows node edge.1 since = true ∧
      Taken graph edge.1 (max edge.2 since) path other

def PathPositions (graph : Graph) (seeds : List FlowItem) (node : Text) : Set Lsn :=
  {position | ∃ item ∈ seeds, ∃ path, Taken graph item.node item.since path node ∧
    largest item.since path = position}

theorem Taken.append {other : Text} {path : List (Text × Lsn)}
    (isTaken : Taken graph node since path other) {edge : Text × Lsn}
    (isEdge : edge ∈ graph.edges other)
    (isOpen : graph.follows other edge.1 (largest since path) = true) :
    Taken graph node since (path ++ [edge]) edge.1 := by
  induction path generalizing node since with
  | nil =>
    obtain rfl : node = other := isTaken
    exact ⟨isEdge, isOpen, rfl⟩
  | cons first path ih =>
    exact ⟨isTaken.1, isTaken.2.1, ih isTaken.2.2 isOpen⟩

theorem Reached.taken {other : Text} (isReached : Reached graph all node since)
    {path : List (Text × Lsn)} (isTaken : Taken graph node since path other) :
    Reached graph all other (largest since path) := by
  induction path generalizing node since with
  | nil =>
    obtain rfl : node = other := isTaken
    exact isReached
  | cons edge path ih =>
    have isNext : Reached graph all edge.1 (max edge.2 since) :=
      @Reaches.carried _ _ _ _ (carrying graph) _ (node, edge) since isReached
        ⟨isTaken.1, isTaken.2.1⟩
    exact ih isNext isTaken.2.2

theorem reached_iff {position : Lsn} :
    Reached graph all node position ↔ position ∈ PathPositions graph all node := by
  constructor
  · intro isReached
    induction isReached with
    | @seed node since isSeed => exact ⟨⟨node, since⟩, isSeed, [], rfl, rfl⟩
    | @carried edge position _ isLet ih =>
      obtain ⟨item, isItem, path, isTaken, rfl⟩ := ih
      refine ⟨item, isItem, path ++ [edge.2], isTaken.append isLet.1 isLet.2, ?_⟩
      rw [largest, List.foldl_append]
      rfl
  · rintro ⟨item, isItem, path, isTaken, rfl⟩
    have isSeed : Reached graph all item.node item.since := .seed isItem
    exact isSeed.taken isTaken

/-! ### The closure -/

/-- A job before its first seed: its pending rows are those that stand for all threads and all scopes,
and it has nothing queued at a negative seq. Other jobs' rows, and its own nodes at other seqs, may be
there. -/
structure Fresh (db : Db) (revokeId : Nat) : Prop where
  pending : ∀ row ∈ db.pending, row.revoke_id = revokeId → row.key = "*".toList
  pendingScope : ∀ row ∈ db.pendingScope, row.revoke_id = revokeId → row.key = "*".toList
  frontier : ∀ row ∈ db.frontier, row.revoke_id = revokeId → 0 ≤ row.seq

theorem Fresh.inv {db : Db} (isFresh : Fresh db revokeId) :
    Inv graph revokeId all ⟨db, ⟨none, none⟩⟩ := by
  have isNone : ∀ node since, ¬Held db revokeId node since := by
    rintro node since ⟨⟨-, isNotThreads, isNotScopes⟩, isHeld⟩
    rw [Db.tableOf] at isHeld
    cases isKind : isScope node with
    | true =>
      rw [if_pos isKind] at isHeld
      have isKey := isFresh.pendingScope _ isHeld rfl
      have isAll : node = "scope:*".toList := keyOf_injective isKind isKey
      exact isNotScopes isAll
    | false =>
      rw [if_neg (Bool.eq_false_iff.mp isKind)] at isHeld
      have isKey := isFresh.pending _ isHeld rfl
      have isAll : node = "*".toList := keyOf_injective isKind isKey
      exact isNotThreads isAll
  have isQueue : queue db revokeId = [] := by
    refine List.filter_eq_nil_iff.mpr fun row isRow isTest => ?_
    obtain ⟨isMine, isNegative⟩ := of_decide_eq_true isTest
    exact absurd (isFresh.frontier row isRow isMine) (Int.not_le.mpr isNegative)
  constructor
  · exact fun node since isHeld => absurd isHeld (isNone node since)
  · rw [isQueue]
    exact List.Pairwise.nil
  · rw [isQueue]
    exact fun _ isIn => by cases isIn
  · exact fun node since isHeld => absurd isHeld (isNone node since)
  · exact fun _ isCursor => by cases isCursor
  · rw [isQueue]
    exact fun _ isIn => by cases isIn

def smallestPending (db : Db) (revokeId : Nat) (node : Text) : Option Lsn :=
  (db.heldSince revokeId node).min?

/-- Every node's smallest pending position is the least of the largest positions of the paths to it,
and a node that no path reaches has no pending row. -/
def MinMax (graph : Graph) (revokeId : Nat) (seeds : List FlowItem) (db : Db) : Prop :=
  ∀ node, IsNode node →
    (∀ since, smallestPending db revokeId node = some since ↔
      IsLeast (PathPositions graph seeds node) since) ∧
    (PathPositions graph seeds node = ∅ → db.heldSince revokeId node = [])

theorem smallestPending_iff {db : Db} (isNode : IsNode node) :
    smallestPending db revokeId node = some since ↔
      IsLeast {position | Held db revokeId node position} since := by
  rw [smallestPending, List.min?_eq_some_iff]
  refine and_congr (mem_heldSince isNode)
    ⟨fun isLow other isHeld => isLow other ((mem_heldSince isNode).mpr isHeld),
      fun isLow other isHeld => isLow ((mem_heldSince isNode).mp isHeld)⟩

theorem Inv.minMax {state : State} (isInv : Inv graph revokeId all state)
    (isSeeded : ∀ item ∈ all, ∃ position ≤ item.since, Held state.db revokeId item.node position)
    (isQueue : queue state.db revokeId = []) : MinMax graph revokeId all state.db := by
  have isClosed : ∀ position (edge : Text × Text × Lsn),
      Held state.db revokeId ((carrying graph).source edge) position →
        GoesOn (carrying graph) (Held state.db revokeId) position edge := by
    intro position edge isHeld
    rcases isInv.walked _ position isHeld with ⟨row, isRow, -⟩ | isFollowed
    · rw [isQueue] at isRow
      exact nomatch isRow
    · exact isFollowed edge.2
  intro node isNode
  constructor
  · intro since
    have isSame : PathPositions graph all node = {position | Reached graph all node position} :=
      Set.ext fun position => reached_iff.symm
    rw [smallestPending_iff isNode, isSame]
    exact least_marks (fun node position isSeed => isSeeded ⟨node, position⟩ isSeed) isClosed
      isInv.sound node since
  · intro isNone
    refine List.eq_nil_iff_forall_not_mem.mpr fun since isIn => ?_
    have isPath := reached_iff.mp (isInv.sound node since ((mem_heldSince isNode).mp isIn))
    rw [isNone] at isPath
    exact isPath

theorem run_append (state : State) (calls more : List Call) :
    run graph revokeId state (calls ++ more) =
      (run graph revokeId state calls).bind fun next => run graph revokeId next more :=
  List.foldlM_append

theorem seedsOf_append (calls more : List Call) :
    seedsOf (calls ++ more) = seedsOf calls ++ seedsOf more :=
  List.filterMap_append

theorem seedsOf_steps (sizes : List {n : Nat // 0 < n}) :
    seedsOf (sizes.map fun n => .step n.1 n.2) = [] := by
  induction sizes with
  | nil => rfl
  | cons size sizes ih => exact ih

/-- **The flow closure is the min-max closure.** Whatever seeds and steps are called for a job, in any
order and with pages of any sizes, no call fails; whenever its queue is empty the pending rows are
the min-max closure of the seeds; and from any point enough further steps empty the queue. -/
theorem flow_closure (graph : Graph) (revokeId : Nat) {db : Db} (isFresh : Fresh db revokeId)
    (calls : List Call) :
    (∃ state, run graph revokeId ⟨db, ⟨none, none⟩⟩ calls = .ok state ∧
      (queue state.db revokeId = [] → MinMax graph revokeId (seedsOf calls) state.db)) ∧
    ∃ enough, ∀ sizes : List {n : Nat // 0 < n}, enough ≤ sizes.length →
      ∃ state, run graph revokeId ⟨db, ⟨none, none⟩⟩
          (calls ++ sizes.map fun n => .step n.1 n.2) = .ok state ∧
        queue state.db revokeId = [] ∧ MinMax graph revokeId (seedsOf calls) state.db := by
  have closes : ∀ calls : List Call, ∃ state, run graph revokeId ⟨db, ⟨none, none⟩⟩ calls =
        .ok state ∧ Inv graph revokeId (seedsOf calls) state ∧
      (queue state.db revokeId = [] → MinMax graph revokeId (seedsOf calls) state.db) := by
    intro calls
    have isStart : Inv graph revokeId (seedsOf calls) ⟨db, ⟨none, none⟩⟩ := isFresh.inv
    obtain ⟨state, isRun, isInv, -, isSeeded⟩ := run_inv isStart calls fun _ isIn => isIn
    exact ⟨state, isRun, isInv, isInv.minMax isSeeded⟩
  obtain ⟨state, isRun, isInv, isMinMax⟩ := closes calls
  refine ⟨⟨state, isRun, isMinMax⟩, stepsLeft graph (seedsOf calls) revokeId state, ?_⟩
  intro sizes isEnough
  obtain ⟨last, isLast, isQueue⟩ := run_ends isInv sizes (.inr isEnough)
  have isWhole : run graph revokeId ⟨db, ⟨none, none⟩⟩
      (calls ++ sizes.map fun n => .step n.1 n.2) = .ok last := by
    rw [run_append, isRun]
    exact isLast
  obtain ⟨other, isOther, -, isOtherMinMax⟩ := closes (calls ++ sizes.map fun n => .step n.1 n.2)
  obtain rfl := Except.ok.inj (isWhole.symm.trans isOther)
  rw [seedsOf_append, seedsOf_steps, List.append_nil] at isOtherMinMax
  exact ⟨last, isWhole, isQueue, isOtherMinMax isQueue⟩

/-! ### How many steps -/

theorem seeds_missing {seeds : List {item : FlowItem // IsNode item.node}} {state : State}
    (areCells : ∀ item ∈ seeds, (item.1.node, item.1.since) ∈ cells graph all) :
    ∃ db, run graph revokeId state (seeds.map fun item => .seed item.1 item.2) =
        .ok ⟨db, state.cursor⟩ ∧
      missing graph all revokeId db + (queue db revokeId).length ≤
        missing graph all revokeId state.db + (queue state.db revokeId).length := by
  induction seeds generalizing state with
  | nil => exact ⟨state.db, rfl, Nat.le_refl _⟩
  | cons item seeds ih =>
    rw [List.forall_mem_cons] at areCells
    obtain ⟨db, isRun, isFewer⟩ :=
      @ih ⟨seedFlow state.db revokeId item.1.node item.1.since, state.cursor⟩ areCells.2
    refine ⟨db, ?_, isFewer.trans (missing_seedFlow item.2 areCells.1)⟩
    rw [List.map_cons, run_cons]
    exact isRun

/-- **A job's walk is short.** However it is paged, a job of `s` seeds over `e` edges has an empty queue
after `(e + 1) * (s + e) ^ 2` steps. -/
theorem flow_closure_steps (graph : Graph) (revokeId : Nat) {db : Db} (isFresh : Fresh db revokeId)
    (seeds : List {item : FlowItem // IsNode item.node}) (sizes : List {n : Nat // 0 < n})
    (isEnough : (graph.flow.rows.length + 1) * (seeds.length + graph.flow.rows.length) ^ 2 ≤
      sizes.length) :
    ∃ state, run graph revokeId ⟨db, ⟨none, none⟩⟩ (seeds.map (fun item => .seed item.1 item.2) ++
        sizes.map fun n => .step n.1 n.2) = .ok state ∧ queue state.db revokeId = [] := by
  have isStart : Inv graph revokeId (seeds.map (·.1)) ⟨db, ⟨none, none⟩⟩ := isFresh.inv
  obtain ⟨seeded, isSeeded, isFewer⟩ := @seeds_missing graph revokeId (seeds.map (·.1)) seeds
    ⟨db, ⟨none, none⟩⟩ fun item isIn => by
      have isSeed : item.1 ∈ seeds.map (·.1) := List.mem_map_of_mem isIn
      exact Reached.cell (.seed isSeed)
  have areSeeds : seedsOf (seeds.map fun item => .seed item.1 item.2) = seeds.map (·.1) := by
    rw [seedsOf, List.filterMap_map]
    exact congrFun List.filterMap_eq_map seeds
  obtain ⟨state, isRun, isInv, -⟩ := run_inv isStart (seeds.map fun item => .seed item.1 item.2)
    fun _ isIn => areSeeds ▸ isIn
  obtain rfl := Except.ok.inj (isSeeded.symm.trans isRun)
  have isQueue : queue db revokeId = [] := by
    refine List.filter_eq_nil_iff.mpr fun row isRow isTest => ?_
    obtain ⟨isMine, isNegative⟩ := of_decide_eq_true isTest
    exact absurd (isFresh.frontier row isRow isMine) (Int.not_le.mpr isNegative)
  have isMost : missing graph (seeds.map (·.1)) revokeId db ≤
      (seeds.length + graph.flow.rows.length) ^ 2 := by
    refine (List.length_filter_le _ _).trans (Nat.le_of_eq ?_)
    rw [cells, List.length_product, List.length_append, List.length_append]
    simp only [List.length_map]
    exact (Nat.pow_two _).symm
  obtain ⟨last, isLast, isDone⟩ := run_ends isInv sizes <| .inr <| by
    refine Nat.le_trans ?_ isEnough
    have isShort := queueSteps_le graph ⟨none, none⟩ (queue seeded revokeId)
    rw [isQueue, List.length_nil, Nat.add_zero] at isFewer
    calc _ ≤ rowSteps graph * missing graph _ revokeId seeded +
          rowSteps graph * (queue seeded revokeId).length := Nat.add_le_add_left isShort _
      _ = rowSteps graph * (missing graph _ revokeId seeded + (queue seeded revokeId).length) :=
        (Nat.mul_add _ _ _).symm
      _ ≤ _ := Nat.mul_le_mul_left _ (isFewer.trans isMost)
  refine ⟨last, ?_, isDone⟩
  rw [run_append, isRun]
  exact isLast

/-- A thread that flows into a scope and a scope that flows back into it, without stamps. -/
def exampleGraph : Graph where
  flow := ⟨[(toLex ("scope:s".toList, "t".toList), ⟨9, by decide⟩),
    (toLex ("t".toList, "scope:s".toList), ⟨5, by decide⟩)], by decide⟩
  last := none
  named :=
    List.forall_mem_cons.mpr ⟨by decide, List.forall_mem_singleton.mpr (by decide)⟩

/-- A job with its window over all threads and a node to mark, nothing seeded. -/
def exampleStart : State :=
  ⟨⟨[⟨"*".toList, ⟨2, by decide⟩, 7⟩], [], [⟨7, 1, none⟩], fun _ => some ⟨4, by decide⟩⟩,
    ⟨none, none⟩⟩

/-- A job whose thread is seeded at 3, walked for a page, and seeded again at 1. -/
theorem flow_closure_example :
    ∃ enough, ∀ sizes : List {n : Nat // 0 < n}, enough ≤ sizes.length →
      ∃ state, run exampleGraph 7 exampleStart
          ([.seed ⟨"t".toList, ⟨3, by decide⟩⟩ (by decide), .step 1 (by decide),
            .seed ⟨"t".toList, ⟨1, by decide⟩⟩ (by decide)] ++ sizes.map fun n => .step n.1 n.2) = .ok state ∧
        queue state.db 7 = [] ∧ MinMax exampleGraph 7
          [⟨"t".toList, ⟨3, by decide⟩⟩, ⟨"t".toList, ⟨1, by decide⟩⟩] state.db := by
  have isFresh : Fresh exampleStart.db 7 :=
    ⟨List.forall_mem_singleton.mpr fun _ => rfl, List.forall_mem_nil _,
      List.forall_mem_singleton.mpr fun _ => by decide⟩
  exact (flow_closure exampleGraph 7 isFresh [.seed ⟨"t".toList, ⟨3, by decide⟩⟩ (by decide),
    .step 1 (by decide), .seed ⟨"t".toList, ⟨1, by decide⟩⟩ (by decide)]).2

theorem flow_closure_steps_example : ∃ state, run exampleGraph 7 exampleStart
    ([.seed ⟨"t".toList, ⟨3, by decide⟩⟩ (by decide)] ++
      (List.replicate 27 ⟨1, Nat.one_pos⟩).map fun n : {n : Nat // 0 < n} => .step n.1 n.2) =
        .ok state ∧ queue state.db 7 = [] :=
  flow_closure_steps exampleGraph 7 ⟨List.forall_mem_singleton.mpr fun _ => rfl,
    List.forall_mem_nil _, List.forall_mem_singleton.mpr fun _ => by decide⟩
    [⟨⟨"t".toList, ⟨3, by decide⟩⟩, by decide⟩] (List.replicate 27 ⟨1, Nat.one_pos⟩) (by decide)

end Murage.FlowClosure
