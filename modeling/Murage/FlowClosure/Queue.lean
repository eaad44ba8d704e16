import Mathlib.Order.MinMax
import Murage.FlowClosure.Model
import Murage.Library.Propagation

/-!
Owns: what a seed does to the pending rows and the queue of a job, and that the queue is served in
the order it was filled.

Does not own: a whole walk.
-/

namespace Murage.FlowClosure

open Murage.Library Murage.Library.Propagation

variable {db : Db} {revokeId : Nat} {node other : Text} {since position : Lsn}

/-! ### Pending rows -/

/-- A job holds a node pending at a position. -/
def Held (db : Db) (revokeId : Nat) (node : Text) (since : Lsn) : Prop :=
  IsNode node ∧ (⟨keyOf node, since, revokeId⟩ : PendingRow) ∈ db.tableOf node

instance : Decidable (Held db revokeId node since) := by
  unfold Held
  infer_instance

theorem mem_heldSince (isNode : IsNode node) :
    since ∈ db.heldSince revokeId node ↔ Held db revokeId node since := by
  rw [Db.heldSince, List.mem_map, Held, and_iff_right isNode]
  constructor
  · rintro ⟨row, isRow, rfl⟩
    obtain ⟨isIn, isTest⟩ := List.mem_filter.mp isRow
    obtain ⟨isKey, isRevoke⟩ := of_decide_eq_true isTest
    rw [← isKey, ← isRevoke]
    exact isIn
  · intro isHeld
    exact ⟨_, List.mem_filter.mpr ⟨isHeld, decide_eq_true ⟨rfl, rfl⟩⟩, rfl⟩

theorem keyOf_injective (isTable : isScope node = isScope other) (isKey : keyOf node = keyOf other) :
    node = other := by
  rw [keyOf, keyOf, ← isTable] at isKey
  cases isKind : isScope node with
  | false =>
    rw [isKind] at isKey
    exact isKey
  | true =>
    rw [isKind] at isKey isTable
    have isNode := List.prefix_iff_eq_append.mp (List.isPrefixOf_iff_prefix.mp isKind)
    have isOther := List.prefix_iff_eq_append.mp (List.isPrefixOf_iff_prefix.mp isTable.symm)
    rw [← isNode, ← isOther]
    exact congrArg (scopePrefix ++ ·) isKey

theorem mem_insertOrIgnore {row found : PendingRow} {rows : List PendingRow} :
    found ∈ insertOrIgnore row rows ↔ found ∈ rows ∨ found = row := by
  rw [insertOrIgnore]
  split
  · next isIn => exact ⟨Or.inl, fun isEither => isEither.elim id fun isNew => isNew ▸ isIn⟩
  · rw [List.mem_append, List.mem_singleton]

theorem tableOf_insertPending (row : PendingRow) :
    (db.insertPending node row).tableOf other =
      if isScope other = isScope node then insertOrIgnore row (db.tableOf other)
      else db.tableOf other := by
  rw [Db.insertPending, Db.tableOf, Db.tableOf]
  cases isScope node <;> cases isScope other <;> rfl

theorem held_insertPending (isNode : IsNode node) :
    Held (db.insertPending node ⟨keyOf node, since, revokeId⟩) revokeId other position ↔
      Held db revokeId other position ∨ (other = node ∧ position = since) := by
  rw [Held, Held, tableOf_insertPending]
  split
  · next isTable =>
    rw [mem_insertOrIgnore, PendingRow.mk.injEq, and_or_left]
    refine or_congr_right ⟨?_, ?_⟩
    · rintro ⟨-, isKey, isSince, -⟩
      exact ⟨keyOf_injective isTable isKey, isSince⟩
    · rintro ⟨rfl, rfl⟩
      exact ⟨isNode, rfl, rfl, rfl⟩
  · next isTable =>
    refine ⟨Or.inl, ?_⟩
    rintro (isHeld | ⟨rfl, -⟩)
    · exact isHeld
    · exact absurd rfl isTable

theorem frontier_insertPending (row : PendingRow) :
    (db.insertPending node row).frontier = db.frontier := by
  rw [Db.insertPending]
  split <;> rfl

theorem covering_subset (isNode : IsNode node)
    (isCovering : position ∈ db.covering revokeId node since) : Held db revokeId node position := by
  rw [← mem_heldSince isNode]
  rw [Db.covering] at isCovering
  split at isCovering
  · exact isCovering
  · split at isCovering
    · exact (List.mem_filter.mp isCovering).1
    · exact isCovering

theorem mem_covering (isHeld : Held db revokeId node since) :
    since ∈ db.covering revokeId node since := by
  rw [← mem_heldSince isHeld.1] at isHeld
  rw [Db.covering]
  split
  · exact isHeld
  · split
    · next isAfter => exact List.mem_filter.mpr ⟨isHeld, decide_eq_true isAfter⟩
    · exact isHeld

theorem markPending_cases (db : Db) (revokeId : Nat) (isNode : IsNode node) (since : Lsn) :
    (markPending db revokeId node since = (db, false) ∧
        ∃ position ≤ since, Held db revokeId node position) ∨
      (markPending db revokeId node since =
          (db.insertPending node ⟨keyOf node, since, revokeId⟩, true) ∧
        ¬Held db revokeId node since) := by
  rw [markPending]
  cases isMin : (db.covering revokeId node since).min? with
  | none =>
    refine .inr ⟨rfl, fun isHeld => ?_⟩
    have isIn := mem_covering isHeld
    rw [List.min?_eq_none_iff] at isMin
    rw [isMin] at isIn
    exact nomatch isIn
  | some position =>
    rw [Option.any_some]
    by_cases isLow : position ≤ since
    · rw [if_pos (decide_eq_true isLow)]
      exact .inl ⟨rfl, position, isLow, covering_subset isNode (List.min?_mem isMin)⟩
    · rw [if_neg (fun isTrue => isLow (of_decide_eq_true isTrue))]
      exact .inr ⟨rfl, fun isHeld =>
        isLow ((List.min?_eq_some_iff.mp isMin).2 since (mem_covering isHeld))⟩

/-! ### The queue -/

/-- The rows a job's flow phase has still to walk. -/
def queue (db : Db) (revokeId : Nat) : List FrontierRow :=
  db.frontier.filter fun row => row.revoke_id = revokeId ∧ row.seq < 0

/-- Each row is further from zero than those before it. -/
def InOrder (rows : List FrontierRow) : Prop := rows.Pairwise fun row later => later.seq < row.seq

theorem headOf_eq (isOrdered : InOrder (queue db revokeId)) :
    headOf db revokeId = (queue db revokeId).head? := by
  show ((queue db revokeId).map (·.seq)).max?.bind
    (fun seq => (queue db revokeId).find? (·.seq = seq)) = _
  cases isQueue : queue db revokeId with
  | nil => rfl
  | cons head tail =>
    rw [isQueue, InOrder, List.pairwise_cons] at isOrdered
    have isMax : ((head :: tail).map (·.seq)).max? = some head.seq := by
      rw [List.max?_eq_some_iff]
      refine ⟨List.mem_map_of_mem List.mem_cons_self, fun seq isSeq => ?_⟩
      obtain ⟨row, isRow, rfl⟩ := List.mem_map.mp isSeq
      rcases List.mem_cons.mp isRow with rfl | isLater
      · exact le_refl _
      · exact le_of_lt (isOrdered.1 row isLater)
    rw [isMax, Option.bind_some, List.find?_cons, decide_eq_true rfl, List.head?_cons]

theorem queue_pushFlow (db : Db) (revokeId : Nat) (node : Text) (since : Lsn) :
    ∃ seq, queue (pushFlow db revokeId node since) revokeId =
        queue db revokeId ++ [⟨revokeId, seq, some ⟨node, since⟩⟩] ∧
      ∀ row ∈ queue db revokeId, seq < row.seq := by
  refine ⟨min 0 (((db.frontier.filter (·.revoke_id = revokeId)).map (·.seq)).min?.getD 0) - 1,
    ?_, ?_⟩
  · rw [queue, pushFlow, List.filter_append, queue]
    refine congrArg _ (List.filter_cons_of_pos (decide_eq_true ⟨rfl, ?_⟩))
    show min 0 _ - 1 < (0 : Int)
    omega
  · intro row isRow
    obtain ⟨isIn, isTest⟩ := List.mem_filter.mp isRow
    have isSeq : row.seq ∈ (db.frontier.filter (·.revoke_id = revokeId)).map (·.seq) :=
      List.mem_map_of_mem (List.mem_filter.mpr ⟨isIn, decide_eq_true (of_decide_eq_true isTest).1⟩)
    cases isMin : ((db.frontier.filter (·.revoke_id = revokeId)).map (·.seq)).min? with
    | none =>
      rw [List.min?_eq_none_iff] at isMin
      rw [isMin] at isSeq
      exact nomatch isSeq
    | some first =>
      have isLeast := (List.min?_eq_some_iff.mp isMin).2 row.seq isSeq
      show min 0 first - 1 < row.seq
      omega

theorem seedFlow_cases (db : Db) (revokeId : Nat) (isNode : IsNode node) (since : Lsn) :
    (seedFlow db revokeId node since = db ∧ ∃ position ≤ since, Held db revokeId node position) ∨
      (¬Held db revokeId node since ∧
        (∀ other position, Held (seedFlow db revokeId node since) revokeId other position ↔
          Held db revokeId other position ∨ (other = node ∧ position = since)) ∧
        ∃ seq, queue (seedFlow db revokeId node since) revokeId =
            queue db revokeId ++ [⟨revokeId, seq, some ⟨node, since⟩⟩] ∧
          ∀ row ∈ queue db revokeId, seq < row.seq) := by
  rcases markPending_cases db revokeId isNode since with ⟨isMarked, isHeld⟩ | ⟨isMarked, isNew⟩
  · refine .inl ⟨?_, isHeld⟩
    rw [seedFlow, isMarked]
    rfl
  · have isSeeded : seedFlow db revokeId node since =
        pushFlow (db.insertPending node ⟨keyOf node, since, revokeId⟩) revokeId node since := by
      rw [seedFlow, isMarked]
      rfl
    refine .inr ⟨isNew, ?_, ?_⟩
    · intro other position
      rw [isSeeded]
      exact held_insertPending isNode
    · have isSame : queue (db.insertPending node ⟨keyOf node, since, revokeId⟩) revokeId =
          queue db revokeId := by
        rw [queue, frontier_insertPending]
        rfl
      rw [isSeeded, ← isSame]
      exact queue_pushFlow _ revokeId node since

/-! ### Edges -/

/-- How the edges of the graph carry positions. An edge with a stamp below a position is closed to it,
unless it leads from a scope to a scope. -/
def carrying (graph : Graph) : Carrying Text (Text × Text × Lsn) Lsn where
  source edge := edge.1
  target edge := edge.2.1
  lets edge position := edge.2 ∈ graph.edges edge.1 ∧ graph.follows edge.1 edge.2.1 position = true
  moved edge position := max edge.2.2 position
  lets_of_le edge low high isLow isLet := by
    refine ⟨isLet.1, ?_⟩
    have isFollowed := isLet.2
    rw [Graph.follows] at isFollowed ⊢
    cases isLast : graph.lastOf edge.1 edge.2.1 with
    | none => rfl
    | some last =>
      rw [isLast] at isFollowed
      by_cases isOld : last < low
      · have isOlder : last < high := lt_of_lt_of_le isOld isLow
        simp only [isOlder] at isFollowed
        simp only [isOld]
        exact isFollowed
      · simp only [isOld, decide_false, Bool.false_and, Bool.not_false]
  moved_le edge low high isLow := max_le_max (le_refl _) isLow

theorem edges_named {graph : Graph} {edge : Text × Lsn} (isEdge : edge ∈ graph.edges node) :
    IsNode edge.1 := by
  obtain ⟨row, isRow, rfl⟩ := List.mem_map.mp isEdge
  exact graph.named row (List.mem_filter.mp isRow).1

end Murage.FlowClosure
