import Murage.FlowClosure.Queue

/-!
Owns: what holds of a job's pending rows and its queue between any two calls, and that seeds and
steps keep it.

Does not own: what follows for the positions once the queue is empty.
-/

namespace Murage.FlowClosure

open Murage.Library Murage.Library.Propagation

variable {graph : Graph} {revokeId : Nat} {all : List FlowItem}

/-- Where the page of a head's edges begins. -/
def afterOf (cursor : Cursor) (head : FrontierRow) : Text :=
  if cursor.f = some head.seq then cursor.after.getD [] else []

/-- The positions that reach a node from the seeds. -/
def Reached (graph : Graph) (all : List FlowItem) : Text → Lsn → Prop :=
  Reaches (carrying graph) fun node since => ⟨node, since⟩ ∈ all

def Followed (graph : Graph) (revokeId : Nat) (db : Db) (item : FlowItem) (edge : Text × Lsn) : Prop :=
  GoesOn (carrying graph) (Held db revokeId) item.since (item.node, edge)

/-- Between two calls: what is pending is reached, the queue holds what is pending, in order, and a
node that is pending and not in the queue had all its edges followed. The head's edges up to the
cursor were followed too. -/
structure Inv (graph : Graph) (revokeId : Nat) (all : List FlowItem) (state : State) : Prop where
  sound : ∀ node since, Held state.db revokeId node since → Reached graph all node since
  ordered : InOrder (queue state.db revokeId)
  items : ∀ row ∈ queue state.db revokeId, ∃ item, row.node = some item ∧
    Held state.db revokeId item.node item.since
  walked : ∀ node since, Held state.db revokeId node since →
    (∃ row ∈ queue state.db revokeId, row.node = some ⟨node, since⟩) ∨
      ∀ edge, Followed graph revokeId state.db ⟨node, since⟩ edge
  cursor : ∀ f, state.cursor.f = some f →
    ∃ head ∈ (queue state.db revokeId).head?, head.seq = f
  begun : ∀ head ∈ (queue state.db revokeId).head?, ∀ item, head.node = some item →
    ∀ edge : Text × Lsn, edge.1 ≤ afterOf state.cursor head →
      Followed graph revokeId state.db item edge

/-- What a call may do to the rows of a job: its pending rows stay, and its queue grows at its end. -/
structure Grows (revokeId : Nat) (db later : Db) : Prop where
  kept : ∀ node since, Held db revokeId node since → Held later revokeId node since
  queued : ∃ pushed, queue later revokeId = queue db revokeId ++ pushed

theorem Grows.refl (db : Db) : Grows revokeId db db :=
  ⟨fun _ _ isHeld => isHeld, [], (List.append_nil _).symm⟩

theorem Grows.trans {db middle later : Db} (isFirst : Grows revokeId db middle)
    (isSecond : Grows revokeId middle later) : Grows revokeId db later := by
  obtain ⟨pushed, isPushed⟩ := isFirst.queued
  obtain ⟨more, isMore⟩ := isSecond.queued
  refine ⟨fun node since isHeld => isSecond.kept node since (isFirst.kept node since isHeld),
    pushed ++ more, ?_⟩
  rw [isMore, isPushed, List.append_assoc]

theorem Followed.grows {db later : Db} {item : FlowItem} {edge : Text × Lsn}
    (isKept : ∀ node since, Held db revokeId node since → Held later revokeId node since)
    (isFollowed : Followed graph revokeId db item edge) : Followed graph revokeId later item edge := by
  intro isLet
  obtain ⟨other, isOther, isHeld⟩ := isFollowed isLet
  exact ⟨other, isOther, isKept _ _ isHeld⟩

theorem followed_unnamed {db : Db} {item : FlowItem} {edge : Text × Lsn} (isUnnamed : edge.1 ≤ []) :
    Followed graph revokeId db item edge := by
  intro isLet
  refine absurd ?_ (edges_named isLet.1).1
  rcases isEmpty : edge.1 with - | ⟨c, rest⟩
  · rfl
  · rw [isEmpty] at isUnnamed
    exact absurd (List.nil_lt_cons c rest) (not_lt_of_ge isUnnamed)

/-! ### Seeds -/

variable (revokeId) in
theorem seedFlow_grows (db : Db) {node : Text} (isNode : IsNode node) (since : Lsn) :
    Grows revokeId db (seedFlow db revokeId node since) ∧
      ∃ position ≤ since, Held (seedFlow db revokeId node since) revokeId node position := by
  rcases seedFlow_cases db revokeId isNode since with ⟨isSame, isHeld⟩ |
    ⟨-, isHeld, seq, isQueue, -⟩
  · rw [isSame]
    exact ⟨Grows.refl db, isHeld⟩
  · exact ⟨⟨fun other position isOld => (isHeld other position).mpr (.inl isOld), _, isQueue⟩,
      since, le_refl _, (isHeld node since).mpr (.inr ⟨rfl, rfl⟩)⟩

theorem Inv.seed {state : State} (isInv : Inv graph revokeId all state) {node : Text} {since : Lsn}
    (isNode : IsNode node) (isReached : Reached graph all node since) :
    Inv graph revokeId all { state with db := seedFlow state.db revokeId node since } := by
  rcases seedFlow_cases state.db revokeId isNode since with ⟨isSame, -⟩ |
    ⟨-, isHeld, seq, isQueue, isLast⟩
  · rw [isSame]
    exact isInv
  · have isKept : ∀ other position, Held state.db revokeId other position →
        Held (seedFlow state.db revokeId node since) revokeId other position :=
      fun other position isOld => (isHeld other position).mpr (.inl isOld)
    have isHead : ∀ head ∈ (queue state.db revokeId).head?,
        (queue state.db revokeId ++ [FrontierRow.mk revokeId seq (some ⟨node, since⟩)]).head? =
          some head := by
      intro head isFirst
      rw [List.head?_append, Option.mem_def.mp isFirst]
      rfl
    constructor
    · intro other position isNow
      rcases (isHeld other position).mp isNow with isOld | ⟨rfl, rfl⟩
      · exact isInv.sound other position isOld
      · exact isReached
    · rw [isQueue]
      exact List.pairwise_append.mpr ⟨isInv.ordered, List.pairwise_singleton _ _,
        fun row isRow later isLater => List.mem_singleton.mp isLater ▸ isLast row isRow⟩
    · rw [isQueue]
      intro row isRow
      rcases List.mem_append.mp isRow with isOld | isNew
      · obtain ⟨item, isItem, isItemHeld⟩ := isInv.items row isOld
        exact ⟨item, isItem, isKept _ _ isItemHeld⟩
      · rw [List.mem_singleton.mp isNew]
        exact ⟨_, rfl, (isHeld node since).mpr (.inr ⟨rfl, rfl⟩)⟩
    · rw [isQueue]
      intro other position isNow
      rcases (isHeld other position).mp isNow with isOld | ⟨rfl, rfl⟩
      · rcases isInv.walked other position isOld with ⟨row, isRow, isNode⟩ | isFollowed
        · exact .inl ⟨row, List.mem_append_left _ isRow, isNode⟩
        · exact .inr fun edge => (isFollowed edge).grows isKept
      · exact .inl ⟨_, List.mem_append_right _ List.mem_cons_self, rfl⟩
    · rw [isQueue]
      intro f isCursor
      obtain ⟨head, isFirst, isSeq⟩ := isInv.cursor f isCursor
      exact ⟨head, isHead head isFirst, isSeq⟩
    · rw [isQueue]
      intro head isFirst item isItem edge isBefore
      cases isOldQueue : (queue state.db revokeId).head? with
      | some old =>
        have isSame := isHead old isOldQueue
        rw [isSame] at isFirst
        obtain rfl := Option.some.inj isFirst
        exact (isInv.begun old isOldQueue item isItem edge isBefore).grows isKept
      | none =>
        -- the queue was empty, so nothing was being paged
        have isNoCursor : state.cursor.f = none := by
          cases isCursor : state.cursor.f with
          | none => rfl
          | some f =>
            obtain ⟨old, isOld, -⟩ := isInv.cursor f isCursor
            rw [isOldQueue] at isOld
            exact nomatch isOld
        refine followed_unnamed ?_
        rw [afterOf, isNoCursor, if_neg (fun isEq => nomatch isEq)] at isBefore
        exact isBefore

/-! ### A page of edges -/

theorem Inv.page {state : State} (isInv : Inv graph revokeId all state) {item : FlowItem}
    (isReached : Reached graph all item.node item.since) {edges : List (Text × Lsn)}
    (isPage : ∀ edge ∈ edges, edge ∈ graph.edges item.node) :
    Inv graph revokeId all { state with db := seedEdges graph revokeId item edges state.db } ∧
      Grows revokeId state.db (seedEdges graph revokeId item edges state.db) ∧
      ∀ edge ∈ edges, Followed graph revokeId
        (seedEdges graph revokeId item edges state.db) item edge := by
  induction edges generalizing state with
  | nil => exact ⟨isInv, Grows.refl _, fun _ isIn => nomatch isIn⟩
  | cons edge edges ih =>
    rw [List.forall_mem_cons] at isPage
    rw [seedEdges, List.foldl_cons]
    by_cases isOpen : graph.follows item.node edge.1 item.since = true
    · rw [if_pos isOpen]
      have isCarried : Reached graph all edge.1 (max edge.2 item.since) :=
        @Reaches.carried _ _ _ _ (carrying graph) _ (item.node, edge) item.since isReached
          ⟨isPage.1, isOpen⟩
      obtain ⟨isStep, isThere⟩ := seedFlow_grows revokeId state.db
        (edges_named isPage.1) (max edge.2 item.since)
      obtain ⟨isLast, isGrown, isFollowed⟩ :=
        ih (isInv.seed (edges_named isPage.1) isCarried) isPage.2
      refine ⟨isLast, isStep.trans isGrown, ?_⟩
      intro other isOther
      rcases List.mem_cons.mp isOther with rfl | isLater
      · intro _
        obtain ⟨position, isLow, isHeld⟩ := isThere
        exact ⟨position, isLow, isGrown.kept _ _ isHeld⟩
      · exact isFollowed other isLater
    · rw [if_neg isOpen]
      obtain ⟨isLast, isGrown, isFollowed⟩ := ih isInv isPage.2
      refine ⟨isLast, isGrown, ?_⟩
      intro other isOther
      rcases List.mem_cons.mp isOther with rfl | isLater
      · exact fun isLet => absurd isLet.2 isOpen
      · exact isFollowed other isLater

/-! ### A step -/

theorem queue_delete {db : Db} {head : FrontierRow} {tail : List FrontierRow}
    (isOrdered : InOrder (queue db revokeId)) (isQueue : queue db revokeId = head :: tail) :
    queue { db with frontier := db.frontier.filter fun row =>
      ¬(row.revoke_id = revokeId ∧ row.seq = head.seq) } revokeId = tail := by
  have isSwapped : queue { db with frontier := db.frontier.filter fun row =>
      ¬(row.revoke_id = revokeId ∧ row.seq = head.seq) } revokeId =
        (queue db revokeId).filter fun row => ¬(row.revoke_id = revokeId ∧ row.seq = head.seq) := by
    rw [queue, queue, List.filter_filter, List.filter_filter]
    exact List.filter_congr fun row _ => Bool.and_comm _ _
  have isHead : head ∈ queue db revokeId := isQueue ▸ List.mem_cons_self
  have isMine : head.revoke_id = revokeId := (of_decide_eq_true (List.mem_filter.mp isHead).2).1
  rw [isSwapped, isQueue]
  rw [isQueue, InOrder, List.pairwise_cons] at isOrdered
  rw [List.filter_cons_of_neg]
  · refine List.filter_eq_self.mpr fun row isRow => decide_eq_true ?_
    rintro ⟨-, isSeq⟩
    exact absurd (isOrdered.1 row isRow) (isSeq ▸ lt_irrefl _)
  · exact fun isKept => of_decide_eq_true isKept ⟨isMine, rfl⟩

theorem flowStep_empty {state : State} (isInv : Inv graph revokeId all state) (n : Nat)
    (isQueue : queue state.db revokeId = []) :
    flowStep graph state.db revokeId state.cursor n = .ok (state.db, state.cursor, true) := by
  rw [flowStep, headOf_eq isInv.ordered, isQueue]
  rfl

section Head

variable {state : State} (isInv : Inv graph revokeId all state) {n : Nat} {head : FrontierRow}
  {tail : List FrontierRow} (isQueue : queue state.db revokeId = head :: tail) {item : FlowItem}
  (isItem : head.node = some item) {edges : List (Text × Lsn)}
  (isEdges : (graph.edges item.node).page (afterOf state.cursor head) n = edges) {seeded : Db}
  (isSeeded : seedEdges graph revokeId item edges state.db = seeded)
include isInv isQueue isItem isEdges isSeeded

theorem flowStep_full (isFull : edges.length = n) :
    flowStep graph state.db revokeId state.cursor n =
      .ok (seeded, ⟨some head.seq, some ((edges.getLast?.map (·.1)).getD [])⟩, false) := by
  rw [afterOf] at isEdges
  rw [flowStep, headOf_eq isInv.ordered, isQueue, List.head?_cons]
  simp only [isItem]
  rw [isEdges, isSeeded, if_pos isFull]

theorem flowStep_short (isShort : edges.length ≠ n) :
    flowStep graph state.db revokeId state.cursor n =
      .ok ({ seeded with frontier := seeded.frontier.filter fun row =>
        ¬(row.revoke_id = revokeId ∧ row.seq = head.seq) }, ⟨none, none⟩, false) := by
  rw [afterOf] at isEdges
  rw [flowStep, headOf_eq isInv.ordered, isQueue, List.head?_cons]
  simp only [isItem]
  rw [isEdges, isSeeded, if_neg isShort]

end Head

theorem page_covers {node after : Text} {n : Nat} {edge : Text × Lsn}
    (isEdge : edge ∈ graph.edges node)
    (isUpTo : edge.1 ≤ KeyedTable.resume after ((graph.edges node).page after n)) :
    edge.1 ≤ after ∨ edge ∈ (graph.edges node).page after n := by
  rcases le_or_gt edge.1 after with isBefore | isAfter
  · exact .inl isBefore
  · have isIn : edge ∈ (graph.edges node).after after := KeyedTable.mem_after.mpr ⟨isEdge, isAfter⟩
    rw [← KeyedTable.page_append, List.mem_append] at isIn
    rcases isIn with isPage | isLater
    · exact .inr isPage
    · exact absurd (KeyedTable.mem_after.mp isLater).2 (not_lt_of_ge isUpTo)

theorem page_mem {node after : Text} {n : Nat} {edge : Text × Lsn}
    (isPage : edge ∈ (graph.edges node).page after n) : edge ∈ graph.edges node :=
  (KeyedTable.mem_after.mp (List.mem_of_mem_take isPage)).1

/-- **A step keeps the invariant.** -/
theorem Inv.step {state : State} (isInv : Inv graph revokeId all state) {n : Nat} (isPositive : 0 < n) :
    ∃ db cursor isDone,
      flowStep graph state.db revokeId state.cursor n = .ok (db, cursor, isDone) ∧
        Inv graph revokeId all ⟨db, cursor⟩ ∧
        ∀ node since, Held state.db revokeId node since → Held db revokeId node since := by
  cases isQueue : queue state.db revokeId with
  | nil => exact ⟨_, _, _, flowStep_empty isInv n isQueue, isInv, fun _ _ isHeld => isHeld⟩
  | cons head tail =>
    have isFirst : head ∈ (queue state.db revokeId).head? := by rw [isQueue]; rfl
    obtain ⟨item, isItem, isItemHeld⟩ := isInv.items head (isQueue ▸ List.mem_cons_self)
    obtain ⟨isSeeded, isGrown, isFollowed⟩ := isInv.page (isInv.sound _ _ isItemHeld)
      (fun edge (isPage : edge ∈ (graph.edges item.node).page (afterOf state.cursor head) n) =>
        page_mem isPage)
    have isBegun := isInv.begun head isFirst item isItem
    generalize isEdges : (graph.edges item.node).page (afterOf state.cursor head) n = edges
      at isSeeded isGrown isFollowed
    generalize isDb : seedEdges graph revokeId item edges state.db = seeded
      at isSeeded isGrown isFollowed
    obtain ⟨pushed, isPushed⟩ := isGrown.queued
    rw [isQueue, List.cons_append] at isPushed
    by_cases isFull : edges.length = n
    · have isLast : (edges.getLast?.map (·.1)).getD [] =
          KeyedTable.resume (afterOf state.cursor head) edges := by
        have isSome : edges ≠ [] := List.ne_nil_of_length_pos (isFull ▸ isPositive)
        rw [KeyedTable.resume, List.getLast?_eq_some_getLast isSome]
        rfl
      refine ⟨_, _, _, flowStep_full isInv isQueue isItem isEdges isDb isFull,
        ⟨isSeeded.sound, isSeeded.ordered, isSeeded.items,
        isSeeded.walked, ?_, ?_⟩, isGrown.kept⟩
      · rintro f ⟨⟩
        refine ⟨head, ?_, rfl⟩
        rw [isPushed]
        rfl
      · intro first isFirstNow other isOther edge isUpTo
        rw [isPushed] at isFirstNow
        obtain rfl := Option.some.inj isFirstNow
        obtain rfl := Option.some.inj (isItem.symm.trans isOther)
        rw [afterOf, if_pos rfl, Option.getD_some, isLast, ← isEdges] at isUpTo
        intro isLet
        rcases page_covers isLet.1 isUpTo with isBefore | isPage
        · exact (isBegun edge isBefore).grows isGrown.kept isLet
        · exact isFollowed edge (isEdges ▸ isPage) isLet
    · have isShort : edges.length < n := by
        refine lt_of_le_of_ne ?_ isFull
        rw [← isEdges]
        exact List.length_take_le n _
      have isTail := queue_delete isSeeded.ordered isPushed
      refine ⟨_, _, _, flowStep_short isInv isQueue isItem isEdges isDb isFull,
        ⟨isSeeded.sound, ?_, ?_, ?_, fun _ isCursor => (by cases isCursor), ?_⟩, isGrown.kept⟩
      · rw [isTail]
        have isOrdered := isSeeded.ordered
        rw [isPushed] at isOrdered
        exact (List.pairwise_cons.mp isOrdered).2
      · rw [isTail]
        exact fun row isRow => isSeeded.items row (isPushed ▸ List.mem_cons_of_mem head isRow)
      · rw [isTail]
        intro node since isHeld
        rcases isSeeded.walked node since isHeld with ⟨row, isRow, isNode⟩ | isDone
        · rw [isPushed] at isRow
          rcases List.mem_cons.mp isRow with rfl | isLater
          · -- the head: its edges were followed on earlier pages and on this last one
            obtain rfl := Option.some.inj (isItem.symm.trans isNode)
            refine .inr fun edge isLet => ?_
            rcases le_or_gt edge.1 (afterOf state.cursor row) with isBefore | isAfter
            · exact (isBegun edge isBefore).grows isGrown.kept isLet
            · refine isFollowed edge ?_ isLet
              rw [← isEdges] at isShort ⊢
              rw [KeyedTable.page_of_short isShort]
              exact KeyedTable.mem_after.mpr ⟨isLet.1, isAfter⟩
          · exact .inl ⟨row, isLater, isNode⟩
        · exact .inr isDone
      · intro first _ other _ edge isUpTo
        rw [afterOf, if_neg (fun isEq => by cases isEq)] at isUpTo
        exact followed_unnamed isUpTo

end Murage.FlowClosure
