import Murage.RevokeFold.Model

/-!
Owns the whole of what a fold has still to do from a cursor, without pages, and that a step
never changes it: so however the fold is cut into slices, it ends in the same tables.

Does not own: what the members' rows have become there.
-/

namespace Murage.RevokeFold

open Murage.Library

variable {closure : Bool} {bulk id n : Nat} {ids : List Nat} {c c' : FoldCursor} {db db' : Db}

/-! ## The remaining work -/

def copyRow (bulk : Nat) (db : Db) (row : Int × NodeText) : Except String Db :=
  if row.1 < 0 then row.2.item.map fun item => seedFlow bulk item.1 item.2 db
  else .ok (enqueueNode bulk row.2 db)

def restFrontier (bulk id : Nat) (start : Int) (db : Db) : Except String Db :=
  ((db.frontier id).after start).foldlM (copyRow bulk) db

def restPending (bulk id : Nat) (ofScopes : Bool) (start : String ×ₗ Int) (db : Db) : Db :=
  ((db.pendingOf ofScopes id).after start).foldl (copyPending bulk ofScopes) db

def restHolds (bulk id : Nat) (start : String) (db : Db) : Db :=
  ((db.holds id).after start).foldl (copyHold bulk) db

/-- No row of a member is left in its four tables. -/
def clearMember (db : Db) (id : Nat) : Db :=
  { db with
    pending := Function.update db.pending id ∅
    pendingScope := Function.update db.pendingScope id ∅
    frontier := Function.update db.frontier id ∅
    reached := Function.update db.reached id ∅ }

def fromClean (id : Nat) (db : Db) : Db := bumpDenyGeneration (clearMember db id)

def fromHolds (bulk id : Nat) (start : String) (db : Db) : Db :=
  fromClean id (bumpDenyGeneration (retire id (restHolds bulk id start db)))

def firstPending : String ×ₗ Int := toLex ("", firstLsn)

def fromPending (bulk index id : Nat) (ofScopes : Bool) (start : String ×ₗ Int) (db : Db) : Db :=
  let db := restPending bulk id ofScopes start db
  let db := if ofScopes then db else restPending bulk id true firstPending db
  fromHolds bulk id "" (noteClosure bulk index db)

def fromFrontier (closure : Bool) (bulk index id : Nat) (start : Int) (db : Db) :
    Except String Db :=
  (restFrontier bulk id start db).map fun db =>
    if closure then fromPending bulk index id false firstPending db
    else fromHolds bulk id "" db

/-- A member, from its first stage to its last. -/
def foldMember (closure : Bool) (bulk index id : Nat) (db : Db) : Except String Db :=
  let committed : Except String Db :=
    match db.receiptRoot id with
    | none => .ok db
    | some bundleId => commitRevoke bulk bundleId db
  committed.bind (fromFrontier closure bulk index id firstLsn)

def fromCursor (closure : Bool) (bulk id : Nat) (c : FoldCursor) (db : Db) : Except String Db :=
  match c.stage, c.pk with
  | .root, _ => foldMember closure bulk c.job id db
  | .frontier, some (ofScopes, key, since) =>
    if closure then .ok (fromPending bulk c.job id ofScopes (toLex (key, since)) db)
    else fromFrontier closure bulk c.job id (c.after.getD firstLsn) db
  | .frontier, none => fromFrontier closure bulk c.job id (c.after.getD firstLsn) db
  | .holds, _ => .ok (fromHolds bulk id (c.key.getD "") db)
  | .clean, _ => .ok (fromClean id db)
  | _, _ => .ok db

def foldMembers (closure : Bool) (bulk : Nat) : List Nat → Nat → Db → Except String Db
  | [], _, db => .ok db
  | id :: rest, index, db =>
    (foldMember closure bulk index id db).bind (foldMembers closure bulk rest (index + 1))

/-- No row of any of the members is left. -/
def clearAll (ids : List Nat) (db : Db) : Db :=
  { db with
    pending := fun id => if id ∈ ids then ∅ else db.pending id
    pendingScope := fun id => if id ∈ ids then ∅ else db.pendingScope id
    frontier := fun id => if id ∈ ids then ∅ else db.frontier id
    reached := fun id => if id ∈ ids then ∅ else db.reached id }

def sweepAll (bulk : Nat) (ids : List Nat) (db : Db) : Db := closeFold bulk ids (clearAll ids db)

def fromMember (closure : Bool) (bulk : Nat) (ids : List Nat) (index : Nat) (db : Db) :
    Except String Db :=
  (foldMembers closure bulk (ids.drop index) index db).map (sweepAll bulk ids)

def finish (closure : Bool) (bulk : Nat) (ids : List Nat) (c : FoldCursor) (db : Db) :
    Except String Db :=
  if c.stage = .enrol then
    fromMember closure bulk ids 0 ((ids.drop c.job).foldl (enrol bulk) db)
  else
    match ids[c.job]? with
    | none => .ok (sweepAll bulk ids db)
    | some id =>
      if c.stage = .sweep then .ok (sweepAll bulk ids db)
      else (fromCursor closure bulk id c db).bind (fromMember closure bulk ids (c.job + 1))

theorem finish_root (closure : Bool) (bulk : Nat) (ids : List Nat) (index : Nat) (db : Db) :
    finish closure bulk ids { stage := .root, job := index } db =
      fromMember closure bulk ids index db := by
  rw [finish, if_neg (fun same => by cases same), fromMember]
  cases isId : ids[index]? with
  | none =>
    rw [List.drop_eq_nil_of_le (List.getElem?_eq_none_iff.mp isId)]
    rfl
  | some id =>
    obtain ⟨isLess, rfl⟩ := List.getElem?_eq_some_iff.mp isId
    rw [List.drop_eq_getElem_cons isLess, foldMembers]
    simp only [reduceCtorEq, if_false, fromCursor]
    cases foldMember closure bulk index ids[index] db <;> rfl

theorem finish_inside (isId : ids[c.job]? = some id) (notEnrol : c.stage ≠ .enrol)
    (notSweep : c.stage ≠ .sweep) :
    finish closure bulk ids c db =
      (fromCursor closure bulk id c db).bind (fromMember closure bulk ids (c.job + 1)) := by
  rw [finish, if_neg notEnrol, isId]
  exact if_neg notSweep

/-! ## A member's rows, while the bulk's change -/

/-- The four tables of a revoke are the same. -/
structure SameRows (id : Nat) (db db' : Db) : Prop where
  pending : db'.pending id = db.pending id
  pendingScope : db'.pendingScope id = db.pendingScope id
  frontier : db'.frontier id = db.frontier id
  reached : db'.reached id = db.reached id

theorem SameRows.refl (id : Nat) (db : Db) : SameRows id db db := ⟨rfl, rfl, rfl, rfl⟩

theorem SameRows.trans {db'' : Db} (first : SameRows id db db') (second : SameRows id db' db'') :
    SameRows id db db'' :=
  ⟨second.pending.trans first.pending, second.pendingScope.trans first.pendingScope,
    second.frontier.trans first.frontier, second.reached.trans first.reached⟩

theorem SameRows.foldl {α : Type} {f : Db → α → Db} (step : ∀ db a, SameRows id db (f db a))
    (rows : List α) (db : Db) : SameRows id db (rows.foldl f db) := by
  induction rows generalizing db with
  | nil => exact SameRows.refl id db
  | cons row rest ih => exact (step db row).trans (ih _)

theorem insertFrontier_same (isOther : id ≠ bulk) (seq : Int) (node : NodeText) (db : Db) :
    SameRows id db (insertFrontier bulk seq node db) :=
  ⟨rfl, rfl, Function.update_of_ne isOther _ _, rfl⟩

theorem insertPending_same (isOther : id ≠ bulk) (node : FlowNode) (since : Int) (db : Db) :
    SameRows id db (insertPending bulk node since db) := by
  cases node with
  | thread key => exact ⟨Function.update_of_ne isOther _ _, rfl, rfl, rfl⟩
  | scope key => exact ⟨rfl, Function.update_of_ne isOther _ _, rfl, rfl⟩

theorem mem_of_heldSince {table : PendingTable} {key : String} {above : Option Int} {held : Int}
    (isHeld : heldSince table key above = some held) : (toLex (key, held), ()) ∈ table := by
  obtain ⟨row, isRow, isSince⟩ := List.mem_filterMap.mp (List.min?_mem isHeld)
  obtain ⟨stored, isIn, rfl⟩ := List.mem_map.mp isRow
  split_ifs at isSince with isKey
  obtain rfl := Option.some.inj isSince
  obtain ⟨rfl, _⟩ := isKey
  exact isIn

theorem markPending_cases (revokeId : Nat) (node : FlowNode) (since : Int) (db : Db) :
    (markPending revokeId node since db = none ∧
      ∃ held ≤ since, (toLex (node.key, held), ()) ∈ db.window revokeId node) ∨
    markPending revokeId node since db = some (insertPending revokeId node since db) := by
  rw [markPending]
  split_ifs with isHeld
  · refine Or.inl ⟨rfl, ?_⟩
    cases isMin : heldSince (db.window revokeId node) node.key
        (comparedAbove db revokeId since node) with
    | none =>
      rw [isMin] at isHeld
      cases isHeld
    | some held =>
      rw [isMin] at isHeld
      exact ⟨held, of_decide_eq_true isHeld, mem_of_heldSince isMin⟩
  · exact Or.inr rfl

theorem seedFlow_cases (revokeId : Nat) (node : FlowNode) (since : Int) (db : Db) :
    (seedFlow revokeId node since db = db ∧
      ∃ held ≤ since, (toLex (node.key, held), ()) ∈ db.window revokeId node) ∨
    seedFlow revokeId node since db =
      pushFlow revokeId node since (insertPending revokeId node since db) := by
  rcases markPending_cases revokeId node since db with ⟨isNone, isHeld⟩ | isSome
  · refine Or.inl ⟨?_, isHeld⟩
    rw [seedFlow, isNone]
  · refine Or.inr ?_
    rw [seedFlow, isSome]

theorem seedFlow_same (isOther : id ≠ bulk) (node : FlowNode) (since : Int) (db : Db) :
    SameRows id db (seedFlow bulk node since db) := by
  rcases seedFlow_cases bulk node since db with ⟨isSame, _⟩ | isNew
  · rw [isSame]
    exact SameRows.refl id db
  · rw [isNew]
    exact (insertPending_same isOther node since db).trans (insertFrontier_same isOther _ _ _)

theorem copyRow_same (isOther : id ≠ bulk) {row : Int × NodeText}
    (isDone : copyRow bulk db row = .ok db') : SameRows id db db' := by
  unfold copyRow at isDone
  split_ifs at isDone
  · cases isItem : row.2.item with
    | error text =>
      rw [isItem] at isDone
      cases isDone
    | ok item =>
      rw [isItem] at isDone
      obtain rfl := Except.ok.inj isDone
      exact seedFlow_same isOther _ _ db
  · obtain rfl := Except.ok.inj isDone
    exact insertFrontier_same isOther _ _ db

theorem copyRows_same (isOther : id ≠ bulk) {rows : List (Int × NodeText)}
    (isDone : rows.foldlM (copyRow bulk) db = .ok db') : SameRows id db db' := by
  induction rows generalizing db with
  | nil =>
    obtain rfl := Except.ok.inj isDone
    exact SameRows.refl id _
  | cons row rest ih =>
    rw [List.foldlM_cons] at isDone
    cases isCopied : copyRow bulk db row with
    | error text =>
      rw [isCopied] at isDone
      cases isDone
    | ok next =>
      rw [isCopied] at isDone
      exact (copyRow_same isOther isCopied).trans (ih isDone)

theorem copyPending_same (isOther : id ≠ bulk) (ofScopes : Bool) (db : Db)
    (row : (String ×ₗ Int) × Unit) : SameRows id db (copyPending bulk ofScopes db row) := by
  unfold copyPending
  split
  · exact SameRows.refl id db
  · exact seedFlow_same isOther _ _ db

theorem copyHold_same (isOther : id ≠ bulk) (db : Db) (row : String × Int) :
    SameRows id db (copyHold bulk db row) :=
  ⟨rfl, rfl, rfl, Function.update_of_ne isOther _ _⟩

theorem SameRows.pendingOf (same : SameRows id db db') (ofScopes : Bool) :
    db'.pendingOf ofScopes id = db.pendingOf ofScopes id := by
  cases ofScopes with
  | false => exact same.pending
  | true => exact same.pendingScope

theorem SameRows.holds (same : SameRows id db db') : db'.holds id = db.holds id := by
  rw [Db.holds, same.reached, Db.holds]

/-! ## Pages -/

theorem foldr_max_place (row : Int × NodeText) (rows : List (Int × NodeText)) :
    (KeyedTable.place row rows).foldr (fun row top => max row.1 top) 0 =
      max row.1 (rows.foldr (fun row top => max row.1 top) 0) := by
  induction rows with
  | nil => rfl
  | cons held rest ih =>
    rw [KeyedTable.place]
    split_ifs with before same
    · rfl
    · rw [List.foldr_cons, same, ← max_assoc, max_self]
    · rw [List.foldr_cons, ih, List.foldr_cons, max_left_comm]

theorem nextSeq_insertFrontier (bulk : Nat) (node : NodeText) (db : Db) :
    nextSeq (insertFrontier bulk (nextSeq db bulk) node db) bulk = nextSeq db bulk + 1 := by
  have isPlaced : ((insertFrontier bulk (nextSeq db bulk) node db).frontier bulk).rows =
      KeyedTable.place (nextSeq db bulk, node) (db.frontier bulk).rows := by
    show (Function.update db.frontier bulk _ bulk).rows = _
    rw [Function.update_self]
    rfl
  rw [nextSeq, isPlaced, foldr_max_place]
  refine congrArg (· + 1) (max_eq_left ?_)
  rw [nextSeq]
  exact Int.le_add_one (Int.le_refl _)

theorem copyFrontier_eq (bulk : Nat) (rows : List (Int × NodeText)) (db : Db) :
    copyFrontier bulk rows (nextSeq db bulk) db = rows.foldlM (copyRow bulk) db := by
  induction rows generalizing db with
  | nil => rfl
  | cons row rest ih =>
    obtain ⟨seq, node⟩ := row
    rw [copyFrontier, List.foldlM_cons, copyRow]
    split_ifs with isFlow
    · cases node.item with
      | error text => rfl
      | ok item => exact ih _
    · rw [← nextSeq_insertFrontier bulk node db]
      exact ih _

theorem restFrontier_page (isOther : id ≠ bulk) (start : Int) (n : Nat) (db : Db) :
    restFrontier bulk id start db =
      (((db.frontier id).page start n).foldlM (copyRow bulk) db).bind
        (restFrontier bulk id (KeyedTable.resume start ((db.frontier id).page start n))) := by
  rw [restFrontier, ← KeyedTable.page_append (db.frontier id) start n, List.foldlM_append]
  cases isCopied : ((db.frontier id).page start n).foldlM (copyRow bulk) db with
  | error text => rfl
  | ok next =>
    show _ = restFrontier bulk id _ next
    rw [restFrontier, (copyRows_same isOther isCopied).frontier]
    rfl

theorem restPending_page (isOther : id ≠ bulk) (ofScopes : Bool) (start : String ×ₗ Int)
    (n : Nat) (db : Db) :
    restPending bulk id ofScopes start db =
      restPending bulk id ofScopes
        (KeyedTable.resume start ((db.pendingOf ofScopes id).page start n))
        (((db.pendingOf ofScopes id).page start n).foldl (copyPending bulk ofScopes) db) := by
  have same := SameRows.foldl (copyPending_same isOther ofScopes)
    ((db.pendingOf ofScopes id).page start n) db
  rw [restPending, restPending, same.pendingOf ofScopes, ← List.foldl_append,
    KeyedTable.page_append]

theorem restHolds_page (isOther : id ≠ bulk) (start : String) (n : Nat) (db : Db) :
    restHolds bulk id start db =
      restHolds bulk id (KeyedTable.resume start ((db.holds id).page start n))
        (((db.holds id).page start n).foldl (copyHold bulk) db) := by
  have same := SameRows.foldl (copyHold_same isOther) ((db.holds id).page start n) db
  rw [restHolds, restHolds, same.holds, ← List.foldl_append, KeyedTable.page_append]

/-! ## Deleting -/

def clearTable (id : Nat) (db : Db) : MemberTable → Db
  | .pending => { db with pending := Function.update db.pending id ∅ }
  | .pendingScope => { db with pendingScope := Function.update db.pendingScope id ∅ }
  | .frontier => { db with frontier := Function.update db.frontier id ∅ }
  | .reached => { db with reached := Function.update db.reached id ∅ }

theorem le_deleteFrom (n id : Nat) (gone : Nat × Db) (table : MemberTable) :
    gone.1 ≤ (deleteFrom n id gone table).1 := by
  rw [deleteFrom]
  split_ifs
  · exact Nat.le_add_right _ _
  · exact Nat.le_refl _

theorem deleteFrom_short {gone : Nat × Db} {table : MemberTable}
    (isShort : (deleteFrom n id gone table).1 < n) :
    (deleteFrom n id gone table).2 = clearTable id gone.2 table := by
  have isMore : gone.1 < n := Nat.lt_of_le_of_lt (le_deleteFrom n id gone table) isShort
  rw [deleteFrom, if_pos isMore] at isShort ⊢
  have emptied {κ α : Type} [LinearOrder κ] (rows : KeyedTable κ α)
      (isFew : gone.1 + min (n - gone.1) rows.rows.length < n) : rows.drop (n - gone.1) = ∅ :=
    KeyedTable.drop_of_length_le (by omega)
  cases table with
  | pending => simp only [deleteMemberPage, clearTable, emptied (gone.2.pending id) isShort]
  | pendingScope =>
    simp only [deleteMemberPage, clearTable, emptied (gone.2.pendingScope id) isShort]
  | frontier => simp only [deleteMemberPage, clearTable, emptied (gone.2.frontier id) isShort]
  | reached => simp only [deleteMemberPage, clearTable, emptied (gone.2.reached id) isShort]

theorem le_deleteTables (n id : Nat) (tables : List MemberTable) (gone : Nat × Db) :
    gone.1 ≤ (tables.foldl (deleteFrom n id) gone).1 := by
  induction tables generalizing gone with
  | nil => exact Nat.le_refl _
  | cons table rest ih =>
    exact Nat.le_trans (le_deleteFrom n id gone table) (ih _)

theorem deleteTables_short {tables : List MemberTable} {gone : Nat × Db}
    (isShort : (tables.foldl (deleteFrom n id) gone).1 < n) :
    (tables.foldl (deleteFrom n id) gone).2 = tables.foldl (clearTable id) gone.2 := by
  induction tables generalizing gone with
  | nil => rfl
  | cons table rest ih =>
    rw [List.foldl_cons] at isShort ⊢
    rw [ih isShort, deleteFrom_short, List.foldl_cons]
    exact Nat.lt_of_le_of_lt (le_deleteTables n id rest _) isShort

theorem deleteMember_short {gone : Nat × Db} (isShort : (deleteMember n gone id).1 < n) :
    (deleteMember n gone id).2 = clearMember gone.2 id :=
  deleteTables_short isShort

theorem deleteMembers_short {gone : Nat × Db} (isShort : (ids.foldl (deleteMember n) gone).1 < n) :
    (ids.foldl (deleteMember n) gone).2 = clearAll ids gone.2 := by
  induction ids generalizing gone with
  | nil => simp [clearAll]
  | cons id rest ih =>
    have grows (ids : List Nat) (gone : Nat × Db) :
        gone.1 ≤ (ids.foldl (deleteMember n) gone).1 := by
      induction ids generalizing gone with
      | nil => exact Nat.le_refl _
      | cons id rest ih =>
        exact Nat.le_trans (le_deleteTables n id _ gone) (ih _)
    rw [List.foldl_cons] at isShort ⊢
    rw [ih isShort,
      deleteMember_short (Nat.lt_of_le_of_lt (grows rest _) isShort)]
    simp only [clearAll, clearMember, Function.update_apply, List.mem_cons, Db.mk.injEq, true_and,
      and_true]
    refine ⟨?_, ?_, ?_, ?_⟩ <;>
    · funext other
      by_cases isRest : other ∈ rest
      · rw [if_pos isRest, if_pos (Or.inr isRest)]
      · simp only [isRest, if_false, or_false]

theorem clearAll_delete (isIn : id ∈ ids) (gone : Nat × Db) (table : MemberTable) :
    clearAll ids (deleteFrom n id gone table).2 = clearAll ids gone.2 := by
  have same {α : Type} (f : Nat → α) (value none : α) :
      (fun other => if other ∈ ids then none else Function.update f id value other) =
        fun other => if other ∈ ids then none else f other := by
    funext other
    split_ifs with isOther
    · rfl
    · refine Function.update_of_ne (fun isId => isOther ?_) _ _
      rw [isId]
      exact isIn
  rw [deleteFrom]
  split_ifs
  · cases table <;> simp only [deleteMemberPage, clearAll, same]
  · rfl

theorem clearAll_deleteMember (isIn : id ∈ ids) (gone : Nat × Db) :
    clearAll ids (deleteMember n gone id).2 = clearAll ids gone.2 := by
  simp only [deleteMember, memberTables, List.foldl_cons, List.foldl_nil]
  rw [clearAll_delete isIn, clearAll_delete isIn, clearAll_delete isIn,
    clearAll_delete isIn]

theorem clearAll_deleteMembers (gone : Nat × Db) :
    clearAll ids (ids.foldl (deleteMember n) gone).2 = clearAll ids gone.2 := by
  have along (members : List Nat) (isPart : members ⊆ ids) (gone : Nat × Db) :
      clearAll ids (members.foldl (deleteMember n) gone).2 = clearAll ids gone.2 := by
    induction members generalizing gone with
    | nil => rfl
    | cons id rest ih =>
      rw [List.foldl_cons, ih (List.subset_of_cons_subset isPart),
        clearAll_deleteMember (isPart List.mem_cons_self)]
  exact along ids (List.Subset.refl ids) gone

theorem clearMember_deleteMember (gone : Nat × Db) :
    clearMember (deleteMember n gone id).2 id = clearMember gone.2 id := by
  have isAll (db : Db) : clearMember db id = clearAll [id] db := by
    simp only [clearMember, clearAll, List.mem_singleton]
    congr <;>
    · funext other
      rw [Function.update_apply]
  rw [isAll, isAll, clearAll_deleteMember (List.mem_singleton_self id)]

/-! ## Steps -/

theorem enrolStep_finish (isEnrol : c.stage = .enrol)
    (isNext : enrolStep bulk ids n c db = .next c' db') :
    finish closure bulk ids c' db' = finish closure bulk ids c db := by
  rw [enrolStep] at isNext
  obtain ⟨rfl, rfl⟩ := Stepped.next.inj isNext
  have isRest : ids.drop (c.job + ((ids.drop c.job).take n).length) = (ids.drop c.job).drop n := by
    rw [← List.drop_drop, List.length_take]
    rcases Nat.le_total n (ids.drop c.job).length with isLess | isMore
    · rw [Nat.min_eq_left isLess]
    · rw [Nat.min_eq_right isMore, List.drop_length, List.drop_eq_nil_of_le isMore]
  have isWhole : finish closure bulk ids c db =
      fromMember closure bulk ids 0 (((ids.drop c.job).drop n).foldl (enrol bulk)
        (((ids.drop c.job).take n).foldl (enrol bulk) db)) := by
    rw [finish, if_pos isEnrol, ← List.foldl_append, List.take_append_drop]
  rw [isWhole]
  split_ifs with isLast
  · rw [finish_root, ← isRest, List.drop_eq_nil_of_le isLast]
    rfl
  · rw [finish, if_pos isEnrol, isRest]

theorem fromCursor_frontier (isFrontier : c.stage = .frontier)
    (walks : c.pk = none ∨ closure = false) :
    fromCursor closure bulk id c db =
      fromFrontier closure bulk c.job id (c.after.getD firstLsn) db := by
  rw [fromCursor, isFrontier]
  rcases walks with isNone | isOff
  · rw [isNone]
  · rw [isOff]
    cases c.pk <;> rfl

structure Inside (c c' : FoldCursor) : Prop where
  job : c'.job = c.job
  notEnrol : c'.stage ≠ .enrol
  notSweep : c'.stage ≠ .sweep

theorem getD_or_last {κ α : Type} (rows : List (κ × α)) (cursor : Option κ) (start : κ) :
    ((rows.getLast?.map (·.1)).or cursor).getD start =
      KeyedTable.resume (cursor.getD start) rows := by
  rw [KeyedTable.resume]
  cases rows.getLast? <;> rfl

theorem drop_of_short {κ α : Type} [LinearOrder κ] {t : KeyedTable κ α} {start : κ}
    (isShort : (t.page start n).length < n) :
    t.after (KeyedTable.resume start (t.page start n)) = [] := by
  rw [KeyedTable.after_resume, ← KeyedTable.page_of_short isShort]
  exact List.drop_eq_nil_of_le (Nat.le_of_lt isShort)

theorem frontierStep_rest (isOther : id ≠ bulk) (isFrontier : c.stage = .frontier)
    (walks : c.pk = none ∨ closure = false)
    (isNext : frontierStep closure bulk id n c db = .ok (.next c' db')) :
    fromCursor closure bulk id c' db' = fromCursor closure bulk id c db ∧ Inside c c' := by
  rw [fromCursor_frontier isFrontier walks, fromFrontier, restFrontier_page isOther _ n]
  rw [frontierStep, copyFrontier_eq] at isNext
  cases isCopied : ((db.frontier id).page (c.after.getD firstLsn) n).foldlM (copyRow bulk) db with
  | error text =>
    rw [isCopied] at isNext
    cases isNext
  | ok next =>
    rw [isCopied] at isNext
    obtain ⟨isCursor, rfl⟩ := Stepped.next.inj (Except.ok.inj isNext)
    have isEmpty (isShort : ((db.frontier id).page (c.after.getD firstLsn) n).length < n) :
        restFrontier bulk id (KeyedTable.resume (c.after.getD firstLsn)
          ((db.frontier id).page (c.after.getD firstLsn) n)) next = .ok next := by
      rw [restFrontier, (copyRows_same isOther isCopied).frontier, drop_of_short isShort]
      rfl
    show _ = (restFrontier bulk id _ next).map _ ∧ _
    split_ifs at isCursor with isShort isOn
    · rw [isEmpty isShort, ← isCursor]
      refine ⟨?_, rfl, ?_, ?_⟩
      · rw [fromCursor]
        simp only [isFrontier, isOn, if_true]
        rfl
      · exact by rw [isFrontier]; decide
      · exact by rw [isFrontier]; decide
    · rw [isEmpty isShort, ← isCursor]
      refine ⟨?_, rfl, Stage.noConfusion, Stage.noConfusion⟩
      rw [fromCursor]
      simp only [isOn]
      rfl
    · rw [← getD_or_last, ← isCursor]
      refine ⟨?_, rfl, ?_, ?_⟩
      · exact fromCursor_frontier isFrontier walks
      · exact by rw [isFrontier]; decide
      · exact by rw [isFrontier]; decide

theorem rootStep_rest {fits : Bool} (isRoot : c.stage = .root)
    (isNext : rootStep bulk id fits c db = .ok (.next c' db')) :
    fromCursor closure bulk id c' db' = fromCursor closure bulk id c db ∧ Inside c c' := by
  rw [rootStep] at isNext
  rw [show fromCursor closure bulk id c db = foldMember closure bulk c.job id db by
    rw [fromCursor, isRoot], foldMember]
  cases isReceipt : db.receiptRoot id with
  | none =>
    rw [isReceipt] at isNext
    obtain ⟨rfl, rfl⟩ := Stepped.next.inj (Except.ok.inj isNext)
    exact ⟨rfl, rfl, Stage.noConfusion, Stage.noConfusion⟩
  | some bundleId =>
    simp only [isReceipt] at isNext ⊢
    split_ifs at isNext
    · cases isCommitted : commitRevoke bulk bundleId db with
      | error text =>
        rw [isCommitted] at isNext
        cases isNext
      | ok next =>
        rw [isCommitted] at isNext
        obtain ⟨rfl, rfl⟩ := Stepped.next.inj (Except.ok.inj isNext)
        exact ⟨rfl, rfl, Stage.noConfusion, Stage.noConfusion⟩
    · cases isNext

theorem fromCursor_pending {ofScopes : Bool} {key : String} {since : Int}
    (isFrontier : c.stage = .frontier) (isPk : c.pk = some (ofScopes, key, since)) :
    fromCursor true bulk id c db =
      .ok (fromPending bulk c.job id ofScopes (toLex (key, since)) db) := by
  rw [fromCursor, isFrontier, isPk]
  rfl

theorem pendingStep_rest {ofScopes : Bool} {key : String} {since : Int} (isOther : id ≠ bulk)
    (isFrontier : c.stage = .frontier) (isPk : c.pk = some (ofScopes, key, since))
    (isNext : pendingStep bulk id n ofScopes (toLex (key, since)) c db = .next c' db') :
    fromCursor true bulk id c' db' = fromCursor true bulk id c db ∧ Inside c c' := by
  have notEnrol : c.stage ≠ .enrol := by rw [isFrontier]; decide
  have notSweep : c.stage ≠ .sweep := by rw [isFrontier]; decide
  rw [fromCursor_pending isFrontier isPk, fromPending, restPending_page isOther _ _ n]
  have same := SameRows.foldl (copyPending_same isOther ofScopes)
    ((db.pendingOf ofScopes id).page (toLex (key, since)) n) db
  have isEmpty (isShort : ((db.pendingOf ofScopes id).page (toLex (key, since)) n).length < n) :
      restPending bulk id ofScopes (KeyedTable.resume (toLex (key, since))
          ((db.pendingOf ofScopes id).page (toLex (key, since)) n))
        (((db.pendingOf ofScopes id).page (toLex (key, since)) n).foldl
          (copyPending bulk ofScopes) db) =
        ((db.pendingOf ofScopes id).page (toLex (key, since)) n).foldl
          (copyPending bulk ofScopes) db := by
    rw [restPending, same.pendingOf ofScopes, drop_of_short isShort]
    rfl
  rw [pendingStep] at isNext
  split_ifs at isNext with isShort isScopes
  · obtain ⟨rfl, rfl⟩ := Stepped.next.inj isNext
    rw [isEmpty isShort, isScopes]
    exact ⟨rfl, rfl, Stage.noConfusion, Stage.noConfusion⟩
  · obtain ⟨rfl, rfl⟩ := Stepped.next.inj isNext
    refine ⟨?_, rfl, notEnrol, notSweep⟩
    rw [fromCursor_pending (by exact isFrontier) (by rfl), isEmpty isShort, if_neg isScopes]
    rfl
  · obtain ⟨rfl, rfl⟩ := Stepped.next.inj isNext
    refine ⟨?_, rfl, notEnrol, notSweep⟩
    rw [fromCursor_pending (by exact isFrontier) (by rfl)]
    rfl

theorem fromCursor_holds (isHolds : c.stage = .holds) :
    fromCursor closure bulk id c db = .ok (fromHolds bulk id (c.key.getD "") db) := by
  rw [fromCursor, isHolds]

theorem holdsStep_rest (isOther : id ≠ bulk) (isHolds : c.stage = .holds)
    (isNext : holdsStep bulk id n c db = .next c' db') :
    fromCursor closure bulk id c' db' = fromCursor closure bulk id c db ∧ Inside c c' := by
  have notEnrol : c.stage ≠ .enrol := by rw [isHolds]; decide
  have notSweep : c.stage ≠ .sweep := by rw [isHolds]; decide
  have same := SameRows.foldl (copyHold_same isOther) ((db.holds id).page (c.key.getD "") n) db
  rw [fromCursor_holds isHolds, fromHolds, restHolds_page isOther _ n]
  rw [holdsStep] at isNext
  split_ifs at isNext with isShort
  · obtain ⟨rfl, rfl⟩ := Stepped.next.inj isNext
    have isEmpty : restHolds bulk id (KeyedTable.resume (c.key.getD "")
          ((db.holds id).page (c.key.getD "") n))
        (((db.holds id).page (c.key.getD "") n).foldl (copyHold bulk) db) =
        ((db.holds id).page (c.key.getD "") n).foldl (copyHold bulk) db := by
      rw [restHolds, same.holds, drop_of_short isShort]
      rfl
    rw [isEmpty]
    exact ⟨rfl, rfl, Stage.noConfusion, Stage.noConfusion⟩
  · obtain ⟨rfl, rfl⟩ := Stepped.next.inj isNext
    refine ⟨?_, rfl, notEnrol, notSweep⟩
    rw [fromCursor_holds (by exact isHolds), fromHolds, getD_or_last]

theorem finish_clean (isId : ids[c.job]? = some id) (isClean : c.stage = .clean) :
    finish closure bulk ids c db =
      fromMember closure bulk ids (c.job + 1) (fromClean id db) := by
  rw [finish_inside isId (by rw [isClean]; decide)
    (by rw [isClean]; decide), fromCursor, isClean]
  rfl

theorem cleanStep_finish (isId : ids[c.job]? = some id) (isClean : c.stage = .clean)
    (isNext : cleanStep id n c db = .next c' db') :
    finish closure bulk ids c' db' = finish closure bulk ids c db := by
  rw [finish_clean isId isClean, fromClean]
  rw [cleanStep] at isNext
  split_ifs at isNext with isShort
  · obtain ⟨rfl, rfl⟩ := Stepped.next.inj isNext
    rw [finish_root, deleteMember_short isShort]
  · obtain ⟨rfl, rfl⟩ := Stepped.next.inj isNext
    rw [finish_clean isId isClean, fromClean, clearMember_deleteMember]

theorem finish_sweep (isSweep : c.stage = .sweep) :
    finish closure bulk ids c db = .ok (sweepAll bulk ids db) := by
  rw [finish, if_neg (by rw [isSweep]; decide)]
  split
  · rfl
  · rw [if_pos isSweep]

theorem sweepStep_finish (isSweep : c.stage = .sweep)
    (isNext : sweepStep bulk ids n c db = .next c' db') :
    finish closure bulk ids c' db' = finish closure bulk ids c db := by
  rw [sweepStep] at isNext
  split_ifs at isNext
  obtain ⟨rfl, rfl⟩ := Stepped.next.inj isNext
  rw [finish_sweep isSweep, finish_sweep isSweep, sweepAll, clearAll_deleteMembers, sweepAll]

theorem sweepStep_active (isSweep : c.stage = .sweep)
    (isActive : sweepStep bulk ids n c db = .active db') :
    finish closure bulk ids c db = .ok db' := by
  rw [sweepStep] at isActive
  split_ifs at isActive with isFull
  obtain rfl := Stepped.active.inj isActive
  rw [finish_sweep isSweep, sweepAll, deleteMembers_short (Nat.lt_of_not_le isFull)]

variable {stepped : Stepped}

theorem frontierStep_next (isStep : frontierStep closure bulk id n c db = .ok stepped) :
    ∃ c' db', stepped = .next c' db' := by
  rw [frontierStep] at isStep
  cases isCopied : copyFrontier bulk ((db.frontier id).page (c.after.getD firstLsn) n)
      (nextSeq db bulk) db with
  | error text =>
    rw [isCopied] at isStep
    cases isStep
  | ok next =>
    rw [isCopied] at isStep
    exact ⟨_, _, (Except.ok.inj isStep).symm⟩

theorem rootStep_next {fits : Bool} (isStep : rootStep bulk id fits c db = .ok stepped) :
    stepped = .blocked ∨ ∃ c' db', stepped = .next c' db' := by
  rw [rootStep] at isStep
  cases isReceipt : db.receiptRoot id with
  | none =>
    simp only [isReceipt] at isStep
    exact Or.inr ⟨_, _, (Except.ok.inj isStep).symm⟩
  | some bundleId =>
    simp only [isReceipt] at isStep
    split_ifs at isStep
    · cases isCommitted : commitRevoke bulk bundleId db with
      | error text =>
        rw [isCommitted] at isStep
        cases isStep
      | ok next =>
        rw [isCommitted] at isStep
        exact Or.inr ⟨_, _, (Except.ok.inj isStep).symm⟩
    · exact Or.inl (Except.ok.inj isStep).symm

theorem pendingStep_next (bulk id n : Nat) (ofScopes : Bool) (start : String ×ₗ Int)
    (c : FoldCursor) (db : Db) :
    ∃ c' db', pendingStep bulk id n ofScopes start c db = .next c' db' := by
  rw [pendingStep]
  split_ifs <;> exact ⟨_, _, rfl⟩

theorem holdsStep_next (bulk id n : Nat) (c : FoldCursor) (db : Db) :
    ∃ c' db', holdsStep bulk id n c db = .next c' db' := by
  rw [holdsStep]
  split_ifs <;> exact ⟨_, _, rfl⟩

theorem cleanStep_next (id n : Nat) (c : FoldCursor) (db : Db) :
    ∃ c' db', cleanStep id n c db = .next c' db' := by
  rw [cleanStep]
  split_ifs <;> exact ⟨_, _, rfl⟩

/-- What a step that went on, or that ended the fold, did to what is left to do. -/
def Advances (closure : Bool) (bulk : Nat) (ids : List Nat) (c : FoldCursor) (db : Db) :
    Stepped → Prop
  | .next c' db' => finish closure bulk ids c' db' = finish closure bulk ids c db
  | .blocked => True
  | .active db' => finish closure bulk ids c db = .ok db'

theorem Advances.inside (isId : ids[c.job]? = some id) (notEnrol : c.stage ≠ .enrol)
    (notSweep : c.stage ≠ .sweep)
    (isRest : fromCursor closure bulk id c' db' = fromCursor closure bulk id c db ∧
      Inside c c') : Advances closure bulk ids c db (.next c' db') := by
  obtain ⟨isSame, isInside⟩ := isRest
  show finish closure bulk ids c' db' = finish closure bulk ids c db
  rw [finish_inside isId notEnrol notSweep,
    finish_inside (isInside.job ▸ isId) isInside.notEnrol isInside.notSweep, isSame,
    isInside.job]

theorem frontierStep_advances (isOther : id ≠ bulk) (isId : ids[c.job]? = some id)
    (isFrontier : c.stage = .frontier) (walks : c.pk = none ∨ closure = false)
    (isStep : frontierStep closure bulk id n c db = .ok stepped) :
    Advances closure bulk ids c db stepped := by
  obtain ⟨c', db', rfl⟩ := frontierStep_next isStep
  exact Advances.inside isId (by rw [isFrontier]; decide)
    (by rw [isFrontier]; decide)
    (frontierStep_rest isOther isFrontier walks isStep)

/-- **One step leaves what is to do as it is**, or it is the last. -/
theorem foldStep_advances (isOther : ∀ id ∈ ids, id ≠ bulk) {turn : Turn}
    (isStep : foldStep closure bulk ids turn c db = .ok stepped) :
    Advances closure bulk ids c db stepped := by
  rw [foldStep] at isStep
  by_cases isEnrol : c.stage = .enrol
  · rw [if_pos isEnrol] at isStep
    obtain rfl := Except.ok.inj isStep
    exact enrolStep_finish isEnrol rfl
  · rw [if_neg isEnrol] at isStep
    cases isId : ids[c.job]? with
    | none =>
      rw [isId] at isStep
      obtain rfl := Except.ok.inj isStep
      show finish _ _ _ _ _ = _
      rw [finish_sweep rfl, finish, if_neg isEnrol, isId]
    | some id =>
      rw [isId] at isStep
      have other := isOther id (List.mem_of_getElem? isId)
      cases isStage : c.stage with
      | enrol => exact absurd isStage isEnrol
      | root =>
        simp only [isStage] at isStep
        rcases rootStep_next isStep with rfl | ⟨c', db', rfl⟩
        · trivial
        · exact Advances.inside isId isEnrol (by rw [isStage]; decide)
            (rootStep_rest isStage isStep)
      | frontier =>
        cases isPk : c.pk with
        | none =>
          simp only [isStage, isPk] at isStep
          exact frontierStep_advances other isId isStage (Or.inl isPk) isStep
        | some pk =>
          obtain ⟨ofScopes, key, since⟩ := pk
          simp only [isStage, isPk] at isStep
          cases closure with
          | false => exact frontierStep_advances other isId isStage (Or.inr rfl) isStep
          | true =>
            obtain ⟨c', db', isNext⟩ :=
              pendingStep_next bulk id turn.page ofScopes (toLex (key, since)) c db
            obtain rfl := Except.ok.inj isStep
            rw [isNext]
            exact Advances.inside isId isEnrol
              (by rw [isStage]; decide)
              (pendingStep_rest other isStage isPk isNext)
      | holds =>
        simp only [isStage] at isStep
        obtain ⟨c', db', isNext⟩ := holdsStep_next bulk id turn.page c db
        obtain rfl := Except.ok.inj isStep
        rw [isNext]
        exact Advances.inside isId isEnrol
          (by rw [isStage]; decide)
          (holdsStep_rest other isStage isNext)
      | clean =>
        simp only [isStage] at isStep
        obtain ⟨c', db', isNext⟩ := cleanStep_next id turn.page c db
        obtain rfl := Except.ok.inj isStep
        rw [isNext]
        exact cleanStep_finish isId isStage isNext
      | sweep =>
        simp only [isStage] at isStep
        obtain rfl := Except.ok.inj isStep
        cases isNext : sweepStep bulk ids turn.page c db with
        | next c' db' => exact sweepStep_finish isStage isNext
        | blocked => trivial
        | active db' => exact sweepStep_active isStage isNext

/-! ## Slices -/

/-- **A slice leaves what is to do as it is**, from the cursor it saves, or it ends the fold. -/
theorem foldLoop_finish (isOther : ∀ id ∈ ids, id ≠ bulk) {turns : List Turn} {moved : Bool}
    {outcome : Outcome} {s : Store}
    (isRun : foldLoop closure bulk ids turns c moved db = .ok (outcome, s)) :
    (∃ c', s.cursor = .fold c' ∧ finish closure bulk ids c' s.db = finish closure bulk ids c db) ∨
      (s.cursor = .other "" ∧ finish closure bulk ids c db = .ok s.db) := by
  induction turns generalizing c moved db with
  | nil =>
    obtain ⟨_, rfl⟩ := Prod.mk.inj (Except.ok.inj isRun)
    exact Or.inl ⟨c, rfl, rfl⟩
  | cons turn rest ih =>
    rw [foldLoop] at isRun
    cases isStep : foldStep closure bulk ids turn c db with
    | error text =>
      rw [isStep] at isRun
      cases isRun
    | ok stepped =>
      have advances := foldStep_advances isOther isStep
      cases stepped with
      | next c' db' =>
        rw [isStep] at isRun
        have isSame : finish closure bulk ids c' db' = finish closure bulk ids c db :=
          advances
        rw [← isSame]
        exact ih isRun
      | blocked =>
        rw [isStep] at isRun
        obtain ⟨_, rfl⟩ := Prod.mk.inj (Except.ok.inj isRun)
        exact Or.inl ⟨c, rfl, rfl⟩
      | active db' =>
        rw [isStep] at isRun
        obtain ⟨_, rfl⟩ := Prod.mk.inj (Except.ok.inj isRun)
        exact Or.inr ⟨rfl, advances⟩

end Murage.RevokeFold
