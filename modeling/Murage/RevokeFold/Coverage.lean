import Murage.RevokeFold.Additions

/-!
Owns what the fold has given the bulk when a member's turn is over: every flow item and every
mark node of the member, its holds, its receipt's root and, where the pending copy is on, its
pending rows; and that the member has retired by then.

Does not own: runs of slices.
-/

namespace Murage.RevokeFold

open Murage.Library

variable {closure : Bool} {bulk id index : Nat} {ids gone : List Nat} {db db' : Db}

/-! ## A store -/

def rowNode (ofScopes : Bool) (key : String) : FlowNode :=
  if ofScopes then .scope key else .thread key

/-- What the tables promise: the primary key of the jobs; no row under an id that was never
given, as the newest job is never pruned; ids that are not empty; windows that open no earlier
than their job's root. -/
structure Db.Grounded (db : Db) : Prop where
  keys : (db.jobs.map (·.id)).Nodup
  fresh : ∀ id, (∀ job ∈ db.jobs, job.id < id) →
    db.pending id = ∅ ∧ db.pendingScope id = ∅ ∧ db.frontier id = ∅ ∧ db.reached id = ∅
  seqs : ∀ id, ∀ row ∈ db.frontier id, firstLsn < row.1
  named : ∀ ofScopes id, ∀ row ∈ db.pendingOf ofScopes id, (ofLex row.1).1 ≠ ""
  windows : ∀ ofScopes, ∀ job ∈ db.jobs, ∀ since,
    (toLex ("*", since), ()) ∈ db.pendingOf ofScopes job.id → job.rootLsn ≤ since

/-- A member's rows can all be read from the first position on. -/
structure Readable (db : Db) (id : Nat) : Prop where
  seqs : ∀ row ∈ db.frontier id, firstLsn < row.1
  named : ∀ ofScopes, ∀ row ∈ db.pendingOf ofScopes id, (ofLex row.1).1 ≠ ""

theorem Readable.same (readable : Readable db id) (same : SameRows id db db') :
    Readable db' id where
  seqs row isIn := readable.seqs row (same.frontier ▸ isIn)
  named ofScopes row isIn := readable.named ofScopes row (same.pendingOf ofScopes ▸ isIn)

theorem empty_lt {key : String} (isNamed : key ≠ "") : "" < key := by
  rcases lt_trichotomy "" key with isLess | isSame | isMore
  · exact isLess
  · exact absurd isSame.symm isNamed
  · rw [String.lt_iff_toList_lt] at isMore
    exact absurd isMore (List.not_lt_nil _)

theorem Readable.frontier (readable : Readable db id) :
    (db.frontier id).after firstLsn = (db.frontier id).rows :=
  KeyedTable.after_eq_rows readable.seqs

theorem Readable.pending (readable : Readable db id) (ofScopes : Bool) :
    (db.pendingOf ofScopes id).after firstPending = (db.pendingOf ofScopes id).rows := by
  refine KeyedTable.after_eq_rows fun row isIn => ?_
  exact Prod.Lex.lt_iff.mpr (Or.inl (empty_lt (readable.named ofScopes row isIn)))

theorem holds_after (db : Db) (id : Nat) : (db.holds id).after "" = (db.holds id).rows := by
  refine KeyedTable.after_eq_rows fun row isIn => ?_
  have isHeld : isHold row.1 := by
    have kept := (List.mem_filter.mp (show row ∈ (db.reached id).rows.filter _ from isIn)).2
    exact of_decide_eq_true kept
  exact lt_of_lt_of_le (by decide) isHeld.1

/-! ## What a member hands over -/

/-- The member's rows of a start, in the bulk's tables. -/
structure Covered (closure : Bool) (bulk id : Nat) (start db : Db) : Prop where
  flows : ∀ seq < 0, ∀ node since, (seq, NodeText.flow node since) ∈ start.frontier id →
    Held db bulk node since
  marks : ∀ seq ≥ 0, ∀ node, (seq, node) ∈ start.frontier id →
    ∃ fresh > 0, (fresh, node) ∈ db.frontier bulk
  pendings : closure = true → ∀ ofScopes key since, key ≠ "*" →
    (toLex (key, since), ()) ∈ start.pendingOf ofScopes id →
      Held db bulk (rowNode ofScopes key) since
  holds : ∀ hold lsn, isHold hold → (hold, lsn) ∈ start.reached id →
    ∃ held, (hold, held) ∈ db.reached bulk
  root : ∀ bundleId, start.receiptRoot id = some bundleId →
    ∃ now ≥ start.nextLsn, now < db.nextLsn ∧
      RootCommitted db bulk bundleId (start.receipts bundleId) now

theorem Covered.adds {start : Db} (covered : Covered closure bulk id start db)
    (adds : Adds closure bulk gone db db') : Covered closure bulk id start db' where
  flows seq isFlow node since isIn := (covered.flows seq isFlow node since isIn).adds adds
  marks seq isMark node isIn := by
    obtain ⟨fresh, isFresh, isThere⟩ := covered.marks seq isMark node isIn
    exact ⟨fresh, isFresh, adds.frontier _ isThere⟩
  pendings isOn ofScopes key since isNamed isIn :=
    (covered.pendings isOn ofScopes key since isNamed isIn).adds adds
  holds hold lsn isHeld isIn := by
    obtain ⟨held, isThere⟩ := covered.holds hold lsn isHeld isIn
    exact ⟨held, adds.reached _ isThere⟩
  root bundleId isRoot := by
    obtain ⟨now, isAfter, isBefore, committed⟩ := covered.root bundleId isRoot
    exact ⟨now, isAfter, Int.lt_of_lt_of_le isBefore adds.nextLsn, committed.adds adds⟩

theorem Covered.of_same {start start' : Db} (covered : Covered closure bulk id start' db)
    (same : SameRows id start start') (receipts : start'.receipts = start.receipts)
    (sameRoot : start'.receiptRoot id = start.receiptRoot id)
    (isLater : start.nextLsn ≤ start'.nextLsn) : Covered closure bulk id start db where
  flows seq isFlow node since isIn :=
    covered.flows seq isFlow node since (same.frontier ▸ isIn)
  marks seq isMark node isIn := covered.marks seq isMark node (same.frontier ▸ isIn)
  pendings isOn ofScopes key since isNamed isIn :=
    covered.pendings isOn ofScopes key since isNamed (same.pendingOf ofScopes ▸ isIn)
  holds hold lsn isHeld isIn := covered.holds hold lsn isHeld (same.reached ▸ isIn)
  root bundleId isRoot := by
    obtain ⟨now, isAfter, isBefore, committed⟩ := covered.root bundleId (sameRoot ▸ isRoot)
    exact ⟨now, Int.le_trans isLater isAfter, isBefore, receipts ▸ committed⟩

theorem copyRow_covers {row : Int × NodeText} (isDone : copyRow bulk db row = .ok db') :
    (row.1 < 0 → ∀ node since, row.2 = .flow node since → Held db' bulk node since) ∧
      (row.1 ≥ 0 → ∃ fresh > 0, (fresh, row.2) ∈ db'.frontier bulk) := by
  rw [copyRow] at isDone
  split_ifs at isDone with isFlow
  · refine ⟨fun _ node since isNode => ?_, fun isMark => absurd isFlow (Int.not_lt.mpr isMark)⟩
    rw [isNode] at isDone
    obtain rfl := Except.ok.inj isDone
    exact held_seedFlow bulk node since db
  · obtain rfl := Except.ok.inj isDone
    exact ⟨fun isNegative => absurd isNegative isFlow, fun _ => mem_enqueueNode bulk row.2 db⟩

theorem copyRows_covers {rows : List (Int × NodeText)}
    (isDone : rows.foldlM (copyRow bulk) db = .ok db') : ∀ row ∈ rows,
    (row.1 < 0 → ∀ node since, row.2 = .flow node since → Held db' bulk node since) ∧
      (row.1 ≥ 0 → ∃ fresh > 0, (fresh, row.2) ∈ db'.frontier bulk) := by
  induction rows generalizing db with
  | nil => exact fun row isIn => by cases isIn
  | cons head rest ih =>
    rw [List.foldlM_cons] at isDone
    cases isCopied : copyRow bulk db head with
    | error text =>
      rw [isCopied] at isDone
      cases isDone
    | ok next =>
      rw [isCopied] at isDone
      intro row isIn
      rcases List.mem_cons.mp isIn with rfl | isIn
      · obtain ⟨flows, marks⟩ := copyRow_covers isCopied
        have adds := adds_copyRows true [] isDone
        refine ⟨fun isFlow node since isNode => (flows isFlow node since isNode).adds adds,
          fun isMark => ?_⟩
        obtain ⟨fresh, isFresh, isThere⟩ := marks isMark
        exact ⟨fresh, isFresh, adds.frontier _ isThere⟩
      · exact ih isDone row isIn

theorem copyPending_covers (bulk : Nat) (ofScopes : Bool) (db : Db) (key : String) (since : Int)
    (isNamed : key ≠ "*") :
    Held (copyPending bulk ofScopes db (toLex (key, since), ())) bulk (rowNode ofScopes key)
      since := by
  have isNode : pendingNode ofScopes key = some (rowNode ofScopes key) := by
    cases ofScopes <;> exact if_neg isNamed
  rw [copyPending, ofLex_toLex]
  simp only [isNode]
  exact held_seedFlow bulk _ since db

theorem copyPendings_covers (bulk : Nat) (ofScopes : Bool) (rows : List ((String ×ₗ Int) × Unit))
    (db : Db) {key : String} {since : Int} (isNamed : key ≠ "*")
    (isIn : (toLex (key, since), ()) ∈ rows) :
    Held (rows.foldl (copyPending bulk ofScopes) db) bulk (rowNode ofScopes key) since := by
  induction rows generalizing db with
  | nil => cases isIn
  | cons row rest ih =>
    rw [List.foldl_cons]
    rcases List.mem_cons.mp isIn with rfl | isIn
    · exact (copyPending_covers bulk ofScopes db key since isNamed).adds
        (adds_copyPendings true bulk [] ofScopes rest _)
    · exact ih _ isIn

theorem reached_copyHold (bulk : Nat) (db : Db) (row : String × Int) :
    (copyHold bulk db row).reached bulk = (db.reached bulk).insert (row.1, 0) :=
  Function.update_self bulk _ _

theorem copyHolds_covers (bulk : Nat) (rows : List (String × Int)) (db : Db) {hold : String}
    {lsn : Int} (isIn : (hold, lsn) ∈ rows) :
    ∃ held, (hold, held) ∈ (rows.foldl (copyHold bulk) db).reached bulk := by
  induction rows generalizing db with
  | nil => cases isIn
  | cons row rest ih =>
    rw [List.foldl_cons]
    rcases List.mem_cons.mp isIn with rfl | isIn
    · have copied : ∃ held, (hold, held) ∈ (copyHold bulk db (hold, lsn)).reached bulk := by
        obtain ⟨⟨key, held⟩, isThere, rfl⟩ := (db.reached bulk).exists_mem_insert (hold, 0)
        exact ⟨held, reached_copyHold bulk db (key, lsn) ▸ isThere⟩
      obtain ⟨held, isThere⟩ := copied
      exact ⟨held, (Adds.foldl (adds_copyHold true bulk []) rest _).reached _ isThere⟩
    · exact ih _ isIn

/-! ## The end of a member -/

def Retired (db : Db) (id : Nat) : Prop := ∀ job ∈ db.jobs, job.id = id → job.state ≠ .active

theorem Retired.adds (retired : Retired db id) (adds : Adds closure bulk gone db db') :
    Retired db' id := by
  obtain ⟨change, isMap, changed⟩ := adds.jobs
  intro job isIn isId isActive
  rw [isMap] at isIn
  obtain ⟨held, isHeld, rfl⟩ := List.mem_map.mp isIn
  rcases (changed held).state with isSame | ⟨isFolded, _⟩
  · exact retired held isHeld ((changed held).id ▸ isId) (isSame ▸ isActive)
  · rw [isFolded] at isActive
    cases isActive

theorem retired_retire (id : Nat) (db : Db) : Retired (retire id db) id := by
  intro job isIn isId isActive
  obtain ⟨held, _, rfl⟩ := List.mem_map.mp isIn
  by_cases isHeld : held.id = id
  · simp only [if_pos isHeld] at isActive
    split_ifs at isActive with isOn
    exact isOn isActive
  · rw [if_neg isHeld] at isId
    exact isHeld isId

theorem fromHolds_adds (closure : Bool) (notBulk : id ≠ bulk) (isGone : id ∈ gone)
    (start : String) (db : Db) :
    Adds closure bulk gone db (fromHolds bulk id start db) ∧
      Retired (fromHolds bulk id start db) id := by
  have copied : Adds closure bulk gone db (restHolds bulk id start db) :=
    Adds.foldl (adds_copyHold closure bulk gone) _ db
  have cleaned (db : Db) : Adds closure bulk gone db (fromClean id db) :=
    (adds_clearMember closure notBulk isGone db).trans (adds_bump closure bulk gone _)
  have retired := adds_retire closure bulk isGone (restHolds bulk id start db)
  have bumped := adds_bump closure bulk gone (retire id (restHolds bulk id start db))
  refine ⟨copied.trans (retired.trans (bumped.trans (cleaned _))), ?_⟩
  exact (retired_retire id _).adds (bumped.trans (cleaned _))

theorem fromHolds_covers (notBulk : id ≠ bulk) (db : Db) {hold : String} {lsn : Int}
    (isHeld : isHold hold) (isIn : (hold, lsn) ∈ db.reached id) :
    ∃ held, (hold, held) ∈ (fromHolds bulk id "" db).reached bulk := by
  have isRow : (hold, lsn) ∈ (db.holds id).after "" := by
    rw [holds_after]
    exact List.mem_filter.mpr ⟨isIn, decide_eq_true isHeld⟩
  obtain ⟨held, isThere⟩ := copyHolds_covers bulk _ db isRow
  have retired := adds_retire true bulk (List.mem_singleton_self id) (restHolds bulk id "" db)
  have bumped := adds_bump true bulk [id] (retire id (restHolds bulk id "" db))
  have cleared := adds_clearMember true notBulk (List.mem_singleton_self id)
    (bumpDenyGeneration (retire id (restHolds bulk id "" db)))
  exact ⟨held, (retired.trans (bumped.trans (cleared.trans
    (adds_bump true bulk [id] _)))).reached _ isThere⟩

theorem fromPending_adds (index : Nat) (notBulk : id ≠ bulk) (isGone : id ∈ gone) (db : Db) :
    Adds true bulk gone db (fromPending bulk index id false firstPending db) ∧
      Retired (fromPending bulk index id false firstPending db) id := by
  have threads := adds_copyPendings true bulk gone false
    ((db.pendingOf false id).after firstPending) db
  have scopes := adds_copyPendings true bulk gone true
    (((restPending bulk id false firstPending db).pendingOf true id).after firstPending)
    (restPending bulk id false firstPending db)
  have noted := adds_noteClosure bulk index gone
    (restPending bulk id true firstPending (restPending bulk id false firstPending db))
  obtain ⟨ended, retired⟩ := fromHolds_adds true notBulk isGone ""
    (noteClosure bulk index
      (restPending bulk id true firstPending (restPending bulk id false firstPending db)))
  exact ⟨threads.trans (scopes.trans (noted.trans ended)), retired⟩

theorem noteClosure_same (bulk index id : Nat) (db : Db) :
    SameRows id db (noteClosure bulk index db) :=
  ⟨rfl, rfl, rfl, rfl⟩

theorem restPending_same (notBulk : id ≠ bulk) (ofScopes : Bool) (start : String ×ₗ Int)
    (db : Db) : SameRows id db (restPending bulk id ofScopes start db) :=
  SameRows.foldl (copyPending_same notBulk ofScopes) _ db

theorem fromPending_covers (index : Nat) (notBulk : id ≠ bulk) (readable : Readable db id) :
    (∀ ofScopes key since, key ≠ "*" → (toLex (key, since), ()) ∈ db.pendingOf ofScopes id →
      Held (fromPending bulk index id false firstPending db) bulk (rowNode ofScopes key) since) ∧
    ∀ hold lsn, isHold hold → (hold, lsn) ∈ db.reached id → ∃ held,
      (hold, held) ∈ (fromPending bulk index id false firstPending db).reached bulk := by
  have isMember : id ∈ [id] := List.mem_singleton_self id
  have sameThreads := restPending_same notBulk false firstPending db
  have sameScopes := restPending_same notBulk true firstPending
    (restPending bulk id false firstPending db)
  have scopes := adds_copyPendings true bulk [id] true
    (((restPending bulk id false firstPending db).pendingOf true id).after firstPending)
    (restPending bulk id false firstPending db)
  have noted := adds_noteClosure bulk index [id]
    (restPending bulk id true firstPending (restPending bulk id false firstPending db))
  obtain ⟨ended, _⟩ := fromHolds_adds true notBulk isMember ""
    (noteClosure bulk index
      (restPending bulk id true firstPending (restPending bulk id false firstPending db)))
  constructor
  · intro ofScopes key since isNamed isIn
    cases ofScopes with
    | false =>
      have isRow : (toLex (key, since), ()) ∈ (db.pendingOf false id).after firstPending := by
        rw [readable.pending]
        exact isIn
      exact (copyPendings_covers bulk false _ db isNamed isRow).adds
        (scopes.trans (noted.trans ended))
    | true =>
      have isRow : (toLex (key, since), ()) ∈
          ((restPending bulk id false firstPending db).pendingOf true id).after
            firstPending := by
        rw [sameThreads.pendingOf, readable.pending]
        exact isIn
      exact (copyPendings_covers bulk true _ _ isNamed isRow).adds (noted.trans ended)
  · intro hold lsn isHeld isIn
    have isRow : (hold, lsn) ∈ (noteClosure bulk index (restPending bulk id true firstPending
        (restPending bulk id false firstPending db))).reached id := by
      rw [(noteClosure_same bulk index id _).reached, sameScopes.reached, sameThreads.reached]
      exact isIn
    exact fromHolds_covers notBulk _ isHeld isRow

theorem fromFrontier_adds (notBulk : id ≠ bulk) (isGone : id ∈ gone) {start : Int}
    (isDone : fromFrontier closure bulk index id start db = .ok db') :
    Adds closure bulk gone db db' ∧ Retired db' id := by
  rw [fromFrontier] at isDone
  cases isCopied : restFrontier bulk id start db with
  | error text =>
    rw [isCopied] at isDone
    cases isDone
  | ok next =>
    rw [isCopied] at isDone
    obtain rfl := Except.ok.inj isDone
    have copied : Adds closure bulk gone db next := adds_copyRows closure gone isCopied
    cases closure with
    | true =>
      obtain ⟨adds, retired⟩ := fromPending_adds index notBulk isGone next
      exact ⟨copied.trans adds, retired⟩
    | false =>
      obtain ⟨adds, retired⟩ := fromHolds_adds false notBulk isGone "" next
      exact ⟨copied.trans adds, retired⟩

theorem fromFrontier_covers {start : Db} (notBulk : id ≠ bulk) (readable : Readable start id)
    (isSame : SameRows id start db)
    (isDone : fromFrontier closure bulk index id firstLsn db = .ok db')
    (root : ∀ bundleId, start.receiptRoot id = some bundleId →
      ∃ now ≥ start.nextLsn, now < db'.nextLsn ∧
        RootCommitted db' bulk bundleId (start.receipts bundleId) now) :
    Covered closure bulk id start db' := by
  rw [fromFrontier] at isDone
  cases isCopied : restFrontier bulk id firstLsn db with
  | error text =>
    rw [isCopied] at isDone
    cases isDone
  | ok next =>
    rw [isCopied] at isDone
    obtain rfl := Except.ok.inj isDone
    have same : SameRows id start next := isSame.trans (copyRows_same notBulk isCopied)
    rw [restFrontier, (readable.same isSame).frontier, isSame.frontier] at isCopied
    have covers := copyRows_covers isCopied
    have isMember : id ∈ [id] := List.mem_singleton_self id
    have readable' := readable.same same
    cases closure with
    | true =>
      obtain ⟨adds, _⟩ := fromPending_adds index notBulk isMember next
      obtain ⟨pendings, holds⟩ := fromPending_covers index notBulk readable'
      exact
        { flows := fun seq isFlow node since isIn =>
            ((covers _ isIn).1 isFlow node since rfl).adds adds
          marks := fun seq isMark node isIn => by
            obtain ⟨fresh, isFresh, isThere⟩ := (covers _ isIn).2 isMark
            exact ⟨fresh, isFresh, adds.frontier _ isThere⟩
          pendings := fun _ ofScopes key since isNamed isIn =>
            pendings ofScopes key since isNamed (same.pendingOf ofScopes ▸ isIn)
          holds := fun hold lsn isHeld isIn => holds hold lsn isHeld (same.reached ▸ isIn)
          root := root }
    | false =>
      obtain ⟨adds, _⟩ := fromHolds_adds false notBulk isMember "" next
      exact
        { flows := fun seq isFlow node since isIn =>
            ((covers _ isIn).1 isFlow node since rfl).adds adds
          marks := fun seq isMark node isIn => by
            obtain ⟨fresh, isFresh, isThere⟩ := (covers _ isIn).2 isMark
            exact ⟨fresh, isFresh, adds.frontier _ isThere⟩
          pendings := fun isOn => by cases isOn
          holds := fun hold lsn isHeld isIn =>
            fromHolds_covers notBulk next isHeld (same.reached ▸ isIn)
          root := root }

theorem commitRevoke_same (notBulk : id ≠ bulk) {bundleId : String}
    (isDone : commitRevoke bulk bundleId db = .ok db') : SameRows id db db' :=
  (adds_commitRevoke true [] isDone).1.others id notBulk List.not_mem_nil

/-- **A member's turn**: it retires, and the bulk has all that it had. -/
theorem foldMember_covers (notBulk : id ≠ bulk) (readable : Readable db id)
    (isDone : foldMember closure bulk index id db = .ok db') :
    Adds closure bulk [id] db db' ∧ Retired db' id ∧ Covered closure bulk id db db' := by
  have isIn : id ∈ [id] := List.mem_singleton_self id
  rw [foldMember] at isDone
  cases isReceipt : db.receiptRoot id with
  | none =>
    simp only [isReceipt] at isDone
    have isRest : fromFrontier closure bulk index id firstLsn db = .ok db' := isDone
    obtain ⟨adds, retired⟩ := fromFrontier_adds notBulk isIn isRest
    refine ⟨adds, retired, ?_⟩
    refine fromFrontier_covers notBulk readable (SameRows.refl id db) isRest
      fun bundleId isRoot => ?_
    rw [isReceipt] at isRoot
    cases isRoot
  | some bundleId =>
    simp only [isReceipt] at isDone
    cases isCommitted : commitRevoke bulk bundleId db with
    | error text =>
      rw [isCommitted] at isDone
      cases isDone
    | ok next =>
      rw [isCommitted] at isDone
      have isRest : fromFrontier closure bulk index id firstLsn next = .ok db' := isDone
      obtain ⟨committed, isRoot, isLater⟩ := adds_commitRevoke closure [id] isCommitted
      have same := commitRevoke_same notBulk isCommitted
      obtain ⟨adds, retired⟩ := fromFrontier_adds notBulk isIn isRest
      refine ⟨committed.trans adds, retired, ?_⟩
      refine fromFrontier_covers notBulk readable same isRest fun found isFound => ?_
      obtain rfl := Option.some.inj (isReceipt.symm.trans isFound)
      exact ⟨db.nextLsn, Int.le_refl _, Int.lt_of_lt_of_le isLater adds.nextLsn,
        isRoot.adds adds⟩

end Murage.RevokeFold
