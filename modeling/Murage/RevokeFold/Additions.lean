import Murage.RevokeFold.Completion

/-!
Owns what every operation of a fold leaves alone: the bulk only gains rows, the rows of the
members whose turn has not come and the jobs of everyone else stay, and every pending row of
the bulk that names a thread or a scope has its item in the bulk's flow queue.

Does not own: what the bulk has gained in the end.
-/

namespace Murage.RevokeFold

open Murage.Library

variable {closure : Bool} {bulk id n : Nat} {ids gone : List Nat} {c c' : FoldCursor}
  {db db' : Db}

/-! ## The relation -/

def Held (db : Db) (bulk : Nat) (node : FlowNode) (since : Int) : Prop :=
  ∃ held ≤ since, (toLex (node.key, held), ()) ∈ db.window bulk node

def Queued (db : Db) (bulk : Nat) (node : FlowNode) (since : Int) : Prop :=
  ∃ held ≤ since, ∃ seq < 0, (seq, NodeText.flow node held) ∈ db.frontier bulk

/-- The rows over all threads and over all scopes. -/
def FlowNode.IsAll (node : FlowNode) : Prop := node.key = "*"

/-- Every pending row that names a thread or a scope is in the flow queue. -/
def Queues (bulk : Nat) (db : Db) : Prop :=
  ∀ node since, ¬node.IsAll → (toLex (node.key, since), ()) ∈ db.window bulk node →
    ∃ seq < 0, (seq, NodeText.flow node since) ∈ db.frontier bulk

variable {node : FlowNode}

theorem Queues.queued (queues : Queues bulk db) {since : Int} (isNamed : ¬node.IsAll)
    (held : Held db bulk node since) : Queued db bulk node since := by
  obtain ⟨lsn, isBefore, isIn⟩ := held
  exact ⟨lsn, isBefore, queues node lsn isNamed isIn⟩

/-- What may become of a job's row: the bulk's root may change, a member of `gone` may
retire. -/
structure Changed (closure : Bool) (bulk : Nat) (gone : List Nat) (job job' : Job) : Prop where
  id : job'.id = job.id
  other : job.id ≠ bulk → job.id ∉ gone → job' = job
  kind : job'.kind = job.kind
  state : job'.state = job.state ∨ job'.state = .folded ∧ job.id ∈ gone
  cause : job'.root.map (·.cause) = job.root.map (·.cause)
  cohort : job'.root.bind (·.cohort) = job.root.bind (·.cohort)
  narrow : job'.root.map (·.narrow) = job.root.map (·.narrow)
  closureIds : closure = false →
    job'.root.map (·.closureIds) = job.root.map (·.closureIds)

theorem Changed.refl (closure : Bool) (bulk : Nat) (gone : List Nat) (job : Job) :
    Changed closure bulk gone job job :=
  ⟨rfl, fun _ _ => rfl, rfl, Or.inl rfl, rfl, rfl, rfl, fun _ => rfl⟩

theorem Changed.trans {job job' job'' : Job} (first : Changed closure bulk gone job job')
    (second : Changed closure bulk gone job' job'') : Changed closure bulk gone job job'' where
  id := second.id.trans first.id
  other notBulk notGone := by
    have isSame := first.other notBulk notGone
    subst isSame
    exact second.other notBulk notGone
  kind := second.kind.trans first.kind
  state := by
    rcases second.state with isSame | ⟨isFolded, isGone⟩
    · rw [isSame]
      exact first.state
    · exact Or.inr ⟨isFolded, first.id ▸ isGone⟩
  cause := second.cause.trans first.cause
  cohort := second.cohort.trans first.cohort
  narrow := second.narrow.trans first.narrow
  closureIds isOff := (second.closureIds isOff).trans (first.closureIds isOff)

/-- The bulk gains rows; the members of `gone` may lose theirs. -/
structure Adds (closure : Bool) (bulk : Nat) (gone : List Nat) (db db' : Db) : Prop where
  others : ∀ id, id ≠ bulk → id ∉ gone → SameRows id db db'
  pending : ∀ row ∈ db.pending bulk, row ∈ db'.pending bulk
  pendingScope : ∀ row ∈ db.pendingScope bulk, row ∈ db'.pendingScope bulk
  frontier : ∀ row ∈ db.frontier bulk, row ∈ db'.frontier bulk
  reached : ∀ row ∈ db.reached bulk, row ∈ db'.reached bulk
  jobs : ∃ change : Job → Job, db'.jobs = db.jobs.map change ∧
    ∀ job, Changed closure bulk gone job (change job)
  audience : db'.audience = db.audience
  carries : db.carries ⊆ db'.carries
  receipts : db'.receipts = db.receipts
  nextLsn : db.nextLsn ≤ db'.nextLsn
  queues : Queues bulk db → Queues bulk db'

theorem SameRows.window (same : SameRows id db db') (node : FlowNode) :
    db'.window id node = db.window id node := by
  cases node with
  | thread key => exact same.pending
  | scope key => exact same.pendingScope

theorem Adds.of_same (rows : ∀ id, SameRows id db db')
    (jobs : ∃ change : Job → Job, db'.jobs = db.jobs.map change ∧
      ∀ job, Changed closure bulk gone job (change job))
    (audience : db'.audience = db.audience) (carries : db.carries ⊆ db'.carries)
    (receipts : db'.receipts = db.receipts) (nextLsn : db.nextLsn ≤ db'.nextLsn) :
    Adds closure bulk gone db db' where
  others id _ _ := rows id
  pending _ isIn := (rows bulk).pending ▸ isIn
  pendingScope _ isIn := (rows bulk).pendingScope ▸ isIn
  frontier _ isIn := (rows bulk).frontier ▸ isIn
  reached _ isIn := (rows bulk).reached ▸ isIn
  jobs := jobs
  audience := audience
  carries := carries
  receipts := receipts
  nextLsn := nextLsn
  queues queues node since isNamed isIn := by
    rw [(rows bulk).window] at isIn
    rw [(rows bulk).frontier]
    exact queues node since isNamed isIn

theorem sameJobs (closure : Bool) (bulk : Nat) (gone : List Nat) (jobs : List Job) :
    ∃ change : Job → Job, jobs = jobs.map change ∧
      ∀ job, Changed closure bulk gone job (change job) :=
  ⟨id, (List.map_id jobs).symm, Changed.refl closure bulk gone⟩

theorem Adds.refl (closure : Bool) (bulk : Nat) (gone : List Nat) (db : Db) :
    Adds closure bulk gone db db :=
  Adds.of_same (fun id => SameRows.refl id db) (sameJobs closure bulk gone db.jobs) rfl
    (List.Subset.refl _) rfl (Int.le_refl _)

theorem Adds.trans {db'' : Db} (first : Adds closure bulk gone db db')
    (second : Adds closure bulk gone db' db'') : Adds closure bulk gone db db'' where
  others id notBulk notGone :=
    (first.others id notBulk notGone).trans (second.others id notBulk notGone)
  pending row isIn := second.pending row (first.pending row isIn)
  pendingScope row isIn := second.pendingScope row (first.pendingScope row isIn)
  frontier row isIn := second.frontier row (first.frontier row isIn)
  reached row isIn := second.reached row (first.reached row isIn)
  jobs := by
    obtain ⟨change, isMap, changed⟩ := first.jobs
    obtain ⟨change', isMap', changed'⟩ := second.jobs
    refine ⟨change' ∘ change, ?_, fun job => (changed job).trans (changed' _)⟩
    rw [isMap', isMap, List.map_map]
  audience := second.audience.trans first.audience
  carries := List.Subset.trans first.carries second.carries
  receipts := second.receipts.trans first.receipts
  nextLsn := Int.le_trans first.nextLsn second.nextLsn
  queues queues := second.queues (first.queues queues)

theorem Changed.mono {job job' : Job} {more : List Nat} (isMore : gone ⊆ more)
    (changed : Changed closure bulk gone job job') : Changed closure bulk more job job' :=
  { changed with
    other := fun notBulk notGone => changed.other notBulk fun isGone => notGone (isMore isGone)
    state := changed.state.imp_right (And.imp_right fun isGone => isMore isGone) }

theorem Adds.mono {more : List Nat} (isMore : gone ⊆ more)
    (adds : Adds closure bulk gone db db') : Adds closure bulk more db db' :=
  { adds with
    others := fun id notBulk notGone =>
      adds.others id notBulk fun isGone => notGone (isMore isGone)
    jobs := by
      obtain ⟨change, isMap, changed⟩ := adds.jobs
      exact ⟨change, isMap, fun job => (changed job).mono isMore⟩ }

theorem Adds.foldl {α : Type} {f : Db → α → Db} (step : ∀ db a, Adds closure bulk gone db (f db a))
    (rows : List α) (db : Db) : Adds closure bulk gone db (rows.foldl f db) := by
  induction rows generalizing db with
  | nil => exact Adds.refl closure bulk gone db
  | cons row rest ih => exact (step db row).trans (ih _)

theorem Adds.window (adds : Adds closure bulk gone db db') {row : (String ×ₗ Int) × Unit}
    (isIn : row ∈ db.window bulk node) :
    row ∈ db'.window bulk node := by
  cases node with
  | thread key => exact adds.pending row isIn
  | scope key => exact adds.pendingScope row isIn

theorem Held.adds {since : Int} (held : Held db bulk node since)
    (adds : Adds closure bulk gone db db') : Held db' bulk node since := by
  obtain ⟨lsn, isBefore, isIn⟩ := held
  exact ⟨lsn, isBefore, adds.window isIn⟩

theorem Adds.job (adds : Adds closure bulk gone db db') (notBulk : id ≠ bulk)
    (notGone : id ∉ gone) : db'.job id = db.job id := by
  obtain ⟨change, isMap, changed⟩ := adds.jobs
  have isFound : db'.job id = (db.job id).map change := by
    rw [Db.job, isMap, List.find?_map, Db.job]
    refine congrArg (Option.map change) (congrArg (fun p => List.find? p db.jobs) ?_)
    funext job
    exact congrArg (fun x => decide (x = id)) (changed job).id
  rw [isFound]
  cases isJob : db.job id with
  | none => rfl
  | some job =>
    have isId : job.id = id := by
      rw [Db.job] at isJob
      simpa using List.find?_some isJob
    exact congrArg some ((changed job).other (isId ▸ notBulk) (isId ▸ notGone))

theorem Adds.receiptRoot (adds : Adds closure bulk gone db db') (notBulk : id ≠ bulk)
    (notGone : id ∉ gone) : db'.receiptRoot id = db.receiptRoot id := by
  rw [Db.receiptRoot, adds.job notBulk notGone, Db.receiptRoot]

/-! ## The operations -/

theorem adds_bump (closure : Bool) (bulk : Nat) (gone : List Nat) (db : Db) :
    Adds closure bulk gone db (bumpDenyGeneration db) :=
  Adds.of_same (fun _ => ⟨rfl, rfl, rfl, rfl⟩) (sameJobs closure bulk gone db.jobs) rfl
    (List.Subset.refl _) rfl (Int.le_refl _)

theorem adds_takeCommitLsn (closure : Bool) (bulk : Nat) (gone : List Nat) (db : Db) :
    Adds closure bulk gone db (takeCommitLsn db).2 :=
  Adds.of_same (fun _ => ⟨rfl, rfl, rfl, rfl⟩) (sameJobs closure bulk gone db.jobs) rfl
    (List.Subset.refl _) rfl (Int.le_add_one (Int.le_refl _))

theorem adds_enrol (closure : Bool) (bulk : Nat) (gone : List Nat) (db : Db) (id : Nat) :
    Adds closure bulk gone db (enrol bulk db id) := by
  rw [enrol]
  split_ifs
  · exact Adds.refl closure bulk gone db
  · exact Adds.of_same (fun _ => ⟨rfl, rfl, rfl, rfl⟩) (sameJobs closure bulk gone db.jobs) rfl
      (List.Subset.refl _) rfl (Int.le_refl _)

theorem adds_insertCarry (closure : Bool) (bulk : Nat) (gone : List Nat) (db : Db)
    (carry : Carry) : Adds closure bulk gone db (insertCarry db carry) := by
  rw [insertCarry]
  split_ifs
  · exact Adds.refl closure bulk gone db
  · exact Adds.of_same (fun _ => ⟨rfl, rfl, rfl, rfl⟩) (sameJobs closure bulk gone db.jobs) rfl
      (List.subset_append_left _ _) rfl (Int.le_refl _)

theorem adds_updateBulk (closure : Bool) (gone : List Nat) (db : Db) {change : Job → Job}
    (changed : ∀ job, job.id = bulk → Changed closure bulk gone job (change job)) :
    Adds closure bulk gone db (db.updateJob bulk change) := by
  refine Adds.of_same (fun _ => ⟨rfl, rfl, rfl, rfl⟩) ⟨_, rfl, fun job => ?_⟩ rfl
    (List.Subset.refl _) rfl (Int.le_refl _)
  split_ifs with isBulk
  · exact changed job isBulk
  · exact Changed.refl closure bulk gone job

theorem frontier_insertFrontier (bulk : Nat) (seq : Int) (node : NodeText) (db : Db) :
    (insertFrontier bulk seq node db).frontier bulk = (db.frontier bulk).insert (seq, node) :=
  Function.update_self bulk _ _

theorem adds_insertFrontier (closure : Bool) (bulk : Nat) (gone : List Nat) (seq : Int)
    (node : NodeText) (db : Db) :
    Adds closure bulk gone db (insertFrontier bulk seq node db) := by
  have kept : ∀ row ∈ db.frontier bulk, row ∈ (insertFrontier bulk seq node db).frontier bulk := by
    intro row isIn
    rw [frontier_insertFrontier]
    exact KeyedTable.mem_insert_of_mem _ isIn
  exact
    { others := fun id notBulk _ => insertFrontier_same notBulk seq node db
      pending := fun _ isIn => isIn
      pendingScope := fun _ isIn => isIn
      frontier := kept
      reached := fun _ isIn => isIn
      jobs := sameJobs closure bulk gone db.jobs
      audience := rfl
      carries := List.Subset.refl _
      receipts := rfl
      nextLsn := Int.le_refl _
      queues := fun queues node since isNamed isIn => by
        obtain ⟨seq, isFlow, isQueued⟩ := queues node since isNamed isIn
        exact ⟨seq, isFlow, kept _ isQueued⟩ }

theorem window_insertPending (bulk : Nat) (node : FlowNode) (since : Int) (db : Db) :
    (insertPending bulk node since db).window bulk node =
      (db.window bulk node).insert (toLex (node.key, since), ()) := by
  cases node with
  | thread key => exact Function.update_self bulk _ _
  | scope key => exact Function.update_self bulk _ _

theorem mem_window_insertPending {found : FlowNode} {since lsn : Int}
    (isIn : (toLex (found.key, lsn), ()) ∈ (insertPending bulk node since db).window bulk found) :
    found = node ∧ lsn = since ∨ (toLex (found.key, lsn), ()) ∈ db.window bulk found := by
  have isInserted (rows : PendingTable) (key key' : String)
      (isIn : (toLex (key', lsn), ()) ∈ rows.insert (toLex (key, since), ())) :
      key' = key ∧ lsn = since ∨ (toLex (key', lsn), ()) ∈ rows :=
    (KeyedTable.mem_insert isIn).imp_left fun isRow =>
      Prod.mk.inj (toLex.injective (Prod.mk.inj isRow).1)
  cases node with
  | thread key =>
    cases found with
    | thread key' =>
      have inserted : (toLex (key', lsn), ()) ∈
          (insertPending bulk (.thread key) since db).window bulk (.thread key) := isIn
      rw [window_insertPending] at inserted
      refine (isInserted _ _ _ inserted).imp_left fun isRow => ⟨?_, isRow.2⟩
      exact congrArg FlowNode.thread isRow.1
    | scope key' => exact Or.inr isIn
  | scope key =>
    cases found with
    | thread key' => exact Or.inr isIn
    | scope key' =>
      have inserted : (toLex (key', lsn), ()) ∈
          (insertPending bulk (.scope key) since db).window bulk (.scope key) := isIn
      rw [window_insertPending] at inserted
      refine (isInserted _ _ _ inserted).imp_left fun isRow => ⟨?_, isRow.2⟩
      exact congrArg FlowNode.scope isRow.1

theorem mem_insertPending_of_mem {row : (String ×ₗ Int) × Unit} (node other : FlowNode)
    (since : Int) (isIn : row ∈ db.window bulk other) :
    row ∈ (insertPending bulk node since db).window bulk other := by
  cases node with
  | thread key =>
    cases other with
    | thread key' =>
      show row ∈ (insertPending bulk (.thread key) since db).window bulk (.thread key)
      rw [window_insertPending]
      exact KeyedTable.mem_insert_of_mem _ isIn
    | scope key' => exact isIn
  | scope key =>
    cases other with
    | thread key' => exact isIn
    | scope key' =>
      show row ∈ (insertPending bulk (.scope key) since db).window bulk (.scope key)
      rw [window_insertPending]
      exact KeyedTable.mem_insert_of_mem _ isIn

theorem mem_window_self (bulk : Nat) (node : FlowNode) (since : Int) (db : Db) :
    (toLex (node.key, since), ()) ∈ (insertPending bulk node since db).window bulk node := by
  rw [window_insertPending]
  obtain ⟨⟨key, _⟩, isIn, rfl⟩ :=
    (db.window bulk node).exists_mem_insert (toLex (node.key, since), ())
  exact isIn

theorem adds_insertPending (closure : Bool) (gone : List Nat) {since : Int}
    (isQueued : ¬node.IsAll → ∃ seq < 0, (seq, NodeText.flow node since) ∈ db.frontier bulk) :
    Adds closure bulk gone db (insertPending bulk node since db) where
  others id notBulk _ := insertPending_same notBulk node since db
  pending row isIn := mem_insertPending_of_mem node (.thread "") since isIn
  pendingScope row isIn := mem_insertPending_of_mem node (.scope "") since isIn
  frontier row isIn := by
    cases node <;> exact isIn
  reached row isIn := by
    cases node <;> exact isIn
  jobs := by
    cases node <;> exact sameJobs closure bulk gone db.jobs
  audience := by
    cases node <;> rfl
  carries := by
    cases node <;> exact List.Subset.refl _
  receipts := by
    cases node <;> rfl
  nextLsn := by
    cases node <;> exact Int.le_refl _
  queues queues found lsn isNamed isIn := by
    have sameFrontier : (insertPending bulk node since db).frontier = db.frontier := by
      cases node <;> rfl
    rw [sameFrontier]
    rcases mem_window_insertPending isIn with ⟨rfl, rfl⟩ | held
    · exact isQueued isNamed
    · exact queues found lsn isNamed held

theorem foldr_min_le {rows : List (Int × NodeText)} {row : Int × NodeText} (isIn : row ∈ rows) :
    rows.foldr (fun row least => min row.1 least) 0 ≤ row.1 := by
  induction rows with
  | nil => cases isIn
  | cons held rest ih =>
    rcases List.mem_cons.mp isIn with rfl | isIn
    · exact min_le_left _ _
    · exact le_trans (min_le_right _ _) (ih isIn)

theorem le_foldr_max {rows : List (Int × NodeText)} {row : Int × NodeText} (isIn : row ∈ rows) :
    row.1 ≤ rows.foldr (fun row top => max row.1 top) 0 := by
  induction rows with
  | nil => cases isIn
  | cons held rest ih =>
    rcases List.mem_cons.mp isIn with rfl | isIn
    · exact le_max_left _ _
    · exact le_trans (ih isIn) (le_max_right _ _)

theorem foldr_min_nonpos (rows : List (Int × NodeText)) :
    rows.foldr (fun row least => min row.1 least) 0 ≤ 0 := by
  induction rows with
  | nil => exact Int.le_refl 0
  | cons held rest ih => exact le_trans (min_le_right _ _) ih

theorem foldr_max_nonneg (rows : List (Int × NodeText)) :
    0 ≤ rows.foldr (fun row top => max row.1 top) 0 := by
  induction rows with
  | nil => exact Int.le_refl 0
  | cons held rest ih => exact le_trans ih (le_max_right _ _)

theorem mem_enqueueNode (bulk : Nat) (node : NodeText) (db : Db) :
    ∃ fresh > 0, (fresh, node) ∈ (enqueueNode bulk node db).frontier bulk := by
  refine ⟨nextSeq db bulk, Int.lt_add_one_of_le (foldr_max_nonneg _), ?_⟩
  rw [enqueueNode, frontier_insertFrontier]
  refine KeyedTable.mem_insert_self fun held isIn isSame => ?_
  have isBelow : held.1 < nextSeq db bulk := Int.lt_add_one_of_le (le_foldr_max isIn)
  exact absurd isSame (ne_of_lt isBelow)

theorem mem_pushFlow (bulk : Nat) (node : FlowNode) (since : Int) (db : Db) :
    ∃ seq < 0, (seq, NodeText.flow node since) ∈ (pushFlow bulk node since db).frontier bulk := by
  refine ⟨_, Int.sub_one_lt_of_le (foldr_min_nonpos (db.frontier bulk).rows), ?_⟩
  rw [pushFlow, frontier_insertFrontier]
  refine KeyedTable.mem_insert_self fun held isIn isSame => ?_
  have isAbove := Int.sub_one_lt_of_le (foldr_min_le isIn)
  exact absurd isSame (ne_of_gt isAbove)

theorem adds_enqueueNode (closure : Bool) (bulk : Nat) (gone : List Nat) (node : NodeText)
    (db : Db) : Adds closure bulk gone db (enqueueNode bulk node db) :=
  adds_insertFrontier closure bulk gone _ node db

theorem pushFlow_insertPending (bulk : Nat) (node : FlowNode) (since : Int) (db : Db) :
    pushFlow bulk node since (insertPending bulk node since db) =
      insertPending bulk node since (pushFlow bulk node since db) := by
  cases node <;> rfl

theorem adds_seedFlow (closure : Bool) (bulk : Nat) (gone : List Nat) (node : FlowNode)
    (since : Int) (db : Db) : Adds closure bulk gone db (seedFlow bulk node since db) := by
  rcases seedFlow_cases bulk node since db with ⟨isSame, _⟩ | isNew
  · rw [isSame]
    exact Adds.refl closure bulk gone db
  · rw [isNew, pushFlow_insertPending]
    exact (adds_insertFrontier closure bulk gone _ _ db).trans
      (adds_insertPending closure gone fun _ => mem_pushFlow bulk node since db)

theorem held_seedFlow (bulk : Nat) (node : FlowNode) (since : Int) (db : Db) :
    Held (seedFlow bulk node since db) bulk node since := by
  rcases seedFlow_cases bulk node since db with ⟨isSame, isHeld⟩ | isNew
  · rw [isSame]
    exact isHeld
  · rw [isNew, pushFlow_insertPending]
    exact ⟨since, Int.le_refl since, mem_window_self bulk node since _⟩

theorem adds_markAll (closure : Bool) (bulk : Nat) (gone : List Nat) (isAll : node.IsAll)
    (since : Int) (db : Db) :
    Adds closure bulk gone db ((markPending bulk node since db).getD db) ∧
      Held ((markPending bulk node since db).getD db) bulk node since := by
  rcases markPending_cases bulk node since db with ⟨isNone, isHeld⟩ | isSome
  · rw [isNone]
    exact ⟨Adds.refl closure bulk gone db, isHeld⟩
  · rw [isSome]
    exact ⟨adds_insertPending closure gone fun isNamed => absurd isAll isNamed,
      since, Int.le_refl since, mem_window_self bulk node since db⟩

theorem adds_copyHold (closure : Bool) (bulk : Nat) (gone : List Nat) (db : Db)
    (row : String × Int) : Adds closure bulk gone db (copyHold bulk db row) where
  others id notBulk _ := copyHold_same notBulk db row
  pending _ isIn := isIn
  pendingScope _ isIn := isIn
  frontier _ isIn := isIn
  reached held isIn := by
    show held ∈ Function.update db.reached bulk _ bulk
    rw [Function.update_self]
    exact KeyedTable.mem_insert_of_mem _ isIn
  jobs := sameJobs closure bulk gone db.jobs
  audience := rfl
  carries := List.Subset.refl _
  receipts := rfl
  nextLsn := Int.le_refl _
  queues queues := queues

theorem map_root {α : Type} {read : Root → α} {change : Root → Root}
    (same : ∀ root, read (change root) = read root) (root : Option Root) :
    (root.map change).map read = root.map read := by
  cases root with
  | none => rfl
  | some root => exact congrArg some (same root)

theorem bind_root {α : Type} {read : Root → Option α} {change : Root → Root}
    (same : ∀ root, read (change root) = read root) (root : Option Root) :
    (root.map change).bind read = root.bind read := by
  cases root with
  | none => rfl
  | some root => exact same root

theorem adds_noteClosure (bulk index : Nat) (gone : List Nat) (db : Db) :
    Adds true bulk gone db (noteClosure bulk index db) := by
  have kept (root : Root) : (root.noteClosure index).cause = root.cause ∧
      (root.noteClosure index).cohort = root.cohort ∧
      (root.noteClosure index).narrow = root.narrow := by
    rw [Root.noteClosure]
    split_ifs <;> exact ⟨rfl, rfl, rfl⟩
  refine adds_updateBulk true gone db fun job isBulk => ?_
  exact
    { id := rfl
      other := fun notBulk => absurd isBulk notBulk
      kind := rfl
      state := Or.inl rfl
      cause := map_root (fun root => (kept root).1) job.root
      cohort := bind_root (fun root => (kept root).2.1) job.root
      narrow := map_root (fun root => (kept root).2.2) job.root
      closureIds := fun isOff => by cases isOff }

theorem adds_copyRow (closure : Bool) (gone : List Nat) {row : Int × NodeText}
    (isDone : copyRow bulk db row = .ok db') : Adds closure bulk gone db db' := by
  unfold copyRow at isDone
  split_ifs at isDone
  · cases isItem : row.2.item with
    | error text =>
      rw [isItem] at isDone
      cases isDone
    | ok item =>
      rw [isItem] at isDone
      obtain rfl := Except.ok.inj isDone
      exact adds_seedFlow closure bulk gone _ _ db
  · obtain rfl := Except.ok.inj isDone
    exact adds_enqueueNode closure bulk gone _ db

theorem adds_copyRows (closure : Bool) (gone : List Nat) {rows : List (Int × NodeText)}
    (isDone : rows.foldlM (copyRow bulk) db = .ok db') : Adds closure bulk gone db db' := by
  induction rows generalizing db with
  | nil =>
    obtain rfl := Except.ok.inj isDone
    exact Adds.refl closure bulk gone _
  | cons row rest ih =>
    rw [List.foldlM_cons] at isDone
    cases isCopied : copyRow bulk db row with
    | error text =>
      rw [isCopied] at isDone
      cases isDone
    | ok next =>
      rw [isCopied] at isDone
      exact (adds_copyRow closure gone isCopied).trans (ih isDone)

theorem adds_copyPending (closure : Bool) (bulk : Nat) (gone : List Nat) (ofScopes : Bool)
    (db : Db) (row : (String ×ₗ Int) × Unit) :
    Adds closure bulk gone db (copyPending bulk ofScopes db row) := by
  unfold copyPending
  split
  · exact Adds.refl closure bulk gone db
  · exact adds_seedFlow closure bulk gone _ _ db

structure RootCommitted (db : Db) (bulk : Nat) (bundleId : String) (receipt : Receipt)
    (now : Int) : Prop where
  node : ∃ fresh > 0, (fresh, NodeText.receipt bundleId) ∈ db.frontier bulk
  window : Held db bulk (.thread pendingAllThreads) (receipt.rootLsn now)
  windowScope : Held db bulk (.scope pendingAllScopes) (receipt.rootLsn now)
  thread : ∀ thread, receipt.thread = some thread →
    Held db bulk (.thread thread) (receipt.rootLsn now)
  carries : receipt.carries ⊆ db.carries

theorem RootCommitted.adds {bundleId : String} {receipt : Receipt} {now : Int}
    (committed : RootCommitted db bulk bundleId receipt now)
    (adds : Adds closure bulk gone db db') : RootCommitted db' bulk bundleId receipt now where
  node := by
    obtain ⟨fresh, isFresh, isIn⟩ := committed.node
    exact ⟨fresh, isFresh, adds.frontier _ isIn⟩
  window := committed.window.adds adds
  windowScope := committed.windowScope.adds adds
  thread thread isThread := (committed.thread thread isThread).adds adds
  carries := List.Subset.trans committed.carries adds.carries

theorem subset_insertCarries (carries : List Carry) (db : Db) :
    carries ⊆ (carries.foldl insertCarry db).carries := by
  induction carries generalizing db with
  | nil => exact List.nil_subset _
  | cons carry rest ih =>
    refine List.cons_subset.mpr ⟨?_, ih _⟩
    have isIn : carry ∈ (insertCarry db carry).carries := by
      rw [insertCarry]
      split_ifs with isHeld
      · exact isHeld
      · exact List.mem_append_right _ (List.mem_singleton_self carry)
    exact (Adds.foldl (adds_insertCarry true 0 []) rest (insertCarry db carry)).carries isIn

theorem adds_commitRevoke (closure : Bool) (gone : List Nat) {bundleId : String}
    (isDone : commitRevoke bulk bundleId db = .ok db') :
    Adds closure bulk gone db db' ∧
      RootCommitted db' bulk bundleId (db.receipts bundleId) db.nextLsn ∧
      db.nextLsn < db'.nextLsn := by
  rw [commitRevoke] at isDone
  split_ifs at isDone with notAudience
  obtain rfl := Except.ok.inj isDone
  clear isDone notAudience
  generalize db.receipts bundleId = receipt
  have taken := adds_takeCommitLsn closure bulk gone db
  have isLater : db.nextLsn < (takeCommitLsn db).2.nextLsn :=
    Int.lt_add_one_of_le (Int.le_refl _)
  have isNow : (takeCommitLsn db).1 = db.nextLsn := rfl
  rw [isNow]
  generalize (takeCommitLsn db).2 = db1 at taken isLater ⊢
  have enqueued := adds_enqueueNode closure bulk gone (.receipt bundleId) db1
  have isNode := mem_enqueueNode bulk (.receipt bundleId) db1
  generalize enqueueNode bulk (.receipt bundleId) db1 = db2 at enqueued isNode ⊢
  have carried : Adds closure bulk gone db2 (holdRevokedReceipt receipt db2) :=
    Adds.foldl (adds_insertCarry closure bulk gone) receipt.carries db2
  have isCarried : receipt.carries ⊆ (holdRevokedReceipt receipt db2).carries :=
    subset_insertCarries receipt.carries db2
  generalize holdRevokedReceipt receipt db2 = db3 at carried isCarried ⊢
  have rooted : Adds closure bulk gone db3 (db3.updateJob bulk fun job =>
      { job with rootLsn := min job.rootLsn (receipt.rootLsn db.nextLsn) }) :=
    adds_updateBulk closure gone db3 fun job isBulk =>
      ⟨rfl, fun notBulk => absurd isBulk notBulk, rfl, Or.inl rfl, rfl, rfl, rfl, fun _ => rfl⟩
  generalize (db3.updateJob bulk fun job =>
    { job with rootLsn := min job.rootLsn (receipt.rootLsn db.nextLsn) }) = db4 at rooted ⊢
  have isAll : (FlowNode.thread pendingAllThreads).IsAll := rfl
  obtain ⟨marked, isMarked⟩ :=
    adds_markAll closure bulk gone isAll (receipt.rootLsn db.nextLsn) db4
  generalize (markPending bulk (.thread pendingAllThreads) (receipt.rootLsn db.nextLsn) db4).getD
    db4 = db5 at marked isMarked ⊢
  have windowed : Adds closure bulk gone db5
      (insertPending bulk (.scope pendingAllScopes) (receipt.rootLsn db.nextLsn) db5) :=
    adds_insertPending closure gone fun isNamed => absurd rfl isNamed
  have isWindow : Held (insertPending bulk (.scope pendingAllScopes) (receipt.rootLsn db.nextLsn)
      db5) bulk (.scope pendingAllScopes) (receipt.rootLsn db.nextLsn) :=
    ⟨_, Int.le_refl _, mem_window_self bulk _ _ db5⟩
  generalize insertPending bulk (.scope pendingAllScopes) (receipt.rootLsn db.nextLsn) db5 =
    db6 at windowed isWindow ⊢
  have seeded : Adds closure bulk gone db6 (receipt.thread.elim db6 fun thread =>
      seedFlow bulk (.thread thread) (receipt.rootLsn db.nextLsn) db6) ∧
      ∀ thread, receipt.thread = some thread → Held (receipt.thread.elim db6 fun thread =>
        seedFlow bulk (.thread thread) (receipt.rootLsn db.nextLsn) db6) bulk (.thread thread)
          (receipt.rootLsn db.nextLsn) := by
    cases receipt.thread with
    | none => exact ⟨Adds.refl closure bulk gone db6, fun _ isThread => by cases isThread⟩
    | some thread =>
      refine ⟨adds_seedFlow closure bulk gone _ _ db6, fun found isThread => ?_⟩
      obtain rfl := Option.some.inj isThread
      exact held_seedFlow bulk _ _ db6
  obtain ⟨seeds, isSeeded⟩ := seeded
  generalize (receipt.thread.elim db6 fun thread =>
    seedFlow bulk (.thread thread) (receipt.rootLsn db.nextLsn) db6) = db7 at seeds isSeeded ⊢
  have bumped := adds_bump closure bulk gone db7
  have fromNode := carried.trans (rooted.trans (marked.trans (windowed.trans (seeds.trans bumped))))
  have fromWindow := windowed.trans (seeds.trans bumped)
  refine ⟨taken.trans (enqueued.trans fromNode), ?_,
    Int.lt_of_lt_of_le isLater (enqueued.trans fromNode).nextLsn⟩
  exact
    { node := by
        obtain ⟨fresh, isFresh, isIn⟩ := isNode
        exact ⟨fresh, isFresh, fromNode.frontier _ isIn⟩
      window := isMarked.adds fromWindow
      windowScope := isWindow.adds (seeds.trans bumped)
      thread := fun thread isThread => (isSeeded thread isThread).adds bumped
      carries := List.Subset.trans isCarried
        (rooted.trans (marked.trans fromWindow)).carries }

/-! ## Steps -/

theorem adds_copyPendings (closure : Bool) (bulk : Nat) (gone : List Nat) (ofScopes : Bool)
    (rows : List ((String ×ₗ Int) × Unit)) (db : Db) :
    Adds closure bulk gone db (rows.foldl (copyPending bulk ofScopes) db) :=
  Adds.foldl (adds_copyPending closure bulk gone ofScopes) rows db

theorem adds_deleteRows (closure : Bool) (notBulk : id ≠ bulk) (isGone : id ∈ gone)
    (rows : ∀ other, other ≠ id → SameRows other db db') (jobs : db'.jobs = db.jobs)
    (audience : db'.audience = db.audience) (carries : db'.carries = db.carries)
    (receipts : db'.receipts = db.receipts) (nextLsn : db'.nextLsn = db.nextLsn) :
    Adds closure bulk gone db db' where
  others other _ notGone := rows other fun isId => notGone (isId ▸ isGone)
  pending row isIn := (rows bulk (Ne.symm notBulk)).pending ▸ isIn
  pendingScope row isIn := (rows bulk (Ne.symm notBulk)).pendingScope ▸ isIn
  frontier row isIn := (rows bulk (Ne.symm notBulk)).frontier ▸ isIn
  reached row isIn := (rows bulk (Ne.symm notBulk)).reached ▸ isIn
  jobs := jobs ▸ sameJobs closure bulk gone db.jobs
  audience := audience
  carries := carries ▸ List.Subset.refl _
  receipts := receipts
  nextLsn := nextLsn ▸ Int.le_refl _
  queues queues node since isNamed isIn := by
    rw [(rows bulk (Ne.symm notBulk)).window] at isIn
    rw [(rows bulk (Ne.symm notBulk)).frontier]
    exact queues node since isNamed isIn

theorem adds_deleteFrom (closure : Bool) (notBulk : id ≠ bulk) (isGone : id ∈ gone)
    (deleted : Nat × Db) (table : MemberTable) :
    Adds closure bulk gone deleted.2 (deleteFrom n id deleted table).2 := by
  rw [deleteFrom]
  split_ifs
  · cases table <;>
    · refine adds_deleteRows closure notBulk isGone (fun other isOther => ?_) rfl rfl rfl rfl rfl
      constructor <;> first | rfl | exact Function.update_of_ne isOther _ _
  · exact Adds.refl closure bulk gone _

theorem adds_deleteMember (closure : Bool) (notBulk : id ≠ bulk) (isGone : id ∈ gone)
    (deleted : Nat × Db) : Adds closure bulk gone deleted.2 (deleteMember n deleted id).2 := by
  have along (tables : List MemberTable) (deleted : Nat × Db) :
      Adds closure bulk gone deleted.2 (tables.foldl (deleteFrom n id) deleted).2 := by
    induction tables generalizing deleted with
    | nil => exact Adds.refl closure bulk gone _
    | cons table rest ih =>
      exact (adds_deleteFrom closure notBulk isGone deleted table).trans (ih _)
  exact along memberTables deleted

theorem adds_clearMember (closure : Bool) (notBulk : id ≠ bulk) (isGone : id ∈ gone) (db : Db) :
    Adds closure bulk gone db (clearMember db id) := by
  refine adds_deleteRows closure notBulk isGone (fun other isOther => ?_) rfl rfl rfl rfl rfl
  constructor <;> exact Function.update_of_ne isOther _ _

theorem adds_retire (closure : Bool) (bulk : Nat) (isGone : id ∈ gone) (db : Db) :
    Adds closure bulk gone db (retire id db) := by
  refine Adds.of_same (fun _ => ⟨rfl, rfl, rfl, rfl⟩) ⟨_, rfl, fun job => ?_⟩ rfl
    (List.Subset.refl _) rfl (Int.le_refl _)
  by_cases isId : job.id = id
  · rw [if_pos isId]
    by_cases isActive : job.state = .active
    · simp only [if_pos isActive]
      exact
        { id := rfl
          other := fun _ notGone => absurd (isId ▸ isGone) notGone
          kind := rfl
          state := Or.inr ⟨rfl, isId ▸ isGone⟩
          cause := rfl
          cohort := rfl
          narrow := rfl
          closureIds := fun _ => rfl }
    · simp only [if_neg isActive]
      exact Changed.refl closure bulk gone job
  · rw [if_neg isId]
    exact Changed.refl closure bulk gone job

/-- What a step did to the tables, the last one apart. -/
def StepAdds (closure : Bool) (bulk : Nat) (ids : List Nat) (db : Db) : Stepped → Prop
  | .next _ db' => Adds closure bulk ids db db'
  | .blocked => True
  | .active db' => ∃ swept, Adds closure bulk ids db swept ∧ db' = closeFold bulk ids swept

theorem frontierStep_adds {stepped : Stepped}
    (isStep : frontierStep closure bulk id n c db = .ok stepped) :
    StepAdds closure bulk ids db stepped := by
  rw [frontierStep, copyFrontier_eq] at isStep
  cases isCopied : ((db.frontier id).page (c.after.getD firstLsn) n).foldlM (copyRow bulk) db with
  | error text =>
    rw [isCopied] at isStep
    cases isStep
  | ok next =>
    rw [isCopied] at isStep
    obtain rfl := Except.ok.inj isStep
    exact adds_copyRows closure ids isCopied

theorem rootStep_adds {fits : Bool} {stepped : Stepped}
    (isStep : rootStep bulk id fits c db = .ok stepped) :
    StepAdds closure bulk ids db stepped := by
  rw [rootStep] at isStep
  cases isReceipt : db.receiptRoot id with
  | none =>
    simp only [isReceipt] at isStep
    obtain rfl := Except.ok.inj isStep
    exact Adds.refl closure bulk ids db
  | some bundleId =>
    simp only [isReceipt] at isStep
    split_ifs at isStep
    · cases isCommitted : commitRevoke bulk bundleId db with
      | error text =>
        rw [isCommitted] at isStep
        cases isStep
      | ok next =>
        rw [isCommitted] at isStep
        obtain rfl := Except.ok.inj isStep
        exact (adds_commitRevoke closure ids isCommitted).1
    · obtain rfl := Except.ok.inj isStep
      trivial

/-- **Every step only adds to the bulk**, and takes only from the members. -/
theorem foldStep_adds (isOther : ∀ id ∈ ids, id ≠ bulk) {turn : Turn} {stepped : Stepped}
    (isStep : foldStep closure bulk ids turn c db = .ok stepped) :
    StepAdds closure bulk ids db stepped := by
  rw [foldStep] at isStep
  by_cases isEnrol : c.stage = .enrol
  · rw [if_pos isEnrol] at isStep
    obtain rfl := Except.ok.inj isStep
    exact Adds.foldl (adds_enrol closure bulk ids) _ db
  · rw [if_neg isEnrol] at isStep
    cases isId : ids[c.job]? with
    | none =>
      rw [isId] at isStep
      obtain rfl := Except.ok.inj isStep
      exact Adds.refl closure bulk ids db
    | some id =>
      rw [isId] at isStep
      have isIn : id ∈ ids := List.mem_of_getElem? isId
      have notBulk := isOther id isIn
      cases isStage : c.stage with
      | enrol => exact absurd isStage isEnrol
      | root =>
        simp only [isStage] at isStep
        exact rootStep_adds isStep
      | frontier =>
        cases isPk : c.pk with
        | none =>
          simp only [isStage, isPk] at isStep
          exact frontierStep_adds isStep
        | some pk =>
          obtain ⟨ofScopes, key, since⟩ := pk
          simp only [isStage, isPk] at isStep
          cases closure with
          | false => exact frontierStep_adds isStep
          | true =>
            obtain rfl := Except.ok.inj isStep
            have copied := adds_copyPendings true bulk ids ofScopes
              ((db.pendingOf ofScopes id).page (toLex (key, since)) turn.page) db
            rw [pendingStep]
            split_ifs
            · exact copied.trans (adds_noteClosure bulk c.job ids _)
            · exact copied
            · exact copied
      | holds =>
        simp only [isStage] at isStep
        obtain rfl := Except.ok.inj isStep
        have copied := Adds.foldl (adds_copyHold closure bulk ids)
          ((db.holds id).page (c.key.getD "") turn.page) db
        rw [holdsStep]
        split_ifs
        · exact copied.trans ((adds_retire closure bulk isIn _).trans
            (adds_bump closure bulk ids _))
        · exact copied
      | clean =>
        simp only [isStage] at isStep
        obtain rfl := Except.ok.inj isStep
        have deleted : Adds closure bulk ids db (deleteMember turn.page (0, db) id).2 :=
          adds_deleteMember closure notBulk isIn (0, db)
        rw [cleanStep]
        split_ifs
        · exact deleted.trans (adds_bump closure bulk ids _)
        · exact deleted
      | sweep =>
        simp only [isStage] at isStep
        obtain rfl := Except.ok.inj isStep
        have swept : Adds closure bulk ids db (ids.foldl (deleteMember turn.page) (0, db)).2 := by
          have along (members : List Nat) (isPart : members ⊆ ids) (deleted : Nat × Db) :
              Adds closure bulk ids deleted.2
                (members.foldl (deleteMember turn.page) deleted).2 := by
            induction members generalizing deleted with
            | nil => exact Adds.refl closure bulk ids _
            | cons id rest ih =>
              obtain ⟨isHead, isRest⟩ := List.cons_subset.mp isPart
              exact (adds_deleteMember closure (isOther id isHead) isHead deleted).trans
                (ih isRest _)
          exact along ids (List.Subset.refl ids) (0, db)
        rw [sweepStep]
        split_ifs
        · exact swept
        · exact ⟨_, swept, rfl⟩

end Murage.RevokeFold
