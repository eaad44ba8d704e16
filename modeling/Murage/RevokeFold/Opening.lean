import Murage.RevokeFold.Coverage

/-!
Owns what the tables are when a fold opens, and the turns of all its members together, up to
the moment the bulk is active.

Does not own: runs of slices.
-/

namespace Murage.RevokeFold

open Murage.Library

variable {closure : Bool} {bulk id index : Nat} {ids gone : List Nat} {before db db' : Db}
  {cohort : FoldCohort} {members : List Job}

/-! ## The opening -/

structure Windows (db : Db) (bulk : Nat) (since : Int) : Prop where
  threads : Held db bulk (.thread pendingAllThreads) since
  scopes : Held db bulk (.scope pendingAllScopes) since

theorem Windows.adds {since : Int} (windows : Windows db bulk since)
    (adds : Adds closure bulk gone db db') : Windows db' bulk since :=
  ⟨windows.threads.adds adds, windows.scopes.adds adds⟩

structure Opened (cohort : FoldCohort) (members : List Job) (bulk : Nat) (before opened : Db) :
    Prop where
  isNew : ∀ job ∈ before.jobs, job.id < bulk
  jobs : ∃ job : Job, opened.jobs = before.jobs ++ [job] ∧ job.id = bulk ∧ job.kind = .bulk ∧
    job.state = .seeding ∧ job.root = some { cause := some foldCause, cohort := some cohort }
  others : ∀ id ≠ bulk, SameRows id before opened
  audience : bulk ∈ opened.audience
  receipts : opened.receipts = before.receipts
  nextLsn : before.nextLsn ≤ opened.nextLsn
  windows : Windows opened bulk (rootLsnOf members)
  queues : Queues bulk opened

theorem lt_newRevoke {job : Job} (isIn : job ∈ db.jobs) : job.id < db.newRevoke := by
  have isBelow (jobs : List Job) (isIn : job ∈ jobs) :
      job.id ≤ jobs.foldr (fun job top => max job.id top) 0 := by
    induction jobs with
    | nil => cases isIn
    | cons held rest ih =>
      rcases List.mem_cons.mp isIn with rfl | isIn
      · exact le_max_left _ _
      · exact le_trans (ih isIn) (le_max_right _ _)
  exact Nat.lt_succ_of_le (isBelow db.jobs isIn)

theorem updateJob_append (change : Job → Job) {job : Job} (isJobs : db.jobs = before.jobs ++ [job])
    (isNew : ∀ held ∈ before.jobs, held.id < job.id) :
    (db.updateJob job.id change).jobs = before.jobs ++ [change job] := by
  have kept : before.jobs.map (fun held => if held.id = job.id then change held else held) =
      before.jobs := by
    rw [List.map_congr_left fun held isIn => if_neg (Nat.ne_of_lt (isNew held isIn)),
      List.map_id']
  show db.jobs.map _ = _
  rw [isJobs, List.map_append, kept, List.map_singleton, if_pos rfl]

/-- **The opening of a fold.** -/
theorem openFold_opened (grounded : before.Grounded) :
    (openFold cohort members before).1 = before.newRevoke ∧
      (openFold cohort members before).2.cursor = .fold { stage := .enrol, job := 0 } ∧
      Opened cohort members before.newRevoke before (openFold cohort members before).2.db := by
  have isNew : ∀ job ∈ before.jobs, job.id < before.newRevoke := fun _ isIn =>
    lt_newRevoke isIn
  refine ⟨rfl, rfl, ?_⟩
  let change (job : Job) : Job :=
    { job with
      root := some { cause := some foldCause, cohort := some cohort }
      rootLsn := rootLsnOf members
      startedLsn := cohort.hi }
  have isOpened : (openFold cohort members before).2.db = bumpDenyGeneration (insertPending
      before.newRevoke (.scope pendingAllScopes) (rootLsnOf members)
      ((markPending before.newRevoke (.thread pendingAllThreads) (rootLsnOf members)
        ((openBulkRevoke foldCause before).2.updateJob before.newRevoke change)).getD
        ((openBulkRevoke foldCause before).2.updateJob before.newRevoke change))) := rfl
  rw [isOpened]
  let job : Job :=
    { id := before.newRevoke
      kind := .bulk
      root := some { cause := some foldCause }
      rootLsn := before.nextLsn
      startedLsn := before.nextLsn
      phase := .flow
      state := .seeding }
  have isAppended : (openBulkRevoke foldCause before).2.jobs = before.jobs ++ [job] := rfl
  have isJobs : ∃ job : Job, ((openBulkRevoke foldCause before).2.updateJob before.newRevoke
      change).jobs = before.jobs ++ [job] ∧ job.id = before.newRevoke ∧ job.kind = .bulk ∧
      job.state = .seeding ∧ job.root = some { cause := some foldCause, cohort := some cohort } :=
    ⟨_, updateJob_append change isAppended isNew, rfl, rfl, rfl, rfl⟩
  have isGrounded := grounded.fresh before.newRevoke isNew
  have others (id : Nat) : SameRows id before ((openBulkRevoke foldCause before).2.updateJob
      before.newRevoke change) := ⟨rfl, rfl, rfl, rfl⟩
  have audience : before.newRevoke ∈ ((openBulkRevoke foldCause before).2.updateJob
      before.newRevoke change).audience :=
    List.mem_append_right _ (List.mem_singleton_self _)
  have receipts : ((openBulkRevoke foldCause before).2.updateJob before.newRevoke
      change).receipts = before.receipts := rfl
  have nextLsn : before.nextLsn ≤ ((openBulkRevoke foldCause before).2.updateJob
      before.newRevoke change).nextLsn := Int.le_add_one (Int.le_refl _)
  generalize ((openBulkRevoke foldCause before).2.updateJob before.newRevoke change) = db1 at *
  have queues : Queues before.newRevoke db1 := by
    intro node since _ isIn
    have isEmpty : db1.window before.newRevoke node = ∅ := by
      rw [(others _).window]
      cases node with
      | thread key => exact isGrounded.1
      | scope key => exact isGrounded.2.1
    rw [isEmpty] at isIn
    cases isIn
  have isAll : (FlowNode.thread pendingAllThreads).IsAll := rfl
  obtain ⟨marked, isThreads⟩ := adds_markAll true before.newRevoke [] isAll (rootLsnOf members) db1
  have isMarked : ((markPending before.newRevoke (.thread pendingAllThreads) (rootLsnOf members)
      db1).getD db1).jobs = db1.jobs := by
    rcases markPending_cases before.newRevoke (.thread pendingAllThreads) (rootLsnOf members) db1
      with ⟨isNone, _⟩ | isSome
    · rw [isNone]
      rfl
    · rw [isSome]
      rfl
  generalize (markPending before.newRevoke (.thread pendingAllThreads) (rootLsnOf members)
    db1).getD db1 = db2 at marked isThreads isMarked ⊢
  have inserted : Adds true before.newRevoke [] db2 (insertPending before.newRevoke
      (.scope pendingAllScopes) (rootLsnOf members) db2) :=
    adds_insertPending true [] fun isNamed => absurd rfl isNamed
  have isScopes : Held (insertPending before.newRevoke (.scope pendingAllScopes)
      (rootLsnOf members) db2) before.newRevoke (.scope pendingAllScopes) (rootLsnOf members) :=
    ⟨_, Int.le_refl _, mem_window_self before.newRevoke _ _ db2⟩
  have bumped := adds_bump true before.newRevoke [] (insertPending before.newRevoke
    (.scope pendingAllScopes) (rootLsnOf members) db2)
  have adds := marked.trans (inserted.trans bumped)
  exact
    { isNew := isNew
      jobs := by
        obtain ⟨job, isJobs, isBulk⟩ := isJobs
        exact ⟨job, isMarked.trans isJobs, isBulk⟩
      others := fun id isOther => (others id).trans (adds.others id isOther List.not_mem_nil)
      audience := adds.audience ▸ audience
      receipts := adds.receipts.trans receipts
      nextLsn := Int.le_trans nextLsn adds.nextLsn
      windows := ⟨isThreads.adds (inserted.trans bumped), isScopes.adds bumped⟩
      queues := adds.queues queues }

/-! ## All the members -/

/-- **The turns of all the members**: each retires, and the bulk has all that it had. -/
theorem foldMembers_covers (isOther : ∀ id ∈ ids, id ≠ bulk) (isNodup : ids.Nodup)
    (readable : ∀ id ∈ ids, Readable db id)
    (isDone : foldMembers closure bulk ids index db = .ok db') :
    Adds closure bulk ids db db' ∧
      ∀ id ∈ ids, Retired db' id ∧ Covered closure bulk id db db' := by
  induction ids generalizing db index with
  | nil =>
    obtain rfl := Except.ok.inj isDone
    exact ⟨Adds.refl closure bulk [] db, fun id isIn => by cases isIn⟩
  | cons head rest ih =>
    obtain ⟨notRest, isNodup⟩ := List.nodup_cons.mp isNodup
    rw [foldMembers] at isDone
    cases isFirst : foldMember closure bulk index head db with
    | error text =>
      rw [isFirst] at isDone
      cases isDone
    | ok next =>
      rw [isFirst] at isDone
      have notBulk := isOther head List.mem_cons_self
      obtain ⟨first, retired, covered⟩ :=
        foldMember_covers notBulk (readable head List.mem_cons_self) isFirst
      have untouched (id : Nat) (isIn : id ∈ rest) : id ∉ [head] := fun isHead =>
        notRest (List.mem_singleton.mp isHead ▸ isIn)
      have same (id : Nat) (isIn : id ∈ rest) : SameRows id db next :=
        first.others id (isOther id (List.mem_cons_of_mem _ isIn)) (untouched id isIn)
      obtain ⟨others, kept⟩ := ih
        (fun id isIn => isOther id (List.mem_cons_of_mem _ isIn)) isNodup
        (fun id isIn => (readable id (List.mem_cons_of_mem _ isIn)).same (same id isIn))
        isDone
      refine ⟨(first.mono ?_).trans (others.mono (List.subset_cons_self _ _)), ?_⟩
      · exact List.cons_subset.mpr ⟨List.mem_cons_self, List.nil_subset _⟩
      · intro id isIn
        rcases List.mem_cons.mp isIn with rfl | isIn
        · exact ⟨retired.adds others, covered.adds others⟩
        · obtain ⟨isRetired, isCovered⟩ := kept id isIn
          have notBulk := isOther id (List.mem_cons_of_mem _ isIn)
          exact ⟨isRetired, isCovered.of_same (same id isIn) first.receipts
            (first.receiptRoot notBulk (untouched id isIn)) first.nextLsn⟩

theorem adds_clearAll (closure : Bool) (isOther : ∀ id ∈ ids, id ≠ bulk) (db : Db) :
    Adds closure bulk ids db (clearAll ids db) := by
  have same (id : Nat) (notMember : id ∉ ids) : SameRows id db (clearAll ids db) :=
    ⟨if_neg notMember, if_neg notMember, if_neg notMember, if_neg notMember⟩
  have ofBulk := same bulk fun isIn => isOther bulk isIn rfl
  exact
    { others := fun id _ notMember => same id notMember
      pending := fun row isIn => ofBulk.pending ▸ isIn
      pendingScope := fun row isIn => ofBulk.pendingScope ▸ isIn
      frontier := fun row isIn => ofBulk.frontier ▸ isIn
      reached := fun row isIn => ofBulk.reached ▸ isIn
      jobs := sameJobs closure bulk ids db.jobs
      audience := rfl
      carries := List.Subset.refl _
      receipts := rfl
      nextLsn := Int.le_refl _
      queues := fun queues node since isNamed isIn => by
        rw [ofBulk.window] at isIn
        rw [ofBulk.frontier]
        exact queues node since isNamed isIn }

/-! ## The end -/

theorem job_updateJob (change : Job → Job) (keepsId : ∀ job, (change job).id = job.id) :
    (db.updateJob id change).job id = (db.job id).map change := by
  have isSame : (fun job => decide (job.id = id)) ∘ (fun job : Job =>
      if job.id = id then change job else job) = fun job => decide (job.id = id) := by
    funext job
    show decide ((if job.id = id then change job else job).id = id) = decide (job.id = id)
    split_ifs with isId
    · rw [keepsId]
    · rfl
  show (db.jobs.map _).find? _ = _
  rw [List.find?_map, isSame, Db.job]
  cases isJob : db.jobs.find? (fun job => job.id = id) with
  | none => rfl
  | some job => exact congrArg some (if_pos (by simpa using List.find?_some isJob))

/-- What the end of the sweep makes of a job. -/
def closeJob (bulk : Nat) (ids : List Nat) (lsn : Int) (job : Job) : Job :=
  if job.id = bulk then
    { job with
      root := job.root.map (Root.certify ids)
      startedLsn := lsn
      state := .active }
  else job

theorem closeFold_eq (ids : List Nat) {job : Job} (isJob : db.job bulk = some job)
    (isSeeding : job.state = .seeding) :
    closeFold bulk ids db =
      { db with
        nextLsn := db.nextLsn + 1
        denyGeneration := db.denyGeneration + 1
        jobs := db.jobs.map (closeJob bulk ids db.nextLsn) } := by
  let certify (job : Job) : Job := { job with root := job.root.map (Root.certify ids) }
  have isCertified : (db.updateJob bulk certify).job bulk = some (certify job) := by
    rw [job_updateJob certify fun _ => rfl, isJob]
    rfl
  have isOpen : ((db.updateJob bulk certify).job bulk).any (·.state = .seeding) = true := by
    rw [isCertified]
    exact decide_eq_true isSeeding
  have isClosed : closeFold bulk ids db = activateBulkRevoke bulk (db.updateJob bulk certify) :=
    rfl
  rw [isClosed, activateBulkRevoke, if_pos isOpen]
  have isMapped : (db.jobs.map fun job => if job.id = bulk then certify job else job).map
      (fun job => if job.id = bulk then { job with state := .active, startedLsn := db.nextLsn }
        else job) = db.jobs.map (closeJob bulk ids db.nextLsn) := by
    rw [List.map_map]
    refine List.map_congr_left fun job _ => ?_
    rw [closeJob]
    by_cases isBulk : job.id = bulk
    · have isCertifiedBulk : (certify job).id = bulk := isBulk
      rw [Function.comp, if_pos isBulk, if_pos isBulk, if_pos isCertifiedBulk]
    · rw [Function.comp, if_neg isBulk, if_neg isBulk, if_neg isBulk]
  simp only [bumpDenyGeneration, takeCommitLsn, Db.updateJob] at isMapped ⊢
  rw [isMapped]

/-- The bulk has every pending row of a member, at its own position or earlier, and the flow
queue has those that name a thread or a scope. -/
def PendingCopied (bulk id : Nat) (start final : Db) : Prop :=
  ∀ ofScopes key since, (toLex (key, since), ()) ∈ start.pendingOf ofScopes id →
    Held final bulk (rowNode ofScopes key) since ∧
      (key ≠ "*" → Queued final bulk (rowNode ofScopes key) since)

/-- What the fold has done once the bulk is active. `start`: the tables before the fold. -/
structure FoldDone (closure : Bool) (bulk : Nat) (ids : List Nat) (start final : Db) : Prop where
  noRows : ∀ id ∈ ids, final.pending id = ∅ ∧ final.pendingScope id = ∅ ∧
    final.frontier id = ∅ ∧ final.reached id = ∅
  folded : ∀ job ∈ start.jobs, job.id ∈ ids → job.state = .active →
    ∃ done ∈ final.jobs, done.id = job.id ∧ done.state = .folded
  covered : ∀ id ∈ ids, Covered closure bulk id start final
  flows : ∀ id ∈ ids, ∀ seq < 0, ∀ node since, ¬node.IsAll →
    (seq, NodeText.flow node since) ∈ start.frontier id → Queued final bulk node since
  pendings : closure = true → ∀ id ∈ ids, PendingCopied bulk id start final
  narrow : ∀ job ∈ final.jobs, job.id = bulk → job.root.any (·.narrow) = true →
    ∀ id ∈ ids, PendingCopied bulk id start final

theorem Covered.close {start : Db} {lsn : Int} {generation : Nat} {jobs : List Job}
    (covered : Covered closure bulk id start db) (isLater : db.nextLsn ≤ lsn) :
    Covered closure bulk id start
      { db with nextLsn := lsn, denyGeneration := generation, jobs := jobs } where
  flows := covered.flows
  marks := covered.marks
  pendings := covered.pendings
  holds := covered.holds
  root bundleId isRoot := by
    obtain ⟨now, isAfter, isBefore, committed⟩ := covered.root bundleId isRoot
    exact ⟨now, isAfter, Int.lt_of_lt_of_le isBefore isLater,
      ⟨committed.node, committed.window, committed.windowScope, committed.thread,
        committed.carries⟩⟩

theorem Opened.bulkJob {opened : Db} (isOpened : Opened cohort members bulk before opened)
    (isOther : ∀ id ∈ ids, id ≠ bulk) (adds : Adds closure bulk ids opened db) {job : Job}
    (isIn : job ∈ db.jobs) (isBulk : job.id = bulk) :
    job.state = .seeding ∧ job.kind = .bulk ∧ job.root.map (·.cause) = some (some foldCause) ∧
      job.root.bind (·.cohort) = some cohort ∧ job.root.map (·.narrow) = some false ∧
      (closure = false → job.root.map (·.closureIds) = some none) := by
  obtain ⟨change, isMap, changed⟩ := adds.jobs
  obtain ⟨opening, isJobs, isNew, isKind, isState, isRoot⟩ := isOpened.jobs
  rw [isMap] at isIn
  obtain ⟨held, isHeld, rfl⟩ := List.mem_map.mp isIn
  have isSame : held = opening := by
    rw [isJobs] at isHeld
    rcases List.mem_append.mp isHeld with isOld | isLast
    · have isBelow := isOpened.isNew held isOld
      rw [← (changed held).id, isBulk] at isBelow
      exact absurd isBelow (Nat.lt_irrefl bulk)
    · exact List.mem_singleton.mp isLast
  subst isSame
  have facts := changed held
  refine ⟨?_, facts.kind.trans isKind, ?_, ?_, ?_, fun isOff => ?_⟩
  · rcases facts.state with isSame | ⟨_, isGone⟩
    · exact isSame.trans isState
    · exact absurd isNew (isOther _ isGone)
  · rw [facts.cause, isRoot]
    rfl
  · rw [facts.cohort, isRoot]
    rfl
  · rw [facts.narrow, isRoot]
    rfl
  · rw [facts.closureIds isOff, isRoot]
    rfl

theorem Opened.job {opened : Db} (isOpened : Opened cohort members bulk before opened)
    (adds : Adds closure bulk ids opened db) : ∃ job, db.job bulk = some job := by
  obtain ⟨change, isMap, changed⟩ := adds.jobs
  obtain ⟨opening, isJobs, isNew, _⟩ := isOpened.jobs
  have isIn : change opening ∈ db.jobs := by
    rw [isMap, isJobs]
    exact List.mem_map_of_mem (List.mem_append_right _ (List.mem_singleton_self opening))
  have isFound : (db.jobs.find? fun job => job.id = bulk).isSome = true :=
    List.find?_isSome.mpr ⟨_, isIn, decide_eq_true ((changed opening).id.trans isNew)⟩
  exact Option.isSome_iff_exists.mp isFound

end Murage.RevokeFold
