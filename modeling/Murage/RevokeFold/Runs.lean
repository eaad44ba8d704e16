import Murage.Library.Transition
import Murage.RevokeFold.Opening

/-!
Owns runs of slices of an open fold: what is so after every slice, what the fold has done once
its bulk is active, and that it does not matter how the work was cut.

Does not own: the slices of the revokes that wait meanwhile.
-/

namespace Murage.RevokeFold

open Murage.Library Murage.Library.Transition

variable {closure : Bool} {bulk id : Nat} {ids : List Nat} {before opened final : Db}
  {cohort : FoldCohort} {phases : List JobPhase} {s s' : Store}

/-! ## The cohort -/

def membersOf (db : Db) (phases : List JobPhase) (cohort : FoldCohort) : List Job :=
  (foldCandidates db phases).filter fun job => cohort.ids.contains job.id

structure IsCohort (db : Db) (phases : List JobPhase) (cohort : FoldCohort) : Prop where
  isPart : cohort.ids.Sublist ((foldCandidates db phases).map (·.id))
  isTwo : 2 ≤ cohort.ids.length

variable {job : Job}

theorem IsCohort.candidate (isCohort : IsCohort before phases cohort) (grounded : before.Grounded)
    (isIn : job ∈ before.jobs) (isMember : job.id ∈ cohort.ids) :
    job ∈ foldCandidates before phases := by
  obtain ⟨candidate, isCandidate, sameId⟩ :=
    List.mem_map.mp (isCohort.isPart.subset isMember)
  have isHeld : candidate ∈ before.jobs := List.mem_of_mem_filter isCandidate
  have isSame : candidate = job :=
    List.inj_on_of_nodup_map grounded.keys isHeld isIn sameId
  exact isSame ▸ isCandidate

theorem IsCohort.exists_job (isCohort : IsCohort before phases cohort)
    (isIn : id ∈ cohort.ids) : ∃ job ∈ before.jobs, job.id = id := by
  obtain ⟨job, isCandidate, isId⟩ := List.mem_map.mp (isCohort.isPart.subset isIn)
  exact ⟨job, List.mem_of_mem_filter isCandidate, isId⟩

theorem IsCohort.nodup (isCohort : IsCohort before phases cohort) (grounded : before.Grounded) :
    cohort.ids.Nodup :=
  (grounded.keys.sublist (List.filter_sublist.map _)).sublist isCohort.isPart

theorem IsCohort.notNew (isCohort : IsCohort before phases cohort) :
    ∀ id ∈ cohort.ids, id ≠ before.newRevoke := by
  intro id isIn isNew
  obtain ⟨job, isHeld, rfl⟩ := isCohort.exists_job isIn
  exact Nat.lt_irrefl _ (isNew ▸ lt_newRevoke isHeld)

variable {members : List Job}

theorem rootLsnOf_le (isIn : job ∈ members) :
    rootLsnOf members ≤ job.rootLsn := by
  have isMember : job.rootLsn ∈ members.map (·.rootLsn) := List.mem_map_of_mem isIn
  rw [rootLsnOf]
  cases isLeast : (members.map (·.rootLsn)).min? with
  | none =>
    rw [List.min?_eq_none_iff.mp isLeast] at isMember
    cases isMember
  | some least => exact (List.min?_eq_some_iff.mp isLeast).2 _ isMember

theorem IsCohort.rootLsnOf_le (isCohort : IsCohort before phases cohort)
    (grounded : before.Grounded) (isIn : job ∈ before.jobs) (isMember : job.id ∈ cohort.ids) :
    rootLsnOf (membersOf before phases cohort) ≤ job.rootLsn :=
  RevokeFold.rootLsnOf_le (List.mem_filter.mpr
    ⟨isCohort.candidate grounded isIn isMember, List.contains_iff_mem.mpr isMember⟩)

/-! ## The whole fold -/

theorem Opened.receiptRoot (isOpened : Opened cohort members bulk before opened)
    (notBulk : id ≠ bulk) :
    opened.receiptRoot id = before.receiptRoot id := by
  obtain ⟨job, isJobs, isNew, _⟩ := isOpened.jobs
  have isFound : opened.job id = before.job id := by
    rw [Db.job, isJobs, List.find?_append, Db.job]
    have notFound : [job].find? (fun job => job.id = id) = none :=
      List.find?_eq_none.mpr fun found isIn => by
        rw [List.mem_singleton.mp isIn, isNew]
        simpa using Ne.symm notBulk
    rw [notFound, Option.or_none]
  rw [Db.receiptRoot, isFound, Db.receiptRoot]

theorem certified_closureIds {root : Root} (isSome : 0 < ids.length)
    (isCertified : certified ids root = true) : root.closureIds ≠ none := by
  intro isNone
  have isFirst := List.all_eq_true.mp isCertified 0 (List.mem_range.mpr isSome)
  rw [isNone] at isFirst
  cases isFirst

/-- The tables at the end of the sweep, and those with the bulk active. -/
structure Closed (closure : Bool) (bulk : Nat) (ids : List Nat) (swept final : Db) : Prop where
  isFinal : ∃ generation, final =
    { swept with
      nextLsn := swept.nextLsn + 1
      denyGeneration := generation
      jobs := swept.jobs.map (closeJob bulk ids swept.nextLsn) }
  narrow : ∀ job ∈ final.jobs, job.id = bulk → job.root.any (·.narrow) = true → closure = true

theorem closeJob_id (bulk : Nat) (ids : List Nat) (lsn : Int) (job : Job) :
    (closeJob bulk ids lsn job).id = job.id := by
  rw [closeJob]
  split_ifs <;> rfl

theorem closeJob_other (isOther : job.id ≠ bulk) (ids : List Nat) (lsn : Int) :
    closeJob bulk ids lsn job = job :=
  if_neg isOther

theorem Opened.close {swept : Db} (isOpened : Opened cohort members bulk before opened)
    (isOther : ∀ id ∈ ids, id ≠ bulk) (isTwo : 2 ≤ ids.length)
    (adds : Adds closure bulk ids opened swept) :
    Closed closure bulk ids swept (closeFold bulk ids swept) := by
  obtain ⟨job, isJob⟩ := isOpened.job adds
  have isHeld : job ∈ swept.jobs := List.mem_of_find?_eq_some isJob
  have isBulk : job.id = bulk := by simpa using List.find?_some isJob
  obtain ⟨isSeeding, _⟩ := isOpened.bulkJob isOther adds isHeld isBulk
  have isFinal := closeFold_eq ids isJob isSeeding
  refine ⟨⟨_, isFinal⟩, fun closed isIn isId isNarrow => ?_⟩
  rw [isFinal] at isIn
  obtain ⟨held, isHeld, rfl⟩ := List.mem_map.mp isIn
  rw [closeJob_id] at isId
  obtain ⟨_, _, _, _, notNarrow, closureIds⟩ := isOpened.bulkJob isOther adds isHeld isId
  rw [closeJob, if_pos isId] at isNarrow
  cases isRoot : held.root with
  | none =>
    rw [isRoot] at notNarrow
    cases notNarrow
  | some root =>
    rw [isRoot] at notNarrow isNarrow closureIds
    have isFalse : root.narrow = false := Option.some.inj notNarrow
    have isCertify : (root.certify ids).narrow = true := isNarrow
    rw [Root.certify] at isCertify
    split_ifs at isCertify with isCertified
    · cases closure with
      | true => rfl
      | false =>
        exact absurd (Option.some.inj (closureIds rfl))
          (certified_closureIds (Nat.lt_of_lt_of_le Nat.two_pos isTwo) isCertified)
    · rw [isFalse] at isCertify
      cases isCertify

theorem Held.le {db : Db} {node : FlowNode} {since later : Int} (held : Held db bulk node since)
    (isBefore : since ≤ later) : Held db bulk node later := by
  obtain ⟨lsn, isLess, isIn⟩ := held
  exact ⟨lsn, Int.le_trans isLess isBefore, isIn⟩

theorem pendingCopied {db : Db} (grounded : before.Grounded)
    (isCohort : IsCohort before phases cohort)
    (windows : Windows db bulk (rootLsnOf (membersOf before phases cohort)))
    (queues : Queues bulk db) (isMember : id ∈ cohort.ids)
    (named : ∀ ofScopes key since, key ≠ "*" →
      (toLex (key, since), ()) ∈ before.pendingOf ofScopes id →
        Held db bulk (rowNode ofScopes key) since) :
    PendingCopied bulk id before db := by
  intro ofScopes key since isIn
  by_cases isAll : key = "*"
  · subst isAll
    obtain ⟨job, isHeld, rfl⟩ := isCohort.exists_job isMember
    have isBefore := Int.le_trans (isCohort.rootLsnOf_le grounded isHeld isMember)
      (grounded.windows ofScopes job isHeld since isIn)
    refine ⟨?_, fun isNamed => absurd rfl isNamed⟩
    cases ofScopes with
    | false => exact windows.threads.le isBefore
    | true => exact windows.scopes.le isBefore
  · have held := named ofScopes key since isAll isIn
    have isNamed : ¬(rowNode ofScopes key).IsAll := by
      cases ofScopes <;> exact isAll
    exact ⟨held, fun _ => queues.queued isNamed held⟩

/-- **All that an open fold has to do**, done. -/
theorem finish_done (grounded : before.Grounded) (isCohort : IsCohort before phases cohort)
    (isOpened : Opened cohort (membersOf before phases cohort) before.newRevoke before opened)
    (isDone : finish closure before.newRevoke cohort.ids { stage := .enrol, job := 0 } opened =
      .ok final) :
    FoldDone closure before.newRevoke cohort.ids before final ∧
      Windows final before.newRevoke (rootLsnOf (membersOf before phases cohort)) ∧
      before.newRevoke ∈ final.audience ∧
      ∀ job ∈ final.jobs, job.state = .seeding → ∃ held ∈ before.jobs,
        held.state = .seeding ∧ job.kind = held.kind ∧
          job.root.map (·.cause) = held.root.map (·.cause) := by
  have isOther := isCohort.notNew
  rw [finish, if_pos rfl, List.drop_zero, fromMember, List.drop_zero] at isDone
  have enrolled (gone : List Nat) : Adds closure before.newRevoke gone opened
      (cohort.ids.foldl (enrol before.newRevoke) opened) :=
    Adds.foldl (adds_enrol closure before.newRevoke gone) _ opened
  generalize cohort.ids.foldl (enrol before.newRevoke) opened = start at enrolled isDone
  cases isFolded : foldMembers closure before.newRevoke cohort.ids 0 start with
  | error text =>
    rw [isFolded] at isDone
    cases isDone
  | ok copied =>
    rw [isFolded] at isDone
    obtain rfl := Except.ok.inj isDone
    have same (id : Nat) (isMember : id ∈ cohort.ids) : SameRows id before start :=
      (isOpened.others id (isOther id isMember)).trans
        ((enrolled []).others id (isOther id isMember) List.not_mem_nil)
    have readable (id : Nat) : Readable before id :=
      ⟨grounded.seqs id, fun ofScopes => grounded.named ofScopes id⟩
    obtain ⟨folded, covers⟩ := foldMembers_covers isOther (isCohort.nodup grounded)
      (fun id isMember => (readable id).same (same id isMember)) isFolded
    have cleared := adds_clearAll closure isOther copied
    have adds := (enrolled cohort.ids).trans (folded.trans cleared)
    have isFinal := isOpened.close isOther isCohort.isTwo adds
    have covered (id : Nat) (isMember : id ∈ cohort.ids) :
        Covered closure before.newRevoke id before (clearAll cohort.ids copied) := by
      have sameRoot : start.receiptRoot id = before.receiptRoot id :=
        ((enrolled []).receiptRoot (isOther id isMember) List.not_mem_nil).trans
          (isOpened.receiptRoot (isOther id isMember))
      exact ((covers id isMember).2.adds cleared).of_same (same id isMember)
        ((enrolled []).receipts.trans isOpened.receipts) sameRoot
        (Int.le_trans isOpened.nextLsn (enrolled []).nextLsn)
    have retired (id : Nat) (isMember : id ∈ cohort.ids) :
        Retired (clearAll cohort.ids copied) id := (covers id isMember).1.adds cleared
    have queues := adds.queues isOpened.queues
    have windows := isOpened.windows.adds adds
    have audience := adds.audience ▸ isOpened.audience
    have noRows (id : Nat) (isMember : id ∈ cohort.ids) :
        (clearAll cohort.ids copied).pending id = ∅ ∧
          (clearAll cohort.ids copied).pendingScope id = ∅ ∧
          (clearAll cohort.ids copied).frontier id = ∅ ∧
          (clearAll cohort.ids copied).reached id = ∅ :=
      ⟨if_pos isMember, if_pos isMember, if_pos isMember, if_pos isMember⟩
    rw [sweepAll]
    generalize clearAll cohort.ids copied = swept at *
    generalize closeFold before.newRevoke cohort.ids swept = final at isFinal
    obtain ⟨⟨generation, rfl⟩, narrow⟩ := isFinal
    have pendings (isOn : closure = true) (id : Nat) (isMember : id ∈ cohort.ids) :
        PendingCopied before.newRevoke id before swept :=
      pendingCopied grounded isCohort windows queues isMember
        ((covered id isMember).pendings isOn)
    refine ⟨?_, ⟨windows.threads, windows.scopes⟩, audience, fun closed isIn isSeeding => ?_⟩
    · exact
        { noRows := noRows
          folded := fun job isIn isMember isActive => by
            obtain ⟨change, isMap, changed⟩ := adds.jobs
            obtain ⟨opening, isJobs, _⟩ := isOpened.jobs
            have isThere : change job ∈ swept.jobs := by
              rw [isMap, isJobs]
              exact List.mem_map_of_mem (List.mem_append_left _ isIn)
            have notBulk : (change job).id ≠ before.newRevoke :=
              (changed job).id ▸ isOther _ isMember
            refine ⟨change job, ?_, (changed job).id, ?_⟩
            · have isKept := closeJob_other notBulk cohort.ids swept.nextLsn
              exact isKept ▸ List.mem_map_of_mem isThere
            · rcases (changed job).state with isSame | ⟨isFolded, _⟩
              · exact absurd (isSame.trans isActive)
                  (retired job.id isMember _ isThere (changed job).id)
              · exact isFolded
          covered := fun id isMember =>
            (covered id isMember).close (Int.le_add_one (Int.le_refl _))
          flows := fun id isMember seq isFlow node since isNamed isIn =>
            queues.queued isNamed ((covered id isMember).flows seq isFlow node since isIn)
          pendings := pendings
          narrow := fun job isIn isBulk isNarrow =>
            pendings (narrow job isIn isBulk isNarrow) }
    · obtain ⟨change, isMap, changed⟩ := adds.jobs
      obtain ⟨opening, isJobs, isNew, _⟩ := isOpened.jobs
      obtain ⟨held, isHeld, rfl⟩ := List.mem_map.mp isIn
      rw [isMap, isJobs] at isHeld
      obtain ⟨first, isFirst, rfl⟩ := List.mem_map.mp isHeld
      have notBulk : (change first).id ≠ before.newRevoke := by
        intro isBulk
        rw [closeJob, if_pos isBulk] at isSeeding
        cases isSeeding
      rw [closeJob_other notBulk] at isSeeding ⊢
      have facts := changed first
      rcases List.mem_append.mp isFirst with isOld | isLast
      · refine ⟨first, isOld, ?_, facts.kind, facts.cause⟩
        rcases facts.state with isSame | ⟨isFolded, _⟩
        · exact isSame ▸ isSeeding
        · rw [isFolded] at isSeeding
          cases isSeeding
      · rw [facts.id, List.mem_singleton.mp isLast] at notBulk
        exact absurd isNew notBulk

/-! ## Slices -/

def Slice (closure : Bool) (s : Store) (turns : List Turn) (s' : Store) : Prop :=
  ∃ outcome, foldSlice closure turns s = .ok (some (outcome, s'))

def openCohort (phases : List JobPhase) (cohort : FoldCohort) (db : Db) : Store :=
  (openFold cohort (membersOf db phases cohort) db).2

def Activated (bulk : Nat) (db : Db) : Prop :=
  ∃ job ∈ db.jobs, job.id = bulk ∧ job.state = .active

/-- A job by which a slice finds an open fold. -/
def Seeding (job : Job) : Prop :=
  job.state = .seeding ∧ job.kind = .bulk ∧ job.root.any (·.cause = some foldCause) = true

theorem seedingFold_some {db : Db} (isFound : seedingFold db = some job) :
    job ∈ db.jobs ∧ Seeding job := by
  refine ⟨List.mem_of_find?_eq_some isFound, ?_⟩
  have isSeeding := List.find?_some isFound
  rw [Bool.and_eq_true, Bool.and_eq_true, decide_eq_true_iff, decide_eq_true_iff] at isSeeding
  exact ⟨isSeeding.1.1, isSeeding.1.2, isSeeding.2⟩

theorem not_seeding {db : Db} (isNone : seedingFold db = none) (isIn : job ∈ db.jobs) :
    ¬Seeding job := by
  intro ⟨isState, isKind, isCause⟩
  refine List.find?_eq_none.mp isNone job isIn ?_
  rw [Bool.and_eq_true, Bool.and_eq_true, decide_eq_true_iff, decide_eq_true_iff]
  exact ⟨⟨isState, isKind⟩, isCause⟩

theorem any_cause {root root' : Option Root} (isSame : root.map (·.cause) = root'.map (·.cause)) :
    root.any (·.cause = some foldCause) = root'.any (·.cause = some foldCause) := by
  have isMapped (root : Option Root) : root.any (·.cause = some foldCause) =
      (root.map (·.cause)).any (· = some foldCause) := by
    cases root <;> rfl
  rw [isMapped, isMapped, isSame]

def Going (closure : Bool) (bulk : Nat) (ids : List Nat) (opened : Db) (s : Store) : Prop :=
  ∃ c, s.cursor = .fold c ∧ Adds closure bulk ids opened s.db ∧
    finish closure bulk ids c s.db =
      finish closure bulk ids { stage := .enrol, job := 0 } opened

/-- The fold is over. -/
def Ended (closure : Bool) (bulk : Nat) (ids : List Nat) (opened : Db) (s : Store) : Prop :=
  s.cursor = .other "" ∧
    finish closure bulk ids { stage := .enrol, job := 0 } opened = .ok s.db

theorem foldLoop_adds (isOther : ∀ id ∈ ids, id ≠ bulk) {turns : List Turn} {c c' : FoldCursor}
    {moved : Bool} {db : Db} {outcome : Outcome}
    (isRun : foldLoop closure bulk ids turns c moved db = .ok (outcome, s))
    (isGoing : s.cursor = .fold c') : Adds closure bulk ids db s.db := by
  induction turns generalizing c moved db with
  | nil =>
    obtain ⟨_, rfl⟩ := Prod.mk.inj (Except.ok.inj isRun)
    exact Adds.refl closure bulk ids db
  | cons turn rest ih =>
    rw [foldLoop] at isRun
    cases isStep : foldStep closure bulk ids turn c db with
    | error text =>
      rw [isStep] at isRun
      cases isRun
    | ok stepped =>
      have adds := foldStep_adds isOther isStep
      rw [isStep] at isRun
      cases stepped with
      | next c' db' => exact Adds.trans adds (ih isRun)
      | blocked =>
        obtain ⟨_, rfl⟩ := Prod.mk.inj (Except.ok.inj isRun)
        exact Adds.refl closure bulk ids db
      | active db' =>
        obtain ⟨_, rfl⟩ := Prod.mk.inj (Except.ok.inj isRun)
        cases isGoing

theorem Going.seedingFold (isOpened : Opened cohort members bulk before opened)
    (isOther : ∀ id ∈ ids, id ≠ bulk) (notSeeding : seedingFold before = none)
    (adds : Adds closure bulk ids opened s.db) (isFound : RevokeFold.seedingFold s.db = some job) :
    job.id = bulk ∧ job.root.bind (·.cohort) = some cohort := by
  obtain ⟨isHeld, isState, isKind, isCause⟩ := seedingFold_some isFound
  obtain ⟨change, isMap, changed⟩ := adds.jobs
  obtain ⟨opening, isJobs, isNew, _⟩ := isOpened.jobs
  have isBulk : job.id = bulk := by
    rw [isMap, isJobs] at isHeld
    obtain ⟨first, isFirst, rfl⟩ := List.mem_map.mp isHeld
    have facts := changed first
    rcases List.mem_append.mp isFirst with isOld | isLast
    · refine absurd ⟨?_, facts.kind ▸ isKind, any_cause facts.cause ▸ isCause⟩
        (not_seeding notSeeding isOld)
      rcases facts.state with isSame | ⟨isFolded, _⟩
      · exact isSame ▸ isState
      · rw [isFolded] at isState
        cases isState
    · rw [facts.id, List.mem_singleton.mp isLast, isNew]
  obtain ⟨_, _, _, isCohort, _⟩ := isOpened.bulkJob isOther adds isHeld isBulk
  exact ⟨isBulk, isCohort⟩

/-- **One slice** of the fold. -/
theorem Going.slice (isOpened : Opened cohort members bulk before opened)
    (isOther : ∀ id ∈ cohort.ids, id ≠ bulk) (notSeeding : RevokeFold.seedingFold before = none)
    (isGoing : Going closure bulk cohort.ids opened s) {turns : List Turn}
    (isSlice : Slice closure s turns s') :
    Going closure bulk cohort.ids opened s' ∨ Ended closure bulk cohort.ids opened s' := by
  obtain ⟨c, isCursor, adds, isRest⟩ := isGoing
  obtain ⟨outcome, isRun⟩ := isSlice
  rw [foldSlice] at isRun
  cases isFound : RevokeFold.seedingFold s.db with
  | none =>
    rw [isFound] at isRun
    cases isRun
  | some job =>
    obtain ⟨isBulk, isRoot⟩ := Going.seedingFold isOpened isOther notSeeding adds isFound
    simp only [isFound, runFold, isRoot, isBulk, isCursor, resumeAt] at isRun
    cases isLoop : foldLoop closure bulk cohort.ids turns c false s.db with
    | error text =>
      rw [isLoop] at isRun
      cases isRun
    | ok reached =>
      rw [isLoop] at isRun
      obtain rfl := Option.some.inj (Except.ok.inj isRun)
      rcases foldLoop_finish isOther isLoop with ⟨c', isSaved, isSame⟩ | ⟨isSaved, isDone⟩
      · exact Or.inl ⟨c', isSaved, adds.trans (foldLoop_adds isOther isLoop isSaved),
          isSame.trans isRest⟩
      · exact Or.inr ⟨isSaved, isRest.symm.trans isDone⟩

/-! ## Runs -/

section

variable {slices : List (List Turn)}

theorem openCohort_opened (phases : List JobPhase) (cohort : FoldCohort)
    (grounded : before.Grounded) :
    Opened cohort (membersOf before phases cohort) before.newRevoke before
      (openCohort phases cohort before).db :=
  openFold_opened grounded |>.2.2

theorem Ended.noSlice (grounded : before.Grounded) (isCohort : IsCohort before phases cohort)
    (notSeeding : seedingFold before = none)
    (isEnded : Ended closure before.newRevoke cohort.ids (openCohort phases cohort before).db s)
    {turns : List Turn} : ¬Slice closure s turns s' := by
  intro ⟨outcome, isRun⟩
  obtain ⟨_, _, _, kept⟩ :=
    finish_done grounded isCohort (openCohort_opened phases cohort grounded) isEnded.2
  rw [foldSlice] at isRun
  cases isFound : seedingFold s.db with
  | none =>
    rw [isFound] at isRun
    cases isRun
  | some job =>
    obtain ⟨isHeld, isState, isKind, isCause⟩ := seedingFold_some isFound
    obtain ⟨first, isFirst, isSeeding, sameKind, sameCause⟩ := kept job isHeld isState
    exact not_seeding notSeeding isFirst
      ⟨isSeeding, sameKind ▸ isKind, any_cause sameCause ▸ isCause⟩

/-- **The invariant of a run.** -/
theorem going_or_ended (grounded : before.Grounded) (isCohort : IsCohort before phases cohort)
    (notSeeding : seedingFold before = none)
    (run : Run (Slice closure) (openCohort phases cohort before) slices s) :
    Going closure before.newRevoke cohort.ids (openCohort phases cohort before).db s ∨
      Ended closure before.newRevoke cohort.ids (openCohort phases cohort before).db s := by
  induction run with
  | nil => exact Or.inl ⟨_, rfl, Adds.refl _ _ _ _, rfl⟩
  | snoc _ taken ih =>
    rcases ih with isGoing | isEnded
    · exact isGoing.slice (openCohort_opened phases cohort grounded) isCohort.notNew notSeeding
        taken
    · exact absurd taken (isEnded.noSlice grounded isCohort notSeeding)

theorem Going.notActivated (grounded : before.Grounded)
    (isCohort : IsCohort before phases cohort)
    (isGoing : Going closure before.newRevoke cohort.ids (openCohort phases cohort before).db s) :
    ¬Activated before.newRevoke s.db := by
  intro ⟨job, isHeld, isBulk, isActive⟩
  obtain ⟨_, _, adds, _⟩ := isGoing
  obtain ⟨isSeeding, _⟩ :=
    (openCohort_opened phases cohort grounded).bulkJob isCohort.notNew adds isHeld isBulk
  rw [isSeeding] at isActive
  cases isActive

end

/-! ## A fold of two revokes -/

def exampleBacklog : Db :=
  { nextLsn := 20
    denyGeneration := 0
    jobs :=
      [{ id := 1
         kind := .bulk
         root := some { cause := some "reset" }
         rootLsn := 5
         startedLsn := 6
         phase := .flow
         state := .active },
       { id := 2
         kind := .receipt
         root := some { cause := some "receipt-revoked", bundleId := some "bundle" }
         rootLsn := 8
         startedLsn := 9
         phase := .flow
         state := .active }]
    audience := [1, 2]
    foldMap := []
    pending := fun id => if id = 1 then KeyedTable.empty.insert (toLex ("thread", 7), ()) else ∅
    pendingScope := fun _ => ∅
    frontier := fun id => if id = 1 then KeyedTable.empty.insert (1, .other "node") else ∅
    reached := fun _ => ∅
    carries := []
    receipts := fun _ => {} }

def exampleCohort : FoldCohort := { lo := 6, hi := 9, ids := [1, 2] }

def exampleTurns : List Turn := List.replicate 20 { rows := 10, fits := true }

theorem exampleBacklog_grounded : exampleBacklog.Grounded where
  keys := by decide
  fresh id isNew := by
    have isOther : id ≠ 1 := fun isId =>
      absurd (isNew _ List.mem_cons_self) (by rw [isId]; decide)
    exact ⟨if_neg isOther, rfl, if_neg isOther, rfl⟩
  seqs id row isIn := by
    have isRow : row ∈ if id = 1 then (KeyedTable.empty.insert (1, NodeText.other "node")) else ∅ :=
      isIn
    split_ifs at isRow
    · rw [List.mem_singleton.mp isRow]
      decide
    · cases isRow
  named ofScopes id row isIn := by
    cases ofScopes with
    | true => cases isIn
    | false =>
      have isRow : row ∈ if id = 1 then
          (KeyedTable.empty.insert (toLex ("thread", (7 : Int)), ())) else ∅ := isIn
      split_ifs at isRow
      · rw [List.mem_singleton.mp isRow]
        decide
      · cases isRow
  windows ofScopes job _ since isIn := by
    cases ofScopes with
    | true => cases isIn
    | false =>
      have isRow : (toLex ("*", since), ()) ∈ if job.id = 1 then
          (KeyedTable.empty.insert (toLex ("thread", (7 : Int)), ())) else ∅ := isIn
      split_ifs at isRow
      · have isKey := (Prod.mk.inj (List.mem_singleton.mp isRow)).1
        exact absurd (Prod.mk.inj (toLex.injective isKey)).1 (by decide)
      · cases isRow

end Murage.RevokeFold
