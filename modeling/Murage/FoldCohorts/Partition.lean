import Murage.FoldCohorts.Model

/-!
Owns that the cohorts are a partition of the candidates into maximal runs that no turn position
separates, and that no other cut has fewer.

Does not own: which jobs are candidates.
-/

namespace Murage.FoldCohorts

open Murage.Library

def Turns.IsPosition (turns : Turns) (p : Int) : Prop :=
  p ∈ turns.lines ∨ p ∈ turns.sessions ∨ p ∈ turns.openTurns

/-! ## The positions of a span -/

variable {turns : Turns}

theorem mem_turnPositions {lo hi p : Int} :
    p ∈ turnPositions turns lo hi ↔ turns.IsPosition p ∧ lo ≤ p ∧ p < hi := by
  rw [turnPositions]
  split
  · rw [List.mem_mergeSort, List.mem_dedup, List.mem_filter, Bool.and_eq_true, decide_eq_true_iff,
      decide_eq_true_iff, List.mem_append, List.mem_append, or_assoc, Turns.IsPosition]
  · rename_i isEmpty
    exact ⟨fun isIn => (nomatch isIn),
      fun ⟨_, isLow, isHigh⟩ => absurd (Int.lt_of_le_of_lt isLow isHigh) isEmpty⟩

theorem turnPositions_sorted (turns : Turns) (lo hi : Int) :
    (turnPositions turns lo hi).Pairwise (· ≤ ·) := by
  rw [turnPositions]
  split
  · have isTransitive : ∀ a b c : Int, decide (a ≤ b) = true → decide (b ≤ c) = true →
        decide (a ≤ c) = true := fun a b c first second =>
      decide_eq_true (Int.le_trans (of_decide_eq_true first) (of_decide_eq_true second))
    have isTotal : ∀ a b : Int, (decide (a ≤ b) || decide (b ≤ a)) = true := fun a b => by
      rw [Bool.or_eq_true, decide_eq_true_iff, decide_eq_true_iff]
      exact Int.le_total a b
    exact (List.pairwise_mergeSort isTransitive isTotal _).imp of_decide_eq_true
  · exact List.Pairwise.nil

/-- **The search finds a value exactly when there is one.** -/
theorem anyIn_iff {sorted : List Int} (isSorted : sorted.Pairwise (· ≤ ·)) {lo hi : Int} :
    anyIn sorted lo hi = true ↔ ∃ p ∈ sorted, lo ≤ p ∧ p < hi := by
  have isOrdered : ∀ {i j : Nat}, i ≤ j → j < sorted.length → sorted.getD i 0 ≤ sorted.getD j 0 := by
    intro i j isLess isWithin
    rw [List.getD_eq_getElem _ _ isWithin, List.getD_eq_getElem _ _ (Nat.lt_of_le_of_lt isLess isWithin)]
    rcases Nat.lt_or_eq_of_le isLess with isBefore | rfl
    · exact List.pairwise_iff_getElem.1 isSorted i j _ _ isBefore
    · exact Int.le_refl _
  have monotone : ∀ i j, i ≤ j → 0 ≤ i → j < sorted.length → decide (sorted.getD j 0 < lo) = true →
      decide (sorted.getD i 0 < lo) = true := fun i j isLess _ isLast isBelow =>
    decide_eq_true (Int.lt_of_le_of_lt (isOrdered isLess isLast) (of_decide_eq_true isBelow))
  obtain ⟨_, isWithin, areBelow, areAbove⟩ := bisect_spec (Nat.zero_le sorted.length) monotone
  rw [anyIn, Bool.and_eq_true, decide_eq_true_iff, decide_eq_true_iff]
  constructor
  · rintro ⟨isIn, isHigh⟩
    have isLow := of_decide_eq_false (areAbove _ (Nat.le_refl _) isIn)
    rw [List.getD_eq_getElem _ _ isIn] at isLow isHigh
    exact ⟨_, List.getElem_mem isIn, Int.not_lt.1 isLow, isHigh⟩
  · rintro ⟨p, isIn, isLow, isHigh⟩
    obtain ⟨i, isIndex, rfl⟩ := List.getElem_of_mem isIn
    rw [← List.getD_eq_getElem _ 0 isIndex] at isLow isHigh
    have isFound : bisect (fun m => decide (sorted.getD m 0 < lo)) 0 sorted.length ≤ i := by
      refine Nat.le_of_not_lt fun isBefore => ?_
      exact absurd (of_decide_eq_true (areBelow i (Nat.zero_le i) isBefore)) (Int.not_lt.2 isLow)
    exact ⟨Nat.lt_of_le_of_lt isFound isIndex, Int.lt_of_le_of_lt (isOrdered isFound isIndex) isHigh⟩

/-! ## Partitions -/

/-- A cohort of some jobs: their ids, the least and the greatest of where they started. -/
structure Spans (cohort : FoldCohort) (group : List Candidate) : Prop where
  ids : cohort.ids = group.map Candidate.id
  least : ∃ job ∈ group, job.started = cohort.lo
  low : ∀ job ∈ group, cohort.lo ≤ job.started
  greatest : ∃ job ∈ group, job.started = cohort.hi
  high : ∀ job ∈ group, job.started ≤ cohort.hi

/-- No turn position is from `lo` on, below `hi`. -/
def Clear (turns : Turns) (lo hi : Int) : Prop := ∀ p, turns.IsPosition p → ¬ (lo ≤ p ∧ p < hi)

/-- Cohorts that are the jobs in order, each clear and as long as it can be. -/
inductive Partition (turns : Turns) (most : Nat) : List FoldCohort → List Candidate → Prop
  | nil : Partition turns most [] []
  | cons {cohort : FoldCohort} {cohorts : List FoldCohort} {group jobs : List Candidate}
      (spans : Spans cohort group) (isSmall : group.length ≤ most)
      (isClear : Clear turns cohort.lo cohort.hi)
      (isMaximal : ∀ next ∈ jobs.head?, group.length = most ∨
        ¬ Clear turns (min cohort.lo next.started) (max cohort.hi next.started))
      (rest : Partition turns most cohorts jobs) :
      Partition turns most (cohort :: cohorts) (group ++ jobs)

variable {most : Nat}

theorem Partition.ids {cohorts : List FoldCohort} {jobs : List Candidate}
    (isPartition : Partition turns most cohorts jobs) :
    cohorts.flatMap FoldCohort.ids = jobs.map Candidate.id := by
  induction isPartition with
  | nil => rfl
  | cons spans _ _ _ _ ih =>
    rw [List.flatMap_cons, List.map_append, spans.ids, ih]

theorem spans_one (job : Candidate) : Spans ⟨job.started, job.started, [job.id]⟩ [job] where
  ids := rfl
  least := ⟨job, List.mem_singleton_self job, rfl⟩
  low := List.forall_mem_singleton.2 (Int.le_refl _)
  greatest := ⟨job, List.mem_singleton_self job, rfl⟩
  high := List.forall_mem_singleton.2 (Int.le_refl _)

variable {group : List Candidate}

theorem Spans.snoc {cohort : FoldCohort} (spans : Spans cohort group) (job : Candidate) :
    Spans ⟨min cohort.lo job.started, max cohort.hi job.started, cohort.ids ++ [job.id]⟩
      (group ++ [job]) where
  ids := by rw [spans.ids, List.map_append, List.map_singleton]
  least := by
    obtain ⟨first, isFirst, isLeast⟩ := spans.least
    rcases Int.le_total cohort.lo job.started with isOld | isNew
    · exact ⟨first, List.mem_append_left _ isFirst, by rw [isLeast, Int.min_eq_left isOld]⟩
    · exact ⟨job, List.mem_append_right _ (List.mem_singleton_self job), (Int.min_eq_right isNew).symm⟩
  low := by
    refine List.forall_mem_append.2 ⟨fun other isOther => ?_, List.forall_mem_singleton.2 ?_⟩
    · exact Int.le_trans (Int.min_le_left _ _) (spans.low other isOther)
    · exact Int.min_le_right _ _
  greatest := by
    obtain ⟨last, isLast, isGreatest⟩ := spans.greatest
    rcases Int.le_total cohort.hi job.started with isNew | isOld
    · exact ⟨job, List.mem_append_right _ (List.mem_singleton_self job), (Int.max_eq_right isNew).symm⟩
    · exact ⟨last, List.mem_append_left _ isLast, by rw [isGreatest, Int.max_eq_left isOld]⟩
  high := by
    refine List.forall_mem_append.2 ⟨fun other isOther => ?_, List.forall_mem_singleton.2 ?_⟩
    · exact Int.le_trans (spans.high other isOther) (Int.le_max_left _ _)
    · exact Int.le_max_right _ _

/-! ## The loop -/

theorem anyIn_clear {lo hi nlo nhi : Int} (isLow : lo ≤ nlo) (isHigh : nhi ≤ hi) :
    anyIn (turnPositions turns lo hi) nlo nhi = false ↔ Clear turns nlo nhi := by
  rw [← Bool.not_eq_true, anyIn_iff (turnPositions_sorted turns lo hi)]
  constructor
  · intro noneThere p isPosition isWithin
    exact noneThere ⟨p, mem_turnPositions.2 ⟨isPosition, Int.le_trans isLow isWithin.1,
      Int.lt_of_lt_of_le isWithin.2 isHigh⟩, isWithin⟩
  · rintro isClear ⟨p, isIn, isWithin⟩
    exact isClear p (mem_turnPositions.1 isIn).1 isWithin

/-- **The loop ends each cohort before the job that would not fit.** -/
theorem cohortsFrom_partition {lo hi : Int} (isSome : 1 ≤ most) {cur : FoldCohort}
    {rest : List Candidate} (spans : Spans cur group) (isSmall : group.length ≤ most)
    (isClear : Clear turns cur.lo cur.hi) (isLow : ∀ job ∈ group ++ rest, lo ≤ job.started)
    (isHigh : ∀ job ∈ group ++ rest, job.started ≤ hi) :
    Partition turns most (cohortsFrom (turnPositions turns lo hi) most cur rest) (group ++ rest) := by
  induction rest generalizing cur group with
  | nil => exact .cons spans isSmall isClear (fun _ isNext => nomatch isNext) .nil
  | cons job rest ih =>
    have isLength : cur.ids.length = group.length := by rw [spans.ids, List.length_map]
    have isLeast : lo ≤ min cur.lo job.started := by
      obtain ⟨first, isFirst, isStart⟩ := spans.least
      refine Int.le_min.2 ⟨isStart ▸ isLow first (List.mem_append_left _ isFirst), ?_⟩
      exact isLow job (List.mem_append_right _ List.mem_cons_self)
    have isGreatest : max cur.hi job.started ≤ hi := by
      obtain ⟨last, isLast, isStart⟩ := spans.greatest
      refine Int.max_le.2 ⟨isStart ▸ isHigh last (List.mem_append_left _ isLast), ?_⟩
      exact isHigh job (List.mem_append_right _ List.mem_cons_self)
    rw [cohortsFrom]
    split
    · rename_i isTaken
      rw [Bool.and_eq_true, decide_eq_true_iff, Bool.not_eq_true', isLength] at isTaken
      have isWhole : group ++ job :: rest = group ++ [job] ++ rest := by
        rw [List.append_assoc, List.singleton_append]
      rw [isWhole] at isLow isHigh ⊢
      refine ih (spans.snoc job) ?_ ((anyIn_clear isLeast isGreatest).1 isTaken.2)
        isLow isHigh
      rw [List.length_append, List.length_singleton]
      exact isTaken.1
    · rename_i notTaken
      refine .cons spans isSmall isClear (fun next isNext => ?_) ?_
      · cases isNext
        by_cases isFull : group.length < most
        · refine Or.inr fun isFree => notTaken ?_
          rw [Bool.and_eq_true, decide_eq_true_iff, Bool.not_eq_true', isLength]
          exact ⟨isFull, (anyIn_clear isLeast isGreatest).2 isFree⟩
        · exact Or.inl (Nat.le_antisymm isSmall (Nat.le_of_not_lt isFull))
      · have isLater : ∀ other ∈ [job] ++ rest, other ∈ group ++ job :: rest :=
          fun other isOther => List.mem_append_right _ isOther
        refine ih (spans_one job) isSome (fun p _ isWithin => ?_)
          (fun other isOther => isLow other (isLater other isOther))
          fun other isOther => isHigh other (isLater other isOther)
        exact absurd (Int.lt_of_le_of_lt isWithin.1 isWithin.2) (Int.lt_irrefl _)

theorem foldl_min_le (values : List Int) (first : Int) :
    values.foldl min first ≤ first ∧ ∀ value ∈ values, values.foldl min first ≤ value := by
  induction values generalizing first with
  | nil => exact ⟨Int.le_refl _, nofun⟩
  | cons value rest ih =>
    obtain ⟨isFirst, areRest⟩ := ih (min first value)
    exact ⟨Int.le_trans isFirst (Int.min_le_left _ _),
      List.forall_mem_cons.2 ⟨Int.le_trans isFirst (Int.min_le_right _ _), areRest⟩⟩

theorem le_foldl_max (values : List Int) (first : Int) :
    first ≤ values.foldl max first ∧ ∀ value ∈ values, value ≤ values.foldl max first := by
  induction values generalizing first with
  | nil => exact ⟨Int.le_refl _, nofun⟩
  | cons value rest ih =>
    obtain ⟨isFirst, areRest⟩ := ih (max first value)
    exact ⟨Int.le_trans (Int.le_max_left _ _) isFirst,
      List.forall_mem_cons.2 ⟨Int.le_trans (Int.le_max_right _ _) isFirst, areRest⟩⟩

/-- **The cohorts are the candidates in order, cut greedily and safely**: each has at most `most`
ids, spans where its members started, has no turn position inside, and ends only when it is full or
when the next candidate would bring a position inside. -/
theorem foldCohorts_partition (turns : Turns) (jobs : List Candidate) {most : Nat}
    (isSome : 1 ≤ most) :
    Partition turns most (foldCohorts turns jobs most) jobs ∧
      (foldCohorts turns jobs most).flatMap FoldCohort.ids = jobs.map Candidate.id := by
  have isPartition : Partition turns most (foldCohorts turns jobs most) jobs := by
    cases jobs with
    | nil => exact .nil
    | cons first rest =>
      obtain ⟨isFirstLow, areLow⟩ := foldl_min_le (rest.map Candidate.started) first.started
      obtain ⟨isFirstHigh, areHigh⟩ := le_foldl_max (rest.map Candidate.started) first.started
      refine cohortsFrom_partition isSome (spans_one first) isSome (fun p _ isWithin => ?_) ?_ ?_
      · exact absurd (Int.lt_of_le_of_lt isWithin.1 isWithin.2) (Int.lt_irrefl _)
      · exact List.forall_mem_cons.2 ⟨isFirstLow, fun job isJob => areLow _ (List.mem_map_of_mem isJob)⟩
      · exact List.forall_mem_cons.2 ⟨isFirstHigh, fun job isJob => areHigh _ (List.mem_map_of_mem isJob)⟩
  exact ⟨isPartition, isPartition.ids⟩

/-- A position between the first and the third job, which starts before them. -/
theorem foldCohorts_partition_example :
    Partition ⟨[5], [], []⟩ 2 (foldCohorts ⟨[5], [], []⟩ [⟨1, 6⟩, ⟨2, 7⟩, ⟨3, 4⟩] 2)
        [⟨1, 6⟩, ⟨2, 7⟩, ⟨3, 4⟩] ∧
      (foldCohorts ⟨[5], [], []⟩ [⟨1, 6⟩, ⟨2, 7⟩, ⟨3, 4⟩] 2).flatMap FoldCohort.ids = [1, 2, 3] :=
  foldCohorts_partition ⟨[5], [], []⟩ [⟨1, 6⟩, ⟨2, 7⟩, ⟨3, 4⟩] (by decide)

/-! ## The fewest cohorts -/

/-- No turn position parts two of these jobs. -/
def Together (turns : Turns) (group : List Candidate) : Prop :=
  ∀ p, turns.IsPosition p → ∀ first ∈ group, ∀ last ∈ group, ¬ (first.started ≤ p ∧ p < last.started)

/-- A group with one job more than a whole cohort is too long, or a position parts two of it. -/
theorem Spans.maximal {cohort : FoldCohort} {more : List Candidate} {next : Candidate}
    (spans : Spans cohort group) (isMaximal : group.length = most ∨
      ¬ Clear turns (min cohort.lo next.started) (max cohort.hi next.started))
    (isWithin : group ++ [next] ⊆ more) (isLonger : group.length < more.length)
    (isSmall : more.length ≤ most) : ¬ Together turns more := by
  intro areTogether
  rcases isMaximal with isFull | notClear
  · omega
  · refine notClear fun p isPosition ⟨isLow, isHigh⟩ => ?_
    obtain ⟨first, isFirst, isLeast⟩ := (spans.snoc next).least
    obtain ⟨last, isLast, isGreatest⟩ := (spans.snoc next).greatest
    exact areTogether p isPosition first (isWithin isFirst) last (isWithin isLast)
      ⟨Int.le_trans (Int.le_of_eq isLeast) isLow,
        Int.lt_of_lt_of_le isHigh (Int.le_of_eq isGreatest.symm)⟩

variable {groups : List (List Candidate)}

/-- Any other cut has passed no more of the jobs when a cohort ends: one of its groups ends at the
cohort's end or before. -/
theorem behind {cohort : FoldCohort} {jobs : List Candidate} (spans : Spans cohort group)
    (isMaximal : ∀ next ∈ jobs.head?, group.length = most ∨
      ¬ Clear turns (min cohort.lo next.started) (max cohort.hi next.started))
    (areSmall : ∀ other ∈ groups, other.length ≤ most)
    (areTogether : ∀ other ∈ groups, Together turns other) {before : List Candidate}
    (isCut : groups.flatten = before ++ (group ++ jobs)) :
    ∃ left later, later.length < groups.length ∧ later ⊆ groups ∧ later.flatten = left ++ jobs := by
  induction groups generalizing before with
  | nil =>
    obtain ⟨job, isJob, _⟩ := spans.least
    have isNone : job ∈ ([] : List Candidate) := by
      rw [show [] = before ++ (group ++ jobs) from isCut]
      exact List.mem_append_right _ (List.mem_append_left _ isJob)
    cases isNone
  | cons other later ih =>
    have areLater : later ⊆ other :: later := List.subset_cons_self other later
    rw [List.flatten_cons] at isCut
    rcases List.append_eq_append_iff.1 isCut with ⟨rest, rfl, isRest⟩ | ⟨inside, rfl, isInside⟩
    · obtain ⟨left, last, isFewer, isPart, isLast⟩ :=
        ih (fun group isGroup => areSmall group (areLater isGroup))
          (fun group isGroup => areTogether group (areLater isGroup)) isRest
      exact ⟨left, last, Nat.lt_succ_of_lt isFewer, List.Subset.trans isPart areLater, isLast⟩
    · rcases List.append_eq_append_iff.1 isInside with ⟨beyond, isOther, isJobs⟩ | ⟨left, _, isLeft⟩
      · cases beyond with
        | nil => exact ⟨[], later, Nat.lt_succ_self _, areLater, isJobs.symm⟩
        | cons next beyond =>
          have isNext : next ∈ jobs.head? := by
            rw [isJobs]
            rfl
          refine absurd (areTogether _ List.mem_cons_self)
            (spans.maximal (isMaximal next isNext) ?_ ?_ (areSmall _ List.mem_cons_self))
          · rw [isOther]
            intro job isJob
            refine List.mem_append_right _ ?_
            rcases List.mem_append.1 isJob with isOld | isNew
            · exact List.mem_append_left _ isOld
            · exact List.mem_append_right _ (List.mem_singleton.1 isNew ▸ List.mem_cons_self)
          · rw [isOther, List.length_append, List.length_append, List.length_cons]
            omega
      · exact ⟨left, later, Nat.lt_succ_self _, areLater, isLeft⟩

theorem Partition.fewest {cohorts : List FoldCohort} {jobs : List Candidate}
    (isPartition : Partition turns most cohorts jobs)
    (areSmall : ∀ group ∈ groups, group.length ≤ most)
    (areTogether : ∀ group ∈ groups, Together turns group) {before : List Candidate}
    (isCut : groups.flatten = before ++ jobs) : cohorts.length ≤ groups.length := by
  induction isPartition generalizing groups before with
  | nil => exact Nat.zero_le _
  | cons spans _ _ isMaximal _ ih =>
    obtain ⟨left, later, isFewer, isPart, isLater⟩ := behind spans isMaximal areSmall areTogether isCut
    exact Nat.succ_le_of_lt (Nat.lt_of_le_of_lt
      (ih (fun group isGroup => areSmall group (isPart isGroup))
        (fun group isGroup => areTogether group (isPart isGroup)) isLater) isFewer)

/-- **No cut of the backlog has fewer cohorts**: not into runs of at most `most` candidates whose
starts no turn position parts. -/
theorem foldCohorts_fewest (turns : Turns) (jobs : List Candidate) (isSome : 1 ≤ most)
    (isCut : groups.flatten = jobs) (areSmall : ∀ group ∈ groups, group.length ≤ most)
    (areTogether : ∀ group ∈ groups, Together turns group) :
    (foldCohorts turns jobs most).length ≤ groups.length := by
  cases jobs with
  | nil => exact Nat.zero_le _
  | cons first rest =>
    obtain ⟨isFirstLow, areLow⟩ := foldl_min_le (rest.map Candidate.started) first.started
    obtain ⟨isFirstHigh, areHigh⟩ := le_foldl_max (rest.map Candidate.started) first.started
    have isAlone : Clear turns first.started first.started := fun p _ isWithin =>
      absurd (Int.lt_of_le_of_lt isWithin.1 isWithin.2) (Int.lt_irrefl _)
    have isPartition := cohortsFrom_partition isSome (spans_one first) isSome isAlone
      (List.forall_mem_cons.2 ⟨isFirstLow, fun job isJob => areLow _ (List.mem_map_of_mem isJob)⟩)
      (List.forall_mem_cons.2 ⟨isFirstHigh, fun job isJob => areHigh _ (List.mem_map_of_mem isJob)⟩)
    have isFromStart : groups.flatten = [] ++ ([first] ++ rest) := isCut
    exact isPartition.fewest areSmall areTogether isFromStart

theorem foldCohorts_fewest_example :
    (foldCohorts ⟨[], [], []⟩ [⟨1, 6⟩, ⟨2, 7⟩, ⟨3, 4⟩] 2).length ≤
      [[(⟨1, 6⟩ : Candidate)], [⟨2, 7⟩, ⟨3, 4⟩]].length := by
  refine foldCohorts_fewest ⟨[], [], []⟩ [⟨1, 6⟩, ⟨2, 7⟩, ⟨3, 4⟩] (by decide) rfl (by decide) ?_
  rintro group _ p (isLine | isSession | isOpenTurn)
  · cases isLine
  · cases isSession
  · cases isOpenTurn

end Murage.FoldCohorts
