import Murage.UsageLedger.Rollup

/-!
Owns what a rollup keeps: the reported usage, the sums of each work item, the rows of live budget
periods, and itself; and exactly when it does.

Does not own: the kept totals of the budget check.
-/

namespace Murage.UsageLedger

open Murage.Library

section Rollup

variable {hash : List (Option String) → String} {before : SettleKey → SettleKey → Bool}
  {tables : Budgets} {now : Int} {ledger : Ledger}

/-! ## A bucket's row sums up its rows -/

theorem shares_of_bucketKey (isInjective : Function.Injective hash) {first second : Row}
    (firstProper : first.Proper) (secondProper : second.Proper)
    (sameKey : bucketKey hash first = bucketKey hash second) :
    (first.groupId = second.groupId ∧ first.goalId = second.goalId ∧
        first.workItemId = second.workItemId ∧ first.botId = second.botId) ∧
      first.chargeKind = second.chargeKind ∧ dayOf first.atMs = dayOf second.atMs ∧
        first.settleKey.isUnknown = second.settleKey.isUnknown := by
  obtain ⟨sameGroup, sameDay, sameHash, sameUnknown⟩ := SettleKey.rollup.inj sameKey
  have sameDimensions := isInjective sameHash
  simp only [dimensions, List.cons_append, List.nil_append, List.cons.injEq,
    Option.some.injEq] at sameDimensions
  obtain ⟨sameGoal, sameRoot, sameBot, -, -, -, sameKind, sameItem⟩ := sameDimensions
  have isPlaced : first.groupId.isSome = second.groupId.isSome := by
    rw [firstProper.placed, secondProper.placed, sameRoot]
  refine ⟨⟨?_, sameGoal, ?_, sameBot⟩, ?_, sameDay, sameUnknown⟩
  · cases isFirst : first.groupId <;> cases isSecond : second.groupId <;>
      simp_all
  · cases isFirst : first.workItemId <;> cases isSecond : second.workItemId <;>
      simp_all
  · cases isFirst : first.chargeKind <;> cases isSecond : second.chargeKind <;>
      simp_all [ChargeKind.text]

theorem isInterrupted_of_item {row : Row} (isItem : row.settleKey.isRollup = false) :
    row.settleKey.isInterrupted = row.settleKey.isUnknown := by
  cases isKey : row.settleKey <;> simp_all [SettleKey.isRollup] <;> rfl

theorem WellFormed.summary (wellFormed : WellFormed ledger)
    (isInjective : Function.Injective hash) {bucket : SettleKey × List Row}
    (isIn : bucket ∈ (bucketsOf hash (dueRows before tables now ledger)).entries) {row : Row}
    (isRow : IsBucketRow bucket row) : Summary bucket.2 row := by
  obtain ⟨first, rest, isRows, rfl⟩ := isRow
  have isFirst : first ∈ bucket.2 := by rw [isRows]; exact List.mem_cons_self
  have isKeyOf : ∀ item ∈ bucket.2, bucketKey hash item = bucket.1 :=
    fun item isItem => ((mem_bucket isIn item).mp isItem).2
  have isProper : ∀ item ∈ bucket.2, item.Proper := by
    intro item isItem
    obtain ⟨⟨-, entry, isEntry, rfl⟩, -⟩ := (mem_bucket isIn item).mp isItem
    exact wellFormed.proper entry isEntry
  have shares := fun item isItem => shares_of_bucketKey isInjective (isProper item isItem)
    (isProper first isFirst) ((isKeyOf item isItem).trans (isKeyOf first isFirst).symm)
  have areItems := (wellFormed.isBucket isIn).areItems
  exact {
    hasRows := (wellFormed.isBucket isIn).hasRows
    group := fun item isItem => (shares item isItem).1.1
    goal := fun item isItem => (shares item isItem).1.2.1
    workItem := fun item isItem => (shares item isItem).1.2.2.1
    bot := fun item isItem => (shares item isItem).1.2.2.2
    chargeKind := fun item isItem => (shares item isItem).2.1
    day := fun item isItem => (shares item isItem).2.2.1
    interrupted := by
      intro item isItem
      rw [isInterrupted_of_item (areItems item isItem)]
      show _ = SettleKey.isInterrupted bucket.1
      rw [← isKeyOf item isItem]
      rfl
    workMs := rfl
    input := rfl
    output := rfl
    charge := rfl
    reported := rfl }

theorem newBuckets_perm (before : SettleKey → SettleKey → Bool) :
    ((newBuckets hash before tables now ledger).flatMap (·.2)).Perm
      ((ledger.map (·.row)).filter (rolls hash tables now ledger)) := by
  have isGrouped := OrderedMap.groups_perm (bucketKey hash) (dueRows before tables now ledger)
    fun key => !hasKey ledger key
  have isSorted := (List.mergeSort_perm ((ledger.map (·.row)).filter (settled tables now))
    (byTime before)).filter fun row => !hasKey ledger (bucketKey hash row)
  rw [List.filter_filter] at isSorted
  refine (isGrouped.trans isSorted).trans (List.Perm.of_eq ?_)
  exact List.filter_congr fun row _ => Bool.and_comm _ _

/-- **A rollup sums up rows of the ledger.** -/
theorem WellFormed.regroups (wellFormed : WellFormed ledger)
    (isInjective : Function.Injective hash) :
    Regroups (ledger.map (·.row))
      ((rollupSettledUsage hash before tables now ledger).map (·.row)) := by
  obtain ⟨added, isLeft, areRows⟩ :=
    rollup_leaves hash before tables now wellFormed
  refine ⟨(ledger.map (·.row)).filter fun row => !rolls hash tables now ledger row,
    (newBuckets hash before tables now ledger).map (·.2), added.map (·.row), ?_, ?_, ?_⟩
  · rw [← List.flatMap_def]
    refine ((List.filter_append_perm (rolls hash tables now ledger) _).symm.trans ?_)
    exact List.perm_append_comm.trans ((newBuckets_perm before).symm.append_left _)
  · rw [isLeft, List.map_append, List.filter_map]
    rfl
  · rw [List.forall₂_map_left_iff, List.forall₂_map_right_iff]
    have areBuckets := (List.forall₂_and_left _ _).mpr ⟨fun bucket isIn => isIn, areRows⟩
    exact areBuckets.imp fun bucket entry isRow =>
      wellFormed.summary isInjective (List.mem_of_mem_filter isRow.1) isRow.2

/-! ## Which rows a scope has -/

/-- From the beginning, or from the start of a UTC day. -/
def Scope.Midnight (scope : Scope) : Prop :=
  ∀ since, scope.since = some since → ∃ day : Int, since = day * dayMs

theorem Scope.Midnight.shared {scope : Scope} (isMidnight : scope.Midnight) {bucket : List Row}
    {row : Row} (summary : Summary bucket row) :
    ∀ item ∈ bucket, scope.covers item = scope.covers row := by
  intro item isIn
  have sameSince : scope.since.all (· ≤ item.atMs) = scope.since.all (· ≤ row.atMs) := by
    cases isSince : scope.since with
    | none => rfl
    | some since =>
      obtain ⟨day, rfl⟩ := isMidnight since isSince
      have fromDay : ∀ time : Int, day * dayMs ≤ time ↔ day ≤ dayOf time :=
        fun time => (Int.le_ediv_iff_mul_le (by decide)).symm
      simp only [Option.all_some, decide_eq_decide]
      rw [fromDay, fromDay, summary.day item isIn]
  rw [Scope.covers, Scope.covers, summary.group item isIn, summary.goal item isIn, sameSince]

theorem Regroups.inScope {scope : Scope} (isMidnight : scope.Midnight) {first second : Ledger}
    (regroups : Regroups (first.map (·.row)) (second.map (·.row))) :
    Regroups (rowsIn scope first) (rowsIn scope second) :=
  regroups.filter _ fun _ _ summary => isMidnight.shared summary

theorem projectUsage_eq_iff {scope : Scope} {first second : Ledger}
    (regroups : Regroups (rowsIn scope first) (rowsIn scope second)) :
    projectUsage scope second = projectUsage scope first ↔
      ∀ bot ∈ botsOf (rowsIn scope first),
        ((rowsIn scope second).filter (·.botId = bot)).any (·.tokensReported) =
          ((rowsIn scope first).filter (·.botId = bot)).any (·.tokensReported) := by
  have sameByBot : byBotOf (rowsIn scope second) = byBotOf (rowsIn scope first) ↔
      ∀ bot ∈ botsOf (rowsIn scope first),
        ((rowsIn scope second).filter (·.botId = bot)).any (·.tokensReported) =
          ((rowsIn scope first).filter (·.botId = bot)).any (·.tokensReported) := by
    rw [byBotOf, byBotOf, regroups.botsOf, List.map_inj_left]
    refine forall₂_congr fun bot _ => ?_
    rw [Prod.mk.injEq, eq_self_iff_true, true_and]
    exact (regroups.ofBot bot).totalsOf_eq_iff
  rw [← sameByBot]
  constructor
  · exact fun same => congrArg ProjectUsage.byBot same
  · intro same
    rw [projectUsage, projectUsage, same, regroups.interrupted]

/-! ## Which tokens count as reported -/

/-- The row stays itemised, or its whole bucket reports its tokens. -/
def StaysReported (hash : List (Option String) → String) (tables : Budgets) (now : Int)
    (ledger : Ledger) (row : Row) : Prop :=
  rolls hash tables now ledger row = false ∨
    ∀ other ∈ ledger, rolls hash tables now ledger other.row = true →
      bucketKey hash other.row = bucketKey hash row → other.row.tokensReported = true

/-- A bot with a row that reports its tokens has one that stays reported, in every scope. -/
def ReportsKept (hash : List (Option String) → String) (tables : Budgets) (now : Int)
    (ledger : Ledger) : Prop :=
  ∀ scope : Scope, scope.Midnight → ∀ entry ∈ ledger, scope.covers entry.row = true →
    entry.row.tokensReported = true →
      ∃ keeper ∈ ledger, scope.covers keeper.row = true ∧ keeper.row.botId = entry.row.botId ∧
        keeper.row.tokensReported = true ∧ StaysReported hash tables now ledger keeper.row

theorem mem_newBuckets {bucket : SettleKey × List Row}
    (isIn : bucket ∈ newBuckets hash before tables now ledger) (row : Row) :
    row ∈ bucket.2 ↔ (∃ entry ∈ ledger, entry.row = row) ∧
      rolls hash tables now ledger row = true ∧ bucketKey hash row = bucket.1 := by
  obtain ⟨isBucket, isNew⟩ := List.mem_filter.mp isIn
  rw [mem_bucket isBucket, rolls, Bool.and_eq_true]
  constructor
  · rintro ⟨⟨isSettled, isThere⟩, isKey⟩
    exact ⟨isThere, ⟨isSettled, by rw [isKey]; exact isNew⟩, isKey⟩
  · rintro ⟨isThere, ⟨isSettled, -⟩, isKey⟩
    exact ⟨⟨isSettled, isThere⟩, isKey⟩

theorem exists_newBucket (before : SettleKey → SettleKey → Bool) {entry : Entry} (isEntry : entry ∈ ledger)
    (isRolled : rolls hash tables now ledger entry.row = true) :
    ∃ bucket ∈ newBuckets hash before tables now ledger, entry.row ∈ bucket.2 := by
  have isItem := (newBuckets_perm before).mem_iff.mpr
    (List.mem_filter.mpr ⟨List.mem_map_of_mem isEntry, isRolled⟩)
  exact List.mem_flatMap.mp isItem

/-- **A scope reports tokens after a rollup when it has a row whose report stays.** -/
theorem WellFormed.reported_iff (wellFormed : WellFormed ledger)
    (isInjective : Function.Injective hash) {condition : Row → Bool}
    (shared : ∀ bucket row, Summary bucket row → ∀ item ∈ bucket, condition item = condition row) :
    (∃ entry ∈ rollupSettledUsage hash before tables now ledger,
        condition entry.row = true ∧ entry.row.tokensReported = true) ↔
      ∃ keeper ∈ ledger, condition keeper.row = true ∧ keeper.row.tokensReported = true ∧
        StaysReported hash tables now ledger keeper.row := by
  obtain ⟨added, isLeft, areRows⟩ :=
    rollup_leaves hash before tables now wellFormed
  obtain ⟨isWritten, isFrom⟩ := exists_of_forall₂ areRows
  rw [isLeft]
  constructor
  · rintro ⟨entry, isIn, isChosen, isReported⟩
    rcases List.mem_append.mp isIn with isKept | isAdded
    · obtain ⟨isEntry, stays⟩ := List.mem_filter.mp isKept
      exact ⟨entry, isEntry, isChosen, isReported, Or.inl (by simpa using stays)⟩
    · obtain ⟨bucket, isBucket, isRow⟩ := isFrom entry isAdded
      have summary := wellFormed.summary isInjective (List.mem_of_mem_filter isBucket) isRow
      obtain ⟨item, isItem⟩ := List.exists_mem_of_ne_nil _ summary.hasRows
      obtain ⟨⟨keeper, isKeeper, rfl⟩, -, isKey⟩ := (mem_newBuckets isBucket item).mp isItem
      rw [summary.reported, List.all_eq_true] at isReported
      refine ⟨keeper, isKeeper, (shared _ _ summary _ isItem).trans isChosen,
        isReported _ isItem, Or.inr fun other isOther isRolled sameKey => ?_⟩
      exact isReported _ ((mem_newBuckets isBucket other.row).mpr
        ⟨⟨other, isOther, rfl⟩, isRolled, sameKey.trans isKey⟩)
  · rintro ⟨keeper, isKeeper, isChosen, isReported, stays⟩
    by_cases isRolled : rolls hash tables now ledger keeper.row = true
    · rcases stays with itStays | allReport
      · rw [isRolled] at itStays
        exact Bool.noConfusion itStays
      obtain ⟨bucket, isBucket, isItem⟩ := exists_newBucket before isKeeper isRolled
      obtain ⟨entry, isAdded, isRow⟩ := isWritten bucket isBucket
      have summary := wellFormed.summary isInjective (List.mem_of_mem_filter isBucket) isRow
      have isKey := ((mem_newBuckets isBucket keeper.row).mp isItem).2.2
      refine ⟨entry, List.mem_append_right _ isAdded,
        (shared _ _ summary _ isItem).symm.trans isChosen, ?_⟩
      rw [summary.reported, List.all_eq_true]
      intro item isOther
      obtain ⟨⟨other, isThere, rfl⟩, otherRolls, otherKey⟩ :=
        (mem_newBuckets isBucket item).mp isOther
      exact allReport other isThere otherRolls (otherKey.trans isKey.symm)
    · refine ⟨keeper, List.mem_append_left _ (List.mem_filter.mpr ⟨isKeeper, ?_⟩), isChosen,
        isReported⟩
      rw [Bool.eq_false_iff.mpr isRolled, Bool.not_false]

theorem reportedIn_iff (scope : Scope) (bot : String) (ledger : Ledger) :
    ((rowsIn scope ledger).filter (·.botId = bot)).any (·.tokensReported) = true ↔
      ∃ entry ∈ ledger, (scope.covers entry.row && entry.row.botId = bot) = true ∧
        entry.row.tokensReported = true := by
  simp only [rowsIn, List.any_eq_true, List.mem_filter, List.mem_map, Bool.and_eq_true,
    decide_eq_true_eq]
  constructor
  · rintro ⟨row, ⟨⟨⟨entry, isEntry, rfl⟩, isCovered⟩, isBot⟩, isReported⟩
    exact ⟨entry, isEntry, ⟨isCovered, isBot⟩, isReported⟩
  · rintro ⟨entry, isEntry, ⟨isCovered, isBot⟩, isReported⟩
    exact ⟨entry.row, ⟨⟨⟨entry, isEntry, rfl⟩, isCovered⟩, isBot⟩, isReported⟩

/-- **The reported usage stays the same in every scope exactly when the reports are kept.** -/
theorem WellFormed.projectUsage_kept_iff (wellFormed : WellFormed ledger)
    (before : SettleKey → SettleKey → Bool) (isInjective : Function.Injective hash) :
    (∀ scope : Scope, scope.Midnight →
        projectUsage scope (rollupSettledUsage hash before tables now ledger) =
          projectUsage scope ledger) ↔ ReportsKept hash tables now ledger := by
  have shared : ∀ scope : Scope, scope.Midnight → ∀ bot : String, ∀ bucket row,
      Summary bucket row → ∀ item ∈ bucket, (scope.covers item && item.botId = bot) =
        (scope.covers row && row.botId = bot) := by
    intro scope isMidnight bot bucket row summary item isIn
    rw [isMidnight.shared summary item isIn, summary.bot item isIn]
  have isKept : ∀ scope : Scope, scope.Midnight →
      Regroups (rowsIn scope ledger)
        (rowsIn scope (rollupSettledUsage hash before tables now ledger)) :=
    fun scope isMidnight => (wellFormed.regroups isInjective).inScope isMidnight
  constructor
  · intro sameUsage scope isMidnight entry isEntry isCovered isReported
    have isRow : entry.row ∈ rowsIn scope ledger :=
      List.mem_filter.mpr ⟨List.mem_map_of_mem isEntry, isCovered⟩
    have isBot : entry.row.botId ∈ botsOf (rowsIn scope ledger) := by
      simpa [botsOf] using ⟨entry.row, isRow, rfl⟩
    have sameReports := (projectUsage_eq_iff (isKept scope isMidnight)).mp
      (sameUsage scope isMidnight) _ isBot
    have isReportedBefore := (reportedIn_iff scope entry.row.botId ledger).mpr
      ⟨entry, isEntry, by rw [isCovered, decide_eq_true rfl]; rfl, isReported⟩
    rw [isReportedBefore, reportedIn_iff,
      wellFormed.reported_iff isInjective (shared scope isMidnight _)] at sameReports
    obtain ⟨keeper, isKeeper, isChosen, keeperReports, stays⟩ := sameReports
    obtain ⟨keeperCovered, sameBot⟩ := Bool.and_eq_true_iff.mp isChosen
    exact ⟨keeper, isKeeper, keeperCovered, of_decide_eq_true sameBot, keeperReports, stays⟩
  · intro reportsKept scope isMidnight
    refine (projectUsage_eq_iff (isKept scope isMidnight)).mpr fun bot _ => ?_
    rw [Bool.eq_iff_iff, reportedIn_iff, reportedIn_iff,
      wellFormed.reported_iff isInjective (shared scope isMidnight bot)]
    constructor
    · rintro ⟨keeper, isKeeper, isChosen, isReported, -⟩
      exact ⟨keeper, isKeeper, isChosen, isReported⟩
    · rintro ⟨entry, isEntry, isChosen, isReported⟩
      obtain ⟨isCovered, isBot⟩ := Bool.and_eq_true_iff.mp isChosen
      obtain ⟨keeper, isKeeper, keeperCovered, sameBot, keeperReports, stays⟩ :=
        reportsKept scope isMidnight entry isEntry isCovered isReported
      refine ⟨keeper, isKeeper, ?_, keeperReports, stays⟩
      rw [keeperCovered, sameBot, isBot]
      rfl

/-! ## What stays as it was -/

theorem foldl_held {buckets : List (SettleKey × List Row)}
    (areHeld : ∀ bucket ∈ buckets, hasKey ledger bucket.1 = true) :
    buckets.foldl writeBucket ledger = ledger := by
  induction buckets with
  | nil => rfl
  | cons bucket rest ih =>
    rw [List.foldl_cons, writeBucket_held (areHeld bucket List.mem_cons_self)]
    exact ih fun other isIn => areHeld other (List.mem_cons_of_mem _ isIn)

theorem rollup_eq_self
    (areHeld : ∀ entry ∈ ledger, settled tables now entry.row = true →
      hasKey ledger (bucketKey hash entry.row) = true) :
    rollupSettledUsage hash before tables now ledger = ledger := by
  refine foldl_held fun bucket isIn => ?_
  obtain ⟨row, isItem⟩ := List.exists_mem_of_ne_nil _ (OrderedMap.groupBy_of_mem _ _ isIn).2
  obtain ⟨⟨isSettled, entry, isEntry, rfl⟩, isKey⟩ := (mem_bucket isIn row).mp isItem
  rw [← isKey]
  exact areHeld entry isEntry isSettled

theorem WellFormed.mem_rollup (wellFormed : WellFormed ledger) {entry : Entry}
    (isEntry : entry ∈ ledger) (stays : rolls hash tables now ledger entry.row = false) :
    entry ∈ rollupSettledUsage hash before tables now ledger := by
  obtain ⟨added, isLeft, -⟩ :=
    rollup_leaves hash before tables now wellFormed
  rw [isLeft]
  exact List.mem_append_left _ (List.mem_filter.mpr ⟨isEntry, by rw [stays, Bool.not_false]⟩)

theorem WellFormed.hasKey_rollup (wellFormed : WellFormed ledger) {key : SettleKey}
    (isRollup : key.isRollup = true) (held : hasKey ledger key = true) :
    hasKey (rollupSettledUsage hash before tables now ledger) key = true := by
  obtain ⟨entry, isEntry, rfl⟩ := hasKey_iff.mp held
  have isRolledUp : entry.row.rolledUp = true := by
    rw [(wellFormed.proper entry isEntry).rolled, isRollup]
  have stays : rolls hash tables now ledger entry.row = false := by
    rw [rolls, settled, isRolledUp, Bool.not_true, Bool.false_and, Bool.false_and, Bool.false_and]
  exact hasKey_iff.mpr ⟨entry, wellFormed.mem_rollup isEntry stays, rfl⟩

theorem WellFormed.held_of_rollup (wellFormed : WellFormed ledger) {entry : Entry}
    (isIn : entry ∈ rollupSettledUsage hash before tables now ledger)
    (isSettled : settled tables now entry.row = true) :
    hasKey (rollupSettledUsage hash before tables now ledger) (bucketKey hash entry.row) =
      true := by
  obtain ⟨added, isLeft, areRows⟩ :=
    rollup_leaves hash before tables now wellFormed
  rcases List.mem_append.mp (isLeft ▸ isIn) with isKept | isAdded
  · have stays := (List.mem_filter.mp isKept).2
    rw [rolls, isSettled, Bool.true_and, Bool.not_not] at stays
    exact wellFormed.hasKey_rollup rfl stays
  · obtain ⟨bucket, -, first, rest, -, isRow⟩ := (exists_of_forall₂ areRows).2 entry isAdded
    have notRolledUp := not_rolledUp_of_settled isSettled
    rw [isRow] at notRolledUp
    exact Bool.noConfusion notRolledUp

theorem hasKey_settlement {key : SettleKey} (isRollup : key.isRollup = true)
    (held : hasKey ledger key = true) (settlement : Settlement) :
    hasKey (settlement.run ledger) key = true := by
  obtain ⟨condition, areItems, isRun⟩ := settlement.run_cases ledger
  obtain ⟨entry, isEntry, rfl⟩ := hasKey_iff.mp held
  have stays : condition entry.row = false := by
    rw [Bool.eq_false_iff]
    intro isDeleted
    rw [areItems _ isDeleted] at isRollup
    exact Bool.noConfusion isRollup
  have isLeft : entry ∈ deleteRows condition ledger :=
    List.mem_filter.mpr ⟨isEntry, by rw [stays, Bool.not_false]⟩
  rcases isRun with isRun | ⟨row, -, -, isRun⟩
  · rw [isRun]
    exact hasKey_iff.mpr ⟨entry, isLeft, rfl⟩
  · rw [isRun, insertRow]
    split_ifs
    · exact hasKey_iff.mpr ⟨entry, isLeft, rfl⟩
    · exact hasKey_iff.mpr ⟨entry, List.mem_append_left _ isLeft, rfl⟩

theorem hasKey_settlements {key : SettleKey} (isRollup : key.isRollup = true)
    (settlements : List Settlement) (held : hasKey ledger key = true) :
    hasKey (settlements.foldl Settlement.run ledger) key = true := by
  induction settlements generalizing ledger with
  | nil => exact held
  | cons settlement rest ih =>
    exact ih (hasKey_settlement isRollup held settlement)

/-! ## The sums of a work item -/

structure ItemUsage where
  workMs : Int
  input : Option Int
  output : Option Int
  charge : Option ℚ
  deriving DecidableEq

def itemUsage (workItemId : Option String) (chargeKind : ChargeKind) (ledger : Ledger) :
    ItemUsage :=
  let rows := (ledger.map (·.row)).filter fun row =>
    row.workItemId = workItemId && row.chargeKind = chargeKind
  { workMs := (rows.map (·.workMs)).sum
    input := sumOf (·.input) rows
    output := sumOf (·.output) rows
    charge := sumOf (·.charge) rows }

theorem Regroups.itemUsage {first second : Ledger}
    (regroups : Regroups (first.map (·.row)) (second.map (·.row))) (workItemId : Option String)
    (chargeKind : ChargeKind) :
    itemUsage workItemId chargeKind second = itemUsage workItemId chargeKind first := by
  have isChosen := regroups.filter
    (fun row => row.workItemId = workItemId && row.chargeKind = chargeKind)
    fun bucket row summary item isIn => by
      rw [summary.workItem item isIn, summary.chargeKind item isIn]
  simp only [UsageLedger.itemUsage, isChosen.workMs,
    isChosen.sumOf (·.input) fun _ _ summary => summary.input,
    isChosen.sumOf (·.output) fun _ _ summary => summary.output,
    isChosen.sumOf (·.charge) fun _ _ summary => summary.charge]

/-! ## What a rollup keeps -/

/-- What a rollup keeps of a ledger. `late`: rows that are settled into buckets that are there
already stay itemised. -/
structure UsageKept (hash : List (Option String) → String)
    (before : SettleKey → SettleKey → Bool) (tables : Budgets) (now : Int) (ledger : Ledger) :
    Prop where
  reports : ∀ scope : Scope, scope.Midnight →
    projectUsage scope (rollupSettledUsage hash before tables now ledger) =
      projectUsage scope ledger
  items : ∀ workItemId chargeKind,
    itemUsage workItemId chargeKind (rollupSettledUsage hash before tables now ledger) =
      itemUsage workItemId chargeKind ledger
  live : ∀ entry ∈ ledger, tables.live entry.row = true →
    entry ∈ rollupSettledUsage hash before tables now ledger
  again : rollupSettledUsage hash before tables now
      (rollupSettledUsage hash before tables now ledger) =
    rollupSettledUsage hash before tables now ledger
  late : ∀ settlements : List Settlement,
    (∀ entry ∈ settlements.foldl Settlement.run
        (rollupSettledUsage hash before tables now ledger),
      entry ∉ rollupSettledUsage hash before tables now ledger →
        settled tables now entry.row = true →
          hasKey (rollupSettledUsage hash before tables now ledger) (bucketKey hash entry.row) =
            true) →
    rollupSettledUsage hash before tables now
        (settlements.foldl Settlement.run (rollupSettledUsage hash before tables now ledger)) =
      settlements.foldl Settlement.run (rollupSettledUsage hash before tables now ledger)

end Rollup

/-! ## Two ledgers of one bucket -/

/-- A text that tells the dimensions apart. -/
def encodeDimension : Option String → List Char
  | none => ['-']
  | some text => text.toList.flatMap (fun letter => ['+', letter]) ++ ['.']

def exampleHash (dimensions : List (Option String)) : String :=
  String.ofList (dimensions.flatMap encodeDimension)

theorem encodeText_injective {first second : List Char} {rest others : List Char}
    (same : first.flatMap (fun letter => ['+', letter]) ++ '.' :: rest =
      second.flatMap (fun letter => ['+', letter]) ++ '.' :: others) :
    first = second ∧ rest = others := by
  induction first generalizing second with
  | nil =>
    cases second with
    | nil => exact ⟨rfl, by simpa using same⟩
    | cons letter letters => exact absurd same (by simp)
  | cons letter letters ih =>
    cases second with
    | nil => exact absurd same (by simp)
    | cons other others' =>
      simp only [List.flatMap_cons, List.cons_append, List.nil_append, List.cons.injEq,
        true_and] at same
      obtain ⟨rfl, sameRest⟩ := ih same.2
      exact ⟨by rw [same.1], sameRest⟩

theorem encodeDimension_injective {first second : Option String} {rest others : List Char}
    (same : encodeDimension first ++ rest = encodeDimension second ++ others) :
    first = second ∧ rest = others := by
  have startsApart : ∀ (text : String) (tail tail' : List Char),
      ['-'] ++ tail ≠ encodeDimension (some text) ++ tail' := by
    intro text tail tail' same
    cases isText : text.toList <;> simp [encodeDimension, isText] at same
  cases first with
  | none =>
    cases second with
    | none => exact ⟨rfl, by simpa [encodeDimension] using same⟩
    | some text => exact absurd same (startsApart text rest others)
  | some text =>
    cases second with
    | none => exact absurd same.symm (startsApart text others rest)
    | some other =>
      simp only [encodeDimension, List.append_assoc, List.singleton_append] at same
      obtain ⟨sameText, sameRest⟩ := encodeText_injective same
      exact ⟨congrArg some (String.toList_inj.mp sameText), sameRest⟩

theorem exampleHash_injective : Function.Injective exampleHash := by
  intro first second same
  have sameLetters : first.flatMap encodeDimension = second.flatMap encodeDimension :=
    String.ofList_injective same
  clear same
  have notEmpty : ∀ (dimension : Option String) (letters : List Char),
      encodeDimension dimension ++ letters ≠ [] := by
    intro dimension letters
    cases dimension <;> simp [encodeDimension]
  induction first generalizing second with
  | nil =>
    cases second with
    | nil => rfl
    | cons dimension dimensions => exact absurd sameLetters.symm (notEmpty _ _)
  | cons dimension dimensions ih =>
    cases second with
    | nil => exact absurd sameLetters (notEmpty _ _)
    | cons other others =>
      obtain ⟨rfl, sameRest⟩ := encodeDimension_injective sameLetters
      rw [ih sameRest]

def noBudgets : Budgets :=
  { budgets := []
    goals := [] }

def exampleTurn (turn : String) (reported : Bool) : Row :=
  { settleKey := .turn "thread" turn (some 0)
    groupId := some "group"
    requestId := some "request"
    rootId := some "request"
    botId := "bot"
    engine := "codex"
    input := if reported then some 10 else none
    output := if reported then some 2 else none
    tokensReported := reported
    chargeKind := .none
    workMs := 1000
    ok := true
    atMs := 5000 }

/-- Two turns of one bucket; the first reports its tokens. -/
def exampleLedger (secondReports : Bool) : Ledger :=
  [{ rowid := 1
     row := exampleTurn "first" true },
    { rowid := 2
      row := exampleTurn "second" secondReports }]

theorem exampleLedger_wellFormed (secondReports : Bool) : WellFormed (exampleLedger secondReports) where
  distinct := by
    exact List.nodup_cons.mpr ⟨by simp [exampleTurn], List.nodup_singleton _⟩
  proper := by
    intro entry isIn
    rcases List.mem_cons.mp isIn with rfl | isIn
    · exact ⟨rfl, rfl⟩
    · rw [List.mem_singleton.mp isIn]
      exact ⟨rfl, rfl⟩

def exampleOrder (_ _ : SettleKey) : Bool := true

end Murage.UsageLedger
