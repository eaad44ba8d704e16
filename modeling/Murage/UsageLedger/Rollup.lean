import Murage.UsageLedger.Model

/-!
Owns what the writers of the ledger keep, what a rollup leaves (the rows that do not roll, and one
row for each new bucket), and what the replacement of rows by rows that sum them up keeps of the
reported usage: every sum, the bots and the interruptions.

Does not own: what the reports make of it, and whether tokens count as reported.
-/

namespace Murage.UsageLedger

open Murage.Library

/-! ## What the writers keep -/

def SettleKey.isRollup : SettleKey → Bool
  | .rollup _ _ _ _ => true
  | _ => false

/-- Only a bucket's row is rolled up; a row has a group exactly when it has a root request. -/
structure Row.Proper (row : Row) : Prop where
  rolled : row.rolledUp = row.settleKey.isRollup
  placed : row.groupId.isSome = row.rootId.isSome

structure WellFormed (ledger : Ledger) : Prop where
  distinct : (ledger.map (·.row.settleKey)).Nodup
  proper : ∀ entry ∈ ledger, entry.row.Proper

variable {ledger : Ledger}

theorem hasKey_iff {key : SettleKey} :
    hasKey ledger key = true ↔ ∃ entry ∈ ledger, entry.row.settleKey = key := by
  simp [hasKey]

theorem WellFormed.entry_eq (wellFormed : WellFormed ledger) {first second : Entry}
    (isFirst : first ∈ ledger) (isSecond : second ∈ ledger)
    (sameKey : first.row.settleKey = second.row.settleKey) : first = second :=
  List.inj_on_of_nodup_map wellFormed.distinct isFirst isSecond sameKey

inductive Settlement
  | usage (request : RoomRequest) (terminal : ProjectUsageTerminal)
  | toolCharge (request : RoomRequest) (input : ToolCharge)
  | ownerTurn (turn : OwnerTurn)

def Settlement.run (ledger : Ledger) : Settlement → Ledger
  | .usage request terminal => (settleProjectUsage request terminal ledger).ledger
  | .toolCharge request input => (settleProjectToolCharge request input ledger).2
  | .ownerTurn turn => (settleSharedWorkOwnerTurn turn ledger).2

theorem usageRow_proper (request : RoomRequest) (terminal : ProjectUsageTerminal)
    (dispatched : Int) : (usageRow request terminal dispatched).Proper where
  rolled := by
    show false = (legacyKeyOf request terminal (some dispatched)).isRollup
    unfold legacyKeyOf
    split_ifs
    · rfl
    · split <;> rfl
  placed := rfl

theorem replacedRow_isUnknown {request : RoomRequest} {terminal : ProjectUsageTerminal}
    {dispatched : Int} {row : Row} (isReplaced : replacedRow request terminal dispatched row = true) :
    row.settleKey.isRollup = false := by
  have isUnknown : row.settleKey = .unknown request.id (some dispatched) ∨
      row.settleKey = .unknown request.id none := by
    simp only [replacedRow, Bool.and_eq_true, Bool.or_eq_true, decide_eq_true_eq] at isReplaced
    exact isReplaced.2.imp_right And.left
  rcases isUnknown with isKey | isKey <;> rw [isKey] <;> rfl

/-- **A settlement may remove some rows that no rollup wrote, and may add one.** -/
theorem Settlement.run_cases (settlement : Settlement) (ledger : Ledger) :
    ∃ condition : Row → Bool,
      (∀ row, condition row = true → row.settleKey.isRollup = false) ∧
        (settlement.run ledger = deleteRows condition ledger ∨
          ∃ row : Row, row.Proper ∧ row.settleKey.isRollup = false ∧
            settlement.run ledger = (insertRow row (deleteRows condition ledger)).2) := by
  have nothing : ∀ row : Row, (fun _ : Row => false) row = true → row.settleKey.isRollup = false :=
    fun _ isFalse => absurd isFalse Bool.false_ne_true
  have isSame : deleteRows (fun _ => false) ledger = ledger := by simp [deleteRows]
  cases settlement with
  | usage request terminal =>
    have isRun : run ledger (.usage request terminal) =
        (settleProjectUsage request terminal ledger).ledger := rfl
    rw [isRun]
    unfold settleProjectUsage
    cases request.dispatchedAt with
    | none => exact ⟨_, nothing, Or.inl isSame.symm⟩
    | some dispatched =>
      by_cases isSettled :
          (terminal.unknown && ledger.any (settledRun request dispatched ·.row)) = true
      · refine ⟨_, nothing, Or.inl ?_⟩
        rw [isSame]
        exact congrArg Settled.ledger (if_pos isSettled)
      · refine ⟨replacedRow request terminal dispatched, fun row => replacedRow_isUnknown, ?_⟩
        by_cases isLegacy : ledger.any (legacyRow request terminal dispatched ·.row) = true
        · exact Or.inl (congrArg Settled.ledger ((if_neg isSettled).trans (if_pos isLegacy)))
        · have isProper := usageRow_proper request terminal dispatched
          exact Or.inr ⟨_, isProper, isProper.rolled.symm,
            congrArg Settled.ledger ((if_neg isSettled).trans (if_neg isLegacy))⟩
  | toolCharge request input =>
    by_cases isMoney : money input.charge = true
    · refine ⟨_, nothing, Or.inr ⟨toolChargeRow request input, ⟨rfl, rfl⟩, rfl, ?_⟩⟩
      rw [isSame]
      exact congrArg Prod.snd (if_pos isMoney)
    · refine ⟨_, nothing, Or.inl ?_⟩
      rw [isSame]
      exact congrArg Prod.snd (if_neg isMoney)
  | ownerTurn turn =>
    by_cases isBound : turn.boundRequestId.any (· ≠ "") = true
    · refine ⟨_, nothing, Or.inl ?_⟩
      rw [isSame]
      exact congrArg Prod.snd (if_pos isBound)
    · refine ⟨_, nothing, Or.inr ⟨ownerTurnRow turn, ⟨rfl, rfl⟩, rfl, ?_⟩⟩
      rw [isSame]
      exact congrArg Prod.snd (if_neg isBound)

/-! ## What a rollup leaves -/

section Buckets

theorem exists_of_forall₂ {α β : Type} {related : α → β → Prop} {firsts : List α}
    {seconds : List β} (areRelated : List.Forall₂ related firsts seconds) :
    (∀ first ∈ firsts, ∃ second ∈ seconds, related first second) ∧
      ∀ second ∈ seconds, ∃ first ∈ firsts, related first second := by
  induction areRelated with
  | nil => simp
  | @cons first second _ _ isRelated _ ih =>
    constructor
    · intro other isIn
      rcases List.mem_cons.mp isIn with rfl | later
      · exact ⟨second, List.mem_cons_self, isRelated⟩
      · obtain ⟨found, isFound, isOther⟩ := ih.1 other later
        exact ⟨found, List.mem_cons_of_mem _ isFound, isOther⟩
    · intro other isIn
      rcases List.mem_cons.mp isIn with rfl | later
      · exact ⟨first, List.mem_cons_self, isRelated⟩
      · obtain ⟨found, isFound, isOther⟩ := ih.2 other later
        exact ⟨found, List.mem_cons_of_mem _ isFound, isOther⟩

def IsBucketRow (bucket : SettleKey × List Row) (row : Row) : Prop :=
  ∃ first rest, bucket.2 = first :: rest ∧ row = bucketRow bucket.1 first bucket.2

structure IsBucket (bucket : SettleKey × List Row) : Prop where
  isRollup : bucket.1.isRollup = true
  hasRows : bucket.2 ≠ []
  areItems : ∀ row ∈ bucket.2, row.settleKey.isRollup = false

theorem deleteEach (rows : List Row) (ledger : Ledger) :
    rows.foldl (fun ledger row => deleteRows (·.settleKey = row.settleKey) ledger) ledger =
      ledger.filter fun entry => !rows.any (·.settleKey = entry.row.settleKey) := by
  induction rows generalizing ledger with
  | nil => simp
  | cons row rest ih =>
    rw [List.foldl_cons, ih, deleteRows, List.filter_filter]
    refine List.filter_congr fun entry _ => ?_
    rw [List.any_cons, Bool.not_or, Bool.and_comm, decide_eq_decide.mpr eq_comm]

theorem hasKey_append (first second : Ledger) (key : SettleKey) :
    hasKey (first ++ second) key = (hasKey first key || hasKey second key) :=
  List.any_append

variable {bucket : SettleKey × List Row}

theorem writeBucket_held (held : hasKey ledger bucket.1 = true) :
    writeBucket ledger bucket = ledger := by
  unfold writeBucket
  cases bucket.2 with
  | nil => rfl
  | cons first rest =>
    have isInserted : insertRow (bucketRow bucket.1 first (first :: rest)) ledger = (false, ledger) :=
      if_pos held
    simp only [isInserted]
    rfl

theorem writeBucket_new (isBucket : IsBucket bucket) (absent : hasKey ledger bucket.1 = false) :
    ∃ entry : Entry, IsBucketRow bucket entry.row ∧
      writeBucket ledger bucket =
        (ledger.filter fun other => !bucket.2.any (·.settleKey = other.row.settleKey)) ++
          [entry] := by
  obtain ⟨first, rest, isRows⟩ := List.exists_cons_of_ne_nil isBucket.hasRows
  refine ⟨{ rowid := ledgerHead ledger + 1, row := bucketRow bucket.1 first bucket.2 },
    ⟨first, rest, isRows, rfl⟩, ?_⟩
  have isInserted : insertRow (bucketRow bucket.1 first bucket.2) ledger =
      (true, ledger ++ [{ rowid := ledgerHead ledger + 1
                          row := bucketRow bucket.1 first bucket.2 }]) :=
    if_neg (by rw [show (bucketRow bucket.1 first bucket.2).settleKey = bucket.1 from rfl, absent]
               exact Bool.false_ne_true)
  have stays : bucket.2.any (·.settleKey = bucket.1) = false := by
    rw [List.any_eq_false]
    intro row isIn isKey
    have isItem := isBucket.areItems row isIn
    rw [of_decide_eq_true isKey, isBucket.isRollup] at isItem
    exact Bool.noConfusion isItem
  unfold writeBucket
  rw [isRows] at isInserted stays ⊢
  simp only [isInserted, if_pos, deleteEach, List.filter_append]
  congr 1
  refine List.filter_cons_of_pos ?_
  show (!(first :: rest).any fun row => decide (row.settleKey = bucket.1)) = true
  rw [stays]
  rfl

def goes (ledger : Ledger) (buckets : List (SettleKey × List Row)) (entry : Entry) : Bool :=
  buckets.any fun bucket =>
    !hasKey ledger bucket.1 && bucket.2.any (·.settleKey = entry.row.settleKey)

variable {buckets : List (SettleKey × List Row)}

theorem goes_congr {first second : Ledger}
    (sameKeys : ∀ bucket ∈ buckets, hasKey first bucket.1 = hasKey second bucket.1) (entry : Entry) :
    goes first buckets entry = goes second buckets entry := by
  rw [Bool.eq_iff_iff, goes, goes, List.any_eq_true, List.any_eq_true]
  exact exists_congr fun bucket => and_congr_right fun isIn => by rw [sameKeys bucket isIn]

theorem goes_eq_false (areBuckets : ∀ bucket ∈ buckets, IsBucket bucket) {entry : Entry}
    (isRollup : entry.row.settleKey.isRollup = true) :
    goes ledger buckets entry = false := by
  rw [goes, List.any_eq_false]
  intro bucket isIn isGone
  obtain ⟨row, isItem, sameKey⟩ := List.any_eq_true.mp (Bool.and_eq_true_iff.mp isGone).2
  have notRollup := (areBuckets bucket isIn).areItems row isItem
  rw [of_decide_eq_true sameKey, isRollup] at notRollup
  exact Bool.noConfusion notRollup

theorem hasKey_writeBucket (isBucket : IsBucket bucket) {key : SettleKey}
    (isRollup : key.isRollup = true) (other : key ≠ bucket.1) :
    hasKey (writeBucket ledger bucket) key = hasKey ledger key := by
  cases held : hasKey ledger bucket.1 with
  | true => rw [writeBucket_held held]
  | false =>
    obtain ⟨entry, ⟨first, rest, -, isRow⟩, isWritten⟩ := writeBucket_new isBucket held
    have notNew : hasKey [entry] key = false := by
      rw [Bool.eq_false_iff, Ne, hasKey_iff]
      rintro ⟨new, isNew, isKey⟩
      rw [List.mem_singleton.mp isNew, isRow] at isKey
      exact other isKey.symm
    rw [isWritten, hasKey_append, notNew, Bool.or_false, Bool.eq_iff_iff, hasKey_iff, hasKey_iff]
    constructor
    · rintro ⟨entry, isIn, isKey⟩
      exact ⟨entry, List.mem_of_mem_filter isIn, isKey⟩
    · rintro ⟨entry, isIn, isKey⟩
      refine ⟨entry, List.mem_filter.mpr ⟨isIn, ?_⟩, isKey⟩
      rw [Bool.not_eq_true', List.any_eq_false]
      intro row isItem sameKey
      have notRollup := isBucket.areItems row isItem
      rw [of_decide_eq_true sameKey, isKey, isRollup] at notRollup
      exact Bool.noConfusion notRollup

/-- **Writing the buckets takes out the rows of the new ones and adds one row for each.** -/
theorem foldl_writeBucket (distinct : (buckets.map (·.1)).Nodup)
    (areBuckets : ∀ bucket ∈ buckets, IsBucket bucket) (ledger : Ledger) :
    ∃ added : Ledger,
      buckets.foldl writeBucket ledger =
          (ledger.filter fun entry => !goes ledger buckets entry) ++ added ∧
        List.Forall₂ (fun bucket entry => IsBucketRow bucket entry.row)
          (buckets.filter fun bucket => !hasKey ledger bucket.1) added := by
  induction buckets generalizing ledger with
  | nil => exact ⟨[], by simp [goes], List.Forall₂.nil⟩
  | cons bucket rest ih =>
    obtain ⟨fresh, distinctRest⟩ := List.nodup_cons.mp distinct
    have isBucket := areBuckets bucket List.mem_cons_self
    have areRest : ∀ other ∈ rest, IsBucket other :=
      fun other isIn => areBuckets other (List.mem_cons_of_mem _ isIn)
    obtain ⟨added, isWritten, areRows⟩ :=
      ih distinctRest areRest (writeBucket ledger bucket)
    -- the buckets that follow are new after the write exactly when they were before it
    have sameKeys : ∀ other ∈ rest,
        hasKey (writeBucket ledger bucket) other.1 = hasKey ledger other.1 :=
      fun other isIn => hasKey_writeBucket isBucket (areRest other isIn).isRollup
        fun same => fresh (List.mem_map.mpr ⟨other, isIn, same⟩)
    have sameGoes : ∀ entry, goes (writeBucket ledger bucket) rest entry =
        goes ledger rest entry := fun entry => goes_congr sameKeys entry
    rw [List.filter_congr fun other isIn => congrArg not (sameKeys other isIn)] at areRows
    rw [List.foldl_cons, isWritten]
    cases held : hasKey ledger bucket.1 with
    | true =>
      refine ⟨added, ?_, ?_⟩
      · rw [writeBucket_held held]
        congr 1
        refine List.filter_congr fun entry _ => ?_
        rw [goes, goes, List.any_cons, held, Bool.not_true, Bool.false_and, Bool.false_or]
      · rw [List.filter_cons_of_neg (by simp [held])]
        exact areRows
    | false =>
      obtain ⟨entry, isRow, isNew⟩ := writeBucket_new isBucket held
      have isRollup : entry.row.settleKey.isRollup = true := by
        obtain ⟨first, others, -, isBucketRow⟩ := id isRow
        rw [isBucketRow]
        exact isBucket.isRollup
      refine ⟨entry :: added, ?_, ?_⟩
      · have stays : (!goes ledger rest entry) = true := by
          rw [goes_eq_false areRest isRollup, Bool.not_false]
        have isFiltered : (writeBucket ledger bucket).filter
            (fun other => !goes (writeBucket ledger bucket) rest other) =
              (writeBucket ledger bucket).filter (fun other => !goes ledger rest other) :=
          List.filter_congr fun other _ => congrArg not (sameGoes other)
        have isKept : [entry].filter (fun other => !goes ledger rest other) = [entry] :=
          List.filter_cons_of_pos stays
        rw [isFiltered, isNew, List.filter_append, isKept, List.filter_filter,
          List.append_assoc]
        congr 1
        refine List.filter_congr fun other _ => ?_
        rw [goes, goes, List.any_cons, held, Bool.not_false, Bool.true_and, Bool.not_or,
          Bool.and_comm]
      · rw [List.filter_cons_of_pos (by simp [held])]
        exact List.Forall₂.cons isRow areRows

end Buckets

section Rollup

variable (hash : List (Option String) → String) (before : SettleKey → SettleKey → Bool)
  (tables : Budgets) (now : Int)

def rolls (ledger : Ledger) (row : Row) : Bool :=
  settled tables now row && !hasKey ledger (bucketKey hash row)

def newBuckets (ledger : Ledger) : List (SettleKey × List Row) :=
  (bucketsOf hash (dueRows before tables now ledger)).entries.filter
    fun bucket => !hasKey ledger bucket.1

variable {hash before tables now} {ledger : Ledger}

theorem mem_dueRows {row : Row} :
    row ∈ dueRows before tables now ledger ↔
      settled tables now row = true ∧ ∃ entry ∈ ledger, entry.row = row := by
  rw [dueRows, List.mem_mergeSort, List.mem_filter, List.mem_map, and_comm]

theorem mem_bucket (isIn : bucket ∈ (bucketsOf hash (dueRows before tables now ledger)).entries)
    (row : Row) :
    row ∈ bucket.2 ↔ (settled tables now row = true ∧ ∃ entry ∈ ledger, entry.row = row) ∧
      bucketKey hash row = bucket.1 := by
  rw [(OrderedMap.groupBy_of_mem _ _ isIn).1, List.mem_filter, mem_dueRows, decide_eq_true_iff]

theorem not_rolledUp_of_settled {row : Row} (isSettled : settled tables now row = true) :
    row.rolledUp = false := by
  simp only [settled, Bool.and_eq_true, Bool.not_eq_true'] at isSettled
  exact isSettled.1.1

theorem WellFormed.isBucket (wellFormed : WellFormed ledger)
    (isIn : bucket ∈ (bucketsOf hash (dueRows before tables now ledger)).entries) :
    IsBucket bucket where
  isRollup := by
    obtain ⟨row, isItem⟩ := List.exists_mem_of_ne_nil _ (OrderedMap.groupBy_of_mem _ _ isIn).2
    rw [← ((mem_bucket isIn row).mp isItem).2]
    rfl
  hasRows := (OrderedMap.groupBy_of_mem _ _ isIn).2
  areItems := by
    intro row isItem
    obtain ⟨⟨isSettled, entry, isEntry, rfl⟩, -⟩ := (mem_bucket isIn row).mp isItem
    rw [← (wellFormed.proper entry isEntry).rolled]
    exact not_rolledUp_of_settled isSettled

theorem WellFormed.goes_iff (wellFormed : WellFormed ledger) {entry : Entry}
    (isEntry : entry ∈ ledger) :
    goes ledger (bucketsOf hash (dueRows before tables now ledger)).entries entry =
      rolls hash tables now ledger entry.row := by
  rw [Bool.eq_iff_iff, goes, List.any_eq_true, rolls, Bool.and_eq_true]
  constructor
  · rintro ⟨bucket, member, isGone⟩
    obtain ⟨isNew, isIn⟩ := Bool.and_eq_true_iff.mp isGone
    obtain ⟨row, isItem, sameKey⟩ := List.any_eq_true.mp isIn
    obtain ⟨⟨isSettled, other, isOther, rfl⟩, isKey⟩ := (mem_bucket member row).mp isItem
    rw [← wellFormed.entry_eq isOther isEntry (of_decide_eq_true sameKey), isKey]
    exact ⟨isSettled, isNew⟩
  · rintro ⟨isSettled, isNew⟩
    have isDue : entry.row ∈ dueRows before tables now ledger :=
      mem_dueRows.mpr ⟨isSettled, entry, isEntry, rfl⟩
    have isKey := (OrderedMap.mem_keys_groupBy (bucketKey hash) _ _).mpr ⟨_, isDue, rfl⟩
    obtain ⟨bucket, member, sameKey⟩ := List.mem_map.mp isKey
    have isItem : entry.row ∈ bucket.2 :=
      (mem_bucket member entry.row).mpr ⟨⟨isSettled, entry, isEntry, rfl⟩, sameKey.symm⟩
    have isIn : bucket.2.any (·.settleKey = entry.row.settleKey) = true :=
      List.any_eq_true.mpr ⟨entry.row, isItem, decide_eq_true rfl⟩
    refine ⟨bucket, member, ?_⟩
    rw [isIn, Bool.and_true, sameKey]
    exact isNew

/-- **A rollup leaves the rows that do not roll, and one row for each new bucket.** -/
theorem rollup_leaves (hash : List (Option String) → String)
    (before : SettleKey → SettleKey → Bool) (tables : Budgets) (now : Int)
    (wellFormed : WellFormed ledger) :
    ∃ added : Ledger,
      rollupSettledUsage hash before tables now ledger =
          (ledger.filter fun entry => !rolls hash tables now ledger entry.row) ++ added ∧
        List.Forall₂ (fun bucket entry => IsBucketRow bucket entry.row)
          (newBuckets hash before tables now ledger) added := by
  obtain ⟨added, isLeft, areRows⟩ := foldl_writeBucket
    (bucketsOf hash (dueRows before tables now ledger)).distinct
    (fun bucket isIn => wellFormed.isBucket isIn) ledger
  refine ⟨added, ?_, areRows⟩
  rw [rollupSettledUsage, isLeft]
  congr 1
  exact List.filter_congr fun entry isIn => congrArg not (wellFormed.goes_iff isIn)

end Rollup

structure Summary (bucket : List Row) (row : Row) : Prop where
  hasRows : bucket ≠ []
  group : ∀ item ∈ bucket, item.groupId = row.groupId
  goal : ∀ item ∈ bucket, item.goalId = row.goalId
  workItem : ∀ item ∈ bucket, item.workItemId = row.workItemId
  bot : ∀ item ∈ bucket, item.botId = row.botId
  chargeKind : ∀ item ∈ bucket, item.chargeKind = row.chargeKind
  day : ∀ item ∈ bucket, dayOf item.atMs = dayOf row.atMs
  interrupted : ∀ item ∈ bucket, item.settleKey.isInterrupted = row.settleKey.isInterrupted
  workMs : row.workMs = (bucket.map (·.workMs)).sum
  input : row.input = sumOf (·.input) bucket
  output : row.output = sumOf (·.output) bucket
  charge : row.charge = sumOf (·.charge) bucket
  reported : row.tokensReported = bucket.all (·.tokensReported)

def Regroups (before after : List Row) : Prop :=
  ∃ (kept : List Row) (buckets : List (List Row)) (added : List Row),
    before.Perm (kept ++ buckets.flatten) ∧ after = kept ++ added ∧
      List.Forall₂ Summary buckets added

section Columns

variable {α : Type}

theorem sumOf_isSome [Add α] [Zero α] (column : Row → Option α) (rows : List Row) :
    (sumOf column rows).isSome = rows.any fun row => (column row).isSome := by
  unfold sumOf
  split_ifs with isAny
  · exact isAny.symm
  · exact (Bool.eq_false_iff.mpr isAny).symm

theorem sumOf_getD [AddMonoid α] (column : Row → Option α) (rows : List Row) :
    (sumOf column rows).getD 0 = (rows.map fun row => (column row).getD 0).sum := by
  unfold sumOf
  split_ifs with isAny
  · rfl
  · refine (List.sum_eq_zero ?_).symm
    intro value isIn
    obtain ⟨row, isRow, rfl⟩ := List.mem_map.mp isIn
    have isNone : (column row).isSome = false :=
      Bool.eq_false_iff.mpr fun isSome => isAny (List.any_eq_true.mpr ⟨row, isRow, isSome⟩)
    rw [Option.isSome_eq_false_iff, Option.isNone_iff_eq_none] at isNone
    rw [isNone]
    rfl

theorem sumOf_congr [Add α] [Zero α] {column other : Row → Option α} {rows : List Row}
    (same : ∀ row ∈ rows, column row = other row) : sumOf column rows = sumOf other rows := by
  have sameAny : (rows.any fun row => (column row).isSome) =
      rows.any fun row => (other row).isSome := by
    rw [Bool.eq_iff_iff, List.any_eq_true, List.any_eq_true]
    exact exists_congr fun row => and_congr_right fun isIn => by rw [same row isIn]
  unfold sumOf
  rw [sameAny, List.map_congr_left fun row isIn => congrArg (·.getD 0) (same row isIn)]

end Columns

namespace Summary

variable {bucket : List Row} {row : Row} (summary : Summary bucket row)

include summary

theorem charged : row.charged = sumOf Row.charged bucket := by
  unfold Row.charged
  split_ifs with isCharge
  · rw [summary.charge]
    exact sumOf_congr fun item isIn =>
      (if_pos ((summary.chargeKind item isIn).trans isCharge)).symm
  · have isNone : ∀ item ∈ bucket,
        (if item.chargeKind = .charge then item.charge else none) = none :=
      fun item isIn => if_neg fun same => isCharge ((summary.chargeKind item isIn).symm.trans same)
    rw [sumOf_congr isNone]
    exact (if_neg (by simp)).symm

theorem shared {condition : Row → Bool} (same : ∀ item ∈ bucket, condition item = condition row) :
    condition row = bucket.any condition := by
  obtain ⟨item, isIn⟩ := List.exists_mem_of_ne_nil _ summary.hasRows
  rw [Bool.eq_iff_iff, List.any_eq_true]
  constructor
  · intro isTrue
    exact ⟨item, isIn, (same item isIn).trans isTrue⟩
  · rintro ⟨other, isOther, isTrue⟩
    exact (same other isOther).symm.trans isTrue

end Summary

namespace Regroups

variable {before after : List Row} (regroups : Regroups before after)

include regroups

theorem sum {β : Type} [AddCommMonoid β] (measure : Row → β)
    (adds : ∀ bucket row, Summary bucket row → measure row = (bucket.map measure).sum) :
    (after.map measure).sum = (before.map measure).sum := by
  obtain ⟨kept, buckets, added, isPerm, rfl, areRows⟩ := regroups
  have isAdded : (added.map measure).sum = (buckets.flatten.map measure).sum := by
    clear isPerm
    induction areRows with
    | nil => rfl
    | cons isRow _ ih =>
      rw [List.map_cons, List.sum_cons, List.flatten_cons, List.map_append, List.sum_append,
        ih, adds _ _ isRow]
  rw [(isPerm.map measure).sum_eq, List.map_append, List.map_append, List.sum_append,
    List.sum_append, isAdded]

theorem any (condition : Row → Bool)
    (spreads : ∀ bucket row, Summary bucket row → condition row = bucket.any condition) :
    after.any condition = before.any condition := by
  obtain ⟨kept, buckets, added, isPerm, rfl, areRows⟩ := regroups
  have isAdded : added.any condition = buckets.flatten.any condition := by
    clear isPerm
    induction areRows with
    | nil => rfl
    | cons isRow _ ih =>
      rw [List.any_cons, List.flatten_cons, List.any_append, ih,
        spreads _ _ isRow]
  rw [isPerm.any_eq, List.any_append, List.any_append, isAdded]

theorem filter (condition : Row → Bool)
    (shared : ∀ bucket row, Summary bucket row → ∀ item ∈ bucket, condition item = condition row) :
    Regroups (before.filter condition) (after.filter condition) := by
  obtain ⟨kept, buckets, added, isPerm, rfl, areRows⟩ := regroups
  have isAdded : ∃ chosen : List (List Row), buckets.flatten.filter condition = chosen.flatten ∧
      List.Forall₂ Summary chosen (added.filter condition) := by
    clear isPerm
    induction areRows with
    | nil => exact ⟨[], rfl, List.Forall₂.nil⟩
    | @cons bucket row _ _ isRow _ ih =>
      obtain ⟨chosen, isFlat, areChosen⟩ := ih
      rw [List.flatten_cons, List.filter_append, isFlat]
      by_cases isTrue : condition row = true
      · refine ⟨bucket :: chosen, ?_, ?_⟩
        · rw [List.flatten_cons, List.filter_eq_self.mpr fun item isIn =>
            (shared _ _ isRow item isIn).trans isTrue]
        · rw [List.filter_cons_of_pos isTrue]
          exact List.Forall₂.cons isRow areChosen
      · refine ⟨chosen, ?_, ?_⟩
        · rw [List.filter_eq_nil_iff.mpr fun item isIn isItem =>
            isTrue ((shared _ _ isRow item isIn).symm.trans isItem), List.nil_append]
        · rw [List.filter_cons_of_neg isTrue]
          exact areChosen
  obtain ⟨chosen, isFlat, areChosen⟩ := isAdded
  refine ⟨kept.filter condition, chosen, added.filter condition, ?_, List.filter_append .., areChosen⟩
  rw [← isFlat, ← List.filter_append]
  exact isPerm.filter condition

theorem sumOf {α : Type} [AddCommMonoid α] (column : Row → Option α)
    (adds : ∀ bucket row, Summary bucket row → column row = UsageLedger.sumOf column bucket) :
    UsageLedger.sumOf column after = UsageLedger.sumOf column before := by
  have sameAny := regroups.any (fun row => (column row).isSome) fun bucket row summary => by
    rw [adds bucket row summary, sumOf_isSome]
  have sameSum := regroups.sum (fun row => (column row).getD 0) fun bucket row summary => by
    rw [adds bucket row summary, sumOf_getD]
  unfold UsageLedger.sumOf
  rw [sameAny, sameSum]

theorem workMs : (after.map (·.workMs)).sum = (before.map (·.workMs)).sum :=
  regroups.sum _ fun _ _ summary => summary.workMs

theorem mem_botsOf (bot : String) :
    bot ∈ UsageLedger.botsOf after ↔ bot ∈ UsageLedger.botsOf before := by
  have sameAny := regroups.any (·.botId = bot) fun bucket row summary => by
    have same : ∀ item ∈ bucket, decide (item.botId = bot) = decide (row.botId = bot) :=
      fun item isIn => by rw [summary.bot item isIn]
    exact summary.shared same
  have isMember : ∀ rows : List Row,
      bot ∈ UsageLedger.botsOf rows ↔ rows.any (·.botId = bot) = true := by
    intro rows
    simp [UsageLedger.botsOf]
  rw [isMember, isMember, sameAny]

theorem botsOf : UsageLedger.botsOf after = UsageLedger.botsOf before := by
  have sameBots : (after.map (·.botId)).toFinset = (before.map (·.botId)).toFinset := by
    ext bot
    simpa [UsageLedger.botsOf] using regroups.mem_botsOf bot
  rw [UsageLedger.botsOf, sameBots]
  rfl

theorem interrupted :
    (after.any fun row => row.settleKey.isInterrupted) =
      before.any fun row => row.settleKey.isInterrupted :=
  regroups.any _ fun _ _ summary => summary.shared fun item isIn => summary.interrupted item isIn

theorem ofBot (bot : String) :
    Regroups (before.filter (·.botId = bot)) (after.filter (·.botId = bot)) :=
  regroups.filter _ fun _ _ summary item isIn => by rw [summary.bot item isIn]

/-- **The totals are kept when tokens are reported after as they were before.** -/
theorem totalsOf_eq_iff :
    totalsOf after = totalsOf before ↔
      after.any (·.tokensReported) = before.any (·.tokensReported) := by
  constructor
  · exact fun same => congrArg UsageTotals.tokensReported same
  · intro sameReported
    simp only [totalsOf, regroups.workMs, sameReported,
      regroups.sumOf (·.input) fun _ _ summary => summary.input,
      regroups.sumOf (·.output) fun _ _ summary => summary.output,
      regroups.sumOf Row.charged fun _ _ summary => summary.charged]

end Regroups

end Murage.UsageLedger
