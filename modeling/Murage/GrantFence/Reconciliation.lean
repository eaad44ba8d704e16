import Murage.GrantFence.Revisions

/-!
Owns the demands for a read-back over whole runs. A demand is held in four
columns of the row and in the journal, and each is cleared by another statement;
the invariant says what every observation that was not published still has: a
published snapshot that covers it, or the flag together with a due revision at or
above it.

Does not own: when the sweeps run.
-/

namespace Murage.GrantFence

open Murage.Library.Batch
open Murage.Library.Transition

/-- An observation at `v` has what keeps it from being lost. -/
def FenceRow.Demands (row : FenceRow) (v : Nat) : Prop :=
  (∃ snapshot, row.snapshotRevision = some snapshot ∧ v ≤ snapshot) ∨
    row.needsReconcile = true ∧ ∃ due, row.snapshotDueRevision = some due ∧ v ≤ due

/-- The row against what read-backs observed. -/
structure RowReconciled (unpublished : List Nat) (row : FenceRow) : Prop where
  snapshot : ∀ snapshot, row.snapshotRevision = some snapshot → snapshot ≤ row.appliedRevision
  due : ∀ due, row.snapshotDueRevision = some due → due ≤ row.appliedRevision
  demands : ∀ v ∈ unpublished, row.Demands v

/-- The invariant of the demands. -/
structure Reconciled (s : FenceSystem) : Prop where
  fenced : Fenced s
  absent : s.db.row = none → s.history.unpublished = []
  row : ∀ row, s.db.row = some row → RowReconciled s.history.unpublished row
  epochs : ∀ row, s.db.row = some row → ∀ entry ∈ s.db.journal, entry.epoch ≤ row.epoch

/-! ## The row, statement by statement -/

variable {unpublished : List Nat}

theorem RowReconciled.updated {row after : FenceRow} (reconciled : RowReconciled unpublished row)
    (applied : row.appliedRevision ≤ after.appliedRevision)
    (snapshot : after.snapshotRevision = row.snapshotRevision)
    (due : after.snapshotDueRevision = row.snapshotDueRevision)
    (needs : after.needsReconcile = row.needsReconcile) : RowReconciled unpublished after where
  snapshot value isValue := Nat.le_trans (reconciled.snapshot value (snapshot ▸ isValue)) applied
  due value isValue := Nat.le_trans (reconciled.due value (due ▸ isValue)) applied
  demands v isIn := by
    unfold FenceRow.Demands
    rw [snapshot, due, needs]
    exact reconciled.demands v isIn

/-- A settlement clears the flag only of a row whose snapshot covers its due
revision. -/
theorem FenceRow.Demands.settled {row : FenceRow} {v : Nat} (demands : row.Demands v) (now : Nat)
    (c : FenceClaim) (a : Settlement) : (row.settled now c a).Demands v := by
  rcases demands with covered | ⟨needs, due, isDue, atMost⟩
  · exact Or.inl covered
  · cases still : row.stillDue a with
    | true => exact Or.inr ⟨still, due, isDue, atMost⟩
    | false =>
      unfold stillDue at still
      rw [isDue, Option.any_some] at still
      split_ifs at still with reconcile uncovered
      · cases isSnapshot : row.snapshotRevision with
        | none => exact absurd (by simp [isSnapshot]) uncovered
        | some snapshot =>
          rw [isSnapshot, Option.all_some, decide_eq_true_iff] at uncovered
          exact Or.inl ⟨snapshot, isSnapshot, by omega⟩
      · exact absurd (needs.symm.trans still) (by simp)

theorem RowReconciled.settled {row : FenceRow} (reconciled : RowReconciled unpublished row)
    (now : Nat) (c : FenceClaim) (a : Settlement) :
    RowReconciled unpublished (row.settled now c a) where
  snapshot value isValue := Nat.le_trans (reconciled.snapshot value isValue) (Nat.le_max_left _ _)
  due value isValue := Nat.le_trans (reconciled.due value isValue) (Nat.le_max_left _ _)
  demands v isIn := (reconciled.demands v isIn).settled now c a

theorem RowReconciled.published {row : FenceRow} (reconciled : RowReconciled unpublished row)
    (now : Nat) {r : RemoteGrantState} (newest : row.appliedRevision ≤ r.appliedRevision) :
    RowReconciled unpublished ((row.published now r).raised now r) where
  snapshot value isValue := by
    obtain rfl : r.appliedRevision = value := Option.some.inj isValue
    exact Nat.le_max_right _ _
  due value isValue := by
    have before := (Option.filter_eq_some_iff.mp isValue).1
    exact Nat.le_trans (reconciled.due value before) (Nat.le_max_left _ _)
  demands v isIn := by
    refine Or.inl ⟨r.appliedRevision, rfl, ?_⟩
    rcases reconciled.demands v isIn with ⟨snapshot, isSnapshot, atMost⟩ | ⟨-, due, isDue, atMost⟩
    · have := reconciled.snapshot snapshot isSnapshot
      omega
    · have := reconciled.due due isDue
      omega

/-- An observation that is not published demands another read-back, unless a
snapshot covers it. -/
theorem RowReconciled.observed {row : FenceRow} (reconciled : RowReconciled unpublished row)
    (now : Nat) (r : RemoteGrantState) :
    RowReconciled (unpublished ++ [r.appliedRevision])
      ((if row.uncovered r then row.demanding r else row).raised now r) := by
  split_ifs with uncovered
  · refine ⟨fun value isValue => ?_, fun value isValue => ?_, fun v isIn => Or.inr ⟨rfl, _, rfl, ?_⟩⟩
    · exact Nat.le_trans (reconciled.snapshot value isValue) (Nat.le_max_left _ _)
    · obtain rfl : max (row.snapshotDueRevision.getD 0) r.appliedRevision = value :=
        Option.some.inj isValue
      have dueBound : row.snapshotDueRevision.getD 0 ≤ row.appliedRevision := by
        cases isDue : row.snapshotDueRevision with
        | none => exact Nat.zero_le _
        | some due => exact reconciled.due due isDue
      change max (row.snapshotDueRevision.getD 0) r.appliedRevision ≤
        max row.appliedRevision r.appliedRevision
      omega
    · rcases List.mem_append.mp isIn with earlier | isNew
      · -- no snapshot reaches this observation, so an earlier one it covers lies below it
        rcases reconciled.demands v earlier with ⟨snapshot, isSnapshot, atMost⟩ |
          ⟨-, due, isDue, atMost⟩
        · unfold FenceRow.uncovered at uncovered
          rw [isSnapshot, Option.all_some, decide_eq_true_iff] at uncovered
          omega
        · rw [isDue, Option.getD_some]
          omega
      · rw [List.mem_singleton.mp isNew]
        exact Nat.le_max_right _ _
  · refine ⟨fun value isValue => ?_, fun value isValue => ?_, fun v isIn => ?_⟩
    · exact Nat.le_trans (reconciled.snapshot value isValue) (Nat.le_max_left _ _)
    · exact Nat.le_trans (reconciled.due value isValue) (Nat.le_max_left _ _)
    · rcases List.mem_append.mp isIn with earlier | isNew
      · exact reconciled.demands v earlier
      · rw [List.mem_singleton.mp isNew]
        unfold FenceRow.uncovered at uncovered
        cases isSnapshot : row.snapshotRevision with
        | none => exact absurd (by simp [isSnapshot]) uncovered
        | some snapshot =>
          rw [isSnapshot, Option.all_some, decide_eq_true_iff] at uncovered
          exact Or.inl ⟨snapshot, isSnapshot, by omega⟩

/-! ## One step -/

namespace Reconciled

variable {s : FenceSystem}

theorem claim (reconciled : Reconciled s) (request : ClaimRequest) :
    Reconciled (s.claim request) := by
  have fencedAfter := reconciled.fenced.claim request
  have found : RowReconciled s.history.unpublished (claimableRow s.clock request s.db) ∧
      ∀ entry ∈ s.db.journal, entry.epoch ≤ (claimableRow s.clock request s.db).epoch := by
    unfold claimableRow
    cases isRow : s.db.row with
    | some row => exact ⟨reconciled.row row isRow, reconciled.epochs row isRow⟩
    | none =>
      have noRevisions := (reconciled.fenced.absent isRow).1
      rw [← reconciled.fenced.journaled, List.map_eq_nil_iff] at noRevisions
      refine ⟨⟨by simp, by simp, by simp [reconciled.absent isRow]⟩, by simp [noRevisions]⟩
  refine ⟨fencedAfter, ?_, ?_, ?_⟩ <;> unfold FenceSystem.claim <;> rw [claimGrantFence_eq] <;>
    split_ifs with free
  · simp
  · simp
  · intro row isRow
    obtain rfl := Option.some.inj isRow
    exact found.1.updated (Nat.le_refl _) rfl rfl rfl
  · intro row isRow
    obtain rfl := Option.some.inj isRow
    exact found.1
  · intro row isRow entry isIn
    obtain rfl := Option.some.inj isRow
    exact Nat.le_succ_of_le (found.2 entry isIn)
  · intro row isRow entry isIn
    obtain rfl := Option.some.inj isRow
    exact found.2 entry isIn

theorem allocate (reconciled : Reconciled s) (c : FenceClaim) (a : AllocationRequest) :
    Reconciled (s.allocate c a) := by
  have fencedAfter := reconciled.fenced.allocate c a
  have allocation := allocateFenceRevision_eq s.clock c a s.db
  cases taken : s.db.row.filter (s.db.allocatable s.clock c a) with
  | none =>
    rw [taken] at allocation
    refine ⟨fencedAfter, ?_, ?_, ?_⟩ <;> unfold FenceSystem.allocate <;> rw [allocation]
    · exact reconciled.absent
    · exact reconciled.row
    · exact reconciled.epochs
  | some row =>
    obtain ⟨isRow, -, -, -, -, -, -, fresh⟩ := reconciled.fenced.of_allocated taken
    rw [taken] at allocation
    simp only [fresh, Bool.false_eq_true, if_false] at allocation
    refine ⟨fencedAfter, ?_, ?_, ?_⟩ <;> unfold FenceSystem.allocate <;> rw [allocation]
    · simp
    · intro after isAfter
      obtain rfl := Option.some.inj isAfter
      exact (reconciled.row row isRow).updated (Nat.le_refl _) rfl rfl rfl
    · intro after isAfter entry isIn
      obtain rfl := Option.some.inj isAfter
      rcases List.mem_append.mp isIn with earlier | isNew
      · exact reconciled.epochs row isRow entry earlier
      · rw [List.mem_singleton.mp isNew]
        exact Nat.le_refl _

theorem kept (reconciled : Reconciled s) {next : FenceSystem} (fenced : Fenced next)
    {set : FenceRow → FenceRow} {end_ : Revision → Revision}
    (row : next.db.row = s.db.row.map set) (journal : next.db.journal = s.db.journal.map end_)
    (absent : s.db.row = none → next.history.unpublished = s.history.unpublished)
    (updated : ∀ row, s.db.row = some row → RowReconciled s.history.unpublished row →
      RowReconciled next.history.unpublished (set row) ∧ (set row).epoch = row.epoch)
    (epoch : ∀ entry, (end_ entry).epoch = entry.epoch) : Reconciled next := by
  refine ⟨fenced, fun gone => ?_, fun after isAfter => ?_, fun after isAfter entry isIn => ?_⟩
  · rw [row, Option.map_eq_none_iff] at gone
    rw [absent gone, reconciled.absent gone]
  · rw [row, Option.map_eq_some_iff] at isAfter
    obtain ⟨before, isBefore, rfl⟩ := isAfter
    exact (updated before isBefore (reconciled.row before isBefore)).1
  · rw [row, Option.map_eq_some_iff] at isAfter
    obtain ⟨before, isBefore, rfl⟩ := isAfter
    rw [journal] at isIn
    obtain ⟨source, sourceMember, rfl⟩ := List.mem_map.mp isIn
    rw [epoch, (updated before isBefore (reconciled.row before isBefore)).2]
    exact reconciled.epochs before isBefore source sourceMember

theorem readBack (reconciled : Reconciled s) (r : RemoteGrantState) (seenSeq : Option Nat) :
    Reconciled (s.readBack r seenSeq) := by
  obtain ⟨rowAfter, journalAfter, answer⟩ := recordReconciled_spec s.clock r seenSeq s.db
  refine reconciled.kept (reconciled.fenced.readBack r seenSeq) rowAfter journalAfter
    (fun gone => ?_) (fun row isRow rowReconciled => ⟨?_, (row.readBack_fields _ _ _).1⟩)
    fun entry => (entry.afterReadBack_fields s.clock r).2
  · unfold FenceSystem.readBack recorded
    simp [gone]
  · unfold FenceSystem.readBack FenceRow.readBack
    dsimp only
    rw [answer, isRow, Option.any_some]
    cases publishes : row.publishes r seenSeq with
    | true =>
      have newest : row.appliedRevision ≤ r.appliedRevision := by
        unfold FenceRow.publishes at publishes
        simp only [Bool.and_eq_true, decide_eq_true_iff] at publishes
        exact publishes.2
      have covered : ((row.published s.clock r).uncovered r) = false := by
        simp [FenceRow.uncovered, FenceRow.published]
      simpa [covered] using rowReconciled.published s.clock newest
    | false => simpa [recorded, isRow] using rowReconciled.observed s.clock r

theorem step (reconciled : Reconciled s) (event : FenceEvent) : Reconciled (s.apply event) := by
  have fencedAfter := reconciled.fenced.step event
  have rowKept : ∀ row, s.db.row = some row → RowReconciled s.history.unpublished row →
      RowReconciled s.history.unpublished row ∧ row.epoch = row.epoch :=
    fun _ _ rowReconciled => ⟨rowReconciled, rfl⟩
  cases event with
  | wait ms => exact ⟨fencedAfter, reconciled.absent, reconciled.row, reconciled.epochs⟩
  | claim request => exact reconciled.claim request
  | allocate c a => exact reconciled.allocate c a
  | settle c a =>
    obtain ⟨rowAfter, journalAfter⟩ := settleFenceRevision_spec s.clock c a s.db
    exact reconciled.kept fencedAfter rowAfter journalAfter (fun _ => rfl)
      (fun row _ rowReconciled => ⟨rowReconciled.settled s.clock c a, rfl⟩)
      fun entry => (entry.afterSettlement_fields s.clock a).2
  | abandon revision =>
    have sameRow : (s.apply (.abandon revision)).db.row = s.db.row.map id := by
      simp [FenceSystem.apply, abandonFenceRevision_eq]
    exact reconciled.kept fencedAfter sameRow
      (congrArg FenceDb.journal (abandonFenceRevision_eq s.clock revision s.db)) (fun _ => rfl)
      rowKept
      fun entry => (entry.endedIf_fields _ _ _).2
  | release c =>
    have sameJournal : (s.apply (.release c)).db.journal = s.db.journal.map id := by
      simp [FenceSystem.apply, releaseGrantFence_eq]
    exact reconciled.kept fencedAfter (congrArg FenceDb.row (releaseGrantFence_eq c s.db))
      sameJournal (fun _ => rfl)
      (fun row _ rowReconciled => ⟨rowReconciled.updated (Nat.le_refl _) rfl rfl rfl, rfl⟩)
      fun _ => rfl
  | attempt =>
    have sameJournal : (s.apply .attempt).db.journal = s.db.journal.map id := by
      simp [FenceSystem.apply, stampReadAttempt_eq]
    exact reconciled.kept fencedAfter (congrArg FenceDb.row (stampReadAttempt_eq s.clock s.db))
      sameJournal (fun _ => rfl)
      (fun row _ rowReconciled => ⟨rowReconciled.updated (Nat.le_refl _) rfl rfl rfl, rfl⟩)
      fun _ => rfl
  | readBack r seenSeq => exact reconciled.readBack r seenSeq

theorem start (clock : Nat) : Reconciled (FenceSystem.start clock) :=
  ⟨Fenced.start clock, fun _ => rfl, by simp [FenceSystem.start], by simp [FenceSystem.start]⟩

end Reconciled

theorem FenceRun.reconciled {clock : Nat} {events : List FenceEvent} {s : FenceSystem}
    (run : FenceRun clock events s) : Reconciled s :=
  run.invariant (Reconciled.start clock) fun _ event _ reconciled taken =>
    taken ▸ reconciled.step event

/-! ## Revisions that may still land -/

/-- The entry's request may have been sent and is not settled: its outcome is
unknown, or it has none and its owner is gone. -/
def PossiblySent (clock : Nat) (row : FenceRow) (entry : Revision) : Prop :=
  entry.outcome = some (.settled .unknown) ∨
    entry.outcome = none ∧ ¬∃ owner, row.owner = some owner ∧ clock < owner.expiresAt ∧
      row.epoch = entry.epoch

/-- The event settles the revision definitively, or abandons it as never sent. -/
def Resolves (revision : Nat) : FenceEvent → Prop
  | .settle _ a => a.revision = revision ∧ a.outcome ≠ .unknown
  | .abandon abandoned => abandoned = revision
  | _ => False

/-- The revision may still land, or Flux is recorded at or above it. -/
def Tracked (s : FenceSystem) (revision : Nat) : Prop :=
  ∃ row, s.db.row = some row ∧ (revision ≤ row.appliedRevision ∨
    ∃ entry ∈ s.db.journal, entry.revision = revision ∧ PossiblySent s.clock row entry)

namespace PossiblySent

variable {clock : Nat} {row after : FenceRow} {entry : Revision}

theorem mono (sent : PossiblySent clock row entry) {later : Nat} (clockLater : clock ≤ later)
    (owner : ∀ owner, after.owner = some owner → after.epoch = entry.epoch →
      row.owner = some owner ∧ row.epoch = entry.epoch) : PossiblySent later after entry := by
  rcases sent with unknown | ⟨open_, gone⟩
  · exact Or.inl unknown
  · refine Or.inr ⟨open_, ?_⟩
    rintro ⟨held, isOwner, unexpired, epoch⟩
    obtain ⟨before, beforeEpoch⟩ := owner held isOwner epoch
    exact gone ⟨held, before, by omega, beforeEpoch⟩

theorem unresolved (sent : PossiblySent clock row entry) : entry.unresolved = true := by
  unfold Revision.unresolved
  rcases sent with unknown | ⟨open_, -⟩
  · simp [unknown]
  · simp [open_]

theorem fenceDue {db : FenceDb} (sent : PossiblySent clock row entry) (isRow : db.row = some row)
    (isIn : entry ∈ db.journal) (above : row.appliedRevision < entry.revision)
    (epoch : entry.epoch ≤ row.epoch) : GrantFence.fenceDue clock db = true := by
  have lands : entry.mayLand clock row = true := by
    unfold Revision.mayLand
    rcases sent with unknown | ⟨open_, gone⟩
    · simp [unknown, above]
    · by_cases behind : entry.epoch < row.epoch
      · simp [open_, above, behind]
      · have isEpoch : row.epoch = entry.epoch := by omega
        have expired : (row.owner.all fun owner => decide (owner.expiresAt ≤ clock)) = true := by
          cases isOwner : row.owner with
          | none => rfl
          | some owner =>
            rw [Option.all_some, decide_eq_true_iff]
            by_contra unexpired
            exact gone ⟨owner, isOwner, by omega, isEpoch⟩
        simp [open_, above, expired]
  unfold GrantFence.fenceDue
  rw [isRow, Option.any_some, Bool.or_eq_true, List.any_eq_true]
  exact Or.inr ⟨entry, isIn, lands⟩

end PossiblySent

namespace Tracked

variable {s : FenceSystem} {revision : Nat}

/-- An event that updates the row and the journal in place keeps the revision
tracked when it ends its entry only with a recorded revision at or above it. -/
theorem kept (tracked : Tracked s revision) {next : FenceSystem} {set : FenceRow → FenceRow}
    {end_ : Revision → Revision} (clock : s.clock ≤ next.clock)
    (row : next.db.row = s.db.row.map set) (journal : next.db.journal = s.db.journal.map end_)
    (updated : ∀ row, row.appliedRevision ≤ (set row).appliedRevision ∧
      (set row).epoch = row.epoch ∧ ∀ owner, (set row).owner = some owner → row.owner = some owner)
    (ends : ∀ row entry, entry.revision = revision → PossiblySent s.clock row entry →
      revision ≤ (set row).appliedRevision ∨
        (end_ entry).revision = revision ∧ PossiblySent s.clock row (end_ entry)) :
    Tracked next revision := by
  obtain ⟨before, isBefore, source⟩ := tracked
  obtain ⟨applied, epoch, owner⟩ := updated before
  refine ⟨set before, by rw [row, isBefore, Option.map_some], ?_⟩
  rcases source with recorded | ⟨entry, isIn, isRevision, sent⟩
  · exact Or.inl (Nat.le_trans recorded applied)
  · refine (ends before entry isRevision sent).imp_right fun ⟨ended, endedSent⟩ => ?_
    refine ⟨end_ entry, journal ▸ List.mem_map_of_mem isIn, ended, ?_⟩
    exact endedSent.mono clock fun held isOwner isEpoch =>
      ⟨owner held isOwner, epoch.symm.trans isEpoch⟩

theorem ended {row after : FenceRow} {entry : Revision} {clock value : Nat}
    {outcome : RevisionOutcome} {matching : Bool} (isRevision : entry.revision = revision)
    (sent : PossiblySent clock row entry) (within : matching = true → revision ≤ value)
    (applied : value ≤ after.appliedRevision) :
    revision ≤ after.appliedRevision ∨ (entry.endedIf matching clock outcome).revision = revision ∧
      PossiblySent clock row (entry.endedIf matching clock outcome) := by
  cases matching with
  | true => exact Or.inl (Nat.le_trans (within rfl) applied)
  | false => exact Or.inr ⟨isRevision, sent⟩

theorem settle (tracked : Tracked s revision) (c : FenceClaim) {a : Settlement}
    (open_ : ¬Resolves revision (.settle c a)) : Tracked (s.settle c a) revision := by
  obtain ⟨rowAfter, journalAfter⟩ := settleFenceRevision_spec s.clock c a s.db
  refine tracked.kept (Nat.le_refl _) rowAfter journalAfter
    (fun row => ⟨Nat.le_max_left _ _, rfl, fun _ => FenceRow.released_owner _⟩)
    fun row entry isRevision sent => ?_
  have settledSent : PossiblySent s.clock row
      (entry.endedIf (entry.revision == a.revision && entry.unresolved) s.clock (.settled a.outcome)) := by
    by_cases own : entry.revision = a.revision
    · have unknown : a.outcome = .unknown := by
        by_contra definitive
        exact open_ ⟨own ▸ isRevision, definitive⟩
      rw [unknown, sent.unresolved]
      simp [own, Revision.endedIf, Revision.ended, PossiblySent]
    · simpa [own, Revision.endedIf] using sent
  have atMost : a.applied ≤ (row.settled s.clock c a).appliedRevision := Nat.le_max_right _ _
  refine ended (((entry.endedIf_fields _ _ _).1).trans isRevision) settledSent
    (fun matching => ?_) atMost
  rw [Bool.and_eq_true, decide_eq_true_iff, (entry.endedIf_fields _ _ _).1] at matching
  omega

theorem readBack (tracked : Tracked s revision) (r : RemoteGrantState) (seenSeq : Option Nat) :
    Tracked (s.readBack r seenSeq) revision := by
  obtain ⟨rowAfter, journalAfter, -⟩ := recordReconciled_spec s.clock r seenSeq s.db
  refine tracked.kept (Nat.le_refl _) rowAfter journalAfter (fun row => ?_)
    fun row entry isRevision sent => ?_
  · obtain ⟨epoch, owner, -, applied⟩ := row.readBack_fields s.clock r seenSeq
    exact ⟨by rw [applied]; exact Nat.le_max_left _ _, epoch, fun _ owned => owner ▸ owned⟩
  · have applied := (row.readBack_fields s.clock r seenSeq).2.2.2
    have atMost : r.appliedRevision ≤ (row.readBack s.clock r seenSeq).appliedRevision := by
      rw [applied]
      exact Nat.le_max_right _ _
    refine ended isRevision sent (fun matching => ?_) atMost
    rw [Bool.and_eq_true, decide_eq_true_iff] at matching
    omega

theorem step (tracked : Tracked s revision) (reconciled : Reconciled s) {event : FenceEvent}
    (open_ : ¬Resolves revision event) : Tracked (s.apply event) revision := by
  have rowKept : ∀ row : FenceRow, row.appliedRevision ≤ row.appliedRevision ∧
      row.epoch = row.epoch ∧ ∀ owner, row.owner = some owner → row.owner = some owner :=
    fun _ => ⟨Nat.le_refl _, rfl, fun _ => id⟩
  cases event with
  | wait ms =>
    have sameRow : s.db.row = s.db.row.map id := Option.map_id'.symm
    have sameJournal : s.db.journal = s.db.journal.map id := (List.map_id _).symm
    exact tracked.kept (Nat.le_add_right _ _) sameRow sameJournal rowKept fun _ _ isRevision sent => Or.inr ⟨isRevision, sent⟩
  | claim request =>
    obtain ⟨row, isRow, source⟩ := tracked
    have isClaimable : claimableRow s.clock request s.db = row := by
      unfold claimableRow
      rw [isRow, Option.getD_some]
    have claimed : ∃ after, (s.claim request).db =
        { s.db with row := some after } ∧ after.appliedRevision = row.appliedRevision ∧
        ∀ entry ∈ s.db.journal, ∀ owner, after.owner = some owner → after.epoch = entry.epoch →
          row.owner = some owner ∧ row.epoch = entry.epoch := by
      unfold FenceSystem.claim
      rw [claimGrantFence_eq, isClaimable]
      split_ifs with free
      · refine ⟨_, rfl, rfl, fun entry isIn owner _ isEpoch => ?_⟩
        -- the new epoch is above every journaled one
        have atMost := reconciled.epochs row isRow entry isIn
        have : row.epoch + 1 = entry.epoch := isEpoch
        omega
      · exact ⟨_, rfl, rfl, fun _ _ _ isOwner isEpoch => ⟨isOwner, isEpoch⟩⟩
    obtain ⟨after, isAfter, applied, owner⟩ := claimed
    refine ⟨after, congrArg FenceDb.row isAfter, ?_⟩
    rcases source with recorded | ⟨entry, isIn, isRevision, sent⟩
    · exact Or.inl (applied ▸ recorded)
    · refine Or.inr ⟨entry, ?_, isRevision, sent.mono (Nat.le_refl _) (owner entry isIn)⟩
      change entry ∈ (s.claim request).db.journal
      rw [isAfter]
      exact isIn
  | allocate c a =>
    have allocation := allocateFenceRevision_eq s.clock c a s.db
    obtain ⟨row, isRow, source⟩ := tracked
    have allocated : ∃ after more, (s.allocate c a).db.row = some after ∧
        (s.allocate c a).db.journal = s.db.journal ++ more ∧
        after.appliedRevision = row.appliedRevision ∧ after.owner = row.owner ∧
        after.epoch = row.epoch := by
      unfold FenceSystem.allocate
      rw [allocation]
      split
      · exact ⟨row, [], isRow, by simp, rfl, rfl, rfl⟩
      · rename_i found taken
        have isFound := (Option.filter_eq_some_iff.mp taken).1
        obtain rfl := Option.some.inj (isRow.symm.trans isFound)
        split_ifs
        · exact ⟨row, [], isRow, by simp, rfl, rfl, rfl⟩
        · exact ⟨_, _, rfl, rfl, rfl, rfl, rfl⟩
    obtain ⟨after, more, isAfter, journal, applied, owner, epoch⟩ := allocated
    refine ⟨after, isAfter, ?_⟩
    rcases source with recorded | ⟨entry, isIn, isRevision, sent⟩
    · exact Or.inl (applied ▸ recorded)
    · refine Or.inr ⟨entry, ?_, isRevision, sent.mono (Nat.le_refl _) fun held isOwner isEpoch =>
        ⟨owner ▸ isOwner, epoch ▸ isEpoch⟩⟩
      change entry ∈ (s.allocate c a).db.journal
      rw [journal]
      exact List.mem_append_left _ isIn
  | settle c a => exact tracked.settle c open_
  | abandon abandoned =>
    have sameRow : (s.apply (.abandon abandoned)).db.row = s.db.row.map id := by
      simp [FenceSystem.apply, abandonFenceRevision_eq]
    refine tracked.kept (Nat.le_refl _) sameRow
      (congrArg FenceDb.journal (abandonFenceRevision_eq s.clock abandoned s.db)) rowKept
      fun row entry isRevision sent => Or.inr ?_
    have other : entry.revision ≠ abandoned := fun same => open_ (same.symm.trans isRevision)
    simpa [Revision.endedIf, other] using ⟨isRevision, sent⟩
  | release c =>
    have sameJournal : (s.apply (.release c)).db.journal = s.db.journal.map id := by
      simp [FenceSystem.apply, releaseGrantFence_eq]
    exact tracked.kept (Nat.le_refl _) (congrArg FenceDb.row (releaseGrantFence_eq c s.db))
      sameJournal
      (fun row => ⟨Nat.le_refl _, rfl, fun _ => row.released_owner⟩)
      fun _ _ isRevision sent => Or.inr ⟨isRevision, sent⟩
  | attempt =>
    have sameJournal : (s.apply .attempt).db.journal = s.db.journal.map id := by
      simp [FenceSystem.apply, stampReadAttempt_eq]
    exact tracked.kept (Nat.le_refl _) (congrArg FenceDb.row (stampReadAttempt_eq s.clock s.db))
      sameJournal
      (fun row => ⟨Nat.le_refl _, rfl, fun _ => id⟩)
      fun _ _ isRevision sent => Or.inr ⟨isRevision, sent⟩
  | readBack r seenSeq => exact tracked.readBack r seenSeq

end Tracked

/-! ## Runs -/

theorem snapshot_kept {s : FenceSystem} {row : FenceRow} {snapshot : Nat}
    (reconciled : RowReconciled s.history.unpublished row) (isRow : s.db.row = some row)
    (isSnapshot : row.snapshotRevision = some snapshot) (event : FenceEvent) :
    ∃ after newer, (s.apply event).db.row = some after ∧
      after.snapshotRevision = some newer ∧ snapshot ≤ newer := by
  have same : ∀ after, (s.apply event).db.row = some after →
      after.snapshotRevision = row.snapshotRevision →
      ∃ after newer, (s.apply event).db.row = some after ∧
        after.snapshotRevision = some newer ∧ snapshot ≤ newer :=
    fun after isAfter unchanged =>
      ⟨after, snapshot, isAfter, unchanged.trans isSnapshot, Nat.le_refl _⟩
  cases event with
  | wait ms => exact same row isRow rfl
  | claim request =>
    have isClaimable : claimableRow s.clock request s.db = row := by
      unfold claimableRow
      rw [isRow, Option.getD_some]
    have claimed := claimGrantFence_eq s.clock request s.db
    rw [isClaimable] at claimed
    split_ifs at claimed
    · exact same (row.claimed s.clock request) (congrArg (fun pair => pair.1.row) claimed) rfl
    · exact same row (congrArg (fun pair => pair.1.row) claimed) rfl
  | allocate c a =>
    have allocation := allocateFenceRevision_eq s.clock c a s.db
    split at allocation
    · exact same row ((congrArg (fun pair => pair.1.row) allocation).trans isRow) rfl
    · rename_i found taken
      obtain rfl := Option.some.inj (isRow.symm.trans (Option.filter_eq_some_iff.mp taken).1)
      split_ifs at allocation
      · exact same row ((congrArg (fun pair => pair.1.row) allocation).trans isRow) rfl
      · exact same (row.allocated s.clock a) (congrArg (fun pair => pair.1.row) allocation) rfl
  | settle c a =>
    have after := (settleFenceRevision_spec s.clock c a s.db).1
    rw [isRow] at after
    exact same _ after rfl
  | abandon revision =>
    exact same row ((congrArg FenceDb.row (abandonFenceRevision_eq _ _ s.db)).trans isRow) rfl
  | release c =>
    have after := congrArg FenceDb.row (releaseGrantFence_eq c s.db)
    simp only [isRow, Option.map_some] at after
    exact same _ after rfl
  | attempt =>
    have after := congrArg FenceDb.row (stampReadAttempt_eq s.clock s.db)
    simp only [isRow, Option.map_some] at after
    exact same _ after rfl
  | readBack r seenSeq =>
    have after := (recordReconciled_spec s.clock r seenSeq s.db).1
    rw [isRow, Option.map_some] at after
    cases publishes : row.publishes r seenSeq with
    | false =>
      refine same _ after ?_
      unfold FenceRow.readBack
      rw [publishes]
      simp only [Bool.false_eq_true, if_false]
      split_ifs <;> rfl
    | true =>
      have newest : row.appliedRevision ≤ r.appliedRevision := by
        unfold FenceRow.publishes at publishes
        simp only [Bool.and_eq_true, decide_eq_true_iff] at publishes
        exact publishes.2
      have bound := reconciled.snapshot snapshot isSnapshot
      refine ⟨_, r.appliedRevision, after, ?_, Nat.le_trans bound newest⟩
      unfold FenceRow.readBack
      rw [publishes]
      simp only [if_true]
      split_ifs <;> rfl

/-- **No demand is lost.** In every state a run reaches: the row is due while its
published snapshot lies below an observation that was not published; no event
replaces the published snapshot by an older one; and a revision that may still
land keeps the grant due, whatever happens, until an event resolves it or Flux is
recorded at or above it. -/
theorem reconciliation_demands_kept {clock : Nat} {events : List FenceEvent} {s : FenceSystem}
    (run : FenceRun clock events s) {row : FenceRow} (isRow : s.db.row = some row) :
    (∀ v ∈ s.history.unpublished,
      (∀ snapshot, row.snapshotRevision = some snapshot → snapshot < v) →
        row.needsReconcile = true) ∧
      (∀ event snapshot, row.snapshotRevision = some snapshot →
        ∃ after newer, (s.apply event).db.row = some after ∧
          after.snapshotRevision = some newer ∧ snapshot ≤ newer) ∧
      ∀ entry ∈ s.db.journal, PossiblySent s.clock row entry →
        ∀ (later : List FenceEvent) (next : FenceSystem),
          Run (ofFunction FenceSystem.apply) s later next →
          (∀ event ∈ later, ¬Resolves entry.revision event) →
          ∃ after, next.db.row = some after ∧
            (entry.revision ≤ after.appliedRevision ∨ fenceDue next.clock next.db = true) := by
  have reconciled := run.reconciled
  have rowReconciled := reconciled.row row isRow
  refine ⟨fun v member uncovered => ?_, fun event snapshot isSnapshot => ?_, ?_⟩
  · rcases rowReconciled.demands v member with ⟨snapshot, isSnapshot, atMost⟩ | ⟨needs, -⟩
    · have := uncovered snapshot isSnapshot
      omega
    · exact needs
  · exact snapshot_kept rowReconciled isRow isSnapshot event
  · intro entry member sent later next laterRun open_
    have tracked : Reconciled next ∧ Tracked next entry.revision := by
      refine @Run.invariant_of_mem _ _ _ _ _ _ (fun s => Reconciled s ∧ Tracked s entry.revision)
        laterRun ⟨reconciled, row, isRow, Or.inr ⟨entry, member, rfl, sent⟩⟩ ?_
      intro before event after eventMember ⟨beforeReconciled, beforeTracked⟩ taken
      rw [taken]
      exact ⟨beforeReconciled.step event, beforeTracked.step beforeReconciled (open_ event eventMember)⟩
    obtain ⟨nextReconciled, after, isAfter, source⟩ := tracked
    refine ⟨after, isAfter, ?_⟩
    by_cases recorded : entry.revision ≤ after.appliedRevision
    · exact Or.inl recorded
    · rcases source with atMost | ⟨ended, endedMember, isRevision, endedSent⟩
      · exact absurd atMost recorded
      · exact Or.inr (endedSent.fenceDue isAfter endedMember (by omega)
          (nextReconciled.epochs after isAfter ended endedMember))

def snapshotPublished : List FenceEvent :=
  [.claim { token := "first", kind := "b4" },
    .readBack { state := "active", appliedRevision := 5, remainingMicrocents := none } (some 0)]

/-- The read of revision 3 that began before it. -/
def lateRead : RemoteGrantState :=
  { state := "active", appliedRevision := 3, remainingMicrocents := none }

def unknownRevision : List FenceEvent :=
  [.claim { token := "first", kind := "b4" }, .allocate ⟨"first", 1⟩ { op := .grant },
    .settle ⟨"first", 1⟩ { revision := 1, outcome := .unknown }]

def lateRefusal : FenceEvent := .settle ⟨"first", 1⟩ { revision := 1, outcome := .refused }

theorem reconciliation_demands_kept_unknownRevision :
    fenceDue 0 (unknownRevision.foldl FenceSystem.apply (FenceSystem.start 0)).db = true := by
  obtain ⟨row, isRow⟩ := Option.isSome_iff_exists.mp
    (show (unknownRevision.foldl FenceSystem.apply (FenceSystem.start 0)).db.row.isSome by decide)
  obtain ⟨after, isAfter, source⟩ :=
    (reconciliation_demands_kept (Run.foldl FenceSystem.apply (FenceSystem.start 0) unknownRevision)
      isRow).2.2
      ((unknownRevision.foldl FenceSystem.apply (FenceSystem.start 0)).db.journal.head (by decide))
      (by decide) (Or.inl (by decide)) [] _ Run.nil (by simp)
  refine source.resolve_left fun recorded => ?_
  have isZero : after.appliedRevision = 0 := by
    have applied := congrArg (Option.map FenceRow.appliedRevision) isAfter
    have zero : (unknownRevision.foldl FenceSystem.apply (FenceSystem.start 0)).db.row.map
        FenceRow.appliedRevision = some 0 := by decide
    exact Option.some.inj (applied.symm.trans zero)
  rw [isZero] at recorded
  exact absurd recorded (by decide)

/-- A snapshot published before a late read covers it, so nothing becomes due; and
a late refusal ends a demand below the revision it refused. -/
theorem covered_or_refused_is_not_due :
    (¬∀ (clock : Nat) (events : List FenceEvent) (s : FenceSystem) (r : RemoteGrantState)
        (seenSeq : Option Nat) (row : FenceRow), FenceRun clock events s →
        (recordReconciled s.clock r seenSeq s.db).2 = .ok false →
        (s.apply (.readBack r seenSeq)).db.row = some row → row.needsReconcile = true) ∧
      ¬∀ (clock : Nat) (events : List FenceEvent) (s : FenceSystem) (row : FenceRow),
        FenceRun clock events s → s.db.row = some row →
        ∀ entry ∈ s.db.journal, PossiblySent s.clock row entry →
          ∀ (later : List FenceEvent) (next : FenceSystem),
            Run (ofFunction FenceSystem.apply) s later next →
            ∃ after, next.db.row = some after ∧
              (entry.revision ≤ after.appliedRevision ∨ fenceDue next.clock next.db = true) := by
  constructor
  · intro due
    let s := snapshotPublished.foldl FenceSystem.apply (FenceSystem.start 0)
    have needs := due 0 snapshotPublished s lateRead (some 0)
      ((s.apply (.readBack lateRead (some 0))).db.row.get (by decide)) (Run.foldl _ _ _)
      (by decide) (by decide)
    exact absurd needs (by decide)
  · intro kept
    let s := unknownRevision.foldl FenceSystem.apply (FenceSystem.start 0)
    obtain ⟨after, isAfter, source⟩ := kept 0 unknownRevision s (s.db.row.get (by decide))
      (Run.foldl _ _ _) (by decide) (s.db.journal.head (by decide)) (by decide) (Or.inl (by decide))
      [lateRefusal] (s.apply lateRefusal) (Run.nil.snoc rfl)
    have applied := congrArg (Option.map FenceRow.appliedRevision) isAfter
    have zero : (s.apply lateRefusal).db.row.map FenceRow.appliedRevision = some 0 := by decide
    have isZero : after.appliedRevision = 0 := Option.some.inj (applied.symm.trans zero)
    rcases source with recorded | due
    · rw [isZero] at recorded
      exact absurd recorded (by decide)
    · exact absurd due (by decide)

end Murage.GrantFence
