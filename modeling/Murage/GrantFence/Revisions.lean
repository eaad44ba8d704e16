import Murage.GrantFence.Operations
import Murage.Library.Transition

/-!
Owns the revisions of a grant over whole runs: they strictly ascend, each is
journaled once, and only the current owner is given one. The invariant ties the
row to the history: `next_revision` bounds the revisions returned,
`applied_revision` what was recorded, and an owner in the row is the last claim
granted.

Does not own: which grants are due a read-back.
-/

namespace Murage.GrantFence

open Murage.Library.Batch
open Murage.Library.Transition

structure RowFenced (history : FenceHistory) (row : FenceRow) : Prop where
  revisions : ∀ revision ∈ history.revisions, revision ≤ row.nextRevision
  applied : ∀ applied ∈ history.applied, applied ≤ row.appliedRevision
  epochs : ∀ claim ∈ history.claims, claim.epoch ≤ row.epoch
  owner : ∀ owner, row.owner = some owner →
    history.claims.getLast? = some ⟨owner.token, row.epoch⟩

structure Fenced (s : FenceSystem) : Prop where
  journaled : s.db.journal.map (·.revision) = s.history.revisions
  ascending : s.history.revisions.Pairwise (· < ·)
  epochs : s.history.claims.Pairwise fun earlier later => earlier.epoch < later.epoch
  absent : s.db.row = none →
    s.history.revisions = [] ∧ s.history.applied = [] ∧ s.history.claims = []
  row : ∀ row, s.db.row = some row → RowFenced s.history row

/-! ## One step -/

theorem RowFenced.updated {history : FenceHistory} {row after : FenceRow}
    (fenced : RowFenced history row) (next : row.nextRevision ≤ after.nextRevision)
    (applied : row.appliedRevision ≤ after.appliedRevision) (epoch : after.epoch = row.epoch)
    (owner : ∀ owner, after.owner = some owner → row.owner = some owner) :
    RowFenced history after where
  revisions revision isIn := Nat.le_trans (fenced.revisions revision isIn) next
  applied value isIn := Nat.le_trans (fenced.applied value isIn) applied
  epochs claim isIn := epoch ▸ fenced.epochs claim isIn
  owner value owned := epoch ▸ fenced.owner value (owner value owned)

theorem RowFenced.recorded {history : FenceHistory} {row : FenceRow} {value : Nat}
    (fenced : RowFenced history row) (atMost : value ≤ row.appliedRevision)
    (unpublished : List Nat) :
    RowFenced { history with
      applied := history.applied ++ [value], unpublished := unpublished } row where
  revisions := fenced.revisions
  epochs := fenced.epochs
  owner := fenced.owner
  applied other isIn := by
    rcases List.mem_append.mp isIn with earlier | isValue
    · exact fenced.applied other earlier
    · rw [List.mem_singleton.mp isValue]
      exact atMost

namespace Fenced

variable {s : FenceSystem}

theorem claim (fenced : Fenced s) (request : ClaimRequest) :
    Fenced (s.claim request) := by
  have found : RowFenced s.history (claimableRow s.clock request s.db) := by
    unfold claimableRow
    cases isRow : s.db.row with
    | some row => exact fenced.row row isRow
    | none =>
      obtain ⟨noRevisions, noApplied, noClaims⟩ := fenced.absent isRow
      exact ⟨by simp [noRevisions], by simp [noApplied], by simp [noClaims], by simp⟩
  unfold FenceSystem.claim
  rw [claimGrantFence_eq]
  split_ifs with free
  · refine ⟨fenced.journaled, fenced.ascending, ?_, by simp, fun row isRow => ?_⟩
    · refine List.pairwise_append.mpr ⟨fenced.epochs, List.pairwise_singleton _ _, ?_⟩
      intro earlier isIn later isLater
      rw [List.mem_singleton.mp isLater]
      exact Nat.lt_succ_of_le (found.epochs earlier isIn)
    · obtain rfl := Option.some.inj isRow
      refine ⟨found.revisions, found.applied, fun claim isIn => ?_, fun owner owned => ?_⟩
      · rcases List.mem_append.mp isIn with earlier | isNew
        · exact Nat.le_trans (found.epochs claim earlier) (Nat.le_succ _)
        · rw [List.mem_singleton.mp isNew]
          exact Nat.le_refl _
      · obtain rfl := Option.some.inj owned
        exact List.getLast?_concat
  · refine ⟨fenced.journaled, fenced.ascending, ?_, by simp, fun row isRow => ?_⟩
    · simpa [resolved] using fenced.epochs
    · obtain rfl := Option.some.inj isRow
      exact ⟨found.revisions, found.applied, by simpa [resolved] using found.epochs,
        by simpa [resolved] using found.owner⟩

theorem of_allocated (fenced : Fenced s) {c : FenceClaim} {a : AllocationRequest} {row : FenceRow}
    (taken : s.db.row.filter (s.db.allocatable s.clock c a) = some row) :
    s.db.row = some row ∧ row.heldBy s.clock c = true ∧ s.db.supersedes a.logical = false ∧
      a.guard = true ∧ row.nextRevision < row.wireRevision (a.floor.getD 0) ∧
      row.appliedRevision < row.wireRevision (a.floor.getD 0) ∧
      a.floor.getD 0 ≤ (row.wireRevision (a.floor.getD 0) : Int) ∧
      s.db.journal.any (·.revision == row.wireRevision (a.floor.getD 0)) = false := by
  obtain ⟨isRow, allocatable⟩ := Option.filter_eq_some_iff.mp taken
  unfold FenceDb.allocatable at allocatable
  simp only [Bool.and_eq_true, Bool.not_eq_true'] at allocatable
  obtain ⟨⟨held, notSuperseded⟩, guard⟩ := allocatable
  have above : row.nextRevision < row.wireRevision (a.floor.getD 0) := by
    unfold FenceRow.wireRevision
    omega
  refine ⟨isRow, held, notSuperseded, guard, above, ?_, ?_, ?_⟩
  · unfold FenceRow.wireRevision
    omega
  · unfold FenceRow.wireRevision
    omega
  · rw [List.any_eq_false]
    intro entry isIn journaled
    have listed := List.mem_map_of_mem (f := (·.revision)) isIn
    rw [fenced.journaled] at listed
    have atMost := (fenced.row row isRow).revisions _ listed
    have same : entry.revision = row.wireRevision (a.floor.getD 0) := by simpa using journaled
    omega

theorem allocate (fenced : Fenced s) (c : FenceClaim) (a : AllocationRequest) :
    Fenced (s.allocate c a) := by
  unfold FenceSystem.allocate
  rw [allocateFenceRevision_eq]
  cases taken : s.db.row.filter (s.db.allocatable s.clock c a) with
  | none => simpa [resolved] using fenced
  | some row =>
    obtain ⟨isRow, -, -, -, above, -, -, fresh⟩ := fenced.of_allocated taken
    have rowFenced := fenced.row row isRow
    simp only [fresh, Bool.false_eq_true, if_false, resolved]
    refine ⟨?_, ?_, fenced.epochs, by simp, fun after isAfter => ?_⟩
    · rw [List.map_append, fenced.journaled]
      rfl
    · refine List.pairwise_append.mpr ⟨fenced.ascending, List.pairwise_singleton _ _, ?_⟩
      intro earlier isIn later isLater
      rw [List.mem_singleton.mp isLater]
      exact Nat.lt_of_le_of_lt (rowFenced.revisions earlier isIn) above
    · obtain rfl := Option.some.inj isAfter
      refine ⟨fun revision isIn => ?_, rowFenced.applied, rowFenced.epochs, rowFenced.owner⟩
      rcases List.mem_append.mp isIn with earlier | isNew
      · exact Nat.le_trans (rowFenced.revisions revision earlier) (Nat.le_of_lt above)
      · rw [List.mem_singleton.mp isNew]
        exact Nat.le_refl _

theorem settle (fenced : Fenced s) (c : FenceClaim) (a : Settlement) :
    Fenced (s.settle c a) := by
  obtain ⟨rowAfter, journalAfter⟩ := settleFenceRevision_spec s.clock c a s.db
  refine ⟨?_, fenced.ascending, fenced.epochs, fun gone => ?_, fun after isAfter => ?_⟩
  · change (settleFenceRevision s.clock c a s.db).journal.map (·.revision) = _
    rw [journalAfter, List.map_map]
    refine Eq.trans ?_ fenced.journaled
    exact List.map_congr_left fun entry _ => (entry.afterSettlement_fields s.clock a).1
  · change (settleFenceRevision s.clock c a s.db).row = none at gone
    rw [rowAfter, Option.map_eq_none_iff] at gone
    simpa [FenceSystem.settle, recorded, gone] using fenced.absent gone
  · change (settleFenceRevision s.clock c a s.db).row = some after at isAfter
    rw [rowAfter, Option.map_eq_some_iff] at isAfter
    obtain ⟨row, isRow, rfl⟩ := isAfter
    have updated : RowFenced s.history (row.settled s.clock c a) :=
      (fenced.row row isRow).updated (Nat.le_refl _) (Nat.le_max_left _ _) rfl
        fun owner => FenceRow.released_owner _
    simpa [FenceSystem.settle, recorded, isRow] using
      updated.recorded (Nat.le_max_right _ _) s.history.unpublished

theorem readBack (fenced : Fenced s) (r : RemoteGrantState) (seenSeq : Option Nat) :
    Fenced (s.readBack r seenSeq) := by
  obtain ⟨rowAfter, journalAfter, -⟩ := recordReconciled_spec s.clock r seenSeq s.db
  refine ⟨?_, fenced.ascending, fenced.epochs, fun gone => ?_, fun after isAfter => ?_⟩
  · change (recordReconciled s.clock r seenSeq s.db).1.journal.map (·.revision) = _
    rw [journalAfter, List.map_map]
    refine Eq.trans ?_ fenced.journaled
    exact List.map_congr_left fun entry _ => (entry.afterReadBack_fields s.clock r).1
  · change (recordReconciled s.clock r seenSeq s.db).1.row = none at gone
    rw [rowAfter, Option.map_eq_none_iff] at gone
    simpa [FenceSystem.readBack, recorded, gone] using fenced.absent gone
  · change (recordReconciled s.clock r seenSeq s.db).1.row = some after at isAfter
    rw [rowAfter, Option.map_eq_some_iff] at isAfter
    obtain ⟨row, isRow, rfl⟩ := isAfter
    obtain ⟨epoch, owner, next, applied⟩ := row.readBack_fields s.clock r seenSeq
    have updated : RowFenced s.history (row.readBack s.clock r seenSeq) :=
      (fenced.row row isRow).updated (by rw [next]; exact Nat.le_max_left _ _)
        (by rw [applied]; exact Nat.le_max_left _ _) epoch fun _ owned => owner ▸ owned
    have atMost : r.appliedRevision ≤ (row.readBack s.clock r seenSeq).appliedRevision := by
      rw [applied]
      exact Nat.le_max_right _ _
    have recordedRow := updated.recorded atMost (s.readBack r seenSeq).history.unpublished
    simpa [FenceSystem.readBack, recorded, isRow] using recordedRow

theorem kept (fenced : Fenced s) {db : FenceDb}
    (journaled : db.journal.map (·.revision) = s.db.journal.map (·.revision)) {set : FenceRow → FenceRow}
    (row : db.row = s.db.row.map set)
    (updated : ∀ row, RowFenced s.history row → RowFenced s.history (set row)) :
    Fenced { s with db := db } := by
  refine ⟨journaled.trans fenced.journaled, fenced.ascending, fenced.epochs, fun gone => ?_,
    fun after isAfter => ?_⟩
  · change db.row = none at gone
    rw [row, Option.map_eq_none_iff] at gone
    exact fenced.absent gone
  · change db.row = some after at isAfter
    rw [row, Option.map_eq_some_iff] at isAfter
    obtain ⟨before, isBefore, rfl⟩ := isAfter
    exact updated before (fenced.row before isBefore)

theorem step (fenced : Fenced s) (event : FenceEvent) : Fenced (s.apply event) := by
  cases event with
  | wait ms => exact ⟨fenced.journaled, fenced.ascending, fenced.epochs, fenced.absent, fenced.row⟩
  | claim request => exact fenced.claim request
  | allocate c a => exact fenced.allocate c a
  | settle c a => exact fenced.settle c a
  | abandon revision =>
    simp only [FenceSystem.apply, abandonFenceRevision_eq]
    have sameRow : s.db.row = s.db.row.map id := Option.map_id'.symm
    refine fenced.kept ?_ sameRow fun _ => id
    rw [List.map_map]
    exact List.map_congr_left fun entry _ => (entry.endedIf_fields _ _ _).1
  | release c =>
    simp only [FenceSystem.apply, releaseGrantFence_eq]
    exact fenced.kept rfl rfl fun row rowFenced =>
      rowFenced.updated (Nat.le_refl _) (Nat.le_refl _) rfl fun _ => row.released_owner
  | attempt =>
    simp only [FenceSystem.apply, stampReadAttempt_eq]
    exact fenced.kept rfl rfl fun row rowFenced =>
      rowFenced.updated (Nat.le_refl _) (Nat.le_refl _) rfl fun _ => id
  | readBack r seenSeq => exact fenced.readBack r seenSeq

theorem start (clock : Nat) : Fenced (FenceSystem.start clock) :=
  ⟨rfl, List.Pairwise.nil, List.Pairwise.nil, fun _ => ⟨rfl, rfl, rfl⟩, by simp [FenceSystem.start]⟩

end Fenced

/-! ## Runs -/

abbrev FenceRun (clock : Nat) (events : List FenceEvent) (s : FenceSystem) : Prop :=
  Run (ofFunction FenceSystem.apply) (FenceSystem.start clock) events s

theorem FenceRun.fenced {clock : Nat} {events : List FenceEvent} {s : FenceSystem}
    (run : FenceRun clock events s) : Fenced s :=
  run.invariant (Fenced.start clock) fun _ event _ fenced taken => taken ▸ fenced.step event

/-- **The revisions of a grant.** In every state a run reaches the revisions
returned so far strictly ascend and the journal holds exactly them. The next
allocation never fails. A revision it returns is above all of these, above
everything recorded as applied and at least its floor, is journaled once, and goes
to the row's current unexpired owner, the last claim granted; an earlier claim is
refused and changes nothing, and so is a logical revision below a journaled one. -/
theorem allocateFenceRevision_fenced {clock : Nat} {events : List FenceEvent} {s : FenceSystem}
    (run : FenceRun clock events s) :
    s.history.revisions.Pairwise (· < ·) ∧
      s.db.journal.map (·.revision) = s.history.revisions ∧
      ∀ (c : FenceClaim) (a : AllocationRequest),
        (∃ answer, (allocateFenceRevision s.clock c a s.db).2 = .ok answer) ∧
        (∀ revision, (allocateFenceRevision s.clock c a s.db).2 = .ok (some revision) →
          (∀ earlier ∈ s.history.revisions, earlier < revision) ∧
          (∀ applied ∈ s.history.applied, applied < revision) ∧
          a.floor.getD 0 ≤ (revision : Int) ∧
          (∃ entry : Revision, entry.revision = revision ∧ entry.epoch = c.epoch ∧
            entry.outcome = none ∧
            (allocateFenceRevision s.clock c a s.db).1.journal = s.db.journal ++ [entry]) ∧
          (∃ row owner, s.db.row = some row ∧ row.owner = some owner ∧ owner.token = c.token ∧
            row.epoch = c.epoch ∧ s.clock < owner.expiresAt ∧ row.appliedRevision < revision) ∧
          s.history.claims.getLast? = some c) ∧
        (c ∈ s.history.claims.dropLast →
          allocateFenceRevision s.clock c a s.db = (s.db, .ok none)) ∧
        (∀ logical, a.logical = some logical →
          (∃ entry ∈ s.db.journal, ∃ later, entry.logicalRevision = some later ∧ logical < later) →
          allocateFenceRevision s.clock c a s.db = (s.db, .ok none)) := by
  have fenced := run.fenced
  refine ⟨fenced.ascending, fenced.journaled, fun c a => ?_⟩
  have allocation := allocateFenceRevision_eq s.clock c a s.db
  cases taken : s.db.row.filter (s.db.allocatable s.clock c a) with
  | none =>
    rw [taken] at allocation
    rw [allocation]
    exact ⟨⟨none, rfl⟩, by simp, fun _ => rfl, fun _ _ _ => rfl⟩
  | some row =>
    obtain ⟨isRow, held, notSuperseded, -, above, aboveApplied, floor, fresh⟩ :=
      fenced.of_allocated taken
    rw [taken] at allocation
    simp only [fresh, Bool.false_eq_true, if_false] at allocation
    unfold FenceRow.heldBy at held
    rw [Bool.and_eq_true, Option.any_eq_true, beq_iff_eq] at held
    obtain ⟨⟨owner, isOwner, ownerHolds⟩, epoch⟩ := held
    rw [Bool.and_eq_true, beq_iff_eq, decide_eq_true_iff] at ownerHolds
    have rowFenced := fenced.row row isRow
    have isLast : s.history.claims.getLast? = some c := by
      rw [rowFenced.owner owner isOwner, ownerHolds.1, epoch]
    rw [allocation]
    refine ⟨⟨_, rfl⟩, fun revision returned => ?_, fun earlier => ?_, fun logical asks later => ?_⟩
    · obtain rfl : row.wireRevision (a.floor.getD 0) = revision := by simpa using returned
      refine ⟨fun other member => Nat.lt_of_le_of_lt (rowFenced.revisions other member) above,
        fun value member => Nat.lt_of_le_of_lt (rowFenced.applied value member) aboveApplied, floor,
        ⟨_, rfl, epoch, rfl, rfl⟩, ⟨row, owner, isRow, isOwner, ownerHolds.1, epoch,
          ownerHolds.2, aboveApplied⟩, isLast⟩
    · -- epochs ascend along the granted claims, so only the last has the row's
      obtain ⟨before, split⟩ := List.getLast?_eq_some_iff.mp isLast
      have epochs := fenced.epochs
      rw [split] at earlier epochs
      rw [List.dropLast_concat] at earlier
      exact absurd ((List.pairwise_append.mp epochs).2.2 c earlier c (by simp)) (Nat.lt_irrefl _)
    · obtain ⟨entry, member, other, isOther, less⟩ := later
      have superseded : s.db.supersedes a.logical = true := by
        unfold FenceDb.supersedes
        rw [asks, Option.any_some, List.any_eq_true]
        exact ⟨entry, member, by simp [isOther, less]⟩
      exact absurd (superseded.symm.trans notSuperseded) (by simp)

/-- A claim that expires and the claim that follows it. -/
def takenOver : List FenceEvent :=
  [.claim { token := "first", kind := "b4" }, .allocate ⟨"first", 1⟩ { op := .grant },
    .wait FENCE_TTL_MS, .claim { token := "second", kind := "b5" }]

/-- The grant after it. -/
def takenOverSystem : FenceSystem := takenOver.foldl FenceSystem.apply (FenceSystem.start 0)

theorem allocateFenceRevision_fenced_takenOver :
    allocateFenceRevision takenOverSystem.clock ⟨"first", 1⟩ { op := .grant } takenOverSystem.db =
      (takenOverSystem.db, .ok none) :=
  ((allocateFenceRevision_fenced (Run.foldl _ _ takenOver)).2.2 ⟨"first", 1⟩ { op := .grant }).2.2.1
    (by decide)

end Murage.GrantFence
