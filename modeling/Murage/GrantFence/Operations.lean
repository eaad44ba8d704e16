import Murage.GrantFence.Model

/-!
Owns what each operation on the fence does, batch by batch: the row, the journal and the answer
after it, as functions of the tables before it. Every later proof uses these and never the
statements. Over them, the fence of one grant under any number of workers: the tables, the database
clock and a history of what the operations answered. Each operation is one atomic event with
arbitrary arguments, so a run is any interleaving of any workers, and a worker that stops simply
makes no further event.

Does not own: invariants over runs.
-/

namespace Murage.GrantFence

open Murage.Library.Batch

section Statements

variable {db : FenceDb} {row : FenceRow} {matching : FenceRow → Bool} {set : FenceRow → FenceRow}
  {changes : Nat}

theorem updateRow_hit (isRow : db.row = some row) (hit : matching row = true) :
    updateRow matching set changes db = .ok ⟨{ db with row := some (set row) }, 1, [set row]⟩ := by
  unfold updateRow
  rw [isRow, Option.filter_some_pos hit]

theorem updateRow_miss (miss : ∀ row, db.row = some row → matching row = false) :
    updateRow matching set changes db = .ok ⟨db, 0, []⟩ := by
  unfold updateRow
  cases isRow : db.row with
  | none => rfl
  | some row => rw [Option.filter_some_neg (by simp [miss row isRow])]

theorem updateRow_some (journal : List Revision) (alerts : List FenceAlert) :
    updateRow matching set changes ⟨some row, journal, alerts⟩ =
      .ok ⟨⟨some (if matching row then set row else row), journal, alerts⟩,
        if matching row then 1 else 0, if matching row then [set row] else []⟩ := by
  split_ifs with hit
  · exact updateRow_hit rfl hit
  · exact updateRow_miss fun other isOther => by simpa [← Option.some.inj isOther] using hit

end Statements

/-! ## Claims -/

def claimableRow (now : Nat) (a : ClaimRequest) (db : FenceDb) : FenceRow :=
  db.row.getD { homeId := a.homeId, updatedAt := now }

variable (now : Nat)

theorem claimGrantFence_eq (a : ClaimRequest) (db : FenceDb) :
    claimGrantFence now a db =
      if (claimableRow now a db).free now then
        ({ db with row := some ((claimableRow now a db).claimed now a) },
          .ok (some ⟨a.token, (claimableRow now a db).epoch + 1⟩))
      else ({ db with row := some (claimableRow now a db) }, .ok none) := by
  have inserted : ∃ changes, insertFence now a 0 db =
      .ok ⟨{ db with row := some (claimableRow now a db) }, changes, []⟩ := by
    obtain ⟨row, journal, alerts⟩ := db
    cases row with
    | none => exact ⟨1, rfl⟩
    | some row => exact ⟨0, rfl⟩
  obtain ⟨changes, insertion⟩ := inserted
  unfold claimGrantFence batch
  rw [run_cons insertion]
  split_ifs with free
  · rw [run_cons (updateRow_hit rfl free)]
    rfl
  · have miss : ∀ row, some (claimableRow now a db) = some row → row.free now = false := by
      intro row isRow
      rw [← Option.some.inj isRow]
      simpa using free
    rw [run_cons (updateRow_miss miss)]
    rfl

/-! ## Allocations -/

theorem FenceRow.ownedBy_of_heldBy {row : FenceRow} {now : Nat} {c : FenceClaim}
    (held : row.heldBy now c = true) : row.ownedBy c = true := by
  unfold heldBy at held
  rw [Bool.and_eq_true, Option.any_eq_true] at held
  obtain ⟨⟨owner, isOwner, token⟩, epoch⟩ := held
  rw [Bool.and_eq_true] at token
  unfold ownedBy
  rw [isOwner, epoch]
  simpa using token.1

/-- An allocation takes a revision that is not journaled, is refused and changes
nothing, or fails on a journaled revision and changes nothing. -/
theorem allocateFenceRevision_eq (c : FenceClaim) (a : AllocationRequest) (db : FenceDb) :
    allocateFenceRevision now c a db =
      match db.row.filter (db.allocatable now c a) with
      | none => (db, .ok none)
      | some row =>
        if db.journal.any (·.revision == row.wireRevision (a.floor.getD 0)) then
          (db, .error .unique)
        else
          ({ db with
              row := some (row.allocated now a)
              journal := db.journal ++ [(row.allocated now a).journaled now a] },
            .ok (some (row.wireRevision (a.floor.getD 0)))) := by
  unfold allocateFenceRevision batch
  cases taken : db.row.filter (db.allocatable now c a) with
  | none =>
    have miss : ∀ row, db.row = some row → db.allocatable now c a row = false := by
      intro row isRow
      rw [isRow, Option.filter_eq_none_iff] at taken
      simpa using taken row rfl
    have silent : journalRevision now c a 0 db = .ok ⟨db, 0, []⟩ := by
      unfold journalRevision
      rw [Option.filter_eq_none_iff.mpr (by simp)]
    have refused : takeRevision now c a 0 db = .ok ⟨db, 0, []⟩ := updateRow_miss miss
    rw [run_cons refused, run_cons silent]
    rfl
  | some row =>
    obtain ⟨isRow, allocatable⟩ := Option.filter_eq_some_iff.mp taken
    have owned : (row.allocated now a).ownedBy c = true := by
      unfold FenceDb.allocatable at allocatable
      simp only [Bool.and_eq_true] at allocatable
      have held : row.heldBy now c = true := allocatable.1.1
      exact FenceRow.ownedBy_of_heldBy held
    have allocated : takeRevision now c a 0 db =
        .ok ⟨{ db with row := some (row.allocated now a) }, 1, [row.allocated now a]⟩ :=
      updateRow_hit isRow allocatable
    rw [run_cons allocated]
    unfold run
    unfold journalRevision
    rw [Option.filter_some_pos (by simp [owned])]
    have isRevision : (row.allocated now a).nextRevision = row.wireRevision (a.floor.getD 0) := rfl
    simp only [isRevision]
    split_ifs <;> rfl

/-! ## Settlements, releases and abandonments -/

def Revision.endedIf (entry : Revision) (matching : Bool) (now : Nat) (outcome : RevisionOutcome) :
    Revision :=
  if matching then entry.ended now outcome else entry

def Revision.afterSettlement (entry : Revision) (now : Nat) (a : Settlement) : Revision :=
  let settled := entry.endedIf (entry.revision == a.revision && entry.unresolved) now
    (.settled a.outcome)
  settled.endedIf (decide (settled.revision < a.applied) && settled.unresolved) now
    .landedOrSuperseded

theorem settleFenceRevision_spec (c : FenceClaim) (a : Settlement) (db : FenceDb) :
    (settleFenceRevision now c a db).row = (db.row.map fun row => row.settled now c a) ∧
      (settleFenceRevision now c a db).journal =
        db.journal.map fun entry => entry.afterSettlement now a := by
  have noneOlder : ¬a.applied > 0 → ∀ entry : Revision,
      entry.endedIf (entry.revision == a.revision && entry.unresolved) now (.settled a.outcome) =
        entry.afterSettlement now a := by
    intro nothing entry
    have zero : a.applied = 0 := by omega
    simp [Revision.afterSettlement, Revision.endedIf, zero]
  obtain ⟨row, journal, alerts⟩ := db
  unfold settleFenceRevision
  cases row <;> split_ifs with positive <;>
    simp only [batch, run, updateRow, updateJournal, raiseAlerts, List.cons_append,
      List.nil_append, List.append_nil, Option.filter_some, Option.filter_none, if_true,
      List.map_map, Option.map_some, Option.map_none, true_and] <;>
    first
    | exact List.map_congr_left fun entry _ => noneOlder positive entry
    | exact List.map_congr_left fun entry _ => rfl

theorem releaseGrantFence_eq (c : FenceClaim) (db : FenceDb) :
    releaseGrantFence c db = { db with row := db.row.map fun row => row.released c.token } := by
  have kept : ∀ row : FenceRow, (row.owner.any (·.token == c.token)) = false →
      row.released c.token = row := by
    intro row other
    unfold FenceRow.released
    have stays : row.owner.filter (·.token != c.token) = row.owner := by
      cases isOwner : row.owner with
      | none => rfl
      | some owner =>
        rw [isOwner, Option.any_some] at other
        exact Option.filter_some_pos (by simpa using other)
    rw [stays]
  obtain ⟨row, journal, alerts⟩ := db
  unfold releaseGrantFence batch
  cases row with
  | none => rfl
  | some row =>
    cases own : row.owner.any (·.token == c.token) with
    | false =>
      rw [run_cons (updateRow_miss fun other isOther => Option.some.inj isOther ▸ own)]
      simp [run_nil, kept row own]
    | true =>
      rw [run_cons (updateRow_hit rfl own)]
      obtain ⟨owner, isOwner, token⟩ := (Option.any_eq_true _ _).mp own
      have gone : row.owner.filter (·.token != c.token) = none := by
        rw [isOwner]
        exact Option.filter_some_neg (by simpa using token)
      simp [run_nil, FenceRow.released, gone]

theorem abandonFenceRevision_eq (revision : Nat) (db : FenceDb) :
    abandonFenceRevision now revision db =
      { db with journal := db.journal.map fun entry =>
          entry.endedIf (entry.revision == revision && entry.outcome.isNone) now .notSent } := rfl

/-! ## Read-backs -/

def FenceRow.readBack (row : FenceRow) (now : Nat) (r : RemoteGrantState) (seenSeq : Option Nat) :
    FenceRow :=
  let published := if row.publishes r seenSeq then row.published now r else row
  (if published.uncovered r then published.demanding r else published).raised now r

def Revision.afterReadBack (entry : Revision) (now : Nat) (r : RemoteGrantState) : Revision :=
  entry.endedIf (decide (entry.revision ≤ r.appliedRevision) && entry.unresolved) now
    .landedOrSuperseded

theorem recordReconciled_spec (r : RemoteGrantState) (seenSeq : Option Nat) (db : FenceDb) :
    (recordReconciled now r seenSeq db).1.row =
        (db.row.map fun row => row.readBack now r seenSeq) ∧
      (recordReconciled now r seenSeq db).1.journal =
        (db.journal.map fun entry => entry.afterReadBack now r) ∧
      (recordReconciled now r seenSeq db).2 =
        .ok (db.row.any fun row => row.publishes r seenSeq) := by
  obtain ⟨row, journal, alerts⟩ := db
  cases row with
  | none => exact ⟨rfl, rfl, rfl⟩
  | some row =>
    simp only [recordReconciled, batch, run, updateRow_some, updateJournal, raiseAlerts]
    refine ⟨rfl, rfl, ?_⟩
    cases publishes : row.publishes r seenSeq <;> simp [rowsOf, Except.map, publishes]

theorem stampReadAttempt_eq (db : FenceDb) :
    stampReadAttempt now db =
      { db with row := db.row.map fun row => { row with readAttemptedAt := some now } } := by
  obtain ⟨row, journal, alerts⟩ := db
  cases row <;> rfl

inductive FenceEvent where
  | wait (ms : Nat)
  | claim (request : ClaimRequest)
  | allocate (claim : FenceClaim) (request : AllocationRequest)
  | settle (claim : FenceClaim) (settlement : Settlement)
  | abandon (revision : Nat)
  | release (claim : FenceClaim)
  | attempt
  | readBack (remote : RemoteGrantState) (seenSeq : Option Nat)

/-- What the operations answered and recorded, oldest first. No operation reads
it. -/
structure FenceHistory where
  /-- The claims that were granted. -/
  claims : List FenceClaim := []
  /-- The revisions that allocations returned. -/
  revisions : List Nat := []
  /-- What was recorded of Flux as applied. -/
  applied : List Nat := []
  /-- What read-backs observed and did not publish. -/
  unpublished : List Nat := []

structure FenceSystem where
  clock : Nat
  db : FenceDb := {}
  history : FenceHistory := {}

def resolved {α : Type} : Except SqlError (Option α) → List α
  | .ok (some value) => [value]
  | _ => []

def recorded (db : FenceDb) (value : Nat) : List Nat := if db.row.isSome then [value] else []

namespace FenceSystem

def claim (s : FenceSystem) (request : ClaimRequest) : FenceSystem :=
  { s with
    db := (claimGrantFence s.clock request s.db).1
    history := { s.history with
      claims := s.history.claims ++ resolved (claimGrantFence s.clock request s.db).2 } }

def allocate (s : FenceSystem) (claim : FenceClaim) (request : AllocationRequest) : FenceSystem :=
  { s with
    db := (allocateFenceRevision s.clock claim request s.db).1
    history := { s.history with
      revisions := s.history.revisions ++
        resolved (allocateFenceRevision s.clock claim request s.db).2 } }

def settle (s : FenceSystem) (claim : FenceClaim) (settlement : Settlement) : FenceSystem :=
  { s with
    db := settleFenceRevision s.clock claim settlement s.db
    history := { s.history with
      applied := s.history.applied ++ recorded s.db settlement.applied } }

def readBack (s : FenceSystem) (remote : RemoteGrantState) (seenSeq : Option Nat) : FenceSystem :=
  { s with
    db := (recordReconciled s.clock remote seenSeq s.db).1
    history := { s.history with
      applied := s.history.applied ++ recorded s.db remote.appliedRevision
      unpublished := s.history.unpublished ++
        if (recordReconciled s.clock remote seenSeq s.db).2 = .ok true then []
        else recorded s.db remote.appliedRevision } }

def apply (s : FenceSystem) : FenceEvent → FenceSystem
  | .wait ms => { s with clock := s.clock + ms }
  | .claim request => s.claim request
  | .allocate claim request => s.allocate claim request
  | .settle claim settlement => s.settle claim settlement
  | .abandon revision => { s with db := abandonFenceRevision s.clock revision s.db }
  | .release claim => { s with db := releaseGrantFence claim s.db }
  | .attempt => { s with db := stampReadAttempt s.clock s.db }
  | .readBack remote seenSeq => s.readBack remote seenSeq

/-- A grant that nobody has claimed. -/
def start (clock : Nat) : FenceSystem := { clock := clock }

end FenceSystem

/-! ## What the updates of a row and an entry keep -/

namespace FenceRow

variable (row : FenceRow)

theorem released_owner {owner : Owner} {token : String}
    (owned : (row.released token).owner = some owner) : row.owner = some owner :=
  (Option.filter_eq_some_iff.mp owned).1

theorem readBack_fields (now : Nat) (r : RemoteGrantState) (seenSeq : Option Nat) :
    (row.readBack now r seenSeq).epoch = row.epoch ∧
      (row.readBack now r seenSeq).owner = row.owner ∧
      (row.readBack now r seenSeq).nextRevision = max row.nextRevision r.appliedRevision ∧
      (row.readBack now r seenSeq).appliedRevision = max row.appliedRevision r.appliedRevision := by
  unfold readBack
  dsimp only
  split_ifs <;> exact ⟨rfl, rfl, rfl, rfl⟩

end FenceRow

namespace Revision

variable (entry : Revision)

theorem endedIf_fields (matching : Bool) (now : Nat) (outcome : RevisionOutcome) :
    (entry.endedIf matching now outcome).revision = entry.revision ∧
      (entry.endedIf matching now outcome).epoch = entry.epoch := by
  unfold endedIf
  split_ifs <;> exact ⟨rfl, rfl⟩

theorem afterSettlement_fields (now : Nat) (a : Settlement) :
    (entry.afterSettlement now a).revision = entry.revision ∧
      (entry.afterSettlement now a).epoch = entry.epoch := by
  unfold afterSettlement
  obtain ⟨revision, epoch⟩ := endedIf_fields entry
    (entry.revision == a.revision && entry.unresolved) now (.settled a.outcome)
  dsimp only
  rw [(endedIf_fields _ _ _ _).1, (endedIf_fields _ _ _ _).2]
  exact ⟨revision, epoch⟩

theorem afterReadBack_fields (now : Nat) (r : RemoteGrantState) :
    (entry.afterReadBack now r).revision = entry.revision ∧
      (entry.afterReadBack now r).epoch = entry.epoch :=
  endedIf_fields entry _ now _

end Revision

end Murage.GrantFence
