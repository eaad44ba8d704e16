import Murage.TranscriptSeq.Numbering

/-!
Owns the numbers of the messages table over whole runs: they are `1..k` in every
conversation, a number is final, the rows without one lie above the walk's cursor, a walk
that is done has left none, and of rows never replaced the number order is the storage
order.
-/

namespace Murage.TranscriptSeq

open Murage.Library.Numbers
open Murage.Library.Transition

namespace Db

variable {db db' start : Db} {threadId id : String}

/-- What every transaction keeps. -/
structure Sound (db : Db) : Prop where
  placed : Placed db.rows
  numbered : Numbered db.rows
  above : ∀ row ∈ db.rows, row.seq = none → db.cursor < row.rowid
  aboveReads : ∀ cursor ∈ db.reads, ∀ row ∈ db.rows, row.seq = none → cursor < row.rowid
  unready : db.indexReady = false → db.cursor = 0 ∧ db.reads = []

theorem Legacy.sound (legacy : db.Legacy) : db.Sound where
  placed :=
    { ordered := legacy.ordered
      keys := legacy.keys
      inOrder := fun row isIn _ _ _ _ _ m _ isM => by
        rw [legacy.unnumbered row isIn] at isM
        cases isM
      walked := fun row isIn _ _ _ _ isSome => by
        rw [legacy.unnumbered row isIn] at isSome
        cases isSome }
  numbered := fun threadId => by
    have isNil : numbersOf db.rows threadId = [] := by
      rw [List.eq_nil_iff_forall_not_mem]
      intro number isNumber
      obtain ⟨row, isIn, -, isSeq⟩ := mem_numbersOf.mp isNumber
      rw [legacy.unnumbered row isIn] at isSeq
      cases isSeq
    rw [isNil]
    exact contiguous_nil
  above := fun row isIn _ => by
    rw [legacy.cursor]
    exact legacy.positions row isIn
  aboveReads := fun cursor isRead => by
    rw [legacy.reads] at isRead
    cases isRead
  unready := fun _ => ⟨legacy.cursor, legacy.reads⟩

theorem storedSeq_eq_none (isNone : db.storedSeq threadId id = none) :
    db.indexReady = false ∨ ∃ row ∈ db.rows, row.seq = none := by
  cases isPrior : db.prior threadId id with
  | some row =>
    rw [storedSeq_of_prior isPrior] at isNone
    exact Or.inr ⟨row, (prior_spec isPrior).1, isNone⟩
  | none =>
    rw [storedSeq_of_new isPrior] at isNone
    split_ifs at isNone with isNumbered
    rw [threadNumbered_iff, not_and_or, Bool.not_eq_true] at isNumbered
    refine isNumbered.imp_right fun some => ?_
    push Not at some
    obtain ⟨row, isIn, -, isSeq⟩ := some
    exact ⟨row, isIn, isSeq⟩

theorem mem_replaceRow {row : Row} (isIn : row ∈ (db.replaceRow threadId id).rows) :
    (row ∈ db.rows ∧ ¬(row.threadId = threadId ∧ row.id = id)) ∨
      (row.threadId = threadId ∧ row.id = id ∧ row.seq = db.storedSeq threadId id ∧
        row.rowid = newestRowid db.rows + 1) := by
  rcases List.mem_append.mp isIn with old | isLast
  · obtain ⟨isRow, differs⟩ := List.mem_filter.mp old
    refine Or.inl ⟨isRow, fun same => ?_⟩
    rw [isKey_iff.mpr same] at differs
    cases differs
  · obtain rfl := List.mem_singleton.mp isLast
    exact Or.inr ⟨rfl, rfl, rfl, rfl⟩

theorem replaceRow_above {cursor : Nat} (unready : db.indexReady = false → cursor = 0)
    (above : ∀ row ∈ db.rows, row.seq = none → cursor < row.rowid) :
    ∀ row ∈ (db.replaceRow threadId id).rows, row.seq = none → cursor < row.rowid := by
  intro row isIn isNone
  rcases mem_replaceRow isIn with ⟨old, -⟩ | ⟨-, -, isStored, isLast⟩
  · exact above row old isNone
  · rw [isLast]
    rcases storedSeq_eq_none (isStored.symm.trans isNone) with isUnready | ⟨waiting, isRow, isSeq⟩
    · rw [unready isUnready]
      exact Nat.succ_pos _
    · exact Nat.lt_trans (above waiting isRow isSeq) (lt_newestRowid isRow)

theorem Sound.replaceRow (sound : db.Sound) : (db.replaceRow threadId id).Sound where
  placed := replaceRow_placed sound.placed
  numbered := replaceRow_numbered sound.placed sound.numbered
  above := replaceRow_above (fun unready => (sound.unready unready).1) sound.above
  aboveReads := fun cursor isRead => replaceRow_above (fun unready => by
    have isNil : db.reads = [] := (sound.unready unready).2
    have isIn : cursor ∈ db.reads := isRead
    rw [isNil] at isIn
    cases isIn) (sound.aboveReads cursor isRead)
  unready := sound.unready

theorem Sound.deleteThread (sound : db.Sound) : (db.deleteThread threadId).Sound where
  placed := sound.placed.sublist List.filter_sublist
  numbered := sound.numbered.withoutThread threadId
  above := fun row isIn => sound.above row (List.mem_filter.mp isIn).1
  aboveReads := fun cursor isRead row isIn =>
    sound.aboveReads cursor isRead row (List.mem_filter.mp isIn).1
  unready := sound.unready

theorem Sound.createIndex (sound : db.Sound) : db.createIndex.Sound where
  placed := sound.placed
  numbered := sound.numbered
  above := sound.above
  aboveReads := sound.aboveReads
  unready := fun unready => by cases unready

theorem Sound.readIndexState (sound : db.Sound) : db.readIndexState.Sound := by
  unfold Db.readIndexState
  split_ifs with runs
  · refine ⟨sound.placed, sound.numbered, sound.above, fun cursor isRead => ?_, fun unready => ?_⟩
    · rcases List.mem_cons.mp isRead with rfl | earlier
      · exact sound.above
      · exact sound.aboveReads cursor earlier
    · rw [Bool.and_eq_true] at runs
      exact absurd (unready.symm.trans runs.1) Bool.false_ne_true
  · exact sound

/-- **The walk's transaction.** From a cursor below every row without a number. -/
theorem numberRows_spec (sound : db.Sound) {cursor : Nat} (isRead : cursor ∈ db.reads) (rows : Int)
    (late : Nat → Bool) :
    (db.numberRows cursor rows late).Sound ∧ Fills db.rows (db.numberRows cursor rows late).rows ∧
      (db.numberRows cursor rows late).reads = db.reads ∧
      (db.numberRows cursor rows late).indexReady = db.indexReady ∧
      ((db.numberRows cursor rows late).done = true → rows ≠ 0 →
        ∀ row ∈ (db.numberRows cursor rows late).rows, row.seq ≠ none) := by
  have ready : db.indexReady = false → False := fun unready => by
    rw [(sound.unready unready).2] at isRead
    cases isRead
  have ahead := sound.aboveReads cursor isRead
  obtain ⟨tail, isTail⟩ := limited_append rows (db.rows.filter fun row => cursor < row.rowid)
  unfold numberRows
  cases isBatch : db.batch cursor rows with
  | nil =>
    refine ⟨⟨sound.placed, sound.numbered, ahead, sound.aboveReads, fun unready =>
      (ready unready).elim⟩, Fills.refl _, rfl, rfl, fun _ bounded row isIn isNone => ?_⟩
    have noneLeft := limited_eq_nil bounded isBatch
    have isAhead : row ∈ db.rows.filter fun row => cursor < row.rowid :=
      List.mem_filter.mpr ⟨isIn, decide_eq_true (ahead row isIn isNone)⟩
    rw [noneLeft] at isAhead
    cases isAhead
  | cons first others =>
    have going : Walk.Going { rows := db.rows, next := fun _ => none, scanned := 0, cursor }
        ((first :: others) ++ tail) :=
      { placed := sound.placed
        numbered := sound.numbered
        above := ahead
        ahead := by
          rw [← isBatch]
          exact isTail.symm
        next := fun _ _ isNext => by cases isNext }
    obtain ⟨⟨unread, finished⟩, fills⟩ := going.loop late (first :: others).length
    refine ⟨⟨finished.placed, finished.numbered, finished.above, fun other isOther row isIn
      isNone => ?_, fun unready => (ready unready).elim⟩, fills, rfl, rfl, fun isDone => ?_⟩
    · exact sound.aboveReads other isOther row (fills.unnumbered row isIn isNone) isNone
    · cases isDone

theorem Sound.numberSeqChunk (sound : db.Sound) (cursor : Nat) (rows : Int) (late : Nat → Bool) :
    (db.numberSeqChunk cursor rows late).Sound := by
  unfold Db.numberSeqChunk
  split_ifs with isRead
  · obtain ⟨after, -, sameReads, sameReady, -⟩ := numberRows_spec sound isRead rows late
    refine ⟨after.placed, after.numbered, after.above, fun other isOther => ?_, fun unready => ?_⟩
    · refine after.aboveReads other ?_
      rw [sameReads]
      exact List.mem_of_mem_erase isOther
    · have isUnready : db.indexReady = false := sameReady.symm.trans unready
      rw [(sound.unready isUnready).2] at isRead
      cases isRead
  · exact sound

theorem Sound.apply (sound : db.Sound) (txn : Txn) : (db.apply txn).Sound := by
  cases txn with
  | lost => exact sound
  | committed op =>
    cases op with
    | replaceRow threadId id => exact sound.replaceRow
    | deleteThread threadId => exact sound.deleteThread
    | createIndex => exact sound.createIndex
    | readIndexState => exact sound.readIndexState
    | numberSeqChunk cursor rows late => exact sound.numberSeqChunk cursor rows late

theorem sound_of_run (legacy : start.Legacy) {txns : List Txn}
    (run : Run (ofFunction apply) start txns db) : db.Sound := by
  refine run.invariant legacy.sound fun before txn after sound isAfter => ?_
  subst isAfter
  exact sound.apply txn

/-! ## A number is final -/

theorem Fills.seqOfRow (fills : Fills db.rows db'.rows) (placed : Placed db.rows)
    (placed' : Placed db'.rows) {number : Nat} (held : db.seqOfRow threadId id = some number) :
    db'.seqOfRow threadId id = some number := by
  obtain ⟨row, isIn, thread, isId, isSeq⟩ := (seqOfRow_eq_some placed).mp held
  refine (seqOfRow_eq_some placed').mpr ⟨row, ?_, thread, isId, isSeq⟩
  refine fills.numbered row isIn ?_
  rw [isSeq]
  exact Option.some_ne_none number

/-- **One transaction.** A number stays while its row's id exists. -/
theorem seqOfRow_apply (sound : db.Sound) {number : Nat}
    (held : db.seqOfRow threadId id = some number) (txn : Txn)
    (isThere : ((db.apply txn).prior threadId id).isSome) :
    (db.apply txn).seqOfRow threadId id = some number := by
  have after := sound.apply txn
  obtain ⟨row, isIn, thread, isId, isSeq⟩ := (seqOfRow_eq_some sound.placed).mp held
  cases txn with
  | lost => exact held
  | committed op =>
    cases op with
    | replaceRow writtenThread writtenId =>
      refine (seqOfRow_eq_some after.placed).mpr ?_
      by_cases isWritten : row.threadId = writtenThread ∧ row.id = writtenId
      · refine ⟨_, List.mem_append_right _ (List.mem_singleton_self _),
          isWritten.1.symm.trans thread, isWritten.2.symm.trans isId, ?_⟩
        rw [storedSeq_of_prior (prior_eq_some sound.placed isIn isWritten.1 isWritten.2)]
        exact isSeq
      · refine ⟨row, List.mem_append_left _ (List.mem_filter.mpr ⟨isIn, ?_⟩), thread, isId,
          isSeq⟩
        rw [Bool.not_eq_true', ← Bool.not_eq_true, isKey_iff]
        exact isWritten
    | deleteThread deleted =>
      obtain ⟨kept, isKept⟩ := Option.isSome_iff_exists.mp isThere
      obtain ⟨isRow, keptThread, keptId⟩ := prior_spec isKept
      obtain ⟨isOld, differs⟩ := List.mem_filter.mp isRow
      refine (seqOfRow_eq_some after.placed).mpr ⟨row, ?_, thread, isId, isSeq⟩
      rw [sound.placed.eq_of_key isIn isOld (thread.trans keptThread.symm)
        (isId.trans keptId.symm)]
      exact isRow
    | createIndex => exact held
    | readIndexState =>
      have same : (db.apply (.committed .readIndexState)).rows = db.rows := by
        show db.readIndexState.rows = db.rows
        unfold readIndexState
        split_ifs <;> rfl
      refine Fills.seqOfRow ?_ sound.placed after.placed held
      rw [same]
      exact Fills.refl db.rows
    | numberSeqChunk cursor rows late =>
      refine Fills.seqOfRow ?_ sound.placed after.placed held
      show Fills db.rows (db.numberSeqChunk cursor rows late).rows
      unfold numberSeqChunk
      split_ifs with isRead
      · exact (numberRows_spec sound isRead rows late).2.1
      · exact Fills.refl db.rows

/-- A number never changes while the row's id exists in the conversation. -/
def NumbersFinal (db : Db) : Prop :=
  ∀ (threadId id : String) (number : Nat), db.seqOfRow threadId id = some number →
    ∀ (later : List Txn) (db' : Db),
      Run (fun before txn after => after = before.apply txn ∧ (after.prior threadId id).isSome)
        db later db' → db'.seqOfRow threadId id = some number

theorem Sound.numbersFinal (sound : db.Sound) : db.NumbersFinal := by
  intro threadId id number held later db' run
  refine (@Run.invariant _ _ _ _ _ _ (fun db => db.Sound ∧ db.seqOfRow threadId id = some number) run
    ⟨sound, held⟩ ?_).2
  rintro before txn after ⟨soundBefore, heldBefore⟩ ⟨rfl, isIn⟩
  exact ⟨soundBefore.apply txn, seqOfRow_apply soundBefore heldBefore txn isIn⟩

/-! ## A finished walk -/

/-- A walk marked done has left no row without a number. -/
def Complete (db : Db) : Prop := db.done = true → ∀ row ∈ db.rows, row.seq ≠ none

/-- A transaction of the walk asks for at least one row, or no row needs a number. -/
def Asks (db : Db) : Txn → Prop
  | .committed (.numberSeqChunk cursor rows _) =>
    cursor ∈ db.reads → rows = 0 → ∀ row ∈ db.rows, row.seq ≠ none
  | _ => True

theorem Complete.replaceRow (complete : db.Complete) (ready : db.done = true → db.indexReady = true) :
    (db.replaceRow threadId id).Complete := by
  intro isDone row isIn isNone
  rcases mem_replaceRow isIn with ⟨old, -⟩ | ⟨-, -, isStored, -⟩
  · exact complete isDone row old isNone
  · rcases storedSeq_eq_none (isStored.symm.trans isNone) with unready | ⟨waiting, isRow, isSeq⟩
    · exact Bool.false_ne_true (unready.symm.trans (ready isDone))
    · exact complete isDone waiting isRow isSeq

theorem Complete.numberSeqChunk (complete : db.Complete) (sound : db.Sound) {cursor : Nat}
    {rows : Int} {late : Nat → Bool}
    (asks : db.Asks (.committed (.numberSeqChunk cursor rows late))) :
    (db.numberSeqChunk cursor rows late).Complete := by
  unfold Db.numberSeqChunk
  split_ifs with isRead
  · obtain ⟨-, fills, -, -, finished⟩ := numberRows_spec sound isRead rows late
    intro isDone row isIn
    by_cases bounded : rows = 0
    · intro isNone
      exact asks isRead bounded row (fills.unnumbered row isIn isNone) isNone
    · exact finished isDone bounded row isIn
  · exact complete

theorem ready_apply (sound : db.Sound) (ready : db.done = true → db.indexReady = true) (txn : Txn) :
    (db.apply txn).done = true → (db.apply txn).indexReady = true := by
  cases txn with
  | lost => exact ready
  | committed op =>
    cases op with
    | createIndex => exact fun _ => rfl
    | readIndexState =>
      show db.readIndexState.done = true → db.readIndexState.indexReady = true
      unfold readIndexState
      split_ifs <;> exact ready
    | numberSeqChunk cursor rows late =>
      show (db.numberSeqChunk cursor rows late).done = true →
        (db.numberSeqChunk cursor rows late).indexReady = true
      unfold numberSeqChunk
      split_ifs with isRead
      · intro _
        rw [← Bool.not_eq_false]
        intro unready
        have sameReady := (numberRows_spec sound isRead rows late).2.2.2.1
        rw [(sound.unready (sameReady.symm.trans unready)).2] at isRead
        cases isRead
      · exact ready
    | _ => exact ready

theorem Complete.apply (complete : db.Complete) (sound : db.Sound)
    (ready : db.done = true → db.indexReady = true) {txn : Txn} (asks : db.Asks txn) :
    (db.apply txn).Complete := by
  cases txn with
  | lost => exact complete
  | committed op =>
    cases op with
    | replaceRow threadId id => exact complete.replaceRow ready
    | deleteThread threadId =>
      exact fun isDone row isIn => complete isDone row (List.mem_filter.mp isIn).1
    | createIndex => exact complete
    | readIndexState =>
      show db.readIndexState.Complete
      unfold readIndexState
      split_ifs <;> exact complete
    | numberSeqChunk cursor rows late => exact complete.numberSeqChunk sound asks

theorem complete_of_run (legacy : start.Legacy) {txns : List Txn}
    (run : Run (Restrict (ofFunction apply) Asks) start txns db) : db.Complete := by
  have notDone : start.done = true → False := fun isDone => by
    rw [legacy.done] at isDone
    cases isDone
  refine (@Run.invariant _ _ _ _ _ _
    (fun db => db.Sound ∧ (db.done = true → db.indexReady = true) ∧ db.Complete) run
    ⟨legacy.sound, fun isDone => (notDone isDone).elim, fun isDone => (notDone isDone).elim⟩
    ?_).2.2
  rintro before txn after ⟨sound, ready, complete⟩ ⟨rfl, asks⟩
  exact ⟨sound.apply txn, ready_apply sound ready txn, complete.apply sound ready asks⟩

theorem not_complete_of_not_asks {txn : Txn} (empty : ¬db.Asks txn) :
    ¬(db.apply txn).Complete := by
  cases txn with
  | lost => exact absurd trivial empty
  | committed op =>
    cases op with
    | numberSeqChunk cursor rows late =>
      unfold Asks at empty
      push Not at empty
      obtain ⟨isRead, rfl, row, isIn, isNone⟩ := empty
      intro complete
      refine complete ?_ row ?_ isNone
      · show (db.numberSeqChunk cursor 0 late).done = true
        rw [numberSeqChunk, if_pos isRead]
        rfl
      · show row ∈ (db.numberSeqChunk cursor 0 late).rows
        rw [numberSeqChunk, if_pos isRead]
        exact isIn
    | _ => exact absurd trivial empty

/-! ## The contract -/

/-- What every reached state keeps of the numbers. -/
structure WellNumbered (db : Db) : Prop where
  contiguous : ∀ threadId, Contiguous (numbersOf db.rows threadId)
  above : ∀ row ∈ db.rows, row.seq = none → db.cursor < row.rowid
  inOrder : ∀ row ∈ db.rows, ∀ other ∈ db.rows, row.threadId = other.threadId →
    row.replaced = false → other.replaced = false →
    ∀ m n, row.seq = some m → other.seq = some n → (m < n ↔ row.rowid < other.rowid)

theorem Sound.wellNumbered (sound : db.Sound) : db.WellNumbered where
  contiguous := sound.numbered
  above := sound.above
  inOrder := fun row isIn other isOther thread never neverOther m n isM isN => by
    refine ⟨fun less => ?_,
      sound.placed.inOrder row isIn other isOther thread never neverOther m n isM isN⟩
    rcases Nat.lt_trichotomy row.rowid other.rowid with before | same | after
    · exact before
    · rw [sound.placed.eq_of_rowid isIn isOther same, isN] at isM
      exact absurd less (by rw [Option.some.inj isM]; exact Nat.lt_irrefl m)
    · exact absurd less (Nat.lt_asymm
        (sound.placed.inOrder other isOther row isIn thread.symm neverOther never n m isN isM after))

/-- **Numbering.** In every state a run reaches, the numbers of a conversation are `1..k`,
they are final, the rows without one are above the cursor, and the number order of rows
never replaced is the storage order. A walk that is done has left no row without a number,
as long as no transaction of it that asked for no row ended it. -/
theorem rows_numbered (legacy : start.Legacy) {txns : List Txn}
    (run : Run (ofFunction apply) start txns db) :
    db.WellNumbered ∧ db.NumbersFinal ∧
      (Run (Restrict (ofFunction apply) Asks) start txns db → db.Complete) ∧
      ∀ txn, ¬db.Asks txn → ¬(db.apply txn).Complete := by
  have sound := sound_of_run legacy run
  exact ⟨sound.wellNumbered, sound.numbersFinal, complete_of_run legacy,
    fun _ => not_complete_of_not_asks⟩

def twoMessages : Db :=
  { rows := [⟨1, "t", "a", none, false⟩, ⟨2, "t", "b", none, false⟩]
    indexReady := false
    cursor := 0
    done := false
    reads := [] }

theorem twoMessages_legacy : twoMessages.Legacy where
  ordered := by decide
  keys := by decide
  positions := by decide
  unnumbered := by decide
  indexReady := rfl
  cursor := rfl
  done := rfl
  reads := rfl

def walked (rows : Int) : List Txn :=
  [.committed .createIndex, .committed .readIndexState,
    .committed (.numberSeqChunk 0 rows fun _ => false)]

/-- One row a call: the first is numbered, the second waits above the cursor. -/
theorem rows_numbered_halfway : ((walked 1).foldl apply twoMessages).WellNumbered ∧
    ((walked 1).foldl apply twoMessages).rows.map (·.seq) = [some 1, none] :=
  ⟨(rows_numbered twoMessages_legacy (Run.foldl apply twoMessages (walked 1))).1, by decide⟩

/-- No row a call: the walk is done and both rows wait. -/
theorem empty_chunk_ends_walk :
    ¬∀ (start : Db) (txns : List Txn) (db : Db), start.Legacy →
      Run (ofFunction apply) start txns db →
      db.WellNumbered ∧ db.NumbersFinal ∧ db.Complete := by
  intro claimed
  have complete := (claimed twoMessages (walked 0) _ twoMessages_legacy
    (Run.foldl apply twoMessages (walked 0))).2.2
  exact complete (by decide) ⟨1, "t", "a", none, false⟩ (by decide) rfl

end Db

end Murage.TranscriptSeq
