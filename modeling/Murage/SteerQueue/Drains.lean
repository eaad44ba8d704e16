import Murage.SteerQueue.Batch

/-!
Owns what the drains of a server keep over every interleaving with the starts they make:
one start a conversation, what each run is given, and the place and line of a row that is
queued again.
-/

namespace Murage.SteerQueue

open Murage.Library
open Murage.Library.Transition
open Murage.OwnerSends
open Murage.OwnerSends.SendStore

/-! ## Moves of the store -/

/-- The row of a pair waits, or holds the chip of a drain that passed it by. -/
def Waits (row : SendRow) : Prop :=
  row.status = .queued ∨ row.status = .refused ∨ row.status = .dispatched

/-- What a drain does with the stored rows: a started row stays started at its line, and
one that becomes started does so at the line it has. -/
structure Moves (b b' : Batch) : Prop where
  seqs : b'.store.rows.map (·.seq) = b.store.rows.map (·.seq)
  lines : ∀ thread id there, b.messageById thread id = some there →
    b'.messageById thread id = some there
  rows : ∀ seq stored, bySeq b.store seq = some stored →
    ∃ stored', bySeq b'.store seq = some stored' ∧ Same stored stored' ∧
      ((stored'.status = stored.status ∧ stored'.messageId = stored.messageId) ∨
        (stored.status ≠ .started ∧ (Waits stored' ∨
          (stored'.status = .started ∧ ∀ id there, given stored.existingMessageId = some id →
            b.messageById stored.threadId id = some there → stored'.messageId = some id))))

namespace Moves

variable {b b' b'' : Batch}

theorem refl (b : Batch) : Moves b b :=
  ⟨rfl, fun _ _ _ found => found, fun _ stored found =>
    ⟨stored, found, Same.refl stored, Or.inl ⟨rfl, rfl⟩⟩⟩

theorem trans (first : Moves b b') (second : Moves b' b'') : Moves b b'' where
  seqs := second.seqs.trans first.seqs
  lines := fun thread id there found => second.lines _ _ _ (first.lines thread id there found)
  rows := fun seq stored found => by
    obtain ⟨middle, isMiddle, same, moved⟩ := first.rows seq stored found
    obtain ⟨after, isAfter, same', moved'⟩ := second.rows seq middle isMiddle
    refine ⟨after, isAfter, same.trans same', ?_⟩
    rcases moved' with ⟨isStatus, isLine⟩ | ⟨notStarted, moved'⟩
    · rcases moved with ⟨isStatus', isLine'⟩ | ⟨waited, waits | ⟨started, line⟩⟩
      · exact Or.inl ⟨isStatus.trans isStatus', isLine.trans isLine'⟩
      · refine Or.inr ⟨waited, Or.inl ?_⟩
        unfold Waits
        rw [isStatus]
        exact waits
      · refine Or.inr ⟨waited, Or.inr ⟨isStatus.trans started, fun id there isGiven isThere => ?_⟩⟩
        rw [isLine]
        exact line id there isGiven isThere
    · refine Or.inr ⟨fun started => notStarted ?_, moved'.imp_right fun ⟨started, line⟩ =>
        ⟨started, fun id there isGiven isThere => line id there ?_ ?_⟩⟩
      · rcases moved with ⟨isStatus, -⟩ | ⟨waited, -⟩
        · exact isStatus.trans started
        · exact absurd started waited
      · rw [same.existingMessageId]
        exact isGiven
      · rw [same.threadId]
        exact first.lines _ _ _ isThere

variable {row : SendRow}

theorem of_passed (passed : Batch.Passed row b b')
    (waited : ∀ stored, bySeq b.store row.seq = some stored → stored.status ≠ .started) :
    Moves b b' where
  seqs := passed.writes.seqs
  lines := fun thread id there isThere => by
    rw [Batch.messageById_congr passed.lines passed.home, isThere]
  rows := fun seq stored found => by
    by_cases isSeq : seq = row.seq
    · subst isSeq
      obtain ⟨stored', found', isEnded⟩ := passed.status stored found
      obtain ⟨same', foundSame, same⟩ := passed.writes.own stored found
      obtain rfl := Option.some.inj (found'.symm.trans foundSame)
      refine ⟨stored', found', same, ?_⟩
      rcases isEnded with isRefused | rfl
      · exact Or.inr ⟨waited stored found, Or.inl (Or.inr (Or.inl isRefused))⟩
      · exact Or.inl ⟨rfl, rfl⟩
    · refine ⟨stored, ?_, Same.refl stored, Or.inl ⟨rfl, rfl⟩⟩
      rw [passed.writes.others seq isSeq]
      exact found

theorem of_map {f : SendRow → SendRow} (rows : b'.store.rows = b.store.rows.map f)
    (lines : b'.store.lines = b.store.lines) (home : b'.home = b.home)
    (same : ∀ row, Same row (f row))
    (moved : ∀ row ∈ b.store.rows, ((f row).status = row.status ∧ (f row).messageId = row.messageId) ∨
      (row.status ≠ .started ∧ Waits (f row))) : Moves b b' where
  seqs := by
    rw [rows, List.map_map]
    exact List.map_congr_left fun row _ => (same row).seq
  lines := fun thread id there isThere => by
    rw [Batch.messageById_congr lines home, isThere]
  rows := fun seq stored found => by
    refine ⟨f stored, ?_, same stored, ?_⟩
    · rw [bySeq_map rows fun row => (same row).seq, found, Option.map_some]
    · refine (moved stored (bySeq_spec found).1).imp_right fun waits => ?_
      exact ⟨waits.1, Or.inl waits.2⟩

end Moves

/-! ## The rows a drain takes -/

section Reads

variable {s : SendStore} {threadId : String} {kind : SendKind}

theorem mem_queuedRows (isIn : row ∈ queuedRows s threadId kind) :
    row ∈ s.rows ∧ row.status = .queued := by
  obtain ⟨isRow, isQueued⟩ := List.mem_filter.mp (List.mem_mergeSort.mp isIn)
  rw [Bool.and_eq_true, Bool.and_eq_true, beq_iff_eq, beq_iff_eq] at isQueued
  exact ⟨isRow, isQueued.1.2⟩

theorem drainRun_sublist (lateOpen : Finset Nat) (rows : List SendRow) :
    (drainRun lateOpen rows).Sublist rows := by
  induction rows with
  | nil => exact List.Sublist.refl []
  | cons head rest ih =>
    unfold drainRun
    split_ifs
    · exact ih.cons_cons head
    · exact ih.cons head
    · exact List.nil_sublist _

theorem drainRun_queued (lateOpen : Finset Nat) {rows : List SendRow}
    (taken : row ∈ drainRun lateOpen rows) : row.status = .queued := by
  induction rows with
  | nil => cases taken
  | cons head rest ih =>
    unfold drainRun at taken
    split_ifs at taken with isQueued
    · rcases List.mem_cons.mp taken with rfl | later
      · exact isQueued
      · exact ih later
    · exact ih taken
    · cases taken

theorem mem_drainable (isIn : row ∈ s.drainable threadId kind) :
    row ∈ s.rows ∧ row.status = .queued ∧ row.threadId = threadId := by
  have isFiltered := List.mem_mergeSort.mp ((drainRun_sublist _ _).subset isIn)
  obtain ⟨isRow, unresolved⟩ := List.mem_filter.mp isFiltered
  rw [Bool.and_eq_true, Bool.and_eq_true, beq_iff_eq] at unresolved
  exact ⟨isRow, drainRun_queued _ isIn, unresolved.1.1⟩

theorem drainable_distinct (distinct : (s.rows.map (·.seq)).Nodup) :
    ((s.drainable threadId kind).map (·.seq)).Nodup := by
  refine List.Nodup.sublist ((drainRun_sublist _ _).map _) ?_
  rw [((List.mergeSort_perm _ _).map _).nodup_iff]
  exact List.Nodup.sublist (List.filter_sublist.map _) distinct

end Reads

theorem drainBatch_sublist (rows : List SendRow) : (drainBatch rows).Sublist rows := by
  unfold drainBatch
  cases rows with
  | nil => exact List.Sublist.refl []
  | cons first rest =>
    dsimp only
    split_ifs
    · exact List.singleton_sublist.mpr List.mem_cons_self
    · exact List.takeWhile_sublist _

theorem drainBatch_via {rows : List SendRow} (isIn : row ∈ drainBatch rows)
    (isVia : row.via.isSome) : drainBatch rows = [row] := by
  unfold drainBatch at isIn ⊢
  cases rows with
  | nil => cases isIn
  | cons first rest =>
    dsimp only at isIn ⊢
    split_ifs at isIn ⊢
    · rw [List.mem_singleton.mp isIn]
    · have isOwner := List.mem_takeWhile_imp isIn
      rw [Option.isNone_iff_eq_none] at isOwner
      rw [isOwner] at isVia
      cases isVia

/-! ## The store's own writes -/

section Store

variable {s s' : SendStore}

theorem markedAt_same (seqs : List Nat) (now : Int) (row : SendRow) :
    Same row (markedAt seqs now row) := by
  unfold markedAt
  split_ifs
  · exact ⟨rfl, rfl, rfl, rfl, rfl, rfl, rfl⟩
  · exact Same.refl row

theorem markDispatchedMany_lines (now : Int) (seqs : List Nat)
    (done : markDispatchedMany now seqs s = .ok s') : s'.lines = s.lines := by
  induction seqs generalizing s with
  | nil =>
    cases done
    rfl
  | cons seq rest ih =>
    unfold markDispatchedMany at done
    rcases updateOne_cases (s := s) (fun r => r.seq == seq && r.status == .queued)
      (fun r => { r with status := .dispatched, dispatched := true, updatedAt := now })
      .notWaiting with failed | updated
    · rw [failed] at done
      cases done
    · rw [updated] at done
      have same := ih done
      exact same

def releasedAt (lateOpen : Finset Nat) (threadId : String) (row : SendRow) : SendRow :=
  if (decide (row.seq ∈ lateOpen) && row.threadId == threadId) = true then row.scrubbed else row

theorem releasedAt_same (lateOpen : Finset Nat) (threadId : String) (row : SendRow) :
    Same row (releasedAt lateOpen threadId row) ∧
      (releasedAt lateOpen threadId row).status = row.status ∧
      (releasedAt lateOpen threadId row).messageId = row.messageId := by
  unfold releasedAt SendRow.scrubbed
  split_ifs <;> exact ⟨⟨rfl, rfl, rfl, rfl, rfl, rfl, rfl⟩, rfl, rfl⟩

theorem releaseThreadLate_rows (s : SendStore) (threadId : String) :
    (s.releaseThreadLate threadId).rows = s.rows.map (releasedAt s.lateOpen threadId) := rfl

end Store

/-! ## The state of the drains -/

def Keeps (store : SendStore) (home : String → String) (threadId : String) (pair : SendRow × Line) :
    Prop :=
  ∃ stored, bySeq store pair.1.seq = some stored ∧ stored.threadId = threadId ∧
    Batch.messageById threadId { store, home } pair.2.id = some pair.2 ∧ pair.2.id ≠ "" ∧
    ((stored.status = .started ∧ stored.messageId = some pair.2.id) ∨
      (Waits stored ∧ stored.existingMessageId = some pair.2.id))

variable {threadId : String}

theorem Keeps.moves {b b' : Batch} {pair : SendRow × Line}
    (keeps : Keeps b.store b.home threadId pair) (moves : Moves b b') :
    Keeps b'.store b'.home threadId pair := by
  obtain ⟨stored, found, isThread, isThere, named, held⟩ := keeps
  obtain ⟨stored', found', same, moved⟩ := moves.rows _ stored found
  refine ⟨stored', found', same.threadId.trans isThread, moves.lines _ _ _ isThere, named, ?_⟩
  rcases moved with ⟨isStatus, isLine⟩ | ⟨waited, moved⟩
  · unfold Waits at held ⊢
    rw [isStatus, isLine, same.existingMessageId]
    exact held
  · rcases held with ⟨started, -⟩ | ⟨-, existing⟩
    · exact absurd started waited
    · rcases moved with waits | ⟨started, line⟩
      · exact Or.inr ⟨waits, same.existingMessageId.trans existing⟩
      · refine Or.inl ⟨started, line _ pair.2 ?_ ?_⟩
        · rw [existing]
          simp [given, named]
        · rw [isThread]
          exact isThere

/-- A call of `run` is given exactly what its batch committed, and is alone. -/
structure Right (parse : ParseAttachments) (call : RunCall) : Prop where
  alone : call.threadId ∉ call.pending
  distinct : (call.batch.map (·.seq)).Nodup
  prompt : call.prompt = "\n".intercalate
    ((call.batch.filter (isStarted call.after)).map fun row => row.prompt.getD row.text)
  excludes : call.excludeIds.map some =
    (call.batch.filter (isStarted call.after)).map fun row =>
      (bySeq call.after row.seq).bind (·.messageId)
  there : ∀ id ∈ call.excludeIds, id ∈ call.after.lines.keys
  newest : call.excludeIds.getLast? = some call.userMessage.id
  ended : ∀ row ∈ call.batch, isStarted call.after row = false →
    ∃ stored, bySeq call.after row.seq = some stored ∧
      (stored.status = .refused ∨ stored.status = .dispatched)
  /-- A share or an ask-intent. -/
  fenced : ∀ row ∈ call.batch, row.via.isSome → call.batch = [row] ∧
    ∃ stored, bySeq call.after row.seq = some stored ∧ stored.queueOnly = true ∧
      stored.via = row.via ∧ stored.origin = some "unproven" ∧
      attachmentsMalformed parse stored = false
  /-- No line is written but those the run excludes. -/
  written : ∀ id ∈ call.after.lines.keys, id ∈ call.before.lines.keys ∨ id ∈ call.excludeIds
  committed : call.committed.map (·.1) = call.batch.filter (isStarted call.after)
  lines : call.committed.map (·.2.id) = call.excludeIds

namespace Drains

/-- What holds between two operations. -/
structure Sound (parse : ParseAttachments) (s : Drains) : Prop where
  distinct : (s.store.rows.map (·.seq)).Nodup
  tokens : ∀ start ∈ s.pending, start.token < s.nextToken
  told : (s.pending.map (·.token)).Nodup
  starting : ∀ start ∈ s.pending, s.starting start.threadId = some start.token
  alone : (s.pending.map (·.threadId)).Nodup
  running : ∀ start ∈ s.pending, ∀ pair ∈ start.committed,
    ∃ stored, bySeq s.store pair.1.seq = some stored ∧ stored.status = .started
  calls : ∀ call ∈ s.runs, Right parse call
  called : ∀ start ∈ s.pending, ∃ call ∈ s.runs, call.threadId = start.threadId ∧
    call.committed = start.committed
  keeps : ∀ call ∈ s.runs, ∀ pair ∈ call.committed, Keeps s.store s.home call.threadId pair
  sameLine : ∀ call ∈ s.runs, ∀ call' ∈ s.runs, ∀ pair ∈ call.committed, ∀ pair' ∈ call'.committed,
    pair.1.seq = pair'.1.seq → pair.2 = pair'.2

variable {parse : ParseAttachments} {s s' : Drains}

theorem Sound.of_same (sound : s.Sound parse) (store : s'.store = s.store) (home : s'.home = s.home)
    (starting : s'.starting = s.starting) (pending : s'.pending = s.pending)
    (nextToken : s'.nextToken = s.nextToken) (runs : s'.runs = s.runs) : s'.Sound parse where
  distinct := by rw [store]; exact sound.distinct
  tokens := by rw [pending, nextToken]; exact sound.tokens
  told := by rw [pending]; exact sound.told
  starting := by rw [pending, starting]; exact sound.starting
  alone := by rw [pending]; exact sound.alone
  running := by rw [pending, store]; exact sound.running
  calls := by rw [runs]; exact sound.calls
  called := by rw [pending, runs]; exact sound.called
  keeps := by rw [runs, store, home]; exact sound.keeps
  sameLine := by rw [runs]; exact sound.sameLine

theorem Sound.moves (sound : s.Sound parse) {b : Batch}
    (moves : Moves { store := s.store, home := s.home } b) :
    ({ s with store := b.store, home := b.home } : Drains).Sound parse where
  distinct := by
    show (b.store.rows.map (·.seq)).Nodup
    rw [moves.seqs]
    exact sound.distinct
  tokens := sound.tokens
  told := sound.told
  starting := sound.starting
  alone := sound.alone
  running := fun start isIn pair isPair => by
    obtain ⟨stored, found, started⟩ := sound.running start isIn pair isPair
    obtain ⟨stored', found', -, moved⟩ := moves.rows _ stored found
    refine ⟨stored', found', ?_⟩
    rcases moved with ⟨isStatus, -⟩ | ⟨waited, -⟩
    · exact isStatus.trans started
    · exact absurd started waited
  calls := sound.calls
  called := sound.called
  keeps := fun call isIn pair isPair =>
    Keeps.moves (b := { store := s.store, home := s.home }) (sound.keeps call isIn pair isPair) moves
  sameLine := sound.sameLine

theorem Sound.clearRetry (sound : s.Sound parse) (threadId : String) :
    (s.clearRetry threadId).Sound parse := sound.of_same rfl rfl rfl rfl rfl rfl

theorem Sound.scheduleRetry (sound : s.Sound parse) (threadId : String) (refused : Bool)
    (now : Int) : (s.scheduleRetry threadId refused now).Sound parse :=
  sound.of_same rfl rfl rfl rfl rfl rfl

theorem Sound.watch (sound : s.Sound parse) (threadId : String) :
    (s.watch threadId).Sound parse := by
  unfold Drains.watch
  split_ifs
  · exact sound
  · exact sound.of_same rfl rfl rfl rfl rfl rfl

/-! ## One pass -/

theorem refuse_foldl_moves (env : DrainEnv) (rows : List SendRow) (b : Batch)
    (waited : ∀ row ∈ rows, ∀ stored, bySeq b.store row.seq = some stored →
      stored.status ≠ .started) :
    Moves b (rows.foldl (fun b row => Batch.refuse env b row) b) := by
  induction rows generalizing b with
  | nil => exact Moves.refl b
  | cons row rest ih =>
    have passed := Batch.refuse_passed env b row
    refine (Moves.of_passed passed (waited row List.mem_cons_self)).trans
      (ih _ fun other isIn stored found => ?_)
    by_cases same : other.seq = row.seq
    · cases before : bySeq b.store row.seq with
      | none =>
        have absent : bySeq (b.refuse env row).store row.seq = none := by
          by_contra isThere
          obtain ⟨after, isAfter⟩ := Option.ne_none_iff_exists'.mp isThere
          obtain ⟨isIn, isSeq⟩ := bySeq_spec isAfter
          have isSeqs : row.seq ∈ b.store.rows.map (·.seq) := by
            rw [← passed.writes.seqs]
            exact List.mem_map.mpr ⟨after, isIn, isSeq⟩
          obtain ⟨source, isSource, sourceSeq⟩ := List.mem_map.mp isSeqs
          exact List.find?_eq_none.mp before source isSource (beq_iff_eq.mpr sourceSeq)
        rw [same, absent] at found
        cases found
      | some held =>
        obtain ⟨held', found', isEnded⟩ := passed.status held before
        rw [same, found'] at found
        obtain rfl := Option.some.inj found
        rcases isEnded with isRefused | rfl
        · rw [isRefused]
          exact fun impossible => by cases impossible
        · exact waited row List.mem_cons_self _ before
    · rw [passed.writes.others other.seq same] at found
      exact waited other (List.mem_cons_of_mem _ isIn) stored found

theorem Sound.refuseAll (sound : s.Sound parse) (env : DrainEnv) {rows : List SendRow}
    (queued : ∀ row ∈ rows, row ∈ s.store.rows ∧ row.status = .queued) :
    (s.refuseAll env rows).Sound parse := by
  have moves := refuse_foldl_moves env rows { store := s.store, home := s.home }
    fun row isIn stored found => by
      obtain ⟨isRow, isQueued⟩ := queued row isIn
      rw [bySeq_of_mem sound.distinct isRow] at found
      obtain rfl := Option.some.inj found
      rw [isQueued]
      exact fun impossible => by cases impossible
  have home : ∀ (rows : List SendRow) (b : Batch),
      (rows.foldl (fun b row => Batch.refuse env b row) b).home = b.home := by
    intro rows
    induction rows with
    | nil => exact fun _ => rfl
    | cons row rest ih =>
      exact fun b => (ih _).trans (Batch.refuse_passed env b row).home
  have moved := sound.moves moves
  rw [home] at moved
  exact moved

def Marked (threadId : String) (rows : List SendRow) (start : Batch) : Prop :=
  ∀ row ∈ rows, row.threadId = threadId ∧ ∃ stored, bySeq start.store row.seq = some stored ∧
    stored.status = .dispatched ∧ Same row stored

theorem exists_pair {rows : List SendRow} {start b : Batch}
    (drained : Batch.Drained parse threadId rows start b) (isIn : row ∈ rows)
    (started : isStarted b.store row = true) : ∃ pair ∈ b.committed, pair.1 = row := by
  have isCommitted : row ∈ b.committed.map (·.1) := by
    rw [drained.committed]
    exact List.mem_filter.mpr ⟨isIn, started⟩
  exact List.mem_map.mp isCommitted

theorem moves_of_drained {rows : List SendRow} {start b : Batch}
    (drained : Batch.Drained parse threadId rows start b) (marked : Marked threadId rows start) :
    Moves start b where
  seqs := drained.seqs
  lines := drained.lines
  rows := fun seq stored found => by
    by_cases taken : ∃ row ∈ rows, row.seq = seq
    · obtain ⟨row, isIn, rfl⟩ := taken
      obtain ⟨isThread, stored', found', isDispatched, same⟩ := marked row isIn
      obtain rfl := Option.some.inj (found.symm.trans found')
      obtain ⟨after, isAfter, sameAfter⟩ := drained.own _ stored found
      obtain ⟨after', isAfter', isEnded⟩ := drained.ended row isIn
      obtain rfl := Option.some.inj (isAfter.symm.trans isAfter')
      refine ⟨after, isAfter, sameAfter, Or.inr ⟨?_, ?_⟩⟩
      · rw [isDispatched]
        exact fun impossible => by cases impossible
      rcases isEnded with started | isRefused | isDispatched'
      · right
        refine ⟨started, fun id there isGiven isThere => ?_⟩
        obtain ⟨pair, isPair, rfl⟩ := exists_pair drained isIn (by
          unfold isStarted
          rw [isAfter, Option.any_some, started]
          rfl)
        have ran := drained.ran pair isPair
        obtain ⟨final, isFinal, -, isLine, -⟩ := ran.stored
        obtain rfl := Option.some.inj (isAfter.symm.trans isFinal)
        rw [same.existingMessageId] at isGiven
        rw [same.threadId, isThread] at isThere
        obtain ⟨-, isId, -⟩ := Batch.messageById_spec isThere
        rw [isLine, ran.existing id there isGiven isThere, isId]
      · exact Or.inl (Or.inr (Or.inl isRefused))
      · exact Or.inl (Or.inr (Or.inr isDispatched'))
    · refine ⟨stored, ?_, Same.refl stored, Or.inl ⟨rfl, rfl⟩⟩
      rw [drained.others seq fun row isIn same => taken ⟨row, isIn, same⟩]
      exact found

theorem committed_distinct {rows : List SendRow} {committed : List (SendRow × Line)}
    {p : SendRow → Bool} (distinct : (rows.map (·.seq)).Nodup)
    (isCommitted : committed.map (·.1) = rows.filter p) :
    (committed.map fun pair => pair.1.seq).Nodup := by
  have same : (committed.map fun pair => pair.1.seq) = (rows.filter p).map (·.seq) := by
    rw [← isCommitted, List.map_map]
    rfl
  rw [same]
  exact List.Nodup.sublist (List.filter_sublist.map _) distinct

theorem right_call {rows : List SendRow} {start b : Batch}
    (drained : Batch.Drained parse threadId rows start b) (distinct : (rows.map (·.seq)).Nodup)
    (via : ∀ row ∈ rows, row.via.isSome → rows = [row]) {last : SendRow × Line}
    (isLast : b.committed.getLast? = some last) {pending : List String} (alone : threadId ∉ pending)
    {ownerId : String} {before : SendStore} (lines : start.store.lines = before.lines)
    (batchVia : Option SendVia) (viaDevice : Option String) :
    Right parse
      { ownerId := ownerId
        threadId := threadId
        prompt := "\n".intercalate (b.committed.map fun pair => pair.1.prompt.getD pair.1.text)
        userMessage := last.2
        excludeIds := b.committed.map (·.2.id)
        via := batchVia
        viaDevice := viaDevice
        batch := rows
        committed := b.committed
        before := before
        after := b.store
        pending := pending } where
  alone := alone
  distinct := distinct
  prompt := by
    show _ = "\n".intercalate ((rows.filter (isStarted b.store)).map _)
    rw [← drained.committed, List.map_map]
    rfl
  excludes := by
    show (b.committed.map (·.2.id)).map some = (rows.filter (isStarted b.store)).map _
    rw [← drained.committed, List.map_map, List.map_map]
    refine List.map_congr_left fun pair isIn => ?_
    obtain ⟨stored, found, -, isLine, -⟩ := (drained.ran pair isIn).stored
    show some pair.2.id = (bySeq b.store pair.1.seq).bind (·.messageId)
    rw [found, Option.bind_some, isLine]
  there := fun id isExcluded => by
    obtain ⟨pair, isIn, rfl⟩ := List.mem_map.mp isExcluded
    obtain ⟨-, -, isText⟩ := Batch.messageById_spec (drained.ran pair isIn).isThere
    show pair.2.id ∈ b.store.lines.keys
    rw [OrderedMap.mem_keys_iff, isText]
    rfl
  newest := by
    show (b.committed.map (·.2.id)).getLast? = _
    rw [List.getLast?_map, isLast]
    rfl
  ended := fun row isIn notStarted => by
    obtain ⟨stored, found, isEnded⟩ := drained.ended row isIn
    refine ⟨stored, found, isEnded.resolve_left fun started => ?_⟩
    have isStored : isStarted b.store row = true := by
      unfold isStarted
      rw [found, Option.any_some, started]
      rfl
    rw [isStored] at notStarted
    cases notStarted
  fenced := fun row isIn isVia => by
    have isBatch : rows = [row] := via row isIn isVia
    refine ⟨isBatch, ?_⟩
    have isCommitted : last ∈ b.committed := List.mem_of_getLast? isLast
    have isRow : last.1 = row := by
      have isIn : last.1 ∈ rows.filter (isStarted b.store) := by
        rw [← drained.committed]
        exact List.mem_map_of_mem isCommitted
      rw [isBatch] at isIn
      exact List.mem_singleton.mp (List.mem_of_mem_filter isIn)
    obtain ⟨stored, found, -, -, fence⟩ := (drained.ran last isCommitted).stored
    rw [isRow] at found fence
    have runs := fence isVia
    unfold runnable at runs
    simp only [Bool.and_eq_true, beq_iff_eq, Bool.not_eq_true'] at runs
    exact ⟨stored, found, runs.1.1.1.1, runs.1.1.1.2, runs.1.1.2, runs.1.2⟩
  written := fun id isKey => by
    rcases drained.keys id isKey with earlier | ⟨pair, isIn, rfl⟩
    · rw [lines] at earlier
      exact Or.inl earlier
    · exact Or.inr (List.mem_map_of_mem isIn)
  committed := drained.committed
  lines := rfl

theorem Sound.callRun {env : DrainEnv} {call : RunCall} {start b : Batch}
    (sound : s.Sound parse) (store : s.store = b.store) (home : s.home = b.home)
    (idle : s.starting call.threadId = none) (isRight : Right parse call)
    (drained : Batch.Drained parse call.threadId call.batch start b)
    (marked : Marked call.threadId call.batch start) (committed : call.committed = b.committed)
    (held : ∀ earlier ∈ s.runs, ∀ pair ∈ earlier.committed,
      Keeps start.store start.home earlier.threadId pair) :
    (s.callRun env call).Sound parse := by
  have isRow : ∀ pair ∈ call.committed, pair.1 ∈ call.batch := fun pair isIn => by
    refine List.mem_of_mem_filter (p := isStarted b.store) ?_
    rw [← drained.committed, ← committed]
    exact List.mem_map_of_mem isIn
  have keeps : ∀ pair ∈ call.committed, Keeps b.store b.home call.threadId pair :=
    fun pair isIn => by
      have ran := drained.ran pair (committed ▸ isIn)
      obtain ⟨stored, found, started, isLine, -⟩ := ran.stored
      obtain ⟨isThread, before, isBefore, -, same⟩ := marked pair.1 (isRow pair isIn)
      obtain ⟨after, isAfter, same'⟩ := drained.own _ before isBefore
      obtain rfl := Option.some.inj (isAfter.symm.trans found)
      exact ⟨after, found, (same'.threadId.trans same.threadId).trans isThread, ran.isThere,
        ran.named, Or.inl ⟨started, isLine⟩⟩
  -- A row that ran before runs from the line it ran from.
  have again : ∀ earlier ∈ s.runs, ∀ pair ∈ earlier.committed, ∀ pair' ∈ call.committed,
      pair.1.seq = pair'.1.seq → pair.2 = pair'.2 := fun earlier isEarlier pair isPair pair' isPair'
      sameSeq => by
    obtain ⟨stored, found, isThread, isThere, named, isHeld⟩ := held earlier isEarlier pair isPair
    obtain ⟨thread', before, isBefore, isDispatched, same⟩ := marked pair'.1 (isRow pair' isPair')
    rw [← sameSeq, found] at isBefore
    obtain rfl := Option.some.inj isBefore
    rcases isHeld with ⟨started, -⟩ | ⟨-, existing⟩
    · rw [isDispatched] at started
      cases started
    · have ran := drained.ran pair' (committed ▸ isPair')
      refine (ran.existing pair.2.id pair.2 ?_ ?_).symm
      · rw [← same.existingMessageId, existing]
        simp [given, named]
      · rw [← thread', ← same.threadId, isThread]
        exact isThere
  have sameLine : ∀ first ∈ s.runs ++ [call], ∀ second ∈ s.runs ++ [call],
      ∀ pair ∈ first.committed, ∀ pair' ∈ second.committed, pair.1.seq = pair'.1.seq →
        pair.2 = pair'.2 := fun first isFirst second isSecond pair isPair pair' isPair' sameSeq => by
    rcases List.mem_append.mp isFirst with old | isNew <;>
      rcases List.mem_append.mp isSecond with old' | isNew'
    · exact sound.sameLine first old second old' pair isPair pair' isPair' sameSeq
    · obtain rfl := List.mem_singleton.mp isNew'
      exact again first old pair isPair pair' isPair' sameSeq
    · obtain rfl := List.mem_singleton.mp isNew
      exact (again second old' pair' isPair' pair isPair sameSeq.symm).symm
    · obtain rfl := List.mem_singleton.mp isNew
      obtain rfl := List.mem_singleton.mp isNew'
      exact congrArg Prod.snd (List.inj_on_of_nodup_map
        (committed_distinct isRight.distinct isRight.committed) isPair isPair' sameSeq)
  have calls : ∀ other ∈ s.runs ++ [call], Right parse other := fun other isIn => by
    rcases List.mem_append.mp isIn with old | isNew
    · exact sound.calls other old
    · obtain rfl := List.mem_singleton.mp isNew
      exact isRight
  have keepsAll : ∀ other ∈ s.runs ++ [call], ∀ pair ∈ other.committed,
      Keeps s.store s.home other.threadId pair := fun other isIn pair isPair => by
    rcases List.mem_append.mp isIn with old | isNew
    · exact sound.keeps other old pair isPair
    · obtain rfl := List.mem_singleton.mp isNew
      rw [store, home]
      exact keeps pair isPair
  have called : ∀ start ∈ s.pending, ∃ other ∈ s.runs ++ [call],
      other.threadId = start.threadId ∧ other.committed = start.committed := fun start isIn => by
    obtain ⟨other, isOther, same⟩ := sound.called start isIn
    exact ⟨other, List.mem_append_left _ isOther, same⟩
  have elsewhere : ∀ start ∈ s.pending, start.threadId ≠ call.threadId := fun start isIn same => by
    have isStarting := sound.starting start isIn
    rw [same, idle] at isStarting
    cases isStarting
  unfold Drains.callRun
  dsimp only
  split_ifs
  · refine ⟨sound.distinct, fun start isIn => ?_, ?_, fun start isIn => ?_, ?_,
      fun start isIn pair isPair => ?_, calls, fun start isIn => ?_, keepsAll, sameLine⟩
    · rcases List.mem_append.mp isIn with old | isNew
      · exact Nat.lt_succ_of_lt (sound.tokens start old)
      · rw [List.mem_singleton.mp isNew]
        exact Nat.lt_succ_self _
    · rw [List.map_append, List.nodup_append']
      refine ⟨sound.told, List.nodup_singleton _, ?_⟩
      rw [List.map_singleton, List.disjoint_singleton]
      intro isToken
      obtain ⟨start, isIn, same⟩ := List.mem_map.mp isToken
      exact absurd same (Nat.ne_of_lt (sound.tokens start isIn))
    · rcases List.mem_append.mp isIn with old | isNew
      · exact (Function.update_of_ne (elsewhere start old) _ _).trans (sound.starting start old)
      · rw [List.mem_singleton.mp isNew]
        exact Function.update_self ..
    · rw [List.map_append, List.nodup_append']
      refine ⟨sound.alone, List.nodup_singleton _, ?_⟩
      rw [List.map_singleton, List.disjoint_singleton]
      intro isThread
      obtain ⟨start, isIn, same⟩ := List.mem_map.mp isThread
      exact elsewhere start isIn same
    · rcases List.mem_append.mp isIn with old | isNew
      · exact sound.running start old pair isPair
      · obtain rfl := List.mem_singleton.mp isNew
        have ran := drained.ran pair (committed ▸ isPair)
        obtain ⟨stored, found, started, -, -⟩ := ran.stored
        exact ⟨stored, store ▸ found, started⟩
    · rcases List.mem_append.mp isIn with old | isNew
      · exact called start old
      · obtain rfl := List.mem_singleton.mp isNew
        exact ⟨call, by simp, rfl, rfl⟩
  · exact ⟨sound.distinct, sound.tokens, sound.told, sound.starting, sound.alone, sound.running, calls,
      called, keepsAll, sameLine⟩

/-- **A batch.** From a thread that is not being started. -/
theorem drainRows_eq (env : DrainEnv) (threadId : String) (first : SendRow) :
    s.drainRows parse env threadId first =
      match drainBatch ((s.store.releaseThreadLate threadId).drainable threadId .bot) with
      | [] => (s.setStore (s.store.releaseThreadLate threadId), false)
      | head :: rest =>
        match if env.marks then markDispatchedMany env.now ((head :: rest).map (·.seq))
            (s.store.releaseThreadLate threadId) else .error .notWaiting with
        | .error _ => (s.setStore (s.store.releaseThreadLate threadId), false)
        | .ok marked =>
          (s.setStore (s.store.releaseThreadLate threadId)).runBatch env threadId first head
            (head :: rest) (s.store.releaseThreadLate threadId)
            ((head :: rest).foldl (fun b row => Batch.drainRow parse env threadId b row)
              { store := marked, home := s.home }) := rfl

theorem Sound.drainRows (sound : s.Sound parse) {env : DrainEnv}
    (settles : ∀ seq, (env.row seq).settles = true) (idle : s.starting threadId = none)
    (first : SendRow) :
    (s.drainRows parse env threadId first).1.Sound parse := by
  -- The release of late answers.
  let released : Batch := { store := s.store.releaseThreadLate threadId, home := s.home }
  have isReleased : Moves { store := s.store, home := s.home } released :=
    Moves.of_map (releaseThreadLate_rows s.store threadId) rfl rfl
      (fun row => (releasedAt_same s.store.lateOpen threadId row).1)
      fun row _ => Or.inl (releasedAt_same s.store.lateOpen threadId row).2
  have soundReleased := sound.moves isReleased
  have distinct : (released.store.rows.map (·.seq)).Nodup := soundReleased.distinct
  rw [drainRows_eq]
  have batchDistinct : ((drainBatch (released.store.drainable threadId .bot)).map (·.seq)).Nodup :=
    List.Nodup.sublist ((drainBatch_sublist _).map _) (drainable_distinct distinct)
  have isWaiting : ∀ row ∈ drainBatch (released.store.drainable threadId .bot),
      row ∈ released.store.rows ∧ row.status = .queued ∧ row.threadId = threadId :=
    fun row isIn => mem_drainable ((drainBatch_sublist _).subset isIn)
  have isVia := fun row (isIn : row ∈ drainBatch (released.store.drainable threadId .bot)) =>
    drainBatch_via isIn
  generalize drainBatch (released.store.drainable threadId .bot) = rows at batchDistinct isWaiting isVia
  cases rows with
  | nil => exact soundReleased
  | cons head rest =>
  dsimp only
  cases done : if env.marks then markDispatchedMany env.now ((head :: rest).map (·.seq))
    released.store else .error .notWaiting with
  | error error => exact soundReleased
  | ok marked =>
  dsimp only
  have isMarked : markDispatchedMany env.now ((head :: rest).map (·.seq)) released.store =
      .ok marked := by
    split_ifs at done
    exact done
  have rows := markDispatchedMany_rows env.now _ distinct isMarked
  have lines := markDispatchedMany_lines env.now _ isMarked
  let start : Batch := { store := marked, home := s.home }
  have moves : Moves released start := by
    refine Moves.of_map rows lines rfl (markedAt_same _ _) fun row isIn => ?_
    unfold markedAt
    split_ifs with taken
    · obtain ⟨waiting, isRow, sameSeq⟩ := List.mem_map.mp taken
      obtain ⟨isStored, isQueued, -⟩ := isWaiting waiting isRow
      obtain rfl := List.inj_on_of_nodup_map distinct isStored isIn sameSeq
      refine Or.inr ⟨?_, Or.inr (Or.inr rfl)⟩
      rw [isQueued]
      exact fun impossible => by cases impossible
    · exact Or.inl ⟨rfl, rfl⟩
  have batch : Marked threadId (head :: rest) start := fun row isIn => by
    obtain ⟨isRow, -, isThread⟩ := isWaiting row isIn
    refine ⟨isThread, _, ?_, ?_, markedAt_same ((head :: rest).map (·.seq)) env.now row⟩
    · rw [bySeq_map rows fun row => markedAt_seq _ _ row, bySeq_of_mem distinct isRow,
        Option.map_some]
    · unfold markedAt
      rw [if_pos (List.mem_map_of_mem isIn)]
  have drained := @Batch.drained_foldl parse env threadId start rfl _ batchDistinct (fun row isIn => by
      obtain ⟨-, stored, found, isDispatched, -⟩ := batch row isIn
      exact ⟨stored, found, isDispatched⟩) settles
  have soundStart := sound.moves (isReleased.trans moves)
  generalize (head :: rest).foldl (fun b row => Batch.drainRow parse env threadId b row)
    { store := marked, home := s.home } = b at drained ⊢
  have moved := sound.moves ((isReleased.trans moves).trans (moves_of_drained drained batch))
  unfold runBatch
  cases isLast : b.committed.getLast? with
  | none => exact moved
  | some last =>
    refine moved.callRun rfl rfl idle ?_ drained batch rfl soundStart.keeps
    refine right_call drained batchDistinct isVia isLast (fun isThread => ?_) lines _ _
    obtain ⟨pending, isIn, same⟩ := List.mem_map.mp isThread
    have isStarting := sound.starting pending isIn
    rw [same, idle] at isStarting
    cases isStarting

/-- **One pass.** -/
theorem Sound.drainOne (sound : s.Sound parse) {env : DrainEnv}
    (settles : ∀ seq, (env.row seq).settles = true) (threadId : String) :
    (s.drainOne parse env threadId).1.Sound parse := by
  unfold Drains.drainOne
  by_cases unread : (!env.reads) = true
  · rw [if_pos unread]
    exact sound
  rw [if_neg unread]
  cases isQueued : queuedRows s.store threadId .bot with
  | nil => exact sound
  | cons first rest =>
    dsimp only
    split_ifs with noBot isBusy isBlocked isStarting
    · refine sound.refuseAll env fun row isIn => 
        @mem_queuedRows _ threadId .bot _ ?_
      rw [isQueued]
      exact isIn
    · exact sound
    · exact sound
    · exact sound
    · exact sound
    · exact sound.watch threadId
    · exact sound.drainRows settles (by simpa using isStarting) first

/-- No outcome of a line that is there fails to be written. -/
def Settles (env : String → Nat → DrainEnv) : Prop :=
  ∀ threadId pass seq, ((env threadId pass).row seq).settles = true

theorem Sound.passes (sound : s.Sound parse) {env : Nat → DrainEnv}
    (settles : ∀ pass seq, ((env pass).row seq).settles = true) (threadId : String) (left : Nat) :
    (s.passes parse env threadId left).Sound parse := by
  induction left generalizing s with
  | zero => exact sound
  | succ left ih =>
    have next := sound.drainOne (settles left) threadId
    unfold Drains.passes
    generalize s.drainOne parse (env left) threadId = result at next ⊢
    obtain ⟨after, again⟩ := result
    cases again with
    | false => exact next
    | true => exact ih next

/-- **A drain.** -/
theorem Sound.drainSteeredMessages (sound : s.Sound parse) {env : String → Nat → DrainEnv}
    (settles : Settles env) : (s.drainSteeredMessages parse env).Sound parse := by
  unfold Drains.drainSteeredMessages
  generalize queuedThreads s.store .bot = threads
  induction threads generalizing s with
  | nil => exact sound
  | cons threadId rest ih =>
    exact ih (sound.passes (settles threadId) threadId 64)

end Drains

end Murage.SteerQueue
