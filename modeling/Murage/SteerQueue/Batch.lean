import Murage.OwnerSends.Order
import Murage.SteerQueue.Model

/-!
Owns what one drained batch commits: the rows that become started, in order, with the
line each of them runs from, and what the batch leaves alone.

Does not own: when a thread is drained, and what its start answers.
-/

namespace Murage.SteerQueue

open Murage.Library
open Murage.OwnerSends
open Murage.OwnerSends.SendStore

/-! ## Rows by number -/

/-- What no write of a drain changes in a row. -/
structure Same (row row' : SendRow) : Prop where
  seq : row'.seq = row.seq
  threadId : row'.threadId = row.threadId
  existingMessageId : row'.existingMessageId = row.existingMessageId
  via : row'.via = row.via
  queueOnly : row'.queueOnly = row.queueOnly
  origin : row'.origin = row.origin
  attachments : row'.attachments = row.attachments

theorem Same.refl (row : SendRow) : Same row row := ⟨rfl, rfl, rfl, rfl, rfl, rfl, rfl⟩

theorem Same.trans {row row' row'' : SendRow} (first : Same row row') (second : Same row' row'') :
    Same row row'' where
  seq := second.seq.trans first.seq
  threadId := second.threadId.trans first.threadId
  existingMessageId := second.existingMessageId.trans first.existingMessageId
  via := second.via.trans first.via
  queueOnly := second.queueOnly.trans first.queueOnly
  origin := second.origin.trans first.origin
  attachments := second.attachments.trans first.attachments

theorem Same.runnable {parse : ParseAttachments} {row fresh fresh' : SendRow}
    (same : Same fresh fresh') : runnable parse row fresh' = runnable parse row fresh := by
  unfold SteerQueue.runnable attachmentsMalformed SteerQueue.attachments
  rw [same.queueOnly, same.via, same.origin, same.attachments]

section BySeq

variable {s s' : SendStore} {seq : Nat}

theorem bySeq_spec {row : SendRow} (found : bySeq s seq = some row) :
    row ∈ s.rows ∧ row.seq = seq :=
  ⟨List.mem_of_find?_eq_some found,
    beq_iff_eq.mp (List.find?_some (p := fun row : SendRow => row.seq == seq) found)⟩

theorem bySeq_map {f : SendRow → SendRow} (rows : s'.rows = s.rows.map f)
    (keeps : ∀ row, (f row).seq = row.seq) : bySeq s' seq = (bySeq s seq).map f := by
  unfold bySeq
  rw [rows, List.find?_map]
  refine congrArg (Option.map f) (congrArg (List.find? · s.rows) (funext fun row => ?_))
  rw [Function.comp_apply, keeps]

theorem bySeq_of_mem (distinct : (s.rows.map (·.seq)).Nodup) {row : SendRow}
    (isIn : row ∈ s.rows) : bySeq s row.seq = some row := by
  cases found : bySeq s row.seq with
  | none =>
    have absent := List.find?_eq_none.mp found row isIn
    exact absurd (beq_self_eq_true row.seq) absent
  | some other =>
    obtain ⟨isOther, same⟩ := bySeq_spec found
    exact congrArg some (List.inj_on_of_nodup_map distinct isOther isIn same)

end BySeq

/-! ## One row -/

structure Writes (seq : Nat) (s s' : SendStore) : Prop where
  seqs : s'.rows.map (·.seq) = s.rows.map (·.seq)
  others : ∀ other, other ≠ seq → bySeq s' other = bySeq s other
  own : ∀ row, bySeq s seq = some row → ∃ row', bySeq s' seq = some row' ∧ Same row row'

theorem Writes.refl (seq : Nat) (s : SendStore) : Writes seq s s :=
  ⟨rfl, fun _ _ => rfl, fun row found => ⟨row, found, Same.refl row⟩⟩

theorem Writes.trans {seq : Nat} {s s' s'' : SendStore} (first : Writes seq s s')
    (second : Writes seq s' s'') : Writes seq s s'' where
  seqs := second.seqs.trans first.seqs
  others := fun other differs => (second.others other differs).trans (first.others other differs)
  own := fun row found => by
    obtain ⟨row', found', same⟩ := first.own row found
    obtain ⟨row'', found'', same'⟩ := second.own row' found'
    exact ⟨row'', found'', same.trans same'⟩

theorem Writes.of_map {seq : Nat} {s s' : SendStore} {f : SendRow → SendRow}
    (rows : s'.rows = s.rows.map f) (same : ∀ row, Same row (f row))
    (off : ∀ row, row.seq ≠ seq → f row = row) : Writes seq s s' where
  seqs := by
    rw [rows, List.map_map]
    exact List.map_congr_left fun row _ => (same row).seq
  others := fun other differs => by
    rw [bySeq_map rows fun row => (same row).seq]
    cases found : bySeq s other with
    | none => rfl
    | some row => exact congrArg some (off row fun isSeq => differs ((bySeq_spec found).2 ▸ isSeq))
  own := fun row found => by
    refine ⟨f row, ?_, same row⟩
    rw [bySeq_map rows fun row => (same row).seq, found, Option.map_some]

section Settle

variable {s : SendStore} {seq : Nat} {status : SendStatus} {messageId notice : Option String}
  {now : Int}

theorem settledAt_same (row : SendRow) :
    Same row (settledAt seq status messageId notice now row) := by
  unfold settledAt
  split_ifs
  · exact ⟨rfl, rfl, rfl, rfl, rfl, rfl, rfl⟩
  · exact Same.refl row

theorem settledAt_off (row : SendRow) (differs : row.seq ≠ seq) :
    settledAt seq status messageId notice now row = row := by
  unfold settledAt
  rw [if_neg (by simpa using differs)]

theorem settledAt_own (row : SendRow) (isSeq : row.seq = seq) :
    (settledAt seq status messageId notice now row).status = status ∧
      (settledAt seq status messageId notice now row).messageId = messageId.or row.messageId := by
  unfold settledAt
  rw [if_pos (beq_iff_eq.mpr isSeq)]
  exact ⟨rfl, rfl⟩

theorem orElse_settle (s : SendStore) (seq : Nat) (status : SendStatus)
    (messageId notice : Option String) (now : Int) :
    orElse (s.settle seq status messageId notice now) s = s ∨
      ∃ lateOpen, orElse (s.settle seq status messageId notice now) s =
        { s with rows := s.rows.map (settledAt seq status messageId notice now), lateOpen } := by
  cases done : s.settle seq status messageId notice now with
  | error error => exact Or.inl rfl
  | ok after =>
    obtain ⟨-, lateOpen, rfl⟩ := settle_eq done
    exact Or.inr ⟨lateOpen, rfl⟩

theorem settle_started {row : SendRow} (found : bySeq s seq = some row) {lineId : String}
    (named : lineId ≠ "") (now : Int) :
    ∃ lateOpen, orElse (s.settle seq .started (some lineId) none now) s =
      { s with rows := s.rows.map (settledAt seq .started (some lineId) none now), lateOpen } := by
  obtain ⟨isIn, isSeq⟩ := bySeq_spec found
  have isGiven : given (some lineId) = some lineId := by simp [given, named]
  have isThere : s.rows.any (·.seq == seq) = true :=
    List.any_eq_true.mpr ⟨row, isIn, beq_iff_eq.mpr isSeq⟩
  have done : ∃ after, s.settle seq .started (some lineId) none now = .ok after := by
    unfold settle update updateOne
    rw [if_neg (by simp [isGiven]), if_neg (by simp), if_pos isThere]
    exact ⟨_, rfl⟩
  obtain ⟨after, done⟩ := done
  obtain ⟨-, lateOpen, rfl⟩ := settle_eq done
  exact ⟨lateOpen, by rw [done]; rfl⟩

theorem linedAt_same {lineId actual : String} (row : SendRow) :
    Same row (linedAt seq status lineId actual notice now row) := by
  unfold linedAt
  split_ifs
  · exact ⟨rfl, rfl, rfl, rfl, rfl, rfl, rfl⟩
  · exact Same.refl row

theorem linedAt_off {lineId actual : String} (row : SendRow) (differs : row.seq ≠ seq) :
    linedAt seq status lineId actual notice now row = row := by
  unfold linedAt
  rw [if_neg (by simpa using differs)]

theorem linedAt_own {lineId actual : String} (row : SendRow) (isSeq : row.seq = seq) :
    (linedAt seq status lineId actual notice now row).status = status ∧
      (linedAt seq status lineId actual notice now row).messageId = some actual := by
  unfold linedAt
  rw [if_pos (beq_iff_eq.mpr isSeq)]
  exact ⟨rfl, rfl⟩

end Settle

namespace Batch

variable {parse : ParseAttachments} {env : DrainEnv} {threadId : String} {b b' : Batch}
  {row : SendRow}

structure Passed (row : SendRow) (b b' : Batch) : Prop where
  writes : Writes row.seq b.store b'.store
  lines : b'.store.lines = b.store.lines
  home : b'.home = b.home
  committed : b'.committed = b.committed
  status : ∀ stored, bySeq b.store row.seq = some stored →
    ∃ stored', bySeq b'.store row.seq = some stored' ∧
      (stored'.status = .refused ∨ stored' = stored)

theorem Passed.refl (row : SendRow) (b : Batch) : Passed row b b :=
  ⟨Writes.refl _ _, rfl, rfl, rfl, fun stored found => ⟨stored, found, Or.inr rfl⟩⟩

theorem refuse_passed (env : DrainEnv) (b : Batch) (row : SendRow) :
    Passed row b (b.refuse env row) := by
  unfold refuse
  split_ifs
  swap
  · exact Passed.refl row b
  show Passed row b { b with
    store := orElse (b.store.settle row.seq .refused none (some "refused") env.now) b.store }
  rcases orElse_settle b.store row.seq .refused none (some "refused") env.now with
    same | ⟨lateOpen, written⟩
  · refine ⟨?_, ?_, rfl, rfl, fun stored found => ⟨stored, ?_, Or.inr rfl⟩⟩
    · rw [same]
      exact Writes.refl _ _
    · rw [same]
    · rw [same]
      exact found
  · refine ⟨?_, ?_, rfl, rfl, fun stored found =>
      ⟨settledAt row.seq .refused none (some "refused") env.now stored, ?_, Or.inl ?_⟩⟩
    · rw [written]
      exact Writes.of_map rfl settledAt_same settledAt_off
    · rw [written]
    · rw [written, bySeq_map rfl fun row => (settledAt_same row).seq, found, Option.map_some]
    · exact (settledAt_own stored (bySeq_spec found).2).1

structure Committed (threadId : String) (row : SendRow) (line : Line) (b b' : Batch) : Prop where
  writes : Writes row.seq b.store b'.store
  committed : b'.committed = b.committed ++ [(row, line)]
  lines : ∀ thread id there, b.messageById thread id = some there →
    b'.messageById thread id = some there
  keys : ∀ id ∈ b'.store.lines.keys, id ∈ b.store.lines.keys ∨ id = line.id
  isThere : b'.messageById threadId line.id = some line
  named : line.id ≠ ""
  /-- A line already in the transcript is the line. -/
  existing : ∀ id there, given row.existingMessageId = some id →
    b.messageById threadId id = some there → line = there
  status : ∃ stored', bySeq b'.store row.seq = some stored' ∧ stored'.status = .started ∧
    stored'.messageId = some line.id

theorem messageById_spec {id : String} {line : Line} (found : b.messageById threadId id = some line) :
    b.home id = threadId ∧ line.id = id ∧ b.store.lines.get id = some line.text := by
  unfold messageById at found
  split_ifs at found with isHome
  obtain ⟨text, isText, rfl⟩ := Option.map_eq_some_iff.mp found
  exact ⟨isHome, rfl, isText⟩

theorem messageById_of_some {id : String} {text : String} (isHome : b.home id = threadId)
    (isText : b.store.lines.get id = some text) : b.messageById threadId id = some ⟨id, text⟩ := by
  unfold messageById
  rw [if_pos isHome, isText, Option.map_some]

theorem messageById_congr (lines : b'.store.lines = b.store.lines) (home : b'.home = b.home)
    (id : String) : b'.messageById threadId id = b.messageById threadId id := by
  unfold messageById
  rw [lines, home]

theorem messageById_of_lines {store store' : SendStore} (lines : store'.lines = store.lines)
    {home : String → String} {id : String} {there : Line}
    (found : messageById threadId { store, home } id = some there) :
    messageById threadId { store := store', home } id = some there := by
  rw [← found]
  unfold messageById
  rw [lines]

theorem messageById_append {actual words : String} (absent : actual ∉ b.store.lines.keys)
    (lines : b'.store.lines = b.store.lines.set actual words)
    (home : b'.home = Function.update b.home actual threadId) (thread id : String) (there : Line)
    (found : b.messageById thread id = some there) : b'.messageById thread id = some there := by
  obtain ⟨isHome, rfl, isText⟩ := messageById_spec found
  have differs : there.id ≠ actual := fun same => by
    rw [← same, ← OrderedMap.get_eq_none_iff, isText] at absent
    cases absent
  refine messageById_of_some ?_ ?_
  · rw [home, Function.update_of_ne differs]
    exact isHome
  · rw [lines, OrderedMap.get_set, if_neg differs]
    exact isText

theorem lineOf_cases (env : DrainEnv) (threadId : String) (b : Batch) (row : SendRow) :
    (∃ id there, given row.existingMessageId = some id ∧ b.messageById threadId id = some there ∧
      b.lineOf env threadId row = (b, some there)) ∨
    ((∀ id, given row.existingMessageId = some id → b.messageById threadId id = none) ∧
      ((∃ b', Passed row b b' ∧ b.lineOf env threadId row = (b', none)) ∨
        ∃ (actual : { id : String // id ≠ "" }) (lateOpen : Finset Nat),
          actual.val ∉ b.store.lines.keys ∧
          b.lineOf env threadId row =
            ({ b with
                store := { b.store with
                  rows := b.store.rows.map (linedAt row.seq .started (env.row row.seq).lineId
                    actual.val none env.now)
                  lateOpen := lateOpen
                  lines := b.store.lines.set actual.val row.text }
                home := Function.update b.home actual.val threadId },
              some ⟨actual.val, row.text⟩))) := by
  unfold lineOf
  cases isLine : (given row.existingMessageId).bind (b.messageById threadId) with
  | some there =>
    obtain ⟨id, isGiven, isThere⟩ := Option.bind_eq_some_iff.mp isLine
    exact Or.inl ⟨id, there, isGiven, isThere, rfl⟩
  | none =>
    refine Or.inr ⟨fun id isGiven => ?_, ?_⟩
    · rw [isGiven, Option.bind_some] at isLine
      exact isLine
    rcases settleWithLine_cases b.store row.seq .started (env.row row.seq).lineId
        ((env.row row.seq).append.map fun id => (id.val, row.text)) none env.now with
      ⟨lateOpen, error, isResult⟩ | ⟨actual, words, lateOpen, isAppend, absent, isResult⟩
    · left
      dsimp only
      rw [isResult]
      refine ⟨({ b with store := { b.store with lateOpen } } : Batch).refuse env row, ?_, ?_⟩
      · have passed := refuse_passed env { b with store := { b.store with lateOpen } } row
        exact ⟨⟨passed.writes.seqs, passed.writes.others, passed.writes.own⟩, passed.lines,
          passed.home, passed.committed, passed.status⟩
      · cases (env.row row.seq).append <;> rfl
    · right
      obtain ⟨id, isId, isPair⟩ := Option.map_eq_some_iff.mp isAppend
      obtain ⟨rfl, rfl⟩ := Prod.mk.inj isPair
      refine ⟨id, lateOpen, absent, ?_⟩
      dsimp only
      rw [isResult, isId]

theorem commit_writes (env : DrainEnv) (b : Batch) (row : SendRow) (line : Line) :
    Writes row.seq b.store (b.commit env row line).store ∧
      (b.commit env row line).store.lines = b.store.lines := by
  unfold commit
  dsimp only
  split_ifs
  · rcases orElse_settle b.store row.seq .started (some line.id) none env.now with
      same | ⟨lateOpen, written⟩
    · rw [same]
      exact ⟨Writes.refl _ _, rfl⟩
    · rw [written]
      exact ⟨Writes.of_map rfl settledAt_same settledAt_off, rfl⟩
  · exact ⟨Writes.refl _ _, rfl⟩

theorem commit_status (b : Batch) {row stored : SendRow} {line : Line}
    (found : bySeq b.store row.seq = some stored) (isStarted : stored.status = .started)
    (isLine : stored.messageId = some line.id) :
    ∃ stored', bySeq (b.commit env row line).store row.seq = some stored' ∧
      stored'.status = .started ∧ stored'.messageId = some line.id := by
  unfold commit
  dsimp only
  split_ifs
  · rcases orElse_settle b.store row.seq .started (some line.id) none env.now with
      same | ⟨lateOpen, written⟩
    · rw [same]
      exact ⟨stored, found, isStarted, isLine⟩
    · rw [written, bySeq_map rfl fun row => (settledAt_same row).seq, found]
      exact ⟨_, rfl, settledAt_own stored (bySeq_spec found).2⟩
  · exact ⟨stored, found, isStarted, isLine⟩

theorem commit_existing (b : Batch) {row stored : SendRow} {line : Line}
    (found : bySeq b.store row.seq = some stored)
    (isGiven : given row.existingMessageId = some line.id) (named : line.id ≠ "")
    (settles : (env.row row.seq).settles = true) :
    ∃ stored', bySeq (b.commit env row line).store row.seq = some stored' ∧
      stored'.status = .started ∧ stored'.messageId = some line.id := by
  obtain ⟨lateOpen, written⟩ := settle_started found named env.now
  unfold commit
  dsimp only
  rw [if_pos ⟨isGiven, settles⟩, written, bySeq_map rfl fun row => (settledAt_same row).seq, found]
  exact ⟨_, rfl, settledAt_own stored (bySeq_spec found).2⟩

theorem ne_empty_of_given {value : Option String} {id : String} (isGiven : given value = some id) :
    id ≠ "" := by
  unfold given at isGiven
  obtain ⟨-, named⟩ := Option.filter_eq_some_iff.mp isGiven
  exact of_decide_eq_true named

/-- **One row of a batch.** It is passed by or committed; a `via` row is committed only
while its fence holds. -/
theorem drainRow_cases (parse : ParseAttachments) (threadId : String) {stored : SendRow}
    (found : bySeq b.store row.seq = some stored)
    (settles : (env.row row.seq).settles = true) :
    Passed row b (b.drainRow parse env threadId row) ∨
      ∃ line, Committed threadId row line b (b.drainRow parse env threadId row) ∧
        (row.via.isSome → runnable parse row stored = true) := by
  unfold drainRow
  split_ifs with isFenced
  swap
  · exact Or.inl (refuse_passed env b row)
  have fence : row.via.isSome → runnable parse row stored = true := fun isVia => by
    unfold fenced at isFenced
    rw [found] at isFenced
    cases isVia' : row.via with
    | none =>
      rw [isVia'] at isVia
      cases isVia
    | some via =>
      rw [isVia'] at isFenced
      split_ifs at isFenced
      · simpa using isFenced
      · simp at isFenced
  rcases lineOf_cases env threadId b row with
    ⟨id, there, isGiven, isThere, isLine⟩ |
    ⟨absent, ⟨b', passed, isLine⟩ | ⟨actual, lateOpen, isNew, isLine⟩⟩
  · right
    rw [isLine]
    obtain ⟨-, rfl, -⟩ := messageById_spec isThere
    have named := ne_empty_of_given isGiven
    obtain ⟨writes, lines⟩ := commit_writes env b row there
    have congr := fun thread id => @messageById_congr thread _ _ lines
      (show (b.commit env row there).home = b.home from rfl) id
    refine ⟨there, ⟨writes, rfl, fun thread id line isFound => ?_, fun id isKey => ?_, ?_, named,
      fun id line isId isFound => ?_, commit_existing b found isGiven named settles⟩, fence⟩
    · rw [congr, isFound]
    · rw [lines] at isKey
      exact Or.inl isKey
    · rw [congr, isThere]
    · obtain rfl := Option.some.inj (isGiven.symm.trans isId)
      exact Option.some.inj (isThere.symm.trans isFound)
  · left
    rw [isLine]
    exact passed
  · right
    rw [isLine]
    -- The row is started as its line is appended; a second receipt changes nothing.
    let lined : Batch := { b with
      store := { b.store with
        rows := b.store.rows.map (linedAt row.seq .started (env.row row.seq).lineId actual.val none
          env.now)
        lateOpen := lateOpen
        lines := b.store.lines.set actual.val row.text }
      home := Function.update b.home actual.val threadId }
    have first : Writes row.seq b.store lined.store := Writes.of_map rfl linedAt_same linedAt_off
    have foundLined : bySeq lined.store row.seq = some (linedAt row.seq .started
        (env.row row.seq).lineId actual.val none env.now stored) := by
      rw [bySeq_map rfl fun row => (linedAt_same row).seq, found, Option.map_some]
    obtain ⟨isStarted, isActual⟩ := linedAt_own stored (bySeq_spec found).2
    obtain ⟨writes, lines⟩ := commit_writes env lined row ⟨actual.val, row.text⟩
    have congr := fun thread id => @messageById_congr thread _ _ lines
      (show (lined.commit env row ⟨actual.val, row.text⟩).home = lined.home from rfl) id
    refine ⟨⟨actual.val, row.text⟩, ⟨first.trans writes, rfl, fun thread id line isFound => ?_,
      fun id isKey => ?_, ?_, actual.property, fun id line isId isFound => ?_,
      commit_status lined foundLined isStarted isActual⟩, fence⟩
    · rw [congr]
      exact messageById_append isNew rfl rfl thread id line isFound
    · rw [lines] at isKey
      exact ((OrderedMap.mem_keys_set _ _ _ _).mp isKey).symm
    · rw [congr]
      exact messageById_of_some (Function.update_self ..)
        (OrderedMap.get_set_self _ _ _)
    · rw [absent id isId] at isFound
      cases isFound

end Batch

/-! ## A whole batch -/

def isStarted (s : SendStore) (row : SendRow) : Bool :=
  (bySeq s row.seq).any (·.status == .started)

namespace Batch

/-- A pair that the batch committed: the row is started at its line, which is there, and a
line that was there already is the line. A `via` row still has its fence. -/
structure Ran (parse : ParseAttachments) (threadId : String) (start b : Batch)
    (pair : SendRow × Line) : Prop where
  stored : ∃ stored, bySeq b.store pair.1.seq = some stored ∧ stored.status = .started ∧
    stored.messageId = some pair.2.id ∧ (pair.1.via.isSome → runnable parse pair.1 stored = true)
  isThere : b.messageById threadId pair.2.id = some pair.2
  named : pair.2.id ≠ ""
  existing : ∀ id there, given pair.1.existingMessageId = some id →
    start.messageById threadId id = some there → pair.2 = there

/-- What a batch has done once it went over `rows`. -/
structure Drained (parse : ParseAttachments) (threadId : String) (rows : List SendRow)
    (start b : Batch) : Prop where
  seqs : b.store.rows.map (·.seq) = start.store.rows.map (·.seq)
  others : ∀ seq, (∀ row ∈ rows, row.seq ≠ seq) → bySeq b.store seq = bySeq start.store seq
  own : ∀ seq row, bySeq start.store seq = some row →
    ∃ row', bySeq b.store seq = some row' ∧ Same row row'
  lines : ∀ thread id there, start.messageById thread id = some there →
    b.messageById thread id = some there
  keys : ∀ id ∈ b.store.lines.keys, id ∈ start.store.lines.keys ∨ ∃ pair ∈ b.committed, id = pair.2.id
  committed : b.committed.map (·.1) = rows.filter (isStarted b.store)
  ran : ∀ pair ∈ b.committed, Ran parse threadId start b pair
  ended : ∀ row ∈ rows, ∃ stored, bySeq b.store row.seq = some stored ∧
    (stored.status = .started ∨ stored.status = .refused ∨ stored.status = .dispatched)

variable {parse : ParseAttachments} {env : DrainEnv} {threadId : String} {start b b' : Batch}

theorem Drained.nil (fresh : start.committed = []) : Drained parse threadId [] start start where
  seqs := rfl
  others := fun _ _ => rfl
  own := fun _ row found => ⟨row, found, Same.refl row⟩
  lines := fun _ _ _ found => found
  keys := fun _ isKey => Or.inl isKey
  committed := by rw [fresh]; rfl
  ran := fun pair isIn => by
    rw [fresh] at isIn
    cases isIn
  ended := fun _ isIn => by cases isIn

theorem Ran.kept {pair : SendRow × Line} (ran : Ran parse threadId start b pair)
    (same : bySeq b'.store pair.1.seq = bySeq b.store pair.1.seq)
    (lines : ∀ thread id there, b.messageById thread id = some there →
      b'.messageById thread id = some there) : Ran parse threadId start b' pair where
  stored := by
    rw [same]
    exact ran.stored
  isThere := lines _ _ _ ran.isThere
  named := ran.named
  existing := ran.existing

section Snoc

variable {rows : List SendRow} {row : SendRow}

theorem isStarted_others (writes : Writes row.seq b.store b'.store)
    (isNew : ∀ earlier ∈ rows, earlier.seq ≠ row.seq) :
    rows.filter (isStarted b'.store) = rows.filter (isStarted b.store) := by
  refine List.filter_congr fun earlier isIn => ?_
  unfold isStarted
  rw [writes.others earlier.seq (isNew earlier isIn)]

theorem Drained.passed (drained : Drained parse threadId rows start b)
    (isNew : ∀ earlier ∈ rows, earlier.seq ≠ row.seq) (passed : Passed row b b') {stored : SendRow}
    (found : bySeq b.store row.seq = some stored) (isStatus : stored.status = .dispatched) :
    Drained parse threadId (rows ++ [row]) start b' := by
  obtain ⟨stored', found', isEnded⟩ := passed.status stored found
  have ended : stored'.status = .refused ∨ stored'.status = .dispatched :=
    isEnded.imp_right fun same => by rw [same, isStatus]
  have kept : ∀ thread id there, b.messageById thread id = some there →
      b'.messageById thread id = some there := fun thread id there isThere => by
    rw [messageById_congr passed.lines passed.home, isThere]
  have notStarted : isStarted b'.store row = false := by
    unfold isStarted
    rw [found', Option.any_some]
    rcases ended with isRefused | isDispatched
    · rw [isRefused]
      rfl
    · rw [isDispatched]
      rfl
  refine ⟨passed.writes.seqs.trans drained.seqs, fun seq differs => ?_, fun seq before isBefore => ?_,
    fun thread id there isThere => kept _ _ _ (drained.lines thread id there isThere),
    fun id isKey => ?_, ?_, fun pair isIn => ?_, fun other isIn => ?_⟩
  · rw [passed.writes.others seq (differs row (by simp)).symm]
    exact drained.others seq fun earlier isIn => differs earlier (by simp [isIn])
  · obtain ⟨middle, isMiddle, same⟩ := drained.own seq before isBefore
    by_cases isSeq : seq = row.seq
    · subst isSeq
      obtain ⟨after, isAfter, same'⟩ := passed.writes.own middle isMiddle
      exact ⟨after, isAfter, same.trans same'⟩
    · rw [passed.writes.others seq isSeq]
      exact ⟨middle, isMiddle, same⟩
  · rw [passed.lines] at isKey
    rw [passed.committed]
    exact drained.keys id isKey
  · rw [passed.committed, drained.committed, List.filter_append,
      isStarted_others passed.writes isNew, List.filter_cons, notStarted]
    simp
  · rw [passed.committed] at isIn
    refine (drained.ran pair isIn).kept (passed.writes.others _ (isNew _ ?_)) kept
    exact List.mem_of_mem_filter (drained.committed ▸ List.mem_map_of_mem isIn)
  · rcases List.mem_append.mp isIn with earlier | isLast
    · rw [passed.writes.others _ (isNew other earlier)]
      exact drained.ended other earlier
    · obtain rfl := List.mem_singleton.mp isLast
      exact ⟨stored', found', Or.inr ended⟩

theorem Drained.commits (drained : Drained parse threadId rows start b)
    (isNew : ∀ earlier ∈ rows, earlier.seq ≠ row.seq) {line : Line}
    (committed : Committed threadId row line b b') {stored : SendRow}
    (found : bySeq b.store row.seq = some stored)
    (fence : row.via.isSome → runnable parse row stored = true) :
    Drained parse threadId (rows ++ [row]) start b' := by
  obtain ⟨stored', found', isStatus, isLine⟩ := committed.status
  obtain ⟨same', foundSame, same⟩ := committed.writes.own stored found
  obtain rfl := Option.some.inj (found'.symm.trans foundSame)
  have started : isStarted b'.store row = true := by
    unfold isStarted
    rw [found', Option.any_some, isStatus]
    rfl
  refine ⟨committed.writes.seqs.trans drained.seqs, fun seq differs => ?_,
    fun seq before isBefore => ?_,
    fun thread id there isThere => committed.lines _ _ _ (drained.lines thread id there isThere),
    fun id isKey => ?_, ?_, fun pair isIn => ?_, fun other isIn => ?_⟩
  · rw [committed.writes.others seq (differs row (by simp)).symm]
    exact drained.others seq fun earlier isIn => differs earlier (by simp [isIn])
  · obtain ⟨middle, isMiddle, sameMiddle⟩ := drained.own seq before isBefore
    by_cases isSeq : seq = row.seq
    · subst isSeq
      obtain ⟨after, isAfter, sameAfter⟩ := committed.writes.own middle isMiddle
      exact ⟨after, isAfter, sameMiddle.trans sameAfter⟩
    · rw [committed.writes.others seq isSeq]
      exact ⟨middle, isMiddle, sameMiddle⟩
  · rw [committed.committed]
    rcases committed.keys id isKey with earlier | rfl
    · refine (drained.keys id earlier).imp_right fun ⟨pair, isIn, isId⟩ => ?_
      exact ⟨pair, List.mem_append_left _ isIn, isId⟩
    · exact Or.inr ⟨(row, line), by simp, rfl⟩
  · rw [committed.committed, List.map_append, drained.committed, List.filter_append,
      isStarted_others committed.writes isNew, List.filter_cons, started]
    rfl
  · rw [committed.committed] at isIn
    rcases List.mem_append.mp isIn with earlier | isLast
    · refine (drained.ran pair earlier).kept (committed.writes.others _ (isNew _ ?_)) committed.lines
      exact List.mem_of_mem_filter (drained.committed ▸ List.mem_map_of_mem earlier)
    · obtain rfl := List.mem_singleton.mp isLast
      refine ⟨⟨stored', found', isStatus, isLine, fun isVia => ?_⟩, committed.isThere,
        committed.named, fun id there isGiven isThere => ?_⟩
      · rw [same.runnable]
        exact fence isVia
      · exact committed.existing id there isGiven (drained.lines _ _ _ isThere)
  · rcases List.mem_append.mp isIn with earlier | isLast
    · rw [committed.writes.others _ (isNew other earlier)]
      exact drained.ended other earlier
    · obtain rfl := List.mem_singleton.mp isLast
      exact ⟨stored', found', Or.inl isStatus⟩

end Snoc

/-- **A batch.** Of the rows it dispatched, it commits those that become started. -/
theorem drained_foldl (fresh : start.committed = []) {rows : List SendRow}
    (distinct : (rows.map (·.seq)).Nodup)
    (dispatched : ∀ row ∈ rows, ∃ stored, bySeq start.store row.seq = some stored ∧
      stored.status = .dispatched)
    (settles : ∀ seq, (env.row seq).settles = true) :
    Drained parse threadId rows start
      (rows.foldl (fun b row => drainRow parse env threadId b row) start) := by
  induction rows using List.reverseRecOn with
  | nil => exact Drained.nil fresh
  | append_singleton earlier row ih =>
    rw [List.map_append, List.nodup_append'] at distinct
    have isNew : ∀ other ∈ earlier, other.seq ≠ row.seq := fun other isIn same =>
      distinct.2.2 (List.mem_map_of_mem isIn) (by simp [same])
    have drained := ih distinct.1 fun other isIn =>
      dispatched other (List.mem_append_left _ isIn)
    obtain ⟨stored, found, isStatus⟩ := dispatched row (by simp)
    rw [← drained.others row.seq isNew] at found
    rw [List.foldl_append]
    rcases drainRow_cases parse threadId found (settles row.seq) with
      passed | ⟨line, committed, fence⟩
    · exact drained.passed isNew passed found isStatus
    · exact drained.commits isNew committed found fence

end Batch

end Murage.SteerQueue
