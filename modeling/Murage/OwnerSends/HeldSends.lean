import Murage.OwnerSends.Marks

/-!
Owns when a held send may run: the press that made a row, the restore that held it and
the Stop that marked it, for as long as the row is its send id's.

Does not own: what becomes of a send id whose row was replaced or deleted.
-/

namespace Murage.OwnerSends

open Murage.Library
open Murage.Library.Transition

structure SendKey where
  threadId : String
  sendId : String
deriving DecidableEq, Repr

def SendRow.IsFor (key : SendKey) (r : SendRow) : Prop :=
  r.threadId = key.threadId ∧ r.sendId = some key.sendId

/-- The Send again press that an operation makes or replays. -/
def StoreOp.press (op : StoreOp) : Option String :=
  op.accepts.bind fun input => if input.resend then given input.actionId else none

def StoreStep : SendStore → StoreOp → SendStore → Prop :=
  Restrict (ofFunction SendStore.step) fun _ op => op.Typed

namespace SendStore

open SendRow

variable {s s' : SendStore} {key : SendKey}

def KeepsRow (key : SendKey) (s : SendStore) (op : StoreOp) : Prop :=
  (∃ row ∈ (s.step op).rows, row.IsFor key) ∧ ∀ row, s.admits op = some row → ¬row.IsFor key

/-! ## Statements

`during` says through which operations the statement lasts. -/

/-- A press makes no second row for its send id. -/
def PressedOnce (during : SendKey → SendStore → StoreOp → Prop) : Prop :=
  ∀ (ops : List StoreOp) (s : SendStore), Run StoreStep {} ops s →
    ∀ (key : SendKey) (op : StoreOp) (row : SendRow) (press : String), op.Typed →
    op.press = some press → s.admits op = some row → row.IsFor key →
    ∀ (later : List StoreOp) (s' : SendStore),
      Run (Restrict StoreStep (during key)) (s.step op) later s' →
    ∀ (replay : StoreOp) (second : SendRow), replay.Typed → replay.press = some press →
      s'.admits replay = some second → ¬second.IsFor key

/-- After a restore, a row that `covers` says it found is run only by a resend with the
restore's generation or a later one. -/
def HeldByRestore (covers : SendRow → Prop) (during : SendKey → SendStore → StoreOp → Prop) :
    Prop :=
  ∀ (ops : List StoreOp) (s : SendStore), Run StoreStep {} ops s →
    ∀ (key : SendKey) (generation : String) (mint : Nat → String) (now : Int),
    ∀ row ∈ s.rows, row.IsFor key → covers row →
    ∀ (later : List StoreOp) (s' : SendStore),
      Run (Restrict StoreStep (during key))
        (s.neutralizeRestoredSends generation mint now) later s' →
    ∀ (op : StoreOp) (input : AcceptInput) (made : SendRow), op.Typed →
      op.accepts = some input → s'.admits op = some made → made.IsFor key →
      input.resend = true ∧ ∃ issued, input.restoreGen = some issued ∧
        (issued = generation ∨
          ∃ mint now, .send (.neutralizeRestoredSends issued mint now) ∈ later)

/-- A stopped row that `covers` says is not waiting after `recover`. -/
def StoppedWaitsNot (covers : SendRow → Prop) : Prop :=
  ∀ (ops : List StoreOp) (s : SendStore), Run StoreStep {} ops s →
    ∀ (mint : Nat → String) (now : Int), ∀ row ∈ (s.recover mint now).1.rows,
      row.stopped = true → covers row → row.waiting = false

/-- A stopped row is run only by a resend with the token that its Stop minted. -/
def HeldByStop (during : SendKey → SendStore → StoreOp → Prop) : Prop :=
  ∀ (ops : List StoreOp) (s : SendStore), Run StoreStep {} ops s →
    ∀ (key : SendKey) (token : String), ∀ row ∈ s.rows, row.IsFor key → row.stopped = true →
    row.stopGen = some token → token ≠ "" →
    ∀ (later : List StoreOp) (s' : SendStore), Run (Restrict StoreStep (during key)) s later s' →
    ∀ (op : StoreOp) (input : AcceptInput) (made : SendRow), op.Typed →
      op.accepts = some input → s'.admits op = some made → made.IsFor key →
      input.resend = true ∧ input.stopGen = some token

def Restorable (r : SendRow) : Prop :=
  r.status = .failed ∨ r.status = .refused ∨ (r.waiting = true ∧ r.text ≠ "")

/-! ## One row for each send id -/

/-- The unique key of a thread and a send id. -/
def SameSend (first second : SendRow) : Prop :=
  first.sendId.isSome ∧ first.threadId = second.threadId ∧ first.sendId = second.sendId

structure Sound (s : SendStore) : Prop where
  once : s.rows.Pairwise fun first second => ¬SameSend first second
  idle : ∀ row ∈ s.rows, row.Idle

theorem SameSend.of_marks {first first' second second' : SendRow} (isFirst : first.Marks first')
    (isSecond : second.Marks second') (differ : ¬SameSend first second) :
    ¬SameSend first' second' := by
  rintro ⟨named, threads, sends⟩
  refine differ ⟨isFirst.sendId ▸ named, ?_, ?_⟩
  · rw [← isFirst.threadId, ← isSecond.threadId, threads]
  · rw [← isFirst.sendId, ← isSecond.sendId, sends]

theorem Sound.derived (sound : s.Sound) (derived : Derived Marks s s') : s'.Sound where
  once := derived.pairwise (fun _ _ _ _ => SameSend.of_marks) sound.once
  idle := fun row isIn => by
    obtain ⟨before, isBefore, marks⟩ := derived.row_of isIn
    exact marks.idle (sound.idle before isBefore)

variable {row : SendRow}

theorem clashes_eq_false {rows : List SendRow} {other : SendRow} (free : clashes rows row = false)
    (isIn : other ∈ rows) :
    other.queueId ≠ row.queueId ∧ ¬SameSend other row := by
  have clean := List.any_eq_false.mp free other isIn
  simp only [Bool.or_eq_true, Bool.and_eq_true, beq_iff_eq, not_or, not_and] at clean
  exact ⟨clean.1, fun same => clean.2 ⟨same.2.1, same.1⟩ same.2.2⟩

theorem Sound.admitted (sound : s.Sound) {input : AcceptInput} {replaced : Option SendRow}
    {uuid generation : String}
    (free : clashes (s.remaining replaced) (s.admittedRow input replaced uuid generation) = false) :
    (s.admitted input replaced uuid generation).Sound where
  once := by
    show (s.remaining replaced ++ [_]).Pairwise _
    rw [List.pairwise_append]
    refine ⟨sound.once.sublist (remaining_subset s replaced), List.pairwise_singleton _ _,
      fun other isIn new isNew => ?_⟩
    obtain rfl := List.mem_singleton.mp isNew
    exact (clashes_eq_false free isIn).2
  idle := fun row isIn => by
    rcases List.mem_append.mp isIn with stays | isNew
    · exact sound.idle row ((remaining_subset s replaced).subset stays)
    · obtain rfl := List.mem_singleton.mp isNew
      exact fun _ => rfl

theorem Sound.step (sound : s.Sound) {op : StoreOp} (typed : op.Typed) : (s.step op).Sound := by
  rcases step_frame s typed with
    ⟨-, derived, -⟩ | ⟨generation, mint, now, rfl⟩ |
    ⟨input, replaced, uuid, generation, change, -, -, free, -, rows, changes, -⟩
  · exact sound.derived derived
  · have same : Sound { s with generation := some generation } := ⟨sound.once, sound.idle⟩
    exact same.derived (neutralizeRestoredSends_derived s generation mint now).marks
  · have derived : Derived Quiet { s.admitted input replaced uuid generation with
        generation := (s.step op).generation } (s.step op) := Derived.map rows rfl changes
    have admitted := sound.admitted free
    have same : Sound { s.admitted input replaced uuid generation with
        generation := (s.step op).generation } := ⟨admitted.once, admitted.idle⟩
    exact same.derived derived.marks

theorem sound_of_run {ops : List StoreOp} (run : Run StoreStep {} ops s) : s.Sound := by
  refine run.invariant ⟨List.Pairwise.nil, fun _ isIn => by cases isIn⟩
    fun before op after sound step => ?_
  obtain ⟨rfl, typed⟩ := step
  exact sound.step typed

theorem Sound.row_eq (sound : s.Sound) {other : SendRow} (isIn : row ∈ s.rows)
    (memberOther : other ∈ s.rows) (isFor : row.IsFor key) (isForOther : other.IsFor key) :
    row = other := by
  have pairs : s.rows.Pairwise fun first second =>
      first.IsFor key → second.IsFor key → first = second := by
    refine sound.once.imp fun {first second} differ isFirst isSecond => ?_
    exact absurd ⟨isFirst.2 ▸ rfl, isFirst.1.trans isSecond.1.symm,
      isFirst.2.trans isSecond.2.symm⟩ differ
  have flipped : s.rows.Pairwise (flip fun first second =>
      first.IsFor key → second.IsFor key → first = second) :=
    pairs.imp fun equal isFirst isSecond => (equal isSecond isFirst).symm
  exact pairs.forall_of_forall_of_flip (fun _ _ _ _ => rfl) flipped isIn memberOther isFor
    isForOther

theorem IsFor.of_marks {row' : SendRow} (marks : row.Marks row') :
    row'.IsFor key ↔ row.IsFor key := by
  unfold SendRow.IsFor
  rw [marks.threadId, marks.sendId]

theorem marks_of_keepsRow (sound : s.Sound) (isIn : row ∈ s.rows) (isFor : row.IsFor key)
    {ops : List StoreOp} (run : Run (Restrict StoreStep (KeepsRow key)) s ops s') :
    ∃ row' ∈ s'.rows, row'.IsFor key ∧ row.Marks row' ∧ s'.Sound := by
  induction run with
  | nil => exact ⟨row, isIn, isFor, Marks.refl row, sound⟩
  | @snoc labels before after op _ taken ih =>
    obtain ⟨held, isHeld, heldFor, marks, soundBefore⟩ := ih
    obtain ⟨⟨rfl, typed⟩, ⟨⟨row', isRow', rowFor⟩, notMade⟩⟩ := taken
    refine ⟨row', isRow', rowFor, ?_, soundBefore.step typed⟩
    -- The row comes from a row of the send id before the step, and there is one.
    have from_row : ∀ other ∈ before.rows, other.Marks row' → row.Marks row' := by
      intro other isOther fromOther
      have otherFor := (IsFor.of_marks fromOther).mp rowFor
      obtain rfl := soundBefore.row_eq isHeld isOther heldFor otherFor
      exact marks.trans fromOther
    rcases step_frame before typed with
      ⟨-, derived, -⟩ | ⟨generation, mint, now, rfl⟩ |
      ⟨input, replaced, uuid, generation, change, -, -, -, made, rows, changed, -⟩
    · obtain ⟨other, isOther, fromOther⟩ := derived.row_of isRow'
      exact from_row other isOther fromOther
    · obtain ⟨other, isOther, fromOther⟩ :=
        (neutralizeRestoredSends_derived before generation mint now).row_of isRow'
      exact from_row other isOther fromOther.toMarks
    · rw [rows] at isRow'
      obtain ⟨other, isOther, rfl⟩ := List.mem_map.mp isRow'
      rcases List.mem_append.mp isOther with stays | isNew
      · exact from_row other ((remaining_subset before replaced).subset stays)
          (changed other).toMarks
      · obtain rfl := List.mem_singleton.mp isNew
        exact absurd ((IsFor.of_marks (changed _).toMarks).mp rowFor) (notMade _ made)

/-! ## What an accept that makes a row presents -/

theorem admission_eq_replaces {input : AcceptInput} {prior : SendRow}
    (replaces : s.admission input prior = .replaces) :
    (prior.restoreHeld = true → input.resend = true ∧ (given input.restoreGen).isSome ∧
      s.generation = input.restoreGen) ∧
    (prior.stopped = true → input.resend = true ∧ prior.stopGen.isSome ∧
      input.stopGen = prior.stopGen) ∧
    ¬(input.resend = true ∧ (given input.actionId).isSome ∧ prior.actionId = input.actionId) := by
  unfold admission at replaces
  split_ifs at replaces with _ held _ stopped pressed
  refine ⟨fun isHeld => ?_, fun isStopped => ?_, fun isPress => ?_⟩
  · simp only [isHeld, Bool.true_and, restoreGenerationCurrent, Bool.not_eq_true,
      Bool.not_eq_false', Bool.and_eq_true, beq_iff_eq] at held
    exact ⟨held.1.1.1, held.2.1, held.2.2⟩
  · simp only [stoppedResendRuns, isStopped, Bool.not_true, Bool.false_or, Bool.not_eq_true',
      Bool.not_eq_false, Bool.and_eq_true, beq_iff_eq] at stopped
    exact ⟨stopped.1.1, stopped.1.2, stopped.2⟩
  · refine pressed ?_
    rw [Bool.and_eq_true, Bool.and_eq_true, beq_iff_eq]
    exact ⟨⟨isPress.1, isPress.2.1⟩, isPress.2.2⟩

theorem made_replaces (sound : s.Sound) (isIn : row ∈ s.rows) (isFor : row.IsFor key) {op : StoreOp}
    {input : AcceptInput} {made : SendRow} (typed : op.Typed) (accepts : op.accepts = some input)
    (isMade : s.admits op = some made) (madeFor : made.IsFor key) :
    s.admission input row = .replaces := by
  rcases step_frame s typed with
    ⟨none, -, -⟩ | ⟨generation, mint, now, rfl⟩ |
    ⟨other, replaced, uuid, generation, change, isInput, admits, free, isNew, -, -, -⟩
  · rw [none] at isMade
    cases isMade
  · cases isMade
  · obtain rfl : input = other := Option.some.inj (accepts.symm.trans isInput)
    obtain rfl := Option.some.inj (isMade.symm.trans isNew)
    cases replaced with
    | none =>
      have same : SameSend row (s.admittedRow input none uuid generation) :=
        ⟨isFor.2 ▸ rfl, isFor.1.trans madeFor.1.symm, isFor.2.trans madeFor.2.symm⟩
      exact absurd same (clashes_eq_false free isIn).2
    | some prior =>
      obtain ⟨isPrior, threadId, sendId, -⟩ := prior_eq admits.prior
      have priorFor : prior.IsFor key := ⟨threadId.trans madeFor.1, sendId.trans madeFor.2⟩
      obtain rfl := sound.row_eq isIn isPrior isFor priorFor
      exact admits.replaces row rfl

/-! ## The three holds -/

theorem pressedOnce : PressedOnce KeepsRow := by
  intro ops s run key op row press typed isPress isMade rowFor later s' after replay second
    typedReplay isReplay isSecond secondFor
  have sound := (sound_of_run run).step typed
  -- The row that the press made, where the replay finds it.
  obtain ⟨made, isIn, madeFor, madeBy⟩ : ∃ made ∈ (s.step op).rows, made.IsFor key ∧
      made.actionId = some press := by
    rcases step_frame s typed with
      ⟨none, -, -⟩ | ⟨generation, mint, now, rfl⟩ |
      ⟨input, replaced, uuid, generation, change, isInput, -, -, isNew, rows, marks, -⟩
    · rw [none] at isMade
      cases isMade
    · cases isMade
    · obtain rfl := Option.some.inj (isMade.symm.trans isNew)
      refine ⟨change (s.admittedRow input replaced uuid generation), ?_,
        (IsFor.of_marks (marks _).toMarks).mpr rowFor, (marks _).actionId.trans ?_⟩
      · rw [rows]
        exact List.mem_map_of_mem (List.mem_append_right _ (List.mem_singleton_self _))
      · unfold StoreOp.press at isPress
        rw [isInput] at isPress
        exact isPress
  obtain ⟨held, isHeld, heldFor, marks, soundAfter⟩ :=
    marks_of_keepsRow sound isIn madeFor after
  unfold StoreOp.press at isReplay
  obtain ⟨input, accepts, pressed⟩ := Option.bind_eq_some_iff.mp isReplay
  split_ifs at pressed with resend
  have replaces := made_replaces soundAfter isHeld heldFor typedReplay accepts isSecond secondFor
  refine (admission_eq_replaces replaces).2.2 ⟨resend, pressed ▸ rfl, ?_⟩
  rw [marks.actionId, madeBy, (Option.filter_eq_some_iff.mp pressed).1]

theorem generation_of_run {condition : SendStore → StoreOp → Prop} {ops : List StoreOp}
    (run : Run (Restrict StoreStep condition) s ops s') {generation : String}
    (initial : s.generation = some generation) :
    ∃ issued, s'.generation = some issued ∧ (issued = generation ∨
      ∃ mint now, .send (.neutralizeRestoredSends issued mint now) ∈ ops) := by
  induction run with
  | nil => exact ⟨generation, initial, Or.inl rfl⟩
  | @snoc labels before after op _ taken ih =>
    obtain ⟨issued, isIssued, before_or⟩ := ih
    obtain ⟨⟨rfl, typed⟩, -⟩ := taken
    have still : (before.step op).generation = some issued → ∃ issued,
        (before.step op).generation = some issued ∧ (issued = generation ∨
          ∃ mint now, .send (.neutralizeRestoredSends issued mint now) ∈ labels ++ [op]) := by
      refine fun same => ⟨issued, same, before_or.imp_right ?_⟩
      rintro ⟨mint, now, isIn⟩
      exact ⟨mint, now, List.mem_append_left _ isIn⟩
    rcases step_frame before typed with
      ⟨-, derived, -⟩ | ⟨next, mint, now, rfl⟩ |
      ⟨input, replaced, uuid, next, change, -, -, -, -, -, -, isGeneration⟩
    · exact still (derived.generation.trans isIssued)
    · exact ⟨next, rfl, Or.inr ⟨mint, now, by simp⟩⟩
    · refine still (isGeneration.trans ?_)
      unfold admittedGeneration
      rw [isIssued]
      split_ifs <;> rfl

theorem neutralized_held (restorable : Restorable row) (generation : String) (mint : Nat → String)
    (now : Int) :
    (neutralized generation now (row.mintStopToken mint)).restoreHeld = true := by
  have same : (row.mintStopToken mint).status = row.status ∧
      (row.mintStopToken mint).text = row.text := by
    unfold mintStopToken
    split_ifs <;> exact ⟨rfl, rfl⟩
  have restorable' : Restorable (row.mintStopToken mint) := by
    unfold Restorable waiting at *
    rw [same.1, same.2]
    exact restorable
  generalize row.mintStopToken mint = minted at restorable'
  unfold neutralized
  dsimp only
  rcases restorable' with failed | refused | ⟨waits, worded⟩
  · simp [failed, waiting]
  · simp [refused, waiting]
  · have isWorded : (minted.text != "") = true := by simpa using worded
    simp only [waits, isWorded, Bool.and_self, if_true]
    simp [waiting]

theorem heldByRestore : HeldByRestore Restorable KeepsRow := by
  intro ops s run key generation mint now row isIn rowFor restorable later s' after op input
    made typed accepts isMade madeFor
  have sound := sound_of_run run
  have restored : (s.neutralizeRestoredSends generation mint now).Sound :=
    @Sound.step s sound (.send (.neutralizeRestoredSends generation mint now)) trivial
  have marked := ((row.mintStopToken_quiet mint).trans (neutralized_quiet generation now _)).toMarks
  obtain ⟨held, isHeld, heldFor, marks, soundAfter⟩ := marks_of_keepsRow restored
    (List.mem_map_of_mem isIn) ((IsFor.of_marks marked).mpr rowFor) after
  have replaces := made_replaces soundAfter isHeld heldFor typed accepts isMade madeFor
  obtain ⟨resend, -, current⟩ := (admission_eq_replaces replaces).1
    (marks.restoreHeld (neutralized_held restorable generation mint now))
  obtain ⟨issued, isIssued, isLater⟩ := generation_of_run after rfl
  exact ⟨resend, issued, current.symm.trans isIssued, isLater⟩

theorem heldByStop : HeldByStop KeepsRow := by
  intro ops s run key token row isIn rowFor isStopped isToken someToken later s' after op input
    made typed accepts isMade madeFor
  obtain ⟨held, isHeld, heldFor, marks, soundAfter⟩ :=
    marks_of_keepsRow (sound_of_run run) isIn rowFor after
  have replaces := made_replaces soundAfter isHeld heldFor typed accepts isMade madeFor
  obtain ⟨resend, -, same⟩ := (admission_eq_replaces replaces).2.1 (marks.stopped isStopped)
  have isGiven : (given row.stopGen).isSome := by
    rw [isToken]
    simp [given, Option.filter, someToken]
  exact ⟨resend, same.trans ((marks.stopGen isStopped isGiven).trans isToken)⟩

theorem recovered_waits_not (idle : row.Idle) (isStopped : row.stopped = true)
    (worded : row.text ≠ "") (now : Int) :
    (requeued now (heldStopped now row)).waiting = false := by
  by_cases waits : row.waiting = true
  · have held : (row.stopped && row.waiting && !row.dispatched && row.text != "") = true := by
      simp [isStopped, waits, idle waits, worded]
    unfold heldStopped
    rw [if_pos held]
    rfl
  · have notHeld : ¬(row.stopped && row.waiting && !row.dispatched && row.text != "") = true := by
      simp [waits]
    have notSending : ¬(row.status == .sending && !row.dispatched) = true := by
      intro isSending
      have status := (Bool.and_eq_true_iff.mp isSending).1
      exact waits (by simp [waiting, status])
    unfold heldStopped requeued
    rw [if_neg notHeld, if_neg notSending]
    exact Bool.eq_false_iff.mpr waits

theorem recovered_stopped (now : Int) (row : SendRow) :
    (requeued now (heldStopped now row)).stopped = row.stopped := by
  unfold requeued heldStopped
  split_ifs <;> rfl

theorem stoppedWaitsNot : StoppedWaitsNot (·.text ≠ "") := by
  intro ops s run mint now row isIn isStopped worded
  have rows : (s.recover mint now).1.rows =
      s.rows.map fun row => requeued now (heldStopped now (row.mintStopToken mint)) := by
    simp only [recover, List.map_map, Function.comp_def]
  rw [rows] at isIn
  obtain ⟨before, isBefore, rfl⟩ := List.mem_map.mp isIn
  have idle : (before.mintStopToken mint).Idle :=
    (before.mintStopToken_quiet mint).idle ((sound_of_run run).idle before isBefore)
  have same := (heldStopped_same now (before.mintStopToken mint)).trans (requeued_same now _)
  refine recovered_waits_not idle ?_ (same.text ▸ worded) now
  rw [← recovered_stopped now]
  exact isStopped

/-- A Send again press of the send `s`, or a replay of it. -/
def pressOf (press : String) (restoreGen stopGen : Option String) (uuid : String) : StoreOp :=
  .send (.accept { sendOf "s" "hello" .queued none with
    resend := true, actionId := some press, restoreGen := restoreGen, stopGen := stopGen }
    true uuid "g")

def acceptOf (text : String) (status : SendStatus) (uuid : String) : StoreOp :=
  .send (.accept (sendOf "s" text status none) true uuid "g")

theorem run_of_typed {during : SendStore → StoreOp → Prop} {ops : List StoreOp}
    (along : Along SendStore.step (fun s op => op.Typed ∧ during s op) s ops) :
    Run (Restrict StoreStep during) s ops (ops.foldl SendStore.step s) :=
  Run.restrict_restrict (Run.foldl_along along)

def Always (_ : SendKey) (_ : SendStore) (_ : StoreOp) : Prop := True

theorem not_pressedOnce : ¬PressedOnce Always := by
  intro claimed
  have run : Run StoreStep {} [acceptOf "hello" .refused "q1"]
      ([acceptOf "hello" .refused "q1"].foldl SendStore.step {}) :=
    Run.foldl_along ⟨trivial, trivial⟩
  refine claimed _ _ run ⟨"t", "s"⟩ (pressOf "A" none none "q2") _ "A" trivial rfl rfl ⟨rfl, rfl⟩
    [.send (.refuse 1 none 0), pressOf "B" none none "q3", .send (.refuse 1 none 0)] _
    (run_of_typed ⟨⟨trivial, trivial⟩, ⟨trivial, trivial⟩, ⟨trivial, trivial⟩, trivial⟩)
    (pressOf "A" none none "q4") _ trivial rfl rfl ⟨rfl, rfl⟩

theorem not_heldByRestore : ¬HeldByRestore Restorable Always := by
  intro claimed
  have run : Run StoreStep {} [acceptOf "hello" .refused "q1"]
      ([acceptOf "hello" .refused "q1"].foldl SendStore.step {}) :=
    Run.foldl_along ⟨trivial, trivial⟩
  have held := claimed _ _ run ⟨"t", "s"⟩ "g1" (fun _ => "m") 0 _ (List.mem_singleton_self _)
    ⟨rfl, rfl⟩ (Or.inr (Or.inl rfl)) [pressOf "A" (some "g1") none "q2", .send (.refuse 1 none 0)]
    _ (run_of_typed ⟨⟨trivial, trivial⟩, ⟨trivial, trivial⟩, trivial⟩)
    (acceptOf "hello" .sending "q3") _ _ trivial rfl rfl ⟨rfl, rfl⟩
  exact absurd held.1 (by decide)

theorem not_heldByRestore_wordless :
    ¬HeldByRestore (fun r => r.waiting = true) KeepsRow := by
  intro claimed
  have run : Run StoreStep {} [acceptOf "" .queued "q1"]
      ([acceptOf "" .queued "q1"].foldl SendStore.step {}) :=
    Run.foldl_along ⟨trivial, trivial⟩
  have held := claimed _ _ run ⟨"t", "s"⟩ "g1" (fun _ => "m") 0 _ (List.mem_singleton_self _)
    ⟨rfl, rfl⟩ rfl [.send (.refuse 1 none 0)] _
    (run_of_typed ⟨⟨trivial, ⟨_, List.mem_singleton_self _, rfl, rfl⟩, fun _ none => by cases none⟩,
      trivial⟩) (acceptOf "" .sending "q2") _ _ trivial rfl rfl ⟨rfl, rfl⟩
  exact absurd held.1 (by decide)

theorem not_stoppedWaitsNot : ¬StoppedWaitsNot fun _ => True := by
  intro claimed
  have run : Run StoreStep {} [acceptOf "" .queued "q1", .send (.markStopped "t" "tok")]
      ([acceptOf "" .queued "q1", .send (.markStopped "t" "tok")].foldl SendStore.step {}) :=
    Run.foldl_along ⟨trivial, trivial, trivial⟩
  have held := claimed _ _ run (fun _ => "m") 0 _ (List.mem_singleton_self _) rfl trivial
  exact absurd held (by decide)

theorem not_heldByStop : ¬HeldByStop Always := by
  intro claimed
  have run : Run StoreStep {} [acceptOf "hello" .queued "q1", .send (.markStopped "t" "tok"),
        .send (.recover (fun _ => "m") 0)]
      ([acceptOf "hello" .queued "q1", .send (.markStopped "t" "tok"),
        .send (.recover (fun _ => "m") 0)].foldl SendStore.step {}) :=
    Run.foldl_along ⟨trivial, trivial, trivial, trivial⟩
  have held := claimed _ _ run ⟨"t", "s"⟩ "tok" _ (List.mem_singleton_self _) ⟨rfl, rfl⟩ rfl rfl
    (by decide) [pressOf "A" none (some "tok") "q2", .send (.refuse 1 none 0)]
    _ (run_of_typed ⟨⟨trivial, trivial⟩, ⟨trivial, trivial⟩, trivial⟩)
    (acceptOf "hello" .sending "q3") _ _ trivial rfl rfl ⟨rfl, rfl⟩
  exact absurd held.1 (by decide)

end SendStore

end Murage.OwnerSends
