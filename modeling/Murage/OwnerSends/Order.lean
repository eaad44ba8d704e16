import Murage.OwnerSends.Marks

/-!
Owns the order of a conversation's sends: which rows a drain dispatches, that none
overtakes an earlier row, and which row a row number means.

Does not own: what a drain runs.
-/

namespace Murage.OwnerSends

open Murage.Library
open Murage.Library.Transition

/-- The store's operations and the drain, which dispatches some of the first rows that
`drainable` returns. -/
inductive ThreadOp where
  | drain (threadId : String) (kind : SendKind) (batch : Nat) (now : Int)
  | store (op : StoreOp)

/-- The statuses of `AcceptInput`. -/
def AcceptInput.Typed (input : AcceptInput) : Prop :=
  ∀ status, input.status = some status →
    status = .sending ∨ status = .queued ∨ status = .refused ∨ status = .cancelled

namespace SendStore

open SendRow

variable {s s' : SendStore}

def runOp (s : SendStore) : ThreadOp → SendStore
  | .drain threadId kind batch now =>
    orElse (markDispatchedMany now (((s.drainable threadId kind).take batch).map (·.seq)) s) s
  | .store op => s.step op

/-- Only a drain dispatches a waiting row. -/
def LeavesWaiting (s : SendStore) : StoreOp → Prop
  | .send (.markDispatchedMany _ _) => False
  | .send (.markDispatched seq _) => ∀ row ∈ s.rows, row.seq = seq → row.status ≠ .queued
  | _ => True

/-- A conversation is a bot's or a room's: `kindOf` says which. -/
def Served (kindOf : String → SendKind) (s : SendStore) : ThreadOp → Prop
  | .drain threadId kind _ _ => kind = kindOf threadId
  | .store op => op.Typed ∧ s.LeavesWaiting op ∧
      ∀ input, op.accepts = some input → input.kind = kindOf input.threadId ∧ input.Typed

def ThreadStep (kindOf : String → SendKind) : SendStore → ThreadOp → SendStore → Prop :=
  Restrict (ofFunction runOp) (Served kindOf)

/-! ## Rows in order -/

/-- Rows are in the order of their acceptance, and so are their numbers. -/
structure Ordered (kindOf : String → SendKind) (s : SendStore) : Prop where
  seqs : s.rows.Pairwise fun earlier later => earlier.seq < later.seq
  kinds : ∀ row ∈ s.rows, row.kind = kindOf row.threadId

variable {kindOf : String → SendKind}

variable {row : SendRow}

theorem Ordered.row_eq (ordered : s.Ordered kindOf) {other : SendRow} (isIn : row ∈ s.rows)
    (memberOther : other ∈ s.rows) (same : row.seq = other.seq) : row = other := by
  have nodup : (s.rows.map (·.seq)).Nodup :=
    List.pairwise_map.mpr (ordered.seqs.imp fun {_ _} less => Nat.ne_of_lt less)
  exact List.inj_on_of_nodup_map nodup isIn memberOther same

theorem Ordered.derived (ordered : s.Ordered kindOf) (derived : Derived Marks s s') :
    s'.Ordered kindOf where
  seqs := by
    refine derived.pairwise (fun first first' second second' isFirst isSecond less => ?_)
      ordered.seqs
    rw [isFirst.seq, isSecond.seq]
    exact less
  kinds := fun row isIn => by
    obtain ⟨before, isBefore, marks⟩ := derived.row_of isIn
    rw [marks.kind, marks.threadId]
    exact ordered.kinds before isBefore

theorem Ordered.admitted (ordered : s.Ordered kindOf) {input : AcceptInput}
    (isKind : input.kind = kindOf input.threadId) (replaced : Option SendRow)
    (uuid generation : String) : (s.admitted input replaced uuid generation).Ordered kindOf where
  seqs := by
    show (s.remaining replaced ++ [_]).Pairwise _
    rw [List.pairwise_append]
    refine ⟨ordered.seqs.sublist (remaining_subset s replaced), List.pairwise_singleton _ _,
      fun other isIn new isNew => ?_⟩
    obtain rfl := List.mem_singleton.mp isNew
    exact lt_nextSeq isIn
  kinds := fun row isIn => by
    rcases List.mem_append.mp isIn with stays | isNew
    · exact ordered.kinds row ((remaining_subset s replaced).subset stays)
    · obtain rfl := List.mem_singleton.mp isNew
      exact isKind

theorem Ordered.step (ordered : s.Ordered kindOf) {op : StoreOp} (typed : op.Typed)
    (isKind : ∀ input, op.accepts = some input → input.kind = kindOf input.threadId) :
    (s.step op).Ordered kindOf := by
  rcases step_frame s typed with
    ⟨-, derived, -⟩ | ⟨generation, mint, now, rfl⟩ |
    ⟨input, replaced, uuid, generation, change, accepts, -, -, -, rows, changes, -⟩
  · exact ordered.derived derived
  · have same : Ordered kindOf { s with generation := some generation } :=
      ⟨ordered.seqs, ordered.kinds⟩
    exact same.derived (neutralizeRestoredSends_derived s generation mint now).marks
  · have derived : Derived Quiet { s.admitted input replaced uuid generation with
        generation := (s.step op).generation } (s.step op) := Derived.map rows rfl changes
    have admitted := ordered.admitted (isKind input accepts) replaced uuid generation
    have same : Ordered kindOf { s.admitted input replaced uuid generation with
        generation := (s.step op).generation } := ⟨admitted.seqs, admitted.kinds⟩
    exact same.derived derived.marks

/-! ## The drain -/

/-- What `markDispatchedMany` sets. -/
def markedAt (seqs : List Nat) (now : Int) (r : SendRow) : SendRow :=
  if r.seq ∈ seqs then { r with status := .dispatched, dispatched := true, updatedAt := now } else r

theorem markedAt_seq (seqs : List Nat) (now : Int) (row : SendRow) :
    (markedAt seqs now row).seq = row.seq := by
  unfold markedAt
  split_ifs <;> rfl

theorem markDispatchedMany_rows (now : Int) (seqs : List Nat) {after : SendStore}
    (distinct : (s.rows.map (·.seq)).Nodup) (done : markDispatchedMany now seqs s = .ok after) :
    after.rows = s.rows.map (markedAt seqs now) := by
  induction seqs generalizing s with
  | nil =>
    cases done
    exact (List.map_id _).symm
  | cons seq rest ih =>
    unfold markDispatchedMany at done
    by_cases found : s.rows.any (fun r => r.seq == seq && r.status == .queued) = true
    · have first : s.updateOne (fun r => r.seq == seq && r.status == .queued)
          (fun r => { r with status := .dispatched, dispatched := true, updatedAt := now })
          .notWaiting = .ok (s.updateWhere (fun r => r.seq == seq && r.status == .queued)
            fun r => { r with status := .dispatched, dispatched := true, updatedAt := now }) :=
        if_pos found
      rw [first] at done
      obtain ⟨target, isTarget, matched⟩ := List.any_eq_true.mp found
      rw [Bool.and_eq_true, beq_iff_eq, beq_iff_eq] at matched
      -- The row of the number is the waiting one: there is no other.
      have marked : (s.updateWhere (fun r => r.seq == seq && r.status == .queued)
          fun r => { r with status := .dispatched, dispatched := true, updatedAt := now }).rows =
          s.rows.map (markedAt [seq] now) := by
        refine List.map_congr_left fun row isIn => ?_
        by_cases same : row.seq = seq
        · obtain rfl := List.inj_on_of_nodup_map distinct isIn isTarget
            (same.trans matched.1.symm)
          simp [markedAt, matched.1, matched.2]
        · simp [markedAt, same]
      have seqs : (s.rows.map (markedAt [seq] now)).map (·.seq) = s.rows.map (·.seq) := by
        rw [List.map_map]
        exact List.map_congr_left fun row _ => markedAt_seq [seq] now row
      have distinct' : ((s.updateWhere (fun r => r.seq == seq && r.status == .queued)
          fun r => { r with status := .dispatched, dispatched := true, updatedAt := now }).rows.map
            (·.seq)).Nodup := by
        rw [marked, seqs]
        exact distinct
      rw [ih distinct' done, marked, List.map_map]
      refine List.map_congr_left fun row _ => ?_
      rw [Function.comp_apply]
      unfold markedAt
      by_cases same : row.seq = seq <;> by_cases later : row.seq ∈ rest <;> simp [same, later]
    · have first : s.updateOne (fun r => r.seq == seq && r.status == .queued)
          (fun r => { r with status := .dispatched, dispatched := true, updatedAt := now })
          .notWaiting = .error .notWaiting := if_neg found
      rw [first] at done
      cases done

theorem drainRun_take (lateOpen : Finset Nat) {rows : List SendRow}
    (sorted : rows.Pairwise fun earlier later => earlier.seq < later.seq) {batch : Nat}
    {earlier : SendRow} (taken : row ∈ (drainRun lateOpen rows).take batch) (isIn : earlier ∈ rows)
    (before : earlier.seq < row.seq) :
    (earlier.status = .queued ∧ earlier ∈ (drainRun lateOpen rows).take batch) ∨
      (earlier.status = .unconfirmed ∧ earlier.seq ∉ lateOpen) := by
  induction rows generalizing batch with
  | nil => cases isIn
  | cons head rest ih =>
    obtain ⟨first, sortedRest⟩ := List.pairwise_cons.mp sorted
    unfold drainRun at taken ⊢
    split_ifs at taken ⊢ with queued capped
    · cases batch with
      | zero => cases taken
      | succ batch =>
        rw [List.take_succ_cons] at taken ⊢
        rcases List.mem_cons.mp isIn with rfl | isRest
        · exact Or.inl ⟨queued, List.mem_cons_self⟩
        · rcases List.mem_cons.mp taken with rfl | taken
          · exact absurd (first earlier isRest) (Nat.lt_asymm before)
          · exact (ih sortedRest taken isRest).imp_left fun found =>
              ⟨found.1, List.mem_cons_of_mem _ found.2⟩
    · rcases List.mem_cons.mp isIn with rfl | isRest
      · exact Or.inr capped
      · exact ih sortedRest taken isRest
    · cases batch <;> cases taken

theorem drainRun_subset (lateOpen : Finset Nat) {rows : List SendRow}
    (taken : row ∈ drainRun lateOpen rows) : row ∈ rows := by
  induction rows with
  | nil => cases taken
  | cons head rest ih =>
    unfold drainRun at taken
    split_ifs at taken
    · rcases List.mem_cons.mp taken with rfl | taken
      · exact List.mem_cons_self
      · exact List.mem_cons_of_mem _ (ih taken)
    · exact List.mem_cons_of_mem _ (ih taken)
    · cases taken

/-- The rows of a conversation that have not resolved, or may not have. -/
def unresolved (threadId : String) (kind : SendKind) (r : SendRow) : Bool :=
  r.threadId == threadId && r.kind == kind &&
    (r.status == .sending || r.status == .queued || r.status == .dispatched ||
      r.status == .unconfirmed)

theorem drainable_eq (ordered : s.Ordered kindOf) (threadId : String) (kind : SendKind) :
    s.drainable threadId kind = drainRun s.lateOpen (s.rows.filter (unresolved threadId kind)) := by
  have sorted : (s.rows.filter (unresolved threadId kind)).Pairwise
      fun earlier later => decide (earlier.seq ≤ later.seq) = true :=
    (ordered.seqs.sublist List.filter_sublist).imp fun {_ _} less => by
      simpa using Nat.le_of_lt less
  unfold drainable
  exact congrArg _ (List.mergeSort_of_pairwise sorted)

/-! ## No overtaking -/

structure Passed (s s' : SendStore) (earlier : SendRow) : Prop where
  sending : earlier.status ≠ .sending
  dispatched : earlier.status ≠ .dispatched
  late : earlier.status = .unconfirmed → earlier.seq ∉ s.lateOpen
  queued : earlier.status = .queued → ∃ sent ∈ s'.rows, sent.seq = earlier.seq ∧
    sent.queueId = earlier.queueId ∧ sent.status = .dispatched

theorem drain_passed (ordered : s.Ordered kindOf) (threadId : String) (batch : Nat) (now : Int)
    {before after : List SendRow} (split : s.rows = before ++ row :: after)
    (waits : row.status = .queued) {row' : SendRow}
    (isIn : row' ∈ (s.runOp (.drain threadId (kindOf threadId) batch now)).rows)
    (same : row'.seq = row.seq) (sent : row'.status = .dispatched) {earlier : SendRow}
    (isBefore : earlier ∈ before) (isThread : earlier.threadId = row.threadId) :
    Passed s (s.runOp (.drain threadId (kindOf threadId) batch now)) earlier := by
  have isRow : row ∈ s.rows := by
    rw [split]
    exact List.mem_append_right _ List.mem_cons_self
  have isEarlier : earlier ∈ s.rows := by
    rw [split]
    exact List.mem_append_left _ isBefore
  have less : earlier.seq < row.seq := by
    have sorted := ordered.seqs
    rw [split, List.pairwise_append] at sorted
    exact sorted.2.2 earlier isBefore row List.mem_cons_self
  have distinct : (s.rows.map (·.seq)).Nodup :=
    List.pairwise_map.mpr (ordered.seqs.imp fun {_ _} less => Nat.ne_of_lt less)
  have unfolded : s.runOp (.drain threadId (kindOf threadId) batch now) =
      orElse (markDispatchedMany now
        (((s.drainable threadId (kindOf threadId)).take batch).map (·.seq)) s) s := rfl
  rw [unfolded] at isIn ⊢
  cases done : markDispatchedMany now
      (((s.drainable threadId (kindOf threadId)).take batch).map (·.seq)) s with
  | error error =>
    rw [done] at isIn
    obtain rfl := ordered.row_eq isIn isRow same
    rw [waits] at sent
    cases sent
  | ok marked =>
    rw [done] at isIn
    have rows := markDispatchedMany_rows now _ distinct done
    simp only [orElse] at isIn ⊢
    rw [rows] at isIn
    obtain ⟨source, isSource, rfl⟩ := List.mem_map.mp isIn
    rw [markedAt_seq] at same
    obtain rfl := ordered.row_eq isSource isRow same
    -- The row was taken: otherwise it would still wait.
    have chosen : source.seq ∈ ((s.drainable threadId (kindOf threadId)).take batch).map
        (·.seq) := by
      by_contra notTaken
      unfold markedAt at sent
      rw [if_neg notTaken, waits] at sent
      cases sent
    obtain ⟨taken, isTaken, sameSeq⟩ := List.mem_map.mp chosen
    rw [drainable_eq ordered] at isTaken
    have found := List.mem_filter.mp (drainRun_subset _ (List.mem_of_mem_take isTaken))
    obtain rfl := ordered.row_eq found.1 isSource sameSeq
    have ofThread : taken.threadId = threadId := by
      have unresolvedRow := found.2
      simp only [unresolved, Bool.and_eq_true, beq_iff_eq] at unresolvedRow
      exact unresolvedRow.1.1
    have earlierKind : earlier.kind = kindOf threadId := by
      rw [ordered.kinds earlier isEarlier, isThread, ofThread]
    have open_ : ∀ status, earlier.status = status → (status = .sending ∨ status = .queued ∨
        status = .dispatched ∨ status = .unconfirmed) → (earlier.status = .queued ∧
          earlier ∈ (s.drainable threadId (kindOf threadId)).take batch) ∨
        (earlier.status = .unconfirmed ∧ earlier.seq ∉ s.lateOpen) := by
      intro status isStatus isOpen
      rw [drainable_eq ordered]
      refine drainRun_take s.lateOpen (ordered.seqs.sublist List.filter_sublist) isTaken
        (List.mem_filter.mpr ⟨isEarlier, ?_⟩) less
      rcases isOpen with rfl | rfl | rfl | rfl <;>
        simp [unresolved, isStatus, isThread, ofThread, earlierKind]
    refine ⟨fun isSending => ?_, fun isDispatched => ?_, fun isUnconfirmed => ?_,
      fun isQueued => ?_⟩
    · rcases open_ _ isSending (Or.inl rfl) with ⟨other, -⟩ | ⟨other, -⟩ <;>
        rw [isSending] at other <;> cases other
    · rcases open_ _ isDispatched (Or.inr (Or.inr (Or.inl rfl))) with
        ⟨other, -⟩ | ⟨other, -⟩ <;> rw [isDispatched] at other <;> cases other
    · rcases open_ _ isUnconfirmed (Or.inr (Or.inr (Or.inr rfl))) with ⟨other, -⟩ | ⟨-, closed⟩
      · rw [isUnconfirmed] at other
        cases other
      · exact closed
    · rcases open_ _ isQueued (Or.inr (Or.inl rfl)) with ⟨-, together⟩ | ⟨other, -⟩
      · refine ⟨markedAt (((s.drainable threadId (kindOf threadId)).take batch).map (·.seq)) now
          earlier, ?_, markedAt_seq _ now earlier, ?_, ?_⟩
        · rw [rows]
          exact List.mem_map_of_mem isEarlier
        · unfold markedAt
          split_ifs <;> rfl
        · unfold markedAt
          rw [if_pos (List.mem_map_of_mem together)]
      · rw [isQueued] at other
        cases other

theorem dispatches_cases {op : StoreOp} (dispatches : op.Dispatches) :
    (∃ seq now, op = .send (.markDispatched seq now)) ∨
      ∃ seqs now, op = .send (.markDispatchedMany seqs now) := by
  cases op with
  | send op =>
    cases op with
    | markDispatched seq now => exact Or.inl ⟨seq, now, rfl⟩
    | markDispatchedMany seqs now => exact Or.inr ⟨seqs, now, rfl⟩
    | _ => exact dispatches.elim
  | _ => exact dispatches.elim

theorem markDispatched_undispatched (ordered : s.Ordered kindOf) {seq : Nat} {now : Int}
    (leaves : ∀ row ∈ s.rows, row.seq = seq → row.status ≠ .queued) {row' : SendRow}
    (isRow : row ∈ s.rows) (waits : row.status = .queued)
    (isIn : row' ∈ (orElse (s.markDispatched seq now) s).rows) (same : row'.seq = row.seq) :
    row'.status ≠ .dispatched := by
  intro sent
  unfold markDispatched update at isIn
  rcases updateOne_cases (fun r : SendRow => r.seq == seq)
    (fun r => { r with status := .dispatched, dispatched := true, updatedAt := now }) .gone with
    failed | updated
  · rw [failed] at isIn
    obtain rfl := ordered.row_eq isIn isRow same
    rw [waits] at sent
    cases sent
  · rw [updated] at isIn
    obtain ⟨source, isSource, rfl⟩ := List.mem_map.mp isIn
    by_cases isSeq : source.seq = seq
    · rw [if_pos (by simpa using isSeq)] at same
      obtain rfl := ordered.row_eq isSource isRow same
      exact leaves source isSource isSeq waits
    · rw [if_neg (by simpa using isSeq)] at same sent
      obtain rfl := ordered.row_eq isSource isRow same
      rw [waits] at sent
      cases sent

theorem store_undispatched (ordered : s.Ordered kindOf) {op : StoreOp}
    (served : s.Served kindOf (.store op)) {row' : SendRow} (isRow : row ∈ s.rows)
    (waits : row.status = .queued) (isIn : row' ∈ (s.step op).rows) (same : row'.seq = row.seq) :
    row'.status ≠ .dispatched := by
  obtain ⟨typed, leaves, accepts⟩ := served
  have of_row : ∀ source ∈ s.rows, source.Quiet row' → row'.status ≠ .dispatched := by
    intro source isSource quiet
    obtain rfl := ordered.row_eq isSource isRow (quiet.seq.symm.trans same)
    exact quiet.undispatched (by simp [waits])
  rcases step_frame s typed with
    ⟨-, derived, quiet⟩ | ⟨generation, mint, now, rfl⟩ |
    ⟨input, replaced, uuid, generation, change, isInput, -, -, -, rows, changes, -⟩
  · by_cases dispatches : op.Dispatches
    · rcases dispatches_cases dispatches with ⟨seq, now, rfl⟩ | ⟨seqs, now, rfl⟩
      · exact markDispatched_undispatched ordered leaves isRow waits isIn same
      · exact leaves.elim
    · obtain ⟨source, isSource, isQuiet⟩ := (quiet dispatches).row_of isIn
      exact of_row source isSource isQuiet
  · obtain ⟨source, isSource, isQuiet⟩ :=
      (neutralizeRestoredSends_derived s generation mint now).row_of isIn
    exact of_row source isSource isQuiet
  · rw [rows] at isIn
    obtain ⟨source, isSource, rfl⟩ := List.mem_map.mp isIn
    rcases List.mem_append.mp isSource with stays | isNew
    · exact of_row source ((remaining_subset s replaced).subset stays) (changes source)
    · obtain rfl := List.mem_singleton.mp isNew
      refine (changes _).undispatched fun isDispatched => ?_
      have status : (s.admittedRow input replaced uuid generation).status =
          input.status.getD .sending := rfl
      rw [status] at isDispatched
      cases given : input.status with
      | none =>
        rw [given] at isDispatched
        cases isDispatched
      | some chosen =>
        rw [given] at isDispatched
        obtain rfl : chosen = .dispatched := isDispatched
        rcases (accepts input isInput).2 _ given with h | h | h | h <;> cases h

variable {ops : List ThreadOp}

theorem ordered_of_run (run : Run (ThreadStep kindOf) {} ops s) :
    s.Ordered kindOf := by
  refine run.invariant ⟨List.Pairwise.nil, fun _ isIn => by cases isIn⟩
    fun before op after ordered step => ?_
  obtain ⟨rfl, served⟩ := step
  cases op with
  | drain threadId kind batch now =>
    refine ordered.derived (Derived.orElse (Derived.refl before).marks fun _ done => ?_)
    exact markDispatchedMany_derived now _ done
  | store op =>
    exact ordered.step served.1 fun input accepts => (served.2.2 input accepts).1

/-- Whenever a row goes from waiting to dispatched, every row of its conversation that was
accepted before it is passed. -/
def NoOvertaking (s : SendStore) (kindOf : String → SendKind) : Prop :=
  ∀ (op : ThreadOp) (s' : SendStore), ThreadStep kindOf s op s' →
    ∀ (before after : List SendRow) (row : SendRow),
      s.rows = before ++ row :: after → row.status = .queued →
      ∀ row' ∈ s'.rows, row'.seq = row.seq → row'.status = .dispatched →
      ∀ earlier ∈ before, earlier.threadId = row.threadId → Passed s s' earlier

theorem noOvertaking (run : Run (ThreadStep kindOf) {} ops s) :
    s.NoOvertaking kindOf := by
  intro op s' step before after row split waits row' isIn same sent earlier isBefore isThread
  obtain ⟨rfl, served⟩ := step
  have ordered := ordered_of_run run
  cases op with
  | drain threadId kind batch now =>
    obtain rfl : kind = kindOf threadId := served
    exact drain_passed ordered threadId batch now split waits isIn same sent isBefore isThread
  | store op =>
    have isRow : row ∈ s.rows := by
      rw [split]
      exact List.mem_append_right _ List.mem_cons_self
    exact absurd sent (store_undispatched ordered served isRow waits isIn same)

/-- A row that is put back in line keeps its place. -/
def PlaceKept (s : SendStore) : Prop :=
  ∀ (seq : Nat) (messageId text : String) (prompt : Option String) (now : Int),
    (s.apply (.requeueStarted seq messageId text prompt now)).rows.map
      (fun r => (r.seq, r.threadId, r.queueId)) = s.rows.map fun r => (r.seq, r.threadId, r.queueId)

theorem placeKept (s : SendStore) : s.PlaceKept := by
  intro seq messageId text prompt now
  have isApply : s.apply (.requeueStarted seq messageId text prompt now) =
      orElse (s.requeueStarted seq messageId text prompt now) s := rfl
  rw [isApply]
  cases done : s.requeueStarted seq messageId text prompt now with
  | error error => rfl
  | ok after =>
    obtain ⟨queued, updated, rfl⟩ := map_eq_ok done
    rcases updateOne_cases _ _ _ with failed | isUpdate
    · rw [failed] at updated
      cases updated
    · rw [isUpdate] at updated
      cases updated
      show (List.map _ (List.map _ s.rows)) = _
      rw [List.map_map]
      refine List.map_congr_left fun row _ => ?_
      rw [Function.comp_apply]
      split_ifs <;> rfl

/-! ## What a number means -/

/-- The number by which an operation addresses one row. -/
def addresses : StoreOp → Option Nat
  | .send (.markDispatched seq _) => some seq
  | .send (.queue seq _ _ _) => some seq
  | .send (.requeueStarted seq _ _ _ _) => some seq
  | .send (.settle seq _ _ _ _) => some seq
  | .send (.refuse seq _ _) => some seq
  | .send (.settleWithLine seq _ _ _ _ _) => some seq
  | .send (.setTurnId seq _) => some seq
  | .send (.holdForLateAnswer seq) => some seq
  | .send (.releaseLateAnswer seq) => some seq
  | .send (.scrub seq) => some seq
  | _ => none

/-- The newest row is neither deleted nor replaced. -/
def KeepsNewest (s : SendStore) (op : ThreadOp) : Prop :=
  ∀ row ∈ s.rows, (∀ other ∈ s.rows, other.seq ≤ row.seq) →
    ∃ row' ∈ (s.runOp op).rows, row'.seq = row.seq ∧ row'.queueId = row.queueId

/-- An update that is addressed to an accepted row by its number changes no other. -/
def UpdatesOwn (s : SendStore) (kindOf : String → SendKind)
    (condition : SendStore → ThreadOp → Prop) : Prop :=
  ∀ row ∈ s.rows, ∀ (later : List ThreadOp) (s' : SendStore),
    Run (Restrict (ThreadStep kindOf) condition) s later s' →
    ∀ op : StoreOp, op.Typed → addresses op = some row.seq →
    ∀ other ∈ s'.rows, other.queueId ≠ row.queueId → other ∈ (s'.step op).rows

structure Numbered (seq : Nat) (queueId : String) (s : SendStore) : Prop where
  own : ∀ row ∈ s.rows, row.seq = seq → row.queueId = queueId
  newest : ∃ row ∈ s.rows, seq ≤ row.seq

theorem exists_newest {rows : List SendRow} (isIn : row ∈ rows) :
    ∃ newest ∈ rows, row.seq ≤ newest.seq ∧ ∀ other ∈ rows, other.seq ≤ newest.seq := by
  induction rows generalizing row with
  | nil => cases isIn
  | cons head rest ih =>
    cases rest with
    | nil =>
      obtain rfl := List.mem_singleton.mp isIn
      exact ⟨row, isIn, Nat.le_refl _, fun other isOther => by
        rw [List.mem_singleton.mp isOther]⟩
    | cons second more =>
      obtain ⟨newest, isNewest, -, largest⟩ := ih (List.mem_cons_self)
      by_cases less : newest.seq ≤ head.seq
      · refine ⟨head, List.mem_cons_self, ?_, fun other isOther => ?_⟩
        · rcases List.mem_cons.mp isIn with rfl | isRest
          · exact Nat.le_refl _
          · exact (largest row isRest).trans less
        · rcases List.mem_cons.mp isOther with rfl | isRest
          · exact Nat.le_refl _
          · exact (largest other isRest).trans less
      · refine ⟨newest, List.mem_cons_of_mem _ isNewest, ?_, fun other isOther => ?_⟩
        · rcases List.mem_cons.mp isIn with rfl | isRest
          · exact Nat.le_of_lt (Nat.lt_of_not_le less)
          · exact largest row isRest
        · rcases List.mem_cons.mp isOther with rfl | isRest
          · exact Nat.le_of_lt (Nat.lt_of_not_le less)
          · exact largest other isRest

theorem Numbered.derived {seq : Nat} {queueId : String} (numbered : s.Numbered seq queueId)
    (derived : Derived Marks s s') {row' : SendRow} (isIn : row' ∈ s'.rows)
    (isSeq : row'.seq = seq) : row'.queueId = queueId := by
  obtain ⟨row, isRow, marks⟩ := derived.row_of isIn
  exact marks.queueId.trans (numbered.own row isRow (marks.seq.symm.trans isSeq))

theorem Numbered.step {seq : Nat} {queueId : String} (numbered : s.Numbered seq queueId)
    {op : ThreadOp} (served : s.Served kindOf op) (keeps : s.KeepsNewest op) :
    (s.runOp op).Numbered seq queueId := by
  obtain ⟨row, isRow, above⟩ := numbered.newest
  obtain ⟨newest, isNewest, reaches, largest⟩ := exists_newest isRow
  obtain ⟨kept, isKept, keptSeq, keptQueue⟩ := keeps newest isNewest largest
  refine ⟨fun row' isIn isSeq => ?_, kept, isKept, keptSeq ▸ above.trans reaches⟩
  cases op with
  | drain threadId kind batch now =>
    refine numbered.derived (Derived.orElse (Derived.refl s).marks fun _ done => ?_) isIn isSeq
    exact markDispatchedMany_derived now _ done
  | store op =>
    have isStep : s.runOp (.store op) = s.step op := rfl
    rw [isStep] at isIn isKept
    rcases step_frame s served.1 with
      ⟨-, derived, -⟩ | ⟨generation, mint, now, rfl⟩ |
      ⟨input, replaced, uuid, generation, change, -, -, -, -, rows, changes, -⟩
    · exact numbered.derived derived isIn isSeq
    · have same : Numbered seq queueId { s with generation := some generation } :=
        ⟨numbered.own, numbered.newest⟩
      exact same.derived (neutralizeRestoredSends_derived s generation mint now).marks isIn isSeq
    · rw [rows] at isIn isKept
      obtain ⟨source, isSource, rfl⟩ := List.mem_map.mp isIn
      rw [(changes source).seq] at isSeq
      rw [(changes source).queueId]
      rcases List.mem_append.mp isSource with stays | isNew
      · exact numbered.own source ((remaining_subset s replaced).subset stays) isSeq
      · obtain rfl := List.mem_singleton.mp isNew
        -- The new number is past the newest row's, unless it is that row's own.
        obtain ⟨origin, isOrigin, rfl⟩ := List.mem_map.mp isKept
        rw [(changes origin).seq] at keptSeq
        rw [(changes origin).queueId] at keptQueue
        have sameSeq : (s.admittedRow input replaced uuid generation).seq =
            nextSeq (s.remaining replaced) := rfl
        rcases List.mem_append.mp isOrigin with stays | isNew
        · have less := lt_nextSeq stays
          omega
        · obtain rfl := List.mem_singleton.mp isNew
          rw [keptQueue]
          exact numbered.own newest isNewest (by omega)

theorem Numbered.run {seq : Nat} {queueId : String} (numbered : s.Numbered seq queueId)
    (run : Run (Restrict (ThreadStep kindOf) KeepsNewest) s ops s') :
    s'.Numbered seq queueId := by
  refine run.invariant numbered fun before op after numbered step => ?_
  obtain ⟨⟨rfl, served⟩, keeps⟩ := step
  exact numbered.step served keeps

section Addressed

variable {other : SendRow} {seq : Nat}

theorem updateWhere_leaves {matching : SendRow → Bool} {set : SendRow → SendRow}
    (isIn : other ∈ s.rows) (unmatched : matching other = false) :
    other ∈ (s.updateWhere matching set).rows :=
  List.mem_map.mpr ⟨other, isIn, by rw [unmatched]; rfl⟩

theorem updateOne_leaves {matching : SendRow → Bool} {set : SendRow → SendRow}
    {error : StoreError} {after : SendStore} (done : s.updateOne matching set error = .ok after)
    (isIn : other ∈ s.rows) (unmatched : matching other = false) : other ∈ after.rows := by
  rcases updateOne_cases matching set error with failed | updated
  · rw [failed] at done
    cases done
  · rw [updated] at done
    cases done
    exact updateWhere_leaves isIn unmatched

theorem orElse_leaves {result : Except StoreError SendStore} (isIn : other ∈ s.rows)
    (done : ∀ after, result = .ok after → other ∈ after.rows) : other ∈ (orElse result s).rows := by
  cases result with
  | error _ => exact isIn
  | ok after => exact done after rfl

theorem settle_leaves {status : SendStatus} {messageId notice : Option String} {now : Int}
    {after : SendStore} (done : s.settle seq status messageId notice now = .ok after)
    (isIn : other ∈ s.rows) (differs : other.seq ≠ seq) : other ∈ after.rows := by
  obtain ⟨-, lateOpen, rfl⟩ := settle_eq done
  refine List.mem_map.mpr ⟨other, isIn, ?_⟩
  unfold settledAt
  rw [if_neg (by simpa using differs)]

theorem addressed_leaves {op : StoreOp} (isAddress : addresses op = some seq)
    (isIn : other ∈ s.rows) (differs : other.seq ≠ seq) : other ∈ (s.step op).rows := by
  have unmatched : (other.seq == seq) = false := by simpa using differs
  cases op with
  | send op =>
    cases op with
    | markDispatched target now =>
      obtain rfl : target = seq := Option.some.inj isAddress
      exact orElse_leaves isIn fun _ done => updateOne_leaves done isIn unmatched
    | queue target existingMessageId prompt now =>
      obtain rfl : target = seq := Option.some.inj isAddress
      refine orElse_leaves isIn fun after done => ?_
      obtain ⟨queued, updated, rfl⟩ := map_eq_ok done
      have stays : other ∈ queued.rows := updateOne_leaves updated isIn unmatched
      exact stays
    | requeueStarted target messageId text prompt now =>
      obtain rfl : target = seq := Option.some.inj isAddress
      refine orElse_leaves isIn fun after done => ?_
      obtain ⟨queued, updated, rfl⟩ := map_eq_ok done
      have stays : other ∈ queued.rows :=
        updateOne_leaves updated isIn (by simp [differs])
      exact stays
    | settle target status messageId notice now =>
      obtain rfl : target = seq := Option.some.inj isAddress
      exact orElse_leaves isIn fun _ done => settle_leaves done isIn differs
    | refuse target notice now =>
      obtain rfl : target = seq := Option.some.inj isAddress
      exact orElse_leaves isIn fun _ done => settle_leaves done isIn differs
    | settleWithLine target status lineId append notice now =>
      obtain rfl : target = seq := Option.some.inj isAddress
      show other ∈ (s.settleWithLine target status lineId append notice now).1.rows
      rcases settleWithLine_cases s target status lineId append notice now with
        ⟨lateOpen, error, isResult⟩ | ⟨actual, words, lateOpen, -, -, isResult⟩
      · rw [isResult]
        exact isIn
      · rw [isResult]
        refine List.mem_map.mpr ⟨other, isIn, ?_⟩
        unfold linedAt
        rw [if_neg (by simpa using differs)]
    | setTurnId target turnId =>
      obtain rfl : target = seq := Option.some.inj isAddress
      exact updateWhere_leaves isIn unmatched
    | holdForLateAnswer target => exact isIn
    | releaseLateAnswer target =>
      obtain rfl : target = seq := Option.some.inj isAddress
      have isMember : other ∈ { s with lateOpen := s.lateOpen.erase target }.rows := isIn
      exact updateWhere_leaves isMember unmatched
    | scrub target =>
      obtain rfl : target = seq := Option.some.inj isAddress
      exact updateWhere_leaves isIn unmatched
    | _ => cases isAddress
  | _ => cases isAddress

end Addressed

theorem updatesOwn (run : Run (ThreadStep kindOf) {} ops s) :
    s.UpdatesOwn kindOf KeepsNewest := by
  intro row isIn later s' after op typed isAddress other isOther differs
  have ordered := ordered_of_run run
  have numbered : s.Numbered row.seq row.queueId :=
    ⟨fun source isSource same => by rw [ordered.row_eq isSource isIn same],
      row, isIn, Nat.le_refl _⟩
  refine addressed_leaves isAddress isOther fun same => ?_
  exact differs ((numbered.run after).own other isOther same)

/-- **Order.** No waiting row overtakes an earlier one of its conversation, a row put back
in line keeps its place, and, while the newest row is never deleted, an update by number
changes only the row it was addressed to. -/
theorem sends_in_order {ops : List ThreadOp} (run : Run (ThreadStep kindOf) {} ops s) :
    s.NoOvertaking kindOf ∧ s.PlaceKept ∧ s.UpdatesOwn kindOf KeepsNewest :=
  ⟨noOvertaking run, placeKept s, updatesOwn run⟩

/-- A bot's conversation that accepts `text` under a send id, waiting. -/
def waitingOf (sendId text uuid : String) : ThreadOp :=
  .store (.send (.accept (sendOf sendId text .queued none) true uuid "g"))

theorem waitingOf_served (s : SendStore) (sendId text uuid : String) :
    s.Served (fun _ => .bot) (waitingOf sendId text uuid) := by
  refine ⟨trivial, trivial, fun input accepts => ?_⟩
  obtain rfl := Option.some.inj accepts
  exact ⟨rfl, fun status isStatus => Or.inr (Or.inl (Option.some.inj isStatus).symm)⟩

def twoWaiting : List ThreadOp := [waitingOf "s1" "hello" "q1", waitingOf "s2" "other" "q2"]

/-- Two waiting sends that one drain takes. -/
theorem sends_in_order_together :
    ∃ earlier ∈ (twoWaiting.foldl runOp {}).rows.take 1, earlier.sendId = "s1" ∧
      Passed (twoWaiting.foldl runOp {})
        ((twoWaiting.foldl runOp {}).runOp (.drain "t" .bot 2 0)) earlier := by
  have run : Run (ThreadStep fun _ => .bot) {} twoWaiting (twoWaiting.foldl runOp {}) :=
    Run.foldl_along ⟨waitingOf_served _ _ _ _, waitingOf_served _ _ _ _, trivial⟩
  obtain ⟨row', member, isSeq, sent⟩ :
      ∃ row' ∈ ((twoWaiting.foldl runOp {}).runOp (.drain "t" .bot 2 0)).rows,
        row'.seq = 2 ∧ row'.status = .dispatched := by
    rw [runOp, drainable_eq (ordered_of_run run)]
    decide
  refine ⟨_, List.mem_singleton_self _, rfl, ?_⟩
  exact (sends_in_order run).1 (.drain "t" .bot 2 0) _ ⟨rfl, rfl⟩
    ((twoWaiting.foldl runOp {}).rows.take 1) [] _ rfl rfl row' member isSeq sent _
    (List.mem_singleton_self _) rfl

/-- A refused send that is sent again gets its old number, if that was the newest. -/
def sentAgain : List ThreadOp :=
  [waitingOf "s1" "hello" "q1", .store (.send (.refuse 1 none 0))]

/-- A late update of the first attempt changes the second. -/
theorem freed_number_is_reused :
    ¬∀ (kindOf : String → SendKind) (ops : List ThreadOp) (s : SendStore),
      Run (ThreadStep kindOf) {} ops s → s.UpdatesOwn kindOf fun _ _ => True := by
  intro claimed
  have refuses : ∀ s : SendStore, s.Served (fun _ => .bot) (.store (.send (.refuse 1 none 0))) :=
    fun _ => ⟨trivial, trivial, fun _ accepts => by cases accepts⟩
  have run : Run (ThreadStep fun _ => .bot) {} sentAgain (sentAgain.foldl runOp {}) :=
    Run.foldl_along ⟨waitingOf_served _ _ _ _, refuses _, trivial⟩
  have again : Run (Restrict (ThreadStep fun _ => .bot) fun _ _ => True)
      (sentAgain.foldl runOp {}) [waitingOf "s1" "hello" "q2"] _ :=
    Run.restrict_restrict (Run.foldl_along ⟨⟨waitingOf_served _ _ _ _, trivial⟩, trivial⟩)
  have changed := claimed _ _ _ run _ (List.mem_singleton_self _) _ _ again
    (.send (.refuse 1 none 0)) trivial rfl _ (List.mem_singleton_self _) (by decide)
  revert changed
  decide

end SendStore

end Murage.OwnerSends
