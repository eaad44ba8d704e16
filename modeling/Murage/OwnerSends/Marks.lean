import Murage.OwnerSends.Retention

/-!
Owns what no operation takes from a row: its place, its send id, the press that made it
and what holds it. One frame theorem over the operations; invariants follow from it.

Does not own: the words of a row.
-/

namespace Murage.OwnerSends

open Murage.Library
open Murage.Library.Transition

namespace SendRow

def Idle (r : SendRow) : Prop := r.waiting = true → r.dispatched = false

/-- `row'` is `row` after operations that neither replaced nor deleted it. -/
structure Marks (row row' : SendRow) : Prop where
  seq : row'.seq = row.seq
  kind : row'.kind = row.kind
  threadId : row'.threadId = row.threadId
  sendId : row'.sendId = row.sendId
  queueId : row'.queueId = row.queueId
  actionId : row'.actionId = row.actionId
  restoreHeld : row.restoreHeld = true → row'.restoreHeld = true
  stopped : row.stopped = true → row'.stopped = true
  stopGen : row.stopped = true → (given row.stopGen).isSome → row'.stopGen = row.stopGen
  idle : row.Idle → row'.Idle

namespace Marks

variable {row row' row'' : SendRow}

theorem refl (row : SendRow) : row.Marks row :=
  ⟨rfl, rfl, rfl, rfl, rfl, rfl, id, id, fun _ _ => rfl, id⟩

theorem trans (first : row.Marks row') (second : row'.Marks row'') : row.Marks row'' where
  seq := second.seq.trans first.seq
  kind := second.kind.trans first.kind
  threadId := second.threadId.trans first.threadId
  sendId := second.sendId.trans first.sendId
  queueId := second.queueId.trans first.queueId
  actionId := second.actionId.trans first.actionId
  restoreHeld := fun held => second.restoreHeld (first.restoreHeld held)
  stopped := fun isStopped => second.stopped (first.stopped isStopped)
  stopGen := fun isStopped isGiven => by
    have same := first.stopGen isStopped isGiven
    exact (second.stopGen (first.stopped isStopped) (same ▸ isGiven)).trans same
  idle := fun isIdle => second.idle (first.idle isIdle)

end Marks

/-- Nor did they dispatch it. -/
structure Quiet (row row' : SendRow) : Prop extends Marks row row' where
  undispatched : row.status ≠ .dispatched → row'.status ≠ .dispatched

namespace Quiet

variable {row row' row'' : SendRow}

theorem refl (row : SendRow) : row.Quiet row := ⟨Marks.refl row, id⟩

theorem trans (first : row.Quiet row') (second : row'.Quiet row'') : row.Quiet row'' :=
  ⟨first.toMarks.trans second.toMarks, fun other => second.undispatched (first.undispatched other)⟩

theorem of_idle (isIdle : row.Idle → row'.Idle)
    (undispatched : row.status ≠ .dispatched → row'.status ≠ .dispatched)
    (seq : row'.seq = row.seq) (kind : row'.kind = row.kind)
    (threadId : row'.threadId = row.threadId) (sendId : row'.sendId = row.sendId)
    (queueId : row'.queueId = row.queueId) (actionId : row'.actionId = row.actionId)
    (restoreHeld : row'.restoreHeld = row.restoreHeld) (stopped : row'.stopped = row.stopped)
    (stopGen : row'.stopGen = row.stopGen) : row.Quiet row' :=
  ⟨⟨seq, kind, threadId, sendId, queueId, actionId, fun held => restoreHeld.trans held,
    fun isStopped => stopped.trans isStopped, fun _ _ => stopGen, isIdle⟩, undispatched⟩

end Quiet

theorem mintStopToken_quiet (row : SendRow) (mint : Nat → String) :
    row.Quiet (row.mintStopToken mint) := by
  unfold mintStopToken
  split_ifs with tokenless
  · refine ⟨⟨rfl, rfl, rfl, rfl, rfl, rfl, id, id, fun _ isGiven => ?_, id⟩, id⟩
    have absent := (Bool.and_eq_true_iff.mp tokenless).2
    rw [Option.isNone_iff_eq_none] at absent
    rw [absent] at isGiven
    cases isGiven
  · exact Quiet.refl row

theorem scrubbed_quiet (row : SendRow) : row.Quiet row.scrubbed := by
  unfold scrubbed
  split_ifs
  · exact Quiet.of_idle id id rfl rfl rfl rfl rfl rfl rfl rfl rfl
  · exact Quiet.refl row

end SendRow

namespace SendStore

open SendRow

variable {s s' : SendStore}

theorem heldStopped_quiet (now : Int) (row : SendRow) : row.Quiet (heldStopped now row) := by
  unfold heldStopped
  split_ifs
  · exact Quiet.of_idle (fun _ _ => rfl) (fun _ => by simp) rfl rfl rfl rfl rfl rfl rfl rfl rfl
  · exact Quiet.refl row

theorem requeued_quiet (now : Int) (row : SendRow) : row.Quiet (requeued now row) := by
  unfold requeued
  split_ifs with isSending
  · refine Quiet.of_idle (fun _ _ => ?_) (fun _ => by simp) rfl rfl rfl rfl rfl rfl rfl rfl rfl
    simpa using (Bool.and_eq_true_iff.mp isSending).2
  · exact Quiet.refl row

theorem neutralized_quiet (generation : String) (now : Int) (row : SendRow) :
    row.Quiet (neutralized generation now row) := by
  unfold neutralized
  dsimp only
  split_ifs <;> refine ⟨⟨rfl, rfl, rfl, rfl, rfl, rfl, ?_, id, fun _ _ => rfl, ?_⟩, ?_⟩ <;>
    simp_all [Idle, waiting]

/-- The statuses that `settle` takes. -/
def Settles (status : SendStatus) : Prop :=
  status = .started ∨ status = .delivered ∨ status = .unconfirmed ∨ status = .failed ∨
    status = .refused ∨ status = .cancelled

variable {status : SendStatus}

theorem settledRow_quiet (settles : Settles status) (messageId notice : Option String)
    (row : SendRow) :
    row.Quiet (settledRow status messageId notice row) := by
  refine Quiet.of_idle (fun _ waits => ?_) (fun _ isDispatched => ?_) rfl rfl rfl rfl rfl rfl rfl rfl rfl
  · rcases settles with rfl | rfl | rfl | rfl | rfl | rfl <;> cases waits
  · rcases settles with rfl | rfl | rfl | rfl | rfl | rfl <;> cases isDispatched

/-! ## Stores -/

/-- The rows of `s'` are rows of `s`, changed as `R` says, under the same restore
generation. -/
structure Derived (R : SendRow → SendRow → Prop) (s s' : SendStore) : Prop where
  rows : ∃ (keep : SendRow → Bool) (change : SendRow → SendRow),
    s'.rows = (s.rows.filter keep).map change ∧ ∀ row, R row (change row)
  generation : s'.generation = s.generation

namespace Derived

variable {R : SendRow → SendRow → Prop}

theorem map {change : SendRow → SendRow} (rows : s'.rows = s.rows.map change)
    (generation : s'.generation = s.generation) (changes : ∀ row, R row (change row)) :
    Derived R s s' :=
  ⟨⟨fun _ => true, change, by rw [List.filter_true]; exact rows, changes⟩, generation⟩

theorem filter {keep : SendRow → Bool} (rows : s'.rows = s.rows.filter keep)
    (generation : s'.generation = s.generation) : Derived Quiet s s' :=
  ⟨⟨keep, id, by rw [List.map_id]; exact rows, Quiet.refl⟩, generation⟩

theorem of_rows (rows : s'.rows = s.rows) (generation : s'.generation = s.generation) :
    Derived Quiet s s' :=
  @map _ _ _ id (by rw [List.map_id]; exact rows) generation Quiet.refl

theorem refl (s : SendStore) : Derived Quiet s s := of_rows rfl rfl

theorem compose {s'' : SendStore} (first : Derived R s s') (second : Derived R s' s'')
    (trans : ∀ row row' row'', R row row' → R row' row'' → R row row'') : Derived R s s'' := by
  obtain ⟨⟨keep, change, rows, changes⟩, generation⟩ := first
  obtain ⟨⟨keep', change', rows', changes'⟩, generation'⟩ := second
  refine ⟨⟨fun row => keep row && keep' (change row), change' ∘ change, ?_,
    fun row => trans _ _ _ (changes row) (changes' _)⟩, generation'.trans generation⟩
  rw [rows', rows, List.filter_map, List.filter_filter, List.map_map]
  refine congrArg _ (List.filter_congr fun row _ => ?_)
  exact Bool.and_comm _ _

theorem trans {s'' : SendStore} (first : Derived Quiet s s') (second : Derived Quiet s' s'') :
    Derived Quiet s s'' :=
  first.compose second fun _ _ _ => Quiet.trans

theorem marks (derived : Derived Quiet s s') : Derived Marks s s' := by
  obtain ⟨⟨keep, change, rows, quiet⟩, generation⟩ := derived
  exact ⟨⟨keep, change, rows, fun row => (quiet row).toMarks⟩, generation⟩

theorem updateWhere {matching : SendRow → Bool} {set : SendRow → SendRow}
    (refl : ∀ row, R row row) (changes : ∀ row, R row (set row)) :
    Derived R s (s.updateWhere matching set) := by
  refine map rfl rfl fun row => ?_
  split_ifs
  · exact changes row
  · exact refl row

theorem updateOne {matching : SendRow → Bool} {set : SendRow → SendRow} {error : StoreError}
    {after : SendStore} (done : s.updateOne matching set error = .ok after)
    (refl : ∀ row, R row row) (changes : ∀ row, R row (set row)) : Derived R s after := by
  rcases updateOne_cases matching set error with failed | updated
  · rw [failed] at done
    cases done
  · rw [updated] at done
    cases done
    exact updateWhere refl changes

theorem orElse {result : Except StoreError SendStore} (same : Derived R s s)
    (done : ∀ after, result = .ok after → Derived R s after) :
    Derived R s (orElse result s) := by
  cases result with
  | error _ => exact same
  | ok after => exact done after rfl

theorem row_of (derived : Derived R s s') {row' : SendRow} (isIn : row' ∈ s'.rows) :
    ∃ row ∈ s.rows, R row row' := by
  obtain ⟨⟨keep, change, rows, changes⟩, -⟩ := derived
  rw [rows] at isIn
  obtain ⟨row, isKept, rfl⟩ := List.mem_map.mp isIn
  exact ⟨row, List.mem_of_mem_filter isKept, changes row⟩

theorem pairwise (derived : Derived R s s') {P : SendRow → SendRow → Prop}
    (invariant : ∀ first first' second second' : SendRow, R first first' → R second second' →
      P first second → P first' second') (before : s.rows.Pairwise P) : s'.rows.Pairwise P := by
  obtain ⟨⟨keep, change, rows, changes⟩, -⟩ := derived
  rw [rows, List.pairwise_map]
  exact (before.sublist List.filter_sublist).imp
    fun {first second} holds => invariant first _ second _ (changes first) (changes second) holds

end Derived

/-! ## Operations -/

theorem dispatched_marks (row : SendRow) (now : Int) :
    row.Marks { row with status := .dispatched, dispatched := true, updatedAt := now } :=
  ⟨rfl, rfl, rfl, rfl, rfl, rfl, id, id, fun _ _ => rfl, fun _ waits => by cases waits⟩

variable {after : SendStore}

theorem markDispatchedMany_derived (now : Int) (seqs : List Nat)
    (done : markDispatchedMany now seqs s = .ok after) : Derived Marks s after := by
  induction seqs generalizing s with
  | nil =>
    cases done
    exact (Derived.refl _).marks
  | cons seq rest ih =>
    unfold markDispatchedMany at done
    cases first : s.updateOne (fun r => r.seq == seq && r.status == .queued)
      (fun r => { r with status := .dispatched, dispatched := true, updatedAt := now })
      .notWaiting with
    | error error =>
      rw [first] at done
      cases done
    | ok marked =>
      rw [first] at done
      have dispatched : Derived Marks s marked := Derived.updateOne first Marks.refl
        fun row => dispatched_marks row now
      exact dispatched.compose (ih done) fun _ _ _ => Marks.trans

theorem queue_derived {seq : Nat} {existingMessageId prompt : Option String} {now : Int}
    (done : s.queue seq existingMessageId prompt now = .ok after) :
    Derived Quiet s after := by
  obtain ⟨queued, updated, rfl⟩ := map_eq_ok done
  have derived : Derived Quiet s queued := Derived.updateOne updated Quiet.refl fun row =>
    Quiet.of_idle (fun _ _ => rfl) (fun _ => by simp) rfl rfl rfl rfl rfl rfl rfl rfl rfl
  exact derived.trans (Derived.of_rows rfl rfl)

theorem requeueStarted_derived {seq : Nat} {messageId text : String} {prompt : Option String}
    {now : Int} (done : s.requeueStarted seq messageId text prompt now = .ok after) :
    Derived Quiet s after := by
  obtain ⟨queued, updated, rfl⟩ := map_eq_ok done
  have derived : Derived Quiet s queued := Derived.updateOne updated Quiet.refl fun row =>
    Quiet.of_idle (fun _ _ => rfl) (fun _ => by simp) rfl rfl rfl rfl rfl rfl rfl rfl rfl
  exact derived.trans (Derived.of_rows rfl rfl)

theorem settle_derived {seq : Nat} {messageId notice : Option String} {now : Int}
    (settles : Settles status) (done : s.settle seq status messageId notice now = .ok after) :
    Derived Quiet s after := by
  obtain ⟨-, lateOpen, rfl⟩ := settle_eq done
  refine Derived.map rfl rfl fun row => ?_
  unfold settledAt
  split_ifs
  · exact (settledRow_quiet settles messageId notice row).trans
      (Quiet.of_idle id id rfl rfl rfl rfl rfl rfl rfl rfl rfl)
  · exact Quiet.refl row

theorem settleWithLine_derived (s : SendStore) (seq : Nat) (settles : Settles status)
    (lineId : String) (append : Option (String × String)) (notice : Option String) (now : Int) :
    Derived Quiet s (s.settleWithLine seq status lineId append notice now).1 := by
  rcases settleWithLine_cases s seq status lineId append notice now with
    ⟨lateOpen, error, isResult⟩ | ⟨actual, words, lateOpen, -, -, isResult⟩
  · rw [isResult]
    exact Derived.of_rows rfl rfl
  · rw [isResult]
    refine Derived.map rfl rfl fun row => ?_
    unfold linedAt
    split_ifs
    · exact (settledRow_quiet settles (some lineId) notice row).trans
        (Quiet.of_idle id id rfl rfl rfl rfl rfl rfl rfl rfl rfl)
    · exact Quiet.refl row

theorem scrub_derived (s : SendStore) (seq : Nat) : Derived Quiet s (s.scrub seq) :=
  Derived.updateWhere Quiet.refl scrubbed_quiet

theorem cancel_derived (s : SendStore) (ownerId queueId : String) (now : Int) :
    Derived Quiet s (s.cancel ownerId queueId now) := by
  unfold cancel
  cases s.rows.find? fun r => r.ownerId == ownerId && r.queueId == queueId with
  | none => exact Derived.refl s
  | some row =>
    dsimp only
    split_ifs
    · exact Derived.refl s
    · have settled : Derived Quiet s (orElse (s.settle row.seq .cancelled none none now) s) :=
        Derived.orElse (Derived.refl s) fun after done =>
          settle_derived (Or.inr (Or.inr (Or.inr (Or.inr (Or.inr rfl))))) done
      exact settled.trans (Derived.of_rows rfl rfl)

theorem recover_derived (s : SendStore) (mint : Nat → String) (now : Int) :
    Derived Quiet s (s.recover mint now).1 := by
  have rows : (s.recover mint now).1.rows =
      s.rows.map fun row => requeued now (heldStopped now (row.mintStopToken mint)) := by
    simp only [recover, List.map_map, Function.comp_def]
  refine Derived.map rows rfl fun row => ?_
  exact ((row.mintStopToken_quiet mint).trans (heldStopped_quiet now _)).trans
    (requeued_quiet now _)

theorem completeRow_derived (now : Int) (s : SendStore) (item : Unresolved) :
    Derived Quiet s (completeRow now s item) := by
  unfold completeRow
  cases item.landed with
  | some landed =>
    dsimp only
    split_ifs
    · exact Derived.orElse (Derived.refl s) fun after done => settle_derived (Or.inl rfl) done
    · exact scrub_derived s _
  | none =>
    dsimp only
    by_cases wordless : item.row.text = ""
    · rw [if_pos wordless]
      exact Derived.refl s
    · rw [if_neg wordless]
      have written := settleWithLine_derived s item.row.seq (Or.inr (Or.inr (Or.inl rfl)))
        item.lineId (if item.throws then none else some (item.lineId, item.row.text))
        (some "notConfirmed") now
      split
      next after isResult =>
        rw [isResult] at written
        exact written.trans (scrub_derived after _)
      next after error isResult =>
        rw [isResult] at written
        exact written

theorem completeUnresolved_derived (s : SendStore) (items : List Unresolved) (now : Int) :
    Derived Quiet s (s.completeUnresolved items now) := by
  unfold completeUnresolved
  induction items generalizing s with
  | nil => exact Derived.refl s
  | cons item rest ih =>
    exact (completeRow_derived now s item).trans (ih _)

theorem neutralizeRestoredSends_derived (s : SendStore) (generation : String)
    (mint : Nat → String) (now : Int) :
    Derived Quiet { s with generation := some generation }
      (s.neutralizeRestoredSends generation mint now) :=
  Derived.map rfl rfl fun row =>
    (row.mintStopToken_quiet mint).trans (neutralized_quiet generation now _)

theorem markStopped_quiet (threadId token : String) (row : SendRow) :
    row.Quiet (if row.threadId == threadId && row.waiting && !row.dispatched && !row.stopped then
      { row with stopped := true, stopGen := some token } else row) := by
  split_ifs with waits
  · refine ⟨⟨rfl, rfl, rfl, rfl, rfl, rfl, id, fun _ => rfl, fun isStopped => ?_, id⟩, id⟩
    have notStopped := (Bool.and_eq_true_iff.mp waits).2
    rw [isStopped] at notStopped
    cases notStopped
  · exact Quiet.refl row

theorem markStopped_derived (s : SendStore) (threadId token : String) :
    Derived Quiet s (s.markStopped threadId token) :=
  Derived.map rfl rfl (markStopped_quiet threadId token)

theorem retire_derived (s : SendStore) (seq : Nat) : Derived Quiet s (s.retire seq) := by
  unfold retire
  split
  · exact Derived.refl s
  · split_ifs
    · exact Derived.refl s
    · exact Derived.filter rfl rfl

theorem purgeOrphans_derived (s : SendStore) (deleted : String → String → SendKind → Bool) :
    Derived Quiet s (s.purgeOrphans deleted) :=
  Derived.filter rfl rfl

theorem deleteThread_derived (s : SendStore) (threadId : String) :
    Derived Quiet s (s.deleteThread threadId) :=
  Derived.filter rfl rfl

theorem setTurnId_derived (s : SendStore) (seq : Nat) (turnId : String) :
    Derived Quiet s (s.setTurnId seq turnId) :=
  Derived.updateWhere Quiet.refl fun _ => Quiet.of_idle id id rfl rfl rfl rfl rfl rfl rfl rfl rfl

theorem markDispatched_derived {seq : Nat} {now : Int} (done : s.markDispatched seq now = .ok after) :
    Derived Marks s after :=
  Derived.updateOne done Marks.refl fun row => dispatched_marks row now

/-- The statuses of the source's argument types. -/
def Typed : SendOp → Prop
  | .settle _ status _ _ _ => Settles status
  | .settleWithLine _ status _ _ _ _ =>
    status = .started ∨ status = .delivered ∨ status = .unconfirmed
  | _ => True

theorem Settles.of_line (typed : status = .started ∨ status = .delivered ∨ status = .unconfirmed) :
    Settles status := by
  rcases typed with rfl | rfl | rfl
  · exact Or.inl rfl
  · exact Or.inr (Or.inl rfl)
  · exact Or.inr (Or.inr (Or.inl rfl))

def newRowOf : Except StoreError AcceptResult → Option SendRow
  | .ok ⟨.new, row⟩ => some row
  | _ => none

def admits (s : SendStore) : StoreOp → Option SendRow
  | .send (.accept input live uuid generation) =>
    newRowOf (s.accept input live uuid generation).2
  | .acceptTypedStop input live uuid generation token =>
    newRowOf (s.acceptTypedStop input live uuid generation token).2
  | _ => none

structure Admits (s : SendStore) (input : AcceptInput) (replaced : Option SendRow) : Prop where
  prior : s.prior input = replaced
  replaces : ∀ prior, replaced = some prior → s.admission input prior = .replaces

/-- **Frame of `accept`.** It makes a row, last of the rows that stay, or changes none. -/
theorem accept_frame (s : SendStore) (input : AcceptInput) (live : Bool)
    (uuid generation : String) :
    (newRowOf (s.accept input live uuid generation).2 = none ∧
      Derived Quiet s (s.accept input live uuid generation).1) ∨
    ∃ replaced, s.Admits input replaced ∧
      clashes (s.remaining replaced) (s.admittedRow input replaced uuid generation) = false ∧
      s.accept input live uuid generation = (s.admitted input replaced uuid generation,
        .ok ⟨.new, s.admittedRow input replaced uuid generation⟩) := by
  have of_enroll : ∀ replaced, s.Admits input replaced →
      s.accept input live uuid generation = s.enroll input replaced uuid generation →
      (newRowOf (s.accept input live uuid generation).2 = none ∧
        Derived Quiet s (s.accept input live uuid generation).1) ∨
      ∃ replaced, s.Admits input replaced ∧
        clashes (s.remaining replaced) (s.admittedRow input replaced uuid generation) = false ∧
        s.accept input live uuid generation = (s.admitted input replaced uuid generation,
          .ok ⟨.new, s.admittedRow input replaced uuid generation⟩) := by
    intro replaced admits isAccept
    rw [isAccept]
    rcases enroll_cases s input replaced uuid generation with
      ⟨same, -, -, isEnroll⟩ | isEnroll | ⟨free, isEnroll⟩
    · rw [isEnroll]
      refine Or.inl ⟨rfl, ?_⟩
      cases replaced with
      | none => exact Derived.of_rows rfl rfl
      | some prior => exact Derived.filter rfl rfl
    · rw [isEnroll]
      exact Or.inl ⟨rfl, Derived.refl s⟩
    · exact Or.inr ⟨replaced, admits, free, isEnroll⟩
  rcases accept_cases s input live uuid generation with
    ⟨result, isResult, notNew⟩ | ⟨isPrior, isAccept⟩ | ⟨prior, isPrior, replaces, isAccept⟩
  · rw [isResult]
    refine Or.inl ⟨?_, Derived.refl s⟩
    match result with
    | .error _ => rfl
    | .ok ⟨.new, row⟩ => exact absurd rfl (notNew row)
    | .ok ⟨.existing, _⟩ => rfl
    | .ok ⟨.conflict, _⟩ => rfl
  · exact of_enroll none ⟨isPrior, fun _ isSome => by cases isSome⟩ isAccept
  · refine of_enroll (some prior) ⟨isPrior, fun other isSome => ?_⟩ isAccept
    obtain rfl : prior = other := Option.some.inj isSome
    exact replaces

/-- The operations that neither make a row nor dispatch one nor restore. -/
def Keeps : SendOp → Prop
  | .accept .. | .neutralizeRestoredSends .. | .markDispatched .. | .markDispatchedMany .. => False
  | _ => True

theorem apply_derived (s : SendStore) {op : SendOp} (typed : Typed op) (keeps : Keeps op) :
    Derived Quiet s (s.apply op) := by
  cases op with
  | accept => exact keeps.elim
  | markDispatched => exact keeps.elim
  | markDispatchedMany => exact keeps.elim
  | queue seq existingMessageId prompt now => exact Derived.orElse (Derived.refl s) fun _ done => queue_derived done
  | requeueStarted seq messageId text prompt now =>
    exact Derived.orElse (Derived.refl s) fun _ done => requeueStarted_derived done
  | settle seq status messageId notice now =>
    exact Derived.orElse (Derived.refl s) fun _ done => settle_derived typed done
  | refuse seq notice now =>
    exact Derived.orElse (Derived.refl s) fun _ done =>
      settle_derived (Or.inr (Or.inr (Or.inr (Or.inr (Or.inl rfl))))) done
  | settleWithLine seq status lineId append notice now =>
    exact settleWithLine_derived s seq (Settles.of_line typed) lineId append notice now
  | setTurnId seq turnId => exact setTurnId_derived s seq turnId
  | markStopped threadId token => exact markStopped_derived s threadId token
  | holdForLateAnswer seq => exact Derived.of_rows rfl rfl
  | releaseLateAnswer seq =>
    have released : Derived Quiet s { s with lateOpen := s.lateOpen.erase seq } :=
      Derived.of_rows rfl rfl
    exact released.trans (scrub_derived _ seq)
  | releaseThreadLate threadId =>
    have updated : Derived Quiet s (s.updateWhere
        (fun r => r.seq ∈ s.lateOpen && r.threadId == threadId) SendRow.scrubbed) :=
      Derived.updateWhere Quiet.refl scrubbed_quiet
    exact updated.trans (Derived.of_rows rfl rfl)
  | scrub seq => exact scrub_derived s seq
  | cancel ownerId queueId now => exact cancel_derived s ownerId queueId now
  | recover mint now => exact recover_derived s mint now
  | completeUnresolved items now => exact completeUnresolved_derived s items now
  | neutralizeRestoredSends => exact keeps.elim
  | pruneAge cutoff batch => exact Derived.filter rfl rfl
  | pruneCap pivot batch => exact Derived.filter rfl rfl
  | append lineId words =>
    show Derived Quiet s (s.appendLine lineId words)
    unfold appendLine
    split_ifs
    · exact Derived.refl s
    · exact Derived.of_rows rfl rfl
  | crash => exact Derived.of_rows rfl rfl

end SendStore

namespace StoreOp

/-- The call of `accept` that an operation is or makes. -/
def accepts : StoreOp → Option AcceptInput
  | .send (.accept input _ _ _) => some input
  | .acceptTypedStop input _ _ _ _ => some input.typedStop
  | _ => none

def Typed : StoreOp → Prop
  | .send op => SendStore.Typed op
  | _ => True

/-- An operation that dispatches the rows it is given, whatever else waits. -/
def Dispatches : StoreOp → Prop
  | .send (.markDispatched _ _) | .send (.markDispatchedMany _ _) => True
  | _ => False

end StoreOp

namespace SendStore

open SendRow

variable {s s' : SendStore}

/-- **Frame.** An operation that makes no row changes or deletes rows, and only a restore
issues a generation. One that makes a row puts it after the rows that stay, in the place
of its send id's row, if it has one. -/
theorem step_frame (s : SendStore) {op : StoreOp} (typed : op.Typed) :
    (s.admits op = none ∧ Derived Marks s (s.step op) ∧
      (¬op.Dispatches → Derived Quiet s (s.step op))) ∨
    (∃ generation mint now, op = .send (.neutralizeRestoredSends generation mint now)) ∨
    ∃ input replaced uuid generation change,
      op.accepts = some input ∧ s.Admits input replaced ∧
      clashes (s.remaining replaced) (s.admittedRow input replaced uuid generation) = false ∧
      s.admits op = some (s.admittedRow input replaced uuid generation) ∧
      (s.step op).rows = (s.admitted input replaced uuid generation).rows.map change ∧
      (∀ row : SendRow, row.Quiet (change row)) ∧
      (s.step op).generation = s.admittedGeneration input generation := by
  cases op with
  | send op =>
    by_cases isAccept : ∃ input live uuid generation, op = .accept input live uuid generation
    · obtain ⟨input, live, uuid, generation, rfl⟩ := isAccept
      rcases accept_frame s input live uuid generation with
        same | ⟨replaced, admits, free, isAccept⟩
      · exact Or.inl ⟨same.1, same.2.marks, fun _ => same.2⟩
      · refine Or.inr (Or.inr ⟨input, replaced, uuid, generation, id, rfl, admits, free, ?_,
          ?_, SendRow.Quiet.refl, ?_⟩)
        · simp only [SendStore.admits, isAccept, newRowOf]
        · simp only [step, apply, isAccept, List.map_id]
        · simp only [step, apply, isAccept, admitted]
    by_cases isRestore : ∃ generation mint now,
        op = .neutralizeRestoredSends generation mint now
    · obtain ⟨generation, mint, now, rfl⟩ := isRestore
      exact Or.inr (Or.inl ⟨generation, mint, now, rfl⟩)
    · refine Or.inl ?_
      have kept : Keeps op → Derived Quiet s (s.step (.send op)) := apply_derived s typed
      cases op with
      | accept input live uuid generation =>
        exact absurd ⟨input, live, uuid, generation, rfl⟩ isAccept
      | neutralizeRestoredSends generation mint now =>
        exact absurd ⟨generation, mint, now, rfl⟩ isRestore
      | markDispatched seq now =>
        exact ⟨rfl, Derived.orElse (Derived.refl s).marks fun _ done =>
          markDispatched_derived done, fun quiet => absurd trivial quiet⟩
      | markDispatchedMany seqs now =>
        exact ⟨rfl, Derived.orElse (Derived.refl s).marks fun _ done =>
          markDispatchedMany_derived now seqs done, fun quiet => absurd trivial quiet⟩
      | _ => exact ⟨rfl, (kept trivial).marks, fun _ => kept trivial⟩
  | retire seq => exact Or.inl ⟨rfl, (retire_derived s seq).marks,
      fun _ => retire_derived s seq⟩
  | acceptTypedStop input live uuid generation token =>
    rcases accept_frame s input.typedStop live uuid generation with
      ⟨notNew, derived⟩ | ⟨replaced, admits, free, isAccept⟩
    · refine Or.inl ?_
      have unfolded : s.acceptTypedStop input live uuid generation token =
          s.accept input.typedStop live uuid generation := by
        unfold acceptTypedStop
        generalize s.accept input.typedStop live uuid generation = result at notNew
        match result with
        | (_, .error _) => rfl
        | (_, .ok ⟨.new, _⟩) => cases notNew
        | (_, .ok ⟨.existing, _⟩) => rfl
        | (_, .ok ⟨.conflict, _⟩) => rfl
      simp only [SendStore.admits, step, unfolded]
      exact ⟨notNew, derived.marks, fun _ => derived⟩
    · have unfolded : s.acceptTypedStop input live uuid generation token =
          ((s.admitted input.typedStop replaced uuid generation).markStopped input.threadId
            token, .ok ⟨.new, s.admittedRow input.typedStop replaced uuid generation⟩) := by
        unfold acceptTypedStop
        rw [isAccept]
      refine Or.inr (Or.inr ⟨input.typedStop, replaced, uuid, generation, _, rfl, admits, free, ?_,
        ?_, markStopped_quiet input.threadId token, ?_⟩)
      · simp only [SendStore.admits, unfolded, newRowOf]
      · simp only [step, unfolded]
        rfl
      · simp only [step, unfolded]
        rfl
  | purgeOrphans deleted => exact Or.inl ⟨rfl, (purgeOrphans_derived s deleted).marks,
      fun _ => purgeOrphans_derived s deleted⟩
  | deleteThread threadId => exact Or.inl ⟨rfl, (deleteThread_derived s threadId).marks,
      fun _ => deleteThread_derived s threadId⟩

end SendStore

end Murage.OwnerSends
