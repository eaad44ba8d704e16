import Murage.Library.Transition
import Murage.OwnerSends.Model

/-!
Owns what the store keeps of an accepted message: its words stay in its row or in a
committed line that the row names, in every run in which no accept puts another row in
the place of the one it replaces.

Does not own: what a message's state tells the person.
-/

namespace Murage.OwnerSends

open Murage.Library
open Murage.Library.Transition

namespace SendRow

/-- A row whose change touches neither its message, its words nor its line. -/
structure SameWords (row row' : SendRow) : Prop where
  seq : row'.seq = row.seq
  message : row'.message = row.message
  threadId : row'.threadId = row.threadId
  sendId : row'.sendId = row.sendId
  fingerprint : row'.fingerprint = row.fingerprint
  text : row'.text = row.text
  messageId : row'.messageId = row.messageId

namespace SameWords

variable {row row' row'' : SendRow}

theorem refl (row : SendRow) : row.SameWords row := ⟨rfl, rfl, rfl, rfl, rfl, rfl, rfl⟩

theorem trans (first : row.SameWords row') (second : row'.SameWords row'') :
    row.SameWords row'' :=
  ⟨second.seq.trans first.seq, second.message.trans first.message,
    second.threadId.trans first.threadId, second.sendId.trans first.sendId,
    second.fingerprint.trans first.fingerprint, second.text.trans first.text,
    second.messageId.trans first.messageId⟩

end SameWords

theorem mintStopToken_same (row : SendRow) (mint : Nat → String) :
    row.SameWords (row.mintStopToken mint) := by
  unfold mintStopToken
  split_ifs <;> constructor <;> rfl

theorem scrubbed_fields (row : SendRow) :
    row.scrubbed.seq = row.seq ∧ row.scrubbed.message = row.message := by
  unfold scrubbed
  split_ifs <;> exact ⟨rfl, rfl⟩

end SendRow

namespace SendStore

theorem heldStopped_same (now : Int) (row : SendRow) : row.SameWords (heldStopped now row) := by
  unfold heldStopped
  split_ifs <;> constructor <;> rfl

theorem requeued_same (now : Int) (row : SendRow) : row.SameWords (requeued now row) := by
  unfold requeued
  split_ifs <;> constructor <;> rfl

theorem neutralized_same (generation : String) (now : Int) (row : SendRow) :
    row.SameWords (neutralized generation now row) := by
  unfold neutralized
  dsimp only
  split_ifs <;> constructor <;> rfl

/-- What operations never take back. -/
structure Grows (s s' : SendStore) : Prop where
  accepted : ∀ (m : Nat) (message : Message), s.accepted[m]? = some message →
    s'.accepted[m]? = some message
  lines : ∀ (id words : String), s.lines.get id = some words → s'.lines.get id = some words
  cancelled : s.cancelled ⊆ s'.cancelled

namespace Grows

variable {s s' s'' : SendStore}

theorem of_same (accepted : s'.accepted = s.accepted) (lines : s'.lines = s.lines)
    (cancelled : s'.cancelled = s.cancelled) : Grows s s' where
  accepted := fun _ _ isMessage => accepted ▸ isMessage
  lines := fun _ _ isLine => lines ▸ isLine
  cancelled := cancelled ▸ Finset.Subset.refl _

end Grows

theorem get_set_of_absent {lines : OrderedMap String String} {lineId words id held : String}
    (absent : lineId ∉ lines.keys) (isLine : lines.get id = some held) :
    (lines.set lineId words).get id = some held := by
  have differs : id ≠ lineId := by
    intro same
    rw [same, (lines.get_eq_none_iff lineId).mpr absent] at isLine
    cases isLine
  rw [OrderedMap.get_set, if_neg differs]
  exact isLine

/-! ## Rows -/

structure RowKept (s : SendStore) (row : SendRow) (message : Message) : Prop where
  accepted : s.accepted[row.message]? = some message
  threadId : row.threadId = message.threadId
  sendId : row.sendId = message.sendId
  fingerprint : row.fingerprint = message.fingerprint
  text : row.text = "" ∨ row.text = message.text
  line : ∀ id, row.messageId = some id → s.lines.get id = some message.text
  blank : message.text ≠ "" → row.message ∉ s.cancelled → row.text = "" → row.messageId.isSome

/-- A change of a row of `message` that loses no words. -/
structure Change (lines : OrderedMap String String) (cancelled : Finset Nat) (message : Message)
    (row row' : SendRow) : Prop where
  isOf : row'.message = row.message
  threadId : row'.threadId = row.threadId
  sendId : row'.sendId = row.sendId
  fingerprint : row'.fingerprint = row.fingerprint
  text : row'.text = "" ∨ row'.text = row.text ∨ row'.text = message.text
  line : ∀ id, row'.messageId = some id → row.messageId = some id ∨
    lines.get id = some message.text
  blank : row'.text = "" → (row.text = "" ∧ (row.messageId.isSome → row'.messageId.isSome)) ∨
    row'.messageId.isSome ∨ row.message ∈ cancelled

section Changes

variable {s s' : SendStore} {row row' : SendRow} {message : Message}
  {lines : OrderedMap String String} {cancelled : Finset Nat}

theorem RowKept.change (kept : s.RowKept row message) (grows : Grows s s')
    (change : Change s'.lines s'.cancelled message row row') : s'.RowKept row' message where
  accepted := change.isOf ▸ grows.accepted _ _ kept.accepted
  threadId := change.threadId.trans kept.threadId
  sendId := change.sendId.trans kept.sendId
  fingerprint := change.fingerprint.trans kept.fingerprint
  text := by
    rcases change.text with blank | same | whole
    · exact Or.inl blank
    · exact same ▸ kept.text
    · exact Or.inr whole
  line := fun id isLine => by
    rcases change.line id isLine with before | after
    · exact grows.lines id _ (kept.line id before)
    · exact after
  blank := fun worded notCancelled blank => by
    rw [change.isOf] at notCancelled
    rcases change.blank blank with ⟨before, named⟩ | named | cancelled
    · exact named (kept.blank worded (fun isIn => notCancelled (grows.cancelled isIn)) before)
    · exact named
    · exact absurd cancelled notCancelled

theorem Change.of_same (same : row.SameWords row') : Change lines cancelled message row row' where
  isOf := same.message
  threadId := same.threadId
  sendId := same.sendId
  fingerprint := same.fingerprint
  text := Or.inr (Or.inl same.text)
  line := fun _ isLine => Or.inl (same.messageId ▸ isLine)
  blank := fun blank => Or.inl ⟨same.text ▸ blank, fun named => same.messageId ▸ named⟩

theorem Change.touch (change : Change lines cancelled message row row') (now : Int) :
    Change lines cancelled message row { row' with updatedAt := now } :=
  ⟨change.isOf, change.threadId, change.sendId, change.fingerprint, change.text, change.line,
    change.blank⟩

theorem Change.refl (message : Message) (row : SendRow) :
    Change lines cancelled message row row :=
  Change.of_same (SendRow.SameWords.refl row)

theorem scrubbed_change : Change lines cancelled message row row.scrubbed := by
  unfold SendRow.scrubbed
  split_ifs with lined
  · have named : row.messageId.isSome := (Bool.and_eq_true_iff.mp lined).2
    exact ⟨rfl, rfl, rfl, rfl, Or.inl rfl, fun _ isLine => Or.inl isLine,
      fun _ => Or.inr (Or.inl named)⟩
  · exact Change.refl message row

/-- The outcomes a row takes without its owner. -/
def Outcome (status : SendStatus) : Prop :=
  status = .started ∨ status = .delivered ∨ status = .unconfirmed ∨ status = .failed ∨
    status = .refused

variable {status : SendStatus}

theorem settledRow_change {messageId notice : Option String} (outcome : Outcome status)
    (lined : status = .started ∨ status = .delivered → (given messageId).isSome)
    (isLine : ∀ id, messageId = some id → lines.get id = some message.text) :
    Change lines cancelled message row (settledRow status messageId notice row) where
  isOf := rfl
  threadId := rfl
  sendId := rfl
  fingerprint := rfl
  text := by
    unfold settledRow
    dsimp only
    split_ifs
    · exact Or.inr (Or.inl rfl)
    · exact Or.inl rfl
  line := fun id isNamed => by
    cases messageId with
    | none => exact Or.inl isNamed
    | some held =>
      obtain rfl : held = id := Option.some.inj isNamed
      exact Or.inr (isLine held rfl)
  blank := fun blank => by
    have named : ∀ held, messageId = some held →
        (settledRow status messageId notice row).messageId.isSome := by
      rintro held rfl
      rfl
    have given_some : (given messageId).isSome →
        (settledRow status messageId notice row).messageId.isSome := by
      cases messageId with
      | none => exact fun present => absurd present (by simp [given])
      | some held => exact fun _ => named held rfl
    cases isGiven : (given messageId).isSome with
    | true => exact Or.inr (Or.inl (given_some isGiven))
    | false =>
      -- Without a line the outcome holds the words.
      have holds : (status == .refused || status == .unconfirmed ||
          (status == .failed && (given messageId).isNone)) = true := by
        have absent : (given messageId).isNone = true := by simpa using isGiven
        rcases outcome with rfl | rfl | rfl | rfl | rfl
        · rw [lined (Or.inl rfl)] at isGiven
          cases isGiven
        · rw [lined (Or.inr rfl)] at isGiven
          cases isGiven
        · rfl
        · simp [absent]
        · rfl
      have still : row.text = "" := by
        unfold settledRow at blank
        simpa only [holds, if_true] using blank
      refine Or.inl ⟨still, fun wasNamed => ?_⟩
      cases messageId with
      | none => exact wasNamed
      | some held => rfl

end Changes

/-! ## Stores -/

/-- Every row is kept, and a message without a row has its line. -/
structure Kept (s : SendStore) : Prop where
  rows : ∀ row ∈ s.rows, ∃ message, s.RowKept row message
  gone : ∀ (m : Nat) (message : Message), s.accepted[m]? = some message → message.text ≠ "" → m ∉ s.cancelled →
    (∃ row ∈ s.rows, row.message = m) ∨ ∃ id, s.lines.get id = some message.text
  single : (s.rows.map (·.message)).Nodup
  seqs : (s.rows.map (·.seq)).Nodup

variable {s s' : SendStore}

theorem Kept.row_eq (kept : s.Kept) {row other : SendRow} (isIn : row ∈ s.rows)
    (memberOther : other ∈ s.rows) (same : row.seq = other.seq) : row = other :=
  List.inj_on_of_nodup_map kept.seqs isIn memberOther same

/-- **Row rule.** What changes rows one by one and loses the words of none keeps the
store. -/
theorem Kept.changeRows (kept : s.Kept) {change : SendRow → SendRow} (grows : Grows s s')
    (accepted : s'.accepted = s.accepted) (rows : s'.rows = s.rows.map change)
    (seqs : ∀ row, (change row).seq = row.seq)
    (messages : ∀ row, (change row).message = row.message)
    (changes : ∀ row ∈ s.rows, ∀ message, s.RowKept row message →
      Change s'.lines s'.cancelled message row (change row)) : s'.Kept where
  rows := fun row isIn => by
    rw [rows] at isIn
    obtain ⟨before, isBefore, rfl⟩ := List.mem_map.mp isIn
    obtain ⟨message, rowKept⟩ := kept.rows before isBefore
    exact ⟨message, rowKept.change grows (changes before isBefore message rowKept)⟩
  gone := fun m message isMessage worded notCancelled => by
    rw [accepted] at isMessage
    rcases kept.gone m message isMessage worded (fun isIn => notCancelled
      (grows.cancelled isIn)) with ⟨row, isIn, isRow⟩ | ⟨id, isLine⟩
    · refine Or.inl ⟨change row, ?_, (messages row).trans isRow⟩
      rw [rows]
      exact List.mem_map_of_mem isIn
    · exact Or.inr ⟨id, grows.lines id _ isLine⟩
  single := by
    have same : (s.rows.map change).map (·.message) = s.rows.map (·.message) := by
      rw [List.map_map]
      exact List.map_congr_left fun row _ => messages row
    rw [rows, same]
    exact kept.single
  seqs := by
    have same : (s.rows.map change).map (·.seq) = s.rows.map (·.seq) := by
      rw [List.map_map]
      exact List.map_congr_left fun row _ => seqs row
    rw [rows, same]
    exact kept.seqs

theorem Kept.of_same (kept : s.Kept) (rows : s'.rows = s.rows) (lines : s'.lines = s.lines)
    (accepted : s'.accepted = s.accepted) (cancelled : s'.cancelled = s.cancelled) : s'.Kept :=
  kept.changeRows (Grows.of_same accepted lines cancelled) accepted (by rw [rows, List.map_id'])
    (fun _ => rfl) (fun _ => rfl) fun row _ message _ => Change.refl message row

theorem Kept.updateWhere (kept : s.Kept) {matching : SendRow → Bool} {set : SendRow → SendRow}
    (seqs : ∀ row, (set row).seq = row.seq) (messages : ∀ row, (set row).message = row.message)
    (changes : ∀ row ∈ s.rows, matching row = true → ∀ message, s.RowKept row message →
      Change s.lines s.cancelled message row (set row)) : (s.updateWhere matching set).Kept := by
  refine kept.changeRows (Grows.of_same rfl rfl rfl) rfl rfl (fun row => ?_) (fun row => ?_)
    fun row isIn message rowKept => ?_
  · split_ifs
    · exact seqs row
    · rfl
  · split_ifs
    · exact messages row
    · rfl
  · split_ifs with matches_
    · exact changes row isIn matches_ message rowKept
    · exact Change.refl message row

theorem Kept.sameRows (kept : s.Kept) {change : SendRow → SendRow}
    (accepted : s'.accepted = s.accepted) (lines : s'.lines = s.lines)
    (cancelled : s'.cancelled = s.cancelled) (rows : s'.rows = s.rows.map change)
    (same : ∀ row : SendRow, row.SameWords (change row)) : s'.Kept :=
  kept.changeRows (Grows.of_same accepted lines cancelled) accepted rows
    (fun row => (same row).seq) (fun row => (same row).message)
    fun row _ _ _ => Change.of_same (same row)

theorem updateOne_cases (matching : SendRow → Bool) (set : SendRow → SendRow)
    (error : StoreError) :
    s.updateOne matching set error = .error error ∨
      s.updateOne matching set error = .ok (s.updateWhere matching set) := by
  unfold updateOne
  split_ifs
  · exact Or.inr rfl
  · exact Or.inl rfl

theorem Kept.updateSame (kept : s.Kept) {matching : SendRow → Bool} {set : SendRow → SendRow}
    (same : ∀ row : SendRow, row.SameWords (set row)) : (s.updateWhere matching set).Kept :=
  kept.updateWhere (fun row => (same row).seq) (fun row => (same row).message)
    fun row _ _ _ _ => Change.of_same (same row)

theorem Kept.updateOne (kept : s.Kept) {matching : SendRow → Bool} {set : SendRow → SendRow}
    {error : StoreError} {after : SendStore} (done : s.updateOne matching set error = .ok after)
    (same : ∀ row : SendRow, row.SameWords (set row)) : after.Kept := by
  rcases updateOne_cases matching set error with failed | updated
  · rw [failed] at done
    cases done
  · rw [updated] at done
    cases done
    exact kept.updateSame same

theorem Kept.orElse (kept : s.Kept) {result : Except StoreError SendStore}
    (done : ∀ after, result = .ok after → after.Kept) : (orElse result s).Kept := by
  cases result with
  | error _ => exact kept
  | ok after => exact done after rfl

theorem Kept.withoutLate (kept : s.Kept) (lateOpen : Finset Nat) :
    Kept { s with lateOpen := lateOpen } :=
  kept.of_same rfl rfl rfl rfl

theorem map_eq_ok {α β : Type} {result : Except StoreError α} {f : α → β} {value : β}
    (done : result.map f = .ok value) : ∃ before, result = .ok before ∧ f before = value := by
  cases result with
  | error _ => cases done
  | ok before => exact ⟨before, rfl, Except.ok.inj done⟩

/-! ## Operations on rows -/

theorem markDispatched_kept (kept : s.Kept) (seq : Nat) (now : Int) :
    (orElse (s.markDispatched seq now) s).Kept :=
  kept.orElse fun _ done =>
    kept.updateOne done fun _ => ⟨rfl, rfl, rfl, rfl, rfl, rfl, rfl⟩

theorem markDispatchedMany_kept (kept : s.Kept) (now : Int) (seqs : List Nat) :
    (orElse (markDispatchedMany now seqs s) s).Kept := by
  refine kept.orElse fun after done => ?_
  induction seqs generalizing s with
  | nil =>
    cases done
    exact kept
  | cons seq rest ih =>
    unfold markDispatchedMany at done
    cases first : s.updateOne (fun r => r.seq == seq && r.status == .queued)
      (fun r => { r with status := .dispatched, dispatched := true, updatedAt := now })
      .notWaiting with
    | error error =>
      rw [first] at done
      cases done
    | ok marked =>
      rw [first] at done
      exact ih
        (kept.updateOne first fun _ => ⟨rfl, rfl, rfl, rfl, rfl, rfl, rfl⟩) done

theorem queue_kept (kept : s.Kept) (seq : Nat) (existingMessageId prompt : Option String)
    (now : Int) : (orElse (s.queue seq existingMessageId prompt now) s).Kept := by
  refine kept.orElse fun after done => ?_
  obtain ⟨queued, updated, rfl⟩ := map_eq_ok done
  exact (kept.updateOne updated fun _ => ⟨rfl, rfl, rfl, rfl, rfl, rfl, rfl⟩).withoutLate _

def wordsOf (s : SendStore) (row : SendRow) : Option String :=
  s.accepted[row.message]?.map (·.text)

theorem RowKept.wordsOf {row : SendRow} {message : Message} (kept : s.RowKept row message) :
    s.wordsOf row = some message.text := by
  unfold SendStore.wordsOf
  rw [kept.accepted]
  rfl

theorem requeueStarted_kept (kept : s.Kept) (seq : Nat) (messageId text : String)
    (prompt : Option String) (now : Int)
    (fromLine : ∀ row ∈ s.rows, row.seq = seq → row.messageId = some messageId ∧
      s.lines.get messageId = some text) :
    (orElse (s.requeueStarted seq messageId text prompt now) s).Kept := by
  refine kept.orElse fun after done => ?_
  obtain ⟨queued, updated, rfl⟩ := map_eq_ok done
  rcases updateOne_cases _ _ _ with failed | isUpdate
  · rw [failed] at updated
    cases updated
  · rw [isUpdate] at updated
    cases updated
    refine Kept.withoutLate (kept.updateWhere ?_ ?_ ?_) _
    · exact fun _ => rfl
    · exact fun _ => rfl
    · intro row isIn matched message rowKept
      have isSeq : row.seq = seq := by simpa using (Bool.and_eq_true_iff.mp matched).1
      obtain ⟨isNamed, isLine⟩ := fromLine row isIn isSeq
      have whole : text = message.text :=
        Option.some.inj (isLine.symm.trans (rowKept.line messageId isNamed))
      exact ⟨rfl, rfl, rfl, rfl, Or.inr (Or.inr whole), fun _ still => Or.inl still,
        fun _ => Or.inr (Or.inl (by simp [isNamed]))⟩

/-! ## Outcomes -/

/-- What `settle` sets in the row of `seq`. -/
def settledAt (seq : Nat) (status : SendStatus) (messageId notice : Option String) (now : Int)
    (r : SendRow) : SendRow :=
  if r.seq == seq then { settledRow status messageId notice r with updatedAt := now } else r

theorem settledAt_fields (seq : Nat) (status : SendStatus) (messageId notice : Option String)
    (now : Int) (row : SendRow) :
    (settledAt seq status messageId notice now row).seq = row.seq ∧
      (settledAt seq status messageId notice now row).message = row.message := by
  unfold settledAt
  split_ifs <;> exact ⟨rfl, rfl⟩

theorem settle_eq {seq : Nat} {messageId notice : Option String} {now : Int} {after : SendStore}
    (done : s.settle seq status messageId notice now = .ok after) :
    (status = .started ∨ status = .delivered → (given messageId).isSome) ∧
      ∃ lateOpen, after = { s with
        rows := s.rows.map (settledAt seq status messageId notice now), lateOpen := lateOpen } := by
  unfold settle at done
  by_cases lineless : (status = .started ∨ status = .delivered) ∧ (given messageId).isNone
  · rw [if_pos lineless] at done
    cases done
  by_cases noticeless : status = .refused ∧ (given notice).isNone
  · rw [if_neg lineless, if_pos noticeless] at done
    cases done
  rw [if_neg lineless, if_neg noticeless] at done
  have lined : status = .started ∨ status = .delivered → (given messageId).isSome := by
    intro isLined
    by_contra none
    exact lineless ⟨isLined, by simpa using none⟩
  obtain ⟨updated, isUpdated, rfl⟩ := map_eq_ok done
  refine ⟨lined, ?_⟩
  rcases updateOne_cases (fun r : SendRow => r.seq == seq)
    (fun r => { settledRow status messageId notice r with updatedAt := now }) .gone with
    failed | isUpdate
  · exact absurd (failed.symm.trans isUpdated) (by simp)
  · obtain rfl := Except.ok.inj (isUpdate.symm.trans isUpdated)
    split_ifs
    · exact ⟨s.lateOpen, rfl⟩
    · exact ⟨s.lateOpen.erase seq, rfl⟩

/-- The row of `seq` is one of a message whose words are the line's. -/
def LineHolds (s : SendStore) (seq : Nat) (id : String) : Prop :=
  ∀ row ∈ s.rows, row.seq = seq → s.lines.get id = s.wordsOf row

theorem settle_kept (kept : s.Kept) {seq : Nat}
    {messageId : Option String} (notice : Option String) (now : Int) (outcome : Outcome status)
    (holds : ∀ id, messageId = some id → s.LineHolds seq id) :
    (orElse (s.settle seq status messageId notice now) s).Kept := by
  refine kept.orElse fun after done => ?_
  obtain ⟨lined, lateOpen, rfl⟩ := settle_eq done
  refine kept.changeRows (Grows.of_same rfl rfl rfl) rfl rfl
    (fun row => (settledAt_fields seq status messageId notice now row).1)
    (fun row => (settledAt_fields seq status messageId notice now row).2)
    fun row isIn message rowKept => ?_
  unfold settledAt
  split_ifs with isSeq
  · refine (settledRow_change outcome lined fun id isId => ?_).touch now
    exact (holds id isId row isIn (by simpa using isSeq)).trans rowKept.wordsOf
  · exact Change.refl message row

/-- What `settleWithLine` sets in the row of `seq`: it is settled and then names the line
that exists, in one transaction. -/
def linedAt (seq : Nat) (status : SendStatus) (lineId actual : String) (notice : Option String)
    (now : Int) (r : SendRow) : SendRow :=
  if r.seq == seq then
    { settledRow status (some lineId) notice r with messageId := some actual, updatedAt := now }
  else r

theorem linedAt_fields (seq : Nat) (status : SendStatus) (lineId actual : String)
    (notice : Option String) (now : Int) (row : SendRow) :
    (linedAt seq status lineId actual notice now row).seq = row.seq ∧
      (linedAt seq status lineId actual notice now row).message = row.message := by
  unfold linedAt
  split_ifs <;> exact ⟨rfl, rfl⟩

theorem settleWithLine_cases (s : SendStore) (seq : Nat) (status : SendStatus) (lineId : String)
    (append : Option (String × String)) (notice : Option String) (now : Int) :
    (∃ lateOpen error, s.settleWithLine seq status lineId append notice now =
      ({ s with lateOpen := lateOpen }, .error error)) ∨
    ∃ actual words lateOpen, append = some (actual, words) ∧ actual ∉ s.lines.keys ∧
      s.settleWithLine seq status lineId append notice now =
        ({ s with
          rows := s.rows.map (linedAt seq status lineId actual notice now)
          lateOpen := lateOpen
          lines := s.lines.set actual words }, .ok ()) := by
  unfold settleWithLine
  cases done : s.settle seq status (some lineId) notice now with
  | error error => exact Or.inl ⟨s.lateOpen, error, rfl⟩
  | ok settled =>
    obtain ⟨-, lateOpen, rfl⟩ := settle_eq done
    cases append with
    | none => exact Or.inl ⟨lateOpen, .append, rfl⟩
    | some line =>
      obtain ⟨actual, words⟩ := line
      dsimp only
      split_ifs with isHeld
      · exact Or.inl ⟨lateOpen, .append, rfl⟩
      · refine Or.inr ⟨actual, words, lateOpen, rfl, isHeld, ?_⟩
        have rows : (s.rows.map (settledAt seq status (some lineId) notice now)).map
            (fun r => if r.seq == seq then { r with messageId := some actual } else r) =
            s.rows.map (linedAt seq status lineId actual notice now) := by
          rw [List.map_map]
          refine List.map_congr_left fun row _ => ?_
          have isSeq := (settledAt_fields seq status (some lineId) notice now row).1
          rw [Function.comp_apply, isSeq]
          unfold settledAt linedAt
          split_ifs <;> rfl
        unfold updateWhere
        rw [rows]

theorem settleWithLine_kept (kept : s.Kept) {seq : Nat} (lineId : String)
    {append : Option (String × String)} (notice : Option String) (now : Int)
    (whole : ∀ actual words, append = some (actual, words) →
      ∀ row ∈ s.rows, row.seq = seq → s.wordsOf row = some words) :
    (s.settleWithLine seq status lineId append notice now).1.Kept := by
  rcases settleWithLine_cases s seq status lineId append notice now with
    ⟨lateOpen, error, isResult⟩ | ⟨actual, words, lateOpen, isAppend, absent, isResult⟩
  · rw [isResult]
    exact kept.withoutLate lateOpen
  · rw [isResult]
    refine @Kept.changeRows _ _ kept (linedAt seq status lineId actual notice now)
      ⟨fun _ _ isMessage => isMessage, fun _ _ => get_set_of_absent absent,
        Finset.Subset.refl _⟩ rfl rfl
      (fun row => (linedAt_fields seq status lineId actual notice now row).1)
      (fun row => (linedAt_fields seq status lineId actual notice now row).2)
      fun row isIn message rowKept => ?_
    unfold linedAt
    split_ifs with isSeq
    · have isWords : words = message.text :=
        Option.some.inj
          ((whole actual words isAppend row isIn (by simpa using isSeq)).symm.trans
            rowKept.wordsOf)
      refine ⟨rfl, rfl, rfl, rfl, ?_, fun id isId => Or.inr ?_, fun _ => Or.inr (Or.inl rfl)⟩
      · unfold settledRow
        dsimp only
        split_ifs
        · exact Or.inr (Or.inl rfl)
        · exact Or.inl rfl
      · obtain rfl : actual = id := Option.some.inj isId
        exact isWords ▸ OrderedMap.get_set_self s.lines actual words
    · exact Change.refl message row

/-! ## Late answers and the owner's cancel -/

theorem scrub_kept (kept : s.Kept) (seq : Nat) : (s.scrub seq).Kept :=
  kept.updateWhere (fun row => row.scrubbed_fields.1) (fun row => row.scrubbed_fields.2)
    fun _ _ _ _ _ => scrubbed_change

theorem releaseLateAnswer_kept (kept : s.Kept) (seq : Nat) : (s.releaseLateAnswer seq).Kept :=
  scrub_kept (kept.withoutLate _) seq

theorem releaseThreadLate_kept (kept : s.Kept) (threadId : String) :
    (s.releaseThreadLate threadId).Kept :=
  Kept.withoutLate (kept.updateWhere (fun row => row.scrubbed_fields.1)
    (fun row => row.scrubbed_fields.2) fun _ _ _ _ _ => scrubbed_change) _

theorem setTurnId_kept (kept : s.Kept) (seq : Nat) (turnId : String) :
    (s.setTurnId seq turnId).Kept :=
  kept.updateSame fun _ => ⟨rfl, rfl, rfl, rfl, rfl, rfl, rfl⟩

theorem markStopped_kept (kept : s.Kept) (threadId token : String) :
    (s.markStopped threadId token).Kept :=
  kept.updateSame fun _ => ⟨rfl, rfl, rfl, rfl, rfl, rfl, rfl⟩

theorem refuse_kept (kept : s.Kept) (seq : Nat) (notice : Option String) (now : Int) :
    (orElse (s.refuse seq notice now) s).Kept :=
  settle_kept kept _ now (Or.inr (Or.inr (Or.inr (Or.inr rfl)))) (fun _ none => by cases none)

theorem cancel_kept (kept : s.Kept) (ownerId queueId : String) (now : Int) :
    (s.cancel ownerId queueId now).Kept := by
  unfold cancel
  cases found : s.rows.find? fun r => r.ownerId == ownerId && r.queueId == queueId with
  | none => exact kept
  | some row =>
    dsimp only
    split_ifs with waits
    · exact kept
    · have isRow : row ∈ s.rows := List.mem_of_find?_eq_some found
      have more : s.cancelled ⊆ insert row.message s.cancelled := Finset.subset_insert _ _
      cases done : s.settle row.seq .cancelled none none now with
      | error error =>
        exact @Kept.changeRows _ _ kept id ⟨fun _ _ isMessage => isMessage,
          fun _ _ isLine => isLine, more⟩ rfl (List.map_id _).symm (fun _ => rfl)
          (fun _ => rfl) fun row _ message _ => Change.refl message row
      | ok after =>
        obtain ⟨-, lateOpen, rfl⟩ := settle_eq done
        refine @Kept.changeRows _ _ kept (settledAt row.seq .cancelled none none now)
          ⟨fun _ _ isMessage => isMessage, fun _ _ isLine => isLine, more⟩ rfl rfl
          (fun other => (settledAt_fields _ _ _ _ _ other).1)
          (fun other => (settledAt_fields _ _ _ _ _ other).2)
          fun other isIn message _ => ?_
        unfold settledAt
        split_ifs with isSeq
        · obtain rfl := kept.row_eq isIn isRow (by simpa using isSeq)
          exact ⟨rfl, rfl, rfl, rfl, Or.inl rfl, fun _ isLine => Or.inl isLine,
            fun _ => Or.inr (Or.inr (Finset.mem_insert_self _ _))⟩
        · exact Change.refl message other

/-! ## Startup and restores -/

theorem recover_kept (kept : s.Kept) (mint : Nat → String) (now : Int) :
    (s.recover mint now).1.Kept := by
  refine @Kept.sameRows _ _ kept
    (fun row => requeued now (heldStopped now (row.mintStopToken mint))) rfl rfl rfl ?_
    fun row => ?_
  · simp only [recover, List.map_map, Function.comp_def]
  · exact ((row.mintStopToken_same mint).trans (heldStopped_same now _)).trans (requeued_same now _)

theorem neutralizeRestoredSends_kept (kept : s.Kept) (generation : String) (mint : Nat → String)
    (now : Int) : (s.neutralizeRestoredSends generation mint now).Kept :=
  kept.sameRows rfl rfl rfl rfl fun row =>
    (row.mintStopToken_same mint).trans (neutralized_same generation now _)

end SendStore

end Murage.OwnerSends
