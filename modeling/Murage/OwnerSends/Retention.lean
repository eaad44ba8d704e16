import Murage.OwnerSends.Words

/-!
Owns the runs of the store: that every accepted message keeps its words through any
operations and any crash between their transactions, and the accept that loses them.

Does not own: which sends run, and in what order.
-/

namespace Murage.OwnerSends

open Murage.Library
open Murage.Library.Transition

namespace SendStore

variable {s s' : SendStore}

/-! ## Unresolved rows -/

/-- What one row of `completeUnresolved` leaves as it was for the others. -/
structure Carries (s s' : SendStore) : Prop where
  accepted : s'.accepted = s.accepted
  lines : ∀ (id words : String), s.lines.get id = some words → s'.lines.get id = some words
  keys : s'.rows.map (fun r => (r.seq, r.message)) = s.rows.map fun r => (r.seq, r.message)

theorem Carries.refl (s : SendStore) : Carries s s := ⟨rfl, fun _ _ isLine => isLine, rfl⟩

theorem Carries.trans {s'' : SendStore} (first : Carries s s') (second : Carries s' s'') :
    Carries s s'' :=
  ⟨second.accepted.trans first.accepted,
    fun id words isLine => second.lines id words (first.lines id words isLine),
    second.keys.trans first.keys⟩

theorem Carries.changeRows {change : SendRow → SendRow}
    (lines : ∀ (id words : String), s.lines.get id = some words → s'.lines.get id = some words)
    (accepted : s'.accepted = s.accepted) (rows : s'.rows = s.rows.map change)
    (fields : ∀ row, (change row).seq = row.seq ∧ (change row).message = row.message) :
    Carries s s' where
  accepted := accepted
  lines := lines
  keys := by
    rw [rows, List.map_map]
    refine List.map_congr_left fun row _ => ?_
    rw [Function.comp_apply, (fields row).1, (fields row).2]

theorem scrub_carries (s : SendStore) (seq : Nat) : Carries s (s.scrub seq) := by
  refine Carries.changeRows (fun _ _ isLine => isLine) rfl rfl fun row => ?_
  split_ifs
  · exact row.scrubbed_fields
  · exact ⟨rfl, rfl⟩

theorem settle_carries (s : SendStore) (seq : Nat) (status : SendStatus)
    (messageId notice : Option String) (now : Int) :
    Carries s (orElse (s.settle seq status messageId notice now) s) := by
  cases done : s.settle seq status messageId notice now with
  | error _ => exact Carries.refl s
  | ok after =>
    obtain ⟨-, lateOpen, rfl⟩ := settle_eq done
    exact Carries.changeRows (fun _ _ isLine => isLine) rfl rfl
      (settledAt_fields seq status messageId notice now)

theorem settleWithLine_carries (s : SendStore) (seq : Nat) (status : SendStatus) (lineId : String)
    (append : Option (String × String)) (notice : Option String) (now : Int) :
    Carries s (s.settleWithLine seq status lineId append notice now).1 := by
  rcases settleWithLine_cases s seq status lineId append notice now with
    ⟨lateOpen, error, isResult⟩ | ⟨actual, words, lateOpen, -, absent, isResult⟩
  · rw [isResult]
    exact ⟨rfl, fun _ _ isLine => isLine, rfl⟩
  · rw [isResult]
    exact Carries.changeRows (fun _ _ => get_set_of_absent absent) rfl rfl
      (linedAt_fields seq status lineId actual notice now)

/-- The row that `recover` returned is still the store's, and what is said of it is true. -/
structure Unresolved.Of (s : SendStore) (item : Unresolved) : Prop where
  row : (item.row.seq, item.row.message) ∈ s.rows.map fun r => (r.seq, r.message)
  words : item.row.text ≠ "" → s.wordsOf item.row = some item.row.text
  landed : ∀ id, item.landed = some id → s.lines.get id = s.wordsOf item.row ∧
    (s.wordsOf item.row).isSome

theorem Unresolved.Of.carried {item : Unresolved} (isOf : item.Of s) (carries : Carries s s') :
    item.Of s' := by
  have same : s'.wordsOf item.row = s.wordsOf item.row := by
    unfold wordsOf
    rw [carries.accepted]
  refine ⟨carries.keys ▸ isOf.row, fun worded => same ▸ isOf.words worded, fun id isLanded => ?_⟩
  rw [same]
  obtain ⟨isLine, known⟩ := isOf.landed id isLanded
  obtain ⟨words, isWords⟩ := Option.isSome_iff_exists.mp known
  exact ⟨(carries.lines id words (isLine.trans isWords)).trans isWords.symm, known⟩

variable {row : SendRow}

theorem Unresolved.Of.wordsOf_eq {item : Unresolved} (isOf : item.Of s) (kept : s.Kept)
    (member : row ∈ s.rows) (isSeq : row.seq = item.row.seq) :
    s.wordsOf row = s.wordsOf item.row := by
  obtain ⟨own, isOwn, fields⟩ := List.mem_map.mp isOf.row
  obtain ⟨ownSeq, ownMessage⟩ := Prod.mk.injEq _ _ _ _ ▸ fields
  obtain rfl := kept.row_eq member isOwn (isSeq.trans ownSeq.symm)
  unfold wordsOf
  rw [ownMessage]

theorem completeRow_carries (now : Int) (s : SendStore) (item : Unresolved) :
    Carries s (completeRow now s item) := by
  unfold completeRow
  cases item.landed with
  | some landed =>
    dsimp only
    split_ifs
    · exact settle_carries s _ _ _ _ now
    · exact scrub_carries s _
  | none =>
    dsimp only
    by_cases wordless : item.row.text = ""
    · rw [if_pos wordless]
      exact Carries.refl s
    · rw [if_neg wordless]
      have written := settleWithLine_carries s item.row.seq .unconfirmed item.lineId
        (if item.throws then none else some (item.lineId, item.row.text)) (some "notConfirmed")
        now
      split
      next after isResult =>
        rw [isResult] at written
        exact written.trans (scrub_carries after _)
      next after error isResult =>
        rw [isResult] at written
        exact written

theorem completeRow_kept (kept : s.Kept) (now : Int) {item : Unresolved} (isOf : item.Of s) :
    (completeRow now s item).Kept := by
  unfold completeRow
  cases isLanded : item.landed with
  | some landed =>
    dsimp only
    split_ifs
    · refine settle_kept kept none now (Or.inl rfl) fun id isId row member isSeq => ?_
      obtain rfl : landed = id := Option.some.inj isId
      exact (isOf.landed landed isLanded).1.trans (isOf.wordsOf_eq kept member isSeq).symm
    · exact scrub_kept kept _
  | none =>
    dsimp only
    by_cases wordless : item.row.text = ""
    · rw [if_pos wordless]
      exact kept
    · rw [if_neg wordless]
      have written : (s.settleWithLine item.row.seq .unconfirmed item.lineId
          (if item.throws then none else some (item.lineId, item.row.text))
          (some "notConfirmed") now).1.Kept := by
        refine settleWithLine_kept kept item.lineId _ now
          fun actual words isAppend row member isSeq => ?_
        split_ifs at isAppend
        cases isAppend
        exact (isOf.wordsOf_eq kept member isSeq).trans (isOf.words wordless)
      split
      next after isResult =>
        rw [isResult] at written
        exact scrub_kept written _
      next after error isResult =>
        rw [isResult] at written
        exact written

theorem completeUnresolved_kept (kept : s.Kept) {items : List Unresolved} (now : Int)
    (areOf : ∀ item ∈ items, item.Of s) : (s.completeUnresolved items now).Kept := by
  unfold completeUnresolved
  induction items generalizing s with
  | nil => exact kept
  | cons item rest ih =>
    rw [List.foldl_cons]
    refine ih (completeRow_kept kept now (areOf item (by simp)))
      fun other member => ?_
    exact (areOf other (List.mem_cons_of_mem _ member)).carried (completeRow_carries now s item)

/-! ## Pruning -/

theorem RowKept.of_same {message : Message} (kept : s.RowKept row message)
    (accepted : ∀ (m : Nat) (message : Message), s.accepted[m]? = some message →
      s'.accepted[m]? = some message)
    (lines : s'.lines = s.lines) (cancelled : s'.cancelled = s.cancelled) :
    s'.RowKept row message where
  accepted := accepted _ _ kept.accepted
  threadId := kept.threadId
  sendId := kept.sendId
  fingerprint := kept.fingerprint
  text := kept.text
  line := fun id isNamed => lines ▸ kept.line id isNamed
  blank := fun worded notCancelled => kept.blank worded (cancelled ▸ notCancelled)

theorem oldest_subset {rows : List SendRow} {batch seq : Nat} (member : seq ∈ oldest rows batch) :
    ∃ row ∈ rows, row.seq = seq := by
  obtain ⟨row, taken, isSeq⟩ := List.mem_map.mp member
  exact ⟨row, List.mem_mergeSort.mp (List.mem_of_mem_take taken), isSeq⟩

theorem pruneBatch_kept (kept : s.Kept) (older : SendRow → Bool) (batch : Nat) :
    (s.pruneBatch older batch).Kept where
  rows := fun row member => by
    obtain ⟨message, rowKept⟩ := kept.rows row (List.mem_of_mem_filter member)
    exact ⟨message, rowKept.of_same (fun _ _ isMessage => isMessage) rfl rfl⟩
  gone := fun m message isMessage worded notCancelled => by
    rcases kept.gone m message isMessage worded notCancelled with ⟨row, member, isRow⟩ | isLined
    · by_cases doomed : row.seq ∈ oldest
          (s.rows.filter fun r => r.PRUNABLE && older r && r.seq ∉ s.lateOpen) batch
      · obtain ⟨other, chosen, sameSeq⟩ := oldest_subset doomed
        obtain ⟨isOther, chosen⟩ := List.mem_filter.mp chosen
        obtain rfl := kept.row_eq member isOther sameSeq.symm
        obtain ⟨own, rowKept⟩ := kept.rows row member
        obtain rfl : own = message :=
          Option.some.inj ((isRow ▸ rowKept.accepted).symm.trans isMessage)
        have wordless : row.text = "" := by
          simp only [SendRow.PRUNABLE, Bool.and_eq_true, beq_iff_eq] at chosen
          exact chosen.1.1.2
        obtain ⟨id, isNamed⟩ := Option.isSome_iff_exists.mp
          (rowKept.blank worded (isRow ▸ notCancelled) wordless)
        exact Or.inr ⟨id, rowKept.line id isNamed⟩
      · exact Or.inl ⟨row, List.mem_filter.mpr ⟨member, by simpa using doomed⟩, isRow⟩
    · exact Or.inr isLined
  single := kept.single.sublist (List.filter_sublist.map _)
  seqs := kept.seqs.sublist (List.filter_sublist.map _)

/-! ## Acceptance -/

theorem lt_nextSeq {rows : List SendRow} (member : row ∈ rows) :
    row.seq < nextSeq rows := by
  have bound : ∀ numbers : List Nat, ∀ n ∈ numbers, n ≤ numbers.foldr max 0 := by
    intro numbers
    induction numbers with
    | nil => simp
    | cons head tail ih =>
      intro n isIn
      rw [List.foldr_cons]
      rcases List.mem_cons.mp isIn with rfl | isIn
      · exact Nat.le_max_left _ _
      · exact (ih n isIn).trans (Nat.le_max_right _ _)
  exact Nat.lt_succ_of_le (bound _ _ (List.mem_map_of_mem member))

theorem prior_eq {input : AcceptInput} {prior : SendRow} (isPrior : s.prior input = some prior) :
    prior ∈ s.rows ∧ prior.threadId = input.threadId ∧ prior.sendId = input.sendId ∧
      (given input.sendId).isSome := by
  unfold SendStore.prior at isPrior
  obtain ⟨sendId, isGiven, found⟩ := Option.bind_eq_some_iff.mp isPrior
  have isSend : input.sendId = some sendId := (Option.filter_eq_some_iff.mp isGiven).1
  have matched := List.find?_some found
  rw [Bool.and_eq_true, beq_iff_eq, beq_iff_eq] at matched
  exact ⟨List.mem_of_find?_eq_some found, matched.1, matched.2.trans isSend.symm,
    isGiven ▸ rfl⟩

theorem admission_answers {input : AcceptInput} {prior : SendRow} {kind : AcceptKind}
    (answered : s.admission input prior = .answers kind) : kind ≠ .new := by
  unfold admission at answered
  split_ifs at answered <;> cases answered <;> simp

/-- What `accept` does: it leaves the store without a new row, or admits, with or without
a row to replace. -/
theorem accept_cases (s : SendStore) (input : AcceptInput) (live : Bool)
    (uuid generation : String) :
    (∃ result, s.accept input live uuid generation = (s, result) ∧
      ∀ row, result ≠ .ok ⟨.new, row⟩) ∨
    (s.prior input = none ∧
      s.accept input live uuid generation = s.enroll input none uuid generation) ∨
    ∃ prior, s.prior input = some prior ∧ s.admission input prior = .replaces ∧
      s.accept input live uuid generation = s.enroll input (some prior) uuid generation := by
  unfold accept
  split_ifs
  · exact Or.inl ⟨_, rfl, by simp⟩
  · exact Or.inl ⟨_, rfl, by simp⟩
  · cases isPrior : s.prior input with
    | none => exact Or.inr (Or.inl ⟨rfl, rfl⟩)
    | some prior =>
      dsimp only
      cases admitted : s.admission input prior with
      | throws error => exact Or.inl ⟨_, rfl, by simp⟩
      | answers kind =>
        refine Or.inl ⟨_, rfl, fun row same => ?_⟩
        exact admission_answers admitted (AcceptResult.mk.inj (Except.ok.inj same)).1
      | replaces => exact Or.inr (Or.inr ⟨prior, rfl, admitted, rfl⟩)

theorem admission_replaces {input : AcceptInput} {prior : SendRow}
    (admitted : s.admission input prior = .replaces) : prior.fingerprint = input.fingerprint := by
  unfold admission at admitted
  by_contra differs
  rw [if_pos differs] at admitted
  cases admitted

def remaining (s : SendStore) (replaced : Option SendRow) : List SendRow :=
  match replaced with
  | none => s.rows
  | some prior => s.rows.filter (·.seq ≠ prior.seq)

def admittedGeneration (s : SendStore) (input : AcceptInput) (generation : String) :
    Option String :=
  if input.restoreHeld then s.generation.or (some generation) else s.generation

def admittedRow (s : SendStore) (input : AcceptInput) (replaced : Option SendRow)
    (uuid generation : String) : SendRow :=
  newRow input replaced (nextSeq (s.remaining replaced))
    ((replaced.map (·.message)).getD s.accepted.length) uuid
    (if input.restoreHeld then s.admittedGeneration input generation else none)

def admitted (s : SendStore) (input : AcceptInput) (replaced : Option SendRow)
    (uuid generation : String) : SendStore :=
  { s with
    rows := s.remaining replaced ++ [s.admittedRow input replaced uuid generation]
    generation := s.admittedGeneration input generation
    accepted := if replaced.isSome then s.accepted else
      s.accepted ++ [⟨input.threadId, input.sendId, input.fingerprint, input.text⟩] }

/-- What `enroll` does: the row to replace goes without a new one, nothing changes, or the
new row is last. -/
theorem enroll_eq (s : SendStore) (input : AcceptInput) (replaced : Option SendRow)
    (uuid generation : String) :
    s.enroll input replaced uuid generation =
      match (given input.queueId).bind fun queueId =>
        (s.remaining replaced).find? (·.queueId == queueId) with
      | some same => ({ s with rows := s.remaining replaced }, .ok ⟨.existing, same⟩)
      | none =>
        if clashes (s.remaining replaced) (s.admittedRow input replaced uuid generation) then
          (s, .error .unique)
        else (s.admitted input replaced uuid generation,
          .ok ⟨.new, s.admittedRow input replaced uuid generation⟩) := rfl

theorem enroll_cases (s : SendStore) (input : AcceptInput) (replaced : Option SendRow)
    (uuid generation : String) :
    (∃ same ∈ s.remaining replaced, given input.queueId = some same.queueId ∧
      s.enroll input replaced uuid generation =
        ({ s with rows := s.remaining replaced }, .ok ⟨.existing, same⟩)) ∨
    s.enroll input replaced uuid generation = (s, .error .unique) ∨
    (clashes (s.remaining replaced) (s.admittedRow input replaced uuid generation) = false ∧
      s.enroll input replaced uuid generation = (s.admitted input replaced uuid generation,
        .ok ⟨.new, s.admittedRow input replaced uuid generation⟩)) := by
  rw [enroll_eq]
  cases found : (given input.queueId).bind fun queueId =>
      (s.remaining replaced).find? (·.queueId == queueId) with
  | some same =>
    obtain ⟨queueId, isGiven, isFound⟩ := Option.bind_eq_some_iff.mp found
    have matched : same.queueId = queueId := by simpa using List.find?_some isFound
    exact Or.inl ⟨same, List.mem_of_find?_eq_some isFound, by rw [isGiven, matched], rfl⟩
  | none =>
    dsimp only
    split_ifs with isClash
    · exact Or.inr (Or.inl rfl)
    · exact Or.inr (Or.inr ⟨by simpa using isClash, rfl⟩)

/-- The row that an admission replaces is the store's, under the input's own id, and the
input carries its message's words. -/
structure Replaceable (s : SendStore) (input : AcceptInput) (prior : SendRow) : Prop where
  member : prior ∈ s.rows
  threadId : prior.threadId = input.threadId
  sendId : prior.sendId = input.sendId
  fingerprint : prior.fingerprint = input.fingerprint
  words : s.wordsOf prior = some input.text

theorem remaining_subset (s : SendStore) (replaced : Option SendRow) :
    (s.remaining replaced).Sublist s.rows := by
  cases replaced with
  | none => exact List.Sublist.refl _
  | some prior => exact List.filter_sublist

theorem RowKept.message_lt {message : Message} (kept : s.RowKept row message) :
    row.message < s.accepted.length :=
  (List.getElem?_eq_some_iff.mp kept.accepted).1

section Admitted

variable {input : AcceptInput} {replaced : Option SendRow} {uuid generation : String}

theorem admitted_accepted_of (m : Nat) (message : Message)
    (isMessage : s.accepted[m]? = some message) :
    (s.admitted input replaced uuid generation).accepted[m]? = some message := by
  unfold admitted
  dsimp only
  split_ifs
  · exact isMessage
  · rw [List.getElem?_append_left (List.getElem?_eq_some_iff.mp isMessage).1]
    exact isMessage

theorem admittedRow_accepted (kept : s.Kept)
    (replaceable : ∀ prior, replaced = some prior → s.Replaceable input prior) :
    (s.admitted input replaced uuid generation).accepted[
      (s.admittedRow input replaced uuid generation).message]? =
      some ⟨input.threadId, input.sendId, input.fingerprint, input.text⟩ := by
  cases replaced with
  | none =>
    show (s.accepted ++ [_])[s.accepted.length]? = _
    rw [List.getElem?_concat_length]
  | some prior =>
    have isReplaceable := replaceable prior rfl
    obtain ⟨message, rowKept⟩ := kept.rows prior isReplaceable.member
    have words : message.text = input.text :=
      Option.some.inj (rowKept.wordsOf.symm.trans isReplaceable.words)
    refine rowKept.accepted.trans (congrArg some ?_)
    rw [← isReplaceable.threadId, ← isReplaceable.sendId, ← isReplaceable.fingerprint,
      rowKept.threadId, rowKept.sendId, rowKept.fingerprint, ← words]

theorem remaining_message_ne (kept : s.Kept)
    (replaceable : ∀ prior, replaced = some prior → s.Replaceable input prior)
    (stays : row ∈ s.remaining replaced) :
    row.message ≠ (s.admittedRow input replaced uuid generation).message := by
  have member : row ∈ s.rows := (remaining_subset s replaced).subset stays
  cases replaced with
  | none =>
    obtain ⟨message, rowKept⟩ := kept.rows row member
    exact Nat.ne_of_lt rowKept.message_lt
  | some prior =>
    intro same
    have isRow : row = prior :=
      List.inj_on_of_nodup_map kept.single member (replaceable prior rfl).member same
    have differs := (List.mem_filter.mp stays).2
    rw [isRow] at differs
    simp at differs

theorem message_of_replaced (kept : s.Kept)
    (replaceable : ∀ prior, replaced = some prior → s.Replaceable input prior)
    (member : row ∈ s.rows) (leaves : row ∉ s.remaining replaced) :
    row.message = (s.admittedRow input replaced uuid generation).message := by
  cases replaced with
  | none => exact absurd member leaves
  | some prior =>
    have same : row.seq = prior.seq := by
      by_contra differs
      exact leaves (List.mem_filter.mpr ⟨member, by simpa using differs⟩)
    obtain rfl := kept.row_eq member (replaceable prior rfl).member same
    rfl

theorem admitted_kept (kept : s.Kept)
    (replaceable : ∀ prior, replaced = some prior → s.Replaceable input prior) :
    (s.admitted input replaced uuid generation).Kept where
  rows := fun row member => by
    rcases List.mem_append.mp member with stays | isNew
    · obtain ⟨message, rowKept⟩ := kept.rows row ((remaining_subset s replaced).subset stays)
      exact ⟨message, rowKept.of_same admitted_accepted_of rfl rfl⟩
    · obtain rfl := List.mem_singleton.mp isNew
      refine ⟨_, admittedRow_accepted kept replaceable, rfl, rfl, rfl, Or.inr rfl, ?_, ?_⟩
      · exact fun id isNamed => by cases isNamed
      · exact fun worded _ blank => absurd blank worded
  gone := fun m message isMessage worded notCancelled => by
    by_cases isNew : m = (s.admittedRow input replaced uuid generation).message
    · exact Or.inl ⟨_, List.mem_append_right _ (List.mem_singleton_self _), isNew.symm⟩
    · have before : s.accepted[m]? = some message := by
        cases replaced with
        | none =>
          have short : m < s.accepted.length := by
            have bound := (List.getElem?_eq_some_iff.mp isMessage).1
            have length : (s.admitted input none uuid generation).accepted.length =
                s.accepted.length + 1 := List.length_append
            have differs : m ≠ s.accepted.length := isNew
            omega
          exact (List.getElem?_append_left short).symm.trans isMessage
        | some prior => exact isMessage
      rcases kept.gone m message before worded notCancelled with ⟨row, member, isRow⟩ | isLined
      · refine Or.inl ⟨row, List.mem_append_left _ ?_, isRow⟩
        by_contra leaves
        exact isNew (isRow ▸ message_of_replaced kept replaceable member leaves)
      · exact Or.inr isLined
  single := by
    have stays := kept.single.sublist ((remaining_subset s replaced).map (·.message))
    show ((s.remaining replaced ++ [_]).map SendRow.message).Nodup
    rw [List.map_append, List.nodup_append]
    refine ⟨stays, List.nodup_singleton _, fun m isOld other isNew same => ?_⟩
    obtain ⟨row, member, rfl⟩ := List.mem_map.mp isOld
    obtain rfl := List.mem_singleton.mp isNew
    exact remaining_message_ne kept replaceable member same
  seqs := by
    have stays := kept.seqs.sublist ((remaining_subset s replaced).map (·.seq))
    show ((s.remaining replaced ++ [_]).map SendRow.seq).Nodup
    rw [List.map_append, List.nodup_append]
    refine ⟨stays, List.nodup_singleton _, fun seq isOld other isNew same => ?_⟩
    obtain ⟨row, member, rfl⟩ := List.mem_map.mp isOld
    obtain rfl := List.mem_singleton.mp isNew
    exact absurd same (Nat.ne_of_lt (lt_nextSeq member))

end Admitted

/-- An accept that replaces a row carries its message's words and brings a new row: its
queue id is no other row's. -/
def ReplacesWhole (s : SendStore) (input : AcceptInput) : Prop :=
  ∀ prior, s.prior input = some prior → s.admission input prior = .replaces →
    s.wordsOf prior = some input.text ∧
      ∀ row ∈ s.rows, row.seq ≠ prior.seq → given input.queueId ≠ some row.queueId

theorem accept_kept (kept : s.Kept) {input : AcceptInput} (live : Bool)
    (uuid generation : String) (whole : s.ReplacesWhole input) :
    (s.accept input live uuid generation).1.Kept := by
  rcases accept_cases s input live uuid generation with
    ⟨result, isResult, -⟩ | ⟨-, isResult⟩ | ⟨prior, isPrior, replaces, isResult⟩
  · rw [isResult]
    exact kept
  · rw [isResult]
    rcases enroll_cases s input none uuid generation with
      ⟨same, -, -, isEnroll⟩ | isEnroll | ⟨-, isEnroll⟩
    · rw [isEnroll]
      exact kept
    · rw [isEnroll]
      exact kept
    · rw [isEnroll]
      exact admitted_kept kept (fun _ none => by cases none)
  · obtain ⟨words, free⟩ := whole prior isPrior replaces
    obtain ⟨isRow, threadId, sendId, -⟩ := prior_eq isPrior
    rw [isResult]
    rcases enroll_cases s input (some prior) uuid generation with
      ⟨same, stays, isQueue, -⟩ | isEnroll | ⟨-, isEnroll⟩
    · obtain ⟨member, differs⟩ := List.mem_filter.mp stays
      exact absurd isQueue (free same member (by simpa using differs))
    · rw [isEnroll]
      exact kept
    · rw [isEnroll]
      refine admitted_kept kept fun replaced isReplaced => ?_
      obtain rfl : prior = replaced := Option.some.inj isReplaced
      exact ⟨isRow, threadId, sendId, admission_replaces replaces, words⟩

/-! ## Runs -/

theorem appendLine_kept (kept : s.Kept) (lineId words : String) :
    (s.appendLine lineId words).Kept := by
  unfold appendLine
  split_ifs with isHeld
  · exact kept
  · exact @Kept.changeRows _ _ kept id ⟨fun _ _ isMessage => isMessage,
      fun _ _ => get_set_of_absent isHeld, Finset.Subset.refl _⟩ rfl (List.map_id _).symm
      (fun _ => rfl) (fun _ => rfl) fun row _ message _ => Change.refl message row

/-- The arguments that the state table allows. -/
def Allowed (s : SendStore) : SendOp → Prop
  | .settle seq status messageId _ _ =>
    Outcome status ∧ ∀ id, messageId = some id → s.LineHolds seq id
  | .settleWithLine seq _ _ append _ _ => ∀ actual words, append = some (actual, words) →
      ∀ row ∈ s.rows, row.seq = seq → s.wordsOf row = some words
  | .requeueStarted seq messageId text _ _ => ∀ row ∈ s.rows, row.seq = seq →
      row.messageId = some messageId ∧ s.lines.get messageId = some text
  | .completeUnresolved items _ => ∀ item ∈ items, ∀ id, item.landed = some id →
      s.lines.get id = s.wordsOf item.row
  | _ => True

def SendStep : SendStore → SendOp → SendStore → Prop := Restrict (ofFunction apply) Allowed

/-- What a step must not do: replace a row by one with other words or by an existing row,
or finish a row that the store no longer has. -/
def Spared (s : SendStore) : SendOp → Prop
  | .accept input _ _ _ => s.ReplacesWhole input
  | .completeUnresolved items _ => ∀ item ∈ items, item.row ∈ s.rows
  | _ => True

theorem RowKept.unresolved {item : Unresolved} {message : Message} (member : item.row ∈ s.rows)
    (kept : s.RowKept item.row message)
    (landed : ∀ id, item.landed = some id → s.lines.get id = s.wordsOf item.row) : item.Of s where
  row := List.mem_map_of_mem member
  words := fun worded => by
    rw [kept.wordsOf, kept.text.resolve_left worded]
  landed := fun id isLanded => ⟨landed id isLanded, by rw [kept.wordsOf]; rfl⟩

theorem apply_kept (kept : s.Kept) {op : SendOp} (allowed : s.Allowed op) (spared : s.Spared op) :
    (s.apply op).Kept := by
  cases op with
  | accept input live uuid generation => exact accept_kept kept live uuid generation spared
  | markDispatched seq now => exact markDispatched_kept kept seq now
  | markDispatchedMany seqs now => exact markDispatchedMany_kept kept now seqs
  | queue seq existingMessageId prompt now => exact queue_kept kept seq existingMessageId prompt now
  | requeueStarted seq messageId text prompt now =>
    exact requeueStarted_kept kept seq messageId text prompt now allowed
  | settle seq status messageId notice now =>
    exact settle_kept kept notice now allowed.1 allowed.2
  | refuse seq notice now => exact refuse_kept kept seq notice now
  | settleWithLine seq status lineId append notice now =>
    exact settleWithLine_kept kept lineId notice now allowed
  | setTurnId seq turnId => exact setTurnId_kept kept seq turnId
  | markStopped threadId token => exact markStopped_kept kept threadId token
  | holdForLateAnswer seq => exact kept.withoutLate _
  | releaseLateAnswer seq => exact releaseLateAnswer_kept kept seq
  | releaseThreadLate threadId => exact releaseThreadLate_kept kept threadId
  | scrub seq => exact scrub_kept kept seq
  | cancel ownerId queueId now => exact cancel_kept kept ownerId queueId now
  | recover mint now => exact recover_kept kept mint now
  | completeUnresolved items now =>
    refine completeUnresolved_kept kept now fun item member => ?_
    obtain ⟨message, rowKept⟩ := kept.rows item.row (spared item member)
    exact rowKept.unresolved (spared item member) (allowed item member)
  | neutralizeRestoredSends generation mint now =>
    exact neutralizeRestoredSends_kept kept generation mint now
  | pruneAge cutoff batch => exact pruneBatch_kept kept _ batch
  | pruneCap pivot batch => exact pruneBatch_kept kept _ batch
  | append lineId words => exact appendLine_kept kept lineId words
  | crash => exact kept.withoutLate _

theorem empty_kept : ({} : SendStore).Kept where
  rows := fun _ member => by cases member
  gone := fun _ _ isMessage => by cases isMessage
  single := List.nodup_nil
  seqs := List.nodup_nil

/-- Every message that was accepted with words and never cancelled has its row with its
words, or a line with them that its row, while it has one, names. -/
def WordsKept (s : SendStore) : Prop :=
  ∀ (m : Nat) (message : Message), s.accepted[m]? = some message → message.text ≠ "" →
    m ∉ s.cancelled →
    (∃ row ∈ s.rows, row.message = m ∧ row.threadId = message.threadId ∧
      row.sendId = message.sendId ∧ row.fingerprint = message.fingerprint ∧
      row.text = message.text) ∨
    ∃ id, s.lines.get id = some message.text ∧ ∀ row ∈ s.rows, row.message = m →
      row.messageId = some id ∨ row.existingMessageId = some id

theorem Kept.wordsKept (kept : s.Kept) : s.WordsKept := by
  intro m message isMessage worded notCancelled
  by_cases hasRow : ∃ row ∈ s.rows, row.message = m
  · obtain ⟨row, member, rfl⟩ := hasRow
    obtain ⟨own, rowKept⟩ := kept.rows row member
    obtain rfl : own = message := Option.some.inj (rowKept.accepted.symm.trans isMessage)
    by_cases wordless : row.text = ""
    · obtain ⟨id, isNamed⟩ := Option.isSome_iff_exists.mp
        (rowKept.blank worded notCancelled wordless)
      refine Or.inr ⟨id, rowKept.line id isNamed, fun other isOther same => Or.inl ?_⟩
      rw [List.inj_on_of_nodup_map kept.single isOther member same]
      exact isNamed
    · exact Or.inl ⟨row, member, rfl, rowKept.threadId, rowKept.sendId, rowKept.fingerprint,
        rowKept.text.resolve_left wordless⟩
  · rcases kept.gone m message isMessage worded notCancelled with isRow | ⟨id, isLine⟩
    · exact absurd isRow hasRow
    · exact Or.inr ⟨id, isLine, fun row member isRow => absurd ⟨row, member, isRow⟩ hasRow⟩

/-- **Retention.** In every run whose accepts bring the row that they replace another for,
no accepted words are lost, wherever a crash falls. -/
theorem accepted_words_kept {ops : List SendOp} {s : SendStore}
    (run : Run (Restrict SendStep Spared) {} ops s) : s.WordsKept := by
  refine (run.invariant empty_kept fun before op after kept step => ?_).wordsKept
  obtain ⟨⟨rfl, allowed⟩, spared⟩ := step
  exact apply_kept kept allowed spared

/-- An accept of `text` under the send id `sendId` of the thread `t`. -/
def sendOf (sendId text : String) (status : SendStatus) (queueId : Option String) :
    AcceptInput :=
  { kind := .bot, ownerId := "o", threadId := "t", sendId := some sendId, fingerprint := text,
    text := text, status := some status, queueId := queueId, now := 0 }

def chipSentAgain : List SendOp :=
  [.accept (sendOf "s" "hello" .refused none) true "q1" "g",
    .accept (sendOf "s" "hello" .sending none) true "q2" "g", .crash]

theorem accepted_words_kept_sentAgain : (chipSentAgain.foldl apply {}).WordsKept := by
  have along : Along apply (fun s op => s.Allowed op ∧ s.Spared op) {} chipSentAgain := by
    refine ⟨⟨trivial, ?_⟩, ⟨trivial, ?_⟩, ⟨trivial, trivial⟩, trivial⟩
    · rintro prior isPrior -
      cases isPrior
    · rintro prior isPrior -
      obtain rfl := Option.some.inj isPrior
      exact ⟨rfl, by decide⟩
  exact accepted_words_kept (Run.restrict_restrict (Run.foldl_along along))

def takenQueueId : List SendOp :=
  [.accept (sendOf "s1" "hello" .refused none) true "q1" "g",
    .accept (sendOf "s2" "other" .sending none) true "q2" "g",
    .accept (sendOf "s1" "hello" .sending (some "q2")) true "q3" "g"]

/-- Its row is deleted, and none takes its place. -/
theorem taken_queue_id_loses_words :
    ¬∀ (ops : List SendOp) (s : SendStore), Run SendStep {} ops s → s.WordsKept := by
  intro claimed
  have run : Run SendStep {} takenQueueId (takenQueueId.foldl apply {}) :=
    Run.foldl_along ⟨trivial, trivial, trivial, trivial⟩
  rcases claimed _ _ run 0 ⟨"t", some "s1", "hello", "hello"⟩ (by decide) (by decide)
    (by decide) with ⟨row, member, isRow, -⟩ | ⟨id, isLine, -⟩
  · revert row
    decide
  · cases isLine

end SendStore

end Murage.OwnerSends
