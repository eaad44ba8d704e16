import Murage.ChannelDelivery.Passes
import Murage.Library.Transition

/-!
Owns the runs of a channel chat: stopping, revoking, a crash, opening and an admission keep the
system invariant, and from it that a delivery is accepted at most once and a reply goes out at
most once.
-/

namespace Murage.ChannelDelivery

open Murage.Library.Transition

variable {options : Options} {occurred : String → Int} {start : Ledger} {world next : World}
  {deliveryId : String}

/-! ## Interruptions -/

variable {ledger : Ledger}

theorem mem_sending :
    deliveryId ∈ ledger.sending ↔
      ∃ record ∈ ledger.records, record.state = .sending ∧ record.deliveryId = deliveryId := by
  simp [Ledger.sending, and_assoc]

theorem Alive.unready_of_sending (alive : Alive occurred start world)
    (isSending : deliveryId ∈ world.ledger.sending) : world.ledger.Unready deliveryId := by
  obtain ⟨record, isIn, state, rfl⟩ := mem_sending.mp isSending
  intro other isOther sameId
  have same : other = record := by
    refine List.inj_on_of_nodup_map ?_ isOther isIn sameId
    rw [alive.serving.current]
    exact alive.serving.distinct
  rw [same, state]
  rfl

theorem Alive.logs (alive : Alive occurred start world) (ids : List String)
    (each : ∀ id ∈ ids, world.ledger.Unready id ∧ Known start world.trace id) :
    Alive occurred start { world with trace := ids.map .interrupted ++ world.trace } := by
  induction ids with
  | nil => exact alive
  | cons first rest ih =>
    obtain ⟨unready, known⟩ := each first List.mem_cons_self
    have earlier := ih fun id isIn => each id (List.mem_cons_of_mem _ isIn)
    refine earlier.log (earlier.sound.log rfl ?_ (fun _ sends => Bool.noConfusion sends) ?_)
    · have more : ∀ later : List String,
          Known start (later.map .interrupted ++ world.trace) first := by
        intro later
        induction later with
        | nil => exact known
        | cons _ _ deeper => exact deeper.cons
      exact more rest
    · rintro other (refuses | gone)
      · exact Bool.noConfusion refuses
      · obtain rfl : first = other := of_decide_eq_true gone
        exact unready

theorem Alive.interrupt (alive : Alive occurred start world) :
    Alive occurred start world.interrupt := by
  refine alive.logs world.state.sending fun id isIn => ?_
  rw [← alive.serving.current] at isIn
  refine ⟨alive.unready_of_sending isIn, ?_⟩
  obtain ⟨record, isRecord, -, rfl⟩ := mem_sending.mp isIn
  exact alive.sound.named record isRecord

theorem replies_interrupted (ids : List String) (trace : List Entry) :
    replies deliveryId (ids.map .interrupted ++ trace) = replies deliveryId trace := by
  induction ids with
  | nil => rfl
  | cons first rest ih =>
    rw [List.map_cons, List.cons_append, replies_cons, ih]
    rfl

theorem Known.interrupted (known : Known start world.trace deliveryId) :
    Known start world.interrupt.trace deliveryId := by
  refine known.imp_right fun isIn => ?_
  obtain ⟨entry, isEntry, isAdmitted⟩ := List.mem_filterMap.mp isIn
  exact List.mem_filterMap.mpr ⟨entry, List.mem_append_right _ isEntry, isAdmitted⟩

theorem Waits.stopped {await : Await} (waits : Waits world deliveryId await)
    (isStopped : next.stopped = true)
    (sameReplies : replies deliveryId next.trace = replies deliveryId world.trace)
    (records : ∀ record ∈ next.ledger.records, record.deliveryId = deliveryId →
      ∃ earlier ∈ world.ledger.records, earlier.deliveryId = deliveryId ∧
        record.attempts = earlier.attempts ∧
          (earlier.state.ready = false → record.state.ready = false)) :
    Waits next deliveryId await := by
  have unready : world.ledger.Unready deliveryId → next.ledger.Unready deliveryId := by
    intro before record isIn isIt
    obtain ⟨earlier, isEarlier, sameId, -, keeps⟩ := records record isIn isIt
    exact keeps (before earlier isEarlier sameId)
  have notGoing : next.stopped = false → False := fun goes =>
    Bool.noConfusion (isStopped.symm.trans goes)
  cases await with
  | noticeReserve text => exact trivial
  | noticeSend => exact trivial
  | audio left => exact trivial
  | replyReserve text runId =>
    obtain ⟨isUnready, below, marked, -⟩ := waits
    rw [← sameReplies] at below
    refine ⟨unready isUnready, below, ?_, fun goes => (notGoing goes).elim⟩
    intro record isIn isIt
    obtain ⟨earlier, isEarlier, sameId, sameAttempts, -⟩ := records record isIn isIt
    rw [sameReplies, sameAttempts]
    exact marked earlier isEarlier sameId
  | replySend runId => exact ⟨unready waits.1, fun goes => (notGoing goes).elim⟩

theorem Holds.stop (holds : Holds occurred start world) (isOpen : world.isOpen = true) :
    Holds occurred start (stop world) where
  sound := (holds.alive isOpen).interrupt.sound.congr rfl rfl rfl
  serving := fun _ =>
    have serving := holds.serving isOpen
    ⟨serving.current, serving.distinct, serving.parses⟩
  waits := by
    intro pass isPass
    obtain ⟨-, known, waits⟩ := holds.waits pass isPass
    refine ⟨isOpen, known.interrupted, waits.stopped rfl ?_ ?_⟩
    · exact replies_interrupted _ _
    · exact fun record isIn isIt => ⟨record, isIn, isIt, rfl, id⟩

theorem Record.revoked_ready (record : Record) : record.revoked.state.ready = false := by
  unfold Record.revoked
  cases isState : record.state <;> simp [RecordState.pending, RecordState.ready, isState]

theorem Record.revoked_fields (record : Record) :
    record.revoked.tombstone = record.tombstone ∧ record.revoked.attempts = record.attempts := by
  unfold Record.revoked
  split <;> exact ⟨rfl, rfl⟩

theorem forall₂_map {trace : List Entry} {fn : Record → Record} {records : List Record}
    (continues : ∀ record, Continues trace record (fn record)) :
    List.Forall₂ (Continues trace) records (records.map fn) := by
  induction records with
  | nil => exact List.Forall₂.nil
  | cons record rest ih =>
    exact List.Forall₂.cons (continues record) ih

theorem Holds.revoke (holds : Holds occurred start world) (isOpen : world.isOpen = true)
    (written : Bool) : Holds occurred start (revoke written world) := by
  have stopped := holds.stop isOpen
  unfold ChannelDelivery.revoke
  dsimp only
  cases wrote : mutate { (ChannelDelivery.stop world).state with
      records := (ChannelDelivery.stop world).state.records.map (·.revoked) } written
      (ChannelDelivery.stop world) with
  | none => exact stopped
  | some later =>
    have alive := stopped.alive isOpen
    have continues : ∀ record : Record,
        Continues (ChannelDelivery.stop world).trace record record.revoked := fun record =>
      continues_of_unready record.revoked_fields.1 (Nat.le_of_eq record.revoked_fields.2.symm)
        record.revoked_ready
    have follows : (ChannelDelivery.stop world).ledger.Follows (ChannelDelivery.stop world).trace
        { (ChannelDelivery.stop world).state with
          records := (ChannelDelivery.stop world).state.records.map (·.revoked) } := by
      rw [alive.serving.current]
      exact ⟨forall₂_map continues, rfl⟩
    have wroteLater := alive.mutate follows wrote
    obtain ⟨-, rfl⟩ := mutate_some wrote
    refine ⟨wroteLater.sound, fun _ => wroteLater.serving, fun pass isPass => ?_⟩
    obtain ⟨-, known, waits⟩ := stopped.waits pass isPass
    refine ⟨isOpen, known, waits.stopped rfl rfl ?_⟩
    intro record isIn isIt
    obtain ⟨earlier, isEarlier, rfl⟩ := List.mem_map.mp isIn
    have sameId := congrArg Tombstone.deliveryId earlier.revoked_fields.1
    rw [← alive.serving.current] at isEarlier
    exact ⟨earlier, isEarlier, sameId.symm.trans isIt, earlier.revoked_fields.2,
      fun _ => earlier.revoked_ready⟩

theorem Holds.crash (holds : Holds occurred start world) (isOpen : world.isOpen = true) :
    Holds occurred start (crash world) where
  sound := (holds.alive isOpen).interrupt.sound.congr rfl rfl rfl
  serving := fun stays => Bool.noConfusion stays
  waits := fun _ isPass => (Option.some_ne_none _ isPass.symm).elim

/-! ## Opening -/

theorem Ledger.opens_spec (opens : ledger.opens = true) :
    ledger.parses = true ∧ (ledger.records.map (·.deliveryId)).Nodup := by
  obtain ⟨parses, distinct⟩ := Bool.and_eq_true_iff.mp opens
  refine ⟨parses, ?_⟩
  have all := of_decide_eq_true distinct
  rw [Ledger.receipts, List.map_append, List.map_map] at all
  exact (List.nodup_append.mp all).1

theorem Sound.opened (sound : Sound occurred start world) (isFile : world.ledger = ledger)
    (parses : ledger.parses = true) (distinct : (ledger.records.map (·.deliveryId)).Nodup) :
    Holds occurred start (world.opened ledger) where
  sound := sound.congr rfl rfl rfl
  serving := fun _ => ⟨isFile, distinct, parses⟩
  waits := fun _ isPass => (Option.some_ne_none _ isPass.symm).elim

theorem Record.reopened_continues (trace : List Entry) (record : Record) :
    Continues trace record record.reopened := by
  unfold Record.reopened
  split
  · exact continues_of_unready rfl (Nat.le_refl _) rfl
  · exact Continues.refl trace record

theorem Holds.reopen (holds : Holds occurred start world) (write : Write) :
    Holds occurred start (reopen write world) := by
  unfold ChannelDelivery.reopen
  cases isFile : world.file with
  | none =>
    have isEmpty : world.ledger = {} := by rw [World.ledger, isFile]; rfl
    exact holds.sound.opened isEmpty rfl List.nodup_nil
  | some ledger =>
    have isLedger : world.ledger = ledger := by rw [World.ledger, isFile]; rfl
    dsimp only
    split
    · exact holds
    rename_i opens
    obtain ⟨parses, distinct⟩ :=
      Ledger.opens_spec (by simpa using opens : ledger.opens = true)
    split
    · exact holds.sound.opened isLedger parses distinct
    cases write with
    | refused => exact holds
    | missing => exact holds.sound.opened isLedger parses distinct
    | done =>
      have follows : world.ledger.Follows world.trace
          { ledger with records := ledger.records.map (·.reopened) } := by
        rw [isLedger]
        exact ⟨forall₂_map (Record.reopened_continues _), rfl⟩
      have marked := holds.sound.write follows
      refine Holds.mk (marked.congr rfl rfl rfl) (fun _ => ⟨rfl, ?_, ?_⟩)
        fun _ isPass => (Option.some_ne_none _ isPass.symm).elim
      · have sameIds := follows.ids
        rw [isLedger] at sameIds
        exact sameIds ▸ distinct
      · refine List.all_eq_true.mpr fun record isIn => ?_
        obtain ⟨earlier, isEarlier, rfl⟩ := List.mem_map.mp isIn
        have bound := List.all_eq_true.mp parses earlier isEarlier
        unfold Record.reopened
        split <;> exact bound

/-! ## Admission -/

variable {readings : Nat → Int} {row : Tombstone}

theorem mem_young {rows : List Tombstone} {first : Nat} (isIn : row ∈ young readings first rows) :
    row ∈ rows := by
  obtain ⟨⟨other, index⟩, isKept, rfl⟩ := List.mem_map.mp isIn
  have numbered := (List.mem_filter.mp isKept).1
  exact List.fst_mem_of_mem_zipIdx numbered

theorem young_or_left (forward : Monotone readings) {rows : List Tombstone} (first : Nat)
    {last : Nat} (bound : first + rows.length ≤ last + 1) (isIn : row ∈ rows) :
    row ∈ young readings first rows ∨ row.occurredAt < readings last - windowMs := by
  obtain ⟨index, bounded, rfl⟩ := List.getElem_of_mem isIn
  have isRow : (rows[index], first + index) ∈ rows.zipIdx first :=
    List.mk_add_mem_zipIdx_iff_getElem?.mpr (List.getElem?_eq_getElem bounded)
  by_cases within : rows[index].within (readings (first + index)) = true
  · refine Or.inl (List.mem_map.mpr ⟨(rows[index], first + index), ?_, rfl⟩)
    exact List.mem_filter.mpr ⟨isRow, within⟩
  · right
    have earlier : readings (first + index) ≤ readings last := forward (by omega)
    have left := of_decide_eq_false (Bool.eq_false_iff.mpr within)
    omega

section

variable {readings : Nat → Int} {ledger : Ledger}

theorem compacted_records {record : Record} (isIn : record ∈ (compacted readings ledger).records) :
    record ∈ ledger.records :=
  (List.mem_filter.mp isIn).1

theorem compacted_receipts (isIn : row ∈ (compacted readings ledger).receipts) :
    row ∈ ledger.receipts := by
  rcases List.mem_append.mp isIn with isRecord | isTombstone
  · obtain ⟨record, isKept, rfl⟩ := List.mem_map.mp isRecord
    exact List.mem_append_left _ (List.mem_map_of_mem (compacted_records isKept))
  · rcases List.mem_append.mp isTombstone with old | buried
    · exact List.mem_append_right _ (mem_young old)
    · obtain ⟨record, isSettled, rfl⟩ := List.mem_map.mp (mem_young buried)
      exact List.mem_append_left _ (List.mem_map_of_mem (List.mem_filter.mp isSettled).1)

theorem compacted_or_left (forward : Monotone readings) (member : row ∈ ledger.receipts) :
    row ∈ (compacted readings ledger).receipts ∨
      row.occurredAt < readings (lastReading ledger) - windowMs := by
  rcases List.mem_append.mp member with isRecord | isTombstone
  · obtain ⟨record, isIn, rfl⟩ := List.mem_map.mp isRecord
    by_cases isSettled : record.state.settled = true
    · have buried : record.tombstone ∈
          (ledger.records.filter (·.state.settled)).map (·.tombstone) :=
        List.mem_map_of_mem (List.mem_filter.mpr ⟨isIn, isSettled⟩)
      refine (young_or_left forward (2 + ledger.tombstones.length) ?_ buried).imp_left ?_
      · rw [List.length_map, lastReading]
        omega
      · exact fun isYoung => List.mem_append_right _ (List.mem_append_right _ isYoung)
    · refine Or.inl (List.mem_append_left _ (List.mem_map_of_mem ?_))
      exact List.mem_filter.mpr ⟨isIn, by simpa using isSettled⟩
  · refine (young_or_left forward 2 ?_ isTombstone).imp_left ?_
    · rw [lastReading]
      omega
    · exact fun isYoung => List.mem_append_right _ (List.mem_append_left _ isYoung)

end

theorem has_iff :
    ledger.has deliveryId = true ↔ ∃ row ∈ ledger.receipts, row.names deliveryId = true :=
  List.any_eq_true

theorem Sound.unknown (sound : Sound occurred start world) {input : Input} {now : Int}
    (isNew : world.ledger.has input.deliveryId = false)
    (stamped : input.occurredAt = occurred input.deliveryId) (forward : world.clock ≤ now)
    (within : ¬input.occurredAt < now - windowMs) :
    ¬Known start world.trace input.deliveryId := by
  intro known
  rcases sound.recorded _ known with isRow | left
  · exact Bool.noConfusion (isNew.symm.trans isRow)
  · rw [← stamped] at left
    omega

def admittedLedger (readings : Nat → Int) (input : Input) (ledger : Ledger) : Ledger :=
  { compacted readings ledger with
    records := (compacted readings ledger).records ++ [input.record] }

theorem admittedLedger_records {input : Input} {record : Record}
    (isIn : record ∈ (admittedLedger readings input ledger).records) :
    record ∈ ledger.records ∨ record = input.record :=
  (List.mem_append.mp isIn).imp compacted_records List.mem_singleton.mp

theorem admittedLedger_receipts {input : Input} :
    row ∈ (admittedLedger readings input ledger).receipts ↔
      row ∈ (compacted readings ledger).receipts ∨ row = input.record.tombstone := by
  simp only [admittedLedger, Ledger.receipts, List.map_append, List.mem_append, List.map_cons,
    List.map_nil, List.mem_singleton]
  tauto

/-- **An admission keeps the ledger sound.** -/
theorem Sound.accepts (sound : Sound occurred start world) {input : Input}
    (unknown : ¬Known start world.trace input.deliveryId)
    (stamped : input.occurredAt = occurred input.deliveryId) (forward : Monotone readings)
    (later : world.clock ≤ readings 0) :
    Sound occurred start
      { world with
        clock := readings (lastReading world.ledger)
        file := some (admittedLedger readings input world.ledger)
        state := admittedLedger readings input world.ledger
        trace := .accepted input.deliveryId :: world.trace } := by
  have unseen : ∀ entry ∈ world.trace, entry.deliveryId ≠ input.deliveryId :=
    fun entry isIn same => unknown (same ▸ sound.traced entry isIn)
  obtain ⟨isQuiet, none⟩ := quiet_of_unseen unseen
  have isKnown : ∀ id, Known start (.accepted input.deliveryId :: world.trace) id ↔
      Known start world.trace id ∨ id = input.deliveryId := by
    intro id
    simp only [Known, acceptedIds, List.filterMap_cons, Entry.admitted, List.mem_cons]
    tauto
  have onward : world.clock ≤ readings (lastReading world.ledger) :=
    Int.le_trans later (forward (Nat.zero_le _))
  refine
    { stamped := ?stamped
      recorded := ?recorded
      named := ?named
      traced := ?traced
      admitted := ?admitted
      fresh := ?fresh
      counted := ?counted
      quiet := ?quiet
      once := ?once
      single := ?single
      bounded := ?bounded }
  case stamped =>
    intro row isIn
    rcases admittedLedger_receipts.mp isIn with old | rfl
    · exact sound.stamped row (compacted_receipts old)
    · intro id names
      have same : input.deliveryId = id := by
        simpa [Tombstone.names, Record.tombstone, Input.record] using names
      rw [← same]
      exact stamped
  case recorded =>
    intro id known
    rcases (isKnown id).mp known with before | rfl
    · rcases sound.recorded id before with isRow | left
      · obtain ⟨row, isIn, names⟩ := has_iff.mp isRow
        rcases compacted_or_left forward isIn with stays | left
        · exact Or.inl (has_iff.mpr ⟨row, admittedLedger_receipts.mpr (Or.inl stays), names⟩)
        · right
          rw [← sound.stamped row isIn id names]
          exact left
      · exact Or.inr (Int.lt_of_lt_of_le left (Int.sub_le_sub_right onward _))
    · left
      refine has_iff.mpr ⟨input.record.tombstone, admittedLedger_receipts.mpr (Or.inr rfl), ?_⟩
      simp [Tombstone.names, Record.tombstone, Input.record]
  case named =>
    intro record isIn
    rcases admittedLedger_records isIn with old | rfl
    · exact (sound.named record old).cons
    · exact (isKnown _).mpr (Or.inr rfl)
  case traced =>
    intro entry isIn
    rcases List.mem_cons.mp isIn with rfl | older
    · exact (isKnown _).mpr (Or.inr rfl)
    · exact (sound.traced entry older).cons
  case admitted =>
    exact List.nodup_cons.mpr ⟨fun isIn => unknown (Or.inr isIn), sound.admitted⟩
  case fresh =>
    intro id isIn
    rcases List.mem_cons.mp isIn with rfl | older
    · exact Bool.eq_false_iff.mpr fun isFirst => unknown (Or.inl isFirst)
    · exact sound.fresh id older
  case counted =>
    intro record isIn
    show replies record.deliveryId (_ :: world.trace) ≤ record.attempts
    rw [replies_cons]
    rcases admittedLedger_records isIn with old | rfl
    · exact sound.counted record old
    · exact Nat.le_of_eq none
  case quiet =>
    intro record isIn isReady
    rcases admittedLedger_records isIn with old | rfl
    · exact (sound.quiet record old isReady).cons rfl rfl rfl
    · exact isQuiet.cons rfl rfl rfl
  case once =>
    exact fun id => List.pairwise_cons.mpr ⟨fun _ _ _ => rfl, sound.once id⟩
  case single =>
    intro id
    show replies id (_ :: world.trace) ≤ refusals id (_ :: world.trace) + 1
    rw [replies_cons, refusals_cons]
    exact sound.single id
  case bounded =>
    intro id
    show replies id (_ :: world.trace) ≤ 3
    rw [replies_cons]
    exact sound.bounded id

theorem Waits.accepts {await : Await} (waits : Waits world deliveryId await) {other : String}
    (sameStop : next.stopped = world.stopped)
    (isTrace : next.trace = .accepted other :: world.trace)
    (records : ∀ record ∈ next.ledger.records, record.deliveryId = deliveryId →
      record ∈ world.ledger.records) : Waits next deliveryId await := by
  have sameReplies : replies deliveryId next.trace = replies deliveryId world.trace := by
    rw [isTrace, replies_cons]
    rfl
  have sameRefusals : refusals deliveryId next.trace = refusals deliveryId world.trace := by
    rw [isTrace, refusals_cons]
    rfl
  have unready : world.ledger.Unready deliveryId → next.ledger.Unready deliveryId :=
    fun before record isIn isIt => before record (records record isIn isIt) isIt
  cases await with
  | noticeReserve text => exact trivial
  | noticeSend => exact trivial
  | audio left => exact trivial
  | replyReserve text runId =>
    obtain ⟨isUnready, below, marked, stays⟩ := waits
    rw [← sameReplies] at below marked
    refine ⟨unready isUnready, below, fun record isIn isIt => ?_, fun goes => ?_⟩
    · exact marked record (records record isIn isIt) isIt
    · rw [sameStop] at goes
      rw [isTrace]
      exact (stays goes).cons rfl rfl rfl
  | replySend runId =>
    obtain ⟨isUnready, standing⟩ := waits
    refine ⟨unready isUnready, fun goes => ?_⟩
    rw [sameStop] at goes
    obtain ⟨counted, stayed⟩ := standing goes
    rw [sameReplies, sameRefusals]
    refine ⟨counted, fun entry isIn => ?_⟩
    rw [isTrace] at isIn
    rcases List.mem_cons.mp isIn with rfl | older
    · rfl
    · exact stayed entry older

theorem Holds.tick (holds : Holds occurred start world) {clock : Int}
    (forward : world.clock ≤ clock) : Holds occurred start { world with clock := clock } where
  sound := holds.sound.tick forward
  serving := fun isOpen =>
    have serving := holds.serving isOpen
    ⟨serving.current, serving.distinct, serving.parses⟩
  waits := by
    intro pass isPass
    obtain ⟨isOpen, known, waits⟩ := holds.waits pass isPass
    refine ⟨isOpen, known, ?_⟩
    cases isAwait : pass.await <;> rw [isAwait] at waits <;> exact waits

/-- What is promised of a step: an accepted delivery is presented with its time, and the clock
moves forward. -/
def Lawful (occurred : String → Int) (world : World) : Event → Prop
  | .accept input admission =>
    input.occurredAt = occurred input.deliveryId ∧ Monotone admission.readings ∧
      world.clock ≤ admission.readings 0
  | _ => True

theorem Holds.accept (holds : Holds occurred start world) (isOpen : world.isOpen = true)
    {input : Input} {admission : Admission}
    (lawful : Lawful occurred world (.accept input admission)) :
    Holds occurred start (accept input admission world).2 := by
  obtain ⟨stamped, forward, later⟩ := lawful
  have serving := holds.serving isOpen
  unfold ChannelDelivery.accept
  split
  · exact holds
  split
  · exact holds
  rename_i isNew
  split
  · exact holds.tick later
  rename_i within
  split
  · exact holds.tick (Int.le_trans later (forward (Nat.zero_le _)))
  have ticked := holds.tick
    (Int.le_trans later (forward (Nat.zero_le (lastReading world.state))))
  dsimp only
  split
  · exact ticked
  split
  · exact ticked
  rename_i wroteWorld wrote
  obtain ⟨parses, rfl⟩ := mutate_some wrote
  have isNewRow : world.ledger.has input.deliveryId = false := by
    rw [serving.current]
    exact Bool.eq_false_iff.mpr isNew
  have unknown := holds.sound.unknown isNewRow stamped later within
  have sound := holds.sound.accepts unknown stamped forward later
  rw [serving.current] at sound
  refine ⟨sound, fun _ => ⟨rfl, ?_, parses⟩, fun pass isPass => ?_⟩
  · show ((admittedLedger admission.readings input world.state).records.map (·.deliveryId)).Nodup
    rw [admittedLedger, List.map_append, List.nodup_append]
    refine ⟨serving.distinct.sublist (List.filter_sublist.map _), List.nodup_singleton _, ?_⟩
    intro id isOld other isOther same
    obtain ⟨record, isIn, rfl⟩ := List.mem_map.mp isOld
    obtain rfl := List.mem_singleton.mp isOther
    have old := compacted_records isIn
    rw [← serving.current] at old
    refine unknown ?_
    have known := holds.sound.named record old
    rw [same] at known
    exact known
  · obtain ⟨-, known, waits⟩ := holds.waits pass isPass
    refine ⟨isOpen, known.cons, waits.accepts rfl rfl fun record isIn isIt => ?_⟩
    rcases admittedLedger_records isIn with old | rfl
    · rw [serving.current]
      exact old
    · refine absurd known ?_
      rw [← isIt]
      exact unknown

/-! ## Runs -/

/-- **Every step keeps the system invariant.** -/
theorem Holds.step (holds : Holds occurred start world) {event : Event}
    (lawful : Lawful occurred world event) : Holds occurred start (step options world event) := by
  cases event with
  | accept input admission =>
    rw [ChannelDelivery.step]
    split
    · rename_i isOpen
      exact holds.accept isOpen lawful
    · exact holds
  | drain visits =>
    rw [ChannelDelivery.step]
    split
    · rename_i isOpen
      exact holds.drain isOpen visits
    · exact holds
  | resume answers => exact holds.resume answers
  | revoke written =>
    rw [ChannelDelivery.step]
    split
    · rename_i isOpen
      exact holds.revoke isOpen written
    · exact holds
  | stop =>
    rw [ChannelDelivery.step]
    split
    · rename_i isOpen
      exact holds.stop isOpen
    · exact holds
  | crash =>
    rw [ChannelDelivery.step]
    split
    · rename_i isOpen
      exact holds.crash isOpen
    · exact holds
  | reopen write =>
    rw [ChannelDelivery.step]
    split
    · exact holds
    · exact holds.reopen write

/-- No process yet, over a file whose rows keep the times of their deliveries. -/
structure Unopened (occurred : String → Int) (world : World) : Prop where
  closed : world.isOpen = false
  idle : world.draining = none
  untraced : world.trace = []
  stamped : ∀ row ∈ world.ledger.receipts, row.Stamped occurred

theorem Unopened.holds (unopened : Unopened occurred world) :
    Holds occurred world.ledger world where
  sound := by
    have isTrace := unopened.untraced
    constructor
    · exact unopened.stamped
    · intro id known
      rw [Known, isTrace] at known
      exact Or.inl (known.resolve_right List.not_mem_nil)
    · intro record isIn
      refine Or.inl (has_iff.mpr ⟨record.tombstone, ?_, ?_⟩)
      · exact List.mem_append_left _ (List.mem_map_of_mem isIn)
      · simp [Tombstone.names, Record.tombstone]
    · rw [isTrace]
      exact fun _ isIn => absurd isIn List.not_mem_nil
    · rw [isTrace]
      exact List.nodup_nil
    · rw [isTrace]
      exact fun _ isIn => absurd isIn List.not_mem_nil
    · rw [isTrace]
      exact fun _ _ => Nat.zero_le _
    · rw [isTrace]
      exact fun _ _ _ => ⟨rfl, fun _ isIn => absurd isIn List.not_mem_nil⟩
    · rw [isTrace]
      exact fun _ => List.Pairwise.nil
    · rw [isTrace]
      exact fun _ => Nat.zero_le _
    · rw [isTrace]
      exact fun _ => Nat.zero_le _
  serving := fun isOpen => Bool.noConfusion (unopened.closed.symm.trans isOpen)
  waits := fun pass isPass => (Option.some_ne_none _ (isPass.symm.trans unopened.idle)).elim

/-- **A channel reply goes out at most once.** In every run over a ledger, a delivery is accepted
at most once, and never when the first ledger named it; once a reply went out, may have gone out,
or was interrupted while it was being sent, it is not sent again; every earlier send of a reply
that is sent failed without an effect; and a reply is sent at most three times. -/
theorem channelReply_atMostOnce {first : World} {labels : List Event}
    (isFirst : Unopened occurred first)
    (run : Run (Restrict (ofFunction (step options)) (Lawful occurred)) first labels world) :
    (acceptedIds world.trace).Nodup ∧
      (∀ id ∈ acceptedIds world.trace, first.ledger.has id = false) ∧
      (∀ id, SentOnce id world.trace) ∧
      (∀ id, replies id world.trace ≤ refusals id world.trace + 1) ∧
      ∀ id, replies id world.trace ≤ 3 := by
  have holds : Holds occurred first.ledger world := by
    refine run.invariant isFirst.holds fun before event after holds taken => ?_
    obtain ⟨rfl, lawful⟩ := taken
    exact holds.step lawful
  exact ⟨holds.sound.admitted, holds.sound.fresh, holds.sound.once, holds.sound.single,
    holds.sound.bounded⟩

/-! ## A chat -/

def exampleOptions : Options :=
  { recipient := "chat"
    linkAccount := "Link your account."
    taskEnded := "The task ended."
    maxResponse := 4000
    clearResponseOnSettle := false
    reserves := false
    speaks := false }

def exampleWorld : World :=
  { file := none
    clock := 0 }

/-- The run behind a record goes on, and has a line for the sender. -/
def exampleVisit : Visit :=
  { atStart := true
    enqueue := .run "run"
    linkWritten := true
    afterEnqueue := true
    queuedWritten := true
    result :=
      .result
        (some
          { status := "running"
            output := none
            notice := some "Waiting for the engine." })
    afterResult := true
    missingWritten := true
    responseWritten := true
    noticeNow := 0
    atNotice := true
    replyNow := 0
    beforeSend := true
    sendingWritten := true
    atReply := true }

def exampleAnswers (sent : Except SendError Sent) : Resumed :=
  { reserved := .ok ()
    sent := sent
    current := true
    atCatch := true
    noticeWritten := true
    sentWritten := true
    caughtWritten := true
    notes := none
    now := 0
    visits := fun _ => exampleVisit }

def exampleAccept (response : Option String) : Event :=
  .accept
    { deliveryId := "message"
      prompt := "Hello"
      occurredAt := 0
      response := response }
    { current := true
      readings := fun _ => 0
      written := true }

theorem exampleAccept_lawful (response : Option String) (world : World) (isZero : world.clock = 0) :
    Lawful (fun _ => 0) world (exampleAccept response) :=
  ⟨rfl, fun _ _ _ => Int.le_refl _, isZero.le⟩

theorem exampleWorld_unopened : Unopened (fun _ => 0) exampleWorld where
  closed := rfl
  idle := rfl
  untraced := rfl
  stamped := fun _ isIn => absurd isIn List.not_mem_nil

/-- A reply that is refused once, tried again and delivered. -/
def exampleReplies : List Event :=
  [.reopen .done, exampleAccept (some "Hi"), .drain fun _ => exampleVisit,
    .resume (exampleAnswers (.error (.channel .offline false (some 0) false))),
    .drain fun _ => { exampleVisit with replyNow := 2000 },
    .resume
      (exampleAnswers
        (.ok
          { recipient := "chat"
            messageId := "m1" })),
    .drain fun _ => exampleVisit, .crash, .reopen .done]

theorem channelReply_atMostOnce_example :
    (exampleReplies.foldl (step exampleOptions) exampleWorld).isOpen = true ∧
      replies "message" (exampleReplies.foldl (step exampleOptions) exampleWorld).trace = 2 ∧
      SentOnce "message" (exampleReplies.foldl (step exampleOptions) exampleWorld).trace := by
  have lawful : Along (step exampleOptions) (Lawful fun _ => 0) exampleWorld exampleReplies :=
    ⟨trivial, exampleAccept_lawful _ _ rfl, trivial, trivial, trivial, trivial, trivial, trivial,
      trivial, trivial⟩
  have promised := channelReply_atMostOnce exampleWorld_unopened (Run.foldl_along lawful)
  exact ⟨by decide, by decide, promised.2.2.1 "message"⟩

/-- Every call of `send` for the record. -/
def sendCalls (deliveryId : String) (trace : List Entry) : Nat :=
  trace.countP fun entry =>
    match entry with
    | .sends other _ _ => other = deliveryId
    | _ => false

/-- The line of a waiting run fails four times. -/
def exampleNotices : List Event :=
  [.reopen .done, exampleAccept none, .drain fun _ => exampleVisit,
    .resume (exampleAnswers (.error .foreign)), .drain fun _ => exampleVisit,
    .resume (exampleAnswers (.error .foreign)), .drain fun _ => exampleVisit,
    .resume (exampleAnswers (.error .foreign)), .drain fun _ => exampleVisit]

/-- The calls of `send` for a record are not bounded by three: a line that fails is tried again on
every pass. -/
theorem channelSend_more_than_thrice :
    ∃ labels : List Event, ∃ world : World,
      Unopened (fun _ => 0) exampleWorld ∧
        Run (Restrict (ofFunction (step exampleOptions)) (Lawful fun _ => 0)) exampleWorld labels
          world ∧
        sendCalls "message" world.trace = 4 := by
  have lawful : Along (step exampleOptions) (Lawful fun _ => 0) exampleWorld exampleNotices :=
    ⟨trivial, exampleAccept_lawful _ _ rfl, trivial, trivial, trivial, trivial, trivial, trivial,
      trivial, trivial⟩
  exact ⟨exampleNotices, _, exampleWorld_unopened, Run.foldl_along lawful, by decide⟩

end Murage.ChannelDelivery
