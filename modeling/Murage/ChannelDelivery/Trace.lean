import Murage.ChannelDelivery.Drain

/-!
Owns what a trace says of a reply, and the invariant of the ledger against the trace: every known
delivery is in the ledger or has left the window, and a record whose reply may still be sent has
no send that could have gone out. Logging, writing and admitting keep it.
-/

namespace Murage.ChannelDelivery

/-! ## What a trace says -/

def Entry.deliveryId : Entry → String
  | accepted deliveryId | sends deliveryId _ _ | answers deliveryId _ _ | interrupted deliveryId =>
    deliveryId

/-- `send` is called with the reply of the record. -/
def Entry.sendsReply (deliveryId : String) : Entry → Bool
  | sends other .reply _ => other = deliveryId
  | _ => false

/-- The send of the reply failed and had no effect. -/
def Entry.refusesReply (deliveryId : String) : Entry → Bool
  | answers other .reply (.error error) => other = deliveryId && error.definite
  | _ => false

def Entry.mayHaveGone (deliveryId : String) : Entry → Bool
  | answers other .reply (.error error) => other = deliveryId && !error.definite
  | answers other .reply (.ok _) => other = deliveryId
  | interrupted other => other = deliveryId
  | _ => false

def Entry.admitted : Entry → Option String
  | accepted deliveryId => some deliveryId
  | _ => none

/-- The deliveries that `accept` answered with "accepted". -/
def acceptedIds (trace : List Entry) : List String := trace.filterMap (·.admitted)

/-- How often `send` was called with the reply of the record. -/
def replies (deliveryId : String) (trace : List Entry) : Nat :=
  trace.countP (·.sendsReply deliveryId)

def refusals (deliveryId : String) (trace : List Entry) : Nat :=
  trace.countP (·.refusesReply deliveryId)

/-- After a reply that may have gone out, newest first, none is sent. -/
def SentOnce (deliveryId : String) (trace : List Entry) : Prop :=
  trace.Pairwise fun later earlier =>
    earlier.mayHaveGone deliveryId = true → later.sendsReply deliveryId = false

/-- Every send of the reply has failed and had no effect. -/
structure Quiet (deliveryId : String) (trace : List Entry) : Prop where
  refused : replies deliveryId trace = refusals deliveryId trace
  stayed : ∀ entry ∈ trace, entry.mayHaveGone deliveryId = false

theorem Entry.sendsReply_id {entry : Entry} {deliveryId : String}
    (sends : entry.sendsReply deliveryId = true) : entry.deliveryId = deliveryId := by
  cases entry with
  | sends other kind text =>
    cases kind with
    | reply => exact of_decide_eq_true sends
    | notice => exact Bool.noConfusion sends
  | accepted other => exact Bool.noConfusion sends
  | answers other kind outcome => exact Bool.noConfusion sends
  | interrupted other => exact Bool.noConfusion sends

section

variable {deliveryId : String} {entry : Entry} {trace : List Entry}

theorem replies_cons (deliveryId : String) (entry : Entry) (trace : List Entry) :
    replies deliveryId (entry :: trace) =
      replies deliveryId trace + if entry.sendsReply deliveryId then 1 else 0 :=
  List.countP_cons

theorem refusals_cons (deliveryId : String) (entry : Entry) (trace : List Entry) :
    refusals deliveryId (entry :: trace) =
      refusals deliveryId trace + if entry.refusesReply deliveryId then 1 else 0 :=
  List.countP_cons

theorem Quiet.cons (quiet : Quiet deliveryId trace) (sends : entry.sendsReply deliveryId = false)
    (refuses : entry.refusesReply deliveryId = false)
    (stays : entry.mayHaveGone deliveryId = false) : Quiet deliveryId (entry :: trace) where
  refused := by
    rw [replies_cons, refusals_cons, sends, refuses]
    simpa using quiet.refused
  stayed := by
    intro other isIn
    rcases List.mem_cons.mp isIn with rfl | older
    · exact stays
    · exact quiet.stayed other older

theorem quiet_of_unseen (unseen : ∀ entry ∈ trace, entry.deliveryId ≠ deliveryId) :
    Quiet deliveryId trace ∧ replies deliveryId trace = 0 := by
  have none : replies deliveryId trace = 0 :=
    List.countP_eq_zero.mpr fun entry isIn sends =>
      unseen entry isIn (Entry.sendsReply_id sends)
  refine ⟨⟨?_, ?_⟩, none⟩
  · rw [none]
    refine (List.countP_eq_zero.mpr fun entry isIn refuses => ?_).symm
    have other := unseen entry isIn
    unfold Entry.refusesReply at refuses
    split at refuses
    · simp [Entry.deliveryId] at other refuses
      exact other refuses.1
    · exact Bool.noConfusion refuses
  · intro entry isIn
    have other := unseen entry isIn
    unfold Entry.mayHaveGone
    split <;> simp_all [Entry.deliveryId]

end

/-! ## The ledger against the trace -/

/-- The row keeps the time at which its delivery is presented, under its alias too. -/
def Tombstone.Stamped (occurred : String → Int) (row : Tombstone) : Prop :=
  ∀ deliveryId, row.names deliveryId = true → row.occurredAt = occurred deliveryId

def Known (start : Ledger) (trace : List Entry) (deliveryId : String) : Prop :=
  start.has deliveryId = true ∨ deliveryId ∈ acceptedIds trace

/-- No record of the delivery can be sent. -/
def Ledger.Unready (ledger : Ledger) (deliveryId : String) : Prop :=
  ∀ record ∈ ledger.records, record.deliveryId = deliveryId → record.state.ready = false

structure Sound (occurred : String → Int) (start : Ledger) (world : World) : Prop where
  stamped : ∀ row ∈ world.ledger.receipts, row.Stamped occurred
  recorded : ∀ deliveryId, Known start world.trace deliveryId →
    world.ledger.has deliveryId = true ∨ occurred deliveryId < world.clock - windowMs
  named : ∀ record ∈ world.ledger.records, Known start world.trace record.deliveryId
  traced : ∀ entry ∈ world.trace, Known start world.trace entry.deliveryId
  admitted : (acceptedIds world.trace).Nodup
  fresh : ∀ deliveryId ∈ acceptedIds world.trace, start.has deliveryId = false
  counted : ∀ record ∈ world.ledger.records,
    replies record.deliveryId world.trace ≤ record.attempts
  quiet : ∀ record ∈ world.ledger.records, record.state.ready = true →
    Quiet record.deliveryId world.trace
  once : ∀ deliveryId, SentOnce deliveryId world.trace
  single : ∀ deliveryId, replies deliveryId world.trace ≤ refusals deliveryId world.trace + 1
  bounded : ∀ deliveryId, replies deliveryId world.trace ≤ 3

/-- What an open process keeps. -/
structure Serving (world : World) : Prop where
  current : world.ledger = world.state
  distinct : (world.state.records.map (·.deliveryId)).Nodup
  parses : world.state.parses = true

section

variable {occurred : String → Int} {start : Ledger} {world next : World} {entry : Entry}

variable {trace : List Entry}

theorem Known.cons {deliveryId : String} (known : Known start trace deliveryId) :
    Known start (entry :: trace) deliveryId := by
  refine known.imp_right fun isIn => ?_
  obtain ⟨older, isOlder, isAdmitted⟩ := List.mem_filterMap.mp isIn
  exact List.mem_filterMap.mpr ⟨older, List.mem_cons_of_mem _ isOlder, isAdmitted⟩

theorem acceptedIds_cons_none (notAdmitted : entry.admitted = none) :
    acceptedIds (entry :: trace) = acceptedIds trace := by
  rw [acceptedIds, List.filterMap_cons_none notAdmitted]
  rfl

/-- An entry that is no admission may be logged when a reply is sent only for a quiet record that
is marked, and its fate only for one that is no longer to be sent. -/
theorem Sound.log (sound : Sound occurred start world) (notAdmitted : entry.admitted = none)
    (known : Known start world.trace entry.deliveryId)
    (sends : ∀ deliveryId, entry.sendsReply deliveryId = true →
      Quiet deliveryId world.trace ∧ replies deliveryId world.trace < 3 ∧
        world.ledger.Unready deliveryId ∧ ∀ record ∈ world.ledger.records,
          record.deliveryId = deliveryId → replies deliveryId world.trace < record.attempts)
    (ends : ∀ deliveryId,
      entry.refusesReply deliveryId = true ∨ entry.mayHaveGone deliveryId = true →
        world.ledger.Unready deliveryId) :
    Sound occurred start (world.log entry) where
  stamped := sound.stamped
  recorded := by
    intro deliveryId isKnown
    refine sound.recorded deliveryId ?_
    rwa [Known, World.log, acceptedIds_cons_none notAdmitted] at isKnown
  named := fun record isIn => (sound.named record isIn).cons
  traced := by
    intro other isIn
    rcases List.mem_cons.mp isIn with rfl | older
    · exact known.cons
    · exact (sound.traced other older).cons
  admitted := by
    rw [World.log, acceptedIds_cons_none notAdmitted]
    exact sound.admitted
  fresh := by
    rw [World.log, acceptedIds_cons_none notAdmitted]
    exact sound.fresh
  counted := by
    intro record isIn
    have before := sound.counted record isIn
    have grown := replies_cons record.deliveryId entry world.trace
    by_cases isSend : entry.sendsReply record.deliveryId = true
    · have below := (sends _ isSend).2.2.2 record isIn rfl
      rw [if_pos isSend] at grown
      show replies record.deliveryId (entry :: world.trace) ≤ record.attempts
      omega
    · rw [if_neg isSend] at grown
      show replies record.deliveryId (entry :: world.trace) ≤ record.attempts
      omega
  quiet := by
    intro record isIn isReady
    refine (sound.quiet record isIn isReady).cons ?_ ?_ ?_
    · refine Bool.eq_false_iff.mpr fun isSend => ?_
      have unready := (sends _ isSend).2.2.1 record isIn rfl
      exact Bool.noConfusion (isReady.symm.trans unready)
    · refine Bool.eq_false_iff.mpr fun isRefusal => ?_
      have unready := ends _ (Or.inl isRefusal) record isIn rfl
      exact Bool.noConfusion (isReady.symm.trans unready)
    · refine Bool.eq_false_iff.mpr fun isGone => ?_
      have unready := ends _ (Or.inr isGone) record isIn rfl
      exact Bool.noConfusion (isReady.symm.trans unready)
  once := by
    intro deliveryId
    refine List.pairwise_cons.mpr ⟨fun earlier isIn isGone => ?_, sound.once deliveryId⟩
    refine Bool.eq_false_iff.mpr fun isSend => ?_
    have stayed := (sends _ isSend).1.stayed earlier isIn
    exact Bool.noConfusion (isGone.symm.trans stayed)
  single := by
    intro deliveryId
    have before := sound.single deliveryId
    have grown := replies_cons deliveryId entry world.trace
    have refused := refusals_cons deliveryId entry world.trace
    show replies deliveryId (entry :: world.trace) ≤ refusals deliveryId (entry :: world.trace) + 1
    by_cases isSend : entry.sendsReply deliveryId = true
    · have quiet := (sends _ isSend).1.refused
      rw [if_pos isSend] at grown
      omega
    · rw [if_neg isSend] at grown
      omega
  bounded := by
    intro deliveryId
    have before := sound.bounded deliveryId
    have grown := replies_cons deliveryId entry world.trace
    show replies deliveryId (entry :: world.trace) ≤ 3
    by_cases isSend : entry.sendsReply deliveryId = true
    · have below := (sends _ isSend).2.1
      rw [if_pos isSend] at grown
      omega
    · rw [if_neg isSend] at grown
      omega

theorem Sound.tick (sound : Sound occurred start world) {clock : Int}
    (forward : world.clock ≤ clock) : Sound occurred start { world with clock := clock } :=
  { stamped := sound.stamped
    recorded := fun deliveryId known =>
      (sound.recorded deliveryId known).imp_right fun expired =>
        lt_of_lt_of_le expired (Int.sub_le_sub_right forward _)
    named := sound.named
    traced := sound.traced
    admitted := sound.admitted
    fresh := sound.fresh
    counted := sound.counted
    quiet := sound.quiet
    once := sound.once
    single := sound.single
    bounded := sound.bounded }

theorem Sound.congr (sound : Sound occurred start world) (sameFile : next.file = world.file)
    (sameTrace : next.trace = world.trace) (sameClock : next.clock = world.clock) :
    Sound occurred start next := by
  have sameLedger : next.ledger = world.ledger := by rw [World.ledger, sameFile, World.ledger]
  constructor
  · rw [sameLedger]; exact sound.stamped
  · rw [sameLedger, sameTrace, sameClock]; exact sound.recorded
  · rw [sameLedger, sameTrace]; exact sound.named
  · rw [sameTrace]; exact sound.traced
  · rw [sameTrace]; exact sound.admitted
  · rw [sameTrace]; exact sound.fresh
  · rw [sameLedger, sameTrace]; exact sound.counted
  · rw [sameLedger, sameTrace]; exact sound.quiet
  · rw [sameTrace]; exact sound.once
  · rw [sameTrace]; exact sound.single
  · rw [sameTrace]; exact sound.bounded

/-- A record goes on as `later`: it keeps its receipt, and it may be sent only if it could be sent
before or nothing of it has gone out. -/
structure Continues (trace : List Entry) (record later : Record) : Prop where
  sameReceipt : later.tombstone = record.tombstone
  attempts : record.attempts ≤ later.attempts
  ready : later.state.ready = true →
    record.state.ready = true ∨ Quiet record.deliveryId trace

theorem Continues.refl (trace : List Entry) (record : Record) : Continues trace record record where
  sameReceipt := rfl
  attempts := Nat.le_refl _
  ready := Or.inl

theorem Continues.sameId {record later : Record} (continues : Continues trace record later) :
    later.deliveryId = record.deliveryId :=
  congrArg Tombstone.deliveryId continues.sameReceipt

/-- The ledger goes on: the same receipts, each record going on as its own. -/
structure Ledger.Follows (trace : List Entry) (ledger later : Ledger) : Prop where
  records : List.Forall₂ (Continues trace) ledger.records later.records
  tombstones : later.tombstones = ledger.tombstones

theorem forall₂_tombstones {records later : List Record}
    (follows : List.Forall₂ (Continues trace) records later) :
    later.map (·.tombstone) = records.map (·.tombstone) := by
  induction follows with
  | nil => rfl
  | cons first _ ih =>
    rw [List.map_cons, List.map_cons, first.sameReceipt, ih]

theorem forall₂_before {records later : List Record}
    (follows : List.Forall₂ (Continues trace) records later) {record : Record}
    (isIn : record ∈ later) : ∃ earlier ∈ records, Continues trace earlier record := by
  induction follows with
  | nil => exact absurd isIn List.not_mem_nil
  | cons first _ ih =>
    rcases List.mem_cons.mp isIn with rfl | deeper
    · exact ⟨_, List.mem_cons_self, first⟩
    · obtain ⟨earlier, isEarlier, continues⟩ := ih deeper
      exact ⟨earlier, List.mem_cons_of_mem _ isEarlier, continues⟩

theorem Ledger.Follows.receipts {ledger later : Ledger} (follows : ledger.Follows trace later) :
    later.receipts = ledger.receipts := by
  rw [Ledger.receipts, Ledger.receipts, forall₂_tombstones follows.records, follows.tombstones]

theorem Ledger.Follows.ids {ledger later : Ledger} (follows : ledger.Follows trace later) :
    later.records.map (·.deliveryId) = ledger.records.map (·.deliveryId) := by
  have same := congrArg (List.map Tombstone.deliveryId) (forall₂_tombstones follows.records)
  rw [List.map_map, List.map_map] at same
  exact same

theorem Ledger.Follows.before {ledger later : Ledger} (follows : ledger.Follows trace later)
    {record : Record} (isIn : record ∈ later.records) :
    ∃ earlier ∈ ledger.records, Continues trace earlier record := by
  exact forall₂_before follows.records isIn

theorem Sound.write (sound : Sound occurred start world) {later : Ledger}
    (follows : world.ledger.Follows world.trace later) :
    Sound occurred start
      { world with
        file := some later
        state := later } where
  stamped := by
    show ∀ row ∈ later.receipts, _
    rw [follows.receipts]
    exact sound.stamped
  recorded := by
    intro deliveryId known
    show later.has deliveryId = true ∨ _
    rw [Ledger.has, follows.receipts]
    exact sound.recorded deliveryId known
  named := by
    intro record isIn
    obtain ⟨earlier, isEarlier, continues⟩ := follows.before isIn
    rw [continues.sameId]
    exact sound.named earlier isEarlier
  traced := sound.traced
  admitted := sound.admitted
  fresh := sound.fresh
  counted := by
    intro record isIn
    obtain ⟨earlier, isEarlier, continues⟩ := follows.before isIn
    rw [continues.sameId]
    exact Nat.le_trans (sound.counted earlier isEarlier) continues.attempts
  quiet := by
    intro record isIn isReady
    obtain ⟨earlier, isEarlier, continues⟩ := follows.before isIn
    rw [continues.sameId]
    exact (continues.ready isReady).elim (sound.quiet earlier isEarlier) id
  once := sound.once
  single := sound.single
  bounded := sound.bounded

end

end Murage.ChannelDelivery
