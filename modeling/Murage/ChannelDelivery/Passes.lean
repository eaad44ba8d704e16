import Murage.ChannelDelivery.Trace

/-!
Owns what a pass keeps: a visit, a handler and a whole pass leave the ledger sound, and where a
pass waits with a reply, the reply has been marked and nothing of it has gone out before.
-/

namespace Murage.ChannelDelivery

/-- An open process whose ledger is sound. -/
structure Alive (occurred : String → Int) (start : Ledger) (world : World) : Prop where
  sound : Sound occurred start world
  serving : Serving world
  isOpen : world.isOpen = true

/-- What stands while a pass waits at a record. -/
def Waits (world : World) (deliveryId : String) : Await → Prop
  | .noticeReserve _ | .noticeSend | .audio _ => True
  | .replyReserve _ _ =>
    world.ledger.Unready deliveryId ∧ replies deliveryId world.trace < 3 ∧
      (∀ record ∈ world.ledger.records, record.deliveryId = deliveryId →
        replies deliveryId world.trace < record.attempts) ∧
      (world.stopped = false → Quiet deliveryId world.trace)
  | .replySend _ =>
    world.ledger.Unready deliveryId ∧
      (world.stopped = false →
        replies deliveryId world.trace = refusals deliveryId world.trace + 1 ∧
          ∀ entry ∈ world.trace, entry.mayHaveGone deliveryId = false)

def Flow.Keeps (occurred : String → Int) (start : Ledger) (deliveryId : String) : Flow → Prop
  | .next world => Alive occurred start world
  | .done world _ => Alive occurred start world
  | .wait world await =>
    Alive occurred start world ∧ Known start world.trace deliveryId ∧
      Waits world deliveryId await

variable {options : Options} {occurred : String → Int} {start : Ledger} {world next : World}
  {deliveryId : String}

theorem active_stopped {current : Bool} (isActive : ¬(!world.active current) = true) :
    world.stopped = false := by
  simp only [World.active, Bool.not_and, Bool.not_not, Bool.or_eq_true, not_or] at isActive
  exact Bool.eq_false_iff.mpr isActive.1

/-! ## One change -/

variable {fn : Record → Record} {records later : List Record}

theorem changeFirst_forall₂ {relation : Record → Record → Prop}
    (stays : ∀ record, relation record record)
    (moves : ∀ record ∈ records, record.deliveryId = deliveryId → relation record (fn record))
    (changed : changeFirst deliveryId fn records = some later) :
    List.Forall₂ relation records later := by
  induction records generalizing later with
  | nil => simp [changeFirst] at changed
  | cons record rest ih =>
    have restMoves : ∀ other ∈ rest, other.deliveryId = deliveryId → relation other (fn other) :=
      fun other isIn => moves other (List.mem_cons_of_mem _ isIn)
    rw [changeFirst] at changed
    split_ifs at changed with isIt
    · obtain rfl := Option.some.inj changed
      refine List.Forall₂.cons (moves record List.mem_cons_self isIt) ?_
      exact List.forall₂_same.mpr fun other _ => stays other
    · obtain ⟨deeper, isDeeper, rfl⟩ := Option.map_eq_some_iff.mp changed
      exact List.Forall₂.cons (stays record) (ih restMoves isDeeper)

theorem changeFirst_found (distinct : (records.map (·.deliveryId)).Nodup)
    (changed : changeFirst deliveryId fn records = some later) {record : Record}
    (isIn : record ∈ later) (isIt : record.deliveryId = deliveryId) :
    ∃ earlier ∈ records, earlier.deliveryId = deliveryId ∧ record = fn earlier := by
  induction records generalizing later with
  | nil => simp [changeFirst] at changed
  | cons first rest ih =>
    obtain ⟨isNew, restDistinct⟩ := List.nodup_cons.mp distinct
    rw [changeFirst] at changed
    split_ifs at changed with isFirst
    · obtain rfl := Option.some.inj changed
      rcases List.mem_cons.mp isIn with rfl | deeper
      · exact ⟨first, List.mem_cons_self, isFirst, rfl⟩
      · exact absurd (List.mem_map.mpr ⟨record, deeper, isIt.trans isFirst.symm⟩) isNew
    · obtain ⟨others, isOthers, rfl⟩ := Option.map_eq_some_iff.mp changed
      rcases List.mem_cons.mp isIn with rfl | deeper
      · exact absurd isIt isFirst
      · obtain ⟨earlier, isEarlier, found⟩ := ih restDistinct isOthers deeper
        exact ⟨earlier, List.mem_cons_of_mem _ isEarlier, found⟩

theorem changeFirst_mem (changed : changeFirst deliveryId fn records = some later) :
    ∃ earlier ∈ records, earlier.deliveryId = deliveryId ∧ fn earlier ∈ later := by
  induction records generalizing later with
  | nil => simp [changeFirst] at changed
  | cons first rest ih =>
    rw [changeFirst] at changed
    split_ifs at changed with isFirst
    · obtain rfl := Option.some.inj changed
      exact ⟨first, List.mem_cons_self, isFirst, List.mem_cons_self⟩
    · obtain ⟨others, isOthers, rfl⟩ := Option.map_eq_some_iff.mp changed
      obtain ⟨earlier, isEarlier, isIt, isIn⟩ := ih isOthers
      exact ⟨earlier, List.mem_cons_of_mem _ isEarlier, isIt, List.mem_cons_of_mem _ isIn⟩

theorem mutate_some {later : Ledger} {written : Bool} (wrote : mutate later written world = some next) :
    later.parses = true ∧ next = { world with file := some later, state := later } := by
  unfold mutate at wrote
  split_ifs at wrote with isFine
  exact ⟨(Bool.and_eq_true_iff.mp isFine).1, (Option.some.inj wrote).symm⟩

theorem Alive.mutate (alive : Alive occurred start world) {later : Ledger} {written : Bool}
    (follows : world.ledger.Follows world.trace later)
    (wrote : mutate later written world = some next) : Alive occurred start next := by
  obtain ⟨parses, rfl⟩ := mutate_some wrote
  refine ⟨alive.sound.write follows, ⟨rfl, ?_, parses⟩, alive.isOpen⟩
  show (later.records.map (·.deliveryId)).Nodup
  rw [follows.ids, alive.serving.current]
  exact alive.serving.distinct

/-- What a written change leaves. -/
structure Changed (occurred : String → Int) (start : Ledger) (deliveryId : String)
    (fn : Record → Record) (world next : World) : Prop where
  alive : Alive occurred start next
  sameTrace : next.trace = world.trace
  sameStop : next.stopped = world.stopped
  found : ∀ record ∈ next.ledger.records, record.deliveryId = deliveryId →
    ∃ earlier ∈ world.ledger.records, earlier.deliveryId = deliveryId ∧ record = fn earlier
  stays : ∃ earlier ∈ world.ledger.records, earlier.deliveryId = deliveryId ∧
    fn earlier ∈ next.ledger.records

theorem Alive.change (alive : Alive occurred start world) {written : Bool}
    (continues : ∀ record ∈ world.ledger.records, record.deliveryId = deliveryId →
      Continues world.trace record (fn record))
    (changed : change deliveryId fn written world = some next) :
    Changed occurred start deliveryId fn world next := by
  obtain ⟨records, isRecords, wrote⟩ := Option.bind_eq_some_iff.mp changed
  rw [← alive.serving.current] at isRecords wrote
  have follows : world.ledger.Follows world.trace { world.ledger with records := records } :=
    { records := changeFirst_forall₂ (Continues.refl _) continues isRecords
      tombstones := rfl }
  have kept := alive.mutate follows wrote
  have distinct := alive.serving.distinct
  rw [← alive.serving.current] at distinct
  obtain ⟨-, rfl⟩ := mutate_some wrote
  exact ⟨kept, rfl, rfl, fun record isIn => changeFirst_found distinct isRecords isIn,
    changeFirst_mem isRecords⟩

theorem Alive.afterChange (alive : Alive occurred start world)
    {written : Bool} {goOn : World → Flow}
    (continues : ∀ record ∈ world.ledger.records, record.deliveryId = deliveryId →
      Continues world.trace record (fn record))
    (goesOn : ∀ marked, Changed occurred start deliveryId fn world marked →
      (goOn marked).Keeps occurred start deliveryId) :
    (afterChange deliveryId (ChannelDelivery.change deliveryId fn written world) goOn world).Keeps
      occurred start deliveryId := by
  unfold ChannelDelivery.afterChange
  cases isChange : ChannelDelivery.change deliveryId fn written world with
  | none => exact alive
  | some marked => exact goesOn marked (alive.change continues isChange)

/-! ## Sending -/

theorem Alive.log (alive : Alive occurred start world) {entry : Entry}
    (sound : Sound occurred start (world.log entry)) : Alive occurred start (world.log entry) :=
  ⟨sound, ⟨alive.serving.current, alive.serving.distinct, alive.serving.parses⟩, alive.isOpen⟩

theorem Alive.notice (alive : Alive occurred start world)
    (known : Known start world.trace deliveryId) {entry : Entry}
    (isNotice : (∃ text, entry = .sends deliveryId .notice text) ∨
      ∃ outcome, entry = .answers deliveryId .notice outcome) :
    Alive occurred start (world.log entry) := by
  refine alive.log (alive.sound.log ?_ ?_ ?_ ?_)
  · rcases isNotice with ⟨text, rfl⟩ | ⟨outcome, rfl⟩ <;> rfl
  · rcases isNotice with ⟨text, rfl⟩ | ⟨outcome, rfl⟩ <;> exact known
  · rcases isNotice with ⟨text, rfl⟩ | ⟨outcome, rfl⟩ <;>
      exact fun _ sends => Bool.noConfusion sends
  · rcases isNotice with ⟨text, rfl⟩ | ⟨outcome, rfl⟩
    · rintro _ (refuses | gone)
      · exact Bool.noConfusion refuses
      · exact Bool.noConfusion gone
    · rintro _ (refuses | gone)
      · cases outcome <;> exact Bool.noConfusion refuses
      · cases outcome <;> exact Bool.noConfusion gone

theorem Alive.sends (alive : Alive occurred start world)
    (known : Known start world.trace deliveryId) {text : String} {runId : Option String}
    (waits : Waits world deliveryId (.replyReserve text runId)) (goes : world.stopped = false) :
    (Flow.wait (world.sends deliveryId .reply text) (.replySend runId)).Keeps occurred start
      deliveryId := by
  obtain ⟨unready, below, marked, stays⟩ := waits
  have quiet := stays goes
  refine ⟨alive.log (alive.sound.log rfl known ?_ ?_), known.cons, unready, fun _ => ⟨?_, ?_⟩⟩
  · intro other isReply
    obtain rfl : deliveryId = other := of_decide_eq_true isReply
    exact ⟨quiet, below, unready, marked⟩
  · rintro other (refuses | gone)
    · exact Bool.noConfusion refuses
    · exact Bool.noConfusion gone
  · have grown : replies deliveryId (.sends deliveryId .reply text :: world.trace) =
        replies deliveryId world.trace + 1 := by
      rw [replies_cons]
      simp [Entry.sendsReply]
    have same : refusals deliveryId (.sends deliveryId .reply text :: world.trace) =
        refusals deliveryId world.trace := by
      rw [refusals_cons]
      simp [Entry.refusesReply]
    show replies deliveryId (.sends deliveryId .reply text :: world.trace) =
      refusals deliveryId (.sends deliveryId .reply text :: world.trace) + 1
    rw [grown, same, quiet.refused]
  · intro entry isIn
    rcases List.mem_cons.mp isIn with rfl | older
    · rfl
    · exact quiet.stayed entry older

/-! ## A visit -/

theorem find_some {record : Record} (alive : Alive occurred start world)
    (found : world.state.find deliveryId = some record) :
    record ∈ world.ledger.records ∧ record.deliveryId = deliveryId ∧
      Known start world.trace deliveryId := by
  have isIt : record.deliveryId = deliveryId := by simpa using List.find?_some found
  have isIn : record ∈ world.ledger.records := by
    rw [alive.serving.current]
    exact List.mem_of_find?_eq_some found
  refine ⟨isIn, isIt, ?_⟩
  rw [← isIt]
  exact alive.sound.named record isIn

theorem continues_of_unready {trace : List Entry} {record later : Record}
    (sameReceipt : later.tombstone = record.tombstone) (attempts : record.attempts ≤ later.attempts)
    (unready : later.state.ready = false) : Continues trace record later where
  sameReceipt := sameReceipt
  attempts := attempts
  ready := fun isReady => Bool.noConfusion (isReady.symm.trans unready)

theorem continues_of_sameState {trace : List Entry} {record later : Record}
    (sameReceipt : later.tombstone = record.tombstone) (attempts : later.attempts = record.attempts)
    (sameState : later.state = record.state) : Continues trace record later where
  sameReceipt := sameReceipt
  attempts := Nat.le_of_eq attempts.symm
  ready := fun isReady => Or.inl (sameState ▸ isReady)

theorem Changed.waits {mark : Record → Record}
    (changed : Changed occurred start deliveryId mark world next)
    (alive : Alive occurred start world)
    (isSending : ∀ record, (mark record).state = .sending)
    (isCounted : ∀ record, (mark record).attempts = record.attempts + 1)
    (quiet : Quiet deliveryId world.trace) {text : String} {runId : Option String} :
    Waits next deliveryId (.replyReserve text runId) := by
  refine ⟨?_, ?_, ?_, ?_⟩
  · intro record isIn isIt
    obtain ⟨earlier, -, -, rfl⟩ := changed.found record isIn isIt
    rw [isSending]
    rfl
  · obtain ⟨earlier, isEarlier, rfl, isIn⟩ := changed.stays
    have counted := alive.sound.counted earlier isEarlier
    have parses := changed.alive.serving.parses
    rw [← changed.alive.serving.current] at parses
    have bound := of_decide_eq_true (List.all_eq_true.mp parses _ isIn)
    rw [isCounted] at bound
    rw [changed.sameTrace]
    omega
  · intro record isIn isIt
    obtain ⟨earlier, isEarlier, rfl, rfl⟩ := changed.found record isIn isIt
    have counted := alive.sound.counted earlier isEarlier
    rw [isCounted, changed.sameTrace]
    omega
  · intro _
    rw [changed.sameTrace]
    exact quiet

theorem Alive.dispatchReply (alive : Alive occurred start world) (visit : Visit) :
    (dispatchReply options visit deliveryId world).Keeps occurred start deliveryId := by
  unfold ChannelDelivery.dispatchReply
  split
  · exact alive
  rename_i record isFound
  obtain ⟨isIn, isIt, known⟩ := find_some alive isFound
  split
  · exact alive
  rename_i text _
  split
  · exact alive
  rename_i due
  split
  · exact alive
  have isReady : record.state.ready = true := by
    simp only [Bool.or_eq_true, Bool.not_eq_true', not_or, Bool.not_eq_false] at due
    exact due.1
  have quiet := alive.sound.quiet record isIn isReady
  rw [isIt] at quiet
  refine alive.afterChange (fun other _ _ => continues_of_unready rfl (Nat.le_succ _) rfl) ?_
  intro marked changed
  have waits : ∀ text runId, Waits marked deliveryId (.replyReserve text runId) :=
    fun text runId => changed.waits alive (fun _ => rfl) (fun _ => rfl) quiet
  rw [← changed.sameTrace] at known
  split
  · exact ⟨changed.alive, known, waits _ _⟩
  split
  · exact changed.alive
  · rename_i isActive
    exact changed.alive.sends known (waits text record.runId) (active_stopped isActive)

theorem Alive.tellNotice (alive : Alive occurred start world)
    (known : Known start world.trace deliveryId) (visit : Visit) (record : Record)
    (result : RunResult) :
    (tellNotice options visit deliveryId record result world).Keeps occurred start deliveryId := by
  unfold ChannelDelivery.tellNotice
  split
  · exact alive
  split_ifs
  · exact alive
  · exact ⟨alive, known, trivial⟩
  · exact alive
  · exact ⟨alive.notice known (Or.inl ⟨_, rfl⟩), known.cons, trivial⟩

theorem Alive.collect (alive : Alive occurred start world) (visit : Visit) :
    (collect options visit deliveryId world).Keeps occurred start deliveryId := by
  unfold ChannelDelivery.collect
  split
  · exact alive
  rename_i record isFound
  obtain ⟨-, -, known⟩ := find_some alive isFound
  split
  · split
    · exact alive
    split
    · exact alive
    split
    · refine alive.afterChange (fun other _ _ => continues_of_unready rfl (Nat.le_refl _) rfl) ?_
      exact fun marked changed => changed.alive
    split
    · refine alive.afterChange (fun other _ _ => continues_of_sameState rfl rfl rfl) ?_
      exact fun marked changed => changed.alive.dispatchReply visit
    · exact alive.tellNotice known visit _ _
  · exact alive.dispatchReply visit

/-- **A visit keeps the ledger.** -/
theorem Alive.visitRecord (alive : Alive occurred start world) (visit : Visit) :
    (visitRecord options visit deliveryId world).Keeps occurred start deliveryId := by
  unfold ChannelDelivery.visitRecord
  split
  · exact alive
  split
  · exact alive
  rename_i record isFound
  obtain ⟨isIn, isIt, -⟩ := find_some alive isFound
  split
  · rename_i isAccepted
    split
    · exact alive
    split
    · exact alive
    · refine alive.afterChange (fun other _ _ => continues_of_sameState rfl rfl rfl) ?_
      exact fun marked changed => changed.alive
    · split
      · exact alive
      -- The record was ready before it is queued, as its delivery has one record only.
      refine alive.afterChange (fun other isOther isSame => ?_) ?_
      · have same : other = record := by
          refine List.inj_on_of_nodup_map ?_ isOther isIn (isSame.trans isIt.symm)
          rw [alive.serving.current]
          exact alive.serving.distinct
        refine ⟨rfl, Nat.le_refl _, fun _ => Or.inl ?_⟩
        rw [same, isAccepted.1]
        rfl
      · exact fun marked changed => changed.alive.collect visit
  · exact alive.collect visit

/-! ## A pass -/

/-- **The system invariant.** -/
structure Holds (occurred : String → Int) (start : Ledger) (world : World) : Prop where
  sound : Sound occurred start world
  serving : world.isOpen = true → Serving world
  waits : ∀ pass, world.draining = some pass →
    world.isOpen = true ∧ Known start world.trace pass.deliveryId ∧
      Waits world pass.deliveryId pass.await

theorem Holds.alive (holds : Holds occurred start world) (isOpen : world.isOpen = true) :
    Alive occurred start world :=
  ⟨holds.sound, holds.serving isOpen, isOpen⟩

theorem Alive.idle (alive : Alive occurred start world) :
    Holds occurred start { world with draining := none } where
  sound := alive.sound.congr rfl rfl rfl
  serving := fun _ => ⟨alive.serving.current, alive.serving.distinct, alive.serving.parses⟩
  waits := fun _ isPass => by simp at isPass

theorem Alive.waiting (alive : Alive occurred start world) (pass : Drain)
    (known : Known start world.trace pass.deliveryId)
    (waits : Waits world pass.deliveryId pass.await) :
    Holds occurred start { world with draining := some pass } where
  sound := alive.sound.congr rfl rfl rfl
  serving := fun _ => ⟨alive.serving.current, alive.serving.distinct, alive.serving.parses⟩
  waits := by
    intro other isPass
    obtain rfl := Option.some.inj isPass
    refine ⟨alive.isOpen, known, ?_⟩
    cases isAwait : pass.await <;> rw [isAwait] at waits <;> exact waits

theorem Alive.loop (alive : Alive occurred start world) (visits : String → Visit)
    (todo : List String) : Holds occurred start (loop options visits todo world) := by
  induction todo generalizing world with
  | nil => exact alive.idle
  | cons deliveryId rest ih =>
    have kept : (ChannelDelivery.visitRecord options (visits deliveryId) deliveryId world).Keeps
        occurred start deliveryId := alive.visitRecord (visits deliveryId)
    unfold ChannelDelivery.loop
    cases isVisit : ChannelDelivery.visitRecord options (visits deliveryId) deliveryId world with
    | next later =>
      rw [isVisit] at kept
      exact ih kept
    | done later ending =>
      rw [isVisit] at kept
      exact Alive.idle kept
    | wait later await =>
      rw [isVisit] at kept
      exact kept.1.waiting _ kept.2.1 kept.2.2

/-! ## After a wait -/

theorem caught_tombstone (options : Options) (error : SendError) (now : Int) (record : Record) :
    (caught options error now record).tombstone = record.tombstone ∧
      (caught options error now record).attempts = record.attempts := by
  unfold caught
  dsimp only
  split
  · split <;> exact ⟨rfl, rfl⟩
  · exact ⟨rfl, rfl⟩

theorem caught_ready {error : SendError} {now : Int} {record : Record}
    (isReady : (caught options error now record).state.ready = true) : error.definite = true := by
  by_contra notDefinite
  unfold caught at isReady
  dsimp only at isReady
  rw [if_neg notDefinite] at isReady
  exact Bool.noConfusion isReady

theorem Alive.catchError (alive : Alive occurred start world) (answers : Resumed)
    (error : SendError)
    (quiet : world.stopped = false → error.definite = true → Quiet deliveryId world.trace) :
    (catchError options answers deliveryId error world).Keeps occurred start deliveryId := by
  unfold ChannelDelivery.catchError
  split
  · exact alive
  rename_i isActive
  refine alive.afterChange (fun record _ isIt => ?_) fun marked changed => changed.alive
  obtain ⟨sameReceipt, sameAttempts⟩ :=
    caught_tombstone options error answers.now record
  refine ⟨sameReceipt, Nat.le_of_eq sameAttempts.symm, fun isReady => Or.inr ?_⟩
  rw [isIt]
  exact quiet (active_stopped isActive) (caught_ready isReady)

theorem Alive.answers (alive : Alive occurred start world)
    (known : Known start world.trace deliveryId) (unready : world.ledger.Unready deliveryId)
    (outcome : Except SendError Sent) :
    Alive occurred start (world.log (.answers deliveryId .reply outcome)) := by
  refine alive.log (alive.sound.log rfl known (fun _ sends => Bool.noConfusion sends) ?_)
  intro other isAbout
  have same : deliveryId = other := by
    cases outcome with
    | error error =>
      rcases isAbout with refuses | gone
      · exact of_decide_eq_true (Bool.and_eq_true_iff.mp refuses).1
      · exact of_decide_eq_true (Bool.and_eq_true_iff.mp gone).1
    | ok sent =>
      rcases isAbout with refuses | gone
      · exact Bool.noConfusion refuses
      · exact of_decide_eq_true gone
  rw [← same]
  exact unready

theorem quiet_answered {runId : Option String} (waits : Waits world deliveryId (.replySend runId))
    (goes : world.stopped = false) {error : SendError} (isDefinite : error.definite = true) :
    Quiet deliveryId (world.log (.answers deliveryId .reply (.error error))).trace := by
  obtain ⟨-, standing⟩ := waits
  obtain ⟨counted, stayed⟩ := standing goes
  constructor
  · show replies deliveryId (_ :: world.trace) = refusals deliveryId (_ :: world.trace)
    rw [replies_cons, refusals_cons, counted]
    simp [Entry.sendsReply, Entry.refusesReply, isDefinite]
  · intro entry isIn
    rcases List.mem_cons.mp isIn with rfl | older
    · simp [Entry.mayHaveGone, isDefinite]
    · exact stayed entry older

theorem Alive.settleReply (alive : Alive occurred start world) (answers : Resumed)
    (known : Known start world.trace deliveryId) (runId : Option String) (sent : Sent) :
    (settleReply options answers deliveryId runId sent world).Keeps occurred start deliveryId := by
  unfold ChannelDelivery.settleReply
  split
  · exact alive
  split
  · exact alive.catchError answers _ fun _ isDefinite => Bool.noConfusion isDefinite
  split
  · exact alive.catchError answers _ fun _ isDefinite => Bool.noConfusion isDefinite
  rename_i marked isChange
  have continues : ∀ record ∈ world.ledger.records, record.deliveryId = deliveryId →
      Continues world.trace record (delivered options sent.messageId record) :=
    fun record _ _ => continues_of_unready rfl (Nat.le_refl _) rfl
  have changed := alive.change continues isChange
  rw [← changed.sameTrace] at known
  split
  · split
    · exact changed.alive.catchError answers _ fun _ isDefinite => Bool.noConfusion isDefinite
    · exact changed.alive
    · exact ⟨changed.alive, known, trivial⟩
  · exact changed.alive

theorem Alive.settleNotice (alive : Alive occurred start world) (answers : Resumed) (sent : Sent) :
    (settleNotice options answers deliveryId sent world).Keeps occurred start deliveryId := by
  unfold ChannelDelivery.settleNotice
  split
  · exact alive
  split
  · cases isChange : ChannelDelivery.change deliveryId (fun x => { x with noticeSent := true })
        answers.noticeWritten world with
    | none => exact alive
    | some marked =>
      have continues : ∀ record ∈ world.ledger.records, record.deliveryId = deliveryId →
          Continues world.trace record { record with noticeSent := true } :=
        fun _ _ _ => continues_of_sameState rfl rfl rfl
      exact (alive.change continues isChange).alive
  · exact alive

/-- **What a pass does with its answer keeps the ledger.** -/
theorem Alive.answered (alive : Alive occurred start world) (answers : Resumed)
    (known : Known start world.trace deliveryId) {await : Await}
    (waits : Waits world deliveryId await) :
    (answered options answers deliveryId world await).Keeps occurred start deliveryId := by
  cases await with
  | noticeReserve text =>
    rw [ChannelDelivery.answered]
    split
    · exact alive
    split
    · exact alive
    · exact ⟨alive.notice known (Or.inl ⟨text, rfl⟩), known.cons, trivial⟩
  | noticeSend =>
    have logged := alive.notice known (Or.inr ⟨answers.sent, rfl⟩)
    rw [ChannelDelivery.answered]
    split
    · exact logged
    · exact logged.settleNotice answers _
  | replyReserve text runId =>
    rw [ChannelDelivery.answered]
    split
    · exact alive.catchError answers _ fun goes _ => waits.2.2.2 goes
    split
    · exact alive
    · rename_i isActive
      exact alive.sends known waits (active_stopped isActive)
  | replySend runId =>
    have logged := alive.answers known waits.1 answers.sent
    rw [ChannelDelivery.answered]
    split
    · rename_i error isError
      rw [isError] at logged ⊢
      exact logged.catchError answers _ fun goes isDefinite =>
        quiet_answered waits goes isDefinite
    · exact logged.settleReply answers known.cons runId _
  | audio left =>
    cases left with
    | zero => exact alive
    | succ left => exact ⟨alive, known, trivial⟩

theorem Holds.resume (holds : Holds occurred start world) (answers : Resumed) :
    Holds occurred start (resume options answers world) := by
  unfold ChannelDelivery.resume
  cases isDraining : world.draining with
  | none => exact holds
  | some pass =>
    obtain ⟨isOpen, known, waits⟩ := holds.waits pass isDraining
    have kept : (ChannelDelivery.answered options answers pass.deliveryId world
        pass.await).Keeps occurred start pass.deliveryId :=
      (holds.alive isOpen).answered answers known waits
    dsimp only
    cases isAnswered : ChannelDelivery.answered options answers pass.deliveryId world pass.await with
    | next later =>
      rw [isAnswered] at kept
      exact Alive.loop kept answers.visits pass.todo
    | done later ending =>
      rw [isAnswered] at kept
      exact Alive.idle kept
    | wait later await =>
      rw [isAnswered] at kept
      exact kept.1.waiting { pass with await := await } kept.2.1 kept.2.2

theorem Holds.drain (holds : Holds occurred start world) (isOpen : world.isOpen = true)
    (visits : String → Visit) : Holds occurred start (drain options visits world) := by
  unfold ChannelDelivery.drain
  split
  · exact holds
  · exact (holds.alive isOpen).loop visits _

end Murage.ChannelDelivery
