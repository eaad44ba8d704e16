import Murage.ChannelDelivery.Runs

/-!
Owns how a pass ends while deliveries are admitted: which records it examined, and that it finds
every record it comes to unless an admission took a settled one away.

Does not own: the trace of what went out.
-/

namespace Murage.ChannelDelivery

open Murage.Library.Transition

variable {options : Options} {world next : World} {deliveryId : String} {ids : List String}

/-! ## What a pass examined -/

def World.deliveries (world : World) : List String := world.state.records.map (·.deliveryId)

/-- The records that the rest of a pass comes to, up to its next wait. -/
def loopExamined (options : Options) (visits : String → Visit) : List String → World → List String
  | [], _ => []
  | deliveryId :: rest, world =>
    match visitRecord options (visits deliveryId) deliveryId world with
    | .next later => deliveryId :: loopExamined options visits rest later
    | .done _ _ => [deliveryId]
    | .wait _ _ => [deliveryId]

/-- Where a pass stands: it waits, has come to all its records, or ended before. -/
inductive Outcome where
  | waiting
  | finished
  | cut (ending : Ending)
  deriving DecidableEq

def loopOutcome (options : Options) (visits : String → Visit) : List String → World → Outcome
  | [], _ => .finished
  | deliveryId :: rest, world =>
    match visitRecord options (visits deliveryId) deliveryId world with
    | .next later => loopOutcome options visits rest later
    | .done _ ending => .cut ending
    | .wait _ _ => .waiting

/-- The world with the pass under way, or the last one: the deliveries it began with, those it came
to, and where it stands. -/
structure Watched where
  world : World
  began : List String := []
  examined : List String := []
  outcome : Outcome := .finished

def watchDrain (options : Options) (visits : String → Visit) (w : Watched) : Watched :=
  if w.world.isOpen && w.world.draining.isNone then
    { world := drain options visits w.world
      began := w.world.deliveries
      examined := loopExamined options visits w.world.deliveries w.world
      outcome := loopOutcome options visits w.world.deliveries w.world }
  else { w with world := step options w.world (.drain visits) }

def watchResume (options : Options) (answers : Resumed) (w : Watched) : Watched :=
  match w.world.draining with
  | none => { w with world := resume options answers w.world }
  | some pass =>
    match answered options answers pass.deliveryId w.world pass.await with
    | .next later =>
      { w with
        world := resume options answers w.world
        examined := w.examined ++ loopExamined options answers.visits pass.todo later
        outcome := loopOutcome options answers.visits pass.todo later }
    | .done _ ending =>
      { w with
        world := resume options answers w.world
        outcome := .cut ending }
    | .wait _ _ => { w with world := resume options answers w.world }

def watch (options : Options) (w : Watched) : Event → Watched
  | .drain visits => watchDrain options visits w
  | .resume answers => watchResume options answers w
  | event => { w with world := step options w.world event }

/-! ## Records that are there -/

/-- A record that an admission leaves. -/
def World.Standing (world : World) (deliveryId : String) : Prop :=
  ∃ record ∈ world.state.records, record.deliveryId = deliveryId ∧ record.state.settled = false

def Await.isReply : Await → Bool
  | .replyReserve _ _ | .replySend _ => true
  | _ => false

/-- A visit of a record that is there does not lose it, and the records stay. -/
def Flow.Finds (ids : List String) (deliveryId : String) : Flow → Prop
  | .next later => later.deliveries = ids
  | .done _ ending => ending ≠ .gone
  | .wait later await =>
    later.deliveries = ids ∧ (await.isReply = true → later.stopped = false → later.Standing deliveryId)

theorem find_isSome : (world.state.find deliveryId).isSome = true ↔ deliveryId ∈ world.deliveries := by
  unfold Ledger.find World.deliveries
  rw [List.find?_isSome, List.mem_map]
  exact exists_congr fun record => and_congr_right fun _ => decide_eq_true_iff

theorem find_of_mem (isIn : deliveryId ∈ world.deliveries) :
    ∃ record, world.state.find deliveryId = some record := Option.isSome_iff_exists.mp (find_isSome.mpr isIn)

theorem forall₂_deliveryId {records later : List Record}
    (same : List.Forall₂ (fun record other : Record => other.deliveryId = record.deliveryId) records later) :
    later.map (·.deliveryId) = records.map (·.deliveryId) := by
  induction same with
  | nil => rfl
  | cons sameHead _ ih =>
    rw [List.map_cons, List.map_cons, sameHead, ih]

theorem change_ids {fn : Record → Record} {written : Bool}
    (sameId : ∀ record, (fn record).deliveryId = record.deliveryId)
    (changed : change deliveryId fn written world = some next) :
    next.deliveries = world.deliveries ∧ next.stopped = world.stopped ∧
      ∃ record, record.deliveryId = deliveryId ∧ fn record ∈ next.state.records := by
  obtain ⟨records, isRecords, wrote⟩ := Option.bind_eq_some_iff.mp changed
  obtain ⟨-, rfl⟩ := mutate_some wrote
  obtain ⟨record, -, isIt, isIn⟩ := changeFirst_mem isRecords
  refine ⟨?_, rfl, record, isIt, isIn⟩
  exact forall₂_deliveryId (changeFirst_forall₂ (fun _ => rfl) (fun record _ _ => sameId record) isRecords)

theorem afterChange_finds {fn : Record → Record} {written : Bool} {goOn : World → Flow}
    (isIn : deliveryId ∈ world.deliveries) (sameId : ∀ record, (fn record).deliveryId = record.deliveryId)
    (goesOn : ∀ marked, marked.deliveries = world.deliveries →
      (∃ record, record.deliveryId = deliveryId ∧ fn record ∈ marked.state.records) →
      (goOn marked).Finds world.deliveries deliveryId) :
    (afterChange deliveryId (change deliveryId fn written world) goOn world).Finds world.deliveries deliveryId := by
  unfold afterChange
  cases isChange : change deliveryId fn written world with
  | none =>
    show (if (world.state.find deliveryId).isSome then Ending.unwritten else Ending.gone) ≠ .gone
    rw [if_pos (find_isSome.mpr isIn)]
    exact nofun
  | some marked =>
    obtain ⟨sameIds, -, isMarked⟩ := change_ids sameId isChange
    exact goesOn marked sameIds isMarked

theorem dispatchReply_finds (isIn : deliveryId ∈ world.deliveries) (visit : Visit) :
    (dispatchReply options visit deliveryId world).Finds world.deliveries deliveryId := by
  obtain ⟨record, isFound⟩ := find_of_mem isIn
  unfold dispatchReply
  rw [isFound]
  dsimp only
  split
  · exact rfl
  split
  · exact rfl
  split
  · exact nofun
  · refine afterChange_finds isIn (fun _ => rfl) ?_
    rintro marked sameIds ⟨earlier, isIt, isMarked⟩
    have standing : marked.Standing deliveryId := ⟨_, isMarked, isIt, rfl⟩
    split
    · exact ⟨sameIds, fun _ _ => standing⟩
    split
    · exact nofun
    · exact ⟨sameIds, fun _ _ => standing⟩

theorem tellNotice_finds (visit : Visit) (record : Record) (result : RunResult) :
    (tellNotice options visit deliveryId record result world).Finds world.deliveries deliveryId := by
  unfold tellNotice
  split
  · exact rfl
  · split_ifs
    · exact rfl
    · exact ⟨rfl, nofun⟩
    · exact nofun
    · exact ⟨rfl, nofun⟩

theorem collect_finds (isIn : deliveryId ∈ world.deliveries) (visit : Visit) :
    (collect options visit deliveryId world).Finds world.deliveries deliveryId := by
  obtain ⟨record, isFound⟩ := find_of_mem isIn
  unfold collect
  rw [isFound]
  dsimp only
  split
  · split
    · exact nofun
    split
    · exact nofun
    split
    · exact afterChange_finds isIn (fun _ => rfl) fun marked sameIds _ => sameIds
    split
    · refine afterChange_finds isIn (fun _ => rfl) fun marked sameIds _ => ?_
      rw [← sameIds]
      exact dispatchReply_finds (sameIds ▸ isIn) visit
    · exact tellNotice_finds visit _ _
  · exact dispatchReply_finds isIn visit

/-- **A visit** of a record that is there ends no pass for want of it. -/
theorem visitRecord_finds (isIn : deliveryId ∈ world.deliveries) (visit : Visit) :
    (visitRecord options visit deliveryId world).Finds world.deliveries deliveryId := by
  obtain ⟨record, isFound⟩ := find_of_mem isIn
  unfold visitRecord
  rw [isFound]
  dsimp only
  split
  · exact nofun
  split
  · split
    · exact rfl
    split
    · exact nofun
    · exact afterChange_finds isIn (fun _ => rfl) fun marked sameIds _ => sameIds
    · split
      · exact nofun
      · refine afterChange_finds isIn (fun _ => rfl) fun marked sameIds _ => ?_
        rw [← sameIds]
        exact collect_finds (sameIds ▸ isIn) visit
  · exact collect_finds isIn visit

/-! ## The rest of a pass -/

theorem catchError_finds (isIn : world.stopped = false → deliveryId ∈ world.deliveries) (answers : Resumed)
    (error : SendError) :
    (catchError options answers deliveryId error world).Finds world.deliveries deliveryId := by
  unfold catchError
  split
  · exact nofun
  · rename_i isActive
    refine afterChange_finds (isIn (active_stopped isActive)) (fun record => ?_) fun marked sameIds _ => sameIds
    exact congrArg Tombstone.deliveryId (caught_tombstone options error answers.now record).1

theorem settleReply_finds (isIn : world.stopped = false → deliveryId ∈ world.deliveries) (answers : Resumed) (runId : Option String)
    (sent : Sent) :
    (settleReply options answers deliveryId runId sent world).Finds world.deliveries deliveryId := by
  unfold settleReply
  split
  · exact nofun
  split
  · exact catchError_finds isIn answers _
  split
  · exact catchError_finds isIn answers _
  rename_i marked isChange
  have keepsId : ∀ record, (delivered options sent.messageId record).deliveryId = record.deliveryId :=
    fun _ => rfl
  obtain ⟨sameIds, sameStopped, -⟩ := change_ids keepsId isChange
  split
  · split
    · rw [← sameIds]
      refine catchError_finds (fun goes => ?_) answers _
      rw [sameIds]
      exact isIn (sameStopped.symm.trans goes)
    · exact sameIds
    · exact ⟨sameIds, nofun⟩
  · exact sameIds

theorem settleNotice_finds (answers : Resumed) (sent : Sent) :
    (settleNotice options answers deliveryId sent world).Finds world.deliveries deliveryId := by
  unfold settleNotice
  split
  · exact nofun
  split
  · have keepsId : ∀ record : Record, { record with noticeSent := true }.deliveryId = record.deliveryId :=
      fun _ => rfl
    cases isChange : change deliveryId (fun x => { x with noticeSent := true }) answers.noticeWritten world with
    | none => exact rfl
    | some marked => exact (change_ids keepsId isChange).1
  · exact rfl

theorem answered_finds {await : Await} (answers : Resumed)
    (standing : await.isReply = true → world.stopped = false → world.Standing deliveryId) :
    (answered options answers deliveryId world await).Finds world.deliveries deliveryId := by
  have isIn : await.isReply = true → world.stopped = false → deliveryId ∈ world.deliveries := by
    intro isReply goes
    obtain ⟨record, isRecord, isIt, -⟩ := standing isReply goes
    exact List.mem_map.mpr ⟨record, isRecord, isIt⟩
  cases await with
  | noticeReserve text =>
    rw [answered]
    split
    · exact rfl
    split
    · exact fun isGone => by cases isGone
    · exact ⟨rfl, fun isReply => by cases isReply⟩
  | noticeSend =>
    rw [answered]
    split
    · exact rfl
    · exact settleNotice_finds answers _
  | replyReserve text runId =>
    rw [answered]
    split
    · exact catchError_finds (isIn rfl) answers _
    split
    · exact fun isGone => by cases isGone
    · exact ⟨rfl, fun _ goes => standing rfl goes⟩
  | replySend runId =>
    have stillThere : (world.log (.answers deliveryId .reply answers.sent)).stopped = false →
        deliveryId ∈ (world.log (.answers deliveryId .reply answers.sent)).deliveries := isIn rfl
    rw [answered]
    split
    · exact catchError_finds stillThere answers _
    · exact settleReply_finds stillThere answers runId _
  | audio left =>
    cases left with
    | zero => exact rfl
    | succ left => exact ⟨rfl, fun isReply => by cases isReply⟩

/-- A pass that is under way waits at a record of its own, with records of the ledger ahead. -/
def Passing (world : World) : Prop :=
  ∀ pass, world.draining = some pass →
    (∀ id ∈ pass.todo, id ∈ world.deliveries) ∧
      (pass.await.isReply = true → world.stopped = false → world.Standing pass.deliveryId)

/-- **The rest of a pass** whose records are there loses none, and examines them all if it finishes. -/
theorem loop_finds (visits : String → Visit) (todo : List String)
    (areThere : ∀ id ∈ todo, id ∈ world.deliveries) :
    Passing (loop options visits todo world) ∧ loopOutcome options visits todo world ≠ .cut .gone ∧
      (loopOutcome options visits todo world = .finished → loopExamined options visits todo world = todo) ∧
      ∀ pass, (loop options visits todo world).draining = some pass →
        loopOutcome options visits todo world = .waiting ∧
          todo = loopExamined options visits todo world ++ pass.todo := by
  induction todo generalizing world with
  | nil =>
    exact ⟨fun _ isPass => (by cases isPass), fun isGone => (by cases isGone), fun _ => rfl,
      fun _ isPass => by cases isPass⟩
  | cons deliveryId rest ih =>
    have found : (visitRecord options (visits deliveryId) deliveryId world).Finds world.deliveries deliveryId :=
      visitRecord_finds (areThere deliveryId List.mem_cons_self) (visits deliveryId)
    unfold loop loopOutcome loopExamined
    cases isVisit : visitRecord options (visits deliveryId) deliveryId world with
    | next later =>
      rw [isVisit] at found
      have restThere : ∀ id ∈ rest, id ∈ later.deliveries := by
        intro id isRest
        rw [show later.deliveries = world.deliveries from found]
        exact areThere id (List.mem_cons_of_mem _ isRest)
      obtain ⟨passing, notGone, isWhole, isWaiting⟩ := ih restThere
      refine ⟨passing, notGone, fun isFinished => congrArg _ (isWhole isFinished), fun pass isPass => ?_⟩
      obtain ⟨isNone, isSplit⟩ := isWaiting pass isPass
      exact ⟨isNone, congrArg (deliveryId :: ·) isSplit⟩
    | done later ending =>
      rw [isVisit] at found
      exact ⟨fun _ isPass => (by cases isPass), fun isGone => found (Outcome.cut.inj isGone),
        fun isFinished => (by cases isFinished), fun _ isPass => by cases isPass⟩
    | wait later await =>
      rw [isVisit] at found
      refine ⟨?_, fun isGone => (by cases isGone), fun isFinished => (by cases isFinished), ?_⟩
      · intro pass isPass
        obtain rfl := Option.some.inj isPass
        refine ⟨fun id isRest => ?_, found.2⟩
        show id ∈ later.deliveries
        rw [found.1]
        exact areThere id (List.mem_cons_of_mem _ isRest)
      · intro pass isPass
        obtain rfl := Option.some.inj isPass
        exact ⟨rfl, rfl⟩

/-! ## One event -/

/-- An admission leaves the pass, and the ledger but for the settled records; one that admits nothing
leaves the ledger. -/
theorem accept_state (input : Input) (admission : Admission) (world : World) :
    (accept input admission world).2.draining = world.draining ∧
      (accept input admission world).2.stopped = world.stopped ∧
      (((accept input admission world).1 = .accepted ∧ world.state.has input.deliveryId = false ∧
          (accept input admission world).2.state.records =
            (world.state.records.filter fun record => !record.state.settled) ++ [input.record]) ∨
        ((accept input admission world).1 ≠ .accepted ∧
          (accept input admission world).2.state = world.state)) := by
  unfold accept
  split
  · exact ⟨rfl, rfl, Or.inr ⟨nofun, rfl⟩⟩
  split
  · exact ⟨rfl, rfl, Or.inr ⟨nofun, rfl⟩⟩
  rename_i isNew
  split
  · exact ⟨rfl, rfl, Or.inr ⟨nofun, rfl⟩⟩
  split
  · exact ⟨rfl, rfl, Or.inr ⟨nofun, rfl⟩⟩
  dsimp only
  split
  · exact ⟨rfl, rfl, Or.inr ⟨nofun, rfl⟩⟩
  split
  · exact ⟨rfl, rfl, Or.inr ⟨nofun, rfl⟩⟩
  · rename_i later wrote
    obtain ⟨-, rfl⟩ := mutate_some wrote
    exact ⟨rfl, rfl, Or.inl ⟨rfl, Bool.eq_false_iff.mpr isNew, rfl⟩⟩

/-- An admission that comes while a pass waits takes none of the records the pass has yet to come to. -/
def Fair (w : Watched) : Event → Prop
  | .accept input admission =>
    (accept input admission w.world).1 = .accepted →
      ∀ pass, w.world.draining = some pass → ∀ id ∈ pass.todo, w.world.Standing id
  | _ => True

/-- What holds along a fair run. -/
structure Survives (w : Watched) : Prop where
  passing : Passing w.world
  notGone : w.outcome ≠ .cut .gone
  whole : w.outcome = .finished → w.examined = w.began
  waits : ∀ pass, w.world.draining = some pass → w.outcome = .waiting ∧ w.began = w.examined ++ pass.todo

variable {w : Watched}

theorem Survives.aside (survives : Survives w)
    (passing : ∀ pass, next.draining = some pass → w.world.draining = some pass ∧
      (∀ id ∈ pass.todo, id ∈ next.deliveries) ∧
      (pass.await.isReply = true → next.stopped = false → next.Standing pass.deliveryId)) :
    Survives { w with world := next } where
  passing := fun pass isPass => (passing pass isPass).2
  notGone := survives.notGone
  whole := survives.whole
  waits := fun pass isPass => survives.waits pass (passing pass isPass).1

theorem Survives.accept (survives : Survives w) {input : Input} {admission : Admission}
    (fair : Fair w (.accept input admission)) :
    Survives { w with world := (ChannelDelivery.accept input admission w.world).2 } := by
  obtain ⟨sameDraining, sameStopped, isState⟩ := accept_state input admission w.world
  refine survives.aside fun pass isPass => ?_
  rw [sameDraining] at isPass
  obtain ⟨areThere, standing⟩ := survives.passing pass isPass
  refine ⟨isPass, ?_⟩
  rcases isState with ⟨isAccepted, -, isRecords⟩ | ⟨-, sameState⟩
  · have kept : ∀ id, w.world.Standing id →
        (ChannelDelivery.accept input admission w.world).2.Standing id := by
      rintro id ⟨record, isRecord, isIt, notSettled⟩
      refine ⟨record, ?_, isIt, notSettled⟩
      rw [isRecords]
      refine List.mem_append_left _ (List.mem_filter.mpr ⟨isRecord, ?_⟩)
      rw [notSettled]
      rfl
    refine ⟨fun id isAhead => ?_, fun isReply goes => kept _ (standing isReply (sameStopped.symm.trans goes))⟩
    obtain ⟨record, isRecord, isIt, -⟩ := kept id (fair isAccepted pass isPass id isAhead)
    exact List.mem_map.mpr ⟨record, isRecord, isIt⟩
  · unfold World.deliveries World.Standing
    rw [sameState, sameStopped]
    exact ⟨areThere, standing⟩

theorem revoke_state (written : Bool) (world : World) : (revoke written world).draining = world.draining ∧
    (revoke written world).stopped = true ∧ (revoke written world).deliveries = world.deliveries := by
  unfold revoke
  dsimp only
  cases wrote : mutate { (stop world).state with
      records := (stop world).state.records.map (·.revoked) } written (stop world) with
  | none => exact ⟨rfl, rfl, rfl⟩
  | some later =>
    obtain ⟨-, rfl⟩ := mutate_some wrote
    refine ⟨rfl, rfl, ?_⟩
    show (world.state.records.map (·.revoked)).map (·.deliveryId) = world.state.records.map (·.deliveryId)
    rw [List.map_map]
    exact List.map_congr_left fun record _ => congrArg Tombstone.deliveryId record.revoked_fields.1

theorem reopen_draining (write : Write) (world : World) :
    reopen write world = world ∨ (reopen write world).draining = none := by
  unfold reopen
  split
  · exact Or.inr rfl
  split_ifs
  · exact Or.inl rfl
  · exact Or.inr rfl
  · cases write with
    | done => exact Or.inr rfl
    | refused => exact Or.inl rfl
    | missing => exact Or.inr rfl

theorem Survives.drain (survives : Survives w) (visits : String → Visit) :
    Survives (watchDrain options visits w) := by
  unfold watchDrain
  split_ifs with isIdle
  · rw [Bool.and_eq_true, Option.isNone_iff_eq_none] at isIdle
    have isLoop : ChannelDelivery.drain options visits w.world =
        loop options visits w.world.deliveries w.world := by
      unfold ChannelDelivery.drain
      rw [isIdle.2]
      rfl
    rw [isLoop]
    obtain ⟨passing, notGone, whole, waits⟩ :=
      @loop_finds options w.world visits w.world.deliveries fun _ isIn => isIn
    exact ⟨passing, notGone, whole, waits⟩
  · have isSame : step options w.world (.drain visits) = w.world := by
      show (if w.world.isOpen then ChannelDelivery.drain options visits w.world else w.world) = w.world
      split_ifs with isOpen
      · unfold ChannelDelivery.drain
        rw [if_pos]
        rw [isOpen, Bool.true_and, Option.isNone_iff_eq_none] at isIdle
        exact Option.isSome_iff_ne_none.mpr isIdle
      · rfl
    rw [isSame]
    exact survives

theorem Survives.resume (survives : Survives w) (answers : Resumed) :
    Survives (watchResume options answers w) := by
  unfold watchResume ChannelDelivery.resume
  cases isDraining : w.world.draining with
  | none => exact survives
  | some pass =>
    obtain ⟨areThere, standing⟩ := survives.passing pass isDraining
    obtain ⟨isWaiting, isSplit⟩ := survives.waits pass isDraining
    have found : (answered options answers pass.deliveryId w.world pass.await).Finds w.world.deliveries
        pass.deliveryId := answered_finds answers standing
    dsimp only
    cases isAnswered : answered options answers pass.deliveryId w.world pass.await with
    | next later =>
      rw [isAnswered] at found
      have stillThere : ∀ id ∈ pass.todo, id ∈ later.deliveries := by
        rw [show later.deliveries = w.world.deliveries from found]
        exact areThere
      have rest := @loop_finds options later answers.visits pass.todo stillThere
      obtain ⟨passing, notGone, whole, waits⟩ := rest
      refine ⟨passing, notGone, fun isFinished => ?_, fun next isNext => ?_⟩
      · show w.examined ++ _ = w.began
        rw [whole isFinished, isSplit]
      · obtain ⟨isStill, isRest⟩ := waits next isNext
        refine ⟨isStill, ?_⟩
        show w.began = w.examined ++ _ ++ next.todo
        rw [isSplit, List.append_assoc, ← isRest]
    | done later ending =>
      rw [isAnswered] at found
      exact ⟨fun _ isPass => (by cases isPass), fun isGone => found (Outcome.cut.inj isGone),
        fun isFinished => (by cases isFinished), fun _ isPass => by cases isPass⟩
    | wait later await =>
      rw [isAnswered] at found
      refine ⟨?_, survives.notGone, survives.whole, ?_⟩
      · intro next isNext
        obtain rfl := Option.some.inj isNext
        refine ⟨fun id isAhead => ?_, found.2⟩
        show id ∈ later.deliveries
        rw [found.1]
        exact areThere id isAhead
      · intro next isNext
        obtain rfl := Option.some.inj isNext
        exact ⟨isWaiting, isSplit⟩

/-- **One event** of a fair run. -/
theorem Survives.step (survives : Survives w) {event : Event} (fair : Fair w event) :
    Survives (watch options w event) := by
  cases event with
  | accept input admission =>
    show Survives { w with world := if w.world.isOpen then _ else w.world }
    split_ifs
    · exact survives.accept fair
    · exact survives
  | drain visits => exact survives.drain visits
  | resume answers => exact survives.resume answers
  | revoke written =>
    show Survives { w with world := if w.world.isOpen then _ else w.world }
    split_ifs
    · obtain ⟨sameDraining, isStopped, sameIds⟩ := revoke_state written w.world
      refine survives.aside fun pass isPass => ?_
      rw [sameDraining] at isPass
      rw [sameIds]
      refine ⟨isPass, (survives.passing pass isPass).1, fun _ goes => ?_⟩
      exact nomatch goes.symm.trans isStopped
    · exact survives
  | stop =>
    show Survives { w with world := if w.world.isOpen then _ else w.world }
    split_ifs
    · exact survives.aside fun pass isPass =>
        ⟨isPass, (survives.passing pass isPass).1, fun _ goes => nomatch goes⟩
    · exact survives
  | crash =>
    show Survives { w with world := if w.world.isOpen then _ else w.world }
    split_ifs
    · exact survives.aside fun pass isPass => nomatch isPass
    · exact survives
  | reopen write =>
    show Survives { w with world := if w.world.isOpen && !w.world.stopped then w.world else _ }
    split_ifs
    · exact survives
    · rcases reopen_draining write w.world with isSame | isIdle
      · rw [isSame]
        exact survives
      · exact survives.aside fun pass isPass => nomatch isIdle.symm.trans isPass

theorem Survives.accept_iff (survives : Survives w) {input : Input} {admission : Admission}
    (isAccepted : (ChannelDelivery.accept input admission w.world).1 = .accepted) :
    (∀ pass, w.world.draining = some pass → ∀ id ∈ pass.todo,
        id ∈ (ChannelDelivery.accept input admission w.world).2.deliveries) ↔
      Fair w (.accept input admission) := by
  obtain ⟨-, -, isState⟩ := accept_state input admission w.world
  rcases isState with ⟨-, isNew, isRecords⟩ | ⟨notAccepted, -⟩
  · constructor
    · intro areThere _ pass isPass id isAhead
      obtain ⟨record, isRecord, isIt⟩ := List.mem_map.mp (areThere pass isPass id isAhead)
      rw [isRecords] at isRecord
      rcases List.mem_append.mp isRecord with isKept | isInput
      · obtain ⟨isOld, notSettled⟩ := List.mem_filter.mp isKept
        exact ⟨record, isOld, isIt, Bool.not_eq_true' _ ▸ notSettled⟩
      · -- The admitted delivery was not there before, and what is ahead was.
        obtain rfl := List.mem_singleton.mp isInput
        obtain ⟨old, isOld, sameId⟩ := List.mem_map.mp ((survives.passing pass isPass).1 id isAhead)
        have isHeld : w.world.state.has input.deliveryId = true := by
          refine List.any_eq_true.mpr ⟨old.tombstone, ?_, decide_eq_true (Or.inl (sameId.trans isIt.symm))⟩
          exact List.mem_append_left _ (List.mem_map_of_mem isOld)
        exact nomatch isHeld.symm.trans isNew
    · intro fair pass isPass id isAhead
      obtain ⟨record, isRecord, isIt, notSettled⟩ := fair isAccepted pass isPass id isAhead
      refine List.mem_map.mpr ⟨record, ?_, isIt⟩
      rw [isRecords]
      refine List.mem_append_left _ (List.mem_filter.mpr ⟨isRecord, ?_⟩)
      rw [notSettled]
      rfl
  · exact absurd isAccepted notAccepted

/-! ## Every run -/

/-- **A pass survives admissions.** In every run whose admissions take no record a waiting pass has yet to
come to, no pass ends for want of a record; a pass that finishes has examined every record it began
with, and one that waits has those it has not come to ahead; an admission keeps these records there
exactly when it is fair. -/
theorem pass_survives_accepts {first : World} (isIdle : first.draining = none) {events : List Event} {w : Watched}
    (run : Run (Restrict (ofFunction (watch options)) Fair) { world := first } events w) :
    w.outcome ≠ .cut .gone ∧ (w.outcome = .finished → w.examined = w.began) ∧
      (∀ pass, w.world.draining = some pass → w.outcome = .waiting ∧ w.began = w.examined ++ pass.todo) ∧
      ∀ input admission, (accept input admission w.world).1 = .accepted →
        ((∀ pass, w.world.draining = some pass → ∀ id ∈ pass.todo,
          id ∈ (accept input admission w.world).2.deliveries) ↔ Fair w (.accept input admission)) := by
  have survives : Survives w := by
    refine run.invariant ⟨?_, nofun, fun _ => rfl, ?_⟩ ?_
    · exact fun pass isPass => nomatch isIdle.symm.trans isPass
    · exact fun pass isPass => nomatch isIdle.symm.trans isPass
    · rintro before event after survives ⟨rfl, fair⟩
      exact survives.step fair
  exact ⟨survives.notGone, survives.whole, survives.waits, fun _ _ isAccepted => survives.accept_iff isAccepted⟩

/-! ## Two chats -/

def exampleRecord (deliveryId : String) (state : RecordState) : Record where
  deliveryId := deliveryId
  prompt := "Hello"
  occurredAt := 0
  state := state
  response := some "Hi"

/-- A reply to send, a record that is in the given state, and another reply to send. -/
def exampleLedger (state : RecordState) : World where
  file := none
  state := { records := [exampleRecord "first" .accepted, exampleRecord "second" state,
    exampleRecord "third" .accepted] }
  isOpen := true
  clock := 0

/-- A pass, a delivery admitted while it sends, and the answer of the send. -/
def acceptWhileSending : List Event :=
  [.drain fun _ => exampleVisit, exampleAccept (some "Hello"),
    .resume
      (exampleAnswers
        (.ok
          { recipient := "chat"
            messageId := "m1" }))]

/-- A record that was sent before is taken away while the pass sends, and the pass fails at it and does not
come to the third. -/
theorem pass_fails_on_accept :
    let w := acceptWhileSending.foldl (watch exampleOptions) { world := exampleLedger .sent }
    w.outcome = .cut .gone ∧ w.began = ["first", "second", "third"] ∧ w.examined = ["first", "second"] ∧
      w.world.state.tombstones.map (·.deliveryId) = ["second"] ∧
      (w.world.state.find "third").map (·.state) = some .accepted := by
  decide

/-- The same with a record that waits for its run. -/
theorem pass_survives_accepts_example :
    let w := acceptWhileSending.foldl (watch exampleOptions) { world := exampleLedger .accepted }
    w.began = ["first", "second", "third"] ∧ w.outcome ≠ .cut .gone := by
  have fair : Along (watch exampleOptions) Fair { world := exampleLedger .accepted } acceptWhileSending := by
    refine ⟨trivial, fun _ pass isPass id isAhead => ?_, trivial, trivial⟩
    obtain rfl := Option.some.inj isPass
    rcases List.mem_cons.mp isAhead with rfl | isThird
    · exact ⟨exampleRecord "second" .accepted, by decide, rfl, rfl⟩
    · obtain rfl := List.mem_singleton.mp isThird
      exact ⟨exampleRecord "third" .accepted, by decide, rfl, rfl⟩
  exact ⟨by decide, (pass_survives_accepts rfl (Run.foldl_along fair)).1⟩

end Murage.ChannelDelivery
