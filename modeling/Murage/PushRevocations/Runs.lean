import Mathlib.Data.Finset.Card
import Murage.PushRevocations.Histories

/-!
Owns every run of the queue of removed devices: nothing that is added is lost before it is
reported, what is pending has a run or a timer, sends do not overlap, and runs end.

Does not own: writes that fail, and more ids than the queue holds.
-/

namespace Murage.PushRevocations

open Murage.Library.Transition (Run Restrict)

/-! ## The saved ids -/

theorem newest_of_few {ids : List Id} (areFew : ids.length ≤ MAX) : newest ids = ids := by
  rw [newest, Nat.sub_eq_zero_of_le areFew, List.drop_zero]

theorem newest_length (ids : List Id) : (newest ids).length ≤ MAX := by
  rw [newest, List.length_drop]
  omega

theorem load_saved {ids : List Id} (areValid : ∀ id ∈ ids, isDeviceId id = true)
    (areFew : ids.length ≤ MAX) : load (some ids) = ids := by
  rw [load, Option.getD_some, List.filter_eq_self.2 areValid, newest_of_few areFew]

variable (file : Option (List Id))

theorem load_valid : ∀ id ∈ load file, isDeviceId id = true :=
  fun _ isLoaded => (List.mem_filter.1 (List.mem_of_mem_drop isLoaded)).2

theorem mem_file {file : Option (List Id)} {id : Id} (isLoaded : id ∈ load file) :
    ∃ saved ∈ file, id ∈ saved := by
  have isSaved := (List.mem_filter.1 (List.mem_of_mem_drop isLoaded)).1
  cases file with
  | none => cases isSaved
  | some saved => exact ⟨saved, rfl, isSaved⟩

/-! ## What every state keeps -/

/-- The file is what the queue is, and the log is as it should be for the queue. -/
structure Core (st : State) (log : List Observed) : Prop where
  loaded : load st.file = st.ids
  owed : Owed st.ids log
  wire : Wire st.inFlight st.addedDuringSend log
  tries : Tries (st.running.map (·.tried)) log

theorem Core.valid {st : State} {log : List Observed} (core : Core st log) :
    ∀ id ∈ st.ids, isDeviceId id = true := core.loaded ▸ load_valid st.file

theorem Core.few {st : State} {log : List Observed} (core : Core st log) :
    st.ids.length ≤ MAX := core.loaded ▸ newest_length _

variable {st : State} {log : List Observed}

theorem core_create : Core (create file) [] where
  loaded := by rw [create_ids, create_file]
  owed _ isAdded := nomatch isAdded
  wire := ⟨nofun, fun _ _ _ isLog => absurd isLog.symm (by simp),
    fun _ _ _ isLog => absurd isLog.symm (by simp)⟩
  tries := ⟨nofun, fun _ _ _ _ isLog => absurd isLog.symm (by simp)⟩

theorem Core.restart (core : Core st log) : Core (create st.file) (log ++ [.restarted]) where
  loaded := by rw [create_ids, create_file]
  owed := by
    have isOwed : Owed st.ids (log ++ [.restarted]) :=
      core.owed.snoc fun _ isSame => (nomatch isSame)
    rwa [create_ids, core.loaded]
  wire := by
    have isWire : Wire none false (log ++ [.restarted]) :=
      core.wire.ended (fun _ _ => Or.inl rfl) (fun _ => ⟨nofun, nofun⟩) false
    exact isWire
  tries := by
    have isTries : Tries none (log ++ [.restarted]) := core.tries.fresh (Or.inr rfl) none
    exact isTries

theorem Core.withTimer (core : Core st log) (timer : Bool) : Core { st with timer := timer } log :=
  ⟨core.loaded, core.owed, core.wire, core.tries⟩

theorem Core.enqueue (core : Core st log) {id : Id} (isValid : isDeviceId id = true)
    (hasRoom : id ∈ st.ids ∨ st.ids.length < MAX) :
    Core ((st.enqueue id).save true) (log ++ [.added id]) := by
  have isQueue : (st.enqueue id).ids = if id ∈ st.ids then st.ids else st.ids ++ [id] := by
    rw [State.enqueue]
    by_cases isKnown : id ∈ st.ids
    · rw [if_pos isKnown, if_pos (List.contains_iff_mem.2 isKnown)]
    · have isFew : (st.ids ++ [id]).length ≤ MAX := by
        rw [List.length_append, List.length_singleton]
        exact hasRoom.resolve_left isKnown
      rw [if_neg isKnown, if_neg (by rwa [List.contains_iff_mem]), newest_of_few isFew]
  have areValid : ∀ other ∈ (st.enqueue id).ids, isDeviceId other = true := by
    rw [isQueue]
    split
    · exact core.valid
    · intro other isOther
      rcases List.mem_append.1 isOther with isBefore | isNew
      · exact core.valid other isBefore
      · exact List.mem_singleton.1 isNew ▸ isValid
  have areFew : (st.enqueue id).ids.length ≤ MAX := by
    rw [isQueue]
    split
    · exact core.few
    · rename_i isNew
      rw [List.length_append, List.length_singleton]
      exact hasRoom.resolve_left isNew
  refine ⟨load_saved areValid areFew, ?_, core.wire.added id, core.tries.snoc nofun⟩
  refine core.owed.added (fun other isOther => ?_) ?_
  · show other ∈ (st.enqueue id).ids
    rw [isQueue]
    split
    · exact isOther
    · exact List.mem_append_left _ isOther
  · show id ∈ (st.enqueue id).ids
    rw [isQueue]
    split
    · assumption
    · exact List.mem_append_right _ (List.mem_singleton_self id)

theorem Core.advance {tried : List Id}
    (core : Core { st with running := some ⟨tried, none⟩ } log) :
    Core (st.advance tried).1 (log ++ (st.advance tried).2) := by
  rw [State.advance]
  split
  · rw [List.append_nil]
    exact core
  · rename_i id isNext
    have isUntried : id ∉ tried := by
      have isNot := List.find?_some isNext
      simpa using isNot
    exact ⟨core.loaded, core.owed.snoc fun _ isSame => (nomatch isSame), core.wire.began id,
      core.tries.began isUntried⟩

theorem Core.startRun (core : Core st log) (isQuiet : st.inFlight = none) :
    Core st.startRun.1 (log ++ st.startRun.2) := by
  have began : Core { st with running := some ⟨[], none⟩ } (log ++ [.runBegan]) := by
    refine ⟨core.loaded, core.owed.snoc fun _ isSame => (nomatch isSame), ?_,
      core.tries.fresh (Or.inl rfl) _⟩
    exact core.wire.ended (by rw [isQuiet]; exact nofun) (by exact fun _ => ⟨nofun, nofun⟩) _
  have advanced := began.advance
  rw [List.append_assoc] at advanced
  exact advanced

theorem Core.flush (core : Core st log) : Core st.flush.1 (log ++ st.flush.2) := by
  rw [State.flush]
  split
  · rw [List.append_nil]
    exact core
  · rename_i isIdle
    exact core.startRun (by rw [State.inFlight, isIdle]; rfl)

theorem Core.finish {tried : List Id} (core : Core st log)
    (isOver : st.running = some ⟨tried, none⟩) :
    Core (st.finish tried).1 (log ++ (st.finish tried).2) := by
  have isQuiet : st.inFlight = none := by rw [State.inFlight, isOver]; rfl
  rw [State.finish]
  split
  · exact core.startRun isQuiet
  · have stopped : Core { st with running := none } log := by
      refine ⟨core.loaded, core.owed, ?_, ⟨nofun, core.tries.retried⟩⟩
      have isWire := core.wire
      rwa [isQuiet] at isWire
    rw [List.append_nil, State.schedule]
    split
    · exact stopped
    · exact stopped.withTimer true

theorem Core.settle {tried : List Id} {id : Id} (core : Core st log)
    (isSending : st.running = some ⟨tried, some id⟩) (sent : Bool) :
    Core (st.settle tried id sent true).1 (log ++ (st.settle tried id sent true).2) := by
  have isInFlight : st.inFlight = some id := by rw [State.inFlight, isSending]; rfl
  have isTried : st.running.map (·.tried) = some tried := by rw [isSending]; rfl
  obtain ⟨before, during, rfl, onlyAdds, isAdded⟩ := core.wire.sending id isInFlight
  have isAnswered : ∀ later, Wire none later (before ++ .began id :: during ++ [.returned id sent]) :=
    core.wire.ended (fun other isOther => Or.inr ⟨sent, by
      rw [isInFlight] at isOther
      rw [Option.some.inj isOther]⟩) (fun _ => ⟨nofun, nofun⟩)
  have isTries := core.tries
  rw [isTried] at isTries
  have isOwed : Owed st.ids (before ++ .began id :: during ++ [.returned id sent]) :=
    core.owed.snoc fun _ isSame => (nomatch isSame)
  have isPlain : Tries (some tried) (before ++ .began id :: during ++ [.returned id sent]) :=
    isTries.snoc fun _ isSame => (nomatch isSame)
  rw [State.settle]
  by_cases isOvertaken : st.addedDuringSend = true
  · rw [if_pos isOvertaken]
    cases sent with
    | true =>
      have isOvertaken := isTries.overtaken onlyAdds (isAdded.1 isOvertaken)
      have answered : Core { st with running := some ⟨tried.filter (· ≠ id), none⟩ }
          (before ++ .began id :: during ++ [.returned id true]) :=
        ⟨core.loaded, isOwed, isAnswered _, isOvertaken⟩
      have advanced := answered.advance
      rw [List.append_assoc] at advanced
      exact advanced
    | false =>
      have answered : Core { st with running := some ⟨tried, none⟩ }
          (before ++ .began id :: during ++ [.returned id false]) :=
        ⟨core.loaded, isOwed, isAnswered _, isPlain⟩
      have advanced := answered.advance
      rw [List.append_assoc] at advanced
      exact advanced
  · rw [if_neg isOvertaken]
    cases sent with
    | true =>
      have areValid : ∀ other ∈ st.ids.filter (· ≠ id), isDeviceId other = true :=
        fun other isLeft => core.valid other (List.mem_filter.1 isLeft).1
      have areFew : (st.ids.filter (· ≠ id)).length ≤ MAX :=
        (List.length_filter_le _ _).trans core.few
      have isCleared := core.owed.cleared onlyAdds fun isIn => isOvertaken (isAdded.2 isIn)
      have answered : Core { st with
          ids := st.ids.filter (· ≠ id)
          file := some (st.ids.filter (· ≠ id))
          running := some ⟨tried, none⟩ } (before ++ .began id :: during ++ [.returned id true]) :=
        ⟨load_saved areValid areFew, isCleared, isAnswered _, isPlain⟩
      have advanced := @Core.advance
        { st with
          ids := st.ids.filter (· ≠ id)
          file := some (st.ids.filter (· ≠ id)) } _ tried answered
      rw [List.append_assoc] at advanced
      exact advanced
    | false =>
      have answered : Core { st with running := some ⟨tried, none⟩ }
          (before ++ .began id :: during ++ [.returned id false]) :=
        ⟨core.loaded, isOwed, isAnswered _, isPlain⟩
      have advanced := answered.advance
      rw [List.append_assoc] at advanced
      exact advanced

/-! ## A run or a timer -/

/-- A run began since the process started. -/
def Awake (log : List Observed) : Prop :=
  ∃ before after, log = before ++ .runBegan :: after ∧ .restarted ∉ after

/-- While something is pending a run or the retry timer is there. -/
def Active (st : State) : Prop := st.ids ≠ [] → st.running.isSome ∨ st.timer = true

theorem Awake.of_snoc {more : List Observed} (isAwake : Awake (log ++ more))
    (noStart : .runBegan ∉ more) : Awake log ∧ .restarted ∉ more := by
  obtain ⟨before, after, isLog, notRestarted⟩ := isAwake
  rcases List.append_eq_append_iff.1 isLog with ⟨between, _, isMore⟩ | ⟨between, isBefore, isAfter⟩
  · refine absurd ?_ noStart
    rw [isMore]
    exact List.mem_append_right _ List.mem_cons_self
  · cases between with
    | nil =>
      refine absurd ?_ noStart
      rw [List.nil_append] at isAfter
      exact isAfter ▸ List.mem_cons_self
    | cons first others =>
      rw [List.cons_append] at isAfter
      obtain ⟨rfl, rfl⟩ := List.cons.inj isAfter
      refine ⟨⟨before, others, isBefore, ?_⟩, ?_⟩
      · exact fun isIn => notRestarted (List.mem_append_left _ isIn)
      · exact fun isIn => notRestarted (List.mem_append_right _ isIn)

theorem advance_runs (st : State) (tried : List Id) : (st.advance tried).1.running.isSome := by
  rw [State.advance]
  split <;> rfl

theorem settle_runs (st : State) (tried : List Id) (id : Id) (sent written : Bool) :
    (st.settle tried id sent written).1.running.isSome := by
  rw [State.settle]
  by_cases isOvertaken : st.addedDuringSend = true
  · rw [if_pos isOvertaken]
    exact advance_runs st _
  · rw [if_neg isOvertaken]
    cases sent with
    | true => exact advance_runs _ tried
    | false => exact advance_runs st tried

theorem flush_active (st : State) : Active st.flush.1 := by
  intro _
  rw [State.flush]
  split
  · rename_i isRunning
    exact Or.inl (by rw [isRunning]; rfl)
  · exact Or.inl (advance_runs st [])

theorem schedule_active (st : State) : Active st.schedule := by
  intro isPending
  rw [State.schedule] at isPending ⊢
  split
  · rename_i isScheduled
    rw [if_pos isScheduled] at isPending
    exact Or.inr (isScheduled.resolve_right isPending)
  · exact Or.inr rfl

/-! ## Runs end -/

/-- How many sends a run still has to wait for when nothing is added. -/
def rank (st : State) : Nat :=
  match st.running with
  | some ⟨tried, some _⟩ =>
    (st.ids.toFinset \ tried.toFinset).card + (if st.addedDuringSend then 1 else 0) + 1
  | _ => 0

theorem rank_le (st : State) : rank st ≤ st.ids.length + 2 := by
  rw [rank]
  split
  · rename_i tried _ _
    have isCard : (st.ids.toFinset \ tried.toFinset).card ≤ st.ids.length :=
      (Finset.card_le_card Finset.sdiff_subset).trans (List.toFinset_card_le _)
    split <;> omega
  · exact Nat.zero_le _

theorem advance_rank (st : State) (tried : List Id) :
    rank (st.advance tried).1 ≤ (st.ids.toFinset \ tried.toFinset).card := by
  rw [State.advance]
  split
  · exact Nat.zero_le _
  · rename_i id isNext
    have isUntried : id ∉ tried := by simpa using List.find?_some isNext
    have isIn : id ∈ st.ids.toFinset \ tried.toFinset :=
      Finset.mem_sdiff.2 ⟨List.mem_toFinset.2 (List.mem_of_find?_eq_some isNext), by simpa⟩
    have isLess : st.ids.toFinset \ (tried ++ [id]).toFinset
        = (st.ids.toFinset \ tried.toFinset).erase id := by
      ext other
      simp only [Finset.mem_sdiff, Finset.mem_erase, List.mem_toFinset, List.mem_append,
        List.mem_singleton]
      tauto
    show (st.ids.toFinset \ (tried ++ [id]).toFinset).card + 0 + 1 ≤ _
    rw [isLess, Nat.add_zero, Finset.card_erase_add_one isIn]

theorem settle_rank {st : State} {tried : List Id} {id : Id}
    (isSending : st.running = some ⟨tried, some id⟩) (sent written : Bool) :
    rank (st.settle tried id sent written).1 < rank st := by
  have isRank : rank st = (st.ids.toFinset \ tried.toFinset).card
      + (if st.addedDuringSend then 1 else 0) + 1 := by
    rw [rank, isSending]
  rw [isRank, State.settle]
  by_cases isOvertaken : st.addedDuringSend = true
  · rw [if_pos isOvertaken, if_pos isOvertaken]
    have isAdvanced := advance_rank st (if sent then tried.filter (· ≠ id) else tried)
    have isCard : (st.ids.toFinset \
        (if sent then tried.filter (· ≠ id) else tried).toFinset).card
          ≤ (st.ids.toFinset \ tried.toFinset).card + 1 := by
      refine (Finset.card_le_card ?_).trans (Finset.card_insert_le id _)
      intro other isOther
      cases sent <;> simp at isOther ⊢ <;> tauto
    exact Nat.lt_succ_of_le (isAdvanced.trans isCard)
  · rw [if_neg isOvertaken, if_neg isOvertaken]
    cases sent with
    | true =>
      refine Nat.lt_succ_of_le ((advance_rank _ tried).trans (Finset.card_le_card ?_))
      intro other isOther
      cases written <;> simp [State.save] at isOther ⊢ <;> tauto
    | false => exact Nat.lt_succ_of_le (advance_rank st tried)

def Event.isSettle : Event → Bool
  | .settle .. => true
  | _ => false

/-- What can happen while a run goes on and adds have stopped. -/
def Event.leavesRun : Event → Bool
  | .flush | .settle .. | .retry => true
  | _ => false

theorem flush_running {st : State} (isRunning : st.running.isSome) : st.flush = (st, []) := by
  rw [State.flush]
  split
  · rfl
  · rename_i isIdle
    rw [isIdle] at isRunning
    cases isRunning

/-- **A run that is not added to has only so many sends left.** -/
theorem settles_bounded {world later : World} {labels : List Event}
    (run : Run step world labels later) (isRunning : world.state.running.isSome)
    (leaves : ∀ label ∈ labels, label.leavesRun = true) :
    later.state.running.isSome ∧
      (labels.filter Event.isSettle).length + rank later.state ≤ rank world.state := by
  induction run with
  | nil => exact ⟨isRunning, (Nat.zero_add _).le⟩
  | snoc prior taken ih =>
    rename_i labels before next label
    obtain ⟨stillRunning, isBounded⟩ :=
      ih fun other isOther => leaves other (List.mem_append_left _ isOther)
    have isLeaving := leaves label (List.mem_append_right _ (List.mem_singleton_self _))
    rw [List.filter_append, List.length_append]
    obtain ⟨done, isDone, rfl⟩ := Option.map_eq_some_iff.1 taken
    cases label with
    | add => cases isLeaving
    | finish => cases isLeaving
    | restart => cases isLeaving
    | flush =>
      rw [State.handle, flush_running stillRunning] at isDone
      cases isDone
      exact ⟨stillRunning, isBounded⟩
    | retry =>
      rw [State.handle] at isDone
      split at isDone
      · rw [flush_running (show { before.state with timer := false }.running.isSome from
          stillRunning)] at isDone
        cases isDone
        exact ⟨stillRunning, isBounded⟩
      · cases isDone
    | settle outcome written =>
      rw [State.handle] at isDone
      split at isDone
      · rename_i tried id isSending
        cases isDone
        have isLess := settle_rank isSending outcome.sent written
        refine ⟨?_, ?_⟩
        · exact settle_runs before.state tried id outcome.sent written
        · have isOne : ([Event.settle outcome written].filter Event.isSettle).length = 1 := rfl
          rw [isOne]
          dsimp only
          omega
      · cases isDone

/-! ## Every run -/

/-- The file is written, and an id that is added fits. -/
def Fits (world : World) : Event → Prop
  | .add id written => written = true ∧
      (isDeviceId id = true → id ∈ world.state.ids ∨ world.state.ids.length < MAX)
  | .settle _ written => written = true
  | _ => True

structure Good (world : World) : Prop where
  core : Core world.state world.log
  active : Awake world.log → Active world.state

theorem good_start : Good (World.start file) where
  core := core_create file
  active := by
    rintro ⟨before, after, isLog, _⟩
    exact absurd isLog.symm (by simp [World.start])

theorem step_good {world after : World} {event : Event} (good : Good world)
    (taken : step world event after) (fits : Fits world event) : Good after := by
  obtain ⟨done, isDone, rfl⟩ := Option.map_eq_some_iff.1 taken
  have core := good.core
  cases event with
  | add id written =>
    obtain ⟨rfl, hasRoom⟩ := fits
    rw [State.handle, Option.some.injEq] at isDone
    subst isDone
    by_cases isValid : isDeviceId id = true
    · rw [State.add, if_pos isValid]
      have flushed := (core.enqueue isValid (hasRoom isValid)).flush
      rw [List.append_assoc] at flushed
      exact ⟨flushed, fun _ => flush_active _⟩
    · rw [State.add, if_neg isValid, List.append_nil]
      exact ⟨core, good.active⟩
  | flush =>
    rw [State.handle, Option.some.injEq] at isDone
    subst isDone
    exact ⟨core.flush, fun _ => flush_active _⟩
  | settle outcome written =>
    have isWritten : written = true := fits
    subst isWritten
    rw [State.handle] at isDone
    split at isDone
    · rename_i tried id isSending
      cases isDone
      refine ⟨core.settle isSending outcome.sent, fun _ _ => Or.inl ?_⟩
      exact settle_runs world.state tried id outcome.sent true
    · cases isDone
  | finish =>
    rw [State.handle] at isDone
    split at isDone
    · rename_i tried isOver
      cases isDone
      refine ⟨core.finish isOver, fun _ => ?_⟩
      rw [State.finish]
      split
      · exact fun _ => Or.inl (advance_runs world.state [])
      · exact schedule_active _
    · cases isDone
  | retry =>
    rw [State.handle] at isDone
    split at isDone
    · cases isDone
      exact ⟨(core.withTimer false).flush, fun _ => flush_active _⟩
    · cases isDone
  | restart =>
    rw [State.handle, Option.some.injEq] at isDone
    subst isDone
    refine ⟨core.restart, fun isAwake => ?_⟩
    exact absurd (List.mem_singleton_self _) (isAwake.of_snoc (by simp)).2

theorem Answered.before_next {first second : Id} {between after : List Observed}
    (isAnswered : Answered first (between ++ .began second :: after)) : Answered first between := by
  obtain ⟨during, answer, rest, isLog, onlyAdds, isAnswer⟩ := isAnswered
  have notBegan : answer ≠ .began second := by
    rcases isAnswer with rfl | ⟨_, rfl⟩
    · exact fun isSame => nomatch isSame
    · exact fun isSame => nomatch isSame
  rcases List.append_eq_append_iff.1 isLog with ⟨more, isDuring, isRest⟩ | ⟨more, isBetween, isRest⟩
  · cases more with
    | nil => exact absurd (List.cons.inj isRest).1.symm notBegan
    | cons next others =>
      obtain ⟨_, isAdd⟩ := onlyAdds (.began second) (by
        rw [isDuring, (List.cons.inj isRest).1]
        exact List.mem_append_right _ List.mem_cons_self)
      cases isAdd
  · cases more with
    | nil => exact absurd (List.cons.inj isRest).1 notBegan
    | cons next others =>
      refine ⟨during, answer, others, ?_, onlyAdds, isAnswer⟩
      rw [isBetween, (List.cons.inj isRest).1]

/-- What is promised of the queue and its log. -/
structure Reports (world : World) : Prop where
  stays : ∀ id, .added id ∈ world.log → Cleared id world.log ∨
    (id ∈ world.state.ids ∧ ∃ saved ∈ world.state.file, id ∈ saved)
  active : Awake world.log → Active world.state
  single : ∀ before first between second after,
    world.log = before ++ .began first :: (between ++ .began second :: after) →
      Answered first between
  retried : ∀ before id between after,
    world.log = before ++ .began id :: (between ++ .began id :: after) → SameRun between →
      .began id ∉ between → Overtaken id between
  ends : ∀ labels later, Run step world labels later → world.state.running.isSome →
    (∀ label ∈ labels, label.leavesRun = true) →
      (labels.filter Event.isSettle).length ≤ world.state.ids.length + 2
  goesOn : ∀ running, world.state.running = some running →
    (∀ outcome written, running.inFlight.isSome → (world.next (.settle outcome written)).isSome) ∧
      (running.inFlight = none → (world.next .finish).isSome)

theorem Good.reports {world : World} (good : Good world) : Reports world where
  stays id isAdded := by
    rcases good.core.owed id isAdded with isQueued | isCleared
    · refine Or.inr ⟨isQueued, mem_file ?_⟩
      rwa [good.core.loaded]
    · exact Or.inl isCleared
  active := good.active
  single before first between second after isLog := by
    rcases good.core.wire.answered before first _ isLog with onlyAdds | isAnswered
    · obtain ⟨_, isAdd⟩ :=
        onlyAdds (.began second) (List.mem_append_right _ List.mem_cons_self)
      cases isAdd
    · exact isAnswered.before_next
  retried := good.core.tries.retried
  ends labels later run isRunning leaves := by
    have isBounded := (settles_bounded run isRunning leaves).2
    have isRank := rank_le world.state
    omega
  goesOn running isRunning := by
    obtain ⟨tried, inFlight⟩ := running
    cases inFlight with
    | none =>
      refine ⟨fun _ _ isSome => (nomatch isSome), fun _ => ?_⟩
      rw [World.next, State.handle, isRunning]
      rfl
    | some id =>
      refine ⟨fun outcome written _ => ?_, fun isNone => (nomatch isNone)⟩
      rw [World.next, State.handle, isRunning]
      rfl

/-- **A removed device is always reported.** -/
theorem removals_reported (file : Option (List Id)) {labels : List Event} {world : World}
    (run : Run (Restrict step Fits) (World.start file) labels world) : Reports world := by
  refine Good.reports (run.invariant (good_start file) fun before label after good taken => ?_)
  exact step_good good taken.1 taken.2

/-- One removal that is sent, and the queue after it. -/
def sentOnce : World where
  state := { ids := [], file := some [], running := some ⟨["a"], none⟩ }
  log := [.added "a", .runBegan, .began "a", .returned "a" true]

theorem removals_reported_example : Reports sentOnce := by
  have added : step (World.start none) (.add "a" true)
      ⟨{ ids := ["a"], file := some ["a"], running := some ⟨["a"], some "a"⟩ },
        [.added "a", .runBegan, .began "a"]⟩ := by decide +kernel
  have settled : step
      ⟨{ ids := ["a"], file := some ["a"], running := some ⟨["a"], some "a"⟩ },
        [.added "a", .runBegan, .began "a"]⟩ (.settle (.answered true) true) sentOnce := by
    decide +kernel
  have fits : Fits (World.start none) (.add "a" true) :=
    ⟨rfl, fun _ => Or.inr (by decide +kernel)⟩
  exact removals_reported none ((Run.nil.snoc ⟨added, fits⟩).snoc ⟨settled, rfl⟩)

/-- A start loads what is pending, and until a flush or an add nothing sends it. -/
theorem restart_not_active : ∃ labels world,
    Run (Restrict step Fits) (World.start none) labels world ∧
      world.state.ids = ["a"] ∧ world.state.running = none ∧ world.state.timer = false := by
  have added : step (World.start none) (.add "a" true)
      ⟨{ ids := ["a"], file := some ["a"], running := some ⟨["a"], some "a"⟩ },
        [.added "a", .runBegan, .began "a"]⟩ := by decide +kernel
  have restarted : step
      ⟨{ ids := ["a"], file := some ["a"], running := some ⟨["a"], some "a"⟩ },
        [.added "a", .runBegan, .began "a"]⟩ .restart
      ⟨{ ids := ["a"], file := some ["a"] }, [.added "a", .runBegan, .began "a", .restarted]⟩ := by
    decide +kernel
  have fits : Fits (World.start none) (.add "a" true) :=
    ⟨rfl, fun _ => Or.inr (by decide +kernel)⟩
  exact ⟨_, _, (Run.nil.snoc ⟨added, fits⟩).snoc ⟨restarted, trivial⟩, rfl, rfl, rfl⟩

end Murage.PushRevocations
