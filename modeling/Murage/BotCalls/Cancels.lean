import Murage.BotCalls.Calls

/-!
Owns that the transitions that write many intents at once, the cancels of the owner, the fence
of a restore, retention and admission, keep what the tables hold and move the intents as a
transaction may.

Does not own: runs of transactions.
-/

namespace Murage.BotCalls

section

variable {db : Db} {fresh : String → Prop}

/-! ## Cancels of the owner -/

/-- What the loop of a cancel left of the intents of `ids`. -/
private structure Cancelling (keepLive : Bool) (db : Db) (ids : List String)
    (body : Body (List String)) (f : CallIntent → CallIntent) : Prop where
  intents : body.db.intents = db.intents.map f
  sessions : body.db.sessions = db.sessions
  noRing : ringIds body.effects = []
  row : ∀ i ∈ db.intents, f i = i ∨
    (Stopped i (f i) ∧ i.id ∈ ids ∧ (keepLive = true → i.state ≠ .live) ∧ Resolves body.effects i.id)

theorem ringIds_append (effects later : List Effect) :
    ringIds (effects ++ later) = ringIds effects ++ ringIds later := List.filterMap_append

variable {f : CallIntent → CallIntent} {body : Body (List String)} {ids : List String}

theorem Cancelling.sameId {keepLive : Bool} (cancelling : Cancelling keepLive db ids body f)
    (i : CallIntent) (isHere : i ∈ db.intents) : (f i).id = i.id := by
  rcases cancelling.row i isHere with same | ⟨stopped, _⟩
  · rw [same]
  · exact stopped.sameId

theorem Cancelling.cancelOne (sound : Sound db) {keepLive : Bool}
    (cancelling : Cancelling keepLive db ids body f) (reason : CancelReason) (now : Int)
    {id : String} (isListed : id ∈ ids) :
    ∃ f', Cancelling keepLive db ids (cancelOne keepLive reason now body id) f' ∧
      (∀ i ∈ db.intents, Stopped i (f i) → Stopped i (f' i)) ∧
      (keepLive = false → ∀ i ∈ db.intents, i.id = id → i.state ≠ .done → Stopped i (f' i)) := by
  have distinct : (body.db.intents.map (·.id)).Nodup := by
    have keptIds : body.db.intents.map (·.id) = db.intents.map (·.id) := by
      rw [cancelling.intents, List.map_map]
      exact List.map_congr_left cancelling.sameId
    rw [keptIds]
    exact sound.ids
  have atRow {i : CallIntent} (isHere : i ∈ db.intents) : body.db.getIntent i.id = some (f i) := by
    have found := Db.getIntent_of_mem distinct (cancelling.intents ▸ List.mem_map_of_mem isHere)
    rwa [cancelling.sameId i isHere] at found
  unfold BotCalls.cancelOne
  split
  · rename_i notFound
    refine ⟨f, cancelling, fun i _ stopped => stopped, fun _ i isHere sameId _ => ?_⟩
    rw [← sameId, atRow isHere] at notFound
    cases notFound
  rename_i before found
  obtain ⟨isRow, rfl⟩ := Db.getIntent_spec found
  rw [cancelling.intents] at isRow
  obtain ⟨i, isHere, rfl⟩ := List.mem_map.mp isRow
  have isOnly {j : CallIntent} (isIn : j ∈ db.intents) (sameId : j.id = (f i).id) : j = i :=
    sound.intent_eq isIn isHere (sameId.trans (cancelling.sameId i isHere))
  split_ifs with isKept
  · refine ⟨f, cancelling, fun i _ stopped => stopped, fun endsLive j isIn sameId notDone => ?_⟩
    obtain rfl := isOnly isIn sameId
    rcases cancelling.row j isHere with same | ⟨stopped, _⟩
    · rw [same, endsLive] at isKept
      rcases isKept with isDone | ⟨wrong, _⟩
      · exact absurd isDone notDone
      · cases wrong
    · exact stopped
  have isOpen : (f i).state ≠ .done := fun isDone => isKept (Or.inl isDone)
  have isUntouched : f i = i := by
    rcases cancelling.row i isHere with same | ⟨stopped, _⟩
    · exact same
    · exact absurd stopped.isDone isOpen
  split
  · rename_i notMatched
    exact absurd notMatched
      (Db.updateIntent_ne_none (cancelling.intents ▸ List.mem_map_of_mem isHere) (by simpa using isOpen))
  rename_i cancelled isDone
  obtain ⟨written, rfl, isSet, others⟩ := Db.updateIntent_rows distinct
    (cancelling.intents ▸ List.mem_map_of_mem isHere) isDone
  have stopped : Stopped i (written (f i)) := by
    rw [isSet, isUntouched]
    exact ⟨rfl, rfl, isUntouched ▸ isOpen, rfl, rfl, rfl⟩
  have untouched {j : CallIntent} (isIn : j ∈ db.intents) (isOther : j ≠ i) :
      written (f j) = f j := by
    refine others (f j) (cancelling.intents ▸ List.mem_map_of_mem isIn) fun same => isOther ?_
    exact isOnly isIn (by rw [← same, cancelling.sameId j isIn])
  have keptIds : (body.db.intents.map written).map (·.id) = body.db.intents.map (·.id) := by
    rw [cancelling.intents, List.map_map, List.map_map, List.map_map]
    refine List.map_congr_left fun j isIn => ?_
    by_cases isSame : j = i
    · simp only [Function.comp_apply, isSame]
      rw [stopped.sameId, cancelling.sameId i isHere]
    · simp only [Function.comp_apply]
      rw [untouched isIn isSame]
  split
  · rename_i notFound
    have isIn : written (f i) ∈ (body.db.intents.map written) :=
      List.mem_map_of_mem (cancelling.intents ▸ List.mem_map_of_mem isHere)
    have foundAfter :
        Db.getIntent { body.db with intents := body.db.intents.map written } (written (f i)).id =
          some (written (f i)) := Db.getIntent_of_mem (keptIds ▸ distinct) isIn
    rw [stopped.sameId, ← cancelling.sameId i isHere] at foundAfter
    exact absurd (notFound.symm.trans foundAfter) (Option.some_ne_none _).symm
  rename_i intent foundAfter
  have isNamed : intent.id = i.id :=
    (Db.getIntent_spec foundAfter).2.trans (cancelling.sameId i isHere)
  refine ⟨written ∘ f, ⟨?_, cancelling.sessions, ?_, fun j isIn => ?_⟩, ?_, ?_⟩
  · simp only
    rw [cancelling.intents, List.map_map]
  · simp only
    rw [ringIds_append, cancelling.noRing]
    rfl
  · by_cases isSame : j = i
    · subst isSame
      refine Or.inr ⟨stopped, cancelling.sameId j isHere ▸ isListed, fun keeps isLive => ?_, ?_⟩
      · exact isKept (Or.inr ⟨keeps, isUntouched.symm ▸ isLive⟩)
      · exact ⟨intent, _, List.mem_append_right _ List.mem_cons_self, isNamed⟩
    · simp only [Function.comp_apply]
      rw [untouched isIn isSame]
      rcases cancelling.row j isIn with same | ⟨wasStopped, listed, notLive, other, how, isOwed, named⟩
      · exact Or.inl same
      · exact Or.inr ⟨wasStopped, listed, notLive, other, how, List.mem_append_left _ isOwed, named⟩
  · intro j isIn wasStopped
    by_cases isSame : j = i
    · rw [isSame]
      exact stopped
    · simp only [Function.comp_apply]
      rwa [untouched isIn isSame]
  · intro _ j isIn sameId _
    rw [isOnly isIn sameId]
    exact stopped

theorem Cancelling.foldl (sound : Sound db) {keepLive : Bool} (reason : CancelReason) (now : Int)
    (later : List String) (listed : ∀ id ∈ later, id ∈ ids)
    (cancelling : Cancelling keepLive db ids body f) :
    ∃ f', Cancelling keepLive db ids (later.foldl (BotCalls.cancelOne keepLive reason now) body) f' ∧
      (∀ i ∈ db.intents, Stopped i (f i) → Stopped i (f' i)) ∧
      (keepLive = false → ∀ i ∈ db.intents, i.id ∈ later → i.state ≠ .done → Stopped i (f' i)) := by
  induction later generalizing body f with
  | nil =>
    exact ⟨f, cancelling, fun i _ stopped => stopped, fun _ _ _ isIn => nomatch isIn⟩
  | cons id later ih =>
    obtain ⟨f₁, first, kept, ended⟩ :=
      cancelling.cancelOne sound reason now (listed id List.mem_cons_self)
    obtain ⟨f₂, second, keptAgain, endedLater⟩ := ih
      (fun other isIn => listed other (List.mem_cons_of_mem _ isIn)) first
    refine ⟨f₂, second, fun i isHere stopped => keptAgain i isHere (kept i isHere stopped),
      fun endsLive i isHere isIn notDone => ?_⟩
    rcases List.mem_cons.mp isIn with isFirst | isLater
    · exact keptAgain i isHere (ended endsLive i isHere isFirst notDone)
    · exact endedLater endsLive i isHere isLater notDone

theorem Cancelling.keeps (sound : Sound db) (cancelling : Cancelling true db ids body f)
    (value : List String × List String) :
    Keeps fresh db { db := body.db, effects := body.effects, value := value } := by
  have stops : Stops db body.db f id := by
    refine ⟨cancelling.intents, ?_, fun i isHere => ?_, fun s _ => ⟨rfl, rfl, rfl, rfl⟩,
      fun s _ isOpen => isOpen, fun i isHere s _ isLive names => ?_⟩
    · rw [cancelling.sessions]
      exact (List.map_id _).symm
    · exact (cancelling.row i isHere).imp_right And.left
    · rcases cancelling.row i isHere with same | ⟨_, _, notLive, _⟩
      · exact Or.inl ⟨same, names.1⟩
      · exact absurd isLive (notLive rfl)
  refine ⟨stops.sound sound, stops.moves sound cancelling.noRing, stops.ringsEnd fun i isHere _ => ?_⟩
  exact (cancelling.row i isHere).imp_right fun stopped => stopped.2.2.2

theorem Cancelling.bot_stops (sound : Sound db) (cancelling : Cancelling false db ids body f)
    {botId : String}
    (ends : ∀ i ∈ db.intents, i.state ≠ .done → (Stopped i (f i) ↔ i.botId = botId)) {marked : Db}
    (intents : marked.intents = body.db.intents) (sessions : marked.sessions = body.db.sessions)
    (now : Int) :
    Stops db
      { marked with
        sessions := marked.sessions.map fun session =>
          if decide (session.botId = botId) && decide (session.endedAt = none) then
            { session with endedAt := some now, endedBy := some .stopped }
          else session }
      f fun session =>
        if decide (session.botId = botId) && decide (session.endedAt = none) then
          { session with endedAt := some now, endedBy := some .stopped }
        else session := by
  have sessionEnds {s : CallSession} (isOpen : s.endedAt = none) :
      (decide (s.botId = botId) && decide (s.endedAt = none)) = true ↔ s.botId = botId := by
    simp [isOpen]
  refine ⟨intents.trans cancelling.intents, ?_, fun i isHere => ?_, fun s _ => ?_,
    fun s _ isOpen => ?_, fun i isHere s isSession isLive names => ?_⟩
  · exact congrArg _ (sessions.trans cancelling.sessions)
  · exact (cancelling.row i isHere).imp_right And.left
  · split_ifs <;> exact ⟨rfl, rfl, rfl, rfl⟩
  · split_ifs at isOpen
    exact isOpen
  · obtain ⟨j, isIn, sameId, _, sameBot⟩ := sound.named s isSession i.id names
    rw [sound.intent_eq isIn isHere sameId] at sameBot
    have notDone : i.state ≠ .done := by simp [isLive]
    by_cases isBot : i.botId = botId
    · rw [if_pos ((sessionEnds names.1).mpr (sameBot ▸ isBot))]
      exact Or.inr ⟨(ends i isHere notDone).mpr isBot, Option.some_ne_none now⟩
    · rw [if_neg fun isEnded => isBot (sameBot.trans ((sessionEnds names.1).mp isEnded))]
      refine Or.inl ⟨?_, names.1⟩
      rcases cancelling.row i isHere with same | ⟨stopped, _⟩
      · exact same
      · exact absurd ((ends i isHere notDone).mp stopped) isBot

theorem cancelBotCalls_keeps (sound : Sound db) (scope : CancelScope) (reason : CancelReason)
    (now : Int) {body : Body (List String × List String)}
    (isOk : cancelBotCalls db scope reason now = .ok body) : Keeps fresh db body := by
  unfold cancelBotCalls at isOk
  split at isOk
  · cases isOk
  simp only at isOk
  obtain ⟨ids, isIds⟩ : ∃ ids, ids = (db.intents.filter fun intent =>
      decide (intent.state ≠ .done) && scope.holds intent &&
        !(scope.keepLive && decide (intent.state = .live))).map (·.id) := ⟨_, rfl⟩
  have start : Cancelling scope.keepLive db ids { db := db, value := [] } id :=
    ⟨(List.map_id _).symm, rfl, rfl, fun i _ => Or.inl rfl⟩
  obtain ⟨f, cancelling, _, endsListed⟩ :=
    start.foldl sound reason now ids fun id isListed => isListed
  rw [← isIds] at isOk
  cases scope with
  | bot botId =>
    cases isOk
    -- the loop ended every open intent of the bot, and its sessions end with them
    have ends (i : CallIntent) (isHere : i ∈ db.intents) (isOpen : i.state ≠ .done) :
        Stopped i (f i) ↔ i.botId = botId := by
      constructor
      · intro stopped
        rcases cancelling.row i isHere with same | ⟨_, isListed, _⟩
        · rw [same] at stopped
          exact absurd stopped.isDone isOpen
        · rw [isIds] at isListed
          obtain ⟨j, isIn, sameId⟩ := List.mem_map.mp isListed
          obtain ⟨isRow, isScope⟩ := List.mem_filter.mp isIn
          rw [← sound.intent_eq isRow isHere sameId]
          simp only [Bool.and_eq_true, CancelScope.holds, decide_eq_true_eq] at isScope
          exact isScope.1.2
      · intro sameBot
        refine endsListed rfl i isHere ?_ isOpen
        rw [isIds]
        refine List.mem_map_of_mem (List.mem_filter.mpr ⟨isHere, ?_⟩)
        simp [isOpen, sameBot, CancelScope.holds, CancelScope.keepLive]
    have marked (d : Db) :
        (if reason = .bot_off then dropTurnMarks d botId else d).intents = d.intents ∧
          (if reason = .bot_off then dropTurnMarks d botId else d).sessions = d.sessions := by
      split_ifs <;> exact ⟨rfl, rfl⟩
    have stops := cancelling.bot_stops sound ends (marked _).1 (marked _).2 now
    refine ⟨stops.sound sound, stops.moves sound ?_, stops.ringsEnd fun i isHere _ => ?_⟩
    · rw [ringIds_append, cancelling.noRing]
      rfl
    · rcases cancelling.row i isHere with same | ⟨_, _, _, intent, how, isOwed, named⟩
      · exact Or.inl same
      · exact Or.inr ⟨intent, how, List.mem_append_left _ isOwed, named⟩
  | rule ruleId =>
    cases isOk
    exact cancelling.keeps sound _
  | intent id =>
    cases isOk
    exact cancelling.keeps sound _
  | all =>
    cases isOk
    exact cancelling.keeps sound _

/-! ## The restore fence and retention -/

/-- The fence of a restore ended the rings, and owed no effect for them. -/
def Restored (db db' : Db) (effects : List Effect) : Prop :=
  effects = [] ∧ ∀ i ∈ db.intents, i.state = .ringing →
    ∃ j ∈ db'.intents, j.id = i.id ∧ j.state = .done ∧ j.outcome = some .restored

theorem fenceRestoredBotCalls_keeps (sound : Sound db) (generation : String) (now : Int) :
    Sound (fenceRestoredBotCalls db generation now) ∧
      Moves fresh db (fenceRestoredBotCalls db generation now) [] ∧
        Restored db (fenceRestoredBotCalls db generation now) [] := by
  have stopped {i : CallIntent} (isOpen : i.state ≠ .done) : Stopped i
      { i with
        state := .done
        outcome := some .restored
        activeSlot := false
        endedAt := i.endedAt.or (some now) } :=
    ⟨rfl, rfl, isOpen, rfl, rfl, rfl⟩
  have stops : Stops db (fenceRestoredBotCalls db generation now)
      (fun intent =>
        if intent.state ≠ .done then
          { intent with
            state := .done
            outcome := some .restored
            activeSlot := false
            endedAt := intent.endedAt.or (some now) }
        else intent)
      (fun session =>
        if session.endedAt = none then { session with endedAt := some now, endedBy := some .restore }
        else session) := by
    refine ⟨rfl, rfl, fun i _ => ?_, fun s _ => ?_, fun s _ isOpen => ?_,
      fun i _ s _ isLive names => Or.inr ⟨?_, ?_⟩⟩
    · by_cases isOpen : i.state ≠ .done
      · rw [if_pos isOpen]
        exact Or.inr (stopped isOpen)
      · exact Or.inl (if_neg isOpen)
    · split_ifs <;> exact ⟨rfl, rfl, rfl, rfl⟩
    · split_ifs at isOpen with wasOpen
      exact isOpen
    · have isOpen : i.state ≠ .done := by simp [isLive]
      rw [if_pos isOpen]
      exact stopped isOpen
    · rw [if_pos names.1]
      exact Option.some_ne_none now
  refine ⟨stops.sound sound, stops.moves sound rfl, rfl, fun i isHere isRinging => ?_⟩
  refine ⟨_, List.mem_map_of_mem isHere, ?_⟩
  rw [if_pos (by simp [isRinging])]
  exact ⟨rfl, rfl, rfl⟩

theorem nodup_map_filter {α β : Type} {rows : List α} {key : α → β} {kept : α → Bool}
    (distinct : (rows.map key).Nodup) : ((rows.filter kept).map key).Nodup :=
  List.Nodup.sublist (List.filter_sublist.map key) distinct

theorem pruneIntents_keeps (sound : Sound db) (now : Int) (limit : Nat) :
    Keeps fresh db { db := pruneIntents db now limit, value := () } := by
  have kept {i : CallIntent} (isHere : i ∈ db.intents) (isOpen : i.state ≠ .done) :
      i ∈ (pruneIntents db now limit).intents := by
    refine List.mem_filter.mpr ⟨isHere, ?_⟩
    simp only [Bool.not_eq_true']
    refine Bool.eq_false_iff.mpr fun isPruned => isOpen ?_
    obtain ⟨row, isDue, sameId⟩ := List.any_eq_true.mp isPruned
    have isFiltered := List.mem_mergeSort.mp (List.mem_of_mem_take isDue)
    obtain ⟨isRow, isOld⟩ := List.mem_filter.mp isFiltered
    simp only [Bool.and_eq_true, decide_eq_true_eq] at isOld
    rw [← sound.intent_eq isRow isHere (by simpa using sameId)]
    exact isOld.2
  have was {i : CallIntent} (isKept : i ∈ (pruneIntents db now limit).intents) : i ∈ db.intents :=
    List.mem_of_mem_filter isKept
  refine ⟨⟨nodup_map_filter sound.ids, sound.calls, sound.sessionIds,
      fun i isKept => sound.slot i (was isKept),
      fun i isKept j isOther => sound.single i (was isKept) j (was isOther),
      fun i isKept => sound.live i (was isKept), fun s isSession id names => ?_, sound.oneSession,
      fun i isKept => sound.outcome i (was isKept)⟩,
    ⟨fun i isHere _ j isKept sameId => sound.intent_eq (was isKept) isHere sameId,
      fun _ isRung => absurd isRung List.not_mem_nil, List.nodup_nil,
      fun j isKept => Or.inl ⟨j, was isKept, rfl, fun waits => waits⟩⟩,
    fun i isHere isRinging => Or.inl ⟨i, kept isHere (by simp [isRinging]), rfl, isRinging⟩⟩
  obtain ⟨i, isHere, sameId, isLive, sameBot⟩ := sound.named s isSession id names
  exact ⟨i, kept isHere (by simp [isLive]), sameId, isLive, sameBot⟩

theorem pruneSessions_keeps (sound : Sound db) (now : Int) (limit : Nat) :
    Keeps fresh db { db := pruneSessions db now limit, value := () } := by
  have was {s : CallSession} (isKept : s ∈ (pruneSessions db now limit).sessions) :
      s ∈ db.sessions := List.mem_of_mem_filter isKept
  refine ⟨⟨sound.ids, nodup_map_filter sound.calls, nodup_map_filter sound.sessionIds, sound.slot,
      sound.single, fun i isHere isLive => ?_, fun s isKept => sound.named s (was isKept),
      fun s isKept t isOther => sound.oneSession s (was isKept) t (was isOther), sound.outcome⟩,
    Moves.of_same sound rfl, RingsEnd.of_same rfl⟩
  obtain ⟨s, isSession, names⟩ := sound.live i isHere isLive
  refine ⟨s, List.mem_filter.mpr ⟨isSession, ?_⟩, names⟩
  simp only [Bool.not_eq_true']
  refine Bool.eq_false_iff.mpr fun isPruned => ?_
  obtain ⟨row, isDue, sameId⟩ := List.any_eq_true.mp isPruned
  obtain ⟨isRow, isEnded⟩ := List.mem_filter.mp (List.mem_of_mem_take isDue)
  have isSame : row = s :=
    List.inj_on_of_nodup_map sound.sessionIds isRow isSession (by simpa using sameId)
  rw [isSame, names.1] at isEnded
  cases isEnded

/-! ## Admission -/

/-- Intents were admitted: they are pending, under ids that are fresh. -/
structure Admits (fresh : String → Prop) (db db' : Db) : Prop where
  sound : Sound db'
  sessions : db'.sessions = db.sessions
  rows : ∃ added, db'.intents = db.intents ++ added ∧
    ∀ i ∈ added, i.state = .pending ∧ fresh i.id

theorem Admits.refl (sound : Sound db) : Admits fresh db db :=
  ⟨sound, rfl, [], (List.append_nil _).symm, fun _ isIn => nomatch isIn⟩

theorem Admits.trans {d d' : Db} (first : Admits fresh db d) (second : Admits fresh d d') :
    Admits fresh db d' := by
  obtain ⟨added, intents, areFresh⟩ := first.rows
  obtain ⟨more, moreIntents, moreFresh⟩ := second.rows
  refine ⟨second.sound, second.sessions.trans first.sessions, added ++ more, ?_, fun i isAdded => ?_⟩
  · rw [moreIntents, intents, List.append_assoc]
  · exact (List.mem_append.mp isAdded).elim (areFresh i) (moreFresh i)

theorem Admits.keeps {α : Type} {body : Body α} (admits : Admits fresh db body.db)
    (noEffect : body.effects = []) : Keeps fresh db body := by
  obtain ⟨added, intents, areFresh⟩ := admits.rows
  have isOld {i : CallIntent} (isHere : i ∈ db.intents) : i ∈ body.db.intents :=
    intents ▸ List.mem_append_left _ isHere
  unfold Keeps
  rw [noEffect]
  refine ⟨admits.sound, ⟨fun i isHere _ j isIn sameId => ?_, fun _ isRung => absurd isRung List.not_mem_nil,
    List.nodup_nil, fun j isIn => ?_⟩, fun i isHere isRinging => ?_⟩
  · exact admits.sound.intent_eq isIn (isOld isHere) sameId
  · rw [intents] at isIn
    rcases List.mem_append.mp isIn with wasHere | isAdded
    · exact Or.inl ⟨j, wasHere, rfl, fun waits => waits⟩
    · exact Or.inr (areFresh j isAdded).2
  · exact Or.inl ⟨i, isOld isHere, rfl, isRinging⟩

theorem Sound.admitted (sound : Sound db) {row : CallIntent} (isPending : row.state = .pending)
    (isFree : row.activeSlot = false) (isNew : ∀ i ∈ db.intents, i.id ≠ row.id) :
    Sound { db with intents := db.intents ++ [row] } := by
  have cases_row {motive : CallIntent → Prop} (wasHere : ∀ i ∈ db.intents, motive i)
      (isRow : motive row) : ∀ i ∈ db.intents ++ [row], motive i := by
    intro i isIn
    rcases List.mem_append.mp isIn with isOld | isLast
    · exact wasHere i isOld
    · rwa [List.mem_singleton.mp isLast]
  have held : ∀ i ∈ db.intents ++ [row], i.activeSlot = true → i ∈ db.intents := by
    refine cases_row (fun i isHere _ => isHere) fun holds => ?_
    rw [isFree] at holds
    cases holds
  refine ⟨nodup_map_append sound.ids isNew, sound.calls, sound.sessionIds, ?_, ?_, ?_, ?_,
    sound.oneSession, ?_⟩
  · refine cases_row sound.slot ?_
    rw [isFree, isPending]
    simp [Holds]
  · exact fun i isIn j isOther holds alsoHolds =>
      sound.single i (held i isIn holds) j (held j isOther alsoHolds) holds alsoHolds
  · refine cases_row sound.live fun isLive => ?_
    rw [isPending] at isLive
    cases isLive
  · intro s isSession id names
    obtain ⟨i, isHere, isNamed⟩ := sound.named s isSession id names
    exact ⟨i, List.mem_append_left _ isHere, isNamed⟩
  · refine cases_row sound.outcome fun isDone => ?_
    rw [isPending] at isDone
    cases isDone

theorem admitIntent_admits (sound : Sound db) (a : Admission) {id : String} (isFresh : fresh id)
    (now : Int) : Admits fresh db (admitIntent db a id now).db := by
  unfold admitIntent
  split
  · exact Admits.refl sound
  split_ifs
  · exact Admits.refl sound
  · exact Admits.refl sound
  split
  · exact Admits.refl sound
  rename_i admitted isInserted
  unfold Db.insertIntent at isInserted
  split_ifs at isInserted with isTaken
  cases isInserted
  refine ⟨sound.admitted rfl rfl fun i isHere sameId => ?_, rfl, _, rfl, fun i isAdded => ?_⟩
  · exact isTaken (List.any_eq_true.mpr ⟨i, isHere, by simp [sameId]⟩)
  · rw [List.mem_singleton.mp isAdded]
    exact ⟨rfl, isFresh⟩

theorem admitIntent_keeps (sound : Sound db) (a : Admission) {id : String} (isFresh : fresh id)
    (now : Int) : Keeps fresh db (admitIntent db a id now) := by
  refine (admitIntent_admits sound a isFresh now).keeps ?_
  unfold admitIntent
  split
  · rfl
  split_ifs
  · rfl
  · rfl
  split <;> rfl

end

end Murage.BotCalls
