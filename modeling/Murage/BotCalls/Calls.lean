import Murage.BotCalls.Transitions

/-!
Owns that the transitions that touch sessions, and those that touch many rows at once, keep
what the tables hold and move the intents as a transaction may.

Does not own: runs of transactions.
-/

namespace Murage.BotCalls

section

variable {db db' : Db} {fresh : String → Prop} {effects : List Effect}

theorem Moves.congr {d : Db} (moves : Moves fresh db d effects) (same : db'.intents = d.intents) :
    Moves fresh db db' effects where
  absorbing := same ▸ moves.absorbing
  rings := same ▸ moves.rings
  once := moves.once
  origin := same ▸ moves.origin

theorem RingsEnd.congr {d : Db} (ends : RingsEnd db d effects) (same : db'.intents = d.intents) :
    RingsEnd db db' effects := by
  unfold RingsEnd
  rw [same]
  exact ends

/-! ## Sessions that end -/

theorem Sound.touch (sound : Sound db) {g : CallSession → CallSession}
    (same : ∀ s, (g s).callId = s.callId ∧ (g s).intentId = s.intentId ∧ (g s).botId = s.botId ∧
      (g s).id = s.id ∧ (g s).endedAt = s.endedAt) :
    Sound { db with sessions := db.sessions.map g } := by
  have rewrites : Rewrites db { db with sessions := db.sessions.map g } id g := by
    refine ⟨(List.map_id _).symm, rfl, fun i _ => ⟨rfl, rfl⟩,
      fun s _ => ⟨(same s).1, (same s).2.1, (same s).2.2.1, (same s).2.2.2.1⟩, sound.slot, sound.single,
      fun i _ isLive => isLive, fun s _ isOpen => ?_, fun i _ s _ isLive names => ?_, sound.outcome⟩
    · rwa [(same s).2.2.2.2] at isOpen
    · rw [(same s).2.2.2.2]
      exact ⟨fun _ => names.1, fun _ => isLive⟩
  exact rewrites.sound sound

structure Stopped (before after : CallIntent) : Prop where
  sameId : after.id = before.id
  sameBot : after.botId = before.botId
  wasOpen : before.state ≠ .done
  isDone : after.state = .done
  isFree : after.activeSlot = false
  hasOutcome : after.outcome.isSome

/-- Intents are left alone or ended, and the calls of the live ones with them. -/
structure Stops (db db' : Db) (f : CallIntent → CallIntent) (g : CallSession → CallSession) :
    Prop where
  intents : db'.intents = db.intents.map f
  sessions : db'.sessions = db.sessions.map g
  row : ∀ i ∈ db.intents, f i = i ∨ Stopped i (f i)
  sameSession : ∀ s ∈ db.sessions, (g s).callId = s.callId ∧ (g s).intentId = s.intentId ∧
    (g s).botId = s.botId ∧ (g s).id = s.id
  wasOpen : ∀ s ∈ db.sessions, (g s).endedAt = none → s.endedAt = none
  together : ∀ i ∈ db.intents, ∀ s ∈ db.sessions, i.state = .live → Names s i.id →
    (f i = i ∧ (g s).endedAt = none) ∨ (Stopped i (f i) ∧ (g s).endedAt ≠ none)

section

variable {f : CallIntent → CallIntent} {g : CallSession → CallSession}

theorem Stops.sameId (stops : Stops db db' f g) (i : CallIntent) (isHere : i ∈ db.intents) :
    (f i).id = i.id := by
  rcases stops.row i isHere with same | stopped
  · rw [same]
  · exact stopped.sameId

theorem Stops.rewrites (stops : Stops db db' f g) (sound : Sound db) :
    Rewrites db db' f g := by
  have wasHeld {i : CallIntent} (isHere : i ∈ db.intents) (held : (f i).activeSlot = true) :
      i.activeSlot = true := by
    rcases stops.row i isHere with same | stopped
    · rwa [same] at held
    · rw [stopped.isFree] at held
      cases held
  refine ⟨stops.intents, stops.sessions, fun i isHere => ?_, stops.sameSession, fun i isHere => ?_,
    fun i isHere j isIn holds alsoHolds => ?_, fun i isHere isLive => ?_, stops.wasOpen,
    fun i isHere s isSession isLive names => ?_, fun i isHere isDone => ?_⟩
  · rcases stops.row i isHere with same | stopped
    · rw [same]
      exact ⟨rfl, rfl⟩
    · exact ⟨stopped.sameId, stopped.sameBot⟩
  · rcases stops.row i isHere with same | stopped
    · rw [same]
      exact sound.slot i isHere
    · rw [stopped.isFree, stopped.isDone]
      simp [Holds]
  · exact sound.single i isHere j isIn (wasHeld isHere holds) (wasHeld isIn alsoHolds)
  · rcases stops.row i isHere with same | stopped
    · rwa [same] at isLive
    · rw [stopped.isDone] at isLive
      cases isLive
  · rcases stops.together i isHere s isSession isLive names with ⟨same, isOpen⟩ | ⟨stopped, isEnded⟩
    · rw [same]
      exact ⟨fun _ => isOpen, fun _ => isLive⟩
    · rw [stopped.isDone]
      exact ⟨fun wrong => CallState.noConfusion wrong, fun isOpen => absurd isOpen isEnded⟩
  · rcases stops.row i isHere with same | stopped
    · rw [same] at isDone ⊢
      exact sound.outcome i isHere isDone
    · exact stopped.hasOutcome

theorem Stops.sound (stops : Stops db db' f g) (sound : Sound db) : Sound db' :=
  (stops.rewrites sound).sound sound

theorem Stops.moves (stops : Stops db db' f g) (sound : Sound db) (noRing : ringIds effects = []) :
    Moves fresh db db' effects := by
  refine Moves.of_map sound.ids stops.intents stops.sameId ?_ ?_ ?_ ?_
  · intro i isHere isDone
    rcases stops.row i isHere with same | stopped
    · exact same
    · exact absurd isDone stopped.wasOpen
  · intro id isRung
    rw [noRing] at isRung
    cases isRung
  · rw [noRing]
    exact List.nodup_nil
  · intro i isHere waits
    rcases stops.row i isHere with same | stopped
    · rwa [same] at waits
    · rw [stopped.isDone] at waits
      simp [Waits] at waits

theorem Stops.ringsEnd (stops : Stops db db' f g)
    (resolves : ∀ i ∈ db.intents, i.state = .ringing → f i = i ∨ Resolves effects i.id) :
    RingsEnd db db' effects := by
  refine RingsEnd.of_map stops.intents stops.sameId fun i isHere isRinging => ?_
  rcases resolves i isHere isRinging with same | resolved
  · rw [same]
    exact Or.inl isRinging
  · exact Or.inr resolved

end

theorem endSession_stops (db' : Db) (sound : Sound db) {s : CallSession} (isSession : s ∈ db.sessions)
    (isOpen : s.endedAt = none) (set : CallSession → CallSession)
    (isEnded : ∀ t, (set t).callId = t.callId ∧ (set t).intentId = t.intentId ∧
      (set t).botId = t.botId ∧ (set t).id = t.id ∧ (set t).endedAt ≠ none)
    {f : CallIntent → CallIntent} (intents : db'.intents = db.intents.map f)
    (sessions : db'.sessions = (db.updateSession s.callId (fun _ => true) set).sessions)
    (row : ∀ i ∈ db.intents, (f i = i ∧ ¬Names s i.id) ∨ (Stopped i (f i) ∧ Names s i.id)) :
    ∃ g, Stops db db' f g := by
  refine ⟨fun t => if t.callId = s.callId ∧ t.endedAt = none then set t else t, intents, ?_, ?_, ?_,
    ?_, ?_⟩
  · rw [sessions]
    unfold Db.updateSession
    simp only [and_true]
  · intro i isHere
    rcases row i isHere with ⟨same, _⟩ | ⟨stopped, _⟩
    · exact Or.inl same
    · exact Or.inr stopped
  · intro t _
    split_ifs
    · exact ⟨(isEnded t).1, (isEnded t).2.1, (isEnded t).2.2.1, (isEnded t).2.2.2.1⟩
    · exact ⟨rfl, rfl, rfl, rfl⟩
  · intro t _ stillOpen
    split_ifs at stillOpen
    · exact absurd stillOpen (isEnded t).2.2.2.2
    · exact stillOpen
  · intro i isHere t isOther isLive names
    by_cases isSame : t.callId = s.callId
    · obtain rfl := sound.session_eq isOther isSession isSame
      rcases row i isHere with ⟨_, notNames⟩ | ⟨stopped, _⟩
      · exact absurd names notNames
      · rw [if_pos ⟨rfl, isOpen⟩]
        exact Or.inr ⟨stopped, (isEnded t).2.2.2.2⟩
    · rw [if_neg fun both => isSame both.1]
      rcases row i isHere with ⟨same, _⟩ | ⟨_, alsoNames⟩
      · exact Or.inl ⟨same, names.1⟩
      · exact absurd (sound.oneSession t isOther s isSession i.id names alsoNames ▸ rfl) isSame

theorem finishLive_rows (db : Db) (distinct : (db.intents.map (·.id)).Nodup) {i : CallIntent}
    (isHere : i ∈ db.intents) (isLive : i.state = .live) (s : CallSession) (endedBy : SessionEnd)
    (now : Int) :
    ∃ f, (finishLive db i.id s endedBy now).db.intents = db.intents.map f ∧
      (finishLive db i.id s endedBy now).db.sessions = db.sessions ∧ Stopped i (f i) ∧ (∀ j ∈ db.intents, j ≠ i → f j = j) ∧
      ringIds (finishLive db i.id s endedBy now).effects = [] := by
  unfold finishLive
  rw [Db.getIntent_of_mem distinct isHere]
  simp only [isLive, ne_eq, not_true_eq_false, if_false]
  split
  · rename_i notMatched
    exact absurd notMatched (Db.updateIntent_ne_none isHere (by simp [isLive]))
  · rename_i ended isDone
    obtain ⟨f, isTables, isSet, others⟩ := Db.updateIntent_rows distinct isHere isDone
    refine ⟨f, ?_, ?_, ?_, others, ?_⟩
    · split <;> rw [isTables]
    · split <;> rw [isTables]
    · rw [isSet]
      exact ⟨rfl, rfl, by simp [isLive], rfl, rfl, rfl⟩
    · split <;> rfl

theorem endSession_keeps (sound : Sound db) (callId : String) (endedBy : SessionEnd) (now : Int) :
    Keeps fresh db (endSession db callId endedBy now) := by
  unfold endSession
  split
  · exact Keeps.same sound _
  · rename_i s found
    obtain ⟨isSession, rfl⟩ := Db.getSession_spec found
    split_ifs with isEnded
    · exact Keeps.same sound _
    have isOpen : s.endedAt = none := not_ne_iff.mp isEnded
    simp only
    split
    · rename_i noIntent
      have noName (id : String) : ¬Names s id := by
        rintro ⟨_, isNamed⟩
        rw [noIntent] at isNamed
        cases isNamed
      obtain ⟨g, stops⟩ := endSession_stops
        (db.updateSession s.callId (fun _ => true) fun session =>
          { session with endedAt := some now, endedBy := some endedBy })
        sound isSession isOpen (fun t => { t with endedAt := some now, endedBy := some endedBy })
        (fun t => ⟨rfl, rfl, rfl, rfl, Option.some_ne_none now⟩) (List.map_id db.intents).symm rfl
        fun i _ => Or.inl ⟨rfl, noName i.id⟩
      exact ⟨stops.sound sound, stops.moves sound rfl, stops.ringsEnd fun _ _ _ => Or.inl rfl⟩
    · rename_i intentId isNamed
      obtain ⟨i, isHere, rfl, isLive, _⟩ := sound.named s isSession intentId ⟨isOpen, isNamed⟩
      obtain ⟨f, intents, sessions, stopped, others, noRing⟩ := finishLive_rows
        (db.updateSession s.callId (fun _ => true) fun session =>
          { session with endedAt := some now, endedBy := some endedBy })
        sound.ids isHere isLive s endedBy now
      obtain ⟨g, stops⟩ := endSession_stops _ sound isSession isOpen
        (fun t => { t with endedAt := some now, endedBy := some endedBy })
        (fun t => ⟨rfl, rfl, rfl, rfl, Option.some_ne_none now⟩)
        intents sessions fun j isIn => by
          by_cases isSame : j = i
          · exact Or.inr (isSame ▸ ⟨stopped, isOpen, isNamed⟩)
          · refine Or.inl ⟨others j isIn isSame, fun names => ?_⟩
            have sameId : i.id = j.id := Option.some.inj (isNamed.symm.trans names.2)
            exact isSame (sound.intent_eq isIn isHere sameId.symm)
      refine ⟨stops.sound sound, stops.moves sound noRing, stops.ringsEnd fun j isIn ringing => ?_⟩
      refine Or.inl (others j isIn ?_)
      rintro rfl
      rw [isLive] at ringing
      cases ringing

theorem touchSession_keeps (sound : Sound db) (callId : String) (now : Int) :
    Keeps fresh db (touchSession db callId now) := by
  unfold touchSession
  split
  · exact Keeps.same sound _
  · split_ifs
    · exact Keeps.same sound _
    · exact endSession_keeps sound _ _ _
    · refine ⟨sound.touch fun s => ?_, Moves.of_same sound rfl, RingsEnd.of_same rfl⟩
      split_ifs <;> exact ⟨rfl, rfl, rfl, rfl, rfl⟩

/-! ## Sessions that begin -/

theorem insertSession_spec {ids : SessionIds} {botId : String} {intentId : Option String}
    {threadId device principal : String} {now : Int}
    (isDone : insertSession db ids botId intentId threadId device principal now = .ok db') :
    ∃ s, db' = { db with sessions := db.sessions ++ [s] } ∧ s.endedAt = none ∧
      s.intentId = intentId ∧ s.botId = botId ∧
        ∀ t ∈ db.sessions, t.callId ≠ s.callId ∧ t.id ≠ s.id := by
  unfold insertSession at isDone
  split_ifs at isDone with _ isTaken
  refine ⟨_, (Except.ok.inj isDone).symm, rfl, rfl, rfl, fun t isHere => ⟨?_, ?_⟩⟩
  · exact fun sameCall => isTaken (List.any_eq_true.mpr ⟨t, isHere, by simp [sameCall]⟩)
  · exact fun sameId => isTaken (List.any_eq_true.mpr ⟨t, isHere, by simp [sameId]⟩)

theorem nodup_map_append {α : Type} {rows : List α} {key : α → String} {row : α}
    (distinct : (rows.map key).Nodup) (isNew : ∀ other ∈ rows, key other ≠ key row) :
    ((rows ++ [row]).map key).Nodup := by
  rw [List.map_append, List.nodup_append]
  refine ⟨distinct, List.nodup_singleton _, ?_⟩
  rintro name isOld other isLast rfl
  obtain ⟨before, isHere, sameKey⟩ := List.mem_map.mp isOld
  rw [List.map_singleton, List.mem_singleton] at isLast
  exact isNew before isHere (sameKey.trans isLast)

theorem Sound.open_ordinary (sound : Sound db) {s : CallSession} (noIntent : s.intentId = none)
    (isNew : ∀ t ∈ db.sessions, t.callId ≠ s.callId ∧ t.id ≠ s.id) :
    Sound { db with sessions := db.sessions ++ [s] } := by
  have isOld {t : CallSession} {id : String} (isHere : t ∈ db.sessions ++ [s]) (names : Names t id) :
      t ∈ db.sessions := by
    rcases List.mem_append.mp isHere with isOld | isNew
    · exact isOld
    · rw [List.mem_singleton.mp isNew] at names
      exact absurd (noIntent.symm.trans names.2).symm (Option.some_ne_none id)
  refine ⟨sound.ids, nodup_map_append sound.calls fun t isHere => (isNew t isHere).1,
    nodup_map_append sound.sessionIds fun t isHere => (isNew t isHere).2, sound.slot, sound.single, fun i isHere isLive => ?_,
    fun t isHere id names => sound.named t (isOld isHere names) id names,
    fun t isHere u isIn id names alsoNames =>
      sound.oneSession t (isOld isHere names) u (isOld isIn alsoNames) id names alsoNames,
    sound.outcome⟩
  obtain ⟨t, isSession, names⟩ := sound.live i isHere isLive
  exact ⟨t, List.mem_append_left _ isSession, names⟩

theorem openOwnerSession_keeps (sound : Sound db) (ids : SessionIds)
    (botId threadId device principal : String) (now : Int)
    {body : Body (SessionIds × Option String)}
    (isOk : openOwnerSession db ids botId threadId device principal now = .ok body) :
    Keeps fresh db body := by
  unfold openOwnerSession at isOk
  simp only at isOk
  split at isOk
  · cases isOk
  rename_i opened isInserted
  cases isOk
  have rung : ∀ rung : Body (Option String), Keeps fresh db rung →
      insertSession rung.db ids botId none threadId device principal now = .ok opened →
      Keeps fresh db { db := opened, effects := rung.effects, value := (ids, rung.value) } := by
    intro rung keeps isInserted
    obtain ⟨s, rfl, _, noIntent, _, isNew⟩ := insertSession_spec isInserted
    exact ⟨keeps.1.open_ordinary noIntent isNew, keeps.2.1.congr rfl, keeps.2.2.congr rfl⟩
  refine rung _ ?_ isInserted
  split
  · exact Keeps.same sound _
  · exact endRing_keeps sound _ _ _ _ _

theorem Sound.answer (sound : Sound db) {i : CallIntent} (isHere : i ∈ db.intents)
    (isRinging : i.state = .ringing) {s : CallSession} (isOpen : s.endedAt = none)
    (names : s.intentId = some i.id) (sameBot : s.botId = i.botId)
    (isNew : ∀ t ∈ db.sessions, t.callId ≠ s.callId ∧ t.id ≠ s.id) {f : CallIntent → CallIntent}
    (same : (f i).id = i.id ∧ (f i).botId = i.botId ∧ (f i).activeSlot = i.activeSlot)
    (isLive : (f i).state = .live) (others : ∀ j ∈ db.intents, j ≠ i → f j = j) :
    Sound { db with intents := db.intents.map f, sessions := db.sessions ++ [s] } := by
  have sameIds : ∀ j ∈ db.intents, (f j).id = j.id ∧ (f j).activeSlot = j.activeSlot := by
    intro j isIn
    by_cases isSame : j = i
    · rw [isSame]
      exact ⟨same.1, same.2.2⟩
    · rw [others j isIn isSame]
      exact ⟨rfl, rfl⟩
  -- no session named the ring before
  have notNamed {t : CallSession} (isSession : t ∈ db.sessions) : ¬Names t i.id := by
    intro alsoNames
    have wasLive := (sound.live_iff isHere).mpr ⟨t, isSession, alsoNames⟩
    rw [isRinging] at wasLive
    cases wasLive
  refine ⟨?_, nodup_map_append sound.calls fun t isSession => (isNew t isSession).1,
    nodup_map_append sound.sessionIds fun t isSession => (isNew t isSession).2, ?_, ?_, ?_, ?_, ?_, ?_⟩
  · have keptIds : (db.intents.map f).map (·.id) = db.intents.map (·.id) := by
      rw [List.map_map]
      exact List.map_congr_left fun j isIn => (sameIds j isIn).1
    rw [keptIds]
    exact sound.ids
  · intro k isRow
    obtain ⟨j, isIn, rfl⟩ := List.mem_map.mp isRow
    by_cases isSame : j = i
    · subst isSame
      rw [same.2.2, isLive, sound.slot j isHere, isRinging]
      simp [Holds]
    · rw [others j isIn isSame]
      exact sound.slot j isIn
  · intro k isRow l isOther holds alsoHolds
    obtain ⟨j, isIn, rfl⟩ := List.mem_map.mp isRow
    obtain ⟨m, isSecond, rfl⟩ := List.mem_map.mp isOther
    rw [(sameIds j isIn).2] at holds
    rw [(sameIds m isSecond).2] at alsoHolds
    rw [sound.single j isIn m isSecond holds alsoHolds]
  · intro k isRow kLive
    obtain ⟨j, isIn, rfl⟩ := List.mem_map.mp isRow
    by_cases isSame : j = i
    · rw [isSame, same.1]
      exact ⟨s, List.mem_append_right _ List.mem_cons_self, isOpen, names⟩
    · rw [others j isIn isSame] at kLive ⊢
      obtain ⟨t, isSession, namesOther⟩ := sound.live j isIn kLive
      exact ⟨t, List.mem_append_left _ isSession, namesOther⟩
  · intro t isSession id namesId
    rcases List.mem_append.mp isSession with isOld | isLast
    · obtain ⟨j, isIn, rfl, jLive, jBot⟩ := sound.named t isOld id namesId
      have isOther : j ≠ i := by
        rintro rfl
        exact notNamed isOld namesId
      refine ⟨f j, List.mem_map_of_mem isIn, ?_⟩
      rw [others j isIn isOther]
      exact ⟨rfl, jLive, jBot⟩
    · obtain rfl := List.mem_singleton.mp isLast
      have sameId : i.id = id := Option.some.inj (names.symm.trans namesId.2)
      refine ⟨f i, List.mem_map_of_mem isHere, same.1.trans sameId, isLive, ?_⟩
      rw [same.2.1, sameBot]
  · intro t isFirst u isSecond id namesId alsoNames
    have onlyOne {v : CallSession} (isSession : v ∈ db.sessions) (namesV : Names v id)
        (namesS : Names s id) : False := by
      have sameId : i.id = id := Option.some.inj (names.symm.trans namesS.2)
      exact notNamed isSession (sameId ▸ namesV)
    rcases List.mem_append.mp isFirst with tOld | tLast
    · rcases List.mem_append.mp isSecond with uOld | uLast
      · exact sound.oneSession t tOld u uOld id namesId alsoNames
      · exact (onlyOne tOld namesId (List.mem_singleton.mp uLast ▸ alsoNames)).elim
    · rcases List.mem_append.mp isSecond with uOld | uLast
      · exact (onlyOne uOld alsoNames (List.mem_singleton.mp tLast ▸ namesId)).elim
      · rw [List.mem_singleton.mp tLast, List.mem_singleton.mp uLast]
  · intro k isRow isDone
    obtain ⟨j, isIn, rfl⟩ := List.mem_map.mp isRow
    by_cases isSame : j = i
    · rw [isSame, isLive] at isDone
      cases isDone
    · rw [others j isIn isSame] at isDone ⊢
      exact sound.outcome j isIn isDone

theorem answerCall_keeps (sound : Sound db) (id device : String) (ids : SessionIds) (now : Int)
    (principal : String) {body : Body AnswerResult}
    (isOk : answerCall db id device ids now principal = .ok body) : Keeps fresh db body := by
  unfold answerCall at isOk
  split at isOk
  · cases isOk
    exact Keeps.same sound _
  rename_i before found
  obtain ⟨isHere, rfl⟩ := Db.getIntent_spec found
  split at isOk
  · rename_i isRinging
    split at isOk
    · cases isOk
      exact endRing_keeps sound _ _ _ _ _
    split at isOk
    · cases isOk
    rename_i opened isInserted
    obtain ⟨s, rfl, isOpen, names, sameBot, isNew⟩ := insertSession_spec isInserted
    split at isOk
    · cases isOk
    rename_i answered isDone
    split at isOk
    · cases isOk
    rename_i intent foundAfter
    obtain ⟨f, rfl, isSet, others⟩ := @Db.updateIntent_rows
      { db with sessions := db.sessions ++ [s] } _ _ _ _ sound.ids isHere isDone
    cases isOk
    have isLive : (f before).state = .live := by rw [isSet]
    have soundAfter : Sound { db with intents := db.intents.map f, sessions := db.sessions ++ [s] } := by
      refine sound.answer isHere isRinging isOpen names sameBot isNew ?_ isLive others
      rw [isSet]
      exact ⟨rfl, rfl, rfl⟩
    have row {motive : CallIntent → CallIntent → Prop} (isRow : motive before (f before))
        (isOther : ∀ j, motive j j) : ∀ j ∈ db.intents, motive j (f j) := by
      intro j isIn
      by_cases isSame : j = before
      · rwa [isSame]
      · rw [others j isIn isSame]
        exact isOther j
    have sameId := row (motive := fun j after => after.id = j.id) (by rw [isSet]) fun _ => rfl
    refine ⟨soundAfter, Moves.of_map sound.ids rfl sameId ?_ (fun _ isRung => nomatch isRung)
      List.nodup_nil ?_, RingsEnd.of_map rfl sameId ?_⟩
    · refine row (motive := fun j after => j.state = .done → after = j) ?_ fun _ _ => rfl
      intro isDone
      rw [isRinging] at isDone
      cases isDone
    · refine row (motive := fun j after => Waits after.state → Waits j.state) ?_ fun _ waits => waits
      intro waits
      rw [isLive] at waits
      exact absurd rfl waits.not_live
    · refine row (motive := fun j after => j.state = .ringing → after.state = .ringing ∨
        Resolves [.resolve intent .answered] j.id) ?_ fun _ rings => Or.inl rings
      exact fun _ => Or.inr ⟨intent, _, List.mem_cons_self, (Db.getIntent_spec foundAfter).2⟩
  · simp only at isOk
    split_ifs at isOk
    · cases isOk
      exact Keeps.same sound _
    · split at isOk
      · cases isOk
        exact Keeps.same sound _
      · split_ifs at isOk
        · cases isOk
          exact Keeps.same sound _
        · cases isOk
          exact endSession_keeps sound _ _ _
        · cases isOk
          exact Keeps.same sound _
  all_goals
    cases isOk
    exact Keeps.same sound _

end

end Murage.BotCalls
