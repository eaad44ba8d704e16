import Murage.BotCalls.Model

/-!
Owns what the tables of the bot calls hold between transactions, what one transaction may
change of them, and that the changes of rows keep it.

Does not own: that each transition makes only such changes.
-/

namespace Murage.BotCalls

/-- The states an intent is decided from. -/
def Waits (state : CallState) : Prop := state = .pending ∨ state = .waiting

/-- The states that hold the slot. -/
def Holds (state : CallState) : Prop := state = .ringing ∨ state = .live

def Names (s : CallSession) (id : String) : Prop := s.endedAt = none ∧ s.intentId = some id

structure Sound (db : Db) : Prop where
  ids : (db.intents.map (·.id)).Nodup
  calls : (db.sessions.map (·.callId)).Nodup
  sessionIds : (db.sessions.map (·.id)).Nodup
  slot : ∀ i ∈ db.intents, i.activeSlot = true ↔ Holds i.state
  single : ∀ i ∈ db.intents, ∀ j ∈ db.intents, i.activeSlot = true → j.activeSlot = true → i = j
  live : ∀ i ∈ db.intents, i.state = .live → ∃ s ∈ db.sessions, Names s i.id
  named : ∀ s ∈ db.sessions, ∀ id, Names s id →
    ∃ i ∈ db.intents, i.id = id ∧ i.state = .live ∧ i.botId = s.botId
  oneSession : ∀ s ∈ db.sessions, ∀ t ∈ db.sessions, ∀ id, Names s id → Names t id → s = t
  outcome : ∀ i ∈ db.intents, i.state = .done → i.outcome.isSome

def ringIds (effects : List Effect) : List String :=
  effects.filterMap fun effect =>
    match effect with
    | .ring intent _ => some intent.id
    | _ => none

def Resolves (effects : List Effect) (id : String) : Prop :=
  ∃ intent how, Effect.resolve intent how ∈ effects ∧ intent.id = id

/-- An intent that rang and rings no more was resolved. -/
def RingsEnd (db db' : Db) (effects : List Effect) : Prop :=
  ∀ i ∈ db.intents, i.state = .ringing →
    (∃ j ∈ db'.intents, j.id = i.id ∧ j.state = .ringing) ∨ Resolves effects i.id

/-- What a transaction may change of the intents. `fresh` are the ids it may admit. -/
structure Moves (fresh : String → Prop) (db db' : Db) (effects : List Effect) : Prop where
  absorbing : ∀ i ∈ db.intents, i.state = .done → ∀ j ∈ db'.intents, j.id = i.id → j = i
  rings : ∀ id ∈ ringIds effects, (∃ i ∈ db.intents, i.id = id ∧ Waits i.state) ∧
    ∀ j ∈ db'.intents, j.id = id → ¬Waits j.state
  once : (ringIds effects).Nodup
  origin : ∀ j ∈ db'.intents,
    (∃ i ∈ db.intents, i.id = j.id ∧ (Waits j.state → Waits i.state)) ∨ fresh j.id

/-! ## Rows -/

section

variable {db db' : Db}

theorem Db.getIntent_spec {id : String} {i : CallIntent} (found : db.getIntent id = some i) :
    i ∈ db.intents ∧ i.id = id := by
  unfold Db.getIntent at found
  exact ⟨List.mem_of_find?_eq_some found, by simpa using List.find?_some found⟩

theorem Db.getSession_spec {callId : String} {s : CallSession} (found : db.getSession callId = some s) :
    s ∈ db.sessions ∧ s.callId = callId := by
  unfold Db.getSession at found
  exact ⟨List.mem_of_find?_eq_some found, by simpa using List.find?_some found⟩

theorem Sound.intent_eq (sound : Sound db) {i j : CallIntent} (isHere : i ∈ db.intents)
    (isIn : j ∈ db.intents) (sameId : i.id = j.id) : i = j :=
  List.inj_on_of_nodup_map sound.ids isHere isIn sameId

theorem Sound.session_eq (sound : Sound db) {s t : CallSession} (isHere : s ∈ db.sessions)
    (isIn : t ∈ db.sessions) (sameCall : s.callId = t.callId) : s = t :=
  List.inj_on_of_nodup_map sound.calls isHere isIn sameCall

theorem Db.getIntent_of_mem (distinct : (db.intents.map (·.id)).Nodup) {i : CallIntent}
    (isHere : i ∈ db.intents) : db.getIntent i.id = some i := by
  cases found : db.getIntent i.id with
  | none =>
    unfold Db.getIntent at found
    exact absurd (List.find?_eq_none.mp found i isHere) (by simp)
  | some j =>
    obtain ⟨isIn, sameId⟩ := Db.getIntent_spec found
    rw [List.inj_on_of_nodup_map distinct isIn isHere sameId]

theorem Db.updateIntent_ne_none {i : CallIntent} {guard : CallIntent → Bool}
    {set : CallIntent → CallIntent} (isHere : i ∈ db.intents) (isMatch : guard i = true) :
    db.updateIntent i.id guard set ≠ none := by
  unfold Db.updateIntent
  rw [if_pos (List.any_eq_true.mpr ⟨i, isHere, by simp [isMatch]⟩)]
  exact Option.some_ne_none _

theorem Sound.live_iff (sound : Sound db) {i : CallIntent} (isHere : i ∈ db.intents) :
    i.state = .live ↔ ∃ s ∈ db.sessions, Names s i.id := by
  constructor
  · exact sound.live i isHere
  · rintro ⟨s, isSession, names⟩
    obtain ⟨j, isIn, sameId, isLive, _⟩ := sound.named s isSession i.id names
    rwa [sound.intent_eq isHere isIn sameId.symm]

/-! ## Rows rewritten in place -/

structure Rewrites (db db' : Db) (f : CallIntent → CallIntent) (g : CallSession → CallSession) :
    Prop where
  intents : db'.intents = db.intents.map f
  sessions : db'.sessions = db.sessions.map g
  sameIntent : ∀ i ∈ db.intents, (f i).id = i.id ∧ (f i).botId = i.botId
  sameSession : ∀ s ∈ db.sessions, (g s).callId = s.callId ∧ (g s).intentId = s.intentId ∧
    (g s).botId = s.botId ∧ (g s).id = s.id
  slot : ∀ i ∈ db.intents, (f i).activeSlot = true ↔ Holds (f i).state
  single : ∀ i ∈ db.intents, ∀ j ∈ db.intents, (f i).activeSlot = true → (f j).activeSlot = true →
    i = j
  wasLive : ∀ i ∈ db.intents, (f i).state = .live → i.state = .live
  wasOpen : ∀ s ∈ db.sessions, (g s).endedAt = none → s.endedAt = none
  together : ∀ i ∈ db.intents, ∀ s ∈ db.sessions, i.state = .live → Names s i.id →
    ((f i).state = .live ↔ (g s).endedAt = none)
  outcome : ∀ i ∈ db.intents, (f i).state = .done → (f i).outcome.isSome

theorem Rewrites.sound {f : CallIntent → CallIntent} {g : CallSession → CallSession}
    (rewrites : Rewrites db db' f g) (sound : Sound db) : Sound db' := by
  have namesOf {s : CallSession} (isSession : s ∈ db.sessions) {id : String} (names : Names (g s) id) :
      Names s id :=
    ⟨rewrites.wasOpen s isSession names.1, by
      rw [← (rewrites.sameSession s isSession).2.1]
      exact names.2⟩
  refine ⟨?_, ?_, ?_, ?_, ?_, ?_, ?_, ?_, ?_⟩
  · have sameIds : db'.intents.map (·.id) = db.intents.map (·.id) := by
      rw [rewrites.intents, List.map_map]
      exact List.map_congr_left fun i isHere => (rewrites.sameIntent i isHere).1
    rw [sameIds]
    exact sound.ids
  · have sameCalls : db'.sessions.map (·.callId) = db.sessions.map (·.callId) := by
      rw [rewrites.sessions, List.map_map]
      exact List.map_congr_left fun s isHere => (rewrites.sameSession s isHere).1
    rw [sameCalls]
    exact sound.calls
  · have sameIds : db'.sessions.map (·.id) = db.sessions.map (·.id) := by
      rw [rewrites.sessions, List.map_map]
      exact List.map_congr_left fun s isHere => (rewrites.sameSession s isHere).2.2.2
    rw [sameIds]
    exact sound.sessionIds
  · intro i isHere
    rw [rewrites.intents] at isHere
    obtain ⟨before, isBefore, rfl⟩ := List.mem_map.mp isHere
    exact rewrites.slot before isBefore
  · intro i isHere j isIn holds alsoHolds
    rw [rewrites.intents] at isHere isIn
    obtain ⟨first, isFirst, rfl⟩ := List.mem_map.mp isHere
    obtain ⟨second, isSecond, rfl⟩ := List.mem_map.mp isIn
    rw [rewrites.single first isFirst second isSecond holds alsoHolds]
  · intro i isHere isLive
    rw [rewrites.intents] at isHere
    obtain ⟨before, isBefore, rfl⟩ := List.mem_map.mp isHere
    have wasLive := rewrites.wasLive before isBefore isLive
    obtain ⟨s, isSession, names⟩ := sound.live before isBefore wasLive
    rw [rewrites.sessions, (rewrites.sameIntent before isBefore).1]
    refine ⟨g s, List.mem_map_of_mem isSession, ?_, ?_⟩
    · exact (rewrites.together before isBefore s isSession wasLive names).mp isLive
    · rw [(rewrites.sameSession s isSession).2.1]
      exact names.2
  · intro s isSession id names
    rw [rewrites.sessions] at isSession
    obtain ⟨before, isBefore, rfl⟩ := List.mem_map.mp isSession
    have wasNames := namesOf isBefore names
    obtain ⟨i, isHere, rfl, isLive, sameBot⟩ := sound.named before isBefore id wasNames
    obtain ⟨sameId, keptBot⟩ := rewrites.sameIntent i isHere
    rw [rewrites.intents]
    refine ⟨f i, List.mem_map_of_mem isHere, sameId, ?_, ?_⟩
    · exact (rewrites.together i isHere before isBefore isLive wasNames).mpr names.1
    · rw [keptBot, sameBot, (rewrites.sameSession before isBefore).2.2.1]
  · intro s isSession t isOther id names alsoNames
    rw [rewrites.sessions] at isSession isOther
    obtain ⟨first, isFirst, rfl⟩ := List.mem_map.mp isSession
    obtain ⟨second, isSecond, rfl⟩ := List.mem_map.mp isOther
    rw [sound.oneSession first isFirst second isSecond id (namesOf isFirst names)
      (namesOf isSecond alsoNames)]
  · intro i isHere isDone
    rw [rewrites.intents] at isHere
    obtain ⟨before, isBefore, rfl⟩ := List.mem_map.mp isHere
    exact rewrites.outcome before isBefore isDone

theorem Moves.of_map {f : CallIntent → CallIntent} {effects : List Effect} {fresh : String → Prop}
    (distinct : (db.intents.map (·.id)).Nodup) (intents : db'.intents = db.intents.map f)
    (sameId : ∀ i ∈ db.intents, (f i).id = i.id)
    (absorbing : ∀ i ∈ db.intents, i.state = .done → f i = i)
    (rings : ∀ id ∈ ringIds effects, ∃ i ∈ db.intents, i.id = id ∧ Waits i.state ∧ ¬Waits (f i).state)
    (once : (ringIds effects).Nodup)
    (origin : ∀ i ∈ db.intents, Waits (f i).state → Waits i.state) :
    Moves fresh db db' effects := by
  have after {j : CallIntent} (isHere : j ∈ db'.intents) :
      ∃ i ∈ db.intents, f i = j ∧ i.id = j.id := by
    rw [intents] at isHere
    obtain ⟨i, isBefore, rfl⟩ := List.mem_map.mp isHere
    exact ⟨i, isBefore, rfl, (sameId i isBefore).symm⟩
  refine ⟨?_, ?_, once, ?_⟩
  · intro i isHere isDone j isIn isSame
    obtain ⟨before, isBefore, rfl, keptId⟩ := after isIn
    obtain rfl := List.inj_on_of_nodup_map distinct isBefore isHere (keptId.trans isSame)
    exact absorbing before isBefore isDone
  · intro id isRung
    obtain ⟨i, isHere, rfl, waits, notWaits⟩ := rings id isRung
    refine ⟨⟨i, isHere, rfl, waits⟩, fun j isIn isSame => ?_⟩
    obtain ⟨before, isBefore, rfl, keptId⟩ := after isIn
    obtain rfl := List.inj_on_of_nodup_map distinct isBefore isHere (keptId.trans isSame)
    exact notWaits
  · intro j isIn
    obtain ⟨i, isHere, rfl, isSame⟩ := after isIn
    exact Or.inl ⟨i, isHere, isSame, origin i isHere⟩

theorem RingsEnd.of_map {f : CallIntent → CallIntent} {effects : List Effect}
    (intents : db'.intents = db.intents.map f) (sameId : ∀ i ∈ db.intents, (f i).id = i.id)
    (resolves : ∀ i ∈ db.intents, i.state = .ringing →
      (f i).state = .ringing ∨ Resolves effects i.id) : RingsEnd db db' effects := by
  intro i isHere isRinging
  rcases resolves i isHere isRinging with rings | resolved
  · refine Or.inl ⟨f i, ?_, sameId i isHere, rings⟩
    rw [intents]
    exact List.mem_map_of_mem isHere
  · exact Or.inr resolved

end

end Murage.BotCalls
