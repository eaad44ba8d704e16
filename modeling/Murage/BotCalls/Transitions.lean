import Murage.BotCalls.Sound

/-!
Owns that each transition of the bot calls, as a transaction's body, keeps what the tables
hold and moves the intents as a transaction may.

Does not own: runs of transactions.
-/

namespace Murage.BotCalls

/-- A body whose tables are sound and whose intents moved as a transaction may move them. -/
def Keeps {α : Type} (fresh : String → Prop) (db : Db) (body : Body α) : Prop :=
  Sound body.db ∧ Moves fresh db body.db body.effects ∧ RingsEnd db body.db body.effects

section

variable {db db' : Db} {fresh : String → Prop} {α : Type}

theorem Moves.of_same (sound : Sound db) (same : db'.intents = db.intents) :
    Moves fresh db db' [] where
  absorbing _ isHere _ _ isIn sameId := sound.intent_eq (same ▸ isIn) isHere sameId
  rings _ isRung := absurd isRung List.not_mem_nil
  once := List.nodup_nil
  origin j isIn := Or.inl ⟨j, same ▸ isIn, rfl, id⟩

theorem RingsEnd.of_same {effects : List Effect} (same : db'.intents = db.intents) :
    RingsEnd db db' effects :=
  fun i isHere isRinging => Or.inl ⟨i, same ▸ isHere, rfl, isRinging⟩

theorem Keeps.same (sound : Sound db) (value : α) :
    Keeps fresh db { db := db, value := value } :=
  ⟨sound, Moves.of_same sound rfl, RingsEnd.of_same rfl⟩

theorem Sound.of_tables (sound : Sound db) (intents : db'.intents = db.intents)
    (sessions : db'.sessions = db.sessions) : Sound db' := by
  cases db
  cases db'
  obtain rfl : _ = _ := intents
  obtain rfl : _ = _ := sessions
  obtain ⟨ids, calls, sessionIds, slot, single, live, named, oneSession, outcome⟩ := sound
  exact ⟨ids, calls, sessionIds, slot, single, live, named, oneSession, outcome⟩

end

/-! ## One intent written -/

inductive RowMove (db : Db) (before after : CallIntent) : Prop where
  | hold (waits : Waits before.state) (stays : Waits after.state)
      (sameSlot : after.activeSlot = before.activeSlot)
  | settle (notDone : before.state ≠ .done) (notLive : before.state ≠ .live)
      (isDone : after.state = .done) (isFree : after.activeSlot = false)
      (hasOutcome : after.outcome.isSome)
  | ring (waits : Waits before.state) (isFree : db.slotTaken = false)
      (rings : after.state = .ringing) (holds : after.activeSlot = true)

section

variable {db db' : Db} {before : CallIntent} {guard : CallIntent → Bool}
  {set : CallIntent → CallIntent}

theorem Db.updateIntent_rows (distinct : (db.intents.map (·.id)).Nodup)
    (isHere : before ∈ db.intents) (isDone : db.updateIntent before.id guard set = some db') :
    ∃ f, db' = { db with intents := db.intents.map f } ∧ f before = set before ∧
      ∀ i ∈ db.intents, i ≠ before → f i = i := by
  unfold Db.updateIntent at isDone
  split_ifs at isDone with found
  obtain ⟨i, isIn, isMatch⟩ := List.any_eq_true.mp found
  simp only [Bool.and_eq_true, decide_eq_true_eq] at isMatch
  obtain rfl := List.inj_on_of_nodup_map distinct isIn isHere isMatch.1
  refine ⟨_, (Option.some.inj isDone).symm, if_pos isMatch, fun j isOther notSame => ?_⟩
  exact if_neg fun both => notSame (List.inj_on_of_nodup_map distinct isOther isHere both.1)

theorem free_of_not_taken {i : CallIntent} (isFree : db.slotTaken = false)
    (isHere : i ∈ db.intents) : i.activeSlot = false := by
  unfold Db.slotTaken at isFree
  simpa using List.any_eq_false.mp isFree i isHere

theorem rewrites_update (sound : Sound db) (isHere : before ∈ db.intents)
    {f : CallIntent → CallIntent} (isTables : db' = { db with intents := db.intents.map f })
    (isSet : f before = set before) (others : ∀ i ∈ db.intents, i ≠ before → f i = i)
    (same : (set before).id = before.id ∧ (set before).botId = before.botId)
    (move : RowMove db before (set before)) : Rewrites db db' f id := by
  have cases_row {motive : CallIntent → CallIntent → Prop} (isRow : motive before (set before))
      (isOther : ∀ i ∈ db.intents, i ≠ before → motive i i) :
      ∀ i ∈ db.intents, motive i (f i) := by
    intro i isIn
    by_cases isSame : i = before
    · rw [isSame, isSet]
      exact isRow
    · rw [others i isIn isSame]
      exact isOther i isIn isSame
  have notLive : (set before).state ≠ .live := by
    cases move with
    | hold _ stays _ =>
      intro isLive
      rw [isLive] at stays
      rcases stays with wrong | wrong <;> cases wrong
    | settle _ _ isDone _ _ => simp [isDone]
    | ring _ _ rings _ => simp [rings]
  have wasNotLive : before.state ≠ .live := by
    cases move with
    | hold waits _ _ =>
      intro isLive
      rw [isLive] at waits
      rcases waits with wrong | wrong <;> cases wrong
    | settle _ notLive _ _ _ => exact notLive
    | ring waits _ _ _ =>
      intro isLive
      rw [isLive] at waits
      rcases waits with wrong | wrong <;> cases wrong
  have waitsNotHolds {state : CallState} (waits : Waits state) : ¬Holds state := by
    rcases waits with rfl | rfl <;> rintro (wrong | wrong) <;> cases wrong
  refine ⟨by rw [isTables], by rw [isTables]; exact (List.map_id _).symm, ?_,
    fun s _ => ⟨rfl, rfl, rfl, rfl⟩, ?_, ?_, ?_, fun s _ isOpen => isOpen, ?_, ?_⟩
  · exact cases_row (motive := fun i j => j.id = i.id ∧ j.botId = i.botId) same
      fun i _ _ => ⟨rfl, rfl⟩
  · refine cases_row (motive := fun _ j => j.activeSlot = true ↔ Holds j.state) ?_
      fun i isIn _ => sound.slot i isIn
    cases move with
    | hold waits stays sameSlot =>
      rw [sameSlot, sound.slot before isHere]
      exact ⟨fun holds => absurd holds (waitsNotHolds waits),
        fun holds => absurd holds (waitsNotHolds stays)⟩
    | settle _ _ isDone isFree _ =>
      rw [isFree, isDone]
      constructor
      · intro wrong
        cases wrong
      · rintro (wrong | wrong) <;> cases wrong
    | ring _ _ rings holds =>
      rw [rings, holds]
      exact ⟨fun _ => Or.inl rfl, fun _ => rfl⟩
  · intro i isIn j isOther holds alsoHolds
    cases move with
    | ring _ isFree _ _ =>
      have only {k : CallIntent} (isRow : k ∈ db.intents) (held : (f k).activeSlot = true) :
          k = before := by
        by_contra isOther
        rw [others k isRow isOther, free_of_not_taken isFree isRow] at held
        cases held
      rw [only isIn holds, only isOther alsoHolds]
    | hold _ _ sameSlot =>
      have held {k : CallIntent} (isRow : k ∈ db.intents) (held : (f k).activeSlot = true) :
          k.activeSlot = true := by
        by_cases isSame : k = before
        · rw [isSame, isSet, sameSlot] at held
          rw [isSame, held]
        · rwa [others k isRow isSame] at held
      exact sound.single i isIn j isOther (held isIn holds) (held isOther alsoHolds)
    | settle _ _ _ isFree _ =>
      have held {k : CallIntent} (isRow : k ∈ db.intents) (held : (f k).activeSlot = true) :
          k.activeSlot = true := by
        by_cases isSame : k = before
        · rw [isSame, isSet, isFree] at held
          cases held
        · rwa [others k isRow isSame] at held
      exact sound.single i isIn j isOther (held isIn holds) (held isOther alsoHolds)
  · exact cases_row (motive := fun i j => j.state = .live → i.state = .live)
      (fun isLive => absurd isLive notLive) fun i _ _ isLive => isLive
  · intro i isIn s isSession isLive names
    have isOther : i ≠ before := by
      rintro rfl
      exact wasNotLive isLive
    rw [others i isIn isOther]
    exact ⟨fun _ => names.1, fun _ => isLive⟩
  · refine cases_row (motive := fun _ j => j.state = .done → j.outcome.isSome) ?_
      fun i isIn _ => sound.outcome i isIn
    cases move with
    | hold _ stays _ =>
      intro isDone
      rw [isDone] at stays
      rcases stays with wrong | wrong <;> cases wrong
    | settle _ _ _ _ hasOutcome => exact fun _ => hasOutcome
    | ring _ _ rings _ =>
      intro isDone
      rw [rings] at isDone
      cases isDone

/-- **One row written.** The tables stay sound, the row reads back as it was written, and the
intents moved as the effects say. -/
theorem Sound.update (sound : Sound db) (isHere : before ∈ db.intents)
    (isDone : db.updateIntent before.id guard set = some db')
    (same : (set before).id = before.id ∧ (set before).botId = before.botId)
    (move : RowMove db before (set before)) :
    Sound db' ∧ db'.getIntent before.id = some (set before) ∧
      ∀ (fresh : String → Prop) (effects : List Effect),
        (ringIds effects = [] ∨ ringIds effects = [before.id] ∧ (set before).state = .ringing) →
        (before.state = .ringing → Resolves effects before.id) →
          Moves fresh db db' effects ∧ RingsEnd db db' effects := by
  obtain ⟨f, isTables, isSet, others⟩ := Db.updateIntent_rows sound.ids isHere isDone
  have rewrites := rewrites_update sound isHere isTables isSet others same move
  have soundAfter := rewrites.sound sound
  refine ⟨soundAfter, ?_, fun fresh effects rings resolves => ?_⟩
  · have isIn : set before ∈ db'.intents := by
      rw [rewrites.intents, ← isSet]
      exact List.mem_map_of_mem isHere
    have found := Db.getIntent_of_mem soundAfter.ids isIn
    rwa [same.1] at found
  · have waitsOf : Waits (set before).state → Waits before.state := by
      intro waits
      cases move with
      | hold waited _ _ => exact waited
      | settle _ _ isDone _ _ =>
        rw [isDone] at waits
        rcases waits with wrong | wrong <;> cases wrong
      | ring waited _ _ _ => exact waited
    have notDone : before.state ≠ .done := by
      cases move with
      | hold waits _ _ =>
        intro isDone
        rw [isDone] at waits
        rcases waits with wrong | wrong <;> cases wrong
      | settle notDone _ _ _ _ => exact notDone
      | ring waits _ _ _ =>
        intro isDone
        rw [isDone] at waits
        rcases waits with wrong | wrong <;> cases wrong
    have sameId (i : CallIntent) (isIn : i ∈ db.intents) : (f i).id = i.id :=
      (rewrites.sameIntent i isIn).1
    have ends : RingsEnd db db' effects := by
      refine RingsEnd.of_map rewrites.intents sameId fun i isIn isRinging => ?_
      by_cases isSame : i = before
      · subst isSame
        exact Or.inr (resolves isRinging)
      · rw [others i isIn isSame]
        exact Or.inl isRinging
    refine ⟨Moves.of_map sound.ids rewrites.intents sameId ?_ ?_ ?_ ?_, ends⟩
    · intro i isIn wasDone
      refine others i isIn ?_
      rintro rfl
      exact notDone wasDone
    · intro id isRung
      rcases rings with noRing | ⟨oneRing, isRinging⟩
      · rw [noRing] at isRung
        cases isRung
      · rw [oneRing, List.mem_singleton] at isRung
        refine ⟨before, isHere, isRung.symm, ?_, ?_⟩
        · cases move with
          | hold waits _ _ => exact waits
          | settle _ _ isDone _ _ =>
            rw [isDone] at isRinging
            cases isRinging
          | ring waits _ _ _ => exact waits
        · rw [isSet, isRinging]
          rintro (wrong | wrong) <;> cases wrong
    · rcases rings with noRing | ⟨oneRing, _⟩
      · rw [noRing]
        exact List.nodup_nil
      · rw [oneRing]
        exact List.nodup_singleton _
    · intro i isIn waits
      by_cases isSame : i = before
      · subst isSame
        rw [isSet] at waits
        exact waitsOf waits
      · rwa [others i isIn isSame] at waits

end

/-! ## Decisions -/

section

variable {db db' : Db} {fresh : String → Prop} {before : CallIntent} {guard : CallIntent → Bool}
  {set : CallIntent → CallIntent}

theorem reread_keeps (sound : Sound db) (isHere : before ∈ db.intents)
    (isDone : db.updateIntent before.id guard set = some db')
    (same : (set before).id = before.id ∧ (set before).botId = before.botId)
    (move : RowMove db before (set before)) (notRinging : before.state ≠ .ringing)
    {written : CallIntent → List Effect}
    (rings : ringIds (written (set before)) = [] ∨
      ringIds (written (set before)) = [before.id] ∧ (set before).state = .ringing) :
    Keeps fresh db (reread db' before.id written) := by
  obtain ⟨soundAfter, found, moves⟩ := sound.update isHere isDone same move
  unfold reread
  rw [found]
  exact ⟨soundAfter, moves fresh _ rings fun isRinging => absurd isRinging notRinging⟩

theorem Undecided.waits (source : Undecided) : Waits source.toState := by
  cases source with
  | pending => exact Or.inl rfl
  | waiting => exact Or.inr rfl

theorem Waits.not_ringing {state : CallState} (waits : Waits state) : state ≠ .ringing := by
  rcases waits with rfl | rfl <;> simp

theorem Waits.not_live {state : CallState} (waits : Waits state) : state ≠ .live := by
  rcases waits with rfl | rfl <;> simp

theorem Waits.not_done {state : CallState} (waits : Waits state) : state ≠ .done := by
  rcases waits with rfl | rfl <;> simp

theorem endText_keeps (sound : Sound db) (isHere : before ∈ db.intents) (source : Undecided)
    (isState : before.state = source.toState) (steps : List ReceiptStep) (outcome : TextOutcome)
    (notify : Bool) (now : Int) :
    Keeps fresh db (endText db before source steps outcome notify now) := by
  have waits : Waits before.state := isState ▸ source.waits
  unfold endText
  split
  · exact Keeps.same sound _
  · rename_i ended isDone
    refine reread_keeps sound isHere isDone ⟨rfl, rfl⟩
      (RowMove.settle waits.not_done waits.not_live rfl rfl rfl) waits.not_ringing (Or.inl ?_)
    split_ifs <;> rfl

theorem ringFrom_keeps (sound : Sound db) (isHere : before ∈ db.intents) (source : Undecided)
    (isState : before.state = source.toState) (steps : List ReceiptStep) (now : Int) :
    Keeps fresh db (ringFrom db before source steps now) := by
  have waits : Waits before.state := isState ▸ source.waits
  unfold ringFrom
  simp only
  split
  · exact endText_keeps sound isHere source isState _ _ _ _
  · rename_i isFree
    split
    · exact Keeps.same sound _
    · rename_i rung isDone
      exact reread_keeps sound isHere isDone ⟨rfl, rfl⟩
        (RowMove.ring waits (Bool.eq_false_iff.mpr isFree) rfl rfl) waits.not_ringing
        (Or.inr ⟨rfl, rfl⟩)

theorem applyInitial_keeps (sound : Sound db) (id : String) (gen : Nat)
    (decision : CallIntent → Decision) (now : Int) :
    Keeps fresh db (applyInitial db id gen decision now) := by
  unfold applyInitial
  split
  · exact Keeps.same sound _
  · rename_i before found
    obtain ⟨isHere, rfl⟩ := Db.getIntent_spec found
    split_ifs with isStale
    · exact Keeps.same sound _
    · have isPending : before.state = .pending := by
        by_contra other
        exact isStale (Or.inl other)
      have waits : Waits before.state := Or.inl isPending
      split
      · exact ringFrom_keeps sound isHere .pending isPending _ _
      · split
        · exact Keeps.same sound _
        · rename_i held isDone
          exact reread_keeps sound isHere isDone ⟨rfl, rfl⟩ (RowMove.hold waits (Or.inr rfl) rfl)
            waits.not_ringing (Or.inl rfl)
      · exact endText_keeps sound isHere .pending isPending _ _ _ _

theorem applyEscalation_keeps (sound : Sound db) (id : String) (gen : Nat)
    (decision : CallIntent → Decision) (now : Int) :
    Keeps fresh db (applyEscalation db id gen decision now) := by
  unfold applyEscalation
  split
  · exact Keeps.same sound _
  · rename_i before found
    obtain ⟨isHere, rfl⟩ := Db.getIntent_spec found
    split_ifs with isStale
    · exact Keeps.same sound _
    · have isWaiting : before.state = .waiting := by
        by_contra other
        exact isStale (Or.inl other)
      split
      · exact ringFrom_keeps sound isHere .waiting isWaiting _ _
      · exact endText_keeps sound isHere .waiting isWaiting _ _ _ _
      · exact endText_keeps sound isHere .waiting isWaiting _ _ _ _

theorem Db.updateIntent_spec {id : String} (isDone : db.updateIntent id guard set = some db') :
    ∃ before ∈ db.intents, before.id = id ∧ guard before = true := by
  unfold Db.updateIntent at isDone
  split_ifs at isDone with found
  obtain ⟨before, isHere, isMatch⟩ := List.any_eq_true.mp found
  simp only [Bool.and_eq_true, decide_eq_true_eq] at isMatch
  exact ⟨before, isHere, isMatch.1, isMatch.2⟩

theorem bumpGen_keeps (sound : Sound db) (id : String) : Keeps fresh db (bumpGen db id) := by
  unfold bumpGen
  split
  · exact Keeps.same sound _
  · rename_i bumped isDone
    obtain ⟨before, isHere, rfl, isUndecided⟩ := Db.updateIntent_spec isDone
    have waits : Waits before.state := by simpa [Waits] using isUndecided
    obtain ⟨soundAfter, _, moves⟩ :=
      sound.update isHere isDone ⟨rfl, rfl⟩ (RowMove.hold waits waits rfl)
    exact ⟨soundAfter,
      moves fresh [] (Or.inl rfl) fun isRinging => absurd isRinging waits.not_ringing⟩

theorem markSeen_keeps (sound : Sound db) (id : String) (now : Int) :
    Keeps fresh db (markSeen db id now) := by
  unfold markSeen
  split
  · exact Keeps.same sound _
  · rename_i before found
    obtain ⟨isHere, rfl⟩ := Db.getIntent_spec found
    split_ifs with notWaiting
    · exact Keeps.same sound _
    · have waits : Waits before.state := Or.inr (not_ne_iff.mp notWaiting)
      have isFree : before.activeSlot = false := by
        refine Bool.eq_false_iff.mpr fun holds => ?_
        rcases (sound.slot before isHere).mp holds with wrong | wrong
        · exact waits.not_ringing wrong
        · exact waits.not_live wrong
      split
      · exact Keeps.same sound _
      · rename_i seen isDone
        obtain ⟨soundAfter, _, moves⟩ := sound.update isHere isDone ⟨rfl, rfl⟩
          (RowMove.settle waits.not_done waits.not_live rfl isFree rfl)
        exact ⟨soundAfter,
          moves fresh [] (Or.inl rfl) fun isRinging => absurd isRinging waits.not_ringing⟩

/-! ## Rings that end -/

theorem endRing_keeps (sound : Sound db) (id : String) (outcome : RingEnd) (now : Int) (boot : Bool)
    (stop : Option String) : Keeps fresh db (endRing db id outcome now boot stop) := by
  unfold endRing
  split
  · exact Keeps.same sound _
  · rename_i before found
    obtain ⟨isHere, rfl⟩ := Db.getIntent_spec found
    by_cases isRinging : before.state = .ringing
    case neg =>
      rw [if_pos isRinging]
      exact Keeps.same sound _
    case pos =>
      rw [if_neg (not_ne_iff.mpr isRinging)]
      simp only
      split
      · exact Keeps.same sound _
      · rename_i ended isDone
        obtain ⟨soundAfter, found, moves⟩ := sound.update isHere isDone ⟨rfl, rfl⟩
          (RowMove.settle (by simp [isRinging]) (by simp [isRinging]) rfl rfl rfl)
        rw [found]
        refine ⟨soundAfter, moves fresh _ (Or.inl ?_) fun _ => ?_⟩
        · simp only
          split_ifs <;> rfl
        · exact ⟨_, _, List.mem_append_left _ List.mem_cons_self, rfl⟩

end

end Murage.BotCalls
