import Murage.BotCalls.Cancels
import Murage.BotCalls.System

/-!
Owns what holds of every run of the bot calls: one transaction at a time, then the sweeps and
the boot, then the whole run.

Does not own: the policy that decides, and what the effects write.
-/

namespace Murage.BotCalls

open Murage.Library.Transition

/-! ## The invariant -/

def rungIds (history : List Record) : List String :=
  history.flatMap fun record => ringIds record.effects

/-- What every transaction keeps to. -/
structure Recorded (r : Record) : Prop where
  undone : r.threw = true → r.after = r.before ∧ r.effects = []
  absorbing : ∀ i ∈ r.before.intents, i.state = .done → ∀ j ∈ r.after.intents, j.id = i.id → j = i
  ringsEnd : RingsEnd r.before r.after r.effects ∨
    (r.restores = true ∧ Restored r.before r.after r.effects)

/-- An id drawn from `low` on, below `high`. -/
def Drawn (uuid : Nat → String) (low high : Nat) (id : String) : Prop :=
  ∃ n, low ≤ n ∧ n < high ∧ uuid n = id

/-- What holds between transactions. `finished` are intents that were once done. -/
structure Held (uuid : Nat → String) (finished : List CallIntent) (s : System) : Prop where
  sound : Sound s.db
  drawn : ∀ i ∈ s.db.intents, Drawn uuid 0 s.drawn i.id
  rung : ∀ id ∈ rungIds s.history, Drawn uuid 0 s.drawn id ∧
    ∀ i ∈ s.db.intents, i.id = id → ¬Waits i.state
  once : (rungIds s.history).Nodup
  records : ∀ r ∈ s.history, Recorded r
  finished : ∀ i ∈ finished, i.state = .done ∧ Drawn uuid 0 s.drawn i.id ∧
    ∀ j ∈ s.db.intents, j.id = i.id → j = i

section

variable {uuid : Nat → String} {finished : List CallIntent} {s : System} {α : Type}

theorem Drawn.widen {low high later : Nat} {id : String} (drawn : Drawn uuid low high id)
    (grows : high ≤ later) : Drawn uuid low later id := by
  obtain ⟨n, isLow, isHigh, isId⟩ := drawn
  exact ⟨n, isLow, Nat.lt_of_lt_of_le isHigh grows, isId⟩

theorem Drawn.disjoint (distinct : Function.Injective uuid) {middle high : Nat} {id : String}
    (old : Drawn uuid 0 middle id) (new : Drawn uuid middle high id) : False := by
  obtain ⟨n, _, isOld, rfl⟩ := old
  obtain ⟨m, isNew, _, sameId⟩ := new
  have same : m = n := distinct sameId
  omega

theorem Held.draw (held : Held uuid finished s) (count : Nat) :
    Held uuid finished (s.draw count) where
  sound := held.sound
  drawn i isHere := (held.drawn i isHere).widen (Nat.le_add_right _ _)
  rung id isRung := ⟨(held.rung id isRung).1.widen (Nat.le_add_right _ _), (held.rung id isRung).2⟩
  once := held.once
  records := held.records
  finished i isFinished :=
    ⟨(held.finished i isFinished).1, (held.finished i isFinished).2.1.widen (Nat.le_add_right _ _),
      (held.finished i isFinished).2.2⟩

/-! ## One transaction -/

theorem commit_cases (s : System) (fx : CallEffects) (restores : Bool)
    (operation : Except String (Body α)) :
    (∃ error, s.commit fx restores operation =
      ({ s with
          history := s.history ++
            [{ before := s.db
               after := s.db
               effects := []
               threw := true
               restores := restores }] }, .error error)) ∨
    ∃ body, operation = .ok body ∧ s.commit fx restores operation =
      ({ s with
          db := body.db
          history := s.history ++
            [{ before := s.db
               after := body.db
               effects := body.effects
               threw := false
               restores := restores }] }, .ok body.value) := by
  unfold System.commit inTransaction
  cases operation with
  | error error => exact Or.inl ⟨error, rfl⟩
  | ok body =>
    cases thrown : fx.throws body.effects with
    | some error =>
      simp only [thrown]
      exact Or.inl ⟨error, rfl⟩
    | none =>
      simp only [thrown]
      exact Or.inr ⟨body, rfl, rfl⟩

theorem rungIds_snoc (history : List Record) (r : Record) :
    rungIds (history ++ [r]) = rungIds history ++ ringIds r.effects := by
  simp [rungIds]

/-- **One transaction.** What holds between transactions holds after one whose body keeps the
tables and moves the intents, and after one that throws. -/
theorem Held.commit (distinct : Function.Injective uuid) (held : Held uuid finished s) (count : Nat)
    (fx : CallEffects) (restores : Bool) (operation : Except String (Body α))
    (keeps : ∀ body, operation = .ok body → Sound body.db ∧
      Moves (Drawn uuid s.drawn (s.drawn + count)) s.db body.db body.effects ∧
        (RingsEnd s.db body.db body.effects ∨
          (restores = true ∧ Restored s.db body.db body.effects))) :
    Held uuid finished ((s.draw count).commit fx restores operation).1 := by
  have heldDrawn := held.draw count
  rcases commit_cases (s.draw count) fx restores operation with ⟨error, isEnd⟩ | ⟨body, isOk, isEnd⟩
  · rw [isEnd]
    refine ⟨heldDrawn.sound, heldDrawn.drawn, ?_, ?_, fun r isRecord => ?_, heldDrawn.finished⟩
    · rw [rungIds_snoc]
      simpa [ringIds] using heldDrawn.rung
    · rw [rungIds_snoc]
      simpa [ringIds] using heldDrawn.once
    · rcases List.mem_append.mp isRecord with isOld | isLast
      · exact held.records r isOld
      · rw [List.mem_singleton.mp isLast]
        exact ⟨fun _ => ⟨rfl, rfl⟩,
          fun i isHere _ j isIn sameId => held.sound.intent_eq isIn isHere sameId,
          Or.inl (RingsEnd.of_same rfl)⟩
  rw [isEnd]
  obtain ⟨sound, moves, ends⟩ := keeps body isOk
  refine ⟨sound, fun j isIn => ?_, ?_, ?_, fun r isRecord => ?_, fun i isFinished => ?_⟩
  · rcases moves.origin j isIn with ⟨i, isHere, sameId, _⟩ | isFresh
    · exact sameId ▸ heldDrawn.drawn i isHere
    · obtain ⟨n, _, isHigh, isId⟩ := isFresh
      exact ⟨n, Nat.zero_le n, isHigh, isId⟩
  · rw [rungIds_snoc]
    intro id isRung
    rcases List.mem_append.mp isRung with isOld | isNew
    · refine ⟨(heldDrawn.rung id isOld).1, fun j isIn sameId waits => ?_⟩
      rcases moves.origin j isIn with ⟨i, isHere, isSame, waited⟩ | isFresh
      · exact (held.rung id isOld).2 i isHere (isSame.trans sameId) (waited waits)
      · rw [sameId] at isFresh
        exact (held.rung id isOld).1.disjoint distinct isFresh
    · obtain ⟨⟨i, isHere, isSame, _⟩, notWaits⟩ := moves.rings id isNew
      exact ⟨isSame ▸ heldDrawn.drawn i isHere, notWaits⟩
  · rw [rungIds_snoc, List.nodup_append]
    refine ⟨held.once, moves.once, ?_⟩
    rintro id isOld other isNew rfl
    obtain ⟨⟨i, isHere, isSame, waits⟩, _⟩ := moves.rings id isNew
    exact (held.rung id isOld).2 i isHere isSame waits
  · rcases List.mem_append.mp isRecord with isOld | isLast
    · exact held.records r isOld
    · rw [List.mem_singleton.mp isLast]
      exact ⟨fun threw => (Bool.false_ne_true threw).elim, moves.absorbing, ends⟩
  · obtain ⟨isDone, isDrawn, only⟩ := held.finished i isFinished
    refine ⟨isDone, (heldDrawn.finished i isFinished).2.1, fun j isIn sameId => ?_⟩
    rcases moves.origin j isIn with ⟨k, isHere, isSame, _⟩ | isFresh
    · obtain rfl := only k isHere (isSame.trans sameId)
      exact moves.absorbing k isHere isDone j isIn sameId
    · rw [sameId] at isFresh
      exact (isDrawn.disjoint distinct isFresh).elim

theorem Held.commit_keeps (distinct : Function.Injective uuid) (held : Held uuid finished s)
    (count : Nat) (fx : CallEffects) (operation : Except String (Body α))
    (keeps : ∀ body, operation = .ok body →
      Keeps (Drawn uuid s.drawn (s.drawn + count)) s.db body) :
    Held uuid finished ((s.draw count).commit fx false operation).1 :=
  held.commit distinct count fx false operation fun body isOk =>
    ⟨(keeps body isOk).1, (keeps body isOk).2.1, Or.inl (keeps body isOk).2.2⟩

theorem Held.ok (distinct : Function.Injective uuid) (held : Held uuid finished s)
    (fx : CallEffects) (body : Body α) (keeps : ∀ fresh, Keeps fresh s.db body) :
    Held uuid finished (s.commit fx false (.ok body)).1 :=
  held.commit_keeps distinct 0 fx (.ok body) fun _ isOk => Except.ok.inj isOk ▸ keeps _

/-! ## A process -/

theorem Held.attempt (distinct : Function.Injective uuid) {p : Process}
    (held : Held uuid finished p.system) (count : Nat) (fx : CallEffects)
    (operation : Db → Except String (Body α))
    (keeps : ∀ body, operation p.system.db = .ok body →
      Keeps (Drawn uuid p.system.drawn (p.system.drawn + count)) p.system.db body) :
    Held uuid finished ((p.attempt fx operation).1.system.draw count) := by
  obtain ⟨system, left⟩ := p
  cases left with
  | zero => exact held.draw count
  | succ left => exact held.commit_keeps distinct count fx _ keeps

theorem Held.run (distinct : Function.Injective uuid) {p : Process}
    (held : Held uuid finished p.system) (count : Nat) (fx : CallEffects)
    (operation : Db → Except String (Body α))
    (keeps : ∀ body, operation p.system.db = .ok body →
      Keeps (Drawn uuid p.system.drawn (p.system.drawn + count)) p.system.db body) :
    Held uuid finished ((p.run fx operation).1.system.draw count) := by
  have attempted := held.attempt distinct count fx operation keeps
  unfold Process.run
  split
  all_goals
    rename_i isAttempt
    rw [isAttempt] at attempted
    exact attempted

theorem Held.run_ok (distinct : Function.Injective uuid) {p : Process}
    (held : Held uuid finished p.system) (fx : CallEffects) (body : Db → Body α)
    (keeps : ∀ fresh, Keeps fresh p.system.db (body p.system.db)) :
    Held uuid finished (p.run fx fun db => .ok (body db)).1.system :=
  held.run distinct 0 fx _ fun _ isOk => Except.ok.inj isOk ▸ keeps _

/-! ## The sweep -/

theorem Held.sweepSessions (distinct : Function.Injective uuid) (fx : CallEffects) (now : Int)
    (pages : Nat) {p : Process} (held : Held uuid finished p.system) :
    Held uuid finished (sweepSessions fx now pages p).1.system := by
  induction pages generalizing p with
  | zero => exact held
  | succ pages ih =>
    have swept : ∀ rows : List CallSession,
        Held uuid finished (rows.foldl (sweepRow fx now) (p, [])).1.system := fun rows =>
      List.foldlRecOn (motive := fun acc : Process × List String =>
        Held uuid finished acc.1.system) rows _ held
        fun acc held row _ => held.run_ok distinct fx _ fun _ => endSession_keeps held.sound _ _ _
    unfold BotCalls.sweepSessions
    simp only
    split_ifs
    · exact swept _
    · exact ih (swept _)

/-! ## The boot -/

theorem Held.walkIntents (distinct : Function.Injective uuid) (fx : CallEffects) (now : Int)
    (pages : Nat) {after : String} {acc : Process × BootReconcile}
    (held : Held uuid finished acc.1.system) :
    Held uuid finished (walkIntents fx now pages after acc).1.system := by
  induction pages generalizing after acc with
  | zero => exact held
  | succ pages ih =>
    have walked : ∀ rows : List CallIntent,
        Held uuid finished (rows.foldl (bootRow fx now) acc).1.system := fun rows => by
      refine List.foldlRecOn (motive := fun acc : Process × BootReconcile =>
        Held uuid finished acc.1.system) rows _ held fun acc held row _ => ?_
      unfold bootRow
      simp only
      split
      · exact held.run_ok distinct fx _ fun _ => bumpGen_keeps held.sound _
      · split
        · exact held.run_ok distinct fx _ fun _ => applyEscalation_keeps held.sound _ _ _ _
        · exact held
      · exact held.run_ok distinct fx _ fun _ => endRing_keeps held.sound _ _ _ _ _
      · exact held
      · exact held
    unfold BotCalls.walkIntents
    simp only
    split_ifs
    · exact walked _
    · exact ih (walked _)

theorem admitAll_admits (now : Int) (admissions : List Admission) {low drawn high : Nat}
    {db : Db} (sound : Sound db) (isLow : low ≤ drawn) (isHigh : drawn + admissions.length ≤ high) :
    Admits (Drawn uuid low high) db (admitAll uuid now drawn db admissions).db := by
  induction admissions generalizing drawn db with
  | nil => exact Admits.refl sound
  | cons a rest ih =>
    rw [List.length_cons] at isHigh
    have first : Admits (Drawn uuid low high) db (admitIntent db a (uuid drawn) now).db :=
      admitIntent_admits sound a ⟨drawn, isLow, by omega, rfl⟩ now
    exact first.trans (ih first.sound (by omega) (by omega))

theorem drainRow_keeps (found : OwedRow → OwedMatch) (onDamaged : OwedRow → Option String)
    (now : Int) (drawn : Nat) (row : OwedRow) {db : Db} (sound : Sound db) {body : Body (List String)}
    (isOk : drainRow uuid found onDamaged now drawn row db = .ok body) :
    Keeps (Drawn uuid drawn (drawn + ((found row).getD []).length)) db body := by
  unfold drainRow at isOk
  split_ifs at isOk
  · cases isOk
    exact Keeps.same sound _
  simp only at isOk
  split at isOk
  · rename_i admissions isFound
    cases isOk
    have admits : Admits (Drawn uuid drawn (drawn + ((found row).getD []).length)) db
        (admitAll uuid now drawn db admissions).db :=
      admitAll_admits now admissions sound (Nat.le_refl _) (by rw [isFound]; exact Nat.le_refl _)
    exact Admits.keeps ⟨admits.sound.of_tables rfl rfl, admits.sessions, admits.rows⟩ rfl
  · split at isOk
    · cases isOk
    · cases isOk
      exact ⟨sound.of_tables rfl rfl, Moves.of_same sound rfl, RingsEnd.of_same rfl⟩

theorem Held.drainOwedRow (distinct : Function.Injective uuid) (fx : CallEffects)
    (deps : BootDeps) (now : Int) {acc : Drain} (held : Held uuid finished acc.process.system)
    (row : OwedRow) : Held uuid finished (drainOwedRow uuid fx deps now acc row).process.system := by
  unfold BotCalls.drainOwedRow
  split_ifs
  · exact held
  have attempted := held.attempt distinct ((deps.found row).getD []).length fx
    (drainRow uuid deps.found deps.onDamaged now acc.process.system.drawn row)
    fun _ isOk => drainRow_keeps deps.found deps.onDamaged now _ row held.sound isOk
  simp only
  split <;> exact attempted

theorem Held.drainOwed (distinct : Function.Injective uuid) (fx : CallEffects)
    (deps : BootDeps) (now : Int) (pages : Nat) {acc : Drain}
    (held : Held uuid finished acc.process.system) :
    Held uuid finished (drainOwed uuid fx deps now pages acc).process.system := by
  induction pages generalizing acc with
  | zero => exact held
  | succ pages ih =>
    have drained : ∀ rows : List OwedRow,
        Held uuid finished (rows.foldl (BotCalls.drainOwedRow uuid fx deps now) acc).process.system :=
      fun rows => List.foldlRecOn (motive := fun acc : Drain =>
        Held uuid finished acc.process.system) rows _ held
        fun _ held row _ => held.drainOwedRow distinct fx deps now row
    unfold BotCalls.drainOwed
    simp only
    split_ifs
    · exact drained _
    · exact ih (drained _)

theorem Held.readmitRow (distinct : Function.Injective uuid) (fx : CallEffects) (now : Int)
    {acc : Process × List String} (held : Held uuid finished acc.1.system) (a : Admission) :
    Held uuid finished (readmitRow uuid fx now acc a).1.system := by
  have keeps : Keeps (Drawn uuid acc.1.system.drawn (acc.1.system.drawn + 1)) acc.1.system.db
      (admitIntent acc.1.system.db a (uuid acc.1.system.drawn) now) :=
    admitIntent_keeps held.sound a ⟨_, Nat.le_refl _, Nat.lt_succ_self _, rfl⟩ now
  exact held.run distinct 1 fx _ fun _ isOk => Except.ok.inj isOk ▸ keeps

theorem settleArmed_keeps (deps : BootDeps) (now : Int) (row : OwedRow) {db : Db}
    (sound : Sound db) {fresh : String → Prop} :
    Keeps fresh db { db := settleArmed deps now row db, value := () } := by
  unfold settleArmed
  split_ifs
  · exact Keeps.same sound _
  · exact ⟨sound.of_tables rfl rfl, Moves.of_same sound rfl, RingsEnd.of_same rfl⟩

theorem Held.bootReconcile (distinct : Function.Injective uuid) (fx : CallEffects)
    (deps : BootDeps) (now : Int) {p : Process} (held : Held uuid finished p.system) :
    Held uuid finished (bootReconcile uuid fx deps now p).1.system := by
  unfold BotCalls.bootReconcile
  simp only
  refine Held.walkIntents distinct fx now _ ?_
  refine List.foldlRecOn (motive := fun acc : Process × List String =>
    Held uuid finished acc.1.system) deps.journal _ ?_ fun _ held a _ => held.readmitRow distinct fx now a
  refine Held.drainOwed distinct fx deps now _ ?_
  refine List.foldlRecOn (motive := fun p : Process => Held uuid finished p.system) _ _ ?_
    fun _ held row _ => held.run_ok distinct fx _ fun _ => settleArmed_keeps deps now row held.sound
  · refine held.run_ok distinct fx _ fun _ => ⟨held.sound.touch fun session => ?_,
      Moves.of_same held.sound rfl, RingsEnd.of_same rfl⟩
    split_ifs <;> exact ⟨rfl, rfl, rfl, rfl, rfl⟩

/-! ## Steps -/

theorem Held.owner (held : Held uuid finished s) (rules : List CallRule)
    (owed : List OwedRow) :
    Held uuid finished { s with db := { s.db with rules := rules, owed := owed } } :=
  ⟨held.sound.of_tables rfl rfl, held.drawn, held.rung, held.once, held.records, held.finished⟩

/-- **One step.** Every transition, sweep, boot, fence and pruning keeps what holds. -/
theorem Held.apply (distinct : Function.Injective uuid) (held : Held uuid finished s)
    (fx : CallEffects) (op : Op) : Held uuid finished (s.apply uuid fx op) := by
  cases op with
  | admitIntent a now =>
    exact held.commit_keeps distinct 1 fx _ fun _ isOk => Except.ok.inj isOk ▸
      admitIntent_keeps held.sound a ⟨_, Nat.le_refl _, Nat.lt_succ_self _, rfl⟩ now
  | applyInitial id gen decision now =>
    exact held.ok distinct fx _ fun _ => applyInitial_keeps held.sound id gen decision now
  | applyEscalation id gen decision now =>
    exact held.ok distinct fx _ fun _ => applyEscalation_keeps held.sound id gen decision now
  | bumpGen id => exact held.ok distinct fx _ fun _ => bumpGen_keeps held.sound id
  | markSeen id now => exact held.ok distinct fx _ fun _ => markSeen_keeps held.sound id now
  | answerCall id device principal now =>
    exact held.commit_keeps distinct 2 fx _ fun _ isOk =>
      answerCall_keeps held.sound id device _ now principal isOk
  | declineCall id text now => exact held.ok distinct fx _ fun _ => endRing_keeps held.sound _ _ _ _ _
  | missCall id now => exact held.ok distinct fx _ fun _ => endRing_keeps held.sound _ _ _ _ _
  | openOwnerSession botId threadId device principal now =>
    exact held.commit_keeps distinct 2 fx _ fun _ isOk =>
      openOwnerSession_keeps held.sound _ botId threadId device principal now isOk
  | touchSession callId now =>
    exact held.ok distinct fx _ fun _ => touchSession_keeps held.sound callId now
  | endSession callId endedBy now =>
    exact held.ok distinct fx _ fun _ => endSession_keeps held.sound callId endedBy now
  | sweepSessions now left => exact Held.sweepSessions distinct fx now _ held
  | cancelBotCalls scope reason now =>
    exact held.commit_keeps distinct 0 fx _ fun _ isOk =>
      cancelBotCalls_keeps held.sound scope reason now isOk
  | bootReconcile deps now left => exact Held.bootReconcile distinct fx deps now held
  | fenceRestoredBotCalls generation now =>
    refine held.commit distinct 0 NO_CALL_EFFECTS true _ fun body isOk => ?_
    cases isOk
    obtain ⟨sound, moves, restored⟩ := fenceRestoredBotCalls_keeps held.sound generation now
    exact ⟨sound, moves, Or.inr ⟨rfl, restored⟩⟩
  | pruneBotCalls now limit left =>
    have first := held.run_ok (p := { system := s, left := left }) distinct NO_CALL_EFFECTS
      (fun db => { db := pruneIntents db now limit, value := () })
      fun _ => pruneIntents_keeps held.sound now limit
    exact first.run_ok distinct NO_CALL_EFFECTS _ fun _ => pruneSessions_keeps first.sound now limit
  | owner rules owed => exact held.owner rules owed

end

/-! ## Runs -/

def Step (uuid : Nat → String) : System → CallEffects × Op → System → Prop :=
  ofFunction fun s label => s.apply uuid label.1 label.2

def System.opened (rules : List CallRule) (owed : List OwedRow) : System where
  db := { rules := rules, owed := owed }

theorem Held.opened (uuid : Nat → String) (rules : List CallRule) (owed : List OwedRow) :
    Held uuid [] (System.opened rules owed) where
  sound :=
    ⟨List.nodup_nil, List.nodup_nil, List.nodup_nil, List.forall_mem_nil _, List.forall_mem_nil _,
      List.forall_mem_nil _, List.forall_mem_nil _, List.forall_mem_nil _, List.forall_mem_nil _⟩
  drawn _ isHere := nomatch isHere
  rung _ isRung := nomatch isRung
  once := List.nodup_nil
  records _ isRecord := nomatch isRecord
  finished _ isFinished := nomatch isFinished

section

variable {uuid : Nat → String} {finished : List CallIntent} {s t : System}

theorem Held.of_run (distinct : Function.Injective uuid) {labels : List (CallEffects × Op)}
    (run : Run (Step uuid) s labels t) (held : Held uuid finished s) : Held uuid finished t :=
  run.invariant held fun _ label _ held taken => taken ▸ held.apply distinct label.1 label.2

theorem Held.finish (held : Held uuid finished s) :
    Held uuid (s.db.intents.filter fun i => decide (i.state = .done)) s where
  sound := held.sound
  drawn := held.drawn
  rung := held.rung
  once := held.once
  records := held.records
  finished i isFinished := by
    obtain ⟨isHere, isDone⟩ := List.mem_filter.mp isFinished
    exact ⟨by simpa using isDone, held.drawn i isHere,
      fun j isIn sameId => held.sound.intent_eq isIn isHere sameId⟩

theorem Sound.slot_length_le (sound : Sound s.db) :
    (s.db.intents.filter (·.activeSlot)).length ≤ 1 := by
  have distinct : (s.db.intents.filter (·.activeSlot)).Nodup :=
    (List.Nodup.of_map _ sound.ids).filter _
  have only {i j : CallIntent} (isHere : i ∈ s.db.intents.filter (·.activeSlot))
      (isIn : j ∈ s.db.intents.filter (·.activeSlot)) : i = j :=
    sound.single i (List.mem_of_mem_filter isHere) j (List.mem_of_mem_filter isIn)
      (List.mem_filter.mp isHere).2 (List.mem_filter.mp isIn).2
  generalize s.db.intents.filter (·.activeSlot) = rows at distinct only
  match rows with
  | [] => exact Nat.zero_le 1
  | [_] => exact Nat.le_refl 1
  | i :: j :: rest =>
    have isSame : i = j := only List.mem_cons_self (List.mem_cons_of_mem _ List.mem_cons_self)
    exact absurd (isSame ▸ List.mem_cons_self) (List.nodup_cons.mp distinct).1

/-- What holds of a state `t` and of a state `s` before it. -/
structure OneCallAtATime (s t : System) : Prop where
  slot : ∀ i ∈ t.db.intents, i.activeSlot = true ↔ i.state = .ringing ∨ i.state = .live
  single : (t.db.intents.filter (·.activeSlot)).length ≤ 1
  live : ∀ i ∈ t.db.intents, i.state = .live ↔
    ∃ session ∈ t.db.sessions, session.endedAt = none ∧ session.intentId = some i.id
  outcome : ∀ i ∈ t.db.intents, i.state = .done → i.outcome.isSome
  absorbing : ∀ i ∈ s.db.intents, i.state = .done → ∀ j ∈ t.db.intents, j.id = i.id → j = i
  rings : (rungIds t.history).Nodup
  ringsEnd : ∀ r ∈ t.history, RingsEnd r.before r.after r.effects ∨
    (r.restores = true ∧ Restored r.before r.after r.effects)
  undone : ∀ r ∈ t.history, r.threw = true → r.after = r.before

/-- **One call at a time, and every ring ends.** Over every run, whatever the effects throw and
wherever a sweep, a boot or a pruning stops: the slot is held by the ringing or live intent, of
which there is at most one; a live intent has an open session; what is done stays; no intent
rings twice; a ring that ends is resolved in the same transaction or ended by a restore; and a
transaction that throws changes nothing. -/
theorem one_call_at_a_time (distinct : Function.Injective uuid) (rules : List CallRule)
    (owed : List OwedRow) (labels more : List (CallEffects × Op))
    (first : Run (Step uuid) (System.opened rules owed) labels s)
    (later : Run (Step uuid) s more t) : OneCallAtATime s t := by
  have held : Held uuid (s.db.intents.filter fun i => decide (i.state = .done)) t :=
    ((Held.opened uuid rules owed).of_run distinct first).finish.of_run distinct later
  refine ⟨held.sound.slot, held.sound.slot_length_le, fun i isHere => held.sound.live_iff isHere,
    held.sound.outcome, fun i isHere isDone => ?_, held.once,
    fun r isRecord => (held.records r isRecord).ringsEnd,
    fun r isRecord threw => ((held.records r isRecord).undone threw).1⟩
  exact (held.finished i (List.mem_filter.mpr ⟨isHere, by simpa using isDone⟩)).2.2

/-! A ring that a restore ends is resolved by no effect. -/

def marks (n : Nat) : String := String.ofList (List.replicate n 'x')

theorem marks_injective : Function.Injective marks := by
  intro n m same
  have sameLength := congrArg (fun text => text.toList.length) same
  simpa [marks] using sameLength

def play (s : System) (ops : List Op) : System :=
  (ops.map fun op => (NO_CALL_EFFECTS, op)).foldl (fun s label => s.apply marks label.1 label.2) s

def morning : CallRule where
  id := "morning"
  botId := "bot"
  kind := .timed
  turnId := none
  enabled := true
  restoreHeld := false
  restoreGen := none

def wake : Admission where
  botId := "bot"
  ruleId := "morning"
  threadId := "thread"
  factKind := .timed
  factKey := "wake"
  factAt := 0

def rung : System :=
  play (System.opened [morning] [])
    [.admitIntent wake 0, .applyInitial "" 0 (fun _ => .ringing []) 0]

theorem one_call_at_a_time_rung : OneCallAtATime rung (play rung [.fenceRestoredBotCalls "g" 1]) :=
  one_call_at_a_time marks_injective [morning] [] _ _ (Run.foldl _ _ _) (Run.foldl _ _ _)

theorem ring_ends_unresolved :
    ¬∀ r ∈ (play rung [.fenceRestoredBotCalls "g" 1]).history,
      RingsEnd r.before r.after r.effects := by
  intro all
  have ends : RingsEnd rung.db (fenceRestoredBotCalls rung.db "g" 1) [] :=
    all _ (List.mem_append_right _ List.mem_cons_self)
  obtain ⟨i, isHere, isRinging⟩ : ∃ i ∈ rung.db.intents, i.state = .ringing := by decide
  rcases ends i isHere isRinging with ⟨j, isThere, _, stillRings⟩ | ⟨_, _, isOwed, _⟩
  · have noneRings : ∀ j ∈ (fenceRestoredBotCalls rung.db "g" 1).intents, j.state ≠ .ringing := by
      decide
    exact noneRings j isThere stillRings
  · cases isOwed

end

end Murage.BotCalls
