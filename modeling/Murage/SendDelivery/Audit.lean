import Murage.Library.Transition
import Murage.SendDelivery.Lines

/-!
Owns what holds of a delivery between its handlers: every line rests, whatever the
order of submits, outcomes, retries, refusals and reconciliations, so the audit of
the tables finds no problem.

Does not own: who was called.
-/

namespace Murage.SendDelivery

open Murage.Library
open Murage.Library.Transition

namespace Line

/-- A line between two handlers: a POST is out, with its attempt, or none is and
nothing waits for one. -/
structure Resting (sendId : String) (l : Line) : Prop extends l.Consistent sendId where
  flight : (l.inFlight = true ∧ l.posting.isSome ∧ l.attempts.length = 1) ∨
    (l.inFlight = false ∧ l.posting = none ∧ l.attempts = [] ∧ l.superseded = false)

variable {clock : Int} {l : Line} {sendId : String} {entry : OutboxEntry} {hooks : DeliveryHooks}

theorem Consistent.closed (consistent : l.Consistent sendId) : l.closed.Consistent sendId where
  kept := by simp [Line.closed]
  hooked := by simp [Line.closed]
  shown := by simp [Line.closed]
  posted := consistent.posted
  waiting := consistent.waiting
  replaced := fun _ => rfl

theorem Resting.closed (resting : l.Resting sendId) : l.closed.Resting sendId :=
  ⟨resting.toConsistent.closed, resting.flight⟩

theorem Resting.refuse (resting : l.Resting sendId) : l.refuse.Resting sendId := by
  unfold Line.refuse
  split_ifs
  · exact ⟨⟨resting.kept, resting.hooked, resting.shown, resting.posted, resting.waiting,
      resting.replaced⟩, resting.flight⟩
  · have closed := resting.closed
    exact ⟨⟨closed.kept, closed.hooked, closed.shown, closed.posted, closed.waiting,
      closed.replaced⟩, closed.flight⟩

theorem Resting.idle (resting : l.Resting sendId) (idle : l.inFlight = false) :
    l.posting = none ∧ l.attempts = [] ∧ l.superseded = false := by
  rcases resting.flight with ⟨out, _⟩ | ⟨_, rest⟩
  · rw [out] at idle
    cases idle
  · exact rest

theorem Resting.out (resting : l.Resting sendId) (out : l.inFlight = true) :
    l.posting.isSome ∧ l.attempts.length = 1 := by
  rcases resting.flight with ⟨_, rest⟩ | ⟨idle, _⟩
  · exact rest
  · rw [out] at idle
    cases idle

theorem Resting.attempt (resting : l.Resting sendId) : (l.attempt clock).Resting sendId := by
  by_cases out : l.inFlight = true
  · rw [show l.attempt clock = l from if_pos out]
    exact resting
  · cases isKept : l.entry with
    | none =>
      rw [attempt_gone out isKept]
      exact ⟨⟨resting.kept, resting.hooked, by simp, resting.posted, resting.waiting,
        resting.replaced⟩, resting.flight⟩
    | some kept =>
      by_cases late : OUTBOX_GIVE_UP_MS < clock - kept.sentAt
      · rw [attempt_late out isKept late]
        exact resting.closed
      · rw [attempt_posts out isKept late]
        have none := (resting.idle (by simpa using out)).2.1
        refine ⟨⟨resting.kept, resting.hooked, resting.shown, ?_, resting.waiting,
          resting.replaced⟩, Or.inl ⟨rfl, rfl, by simp [none]⟩⟩
        rintro posted isPosted
        obtain rfl : kept = posted := Option.some.inj isPosted
        exact resting.kept kept isKept

theorem Resting.show (resting : l.Resting sendId) (isKept : l.entry = some entry) :
    Resting sendId { l with sending := some entry } := by
  refine ⟨⟨resting.kept, resting.hooked, ?_, resting.posted, resting.waiting,
    resting.replaced⟩, resting.flight⟩
  rintro shown isShown
  obtain rfl : entry = shown := Option.some.inj isShown
  exact ⟨resting.kept entry isKept, by simp [isKept]⟩

theorem Resting.begin {full : Prop} [Decidable full] (resting : l.Resting sendId)
    (idle : l.inFlight = false) (named : entry.sendId = sendId) :
    (l.begin clock full entry hooks).Resting sendId := by
  unfold Line.begin
  split_ifs
  · exact ⟨⟨resting.kept, resting.hooked, resting.shown, resting.posted, resting.waiting,
      resting.replaced⟩, resting.flight⟩
  · refine Resting.attempt ⟨⟨?_, by simp, ?_, resting.posted, resting.waiting, ?_⟩,
      resting.flight⟩
    · rintro kept isKept
      exact Option.some.inj isKept ▸ named
    · rintro shown isShown
      exact ⟨Option.some.inj isShown ▸ named, rfl⟩
    · intro replaced
      have still : l.superseded = true := replaced
      rw [(resting.idle idle).2.2] at still
      cases still

theorem Resting.reconcile {known : Prop} [Decidable known] (resting : l.Resting sendId)
    (isKept : l.entry = some entry) : (l.reconcile clock known entry).Resting sendId := by
  unfold Line.reconcile
  split_ifs
  · exact resting
  · exact resting.closed
  · exact (resting.show isKept).attempt

theorem Resting.supersede (resting : l.Resting sendId) (out : l.inFlight = true)
    (named : entry.sendId = sendId) : (l.supersede entry hooks).Resting sendId where
  kept := by simp [Line.supersede, Line.closed]
  hooked := by simp [Line.supersede, Line.closed]
  shown := by simp [Line.supersede, Line.closed]
  posted := resting.posted
  waiting := by
    rintro next isNext
    exact ⟨Option.some.inj isNext ▸ named, rfl⟩
  replaced := fun _ => rfl
  flight := Or.inl ⟨out, resting.out out⟩

theorem Consistent.succeed (consistent : l.Consistent sendId) :
    l.succeed.Consistent sendId := by
  unfold Line.succeed
  split_ifs
  · exact consistent
  · exact ⟨consistent.kept, consistent.hooked, consistent.shown, consistent.posted, by simp,
      consistent.replaced⟩
  · exact consistent.closed

theorem Consistent.fault {error : SendError} (consistent : l.Consistent sendId) :
    (l.fault clock entry error).Consistent sendId := by
  unfold Line.fault
  split_ifs
  · exact consistent
  · have closed := consistent.closed
    exact ⟨closed.kept, closed.hooked, closed.shown, closed.posted, closed.waiting,
      closed.replaced⟩
  · exact consistent.closed
  · refine ⟨?_, by simpa using consistent.hooked, ?_, consistent.posted, consistent.waiting,
      consistent.replaced⟩
    · rintro bumped isBumped
      obtain ⟨kept, isKept, rfl⟩ := Option.map_eq_some_iff.mp isBumped
      rw [Outbox.bumped_sendId]
      exact consistent.kept kept isKept
    · rintro shown isShown
      simpa using consistent.shown shown isShown

theorem succeed_attempts : l.succeed.attempts = l.attempts := by
  unfold Line.succeed
  split_ifs <;> rfl

theorem fault_attempts {error : SendError} :
    (l.fault clock entry error).attempts = l.attempts := by
  unfold Line.fault
  split_ifs <;> rfl

theorem Consistent.ended (consistent : l.Consistent sendId) (idle : l.attempts = []) :
    l.ended.Resting sendId where
  kept := consistent.kept
  hooked := consistent.hooked
  shown := consistent.shown
  posted := by simp [Line.ended]
  waiting := by simp [Line.ended]
  replaced := by simp [Line.ended]
  flight := Or.inr ⟨rfl, rfl, idle, rfl⟩

end Line

namespace Delivery

def Sound (s : Delivery) : Prop := ∀ sendId, (s.line sendId).Resting sendId

theorem Sound.moves {s s' : Delivery} {sendId : String} {update : Line → Line} (sound : s.Sound)
    (moved : Moves sendId update s s') (resting : (update (s.line sendId)).Resting sendId) :
    s'.Sound := by
  intro id
  by_cases same : id = sendId
  · rw [same, moved.here]
    exact resting
  · rw [moved.elsewhere same]
    exact sound id

theorem Sound.of_line_eq {s s' : Delivery} (sound : s.Sound) (same : s'.line = s.line) :
    s'.Sound := by
  intro id
  rw [same]
  exact sound id

theorem start_sound (clock : Int) (outbox : Outbox) : (start clock outbox).Sound := by
  intro id
  refine ⟨⟨fun entry isKept => outbox.find_sendId id isKept, ?_, ?_, ?_, ?_, ?_⟩, Or.inr ?_⟩ <;>
    simp [start, line]

variable {s : Delivery}

theorem attempt_sound (sound : s.Sound) (sendId : String) : (s.attempt sendId).Sound :=
  sound.moves
    (attempt_moves s sendId fun shown isShown => ((sound sendId).shown shown isShown).1)
    (sound sendId).attempt

theorem submit_sound (sound : s.Sound) (entry : OutboxEntry) (handles : Bool) :
    (s.submit entry handles).Sound := by
  have registered : (s.register entry.sendId).Sound := sound.of_line_eq rfl
  have resting := registered entry.sendId
  have flight := inFlight_iff s entry.sendId
  unfold submit
  split_ifs with isOut
  · obtain ⟨original, isOriginal⟩ :=
      Option.isSome_iff_exists.mp (resting.out (flight.mpr isOut)).1
    exact registered.moves
      (supersede_moves _ entry _ isOriginal (resting.posted original isOriginal))
      (resting.supersede (flight.mpr isOut) rfl)
  · have idle : (s.line entry.sendId).inFlight = false := by
      simpa using flight.not.mpr isOut
    exact registered.moves (begin_moves _ entry _) (resting.begin idle rfl)

theorem resolveRefused_sound (sound : s.Sound) (sendId : String) :
    (s.resolveRefused sendId).Sound :=
  sound.moves (resolveRefused_moves s sendId (sound sendId).toConsistent) (sound sendId).refuse

theorem finishAttempt_sound {sendId : String}
    (elsewhere : ∀ id, id ≠ sendId → (s.line id).Resting id)
    (consistent : (s.line sendId).Consistent sendId) (idle : (s.line sendId).attempts = []) :
    (s.finishAttempt sendId).Sound := by
  have ended := consistent.ended idle
  intro id
  cases isNext : s.queued.get sendId with
  | none =>
    have moved := finishAttempt_moves s sendId isNext
    by_cases same : id = sendId
    · rw [same, moved.here]
      exact ended
    · rw [moved.elsewhere same]
      exact elsewhere id same
  | some next =>
    have named := (consistent.waiting next isNext).1
    have moved := finishAttempt_begin_moves s sendId isNext named
    by_cases same : id = sendId
    · rw [same, moved.here]
      exact ended.begin rfl named
    · rw [moved.elsewhere same]
      exact elsewhere id same

/-- **One outcome.** Whatever the POST at a place of `attempts` answers, every line
rests after the handlers that its outcome runs. -/
theorem endAttempt_sound (sound : s.Sound) {entry : OutboxEntry} {index : Nat}
    (isIn : s.attempts[index]? = some entry) (outcome : Outcome) :
    ({ s with attempts := s.attempts.eraseIdx index }.endAttempt entry outcome).Sound := by
  have erased := eraseAttempt_moves s entry isIn
  have resting := sound entry.sendId
  have waited : entry ∈ (s.line entry.sendId).attempts :=
    List.mem_filter.mpr ⟨List.mem_of_getElem? isIn, by simp⟩
  have out : (s.line entry.sendId).inFlight = true := by
    by_contra idle
    rw [(resting.idle (by simpa using idle)).2.1] at waited
    cases waited
  have none := eraseAttempt_none s entry isIn (resting.out out).2
  generalize { s with attempts := s.attempts.eraseIdx index } = waiting at erased ⊢
  have consistent : (waiting.line entry.sendId).Consistent entry.sendId := by
    rw [erased.here]
    exact ⟨resting.kept, resting.hooked, resting.shown, resting.posted, resting.waiting,
      resting.replaced⟩
  have idle : (waiting.line entry.sendId).attempts = [] := by
    rw [erased.here]
    exact none
  have elsewhere : ∀ id, id ≠ entry.sendId → (waiting.line id).Resting id := fun id other => by
    rw [erased.elsewhere other]
    exact sound id
  cases outcome with
  | answered body =>
    have moved := succeed_moves waiting entry body
    refine finishAttempt_sound (fun id other => ?_) ?_ ?_
    · rw [moved.elsewhere other]
      exact elsewhere id other
    · rw [moved.here]
      exact consistent.succeed
    · rw [moved.here, Line.succeed_attempts]
      exact idle
  | failed error =>
    have moved := fault_moves waiting entry error consistent
    refine finishAttempt_sound (fun id other => ?_) ?_ ?_
    · rw [moved.elsewhere other]
      exact elsewhere id other
    · rw [moved.here]
      exact consistent.fault
    · rw [moved.here, Line.fault_attempts]
      exact idle

/-- **Reconciliation rule.** What `reconcile` does with one entry that the outbox
keeps, it does with all of them. -/
theorem reconcile_invariant {Inv : Delivery → Prop} (known : Known) (initial : Inv s)
    (kept : ∀ before entry, Inv before → (before.line entry.sendId).entry = some entry →
      Inv (reconcileEntry known before entry)) : Inv (s.reconcile known) := by
  have folded : ∀ (rest : List OutboxEntry) (before : Delivery), Inv before →
      (rest.map (·.sendId)).Nodup →
      (∀ entry ∈ rest, (before.line entry.sendId).entry = some entry) →
      Inv (rest.foldl (reconcileEntry known) before) := by
    intro rest
    induction rest with
    | nil => exact fun _ holds _ _ => holds
    | cons entry later ih =>
      intro before holds distinct there
      have fresh := List.nodup_cons.mp distinct
      refine ih _ (kept before entry holds (there entry (by simp))) fresh.2
        fun other isIn => ?_
      -- A handler about one entry leaves the others where they are.
      have differs : other.sendId ≠ entry.sendId := fun same =>
        fresh.1 (List.mem_map.mpr ⟨other, isIn, same⟩)
      rw [(reconcileEntry_moves before entry known).elsewhere differs]
      exact there other (List.mem_cons_of_mem _ isIn)
  exact folded s.outbox.entries s initial s.outbox.distinct fun entry isIn =>
    s.outbox.find_mem isIn

theorem reconcile_sound (sound : s.Sound) (known : Known) : (s.reconcile known).Sound :=
  reconcile_invariant known sound fun before entry holds isKept =>
    holds.moves (reconcileEntry_moves before entry known)
      ((holds entry.sendId).reconcile isKept)

theorem endPost_sound (sound : s.Sound) (index : Nat) (outcome : Outcome) :
    (s.endPost index outcome).Sound := by
  unfold endPost
  cases isIn : s.attempts[index]? with
  | none => exact sound
  | some entry => exact endAttempt_sound sound isIn outcome

theorem retry_sound (sound : s.Sound) (index : Nat) : (s.retry index).Sound := by
  unfold retry
  cases s.timers[index]? with
  | none => exact sound
  | some timer =>
    have taken : Sound { s with timers := s.timers.eraseIdx index } := sound.of_line_eq rfl
    dsimp only
    split_ifs
    · exact attempt_sound taken timer.sendId
    · exact sound

theorem apply_sound (sound : s.Sound) (event : DeliveryEvent) : (s.apply event).Sound := by
  cases event with
  | wait ms => exact sound.of_line_eq rfl
  | submit entry handles => exact submit_sound sound entry handles
  | outcome index outcome => exact endPost_sound sound index outcome
  | retry index => exact retry_sound sound index
  | resolveRefused sendId => exact resolveRefused_sound sound sendId
  | reconcile known => exact reconcile_sound sound known

theorem run_sound {clock : Int} {outbox : Outbox} {events : List DeliveryEvent}
    (run : Run (ofFunction apply) (start clock outbox) events s) : s.Sound :=
  run.invariant (start_sound clock outbox) fun _ event _ sound taken =>
    taken ▸ apply_sound sound event

/-! ## What a sound delivery looks like from outside -/

theorem repeated_eq_nil {seen rest : List String} (distinct : (seen ++ rest).Nodup) :
    repeated seen rest = [] := by
  induction rest generalizing seen with
  | nil => rfl
  | cons sendId later ih =>
    have apart : (seen ++ [sendId] ++ later).Nodup := by simpa using distinct
    have fresh : sendId ∉ seen := fun isIn =>
      (List.nodup_append.mp distinct).2.2 sendId isIn sendId (by simp) rfl
    rw [repeated, if_neg fresh, ih apart]
    rfl

theorem Sound.attempts_distinct (sound : s.Sound) : (s.attempts.map (·.sendId)).Nodup := by
  refine List.nodup_iff_count_le_one.mpr fun sendId => ?_
  have counted : (s.attempts.map (·.sendId)).count sendId = (s.line sendId).attempts.length := by
    rw [List.count, List.countP_map, List.countP_eq_length_filter]
    congr 2
  rw [counted]
  rcases (sound sendId).flight with ⟨_, _, single⟩ | ⟨_, _, none, _⟩
  · exact single.le
  · rw [none]
    exact Nat.zero_le 1

theorem Sound.mem_attempts (sound : s.Sound) {sendId : String} (out : sendId ∈ s.inFlight) :
    sendId ∈ s.attempts.map (·.sendId) := by
  have single := ((sound sendId).out ((inFlight_iff s sendId).mpr out)).2
  obtain ⟨entry, isEntry⟩ := List.length_eq_one_iff.mp single
  have isIn : entry ∈ s.attempts.filter (·.sendId = sendId) := by
    rw [show s.attempts.filter (·.sendId = sendId) = [entry] from isEntry]
    simp
  exact List.mem_map.mpr ⟨entry, (List.mem_filter.mp isIn).1,
    by simpa using (List.mem_filter.mp isIn).2⟩

theorem Sound.queued_inFlight (sound : s.Sound) {sendId : String}
    (isIn : sendId ∈ s.queued.keys) : sendId ∈ s.inFlight := by
  obtain ⟨next, isNext⟩ := Option.isSome_iff_exists.mp ((s.queued.mem_keys_iff sendId).mp isIn)
  have replaced := ((sound sendId).waiting next isNext).2
  by_contra isIdle
  have idle : (s.line sendId).inFlight = false := by
    simpa using (inFlight_iff s sendId).not.mpr isIdle
  rw [((sound sendId).idle idle).2.2] at replaced
  cases replaced

theorem Sound.audit_eq_nil (sound : s.Sound) : s.audit = [] := by
  have seen := fun sendId => s.outbox.mem_sendIds_iff sendId
  have duplicates : repeated [] (s.outbox.entries.map (·.sendId)) = [] :=
    repeated_eq_nil s.outbox.distinct
  have hooks : s.hooksFor.keys.filter (· ∉ s.outbox.entries.map (·.sendId)) = [] := by
    refine List.filter_eq_nil_iff.mpr fun sendId isIn => ?_
    have kept := (sound sendId).hooked ((s.hooksFor.mem_keys_iff sendId).mp isIn)
    simpa using (seen sendId).mpr kept
  have shown : s.sending.keys.filter (fun sendId =>
      sendId ∉ s.outbox.entries.map (·.sendId) ∧ sendId ∉ s.inFlight) = [] := by
    refine List.filter_eq_nil_iff.mpr fun sendId isIn => ?_
    obtain ⟨entry, isShown⟩ :=
      Option.isSome_iff_exists.mp ((s.sending.mem_keys_iff sendId).mp isIn)
    have kept := (seen sendId).mpr ((sound sendId).shown entry isShown).2
    simp [kept]
  have queued : s.queued.keys.filter (· ∉ s.inFlight) = [] := by
    refine List.filter_eq_nil_iff.mpr fun sendId isIn => ?_
    simpa using sound.queued_inFlight isIn
  unfold audit
  dsimp only
  rw [duplicates, hooks, shown, queued]
  rfl

end Delivery

/-- **Tables.** Between the handlers of any run at most one POST is out for a send
id, at most one resubmission waits for one and only while that POST is out, and the
audit finds no problem. -/
theorem audit_finds_nothing {clock : Int} {outbox : Outbox} {events : List DeliveryEvent}
    {s : Delivery} (run : Run (ofFunction Delivery.apply) (Delivery.start clock outbox) events s) :
    (s.attempts.map (·.sendId)).Nodup ∧ s.queued.keys.Nodup ∧
      (∀ sendId ∈ s.queued.keys, sendId ∈ s.attempts.map (·.sendId)) ∧ s.audit = [] := by
  have sound := Delivery.run_sound run
  exact ⟨sound.attempts_distinct, s.queued.distinct,
    fun sendId member => sound.mem_attempts (sound.queued_inFlight member), sound.audit_eq_nil⟩

/-- A send that is pressed again while its POST is out, and a third one. -/
def pressedTwice : Delivery :=
  [.submit ⟨"s1", "hello", 0, 0⟩ true, .submit ⟨"s1", "hello", 10, 0⟩ false,
    .submit ⟨"s2", "again", 20, 0⟩ true].foldl Delivery.apply (Delivery.start 0 Outbox.empty)

theorem audit_finds_nothing_pressedTwice :
    pressedTwice.queued.keys = ["s1"] ∧
      (pressedTwice.attempts.map (·.sendId)).Nodup ∧ pressedTwice.queued.keys.Nodup ∧
      (∀ sendId ∈ pressedTwice.queued.keys,
        sendId ∈ pressedTwice.attempts.map (·.sendId)) ∧ pressedTwice.audit = [] :=
  ⟨by decide, audit_finds_nothing (Run.foldl Delivery.apply _ _)⟩

end Murage.SendDelivery
