import Murage.SendDelivery.Audit

/-!
Owns who is called: each hooks object is called at most once in any run, and one
that has not been called is held by the line of its send, as long as no `submit`
takes the place of hooks that wait for a retry.
-/

namespace Murage.SendDelivery

open Murage.Library
open Murage.Library.Transition

def Effect.called : Effect → Option Nat
  | .onReceipt hooks _ _ | .onFailed hooks _ _ => some hooks
  | _ => none

def Line.Holds (l : Line) (hooks : Nat) : Prop :=
  (∃ held, l.hooks = some held ∧ held.id = hooks) ∨
    ∃ next, l.queued = some next ∧ next.2.id = hooks

namespace Delivery

def calls (s : Delivery) (hooks : Nat) : Nat := s.log.countP (·.called = some hooks)

/-- Hooks were called once, or not yet. -/
def Counted (s : Delivery) : Prop :=
  ∀ hooks, s.calls hooks = if hooks ∈ s.settledHooks then 1 else 0

/-! ## Calls -/

/-- A part of a handler, as far as its calls go. -/
structure Calls (s s' : Delivery) : Prop where
  settled : s.settledHooks ⊆ s'.settledHooks
  counted : s.Counted → s'.Counted
  submitted : s'.submitted = s.submitted

namespace Calls

variable {s s' s'' : Delivery}

theorem of_same (settled : s'.settledHooks = s.settledHooks) (log : s'.log = s.log)
    (submitted : s'.submitted = s.submitted) : Calls s s' where
  settled := settled ▸ Finset.Subset.refl _
  counted := fun counted hooks => by
    unfold calls
    rw [settled, log]
    exact counted hooks
  submitted := submitted

theorem refl (s : Delivery) : Calls s s := of_same rfl rfl rfl

theorem trans (first : Calls s s') (second : Calls s' s'') : Calls s s'' where
  settled := first.settled.trans second.settled
  counted := second.counted ∘ first.counted
  submitted := second.submitted.trans first.submitted

end Calls

variable (s : Delivery) (entry : OutboxEntry) (sendId : String)

theorem note_calls (effect : Effect) (silent : effect.called = none) :
    Calls s (s.note effect) where
  settled := Finset.Subset.refl _
  counted := fun counted hooks => by
    have same : (s.note effect).calls hooks = s.calls hooks := by
      simp [calls, note, silent]
    rw [same]
    exact counted hooks
  submitted := rfl

theorem call_counted {hooks : DeliveryHooks} {effect : Effect}
    (isCall : effect.called = some hooks.id) (open' : hooks.id ∉ s.settledHooks) :
    Calls s { s with
      settledHooks := insert hooks.id s.settledHooks, log := s.log ++ [effect] } where
  settled := Finset.subset_insert _ _
  counted := fun counted other => by
    have before := counted other
    unfold calls at before ⊢
    dsimp only
    rw [List.countP_append, before]
    by_cases same : other = hooks.id
    · rw [same, if_neg open', if_pos (Finset.mem_insert_self _ _)]
      simp [isCall]
    · have differs : ¬hooks.id = other := fun eq => same eq.symm
      simp [isCall, same, differs]
  submitted := rfl

theorem onReceipt_calls (hooks : Option DeliveryHooks) (receipt : Receipt) :
    Calls s (s.onReceipt hooks entry receipt) := by
  unfold onReceipt
  cases hooks with
  | none => exact Calls.refl s
  | some hooks =>
    dsimp only
    split_ifs with settled
    · exact Calls.refl s
    · exact call_counted s rfl settled

theorem onFailed_calls (hooks : Option DeliveryHooks) (error : SendError) :
    Calls s (s.onFailed hooks entry error) := by
  unfold onFailed
  cases hooks with
  | none => exact Calls.refl s
  | some hooks =>
    dsimp only
    split_ifs with settled
    · exact Calls.refl s
    · exact call_counted s rfl settled

theorem fail_calls (hooks : Option DeliveryHooks) (error : SendError) :
    Calls s (s.fail hooks entry error) := by
  have called := onFailed_calls s entry hooks error
  unfold fail
  split_ifs
  · exact called
  · exact called.trans (note_calls _ _ rfl)

variable {s entry} {hooks : DeliveryHooks}

theorem onReceipt_settles (receipt : Receipt) :
    hooks.id ∈ (s.onReceipt (some hooks) entry receipt).settledHooks := by
  unfold onReceipt
  dsimp only
  split_ifs with settled
  · exact settled
  · exact Finset.mem_insert_self _ _

variable (error : SendError)

theorem onFailed_settles :
    hooks.id ∈ (s.onFailed (some hooks) entry error).settledHooks := by
  unfold onFailed
  dsimp only
  split_ifs with settled
  · exact settled
  · exact Finset.mem_insert_self _ _

theorem fail_settles :
    hooks.id ∈ (s.fail (some hooks) entry error).settledHooks := by
  unfold fail
  split_ifs
  · exact onFailed_settles error
  · exact onFailed_settles error

variable (s entry)

theorem settleSending_calls : Calls s (s.settleSending entry) :=
  (Calls.of_same rfl rfl rfl : Calls s { s with
    sending := s.sending.erase entry.sendId }).trans (note_calls _ _ rfl)

theorem showSending_calls : Calls s (s.showSending entry) :=
  (Calls.of_same rfl rfl rfl : Calls s { s with
    sending := s.sending.set entry.sendId entry }).trans (note_calls _ _ rfl)

theorem settleOutbox_calls : Calls s (s.settleOutbox entry) := Calls.of_same rfl rfl rfl

theorem dropHooks_calls : Calls s (s.dropHooks sendId) := Calls.of_same rfl rfl rfl

theorem close_calls :
    Calls s (((s.settleOutbox entry).settleSending entry).dropHooks entry.sendId) :=
  ((settleOutbox_calls s entry).trans (settleSending_calls _ entry)).trans
    (dropHooks_calls _ entry.sendId)

theorem finishFailed_calls : Calls s (s.finishFailed entry error) :=
  (close_calls s entry).trans (fail_calls _ entry _ error)

theorem resolveRefused_calls : Calls s (s.resolveRefused sendId) := by
  unfold resolveRefused
  split_ifs
  · exact Calls.of_same rfl rfl rfl
  · cases s.outbox.find sendId with
    | none =>
      exact (Calls.of_same rfl rfl rfl : Calls s ((s.addRefused sendId).dropHooks sendId)).trans
        (note_calls _ _ rfl)
    | some entry =>
      exact ((((Calls.of_same rfl rfl rfl : Calls s
        ((s.addRefused sendId).dropHooks sendId)).trans (settleOutbox_calls _ entry)).trans
          (settleSending_calls _ entry)).trans (onFailed_calls _ entry _ REFUSED)).trans
            (note_calls _ _ rfl)

theorem attempt_calls : Calls s (s.attempt sendId) := by
  unfold attempt
  split_ifs
  · exact Calls.refl s
  · cases s.outbox.find sendId with
    | none =>
      cases s.sending.get sendId with
      | none => exact Calls.refl s
      | some shown => exact settleSending_calls s shown
    | some entry =>
      dsimp only
      split_ifs
      · exact finishFailed_calls s entry attemptTimedOut
      · exact (Calls.of_same rfl rfl rfl : Calls s { s with
          inFlight := insert sendId s.inFlight
          posting := s.posting.set sendId entry
          attempts := s.attempts ++ [entry] }).trans (note_calls _ _ rfl)

theorem begin_calls (hooks : DeliveryHooks) : Calls s (s.begin entry hooks) := by
  unfold begin
  split_ifs
  · exact (Calls.of_same rfl rfl rfl : Calls s (s.deleteRefused entry.sendId)).trans
      (fail_calls _ entry _ outboxFull)
  · exact ((Calls.of_same rfl rfl rfl : Calls s
      (((s.deleteRefused entry.sendId).addOutbox entry).holdHooks entry.sendId hooks)).trans
        (showSending_calls _ entry)).trans (attempt_calls _ entry.sendId)

theorem succeed_calls (body : String) : Calls s (s.succeed entry body) := by
  unfold succeed
  split_ifs
  · exact Calls.refl s
  · have received : Calls s ((s.note (.receipt entry body)).deleteQueued entry.sendId) :=
      (note_calls s _ rfl).trans (Calls.of_same rfl rfl rfl)
    cases s.queued.get entry.sendId with
    | none => exact received
    | some waiting => exact received.trans (onReceipt_calls _ _ _ _)
  · exact ((((settleOutbox_calls s entry).trans (settleSending_calls _ entry)).trans
      (note_calls _ (.receipt entry body) rfl)).trans (dropHooks_calls _ entry.sendId)).trans
        (onReceipt_calls _ entry _ (.answered body))

theorem fault_calls : Calls s (s.fault entry error) := by
  unfold fault
  split_ifs
  · exact Calls.refl s
  · exact (Calls.of_same rfl rfl rfl : Calls s (s.deleteInFlight entry.sendId)).trans
      (resolveRefused_calls _ entry.sendId)
  · exact finishFailed_calls s entry error
  · exact Calls.of_same rfl rfl rfl

theorem finishAttempt_calls : Calls s (s.finishAttempt sendId) := by
  unfold finishAttempt
  cases s.queued.get sendId with
  | none => exact Calls.of_same rfl rfl rfl
  | some next =>
    exact (Calls.of_same rfl rfl rfl : Calls s
      ((s.deleteAttempt sendId).deleteQueued sendId)).trans (begin_calls _ next.1 next.2)

theorem refuseOriginal_calls : Calls s (s.refuseOriginal sendId) := by
  have replaced : Calls s ((s.dropHooks sendId).addSuperseded sendId) :=
    Calls.of_same rfl rfl rfl
  unfold refuseOriginal
  cases s.posting.get sendId with
  | none => exact replaced
  | some original =>
    exact ((replaced.trans (settleOutbox_calls _ original)).trans
      (settleSending_calls _ original)).trans (onFailed_calls _ original _ REFUSED)

theorem refuseEarlier_calls : Calls s (s.refuseEarlier sendId) := by
  unfold refuseEarlier
  cases s.queued.get sendId with
  | none => exact Calls.refl s
  | some earlier => exact onFailed_calls s earlier.1 _ REFUSED

theorem supersede_calls (hooks : DeliveryHooks) : Calls s (s.supersede entry hooks) :=
  ((refuseOriginal_calls s entry.sendId).trans (refuseEarlier_calls _ entry.sendId)).trans
    (Calls.of_same rfl rfl rfl)

theorem reconcileEntry_calls (known : Known) : Calls s (reconcileEntry known s entry) := by
  unfold reconcileEntry
  split_ifs
  · exact Calls.refl s
  · exact (close_calls s entry).trans (onReceipt_calls _ _ _ _)
  · exact (showSending_calls s entry).trans (attempt_calls _ entry.sendId)

/-! ## Hooks that are held -/

/-- A handler about `sendId` calls the hooks that its line held, or the line still
holds them. -/
structure Keeps (sendId : String) (s s' : Delivery) : Prop extends Calls s s' where
  elsewhere : ∀ id, id ≠ sendId → s'.line id = s.line id
  held : ∀ hooks, (s.line sendId).Holds hooks →
    hooks ∈ s'.settledHooks ∨ (s'.line sendId).Holds hooks

namespace Keeps

variable {s s' s'' : Delivery} {sendId : String} {update : Line → Line}

theorem trans (first : Keeps sendId s s') (second : Keeps sendId s' s'') : Keeps sendId s s'' where
  toCalls := first.toCalls.trans second.toCalls
  elsewhere := fun id other => (second.elsewhere id other).trans (first.elsewhere id other)
  held := fun hooks holds => by
    rcases first.held hooks holds with settled | still
    · exact Or.inl (second.settled settled)
    · exact second.held hooks still

theorem of_moves (called : Calls s s') (moved : Moves sendId update s s')
    (hooked : ∀ hooks, s.hooksFor.get sendId = some hooks →
      hooks.id ∈ s'.settledHooks ∨ (update (s.line sendId)).hooks = some hooks)
    (queued : ∀ next, s.queued.get sendId = some next →
      next.2.id ∈ s'.settledHooks ∨ (update (s.line sendId)).queued = some next) :
    Keeps sendId s s' where
  toCalls := called
  elsewhere := fun _ other => moved.elsewhere other
  held := by
    rw [moved.here]
    rintro _ (⟨hooks, isHeld, rfl⟩ | ⟨next, isNext, rfl⟩)
    · exact (hooked hooks isHeld).imp_right fun still => Or.inl ⟨hooks, still, rfl⟩
    · exact (queued next isNext).imp_right fun still => Or.inr ⟨next, still, rfl⟩

theorem of_same (called : Calls s s') (moved : Moves sendId update s s')
    (hooks : (update (s.line sendId)).hooks = (s.line sendId).hooks)
    (queued : (update (s.line sendId)).queued = (s.line sendId).queued) : Keeps sendId s s' :=
  of_moves called moved (fun _ isHeld => Or.inr (hooks.trans isHeld))
    fun _ isNext => Or.inr (queued.trans isNext)

theorem refl (s : Delivery) (sendId : String) : Keeps sendId s s where
  toCalls := Calls.refl s
  elsewhere := fun _ _ => rfl
  held := fun _ holds => Or.inr holds

end Keeps

theorem finishFailed_keeps :
    Keeps entry.sendId s (s.finishFailed entry error) := by
  refine Keeps.of_moves (finishFailed_calls s entry error) (finishFailed_moves s entry error)
    (fun hooks isHeld => Or.inl ?_) fun _ isNext => Or.inr isNext
  unfold finishFailed
  rw [isHeld]
  exact fail_settles error

theorem resolveRefused_keeps (consistent : (s.line sendId).Consistent sendId) :
    Keeps sendId s (s.resolveRefused sendId) := by
  have called := resolveRefused_calls s sendId
  have moved := resolveRefused_moves s sendId consistent
  refine Keeps.of_moves called moved (fun hooks isHeld => ?_) fun next isNext => Or.inr ?_
  · by_cases out : sendId ∈ s.inFlight
    · right
      unfold Line.refuse
      rw [if_pos ((inFlight_iff s sendId).mpr out)]
      exact isHeld
    · left
      -- Hooks are held only for an entry, so there is one to settle.
      have isHooked : (s.line sendId).hooks = some hooks := isHeld
      obtain ⟨entry, isEntry⟩ := Option.isSome_iff_exists.mp
        (consistent.hooked (by simp [isHooked]))
      have isFound : s.outbox.find sendId = some entry := isEntry
      unfold resolveRefused
      rw [if_neg out, isFound, isHeld]
      exact onFailed_settles REFUSED
  · unfold Line.refuse
    split_ifs
    · exact isNext
    · exact isNext

theorem attempt_keeps
    (named : ∀ shown, s.sending.get sendId = some shown → shown.sendId = sendId) :
    Keeps sendId s (s.attempt sendId) := by
  have called := attempt_calls s sendId
  have moved := attempt_moves s sendId named
  by_cases out : sendId ∈ s.inFlight
  · rw [show s.attempt sendId = s from if_pos out]
    exact Keeps.refl s sendId
  · have isIdle := (inFlight_iff s sendId).not.mpr out
    cases isFound : s.outbox.find sendId with
    | none =>
      have gone : (s.line sendId).attempt s.clock = { s.line sendId with sending := none } :=
        Line.attempt_gone isIdle isFound
      exact Keeps.of_same called moved (by rw [gone]) (by rw [gone])
    | some entry =>
      obtain rfl : entry.sendId = sendId := Outbox.find_sendId _ _ isFound
      by_cases late : OUTBOX_GIVE_UP_MS < s.clock - entry.sentAt
      · have failed : s.attempt entry.sendId = s.finishFailed entry attemptTimedOut := by
          unfold attempt
          rw [if_neg out, isFound]
          exact if_pos late
        rw [failed]
        exact finishFailed_keeps s entry attemptTimedOut
      · have posts : (s.line entry.sendId).attempt s.clock = { s.line entry.sendId with
            inFlight := true
            posting := some entry
            attempts := (s.line entry.sendId).attempts ++ [entry] } :=
          Line.attempt_posts isIdle isFound late
        exact Keeps.of_same called moved (by rw [posts]) (by rw [posts])

theorem showSending_attempt_keeps :
    Keeps entry.sendId s ((s.showSending entry).attempt entry.sendId) := by
  have shown : Keeps entry.sendId s (s.showSending entry) :=
    Keeps.of_same (showSending_calls s entry) (showSending_moves s entry) rfl rfl
  exact shown.trans (attempt_keeps _ entry.sendId (showSending_named s entry))

theorem begin_keeps (hooks : DeliveryHooks)
    (free : s.hooksFor.get entry.sendId = none ∨ s.outbox.full entry) :
    Keeps entry.sendId s (s.begin entry hooks) ∧
      (hooks.id ∈ (s.begin entry hooks).settledHooks ∨
        ((s.begin entry hooks).line entry.sendId).Holds hooks.id) := by
  have called := begin_calls s entry hooks
  have moved := begin_moves s entry hooks
  by_cases full : s.outbox.full entry
  · have same : (s.line entry.sendId).begin s.clock (s.outbox.full entry) entry hooks =
        { s.line entry.sendId with refused := false } := if_pos full
    refine ⟨Keeps.of_same called moved (by rw [same]) (by rw [same]), Or.inl ?_⟩
    unfold begin
    rw [if_pos full]
    exact fail_settles outboxFull
  · have isFree : s.hooksFor.get entry.sendId = none := free.resolve_right full
    have holding := ((deleteRefused_moves s entry.sendId).trans (addOutbox_moves _ entry)).trans
      (holdHooks_moves _ entry.sendId hooks)
    have held : Keeps entry.sendId s
        (((s.deleteRefused entry.sendId).addOutbox entry).holdHooks entry.sendId hooks) := by
      refine Keeps.of_moves (Calls.of_same rfl rfl rfl) holding (fun other isHeld => ?_)
        fun _ isNext => Or.inr isNext
      rw [isFree] at isHeld
      cases isHeld
    have attempted := showSending_attempt_keeps
      (((s.deleteRefused entry.sendId).addOutbox entry).holdHooks entry.sendId hooks) entry
    unfold begin
    rw [if_neg full]
    refine ⟨held.trans attempted, attempted.held hooks.id ?_⟩
    rw [holding.here]
    exact Or.inl ⟨hooks, rfl, rfl⟩

theorem succeed_keeps (body : String) : Keeps entry.sendId s (s.succeed entry body) := by
  have called := succeed_calls s entry body
  have moved := succeed_moves s entry body
  have superseding := superseded_iff s entry.sendId
  have refused := refused_iff s entry.sendId
  refine Keeps.of_moves called moved (fun hooks isHeld => ?_) fun next isNext => ?_
  · by_cases replaced : entry.sendId ∈ s.superseded
    · right
      unfold Line.succeed
      rw [if_pos (superseding.mpr replaced)]
      split_ifs
      · exact isHeld
      · exact isHeld
    · left
      unfold succeed
      rw [if_neg fun both => replaced both.1, if_neg replaced, isHeld]
      exact onReceipt_settles (.answered body)
  · by_cases replaced : entry.sendId ∈ s.superseded
    · by_cases isRefused : entry.sendId ∈ s.refusedByServer
      · right
        unfold Line.succeed
        rw [if_pos (superseding.mpr replaced), if_pos (refused.mpr isRefused)]
        exact isNext
      · left
        unfold succeed
        rw [if_neg fun both => isRefused both.2, if_pos replaced, isNext]
        exact onReceipt_settles (.answered body)
    · right
      unfold Line.succeed
      rw [if_neg (superseding.not.mpr replaced)]
      exact isNext

theorem fault_keeps (consistent : (s.line entry.sendId).Consistent entry.sendId) :
    Keeps entry.sendId s (s.fault entry error) := by
  have landed := deleteInFlight_moves s entry.sendId
  have still : ((s.deleteInFlight entry.sendId).line entry.sendId).Consistent entry.sendId := by
    rw [landed.here]
    exact ⟨consistent.kept, consistent.hooked, consistent.shown, consistent.posted,
      consistent.waiting, consistent.replaced⟩
  have down : Keeps entry.sendId s (s.deleteInFlight entry.sendId) :=
    Keeps.of_same (Calls.of_same rfl rfl rfl) landed rfl rfl
  unfold fault
  split_ifs
  · exact Keeps.refl s entry.sendId
  · exact down.trans (resolveRefused_keeps _ entry.sendId still)
  · exact finishFailed_keeps s entry error
  · exact Keeps.of_same (Calls.of_same rfl rfl rfl)
      ((bumpOutbox_moves s entry).lineless (line_retryLater _ _ error)) rfl rfl

/-- The `finally` block: the hooks of a queued resubmission become the hooks of its
send, whose own were dropped when it was queued. -/
theorem finishAttempt_keeps (consistent : (s.line sendId).Consistent sendId) :
    Keeps sendId s (s.finishAttempt sendId) := by
  have ended := deleteAttempt_moves s sendId
  unfold finishAttempt
  cases isNext : s.queued.get sendId with
  | none => exact Keeps.of_same (Calls.of_same rfl rfl rfl) ended rfl rfl
  | some next =>
    obtain ⟨named, replaced⟩ := consistent.waiting next isNext
    subst named
    have dropped : s.hooksFor.get next.1.sendId = none := consistent.replaced replaced
    have unqueued := ended.trans (deleteQueued_moves _ next.1.sendId)
    have silent : Calls s ((s.deleteAttempt next.1.sendId).deleteQueued next.1.sendId) :=
      Calls.of_same rfl rfl rfl
    obtain ⟨begun, isHeld⟩ := begin_keeps
      ((s.deleteAttempt next.1.sendId).deleteQueued next.1.sendId) next.1 next.2
      (Or.inl dropped)
    refine ⟨silent.trans begun.toCalls, fun id other => ?_, ?_⟩
    · exact (begun.elsewhere id other).trans (unqueued.elsewhere other)
    · rintro _ (⟨hooks, isHooked, _⟩ | ⟨other, isOther, rfl⟩)
      · exact absurd (dropped.symm.trans isHooked) (by simp)
      · obtain rfl : next = other := Option.some.inj (isNext.symm.trans isOther)
        exact isHeld

/-- `submit` during a POST settles the original and an earlier resubmission, and queues
the new hooks. -/
theorem supersede_keeps (hooks : DeliveryHooks) {original : OutboxEntry}
    (isOriginal : s.posting.get entry.sendId = some original)
    (named : original.sendId = entry.sendId) :
    Keeps entry.sendId s (s.supersede entry hooks) ∧
      ((s.supersede entry hooks).line entry.sendId).Holds hooks.id := by
  have moved := supersede_moves s entry hooks isOriginal named
  have replaced := refuseOriginal_moves s entry.sendId isOriginal named
  refine ⟨Keeps.of_moves (supersede_calls s entry hooks) moved (fun held isHeld => Or.inl ?_)
    fun next isNext => Or.inl ?_, ?_⟩
  · have settled : held.id ∈ (s.refuseOriginal entry.sendId).settledHooks := by
      unfold refuseOriginal
      rw [isOriginal, isHeld]
      exact onFailed_settles REFUSED
    exact (refuseEarlier_calls _ entry.sendId).settled settled
  · have still : (s.refuseOriginal entry.sendId).queued.get entry.sendId = some next :=
      (congrArg Line.queued replaced.here).trans isNext
    have settled : next.2.id ∈
        ((s.refuseOriginal entry.sendId).refuseEarlier entry.sendId).settledHooks := by
      unfold refuseEarlier
      rw [still]
      exact onFailed_settles REFUSED
    exact settled
  · rw [moved.here]
    exact Or.inr ⟨(entry, hooks), rfl, rfl⟩

theorem reconcileEntry_keeps (known : Known) :
    Keeps entry.sendId s (reconcileEntry known s entry) := by
  have called := reconcileEntry_calls s entry known
  have moved := reconcileEntry_moves s entry known
  unfold reconcileEntry at called moved ⊢
  split_ifs with out isKnown
  · exact Keeps.refl s entry.sendId
  · rw [if_neg out, if_pos isKnown] at called
    have closed := (close_moves s entry).lineless (line_onReceipt _ entry
      (s.hooksFor.get entry.sendId) .reconciled)
    refine Keeps.of_moves called closed (fun hooks isHeld => Or.inl ?_) fun _ isNext =>
      Or.inr isNext
    rw [isHeld]
    exact onReceipt_settles .reconciled
  · exact showSending_attempt_keeps s entry

/-! ## Runs -/

/-- Every hooks object was called or is held by the line of its send. -/
structure Accounted (s : Delivery) : Prop where
  sound : s.Sound
  counted : s.Counted
  held : ∀ hooks sendId, s.submitted[hooks]? = some sendId →
    hooks ∈ s.settledHooks ∨ (s.line sendId).Holds hooks

/-- No hooks that wait for a retry lose their place to the `submit` of `event`. -/
def TakesNoPlace (s : Delivery) : DeliveryEvent → Prop
  | .submit entry _ =>
    entry.sendId ∈ s.inFlight ∨ s.hooksFor.get entry.sendId = none ∨ s.outbox.full entry
  | _ => True

variable {s}

theorem Accounted.keeps {s' : Delivery} {sendId : String} (accounted : s.Accounted)
    (kept : Keeps sendId s s') (sound : s'.Sound) : s'.Accounted where
  sound := sound
  counted := kept.counted accounted.counted
  held := fun hooks id submitted => by
    rw [kept.submitted] at submitted
    rcases accounted.held hooks id submitted with settled | holds
    · exact Or.inl (kept.settled settled)
    · by_cases same : id = sendId
      · subst same
        exact kept.held hooks holds
      · rw [kept.elsewhere id same]
        exact Or.inr holds

theorem start_accounted (clock : Int) (outbox : Outbox) : (start clock outbox).Accounted where
  sound := start_sound clock outbox
  counted := fun hooks => by simp [start, calls]
  held := fun hooks sendId submitted => by simp [start] at submitted

theorem Accounted.registers {s' : Delivery} {sendId : String} (accounted : s.Accounted)
    (kept : Keeps sendId (s.register sendId) s') (sound : s'.Sound)
    (fresh : s.submitted.length ∈ s'.settledHooks ∨ (s'.line sendId).Holds s.submitted.length) :
    s'.Accounted where
  sound := sound
  counted := kept.counted accounted.counted
  held := fun hooks id submitted => by
    rw [kept.submitted] at submitted
    rcases Nat.lt_trichotomy hooks s.submitted.length with earlier | last | later
    · have before : s.submitted[hooks]? = some id := by
        simpa [register, List.getElem?_append, earlier] using submitted
      rcases accounted.held hooks id before with settled | holds
      · exact Or.inl (kept.settled settled)
      · by_cases same : id = sendId
        · subst same
          exact kept.held hooks holds
        · rw [kept.elsewhere id same]
          exact Or.inr holds
    · subst last
      have isSent : sendId = id := by simpa [register] using submitted
      exact isSent ▸ fresh
    · have none : (s.register sendId).submitted[hooks]? = Option.none :=
        List.getElem?_eq_none (by simp [register]; omega)
      rw [none] at submitted
      cases submitted

theorem submit_accounted (accounted : s.Accounted) (entry : OutboxEntry) (handles : Bool)
    (free : s.TakesNoPlace (.submit entry handles)) : (s.submit entry handles).Accounted := by
  have sound := submit_sound accounted.sound entry handles
  have resting := accounted.sound entry.sendId
  unfold submit at sound ⊢
  split_ifs at sound ⊢ with out
  · obtain ⟨original, isOriginal⟩ := Option.isSome_iff_exists.mp
      (resting.out ((inFlight_iff s entry.sendId).mpr out)).1
    obtain ⟨kept, holds⟩ := supersede_keeps (s.register entry.sendId) entry
      { id := s.submitted.length, handles := handles } isOriginal
      (resting.posted original isOriginal)
    exact accounted.registers kept sound (Or.inr holds)
  · obtain ⟨kept, fresh⟩ := begin_keeps (s.register entry.sendId) entry
      { id := s.submitted.length, handles := handles } (free.resolve_left out)
    exact accounted.registers kept sound fresh

theorem endPost_accounted (accounted : s.Accounted) (index : Nat) (outcome : Outcome) :
    (s.endPost index outcome).Accounted := by
  have sound := endPost_sound accounted.sound index outcome
  unfold endPost at sound ⊢
  cases isIn : s.attempts[index]? with
  | none => exact accounted
  | some entry =>
    rw [isIn] at sound
    have erased := eraseAttempt_moves s entry isIn
    have resting := accounted.sound entry.sendId
    have kept : Keeps entry.sendId s { s with attempts := s.attempts.eraseIdx index } :=
      Keeps.of_same (Calls.of_same rfl rfl rfl) erased rfl rfl
    dsimp only at sound ⊢
    generalize { s with attempts := s.attempts.eraseIdx index } = waiting at sound erased kept ⊢
    have consistent : (waiting.line entry.sendId).Consistent entry.sendId := by
      rw [erased.here]
      exact ⟨resting.kept, resting.hooked, resting.shown, resting.posted, resting.waiting,
        resting.replaced⟩
    cases outcome with
    | answered body =>
      have after : ((waiting.succeed entry body).line entry.sendId).Consistent
          entry.sendId := by
        rw [(succeed_moves waiting entry body).here]
        exact consistent.succeed
      exact accounted.keeps ((kept.trans (succeed_keeps waiting entry body)).trans
        (finishAttempt_keeps _ entry.sendId after)) sound
    | failed error =>
      have after : ((waiting.fault entry error).line entry.sendId).Consistent
          entry.sendId := by
        rw [(fault_moves waiting entry error consistent).here]
        exact consistent.fault
      exact accounted.keeps ((kept.trans (fault_keeps waiting entry error consistent)).trans
        (finishAttempt_keeps _ entry.sendId after)) sound

theorem retry_accounted (accounted : s.Accounted) (index : Nat) :
    (s.retry index).Accounted := by
  have sound := retry_sound accounted.sound index
  unfold retry at sound ⊢
  cases isIn : s.timers[index]? with
  | none => exact accounted
  | some timer =>
    rw [isIn] at sound
    dsimp only at sound ⊢
    split_ifs at sound ⊢
    · have taken : Keeps timer.sendId s { s with timers := s.timers.eraseIdx index } :=
        ⟨Calls.of_same rfl rfl rfl, fun _ _ => rfl, fun _ holds => Or.inr holds⟩
      have attempted := attempt_keeps { s with timers := s.timers.eraseIdx index } timer.sendId
        fun shown isShown => ((accounted.sound timer.sendId).shown shown isShown).1
      exact accounted.keeps (taken.trans attempted) sound
    · exact accounted

/-- **Hooks.** An event that takes no place loses no hooks. -/
theorem apply_accounted (accounted : s.Accounted) {event : DeliveryEvent}
    (free : s.TakesNoPlace event) : (s.apply event).Accounted := by
  cases event with
  | wait ms => exact ⟨accounted.sound.of_line_eq rfl, accounted.counted, accounted.held⟩
  | submit entry handles => exact submit_accounted accounted entry handles free
  | outcome index outcome => exact endPost_accounted accounted index outcome
  | retry index => exact retry_accounted accounted index
  | resolveRefused sendId =>
    exact accounted.keeps
      (resolveRefused_keeps s sendId (accounted.sound sendId).toConsistent)
      (resolveRefused_sound accounted.sound sendId)
  | reconcile known =>
    refine reconcile_invariant known accounted fun before entry holds isKept =>
      holds.keeps (reconcileEntry_keeps before entry known) ?_
    exact holds.sound.moves (reconcileEntry_moves before entry known)
      ((holds.sound entry.sendId).reconcile isKept)

theorem submit_counted (counted : s.Counted) (entry : OutboxEntry) (handles : Bool) :
    (s.submit entry handles).Counted := by
  have registered : (s.register entry.sendId).Counted := counted
  unfold submit
  split_ifs
  · exact (supersede_calls _ entry _).counted registered
  · exact (begin_calls _ entry _).counted registered

theorem endPost_calls (index : Nat) (outcome : Outcome) : Calls s (s.endPost index outcome) := by
  unfold endPost
  cases s.attempts[index]? with
  | none => exact Calls.refl s
  | some entry =>
    have erased : Calls s { s with attempts := s.attempts.eraseIdx index } :=
      Calls.of_same rfl rfl rfl
    cases outcome with
    | answered body =>
      exact (erased.trans (succeed_calls _ entry body)).trans
        (finishAttempt_calls _ entry.sendId)
    | failed error =>
      exact (erased.trans (fault_calls _ entry error)).trans
        (finishAttempt_calls _ entry.sendId)

theorem retry_calls (index : Nat) : Calls s (s.retry index) := by
  unfold retry
  cases s.timers[index]? with
  | none => exact Calls.refl s
  | some timer =>
    have taken : Calls s { s with timers := s.timers.eraseIdx index } :=
      Calls.of_same rfl rfl rfl
    dsimp only
    split_ifs
    · exact taken.trans (attempt_calls _ timer.sendId)
    · exact Calls.refl s

theorem reconcile_calls (known : Known) : Calls s (s.reconcile known) := by
  have folded : ∀ (entries : List OutboxEntry) (before : Delivery),
      Calls before (entries.foldl (reconcileEntry known) before) := by
    intro entries
    induction entries with
    | nil => exact Calls.refl
    | cons entry rest ih =>
      exact fun before => (reconcileEntry_calls before entry known).trans
        (ih _)
  exact folded s.outbox.entries s

theorem apply_counted (counted : s.Counted) (event : DeliveryEvent) :
    (s.apply event).Counted := by
  cases event with
  | wait ms => exact counted
  | submit entry handles => exact submit_counted counted entry handles
  | outcome index outcome => exact (endPost_calls index outcome).counted counted
  | retry index => exact (retry_calls index).counted counted
  | resolveRefused sendId => exact (resolveRefused_calls s sendId).counted counted
  | reconcile known => exact (reconcile_calls known).counted counted

structure Quiet (s : Delivery) (sendId : String) : Prop where
  entry : s.outbox.find sendId = none
  inFlight : sendId ∉ s.inFlight
  queued : s.queued.get sendId = none
  timers : ∀ timer ∈ s.timers, timer.sendId ≠ sendId

/-- The hooks of every submit were called at most once, and exactly once by the time
nothing is left to do for its send id. -/
def SettlesOnce (s : Delivery) : Prop :=
  ∀ hooks sendId, s.submitted[hooks]? = some sendId →
    s.calls hooks ≤ 1 ∧ (s.Quiet sendId → s.calls hooks = 1)

theorem Accounted.settlesOnce (accounted : s.Accounted) : s.SettlesOnce := by
  intro hooks sendId submitted
  have counted := accounted.counted hooks
  refine ⟨by rw [counted]; split_ifs <;> omega, fun quiet => ?_⟩
  have settled : hooks ∈ s.settledHooks := by
    rcases accounted.held hooks sendId submitted with settled | ⟨held, isHeld, _⟩ | ⟨next, isNext, _⟩
    · exact settled
    · have kept := (accounted.sound sendId).hooked (by rw [isHeld]; rfl)
      rw [show (s.line sendId).entry = none from quiet.entry] at kept
      cases kept
    · rw [show (s.line sendId).queued = none from quiet.queued] at isNext
      cases isNext
  rw [counted, if_pos settled]

end Delivery

/-- **Hooks settle once.** In a run in which no `submit` takes the place of hooks that
wait for a retry, the hooks of every submit are called at most once, and exactly once
by the time nothing is left to do for its send id. -/
theorem hooks_settle_once {clock : Int} {outbox : Outbox} {events : List DeliveryEvent}
    {s : Delivery}
    (run : Run (Restrict (ofFunction Delivery.apply) Delivery.TakesNoPlace)
      (Delivery.start clock outbox) events s) : s.SettlesOnce :=
  (run.invariant (Delivery.start_accounted clock outbox) fun _ _ _ accounted taken =>
    taken.1 ▸ Delivery.apply_accounted accounted taken.2).settlesOnce

/-- A send that is pressed again while its POST is out: the first hooks fail at once,
the second are queued and receive. -/
def pressedDuringPost : List DeliveryEvent :=
  [.submit ⟨"s1", "hello", 0, 0⟩ true, .submit ⟨"s1", "hello", 10, 0⟩ true,
    .outcome 0 (.failed attemptTimedOut), .outcome 0 (.answered "ok")]

theorem hooks_settle_once_pressedDuringPost :
    (pressedDuringPost.foldl Delivery.apply (Delivery.start 0 Outbox.empty)).SettlesOnce := by
  have along : Along Delivery.apply Delivery.TakesNoPlace (Delivery.start 0 Outbox.empty)
      pressedDuringPost :=
    ⟨Or.inr (Or.inl rfl), Or.inl (by decide), trivial, trivial, trivial⟩
  exact hooks_settle_once (Run.foldl_along along)

/-- A send that is pressed again while its first hooks wait for a retry. -/
def pressedBetweenRetries : List DeliveryEvent :=
  [.submit ⟨"s1", "hello", 0, 0⟩ true, .outcome 0 (.failed { message := "fetch failed" }),
    .submit ⟨"s1", "hello", 10, 0⟩ true, .outcome 0 (.answered "ok"), .wait 5000, .retry 0]

/-- Nothing is left to do for the send, and its first hooks were never called. -/
theorem second_press_loses_hooks :
    ¬∀ (clock : Int) (outbox : Outbox) (events : List DeliveryEvent) (s : Delivery),
      Run (ofFunction Delivery.apply) (Delivery.start clock outbox) events s →
        s.SettlesOnce := by
  intro claimed
  let final := pressedBetweenRetries.foldl Delivery.apply (Delivery.start 0 Outbox.empty)
  have once : final.SettlesOnce := claimed _ _ _ _ (Run.foldl Delivery.apply _ _)
  have quiet : final.Quiet "s1" := ⟨by decide, by decide, by decide, by decide⟩
  have never : final.calls 0 = 0 := by decide
  have called : final.calls 0 = 1 := (once 0 "s1" (by decide)).2 quiet
  rw [never] at called
  cases called

end Murage.SendDelivery
