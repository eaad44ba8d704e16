import Mathlib.Logic.Function.Basic
import Murage.SendDelivery.Model

/-!
Owns the delivery of one send: what the tables hold for one send id, and what a
handler does to that. `Delivery` is as many of these as there are send ids: a
handler about one id moves the line of that id and no other.

Does not own: what holds of a line in a run.
-/

namespace Murage.SendDelivery

open Murage.Library

/-- What the tables hold for one send id. -/
@[ext] structure Line where
  entry : Option OutboxEntry
  inFlight : Bool
  hooks : Option DeliveryHooks
  refused : Bool
  superseded : Bool
  queued : Option (OutboxEntry × DeliveryHooks)
  posting : Option OutboxEntry
  sending : Option OutboxEntry
  attempts : List OutboxEntry

namespace Line

variable (clock : Int) (l : Line)

/-- Nothing is kept or shown for this send any more, and nobody waits for it. -/
def closed : Line := { l with entry := none, hooks := none, sending := none }

def refuse : Line :=
  if l.inFlight then { l with refused := true } else { l.closed with refused := true }

def attempt : Line :=
  if l.inFlight then l
  else match l.entry with
    | none => { l with sending := none }
    | some entry =>
      if OUTBOX_GIVE_UP_MS < clock - entry.sentAt then l.closed
      else { l with
        inFlight := true, posting := some entry, attempts := l.attempts ++ [entry] }

def begin (full : Prop) [Decidable full] (entry : OutboxEntry) (hooks : DeliveryHooks) : Line :=
  if full then { l with refused := false }
  else { l with
    refused := false, entry := some entry, hooks := some hooks, sending := some entry }.attempt clock

def succeed : Line :=
  if l.superseded then (if l.refused then l else { l with queued := none }) else l.closed

def fault (entry : OutboxEntry) (error : SendError) : Line :=
  if l.superseded then l
  else if l.refused then { l.closed with inFlight := false }
  else if isDefinitiveFailure error ∨ OUTBOX_GIVE_UP_MS < clock - entry.sentAt then l.closed
  else { l with entry := l.entry.map (Outbox.bumped entry.sendId) }

def ended : Line := { l with inFlight := false, posting := none, superseded := false, queued := none }

def supersede (entry : OutboxEntry) (hooks : DeliveryHooks) : Line :=
  { l.closed with superseded := true, queued := some (entry, hooks) }

def reconcile (known : Prop) [Decidable known] (entry : OutboxEntry) : Line :=
  if l.inFlight then l
  else if known then l.closed
  else { l with sending := some entry }.attempt clock

variable {clock l} {entry : OutboxEntry}

theorem attempt_gone (idle : ¬l.inFlight = true) (gone : l.entry = none) :
    l.attempt clock = { l with sending := none } := by
  simp [attempt, idle, gone]

theorem attempt_late (idle : ¬l.inFlight = true) (kept : l.entry = some entry)
    (late : OUTBOX_GIVE_UP_MS < clock - entry.sentAt) : l.attempt clock = l.closed := by
  simp [attempt, idle, kept, late]

theorem attempt_posts (idle : ¬l.inFlight = true) (kept : l.entry = some entry)
    (early : ¬OUTBOX_GIVE_UP_MS < clock - entry.sentAt) :
    l.attempt clock = { l with
      inFlight := true, posting := some entry, attempts := l.attempts ++ [entry] } := by
  simp [attempt, idle, kept, early]

variable (l) in
/-- What a handler may rely on in a line, also when it runs within another one. -/
structure Consistent (sendId : String) : Prop where
  kept : ∀ entry, l.entry = some entry → entry.sendId = sendId
  hooked : l.hooks.isSome → l.entry.isSome
  shown : ∀ entry, l.sending = some entry → entry.sendId = sendId ∧ l.entry.isSome
  posted : ∀ entry, l.posting = some entry → entry.sendId = sendId
  waiting : ∀ next, l.queued = some next → next.1.sendId = sendId ∧ l.superseded = true
  replaced : l.superseded = true → l.hooks = none

end Line

namespace Delivery

def line (s : Delivery) (sendId : String) : Line where
  entry := s.outbox.find sendId
  inFlight := sendId ∈ s.inFlight
  hooks := s.hooksFor.get sendId
  refused := sendId ∈ s.refusedByServer
  superseded := sendId ∈ s.superseded
  queued := s.queued.get sendId
  posting := s.posting.get sendId
  sending := s.sending.get sendId
  attempts := s.attempts.filter (·.sendId = sendId)

/-- The line of `sendId` went through `update`, and no other line changed. -/
def Moves (sendId : String) (update : Line → Line) (s s' : Delivery) : Prop :=
  s'.line = Function.update s.line sendId (update (s.line sendId))

namespace Moves

variable {s s' s'' : Delivery} {sendId : String} {update update' : Line → Line}

theorem intro (here : s'.line sendId = update (s.line sendId))
    (elsewhere : ∀ id, id ≠ sendId → s'.line id = s.line id) : Moves sendId update s s' := by
  funext id
  by_cases same : id = sendId
  · rw [same, Function.update_self, here]
  · rw [Function.update_of_ne same, elsewhere id same]

theorem here (moved : Moves sendId update s s') : s'.line sendId = update (s.line sendId) := by
  rw [moved, Function.update_self]

theorem elsewhere (moved : Moves sendId update s s') {id : String} (other : id ≠ sendId) :
    s'.line id = s.line id := by
  rw [moved, Function.update_of_ne other]

theorem trans (first : Moves sendId update s s') (second : Moves sendId update' s' s'') :
    Moves sendId (fun l => update' (update l)) s s'' := by
  unfold Moves
  rw [second, first.here, first, Function.update_idem]

theorem lineless (moved : Moves sendId update s s') (same : s''.line = s'.line) :
    Moves sendId update s s'' :=
  same.trans moved

theorem of_eq (moved : Moves sendId update s s')
    (same : update (s.line sendId) = update' (s.line sendId)) : Moves sendId update' s s' := by
  unfold Moves
  rw [← same]
  exact moved

theorem of_line_eq (same : s'.line = s.line) (still : update (s.line sendId) = s.line sendId) :
    Moves sendId update s s' := by
  unfold Moves
  rw [still, Function.update_eq_self, same]

end Moves

variable (s : Delivery) (entry : OutboxEntry) (sendId : String)

/-! ## Updates of the tables -/

theorem line_note (effect : Effect) : (s.note effect).line = s.line := rfl

theorem line_onReceipt (hooks : Option DeliveryHooks) (receipt : Receipt) :
    (s.onReceipt hooks entry receipt).line = s.line := by
  unfold onReceipt
  cases hooks with
  | none => rfl
  | some hooks => dsimp only; split_ifs <;> rfl

theorem line_onFailed (hooks : Option DeliveryHooks) (error : SendError) :
    (s.onFailed hooks entry error).line = s.line := by
  unfold onFailed
  cases hooks with
  | none => rfl
  | some hooks => dsimp only; split_ifs <;> rfl

theorem line_fail (hooks : Option DeliveryHooks) (error : SendError) :
    (s.fail hooks entry error).line = s.line := by
  unfold fail
  split_ifs
  · exact line_onFailed s entry hooks error
  · exact line_onFailed s entry hooks error

theorem line_retryLater (error : SendError) : (s.retryLater entry error).line = s.line := rfl

theorem showSending_moves :
    Moves entry.sendId (fun l => { l with sending := some entry }) s (s.showSending entry) := by
  refine Moves.intro ?_ fun id other => ?_ <;>
    ext <;> first | rfl | simp_all [line, showSending, note, OrderedMap.get_set]

theorem settleSending_moves :
    Moves entry.sendId (fun l => { l with sending := none }) s (s.settleSending entry) := by
  refine Moves.intro ?_ fun id other => ?_ <;>
    ext <;> first | rfl | simp_all [line, settleSending, note, OrderedMap.get_erase]

theorem settleOutbox_moves :
    Moves entry.sendId (fun l => { l with entry := none }) s (s.settleOutbox entry) := by
  refine Moves.intro ?_ fun id other => ?_ <;>
    ext <;> first | rfl | simp_all [line, settleOutbox, Outbox.find_settle]

theorem addOutbox_moves :
    Moves entry.sendId (fun l => { l with entry := some entry }) s (s.addOutbox entry) := by
  refine Moves.intro ?_ fun id other => ?_ <;>
    ext <;> first | rfl | simp_all [line, addOutbox, Outbox.find_add]

theorem bumpOutbox_moves :
    Moves entry.sendId
      (fun l => { l with entry := l.entry.map (Outbox.bumped entry.sendId) }) s
      (s.bumpOutbox entry) := by
  refine Moves.intro ?_ fun id other => ?_
  · ext <;> first | rfl | simp_all [line, bumpOutbox, Outbox.find_bump]
  · have same : (s.outbox.find id).map (Outbox.bumped entry.sendId) = s.outbox.find id := by
      cases isFound : s.outbox.find id with
      | none => rfl
      | some found =>
        have differs : ¬found.sendId = entry.sendId := by
          rw [Outbox.find_sendId _ _ isFound]
          exact other
        simp [Outbox.bumped, differs]
    ext <;> first | rfl | simp_all [line, bumpOutbox, Outbox.find_bump]

theorem holdHooks_moves (hooks : DeliveryHooks) :
    Moves sendId (fun l => { l with hooks := some hooks }) s (s.holdHooks sendId hooks) := by
  refine Moves.intro ?_ fun id other => ?_ <;>
    ext <;> first | rfl | simp_all [line, holdHooks, OrderedMap.get_set]

theorem dropHooks_moves :
    Moves sendId (fun l => { l with hooks := none }) s (s.dropHooks sendId) := by
  refine Moves.intro ?_ fun id other => ?_ <;>
    ext <;> first | rfl | simp_all [line, dropHooks, OrderedMap.get_erase]

theorem addRefused_moves :
    Moves sendId (fun l => { l with refused := true }) s (s.addRefused sendId) := by
  refine Moves.intro ?_ fun id other => ?_ <;>
    ext <;> first | rfl | simp_all [line, addRefused]

theorem deleteRefused_moves :
    Moves sendId (fun l => { l with refused := false }) s (s.deleteRefused sendId) := by
  refine Moves.intro ?_ fun id other => ?_ <;>
    ext <;> first | rfl | simp_all [line, deleteRefused]

theorem addSuperseded_moves :
    Moves sendId (fun l => { l with superseded := true }) s (s.addSuperseded sendId) := by
  refine Moves.intro ?_ fun id other => ?_ <;>
    ext <;> first | rfl | simp_all [line, addSuperseded]

theorem deleteInFlight_moves :
    Moves sendId (fun l => { l with inFlight := false }) s (s.deleteInFlight sendId) := by
  refine Moves.intro ?_ fun id other => ?_ <;>
    ext <;> first | rfl | simp_all [line, deleteInFlight]

theorem setQueued_moves (next : OutboxEntry × DeliveryHooks) :
    Moves sendId (fun l => { l with queued := some next }) s (s.setQueued sendId next) := by
  refine Moves.intro ?_ fun id other => ?_ <;>
    ext <;> first | rfl | simp_all [line, setQueued, OrderedMap.get_set]

theorem deleteQueued_moves :
    Moves sendId (fun l => { l with queued := none }) s (s.deleteQueued sendId) := by
  refine Moves.intro ?_ fun id other => ?_ <;>
    ext <;> first | rfl | simp_all [line, deleteQueued, OrderedMap.get_erase]

theorem post_moves (named : entry.sendId = sendId) :
    Moves sendId
      (fun l => { l with
        inFlight := true, posting := some entry, attempts := l.attempts ++ [entry] })
      s (s.post sendId entry) := by
  refine Moves.intro ?_ fun id other => ?_
  · ext <;> first | rfl | simp_all [line, post, note]
  · have differs : ¬entry.sendId = id := fun same => other (same.symm.trans named)
    ext <;> first | rfl | simp_all [line, post, note, OrderedMap.get_set]

theorem deleteAttempt_moves :
    Moves sendId (fun l => { l with inFlight := false, posting := none, superseded := false }) s
      (s.deleteAttempt sendId) := by
  refine Moves.intro ?_ fun id other => ?_ <;>
    ext <;> first | rfl | simp_all [line, deleteAttempt, OrderedMap.get_erase]

/-! ## Handlers -/

theorem close_moves :
    Moves entry.sendId Line.closed s
      (((s.settleOutbox entry).settleSending entry).dropHooks entry.sendId) :=
  ((settleOutbox_moves s entry).trans (settleSending_moves _ entry)).trans
    (dropHooks_moves _ entry.sendId)

theorem finishFailed_moves (error : SendError) :
    Moves entry.sendId Line.closed s (s.finishFailed entry error) :=
  (close_moves s entry).lineless (line_fail _ entry _ error)

theorem inFlight_iff : (s.line sendId).inFlight = true ↔ sendId ∈ s.inFlight := decide_eq_true_iff

theorem superseded_iff : (s.line sendId).superseded = true ↔ sendId ∈ s.superseded :=
  decide_eq_true_iff

theorem refused_iff : (s.line sendId).refused = true ↔ sendId ∈ s.refusedByServer :=
  decide_eq_true_iff

theorem resolveRefused_moves (consistent : (s.line sendId).Consistent sendId) :
    Moves sendId Line.refuse s (s.resolveRefused sendId) := by
  have refused := addRefused_moves s sendId
  have dropped := refused.trans (dropHooks_moves _ sendId)
  unfold resolveRefused
  by_cases out : sendId ∈ s.inFlight
  · rw [if_pos out]
    exact refused.of_eq (if_pos ((inFlight_iff s sendId).mpr out)).symm
  · rw [if_neg out]
    have isIdle : ¬(s.line sendId).inFlight = true := (inFlight_iff s sendId).not.mpr out
    have isEntry : (s.line sendId).entry = s.outbox.find sendId := rfl
    cases isFound : s.outbox.find sendId with
    | none =>
      -- Without an entry nothing is shown, so there is nothing more to settle.
      have unshown : (s.line sendId).sending = none := by
        cases isShown : (s.line sendId).sending with
        | none => rfl
        | some shown =>
          have kept := (consistent.shown shown isShown).2
          rw [isEntry, isFound] at kept
          cases kept
      refine (dropped.lineless rfl).of_eq ?_
      unfold Line.refuse
      rw [if_neg isIdle]
      ext <;> simp [Line.closed, unshown, isEntry, isFound]
    | some entry =>
      obtain rfl : entry.sendId = sendId := Outbox.find_sendId _ _ isFound
      have settled := (dropped.trans (settleOutbox_moves _ entry)).trans
        (settleSending_moves _ entry)
      refine (settled.lineless (line_onFailed _ entry _ REFUSED)).of_eq ?_
      unfold Line.refuse
      rw [if_neg isIdle]
      rfl

theorem attempt_moves
    (named : ∀ shown, s.sending.get sendId = some shown → shown.sendId = sendId) :
    Moves sendId (Line.attempt s.clock) s (s.attempt sendId) := by
  unfold attempt
  by_cases out : sendId ∈ s.inFlight
  · rw [if_pos out]
    exact Moves.of_line_eq rfl (if_pos ((inFlight_iff s sendId).mpr out))
  · rw [if_neg out]
    have isIdle : ¬(s.line sendId).inFlight = true := (inFlight_iff s sendId).not.mpr out
    cases isFound : s.outbox.find sendId with
    | none =>
      have idle : (s.line sendId).attempt s.clock = { s.line sendId with sending := none } :=
        Line.attempt_gone isIdle isFound
      cases isShown : s.sending.get sendId with
      | none =>
        refine Moves.of_line_eq rfl (idle.trans ?_)
        ext <;> simp [line, isShown]
      | some shown =>
        obtain rfl : shown.sendId = sendId := named shown isShown
        exact (settleSending_moves s shown).of_eq idle.symm
    | some entry =>
      obtain rfl : entry.sendId = sendId := Outbox.find_sendId _ _ isFound
      dsimp only
      split_ifs with late
      · exact (finishFailed_moves s entry attemptTimedOut).of_eq
          (Line.attempt_late isIdle isFound late).symm
      · exact (post_moves s entry entry.sendId rfl).of_eq
          (Line.attempt_posts isIdle isFound late).symm

theorem showSending_named (shown : OutboxEntry)
    (isShown : (s.showSending entry).sending.get entry.sendId = some shown) :
    shown.sendId = entry.sendId := by
  have isEntry : entry = shown := by
    simpa [showSending, note] using isShown
  exact isEntry ▸ rfl

theorem showSending_attempt_moves :
    Moves entry.sendId (fun l => { l with sending := some entry }.attempt s.clock) s
      ((s.showSending entry).attempt entry.sendId) :=
  (showSending_moves s entry).trans (attempt_moves _ entry.sendId (showSending_named s entry))

theorem begin_moves (hooks : DeliveryHooks) :
    Moves entry.sendId (fun l => l.begin s.clock (s.outbox.full entry) entry hooks) s
      (s.begin entry hooks) := by
  have refused := deleteRefused_moves s entry.sendId
  unfold begin
  split_ifs with full
  · refine (refused.lineless (line_fail _ entry _ outboxFull)).of_eq ?_
    unfold Line.begin
    rw [if_pos full]
  · have held := (refused.trans (addOutbox_moves _ entry)).trans
      (holdHooks_moves _ entry.sendId hooks)
    refine (held.trans (showSending_attempt_moves _ entry)).of_eq ?_
    unfold Line.begin
    rw [if_neg full]
    rfl

theorem succeed_moves (body : String) :
    Moves entry.sendId Line.succeed s (s.succeed entry body) := by
  have superseding := superseded_iff s entry.sendId
  have refused := refused_iff s entry.sendId
  unfold succeed
  split_ifs with both replaced
  · refine Moves.of_line_eq rfl ?_
    unfold Line.succeed
    rw [if_pos (superseding.mpr both.1), if_pos (refused.mpr both.2)]
  · have unqueued : Moves entry.sendId Line.succeed s
        ((s.note (.receipt entry body)).deleteQueued entry.sendId) := by
      refine (deleteQueued_moves (s.note (.receipt entry body)) entry.sendId).of_eq ?_
      unfold Line.succeed
      rw [line_note, if_pos (superseding.mpr replaced), if_neg fun isRefused =>
        both ⟨replaced, refused.mp isRefused⟩]
    cases s.queued.get entry.sendId with
    | none => exact unqueued
    | some waiting => exact unqueued.lineless (line_onReceipt _ _ _ _)
  · have closed := (((settleOutbox_moves s entry).trans (settleSending_moves _ entry)).lineless
      (line_note _ (.receipt entry body))).trans (dropHooks_moves _ entry.sendId)
    refine (closed.lineless (line_onReceipt _ _ _ _)).of_eq ?_
    unfold Line.succeed
    rw [if_neg (superseding.not.mpr replaced)]
    rfl

theorem fault_moves (error : SendError) (consistent : (s.line entry.sendId).Consistent entry.sendId) :
    Moves entry.sendId (fun l => l.fault s.clock entry error) s (s.fault entry error) := by
  have superseding := superseded_iff s entry.sendId
  have refused := refused_iff s entry.sendId
  unfold fault
  split_ifs with replaced isRefused final
  · refine Moves.of_line_eq rfl ?_
    unfold Line.fault
    rw [if_pos (superseding.mpr replaced)]
  · have landed := deleteInFlight_moves s entry.sendId
    have still : ((s.deleteInFlight entry.sendId).line entry.sendId).Consistent entry.sendId := by
      rw [landed.here]
      exact ⟨consistent.kept, consistent.hooked, consistent.shown, consistent.posted, consistent.waiting,
        consistent.replaced⟩
    refine (landed.trans (resolveRefused_moves _ entry.sendId still)).of_eq ?_
    unfold Line.fault Line.refuse
    rw [if_neg (superseding.not.mpr replaced), if_pos (refused.mpr isRefused)]
    ext <;> simp [Line.closed, refused.mpr isRefused]
  · refine (finishFailed_moves s entry error).of_eq ?_
    unfold Line.fault
    rw [if_neg (superseding.not.mpr replaced), if_neg (refused.not.mpr isRefused), if_pos final]
  · refine ((bumpOutbox_moves s entry).lineless (line_retryLater _ _ error)).of_eq ?_
    unfold Line.fault
    rw [if_neg (superseding.not.mpr replaced), if_neg (refused.not.mpr isRefused), if_neg final]

theorem finishAttempt_moves (none : s.queued.get sendId = none) :
    Moves sendId Line.ended s (s.finishAttempt sendId) := by
  unfold finishAttempt
  rw [none]
  refine (deleteAttempt_moves s sendId).of_eq ?_
  have unqueued : (s.line sendId).queued = Option.none := none
  ext <;> simp [Line.ended, unqueued]

theorem finishAttempt_begin_moves {next : OutboxEntry × DeliveryHooks}
    (isNext : s.queued.get sendId = some next) (named : next.1.sendId = sendId) :
    Moves sendId (fun l => l.ended.begin s.clock (s.outbox.full next.1) next.1 next.2) s
      (s.finishAttempt sendId) := by
  subst named
  unfold finishAttempt
  rw [isNext]
  exact ((deleteAttempt_moves s next.1.sendId).trans (deleteQueued_moves _ next.1.sendId)).trans
    (begin_moves _ next.1 next.2)

theorem line_refuseEarlier : (s.refuseEarlier sendId).line = s.line := by
  unfold refuseEarlier
  cases s.queued.get sendId with
  | none => rfl
  | some earlier => exact line_onFailed s earlier.1 (some earlier.2) REFUSED

theorem refuseOriginal_moves {original : OutboxEntry}
    (isOriginal : s.posting.get sendId = some original) (named : original.sendId = sendId) :
    Moves sendId (fun l => { l.closed with superseded := true }) s (s.refuseOriginal sendId) := by
  subst named
  unfold refuseOriginal
  rw [isOriginal]
  exact ((((dropHooks_moves s original.sendId).trans
    (addSuperseded_moves _ original.sendId)).trans (settleOutbox_moves _ original)).trans
      (settleSending_moves _ original)).lineless (line_onFailed _ original _ REFUSED)

theorem supersede_moves (hooks : DeliveryHooks) {original : OutboxEntry}
    (isOriginal : s.posting.get entry.sendId = some original)
    (named : original.sendId = entry.sendId) :
    Moves entry.sendId (fun l => l.supersede entry hooks) s (s.supersede entry hooks) :=
  ((refuseOriginal_moves s entry.sendId isOriginal named).lineless
    (line_refuseEarlier _ entry.sendId)).trans (setQueued_moves _ entry.sendId (entry, hooks))

theorem reconcileEntry_moves (known : Known) :
    Moves entry.sendId
      (fun l => l.reconcile s.clock
        (entry.sendId ∈ known.messageSendIds ∨ entry.sendId ∈ known.pendingSendIds) entry)
      s (reconcileEntry known s entry) := by
  have out := inFlight_iff s entry.sendId
  unfold reconcileEntry
  split_ifs with isOut isKnown
  · refine Moves.of_line_eq rfl ?_
    unfold Line.reconcile
    rw [if_pos (out.mpr isOut)]
  · refine ((close_moves s entry).lineless (line_onReceipt _ _ _ _)).of_eq ?_
    unfold Line.reconcile
    rw [if_neg (out.not.mpr isOut), if_pos isKnown]
  · refine (showSending_attempt_moves s entry).of_eq ?_
    unfold Line.reconcile
    rw [if_neg (out.not.mpr isOut), if_neg isKnown]

theorem filter_eraseIdx {keep : OutboxEntry → Bool} {attempts : List OutboxEntry}
    {index : Nat} {ended : OutboxEntry} (isIn : attempts[index]? = some ended)
    (skipped : keep ended = false) :
    (attempts.eraseIdx index).filter keep = attempts.filter keep := by
  induction attempts generalizing index with
  | nil => rfl
  | cons first rest ih =>
    cases index with
    | zero =>
      obtain rfl : first = ended := Option.some.inj isIn
      simp [skipped]
    | succ later =>
      rw [List.eraseIdx_cons_succ, List.filter_cons, List.filter_cons,
        ih isIn]

theorem eraseAttempt_moves {index : Nat} (isIn : s.attempts[index]? = some entry) :
    Moves entry.sendId (fun l => { l with
      attempts := (s.attempts.eraseIdx index).filter (·.sendId = entry.sendId) }) s
      { s with attempts := s.attempts.eraseIdx index } := by
  refine Moves.intro rfl fun id other => ?_
  ext <;> first | rfl | skip
  simp only [line]
  rw [filter_eraseIdx isIn (decide_eq_false (Ne.symm other))]

theorem eraseAttempt_none {index : Nat} (isIn : s.attempts[index]? = some entry)
    (single : (s.line entry.sendId).attempts.length = 1) :
    (s.attempts.eraseIdx index).filter (·.sendId = entry.sendId) = [] := by
  obtain ⟨bound, isEntry⟩ := List.getElem?_eq_some_iff.mp isIn
  have whole := ((List.getElem_cons_eraseIdx_perm bound).filter (·.sendId = entry.sendId)).length_eq
  rw [isEntry] at whole
  have counted : (s.attempts.filter (·.sendId = entry.sendId)).length = 1 := single
  rw [counted] at whole
  simpa using whole

end Delivery

end Murage.SendDelivery
