import Murage.FluxLedger.Effects
import Murage.Library.Transition

/-!
Owns the fenced completion of dispatches: any interleaving of refreshes, claims,
completions, operator claims and receipts on one grant, with the payment, the
outbox and the grant's fence changing under them. Every batch is one event with
arbitrary arguments, so the reads a call makes before its batch may be stale.

Does not own: the router.
-/

namespace Murage.FluxLedger

open Murage.Library.Batch
open Murage.Library.Transition
open Murage.GrantFence (FenceDb)

inductive LedgerEvent where
  | wait (ms : Nat)
  | pay (payments : Payments)
  | outbox (change : Grant → Grant)
  /-- Another owner moves the fence of a Flux grant id. -/
  | fence (wire : String) (change : FenceDb → FenceDb)
  | refresh (now : Nat)
  | sync (now : Nat)
  | claim (request : DispatchRequest)
  | record (token wire : String) (revision : Nat)
  | completeDelivery (answer : DeliveryAnswer)
  | completeRevoke (answer : RevokeAnswer)
  | operatorClaim (request : OperatorRequest) (wire : Option String)
  | operatorAllocate (token wire : String) (epoch : Nat)
  | operatorRecord (token wire : String) (revision : Nat)
  | operatorGiveUp (token wire : String)
  | receipt (receipt : OperatorReceipt)

/-- The token of a completion. -/
def LedgerEvent.completes : LedgerEvent → Option String
  | .completeDelivery a => some a.token
  | .completeRevoke a => some a.token
  | .receipt a => some a.token
  | _ => none

def LedgerEvent.claims : LedgerEvent → Bool
  | .claim _ | .operatorClaim _ _ => true
  | _ => false

structure LedgerSystem where
  clock : Nat
  db : LedgerDb
  /-- The tokens whose completion moved the applied amount, oldest first. Nothing
  reads it. -/
  moved : List String := []

/-- The applied amount of an account that was there changed. -/
def appliedMoved (before after : LedgerDb) : Bool :=
  before.account.isSome &&
    before.account.map (·.appliedMicrocents) != after.account.map (·.appliedMicrocents)

def LedgerEvent.run (clock : Nat) (db : LedgerDb) : LedgerEvent → LedgerDb
  | .wait _ => db
  | .pay payments => { db with payments := payments }
  | .outbox change => { db with grant := db.grant.map change }
  | .fence wire change => { db with fences := Function.update db.fences wire (change (db.fences wire)) }
  | .refresh now => FluxLedger.refresh now db
  | .sync now => syncAlerts now db
  | .claim r => (claimDispatch clock r db).1
  | .record token wire revision => recordRemoteRevision clock token wire revision db
  | .completeDelivery a => (FluxLedger.completeDelivery clock a db).1
  | .completeRevoke a => (FluxLedger.completeRevoke clock a db).1
  | .operatorClaim r wire => claimForOperator clock r wire db
  | .operatorAllocate token wire epoch => (allocateForOperator clock token wire epoch db).1
  | .operatorRecord token wire revision => recordWireRevision token wire revision db
  | .operatorGiveUp token wire => giveUpClaim clock token wire db
  | .receipt a => applyReceipt clock a db

def LedgerSystem.apply (s : LedgerSystem) (event : LedgerEvent) : LedgerSystem :=
  { clock := match event with
      | .wait ms => s.clock + ms
      | _ => s.clock
    db := event.run s.clock s.db
    moved :=
      if appliedMoved s.db (event.run s.clock s.db) then s.moved ++ event.completes.toList
      else s.moved }

/-- A run on a grant that has no dispatch yet. -/
def LedgerRun (start : LedgerSystem) (events : List LedgerEvent) (s : LedgerSystem) : Prop :=
  start.db.dispatches = [] ∧ start.moved = [] ∧ Run (ofFunction LedgerSystem.apply) start events s

/-! ## What every statement keeps -/

/-- The dispatches of a grant, in every state. -/
structure Sound (db : LedgerDb) : Prop where
  tokens : (db.dispatches.map (·.dispatchId)).Nodup
  single : (db.dispatches.filter (·.state == .opened)).length ≤ 1
  receipts : ∀ d ∈ db.dispatches, d.receiptAt.isSome → d.kind = .operator

/-- The dispatch of `token` is there and is not open. -/
def LedgerDb.spent (db : LedgerDb) (token : String) : Prop :=
  (∃ d ∈ db.dispatches, d.dispatchId = token) ∧
    ∀ d ∈ db.dispatches, d.dispatchId = token → d.state ≠ .opened

/-- What every statement keeps: no dispatch reopens, no account goes. -/
structure Keeps (before after : LedgerDb) : Prop where
  sound : Sound before → Sound after
  known : ∀ d ∈ before.dispatches, ∃ d' ∈ after.dispatches, d'.dispatchId = d.dispatchId
  spent : ∀ token, before.spent token → after.spent token
  account : before.account.isSome → after.account.isSome

/-- The account's applied amount is as it was. -/
def SameApplied (before after : LedgerDb) : Prop :=
  ∀ account, before.account = some account →
    ∃ account', after.account = some account' ∧
      account'.appliedMicrocents = account.appliedMicrocents

namespace Keeps

variable {db after final : LedgerDb}

theorem refl (db : LedgerDb) : Keeps db db :=
  ⟨id, fun d isIn => ⟨d, isIn, rfl⟩, fun _ => id, id⟩

theorem trans (first : Keeps db after) (second : Keeps after final) : Keeps db final := by
  refine ⟨second.sound ∘ first.sound, fun d isIn => ?_,
    fun token => second.spent token ∘ first.spent token, second.account ∘ first.account⟩
  obtain ⟨d', member', same⟩ := first.known d isIn
  obtain ⟨d'', member'', same'⟩ := second.known d' member'
  exact ⟨d'', member'', same'.trans same⟩

theorem of_dispatches (same : after.dispatches = db.dispatches)
    (account : db.account.isSome → after.account.isSome) : Keeps db after where
  sound sound := ⟨same ▸ sound.tokens, same ▸ sound.single, same ▸ sound.receipts⟩
  known d isIn := ⟨d, same ▸ isIn, rfl⟩
  spent token spent := by
    unfold LedgerDb.spent
    exact same ▸ spent
  account := account

end Keeps

theorem SameApplied.refl (db : LedgerDb) : SameApplied db db :=
  fun account isAccount => ⟨account, isAccount, rfl⟩

theorem SameApplied.trans {db after final : LedgerDb} (first : SameApplied db after)
    (second : SameApplied after final) : SameApplied db final := by
  intro account isAccount
  obtain ⟨account', isAccount', same⟩ := first account isAccount
  obtain ⟨account'', isAccount'', same'⟩ := second account' isAccount'
  exact ⟨account'', isAccount'', same'.trans same⟩

section Statements

variable {changes : Nat} {db : LedgerDb} {outcome : Outcome LedgerDb Unit}

variable {matching : LedgerDb → Account → Bool}

theorem updateAccount_keeps {set : LedgerDb → Account → Account}
    (done : updateAccount matching set changes db = .ok outcome) : Keeps db outcome.db := by
  rcases updateAccount_cases done with ⟨same, _⟩ | ⟨account, _, _, _, after⟩
  · exact same ▸ Keeps.refl db
  · rw [after]
    exact Keeps.of_dispatches rfl fun _ => rfl

theorem updateAccount_sameApplied {set : LedgerDb → Account → Account}
    (kept : ∀ tables account, (set tables account).appliedMicrocents = account.appliedMicrocents)
    (done : updateAccount matching set changes db = .ok outcome) : SameApplied db outcome.db := by
  rcases updateAccount_cases done with ⟨same, _⟩ | ⟨account, isAccount, _, _, after⟩
  · exact same ▸ SameApplied.refl db
  · intro found isFound
    obtain rfl : account = found := Option.some.inj (isAccount.symm.trans isFound)
    rw [after]
    exact ⟨_, rfl, kept db account⟩

theorem updateGrant_keeps {matching : LedgerDb → Bool} {set : Grant → Grant}
    (done : updateGrant matching set changes db = .ok outcome) :
    Keeps db outcome.db ∧ SameApplied db outcome.db := by
  obtain ⟨grant, after⟩ := updateGrant_cases done
  rw [after]
  exact ⟨Keeps.of_dispatches rfl id, SameApplied.refl db⟩

/-- An update that renames no dispatch and opens none. -/
def Closing (set : Dispatch → Dispatch) : Prop :=
  ∀ d : Dispatch, (set d).dispatchId = d.dispatchId ∧ ((set d).state = .opened → d.state = .opened)

theorem updated_closing {matching : Dispatch → Bool} {set : Dispatch → Dispatch}
    (closing : Closing set) : Closing (Dispatch.updated matching set) := by
  intro d
  unfold Dispatch.updated
  split_ifs
  · exact closing d
  · exact ⟨rfl, id⟩

theorem updateDispatches_keeps {matching : LedgerDb → Dispatch → Bool} {set : Dispatch → Dispatch}
    (closing : Closing set) (done : updateDispatches matching set changes db = .ok outcome) :
    Keeps db outcome.db ∧ SameApplied db outcome.db := by
  obtain ⟨after, checked⟩ := updateDispatches_eq done
  have moved : Closing (Dispatch.updated (matching db) set) := updated_closing closing
  generalize Dispatch.updated (matching db) set = update at after moved
  have dispatches : outcome.db.dispatches = db.dispatches.map update := by rw [after]
  refine ⟨⟨fun sound => ⟨?_, ?_, fun d isIn isReceipt => ?_⟩, fun d isIn => ?_,
    fun token spent => ?_, ?_⟩, ?_⟩
  · rw [dispatches, List.map_map]
    have same : db.dispatches.map ((·.dispatchId) ∘ update) = db.dispatches.map (·.dispatchId) :=
      List.map_congr_left fun d _ => (moved d).1
    rw [same]
    exact sound.tokens
  · refine Nat.le_trans ?_ sound.single
    rw [dispatches, ← List.countP_eq_length_filter, ← List.countP_eq_length_filter, List.countP_map]
    exact List.countP_mono_left fun d _ isOpen => by simpa using (moved d).2 (by simpa using isOpen)
  · have isChecked := checked d isIn
    simp only [Dispatch.check, Bool.and_eq_true, Bool.or_eq_true, beq_iff_eq] at isChecked
    rcases isChecked.2 with none | ⟨⟨⟨isOperator, _⟩, _⟩, _⟩
    · rw [Option.isNone_iff_eq_none.mp none] at isReceipt
      exact Bool.noConfusion isReceipt
    · exact isOperator
  · exact ⟨update d, dispatches ▸ List.mem_map_of_mem isIn, (moved d).1⟩
  · obtain ⟨⟨d, isIn, isToken⟩, closed⟩ := spent
    refine ⟨⟨update d, dispatches ▸ List.mem_map_of_mem isIn, (moved d).1.trans isToken⟩, ?_⟩
    rw [dispatches]
    intro d' member' isToken' isOpen
    obtain ⟨old, oldMember, rfl⟩ := List.mem_map.mp member'
    exact closed old oldMember ((moved old).1.symm.trans isToken') ((moved old).2 isOpen)
  · rw [after]
    exact id
  · rw [after]
    exact SameApplied.refl db

theorem insertDispatch_keeps {row : LedgerDb → Option Dispatch}
    (plain : ∀ dispatch, row db = some dispatch → dispatch.receiptAt = none)
    (done : insertDispatch row changes db = .ok outcome) :
    Keeps db outcome.db ∧ SameApplied db outcome.db := by
  rcases insertDispatch_cases done with same | ⟨dispatch, isRow, free, fresh, after⟩
  · rw [same]
    exact ⟨Keeps.refl db, SameApplied.refl db⟩
  rw [after]
  refine ⟨⟨fun sound => ⟨?_, ?_, fun d isIn isReceipt => ?_⟩, fun d isIn => ?_,
    fun token spent => ?_, id⟩, SameApplied.refl db⟩
  · rw [List.map_append, List.nodup_append]
    refine ⟨sound.tokens, by simp, fun token isIn last lastMember => ?_⟩
    obtain ⟨d, dMember, rfl⟩ := List.mem_map.mp isIn
    rw [List.mem_singleton.mp lastMember]
    exact fresh d dMember
  · have none : db.dispatches.filter (·.state == .opened) = [] :=
      List.filter_eq_nil_iff.mpr fun d isIn => by
        simpa using (List.any_eq_false.mp free) d isIn
    rw [List.filter_append, none, List.nil_append]
    exact List.length_filter_le _ [dispatch]
  · rcases List.mem_append.mp isIn with before | last
    · exact sound.receipts d before isReceipt
    · rw [List.mem_singleton.mp last, plain dispatch isRow] at isReceipt
      exact Bool.noConfusion isReceipt
  · exact ⟨d, List.mem_append_left _ isIn, rfl⟩
  · obtain ⟨⟨d, isIn, isToken⟩, closed⟩ := spent
    refine ⟨⟨d, List.mem_append_left _ isIn, isToken⟩, fun d' member' isToken' => ?_⟩
    rcases List.mem_append.mp member' with before | last
    · exact closed d' before isToken'
    · rw [List.mem_singleton.mp last] at isToken'
      exact absurd (isToken.trans isToken'.symm) (fresh d isIn)

theorem requireGuard_keeps {holds : LedgerDb → Bool}
    (done : requireGuard holds changes db = .ok outcome) :
    Keeps db outcome.db ∧ SameApplied db outcome.db := by
  unfold requireGuard at done
  split_ifs at done
  obtain rfl := Except.ok.inj done
  exact ⟨Keeps.refl db, SameApplied.refl db⟩

theorem updateFence_keeps {id : String} {set : LedgerDb → FenceDb → FenceDb}
    (done : updateFence id set changes db = .ok outcome) :
    Keeps db outcome.db ∧ SameApplied db outcome.db := by
  obtain rfl := Except.ok.inj done
  exact ⟨Keeps.of_dispatches rfl fun isSome => isSome, SameApplied.refl db⟩

theorem ensureAccount_keeps {now : Nat} (done : ensureAccount now changes db = .ok outcome) :
    Keeps db outcome.db ∧ SameApplied db outcome.db := by
  cases isAccount : db.account with
  | some account =>
    rw [ensureAccount_of_some isAccount] at done
    obtain rfl := Except.ok.inj done
    exact ⟨Keeps.refl db, SameApplied.refl db⟩
  | none =>
    have same : outcome.db.dispatches = db.dispatches := by
      unfold ensureAccount at done
      rw [isAccount] at done
      split at done
      · split_ifs at done <;> obtain rfl := Except.ok.inj done <;> rfl
      · obtain rfl := Except.ok.inj done
        rfl
    refine ⟨Keeps.of_dispatches same fun isSome => ?_, fun account isSome => ?_⟩
    · rw [isAccount] at isSome
      exact Bool.noConfusion isSome
    · rw [isAccount] at isSome
      exact absurd isSome (by simp)

end Statements

/-! ## What every batch keeps -/

def Keeping (statement : LedgerStatement) : Prop :=
  ∀ changes db outcome, statement changes db = .ok outcome → Keeps db outcome.db

/-- A statement that moves no applied amount either. -/
def Benign (statement : LedgerStatement) : Prop :=
  ∀ changes db outcome, statement changes db = .ok outcome →
    Keeps db outcome.db ∧ SameApplied db outcome.db

theorem Benign.keeping {statement : LedgerStatement} (benign : Benign statement) :
    Keeping statement :=
  fun changes db outcome done => (benign changes db outcome done).1

theorem batch_keeps {statements : List LedgerStatement}
    (keeping : ∀ statement ∈ statements, Keeping statement) (db : LedgerDb) :
    Keeps db (batch statements db).1 :=
  batch_related Keeps.refl (fun _ _ _ => Keeps.trans) fun statement isIn changes before outcome =>
    keeping statement isIn changes before outcome

theorem batch_sameApplied {statements : List LedgerStatement}
    (benign : ∀ statement ∈ statements, Benign statement) (db : LedgerDb) :
    SameApplied db (batch statements db).1 :=
  batch_related SameApplied.refl (fun _ _ _ => SameApplied.trans)
    fun statement isIn changes before outcome done =>
      (benign statement isIn changes before outcome done).2

section Batches

theorem benign_account {set : LedgerDb → Account → Account}
    (kept : ∀ tables account, (set tables account).appliedMicrocents = account.appliedMicrocents) :
    Benign (updateAccount matching set) := fun _ _ _ done =>
  ⟨updateAccount_keeps done, updateAccount_sameApplied kept done⟩

theorem benign_dispatches {matching : LedgerDb → Dispatch → Bool} {set : Dispatch → Dispatch}
    (closing : Closing set) : Benign (updateDispatches matching set) :=
  fun _ _ _ done => updateDispatches_keeps closing done

theorem benign_stillOpen (clock : Nat) (token code : String) :
    Benign (stillOpen clock token code) :=
  benign_dispatches fun _ => ⟨rfl, id⟩

theorem benign_finish (clock : Nat) (token : String) {state : DispatchState} (outcome : String)
    (ends : state ≠ .opened) : Benign (finish clock token state outcome) :=
  benign_dispatches fun _ => ⟨rfl, fun isOpen => absurd (show state = .opened from isOpen) ends⟩

theorem benign_refresh (now : Nat) : ∀ statement ∈ refreshStatements now, Benign statement := by
  simp only [refreshStatements, List.mem_cons, List.not_mem_nil, or_false]
  rintro statement (rfl | rfl)
  · exact fun _ _ _ done => ensureAccount_keeps done
  · exact benign_account fun _ _ => rfl

theorem benign_sync (now : Nat) : ∀ statement ∈ syncAlertStatements now, Benign statement := by
  simp only [syncAlertStatements, List.mem_singleton]
  rintro statement rfl
  exact benign_account fun _ _ => rfl

theorem benign_claim (clock : Nat) (r : DispatchRequest) :
    ∀ statement ∈ claimStatements clock r, Benign statement := by
  simp only [claimStatements, List.mem_append, List.mem_cons, List.not_mem_nil, or_false]
  rintro statement (refresh | (rfl | rfl | rfl) | tried | updates)
  · exact benign_refresh r.now statement refresh
  · exact benign_dispatches fun _ => ⟨rfl, fun isOpen => DispatchState.noConfusion isOpen⟩
  · refine fun _ db _ done => insertDispatch_keeps (fun dispatch isRow => ?_) done
    obtain ⟨account, _, _, _, rfl⟩ := insertClaim_row isRow
    rfl
  · exact benign_account fun _ _ => rfl
  · split_ifs at tried
    · obtain rfl := List.mem_singleton.mp tried
      exact benign_account fun _ _ => rfl
    · simp at tried
  · obtain ⟨update, _, rfl⟩ := List.mem_map.mp updates
    exact fun _ _ _ done => updateGrant_keeps done

theorem benign_operatorClaim (clock : Nat) (r : OperatorRequest) (wire : Option String) :
    ∀ statement ∈ operatorClaimStatements clock r wire, Benign statement := by
  simp only [operatorClaimStatements, List.mem_append, List.mem_cons, List.not_mem_nil, or_false]
  rintro statement (refresh | (rfl | rfl) | fence)
  · exact benign_refresh r.now statement refresh
  · exact benign_dispatches fun _ => ⟨rfl, fun isOpen => DispatchState.noConfusion isOpen⟩
  · refine fun _ db _ done => insertDispatch_keeps (fun dispatch isRow => ?_) done
    obtain ⟨account, _, rfl⟩ := Option.map_eq_some_iff.mp isRow
    rfl
  · cases wire with
    | none => simp at fence
    | some wire =>
      simp only [operatorFence, List.mem_cons, List.not_mem_nil, or_false] at fence
      rcases fence with rfl | rfl | rfl
      · exact fun _ _ _ done => updateFence_keeps done
      · exact fun _ _ _ done => updateFence_keeps done
      · exact fun _ _ _ done => requireGuard_keeps done

theorem benign_finishDelivery (clock : Nat) (token : String) (result : DeliverResult) :
    Benign (finishDelivery clock token result) := by
  cases result with
  | ambiguous code => exact benign_stillOpen clock token code
  | _ => exact benign_finish clock token _ (by simp)

theorem keeping_delivery (clock : Nat) (a : DeliveryAnswer) :
    ∀ statement ∈ deliveryStatements clock a, Keeping statement := by
  simp only [deliveryStatements, List.mem_cons, List.mem_append, List.not_mem_nil, or_false]
  rintro statement (rfl | updates | rfl)
  · exact fun _ _ _ done => updateAccount_keeps done
  · obtain ⟨update, _, rfl⟩ := List.mem_map.mp updates
    exact fun _ _ _ done => (updateGrant_keeps done).1
  · exact (benign_finishDelivery clock a.token a.result).keeping

theorem keeping_revoke (clock : Nat) (a : RevokeAnswer) :
    ∀ statement ∈ revokeStatements clock a, Keeping statement := by
  unfold revokeStatements
  cases a.result <;> simp only [List.mem_cons, List.not_mem_nil, or_false]
  case applied outcome =>
    rintro statement (rfl | rfl | rfl)
    · exact fun _ _ _ done => updateAccount_keeps done
    · exact fun _ _ _ done => (updateGrant_keeps done).1
    · exact (benign_finish clock a.token _ (by simp)).keeping
  case ambiguous code =>
    rintro statement (rfl | rfl)
    · exact fun _ _ _ done => updateAccount_keeps done
    · exact (benign_stillOpen clock a.token code).keeping
  all_goals
    rintro statement (rfl | rfl)
    · exact fun _ _ _ done => updateAccount_keeps done
    · exact (benign_finish clock a.token _ (by simp)).keeping

theorem benign_settleClaim (clock : Nat) (a : OperatorReceipt) : Benign (settleClaim clock a) := by
  intro changes db outcome done
  unfold settleClaim at done
  refine updateDispatches_keeps ?_ done
  exact fun _ => ⟨rfl, fun isOpen => DispatchState.noConfusion isOpen⟩

theorem benign_settleWireRevision (clock : Nat) (token : String) :
    Benign (settleWireRevision clock token) := by
  intro changes db outcome done
  unfold settleWireRevision at done
  split at done
  · obtain rfl := Except.ok.inj done
    exact ⟨Keeps.refl db, SameApplied.refl db⟩
  · exact updateFence_keeps done

theorem benign_releaseOperatorFence (clock : Nat) (token : String) :
    Benign (releaseOperatorFence clock token) := by
  intro changes db outcome done
  unfold releaseOperatorFence at done
  split at done
  · obtain rfl := Except.ok.inj done
    exact ⟨Keeps.refl db, SameApplied.refl db⟩
  · exact updateFence_keeps done

theorem benign_sizing (a : OperatorReceipt) :
    ∀ statement ∈ sizingStatements a, Benign statement := by
  unfold sizingStatements
  cases a.sizing with
  | none => simp
  | some sizing =>
    simp only [List.mem_singleton]
    rintro statement rfl
    exact benign_account fun _ _ => rfl

theorem benign_keepReceipt (clock : Nat) (a : OperatorReceipt) : Benign (keepReceipt clock a) :=
  benign_dispatches fun _ => ⟨rfl, id⟩

theorem keeping_receipt (clock : Nat) (a : OperatorReceipt) :
    ∀ statement ∈ receiptStatements clock a, Keeping statement := by
  intro statement isIn
  simp only [receiptStatements, List.mem_append] at isIn
  rcases isIn with sizing | settling | sync
  · exact (benign_sizing a statement sizing).keeping
  · split_ifs at settling with verified
    · simp only [List.mem_cons, List.not_mem_nil, or_false] at settling
      rcases settling with rfl | rfl | rfl | rfl
      · exact fun _ _ _ done => updateAccount_keeps done
      · exact (benign_settleClaim clock a).keeping
      · exact (benign_settleWireRevision clock a.token).keeping
      · exact (benign_releaseOperatorFence clock a.token).keeping
    · obtain rfl := List.mem_singleton.mp settling
      exact (benign_keepReceipt clock a).keeping
  · exact (benign_sync a.now statement sync).keeping

theorem benign_record (clock : Nat) (token wire : String) (revision : Nat) :
    ∀ statement ∈ [updateDispatches
      (fun _ d => d.dispatchId == token && d.state == .opened && decide (clock < d.expiresAt))
      fun d => { d with wireGrantId := some wire, remoteRevision := some revision }],
      Benign statement := by
  intro statement isIn
  rw [List.mem_singleton.mp isIn]
  exact benign_dispatches fun _ => ⟨rfl, id⟩

theorem benign_recordWire (token wire : String) (revision : Nat) :
    ∀ statement ∈ [ownedDispatch token fun d =>
      { d with wireGrantId := some wire, remoteRevision := some revision }], Benign statement := by
  intro statement isIn
  rw [List.mem_singleton.mp isIn]
  exact benign_dispatches fun _ => ⟨rfl, id⟩

theorem benign_giveUp (clock : Nat) (token wire : String) (set : LedgerDb → FenceDb → FenceDb) :
    ∀ statement ∈ [ownedDispatch token (·.ended clock .superseded "grant_fence_lost"),
      updateFence wire set], Benign statement := by
  simp only [List.mem_cons, List.not_mem_nil, or_false]
  rintro statement (rfl | rfl)
  · exact benign_dispatches fun _ => ⟨rfl, fun isOpen => DispatchState.noConfusion isOpen⟩
  · exact fun _ _ _ done => updateFence_keeps done

end Batches

variable (clock : Nat)

/-- **No event reopens a dispatch or opens a second one.** -/
theorem run_keeps (db : LedgerDb) (event : LedgerEvent) :
    Keeps db (event.run clock db) := by
  cases event with
  | wait ms => exact Keeps.refl db
  | pay payments => exact Keeps.of_dispatches rfl id
  | outbox change => exact Keeps.of_dispatches rfl id
  | fence wire change => exact Keeps.of_dispatches rfl id
  | refresh now => exact batch_keeps (fun st isIn => (benign_refresh now st isIn).keeping) db
  | sync now => exact batch_keeps (fun st isIn => (benign_sync now st isIn).keeping) db
  | claim r => exact batch_keeps (fun st isIn => (benign_claim clock r st isIn).keeping) db
  | record token wire revision =>
    exact batch_keeps (fun st isIn => (benign_record _ _ _ _ st isIn).keeping) db
  | completeDelivery a => exact batch_keeps (keeping_delivery clock a) db
  | completeRevoke a => exact batch_keeps (keeping_revoke clock a) db
  | operatorClaim r wire =>
    exact batch_keeps (fun st isIn => (benign_operatorClaim clock r wire st isIn).keeping) db
  | operatorAllocate token wire epoch => exact Keeps.of_dispatches rfl id
  | operatorRecord token wire revision =>
    exact batch_keeps (fun st isIn => (benign_recordWire _ _ _ st isIn).keeping) db
  | operatorGiveUp token wire =>
    exact batch_keeps (fun st isIn => (benign_giveUp _ _ _ _ st isIn).keeping) db
  | receipt a => exact batch_keeps (keeping_receipt clock a) db

theorem run_sameApplied (db : LedgerDb) {event : LedgerEvent}
    (noCompletion : event.completes = none) : SameApplied db (event.run clock db) := by
  cases event with
  | wait ms => exact SameApplied.refl db
  | pay payments => exact SameApplied.refl db
  | outbox change => exact SameApplied.refl db
  | fence wire change => exact SameApplied.refl db
  | refresh now => exact batch_sameApplied (benign_refresh now) db
  | sync now => exact batch_sameApplied (benign_sync now) db
  | claim r => exact batch_sameApplied (benign_claim clock r) db
  | record token wire revision => exact batch_sameApplied (benign_record _ _ _ _) db
  | operatorClaim r wire => exact batch_sameApplied (benign_operatorClaim clock r wire) db
  | operatorAllocate token wire epoch => exact SameApplied.refl db
  | operatorRecord token wire revision => exact batch_sameApplied (benign_recordWire _ _ _) db
  | operatorGiveUp token wire => exact batch_sameApplied (benign_giveUp _ _ _ _) db
  | completeDelivery a => exact absurd noCompletion (by simp [LedgerEvent.completes])
  | completeRevoke a => exact absurd noCompletion (by simp [LedgerEvent.completes])
  | receipt a => exact absurd noCompletion (by simp [LedgerEvent.completes])

/-! ## Completions -/

/-- A completion moves the applied amount only when it takes the open dispatch of
its token out of its state. -/
def MovesOwn (db after : LedgerDb) (token : String) : Prop :=
  SameApplied db after ∨ (db.owns token = true ∧ after.owns token = false)

theorem not_owns_of_moved {db after : LedgerDb} {token : String} {state : DispatchState}
    (rows : after.rows = movedRows token state db.rows) (ends : state ≠ .opened) :
    after.owns token = false := by
  rw [Bool.eq_false_iff]
  intro owned
  obtain ⟨row, isIn, isToken, isOpen⟩ := (owns_iff after token).mp owned
  rw [rows] at isIn
  obtain ⟨old, _, rfl⟩ := List.mem_map.mp isIn
  split_ifs at isToken isOpen with moved
  · exact ends isOpen
  · exact moved ⟨isToken, isOpen⟩

theorem sameApplied_of_holding {db after : LedgerDb} (same : after.holding = db.holding) :
    SameApplied db after := by
  intro account isAccount
  rw [LedgerDb.holding, LedgerDb.holding, isAccount] at same
  obtain ⟨account', isAccount', sameHolding⟩ := Option.map_eq_some_iff.mp same
  exact ⟨account', isAccount', congrArg Holding.applied sameHolding⟩

theorem completeDelivery_movesOwn (a : DeliveryAnswer) (db : LedgerDb) :
    MovesOwn db (completeDelivery clock a db).1 a.token := by
  cases isAccount : db.account with
  | none => exact Or.inl fun account isSome => absurd (isAccount.symm.trans isSome) (by simp)
  | some account =>
    cases owned : db.owns a.token with
    | false =>
      rw [completeDelivery_of_unowned clock a owned]
      exact Or.inl (SameApplied.refl db)
    | true =>
      have present : db.account.isSome := by rw [isAccount]; rfl
      rcases completeDelivery_of_owned clock a present owned with same | ⟨rows, holding⟩
      · rw [same]
        exact Or.inl (SameApplied.refl db)
      · cases result : a.result with
        | ambiguous code =>
          rw [result] at holding
          exact Or.inl (sameApplied_of_holding (holding.trans Option.map_id'))
        | _ => exact Or.inr ⟨owned, not_owns_of_moved rows (by simp [result, DeliverResult.ends])⟩

theorem completeRevoke_movesOwn (a : RevokeAnswer) (db : LedgerDb) :
    MovesOwn db (completeRevoke clock a db).1 a.token := by
  cases isAccount : db.account with
  | none => exact Or.inl fun account isSome => absurd (isAccount.symm.trans isSome) (by simp)
  | some account =>
    cases owned : db.owns a.token with
    | false =>
      rw [completeRevoke_of_unowned clock a owned]
      exact Or.inl (SameApplied.refl db)
    | true =>
      have present : db.account.isSome := by rw [isAccount]; rfl
      rcases completeRevoke_of_owned clock a present owned with same | ⟨rows, holding⟩
      · rw [same]
        exact Or.inl (SameApplied.refl db)
      · cases result : a.result with
        | ambiguous code =>
          rw [result] at holding
          exact Or.inl (sameApplied_of_holding (holding.trans Option.map_id'))
        | _ => exact Or.inr ⟨owned, not_owns_of_moved rows (by simp [result, RevokeResult.ends])⟩

/-! ## Receipts -/

def LeavesDispatches (statement : LedgerStatement) : Prop :=
  ∀ changes db outcome, statement changes db = .ok outcome →
    outcome.db.dispatches = db.dispatches

theorem updateAccount_leavesDispatches (matching : LedgerDb → Account → Bool)
    (set : LedgerDb → Account → Account) : LeavesDispatches (updateAccount matching set) := by
  intro changes db outcome done
  rcases updateAccount_cases done with ⟨same, _⟩ | ⟨_, _, _, _, after⟩
  · rw [same]
  · rw [after]

theorem updateFence_leavesDispatches (id : String) (set : LedgerDb → FenceDb → FenceDb) :
    LeavesDispatches (updateFence id set) := by
  intro changes db outcome done
  obtain rfl := Except.ok.inj done
  rfl

theorem settleWireRevision_leavesDispatches (token : String) :
    LeavesDispatches (settleWireRevision clock token) := by
  intro changes db outcome done
  unfold settleWireRevision at done
  split at done
  · obtain rfl := Except.ok.inj done
    rfl
  · exact updateFence_leavesDispatches _ _ _ _ _ done

theorem releaseOperatorFence_leavesDispatches (token : String) :
    LeavesDispatches (releaseOperatorFence clock token) := by
  intro changes db outcome done
  unfold releaseOperatorFence at done
  split at done
  · obtain rfl := Except.ok.inj done
    rfl
  · exact updateFence_leavesDispatches _ _ _ _ _ done

/-- The claim that a verified receipt settles: its own, open, and fenced. -/
def Settles (clock : Nat) (a : OperatorReceipt) (db : LedgerDb) : Prop :=
  ∃ d ∈ db.dispatches, a.claims d = true ∧ fencedOperator clock db d = true

/-- What a receipt's sizing leaves: everything but the account's desired amount. -/
private structure Sized (db after : LedgerDb) : Prop where
  dispatches : after.dispatches = db.dispatches
  grant : after.grant = db.grant
  fences : after.fences = db.fences
  applied : SameApplied db after

variable (a : OperatorReceipt)

theorem sized_chain (db : LedgerDb) :
    Chain (fun _ after => Sized db after) (sizingStatements a) (fun _ after => Sized db after) := by
  refine Chain.kept fun statement isIn changes tables outcome sized done => ?_
  have applied := sized.applied.trans (benign_sizing a statement isIn _ _ _ done).2
  unfold sizingStatements at isIn
  cases isSizing : a.sizing with
  | none => simp [isSizing] at isIn
  | some sizing =>
    rw [isSizing] at isIn
    obtain rfl := List.mem_singleton.mp isIn
    rcases updateAccount_cases done with ⟨same, _⟩ | ⟨_, _, _, _, after⟩
    · exact same ▸ sized
    · rw [after] at applied ⊢
      exact ⟨sized.dispatches, sized.grant, sized.fences, applied⟩

theorem Sized.settles {clock : Nat} {a : OperatorReceipt} {db after : LedgerDb}
    (sized : Sized db after) (settles : after.settles clock a = true) : Settles clock a db := by
  obtain ⟨d, isIn, found⟩ := List.any_eq_true.mp settles
  rw [Bool.and_eq_true] at found
  refine ⟨d, sized.dispatches ▸ isIn, found.1, ?_⟩
  have fenced := found.2
  unfold fencedOperator LedgerDb.invoiced LedgerDb.holdsFence at fenced ⊢
  rw [sized.grant, sized.fences] at fenced
  exact fenced

/-- A receipt moves the applied amount only when it is verified and settles its own
fenced claim, whose dispatch it ends. -/
theorem applyReceipt_movesOwn {db : LedgerDb} (sound : Sound db) :
    SameApplied db (applyReceipt clock a db) ∨
      (a.isVerified = true ∧ Settles clock a db ∧
        (applyReceipt clock a db).owns a.token = false) := by
  cases verified : a.isVerified with
  | false =>
    refine Or.inl (batch_sameApplied (fun statement isIn => ?_) db)
    simp only [receiptStatements, verified, List.mem_append, Bool.false_eq_true, if_false,
      List.mem_singleton] at isIn
    rcases isIn with sizing | rfl | sync
    · exact benign_sizing a statement sizing
    · exact benign_keepReceipt clock a
    · exact benign_sync a.now statement sync
  | true =>
    have settle : Ensures (fun _ after => Sized db after) (settleAccount clock a)
        (fun changes after => SameApplied db after ∨
          (changes = 1 ∧ Settles clock a db ∧ after.dispatches = db.dispatches)) := by
      intro changes tables outcome sized done
      rcases updateAccount_cases done with ⟨same, _⟩ | ⟨account, _, matched, one, after⟩
      · exact Or.inl (same ▸ sized.applied)
      · simp only [Bool.and_eq_true] at matched
        refine Or.inr ⟨one, sized.settles matched.1.2, ?_⟩
        rw [after]
        exact sized.dispatches
    have endClaim : Ensures (fun changes after => SameApplied db after ∨
          (changes = 1 ∧ Settles clock a db ∧ after.dispatches = db.dispatches))
        (settleClaim clock a)
        (fun _ after => SameApplied db after ∨
          (Settles clock a db ∧ after.owns a.token = false)) := by
      rintro changes tables outcome (applied | ⟨rfl, settles, dispatches⟩) done
      · exact Or.inl (applied.trans (benign_settleClaim clock a _ _ _ done).2)
      · refine Or.inr ⟨settles, ?_⟩
        obtain ⟨own, ownMember, isOwn, _⟩ := settles
        simp only [OperatorReceipt.claims, Bool.and_eq_true, beq_iff_eq] at isOwn
        unfold settleClaim at done
        rw [Bool.eq_false_iff]
        intro owned
        obtain ⟨d', member', found⟩ := List.any_eq_true.mp owned
        rw [(updateDispatches_eq done).1] at member'
        obtain ⟨d, isIn, rfl⟩ := List.mem_map.mp member'
        unfold Dispatch.updated at found
        split_ifs at found with matched
        · simp at found
        · simp only [Bool.and_eq_true, beq_iff_eq] at found
          -- the token's one dispatch is the operator's, so it was matched
          have same : d = own := List.inj_on_of_nodup_map sound.tokens (dispatches ▸ isIn)
            ownMember (found.1.trans isOwn.1.1.1.symm)
          exact matched (by simp [found.1, found.2, same ▸ isOwn.1.1.2])
    have finish : ∀ statement ∈ [settleWireRevision clock a.token,
          releaseOperatorFence clock a.token] ++ syncAlertStatements a.now,
        Ensures (fun _ after => SameApplied db after ∨
            (Settles clock a db ∧ after.owns a.token = false)) statement
          (fun _ after => SameApplied db after ∨
            (Settles clock a db ∧ after.owns a.token = false)) := by
      intro statement isIn changes tables outcome holds done
      have benign : Benign statement ∧ LeavesDispatches statement := by
        simp only [syncAlertStatements, List.mem_append, List.mem_cons, List.not_mem_nil,
          or_false] at isIn
        rcases isIn with (rfl | rfl) | rfl
        · exact ⟨benign_settleWireRevision clock a.token,
            settleWireRevision_leavesDispatches clock a.token⟩
        · exact ⟨benign_releaseOperatorFence clock a.token,
            releaseOperatorFence_leavesDispatches clock a.token⟩
        · exact ⟨benign_sync a.now _ (by simp [syncAlertStatements]),
            updateAccount_leavesDispatches _ _⟩
      rcases holds with applied | ⟨settles, ended⟩
      · exact Or.inl (applied.trans (benign.1 _ _ _ done).2)
      · refine Or.inr ⟨settles, ?_⟩
        rw [LedgerDb.owns, benign.2 _ _ _ done]
        exact ended
    have chain := (sized_chain a db).append
      (Chain.cons settle (Chain.cons endClaim (Chain.kept finish)))
    have statements : receiptStatements clock a = sizingStatements a ++
        settleAccount clock a :: settleClaim clock a ::
          ([settleWireRevision clock a.token, releaseOperatorFence clock a.token] ++
            syncAlertStatements a.now) := by
      simp [receiptStatements, verified]
    unfold applyReceipt
    rw [statements]
    rcases batch_chain chain ⟨rfl, rfl, rfl, SameApplied.refl db⟩ with
      same | ⟨_, applied | ⟨settles, ended⟩⟩
    · rw [same]
      exact Or.inl (SameApplied.refl db)
    · exact Or.inl applied
    · exact Or.inr ⟨rfl, settles, ended⟩

def Account.clockless (a : Account) : Account := { a with debtSince := none }

/-- The dispatches and the grant as they were, and the account but for its debt's
clock. -/
structure Unchanged (db after : LedgerDb) : Prop where
  dispatches : after.dispatches = db.dispatches
  grant : after.grant = db.grant
  account : after.account.map (·.clockless) = db.account.map (·.clockless)

theorem applyReceipt_of_unowned {db : LedgerDb} (unowned : db.owns a.token = false) :
    Unchanged db (applyReceipt clock a db) := by
  refine @batch_invariant _ _ _ db (Unchanged db) ⟨rfl, rfl, rfl⟩ ?_
  intro statement isIn changes tables outcome unchanged done
  have closed : ∀ d ∈ tables.dispatches, (d.dispatchId == a.token && d.state == .opened) = false := by
    intro d dMember
    rw [unchanged.dispatches] at dMember
    simpa using (List.any_eq_false.mp unowned) d dMember
  have unclaimed : ∀ d ∈ tables.dispatches, a.claims d = false := by
    intro d dMember
    have isClosed := closed d dMember
    rw [Bool.and_eq_false_iff] at isClosed
    unfold OperatorReceipt.claims
    rcases isClosed with other | ended
    · simp [other]
    · simp [ended]
  have account : ∀ matching set, updateAccount matching set changes tables = .ok outcome →
      (∀ account, tables.account = some account →
        matching tables account = true → (set tables account).clockless = account.clockless) →
      Unchanged db outcome.db := by
    intro matching set updated kept
    rcases updateAccount_cases updated with ⟨same, _⟩ | ⟨account, isAccount, matched, _, after⟩
    · exact same ▸ unchanged
    · rw [after]
      refine ⟨unchanged.dispatches, unchanged.grant, ?_⟩
      rw [← unchanged.account, isAccount]
      exact congrArg some (kept account isAccount matched)
  have fence : ∀ id set, updateFence id set changes tables = .ok outcome →
      Unchanged db outcome.db := by
    intro id set updated
    obtain rfl := Except.ok.inj updated
    exact ⟨unchanged.dispatches, unchanged.grant, unchanged.account⟩
  simp only [receiptStatements, List.mem_append, syncAlertStatements, List.mem_singleton] at isIn
  rcases isIn with sizing | settling | rfl
  · unfold sizingStatements at sizing
    cases isSizing : a.sizing with
    | none => simp [isSizing] at sizing
    | some s =>
      rw [isSizing] at sizing
      obtain rfl := List.mem_singleton.mp sizing
      refine account _ _ done fun _ _ matched => ?_
      simp only [Bool.and_eq_true] at matched
      obtain ⟨d, dMember, isClaim⟩ := List.any_eq_true.mp matched.2
      rw [unclaimed d dMember] at isClaim
      exact Bool.noConfusion isClaim
  · split_ifs at settling with verified
    · simp only [List.mem_cons, List.not_mem_nil, or_false] at settling
      rcases settling with rfl | rfl | rfl | rfl
      · refine account _ _ done fun _ _ matched => ?_
        simp only [Bool.and_eq_true] at matched
        obtain ⟨d, dMember, isClaim⟩ := List.any_eq_true.mp matched.1.2
        rw [unclaimed d dMember] at isClaim
        exact Bool.noConfusion isClaim
      · unfold settleClaim at done
        rw [updateDispatches_of_unmatched (fun d dMember => ?_) done]
        · exact unchanged
        · have isClosed := closed d dMember
          rw [Bool.and_eq_false_iff] at isClosed
          rcases isClosed with other | ended
          · simp [other]
          · simp [ended]
      · unfold settleWireRevision at done
        split at done
        · obtain rfl := Except.ok.inj done
          exact unchanged
        · exact fence _ _ done
      · unfold releaseOperatorFence at done
        split at done
        · obtain rfl := Except.ok.inj done
          exact unchanged
        · exact fence _ _ done
    · obtain rfl := List.mem_singleton.mp settling
      unfold keepReceipt at done
      rw [updateDispatches_of_unmatched (fun d dMember => by simp [unclaimed d dMember]) done]
      exact unchanged
  · exact account _ _ done fun _ _ _ => rfl

/-! ## Claims and pending receipts -/

theorem claim_keeps_receipt {db : LedgerDb} {event : LedgerEvent} (isClaim : event.claims = true)
    {d : Dispatch} (isIn : d ∈ db.dispatches) (isOperator : d.kind = .operator)
    (isReceipt : d.receiptAt.isSome) :
    d ∈ (event.run clock db).dispatches := by
  have refresh : ∀ now, ∀ statement ∈ refreshStatements now, LeavesDispatches statement := by
    intro now statement isRefresh changes tables outcome done
    simp only [refreshStatements, List.mem_cons, List.not_mem_nil, or_false] at isRefresh
    rcases isRefresh with rfl | rfl
    · unfold ensureAccount at done
      split at done
      · split_ifs at done <;> obtain rfl := Except.ok.inj done <;> rfl
      · obtain rfl := Except.ok.inj done
        rfl
    · exact updateAccount_leavesDispatches _ _ _ _ _ done
  have stays : ∀ {statement : LedgerStatement}, LeavesDispatches statement →
      ∀ changes tables outcome, d ∈ tables.dispatches → statement changes tables = .ok outcome →
        d ∈ outcome.db.dispatches := by
    intro statement leaves changes tables outcome held done
    rw [leaves changes tables outcome done]
    exact held
  have unmatched : ∀ {matching : LedgerDb → Dispatch → Bool} {set : Dispatch → Dispatch},
      (∀ tables, matching tables d = false) → ∀ changes tables outcome, d ∈ tables.dispatches →
        updateDispatches matching set changes tables = .ok outcome → d ∈ outcome.db.dispatches := by
    intro matching set none changes tables outcome held done
    rw [(updateDispatches_eq done).1]
    refine List.mem_map.mpr ⟨d, held, ?_⟩
    rw [Dispatch.updated, if_neg (by simp [none tables])]
  have inserted : ∀ {row : LedgerDb → Option Dispatch}, ∀ changes tables outcome,
      d ∈ tables.dispatches → insertDispatch row changes tables = .ok outcome →
        d ∈ outcome.db.dispatches := by
    intro row changes tables outcome held done
    rcases insertDispatch_cases done with same | ⟨_, _, _, _, after⟩
    · rw [same]
      exact held
    · rw [after]
      exact List.mem_append_left _ held
  cases event with
  | claim r =>
    refine @batch_invariant _ _ _ db (fun tables => d ∈ tables.dispatches) isIn ?_
    intro statement isStatement changes tables outcome held done
    simp only [claimStatements, List.mem_append, List.mem_cons, List.not_mem_nil, or_false]
      at isStatement
    rcases isStatement with isRefresh | (rfl | rfl | rfl) | tried | updates
    · exact stays (refresh r.now statement isRefresh) _ _ _ held done
    · refine unmatched (fun tables => ?_) _ _ _ held done
      -- an automatic dispatch subsumes no operator's
      cases r.kind <;> simp [AutoKind.subsumes, isOperator]
    · exact inserted _ _ _ held done
    · exact stays (updateAccount_leavesDispatches _ _) _ _ _ held done
    · split_ifs at tried
      · obtain rfl := List.mem_singleton.mp tried
        exact stays (updateAccount_leavesDispatches _ _) _ _ _ held done
      · simp at tried
    · obtain ⟨update, _, rfl⟩ := List.mem_map.mp updates
      obtain ⟨grant, after⟩ := updateGrant_cases done
      rw [after]
      exact held
  | operatorClaim r wire =>
    refine @batch_invariant _ _ _ db (fun tables => d ∈ tables.dispatches) isIn ?_
    intro statement isStatement changes tables outcome held done
    simp only [operatorClaimStatements, List.mem_append, List.mem_cons, List.not_mem_nil,
      or_false] at isStatement
    rcases isStatement with isRefresh | (rfl | rfl) | fence
    · exact stays (refresh r.now statement isRefresh) _ _ _ held done
    · refine unmatched (fun tables => ?_) _ _ _ held done
      obtain ⟨at_, isAt⟩ := Option.isSome_iff_exists.mp isReceipt
      simp [isAt]
    · exact inserted _ _ _ held done
    · cases wire with
      | none => simp at fence
      | some wire =>
        simp only [operatorFence, List.mem_cons, List.not_mem_nil, or_false] at fence
        rcases fence with rfl | rfl | rfl
        · exact stays (updateFence_leavesDispatches _ _) _ _ _ held done
        · exact stays (updateFence_leavesDispatches _ _) _ _ _ held done
        · unfold requireGuard at done
          split_ifs at done
          obtain rfl := Except.ok.inj done
          exact held
  | _ => exact Bool.noConfusion isClaim

/-! ## Runs -/

/-- The invariant of a run: the dispatches are sound, and a token whose completion
moved the applied amount is spent. -/
structure Completing (s : LedgerSystem) : Prop where
  sound : Sound s.db
  once : s.moved.Nodup
  spent : ∀ token ∈ s.moved, s.db.spent token

theorem run_movesOwn {db : LedgerDb} (sound : Sound db) (event : LedgerEvent) :
    SameApplied db (event.run clock db) ∨ ∃ token, event.completes = some token ∧
      db.owns token = true ∧ (event.run clock db).owns token = false := by
  cases event with
  | completeDelivery a =>
    exact (completeDelivery_movesOwn clock a db).imp_right fun ⟨owned, ended⟩ =>
      ⟨a.token, rfl, owned, ended⟩
  | completeRevoke a =>
    exact (completeRevoke_movesOwn clock a db).imp_right fun ⟨owned, ended⟩ =>
      ⟨a.token, rfl, owned, ended⟩
  | receipt a =>
    refine (applyReceipt_movesOwn clock a sound).imp_right fun ⟨_, ⟨d, isIn, isClaim, _⟩, ended⟩ =>
      ⟨a.token, rfl, ?_, ended⟩
    simp only [OperatorReceipt.claims, Bool.and_eq_true, beq_iff_eq] at isClaim
    exact List.any_eq_true.mpr ⟨d, isIn, by simp [isClaim.1.1.1, isClaim.1.2]⟩
  | _ => exact Or.inl (run_sameApplied clock db rfl)

theorem sameApplied_of_not_moved {before after : LedgerDb}
    (same : SameApplied before after) : appliedMoved before after = false := by
  unfold appliedMoved
  cases isAccount : before.account with
  | none => rfl
  | some account =>
    obtain ⟨account', isAccount', applied⟩ := same account isAccount
    simp [isAccount', applied]

theorem Completing.step {s : LedgerSystem} (completing : Completing s) (event : LedgerEvent) :
    Completing (s.apply event) := by
  have keeps := run_keeps s.clock s.db event
  have spent : ∀ token ∈ s.moved, (s.apply event).db.spent token :=
    fun token isIn => keeps.spent token (completing.spent token isIn)
  rcases run_movesOwn s.clock completing.sound event with same | ⟨token, isToken, owned, ended⟩
  · have moved : (s.apply event).moved = s.moved := by
      simp [LedgerSystem.apply, sameApplied_of_not_moved same]
    exact ⟨keeps.sound completing.sound, moved ▸ completing.once, moved ▸ spent⟩
  · obtain ⟨d, isIn, isOwn⟩ := List.any_eq_true.mp owned
    simp only [Bool.and_eq_true, beq_iff_eq] at isOwn
    have fresh : token ∉ s.moved := fun earlier =>
      (completing.spent token earlier).2 d isIn isOwn.1 isOwn.2
    have isSpent : (s.apply event).db.spent token := by
      obtain ⟨d', member', same⟩ := keeps.known d isIn
      refine ⟨⟨d', member', same.trans isOwn.1⟩, fun other otherMember isOther isOpen => ?_⟩
      have isClosed := (List.any_eq_false.mp ended) other otherMember
      simp [isOther, isOpen] at isClosed
    cases moves : appliedMoved s.db (event.run s.clock s.db) with
    | false =>
      have moved : (s.apply event).moved = s.moved := by simp [LedgerSystem.apply, moves]
      exact ⟨keeps.sound completing.sound, moved ▸ completing.once, moved ▸ spent⟩
    | true =>
      have moved : (s.apply event).moved = s.moved ++ [token] := by
        simp [LedgerSystem.apply, moves, isToken]
      refine ⟨keeps.sound completing.sound, ?_, fun other otherMember => ?_⟩
      · rw [moved, List.nodup_append]
        exact ⟨completing.once, by simp, fun other otherMember last isLast same =>
          fresh (List.mem_singleton.mp isLast ▸ same ▸ otherMember)⟩
      · rw [moved] at otherMember
        rcases List.mem_append.mp otherMember with earlier | isLast
        · exact spent other earlier
        · rw [List.mem_singleton.mp isLast]
          exact isSpent

theorem LedgerRun.completing {start s : LedgerSystem} {events : List LedgerEvent}
    (run : LedgerRun start events s) : Completing s := by
  obtain ⟨undispatched, unmoved, steps⟩ := run
  refine steps.invariant ⟨⟨?_, ?_, ?_⟩, ?_, ?_⟩ fun before event after completing taken => ?_
  · simp [undispatched]
  · simp [undispatched]
  · simp [undispatched]
  · simp [unmoved]
  · simp [unmoved]
  · rw [taken]
    exact completing.step event

structure FencedCompletion (s : LedgerSystem) : Prop where
  /-- At most one dispatch is open. -/
  single : (s.db.dispatches.filter (·.state == .opened)).length ≤ 1
  /-- A dispatch that has ended never opens again. -/
  ended : ∀ event token, s.db.spent token → (s.apply event).db.spent token
  /-- The answer of a router under a token that owns nothing changes nothing. -/
  lateAnswer : ∀ event, (∃ a, event = .completeDelivery a) ∨ (∃ a, event = .completeRevoke a) →
    ∀ token, event.completes = some token → s.db.owns token = false → (s.apply event).db = s.db
  /-- A receipt under such a token moves at most the debt's clock. -/
  lateReceipt : ∀ a : OperatorReceipt, s.db.owns a.token = false →
    Unchanged s.db (s.apply (.receipt a)).db
  /-- The applied amount moves only with the end of the completing token's own open
  dispatch. -/
  moves : ∀ event account, s.db.account = some account →
    ∃ account', (s.apply event).db.account = some account' ∧
      (account'.appliedMicrocents ≠ account.appliedMicrocents →
        ∃ token, event.completes = some token ∧ s.db.owns token = true ∧
          (s.apply event).db.owns token = false)
  /-- Once for each dispatch, over the whole run. -/
  once : s.moved.Nodup
  /-- A receipt moves it only when verified, under its own open claim, which holds
  the unexpired fence of its Flux grant id, or has none on a grant without one. -/
  receipt : ∀ (a : OperatorReceipt) (account account' : Account),
    s.db.account = some account → (s.apply (.receipt a)).db.account = some account' →
    account'.appliedMicrocents ≠ account.appliedMicrocents →
    a.isVerified = true ∧ ∃ d ∈ s.db.dispatches, a.claims d = true ∧
      (∀ wire, d.wireGrantId = some wire → s.db.holdsFence s.clock wire a.token = true) ∧
      (d.wireGrantId = none → s.db.invoiced = false)
  /-- A claim that holds a receipt is never superseded by another. -/
  pending : ∀ event, event.claims = true → ∀ d ∈ s.db.dispatches, d.receiptAt.isSome →
    d ∈ (s.apply event).db.dispatches

/-- **Fenced completion.** It holds in every state that any interleaving of the
batches reaches. -/
theorem fenced_completion {start s : LedgerSystem} {events : List LedgerEvent}
    (run : LedgerRun start events s) : FencedCompletion s := by
  have completing := run.completing
  have keeps := run_keeps s.clock s.db
  refine ⟨completing.sound.single, fun event => (keeps event).spent, ?_,
    fun a unowned => applyReceipt_of_unowned s.clock a unowned, ?_, completing.once, ?_, ?_⟩
  · rintro event (⟨a, rfl⟩ | ⟨a, rfl⟩) token isToken unowned
    · obtain rfl := Option.some.inj isToken
      exact completeDelivery_of_unowned s.clock a unowned
    · obtain rfl := Option.some.inj isToken
      exact completeRevoke_of_unowned s.clock a unowned
  · intro event account isAccount
    have present : s.db.account.isSome := by rw [isAccount]; rfl
    obtain ⟨account', isAccount'⟩ := Option.isSome_iff_exists.mp ((keeps event).account present)
    refine ⟨account', isAccount', fun moved => ?_⟩
    refine (run_movesOwn s.clock completing.sound event).resolve_left fun same => ?_
    obtain ⟨other, isOther, applied⟩ := same account isAccount
    exact moved (Option.some.inj (isAccount'.symm.trans isOther) ▸ applied)
  · intro a account account' isAccount isAccount' moved
    rcases applyReceipt_movesOwn s.clock a completing.sound with same | ⟨verified, settles, _⟩
    · obtain ⟨other, isOther, applied⟩ := same account isAccount
      exact absurd (Option.some.inj (isAccount'.symm.trans isOther) ▸ applied) moved
    · obtain ⟨d, member, isClaim, fenced⟩ := settles
      have isToken : d.dispatchId = a.token := by
        simp only [OperatorReceipt.claims, Bool.and_eq_true, beq_iff_eq] at isClaim
        exact isClaim.1.1.1
      refine ⟨verified, d, member, isClaim, fun wire isWire => ?_, fun none => ?_⟩
      · simpa [fencedOperator, isWire, isToken] using fenced
      · simpa [fencedOperator, none] using fenced
  · intro event isClaim d member isReceipt
    exact claim_keeps_receipt s.clock isClaim member (completing.sound.receipts d member isReceipt)
      isReceipt

/-- A grant of 100 that no batch has touched. -/
def untouchedGrant (invoiceId : Option String) : LedgerSystem :=
  { clock := 0, db := { grant := some { invoiceId := invoiceId, amountMicrocents := 100 } } }

def claimByHand (token : String) (evidence wire : Option String) : LedgerEvent :=
  .operatorClaim
    { token := token, grantId := "g1", performedBy := "op", evidence := evidence, now := 0 } wire

def receiptByHand (wireRevision : Option Nat) (verified : Option Int) : OperatorReceipt :=
  { token := "t1"
    revision := 1
    appliedMicrocents := 100
    adjustmentRef := "murage:g1:r1:t1"
    wireRevision := wireRevision
    evidence := "seen"
    performedBy := "op"
    now := 0
    verified := verified }

/-- A claim that takes the fence, and its verified receipt. -/
def settledByHand : List LedgerEvent := [
  claimByHand "t1" none (some "in_1:period"),
  .operatorAllocate "t1" "in_1:period" 1,
  .operatorRecord "t1" "in_1:period" 1,
  .receipt (receiptByHand (some 1) (some 100))]

theorem fenced_completion_settledByHand :
    (settledByHand.foldl LedgerSystem.apply (untouchedGrant (some "in_1"))).moved = ["t1"] ∧
      ∀ a : DeliveryAnswer, a.token = "t1" →
        (FluxLedger.completeDelivery 0 a
          (settledByHand.foldl LedgerSystem.apply (untouchedGrant (some "in_1"))).db).1 =
          (settledByHand.foldl LedgerSystem.apply (untouchedGrant (some "in_1"))).db := by
  have run : LedgerRun (untouchedGrant (some "in_1")) settledByHand
      (settledByHand.foldl LedgerSystem.apply (untouchedGrant (some "in_1"))) :=
    ⟨rfl, rfl, Run.foldl LedgerSystem.apply _ settledByHand⟩
  refine ⟨by decide, fun a isToken => ?_⟩
  have unowned : (settledByHand.foldl LedgerSystem.apply
      (untouchedGrant (some "in_1"))).db.owns a.token = false := by
    rw [isToken]
    decide
  exact (fenced_completion run).lateAnswer (.completeDelivery a) (Or.inl ⟨a, rfl⟩) a.token rfl unowned

/-- A claim, and a second operator's once the first has expired. -/
def takenOver : List LedgerEvent := [
  claimByHand "t1" none none,
  .wait OPERATOR_TTL_MS,
  claimByHand "t2" (some "read") none]

/-- A receipt that passed its checks before its claim was taken over still starts
the debt's clock; and on a grant without an invoice a verified receipt moves the
applied amount under no fence. -/
theorem late_receipt_starts_debt_clock :
    receiptRefusal 0 (receiptByHand none none)
        ((takenOver.take 1).foldl LedgerSystem.apply (untouchedGrant none)).db = none ∧
      (¬∀ (start s : LedgerSystem) (events : List LedgerEvent) (event : LedgerEvent)
        (token : String), LedgerRun start events s → event.completes = some token →
        s.db.owns token = false → (s.apply event).db.account = s.db.account) ∧
      ¬∀ (start s : LedgerSystem) (events : List LedgerEvent) (a : OperatorReceipt),
        LedgerRun start events s → appliedMoved s.db (s.apply (.receipt a)).db = true →
        ∃ wire, s.db.holdsFence s.clock wire a.token = true := by
  refine ⟨by decide, fun unchanged => ?_, fun fenced => ?_⟩
  · have same := unchanged (untouchedGrant none) _ takenOver (.receipt (receiptByHand none none))
      "t1" ⟨rfl, rfl, Run.foldl LedgerSystem.apply _ takenOver⟩ rfl (by decide)
    exact absurd (congrArg (Option.map (·.debtSince)) same) (by decide)
  · obtain ⟨wire, holds⟩ := fenced (untouchedGrant none) _ (takenOver.take 1)
      (receiptByHand none (some 100)) ⟨rfl, rfl, Run.foldl LedgerSystem.apply _ _⟩ (by decide)
    have noFence : ((takenOver.take 1).foldl LedgerSystem.apply (untouchedGrant none)).db.fences wire =
        {} := rfl
    rw [LedgerDb.holdsFence, noFence] at holds
    exact Bool.noConfusion holds

end Murage.FluxLedger
