import Murage.FluxLedger.Operator

/-!
Owns what each statement and each automatic batch of the grant ledger does to the
two things a router's state is compared with: what the account says the router
holds, and the token, kind and state of every dispatch.

Does not own: the router, and runs.
-/

namespace Murage.FluxLedger

open Murage.Library.Batch

/-- What an account says the router holds. -/
structure Holding where
  routerState : RouterState
  applied : Int
  amount : Int
deriving DecidableEq, Repr

def Account.holding (a : Account) : Holding :=
  ⟨a.routerState, a.appliedMicrocents, a.amountMicrocents⟩

/-- A dispatch's token, kind and state. -/
@[ext]
structure Row where
  token : String
  kind : DispatchKind
  state : DispatchState
deriving DecidableEq, Repr

def Dispatch.row (d : Dispatch) : Row := ⟨d.dispatchId, d.kind, d.state⟩

def LedgerDb.holding (db : LedgerDb) : Option Holding := db.account.map (·.holding)

def LedgerDb.rows (db : LedgerDb) : List Row := db.dispatches.map (·.row)

theorem owns_iff (db : LedgerDb) (token : String) :
    db.owns token = true ↔ ∃ row ∈ db.rows, row.token = token ∧ row.state = .opened := by
  simp [LedgerDb.owns, LedgerDb.rows, Dispatch.row]

theorem hasOpen_iff (db : LedgerDb) :
    db.hasOpen = true ↔ ∃ row ∈ db.rows, row.state = .opened := by
  simp [LedgerDb.hasOpen, LedgerDb.rows, Dispatch.row]

/-! ## Statements -/

section Statements

variable {changes : Nat} {db : LedgerDb} {outcome : Outcome LedgerDb Unit}

theorem updateAccount_cases {matching : LedgerDb → Account → Bool}
    {set : LedgerDb → Account → Account}
    (done : updateAccount matching set changes db = .ok outcome) :
    (outcome.db = db ∧ outcome.changes = 0 ∧
        ∀ account, db.account = some account → matching db account = false) ∨
      ∃ account, db.account = some account ∧ matching db account = true ∧
        outcome.changes = 1 ∧ outcome.db = { db with account := some (set db account) } := by
  unfold updateAccount at done
  cases found : db.account.filter (matching db) with
  | none =>
    rw [found] at done
    obtain rfl := Except.ok.inj done
    rw [Option.filter_eq_none_iff] at found
    exact Or.inl ⟨rfl, rfl, fun account isAccount => by simpa using found account isAccount⟩
  | some account =>
    obtain ⟨isAccount, matched⟩ := Option.filter_eq_some_iff.mp found
    rw [found] at done
    dsimp only at done
    split_ifs at done
    obtain rfl := Except.ok.inj done
    exact Or.inr ⟨account, isAccount, matched, rfl, rfl⟩

theorem updateGrant_cases {matching : LedgerDb → Bool} {set : Grant → Grant}
    (done : updateGrant matching set changes db = .ok outcome) :
    ∃ grant, outcome.db = { db with grant := grant } := by
  unfold updateGrant at done
  split at done <;> obtain rfl := Except.ok.inj done
  · exact ⟨db.grant, rfl⟩
  · exact ⟨_, rfl⟩

theorem updateDispatches_eq {matching : LedgerDb → Dispatch → Bool} {set : Dispatch → Dispatch}
    (done : updateDispatches matching set changes db = .ok outcome) :
    outcome.db =
        { db with dispatches := db.dispatches.map (Dispatch.updated (matching db) set) } ∧
      ∀ d ∈ outcome.db.dispatches, d.check = true := by
  unfold updateDispatches at done
  dsimp only at done
  split_ifs at done with unchecked
  obtain rfl := Except.ok.inj done
  exact ⟨rfl, List.all_eq_true.mp (by simpa only [Bool.not_eq_true, Bool.not_eq_false'] using unchecked)⟩

theorem updateDispatches_of_unmatched {matching : LedgerDb → Dispatch → Bool}
    {set : Dispatch → Dispatch} (unmatched : ∀ d ∈ db.dispatches, matching db d = false)
    (done : updateDispatches matching set changes db = .ok outcome) : outcome.db = db := by
  have same : ∀ d ∈ db.dispatches, Dispatch.updated (matching db) set d = d := fun d isIn => by
    rw [Dispatch.updated, if_neg (by simp [unmatched d isIn])]
  rw [(updateDispatches_eq done).1, List.map_congr_left same, List.map_id']

theorem insertDispatch_cases {row : LedgerDb → Option Dispatch}
    (done : insertDispatch row changes db = .ok outcome) :
    outcome.db = db ∨
      ∃ dispatch, row db = some dispatch ∧ db.hasOpen = false ∧
        (∀ other ∈ db.dispatches, other.dispatchId ≠ dispatch.dispatchId) ∧
        outcome.db = { db with dispatches := db.dispatches ++ [dispatch] } := by
  unfold insertDispatch at done
  split at done
  · obtain rfl := Except.ok.inj done
    exact Or.inl rfl
  · rename_i dispatch isRow
    split_ifs at done with collides
    · obtain rfl := Except.ok.inj done
      exact Or.inl rfl
    · obtain rfl := Except.ok.inj done
      simp only [Bool.or_eq_true, not_or, List.any_eq_true, beq_iff_eq, not_exists, not_and,
        Bool.not_eq_true] at collides
      exact Or.inr ⟨dispatch, isRow, collides.1.2, collides.1.1, rfl⟩

end Statements

/-! ## Batches that leave the dispatches alone -/

variable {db : LedgerDb}

theorem ensureAccount_of_some {changes : Nat} {now : Nat} {account : Account}
    (isAccount : db.account = some account) : ensureAccount now changes db = .ok ⟨db, 0, []⟩ := by
  unfold ensureAccount
  rw [isAccount]

/-- What a batch leaves of the tables a router is compared with. -/
def Unmoved (db after : LedgerDb) : Prop :=
  after.dispatches = db.dispatches ∧ after.holding = db.holding ∧ after.account.isSome

theorem updateAccount_unmoved {matching : LedgerDb → Account → Bool}
    {set : LedgerDb → Account → Account} (db : LedgerDb)
    (kept : ∀ tables account, (set tables account).holding = account.holding) :
    Ensures (fun _ after => Unmoved db after) (updateAccount matching set)
      (fun _ after => Unmoved db after) := by
  intro changes tables outcome unmoved done
  rcases updateAccount_cases done with ⟨same, _⟩ | ⟨account, isAccount, _, _, after⟩
  · rw [same]
    exact unmoved
  · rw [after]
    refine ⟨unmoved.1, ?_, rfl⟩
    rw [← unmoved.2.1]
    simp [LedgerDb.holding, isAccount, kept]

theorem updateGrant_unmoved {matching : LedgerDb → Bool} {set : Grant → Grant} (db : LedgerDb) :
    Ensures (fun _ after => Unmoved db after) (updateGrant matching set)
      (fun _ after => Unmoved db after) := by
  intro changes tables outcome unmoved done
  obtain ⟨grant, after⟩ := updateGrant_cases done
  rw [after]
  exact unmoved

theorem refresh_chain (now : Nat) (db : LedgerDb) :
    Chain (fun _ after => Unmoved db after) (refreshStatements now)
      (fun _ after => Unmoved db after) := by
  have ensured : Ensures (fun _ after => Unmoved db after) (ensureAccount now)
      (fun _ after => Unmoved db after) := by
    intro changes tables outcome unmoved done
    obtain ⟨account, isAccount⟩ := Option.isSome_iff_exists.mp unmoved.2.2
    rw [ensureAccount_of_some isAccount] at done
    obtain rfl := Except.ok.inj done
    exact unmoved
  exact Chain.cons ensured (Chain.cons (updateAccount_unmoved db fun _ _ => rfl) Chain.nil)

theorem refresh_unmoved (now : Nat) (present : db.account.isSome) :
    Unmoved db (refresh now db) := by
  rcases batch_chain (refresh_chain now db) ⟨rfl, rfl, present⟩ with same | ⟨_, unmoved⟩
  · rw [refresh, same]
    exact ⟨rfl, rfl, present⟩
  · exact unmoved

/-! ## Claims -/

structure Superseded (kind : AutoKind) (before after : List Row) : Prop where
  tokens : after.map (·.token) = before.map (·.token)
  earlier : ∀ new ∈ after, ∃ old ∈ before, new.token = old.token ∧ new.kind = old.kind ∧
    (new = old ∨
      (old.state = .opened ∧ kind.subsumes old.kind = true ∧ new.state = .superseded))
  later : ∀ old ∈ before, ∃ new ∈ after, new.token = old.token ∧ new.kind = old.kind

theorem superseded_refl (kind : AutoKind) (rows : List Row) : Superseded kind rows rows where
  tokens := rfl
  earlier row isIn := ⟨row, isIn, rfl, rfl, Or.inl rfl⟩
  later row isIn := ⟨row, isIn, rfl, rfl⟩

variable (clock : Nat)

theorem supersedeExpired_rows (r : DispatchRequest) {changes : Nat}
    {outcome : Outcome LedgerDb Unit} (done : supersedeExpired clock r changes db = .ok outcome) :
    Superseded r.kind db.rows outcome.db.rows := by
  rw [(updateDispatches_eq done).1]
  generalize isUpdated : Dispatch.updated (fun d : Dispatch => d.state == .opened &&
    r.kind.subsumes d.kind && decide (d.expiresAt ≤ clock) && db.eligible r.eligible)
    (·.ended clock .superseded ("expired_superseded_by:" ++ r.token)) = updated
  have related : ∀ d : Dispatch, (updated d).row.token = d.row.token ∧
      (updated d).row.kind = d.row.kind ∧ ((updated d).row = d.row ∨
        (d.row.state = .opened ∧ r.kind.subsumes d.row.kind = true ∧
          (updated d).row.state = .superseded)) := by
    intro d
    rw [← isUpdated]
    unfold Dispatch.updated
    split_ifs with matched
    · simp only [Bool.and_eq_true, beq_iff_eq] at matched
      exact ⟨rfl, rfl, Or.inr ⟨matched.1.1.1, matched.1.1.2, rfl⟩⟩
    · exact ⟨rfl, rfl, Or.inl rfl⟩
  refine ⟨?_, fun new isIn => ?_, fun old isIn => ?_⟩
  · unfold LedgerDb.rows
    rw [List.map_map, List.map_map, List.map_map]
    exact List.map_congr_left fun d _ => (related d).1
  · obtain ⟨_, moved, rfl⟩ := List.mem_map.mp isIn
    obtain ⟨d, dMember, rfl⟩ := List.mem_map.mp moved
    exact ⟨d.row, List.mem_map_of_mem dMember, related d⟩
  · obtain ⟨d, dMember, rfl⟩ := List.mem_map.mp isIn
    exact ⟨_, List.mem_map_of_mem (List.mem_map_of_mem dMember), (related d).1, (related d).2.1⟩

/-- What a claim leaves: the rows it superseded, and its own row with the router
state it set or neither. -/
inductive ClaimEffect (r : DispatchRequest) (db after : LedgerDb) : Prop
  | unclaimed (superseded : Superseded r.kind db.rows after.rows)
      (kept : after.holding = db.holding)
  | claimed (rows : List Row) (account : Account) (grant : Grant) (refreshed : LedgerDb)
      (superseded : Superseded r.kind db.rows rows) (closed : ∀ row ∈ rows, row.state ≠ .opened)
      (eligible : r.eligible refreshed account grant = true)
      (before : db.holding = some account.holding)
      (appended : after.rows = rows ++ [⟨r.token, r.kind.kind, .opened⟩])
      (moved : after.holding =
        some { account.holding with routerState := r.kind.claimed account.routerState })

theorem insertClaim_row {clock : Nat} {r : DispatchRequest} {dispatch : Dispatch}
    (isRow : (if db.eligible r.eligible then db.account.map (r.row clock) else none) =
      some dispatch) :
    ∃ account grant, db.account = some account ∧ r.eligible db account grant = true ∧
      dispatch = r.row clock account := by
  split_ifs at isRow with eligible
  obtain ⟨account, isAccount, isDispatch⟩ := Option.map_eq_some_iff.mp isRow
  unfold LedgerDb.eligible at eligible
  rw [isAccount] at eligible
  cases isGrant : db.grant with
  | none => simp [isGrant] at eligible
  | some grant =>
    rw [isGrant] at eligible
    exact ⟨account, grant, isAccount, eligible, isDispatch.symm⟩

/-- The state between a claim's insertion and the mark on the account. -/
private inductive Inserted (r : DispatchRequest) (db after : LedgerDb) : Prop
  | unclaimed (superseded : Superseded r.kind db.rows after.rows)
      (kept : after.holding = db.holding) (present : after.account.isSome)
  | claimed (rows : List Row) (account : Account) (grant : Grant) (refreshed : LedgerDb)
      (superseded : Superseded r.kind db.rows rows) (closed : ∀ row ∈ rows, row.state ≠ .opened)
      (eligible : r.eligible refreshed account grant = true)
      (before : db.holding = some account.holding)
      (appended : after.rows = rows ++ [⟨r.token, r.kind.kind, .opened⟩])
      (isAccount : after.account = some account)

theorem not_owned {kind : AutoKind} {before after : List Row} {token : String}
    (superseded : Superseded kind before after) (fresh : ∀ row ∈ before, row.token ≠ token) :
    ∀ row ∈ after, row.token ≠ token := by
  intro row isIn
  obtain ⟨old, oldMember, sameToken, _⟩ := superseded.earlier row isIn
  exact sameToken ▸ fresh old oldMember

theorem claimDispatch_effect (r : DispatchRequest) (present : db.account.isSome)
    (fresh : ∀ row ∈ db.rows, row.token ≠ r.token) :
    ClaimEffect r db (claimDispatch clock r db).1 := by
  have supersede : Ensures (fun _ after => Unmoved db after) (supersedeExpired clock r)
      (fun _ after => Superseded r.kind db.rows after.rows ∧ after.holding = db.holding ∧
        after.account.isSome) := by
    intro changes tables outcome unmoved done
    have sameRows : tables.rows = db.rows := congrArg (List.map _) unmoved.1
    refine ⟨sameRows ▸ supersedeExpired_rows clock r done, ?_, ?_⟩ <;>
      rw [(updateDispatches_eq done).1]
    · exact unmoved.2.1
    · exact unmoved.2.2
  have insert : Ensures (fun _ after => Superseded r.kind db.rows after.rows ∧
        after.holding = db.holding ∧ after.account.isSome) (insertClaim clock r)
      (fun _ after => Inserted r db after) := by
    intro changes tables outcome ⟨superseded, kept, isSome⟩ done
    rcases insertDispatch_cases done with same | ⟨dispatch, isRow, free, _, after⟩
    · rw [same]
      exact Inserted.unclaimed superseded kept isSome
    · obtain ⟨account, grant, isAccount, eligible, isDispatch⟩ := insertClaim_row isRow
      rw [after]
      refine Inserted.claimed tables.rows account grant tables superseded ?_ eligible ?_ ?_
        isAccount
      · intro row isIn isOpen
        have opened := (hasOpen_iff tables).mpr ⟨row, isIn, isOpen⟩
        rw [opened] at free
        exact Bool.noConfusion free
      · rw [← kept, LedgerDb.holding, isAccount]
        rfl
      · rw [isDispatch]
        simp [LedgerDb.rows, Dispatch.row, DispatchRequest.row]
  have mark : Ensures (fun _ after => Inserted r db after) (markClaimed r)
      (fun _ after => ClaimEffect r db after ∧ after.account.isSome) := by
    intro changes tables outcome inserted done
    cases inserted with
    | unclaimed superseded kept isSome =>
      rcases updateAccount_cases done with ⟨same, _⟩ | ⟨account, _, owned, _⟩
      · rw [same]
        exact ⟨ClaimEffect.unclaimed superseded kept, isSome⟩
      · obtain ⟨row, isIn, isToken, _⟩ := (owns_iff tables r.token).mp owned
        exact absurd isToken (not_owned superseded fresh row isIn)
    | claimed rows account grant refreshed superseded closed eligible before appended isAccount =>
      have owned : tables.owns r.token = true :=
        (owns_iff tables r.token).mpr ⟨⟨r.token, r.kind.kind, .opened⟩, by simp [appended], rfl, rfl⟩
      rcases updateAccount_cases done with ⟨_, _, missed⟩ | ⟨found, isFound, _, _, after⟩
      · rw [missed account isAccount] at owned
        exact Bool.noConfusion owned
      · obtain rfl : account = found := Option.some.inj (isAccount.symm.trans isFound)
        rw [after]
        exact ⟨ClaimEffect.claimed rows account grant refreshed superseded closed eligible before
          appended rfl, rfl⟩
  have keep : ∀ statement ∈ (if r.kind = .revoke then [markTried r.now] else []) ++
        grantUpdates r.token r.extra,
      Ensures (fun _ after => ClaimEffect r db after ∧ after.account.isSome) statement
        (fun _ after => ClaimEffect r db after ∧ after.account.isSome) := by
    intro statement isIn changes tables outcome ⟨effect, isSome⟩ done
    have unmoved : Unmoved tables outcome.db := by
      rcases List.mem_append.mp isIn with tried | updates
      · split_ifs at tried
        · obtain rfl := List.mem_singleton.mp tried
          have kept : Ensures (fun _ after => Unmoved tables after) (markTried r.now)
              (fun _ after => Unmoved tables after) :=
            updateAccount_unmoved tables fun _ _ => rfl
          exact kept _ _ _ ⟨rfl, rfl, isSome⟩ done
        · simp at tried
      · obtain ⟨update, _, rfl⟩ := List.mem_map.mp updates
        exact updateGrant_unmoved tables _ _ _ ⟨rfl, rfl, isSome⟩ done
    have sameRows : outcome.db.rows = tables.rows := congrArg (List.map _) unmoved.1
    refine ⟨?_, unmoved.2.2⟩
    cases effect with
    | unclaimed superseded kept =>
      exact ClaimEffect.unclaimed (sameRows ▸ superseded) (unmoved.2.1.trans kept)
    | claimed rows account grant refreshed superseded closed eligible before appended moved =>
      exact ClaimEffect.claimed rows account grant refreshed superseded closed eligible before
        (sameRows.trans appended) (unmoved.2.1.trans moved)
  have chain := (refresh_chain r.now db).append
    ((Chain.cons supersede (Chain.cons insert (Chain.cons mark Chain.nil))).append
      (Chain.kept keep))
  rcases batch_chain chain ⟨rfl, rfl, present⟩ with same | ⟨_, effect, _⟩
  · rw [claimDispatch, claimStatements, same]
    exact ClaimEffect.unclaimed (superseded_refl _ _) rfl
  · exact effect

/-! ## Completions -/

/-- The rows after `token`'s open dispatch took a new state. -/
def movedRows (token : String) (state : DispatchState) (rows : List Row) : List Row :=
  rows.map fun row =>
    if row.token = token ∧ row.state = .opened then { row with state := state } else row

theorem movedRows_opened (token : String) (rows : List Row) :
    movedRows token .opened rows = rows := by
  refine (List.map_congr_left fun row _ => ?_).trans (List.map_id rows)
  split_ifs with owned
  · exact Row.ext rfl rfl owned.2.symm
  · rfl

def DeliverResult.ends : DeliverResult → DispatchState
  | .applied | .tombstoned => .applied
  | .refused _ => .refused
  | .superseded _ => .superseded
  | .ambiguous _ => .opened

def RevokeResult.ends : RevokeResult → DispatchState
  | .applied _ => .applied
  | .refused _ => .refused
  | .superseded _ => .superseded
  | .ambiguous _ => .opened

theorem ownedDispatch_effect {token : String} {state : DispatchState} {set : Dispatch → Dispatch}
    (moves : ∀ d : Dispatch, d.state = .opened → (set d).row = { d.row with state := state })
    {changes : Nat} {db : LedgerDb} {outcome : Outcome LedgerDb Unit}
    (done : ownedDispatch token set changes db = .ok outcome) :
    outcome.db.rows = movedRows token state db.rows ∧ outcome.db.holding = db.holding := by
  rw [(updateDispatches_eq done).1]
  refine ⟨?_, rfl⟩
  unfold LedgerDb.rows movedRows
  rw [List.map_map, List.map_map]
  refine List.map_congr_left fun d _ => ?_
  simp only [Function.comp_apply, Dispatch.updated, Bool.and_eq_true, beq_iff_eq]
  by_cases owned : d.dispatchId = token ∧ d.state = .opened
  · rw [if_pos owned, if_pos (show d.row.token = token ∧ d.row.state = .opened from owned),
      moves d owned.2]
  · rw [if_neg owned, if_neg (show ¬(d.row.token = token ∧ d.row.state = .opened) from owned)]

theorem finishDelivery_eq (token : String) (result : DeliverResult) :
    ∃ set : Dispatch → Dispatch, finishDelivery clock token result = ownedDispatch token set ∧
      ∀ d : Dispatch, d.state = .opened → (set d).row = { d.row with state := result.ends } := by
  cases result with
  | ambiguous code => exact ⟨_, rfl, fun d opened => Row.ext rfl rfl opened⟩
  | _ => exact ⟨_, rfl, fun _ _ => rfl⟩

theorem unowned_statements {token : String} (unowned : db.owns token = false) (changes : Nat)
    (outcome : Outcome LedgerDb Unit) :
    (∀ set, ownedAccount token set changes db = .ok outcome → outcome.db = db) ∧
      (∀ set, updateGrant (·.owns token) set changes db = .ok outcome → outcome.db = db) ∧
      (∀ set, ownedDispatch token set changes db = .ok outcome → outcome.db = db) := by
  refine ⟨fun set done => ?_, fun set done => ?_, fun set done => ?_⟩
  · rcases updateAccount_cases done with ⟨same, _⟩ | ⟨_, _, owned, _⟩
    · exact same
    · rw [unowned] at owned
      exact Bool.noConfusion owned
  · unfold updateGrant at done
    rw [Option.filter_eq_none_iff.mpr fun _ _ => by simp [unowned]] at done
    obtain rfl := Except.ok.inj done
    rfl
  · exact updateDispatches_of_unmatched
      (fun d isIn => by simpa using (List.any_eq_false.mp unowned) d isIn) done

/-- **A late answer changes nothing.** A delivery's completion whose token's
dispatch is not open leaves every table as it was. -/
theorem completeDelivery_of_unowned (a : DeliveryAnswer) (unowned : db.owns a.token = false) :
    (completeDelivery clock a db).1 = db := by
  refine @batch_invariant _ _ _ db (fun after => after = db) rfl ?_
  rintro statement isIn changes _ outcome rfl done
  obtain ⟨account, grant, dispatch⟩ := unowned_statements unowned changes outcome
  unfold deliveryStatements at isIn
  rcases List.mem_cons.mp isIn with rfl | later
  · exact account _ done
  · rcases List.mem_append.mp later with updates | last
    · obtain ⟨update, _, rfl⟩ := List.mem_map.mp updates
      exact grant _ done
    · obtain ⟨set, isOwned, _⟩ := finishDelivery_eq clock a.token a.result
      rw [List.mem_singleton.mp last, isOwned] at done
      exact dispatch set done

theorem completeRevoke_of_unowned (a : RevokeAnswer) (unowned : db.owns a.token = false) :
    (completeRevoke clock a db).1 = db := by
  refine @batch_invariant _ _ _ db (fun after => after = db) rfl ?_
  rintro statement isIn changes _ outcome rfl done
  obtain ⟨account, grant, dispatch⟩ := unowned_statements unowned changes outcome
  unfold revokeStatements at isIn
  cases result : a.result <;> simp only [result, List.mem_cons, List.not_mem_nil, or_false] at isIn
  · rcases isIn with rfl | rfl | rfl
    · exact account _ done
    · exact grant _ done
    · exact dispatch _ done
  all_goals
    rcases isIn with rfl | rfl
    · exact account _ done
    · exact dispatch _ done

/-- What a delivery's answer makes of the account. -/
def Holding.afterDelivery (h : Holding) (alone : Bool) : DeliverResult → Holding
  | .applied => { h with routerState := .delivered, applied := h.amount }
  | .tombstoned => { h with routerState := .revoked, applied := 0 }
  | .refused _ => { h with
      routerState := if h.routerState = .maybe ∧ alone = true then .none else h.routerState }
  | .ambiguous _ | .superseded _ => h

def Holding.afterRevoke (h : Holding) : RevokeResult → Holding
  | .applied _ => { h with routerState := .revoked, applied := 0 }
  | .ambiguous _ | .superseded _ | .refused _ => h

theorem afterDelivery_holding (a : Account) (db : LedgerDb) (token : String) (now : Nat)
    (result : DeliverResult) :
    (a.afterDelivery db token now result).holding =
      a.holding.afterDelivery (!db.otherDelivery token) result := by
  cases result <;> rfl

theorem otherDelivery_eq_false_iff (db : LedgerDb) (token : String) :
    db.otherDelivery token = false ↔
      ∀ row ∈ db.rows, row.kind = .deliver → row.token ≠ token → row.state = .refused := by
  simp only [LedgerDb.otherDelivery, LedgerDb.rows, Dispatch.row, List.any_eq_false,
    Bool.and_eq_true, beq_iff_eq, bne_iff_ne, List.forall_mem_map]
  refine forall₂_congr fun d _ => ?_
  tauto

/-- A delivery's answer under its open dispatch takes effect, or its batch fails
and changes nothing. -/
theorem completeDelivery_of_owned (a : DeliveryAnswer) (present : db.account.isSome)
    (owned : db.owns a.token = true) :
    (completeDelivery clock a db).1 = db ∨
      ((completeDelivery clock a db).1.rows = movedRows a.token a.result.ends db.rows ∧
        (completeDelivery clock a db).1.holding =
          db.holding.map fun h => h.afterDelivery (!db.otherDelivery a.token) a.result) := by
  obtain ⟨account, isAccount⟩ := Option.isSome_iff_exists.mp present
  have answered : Ensures (fun _ after => after = db)
      (ownedAccount a.token fun tables account =>
        account.afterDelivery tables a.token a.now a.result)
      (fun _ after => after.rows = db.rows ∧ after.holding =
        db.holding.map fun h => h.afterDelivery (!db.otherDelivery a.token) a.result) := by
    rintro changes _ outcome rfl done
    rcases updateAccount_cases done with ⟨_, _, missed⟩ | ⟨found, isFound, _, _, after⟩
    · rw [missed account isAccount] at owned
      exact Bool.noConfusion owned
    · rw [after]
      refine ⟨rfl, ?_⟩
      simp [LedgerDb.holding, isFound, afterDelivery_holding]
  have outbox : ∀ statement ∈ grantUpdates a.token a.grantStmts,
      Ensures (fun _ after => after.rows = db.rows ∧ after.holding =
          db.holding.map fun h => h.afterDelivery (!db.otherDelivery a.token) a.result) statement
        (fun _ after => after.rows = db.rows ∧ after.holding =
          db.holding.map fun h => h.afterDelivery (!db.otherDelivery a.token) a.result) := by
    intro statement isIn changes tables outcome holds done
    obtain ⟨update, _, rfl⟩ := List.mem_map.mp isIn
    obtain ⟨grant, after⟩ := updateGrant_cases done
    rw [after]
    exact holds
  have ended : Ensures (fun _ after => after.rows = db.rows ∧ after.holding =
        db.holding.map fun h => h.afterDelivery (!db.otherDelivery a.token) a.result)
      (finishDelivery clock a.token a.result)
      (fun _ after => after.rows = movedRows a.token a.result.ends db.rows ∧ after.holding =
        db.holding.map fun h => h.afterDelivery (!db.otherDelivery a.token) a.result) := by
    intro changes tables outcome ⟨sameRows, moved⟩ done
    obtain ⟨set, isOwned, moves⟩ := finishDelivery_eq clock a.token a.result
    rw [isOwned] at done
    obtain ⟨rows, holding⟩ := ownedDispatch_effect moves done
    exact ⟨rows.trans (congrArg _ sameRows), holding.trans moved⟩
  rcases batch_chain (Chain.cons answered ((Chain.kept outbox).append (Chain.cons ended Chain.nil)))
    rfl with same | ⟨_, effect⟩
  · exact Or.inl same
  · exact Or.inr effect

/-- A revoke's answer under its open dispatch takes effect, or its batch fails and
changes nothing. -/
theorem completeRevoke_of_owned (a : RevokeAnswer) (present : db.account.isSome)
    (owned : db.owns a.token = true) :
    (completeRevoke clock a db).1 = db ∨
      ((completeRevoke clock a db).1.rows = movedRows a.token a.result.ends db.rows ∧
        (completeRevoke clock a db).1.holding = db.holding.map (·.afterRevoke a.result)) := by
  obtain ⟨account, isAccount⟩ := Option.isSome_iff_exists.mp present
  have answered : ∀ set : LedgerDb → Account → Account,
      (∀ tables account, (set tables account).holding = account.holding.afterRevoke a.result) →
      Ensures (fun _ after => after = db) (ownedAccount a.token set)
        (fun _ after => after.rows = db.rows ∧
          after.holding = db.holding.map (·.afterRevoke a.result)) := by
    rintro set moves changes _ outcome rfl done
    rcases updateAccount_cases done with ⟨_, _, missed⟩ | ⟨found, isFound, _, _, after⟩
    · rw [missed account isAccount] at owned
      exact Bool.noConfusion owned
    · rw [after]
      refine ⟨rfl, ?_⟩
      simp [LedgerDb.holding, isFound, moves]
  have outbox : Ensures (fun _ after => after.rows = db.rows ∧
        after.holding = db.holding.map (·.afterRevoke a.result))
      (updateGrant (·.owns a.token) (·.tombstoned))
      (fun _ after => after.rows = db.rows ∧
        after.holding = db.holding.map (·.afterRevoke a.result)) := by
    intro changes tables outcome holds done
    obtain ⟨grant, after⟩ := updateGrant_cases done
    rw [after]
    exact holds
  have ended : ∀ set : Dispatch → Dispatch,
      (∀ d : Dispatch, d.state = .opened → (set d).row = { d.row with state := a.result.ends }) →
      Ensures (fun _ after => after.rows = db.rows ∧
          after.holding = db.holding.map (·.afterRevoke a.result))
        (ownedDispatch a.token set)
        (fun _ after => after.rows = movedRows a.token a.result.ends db.rows ∧
          after.holding = db.holding.map (·.afterRevoke a.result)) := by
    intro set moves changes tables outcome ⟨sameRows, moved⟩ done
    obtain ⟨rows, holding⟩ := ownedDispatch_effect moves done
    exact ⟨rows.trans (congrArg _ sameRows), holding.trans moved⟩
  have chain : Chain (fun _ after => after = db) (revokeStatements clock a)
      (fun _ after => after.rows = movedRows a.token a.result.ends db.rows ∧
        after.holding = db.holding.map (·.afterRevoke a.result)) := by
    unfold revokeStatements
    cases result : a.result <;> simp only [result] at answered outbox ended ⊢
    case applied text =>
      exact Chain.cons (answered _ fun _ _ => rfl)
        (Chain.cons outbox (Chain.cons (ended _ fun _ _ => rfl) Chain.nil))
    case ambiguous code =>
      exact Chain.cons (answered _ fun _ _ => rfl)
        (Chain.cons (ended _ fun d opened => Row.ext rfl rfl opened) Chain.nil)
    all_goals
      exact Chain.cons (answered _ fun _ _ => rfl)
        (Chain.cons (ended _ fun _ _ => rfl) Chain.nil)
  rcases batch_chain chain rfl with same | ⟨_, effect⟩
  · exact Or.inl same
  · exact Or.inr effect

end Murage.FluxLedger
