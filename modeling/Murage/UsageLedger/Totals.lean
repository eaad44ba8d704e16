import Murage.Library.Numbers
import Murage.UsageLedger.Rollup

/-!
Owns the kept totals of the budget check: the transactions around the ledger with their rollback
hooks, the totals with their watermark, the calls that read, drop and reconcile them, and that
what is read is always the sum of the rows.

Does not own: the budgets and the reported usage.
-/

namespace Murage.UsageLedger

open Murage.Library

/-! ## The sums of the rows -/

structure Sums where
  workMs : Int
  input : Int
  output : Int
  deriving DecidableEq

def sumsOf (rows : List Row) : Sums :=
  { workMs := (rows.map (·.workMs)).sum
    input := (rows.map fun row => row.input.getD 0).sum
    output := (rows.map fun row => row.output.getD 0).sum }

/-- The rows of a scope, all or those past a rowid. -/
def sumScope (scope : Scope) (after : Option Nat) (ledger : Ledger) : Sums :=
  sumsOf ((ledger.filter fun entry =>
    after.all (· < entry.rowid) && scope.covers entry.row).map (·.row))

/-! ## The kept totals -/

/-- `watermark`: the highest rowid that they cover. -/
structure BudgetTotals where
  since : Option Int
  sums : Sums
  watermark : Nat
  deriving DecidableEq

/-- What a rollback runs. -/
inductive Hook
  | dropBudgetTotals

/-- An open transaction: the rows to go back to, and its hooks. -/
structure Frame where
  snapshot : Ledger
  rollback : List Hook := []

structure State where
  ledger : Ledger
  frames : List Frame := []
  totals : OrderedMap String BudgetTotals := ∅

def Hook.run (state : State) : Hook → State
  | .dropBudgetTotals => { state with totals := ∅ }

def txBegin (state : State) : State :=
  { state with frames := { snapshot := state.ledger } :: state.frames }

/-- A commit hands its hooks to the enclosing transaction; a rollback brings the rows back and
runs them. -/
def txEnd (committed : Bool) (state : State) : State :=
  match state.frames with
  | [] => state
  | frame :: rest =>
    if committed then
      { state with
        frames := rest.modifyHead fun parent =>
          { parent with rollback := parent.rollback ++ frame.rollback } }
    else
      frame.rollback.reverse.foldl Hook.run
        { state with
          ledger := frame.snapshot
          frames := rest }

/-- `run` says whether it returns. -/
def atomic (run : State → Bool × State) (state : State) : State :=
  let result := run (txBegin state)
  txEnd result.1 result.2

/-- Drops the totals now, and again when the transaction around the call rolls back. -/
def dropBudgetTotals (state : State) : State :=
  { state with
    totals := ∅
    frames := state.frames.modifyHead fun frame =>
      { frame with rollback := frame.rollback ++ [.dropBudgetTotals] } }

/-- No id of a group or a goal holds it. -/
def nul : Char := Char.ofNat 0

def totalsKey (scope : Scope) : String :=
  String.ofList (scope.groupId.toList ++ nul :: (scope.goalId.getD "").toList)

def scopeOfKey (key : String) (since : Option Int) : Scope :=
  let parts := key.toList.splitOn nul
  { groupId := String.ofList (parts.headD [])
    goalId := (parts[1]?.map String.ofList).filter (· ≠ "")
    since := since }

/-- The totals with the rows past their watermark. -/
def BudgetTotals.caughtUp (entry : BudgetTotals) (scope : Scope) (ledger : Ledger) : Sums :=
  let more := sumScope scope (some entry.watermark) ledger
  { workMs := entry.sums.workMs + more.workMs
    input := entry.sums.input + more.input
    output := entry.sums.output + more.output }

def budgetUsageTotals (scope : Scope) (state : State) : Sums × State :=
  if !state.frames.isEmpty then (sumScope scope none state.ledger, state)
  else
    let head := ledgerHead state.ledger
    let rebuilt : BudgetTotals :=
      { since := scope.since
        sums := sumScope scope none state.ledger
        watermark := head }
    let rebuild := (rebuilt.sums, { state with totals := state.totals.set (totalsKey scope) rebuilt })
    match state.totals.get (totalsKey scope) with
    | none => rebuild
    | some entry =>
      if entry.since ≠ scope.since || head < entry.watermark then rebuild
      else if entry.watermark < head then
        let caughtUp : BudgetTotals :=
          { entry with
            sums := entry.caughtUp scope state.ledger
            watermark := head }
        (caughtUp.sums, { state with totals := state.totals.set (totalsKey scope) caughtUp })
      else (entry.sums, state)

def reconciled (ledger : Ledger) (key : String) (entry : BudgetTotals) : BudgetTotals :=
  { since := entry.since
    sums := sumScope (scopeOfKey key entry.since) none ledger
    watermark := ledgerHead ledger }

/-- How many totals had drifted, and the totals summed again. -/
def reconcileBudgetTotals (state : State) : Nat × State :=
  if !state.frames.isEmpty then (0, state)
  else
    state.totals.entries.foldl (fun result pair =>
      let fresh := reconciled state.ledger pair.1 pair.2
      (result.1 + (if fresh.sums = pair.2.sums then 0 else 1),
        { result.2 with totals := result.2.totals.set pair.1 fresh })) (0, state)

/-! ## Runs -/

section Calls

variable (hash : List (Option String) → String) (before : SettleKey → SettleKey → Bool)

/-- `raises`: writing the row fails. -/
inductive Call
  | txBegin
  | txEnd (committed : Bool)
  | settle (settlement : Settlement) (raises : Bool)
  | rollup (tables : Budgets) (now : Int)
  | reconcile
  | totals (scope : Scope)

/-- A terminal that takes the place of unknown usage drops the totals. -/
def settleCall (settlement : Settlement) (raises : Bool) (state : State) : State :=
  match settlement with
  | .usage request terminal =>
    atomic (fun state =>
      let settled := settleProjectUsage request terminal state.ledger
      let left := { state with ledger := settled.ledger }
      (!raises, if settled.removed then dropBudgetTotals left else left)) state
  | _ => if raises then state else { state with ledger := settlement.run state.ledger }

def rollupCall (tables : Budgets) (now : Int) (state : State) : State :=
  atomic (fun state =>
    (true, dropBudgetTotals
      { state with ledger := rollupSettledUsage hash before tables now state.ledger })) state

def step (state : State) : Call → State
  | .txBegin => txBegin state
  | .txEnd committed => txEnd committed state
  | .settle settlement raises => settleCall settlement raises state
  | .rollup tables now => rollupCall hash before tables now state
  | .reconcile => (reconcileBudgetTotals state).2
  | .totals scope => (budgetUsageTotals scope state).2

end Calls

/-! ## What an entry counts -/

def sumUpTo (scope : Scope) (watermark : Nat) (ledger : Ledger) : Sums :=
  sumsOf ((ledger.filter fun entry =>
    entry.rowid ≤ watermark && scope.covers entry.row).map (·.row))

/-- The totals are those of the scope's rows up to their watermark, which the rows reach. -/
structure Counts (ledger : Ledger) (scope : Scope) (entry : BudgetTotals) : Prop where
  reached : entry.watermark ≤ ledgerHead ledger
  sums : entry.sums = sumUpTo scope entry.watermark ledger

theorem rowid_le_head {ledger : Ledger} {entry : Entry} (isIn : entry ∈ ledger) :
    entry.rowid ≤ ledgerHead ledger :=
  Numbers.le_topOf (·.rowid) isIn

theorem sumScope_none (scope : Scope) (ledger : Ledger) :
    sumScope scope none ledger = sumUpTo scope (ledgerHead ledger) ledger := by
  unfold sumScope sumUpTo
  congr 2
  refine List.filter_congr fun entry isIn => ?_
  rw [decide_eq_true (rowid_le_head isIn)]
  rfl

theorem Counts.fresh (scope : Scope) (ledger : Ledger) :
    Counts ledger scope
      { since := scope.since
        sums := sumScope scope none ledger
        watermark := ledgerHead ledger } where
  reached := Nat.le_refl _
  sums := sumScope_none scope ledger

theorem sumScope_split (scope : Scope) (watermark : Nat) (ledger : Ledger) :
    sumScope scope none ledger =
      { workMs := (sumUpTo scope watermark ledger).workMs +
          (sumScope scope (some watermark) ledger).workMs
        input := (sumUpTo scope watermark ledger).input +
          (sumScope scope (some watermark) ledger).input
        output := (sumUpTo scope watermark ledger).output +
          (sumScope scope (some watermark) ledger).output } := by
  have isSplit : ((ledger.filter fun entry => scope.covers entry.row).map (·.row)).Perm
      ((ledger.filter fun entry => entry.rowid ≤ watermark && scope.covers entry.row).map (·.row) ++
        (ledger.filter fun entry => watermark < entry.rowid && scope.covers entry.row).map
          (·.row)) := by
    rw [← List.map_append]
    refine List.Perm.map _ ?_
    refine (List.filter_append_perm (fun entry => decide (entry.rowid ≤ watermark))
      (ledger.filter fun entry => scope.covers entry.row)).symm.trans (List.Perm.of_eq ?_)
    rw [List.filter_filter, List.filter_filter]
    congr 1
    refine List.filter_congr fun entry _ => ?_
    rw [← decide_not, decide_eq_decide.mpr Nat.not_le]
  have sameSum : ∀ measure : Row → Int,
      (((ledger.filter fun entry => scope.covers entry.row).map (·.row)).map measure).sum =
        (((ledger.filter fun entry =>
            entry.rowid ≤ watermark && scope.covers entry.row).map (·.row)).map measure).sum +
          (((ledger.filter fun entry =>
            watermark < entry.rowid && scope.covers entry.row).map (·.row)).map measure).sum := by
    intro measure
    rw [(isSplit.map measure).sum_eq, List.map_append, List.sum_append]
  exact Sums.mk.injEq .. |>.mpr ⟨sameSum _, sameSum _, sameSum _⟩

theorem ledgerHead_append (ledger : Ledger) (entry : Entry) :
    ledgerHead (ledger ++ [entry]) = max (ledgerHead ledger) entry.rowid := by
  induction ledger with
  | nil => exact Nat.max_comm _ _
  | cons first rest ih =>
    show max first.rowid (ledgerHead (rest ++ [entry])) = _
    rw [ih, ← Nat.max_assoc]
    rfl

theorem Counts.insert {ledger : Ledger} {scope : Scope} {entry : BudgetTotals}
    (counts : Counts ledger scope entry) (row : Row) :
    Counts (insertRow row ledger).2 scope entry := by
  unfold insertRow
  split_ifs
  · exact counts
  · constructor
    · rw [ledgerHead_append]
      exact counts.reached.trans (Nat.le_max_left _ _)
    · have isPast : ¬ ledgerHead ledger + 1 ≤ entry.watermark :=
        Nat.not_le.mpr (Nat.lt_succ_of_le counts.reached)
      rw [counts.sums, sumUpTo, sumUpTo, List.filter_append]
      simp [isPast]

theorem Counts.catchUp {ledger : Ledger} {scope : Scope} {entry : BudgetTotals}
    (counts : Counts ledger scope entry) :
    entry.caughtUp scope ledger = sumScope scope none ledger := by
  rw [sumScope_split scope entry.watermark ledger, BudgetTotals.caughtUp, counts.sums]

/-! ## Keys -/

/-- No id holds the character that parts a key. -/
structure Scope.Plain (scope : Scope) : Prop where
  group : nul ∉ scope.groupId.toList
  goal : nul ∉ (scope.goalId.getD "").toList

theorem Scope.goal_eq (scope : Scope) :
    scope.goal = if scope.goalId.getD "" = "" then none else some (scope.goalId.getD "") := by
  unfold Scope.goal
  cases scope.goalId with
  | none => rfl
  | some goalId => by_cases isEmpty : goalId = "" <;> simp [isEmpty]

theorem Scope.covers_congr {scope other : Scope} (sameGroup : scope.groupId = other.groupId)
    (sameGoal : scope.goalId.getD "" = other.goalId.getD "") (sameSince : scope.since = other.since) :
    scope.covers = other.covers := by
  funext row
  rw [Scope.covers, Scope.covers, scope.goal_eq, other.goal_eq, sameGroup, sameGoal, sameSince]

theorem Scope.Plain.of_totalsKey {scope other : Scope} (isPlain : scope.Plain)
    (sameKey : totalsKey scope = totalsKey other) :
    scope.groupId = other.groupId ∧ scope.goalId.getD "" = other.goalId.getD "" := by
  obtain ⟨sameGroup, -, sameGoal⟩ := (List.append_cons_inj_of_notMem isPlain.group isPlain.goal).mp
    (String.ofList_injective sameKey)
  exact ⟨String.toList_inj.mp sameGroup, String.toList_inj.mp sameGoal⟩

theorem Scope.Plain.scopeOfKey {scope : Scope} (isPlain : scope.Plain) :
    (scopeOfKey (totalsKey scope) scope.since).covers = scope.covers := by
  have areParts : (totalsKey scope).toList.splitOn nul =
      [scope.groupId.toList, (scope.goalId.getD "").toList] := by
    have notPart : ∀ {letters : List Char}, nul ∉ letters →
        ∀ letter ∈ letters, (letter == nul) = false :=
      fun absent letter isIn => beq_false_of_ne fun same => absent (same ▸ isIn)
    rw [totalsKey, String.toList_ofList, List.splitOn,
      List.splitOnP_append_cons _ _ (p := (· == nul)) (beq_self_eq_true nul),
      List.splitOnP_eq_singleton (notPart isPlain.group),
      List.splitOnP_eq_singleton (notPart isPlain.goal)]
    rfl
  refine Scope.covers_congr ?_ ?_ rfl
  · simp [UsageLedger.scopeOfKey, areParts]
  · by_cases isEmpty : scope.goalId.getD "" = "" <;>
      simp [UsageLedger.scopeOfKey, areParts, isEmpty, Option.filter]

/-! ## What every call keeps -/

/-- The rows now, and those that a rollback may bring back. -/
def State.ledgers (state : State) : List Ledger :=
  state.ledger :: state.frames.map (·.snapshot)

/-- The kept totals of plain scopes are right, now and after every rollback. -/
def Kept (state : State) : Prop :=
  ∀ pair ∈ state.totals.entries, ∀ scope : Scope, scope.Plain → totalsKey scope = pair.1 →
    scope.since = pair.2.since → ∀ ledger ∈ state.ledgers, Counts ledger scope pair.2

theorem Kept.of_subset {state next : State} (kept : Kept state)
    (totals : ∀ pair ∈ next.totals.entries, pair ∈ state.totals.entries)
    (ledgers : ∀ ledger ∈ next.ledgers, ledger ∈ state.ledgers) : Kept next :=
  fun pair isIn scope isPlain isKey isSince ledger isLedger =>
    kept pair (totals pair isIn) scope isPlain isKey isSince ledger (ledgers ledger isLedger)

variable {state : State}

theorem kept_of_empty (isEmpty : state.totals = ∅) : Kept state := by
  intro pair isIn
  rw [isEmpty] at isIn
  exact absurd isIn List.not_mem_nil

theorem snapshots_modifyHead (frames : List Frame) (hooks : Frame → List Hook) :
    (frames.modifyHead fun frame => { frame with rollback := hooks frame }).map (·.snapshot) =
      frames.map (·.snapshot) := by
  cases frames <;> rfl

theorem Kept.txBegin (kept : Kept state) : Kept (txBegin state) := by
  refine kept.of_subset (fun pair isIn => isIn) fun ledger isIn => ?_
  rcases List.mem_cons.mp isIn with rfl | isIn
  · exact List.mem_cons_self
  · rcases List.mem_cons.mp isIn with rfl | isIn
    · exact List.mem_cons_self
    · exact List.mem_cons_of_mem _ isIn

theorem foldl_hooks (hooks : List Hook) (state : State) :
    (hooks.foldl Hook.run state).ledger = state.ledger ∧
      (hooks.foldl Hook.run state).frames = state.frames ∧
      ∀ pair ∈ (hooks.foldl Hook.run state).totals.entries, pair ∈ state.totals.entries := by
  induction hooks generalizing state with
  | nil => exact ⟨rfl, rfl, fun pair isIn => isIn⟩
  | cons hook rest ih =>
    obtain ⟨sameLedger, sameFrames, fewer⟩ := ih (hook.run state)
    cases hook with
    | dropBudgetTotals =>
      exact ⟨sameLedger, sameFrames, fun pair isIn => absurd (fewer pair isIn)
        List.not_mem_nil⟩

theorem txEnd_commit {frame : Frame} {rest : List Frame} (isFrames : state.frames = frame :: rest) :
    txEnd true state =
      { state with
        frames := rest.modifyHead fun parent =>
          { parent with rollback := parent.rollback ++ frame.rollback } } := by
  unfold txEnd
  rw [isFrames]
  rfl

theorem txEnd_rollback {frame : Frame} {rest : List Frame}
    (isFrames : state.frames = frame :: rest) :
    txEnd false state =
      frame.rollback.reverse.foldl Hook.run
        { state with
          ledger := frame.snapshot
          frames := rest } := by
  unfold txEnd
  rw [isFrames]
  rfl

theorem Kept.txEnd (kept : Kept state) (committed : Bool) :
    Kept (txEnd committed state) := by
  cases isFrames : state.frames with
  | nil =>
    have isSame : UsageLedger.txEnd committed state = state := by
      unfold UsageLedger.txEnd
      rw [isFrames]
    rw [isSame]
    exact kept
  | cons frame rest =>
    cases committed with
    | true =>
      rw [txEnd_commit isFrames]
      refine kept.of_subset (fun pair isIn => isIn) fun ledger isIn => ?_
      rw [State.ledgers, snapshots_modifyHead] at isIn
      rw [State.ledgers, isFrames]
      rcases List.mem_cons.mp isIn with rfl | isIn
      · exact List.mem_cons_self
      · exact List.mem_cons_of_mem _ (List.mem_cons_of_mem _ isIn)
    | false =>
      rw [txEnd_rollback isFrames]
      obtain ⟨sameLedger, sameFrames, fewer⟩ := foldl_hooks frame.rollback.reverse
        { state with
          ledger := frame.snapshot
          frames := rest }
      refine kept.of_subset fewer fun ledger isIn => ?_
      rw [State.ledgers, sameLedger, sameFrames] at isIn
      rw [State.ledgers, isFrames]
      exact List.mem_cons_of_mem _ isIn

theorem Kept.insert (kept : Kept state) (row : Row) :
    Kept { state with ledger := (insertRow row state.ledger).2 } := by
  intro pair isIn scope isPlain isKey isSince ledger isLedger
  rcases List.mem_cons.mp isLedger with rfl | isSnapshot
  · exact (kept pair isIn scope isPlain isKey isSince _ List.mem_cons_self).insert row
  · exact kept pair isIn scope isPlain isKey isSince ledger (List.mem_cons_of_mem _ isSnapshot)

theorem settleProjectUsage_cases (request : RoomRequest) (terminal : ProjectUsageTerminal)
    (ledger : Ledger) :
    (settleProjectUsage request terminal ledger).removed = true ∨
      (settleProjectUsage request terminal ledger).ledger = ledger ∨
      ∃ row, (settleProjectUsage request terminal ledger).ledger = (insertRow row ledger).2 := by
  unfold settleProjectUsage
  cases request.dispatchedAt with
  | none => exact Or.inr (Or.inl rfl)
  | some dispatched =>
    by_cases isSettled : (terminal.unknown && ledger.any (settledRun request dispatched ·.row)) = true
    · exact Or.inr (Or.inl (congrArg Settled.ledger (if_pos isSettled)))
    · simp only [if_neg isSettled]
      by_cases removes : ledger.any (replacedRow request terminal dispatched ·.row) = true
      · refine Or.inl ?_
        split_ifs
        · exact removes
        · exact removes
      · have isSame : deleteRows (replacedRow request terminal dispatched) ledger = ledger := by
          refine List.filter_eq_self.mpr fun entry isIn => ?_
          rw [Bool.not_eq_true']
          exact Bool.eq_false_iff.mpr fun isReplaced =>
            removes (List.any_eq_true.mpr ⟨entry, isIn, isReplaced⟩)
        rw [isSame]
        refine Or.inr ?_
        split_ifs
        · exact Or.inl rfl
        · exact Or.inr ⟨_, rfl⟩

theorem Kept.usage (kept : Kept state) (request : RoomRequest) (terminal : ProjectUsageTerminal) :
    Kept
      (if (settleProjectUsage request terminal state.ledger).removed then
        dropBudgetTotals
          { state with ledger := (settleProjectUsage request terminal state.ledger).ledger }
      else { state with ledger := (settleProjectUsage request terminal state.ledger).ledger }) := by
  split_ifs with removes
  · exact kept_of_empty rfl
  · rcases settleProjectUsage_cases request terminal state.ledger with removed | isSame | ⟨row, isNew⟩
    · exact absurd removed removes
    · rw [isSame]
      exact kept
    · rw [isNew]
      exact kept.insert row

theorem Kept.settleCall (kept : Kept state) (settlement : Settlement) (raises : Bool) :
    Kept (settleCall settlement raises state) := by
  cases settlement with
  | usage request terminal => exact (kept.txBegin.usage request terminal).txEnd _
  | toolCharge request input =>
    cases raises with
    | true => exact kept
    | false =>
      show Kept { state with ledger := (settleProjectToolCharge request input state.ledger).2 }
      unfold settleProjectToolCharge
      split_ifs
      · exact kept.insert _
      · exact kept
  | ownerTurn turn =>
    cases raises with
    | true => exact kept
    | false =>
      show Kept { state with ledger := (settleSharedWorkOwnerTurn turn state.ledger).2 }
      unfold settleSharedWorkOwnerTurn
      split_ifs
      · exact kept
      · exact kept.insert _

/-! ## Reads -/

theorem Kept.set (kept : Kept state) (noFrames : state.frames = [])
    (key : String) (entry : BudgetTotals)
    (isRight : ∀ scope : Scope, scope.Plain → totalsKey scope = key → scope.since = entry.since →
      Counts state.ledger scope entry) :
    Kept { state with totals := state.totals.set key entry } := by
  intro pair isIn scope isPlain isKey isSince ledger isLedger
  have isNow : ledger = state.ledger := by
    rw [State.ledgers, noFrames] at isLedger
    exact List.mem_singleton.mp isLedger
  rw [isNow]
  rcases OrderedMap.mem_entries_set isIn with rfl | isOld
  · exact isRight scope isPlain isKey isSince
  · exact kept pair isOld scope isPlain isKey isSince _ List.mem_cons_self

theorem Counts.congr {ledger : Ledger} {scope other : Scope} {entry : BudgetTotals}
    (counts : Counts ledger scope entry) (sameRows : scope.covers = other.covers) :
    Counts ledger other entry where
  reached := counts.reached
  sums := by rw [counts.sums, sumUpTo, sumUpTo, sameRows]

theorem sumScope_congr {scope other : Scope} (sameRows : scope.covers = other.covers)
    (after : Option Nat) (ledger : Ledger) :
    sumScope scope after ledger = sumScope other after ledger := by
  rw [sumScope, sumScope, sameRows]

/-- What a read does: it answers from the rows, or from an entry that stands as it is or is
caught up with the rows; what it keeps is what it answers. -/
inductive Reads (scope : Scope) (state : State) : Sums × State → Prop
  | rows : Reads scope state (sumScope scope none state.ledger, state)
  | rebuilt (noFrames : state.frames = []) :
      Reads scope state (sumScope scope none state.ledger,
        { state with
          totals := state.totals.set (totalsKey scope)
            { since := scope.since
              sums := sumScope scope none state.ledger
              watermark := ledgerHead state.ledger } })
  | caughtUp (noFrames : state.frames = []) (entry : BudgetTotals)
      (isThere : state.totals.get (totalsKey scope) = some entry)
      (isSince : entry.since = scope.since) :
      Reads scope state (entry.caughtUp scope state.ledger,
        { state with
          totals := state.totals.set (totalsKey scope)
            { entry with
              sums := entry.caughtUp scope state.ledger
              watermark := ledgerHead state.ledger } })
  | stands (entry : BudgetTotals) (isThere : state.totals.get (totalsKey scope) = some entry)
      (isSince : entry.since = scope.since) (isReached : ledgerHead state.ledger = entry.watermark) :
      Reads scope state (entry.sums, state)

theorem budgetUsageTotals_reads (scope : Scope) (state : State) :
    Reads scope state (budgetUsageTotals scope state) := by
  unfold budgetUsageTotals
  by_cases inTransaction : (!state.frames.isEmpty) = true
  · rw [if_pos inTransaction]
    exact Reads.rows
  · rw [if_neg inTransaction]
    have noFrames : state.frames = [] := by simpa using inTransaction
    cases isIn : state.totals.get (totalsKey scope) with
    | none => exact Reads.rebuilt noFrames
    | some entry =>
      show Reads scope state (if _ then _ else if _ then _ else _)
      split_ifs with isStale isBehind
      · exact Reads.rebuilt noFrames
      · have isSince : entry.since = scope.since := by
          by_contra other
          exact isStale (by simp [other])
        exact Reads.caughtUp noFrames entry isIn isSince
      · obtain ⟨isSince, isKnown⟩ : entry.since = scope.since ∧
            ¬ ledgerHead state.ledger < entry.watermark := by
          simpa using isStale
        exact Reads.stands entry isIn isSince
          (Nat.le_antisymm (Nat.le_of_not_lt isBehind) (Nat.le_of_not_lt isKnown))

variable {scope : Scope} {state : State} {result : Sums × State}

/-- **A read answers the sums of the rows.** -/
theorem Reads.exact (reads : Reads scope state result) (kept : Kept state) (isPlain : scope.Plain) :
    result.1 = sumScope scope none state.ledger := by
  have isRight : ∀ entry, state.totals.get (totalsKey scope) = some entry →
      entry.since = scope.since → Counts state.ledger scope entry :=
    fun entry isIn isSince => kept (totalsKey scope, entry) (OrderedMap.mem_entries_of_get isIn)
      scope isPlain rfl isSince.symm _ List.mem_cons_self
  cases reads with
  | rows => rfl
  | rebuilt noFrames => rfl
  | caughtUp noFrames entry isIn isSince => exact (isRight entry isIn isSince).catchUp
  | stands entry isIn isSince isReached =>
    rw [sumScope_none, isReached]
    exact (isRight entry isIn isSince).sums

theorem Reads.kept (reads : Reads scope state result) (kept : Kept state) : Kept result.2 := by
  have sameRows : ∀ other : Scope, other.Plain → totalsKey other = totalsKey scope →
      other.since = scope.since → other.covers = scope.covers :=
    fun other isPlain isKey isSince =>
      Scope.covers_congr (isPlain.of_totalsKey isKey).1 (isPlain.of_totalsKey isKey).2 isSince
  cases reads with
  | rows => exact kept
  | rebuilt noFrames =>
    exact kept.set noFrames _ _ fun other isPlain isKey isSince =>
      (Counts.fresh scope state.ledger).congr (sameRows other isPlain isKey isSince).symm
  | caughtUp noFrames entry isIn isSince =>
    refine kept.set noFrames _ _ fun other isPlain isKey otherSince => ?_
    have same := sameRows other isPlain isKey (otherSince.trans isSince)
    have counts := kept (totalsKey scope, entry) (OrderedMap.mem_entries_of_get isIn)
      other isPlain isKey otherSince _ List.mem_cons_self
    constructor
    · exact Nat.le_refl _
    · show entry.caughtUp scope state.ledger = _
      rw [← sumScope_none, ← counts.catchUp, BudgetTotals.caughtUp, BudgetTotals.caughtUp,
        sumScope_congr same]
  | stands entry isIn isSince isReached => exact kept

theorem Kept.reconcile (kept : Kept state) : Kept (reconcileBudgetTotals state).2 := by
  unfold reconcileBudgetTotals
  cases isFrames : state.frames with
  | cons frame rest => exact kept
  | nil =>
    have eachKeeps : ∀ (pairs : List (String × BudgetTotals)) (count : Nat) (current : State),
        current.ledger = state.ledger → current.frames = [] → Kept current →
          Kept (pairs.foldl (fun result pair =>
            (result.1 + (if (reconciled state.ledger pair.1 pair.2).sums = pair.2.sums then 0 else 1),
              { result.2 with
                totals := result.2.totals.set pair.1 (reconciled state.ledger pair.1 pair.2) }))
            (count, current)).2 := by
      intro pairs
      induction pairs with
      | nil => exact fun _ _ _ _ isKept => isKept
      | cons pair rest ih =>
        intro count current isLedger noFrames isKept
        refine ih _ _ isLedger noFrames ?_
        refine isKept.set noFrames _ _ fun other isPlain isKey isSince => ?_
        rw [isLedger]
        have sameRows : (scopeOfKey pair.1 pair.2.since).covers = other.covers := by
          have isSince' : other.since = pair.2.since := isSince
          rw [← isKey, ← isSince', isPlain.scopeOfKey]
        exact (Counts.fresh (scopeOfKey pair.1 pair.2.since) state.ledger).congr sameRows
    exact eachKeeps _ _ _ rfl isFrames kept

section Runs

variable (hash : List (Option String) → String) (before : SettleKey → SettleKey → Bool)

theorem Kept.step (kept : Kept state) (call : Call) : Kept (step hash before state call) := by
  cases call with
  | txBegin => exact kept.txBegin
  | txEnd committed => exact kept.txEnd committed
  | settle settlement raises => exact kept.settleCall settlement raises
  | rollup tables now => exact Kept.txEnd (kept_of_empty rfl) _
  | reconcile => exact kept.reconcile
  | totals scope => exact (budgetUsageTotals_reads scope state).kept kept

def runCalls (ledger : Ledger) (calls : List Call) : State :=
  calls.foldl (step hash before) { ledger := ledger }

theorem runCalls_kept (ledger : Ledger) (calls : List Call) :
    Kept (runCalls hash before ledger calls) := by
  have eachKeeps : ∀ (rest : List Call) (current : State), Kept current →
      Kept (rest.foldl (UsageLedger.step hash before) current) := by
    intro rest
    induction rest with
    | nil => exact fun _ isKept => isKept
    | cons call rest ih =>
      exact fun current isKept => ih _ (isKept.step hash before call)
  exact eachKeeps calls _ (kept_of_empty rfl)

/-- **The kept totals are always the sums of the rows**: after any calls, a read of a plain scope
answers the sums of the rows that are there. -/
theorem budgetUsageTotals_exact (ledger : Ledger) (calls : List Call) (scope : Scope)
    (isPlain : scope.Plain) :
    (budgetUsageTotals scope (runCalls hash before ledger calls)).1 =
      sumScope scope none (runCalls hash before ledger calls).ledger :=
  (budgetUsageTotals_reads scope _).exact (runCalls_kept hash before ledger calls) isPlain

end Runs

def workRow (groupId goalId : String) : Row :=
  { settleKey := .turn "thread" "turn" (some 0)
    groupId := some groupId
    goalId := some goalId
    requestId := some "request"
    rootId := some "request"
    botId := "bot"
    engine := "codex"
    tokensReported := false
    chargeKind := .none
    workMs := 5
    ok := true
    atMs := 0 }

def workLedger (groupId goalId : String) : Ledger :=
  [{ rowid := 1
     row := workRow groupId goalId }]

/-- A read, a rollup that is rolled back, and a read again. -/
theorem budgetUsageTotals_exact_workLedger :
    ∃ calls : List Call, calls.length = 4 ∧
      (budgetUsageTotals { groupId := "group" }
          (runCalls (fun _ => "") (fun _ _ => true) (workLedger "group" "goal") calls)).1 =
        sumScope { groupId := "group" } none
          (runCalls (fun _ => "") (fun _ _ => true) (workLedger "group" "goal") calls).ledger :=
  ⟨[.totals { groupId := "group" }, .txBegin,
      .rollup
        { budgets := []
          goals := [] } 0, .txEnd false], rfl,
    budgetUsageTotals_exact (fun _ => "") (fun _ _ => true) _ _ { groupId := "group" }
      ⟨by decide, by decide⟩⟩

/-- Ids that hold the parting character share a key: one scope reads the totals of the other. -/
theorem budgetUsageTotals_mixes_scopes :
    (budgetUsageTotals
        { groupId := "a"
          goalId := some "b\x00c" }
        (runCalls (fun _ => "") (fun _ _ => true) (workLedger "a\x00b" "c")
          [.totals
            { groupId := "a\x00b"
              goalId := some "c" }])).1 ≠
      sumScope
        { groupId := "a"
          goalId := some "b\x00c" } none
        (runCalls (fun _ => "") (fun _ _ => true) (workLedger "a\x00b" "c")
          [.totals
            { groupId := "a\x00b"
              goalId := some "c" }]).ledger := by
  decide

end Murage.UsageLedger
