import Mathlib
import Murage.Library.Grouping

/-!
Owns the usage ledger: its rows and their keys, the settlement of a turn, of a tool's charge and
of the owner's shared work, the reported usage of a project, and the rollup of old rows.

Does not own: the kept totals of the budget check.
-/

namespace Murage.UsageLedger

open Murage.Library

/-! ## Rows -/

/-- The kinds of settle keys. `dispatch`: the start of the run that a key names, which keys of
older builds do not. `day`: the UTC day, counted from the epoch; `group`: the text of the id, `null` for none.
`other`: a key of no kind. -/
inductive SettleKey
  | turn (threadId providerTurnId : String) (dispatch : Option Int)
  | req (requestId turnGeneration : String) (dispatch : Option Int)
  | unknown (requestId : String) (dispatch : Option Int)
  | charge (operationId : String)
  | sharedOwner (turnGeneration : String)
  | rollup (group : String) (day : Int) (hash : String) (interrupted : Bool)
  | other (text : String)
  deriving DecidableEq

namespace SettleKey

/-- What stands after `:dispatch:`. -/
def dispatch : SettleKey → Option Int
  | .turn _ _ dispatch | .req _ _ dispatch | .unknown _ dispatch => dispatch
  | _ => none

/-- `LIKE 'unknown:%'`. -/
def isUnknown : SettleKey → Bool
  | .unknown _ _ => true
  | _ => false

/-- `LIKE 'charge:%'`. -/
def isCharge : SettleKey → Bool
  | .charge _ => true
  | _ => false

/-- `LIKE 'unknown:%' OR LIKE 'rollup:%:interrupted'`. -/
def isInterrupted : SettleKey → Bool
  | .unknown _ _ => true
  | .rollup _ _ _ interrupted => interrupted
  | _ => false

end SettleKey

inductive ChargeKind
  | charge
  | estimate
  | none
  deriving DecidableEq

def ChargeKind.text : ChargeKind → String
  | .charge => "charge"
  | .estimate => "estimate"
  | .none => "none"

/-- A row of `usage_ledger`; money is exact. `audience`: the column's text. -/
structure Row where
  settleKey : SettleKey
  groupId : Option String := none
  goalId : Option String := none
  workItemId : Option String := none
  requestId : Option String := none
  rootId : Option String := none
  botId : String
  engine : String
  model : Option String := none
  input : Option Int := none
  output : Option Int := none
  cachedInput : Option Int := none
  tokensReported : Bool
  charge : Option ℚ := none
  chargeKind : ChargeKind
  workMs : Int
  ok : Bool
  audience : Option String := none
  rolledUp : Bool := false
  atMs : Int
  deriving DecidableEq

/-- A row with its rowid. -/
structure Entry where
  rowid : Nat
  row : Row
  deriving DecidableEq

abbrev Ledger := List Entry

/-- `COALESCE(MAX(rowid),0)`. -/
def ledgerHead (ledger : Ledger) : Nat := ledger.foldr (fun entry top => max entry.rowid top) 0

def hasKey (ledger : Ledger) (key : SettleKey) : Bool :=
  ledger.any fun entry => entry.row.settleKey = key

/-- `INSERT ... ON CONFLICT(settle_key) DO NOTHING`; whether a row went in. -/
def insertRow (row : Row) (ledger : Ledger) : Bool × Ledger :=
  if hasKey ledger row.settleKey then (false, ledger)
  else (true, ledger ++ [{ rowid := ledgerHead ledger + 1, row := row }])

def deleteRows (condition : Row → Bool) (ledger : Ledger) : Ledger :=
  ledger.filter fun entry => !condition entry.row

/-! ## Settlement -/

structure Tokens where
  input : Int
  output : Int
  cachedInput : Option Int := none

structure ProjectUsageTerminal where
  threadId : String
  botId : String
  engine : String
  model : Option String := none
  turnGeneration : String
  providerTurnId : Option String := none
  atMs : Int
  ok : Bool
  usage : Option Tokens := none
  charge : Option ℚ := none
  cost : Option ℚ := none
  unknown : Bool := false
  lastActivityAt : Option Int := none

structure RoomRequest where
  id : String
  rootId : String
  groupId : String
  projectGoalId : Option String := none
  workItemId : Option String := none
  executionAudience : Option String := none
  dispatchedAt : Option Int := none
  ownerWaitMs : Int := 0
  waitingSince : Option Int := none

/-- A safe integer that counts something. -/
def count (n : Int) : Bool := 0 ≤ n && n ≤ 2 ^ 53 - 1

def money (n : ℚ) : Bool := 0 ≤ n

def countedUsage (usage : Option Tokens) : Option Tokens :=
  usage.filter fun tokens => count tokens.input && count tokens.output

def legacyKeyOf (request : RoomRequest) (terminal : ProjectUsageTerminal) (dispatch : Option Int) :
    SettleKey :=
  if terminal.unknown then .unknown request.id dispatch
  else
    match terminal.providerTurnId.filter (· ≠ "") with
    | some turn => .turn terminal.threadId turn dispatch
    | none => .req request.id terminal.turnGeneration dispatch

def settledRun (request : RoomRequest) (dispatched : Int) (row : Row) : Bool :=
  row.requestId = some request.id && !row.rolledUp && !row.settleKey.isUnknown &&
    !row.settleKey.isCharge && (row.settleKey.dispatch = some dispatched ||
      (row.settleKey.dispatch = none && dispatched ≤ row.atMs))

/-- The same settlement under the key of an older build. -/
def legacyRow (request : RoomRequest) (terminal : ProjectUsageTerminal) (dispatched : Int)
    (row : Row) : Bool :=
  row.settleKey = legacyKeyOf request terminal none && row.requestId = some request.id &&
    !row.rolledUp && dispatched ≤ row.atMs

def replacedRow (request : RoomRequest) (terminal : ProjectUsageTerminal) (dispatched : Int)
    (row : Row) : Bool :=
  !terminal.unknown && (row.settleKey = .unknown request.id (some dispatched) ||
    (row.settleKey = .unknown request.id none && dispatched ≤ row.atMs))

def usageRow (request : RoomRequest) (terminal : ProjectUsageTerminal) (dispatched : Int) : Row :=
  let unknown := terminal.unknown
  let last := if unknown then min terminal.atMs (terminal.lastActivityAt.getD terminal.atMs)
    else terminal.atMs
  let pendingWait := request.waitingSince.elim 0 fun since => max 0 (last - since)
  let workMs := max 0 (last - dispatched - request.ownerWaitMs - pendingWait)
  let usage := if unknown then none else countedUsage terminal.usage
  let charge := if unknown then none else terminal.charge.filter money
  let estimate :=
    if unknown then none
    else if terminal.engine = "claude" then terminal.cost.filter money else none
  { settleKey := legacyKeyOf request terminal (some dispatched)
    groupId := some request.groupId
    goalId := request.projectGoalId
    workItemId := request.workItemId
    requestId := some request.id
    rootId := some request.rootId
    botId := terminal.botId
    engine := terminal.engine
    model := terminal.model
    input := usage.map (·.input)
    output := usage.map (·.output)
    cachedInput := usage.bind fun tokens => tokens.cachedInput.filter count
    tokensReported := usage.isSome
    charge := charge.or estimate
    chargeKind :=
      if charge.isSome then .charge else if estimate.isSome then .estimate else .none
    workMs := workMs
    ok := !unknown && terminal.ok
    audience := request.executionAudience
    atMs := terminal.atMs }

/-- What a settlement did: its answer, whether rows were removed, and the rows. -/
structure Settled where
  answer : Bool
  removed : Bool
  ledger : Ledger

/-- One settlement per dispatch; a terminal takes the place of the run's unknown usage. -/
def settleProjectUsage (request : RoomRequest) (terminal : ProjectUsageTerminal)
    (ledger : Ledger) : Settled :=
  match request.dispatchedAt with
  | none => { answer := false, removed := false, ledger := ledger }
  | some dispatched =>
    if terminal.unknown && ledger.any fun entry => settledRun request dispatched entry.row then
      { answer := false, removed := false, ledger := ledger }
    else
      let legacy := ledger.any fun entry => legacyRow request terminal dispatched entry.row
      let removed := ledger.any fun entry => replacedRow request terminal dispatched entry.row
      let left := deleteRows (replacedRow request terminal dispatched) ledger
      if legacy then { answer := false, removed := removed, ledger := left }
      else
        let inserted := insertRow (usageRow request terminal dispatched) left
        { answer := inserted.1, removed := removed, ledger := inserted.2 }

structure ToolCharge where
  operationId : String
  botId : String
  engine : String
  model : Option String := none
  atMs : Int
  charge : ℚ

def toolChargeRow (request : RoomRequest) (input : ToolCharge) : Row :=
  { settleKey := .charge input.operationId
    groupId := some request.groupId
    goalId := request.projectGoalId
    workItemId := request.workItemId
    requestId := some request.id
    rootId := some request.rootId
    botId := input.botId
    engine := input.engine
    model := input.model
    tokensReported := true
    charge := some input.charge
    chargeKind := .charge
    workMs := 0
    ok := true
    audience := request.executionAudience
    atMs := input.atMs }

def settleProjectToolCharge (request : RoomRequest) (input : ToolCharge) (ledger : Ledger) :
    Bool × Ledger :=
  if money input.charge then insertRow (toolChargeRow request input) ledger else (false, ledger)

structure OwnerTurn where
  terminal : ProjectUsageTerminal
  audience : String
  startedAt : Int
  ownerWaitMs : Int := 0
  boundRequestId : Option String := none

/-- The owner's work in shared rooms has no request and no group. -/
def ownerTurnRow (turn : OwnerTurn) : Row :=
  let terminal := turn.terminal
  let usage := countedUsage terminal.usage
  let charge := terminal.charge.filter money
  let estimate := if terminal.engine = "claude" then terminal.cost.filter money else none
  { settleKey := .sharedOwner terminal.turnGeneration
    botId := terminal.botId
    engine := terminal.engine
    model := terminal.model
    input := usage.map (·.input)
    output := usage.map (·.output)
    cachedInput := usage.bind (·.cachedInput)
    tokensReported := usage.isSome
    charge := charge.or estimate
    chargeKind :=
      if charge.isSome then .charge else if estimate.isSome then .estimate else .none
    workMs := max 0 (terminal.atMs - turn.startedAt - turn.ownerWaitMs)
    ok := terminal.ok
    audience := some turn.audience
    atMs := terminal.atMs }

def settleSharedWorkOwnerTurn (turn : OwnerTurn) (ledger : Ledger) : Bool × Ledger :=
  if turn.boundRequestId.any (· ≠ "") then (false, ledger) else insertRow (ownerTurnRow turn) ledger

/-! ## Reported usage -/

/-- A group, one of its goals or all, from a time on or all. -/
structure Scope where
  groupId : String
  goalId : Option String := none
  since : Option Int := none
  deriving DecidableEq

def Scope.goal (scope : Scope) : Option String := scope.goalId.filter (· ≠ "")

def Scope.covers (scope : Scope) (row : Row) : Bool :=
  row.groupId = some scope.groupId && scope.goal.all (row.goalId = some ·) &&
    scope.since.all (· ≤ row.atMs)

def rowsIn (scope : Scope) (ledger : Ledger) : List Row :=
  (ledger.map (·.row)).filter scope.covers

/-- `SUM(...)` of a column that may be NULL: NULL when every value is. -/
def sumOf {α : Type} [Add α] [Zero α] (column : Row → Option α) (rows : List Row) : Option α :=
  if rows.any fun row => (column row).isSome then
    some ((rows.map fun row => (column row).getD 0).sum)
  else none

/-- What a turn was charged, estimates apart. -/
def Row.charged (row : Row) : Option ℚ :=
  if row.chargeKind = .charge then row.charge else none

structure UsageTotals where
  workMs : Int
  input : Int
  output : Int
  tokensReported : Bool
  charge : Option ℚ
  deriving DecidableEq

/-- Tokens count as reported when any turn reported them. -/
def totalsOf (rows : List Row) : UsageTotals :=
  { workMs := (rows.map (·.workMs)).sum
    input := (sumOf (·.input) rows).getD 0
    output := (sumOf (·.output) rows).getD 0
    tokensReported := rows.any (·.tokensReported)
    charge := sumOf Row.charged rows }

structure ProjectUsage where
  totals : UsageTotals
  byBot : List (String × UsageTotals)
  notReported : List String
  interrupted : Bool
  deriving DecidableEq

def addTotals (sum : UsageTotals) (bot : String × UsageTotals) : UsageTotals :=
  { workMs := sum.workMs + bot.2.workMs
    input := sum.input + bot.2.input
    output := sum.output + bot.2.output
    tokensReported := sum.tokensReported && bot.2.tokensReported
    charge := bot.2.charge.elim sum.charge fun charge => some (sum.charge.getD 0 + charge) }

def emptyTotals : UsageTotals :=
  { workMs := 0
    input := 0
    output := 0
    tokensReported := true
    charge := none }

def botsOf (rows : List Row) : List String := (rows.map (·.botId)).toFinset.sort (· ≤ ·)

def byBotOf (rows : List Row) : List (String × UsageTotals) :=
  (botsOf rows).map fun bot => (bot, totalsOf (rows.filter (·.botId = bot)))

/-- Without a bot nothing is reported. -/
def sumOfBots (byBot : List (String × UsageTotals)) : UsageTotals :=
  let totals := byBot.foldl addTotals emptyTotals
  if byBot.isEmpty then { totals with tokensReported := false } else totals

def projectUsage (scope : Scope) (ledger : Ledger) : ProjectUsage :=
  let byBot := byBotOf (rowsIn scope ledger)
  { totals := sumOfBots byBot
    byBot := byBot
    notReported := (byBot.filter fun bot => !bot.2.tokensReported).map (·.1)
    interrupted := (rowsIn scope ledger).any (·.settleKey.isInterrupted) }

/-! ## Rollup -/

inductive GoalState
  | draft
  | planning
  | awaitingPlanOk
  | working
  | awaitingSignoff
  | done
  | paused
  | stopped
  | failed
  deriving DecidableEq

structure Goal where
  id : String
  state : GoalState

/-- `period`: whether the budget is a goal's. -/
structure Budget where
  groupId : String
  isGoal : Bool
  goalId : Option String
  periodStart : Int

structure Budgets where
  budgets : List Budget
  goals : List Goal

def Budgets.openGoal (tables : Budgets) (goalId : String) : Bool :=
  tables.goals.any fun goal => goal.id = goalId &&
    !(goal.state = .done || goal.state = .stopped || goal.state = .failed)

def Budgets.live (tables : Budgets) (row : Row) : Bool :=
  tables.budgets.any fun budget => row.groupId = some budget.groupId &&
    budget.periodStart ≤ row.atMs && (!budget.isGoal ||
      budget.goalId.any fun goalId => row.goalId = some goalId && tables.openGoal goalId)

def dayMs : Int := 86400000

def dayOf (time : Int) : Int := time / dayMs

section Rollup

variable (hash : List (Option String) → String) (before : SettleKey → SettleKey → Bool)

/-- What the rows of a bucket share, beside the group, the day and the interruption. -/
def dimensions (row : Row) : List (Option String) :=
  [row.goalId, row.rootId, some row.botId, some row.engine, row.model, row.audience,
    some row.chargeKind.text] ++ row.workItemId.toList.map some

def bucketKey (row : Row) : SettleKey :=
  .rollup (row.groupId.getD "null") (dayOf row.atMs) (hash (dimensions row)) row.settleKey.isUnknown

def settled (tables : Budgets) (now : Int) (row : Row) : Bool :=
  !row.rolledUp && row.atMs < now - 90 * dayMs && !tables.live row

/-- `ORDER BY at,settle_key`. -/
def byTime (first second : Row) : Bool :=
  first.atMs < second.atMs ||
    (first.atMs = second.atMs && (first.settleKey = second.settleKey ||
      before first.settleKey second.settleKey))

def bucketsOf (rows : List Row) : OrderedMap SettleKey (List Row) :=
  OrderedMap.groupBy (bucketKey hash) rows

def bucketRow (key : SettleKey) (first : Row) (bucket : List Row) : Row :=
  { settleKey := key
    groupId := first.groupId
    goalId := first.goalId
    workItemId := first.workItemId
    rootId := first.rootId
    botId := first.botId
    engine := first.engine
    model := first.model
    input := sumOf (·.input) bucket
    output := sumOf (·.output) bucket
    cachedInput := sumOf (·.cachedInput) bucket
    tokensReported := bucket.all (·.tokensReported)
    charge := sumOf (·.charge) bucket
    chargeKind := first.chargeKind
    workMs := (bucket.map (·.workMs)).sum
    ok := bucket.all (·.ok)
    audience := first.audience
    rolledUp := true
    atMs := first.atMs }

def writeBucket (ledger : Ledger) (bucket : SettleKey × List Row) : Ledger :=
  match bucket.2 with
  | [] => ledger
  | first :: _ =>
    let inserted := insertRow (bucketRow bucket.1 first bucket.2) ledger
    if inserted.1 then
      bucket.2.foldl (fun ledger row => deleteRows (·.settleKey = row.settleKey) ledger) inserted.2
    else inserted.2

def dueRows (tables : Budgets) (now : Int) (ledger : Ledger) : List Row :=
  ((ledger.map (·.row)).filter (settled tables now)).mergeSort (byTime before)

def rollupSettledUsage (tables : Budgets) (now : Int) (ledger : Ledger) : Ledger :=
  (bucketsOf hash (dueRows before tables now ledger)).entries.foldl writeBucket ledger

end Rollup

end Murage.UsageLedger
