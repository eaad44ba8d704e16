import Murage.Library.OrderedMap
import Mathlib.Data.String.Basic

/-!
Owns the admission arbiter of rooms and projects: the claims it holds, the gates an admission
passes in their order, the swap of a retry's reservation for its claim, and a claim's release.

Does not own: what the claims add up to over a run.
-/

namespace Murage.WorkAdmission

open Murage.Library

inductive AdmissionKind
  | ownerDirect
  | roomTurn
  | wake
  | leadTurn
  | cardRun
  | review
  | routine
  | delegation
  | ask
  | message
  deriving DecidableEq

inductive AdmissionPriority
  | owner
  | coordinator
  | work
  deriving DecidableEq

structure WriterRoot where
  canonicalPath : String
  dev : String
  ino : String
  deriving DecidableEq

inductive ProjectGoalState
  | draft
  | planning
  | awaitingPlanOk
  | working
  | awaitingSignoff
  | done
  | paused
  | stopped
  | failed
  deriving DecidableEq

inductive RunState
  | running
  | paused
  deriving DecidableEq

inductive ProjectMode
  | conversation
  | ongoing
  deriving DecidableEq

structure ProjectContext where
  groupId : String
  isProject : Bool
  closed : Bool
  runState : RunState
  mode : ProjectMode
  goalId : Option String := none
  goalState : Option ProjectGoalState := none
  leadBotId : Option String := none
  boardOn : Bool
  parallelCards : Int
  deskArchived : Bool := false

/-- What `admitWork` is asked; the audience, which only its dependencies read, is theirs. -/
structure AdmissionInput where
  kind : AdmissionKind
  priority : AdmissionPriority
  botId : String
  threadId : String
  project : Option ProjectContext := none
  requestId : Option String := none
  rootId : Option String := none
  workItemId : Option String := none
  cardGeneration : Option Int := none
  ownerReplyTo : Option String := none
  closeSummary : Bool := false
  fromBotId : Option String := none
  writerRoot : Option WriterRoot := none
  ownerOrigin : Bool := false
  ownerApprovedCard : Bool := false
  now : Int

inductive RefusalReason
  | threadRunning
  | speakingInRoom
  | botThreadCeiling
  | botCardInProject
  | projectCardCap
  | installCardCap
  | writerRootBusy
  | budgetReached
  | autonomyOff
  | projectPaused
  | planNotApproved
  | rootCap
  | deadlock
  | sharedPaused
  | sharingRemoved
  | teamDeleted
  | bindingMismatch
  | archived
  | dependency
  | notReachable
  | sharedTeamCap
  | sharedTotalCap
  | restoreReview
  | stagger
  deriving DecidableEq

inductive Retry
  | queue
  | never
  deriving DecidableEq

structure Refusal where
  reason : RefusalReason
  retry : Retry := .queue
  line : String
  retryAt : Option Int := none
  deriving DecidableEq

/-- A claim; `ref` is the identity of the object. -/
structure Claim where
  ref : Nat
  id : String
  kind : AdmissionKind
  botId : String
  threadId : String
  groupId : Option String
  requestId : Option String
  cardGeneration : Option Int
  turnGeneration : String
  startedAt : Int
  writerRoot : Option WriterRoot
  deriving DecidableEq

inductive Decision
  | admitted (claim : Claim)
  | refused (refusal : Refusal)
  deriving DecidableEq

structure BudgetQuery where
  groupId : String
  goalId : Option String
  kind : AdmissionKind
  now : Int

inductive BudgetGate
  | placeholder
  | installed
  deriving DecidableEq

structure Flags where
  autonomy : Bool
  budgets : Bool
  autoWake : Option Bool := none

structure Counters where
  wakes : Int
  workMs : Int

structure Unauthorized where
  reason : RefusalReason
  retryable : Bool

structure RootOwner where
  botId : String
  threadId : String
  turnGeneration : String

/-- What the arbiter's dependencies answer during one call. `authorize` is absent, or says why
not; `claimWriterRoot` says whether a release came back; `budget` is the installed gate's line
where it refuses. -/
structure Deps where
  restoreReview : Bool
  flags : Flags
  threadRunning : String → String → Bool
  speakingInRoom : String → Bool
  directThreads : String → Nat
  rootCounters : String → AdmissionInput → Counters
  askWouldDeadlock : String → String → Bool
  reachable : AdmissionInput → Bool
  authorize : Option (AdmissionInput → Option Unauthorized)
  dependencyOpen : String → Bool
  claimWriterRoot : WriterRoot → RootOwner → Option Claim → Bool
  botName : Option (String → String)
  budget : BudgetQuery → Option String

/-- The caps the arbiter is made with. -/
structure Limits where
  maxThreads : Nat
  installCardCap : Int

def rootCapWakes : Int := 6

def rootCapWorkMs : Int := 30 * 60000

def cardStaggerMs : Int := 2000

namespace AdmissionKind

/-- `AUTONOMOUS_KINDS`. -/
def autonomous : AdmissionKind → Bool
  | .wake | .cardRun | .review | .leadTurn | .routine => true
  | _ => false

/-- `CARD_KINDS`. -/
def isCard : AdmissionKind → Bool
  | .cardRun | .review => true
  | _ => false

/-- `ROOT_CAPPED_KINDS`. -/
def rootCapped : AdmissionKind → Bool
  | .wake | .cardRun | .review | .ask => true
  | _ => false

def isRoom : AdmissionKind → Bool
  | .roomTurn | .wake | .leadTurn => true
  | _ => false

end AdmissionKind

/-- A text that is there and not empty. -/
def given : Option String → Bool
  | some text => text ≠ ""
  | none => false

/-! ## State -/

/-- `made`: every claim there ever was; `released`: those whose release has run;
`rootsReleased`: the calls of the writer roots' releases, oldest first; `drawn`: how many random
ids have been drawn. -/
structure Arbiter where
  claims : OrderedMap String Claim := ∅
  budgetGate : BudgetGate := .placeholder
  lastCardStart : Option Int := none
  made : List Claim := []
  released : List Nat := []
  rootsReleased : List Nat := []
  drawn : Nat := 0

namespace Arbiter

def live (s : Arbiter) : List Claim := s.claims.values

def release (claim : Claim) (s : Arbiter) : Arbiter :=
  if claim.ref ∈ s.released then s
  else
    { s with
      released := s.released ++ [claim.ref]
      claims := s.claims.erase claim.id
      rootsReleased :=
        if claim.writerRoot.isSome then s.rootsReleased ++ [claim.ref] else s.rootsReleased }

def reservation (s : Arbiter) (input : AdmissionInput) (retryClaim : Option Claim) :
    Option Claim :=
  retryClaim.filter fun retry =>
    s.claims.get retry.id = some retry && retry.requestId.isSome &&
      retry.requestId = input.requestId && retry.kind = input.kind &&
      retry.groupId = input.project.map (·.groupId) &&
      retry.cardGeneration = input.cardGeneration && retry.botId = input.botId &&
      retry.threadId = input.threadId

def others (s : Arbiter) (reservation : Option Claim) : List Claim :=
  s.live.filter fun claim => some claim ≠ reservation

end Arbiter

/-! ## Gates

Each gate is `none` where it lets the admission pass. -/

def refuse (reason : RefusalReason) (line : String) (retry : Retry := .queue) : Option Refusal :=
  some { reason := reason, retry := retry, line := line }

section Gates

variable (limits : Limits) (deps : Deps) (input : AdmissionInput) (live : List Claim)

def name (botId : String) : String := deps.botName.elim botId fun name => name botId

def ownerReply : Bool :=
  given input.ownerReplyTo && (input.kind = .roomTurn || input.kind = .leadTurn)

def restoreGate : Option Refusal :=
  if input.kind ≠ .ownerDirect && deps.restoreReview then
    refuse .restoreReview "Waiting for you to finish checking the restore"
  else none

def autonomyGate (budgetGate : BudgetGate) : Option Refusal :=
  if deps.flags.budgets && budgetGate = .placeholder then
    refuse .budgetReached "Project budgets are still starting."
  else if input.kind.autonomous && !ownerReply input && !input.closeSummary &&
      (!deps.flags.autonomy || !deps.flags.budgets) then
    refuse .autonomyOff "Projects work on their own is off"
  else if input.kind = .wake && !input.closeSummary && deps.flags.autoWake = some false then
    refuse .autonomyOff "Waking is off"
  else none

def goalStopped (project : ProjectContext) : Bool :=
  given project.goalId && (project.goalState = some .paused ||
    project.goalState = some .stopped || project.goalState = some .failed)

def pausedGate : Option Refusal :=
  match input.project with
  | none => none
  | some project =>
    if project.isProject && input.kind.autonomous && !ownerReply input &&
        !input.closeSummary then
      let leadOff := (input.kind = .wake || input.kind = .leadTurn) && !given project.leadBotId
      let boardOff := input.kind = .cardRun && !project.boardOn
      if project.closed || project.runState = .paused || project.deskArchived ||
          goalStopped project || leadOff || boardOff then
        refuse .projectPaused "Paused"
      else none
    else none

def planGate : Option Refusal :=
  match input.project with
  | none => none
  | some project =>
    if input.kind = .cardRun && !input.ownerApprovedCard && given project.goalId &&
        (project.goalState = some .awaitingPlanOk || project.goalState = some .planning) then
      refuse .planNotApproved <|
        if project.goalState = some .planning then
          let lead := if given project.leadBotId then project.leadBotId.elim "" (name deps)
            else "the lead"
          "Waiting for " ++ lead ++ "'s plan"
        else "Waiting for your OK on the plan"
    else none

def reachGate : Option Refusal :=
  match deps.authorize with
  | some authorize =>
    match authorize input with
    | some denied =>
      refuse denied.reason (name deps input.botId ++ " cannot be reached from here")
        (if denied.retryable then .queue else .never)
    | none => none
  | none =>
    if input.kind ≠ .ownerDirect && !deps.reachable input then
      refuse .notReachable (name deps input.botId ++ " cannot be reached from here") .never
    else none

def deadlockGate : Option Refusal :=
  if input.kind = .ask && given input.fromBotId &&
      deps.askWouldDeadlock (input.fromBotId.getD "") input.botId then
    refuse .deadlock
      (name deps input.botId ++ " is already waiting on you, so answer him first.") .never
  else none

def dependencyGate : Option Refusal :=
  if input.kind = .cardRun && given input.workItemId &&
      deps.dependencyOpen (input.workItemId.getD "") then
    refuse .dependency "Waiting for another card"
  else none

/-- No active goal, and not ongoing. -/
def conversation : Bool :=
  input.project.all fun project =>
    project.mode = .conversation && !(given project.goalId && project.goalState.any fun state =>
      !(state = .done || state = .stopped || state = .failed || state = .draft))

def rootCapGate : Option Refusal :=
  if conversation input && input.kind.rootCapped && given input.rootId &&
      !input.closeSummary then
    let counters := deps.rootCounters (input.rootId.getD "") input
    if counters.wakes ≥ rootCapWakes || counters.workMs ≥ rootCapWorkMs then
      refuse .rootCap "Paused: 6 team steps since your last message. Say continue."
    else none
  else none

def threadGate : Option Refusal :=
  if deps.threadRunning input.botId input.threadId ||
      live.any fun claim => claim.threadId = input.threadId && claim.botId = input.botId then
    refuse .threadRunning (name deps input.botId ++ " is already working here")
  else none

def speakerGate : Option Refusal :=
  if input.kind.isRoom && (deps.speakingInRoom input.botId ||
      live.any fun claim => claim.botId = input.botId && claim.kind.isRoom) then
    refuse .speakingInRoom (name deps input.botId ++ " is answering in another room")
  else none

/-- The owner's direct send has one slot above the ceiling. -/
def ceilingGate : Option Refusal :=
  let held := live.countP fun claim => claim.botId = input.botId && claim.kind ≠ .ownerDirect
  let used := deps.directThreads input.botId + held
  if limits.maxThreads ≤ used then
    let reservedFree :=
      !live.any fun claim => claim.botId = input.botId && claim.kind = .ownerDirect
    if input.kind = .ownerDirect && input.ownerOrigin && reservedFree &&
        used < limits.maxThreads + 1 then none
    else refuse .botThreadCeiling (name deps input.botId ++ " is busy in another conversation")
  else none

def AdmissionInput.groupId : Option String := input.project.map (·.groupId)

/-- How many cards of the group may run at a time. -/
def AdmissionInput.parallel : Int := max 1 ((input.project.map (·.parallelCards)).getD 1)

/-- A reservation holds its card slot already. -/
def cardGate (reserved : Bool) : Option Refusal :=
  if input.kind.isCard && !reserved then
    if live.any fun claim =>
        claim.kind.isCard && claim.botId = input.botId && claim.groupId = input.groupId then
      refuse .botCardInProject (name deps input.botId ++ " is on another card")
    else
      let groupCards : Nat :=
        live.countP fun claim => claim.kind = .cardRun && claim.groupId = input.groupId
      if input.kind = .cardRun && input.parallel ≤ groupCards then
        refuse .projectCardCap "Waiting for a free slot"
      else if input.kind = .cardRun &&
          limits.installCardCap ≤ (live.countP fun claim => claim.kind = .cardRun : Nat) then
        refuse .installCardCap "Waiting for a free slot"
      else none
  else none

/-- Everything but the owner and the lead's one reply. -/
def budgetGateOf (budgetGate : BudgetGate) : Option Refusal :=
  if input.kind ≠ .ownerDirect && !ownerReply input &&
      !(input.kind = .roomTurn && input.priority = .owner) then
    match input.project with
    | none => none
    | some project =>
      let line := match budgetGate with
        | .placeholder => some "Project budgets are still starting."
        | .installed => deps.budget
            { groupId := project.groupId
              goalId := project.goalId
              kind := input.kind
              now := input.now }
      line.bind (refuse .budgetReached)
  else none

def staggerGate (lastCardStart : Option Int) : Option Refusal :=
  match lastCardStart with
  | none => none
  | some last =>
    if input.kind = .cardRun && input.now - last < cardStaggerMs then
      some
        { reason := .stagger
          retry := .queue
          line := "Starting shortly"
          retryAt := some (last + cardStaggerMs) }
    else none

end Gates

/-! ## Admission -/

/-- The first gate that refuses. -/
def refusal (limits : Limits) (deps : Deps) (s : Arbiter) (input : AdmissionInput)
    (reservation : Option Claim) : Option Refusal :=
  let live := s.others reservation
  restoreGate deps input
    |>.or (autonomyGate deps input s.budgetGate)
    |>.or (pausedGate input)
    |>.or (planGate deps input)
    |>.or (reachGate deps input)
    |>.or (deadlockGate deps input)
    |>.or (dependencyGate deps input)
    |>.or (rootCapGate deps input)
    |>.or (threadGate deps input live)
    |>.or (speakerGate deps input live)
    |>.or (ceilingGate limits deps input live)
    |>.or (cardGate limits deps input live reservation.isSome)
    |>.or (budgetGateOf deps input s.budgetGate)
    |>.or (staggerGate input s.lastCardStart)

def writerRootOf (deps : Deps) (input : AdmissionInput) (turnGeneration : String)
    (reservation : Option Claim) : Except Refusal (Option WriterRoot) :=
  match input.writerRoot with
  | none => .ok none
  | some root =>
    let owner : RootOwner :=
      { botId := input.botId
        threadId := input.threadId
        turnGeneration := turnGeneration }
    if deps.claimWriterRoot root owner reservation then .ok (some root)
    else if input.kind.isRoom then .ok none
    else .error { reason := .writerRootBusy, line := "Waiting for the folder" }

def Arbiter.newClaim (uuid : Nat → String) (s : Arbiter) (input : AdmissionInput)
    (writerRoot : Option WriterRoot) : Claim :=
  { ref := s.made.length
    id := uuid (s.drawn + 1)
    kind := input.kind
    botId := input.botId
    threadId := input.threadId
    groupId := input.groupId
    requestId := input.requestId.filter (· ≠ "")
    cardGeneration := input.cardGeneration
    turnGeneration := uuid s.drawn
    startedAt := input.now
    writerRoot := writerRoot }

def Arbiter.take (s : Arbiter) (claim : Claim) (reservation : Option Claim) : Arbiter :=
  let s := reservation.elim s fun held => s.release held
  { s with
    lastCardStart := if claim.kind = .cardRun then some claim.startedAt else s.lastCardStart
    made := s.made ++ [claim]
    claims := s.claims.set claim.id claim
    drawn := s.drawn + 2 }

/-- `uuid`: the random ids, in the order they are drawn. -/
def admitWork (uuid : Nat → String) (limits : Limits) (deps : Deps) (s : Arbiter)
    (input : AdmissionInput) (retryClaim : Option Claim) : Decision × Arbiter :=
  let reservation := s.reservation input retryClaim
  match refusal limits deps s input reservation with
  | some refusal => (.refused refusal, s)
  | none =>
    match writerRootOf deps input (uuid s.drawn) reservation with
    | .error refusal => (.refused refusal, { s with drawn := s.drawn + 1 })
    | .ok root =>
      let claim := s.newClaim uuid input root
      (.admitted claim, s.take claim reservation)

end Murage.WorkAdmission
