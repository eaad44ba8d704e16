import Mathlib.Data.List.Nodup
import Mathlib.Tactic.Common

/-!
Owns the machine of the bot calls: the tables of the intents, the sessions, the rules and the
owed admissions, every transition as one transaction, and the sweeps that are several.

A transition owes its effects inside its transaction. Here it lists them, and the transaction
is undone when one of them throws.

Does not own: the policy that decides, and what the effects write.
-/

namespace Murage.BotCalls

def RULE_ADMISSIONS_PER_DAY : Nat := 24
def CALL_LINE_MAX : Nat := 140
def DAY_MS : Int := 24 * 3600000
def PAGE : Nat := 100
def CALL_INTENT_RETENTION_MS : Int := 90 * 24 * 3600000
def CALL_SESSION_RETENTION_MS : Int := 24 * 3600000

namespace CALL_PROTOCOL

def silenceEndsMs : Int := 60000
def backstopMs : Int := 4 * 3600000
def ringMs : Int := 45000

end CALL_PROTOCOL

/-! ## Rows -/

inductive CallState where
  | pending
  | waiting
  | ringing
  | live
  | done
deriving DecidableEq, Repr

inductive CallOutcome where
  | answered
  | declined
  | text_instead
  | missed
  | texted
  | seen
  | dropped
  | cancelled
  | late
  | restored
deriving DecidableEq, Repr

inductive SessionEnd where
  | closed
  | lost
  | stopped
  | backstop
  | restore
deriving DecidableEq, Repr

def SessionEnd.name : SessionEnd → String
  | closed => "closed"
  | lost => "lost"
  | stopped => "stopped"
  | backstop => "backstop"
  | restore => "restore"

inductive Tier where
  | A
  | B
deriving DecidableEq, Repr

inductive FactKind where
  | timed
  | watchChanged
  | webhookEvent
  | channelMessage
  | turnEnded
  | routineFailed
  | routineNeedsYou
  | routineNeedsOwnerNow
deriving DecidableEq, Repr

structure ReceiptStep where
  check : String
  result : String
  detail : Option String := none
deriving DecidableEq, Repr

structure CallReceipt where
  steps : List ReceiptStep := []
  stop : Option String := none
  ended : Option SessionEnd := none
deriving DecidableEq, Repr

/-- An intent. `factFields` is the stored text. -/
structure CallIntent where
  id : String
  botId : String
  ruleId : String
  tier : Tier
  threadId : String
  factKind : FactKind
  factKey : String
  factAt : Int
  factFields : String
  line : Option String
  state : CallState := .pending
  gen : Nat := 0
  activeSlot : Bool := false
  deadlineAt : Option Int := none
  rangAt : Option Int := none
  answeredOn : Option String := none
  sessionId : Option String := none
  seenAt : Option Int := none
  createdAt : Int
  endedAt : Option Int := none
  outcome : Option CallOutcome := none
  receipt : CallReceipt := {}
deriving DecidableEq, Repr

structure CallSession where
  id : String
  callId : String
  botId : String
  intentId : Option String
  threadId : Option String
  device : String
  openedAt : Int
  lastSeenAt : Int
  backstopAt : Int
  endedAt : Option Int := none
  endedBy : Option SessionEnd := none
  principal : Option String
deriving DecidableEq, Repr

inductive CallRuleKind where
  | timed
  | watch
  | webhook
  | sender
  | turn_end
  | routine_problem
  | needs_owner_now
deriving DecidableEq, Repr

/-- A rule, with the turn its parameters bind it to. -/
structure CallRule where
  id : String
  botId : String
  kind : CallRuleKind
  turnId : Option String
  enabled : Bool
  restoreHeld : Bool
  restoreGen : Option String
deriving DecidableEq, Repr

def CallRule.tier (rule : CallRule) : Tier :=
  match rule.kind with
  | .timed | .watch | .webhook | .sender | .turn_end => .A
  | .routine_problem | .needs_owner_now => .B

structure OwedRow where
  factKey : String
  botId : String
  kind : String
  threadId : String
  sourceId : Option String
  settledAt : Option Int
  armed : Bool
deriving DecidableEq, Repr

structure Db where
  intents : List CallIntent := []
  sessions : List CallSession := []
  rules : List CallRule := []
  owed : List OwedRow := []
deriving DecidableEq, Repr

/-! ## Effects and transactions -/

inductive CallResolution where
  | answered
  | declined
  | missed
  | stopped
deriving DecidableEq, Repr

/-- What a transition owes. -/
inductive Effect where
  | ring (intent : CallIntent) (expiresAt : Int)
  | note (intent : CallIntent)
  | resolve (intent : CallIntent) (how : CallResolution)
  | card (intent : CallIntent)
  | dropNotes (botId : String)
deriving DecidableEq, Repr

/-- The writes of the effects, made in order: the error of the first that throws. -/
structure CallEffects where
  throws : List Effect → Option String

def NO_CALL_EFFECTS : CallEffects := ⟨fun _ => none⟩

/-- What a transition's body leaves. -/
structure Body (α : Type) where
  db : Db
  effects : List Effect := []
  value : α

/-- What is stored after a transaction, the effects that stand, and what it returns. -/
structure Ended (α : Type) where
  db : Db
  effects : List Effect
  value : Except String α

def inTransaction {α : Type} (db : Db) (fx : CallEffects) (operation : Except String (Body α)) :
    Ended α :=
  match operation with
  | .error error => { db := db, effects := [], value := .error error }
  | .ok body =>
    match fx.throws body.effects with
    | some error => { db := db, effects := [], value := .error error }
    | none => { db := body.db, effects := body.effects, value := .ok body.value }

/-! ## Statements -/

namespace Db

section

variable (db : Db)

def getIntent (id : String) : Option CallIntent := db.intents.find? (·.id = id)

def getSession (callId : String) : Option CallSession := db.sessions.find? (·.callId = callId)

def sessionById (id : String) : Option CallSession := db.sessions.find? (·.id = id)

/-- `UPDATE bot_calls` of one row under a guard, none when no row matched. -/
def updateIntent (id : String) (guard : CallIntent → Bool) (set : CallIntent → CallIntent) :
    Option Db :=
  if db.intents.any fun intent => decide (intent.id = id) && guard intent then
    some
      { db with
        intents := db.intents.map fun intent =>
          if intent.id = id ∧ guard intent then set intent else intent }
  else none

/-- `UPDATE bot_call_sessions` of one row that has not ended. -/
def updateSession (callId : String) (guard : CallSession → Bool) (set : CallSession → CallSession) :
    Db :=
  { db with
    sessions := db.sessions.map fun session =>
      if session.callId = callId ∧ session.endedAt = none ∧ guard session then set session
      else session }

def slotTaken : Bool := db.intents.any (·.activeSlot)

def ringingIntent : Option CallIntent := db.intents.find? (·.state = .ringing)

end

end Db

def receiptWith (intent : CallIntent) (steps : List ReceiptStep) (stop : Option String := none)
    (ended : Option SessionEnd := none) : CallReceipt where
  steps := intent.receipt.steps ++ steps
  stop := stop.or intent.receipt.stop
  ended := ended.or intent.receipt.ended

/-! ## The line of an admission -/

/-- Control characters, line and paragraph separators, zero-width and bidi controls. -/
def isFenced (c : Char) : Bool :=
  c.toNat ≤ 0x1f || (0x7f ≤ c.toNat && c.toNat ≤ 0x9f) || c.toNat = 0x2028 || c.toNat = 0x2029 ||
    (0x200b ≤ c.toNat && c.toNat ≤ 0x200f) || (0x202a ≤ c.toNat && c.toNat ≤ 0x202e) ||
    (0x2066 ≤ c.toNat && c.toNat ≤ 0x2069)

def isBlank (c : Char) : Bool :=
  (9 ≤ c.toNat && c.toNat ≤ 13) || c.toNat = 0x20 || c.toNat = 0xa0 || c.toNat = 0x1680 ||
    (0x2000 ≤ c.toNat && c.toNat ≤ 0x200a) || c.toNat = 0x2028 || c.toNat = 0x2029 ||
    c.toNat = 0x202f || c.toNat = 0x205f || c.toNat = 0x3000 || c.toNat = 0xfeff

/-- Runs of blanks become one space. -/
def collapse : List Char → List Char
  | [] => []
  | c :: rest =>
    if isBlank c then
      match collapse rest with
      | ' ' :: later => ' ' :: later
      | later => ' ' :: later
    else c :: collapse rest

def trimBlanks (text : List Char) : List Char :=
  ((text.dropWhile isBlank).reverse.dropWhile isBlank).reverse

def fenceCallLine (line : Option String) : Option String :=
  match line with
  | none => none
  | some line =>
    let plain := trimBlanks (collapse (line.toList.map fun c => if isFenced c then ' ' else c))
    if plain = [] then none else some (String.ofList (plain.take CALL_LINE_MAX))

/-! ## Admission -/

structure Admission where
  botId : String
  ruleId : String
  threadId : String
  factKind : FactKind
  factKey : String
  factAt : Int
  factFields : String := "\x7b\x7d"
  line : Option String := none

/-- `INSERT OR IGNORE`: a row whose id or fact is there stays alone. -/
def Db.insertIntent (db : Db) (intent : CallIntent) : Option Db :=
  if db.intents.any fun other => decide (other.id = intent.id) ||
      (decide (other.botId = intent.botId) && decide (other.factKey = intent.factKey)) then none
  else some { db with intents := db.intents ++ [intent] }

/-- T1. `id` is the random id that is drawn. -/
def admitIntent (db : Db) (a : Admission) (id : String) (now : Int) : Body (Option String) :=
  match db.rules.find? (·.id = a.ruleId) with
  | none => { db := db, value := none }
  | some rule =>
    if rule.botId ≠ a.botId ∨ rule.enabled = false ∨ rule.restoreHeld = true then
      { db := db, value := none }
    else if RULE_ADMISSIONS_PER_DAY ≤ (db.intents.filter fun intent =>
        decide (intent.ruleId = a.ruleId) && decide (now - DAY_MS < intent.createdAt)).length then
      { db := db, value := none }
    else
      match db.insertIntent
        { id := id
          botId := a.botId
          ruleId := a.ruleId
          tier := rule.tier
          threadId := a.threadId
          factKind := a.factKind
          factKey := a.factKey
          factAt := a.factAt
          factFields := a.factFields
          line := fenceCallLine a.line
          createdAt := now } with
      | none => { db := db, value := none }
      | some admitted => { db := admitted, value := some id }

/-! ## Decisions -/

inductive TextOutcome where
  | texted
  | late
  | dropped
deriving DecidableEq, Repr

def TextOutcome.toOutcome : TextOutcome → CallOutcome
  | texted => .texted
  | late => .late
  | dropped => .dropped

inductive Decision where
  | waiting (deadlineAt : Int) (steps : List ReceiptStep)
  | ringing (steps : List ReceiptStep)
  | done (outcome : TextOutcome) (steps : List ReceiptStep)

/-- The state a decision is applied in. -/
inductive Undecided where
  | pending
  | waiting
deriving DecidableEq, Repr

def Undecided.toState : Undecided → CallState
  | pending => .pending
  | waiting => .waiting

def LIVE_CONFLICT : ReceiptStep where
  check := "live"
  result := "on_call"

/-- The intent that was written, none when the guard matched no row. -/
abbrev Applied := Option CallIntent

section

variable (db : Db)

/-- The row after a guarded write that matched it. -/
def reread (id : String) (written : CallIntent → List Effect) : Body Applied :=
  match db.getIntent id with
  | none => { db := db, value := none }
  | some intent => { db := db, effects := written intent, value := some intent }

def endText (before : CallIntent) (source : Undecided) (steps : List ReceiptStep)
    (outcome : TextOutcome) (notify : Bool) (now : Int) : Body Applied :=
  match db.updateIntent before.id (fun i => decide (i.state = source.toState) && i.gen == before.gen)
    (fun i =>
      { i with
        state := .done
        outcome := some outcome.toOutcome
        activeSlot := false
        endedAt := some now
        receipt := receiptWith before steps }) with
  | none => { db := db, value := none }
  | some ended =>
    reread ended before.id fun intent =>
      if notify = true ∧ outcome ≠ .dropped then [.card intent, .note intent] else []

/-- The ring of T2 and T4. A taken slot texts. -/
def ringFrom (before : CallIntent) (source : Undecided) (steps : List ReceiptStep) (now : Int) :
    Body Applied :=
  let deadline := now + CALL_PROTOCOL.ringMs
  if db.slotTaken then
    endText db before source (steps ++ [LIVE_CONFLICT]) .texted (decide (source = .pending)) now
  else
    match db.updateIntent before.id
      (fun i => decide (i.state = source.toState) && i.gen == before.gen)
      (fun i =>
        { i with
          state := .ringing
          activeSlot := true
          rangAt := some now
          deadlineAt := some deadline
          receipt := receiptWith before steps }) with
    | none => { db := db, value := none }
    | some rung => reread rung before.id fun intent => [.ring intent deadline]

/-- T2. -/
def applyInitial (id : String) (gen : Nat) (decision : CallIntent → Decision) (now : Int) :
    Body Applied :=
  match db.getIntent id with
  | none => { db := db, value := none }
  | some before =>
    if before.state ≠ .pending ∨ before.gen ≠ gen then { db := db, value := none }
    else
      match decision before with
      | .ringing steps => ringFrom db before .pending steps now
      | .waiting deadlineAt steps =>
        match db.updateIntent id (fun i => decide (i.state = .pending) && i.gen == gen)
          (fun i =>
            { i with
              state := .waiting
              deadlineAt := some deadlineAt
              receipt := receiptWith before steps }) with
        | none => { db := db, value := none }
        | some held => reread held id fun intent => [.card intent, .note intent]
      | .done outcome steps => endText db before .pending steps outcome true now

/-- T4. -/
def applyEscalation (id : String) (gen : Nat) (decision : CallIntent → Decision) (now : Int) :
    Body Applied :=
  match db.getIntent id with
  | none => { db := db, value := none }
  | some before =>
    if before.state ≠ .waiting ∨ before.gen ≠ gen then { db := db, value := none }
    else
      match decision before with
      | .ringing steps => ringFrom db before .waiting steps now
      -- escalation never returns to waiting, and its fact was valid when admitted
      | .waiting _ steps => endText db before .waiting steps .texted false now
      | .done outcome steps =>
        endText db before .waiting steps (if outcome = .dropped then .texted else outcome) false
          now

/-- A new gen for an intent that is not decided. -/
def bumpGen (id : String) : Body (Option Nat) :=
  match db.updateIntent id (fun i => decide (i.state = .pending) || decide (i.state = .waiting))
    (fun i => { i with gen := i.gen + 1 }) with
  | none => { db := db, value := none }
  | some bumped => { db := bumped, value := (bumped.getIntent id).map (·.gen) }

/-- T3. -/
def markSeen (id : String) (now : Int) : Body Bool :=
  match db.getIntent id with
  | none => { db := db, value := false }
  | some before =>
    if before.state ≠ .waiting then { db := db, value := false }
    else
      match db.updateIntent id (fun i => decide (i.state = .waiting))
        (fun i =>
          { i with
            state := .done
            outcome := some .seen
            seenAt := some now
            endedAt := some now
            receipt := receiptWith before [{ check := "seen", result := "seen" }] }) with
      | none => { db := db, value := false }
      | some seen => { db := seen, value := true }

/-! ## Sessions -/

def sessionLive (s : CallSession) (now : Int) : Bool :=
  decide (s.endedAt = none) && decide (now - s.lastSeenAt ≤ CALL_PROTOCOL.silenceEndsMs) &&
    decide (now < s.backstopAt)

def silentEnd (s : CallSession) (now : Int) : SessionEnd :=
  if CALL_PROTOCOL.silenceEndsMs < now - s.lastSeenAt then .lost else .backstop

/-- The desktop, or a Cloud device. -/
def isCallPrincipal (principal : String) : Bool :=
  principal == "desktop" ||
    match "cloud:".toList.isPrefixOf? principal.toList with
    | none => false
    | some name =>
      decide (1 ≤ name.length ∧ name.length ≤ 200) && name.all fun c =>
        c.isAlphanum || c == '_' || c == '.' || c == ':' || c == '-'

structure SessionIds where
  sessionId : String
  callId : String
deriving DecidableEq, Repr

/-- A row whose id or call is there is refused by the table. -/
def insertSession (ids : SessionIds) (botId : String) (intentId : Option String) (threadId : String)
    (device principal : String) (now : Int) : Except String Db :=
  if isCallPrincipal principal = false then
    .error "bot call: a session needs the authenticated device that opened it"
  else if db.sessions.any fun s => decide (s.id = ids.sessionId) || decide (s.callId = ids.callId) then
    .error "UNIQUE constraint failed: bot_call_sessions"
  else
    .ok
      { db with
        sessions := db.sessions ++
          [{ id := ids.sessionId
             callId := ids.callId
             botId := botId
             intentId := intentId
             threadId := some threadId
             device := device
             openedAt := now
             lastSeenAt := now
             backstopAt := now + CALL_PROTOCOL.backstopMs
             principal := some principal }] }

def callMinutes (openedAt now : Int) : Int := max 0 ((2 * (now - openedAt) + 60000) / 120000)

def finishLive (intentId : String) (s : CallSession) (endedBy : SessionEnd) (now : Int) : Body Unit :=
  match db.getIntent intentId with
  | none => { db := db, value := () }
  | some before =>
    if before.state ≠ .live then { db := db, value := () }
    else
      let step : ReceiptStep :=
        { check := "call"
          result := endedBy.name
          detail := some (toString (callMinutes s.openedAt now)) }
      match db.updateIntent intentId (fun i => decide (i.state = .live))
        (fun i =>
          { i with
            state := .done
            outcome := some .answered
            activeSlot := false
            endedAt := some now
            receipt := receiptWith before [step] none (some endedBy) }) with
      | none => { db := db, value := () }
      | some ended =>
        match ended.getIntent intentId with
        | none => { db := ended, value := () }
        | some intent => { db := ended, effects := [.card intent], value := () }

def endSession (callId : String) (endedBy : SessionEnd) (now : Int) : Body (Bool × Option String) :=
  match db.getSession callId with
  | none => { db := db, value := (false, none) }
  | some s =>
    if s.endedAt ≠ none then { db := db, value := (false, s.intentId) }
    else
      let ended := db.updateSession callId (fun _ => true) fun session =>
        { session with endedAt := some now, endedBy := some endedBy }
      match s.intentId with
      | none => { db := ended, value := (true, none) }
      | some intentId =>
        let finished := finishLive ended intentId s endedBy now
        { db := finished.db, effects := finished.effects, value := (true, some intentId) }

inductive Touched where
  | live
  | ended
  | unknown
deriving DecidableEq, Repr

def touchSession (callId : String) (now : Int) : Body Touched :=
  match db.getSession callId with
  | none => { db := db, value := .unknown }
  | some s =>
    if s.endedAt ≠ none then { db := db, value := .ended }
    else if sessionLive s now = false then
      let silent := endSession db callId (silentEnd s now) now
      { db := silent.db, effects := silent.effects, value := .ended }
    else
      { db := db.updateSession callId (fun session => decide (session.lastSeenAt < now)) fun session =>
          { session with lastSeenAt := now }
        value := .live }

/-! ## Rings that end -/

inductive RingEnd where
  | declined
  | text_instead
  | missed
deriving DecidableEq, Repr

def RingEnd.toOutcome : RingEnd → CallOutcome
  | declined => .declined
  | text_instead => .text_instead
  | missed => .missed

def RingEnd.name : RingEnd → String
  | declined => "declined"
  | text_instead => "text_instead"
  | missed => "missed"

/-- T6, T7 and, at boot, T7b. -/
def endRing (id : String) (outcome : RingEnd) (now : Int) (boot : Bool := false)
    (stop : Option String := none) : Body Bool :=
  match db.getIntent id with
  | none => { db := db, value := false }
  | some before =>
    if before.state ≠ .ringing then { db := db, value := false }
    else
      let inTime (i : CallIntent) : Bool :=
        if outcome = .missed ∧ boot = false then i.deadlineAt.any fun at_ => decide (at_ ≤ now)
        else true
      match db.updateIntent id (fun i => decide (i.state = .ringing) && inTime i)
        (fun i =>
          { i with
            state := .done
            outcome := some outcome.toOutcome
            activeSlot := false
            endedAt := some now
            receipt := receiptWith before [{ check := "ring", result := outcome.name }] stop }) with
      | none => { db := db, value := false }
      | some ended =>
        match ended.getIntent id with
        | none => { db := ended, value := true }
        | some intent =>
          { db := ended
            effects :=
              [.resolve intent (if outcome = .missed then .missed else .declined),
                .card intent] ++ (if outcome = .declined then [] else [.note intent])
            value := true }

def declineCall (id : String) (text : Bool) (now : Int) : Body Bool :=
  endRing db id (if text then .text_instead else .declined) now

def missCall (id : String) (now : Int) : Body Bool := endRing db id .missed now

/-- An ordinary call of the owner, which ends a ring. -/
def openOwnerSession (ids : SessionIds) (botId threadId device principal : String) (now : Int) :
    Except String (Body (SessionIds × Option String)) :=
  let rung : Body (Option String) :=
    match db.ringingIntent with
    | none => { db := db, value := none }
    | some ringing =>
      let ended := endRing db ringing.id .text_instead now false (some "another_call")
      { db := ended.db
        effects := ended.effects
        value := if ended.value then some ringing.id else none }
  match insertSession rung.db ids botId none threadId device principal now with
  | .error error => .error error
  | .ok opened => .ok { db := opened, effects := rung.effects, value := (ids, rung.value) }

inductive AnswerResult where
  | answered (ids : SessionIds) (threadId : String) (intent : CallIntent)
  | expired
  | answered_elsewhere
  | gone
  | not_found

/-- The device's name before its first colon. -/
def deviceKind (device : String) : String := String.ofList (device.toList.takeWhile (· ≠ ':'))

/-- T5, and its retry. -/
def answerCall (id device : String) (ids : SessionIds) (now : Int) (principal : String) :
    Except String (Body AnswerResult) :=
  match db.getIntent id with
  | none => .ok { db := db, value := .not_found }
  | some before =>
    match before.state with
    | .ringing =>
      if before.deadlineAt.all fun at_ => decide (at_ ≤ now) then
        let missed := endRing db id .missed now
        .ok { db := missed.db, effects := missed.effects, value := .expired }
      else
        match insertSession db ids before.botId (some id) before.threadId device principal now with
        | .error error => .error error
        | .ok opened =>
          match opened.updateIntent id
            (fun i => decide (i.state = .ringing) && i.deadlineAt.any fun at_ => decide (now < at_))
            (fun i =>
              { i with
                state := .live
                answeredOn := some device
                sessionId := some ids.sessionId
                receipt := receiptWith before
                  [{ check := "answer"
                     result := "answered"
                     detail := some (deviceKind device) }] }) with
          | none => .error "bot call: the ring changed inside its own transaction"
          | some answered =>
            match answered.getIntent id with
            | none => .error "bot call: the ring changed inside its own transaction"
            | some intent =>
              .ok
                { db := answered
                  effects := [.resolve intent .answered]
                  value := .answered ids before.threadId intent }
    | .live =>
      let session := before.sessionId.bind db.sessionById
      if before.answeredOn ≠ some device then .ok { db := db, value := .answered_elsewhere }
      else
        match session with
        | none => .ok { db := db, value := .gone }
        | some s =>
          if sessionLive s now then
            .ok
              { db := db
                value := .answered { sessionId := s.id, callId := s.callId } before.threadId before }
          else if s.endedAt = none then
            let silent := endSession db s.callId (silentEnd s now) now
            .ok { db := silent.db, effects := silent.effects, value := .gone }
          else .ok { db := db, value := .gone }
    | .done => .ok { db := db, value := .gone }
    | .pending => .ok { db := db, value := .expired }
    | .waiting => .ok { db := db, value := .expired }

/-! ## Cancels of the owner -/

inductive CancelScope where
  | bot (botId : String)
  | rule (ruleId : String)
  | intent (id : String)
  | all
deriving DecidableEq, Repr

inductive CancelReason where
  | stop
  | pause
  | delete
  | bot_off
  | rule_off
  | never_again
  | calls_off
  | owner
deriving DecidableEq, Repr

def CancelReason.name : CancelReason → String
  | stop => "stop"
  | pause => "pause"
  | delete => "delete"
  | bot_off => "bot_off"
  | rule_off => "rule_off"
  | never_again => "never_again"
  | calls_off => "calls_off"
  | owner => "owner"

def BOT_REASONS : List CancelReason := [.stop, .pause, .delete, .bot_off]

def CancelScope.holds (scope : CancelScope) (intent : CallIntent) : Bool :=
  match scope with
  | .bot botId => decide (intent.botId = botId)
  | .rule ruleId => decide (intent.ruleId = ruleId)
  | .intent id => decide (intent.id = id)
  | .all => true

def CancelScope.keepLive : CancelScope → Bool
  | .bot _ => false
  | _ => true

/-- T9 for one intent of the scope. -/
def cancelOne (keepLive : Bool) (reason : CancelReason) (now : Int) (body : Body (List String))
    (id : String) : Body (List String) :=
  match body.db.getIntent id with
  | none => body
  | some before =>
    if before.state = .done ∨ (keepLive = true ∧ before.state = .live) then body
    else
      match body.db.updateIntent id (fun i => decide (i.state ≠ .done))
        (fun i =>
          { i with
            state := .done
            outcome := some .cancelled
            activeSlot := false
            endedAt := some now
            receipt := receiptWith before [{ check := "cancel", result := reason.name }]
              (some reason.name) }) with
      | none => body
      | some cancelled =>
        match cancelled.getIntent id with
        | none => { body with db := cancelled }
        | some intent =>
          { db := cancelled
            effects := body.effects ++ [.resolve intent .stopped, .card intent]
            value := body.value ++ [id] }

def dropTurnMarks (botId : String) : Db :=
  let marks := db.rules.filter fun rule =>
    decide (rule.botId = botId) && decide (rule.kind = .turn_end) && rule.turnId.isSome
  { db with
    rules := db.rules.filter fun rule => !marks.any fun mark => decide (mark.id = rule.id)
    owed := db.owed.filter fun row =>
      !(decide (row.botId = botId) && row.kind == "turn" &&
        marks.any fun mark => mark.turnId.any fun turn => row.factKey == "turn:" ++ turn) }

def cancelBotCalls (scope : CancelScope) (reason : CancelReason) (now : Int) :
    Except String (Body (List String × List String)) :=
  if scope.keepLive = false ∧ reason ∉ BOT_REASONS then
    .error "bot call: a bot-scope cancel is a Stop, pause, delete or switch off"
  else
    let ids := (db.intents.filter fun intent =>
      decide (intent.state ≠ .done) && scope.holds intent &&
        !(scope.keepLive && decide (intent.state = .live))).map (·.id)
    let cancelled := ids.foldl (cancelOne scope.keepLive reason now) { db := db, value := [] }
    match scope with
    | .bot botId =>
      let marked := if reason = .bot_off then dropTurnMarks cancelled.db botId else cancelled.db
      let ends (session : CallSession) : Bool :=
        decide (session.botId = botId) && decide (session.endedAt = none)
      .ok
        { db :=
            { marked with
              sessions := marked.sessions.map fun session =>
                if ends session then
                  { session with endedAt := some now, endedBy := some .stopped }
                else session }
          effects := cancelled.effects ++ [.dropNotes botId]
          value := (cancelled.value, (marked.sessions.filter ends).map (·.callId)) }
    | _ => .ok { db := cancelled.db, effects := cancelled.effects, value := (cancelled.value, []) }

/-! ## The restore fence and retention -/

def fenceRestoredBotCalls (generation : String) (now : Int) : Db where
  intents := db.intents.map fun intent =>
    if intent.state ≠ .done then
      { intent with
        state := .done
        outcome := some .restored
        activeSlot := false
        endedAt := intent.endedAt.or (some now) }
    else intent
  sessions := db.sessions.map fun session =>
    if session.endedAt = none then { session with endedAt := some now, endedBy := some .restore }
    else session
  rules := db.rules.map fun rule =>
    { rule with restoreHeld := true, restoreGen := some generation }
  owed := []

/-- `DELETE FROM bot_calls`: the oldest done intents past their days, `limit` of them. -/
def pruneIntents (now : Int) (limit : Nat) : Db :=
  let due := (db.intents.filter fun intent =>
    decide (intent.createdAt < now - CALL_INTENT_RETENTION_MS) && decide (intent.state = .done)).mergeSort
      fun a b => decide (a.createdAt ≤ b.createdAt)
  { db with intents := db.intents.filter fun intent => !(due.take limit).any fun row => row.id == intent.id }

/-- `DELETE FROM bot_call_sessions`: sessions a day after they ended, `limit` of them. -/
def pruneSessions (now : Int) (limit : Nat) : Db :=
  let due := db.sessions.filter fun session =>
    session.endedAt.any fun at_ => decide (at_ < now - CALL_SESSION_RETENTION_MS)
  { db with
    sessions := db.sessions.filter fun session => !(due.take limit).any fun row => row.id == session.id }

end

end Murage.BotCalls
