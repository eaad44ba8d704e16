import Mathlib
import Murage.ChannelDelivery.Model

/-!
Owns the passes over the ledger: what one pass does at a record up to its first wait, how it goes
on when it is answered, and the step of the whole system.
-/

namespace Murage.ChannelDelivery

/-! ## What the runs and the transport answer -/

/-- `human`: the error that asks for a link of the account. -/
inductive EnqueueAnswer where
  | run (id : String)
  | human
  | throws

structure RunResult where
  status : String
  output : Option String
  notice : Option String

def RunResult.finished (result : RunResult) : Bool :=
  ["completed", "failed", "cancelled", "blocked", "stopped"].contains result.status

inductive ResultAnswer where
  | result (run : Option RunResult)
  | throws

/-- Everything that is answered at one record up to the first wait: `isCurrent` at each place that
asks it, the runs, the clock, and whether each write goes through. -/
structure Visit where
  atStart : Bool
  enqueue : EnqueueAnswer
  linkWritten : Bool
  afterEnqueue : Bool
  queuedWritten : Bool
  result : ResultAnswer
  afterResult : Bool
  missingWritten : Bool
  responseWritten : Bool
  noticeNow : Int
  atNotice : Bool
  replyNow : Int
  beforeSend : Bool
  sendingWritten : Bool
  atReply : Bool

/-- What a waiting drain is answered, and what is answered at the records after it. -/
structure Resumed where
  reserved : Except SendError Unit
  sent : Except SendError Sent
  current : Bool
  atCatch : Bool
  noticeWritten : Bool
  sentWritten : Bool
  caughtWritten : Bool
  /-- The voice notes of the run, unless reading them throws. -/
  notes : Option Nat
  now : Int
  visits : String → Visit

/-- Why a pass ends before its last record: the binding is not current any more, or something throws:
a write, the runs, or the look at a record that is no longer there. -/
inductive Ending where
  | inactive
  | unwritten
  | threw
  | gone
  deriving DecidableEq

/-- How a visit ends: at the next record, with the whole pass, or in a wait. -/
inductive Flow where
  | next (world : World)
  | done (world : World) (ending : Ending)
  | wait (world : World) (await : Await)

/-- A change that throws ends the pass: it finds no record, or it is not written. -/
def afterChange (deliveryId : String) (changed : Option World) (goOn : World → Flow) (world : World) : Flow :=
  match changed with
  | none => .done world (if (world.state.find deliveryId).isSome then .unwritten else .gone)
  | some marked => goOn marked

/-! ## Texts and identifiers -/

def utf16Length (text : String) : Nat :=
  (text.toList.map fun letter => if letter.toNat < 65536 then 1 else 2).sum

/-- The schema of an identifier. -/
def isId (text : String) : Bool :=
  1 ≤ utf16Length text && utf16Length text ≤ 400 &&
    text.toList.all fun letter => 32 ≤ letter.toNat && letter.toNat ≠ 127

/-- The first letters of a text that fit. -/
def fitting : Nat → List Char → List Char
  | _, [] => []
  | room, letter :: rest =>
    let width := if letter.toNat < 65536 then 1 else 2
    if width ≤ room then letter :: fitting (room - width) rest else []

def answerOf (options : Options) (result : RunResult) : String :=
  let text := if result.output.getD "" = "" then options.taskEnded else result.output.getD ""
  String.ofList (fitting options.maxResponse text.toList)

/-! ## A visit, up to its first wait -/

/-- `send` is called. -/
def World.sends (deliveryId : String) (kind : Kind) (text : String) (world : World) : World :=
  world.log (.sends deliveryId kind text)

/-- The reply is marked before it goes. -/
def dispatchReply (options : Options) (visit : Visit) (deliveryId : String) (world : World) :
    Flow :=
  match world.state.find deliveryId with
  | none => .done world .gone
  | some record =>
    match record.response with
    | none => .next world
    | some text =>
      if !record.state.ready || decide (visit.replyNow < record.retryAt.getD 0) then .next world
      else if !world.active visit.beforeSend then .done world .inactive
      else
        afterChange deliveryId
          (change deliveryId
            (fun x =>
              { x with
                state := .sending
                attempts := x.attempts + 1 })
            visit.sendingWritten world)
          (fun marked =>
            if options.reserves then .wait marked (.replyReserve text record.runId)
            else if !marked.active visit.atReply then .done marked .inactive
            else .wait (marked.sends deliveryId .reply text) (.replySend record.runId))
          world

/-- The plain line while the run goes on. -/
def tellNotice (options : Options) (visit : Visit) (deliveryId : String) (record : Record)
    (result : RunResult) (world : World) : Flow :=
  match result.notice with
  | none => .next world
  | some text =>
    if text = "" ∨ record.noticeSent ∨ visit.noticeNow < record.retryAt.getD 0 then .next world
    else if options.reserves then .wait world (.noticeReserve text)
    else if !world.active visit.atNotice then .done world .inactive
    else .wait (world.sends deliveryId .notice text) .noticeSend

/-- A queued record takes the answer of its run. -/
def collect (options : Options) (visit : Visit) (deliveryId : String) (world : World) : Flow :=
  match world.state.find deliveryId with
  | none => .done world .gone
  | some record =>
    if record.state = .queued ∧ record.response = none then
      match visit.result with
      | .throws => .done world .threw
      | .result run =>
        if !world.active visit.afterResult then .done world .inactive
        else
          match run with
          | none =>
            afterChange deliveryId
              (change deliveryId
                (fun x =>
                  { x with
                    state := .needsReview
                    error := some "run-receipt-missing" })
                visit.missingWritten world)
              .next world
          | some result =>
            if result.finished then
              afterChange deliveryId
                (change deliveryId
                  (fun x => { x with response := some (answerOf options result) })
                  visit.responseWritten world)
                (dispatchReply options visit deliveryId) world
            else tellNotice options visit deliveryId record result world
    else dispatchReply options visit deliveryId world

def Ledger.waiting (ledger : Ledger) : Nat :=
  (ledger.records.filter fun record => record.state = .queued ∧ record.response = none).length

/-- The body of the loop over the records. -/
def visitRecord (options : Options) (visit : Visit) (deliveryId : String) (world : World) : Flow :=
  if !world.active visit.atStart then .done world .inactive
  else
    match world.state.find deliveryId with
    | none => .done world .gone
    | some record =>
      if record.state = .accepted ∧ record.response = none then
        if 3 ≤ world.state.waiting then .next world
        else
          match visit.enqueue with
          | .throws => .done world .threw
          | .human =>
            afterChange deliveryId
              (change deliveryId (fun x => { x with response := some options.linkAccount })
                visit.linkWritten world)
              .next world
          | .run id =>
            if !world.active visit.afterEnqueue then .done world .inactive
            else
              afterChange deliveryId
                (change deliveryId
                  (fun x =>
                    { x with
                      runId := some id
                      state := .queued })
                  visit.queuedWritten world)
                (collect options visit deliveryId) world
      else collect options visit deliveryId world

/-- The rest of a pass, up to its next wait. -/
def loop (options : Options) (visits : String → Visit) : List String → World → World
  | [], world => { world with draining := none }
  | deliveryId :: rest, world =>
    match visitRecord options (visits deliveryId) deliveryId world with
    | .next later => loop options visits rest later
    | .done later _ => { later with draining := none }
    | .wait later await =>
      { later with
        draining :=
          some
            { deliveryId := deliveryId
              todo := rest
              await := await } }

/-- `drain`: a pass that is under way is not started again. -/
def drain (options : Options) (visits : String → Visit) (world : World) : World :=
  if world.draining.isSome then world
  else loop options visits (world.state.records.map (·.deliveryId)) world

/-! ## After a wait -/

def caught (options : Options) (error : SendError) (now : Int) (record : Record) : Record :=
  let retried :=
    match error with
    | .channel code _ retryAfter _ =>
      if record.attempts < 3 ∧ code.retried then
        some (now + max 1 (retryAfter.getD (2 ^ record.attempts)) * 1000)
      else none
    | .foreign => none
  let settled :=
    if error.definite then
      match retried with
      | some retryAt =>
        { record with
          state := .queued
          retryAt := some retryAt }
      | none => { record with state := .rejected }
    else { record with state := .uncertain }
  { settled with
    error := some error.text
    response :=
      if options.clearResponseOnSettle ∧ settled.state ≠ .queued then none else record.response }

def catchError (options : Options) (answers : Resumed) (deliveryId : String) (error : SendError)
    (world : World) : Flow :=
  if !world.active answers.atCatch then .done world .inactive
  else
    afterChange deliveryId
      (change deliveryId (caught options error answers.now) answers.caughtWritten world)
      .next world

/-- What a reply that went out makes of the record. -/
def delivered (options : Options) (messageId : String) (record : Record) : Record :=
  { record with
    state := .sent
    messageId := some messageId
    retryAt := none
    error := none
    response := if options.clearResponseOnSettle then none else record.response }

/-- The answer names the right chat and a message. -/
def Sent.confirms (sent : Sent) (options : Options) : Bool :=
  sent.recipient = options.recipient && isId sent.messageId

/-- The reply went: it is marked, and the voice notes of its run follow. -/
def settleReply (options : Options) (answers : Resumed) (deliveryId : String)
    (runId : Option String) (sent : Sent) (world : World) : Flow :=
  if !world.active answers.current then .done world .inactive
  else if !sent.confirms options then
    catchError options answers deliveryId (.channel .invalidRequest true none false) world
  else
    match change deliveryId (delivered options sent.messageId) answers.sentWritten world with
    | none => catchError options answers deliveryId .foreign world
    | some marked =>
      if runId.isSome && options.speaks then
        match answers.notes with
        | none => catchError options answers deliveryId .foreign marked
        | some 0 => .next marked
        | some (left + 1) => .wait marked (.audio left)
      else .next marked

/-- The notice went: it is marked if it can be, and the run is untouched either way. -/
def settleNotice (options : Options) (answers : Resumed) (deliveryId : String) (sent : Sent)
    (world : World) : Flow :=
  if !world.active answers.current then .done world .inactive
  else if sent.confirms options then
    .next ((change deliveryId (fun x => { x with noticeSent := true }) answers.noticeWritten
      world).getD world)
  else .next world

/-- What a waiting visit does with its answer. -/
def answered (options : Options) (answers : Resumed) (deliveryId : String) (world : World) :
    Await → Flow
  | .noticeReserve text =>
    match answers.reserved with
    | .error _ => .next world
    | .ok () =>
      if !world.active answers.current then .done world .inactive
      else .wait (world.sends deliveryId .notice text) .noticeSend
  | .noticeSend =>
    let logged := world.log (.answers deliveryId .notice answers.sent)
    match answers.sent with
    | .error _ => .next logged
    | .ok sent => settleNotice options answers deliveryId sent logged
  | .replyReserve text runId =>
    match answers.reserved with
    | .error error => catchError options answers deliveryId error world
    | .ok () =>
      if !world.active answers.current then .done world .inactive
      else .wait (world.sends deliveryId .reply text) (.replySend runId)
  | .replySend runId =>
    let logged := world.log (.answers deliveryId .reply answers.sent)
    match answers.sent with
    | .error error => catchError options answers deliveryId error logged
    | .ok sent => settleReply options answers deliveryId runId sent logged
  | .audio 0 => .next world
  | .audio (left + 1) => .wait world (.audio left)

/-- A pass goes on. -/
def resume (options : Options) (answers : Resumed) (world : World) : World :=
  match world.draining with
  | none => world
  | some pass =>
    match answered options answers pass.deliveryId world pass.await with
    | .next later => loop options answers.visits pass.todo later
    | .done later _ => { later with draining := none }
    | .wait later await => { later with draining := some { pass with await := await } }

/-! ## The system -/

inductive Event where
  | accept (input : Input) (admission : Admission)
  | drain (visits : String → Visit)
  | resume (answers : Resumed)
  | revoke (written : Bool)
  | stop
  | crash
  | reopen (write : Write)

/-- One step. Only an open ledger is called, and one is opened where none is open or the open one
was stopped. -/
def step (options : Options) (world : World) : Event → World
  | .accept input admission => if world.isOpen then (accept input admission world).2 else world
  | .drain visits => if world.isOpen then drain options visits world else world
  | .resume answers => resume options answers world
  | .revoke written => if world.isOpen then revoke written world else world
  | .stop => if world.isOpen then stop world else world
  | .crash => if world.isOpen then crash world else world
  | .reopen write => if world.isOpen && !world.stopped then world else reopen write world

end Murage.ChannelDelivery
