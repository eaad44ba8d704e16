import Mathlib.Data.List.Basic
import Mathlib.Tactic.Common

/-!
Owns the receipt ledger of one channel chat: its records and tombstones, the process that keeps
it in memory and on disk, the calls that read and change it, and the trace of what went out.

Does not own: the pages of the file, the limits on texts, quotes and media, and what the run
behind a record does.
-/

namespace Murage.ChannelDelivery

/-! ## The ledger -/

inductive RecordState where
  | accepted
  | queued
  | sending
  | sent
  | uncertain
  | rejected
  | cancelled
  | needsReview
  deriving DecidableEq

/-- `pending` of the source. -/
def RecordState.pending (state : RecordState) : Bool :=
  [accepted, queued, sending].contains state

/-- The states that compaction takes. -/
def RecordState.settled (state : RecordState) : Bool := [sent, cancelled].contains state

/-- The states from which a reply may still be sent. -/
def RecordState.ready (state : RecordState) : Bool := [accepted, queued].contains state

/-- What stays of a record after compaction. -/
structure Tombstone where
  deliveryId : String
  dedupeId : Option String := none
  occurredAt : Int
  deriving DecidableEq

structure Record where
  deliveryId : String
  dedupeId : Option String := none
  prompt : String
  occurredAt : Int
  runId : Option String := none
  state : RecordState
  response : Option String := none
  attempts : Nat := 0
  retryAt : Option Int := none
  messageId : Option String := none
  error : Option String := none
  noticeSent : Bool := false
  deriving DecidableEq

def Record.tombstone (record : Record) : Tombstone :=
  { deliveryId := record.deliveryId
    dedupeId := record.dedupeId
    occurredAt := record.occurredAt }

structure Ledger where
  records : List Record := []
  tombstones : List Tombstone := []
  deriving DecidableEq

/-- Both kinds of rows, by what they say of the delivery. -/
def Ledger.receipts (ledger : Ledger) : List Tombstone :=
  ledger.records.map (·.tombstone) ++ ledger.tombstones

def Tombstone.names (row : Tombstone) (deliveryId : String) : Bool :=
  row.deliveryId = deliveryId ∨ row.dedupeId = some deliveryId

/-- A record or a tombstone names the delivery. -/
def Ledger.has (ledger : Ledger) (deliveryId : String) : Bool :=
  ledger.receipts.any (·.names deliveryId)

/-- The record that `lookup` finds. -/
def Ledger.find (ledger : Ledger) (deliveryId : String) : Option Record :=
  ledger.records.find? (·.deliveryId = deliveryId)

/-- `records.find` and a change of what it finds; without one the change throws. -/
def changeFirst (deliveryId : String) (fn : Record → Record) : List Record → Option (List Record)
  | [] => none
  | record :: rest =>
    if record.deliveryId = deliveryId then some (fn record :: rest)
    else (changeFirst deliveryId fn rest).map (record :: ·)

/-! ## Sends -/

/-- `code` of a `ChannelSendError`. -/
inductive Code where
  | auth
  | forbidden
  | rateLimit
  | invalidRequest
  | offline
  | timeout
  | unavailable
  deriving DecidableEq

def Code.text : Code → String
  | auth => "auth"
  | forbidden => "forbidden"
  | rateLimit => "rate-limit"
  | invalidRequest => "invalid-request"
  | offline => "offline"
  | timeout => "timeout"
  | unavailable => "unavailable"

/-- The codes after which the same reply is tried again. -/
def Code.retried (code : Code) : Bool := [rateLimit, offline, timeout, unavailable].contains code

/-- `channel`: a `ChannelSendError`; `foreign`: anything else that was thrown. -/
inductive SendError where
  | channel (code : Code) (uncertain : Bool) (retryAfterSeconds : Option Int) (isPartial : Bool)
  | foreign
  deriving DecidableEq

/-- Nothing went out, for certain. -/
def SendError.definite : SendError → Bool
  | channel _ uncertain _ isPartial => !uncertain && !isPartial
  | foreign => false

def SendError.text : SendError → String
  | channel code _ _ isPartial => if isPartial then "partial" else code.text
  | foreign => "send-uncertain"

/-- What `send` resolves to. -/
structure Sent where
  recipient : String
  messageId : String
  deriving DecidableEq

/-- `reply`: the record's answer; `notice`: the plain line while its run waits. -/
inductive Kind where
  | reply
  | notice
  deriving DecidableEq

/-- One thing that happened. `interrupted`: the process crashed, was stopped or revoked while the
record was `sending`. -/
inductive Entry where
  | accepted (deliveryId : String)
  | sends (deliveryId : String) (kind : Kind) (text : String)
  | answers (deliveryId : String) (kind : Kind) (outcome : Except SendError Sent)
  | interrupted (deliveryId : String)

/-! ## The process -/

structure Options where
  recipient : String
  /-- `runs.enqueue` is answered with a link request: the line that the sender gets. -/
  linkAccount : String
  taskEnded : String
  maxResponse : Nat
  clearResponseOnSettle : Bool
  /-- `reserve` is given. -/
  reserves : Bool
  /-- `sendAudio` and `voiceNotes` are given. -/
  speaks : Bool

/-- Where a drain waits. -/
inductive Await where
  | noticeReserve (text : String)
  | noticeSend
  | replyReserve (text : String) (runId : Option String)
  | replySend (runId : Option String)
  | audio (left : Nat)

/-- A drain that waits at one record, with the deliveries after it in its pass. -/
structure Drain where
  deliveryId : String
  todo : List String
  await : Await

/-- The file, the process and what happened, newest first. `clock`: the latest reading of an
admission. -/
structure World where
  file : Option Ledger
  state : Ledger := {}
  isOpen : Bool := false
  stopped : Bool := false
  draining : Option Drain := none
  clock : Int
  trace : List Entry := []

/-- What a constructor would read. -/
def World.ledger (world : World) : Ledger := world.file.getD {}

def World.log (entry : Entry) (world : World) : World :=
  { world with trace := entry :: world.trace }

/-- `active`, where `current` is the answer of `isCurrent`. -/
def World.active (world : World) (current : Bool) : Bool := !world.stopped && current

/-- The bound that the schema sets on `attempts`. -/
def Ledger.parses (ledger : Ledger) : Bool := ledger.records.all (·.attempts ≤ 3)

/-- `mutate`: nothing changes when the new ledger is refused or not written. -/
def mutate (next : Ledger) (written : Bool) (world : World) : Option World :=
  if next.parses && written then
    some
      { world with
        file := some next
        state := next }
  else none

/-- `change`: one record, by its delivery. -/
def change (deliveryId : String) (fn : Record → Record) (written : Bool) (world : World) :
    Option World :=
  (changeFirst deliveryId fn world.state.records).bind fun records =>
    mutate { world.state with records := records } written world

/-! ## Admission -/

def windowMs : Int := 7 * 86400000

structure Input where
  deliveryId : String
  prompt : String
  occurredAt : Int
  response : Option String := none
  deriving DecidableEq

def Input.record (input : Input) : Record :=
  { deliveryId := input.deliveryId
    prompt := input.prompt
    occurredAt := input.occurredAt
    response := input.response
    state := .accepted }

def Tombstone.within (row : Tombstone) (now : Int) : Bool := now - windowMs ≤ row.occurredAt

/-- The rows that are still in the window, each by a reading of its own. -/
def young (readings : Nat → Int) (start : Nat) (rows : List Tombstone) : List Tombstone :=
  ((rows.zipIdx start).filter fun row => row.1.within (readings row.2)).map (·.1)

/-- The settled records become tombstones, and what has left the window goes. -/
def compacted (readings : Nat → Int) (ledger : Ledger) : Ledger :=
  { records := ledger.records.filter fun record => !record.state.settled
    tombstones :=
      young readings 2 ledger.tombstones ++
        young readings (2 + ledger.tombstones.length)
          ((ledger.records.filter (·.state.settled)).map (·.tombstone)) }

def lastReading (ledger : Ledger) : Nat :=
  1 + ledger.tombstones.length + (ledger.records.filter (·.state.settled)).length

/-- What the clock, `isCurrent` and the disk answer an admission. -/
structure Admission where
  current : Bool
  readings : Nat → Int
  written : Bool

inductive Answer where
  | accepted
  | duplicate
  | notCurrent
  | outsideWindow
  | pendingLimit
  | notWritten
  deriving DecidableEq

/-- `accept`. -/
def accept (input : Input) (admission : Admission) (world : World) : Answer × World :=
  if !world.active admission.current then (.notCurrent, world)
  else if world.state.has input.deliveryId then (.duplicate, world)
  else if input.occurredAt < admission.readings 0 - windowMs then
    (.outsideWindow, { world with clock := admission.readings 0 })
  else if admission.readings 1 + 300000 < input.occurredAt then
    (.outsideWindow, { world with clock := admission.readings 1 })
  else
    let later := { world with clock := admission.readings (lastReading world.state) }
    let kept := compacted admission.readings world.state
    if 200 ≤ kept.records.length ∨ 10000 ≤ kept.tombstones.length then (.pendingLimit, later)
    else
      match mutate { kept with records := kept.records ++ [input.record] } admission.written later with
      | none => (.notWritten, later)
      | some next => (.accepted, next.log (.accepted input.deliveryId))

/-! ## Stopping and opening -/

/-- The deliveries whose reply may be on its way. -/
def Ledger.sending (ledger : Ledger) : List String :=
  (ledger.records.filter (·.state = .sending)).map (·.deliveryId)

def World.interrupt (world : World) : World :=
  { world with trace := world.state.sending.map .interrupted ++ world.trace }

/-- `stop`. -/
def stop (world : World) : World := { world.interrupt with stopped := true }

/-- What `revoke` makes of a record. -/
def Record.revoked (record : Record) : Record :=
  if record.state.pending then
    { record with state := if record.state = .sending then .uncertain else .cancelled }
  else record

/-- `revoke`: the process stops first, whether or not the ledger can then be written. -/
def revoke (written : Bool) (world : World) : World :=
  let stopped := stop world
  (mutate { stopped.state with records := stopped.state.records.map (·.revoked) } written
    stopped).getD stopped

/-- The process is gone; what it wrote stays. -/
def crash (world : World) : World :=
  { world.interrupt with
    isOpen := false
    draining := none }

/-- What a constructor makes of a record that was being sent. -/
def Record.reopened (record : Record) : Record :=
  if record.state = .sending then { record with state := .uncertain } else record

/-- How the write of a constructor ends. `missing`: it throws `ENOENT`, which the constructor
takes for a ledger that is not there. -/
inductive Write where
  | done
  | refused
  | missing
  deriving DecidableEq

def Ledger.opens (ledger : Ledger) : Bool :=
  ledger.parses && decide ((ledger.receipts.map (·.deliveryId)).Nodup)

def World.opened (ledger : Ledger) (world : World) : World :=
  { world with
    state := ledger
    isOpen := true
    stopped := false
    draining := none }

/-- The constructor. -/
def reopen (write : Write) (world : World) : World :=
  match world.file with
  | none => world.opened {}
  | some ledger =>
    if !ledger.opens then world
    else if ledger.sending = [] then world.opened ledger
    else
      match write with
      | .refused => world
      | .missing => world.opened ledger
      | .done =>
        let marked := { ledger with records := ledger.records.map (·.reopened) }
        { world.opened marked with file := some marked }

end Murage.ChannelDelivery
