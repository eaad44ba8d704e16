import Mathlib.Data.Finset.Erase
import Mathlib.Data.Finset.Filter
import Mathlib.Data.Finset.Insert
import Murage.Library.OrderedMap

/-!
Owns the durable record of owner sends: the rows, the operations of the store as they
write them, and the transcript lines that share its database. Every operation is one
transaction; a batch of `pruneResolved` and a row of `completeUnresolved` are one each.

Does not own: which conversations exist, and the reads that show rows.
-/

namespace Murage.OwnerSends

open Murage.Library

inductive SendStatus where
  | sending
  | queued
  | dispatched
  | started
  | delivered
  | unconfirmed
  | failed
  | refused
  | cancelled
deriving DecidableEq, Repr

inductive SendKind where
  | bot
  | group
deriving DecidableEq, Repr

inductive SendVia where
  | share
  | askIntent
deriving DecidableEq, Repr

/-- A row of `owner_sends`. `message` is the message whose row it is; no operation
reads it. -/
structure SendRow where
  seq : Nat
  kind : SendKind
  ownerId : String
  threadId : String
  sendId : Option String
  queueId : String
  /-- Hashed, as it is stored. -/
  fingerprint : String
  text : String
  prompt : Option String := none
  replyToId : Option String := none
  origin : Option String := none
  mode : Option String := none
  responderId : Option String := none
  existingMessageId : Option String := none
  messageId : Option String := none
  status : SendStatus
  notice : Option String := none
  dispatched : Bool := false
  restoreHeld : Bool := false
  restoreGen : Option String := none
  stopped : Bool := false
  stopGen : Option String := none
  actionId : Option String := none
  turnId : Option String := none
  via : Option SendVia := none
  queueOnly : Bool := false
  viaDevice : Option String := none
  attachments : Option String := none
  createdAt : Int
  updatedAt : Int
  message : Nat
deriving DecidableEq, Repr

/-- What was accepted. -/
structure Message where
  threadId : String
  sendId : Option String
  fingerprint : String
  text : String
deriving DecidableEq, Repr

structure SendStore where
  rows : List SendRow := []
  /-- The committed transcript lines: the words of each id. -/
  lines : OrderedMap String String := ∅
  /-- `send_restore_generation`. -/
  generation : Option String := none
  /-- In memory. -/
  lateOpen : Finset Nat := ∅
  /-- The messages that got a row of their own, oldest first. No operation reads it. -/
  accepted : List Message := []
  /-- The messages their owner cancelled or dismissed. No operation reads it. -/
  cancelled : Finset Nat := ∅

inductive StoreError where
  | gone
  | notWaiting
  | notStarted
  | needsLine
  | needsNotice
  | threadGone
  | viaNotQueueOnly
  | viaChanged
  | unique
  | append
deriving DecidableEq, Repr

/-- A string that JavaScript takes as present. -/
def given (value : Option String) : Option String := value.filter (· ≠ "")

namespace SendRow

def waiting (r : SendRow) : Bool := r.status == .sending || r.status == .queued

def PRUNABLE (r : SendRow) : Bool :=
  (r.status == .started || r.status == .delivered || r.status == .cancelled ||
    ((r.status == .unconfirmed || r.status == .failed) && r.messageId.isSome)) && r.text == ""

def mintStopToken (mint : Nat → String) (r : SendRow) : SendRow :=
  if r.stopped && (given r.stopGen).isNone then { r with stopGen := some (mint r.seq) } else r

def scrubbed (r : SendRow) : SendRow :=
  if r.status == .unconfirmed && r.messageId.isSome then { r with text := "", prompt := none } else r

end SendRow

namespace SendStore

/-- `UPDATE owner_sends SET … WHERE …`. -/
def updateWhere (s : SendStore) (matching : SendRow → Bool) (set : SendRow → SendRow) : SendStore :=
  { s with rows := s.rows.map fun r => if matching r then set r else r }

/-- An `UPDATE` that must change a row. -/
def updateOne (s : SendStore) (matching : SendRow → Bool) (set : SendRow → SendRow)
    (error : StoreError) : Except StoreError SendStore :=
  if s.rows.any matching then .ok (s.updateWhere matching set) else .error error

def update (s : SendStore) (seq : Nat) (set : SendRow → SendRow) (now : Int) :
    Except StoreError SendStore :=
  s.updateOne (·.seq == seq) (fun r => { set r with updatedAt := now }) .gone

/-- What an operation leaves when its transaction rolls back. -/
def orElse (result : Except StoreError SendStore) (s : SendStore) : SendStore :=
  match result with
  | .ok after => after
  | .error _ => s

end SendStore

/-! ## Acceptance -/

structure AcceptInput where
  kind : SendKind
  ownerId : String
  threadId : String
  sendId : Option String := none
  /-- The hash of the client's fingerprint. -/
  fingerprint : String
  text : String
  replyToId : Option String := none
  origin : Option String := none
  prompt : Option String := none
  mode : Option String := none
  responderId : Option String := none
  status : Option SendStatus := none
  notice : Option String := none
  queueId : Option String := none
  resend : Bool := false
  restoreGen : Option String := none
  stopGen : Option String := none
  actionId : Option String := none
  restoreHeld : Bool := false
  via : Option SendVia := none
  queueOnly : Bool := false
  viaDevice : Option String := none
  attachments : Option String := none
  now : Int
deriving DecidableEq, Repr

inductive AcceptKind where
  | new
  | existing
  | conflict
deriving DecidableEq, Repr

structure AcceptResult where
  kind : AcceptKind
  row : SendRow
deriving DecidableEq, Repr

/-- What `accept` decides about the row that its send id already has. -/
inductive Admission where
  | throws (error : StoreError)
  | answers (kind : AcceptKind)
  | replaces
deriving DecidableEq, Repr

def stoppedResendRuns (prior : SendRow) (input : AcceptInput) : Bool :=
  !prior.stopped || (input.resend && prior.stopGen.isSome && input.stopGen == prior.stopGen)

def AcceptInput.typedStop (input : AcceptInput) : AcceptInput :=
  { input with text := "", status := some .cancelled, mode := some "typedStop" }

namespace SendStore

def restoreGenerationCurrent (s : SendStore) (token : Option String) : Bool :=
  (given token).isSome && s.generation == token

def admission (s : SendStore) (input : AcceptInput) (prior : SendRow) : Admission :=
  if prior.fingerprint ≠ input.fingerprint then .answers .conflict
  else if prior.restoreHeld && !(input.resend && prior.restoreGen.isSome &&
      input.restoreGen == prior.restoreGen && s.restoreGenerationCurrent input.restoreGen) then
    .answers .existing
  else if prior.status ≠ .failed ∧ prior.status ≠ .refused then .answers .existing
  else if !stoppedResendRuns prior input then .answers .existing
  else if input.resend && (given input.actionId).isSome && prior.actionId == input.actionId then
    .answers .existing
  else if prior.via.isSome && input.via.isSome && input.via != prior.via then .throws .viaChanged
  else .replaces

/-- The row that the send id of `input` already has. -/
def prior (s : SendStore) (input : AcceptInput) : Option SendRow :=
  (given input.sendId).bind fun sendId =>
    s.rows.find? fun r => r.threadId == input.threadId && r.sendId == some sendId

def nextSeq (rows : List SendRow) : Nat := (rows.map (·.seq)).foldr max 0 + 1

/-- The row that `accept` inserts. A replaced row hands on the time it was typed, and a
replaced `via` row its standing and its files. -/
def newRow (input : AcceptInput) (replaced : Option SendRow) (seq message : Nat) (uuid : String)
    (heldGeneration : Option String) : SendRow :=
  let kept := replaced.filter (·.via.isSome)
  { seq := seq
    kind := input.kind
    ownerId := input.ownerId
    threadId := input.threadId
    sendId := input.sendId
    queueId := input.queueId.getD uuid
    fingerprint := input.fingerprint
    text := input.text
    prompt := input.prompt
    replyToId := input.replyToId
    origin := if kept.isSome then some "unproven" else input.origin
    mode := input.mode
    responderId := input.responderId
    status := input.status.getD .sending
    notice := if input.status = some .refused then some (input.notice.getD "refused") else none
    restoreHeld := input.restoreHeld
    restoreGen := heldGeneration
    actionId := if input.resend then given input.actionId else none
    via := (kept.bind (·.via)).or input.via
    queueOnly := kept.isSome || input.queueOnly
    viaDevice := match kept with | some r => r.viaDevice | none => input.viaDevice
    attachments := match kept with | some r => r.attachments | none => input.attachments
    createdAt := (replaced.map (·.createdAt)).getD input.now
    updatedAt := input.now
    message := message }

/-- The unique keys of `owner_sends` that an insert would break. -/
def clashes (rows : List SendRow) (row : SendRow) : Bool :=
  rows.any fun r => r.queueId == row.queueId ||
    (r.threadId == row.threadId && r.sendId.isSome && r.sendId == row.sendId)

/-- The rest of `accept`, after the check of the send id: the row to replace goes, then
the queue id is looked up, then the new row is inserted. -/
def enroll (s : SendStore) (input : AcceptInput) (replaced : Option SendRow)
    (uuid generation : String) : SendStore × Except StoreError AcceptResult :=
  let rows := match replaced with
    | none => s.rows
    | some prior => s.rows.filter (·.seq ≠ prior.seq)
  match (given input.queueId).bind fun queueId => rows.find? (·.queueId == queueId) with
  | some same => ({ s with rows := rows }, .ok ⟨.existing, same⟩)
  | none =>
    let current := if input.restoreHeld then s.generation.or (some generation) else s.generation
    let message := (replaced.map (·.message)).getD s.accepted.length
    let row := newRow input replaced (nextSeq rows) message uuid
      (if input.restoreHeld then current else none)
    if clashes rows row then (s, .error .unique)
    else
      ({ s with
        rows := rows ++ [row]
        generation := current
        accepted := if replaced.isSome then s.accepted else
          s.accepted ++ [⟨input.threadId, input.sendId, input.fingerprint, input.text⟩] },
        .ok ⟨.new, row⟩)

/-- `live` is the gate's answer; `uuid` and `generation` are the ids it would mint. -/
def accept (s : SendStore) (input : AcceptInput) (live : Bool) (uuid generation : String) :
    SendStore × Except StoreError AcceptResult :=
  if input.via.isSome && (!input.queueOnly || input.origin != some "unproven") then
    (s, .error .viaNotQueueOnly)
  else if input.status = some .refused ∧ live = false then (s, .error .threadGone)
  else match s.prior input with
    | none => s.enroll input none uuid generation
    | some prior =>
      match s.admission input prior with
      | .throws error => (s, .error error)
      | .answers kind => (s, .ok ⟨kind, prior⟩)
      | .replaces => s.enroll input (some prior) uuid generation

/-! ## Dispatch and outcomes -/

def markDispatched (s : SendStore) (seq : Nat) (now : Int) : Except StoreError SendStore :=
  s.update seq (fun r => { r with status := .dispatched, dispatched := true }) now

def markDispatchedMany (now : Int) : List Nat → SendStore → Except StoreError SendStore
  | [], s => .ok s
  | seq :: rest, s =>
    match s.updateOne (fun r => r.seq == seq && r.status == .queued)
      (fun r => { r with status := .dispatched, dispatched := true, updatedAt := now })
      .notWaiting with
    | .error error => .error error
    | .ok marked => markDispatchedMany now rest marked

def queue (s : SendStore) (seq : Nat) (existingMessageId prompt : Option String) (now : Int) :
    Except StoreError SendStore :=
  (s.update seq (fun r => { r with
    status := .queued
    dispatched := false
    existingMessageId := existingMessageId.or r.existingMessageId
    prompt := prompt.or r.prompt }) now).map
      fun queued => { queued with lateOpen := queued.lateOpen.erase seq }

def requeueStarted (s : SendStore) (seq : Nat) (messageId text : String) (prompt : Option String)
    (now : Int) : Except StoreError SendStore :=
  (s.updateOne (fun r => r.seq == seq && r.status == .started)
    (fun r => { r with
      status := .queued
      dispatched := false
      existingMessageId := some messageId
      text := text
      prompt := prompt.or r.prompt
      updatedAt := now }) .notStarted).map
        fun queued => { queued with lateOpen := queued.lateOpen.erase seq }

/-- What `settle` sets: a refused, unconfirmed or lineless failed row holds its words. -/
def settledRow (status : SendStatus) (messageId notice : Option String) (r : SendRow) : SendRow :=
  let hold := status == .refused || status == .unconfirmed ||
    (status == .failed && (given messageId).isNone)
  { r with
    status := status
    notice := notice.or r.notice
    messageId := messageId.or r.messageId
    dispatched := if status = .refused then false else r.dispatched
    prompt := if status = .refused ∨ hold = false then none else r.prompt
    text := if hold then r.text else "" }

def settle (s : SendStore) (seq : Nat) (status : SendStatus) (messageId notice : Option String)
    (now : Int) : Except StoreError SendStore :=
  if (status = .started ∨ status = .delivered) ∧ (given messageId).isNone then .error .needsLine
  else if status = .refused ∧ (given notice).isNone then .error .needsNotice
  else (s.update seq (settledRow status messageId notice) now).map fun settled =>
    if status = .unconfirmed then settled
    else { settled with lateOpen := settled.lateOpen.erase seq }

def refuse (s : SendStore) (seq : Nat) (notice : Option String) (now : Int) :
    Except StoreError SendStore :=
  s.settle seq .refused none (some (notice.getD "refused")) now

/-- `append` is the id and the words of the line it writes, or `none` when it throws. The
rollback of its transaction does not reach what is in memory. -/
def settleWithLine (s : SendStore) (seq : Nat) (status : SendStatus) (lineId : String)
    (append : Option (String × String)) (notice : Option String) (now : Int) :
    SendStore × Except StoreError Unit :=
  match s.settle seq status (some lineId) notice now with
  | .error error => (s, .error error)
  | .ok settled =>
    match append with
    | none => ({ s with lateOpen := settled.lateOpen }, .error .append)
    | some (actual, words) =>
      if actual ∈ settled.lines.keys then
        ({ s with lateOpen := settled.lateOpen }, .error .append)
      else
        ({ settled.updateWhere (·.seq == seq) fun r => { r with messageId := some actual } with
          lines := settled.lines.set actual words }, .ok ())

def setTurnId (s : SendStore) (seq : Nat) (turnId : String) : SendStore :=
  s.updateWhere (·.seq == seq) fun r => { r with turnId := some turnId }

def markStopped (s : SendStore) (threadId token : String) : SendStore :=
  s.updateWhere (fun r => r.threadId == threadId && r.waiting && !r.dispatched && !r.stopped)
    fun r => { r with stopped := true, stopGen := some token }

/-! ## Late answers -/

def holdForLateAnswer (s : SendStore) (seq : Nat) : SendStore :=
  { s with lateOpen := insert seq s.lateOpen }

def scrub (s : SendStore) (seq : Nat) : SendStore :=
  s.updateWhere (·.seq == seq) SendRow.scrubbed

def releaseLateAnswer (s : SendStore) (seq : Nat) : SendStore :=
  { s with lateOpen := s.lateOpen.erase seq }.scrub seq

def releaseThreadLate (s : SendStore) (threadId : String) : SendStore :=
  let ofThread := fun seq => s.rows.any fun r => r.seq == seq && r.threadId == threadId
  { s.updateWhere (fun r => r.seq ∈ s.lateOpen && r.threadId == threadId) SendRow.scrubbed with
    lateOpen := s.lateOpen.filter fun seq => ofThread seq = false }

def cancel (s : SendStore) (ownerId queueId : String) (now : Int) : SendStore :=
  match s.rows.find? fun r => r.ownerId == ownerId && r.queueId == queueId with
  | none => s
  | some row =>
    let chip := row.status == .refused ||
      (row.status == .failed && (given row.messageId).isNone && row.text != "")
    if (row.status ≠ .queued ∧ chip = false) ∨ (row.status = .queued ∧ row.dispatched) then s
    else
      { orElse (s.settle row.seq .cancelled none none now) s with
        cancelled := insert row.message s.cancelled }

/-! ## Startup and restores -/

def heldStopped (now : Int) (r : SendRow) : SendRow :=
  if r.stopped && r.waiting && !r.dispatched && r.text != "" then
    { r with
      status := .refused, dispatched := false, prompt := none, existingMessageId := none
      notice := some "notConfirmed", updatedAt := now }
  else r

def requeued (now : Int) (r : SendRow) : SendRow :=
  if r.status == .sending && !r.dispatched then { r with status := .queued, updatedAt := now } else r

/-- The rows that wait again and the unresolved ones. -/
def recover (s : SendStore) (mint : Nat → String) (now : Int) :
    SendStore × List SendRow × List SendRow :=
  let held := s.rows.map fun r => heldStopped now (r.mintStopToken mint)
  ({ s with rows := held.map (requeued now), lateOpen := ∅ },
    held.filter fun r => r.status == .sending && !r.dispatched,
    held.filter fun r => r.status == .dispatched || r.status == .unconfirmed)

/-- A row that `recover` returned, and what the transcript does with it: the line it has
already become, or the id of the line it gets, unless `appendReceipt` throws. -/
structure Unresolved where
  row : SendRow
  landed : Option String
  lineId : String
  throws : Bool := false

def completeRow (now : Int) (s : SendStore) (item : Unresolved) : SendStore :=
  match item.landed with
  | some landed =>
    if item.row.status = .dispatched then
      orElse (s.settle item.row.seq .started (some landed) none now) s
    else s.scrub item.row.seq
  | none =>
    if item.row.text = "" then s
    else
      match s.settleWithLine item.row.seq .unconfirmed item.lineId
        (if item.throws then none else some (item.lineId, item.row.text))
        (some "notConfirmed") now with
      | (written, .ok ()) => written.scrub item.row.seq
      | (after, .error _) => after

def completeUnresolved (s : SendStore) (items : List Unresolved) (now : Int) : SendStore :=
  items.foldl (completeRow now) s

/-- A waiting row of a restored backup: its words become a chip, without words it ends. -/
def neutralized (generation : String) (now : Int) (r : SendRow) : SendRow :=
  let kept := if r.waiting && r.text != "" then
    { r with
      status := .refused, dispatched := false, prompt := none, existingMessageId := none
      notice := some "refused", restoreHeld := true, updatedAt := now }
    else r
  let held := if kept.status == .failed || kept.status == .refused then
    { kept with restoreHeld := true } else kept
  let marked := if held.restoreHeld then { held with restoreGen := some generation } else held
  if marked.waiting then
    { marked with status := .cancelled, dispatched := false, prompt := none, updatedAt := now }
  else marked

def neutralizeRestoredSends (s : SendStore) (generation : String) (mint : Nat → String)
    (now : Int) : SendStore :=
  { s with
    generation := some generation
    rows := s.rows.map fun r => neutralized generation now (r.mintStopToken mint) }

/-! ## Pruning -/

/-- The seqs of the `batch` oldest rows. -/
def oldest (rows : List SendRow) (batch : Nat) : List Nat :=
  ((rows.mergeSort fun a b => a.updatedAt < b.updatedAt ||
    (a.updatedAt == b.updatedAt && decide (a.seq ≤ b.seq))).take batch).map (·.seq)

/-- One batch of `pruneResolved`. -/
def pruneBatch (s : SendStore) (older : SendRow → Bool) (batch : Nat) : SendStore :=
  let doomed := oldest (s.rows.filter fun r => r.PRUNABLE && older r && r.seq ∉ s.lateOpen) batch
  { s with rows := s.rows.filter (·.seq ∉ doomed) }

def pruneAge (s : SendStore) (cutoff : Int) (batch : Nat) : SendStore :=
  s.pruneBatch (·.updatedAt < cutoff) batch

/-- `pivot` is the row that the sweep read before its batches. -/
def pruneCap (s : SendStore) (pivot : Int × Nat) (batch : Nat) : SendStore :=
  s.pruneBatch (fun r => r.updatedAt < pivot.1 || (r.updatedAt == pivot.1 && decide (r.seq ≤ pivot.2)))
    batch

end SendStore

/-! ## Operations -/

inductive SendOp where
  | accept (input : AcceptInput) (live : Bool) (uuid generation : String)
  | markDispatched (seq : Nat) (now : Int)
  | markDispatchedMany (seqs : List Nat) (now : Int)
  | queue (seq : Nat) (existingMessageId prompt : Option String) (now : Int)
  | requeueStarted (seq : Nat) (messageId text : String) (prompt : Option String) (now : Int)
  | settle (seq : Nat) (status : SendStatus) (messageId notice : Option String) (now : Int)
  | refuse (seq : Nat) (notice : Option String) (now : Int)
  | settleWithLine (seq : Nat) (status : SendStatus) (lineId : String)
      (append : Option (String × String)) (notice : Option String) (now : Int)
  | setTurnId (seq : Nat) (turnId : String)
  | markStopped (threadId token : String)
  | holdForLateAnswer (seq : Nat)
  | releaseLateAnswer (seq : Nat)
  | releaseThreadLate (threadId : String)
  | scrub (seq : Nat)
  | cancel (ownerId queueId : String) (now : Int)
  | recover (mint : Nat → String) (now : Int)
  | completeUnresolved (items : List SendStore.Unresolved) (now : Int)
  | neutralizeRestoredSends (generation : String) (mint : Nat → String) (now : Int)
  | pruneAge (cutoff : Int) (batch : Nat)
  | pruneCap (pivot : Int × Nat) (batch : Nat)
  /-- Another writer of the transcript appends a line. -/
  | append (lineId words : String)
  /-- What is in memory is lost. -/
  | crash

namespace SendStore

def appendLine (s : SendStore) (lineId words : String) : SendStore :=
  if lineId ∈ s.lines.keys then s else { s with lines := s.lines.set lineId words }

def apply (s : SendStore) : SendOp → SendStore
  | .accept input live uuid generation => (s.accept input live uuid generation).1
  | .markDispatched seq now => orElse (s.markDispatched seq now) s
  | .markDispatchedMany seqs now => orElse (markDispatchedMany now seqs s) s
  | .queue seq existingMessageId prompt now =>
    orElse (s.queue seq existingMessageId prompt now) s
  | .requeueStarted seq messageId text prompt now =>
    orElse (s.requeueStarted seq messageId text prompt now) s
  | .settle seq status messageId notice now => orElse (s.settle seq status messageId notice now) s
  | .refuse seq notice now => orElse (s.refuse seq notice now) s
  | .settleWithLine seq status lineId append notice now =>
    (s.settleWithLine seq status lineId append notice now).1
  | .setTurnId seq turnId => s.setTurnId seq turnId
  | .markStopped threadId token => s.markStopped threadId token
  | .holdForLateAnswer seq => s.holdForLateAnswer seq
  | .releaseLateAnswer seq => s.releaseLateAnswer seq
  | .releaseThreadLate threadId => s.releaseThreadLate threadId
  | .scrub seq => s.scrub seq
  | .cancel ownerId queueId now => s.cancel ownerId queueId now
  | .recover mint now => (s.recover mint now).1
  | .completeUnresolved items now => s.completeUnresolved items now
  | .neutralizeRestoredSends generation mint now => s.neutralizeRestoredSends generation mint now
  | .pruneAge cutoff batch => s.pruneAge cutoff batch
  | .pruneCap pivot batch => s.pruneCap pivot batch
  | .append lineId words => s.appendLine lineId words
  | .crash => { s with lateOpen := ∅ }

/-! ## The drain -/

def drainRun (lateOpen : Finset Nat) : List SendRow → List SendRow
  | [] => []
  | row :: rest =>
    if row.status = .queued then row :: drainRun lateOpen rest
    else if row.status = .unconfirmed ∧ row.seq ∉ lateOpen then drainRun lateOpen rest
    else []

def drainable (s : SendStore) (threadId : String) (kind : SendKind) : List SendRow :=
  drainRun s.lateOpen ((s.rows.filter fun r => r.threadId == threadId && r.kind == kind &&
    (r.status == .sending || r.status == .queued || r.status == .dispatched ||
      r.status == .unconfirmed)).mergeSort fun a b => decide (a.seq ≤ b.seq))

/-! ## Operations that delete rows -/

/-- The person asked again after a refusal. -/
def retire (s : SendStore) (seq : Nat) : SendStore :=
  match s.rows.find? (·.seq == seq) with
  | none => s
  | some row =>
    if row.status ≠ .failed ∧ row.status ≠ .refused then s
    else { s with rows := s.rows.filter (·.seq ≠ seq) }

def acceptTypedStop (s : SendStore) (input : AcceptInput) (live : Bool)
    (uuid generation token : String) : SendStore × Except StoreError AcceptResult :=
  match s.accept input.typedStop live uuid generation with
  | (after, .ok ⟨.new, row⟩) => (after.markStopped input.threadId token, .ok ⟨.new, row⟩)
  | (after, result) => (after, result)

/-- The rows of the conversations that their owner deleted. -/
def purgeOrphans (s : SendStore) (deleted : String → String → SendKind → Bool) : SendStore :=
  { s with rows := s.rows.filter fun r => !deleted r.threadId r.ownerId r.kind }

def deleteThread (s : SendStore) (threadId : String) : SendStore :=
  { s with rows := s.rows.filter (·.threadId ≠ threadId) }

end SendStore

/-- Every operation of the store, and the deletion of a conversation. -/
inductive StoreOp where
  | send (op : SendOp)
  | retire (seq : Nat)
  | acceptTypedStop (input : AcceptInput) (live : Bool) (uuid generation token : String)
  | purgeOrphans (deleted : String → String → SendKind → Bool)
  | deleteThread (threadId : String)

namespace SendStore

def step (s : SendStore) : StoreOp → SendStore
  | .send op => s.apply op
  | .retire seq => s.retire seq
  | .acceptTypedStop input live uuid generation token =>
    (s.acceptTypedStop input live uuid generation token).1
  | .purgeOrphans deleted => s.purgeOrphans deleted
  | .deleteThread threadId => s.deleteThread threadId

end SendStore

end Murage.OwnerSends
