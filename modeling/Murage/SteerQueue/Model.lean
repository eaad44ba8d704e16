import Mathlib
import Murage.Library.Transition
import Murage.OwnerSends.Model

/-!
Owns the drain of a bot's waiting sends: which rows one drain takes, what it commits for
each of them, the one run it starts, and what the outcome of that start does. A call of
`again` is a drain of its own.

Does not own: the rows' store, what a started run does, and the images a line binds.
-/

namespace Murage.SteerQueue

open Murage.Library
open Murage.Library.Transition
open Murage.OwnerSends
open Murage.OwnerSends.SendStore

structure Line where
  id : String
  text : String
deriving DecidableEq, Repr

/-- Whether a stored file is an image. -/
inductive SendAttachment where
  | image
  | file
deriving DecidableEq, Repr

/-- The parser of a row's stored files, `none` for what does not parse. -/
abbrev ParseAttachments := String → Option (List SendAttachment)

/-! ## What the rest of the server answers -/

/-- What happens to one row while it is drained. -/
structure RowEnv where
  /-- The row can be read again. -/
  rereads : Bool
  /-- A refusal can be written. -/
  refuses : Bool
  /-- The outcome of a row whose line exists can be written. -/
  settles : Bool
  lineId : String
  /-- The id of the line that was appended, none when the append throws. -/
  append : Option { id : String // id ≠ "" }

/-- What one pass over one conversation meets. -/
structure DrainEnv where
  now : Int
  reads : Bool
  bot : Bool
  busy : Bool
  blocked : Bool
  occupied : Bool
  marks : Bool
  row : Nat → RowEnv
  /-- `run` returns a promise. -/
  starts : Bool

/-! ## The state -/

/-- A start that has not settled: the rows it runs and the lines they run from. -/
structure Start where
  token : Nat
  threadId : String
  ownerId : String
  committed : List (SendRow × Line)
deriving DecidableEq, Repr

structure Retry where
  attempt : Nat
  /-- When the thread may be tried next. -/
  due : Int
  timer : Bool
deriving DecidableEq, Repr

/-- A call of `run`, with what the drain took and committed. -/
structure RunCall where
  ownerId : String
  threadId : String
  prompt : String
  userMessage : Line
  excludeIds : List String
  via : Option SendVia
  viaDevice : Option String
  /-- The rows of the drain. -/
  batch : List SendRow
  committed : List (SendRow × Line)
  /-- What is stored when the drain begins and when it calls `run`. -/
  before : SendStore
  after : SendStore
  /-- The conversations whose starts have not settled. -/
  pending : List String

structure Drains where
  store : SendStore
  /-- The conversation of each line. -/
  home : String → String
  starting : String → Option Nat := fun _ => none
  /-- The promises that have not settled. -/
  pending : List Start := []
  nextToken : Nat := 0
  retries : String → Option Retry := fun _ => none
  watches : Finset String := ∅
  /-- Every call of `run`, oldest first. Nothing reads it. -/
  runs : List RunCall := []

def RETRY_MIN_MS : Int := 200
def RETRY_MAX_MS : Int := 2000

/-! ## Reads of the store -/

section Reads

variable (s : SendStore) (threadId : String)

def bySeq (seq : Nat) : Option SendRow := s.rows.find? (·.seq == seq)

def queuedRows (kind : SendKind) : List SendRow :=
  (s.rows.filter fun r => r.threadId == threadId && r.status == .queued && r.kind == kind).mergeSort
    fun a b => decide (a.seq ≤ b.seq)

def queuedThreads (kind : SendKind) : List String :=
  (((s.rows.filter fun r => r.status == .queued && r.kind == kind).map (·.threadId)).dedup).mergeSort
    fun a b => decide (a ≤ b)

end Reads

/-- What one drain runs: the leading owner rows, or exactly the first row when it is a share
or an ask-intent. -/
def drainBatch : List SendRow → List SendRow
  | [] => []
  | first :: rest =>
    if first.via.isSome then [first] else (first :: rest).takeWhile (·.via.isNone)

def attachmentsMalformed (parse : ParseAttachments) (row : SendRow) : Bool :=
  (given row.attachments).any fun column => (parse column).isNone

def attachments (parse : ParseAttachments) (row : SendRow) : Option (List SendAttachment) :=
  (given row.attachments).bind parse

/-- A `via` row runs only while its fence holds. -/
def runnable (parse : ParseAttachments) (row fresh : SendRow) : Bool :=
  fresh.queueOnly && fresh.via == row.via && fresh.origin == some "unproven" &&
    !attachmentsMalformed parse fresh &&
    !(attachments parse fresh).any fun items => items.any (· != .image)

/-! ## One batch -/

/-- The store while a batch is drained, and what it has committed so far. -/
structure Batch where
  store : SendStore
  home : String → String
  committed : List (SendRow × Line) := []

namespace Batch

section

variable (parse : ParseAttachments) (env : DrainEnv) (threadId : String) (b : Batch) (row : SendRow)

def messageById (id : String) : Option Line :=
  if b.home id = threadId then (b.store.lines.get id).map (⟨id, ·⟩) else none

/-- A refusal that cannot be written leaves the row dispatched. -/
def refuse : Batch :=
  if (env.row row.seq).refuses then
    { b with store := orElse (b.store.refuse row.seq none env.now) b.store }
  else b

/-- A row that is not a `via` row, or whose fence still holds. -/
def fenced : Bool :=
  row.via.isNone ||
    (if (env.row row.seq).rereads then bySeq b.store row.seq else none).any (runnable parse row)

/-- The line the row runs from: the one it has, or the one it becomes. -/
def lineOf : Batch × Option Line :=
  match (given row.existingMessageId).bind (b.messageById threadId) with
  | some line => (b, some line)
  | none =>
    match (env.row row.seq).append, b.store.settleWithLine row.seq .started
      (env.row row.seq).lineId ((env.row row.seq).append.map fun id => (id.val, row.text)) none
      env.now with
    | some id, (store, .ok ()) =>
      ({ b with store, home := Function.update b.home id.val threadId },
        some ⟨id.val, row.text⟩)
    | _, (store, _) => ({ b with store }.refuse env row, none)

/-- A line already in the transcript is its own receipt. -/
def commit (line : Line) : Batch :=
  { b with
    store :=
      if given row.existingMessageId = some line.id ∧ (env.row row.seq).settles then
        orElse (b.store.settle row.seq .started (some line.id) none env.now) b.store
      else b.store
    committed := b.committed ++ [(row, line)] }

def drainRow : Batch :=
  if b.fenced parse env row then
    match b.lineOf env threadId row with
    | (b, some line) => b.commit env row line
    | (b, none) => b
  else b.refuse env row

end

end Batch

/-! ## The drain -/

namespace Drains

section

variable (s : Drains)

def clearRetry (threadId : String) : Drains :=
  { s with retries := Function.update s.retries threadId none }

/-- Only a new refusal sets a back-off. -/
def scheduleRetry (threadId : String) (refused : Bool) (now : Int) : Drains :=
  let retry := (s.retries threadId).getD { attempt := 0, due := 0, timer := false }
  let delay := if refused then min RETRY_MAX_MS (RETRY_MIN_MS * 2 ^ retry.attempt) else RETRY_MAX_MS
  let next : Retry :=
    if refused then { attempt := retry.attempt + 1, due := now + delay, timer := true }
    else { retry with timer := true }
  { s with
    retries := Function.update s.retries threadId (some next)
    watches := s.watches.erase threadId }

def watch (threadId : String) : Drains :=
  if threadId ∈ s.watches ∨ (s.retries threadId).isSome then s
  else { s with watches := insert threadId s.watches }

def setStore (store : SendStore) : Drains := { s with store }

/-- The rows of a bot that was deleted while they waited. -/
def refuseAll (env : DrainEnv) (rows : List SendRow) : Drains :=
  s.setStore (rows.foldl (fun b row => Batch.refuse env b row) { store := s.store, home := s.home }).store

/-- The call of `run`, and the start it leaves pending. -/
def callRun (env : DrainEnv) (call : RunCall) : Drains :=
  let called := { s with runs := s.runs ++ [call] }
  if env.starts then
    { called with
      starting := Function.update s.starting call.threadId (some s.nextToken)
      pending := s.pending ++ [⟨s.nextToken, call.threadId, call.ownerId, call.committed⟩]
      nextToken := s.nextToken + 1 }
  else called.clearRetry call.threadId

/-- The committed batch, and the run it starts. True when a `via` row was refused whole. -/
def runBatch (env : DrainEnv) (threadId : String) (first head : SendRow) (rows : List SendRow)
    (before : SendStore) (b : Batch) : Drains × Bool :=
  let drained := { s with store := b.store, home := b.home }
  match b.committed.getLast? with
  | none => (drained, head.via.isSome)
  | some last =>
    (drained.callRun env
      { ownerId := first.ownerId
        threadId := threadId
        prompt := "\n".intercalate (b.committed.map fun pair => pair.1.prompt.getD pair.1.text)
        userMessage := last.2
        excludeIds := b.committed.map (·.2.id)
        via := first.via
        viaDevice := if first.via.isSome then first.viaDevice else none
        batch := rows
        committed := b.committed
        before := before
        after := b.store
        pending := s.pending.map (·.threadId) }, false)

variable (parse : ParseAttachments)

def drainRows (env : DrainEnv) (threadId : String) (first : SendRow) : Drains × Bool :=
  let released := s.setStore (s.store.releaseThreadLate threadId)
  match drainBatch (released.store.drainable threadId .bot) with
  | [] => (released, false)
  | head :: rest =>
    match if env.marks then markDispatchedMany env.now ((head :: rest).map (·.seq)) released.store
      else .error .notWaiting with
    | .error _ => (released, false)
    | .ok marked =>
      released.runBatch env threadId first head (head :: rest) released.store
        ((head :: rest).foldl (fun b row => Batch.drainRow parse env threadId b row)
          { store := marked, home := s.home })

def backedOff (threadId : String) (now : Int) : Bool :=
  (s.retries threadId).any fun retry => decide (now < retry.due)

/-- One pass for one thread. True when nothing ran and the rows behind may. -/
def drainOne (env : DrainEnv) (threadId : String) : Drains × Bool :=
  if !env.reads then (s, false)
  else match queuedRows s.store threadId .bot with
    | [] => (s, false)
    | first :: rest =>
      if !env.bot then (s.refuseAll env (first :: rest), false)
      else if env.busy then (s, false)
      else if env.blocked then (s, false)
      else if (s.starting threadId).isSome then (s, false)
      else if s.backedOff threadId env.now then (s, false)
      else if env.occupied then (s.watch threadId, false)
      else s.drainRows parse env threadId first

/-- The passes over one thread, at most `left` more. -/
def passes (env : Nat → DrainEnv) (threadId : String) : Nat → Drains → Drains
  | 0, s => s
  | left + 1, s =>
    match s.drainOne parse (env left) threadId with
    | (next, true) => passes env threadId left next
    | (next, false) => next

def drainSteeredMessages (env : String → Nat → DrainEnv) : Drains :=
  (queuedThreads s.store .bot).foldl (fun s threadId => passes parse (env threadId) threadId 64 s) s

/-! ## The outcome of a start -/

def requeueInPlace (now : Int) (committed : List (SendRow × Line)) : Drains :=
  s.setStore (committed.foldl (fun store pair => orElse (store.requeueStarted pair.1.seq pair.2.id
    pair.2.text pair.1.prompt now) store) s.store)

inductive Outcome where
  | requeue
  /-- Admitted, failed, or over. -/
  | final
deriving DecidableEq, Repr

/-- A start settles: `occupied` is what its thread answers then. -/
def settle (token : Nat) (outcome : Outcome) (now : Int) (occupied : Bool)
    (env : String → Nat → DrainEnv) : Drains :=
  match s.pending.find? (·.token == token) with
  | none => s
  | some start =>
    let settled := { s with pending := s.pending.filter (·.token != token) }
    if settled.starting start.threadId = some token then
      let ended := { settled with
        starting := Function.update settled.starting start.threadId none }
      match outcome with
      | .requeue => (ended.requeueInPlace now start.committed).scheduleRetry start.threadId true now
      | .final =>
        let cleared := ended.clearRetry start.threadId
        if occupied then cleared else cleared.drainSteeredMessages parse env
    else settled

/-- The thread's timer tries it again, and keeps looking while a row waits. -/
def retryTimer (threadId : String) (counts : Bool) (now : Int) (env : String → Nat → DrainEnv) :
    Drains :=
  match s.retries threadId with
  | none => s
  | some retry =>
    let due := { s with
      retries := Function.update s.retries threadId (some { retry with due := 0, timer := false }) }
    let tried := due.drainSteeredMessages parse env
    match tried.retries threadId with
    | none => tried
    | some retry =>
      if retry.timer ∨ (tried.starting threadId).isSome then tried
      else if counts = false ∨ queuedRows tried.store threadId .bot ≠ [] then
        tried.scheduleRetry threadId false now
      else tried.clearRetry threadId

def watchTimer (threadId : String) (env : String → Nat → DrainEnv) : Drains :=
  { s with watches := s.watches.erase threadId }.drainSteeredMessages parse env

end

end Drains

/-! ## Steps -/

inductive DrainOp where
  | drain (env : String → Nat → DrainEnv)
  | settle (token : Nat) (outcome : Drains.Outcome) (now : Int) (occupied : Bool)
      (env : String → Nat → DrainEnv)
  | retryTimer (threadId : String) (counts : Bool) (now : Int) (env : String → Nat → DrainEnv)
  | watchTimer (threadId : String) (env : String → Nat → DrainEnv)
  /-- A message is accepted while the drains go on. -/
  | accept (input : AcceptInput) (live : Bool) (uuid generation : String)

namespace Drains

def apply (parse : ParseAttachments) (s : Drains) : DrainOp → Drains
  | .drain env => s.drainSteeredMessages parse env
  | .settle token outcome now occupied env => s.settle parse token outcome now occupied env
  | .retryTimer threadId counts now env => s.retryTimer parse threadId counts now env
  | .watchTimer threadId env => s.watchTimer parse threadId env
  | .accept input live uuid generation =>
    s.setStore (s.store.accept input live uuid generation).1

end Drains

/-- What the passes of an operation meet. -/
def DrainOp.env : DrainOp → Option (String → Nat → DrainEnv)
  | .drain env | .settle _ _ _ _ env | .retryTimer _ _ _ env | .watchTimer _ env => some env
  | .accept .. => none

end Murage.SteerQueue
