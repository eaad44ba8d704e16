import Mathlib.Data.Finset.Erase
import Mathlib.Data.Finset.Insert
import Murage.Library.OrderedMap

/-!
Owns the delivery of owner sends: the outbox, the tables the delivery keeps between
its handlers, and each handler as far as its next await. A POST that is out is an
entry of `attempts`; its outcome is an event of its own.

Does not own: draft records. Every entry here is undrafted and has no journal, so
it is never `"gone"`, no watch settles it and `onGone` is never called.
-/

namespace Murage.SendDelivery

open Murage.Library

structure OutboxEntry where
  sendId : String
  text : String
  sentAt : Int
  attempts : Nat := 0
deriving DecidableEq, Repr

def MAX_OUTBOX_ENTRIES : Nat := 50

def OUTBOX_GIVE_UP_MS : Int := 10 * 60 * 1000

def RETRY_DELAYS_MS : List Int := [2000, 5000, 15000, 30000, 60000]

/-! ## Outbox -/

/-- The list in storage. Every writer goes through `add`, `settle` and `bump`. -/
structure Outbox where
  entries : List OutboxEntry
  distinct : (entries.map (·.sendId)).Nodup

namespace Outbox

def empty : Outbox := ⟨[], List.nodup_nil⟩

def find (o : Outbox) (sendId : String) : Option OutboxEntry :=
  o.entries.find? (·.sendId = sendId)

def others (o : Outbox) (sendId : String) : List OutboxEntry :=
  o.entries.filter (·.sendId ≠ sendId)

theorem others_distinct (o : Outbox) (sendId : String) :
    ((o.others sendId).map (·.sendId)).Nodup :=
  o.distinct.sublist (List.filter_sublist.map _)

def full (o : Outbox) (entry : OutboxEntry) : Prop :=
  MAX_OUTBOX_ENTRIES ≤ (o.others entry.sendId).length

instance (o : Outbox) (entry : OutboxEntry) : Decidable (o.full entry) :=
  inferInstanceAs (Decidable (_ ≤ _))

/-- The entry leaves its place and goes last. -/
def add (o : Outbox) (entry : OutboxEntry) : Outbox :=
  { entries := o.others entry.sendId ++ [entry]
    distinct := by
      rw [List.map_append, List.nodup_append]
      refine ⟨o.others_distinct entry.sendId, by simp, fun key member last isLast same => ?_⟩
      obtain ⟨other, isOther, rfl⟩ := List.mem_map.mp member
      have differs : other.sendId ≠ entry.sendId := by
        simpa using (List.mem_filter.mp isOther).2
      exact differs (same.trans (by simpa using isLast)) }

def settle (o : Outbox) (entry : OutboxEntry) : Outbox :=
  ⟨o.others entry.sendId, o.others_distinct entry.sendId⟩

def bumped (sendId : String) (existing : OutboxEntry) : OutboxEntry :=
  if existing.sendId = sendId then { existing with attempts := existing.attempts + 1 } else existing

theorem bumped_sendId (sendId : String) (existing : OutboxEntry) :
    (bumped sendId existing).sendId = existing.sendId := by
  unfold bumped
  split_ifs <;> rfl

def bump (o : Outbox) (entry : OutboxEntry) : Outbox :=
  { entries := o.entries.map (bumped entry.sendId)
    distinct := by
      have same : (o.entries.map (bumped entry.sendId)).map (·.sendId) =
          o.entries.map (·.sendId) := by
        rw [List.map_map]
        exact List.map_congr_left fun existing _ => bumped_sendId entry.sendId existing
      rw [same]
      exact o.distinct }

variable (o : Outbox) (entry : OutboxEntry) (sendId : String)

theorem find_sendId {found : OutboxEntry} (isFound : o.find sendId = some found) :
    found.sendId = sendId := by
  simpa using List.find?_some isFound

theorem mem_sendIds_iff : sendId ∈ o.entries.map (·.sendId) ↔ (o.find sendId).isSome := by
  simp [find, List.find?_isSome]

theorem find_mem {found : OutboxEntry} (isIn : found ∈ o.entries) :
    o.find found.sendId = some found := by
  have isThere : found.sendId ∈ o.entries.map (·.sendId) := List.mem_map_of_mem isIn
  obtain ⟨other, isOther⟩ := Option.isSome_iff_exists.mp ((o.mem_sendIds_iff _).mp isThere)
  have same : other = found :=
    List.inj_on_of_nodup_map o.distinct (List.mem_of_find?_eq_some isOther) isIn
      (o.find_sendId _ isOther)
  exact same ▸ isOther

theorem find_settle :
    (o.settle entry).find sendId = if sendId = entry.sendId then none else o.find sendId := by
  unfold find settle others
  dsimp only
  rw [List.find?_filter]
  split_ifs with same
  · rw [same]
    simp
  · congr 1
    funext other
    by_cases here : other.sendId = sendId <;> simp [here, same]

theorem find_add :
    (o.add entry).find sendId = if sendId = entry.sendId then some entry else o.find sendId := by
  have settled := o.find_settle entry sendId
  unfold find settle at settled
  unfold find add
  dsimp only at settled ⊢
  rw [List.find?_append, settled]
  split_ifs with same
  · simp [same]
  · have last : [entry].find? (fun other => decide (other.sendId = sendId)) = none := by
      simp [Ne.symm same]
    simp [last]

theorem find_bump :
    (o.bump entry).find sendId = (o.find sendId).map (bumped entry.sendId) := by
  unfold find bump
  dsimp only
  rw [List.find?_map]
  congr 2
  funext other
  simp [bumped_sendId]

end Outbox

/-! ## Errors -/

structure SendError where
  message : String
  status : Option Int := none
  code : Option String := none
  retryAfterSeconds : Option Int := none
deriving DecidableEq, Repr

/-- Sentences of a language pack stand as their keys. -/
def attemptTimedOut : SendError := { message := "send.timedOut", status := some 408 }

def outboxFull : SendError := { message := "send.outboxFull", status := some 507 }

def REFUSED : SendError := { message := "refused by server", status := some 409 }

def isBusyRefusal (error : SendError) : Bool :=
  error.code == some "DATABASE_BUSY" || error.status == some 503

def busyRetryDelayMs (error : SendError) : Int :=
  min 5000 (max 1000 ((error.retryAfterSeconds.map (· * 1000)).getD 1000))

def isDefinitiveFailure (error : SendError) : Bool :=
  !isBusyRefusal error &&
    match error.status with
    | some status => 400 ≤ status && status < 500 && status != 408 && status != 425 && status != 429
    | none => false

/-! ## State -/

/-- The hooks object of one `submit`, in the order of the submits. `handles` is what
its `onFailed` returns. -/
structure DeliveryHooks where
  id : Nat
  handles : Bool
deriving DecidableEq, Repr

inductive Receipt where
  | answered (body : String)
  | reconciled
deriving DecidableEq, Repr

inductive Effect where
  | showSending (entry : OutboxEntry)
  | settleSending (entry : OutboxEntry)
  | post (entry : OutboxEntry)
  | receipt (entry : OutboxEntry) (body : String)
  | recover (entry : OutboxEntry) (error : SendError)
  | releaseRefused (sendId : String) (entry : Option OutboxEntry)
  | onReceipt (hooks : Nat) (entry : OutboxEntry) (receipt : Receipt)
  | onFailed (hooks : Nat) (entry : OutboxEntry) (error : SendError)
deriving DecidableEq, Repr

structure RetryTimer where
  sendId : String
  due : Int
deriving DecidableEq, Repr

structure Delivery where
  clock : Int
  outbox : Outbox
  inFlight : Finset String := ∅
  hooksFor : OrderedMap String DeliveryHooks := ∅
  refusedByServer : Finset String := ∅
  superseded : Finset String := ∅
  queued : OrderedMap String (OutboxEntry × DeliveryHooks) := ∅
  posting : OrderedMap String OutboxEntry := ∅
  sending : OrderedMap String OutboxEntry := ∅
  /-- The attempts that wait for their POST, each with the entry it started with. -/
  attempts : List OutboxEntry := []
  timers : List RetryTimer := []
  /-- The hooks whose `once` flag is up. -/
  settledHooks : Finset Nat := ∅
  /-- The send id of every submit. -/
  submitted : List String := []
  /-- What the delivery called, oldest first. Nothing reads it. -/
  log : List Effect := []

namespace Delivery

def note (s : Delivery) (effect : Effect) : Delivery := { s with log := s.log ++ [effect] }

/-- `hooks?.onReceipt?.(entry, receipt)`, through `once`. -/
def onReceipt (s : Delivery) (hooks : Option DeliveryHooks) (entry : OutboxEntry)
    (receipt : Receipt) : Delivery :=
  match hooks with
  | none => s
  | some hooks =>
    if hooks.id ∈ s.settledHooks then s
    else { s with
      settledHooks := insert hooks.id s.settledHooks
      log := s.log ++ [.onReceipt hooks.id entry receipt] }

/-- `hooks?.onFailed?.(entry, error)`, through `once`. -/
def onFailed (s : Delivery) (hooks : Option DeliveryHooks) (entry : OutboxEntry)
    (error : SendError) : Delivery :=
  match hooks with
  | none => s
  | some hooks =>
    if hooks.id ∈ s.settledHooks then s
    else { s with
      settledHooks := insert hooks.id s.settledHooks
      log := s.log ++ [.onFailed hooks.id entry error] }

/-- Whether that call returned `true`. -/
def handled (s : Delivery) (hooks : Option DeliveryHooks) : Bool :=
  hooks.any fun hooks => hooks.id ∈ s.settledHooks || hooks.handles

/-- The call, and the recovery when nobody handled it. -/
def fail (s : Delivery) (hooks : Option DeliveryHooks) (entry : OutboxEntry) (error : SendError) :
    Delivery :=
  if s.handled hooks then s.onFailed hooks entry error
  else (s.onFailed hooks entry error).note (.recover entry error)

/-! Updates of the tables -/

def showSending (s : Delivery) (entry : OutboxEntry) : Delivery :=
  { s with sending := s.sending.set entry.sendId entry }.note (.showSending entry)

def settleSending (s : Delivery) (entry : OutboxEntry) : Delivery :=
  { s with sending := s.sending.erase entry.sendId }.note (.settleSending entry)

def settleOutbox (s : Delivery) (entry : OutboxEntry) : Delivery :=
  { s with outbox := s.outbox.settle entry }

def addOutbox (s : Delivery) (entry : OutboxEntry) : Delivery :=
  { s with outbox := s.outbox.add entry }

def bumpOutbox (s : Delivery) (entry : OutboxEntry) : Delivery :=
  { s with outbox := s.outbox.bump entry }

def holdHooks (s : Delivery) (sendId : String) (hooks : DeliveryHooks) : Delivery :=
  { s with hooksFor := s.hooksFor.set sendId hooks }

def dropHooks (s : Delivery) (sendId : String) : Delivery :=
  { s with hooksFor := s.hooksFor.erase sendId }

def addRefused (s : Delivery) (sendId : String) : Delivery :=
  { s with refusedByServer := insert sendId s.refusedByServer }

def deleteRefused (s : Delivery) (sendId : String) : Delivery :=
  { s with refusedByServer := s.refusedByServer.erase sendId }

def addSuperseded (s : Delivery) (sendId : String) : Delivery :=
  { s with superseded := insert sendId s.superseded }

def deleteInFlight (s : Delivery) (sendId : String) : Delivery :=
  { s with inFlight := s.inFlight.erase sendId }

def setQueued (s : Delivery) (sendId : String) (next : OutboxEntry × DeliveryHooks) : Delivery :=
  { s with queued := s.queued.set sendId next }

def deleteQueued (s : Delivery) (sendId : String) : Delivery :=
  { s with queued := s.queued.erase sendId }

/-- The POST of `entry` goes out. -/
def post (s : Delivery) (sendId : String) (entry : OutboxEntry) : Delivery :=
  { s with
    inFlight := insert sendId s.inFlight
    posting := s.posting.set sendId entry
    attempts := s.attempts ++ [entry] }.note (.post entry)

/-- What the `finally` block deletes. -/
def deleteAttempt (s : Delivery) (sendId : String) : Delivery :=
  { s with
    inFlight := s.inFlight.erase sendId
    posting := s.posting.erase sendId
    superseded := s.superseded.erase sendId }

def retryLater (s : Delivery) (entry : OutboxEntry) (error : SendError) : Delivery :=
  let delay := if isBusyRefusal error then busyRetryDelayMs error
    else RETRY_DELAYS_MS.getD (min entry.attempts (RETRY_DELAYS_MS.length - 1)) 0
  { s with timers := s.timers ++ [{ sendId := entry.sendId, due := s.clock + delay }] }

/-! Handlers -/

def finishFailed (s : Delivery) (entry : OutboxEntry) (error : SendError) : Delivery :=
  (((s.settleOutbox entry).settleSending entry).dropHooks entry.sendId).fail
    (s.hooksFor.get entry.sendId) entry error

def resolveRefused (s : Delivery) (sendId : String) : Delivery :=
  if sendId ∈ s.inFlight then s.addRefused sendId
  else match s.outbox.find sendId with
    | none => ((s.addRefused sendId).dropHooks sendId).note (.releaseRefused sendId none)
    | some entry =>
      (((((s.addRefused sendId).dropHooks sendId).settleOutbox entry).settleSending
        entry).onFailed (s.hooksFor.get sendId) entry REFUSED).note
          (.releaseRefused sendId (some entry))

def attempt (s : Delivery) (sendId : String) : Delivery :=
  if sendId ∈ s.inFlight then s
  else match s.outbox.find sendId with
    | none =>
      match s.sending.get sendId with
      | none => s
      | some shown => s.settleSending shown
    | some entry =>
      if OUTBOX_GIVE_UP_MS < s.clock - entry.sentAt then s.finishFailed entry attemptTimedOut
      else s.post sendId entry

def begin (s : Delivery) (entry : OutboxEntry) (hooks : DeliveryHooks) : Delivery :=
  if s.outbox.full entry then
    (s.deleteRefused entry.sendId).fail (some hooks) entry outboxFull
  else
    ((((s.deleteRefused entry.sendId).addOutbox entry).holdHooks entry.sendId hooks).showSending
      entry).attempt entry.sendId

/-- The POST was answered: the `try` block after its await. -/
def succeed (s : Delivery) (entry : OutboxEntry) (body : String) : Delivery :=
  if entry.sendId ∈ s.superseded ∧ entry.sendId ∈ s.refusedByServer then s
  else if entry.sendId ∈ s.superseded then
    match s.queued.get entry.sendId with
    | none => (s.note (.receipt entry body)).deleteQueued entry.sendId
    | some waiting =>
      ((s.note (.receipt entry body)).deleteQueued entry.sendId).onReceipt (some waiting.2)
        waiting.1 (.answered body)
  else
    ((((s.settleOutbox entry).settleSending entry).note (.receipt entry body)).dropHooks
      entry.sendId).onReceipt (s.hooksFor.get entry.sendId) entry (.answered body)

/-- The POST failed, or its clock ran out: the `catch` block. -/
def fault (s : Delivery) (entry : OutboxEntry) (error : SendError) : Delivery :=
  if entry.sendId ∈ s.superseded then s
  else if entry.sendId ∈ s.refusedByServer then
    (s.deleteInFlight entry.sendId).resolveRefused entry.sendId
  else if isDefinitiveFailure error ∨ OUTBOX_GIVE_UP_MS < s.clock - entry.sentAt then
    s.finishFailed entry error
  else
    (s.bumpOutbox entry).retryLater { entry with attempts := entry.attempts + 1 } error

/-- The `finally` block. -/
def finishAttempt (s : Delivery) (sendId : String) : Delivery :=
  match s.queued.get sendId with
  | none => s.deleteAttempt sendId
  | some next => ((s.deleteAttempt sendId).deleteQueued sendId).begin next.1 next.2

/-- The original of a resubmission gives way: it is settled now, whatever its POST does. -/
def refuseOriginal (s : Delivery) (sendId : String) : Delivery :=
  match s.posting.get sendId with
  | none => (s.dropHooks sendId).addSuperseded sendId
  | some original =>
    ((((s.dropHooks sendId).addSuperseded sendId).settleOutbox original).settleSending
      original).onFailed (s.hooksFor.get sendId) original REFUSED

/-- Of two resubmissions only the latest runs. -/
def refuseEarlier (s : Delivery) (sendId : String) : Delivery :=
  match s.queued.get sendId with
  | none => s
  | some earlier => s.onFailed (some earlier.2) earlier.1 REFUSED

/-- `submit` of an id whose POST is out. -/
def supersede (s : Delivery) (entry : OutboxEntry) (hooks : DeliveryHooks) : Delivery :=
  ((s.refuseOriginal entry.sendId).refuseEarlier entry.sendId).setQueued entry.sendId
    (entry, hooks)

/-- A hooks object is made. -/
def register (s : Delivery) (sendId : String) : Delivery :=
  { s with submitted := s.submitted ++ [sendId] }

def submit (s : Delivery) (entry : OutboxEntry) (handles : Bool) : Delivery :=
  let hooks : DeliveryHooks := { id := s.submitted.length, handles := handles }
  if entry.sendId ∈ s.inFlight then (s.register entry.sendId).supersede entry hooks
  else (s.register entry.sendId).begin entry hooks

structure Known where
  messageSendIds : List String
  pendingSendIds : List String
deriving DecidableEq, Repr

def reconcileEntry (known : Known) (s : Delivery) (entry : OutboxEntry) : Delivery :=
  if entry.sendId ∈ s.inFlight then s
  else if entry.sendId ∈ known.messageSendIds ∨ entry.sendId ∈ known.pendingSendIds then
    (((s.settleOutbox entry).settleSending entry).dropHooks entry.sendId).onReceipt
      (s.hooksFor.get entry.sendId) entry .reconciled
  else (s.showSending entry).attempt entry.sendId

def reconcile (s : Delivery) (known : Known) : Delivery :=
  s.outbox.entries.foldl (reconcileEntry known) s

/-! ## Audit -/

/-- The ids that were seen before, in order. -/
def repeated (seen : List String) : List String → List String
  | [] => []
  | sendId :: rest =>
    (if sendId ∈ seen then [sendId] else []) ++ repeated (seen ++ [sendId]) rest

def audit (s : Delivery) : List String :=
  let seen := s.outbox.entries.map (·.sendId)
  (repeated [] seen).map ("duplicate outbox entry " ++ ·) ++
    (s.hooksFor.keys.filter (· ∉ seen)).map ("hooks without an outbox entry " ++ ·) ++
    (s.sending.keys.filter fun sendId => sendId ∉ seen ∧ sendId ∉ s.inFlight).map
      ("Sending without an outbox entry " ++ ·) ++
    (s.queued.keys.filter (· ∉ s.inFlight)).map ("queued resend without an in-flight POST " ++ ·)

end Delivery

/-! ## Events -/

inductive Outcome where
  | answered (body : String)
  | failed (error : SendError)
deriving DecidableEq, Repr

inductive DeliveryEvent where
  | wait (ms : Nat)
  | submit (entry : OutboxEntry) (handles : Bool)
  /-- The POST at a place of `attempts` ends. -/
  | outcome (index : Nat) (outcome : Outcome)
  /-- The retry timer at a place of `timers` runs. -/
  | retry (index : Nat)
  | resolveRefused (sendId : String)
  | reconcile (known : Delivery.Known)
deriving DecidableEq, Repr

namespace Delivery

def endAttempt (s : Delivery) (entry : OutboxEntry) : Outcome → Delivery
  | .answered body => (s.succeed entry body).finishAttempt entry.sendId
  | .failed error => (s.fault entry error).finishAttempt entry.sendId

/-- A place without a POST is no event. -/
def endPost (s : Delivery) (index : Nat) (outcome : Outcome) : Delivery :=
  match s.attempts[index]? with
  | none => s
  | some entry => { s with attempts := s.attempts.eraseIdx index }.endAttempt entry outcome

/-- A place without a timer, or with one that is not due, is no event. -/
def retry (s : Delivery) (index : Nat) : Delivery :=
  match s.timers[index]? with
  | none => s
  | some timer =>
    if timer.due ≤ s.clock then
      { s with timers := s.timers.eraseIdx index }.attempt timer.sendId
    else s

def apply (s : Delivery) : DeliveryEvent → Delivery
  | .wait ms => { s with clock := s.clock + ms }
  | .submit entry handles => s.submit entry handles
  | .outcome index outcome => s.endPost index outcome
  | .retry index => s.retry index
  | .resolveRefused sendId => s.resolveRefused sendId
  | .reconcile known => s.reconcile known

/-- A page that has just loaded over what is in storage. -/
def start (clock : Int) (outbox : Outbox) : Delivery := { clock := clock, outbox := outbox }

end Delivery

end Murage.SendDelivery
