import Murage.Library.Resumption
import Murage.Library.Transition

/-!
Owns the charges after a promised end: the invoices Stripe keeps, what it answers of them, the
tables of the checks and the records, the two programs that record a charge and that backfill a
subscription, one await at a time, and the system of any number of them at once, with the lifecycle
of the invoices and the webhooks.

Does not own: the promise itself, the refund an operator decides, and what holds of the runs.
-/

namespace Murage.CancelCharges

open Murage.Library.Resumption

def CHARGE_PRECISION_MS : Int := 5000

/-! ## Invoices -/

inductive InvoiceStatus where
  | draft
  | open
  | paid
  | void
  | uncollectible
deriving DecidableEq, Repr

inductive LineSource where
  | invoice_item
  | subscription
deriving DecidableEq, Repr

structure Period where
  start : Option Int
  ends : Option Int
deriving DecidableEq, Repr

structure InvoiceLineView where
  id : Option String
  price : Option String
  source : Option LineSource
  period : Period
  amount : Option Int
  usageType : Option String
deriving DecidableEq, Repr

/-- The lines an invoice carries, and whether there are more. -/
structure LinePage where
  data : List InvoiceLineView
  hasMore : Bool
deriving DecidableEq, Repr

structure InvoiceView where
  id : String
  status : Option InvoiceStatus
  amountPaid : Int
  amountDue : Option Int
  total : Option Int
  tax : Int
  currency : Option String
  created : Int
  paidAt : Option Int
  billingReason : Option String
  paymentIntent : Option String
  lines : LinePage
deriving DecidableEq, Repr

/-- An invoice as Stripe keeps it. `seq` is its place in the order of creation, and `inline` how
many of its lines an answer carries. -/
structure Invoice where
  id : String
  seq : Nat
  status : InvoiceStatus
  amountPaid : Int
  amountDue : Option Int
  total : Option Int
  tax : Int
  currency : Option String
  created : Int
  paidAt : Option Int
  billingReason : Option String
  paymentIntent : Option String
  lines : List InvoiceLineView
  inline : Nat
deriving DecidableEq, Repr

def Invoice.view (i : Invoice) : InvoiceView where
  id := i.id
  status := some i.status
  amountPaid := i.amountPaid
  amountDue := i.amountDue
  total := i.total
  tax := i.tax
  currency := i.currency
  created := i.created
  paidAt := i.paidAt
  billingReason := i.billingReason
  paymentIntent := i.paymentIntent
  lines :=
    { data := i.lines.take i.inline
      hasMore := decide (i.inline < i.lines.length) }

/-- The webhook's copy carries no payment. -/
def Invoice.delivered (i : Invoice) : InvoiceView := { i.view with paymentIntent := none }

/-! ## Tables -/

structure ChargePromise where
  subscriptionId : String
  homeId : String
  promisedEndAt : Int
  requestId : Option String
deriving DecidableEq, Repr

/-- The status of a tracked invoice: Stripe's when it was last read, or paid and not judged. -/
inductive CheckStatus where
  | read (status : InvoiceStatus)
  | paid_unjudged
deriving DecidableEq, Repr

structure InvoiceCheck where
  subscriptionId : String
  invoiceId : String
  status : Option CheckStatus
  firstSeenAt : Int
  checkedAt : Int
deriving DecidableEq, Repr

inductive LineHint where
  | served_usage
  | one_off
  | after_end
  | straddles_end
  | before_end
  | undated
deriving DecidableEq, Repr

inductive RecordHint where
  | kind (hint : LineHint)
  | nothing_charged
  | mixed
deriving DecidableEq, Repr

structure LineSnapshot where
  line : InvoiceLineView
  hint : LineHint
deriving DecidableEq, Repr

structure RefundOp where
  id : String
  kind : String
  amountCents : Option Int
  invoiceId : String
  createdAt : Int
deriving DecidableEq, Repr

structure Snapshot where
  invoice : InvoiceView
  lines : List LineSnapshot
  otherRefunds : List RefundOp
deriving DecidableEq, Repr

structure LateRefund where
  id : String
  subscriptionId : String
  homeId : String
  userId : String
  invoiceId : String
  paymentIntent : Option String
  paidCents : Int
  currency : Option String
  promisedEndAt : Int
  hint : RecordHint
  snapshot : Snapshot
  requestId : Option String
  createdAt : Int
deriving DecidableEq, Repr

structure Alert where
  id : String
  homeId : String
  record : String
  subscriptionId : String
  invoiceId : String
  paidCents : Int
  promisedEndAt : Int
  hint : RecordHint
  raisedAt : Int
deriving DecidableEq, Repr

/-- What Stripe keeps, newest invoice first, and every view of an invoice it has given out. -/
structure Stripe where
  invoices : List Invoice := []
  usageTypes : String → Option String := fun _ => none
  answered : List InvoiceView := []

structure Db where
  checks : List InvoiceCheck := []
  lateRefunds : List LateRefund := []
  alerts : List Alert := []
  refundOps : List RefundOp := []
  /-- The owner of a home. -/
  owners : String → Option String := fun _ => none
  /-- The declaration of a subscription that still stands, the earliest. -/
  standingRequest : String → Option String := fun _ => none

structure World where
  stripe : Stripe := {}
  db : Db := {}

/-! ## What a charge is -/

def finalStatus (status : Option CheckStatus) : Bool :=
  decide (status = some (.read .paid)) || decide (status = some (.read .void)) ||
    decide (status = some (.read .uncollectible))

def lineHint (l : InvoiceLineView) (usage : Option String) (promisedEndAt : Int) : LineHint :=
  if usage = some "metered" then .served_usage
  else if l.source = some .invoice_item then .one_off
  else
    match l.period.start with
    | none => .undated
    | some start =>
      if promisedEndAt - CHARGE_PRECISION_MS ≤ start * 1000 then .after_end
      else if l.period.ends.any fun ends => decide (promisedEndAt + CHARGE_PRECISION_MS < ends * 1000) then
        .straddles_end
      else .before_end

def recordHint (lines : List LineSnapshot) : RecordHint :=
  match ((lines.filter fun l => l.line.amount.getD 0 ≠ 0).map (·.hint)).dedup with
  | [] => .nothing_charged
  | [hint] => .kind hint
  | _ => .mixed

def afterPromise (inv : InvoiceView) (lines : List InvoiceLineView) (promisedEndAt : Int) : Bool :=
  let cutoff := promisedEndAt - CHARGE_PRECISION_MS
  decide (cutoff ≤ inv.paidAt.getD inv.created * 1000) ||
    lines.any fun l => l.period.start.any fun start => decide (cutoff ≤ start * 1000)

/-! ## Statements -/

namespace Db

section

variable (db : Db)

def upsertCheck (subscriptionId invoiceId : String) (status : Option CheckStatus) (now : Int) : Db :=
  if db.checks.any fun c => c.subscriptionId == subscriptionId && c.invoiceId == invoiceId then
    { db with
      checks := db.checks.map fun c =>
        if c.subscriptionId = subscriptionId ∧ c.invoiceId = invoiceId then
          { c with status := status, checkedAt := now }
        else c }
  else
    { db with
      checks := db.checks ++
        [{ subscriptionId := subscriptionId
           invoiceId := invoiceId
           status := status
           firstSeenAt := now
           checkedAt := now }] }

/-- `INSERT … ON CONFLICT DO NOTHING`: the table, and whether a row was added. -/
def insertLateRefund (row : LateRefund) : Db × Bool :=
  if db.lateRefunds.any fun r => r.id == row.id || r.invoiceId == row.invoiceId then (db, false)
  else ({ db with lateRefunds := db.lateRefunds ++ [row] }, true)

def insertAlert (row : Alert) : Db :=
  if db.alerts.any (·.id == row.id) then db else { db with alerts := db.alerts ++ [row] }

def tracked (subscriptionId : String) : List InvoiceCheck :=
  db.checks.filter (·.subscriptionId == subscriptionId)

end

end Db

/-- A statement that writes. -/
def exec {α : Type} (run : Db → Db × α) : Prog World α :=
  .statement fun w => ({ w with db := (run w.db).1 }, (run w.db).2)

/-- A statement that reads. -/
def select {α : Type} (run : Db → α) : Prog World α := exec fun db => (db, run db)

/-! ## Reads of Stripe -/

namespace Stripe

section

variable (s : Stripe)

def find (id : String) : Option Invoice := s.invoices.find? (·.id = id)

def log (views : List InvoiceView) : Stripe := { s with answered := s.answered ++ views }

/-- The invoices of a status past a cursor, none when no invoice has that id. -/
def matching (status : InvoiceStatus) (after : Option String) : Option (List Invoice) :=
  match after with
  | none => some (s.invoices.filter (·.status = status))
  | some id => (s.find id).map fun cursor =>
    s.invoices.filter fun i => decide (i.seq < cursor.seq) && decide (i.status = status)

end

end Stripe

def LIST_PAGE : Nat := 100
def LIST_PAGES : Nat := 50

/-- A read of Stripe. What it gives out is kept. -/
def ask {α : Type} (answer : Stripe → Option α) (views : α → List InvoiceView) : Prog World α :=
  .call
    (fun w =>
      match answer w.stripe with
      | none => w
      | some value => { w with stripe := w.stripe.log (views value) })
    fun w =>
      match answer w.stripe with
      | none => .error "resource_missing"
      | some value => .ok value

def getInvoice (id : String) : Prog World InvoiceView :=
  ask (fun s => (s.find id).map (·.view)) fun view => [view]

def listPage (status : InvoiceStatus) (after : Option String) : Prog World (List InvoiceView × Bool) :=
  ask
    (fun s => (s.matching status after).map fun rows =>
      ((rows.take LIST_PAGE).map (·.view), decide (LIST_PAGE < rows.length)))
    fun page => page.1

/-- `pages` more pages of a list, after those of `out`. -/
def listPages (status : InvoiceStatus) : Nat → Option String → List InvoiceView →
    Prog World (List InvoiceView)
  | 0, _, _ => .fail "invoices_incomplete"
  | pages + 1, after, out => do
      let page ← listPage status after
      if page.2 = false then pure (out ++ page.1)
      else
        match page.1.getLast? with
        | none => .fail "invoices_incomplete"
        | some last =>
          if last.id = "" then .fail "invoices_incomplete"
          else listPages status pages (some last.id) (out ++ page.1)

def listSubscriptionInvoices (status : InvoiceStatus) : Prog World (List InvoiceView) :=
  listPages status LIST_PAGES none []

/-- Every line of an invoice. The lines of a paid invoice do not change between its pages, and
past the last page the read fails. -/
def listInvoiceLines (id : String) : Prog World (List InvoiceLineView) :=
  ask
    (fun s => (s.find id).bind fun i =>
      if i.lines.length ≤ LIST_PAGE * LIST_PAGES then some i.lines else none)
    fun _ => []

def getPrice (id : String) : Prog World (Option String) :=
  ask (fun s => some (s.usageTypes id)) fun _ => []

/-- The usage type of a line's price: its own, else the price's, none when that cannot be
read. -/
def usageTypeOf (l : InvoiceLineView) : Prog World (Option String) :=
  match l.usageType, l.price with
  | some usage, _ => pure (some usage)
  | none, none => pure none
  | none, some price => do
      match ← (getPrice price).attempt with
      | .ok usage => pure usage
      | .error _ => pure none

/-! ## Recording -/

inductive Recorded where
  | recorded
  | final
  | pending
deriving DecidableEq, Repr

section

variable (p : ChargePromise)

def track (inv : InvoiceView) (now : Int) (status : Option CheckStatus) : Prog World Unit :=
  exec fun db => (db.upsertCheck p.subscriptionId inv.id status now, ())

/-- Tracked as paid once it is judged. -/
def judged (inv : InvoiceView) (now : Int) (result : Recorded) : Prog World Recorded := do
  track p inv now (some (.read .paid))
  pure result

def snapshotLines (raw : List InvoiceLineView) : Prog World (List LineSnapshot) :=
  raw.foldlM
    (fun lines l => do
      let usage ← usageTypeOf l
      pure (lines ++
        [{ line := { l with usageType := usage }
           hint := lineHint l usage p.promisedEndAt }]))
    []

def otherRefunds (db : Db) (invoiceId : String) : List RefundOp :=
  (db.refundOps.filter (·.invoiceId == invoiceId)).mergeSort fun a b =>
    decide (a.createdAt ≤ b.createdAt)

/-- The declaration a charge is recorded against, whichever path records it. -/
def requestOf : Prog World (Option String) :=
  match p.requestId with
  | some requestId => pure (some requestId)
  | none => select fun db => db.standingRequest p.subscriptionId

/-- A record that is new raises an alert. -/
def fileCharge (inv : InvoiceView) (row : LateRefund) (now : Int) : Prog World Recorded := do
  let added ← exec fun db => db.insertLateRefund row
  if added = false then judged p inv now .final
  else do
    exec fun db =>
      (db.insertAlert
        { id := "cancel.late_renewal_charge:" ++ row.id
          homeId := p.homeId
          record := row.id
          subscriptionId := p.subscriptionId
          invoiceId := inv.id
          paidCents := inv.amountPaid
          promisedEndAt := p.promisedEndAt
          hint := row.hint
          raisedAt := now }, ())
    judged p inv now .recorded

def recordCharge (inv : InvoiceView) (raw : List InvoiceLineView) (now : Int) :
    Prog World Recorded := do
  let lines ← snapshotLines p raw
  let others ← select fun db => otherRefunds db inv.id
  let owner ← select fun db => db.owners p.homeId
  let requestId ← requestOf p
  fileCharge p inv
    { id := "cxr-late:" ++ p.subscriptionId ++ ":" ++ inv.id
      subscriptionId := p.subscriptionId
      homeId := p.homeId
      userId := owner.getD ""
      invoiceId := inv.id
      paymentIntent := inv.paymentIntent
      paidCents := inv.amountPaid
      currency := inv.currency
      promisedEndAt := p.promisedEndAt
      hint := recordHint lines
      snapshot :=
        { invoice := inv
          lines := lines
          otherRefunds := others }
      requestId := requestId
      createdAt := now } now

def completeLines (inv : InvoiceView) : Prog World (List InvoiceLineView) :=
  if inv.lines.hasMore then listInvoiceLines inv.id else pure inv.lines.data

def judgeCharge (inv : InvoiceView) (now : Int) : Prog World Recorded := do
  let raw ← completeLines inv
  if afterPromise inv raw p.promisedEndAt = false then judged p inv now .final
  else recordCharge p inv raw now

def judgePaid (inv : InvoiceView) (now : Int) : Prog World Recorded :=
  if inv.amountPaid ≤ 0 then judged p inv now .final
  else do
    let known ← select fun db => db.lateRefunds.any (·.invoiceId == inv.id)
    if known then judged p inv now .final else judgeCharge p inv now

/-- Tracks one invoice and, once it is paid after the promise, records it. -/
def recordInvoice (inv : InvoiceView) (now : Int) : Prog World Recorded :=
  if inv.id = "" then pure .final
  else do
    track p inv now (if inv.status = some .paid then some .paid_unjudged else inv.status.map .read)
    if inv.status ≠ some .paid then
      pure (if finalStatus (inv.status.map .read) then .final else .pending)
    else judgePaid p inv now

/-! ## The backfill -/

def counted (result : Except String Recorded) : Nat :=
  match result with
  | .ok .recorded => 1
  | _ => 0

/-- A tracked invoice that is not final is read again, and a failure of it is kept apart. -/
def recheck (now : Int) (acc : Nat × List String) (t : InvoiceCheck) :
    Prog World (Nat × List String) :=
  if finalStatus t.status then pure (acc.1, acc.2 ++ [t.invoiceId])
  else do
    let result ← Prog.attempt do
      let inv ← getInvoice t.invoiceId
      if inv.id = "" then pure .final else recordInvoice p inv now
    pure (acc.1 + counted result, acc.2)

def recordListed (status : InvoiceStatus) (now : Int) (done : List String) (recorded : Nat)
    (inv : InvoiceView) : Prog World Nat :=
  if inv.id ∈ done then pure recorded
  else do
    let result ← (recordInvoice p { inv with status := inv.status.or (some status) } now).attempt
    pure (recorded + counted result)

def backfillListing (now : Int) (done : List String) (recorded : Nat) (status : InvoiceStatus) :
    Prog World Nat := do
  let listed ← listSubscriptionInvoices status
  listed.foldlM (recordListed p status now done) recorded

structure Backfilled where
  recorded : Nat
  pending : Nat
deriving DecidableEq, Repr

def backfillCharges (now : Int) : Prog World Backfilled := do
  let tracked ← select fun db => db.tracked p.subscriptionId
  let (recorded, done) ← tracked.foldlM (recheck p now) (0, [])
  let recorded ← [.draft, .open, .paid].foldlM (backfillListing p now done) recorded
  let pending ← select fun db =>
    ((db.tracked p.subscriptionId).filter fun c => !finalStatus c.status).length
  pure { recorded := recorded, pending := pending }

end

open Murage.Library.Transition

/-- Where an invoice may move, itself included while it can still change. -/
def InvoiceStatus.moves (before after : InvoiceStatus) : Bool :=
  match before, after with
  | .draft, .draft => true
  | .draft, .open => true
  | .open, .open => true
  | .open, .paid => true
  | .open, .void => true
  | .open, .uncollectible => true
  | .uncollectible, .uncollectible => true
  | .uncollectible, .paid => true
  | .uncollectible, .void => true
  | _, _ => false

inductive Returned where
  | recorded (result : Recorded)
  | backfilled (result : Backfilled)
deriving DecidableEq, Repr

inductive Event where
  /-- A new draft, the newest invoice. -/
  | create (invoice : Invoice)
  /-- An invoice changes, along its lifecycle. -/
  | move (invoice : Invoice)
  /-- A draft is deleted. -/
  | delete (id : String)
  /-- A webhook is sent for a paid invoice. -/
  | deliver (id : String)
  /-- A recording of a view that was given out: a webhook, once, late or again. -/
  | record (inv : InvoiceView) (requestId : Option String) (now : Int)
  | backfill (requestId : Option String) (now : Int)
  /-- One await of one call. -/
  | run (call : Nat) (fails : Bool)
  /-- Others write the prices and the other tables. -/
  | others (usageTypes : String → Option String) (refundOps : List RefundOp)
      (owners : String → Option String) (standingRequest : String → Option String)

abbrev System := Pool World Returned

def Invoice.becomes (before after : Invoice) : Invoice :=
  if before.id = after.id ∧ before.seq = after.seq ∧ before.status.moves after.status then after
  else before

namespace Stripe

def create (s : Stripe) (invoice : Invoice) : Stripe :=
  if invoice.id ≠ "" ∧ invoice.status = .draft ∧ s.find invoice.id = none ∧
      s.invoices.all fun other => decide (other.seq < invoice.seq) then
    { s with invoices := invoice :: s.invoices }
  else s

def move (s : Stripe) (invoice : Invoice) : Stripe :=
  { s with invoices := s.invoices.map (·.becomes invoice) }

def delete (s : Stripe) (id : String) : Stripe :=
  { s with invoices := s.invoices.filter fun i => !(decide (i.id = id) && decide (i.status = .draft)) }

def deliver (s : Stripe) (id : String) : Stripe :=
  match s.find id with
  | none => s
  | some i => if i.status = .paid then s.log [i.delivered] else s

end Stripe

def ChargePromise.under (p : ChargePromise) (requestId : Option String) : ChargePromise :=
  { p with requestId := requestId }

def apply (p : ChargePromise) (s : System) (event : Event) : System :=
  let stripe (change : Stripe → Stripe) : System :=
    { s with world := { s.world with stripe := change s.world.stripe } }
  match event with
  | .create invoice => stripe (·.create invoice)
  | .move invoice => stripe (·.move invoice)
  | .delete id => stripe (·.delete id)
  | .deliver id => stripe (·.deliver id)
  | .record inv requestId now =>
    if inv ∈ s.world.stripe.answered then
      s.start (.recorded <$> recordInvoice (p.under requestId) inv now)
    else s
  | .backfill requestId now => s.start (.backfilled <$> backfillCharges (p.under requestId) now)
  | .run call fails => s.step call fails
  | .others usageTypes refundOps owners standingRequest =>
    { s with
      world :=
        { stripe := { s.world.stripe with usageTypes := usageTypes }
          db :=
            { s.world.db with
              refundOps := refundOps
              owners := owners
              standingRequest := standingRequest } } }

def Step (p : ChargePromise) : System → Event → System → Prop := ofFunction (apply p)

/-- No invoice that was given out as uncollectible is paid. -/
def StaysUncollectible (s : System) (event : Event) : Prop :=
  match event with
  | .move invoice => invoice.status = .paid → ∀ view ∈ s.world.stripe.answered,
      view.id = invoice.id → view.status ≠ some .uncollectible
  | _ => True

end Murage.CancelCharges
