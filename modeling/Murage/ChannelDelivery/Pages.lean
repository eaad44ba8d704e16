import Murage.ChannelDelivery.Drain
import Murage.Library.FileOps

/-!
Owns the pages of the receipt ledger: their rows and limits, how large their JSON is, how a ledger
is read from a root and its pages, and the operations that write one.

Does not own: what a ledger is for, and single files, which are written whole.
-/

namespace Murage.ChannelDelivery.Pages

open Murage.Library.FileOps

/-! ## The size of JSON -/

def letterBytes (letter : Char) : Nat :=
  if letter = '"' ∨ letter = '\\' then 2
  else if letter.toNat ∈ [8, 9, 10, 12, 13] then 2
  else if letter.toNat < 32 then 6
  else if letter.toNat < 128 then 1
  else if letter.toNat < 2048 then 2
  else if letter.toNat < 65536 then 3
  else 4

def textBytes (text : String) : Nat := 2 + (text.toList.map letterBytes).sum

/-- A finite number, by the text that JSON gives it. -/
structure Numeral where
  text : String
  isShort : text.toList.length ≤ 25
  deriving DecidableEq

def Numeral.bytes (n : Numeral) : Nat := n.text.toList.length

def wholeBytes (n : Nat) : Nat := max 1 (Nat.digits 10 n).length

def flagBytes (flag : Bool) : Nat := if flag then 4 else 5

/-- Parts between brackets, with a comma between each two. -/
def listBytes (parts : List Nat) : Nat := 2 + parts.sum + (parts.length - 1)

def field (name : String) (value : Nat) : Option Nat := some (name.toList.length + 3 + value)

/-- A field that may be absent. -/
def optional {Value : Type} (name : String) (bytes : Value → Nat) (value : Option Value) : Option Nat :=
  value.bind fun value => field name (bytes value)

def objectBytes (fields : List (Option Nat)) : Nat := listBytes (fields.filterMap id)

/-! ## Rows -/

structure Quote where
  id : String
  remoteJid : Option String := none
  participant : Option String := none
  fromMe : Option Bool := none
  text : Option String := none
  deriving DecidableEq

structure Media where
  path : String
  mime : String
  bytes : Nat
  deriving DecidableEq

structure StoredRecord where
  deliveryId : String
  dedupeId : Option String := none
  prompt : String
  occurredAt : Numeral
  runId : Option String := none
  state : RecordState
  response : Option String := none
  attempts : Nat := 0
  retryAt : Option Numeral := none
  messageId : Option String := none
  error : Option String := none
  quote : Option Quote := none
  media : Option (List Media) := none
  noticeSent : Option Bool := none
  deriving DecidableEq

structure StoredTombstone where
  deliveryId : String
  dedupeId : Option String := none
  occurredAt : Numeral
  deriving DecidableEq

/-- The random names of pages. -/
abbrev Uuid := BitVec 128

/-- What one file holds. The version of a page is always 1. -/
structure Page where
  bindingKey : String
  recipient : String
  records : List StoredRecord := []
  tombstones : List StoredTombstone := []
  overflow : Option (List Uuid) := none
  deriving DecidableEq

/-- A whole ledger. -/
structure State where
  bindingKey : String
  recipient : String
  records : List StoredRecord := []
  tombstones : List StoredTombstone := []
  deriving DecidableEq

def stateText : RecordState → String
  | .accepted => "accepted"
  | .queued => "queued"
  | .sending => "sending"
  | .sent => "sent"
  | .uncertain => "uncertain"
  | .rejected => "rejected"
  | .cancelled => "cancelled"
  | .needsReview => "needs-review"

/-! ## The bytes of rows and pages -/

def Quote.bytes (quote : Quote) : Nat :=
  objectBytes
    [field "id" (textBytes quote.id), optional "remoteJid" textBytes quote.remoteJid,
      optional "participant" textBytes quote.participant, optional "fromMe" flagBytes quote.fromMe,
      optional "text" textBytes quote.text]

def Media.jsonBytes (media : Media) : Nat :=
  objectBytes
    [field "path" (textBytes media.path), field "mime" (textBytes media.mime),
      field "bytes" (wholeBytes media.bytes)]

def StoredRecord.bytes (row : StoredRecord) : Nat :=
  objectBytes
    [field "deliveryId" (textBytes row.deliveryId), optional "dedupeId" textBytes row.dedupeId,
      field "prompt" (textBytes row.prompt), field "occurredAt" row.occurredAt.bytes,
      optional "runId" textBytes row.runId, field "state" (textBytes (stateText row.state)),
      optional "response" textBytes row.response, field "attempts" (wholeBytes row.attempts),
      optional "retryAt" Numeral.bytes row.retryAt, optional "messageId" textBytes row.messageId,
      optional "error" textBytes row.error, optional "quote" Quote.bytes row.quote,
      optional "media" (fun media => listBytes (media.map (·.jsonBytes))) row.media,
      optional "noticeSent" flagBytes row.noticeSent]

def StoredTombstone.bytes (row : StoredTombstone) : Nat :=
  objectBytes
    [field "deliveryId" (textBytes row.deliveryId), optional "dedupeId" textBytes row.dedupeId,
      field "occurredAt" row.occurredAt.bytes]

/-- The text of a page name, between quotes. -/
def uuidBytes : Nat := 38

def Page.bytes (page : Page) : Nat :=
  objectBytes
    [field "version" 1, field "bindingKey" (textBytes page.bindingKey),
      field "recipient" (textBytes page.recipient),
      field "records" (listBytes (page.records.map (·.bytes))),
      field "tombstones" (listBytes (page.tombstones.map (·.bytes))),
      optional "overflow" (fun parts => listBytes (parts.map fun _ => uuidBytes)) page.overflow]

/-! ## The schema -/

def fits (limit : Nat) (text : String) : Bool := utf16Length text ≤ limit

def Quote.parses (quote : Quote) : Bool :=
  isId quote.id && quote.remoteJid.all isId && quote.participant.all isId && quote.text.all (fits 600)

def Media.parses (media : Media) : Bool :=
  media.path ≠ "" && fits 600 media.path && fits 120 media.mime && media.bytes ≤ 9007199254740991

def StoredRecord.parses (maxResponse : Nat) (row : StoredRecord) : Bool :=
  isId row.deliveryId && row.dedupeId.all isId && fits 6000 row.prompt && row.runId.all isId &&
    row.response.all (fits maxResponse) && row.attempts ≤ 3 && row.messageId.all isId &&
    row.error.all (fits 60) && row.quote.all (·.parses) &&
    row.media.all fun media => media.length ≤ 8 && media.all (·.parses)

def StoredTombstone.parses (row : StoredTombstone) : Bool := isId row.deliveryId && row.dedupeId.all isId

/-- The rows that one page may hold. -/
def recordsMax : Nat := 200

def tombstonesMax : Nat := 10000

/-- `buildSchema`, bounded. -/
def Page.parses (maxResponse : Nat) (page : Page) : Bool :=
  isId page.bindingKey && isId page.recipient && page.records.length ≤ recordsMax &&
    page.records.all (·.parses maxResponse) && page.tombstones.length ≤ tombstonesMax &&
    page.tombstones.all (·.parses)

/-- `buildSchema`, unbounded: the limits on each row. -/
def State.parses (maxResponse : Nat) (state : State) : Bool :=
  isId state.bindingKey && isId state.recipient && state.records.all (·.parses maxResponse) &&
    state.tombstones.all (·.parses)

/-! ## Reading -/

/-- The root file, and the page files beside it. -/
inductive Name where
  | root
  | part (uuid : Uuid)
  deriving DecidableEq

/-- `missing`: `ENOENT`. -/
inductive ReadError where
  | missing
  | invalid
  | overflow
  | mismatch
  deriving DecidableEq

def fileMax : Nat := 4 * 1024 * 1024

/-- `readPage`. -/
def readPage (maxResponse : Nat) : Option Page → Except ReadError Page
  | none => .error .missing
  | some page =>
    if fileMax < page.bytes then .error .invalid
    else if page.parses maxResponse then .ok page
    else .error .invalid

def State.extended (state : State) (page : Page) : State :=
  { state with
    records := state.records ++ page.records
    tombstones := state.tombstones ++ page.tombstones }

/-- The loop of `readLedger` over the pages. -/
def readParts (maxResponse : Nat) (files : Files Name Page) : List Uuid → State → Except ReadError State
  | [], state => .ok state
  | part :: rest, state =>
    match readPage maxResponse (files (.part part)) with
    | .error _ => .error .overflow
    | .ok page =>
      if page.overflow.isSome ∨ page.bindingKey ≠ state.bindingKey ∨ page.recipient ≠ state.recipient then
        .error .mismatch
      else readParts maxResponse files rest (state.extended page)

/-- The ledger of a root alone. -/
def Page.state (page : Page) : State :=
  { bindingKey := page.bindingKey
    recipient := page.recipient
    records := page.records
    tombstones := page.tombstones }

def readLedger (maxResponse : Nat) (files : Files Name Page) : Except ReadError State :=
  match readPage maxResponse (files .root) with
  | .error error => .error error
  | .ok root => readParts maxResponse files (root.overflow.getD []) root.state

/-! ## Writing -/

/-- The pages filled so far, the one being filled and the bytes of its rows. -/
structure Packing where
  closed : List Page := []
  current : Page
  size : Nat := 0

def State.emptyPage (state : State) : Page :=
  { bindingKey := state.bindingKey
    recipient := state.recipient }

def Packing.turned (packing : Packing) (empty : Page) : Packing :=
  { closed := packing.closed ++ [packing.current]
    current := empty
    size := 0 }

/-- Room is left in the root for the names of the pages as well as for its own rows. -/
def Packing.isFull (packing : Packing) (count limit bytes : Nat) : Bool :=
  limit ≤ count || fileMax / 2 < packing.size + bytes

def Packing.addRecord (empty : Page) (packing : Packing) (row : StoredRecord) : Packing :=
  let bytes := row.bytes + 1
  let roomy :=
    if packing.isFull packing.current.records.length recordsMax bytes then packing.turned empty else packing
  { roomy with
    current := { roomy.current with records := roomy.current.records ++ [row] }
    size := roomy.size + bytes }

def Packing.addTombstone (empty : Page) (packing : Packing) (row : StoredTombstone) : Packing :=
  let bytes := row.bytes + 1
  let roomy :=
    if packing.isFull packing.current.tombstones.length tombstonesMax bytes then packing.turned empty
    else packing
  { roomy with
    current := { roomy.current with tombstones := roomy.current.tombstones ++ [row] }
    size := roomy.size + bytes }

def pack (state : State) : Packing :=
  state.tombstones.foldl (Packing.addTombstone state.emptyPage)
    (state.records.foldl (Packing.addRecord state.emptyPage) { current := state.emptyPage })

def Packing.parted (packing : Packing) : Page × List Page :=
  match packing.closed with
  | [] => (packing.current, [])
  | first :: rest => (first, rest ++ [packing.current])

inductive WriteError where
  | unreadable (error : ReadError)
  | refused
  | sizeLimit
  deriving DecidableEq

/-- The pages of the ledger before; it need not exist. -/
def previousParts (maxResponse : Nat) (files : Files Name Page) : Except ReadError (List Uuid) :=
  match readPage maxResponse (files .root) with
  | .ok root => .ok (root.overflow.getD [])
  | .error .missing => .ok []
  | .error error => .error error

def partsOf (names : Nat → Uuid) (rest : List Page) : List Uuid := (List.range rest.length).map names

def rootOf (first : Page) (parts : List Uuid) : Page :=
  { first with overflow := if parts = [] then none else some parts }

/-- `writeLedger`, up to its first write: it throws, or these are its operations. `names` are the random
names it draws. -/
def writeLedger (maxResponse : Nat) (files : Files Name Page) (state : State) (names : Nat → Uuid) :
    Except WriteError (List (Op Name Page)) :=
  match previousParts maxResponse files with
  | .error error => .error (.unreadable error)
  | .ok previous =>
    let (first, rest) := (pack state).parted
    let parts := partsOf names rest
    let root := rootOf first parts
    if !(root :: rest).all (·.parses maxResponse) then .error .refused
    else if (root :: rest).any (fileMax < ·.bytes) then .error .sizeLimit
    else
      .ok
        (List.zipWith (fun part page => Op.write (.part part) page) parts rest ++
          Op.write .root root :: previous.map fun part => Op.remove (.part part))

end Murage.ChannelDelivery.Pages
