import Mathlib.Logic.Function.Basic
import Murage.OwnerSends.Model

/-!
Owns the import of a 1.0.1 folder's queued-messages.json: which waiting lines go into their
threads, under which ids, what a failing append undoes, and when the file is removed.

Does not own: the rows of `owner_sends`, and how a thread is read and written on disk.
-/

namespace Murage.SteerQueue.Legacy

open Murage.OwnerSends

/-! ## The file -/

/-- The words of a waiting line with the ids it came with: what `seen` counts. -/
structure Words where
  messageId : Option String
  sendId : Option String
  text : String
deriving DecidableEq, Repr

structure Item where
  messageId : Option String := none
  text : String
  replyToId : Option String := none
  sendId : Option String := none
  origin : Option String := none
  existingMessageId : Option String := none
deriving DecidableEq, Repr

def Item.words (item : Item) : Words where
  messageId := item.messageId
  sendId := item.sendId
  text := item.text

/-- One pair of the file. `items` is none when the entry is missing or has no array of items, an
item is none when it is missing or its text is no string. -/
structure Pair where
  threadId : String
  items : Option (List (Option Item))
deriving DecidableEq, Repr

/-- The array of the file. An element is none when it cannot be taken apart as a pair. -/
abbrev SteerQueueEntries := List (Option Pair)

/-- What the file's bytes say. -/
inductive Content where
  | invalid
  | unexpected
  | entries (waiting : SteerQueueEntries)
deriving DecidableEq, Repr

/-! ## The threads -/

structure Message where
  id : String
  role : String
  kind : String
  text : Option String
  replyToId : Option String := none
  sendId : Option String := none
  origin : Option String := none
deriving DecidableEq, Repr

/-- The rows of each thread, oldest first. -/
abbrev Threads := String → List Message

/-- Whether the store reads by key and newest rows (`messageById`, `newestMatching`) or gives the
whole thread (`messagesFor`). -/
inductive Reads where
  | keyed
  | whole
deriving DecidableEq, Repr

def MIRRORED_QUEUE_ROWS : Nat := 1000

def hasId (rows : List Message) (id : String) : Bool := rows.any (·.id == id)

def newestMatching (rows : List Message) (test : Message → Bool) (limit : Nat) : Option Message :=
  (rows.reverse.take limit).find? test

def hasSendId (reads : Reads) (rows : List Message) (sendId : String) : Bool :=
  match reads with
  | .whole => rows.any (·.sendId == some sendId)
  | .keyed => (newestMatching rows (·.sendId == some sendId) MIRRORED_QUEUE_ROWS).isSome

/-- A stable id that already names a stored row writes nothing. -/
def appendMessage (fault : Option String) (rows : List Message) (message : Message) :
    Except String (List Message) :=
  match fault with
  | some error => .error error
  | none => .ok (if hasId rows message.id then rows else rows ++ [message])

/-! ## The identity of a line -/

structure LineKey where
  threadId : String
  words : Words
  occurrence : Nat
deriving DecidableEq, Repr

section

-- the hexadecimal SHA-256 digest of the key's JSON
variable (sha256Hex : LineKey → String)

def legacyLineId (threadId : String) (item : Item) (occurrence : Nat) : String :=
  let digest := sha256Hex ⟨threadId, item.words, occurrence⟩
  "legacy-" ++ String.ofList (digest.toList.take 40)

/-! ## One thread -/

/-- A thread's transaction so far. `seen` counts the items of each words, `calls` the appends. -/
structure Transaction where
  rows : List Message
  seen : Words → Nat := fun _ => 0
  calls : Nat
  threadAdded : Nat := 0

/-- What a throwing append leaves: its message, and the appends there were. -/
structure Thrown where
  error : String
  calls : Nat
deriving DecidableEq, Repr

/-- Which append of a run throws, and with what. -/
abbrev Faults := Nat → Option String

variable (reads : Reads) (faults : Faults)

def legacyMessage (lineId : String) (item : Item) : Message where
  id := lineId
  role := "user"
  kind := "text"
  text := some item.text
  replyToId := given item.replyToId
  sendId := given item.sendId
  origin := given item.origin

/-- The line is in the thread: by its existing message or by its send id. -/
def alreadyThere (rows : List Message) (item : Item) : Bool :=
  (given item.existingMessageId).any (hasId rows) || (given item.sendId).any (hasSendId reads rows)

/-- The body of the loop over an entry's items. The count of the words is advanced before any
test. -/
def importItem (threadId : String) (tx : Transaction) : Option Item → Except Thrown Transaction
  | none => .ok tx
  | some item =>
    if item.text = "" then .ok tx
    else
      let occurrence := tx.seen item.words
      let tx := { tx with seen := Function.update tx.seen item.words (occurrence + 1) }
      if alreadyThere reads tx.rows item then .ok tx
      else
        let lineId := legacyLineId sha256Hex threadId item occurrence
        if hasId tx.rows lineId then .ok tx
        else
          match appendMessage (faults tx.calls) tx.rows (legacyMessage lineId item) with
          | .error error => .error ⟨error, tx.calls + 1⟩
          | .ok rows =>
            .ok { tx with
              rows := rows
              calls := tx.calls + 1
              threadAdded := tx.threadAdded + 1 }

def importItems (threadId : String) : Transaction → List (Option Item) → Except Thrown Transaction
  | tx, [] => .ok tx
  | tx, item :: rest =>
    match importItem sha256Hex reads faults threadId tx item with
    | .error thrown => .error thrown
    | .ok tx => importItems threadId tx rest

/-! ## All threads -/

/-- What the registry and the deletion records answer, none when the caller gives no test. -/
structure Options where
  threadIsLive : Option (String → Bool) := none
  ownerDeleted : Option (String → Bool) := none

def Options.live (options : Options) (threadId : String) : Bool :=
  options.threadIsLive.all (· threadId)

def Options.deleted (options : Options) (threadId : String) : Bool :=
  options.ownerDeleted.any (· threadId)

/-- A run of the import so far. -/
structure Recovery where
  threads : Threads
  calls : Nat := 0
  added : Nat := 0
  problems : List String := []

structure LegacyImportResult where
  added : Nat
  complete : Bool
  problems : List String
deriving DecidableEq, Repr

/-- The body of the loop over the file's pairs. A throwing append undoes its thread. -/
def recoverPair (options : Options) (recovery : Recovery) (pair : Pair) : Recovery :=
  if pair.threadId = "" then recovery
  else
    match pair.items with
    | none => recovery
    | some items =>
      if options.live pair.threadId = false then
        if options.deleted pair.threadId then recovery
        else
          { recovery with
            problems := recovery.problems ++
              [pair.threadId ++ ": conversation not recognised; its words are kept"] }
      else
        let tx : Transaction :=
          { rows := recovery.threads pair.threadId
            calls := recovery.calls }
        match importItems sha256Hex reads faults pair.threadId tx items with
        | .error thrown =>
          { recovery with
            calls := thrown.calls
            problems := recovery.problems ++ [pair.threadId ++ ": " ++ thrown.error] }
        | .ok tx =>
          { threads := Function.update recovery.threads pair.threadId tx.rows
            calls := tx.calls
            added := recovery.added + tx.threadAdded
            problems := recovery.problems }

/-- The loop over the file's pairs. True with the second: an element is no pair, and taking it
apart throws. -/
def recoverPairs (options : Options) : Recovery → SteerQueueEntries → Recovery × Bool
  | recovery, [] => (recovery, false)
  | recovery, none :: _ => (recovery, true)
  | recovery, some pair :: rest =>
    recoverPairs options (recoverPair sha256Hex reads faults options recovery pair) rest

/-- The threads the run leaves, and what it reports unless it throws. -/
def recoverMirroredQueue (waiting : SteerQueueEntries) (threads : Threads) (options : Options) :
    Threads × Option LegacyImportResult :=
  let (recovery, thrown) :=
    recoverPairs sha256Hex reads faults options { threads := threads } waiting
  let result : LegacyImportResult :=
    { added := recovery.added
      complete := recovery.problems.length == 0
      problems := recovery.problems }
  (recovery.threads, if thrown then none else some result)

end

/-! ## The file's import -/

/-- The data folder: the old file, absent once it is removed, and the threads. -/
structure Folder where
  file : Option Content
  threads : Threads

structure Start where
  /-- The file cannot be read. -/
  readError : Option String := none
  options : Options := {}
  faults : Faults := fun _ => none
  /-- The file can be removed. -/
  unlinks : Bool := true

structure FileImport where
  imported : Nat
  removed : Bool
deriving DecidableEq, Repr

/-- What an import of the file leaves: the folder, what it returns unless it throws, what it
logs, and what the run of the queue reported if there was one. -/
structure Imported where
  folder : Folder
  result : Option FileImport
  log : List String := []
  report : Option LegacyImportResult := none

def importLegacyQueueFile (sha256Hex : LineKey → String) (reads : Reads) (folder : Folder)
    (start : Start) : Imported :=
  match folder.file with
  | none =>
    { folder := folder
      result := some ⟨0, false⟩ }
  | some content =>
    match start.readError with
    | some error =>
      { folder := folder
        result := some ⟨0, false⟩
        log := ["queued-messages.json could not be read; it is kept and will be tried " ++
          "again at the next start: " ++ error] }
    | none =>
      match content with
      | .invalid =>
        { folder := folder
          result := some ⟨0, false⟩
          log := ["queued-messages.json is not valid JSON; it is kept (your words are " ++
            "still in it) and will be tried again at the next start"] }
      | .unexpected =>
        { folder := folder
          result := some ⟨0, false⟩
          log := ["queued-messages.json has an unexpected shape; it is kept and will be " ++
            "tried again at the next start"] }
      | .entries waiting =>
        let (threads, report) :=
          recoverMirroredQueue sha256Hex reads start.faults waiting folder.threads
            start.options
        match report with
        | none =>
          { folder := ⟨folder.file, threads⟩
            result := none }
        | some result =>
          if result.complete = false then
            { folder := ⟨folder.file, threads⟩
              result := some ⟨result.added, false⟩
              log := ["queued-messages.json: " ++ toString result.problems.length ++
                " conversation(s) could not be restored (" ++
                "; ".intercalate result.problems ++
                "); the file is kept and will be tried again at the next start"]
              report := report }
          else if start.unlinks then
            { folder := ⟨none, threads⟩
              result := some ⟨result.added, true⟩
              report := report }
          else
            { folder := ⟨folder.file, threads⟩
              result := some ⟨result.added, false⟩
              report := report }

end Murage.SteerQueue.Legacy
