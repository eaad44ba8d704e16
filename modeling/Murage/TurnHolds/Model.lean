import Murage.Library.Links
import Murage.Library.Numbers
import Mathlib.Data.List.Dedup
import Mathlib.Data.List.MinMax

/-!
Owns the stored lines, the hold log and the copy index of a database, the triggers that keep the
log and the index as lines are written, the fill of the index, and the ranges of lines that a turn
rests on.

Does not own: the other columns of a line, and what memory is. What a line's JSON says is a
parameter.
-/

namespace Murage.TurnHolds

open Murage.Library

/-! ## Lines -/

structure Key where
  thread : String
  id : String
  deriving DecidableEq

inductive Role where
  | user
  | bot
  deriving DecidableEq

/-- `position`: the row's `rowid`. -/
structure Line where
  key : Key
  position : Nat
  role : Role
  json : String
  deriving DecidableEq

/-- A scalar as `json_extract` returns it; `true` is the number one. -/
inductive Scalar where
  | number (value : Int)
  | text (value : String)
  deriving DecidableEq

/-- The copy link. `threadId` and `messageIds` are there when they are a text and an array, and an
entry of the array when it is a text; `rest` is what else the link says. -/
structure CopyOf where
  threadId : Option String
  messageIds : Option (List (Option String))
  rest : String := ""
  deriving DecidableEq

/-- The fields of a line's JSON that the triggers read. -/
structure Fields where
  copyOf : Option CopyOf := none
  withheldFromBots : Option Scalar := none
  deriving DecidableEq

/-- `COALESCE(withheldFromBots, 0) IN (0)`. -/
def Fields.shown (fields : Fields) : Bool :=
  fields.withheldFromBots = none ∨ fields.withheldFromBots = some (.number 0)

/-- `instr(text, word) > 0`. -/
def instr (word : List Char) : List Char → Bool
  | [] => word.isEmpty
  | letter :: rest => word.isPrefixOf (letter :: rest) || instr word rest

/-! ## The database -/

/-- A row of `turn_source_holds`. -/
structure Hold where
  seq : Nat
  thread : String
  position : Nat
  deriving DecidableEq

/-- A row of `turn_source_copies`. -/
structure Edge where
  origin : Key
  copy : Key
  position : Nat
  deriving DecidableEq

/-- A range: every line of the thread up to a line, as it stood at an entry of the log. -/
structure HeldRange where
  threadId : String
  upTo : String
  position : Nat
  since : Nat
  deriving DecidableEq

def HeldRange.last (range : HeldRange) : Key :=
  { thread := range.threadId
    id := range.upTo }

/-- `made`: the log, the index and their triggers are there; `filled`: the mark of the fill.
`highest`: the highest number of the logs that were dropped; `taken`: the ranges that turns took. -/
structure World where
  lines : List Line := []
  holds : List Hold := []
  edges : List Edge := []
  made : Bool := false
  filled : Bool := false
  highest : Nat := 0
  taken : List HeldRange := []

def World.find (world : World) (key : Key) : Option Line := world.lines.find? (·.key = key)

/-- The `rowid` that a new line gets. -/
def World.newPosition (world : World) : Nat := Numbers.top (world.lines.map (·.position)) + 1

/-- `holdLogNow`. -/
def World.holdLogNow (world : World) : Nat := Numbers.top (world.holds.map (·.seq))

/-- One entry of the log. -/
def World.hold (thread : String) (position : Nat) (world : World) : World :=
  { world with
    holds :=
      world.holds ++
        [{ seq := world.holdLogNow + 1
           thread := thread
           position := position }] }

/-- `copiesOf`: an entry for every copy of the line. -/
def World.holdCopies (key : Key) (world : World) : World :=
  (world.edges.filter (·.origin = key)).foldl
    (fun later edge => later.hold edge.copy.thread edge.position) world

/-! ## The copy index -/

def Edge.samePair (edge other : Edge) : Bool :=
  edge.origin = other.origin ∧ edge.copy = other.copy

/-- `INSERT OR REPLACE`. -/
def putEdge (edges : List Edge) (edge : Edge) : List Edge :=
  edges.filter (fun other => !other.samePair edge) ++ [edge]

/-- `INSERT OR IGNORE`. -/
def addEdge (edges : List Edge) (edge : Edge) : List Edge :=
  if edges.any (·.samePair edge) then edges else edges ++ [edge]

section

variable (json : String → Option Fields)

def originals (text : String) : List Key :=
  if instr "copyOf".toList text.toList then
    match (json text).bind (·.copyOf) with
    | some { threadId := some threadId, messageIds := some messageIds, .. } =>
      messageIds.filterMap fun id => id.map (Key.mk threadId)
    | _ => []
  else []

/-- The trigger after an insert: the originals of the line, and theirs. -/
def indexCopies (line : Line) (edges : List Edge) : List Edge :=
  let named := originals json line.json
  let direct := (named.map fun origin => Edge.mk origin line.key line.position).foldl putEdge edges
  let above := named.flatMap fun origin =>
    (direct.filter (·.copy = origin)).map fun up => Edge.mk up.origin line.key line.position
  above.foldl putEdge direct

/-- The copy link or the mark differs; a text that is not JSON counts as a change. -/
def fieldsDiffer : Option Fields → Option Fields → Bool
  | some old, some new =>
    decide (old.copyOf ≠ new.copyOf) || decide (old.withheldFromBots ≠ new.withheldFromBots)
  | _, _ => true

/-- `copyFieldsChanged`. -/
def copyFieldsChanged (before after : String) : Bool :=
  decide (before ≠ after) &&
    (instr "withheldFromBots".toList before.toList || instr "withheldFromBots".toList after.toList ||
      instr "copyOf".toList before.toList || instr "copyOf".toList after.toList) &&
    fieldsDiffer (json before) (json after)

def staysShown : Option Fields → Option Fields → Bool
  | some old, some new => decide (old.copyOf = new.copyOf) && new.shown
  | _, _ => false

/-- The condition of the trigger after an update, the role apart. -/
def takesAway (before after : String) : Bool :=
  copyFieldsChanged json before after && !staysShown (json before) (json after)

/-! ## Writes of lines -/

/-- The row goes in, and the trigger after an insert runs. -/
def storeLine (key : Key) (role : Role) (text : String) (position : Nat) (world : World) : World :=
  let line := Line.mk key position role text
  { world with
    lines := world.lines.filter (·.key ≠ key) ++ [line]
    edges := if world.made then indexCopies json line world.edges else world.edges }

/-- `INSERT`: a stored key is refused. -/
def insertLine (key : Key) (role : Role) (text : String) (world : World) : World :=
  match world.find key with
  | some _ => world
  | none => storeLine json key role text world.newPosition world

/-- `INSERT OR REPLACE`: the trigger before an insert runs first; the row that is replaced goes
without a trigger. -/
def replaceLine (key : Key) (role : Role) (text : String) (world : World) : World :=
  let held :=
    match world.find key with
    | some old =>
      if world.made && decide (old.role ≠ .user) then
        (world.hold old.key.thread old.position).holdCopies key
      else world
    | none => world
  storeLine json key role text world.newPosition held

/-- `UPDATE`. -/
def updateLine (key : Key) (role : Role) (text : String) (world : World) : World :=
  match world.find key with
  | none => world
  | some old =>
    let written :=
      { world with
        lines := world.lines.map fun line =>
          if line.key = key then
            { line with
              role := role
              json := text }
          else line }
    if world.made && decide (role ≠ .user) && takesAway json old.json text then
      (written.hold key.thread old.position).holdCopies key
    else written

/-- `DELETE`, with the trigger after it. -/
def deleteLine (key : Key) (world : World) : World :=
  match world.find key with
  | none => world
  | some _ =>
    let gone := { world with lines := world.lines.filter (·.key ≠ key) }
    if world.made then
      let held := gone.holdCopies key
      { held with edges := held.edges.filter fun edge => edge.origin ≠ key ∧ edge.copy ≠ key }
    else gone

def holdForgotten (world : World) (key : Key) : World :=
  match world.find key with
  | none => world
  | some line =>
    if line.role = .user then world else (world.hold key.thread line.position).holdCopies key

/-- `holdForgottenSources`, where `sourceOf` is the message of a captured source. -/
def holdForgottenSources (sourceOf : String → Option Key) (sourceIds : List String)
    (world : World) : World :=
  if world.made then (sourceIds.dedup.filterMap sourceOf).foldl holdForgotten world else world

/-! ## Making, filling and dropping -/

/-- `initializeTurnSourceHolds`. -/
def initializeTurnSourceHolds (now : Nat) (world : World) : World :=
  { world with
    made := true
    holds :=
      if world.holds = [] then
        [{ seq := now * 1000
           thread := ""
           position := 0 }]
      else world.holds }

def directEdges (lines : List Line) : List Edge :=
  lines.flatMap fun line =>
    (originals json line.json).map fun origin => Edge.mk origin line.key line.position

/-- The originals of the originals that are in the index. -/
def joinedEdges (edges : List Edge) : List Edge :=
  edges.flatMap fun edge =>
    (edges.filter (·.copy = edge.origin)).map fun up => Edge.mk up.origin edge.copy edge.position

/-- The rounds of the fill; one that adds nothing is the last. -/
def rounds : Nat → List Edge → List Edge
  | 0, edges => edges
  | n + 1, edges =>
    let more := (joinedEdges edges).foldl addEdge edges
    if more.length = edges.length then edges else rounds n more

/-- `backfillTurnSourceCopies`. -/
def backfillTurnSourceCopies (world : World) : World :=
  if world.filled || !world.made then world
  else
    { world with
      edges := rounds 8 ((directEdges json world.lines).foldl putEdge world.edges)
      filled := true }

/-- The downgrade that drops the log, the index, their triggers and the mark of the fill. -/
def drop (world : World) : World :=
  { world with
    holds := []
    edges := []
    made := false
    filled := false
    highest := max world.highest world.holdLogNow }

/-! ## Ranges -/

def World.newest (world : World) (threadId : String) : Option Line :=
  (world.lines.filter (·.key.thread = threadId)).argmax (·.position)

/-- `threadRangeNow`; without a log it throws. -/
def threadRangeNow (threadId : String) (world : World) : Option HeldRange :=
  if world.made then
    (world.newest threadId).map fun line =>
      { threadId := threadId
        upTo := line.key.id
        position := line.position
        since := world.holdLogNow }
  else none

/-- `RANGE_HOLD_SQL`: the log holds the range. -/
def Hold.hits (hold : Hold) (range : HeldRange) (position : Nat) : Bool :=
  hold.thread = range.threadId ∧ range.since < hold.seq ∧ hold.position ≤ position

/-- `rangeHolds`. -/
def rangeHolds (range : HeldRange) (world : World) : Bool :=
  if world.made then
    match world.find range.last with
    | none => false
    | some upTo =>
      match (world.holds.map (·.seq)).min? with
      | none => false
      | some first =>
        !decide (range.since < first) && !world.holds.any (·.hits range upTo.position)
  else false

/-! ## The system -/

inductive Event where
  | insert (key : Key) (role : Role) (text : String)
  | replace (key : Key) (role : Role) (text : String)
  | update (key : Key) (role : Role) (text : String)
  | delete (key : Key)
  | forget (sourceOf : String → Option Key) (sourceIds : List String)
  | take (threadId : String)
  | make (now : Nat)
  | fill
  | drop

def step (world : World) : Event → World
  | .insert key role text => insertLine json key role text world
  | .replace key role text => replaceLine json key role text world
  | .update key role text => updateLine json key role text world
  | .delete key => deleteLine key world
  | .forget sourceOf sourceIds => holdForgottenSources sourceOf sourceIds world
  | .take threadId => { world with taken := world.taken ++ (threadRangeNow threadId world).toList }
  | .make now => initializeTurnSourceHolds now world
  | .fill => backfillTurnSourceCopies json world
  | .drop => drop world

end

end Murage.TurnHolds
