import Mathlib.Tactic.Common

/-!
Owns the sources of a running turn: the lines it names, the ranges of conversations it carries, how
a turn begins with them, and how lines and ranges join them while it runs.

Does not own: what a turn's roots are, the hold log, and the stored lines themselves.
-/

namespace Murage.SteerLineage

/-! ## Stored lines -/

/-- A row of the messages, at its `rowid`. -/
structure Row where
  threadId : String
  id : String
  position : Nat
  deriving DecidableEq

/-- The messages, in the order they were appended, and the queries that throw now. -/
structure Database where
  messages : List Row
  throws : String → String → Bool := fun _ _ => false

def positionIn (messages : List Row) (threadId id : String) : Option Nat :=
  (messages.find? fun row => row.threadId = threadId ∧ row.id = id).map (·.position)

/-- `storedPosition`, as its callers use it: no position when it throws. -/
def Database.storedPosition (db : Database) (threadId id : String) : Option Nat :=
  if db.throws threadId id then none else positionIn db.messages threadId id

/-! ## A running turn -/

structure ShownLine where
  threadId : String
  id : String
  role : Option String := none
  deriving DecidableEq

structure SourceRange where
  threadId : String
  upTo : String
  since : Nat
  deriving DecidableEq

structure HeldRange extends SourceRange where
  position : Nat
  deriving DecidableEq

inductive Sources where
  | named (lines : List ShownLine)
  | over
  deriving DecidableEq

/-- `sources` is none when they were never established; no `ranges` are no range. -/
structure RunningTurnLineage where
  botId : Option String := none
  rootsOver : Bool := false
  sources : Option Sources
  ranges : List HeldRange := []
  deriving DecidableEq

def TURN_SOURCES_MAX : Nat := 1600
def TURN_RANGES_MAX : Nat := 64

def keyOf (threadId id : String) : String := threadId ++ "\x00" ++ id

def ShownLine.key (line : ShownLine) : String := keyOf line.threadId line.id

def ShownLine.ofUser (line : ShownLine) : Bool := line.role = some "user"

/-! ## Ranges -/

/-- The loop of `widestRange`, with the place of the range it returns. -/
def widestFrom (threadId : String) : Nat → List HeldRange → Option (Nat × HeldRange) →
    Option (Nat × HeldRange)
  | _, [], widest => widest
  | place, range :: rest, widest =>
    let wider : Bool :=
      range.threadId = threadId ∧ widest.all fun other => other.2.position < range.position
    widestFrom threadId (place + 1) rest (if wider then some (place, range) else widest)

def widestRange (ranges : List HeldRange) (threadId : String) : Option (Nat × HeldRange) :=
  widestFrom threadId 0 ranges none

def HeldRange.carriedOn (range : HeldRange) (id : String) (position : Nat) : HeldRange :=
  { range with
    upTo := id
    position := position }

def place (db : Database) (ranges : List HeldRange) (line : ShownLine) : Option (List HeldRange) :=
  match widestRange ranges line.threadId with
  | none => none
  | some (index, range) =>
    (db.storedPosition line.threadId line.id).map fun position =>
      if range.position < position then ranges.set index (range.carriedOn line.id position)
      else ranges

/-! ## Lines join -/

/-- The loop of `addSourcesToRunningTurn`. -/
def addLines (db : Database) : List ShownLine → List String → List ShownLine → List HeldRange →
    Sources × List HeldRange
  | [], _, sources, ranges => (.named sources, ranges)
  | line :: rest, known, sources, ranges =>
    if line.ofUser ∨ line.key ∈ known then addLines db rest known sources ranges
    else
      match place db ranges line with
      | some ranges => addLines db rest known sources ranges
      | none =>
        if TURN_SOURCES_MAX < (sources ++ [line]).length then (.over, ranges)
        else addLines db rest (known ++ [line.key]) (sources ++ [line]) ranges

def addSourcesToRunningTurn (db : Database) (lineage : RunningTurnLineage)
    (lines : List ShownLine) : RunningTurnLineage :=
  match lineage.sources with
  | some (.named sources) =>
    let added := addLines db lines (sources.map ShownLine.key) sources lineage.ranges
    { lineage with
      sources := some added.1
      ranges := added.2 }
  | _ => lineage

/-- The loop of `sourcesRoom`. -/
def roomFor (db : Database) (ranges : List HeldRange) : List ShownLine → List String → Nat
  | [], _ => 0
  | line :: rest, known =>
    if line.ofUser ∨ line.key ∈ known then roomFor db ranges rest known
    else if (widestRange ranges line.threadId).isSome ∧
        (db.storedPosition line.threadId line.id).isSome then
      roomFor db ranges rest known
    else roomFor db ranges rest (known ++ [line.key]) + 1

def sourcesRoom (db : Database) (lineage : RunningTurnLineage) (lines : List ShownLine) : Nat :=
  match lineage.sources with
  | some (.named sources) => roomFor db lineage.ranges lines (sources.map ShownLine.key)
  | _ => 0

/-! ## Ranges join -/

def SourceRange.heldIn (range : SourceRange) (held : List HeldRange) : Bool :=
  held.any fun kept =>
    kept.threadId = range.threadId ∧ kept.upTo = range.upTo ∧ kept.since ≤ range.since

def SourceRange.heldAt (range : SourceRange) (position : Nat) : HeldRange :=
  { range with position := position }

/-- The loop of `addRangesToRunningTurn`: whether the sources go over, and the ranges. -/
def addHeld (db : Database) : List SourceRange → List HeldRange → Bool × List HeldRange
  | [], held => (false, held)
  | range :: rest, held =>
    if range.heldIn held then addHeld db rest held
    else
      match db.storedPosition range.threadId range.upTo with
      | none => (true, held)
      | some position =>
        let held := held ++ [range.heldAt position]
        if TURN_RANGES_MAX < held.length then (true, held) else addHeld db rest held

def addRangesToRunningTurn (db : Database) (lineage : RunningTurnLineage)
    (ranges : List SourceRange) : RunningTurnLineage :=
  match lineage.sources with
  | some (.named sources) =>
    let added := addHeld db ranges lineage.ranges
    { lineage with
      sources := some (if added.1 then .over else .named sources)
      ranges := added.2 }
  | _ => lineage

structure EgressOrigin where
  threadId : String
  messageIds : List String

def shownLines (origins : List EgressOrigin) : List ShownLine :=
  origins.flatMap fun origin => origin.messageIds.map fun id =>
    { threadId := origin.threadId
      id := id
      role := some "bot" }

def addShownToRunningTurn (db : Database) (lineage : RunningTurnLineage)
    (origins : List EgressOrigin) (ranges : List SourceRange) : RunningTurnLineage :=
  addRangesToRunningTurn db (addSourcesToRunningTurn db lineage (shownLines origins)) ranges

/-! ## A turn begins -/

/-- The loop of `turnSources`. -/
def turnSourcesFrom (withheldNow : ShownLine → Bool) : List ShownLine → List ShownLine → Sources
  | [], out => .named out
  | line :: rest, out =>
    if line.ofUser then turnSourcesFrom withheldNow rest out
    else if line.key ∈ out.map ShownLine.key ∨ withheldNow line then
      turnSourcesFrom withheldNow rest out
    else if TURN_SOURCES_MAX < (out ++ [line]).length then .over
    else turnSourcesFrom withheldNow rest (out ++ [line])

def turnSources (lines : List ShownLine) (withheldNow : ShownLine → Bool) : Sources :=
  turnSourcesFrom withheldNow lines []

/-- The row of the thread with the highest `rowid`. -/
def newestFrom (threadId : String) : List Row → Option Row → Option Row
  | [], newest => newest
  | row :: rest, newest =>
    let newer : Bool :=
      row.threadId = threadId ∧ newest.all fun other => other.position < row.position
    newestFrom threadId rest (if newer then some row else newest)

def threadRangeNow (db : Database) (threadId : String) (holdLogNow : Nat) : Option HeldRange :=
  (newestFrom threadId db.messages none).map fun newest =>
    { threadId := threadId
      upTo := newest.id
      since := holdLogNow
      position := newest.position }

/-- What a turn begins with. `rangesUsable`: the copy index is filled and the newest line could be
asked for; `pending`: what the prompts built for it showed. -/
structure TurnInput where
  threadId : String
  botId : String
  rootsOver : Bool
  shown : List ShownLine
  ownLines : List ShownLine := []
  keptSources : Option Sources := none
  keptRanges : List HeldRange := []
  ownLinesIncomplete : Bool := false
  withheldNow : ShownLine → Bool
  rangesUsable : Bool
  holdLogNow : Nat
  pending : Option (List EgressOrigin × List SourceRange) := none

def namedIn : Option Sources → List ShownLine
  | some (.named lines) => lines
  | _ => []

def beginTurnLineage (db : Database) (input : TurnInput) : RunningTurnLineage :=
  let base : RunningTurnLineage :=
    { botId := some input.botId
      rootsOver := input.rootsOver
      sources := some .over }
  let own :=
    if input.rangesUsable then threadRangeNow db input.threadId input.holdLogNow else none
  if input.keptSources = some .over then base
  else if own = none ∧ input.ownLinesIncomplete then base
  else
    let lines :=
      (namedIn input.keptSources ++ input.shown ++ if own = none then input.ownLines else []).filter
        fun line => own = none ∨ line.threadId ≠ input.threadId
    let lineage : RunningTurnLineage :=
      { base with
        sources := some (turnSources lines fun line =>
          line.threadId = input.threadId && input.withheldNow line)
        ranges := own.toList }
    let kept := input.keptRanges.filter (·.threadId ≠ input.threadId)
    let lineage := addRangesToRunningTurn db lineage (kept.map (·.toSourceRange))
    match input.pending with
    | none => lineage
    | some (origins, ranges) => addShownToRunningTurn db lineage origins ranges

/-! ## What a turn writes rests on -/

/-- A line's id joins those of its thread. -/
def addToGroup (groups : List (String × List String)) (line : ShownLine) :
    List (String × List String) :=
  if groups.any (·.1 = line.threadId) then
    groups.map fun group =>
      if group.1 = line.threadId then (group.1, group.2 ++ [line.id]) else group
  else groups ++ [(line.threadId, [line.id])]

def runningTurnSources (lineage : RunningTurnLineage) (botId : String) :
    Option (List (String × List String)) :=
  if lineage.botId ≠ some botId ∨ lineage.rootsOver then none
  else
    match lineage.sources with
    | some (.named sources) => some (sources.foldl addToGroup [])
    | _ => none

def runningTurnRanges (lineage : RunningTurnLineage) (botId : String) : Option (List SourceRange) :=
  (runningTurnSources lineage botId).map fun _ => lineage.ranges.map (·.toSourceRange)

/-! ## Runs -/

inductive Call where
  | sources (lines : List ShownLine)
  | ranges (ranges : List SourceRange)
  | shown (origins : List EgressOrigin) (ranges : List SourceRange)

/-- A call, with the messages that were appended before it and the queries that throw in it. -/
structure Event where
  appended : List Row := []
  throws : String → String → Bool := fun _ _ => false
  call : Call

structure World where
  messages : List Row
  lineage : RunningTurnLineage

def Event.database (event : Event) (world : World) : Database where
  messages := world.messages ++ event.appended
  throws := event.throws

def answer (db : Database) (lineage : RunningTurnLineage) : Call → RunningTurnLineage
  | .sources lines => addSourcesToRunningTurn db lineage lines
  | .ranges ranges => addRangesToRunningTurn db lineage ranges
  | .shown origins ranges => addShownToRunningTurn db lineage origins ranges

def step (world : World) (event : Event) : World where
  messages := world.messages ++ event.appended
  lineage := answer (event.database world) world.lineage event.call

def run (world : World) (events : List Event) : World := events.foldl step world

end Murage.SteerLineage
