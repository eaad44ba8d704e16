import Murage.Transcript.Rows

/-!
Owns the transcript of a room and everything that moves it
(`src/src/state/transcript-seq.ts`): the one entry for inputs, the hydrate, the
ask for the next page and the loaded state.

An optional flag of the source that is only `true` or absent is a `Bool`, and an
optional list that is dropped when empty is a list. The source returns the same
object when nothing changed; here that is the equal value.

Does not own: where inputs come from and whether they vouch.
-/

namespace Murage.Transcript

variable {Content : Type}

inductive TranscriptState where
  | unloaded
  | partial_
  | complete
deriving DecidableEq, Repr

structure SeqTranscript (Content : Type) where
  messages : List (Message Content)
  numbered : Bool := false
  tail : Option Nat := none
  hasMore : Option Bool := none
  olderFrom : Option String := none
  legacyGaps : List String := []
  messagesUnloaded : Bool := false
deriving DecidableEq, Repr

/-- How an input reached the client. -/
inductive InputKind where
  | newest
  | older
  | statement
  | live
  | patch
deriving DecidableEq, Repr

structure TranscriptInput (Content : Type) where
  kind : InputKind
  rows : List (Message Content)
  newestSeq : Option Nat := none
  vouched : Bool
  hasMore : Option Bool := none
  /-- Absent, `null` or an ancestor. -/
  olderFrom : Option (Option String) := none
  before : Option String := none
deriving DecidableEq, Repr

inductive InputShape where
  | numbered
  | legacy
  | empty
  | mixed
deriving DecidableEq, Repr

/-- An input is numbered when the envelope and every row carry a number, legacy
when none does; anything else is a wire defect. -/
def inputShape (rows : List (Message Content)) (newestSeq : Option Nat) : InputShape :=
  let numberedRows := (rows.filter (·.seq.isSome)).length
  match newestSeq with
  | some _ => if numberedRows = rows.length then .numbered else .mixed
  | none => if rows.length = 0 then .empty else if numberedRows = 0 then .legacy else .mixed

/-- A string the source tests with `if (value)`: the empty one counts as none. -/
def truthy (value : Option String) : Option String := value.filter (· != "")

/-! ## The next page -/

inductive PageAsk where
  | newest
  | before (id : String) (olderFrom : Option String)
deriving DecidableEq, Repr

def newestLegacyGap (t : SeqTranscript Content) : Option String :=
  (t.messages.reverse.find? fun row => t.legacyGaps.contains row.id).map (·.id)

/-- The loop of rule 2, on the rows newest first: the row just above the newest
interior gap. -/
def aboveGap : List (Message Content) → Option String
  | above :: below :: rest =>
    if above.number - below.number > 1 then some above.id else aboveGap (below :: rest)
  | _ => none

/-- The loop of rule 2b, on the rows newest first: the row just above the newest
unvouched one. -/
def aboveUnvouched : List (Message Content) → Option String
  | above :: below :: rest =>
    if below.unvouched then some above.id else aboveUnvouched (below :: rest)
  | _ => none

/-- The ask of a legacy transcript: the newest page while unloaded, else the
newest gap, else the page before the oldest held row while `hasMore`. -/
def legacyAsk (t : SeqTranscript Content) : Option PageAsk :=
  if t.messagesUnloaded then some .newest
  else
    match truthy (newestLegacyGap t) with
    | some gap => some (.before gap none)
    | none =>
      match truthy (t.messages.head?.map (·.id)) with
      | none => none
      | some before =>
        if t.hasMore = some true then
          some (.before before
            ((truthy t.olderFrom).filter fun id => !t.messages.any (·.id == id)))
        else none

/-- Rules 2, 2b and 3: the newest interior gap, the newest unvouched row, the
front. -/
def innerAsk (rows : List (Message Content)) : Option PageAsk :=
  match aboveGap rows.reverse with
  | some id => some (.before id none)
  | none =>
    match aboveUnvouched rows.reverse with
    | some id => some (.before id none)
    | none =>
      match rows.head? with
      | some first => if first.number > 1 then some (.before first.id none) else none
      | none => none

/-- Rule 1, then the others: the newest page while the tail is unknown, the held
maximum is below it or the newest held row is unvouched. -/
def numberedAsk (t : SeqTranscript Content) : Option PageAsk :=
  match t.tail with
  | none => some .newest
  | some tail =>
    match t.messages.getLast? with
    | none => if tail > 0 then some .newest else none
    | some top =>
      if top.number < tail ∨ top.unvouched then some .newest else innerAsk t.messages

def nextPage (t : SeqTranscript Content) : Option PageAsk :=
  if t.numbered then numberedAsk t else legacyAsk t

/-- `complete` iff the held numbers are exactly `1..tail` and none is unvouched. -/
def transcriptState (t : SeqTranscript Content) : TranscriptState :=
  if !t.numbered then if t.messagesUnloaded then .unloaded else .partial_
  else
    match t.tail with
    | none => if t.messages.isEmpty then .unloaded else .partial_
    | some tail =>
      if t.messages.length ≠ tail then .partial_
      else if t.messages.head?.any (·.seq != some 1) ||
          t.messages.getLast?.any (·.seq != some tail) then .partial_
      else if t.messages.any (·.unvouched) then .partial_ else .complete

/-! ## Legacy inputs -/

/-- Each row's number is the one before it plus one. -/
def contiguous : List (Message Content) → Bool
  | below :: above :: rest => above.number == below.number + 1 && contiguous (above :: rest)
  | _ => true

/-- A page's rows are contiguous numbers, none above its `newestSeq`, and a page
that says nothing older exists starts at 1. -/
def pageIsSound (input : TranscriptInput Content) : Bool :=
  if input.kind = .live ∨ input.kind = .patch then true
  else if !contiguous input.rows then false
  else if input.kind = .older ∧ input.hasMore = some false ∧
      input.rows.head?.any (·.seq != some 1) then false
  else
    match input.rows.getLast?, input.newestSeq with
    | some last, some newest => decide (last.number ≤ newest)
    | _, _ => true

/-- A defect: the tail is forgotten, so the newest page is asked once. -/
def askNewest (t : SeqTranscript Content) : SeqTranscript Content :=
  if t.numbered && t.tail.isSome then { t with tail := none } else t

/-- The loop state of the split in `legacyUnion`: rows in front of the first
shared row, the rows behind each shared row, and the last shared row seen. -/
structure UnionSplit (Content : Type) where
  front : List (Message Content) := []
  after : AList fun _ : String => List (Message Content) := ∅
  predecessor : Option String := none

def UnionSplit.add (pageIds : List String) (split : UnionSplit Content) (row : Message Content) :
    UnionSplit Content :=
  if pageIds.contains row.id then { split with predecessor := some row.id }
  else
    match split.predecessor with
    | none => { split with front := split.front ++ [row] }
    | some id =>
      { split with after := split.after.insert id ((split.after.lookup id).getD [] ++ [row]) }

/-- Union of a page with the held rows: page order for the rows it carries; a
held row it lacks keeps its place relative to the held row in front of it. -/
def legacyUnion (held page : List (Message Content)) (older : Bool) : List (Message Content) :=
  let pageIds := page.map (·.id)
  let unique := page.eraseDupsBy fun left right => left.id == right.id
  let heldById : AList fun _ : String => Message Content :=
    held.foldl (fun map row => map.insert row.id row) ∅
  let pageRows := unique.map fun row => (heldById.lookup row.id).getD row
  if !held.any (fun row => pageIds.contains row.id) then
    if older then pageRows ++ held else held ++ pageRows
  else
    let split := held.foldl (UnionSplit.add pageIds) {}
    split.front ++ pageRows.flatMap fun row => row :: (split.after.lookup row.id).getD []

/-- A newer page that carries a gap's anchor closes the gap when it also carries
a row held below the anchor, or says nothing older exists. -/
def closedByPage (held : List (Message Content)) (anchor : String) (pageIds : List String)
    (hasMore : Bool) : Bool :=
  if !pageIds.contains anchor then false
  else if !hasMore then true
  else
    held.any (·.id == anchor) &&
      (held.takeWhile (·.id != anchor)).any fun row => pageIds.contains row.id

def legacyGapPage (t : SeqTranscript Content) (input : TranscriptInput Content)
    (anchor : String) : SeqTranscript Content :=
  let held := t.messages
  let others := t.legacyGaps.filter (· != anchor)
  if !held.any (·.id == anchor) then { t with legacyGaps := others }
  else
    let lower := held.takeWhile (·.id != anchor)
    let upper := held.dropWhile (·.id != anchor)
    let page := input.rows.filter fun row => !upper.any (·.id == row.id)
    let fresh := page.filter fun row => !lower.any (·.id == row.id)
    let reaches := page.any fun row => lower.any (·.id == row.id)
    let closed := reaches || input.hasMore != some true || fresh.isEmpty
    let laid := if reaches then legacyUnion lower page false else lower ++ fresh
    let gaps := if closed then others else others ++ (fresh.head?.map (·.id)).toList
    { t with messages := laid ++ upper, legacyGaps := gaps }

def legacyLive (t : SeqTranscript Content) (input : TranscriptInput Content) :
    SeqTranscript Content :=
  if t.messagesUnloaded then t
  else
    { t with messages := t.messages ++
        input.rows.filter fun row => !t.messages.any (·.id == row.id) }

/-- A patch replaces held rows by id. -/
def legacyPatch (t : SeqTranscript Content) (input : TranscriptInput Content) :
    SeqTranscript Content :=
  if t.messagesUnloaded then t
  else
    let byId : AList fun _ : String => Message Content :=
      input.rows.foldl (fun map row => map.insert row.id row) ∅
    { t with messages := t.messages.map fun row => (byId.lookup row.id).getD row }

/-- An older page goes in front, or into the gap it was asked for. -/
def legacyOlder (t : SeqTranscript Content) (input : TranscriptInput Content) :
    SeqTranscript Content :=
  match input.before.filter t.legacyGaps.contains with
  | some anchor => legacyGapPage t input anchor
  | none =>
    let fresh := input.rows.filter fun row => !t.messages.any (·.id == row.id)
    let hasMore := input.hasMore = some true
    -- a branch page names the next ancestor; a storage page leaves the cursor as it was
    let cursor := match input.olderFrom with
      | none => t.olderFrom
      | some next => next
    { t with
      messages := fresh ++ t.messages
      hasMore := some hasMore
      olderFrom := if hasMore then cursor else none }

/-- A newest or statement page unions with the held rows. -/
def legacyPage (t : SeqTranscript Content) (input : TranscriptInput Content) :
    SeqTranscript Content :=
  if t.messagesUnloaded && !input.vouched then t
  else
    let base := if t.messagesUnloaded then [] else t.messages
    let messages := legacyUnion base input.rows false
    let pageIds := input.rows.map (·.id)
    let pageHasMore := input.hasMore == some true
    let disjoint := !base.isEmpty && !input.rows.isEmpty &&
      !input.rows.any fun row => base.any (·.id == row.id)
    -- the first row is the held first row again: the page did not reach it
    let reachesBack := base.head?.any fun first =>
      !pageIds.contains first.id && messages.head?.any (·.id == first.id)
    let hasMore := if reachesBack then t.hasMore == some true else pageHasMore
    let olderFrom := if reachesBack then t.olderFrom
      else if pageHasMore then truthy input.olderFrom.join else none
    let oldest := (input.rows.head?.map (·.id)).toList
    let standing := if t.messagesUnloaded then []
      else t.legacyGaps.filter fun id => !closedByPage base id pageIds pageHasMore
    let moved := (standing.flatMap fun id => if pageIds.contains id then oldest else [id]).eraseDups
    { t with
      messages := messages
      hasMore := some hasMore
      olderFrom := olderFrom
      legacyGaps := if disjoint && pageHasMore then moved ++ oldest else moved
      messagesUnloaded := false }

/-- The legacy branch: rows in arrival order, no numbers. -/
def legacyTranscriptInput (t : SeqTranscript Content) (input : TranscriptInput Content) :
    SeqTranscript Content :=
  match input.kind with
  | .live => legacyLive t input
  | .patch => legacyPatch t input
  | .older => legacyOlder t input
  | .newest | .statement => legacyPage t input

/-! ## The one entry for every input -/

def raise (input : TranscriptInput Content) (tail : Option Nat) : Option Nat :=
  match input.vouched, input.newestSeq with
  | true, some newest => some (max (tail.getD newest) newest)
  | _, _ => tail

/-- A legacy transcript's first vouched numbered input drops the legacy rows. -/
def promote (t : SeqTranscript Content) (input : TranscriptInput Content) :
    SeqTranscript Content :=
  { t with
    numbered := true
    messages := holdRows [] input.rows { vouched := true }
    tail := raise input none
    hasMore := none
    olderFrom := none
    legacyGaps := []
    messagesUnloaded := false }

/-- Once the tail is known, an input that does not vouch admits no row above it. -/
def admitted (t : SeqTranscript Content) (input : TranscriptInput Content) :
    List (Message Content) :=
  match t.tail with
  | some tail => if input.vouched then input.rows else input.rows.filter (·.number ≤ tail)
  | none => input.rows

def holdInput (t : SeqTranscript Content) (input : TranscriptInput Content) :
    SeqTranscript Content :=
  { t with
    messages := holdRows t.messages (admitted t input)
      { vouched := input.vouched, replace := input.kind = .patch }
    tail := raise input t.tail
    messagesUnloaded := false }

def applyTranscriptInput (t : SeqTranscript Content) (input : TranscriptInput Content) :
    SeqTranscript Content :=
  match inputShape input.rows input.newestSeq with
  | .mixed => askNewest t
  | .empty => if t.numbered then t else legacyTranscriptInput t input
  | .legacy => if t.numbered then askNewest t else legacyTranscriptInput t input
  | .numbered =>
    if !pageIsSound input then askNewest t
    else if t.messagesUnloaded &&
        (decide (input.kind = .live ∨ input.kind = .patch) || !input.vouched) then t
    else if !t.numbered then if !input.vouched then t else promote t input
    else holdInput t input

/-- A hydrate: in the same run a numbered transcript keeps its rows unvouched;
any other drops its rows and arrives unloaded. -/
def hydrateTranscript (t : SeqTranscript Content) (sameRun : Bool) : SeqTranscript Content :=
  if sameRun && t.numbered && !t.messages.isEmpty then
    { t with
      messages := t.messages.map (·.copy true)
      tail := none
      messagesUnloaded := false }
  else
    { t with
      messages := []
      numbered := sameRun && t.numbered
      tail := none
      hasMore := none
      olderFrom := none
      legacyGaps := []
      messagesUnloaded := true }

end Murage.Transcript
