import Murage.Library.Binary64

/-!
Owns the write budget of the revoke marker: the ledger of dated charges over a sliding minute, the
estimated cost of a changed row, the admission of a slice, and the wait for room.

Does not own: what a slice changes, the measurement that the cost is learned from, and the counters
kept for tests. Bytes and clocks are whole numbers; the cost is a double.
-/

namespace Murage.RevokeBudget

open Murage.Library.Binary64

def REVOKE_WRITE_WINDOW_MS : Int := 60000
def MIN_SLICE_CHANGES : Int := 64
def MARKER_STEP_RESERVE : Int := 512
def REVOKE_CHANGE_CEILING_FRAMES : Int := 2
def REVOKE_COST_FLOOR : ℚ := 1 / 8
def REVOKE_COST_MEMORY_ROWS : ℚ := 8192
def FRAME_HEADER : Int := 24

/-- The budget of a minute and the file's page size. -/
structure Config where
  bytesPerMinute : Int
  bytesPerChange : Int
  isBudget : 0 < bytesPerMinute ∧ bytesPerMinute < 2 ^ 53
  isPage : 0 < bytesPerChange

structure Entry where
  dated : Int
  bytes : Int
deriving DecidableEq, Repr

/-- The ledger, oldest first, the bytes spent in it, and the cost of a row once one is known. -/
structure Budget where
  ledger : List Entry := []
  spent : Int := 0
  cost : Option ℚ := none
deriving DecidableEq

/-- The double nearest to a number of either sign. -/
def rounded (x : ℚ) : ℚ := if x < 0 then -double (-x) else double x

def trimFrom (now : Int) : List Entry → (spent : Int) → List Entry × Int
  | [], spent => ([], spent)
  | entry :: rest, spent =>
    if entry.dated ≤ now - REVOKE_WRITE_WINDOW_MS then trimFrom now rest (spent - entry.bytes)
    else (entry :: rest, spent)

def trim (now : Int) (budget : Budget) : Budget :=
  let left := trimFrom now budget.ledger budget.spent
  { budget with ledger := left.1, spent := left.2 }

def revokeBytesWritten (now : Int) (budget : Budget) : Int := (trim now budget).spent

/-- A charge now. Entries of one millisecond merge. -/
def noteRevokeBytes (bytes now : Int) (budget : Budget) : Budget :=
  if 0 < bytes then
    let trimmed := trim now budget
    let ledger :=
      match trimmed.ledger.getLast? with
      | some last =>
        if last.dated = now then
          trimmed.ledger.dropLast ++ [{ last with bytes := last.bytes + bytes }]
        else trimmed.ledger ++ [⟨now, bytes⟩]
      | none => trimmed.ledger ++ [⟨now, bytes⟩]
    { trimmed with ledger := ledger, spent := trimmed.spent + bytes }
  else budget

variable (config : Config)

def Config.frameBytes : Int := config.bytesPerChange + FRAME_HEADER

/-- W, the most a row is charged at. -/
def Config.revokeChangeCeiling : Int := REVOKE_CHANGE_CEILING_FRAMES * config.frameBytes

/-- C, seeded at its ceiling. -/
def revokeCostPerChange (budget : Budget) : ℚ :=
  budget.cost.getD config.revokeChangeCeiling

/-- One measurement into C. -/
def noteRevokeCost (bytes rows : ℚ) (budget : Budget) : Budget :=
  if ¬ 0 < rows ∨ ¬ 0 < bytes then budget
  else
    let ceiling : ℚ := config.revokeChangeCeiling
    let remembered := rounded (revokeCostPerChange config budget * REVOKE_COST_MEMORY_ROWS)
    let averaged := rounded (rounded (remembered + bytes) / rounded (REVOKE_COST_MEMORY_ROWS + rows))
    { budget with cost := some (max (ceiling * REVOKE_COST_FLOOR) (min ceiling averaged)) }

def Config.revokeMinuteChanges : Int :=
  max 0 ⌊rounded (config.bytesPerMinute / config.revokeChangeCeiling)⌋

/-- Rows a slice needs room for; `flip` is what the oldest waiting flip costs. An owner's inline walk
never drains the flips. -/
def needRows (flip : Nat) (isInline : Bool) : Int :=
  max (MARKER_STEP_RESERVE + MIN_SLICE_CHANGES) (if isInline then 0 else flip)

def revokeSliceNeed (flip : Nat) (budget : Budget) : Int :=
  min ⌈rounded (revokeCostPerChange config budget * needRows flip false)⌉ config.bytesPerMinute

/-- The loop over the entries: the first whose end leaves room. -/
def waitFrom (need now : Int) : List Entry → (used : Int) → Int
  | [], _ => REVOKE_WRITE_WINDOW_MS
  | entry :: rest, used =>
    if used - entry.bytes + need ≤ config.bytesPerMinute then
      max 1 (entry.dated + REVOKE_WRITE_WINDOW_MS - now)
    else waitFrom need now rest (used - entry.bytes)

/-- Milliseconds until `need` bytes fit in the minute. -/
def revokeWriteWaitMs (need now : Int) (budget : Budget) : Int :=
  let trimmed := trim now budget
  if trimmed.spent + need ≤ config.bytesPerMinute then 0
  else waitFrom config need now trimmed.ledger trimmed.spent

def roomOf (budget : Budget) : Int :=
  ⌊rounded ((config.bytesPerMinute - budget.spent : Int) / revokeCostPerChange config budget)⌋

/-- The rows a slice is admitted with: the room there is, or what one flip costs that an empty minute
does not hold. -/
def admission (flip : Nat) (isInline : Bool) (budget : Budget) : Option Int :=
  let room := roomOf config budget
  let need := needRows flip isInline
  if room < need then
    if budget.spent = 0 ∧ isInline = false ∧ need = flip ∧ config.revokeMinuteChanges < need then
      some need
    else none
  else some room

/-- A slice that runs: its charge, at the cost it was admitted with. -/
def sliceBytes (changed : Nat) (budget : Budget) : Int :=
  ⌈rounded (changed * revokeCostPerChange config budget)⌉

/-- One slice from `start` to `finish`. The marker is what it changes, given the rows it may change;
no answer is the refusal for want of room. -/
def budgetedMarkerSlice (flip : Nat) (isInline : Bool) (marker : Int → Nat) (start finish : Int)
    (budget : Budget) : Budget × Option Nat :=
  let trimmed := trim start budget
  let seeded := { trimmed with cost := some (revokeCostPerChange config trimmed) }
  match admission config flip isInline seeded with
  | none => (seeded, none)
  | some room =>
    let changed := marker (room - MARKER_STEP_RESERVE)
    if 0 < changed then
      (noteRevokeBytes (sliceBytes config changed seeded) finish seeded, some changed)
    else (seeded, some changed)

end Murage.RevokeBudget
