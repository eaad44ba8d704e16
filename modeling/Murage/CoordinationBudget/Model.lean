import Mathlib
import Murage.Library.OrderedMap
import Murage.Library.Transition

/-!
Owns the allowance for handing work on: the roots that are kept in a file, those that wait in
memory for their first handoff, what begins a root, what advances one and what a start reads.

Does not own: which turns ask for it, and the words of a refusal.
-/

namespace Murage.CoordinationBudget

open Murage.Library

/-- A text in UTF-16 code units. -/
abbrev Id := List UInt16

def MAX_COORDINATION_DEPTH : Nat := 2
def MAX_HANDOFFS_PER_ROOT : Nat := 32
def MAX_ROOTS : Nat := 4096
def LIFETIME : Int := 24 * 60 * 60000
def MAX_FILE_BYTES : Nat := 8 * 1024 * 1024

/-- `z.string().min(1).max(180)` -/
def isId (id : Id) : Bool := 1 ≤ id.length && id.length ≤ 180

structure CoordinationTrace where
  rootId : Id
  path : List Id
deriving DecidableEq, Repr

/-- `coordinationTraceSchema` -/
def CoordinationTrace.isValid (trace : CoordinationTrace) : Bool :=
  isId trace.rootId && trace.path.all isId && 1 ≤ trace.path.length && trace.path.length ≤ 3

structure Root where
  id : Id
  owner : Id
  expiresAt : Int
  paths : List (List Id)
deriving DecidableEq, Repr

/-- `rootSchema` -/
def Root.isValid (root : Root) : Bool :=
  isId root.id && isId root.owner && root.paths.length ≤ MAX_HANDOFFS_PER_ROOT &&
    root.paths.all fun path => path.all isId && 2 ≤ path.length && path.length ≤ 3

/-- `stateSchema` -/
def isState (roots : List Root) : Bool := roots.length ≤ MAX_ROOTS && roots.all Root.isValid

/-! ## The size of the file -/

/-- The bytes of a text between quotes in JSON: escapes are ASCII, a lone half of a surrogate pair
is escaped. -/
def unitBytes : Id → Nat
  | [] => 0
  | c :: rest =>
    if c = 0x22 ∨ c = 0x5c ∨ c = 8 ∨ c = 9 ∨ c = 10 ∨ c = 12 ∨ c = 13 then 2 + unitBytes rest
    else if c < 0x20 then 6 + unitBytes rest
    else if c < 0x80 then 1 + unitBytes rest
    else if c < 0x800 then 2 + unitBytes rest
    else if c < 0xd800 ∨ 0xe000 ≤ c then 3 + unitBytes rest
    else
      match rest with
      | d :: beyond =>
        if c < 0xdc00 ∧ 0xdc00 ≤ d ∧ d < 0xe000 then 4 + unitBytes beyond
        else 6 + unitBytes (d :: beyond)
      | [] => 6

def textBytes (id : Id) : Nat := 2 + unitBytes id

/-- Parts between brackets, with a comma between each two. -/
def listBytes (parts : List Nat) : Nat := 2 + parts.sum + (parts.length - 1)

def Root.bytes (root : Root) : Nat :=
  "\x7b\"id\":,\"owner\":,\"expiresAt\":,\"paths\":\x7d".length + textBytes root.id +
    textBytes root.owner + (toString root.expiresAt).length +
    listBytes (root.paths.map fun path => listBytes (path.map textBytes))

/-- `JSON.stringify`, in bytes. -/
def fileBytes (roots : List Root) : Nat :=
  "\x7b\"version\":1,\"roots\":\x7d".length + listBytes (roots.map Root.bytes)

/-! ## The state -/

/-- A root of a turn that has not handed off yet. -/
structure Waiting where
  owner : Id
  expiresAt : Int
deriving DecidableEq, Repr

structure State where
  roots : List Root
  pending : OrderedMap Id Waiting
  file : Option (List Root)

/-- Whether a start takes what the file holds. -/
def isLoaded (roots : List Root) : Bool :=
  fileBytes roots ≤ MAX_FILE_BYTES && isState roots && decide ((roots.map Root.id).Nodup)

/-- The constructor. A file that cannot be used is set aside, unless that fails too. -/
def start (file : Option (List Root)) (readable renamed : Bool) : State :=
  match file with
  | none => { roots := [], pending := ∅, file := none }
  | some roots =>
    if readable && isLoaded roots then { roots := roots, pending := ∅, file := file }
    else { roots := [], pending := ∅, file := if renamed then none else file }

/-- Why a call throws. -/
inductive Refusal where
  | invalid
  | ownerMismatch
  | unavailable
  | rootLimit
  | ancestry
  | cycle
  | depthLimit
  | exhausted
  | saveFailed
deriving DecidableEq, Repr

namespace State

def live (st : State) (now : Int) (rootId : Id) : Option Root :=
  st.roots.find? fun root => root.id = rootId && now < root.expiresAt

/-- The owner and the expiry of the record that `begin` finds. -/
def prior (st : State) (now : Int) (rootId : Id) : Option Waiting :=
  match st.live now rootId with
  | some root => some ⟨root.owner, root.expiresAt⟩
  | none => st.pending.get rootId

def unexpired (st : State) (now : Int) : OrderedMap Id Waiting :=
  st.pending.filter fun entry => now < entry.2.expiresAt

/-- A new root waits; the oldest ones go while there are too many. -/
def await (st : State) (now : Int) (owner rootId : Id) : State :=
  let waiting := st.unexpired now
  let room := waiting.drop (waiting.entries.length - (MAX_ROOTS - 1))
  { st with pending := room.set rootId ⟨owner, now + LIFETIME⟩ }

def begin (st : State) (now : Int) (owner rootId : Id) : State × Except Refusal CoordinationTrace :=
  if isId owner = false ∨ isId rootId = false then (st, .error .invalid)
  else
    match st.prior now rootId with
    | some prior =>
      if prior.owner ≠ owner then (st, .error .ownerMismatch) else (st, .ok ⟨rootId, [owner]⟩)
    | none => (st.await now owner rootId, .ok ⟨rootId, [owner]⟩)

/-- The write, and the new roots only when it succeeds. -/
def save (st : State) (next : List Root) (written : Bool) : State × Except Refusal Unit :=
  if isState next = false then (st, .error .invalid)
  else if written then ({ st with roots := next, file := some next }, .ok ())
  else (st, .error .saveFailed)

/-- An advance whose checks have passed: its root, the path it adds, what is saved, and whether
the root is promoted from those that wait. -/
structure Admission where
  root : Root
  path : List Id
  next : List Root
  promoting : Bool

def addPath (rootId : Id) (path : List Id) : List Root → List Root
  | [] => []
  | root :: rest =>
    if root.id = rootId then { root with paths := root.paths ++ [path] } :: rest
    else root :: addPath rootId path rest

/-- The root that the first handoff of a waiting turn makes. -/
def promoted (st : State) (now : Int) (trace : CoordinationTrace) : Option Root :=
  match st.live now trace.rootId, st.pending.get trace.rootId with
  | none, some waiting =>
    if now < waiting.expiresAt ∧ trace.path = [waiting.owner] then
      some { id := trace.rootId, owner := waiting.owner, expiresAt := waiting.expiresAt, paths := [] }
    else none
  | _, _ => none

def admits (root : Root) (trace : CoordinationTrace) (sender target : Id) : Except Refusal Unit :=
  if trace.path.head? ≠ some root.owner ∨ trace.path.getLast? ≠ some sender then .error .unavailable
  else if 1 < trace.path.length ∧ root.paths.contains trace.path = false then .error .ancestry
  else if trace.path.contains target then .error .cycle
  else if MAX_COORDINATION_DEPTH < trace.path.length then .error .depthLimit
  else if MAX_HANDOFFS_PER_ROOT ≤ root.paths.length then .error .exhausted
  else if isId target = false then .error .invalid
  else .ok ()

def checkAdvance (st : State) (now : Int) (trace : CoordinationTrace) (sender target : Id) :
    Except Refusal Admission :=
  if trace.isValid = false then .error .unavailable
  else
    let path := trace.path ++ [target]
    match st.live now trace.rootId, st.promoted now trace with
    | some root, _ =>
      match admits root trace sender target with
      | .error refusal => .error refusal
      | .ok () => .ok ⟨root, path, addPath root.id path st.roots, false⟩
    | none, some root =>
      let live := st.roots.filter fun item => now < item.expiresAt
      if MAX_ROOTS ≤ live.length then .error .rootLimit
      else
        match admits root trace sender target with
        | .error refusal => .error refusal
        | .ok () => .ok ⟨root, path, live ++ [{ root with paths := [path] }], true⟩
    | none, none => .error .unavailable

def advance (st : State) (now : Int) (trace : Option CoordinationTrace) (sender target : Id)
    (written : Bool) : State × Except Refusal CoordinationTrace :=
  match trace with
  | none => (st, .error .unavailable)
  | some trace =>
    match st.checkAdvance now trace sender target with
    | .error refusal => (st, .error refusal)
    | .ok admission =>
      match st.save admission.next written with
      | (st, .error refusal) => (st, .error refusal)
      | (st, .ok ()) =>
        ({ st with pending := if admission.promoting then st.pending.erase trace.rootId
            else st.pending },
          .ok ⟨admission.root.id, admission.path⟩)

end State

/-! ## Runs -/

inductive Event where
  | begin (owner rootId : Id)
  | advance (trace : Option CoordinationTrace) (sender target : Id) (written : Bool)
  | clock (now : Int)
  | restart (readable renamed : Bool)
deriving DecidableEq, Repr

/-- A trace that `begin` returned, and one that `advance` returned on a root. -/
inductive Observed where
  | began (rootId owner : Id)
  | advanced (root : Root) (path : List Id)
deriving DecidableEq, Repr

structure World where
  state : State
  now : Int
  log : List Observed

def World.start (now : Int) : World := ⟨CoordinationBudget.start none true true, now, []⟩

def advanceSeen (st : State) (now : Int) (trace : Option CoordinationTrace) (sender target : Id)
    (written : Bool) : List Observed :=
  match (st.advance now trace sender target written).2, trace with
  | .ok _, some trace =>
    match st.checkAdvance now trace sender target with
    | .ok admission => [.advanced admission.root admission.path]
    | .error _ => []
  | _, _ => []

def World.next (world : World) : Event → World
  | .begin owner rootId =>
    let done := world.state.begin world.now owner rootId
    { world with
      state := done.1
      log := world.log ++
        match done.2 with
        | .ok _ => [.began rootId owner]
        | .error _ => [] }
  | .advance trace sender target written =>
    { world with
      state := (world.state.advance world.now trace sender target written).1
      log := world.log ++ advanceSeen world.state world.now trace sender target written }
  | .clock now => { world with now := now }
  | .restart readable renamed =>
    { world with state := CoordinationBudget.start world.state.file readable renamed }

end Murage.CoordinationBudget
