import Murage.Library.Transition

/-!
Owns the queue of removed devices that the companion reports: what an add, a run over the queue,
the answer to a send, the end of a run, the retry timer and a start from the saved file do, and
what can be observed of them.

Does not own: the request that a send makes.
-/

namespace Murage.PushRevocations

abbrev Id := String

def MAX : Nat := 200

def deviceChar (c : Char) : Bool :=
  ('A' ≤ c && c ≤ 'Z') || ('a' ≤ c && c ≤ 'z') || ('0' ≤ c && c ≤ '9') || c == '_' || c == '-'

/-- `DEVICE_ID` -/
def isDeviceId (id : Id) : Bool :=
  let chars := id.toList
  !chars.isEmpty && chars.length ≤ 128 && chars.all deviceChar

/-- How a send is settled: it answers, throws, or is late. -/
inductive Outcome where
  | answered (sent : Bool)
  | thrown
  | late
deriving DecidableEq, Repr

def Outcome.sent : Outcome → Bool
  | .answered sent => sent
  | .thrown | .late => false

/-- A run over the queue. Without `inFlight` its loop is over, and what comes after it has not
happened yet. -/
structure Running where
  tried : List Id
  inFlight : Option Id
deriving DecidableEq, Repr

/-- `file`: the ids that are saved, none when there is no file that can be read. -/
structure State where
  ids : List Id
  file : Option (List Id)
  timer : Bool := false
  running : Option Running := none
  addedDuringSend : Bool := false
deriving DecidableEq, Repr

inductive Observed where
  | added (id : Id)
  | began (id : Id)
  | returned (id : Id) (sent : Bool)
  | runBegan
  | restarted
deriving DecidableEq, Repr

/-- `slice(-MAX)` -/
def newest (ids : List Id) : List Id := ids.drop (ids.length - MAX)

def load (file : Option (List Id)) : List Id := newest ((file.getD []).filter isDeviceId)

/-- `createPushRevocations` -/
def create (file : Option (List Id)) : State where
  ids := load file
  file := file

@[simp] theorem create_ids (file : Option (List Id)) : (create file).ids = load file := by
  rw [create]

@[simp] theorem create_file (file : Option (List Id)) : (create file).file = file := by
  rw [create]

namespace State

/-- `written`: whether the write succeeds. A failed one is ignored. -/
def save (st : State) (written : Bool) : State :=
  if written then { st with file := some st.ids } else st

def schedule (st : State) : State :=
  if st.timer ∨ st.ids = [] then st else { st with timer := true }

/-- The loop of a run, up to its next send or its end. -/
def advance (st : State) (tried : List Id) : State × List Observed :=
  match st.ids.find? (!tried.contains ·) with
  | none => ({ st with running := some ⟨tried, none⟩ }, [])
  | some id =>
    ({ st with
      running := some ⟨tried ++ [id], some id⟩
      addedDuringSend := false }, [.began id])

/-- A run begins: every id gets one attempt. -/
def startRun (st : State) : State × List Observed :=
  let (st, seen) := st.advance []
  (st, .runBegan :: seen)

def flush (st : State) : State × List Observed :=
  match st.running with
  | some _ => (st, [])
  | none => st.startRun

def inFlight (st : State) : Option Id := st.running.bind (·.inFlight)

/-- An id is queued, and when its own send is on the wire that send will not clear it. -/
def enqueue (st : State) (id : Id) : State :=
  { st with
    addedDuringSend := st.addedDuringSend || st.inFlight == some id
    ids := if st.ids.contains id then st.ids else newest (st.ids ++ [id]) }

def add (st : State) (id : Id) (written : Bool) : State × List Observed :=
  if isDeviceId id then
    let (st, seen) := ((st.enqueue id).save written).flush
    (st, .added id :: seen)
  else (st, [])

/-- The send of `id` is settled. -/
def settle (st : State) (tried : List Id) (id : Id) (sent written : Bool) :
    State × List Observed :=
  let (st, seen) :=
    if st.addedDuringSend then
      -- still queued either way; after a success it is tried again now
      st.advance (if sent then tried.filter (· ≠ id) else tried)
    else if sent then
      ({ st with ids := st.ids.filter (· ≠ id) }.save written).advance tried
    else st.advance tried
  (st, .returned id sent :: seen)

/-- What comes after the loop of a run. -/
def finish (st : State) (tried : List Id) : State × List Observed :=
  if st.ids.any (!tried.contains ·) then st.startRun
  else ({ st with running := none }.schedule, [])

end State

inductive Event where
  | add (id : Id) (written : Bool)
  | flush
  | settle (outcome : Outcome) (written : Bool)
  | finish
  | retry
  | restart
deriving DecidableEq, Repr

/-- What an event does, none where it cannot happen. -/
def State.handle (st : State) : Event → Option (State × List Observed)
  | .add id written => some (st.add id written)
  | .flush => some st.flush
  | .settle outcome written =>
    match st.running with
    | some ⟨tried, some id⟩ => some (st.settle tried id outcome.sent written)
    | _ => none
  | .finish =>
    match st.running with
    | some ⟨tried, none⟩ => some (st.finish tried)
    | _ => none
  | .retry => if st.timer then some { st with timer := false }.flush else none
  | .restart => some (create st.file, [.restarted])

/-- The queue with all that was observed of it, oldest first. -/
structure World where
  state : State
  log : List Observed
deriving DecidableEq, Repr

def World.start (file : Option (List Id)) : World := ⟨create file, []⟩

def World.next (world : World) (event : Event) : Option World :=
  (world.state.handle event).map fun done => ⟨done.1, world.log ++ done.2⟩

def step (world : World) (event : Event) (after : World) : Prop := world.next event = some after

instance (world : World) (event : Event) (after : World) : Decidable (step world event after) :=
  inferInstanceAs (Decidable (_ = _))

end Murage.PushRevocations
