import Murage.BotCalls.Model
import Murage.Library.Transition

/-!
Owns the system of the bot calls: the transactions that were committed, the sweeps and the
boot as several of them, and a process that stops between any two.

Does not own: what holds of its runs.
-/

namespace Murage.BotCalls

/-- A transaction: what was stored before and after it, the effects that stand, whether it
threw, and whether it is the fence of a restore. -/
structure Record where
  before : Db
  after : Db
  effects : List Effect
  threw : Bool
  restores : Bool

/-- What is stored, how many random ids were drawn, and every transaction, oldest first. -/
structure System where
  db : Db := {}
  drawn : Nat := 0
  history : List Record := []

namespace System

variable {α : Type}

def commit (s : System) (fx : CallEffects) (restores : Bool) (operation : Except String (Body α)) :
    System × Except String α :=
  let ended := inTransaction s.db fx operation
  ({ s with
      db := ended.db
      history := s.history ++
        [{ before := s.db
           after := ended.db
           effects := ended.effects
           threw := !ended.value.isOk
           restores := restores }] },
    ended.value)

def draw (s : System) (count : Nat) : System := { s with drawn := s.drawn + count }

end System

/-! ## A process -/

/-- A process, and how many transactions it still makes before it stops. -/
structure Process where
  system : System
  left : Nat

namespace Process

variable {α : Type}

/-- One more transaction, none when the process has stopped. -/
def attempt (p : Process) (fx : CallEffects) (operation : Db → Except String (Body α)) :
    Process × Option (Except String α) :=
  match p.left with
  | 0 => (p, none)
  | left + 1 =>
    let (system, value) := p.system.commit fx false (operation p.system.db)
    ({ system := system, left := left }, some value)

/-- One more transaction, whose error leaves the loop it is made in. -/
def run (p : Process) (fx : CallEffects) (operation : Db → Except String (Body α)) :
    Process × Option α :=
  match p.attempt fx operation with
  | (p, some (.ok value)) => (p, some value)
  | (p, some (.error _)) => ({ p with left := 0 }, none)
  | (p, none) => (p, none)

end Process

section

variable (uuid : Nat → String) (fx : CallEffects)

/-! ## The sweep -/

def sweepRow (now : Int) (acc : Process × List String) (row : CallSession) :
    Process × List String :=
  let (p, ended) := acc.1.run fx fun db => .ok (endSession db row.callId (silentEnd row now) now)
  (p, if ended.any (·.1) then acc.2 ++ [row.callId] else acc.2)

def silentSessions (db : Db) (now : Int) : List CallSession :=
  ((db.sessions.filter fun s => decide (s.endedAt = none) &&
    (decide (s.lastSeenAt < now - CALL_PROTOCOL.silenceEndsMs) || decide (s.backstopAt ≤ now))).mergeSort
      fun a b => decide (a.lastSeenAt ≤ b.lastSeenAt)).take PAGE

/-- A page is as many rows as there are. -/
def sweepSessions (now : Int) : Nat → Process → Process × List String
  | 0, p => (p, [])
  | pages + 1, p =>
    let rows := silentSessions p.system.db now
    let swept := rows.foldl (sweepRow fx now) (p, [])
    if rows.length < PAGE ∨ swept.1.left = 0 then swept
    else
      let later := sweepSessions now pages swept.1
      (later.1, swept.2 ++ later.2)

/-! ## Owed admissions -/

/-- What an owed row admits, none when its source cannot be read. -/
abbrev OwedMatch := Option (List Admission)

def admitAll (now : Int) (drawn : Nat) (db : Db) : List Admission → Body (List String)
  | [] => { db := db, value := [] }
  | a :: rest =>
    let first := admitIntent db a (uuid drawn) now
    let later := admitAll now (drawn + 1) first.db rest
    { db := later.db, value := first.value.toList ++ later.value }

/-- One owed row: what its source matches is admitted and the row goes. `onDamaged` may
throw. -/
def drainRow (found : OwedRow → OwedMatch) (onDamaged : OwedRow → Option String) (now : Int)
    (drawn : Nat) (row : OwedRow) (db : Db) : Except String (Body (List String)) :=
  if !db.owed.any fun other => other.factKey == row.factKey && other.settledAt.isSome then
    .ok { db := db, value := [] }
  else
    let gone (after : Db) : Db :=
      { after with owed := after.owed.filter fun other => !(other.factKey == row.factKey) }
    match found row with
    | some admissions =>
      let admitted := admitAll uuid now drawn db admissions
      .ok { db := gone admitted.db, value := admitted.value }
    | none =>
      match onDamaged row with
      | some error => .error error
      | none => .ok { db := gone db, value := [] }

/-- What a boot is told. `journal` are the facts that are admitted again. -/
structure BootDeps where
  threadRunning : String → Bool
  newestAt : String → Option Int
  found : OwedRow → OwedMatch
  onDamaged : OwedRow → Option String
  journal : List Admission

/-- A drain: its process, what it admitted, and whether it goes on. -/
structure Drain where
  process : Process
  admitted : List String := []
  goes : Bool := true

def drainOwedRow (deps : BootDeps) (now : Int) (acc : Drain) (row : OwedRow) : Drain :=
  if acc.goes = false then acc
  else
    let (p, outcome) := acc.process.attempt fx
      (drainRow uuid deps.found deps.onDamaged now acc.process.system.drawn row)
    let p := { p with system := p.system.draw ((deps.found row).getD []).length }
    match outcome with
    | some (.ok admitted) => { acc with process := p, admitted := acc.admitted ++ admitted }
    | some (.error _) => { acc with process := p, goes := false }
    | none => { acc with process := p }

def settledOwed (db : Db) : List OwedRow :=
  ((db.owed.filter (·.settledAt.isSome)).mergeSort fun a b =>
    decide (a.settledAt.getD 0 < b.settledAt.getD 0) ||
      (decide (a.settledAt.getD 0 = b.settledAt.getD 0) && decide (a.factKey ≤ b.factKey))).take PAGE

/-- A row whose transaction throws stays owed, and the drain ends. -/
def drainOwed (deps : BootDeps) (now : Int) : Nat → Drain → Drain
  | 0, acc => acc
  | pages + 1, acc =>
    let rows := settledOwed acc.process.system.db
    let drained := rows.foldl (drainOwedRow uuid fx deps now) acc
    if rows.length < PAGE ∨ drained.goes = false ∨ drained.process.left = 0 then drained
    else drainOwed deps now pages drained

/-! ## The boot -/

structure BootReconcile where
  redecide : List (String × Nat) := []
  timers : List (String × Int) := []
  missed : List String := []
  late : List String := []
  admitted : List String := []

def graceSessions (db : Db) (now : Int) : Db :=
  { db with
    sessions := db.sessions.map fun session =>
      if session.endedAt = none then { session with lastSeenAt := now } else session }

def settleArmed (deps : BootDeps) (now : Int) (row : OwedRow) (db : Db) : Db :=
  if deps.threadRunning row.threadId then db
  else
    { db with
      owed := db.owed.map fun other =>
        if other.factKey = row.factKey ∧ other.settledAt = none then
          { other with settledAt := some ((deps.newestAt row.threadId).getD now) }
        else other }

def lateDecision : Decision :=
  .done .late
    [{ check := "fresh"
       result := "late"
       detail := some "deadline_passed_while_down" }]

def bootRow (now : Int) (acc : Process × BootReconcile) (row : CallIntent) :
    Process × BootReconcile :=
  let (p, out) := acc
  match row.state with
  | .pending =>
    let (p, gen) := p.run fx fun db => .ok (bumpGen db row.id)
    (p, { out with redecide := out.redecide ++ (gen.join.map fun gen => (row.id, gen)).toList })
  | .waiting =>
    if row.deadlineAt.all fun at_ => decide (at_ ≤ now) then
      let (p, applied) := p.run fx fun db =>
        .ok (applyEscalation db row.id row.gen (fun _ => lateDecision) now)
      (p, if applied.join.isSome then { out with late := out.late ++ [row.id] } else out)
    else
      (p, { out with timers := out.timers ++ (row.deadlineAt.map fun at_ => (row.id, at_)).toList })
  | .ringing =>
    let (p, ended) := p.run fx fun db => .ok (endRing db row.id .missed now true)
    (p, if ended = some true then { out with missed := out.missed ++ [row.id] } else out)
  | .live => (p, out)
  | .done => (p, out)

/-- A page of the intents that are not done, past an id. -/
def openIntents (db : Db) (after : String) : List CallIntent :=
  ((db.intents.filter fun intent => decide (intent.state ≠ .done) && decide (after < intent.id)).mergeSort
    fun a b => decide (a.id ≤ b.id)).take PAGE

def walkIntents (now : Int) : Nat → String → Process × BootReconcile → Process × BootReconcile
  | 0, _, acc => acc
  | pages + 1, after, acc =>
    let rows := openIntents acc.1.system.db after
    let walked := rows.foldl (bootRow fx now) acc
    if rows.length < PAGE ∨ walked.1.left = 0 then walked
    else walkIntents now pages ((rows.getLast?.map (·.id)).getD after) walked

def readmitRow (now : Int) (acc : Process × List String) (a : Admission) : Process × List String :=
  let (p, id) := acc.1.run fx fun db => .ok (admitIntent db a (uuid acc.1.system.drawn) now)
  ({ p with system := p.system.draw 1 }, acc.2 ++ id.join.toList)

def bootReconcile (deps : BootDeps) (now : Int) (p : Process) : Process × BootReconcile :=
  let (p, _) := p.run fx fun db => .ok { db := graceSessions db now, value := () }
  let armed := p.system.db.owed.filter (·.settledAt.isNone)
  let p := armed.foldl
    (fun p row => (p.run fx fun db => .ok { db := settleArmed deps now row db, value := () }).1) p
  let drained := drainOwed uuid fx deps now (p.system.db.owed.length + 1) { process := p }
  let (p, again) := deps.journal.foldl (readmitRow uuid fx now) (drained.process, [])
  walkIntents fx now (p.system.db.intents.length + 1) "" (p, { admitted := drained.admitted ++ again })

/-! ## Steps -/

inductive Op where
  | admitIntent (a : Admission) (now : Int)
  | applyInitial (id : String) (gen : Nat) (decision : CallIntent → Decision) (now : Int)
  | applyEscalation (id : String) (gen : Nat) (decision : CallIntent → Decision) (now : Int)
  | bumpGen (id : String)
  | markSeen (id : String) (now : Int)
  | answerCall (id device principal : String) (now : Int)
  | declineCall (id : String) (text : Bool) (now : Int)
  | missCall (id : String) (now : Int)
  | openOwnerSession (botId threadId device principal : String) (now : Int)
  | touchSession (callId : String) (now : Int)
  | endSession (callId : String) (endedBy : SessionEnd) (now : Int)
  /-- A sweep whose process stops after `left` transactions. -/
  | sweepSessions (now : Int) (left : Nat)
  | cancelBotCalls (scope : CancelScope) (reason : CancelReason) (now : Int)
  /-- A boot whose process stops after `left` transactions. -/
  | bootReconcile (deps : BootDeps) (now : Int) (left : Nat)
  | fenceRestoredBotCalls (generation : String) (now : Int)
  /-- A pruning whose process stops after `left` transactions. -/
  | pruneBotCalls (now : Int) (limit left : Nat)
  /-- The rules and the owed rows are written by others. -/
  | owner (rules : List CallRule) (owed : List OwedRow)

namespace System

def apply (s : System) (op : Op) : System :=
  match op with
  | .admitIntent a now =>
    ((s.draw 1).commit fx false (.ok (BotCalls.admitIntent s.db a (uuid s.drawn) now))).1
  | .applyInitial id gen decision now =>
    (s.commit fx false (.ok (BotCalls.applyInitial s.db id gen decision now))).1
  | .applyEscalation id gen decision now =>
    (s.commit fx false (.ok (BotCalls.applyEscalation s.db id gen decision now))).1
  | .bumpGen id => (s.commit fx false (.ok (BotCalls.bumpGen s.db id))).1
  | .markSeen id now => (s.commit fx false (.ok (BotCalls.markSeen s.db id now))).1
  | .answerCall id device principal now =>
    ((s.draw 2).commit fx false (BotCalls.answerCall s.db id device
      { sessionId := uuid s.drawn, callId := uuid (s.drawn + 1) } now principal)).1
  | .declineCall id text now => (s.commit fx false (.ok (BotCalls.declineCall s.db id text now))).1
  | .missCall id now => (s.commit fx false (.ok (BotCalls.missCall s.db id now))).1
  | .openOwnerSession botId threadId device principal now =>
    ((s.draw 2).commit fx false (BotCalls.openOwnerSession s.db
      { sessionId := uuid s.drawn, callId := uuid (s.drawn + 1) } botId threadId device principal
        now)).1
  | .touchSession callId now => (s.commit fx false (.ok (BotCalls.touchSession s.db callId now))).1
  | .endSession callId endedBy now =>
    (s.commit fx false (.ok (BotCalls.endSession s.db callId endedBy now))).1
  | .sweepSessions now left =>
    (BotCalls.sweepSessions fx now (s.db.sessions.length + 1) { system := s, left := left }).1.system
  | .cancelBotCalls scope reason now =>
    (s.commit fx false (BotCalls.cancelBotCalls s.db scope reason now)).1
  | .bootReconcile deps now left =>
    (BotCalls.bootReconcile uuid fx deps now { system := s, left := left }).1.system
  | .fenceRestoredBotCalls generation now =>
    (s.commit NO_CALL_EFFECTS true
      (.ok { db := BotCalls.fenceRestoredBotCalls s.db generation now, value := () })).1
  | .pruneBotCalls now limit left =>
    let p : Process := { system := s, left := left }
    let p := (p.run NO_CALL_EFFECTS fun db => .ok { db := pruneIntents db now limit, value := () }).1
    (p.run NO_CALL_EFFECTS fun db => .ok { db := pruneSessions db now limit, value := () }).1.system
  | .owner rules owed => { s with db := { s.db with rules := rules, owed := owed } }

end System

end

end Murage.BotCalls
