import Murage.Library.Binary64

/-!
Owns the state machine of the upgrade screens: the context, `reduce` with every event, and what
the strip shows of a context.

Does not own: the parser of a reading, the window's own selector and the poller's. Clocks are
whole milliseconds, figures are doubles, and what a step moved by is compared as the values
themselves.
-/

namespace Murage.UpgradeMachine

open Murage.Library.Binary64 (double)

/-! ## Readings -/

inductive Tri where
  | yes
  | no
  | unknown
  deriving DecidableEq

inductive OnOff where
  | on
  | off
  | unknown
  deriving DecidableEq

inductive Stage where
  | starting
  | background
  | blocked
  | idle
  | unknown
  deriving DecidableEq

inductive Phase where
  | none
  | unknown
  | checking
  | copying
  | migrating
  | searchIndex
  | outputIndex
  | references
  | shapes
  | learning
  | lineage
  | writetime
  | marker
  | storage
  | messageIndex
  | masking
  | settling
  deriving DecidableEq

inductive Counted where
  | messages
  | conversations
  | bytes
  | sets
  | open
  | none
  deriving DecidableEq

inductive Storage where
  | converting
  | reclaimAvailable
  | waitingForDisk
  | idle
  | unknown
  deriving DecidableEq

inductive StoredMode where
  | off
  | capture
  | active
  | paused
  | unknown
  deriving DecidableEq

structure Step where
  awakeElapsedMs : ℚ
  unit : Counted
  done : Option ℚ
  total : Option ℚ
  deriving DecidableEq

structure Counts where
  messages : Nat
  conversations : Nat
  memoryRecords : Nat
  firstMessageAt : Option ℚ
  deriving DecidableEq

/-- The bytes the shell measured for the copy. -/
structure Copy where
  done : ℚ
  total : ℚ
  deriving DecidableEq

/-- A parsed reading. `launch`, `overall` and `counts` are `none` where they are not known;
`eta` is the time left where it is stable. -/
structure UpgradeState where
  launch : Option String
  seq : Int
  stage : Stage
  phase : Phase
  overall : Option ℚ
  complete : Tri
  held : Tri
  holdKey : Option String
  capture : OnOff
  «recall» : OnOff
  storedMode : StoredMode
  counts : Option Counts
  keepOpen : Tri
  step : Step
  eta : Option ℚ
  storage : Storage
  checking : Tri

/-! ## The time left -/

def SLEEP_GAP_MS : Int := 30000
def ADVANCE_FRESH_MS : Int := 60000
def DONE_SHOWN_MS : Int := 6000
def NEUTRAL_AFTER_MS : Int := 60000
def ETA_MIN_PHASE_MS : ℚ := 5000
def ETA_MIN_FRACTION : ℚ := double (1 / 10)

/-- `Math.round`. -/
def mathRound (x : ℚ) : Int := ⌊x + 1 / 2⌋

def etaMinutes : Option ℚ → Option Int
  | none => none
  | some ms =>
    let seconds := double (ms / 1000)
    let minutes := double (seconds / 60)
    if ms < 0 then none
    else if seconds < 60 then some 0
    else if seconds < 90 then some 1
    else if seconds < 150 then some 2
    else if minutes ≤ 10 then some (mathRound minutes)
    else some (max 10 (mathRound (double (minutes / 5)) * 5))

structure Gate where
  shown : Option Int := none
  candidate : Option Int := none
  count : Nat := 0
  rises : Nat := 0
  phase : Option Phase := none
  slow : Bool := false
  deriving DecidableEq

def newGate : Gate := {}

def gateStep (gate : Gate) (phase : Phase) (etaMs : Option ℚ) : Gate :=
  -- A different phase is a different piece of work.
  let gate := if gate.phase = some phase then gate else { phase := some phase }
  match etaMinutes etaMs with
  | none => { gate with shown := none, candidate := none, count := 0 }
  | some next =>
    if gate.shown = some next then { gate with candidate := none, count := 0 }
    else
      let count := if gate.candidate = some next then gate.count + 1 else 1
      if count < 2 then { gate with candidate := some next, count := count }
      else
        let settled := { gate with candidate := none, count := 0 }
        match gate.shown with
        | none => { settled with shown := some next }
        | some shown =>
          if next < shown then { settled with shown := some next }
          else if gate.rises < 1 then
            { settled with shown := some next, rises := gate.rises + 1, slow := true }
          else settled

/-! ## The context -/

inductive Mode where
  | unknown
  | blocking
  | working
  | held
  | finishing
  | idle
  | reclaim
  deriving DecidableEq

inductive Family where
  | app
  | window
  deriving DecidableEq

/-- The figures whose change says that the work moves. -/
structure Signature where
  phase : Phase
  done : Option ℚ
  total : Option ℚ
  overall : Option ℚ
  copied : Option ℚ
  deriving DecidableEq

structure Advance where
  signature : Option Signature
  movedAt : Option Int
  deriving DecidableEq

structure Context where
  family : Family
  mode : Mode
  modeBeforeHold : Option Mode
  now : Int
  lastEventAt : Option Int
  lastGoodAt : Option Int
  launch : Option String
  retired : List String
  seq : Int
  ignored : Nat
  missed : Nat
  legacy : Bool
  overallHigh : ℚ
  overallSeen : Bool
  resumeAbove : ℚ
  runAwakeMs : Int
  stage : Stage
  phase : Phase
  step : Step
  counts : Option Counts
  copy : Option Copy
  gate : Gate
  etaMinutes : Option Int
  slow : Bool
  advance : Advance
  keepOpen : Bool
  held : Tri
  holdKey : Option String
  capture : OnOff
  «recall» : OnOff
  storedMode : StoredMode
  storage : Storage
  complete : Tri
  checking : Tri
  doneAt : Option Int
  ready : Bool
  pollNow : Bool
  suspendedAt : Option Int
  legacyWorking : Bool

def noAdvance : Advance :=
  { signature := none
    movedAt := none }

def initialContext (family : Family) : Context where
  family := family
  mode := .unknown
  modeBeforeHold := none
  now := 0
  lastEventAt := none
  lastGoodAt := none
  launch := none
  retired := []
  seq := -1
  ignored := 0
  missed := 0
  legacy := false
  overallHigh := 0
  overallSeen := false
  resumeAbove := -1
  runAwakeMs := 0
  stage := .unknown
  phase := .unknown
  step :=
    { awakeElapsedMs := 0
      unit := .none
      done := none
      total := none }
  counts := none
  copy := none
  gate := newGate
  etaMinutes := none
  slow := false
  advance := noAdvance
  keepOpen := true
  held := .unknown
  holdKey := none
  capture := .unknown
  «recall» := .unknown
  storedMode := .unknown
  storage := .unknown
  complete := .unknown
  checking := .unknown
  doneAt := none
  ready := false
  pollNow := false
  suspendedAt := none
  legacyWorking := false

def Mode.isWorking (mode : Mode) : Bool := mode = .blocking || mode = .working

/-- More work in the same launch. The high-water mark stays. -/
def startRun (ctx : Context) : Context :=
  { ctx with
    overallSeen := false
    resumeAbove := if ctx.overallSeen then ctx.overallHigh else -1
    runAwakeMs := 0
    gate := newGate
    etaMinutes := none
    slow := false
    advance := noAdvance
    doneAt := none
    ready := false
    complete := .unknown }

/-- `slice(-8)`. -/
def lastEight (launches : List String) : List String := launches.drop (launches.length - 8)

def newLaunch (ctx : Context) (launch : String) : Context :=
  { initialContext ctx.family with
    launch := some launch
    retired := lastEight (ctx.retired ++ ctx.launch.toList)
    now := ctx.now
    lastEventAt := ctx.lastEventAt
    pollNow := ctx.pollNow
    ignored := ctx.ignored }

def forgetEstimates (ctx : Context) : Context :=
  { ctx with
    gate := newGate
    etaMinutes := none
    advance := noAdvance }

/-- Moves the clock. A long gap is the computer asleep. -/
def touch (ctx : Context) (time : Int) : Context :=
  let moved := { ctx with now := time }
  let slept :=
    match ctx.lastEventAt with
    | none => moved
    | some last =>
      if SLEEP_GAP_MS < time - last then forgetEstimates moved
      else if ctx.mode.isWorking then { moved with runAwakeMs := ctx.runAwakeMs + max 0 (time - last) }
      else moved
  { slept with lastEventAt := some time }

/-! ## A reading -/

def resolveKeepOpen (reading : UpgradeState) (ctx : Context) : Bool :=
  match reading.keepOpen with
  | .yes => true
  | .no => false
  | .unknown => if reading.stage = .idle then ctx.keepOpen else true

/-- Held wins, not held clears, and unknown leaves what was known. -/
def heldAfter (ctx : Context) (s : UpgradeState) : Tri × Option String :=
  match s.held with
  | .yes => (.yes, s.holdKey)
  | .no => (.no, none)
  | .unknown => if ctx.held = .yes then (.yes, ctx.holdKey) else (.unknown, none)

def Stage.isPending (stage : Stage) : Bool :=
  stage = .starting || stage = .blocked || stage = .background

def modeAfter (ctx : Context) (s : UpgradeState) (held : Tri) : Mode × Option Mode × Context :=
  if held = .yes then
    (.held, if ctx.mode ≠ .held then some ctx.mode else ctx.modeBeforeHold, ctx)
  else if s.complete = .yes then
    (if ctx.mode.isWorking || ctx.mode = .held || ctx.mode = .finishing then .finishing else .idle,
      ctx.modeBeforeHold, ctx)
  else if s.stage.isPending then
    (if s.stage = .background then .working else .blocking, ctx.modeBeforeHold,
      if ctx.mode = .idle ∨ ctx.mode = .finishing ∨ ctx.mode = .reclaim then startRun ctx else ctx)
  else if ctx.mode = .held then
    (match ctx.modeBeforeHold with
      | some before => if before ≠ .held then before else .working
      | none => .working, ctx.modeBeforeHold, ctx)
  else (ctx.mode, ctx.modeBeforeHold, ctx)

def readInto (run : Context) (s : UpgradeState) (copy : Option Copy) (time : Int) (sameLaunch : Bool)
    (mode : Mode) (modeBeforeHold : Option Mode) (held : Tri) (holdKey : Option String) : Context :=
  { run with
    mode := mode
    modeBeforeHold := if mode = .held then modeBeforeHold else none
    held := held
    holdKey := holdKey
    capture := if held = .yes then .off else s.capture
    «recall» := if held = .yes then .off else s.recall
    storedMode := if s.storedMode ≠ .unknown then s.storedMode else run.storedMode
    storage := if s.storage ≠ .unknown then s.storage else run.storage
    checking := if s.checking ≠ .unknown then s.checking else run.checking
    stage := s.stage
    phase := s.phase
    step :=
      if sameLaunch && decide (s.phase = run.phase) &&
          decide (s.step.awakeElapsedMs < run.step.awakeElapsedMs) then
        { s.step with awakeElapsedMs := run.step.awakeElapsedMs }
      else s.step
    counts := if s.counts.isSome then s.counts else run.counts
    complete := s.complete
    lastGoodAt := some time
    legacy := false
    missed := if !s.stage.isPending && s.complete ≠ .yes then run.missed + 1 else 0
    copy := copy
    keepOpen := if mode = .finishing ∨ mode = .idle then false else resolveKeepOpen s run
    doneAt := if mode = .finishing ∧ run.doneAt = none then some time else run.doneAt }

/-- The percent is a mark of the launch, moved only by a reading of the known launch. -/
def accrue (ctx : Context) (sameLaunch : Bool) (overall : Option ℚ) : Context :=
  match overall with
  | some figure =>
    if sameLaunch then
      { ctx with
        overallHigh := max ctx.overallHigh figure
        overallSeen := ctx.overallSeen || decide (ctx.resumeAbove < figure) }
    else ctx
  | none => ctx

def believedEta (s : UpgradeState) : Option ℚ :=
  let fraction : Option ℚ :=
    match s.step.done, s.step.total with
    | some done, some total =>
      if s.step.unit ≠ .none ∧ 0 < total then some (double (done / total)) else none
    | _, _ => none
  if s.step.unit ≠ .open ∧ ETA_MIN_PHASE_MS ≤ s.step.awakeElapsedMs ∧
      fraction.all (ETA_MIN_FRACTION ≤ ·) then s.eta
  else none

/-- The time left and the sense of moving. -/
def estimate (ctx : Context) (s : UpgradeState) (copy : Option Copy) (time : Int) : Context :=
  if ctx.mode.isWorking then
    let gate := gateStep ctx.gate s.phase (believedEta s)
    let signature : Signature :=
      { phase := s.phase
        done := s.step.done
        total := s.step.total
        overall := s.overall
        copied := copy.map (·.done) }
    { ctx with
      gate := gate
      etaMinutes := gate.shown
      slow := gate.slow
      advance :=
        if ctx.advance.signature = some signature then ctx.advance
        else
          { signature := some signature
            movedAt := some time } }
  else
    { ctx with
      gate := newGate
      etaMinutes := none }

def applyTo (ctx : Context) (s : UpgradeState) (copy : Option Copy) (time : Int) (sameLaunch : Bool) :
    Context :=
  let (held, holdKey) := heldAfter ctx s
  let (mode, modeBeforeHold, run) := modeAfter ctx s held
  let out := readInto run s copy time sameLaunch mode modeBeforeHold held holdKey
  estimate (accrue out sameLaunch s.overall) s copy time

def ignore (ctx : Context) : Context := { ctx with ignored := ctx.ignored + 1 }

/-- The context of a known launch: the first one is adopted, another one starts afresh. -/
def launched (ctx : Context) (launch : String) : Context :=
  match ctx.launch with
  | none => { ctx with launch := some launch }
  | some current => if current ≠ launch then newLaunch ctx launch else ctx

def applyReading (before : Context) (s : UpgradeState) (copy : Option Copy) (time : Int) : Context :=
  let ctx := touch before time
  match s.launch with
  | none => applyTo ctx s copy time false
  | some launch =>
    if launch ∈ ctx.retired then ignore ctx
    else
      let ctx := launched ctx launch
      if s.seq < ctx.seq then ignore ctx
      else applyTo { ctx with seq := s.seq } s copy time true

/-! ## Events -/

inductive Event where
  | reading (time : Int) (state : UpgradeState) (copy : Option Copy)
  | malformed (time : Int) (reason : String) (pending : Option Bool)
  | readFailed (time : Int)
  | tick (time : Int)
  | suspend (time : Int)
  | resume (time : Int)
  | listen (time : Int) (ready : Bool)
  | lifecycle (time : Option Int)
  | reconnect (time : Option Int)
  | visible (time : Option Int)
  | turn (time : Option Int)
  | pollStarted

/-- The time left is withdrawn when nothing good was read for long. -/
def withdrawn (ctx : Context) (time : Int) : Context :=
  if ctx.lastGoodAt.all (fun good => SLEEP_GAP_MS < time - good) then
    { ctx with
      gate := newGate
      etaMinutes := none }
  else ctx

/-- What a server that predates the contract says. -/
def legacyReading (out : Context) (time : Int) (pending : Option Bool) : Context :=
  if pending = some true ∧ out.mode ≠ .held then
    { out with
      mode := if out.mode.isWorking then out.mode else .working
      legacyWorking := true
      keepOpen := true
      lastGoodAt := some time
      missed := 0 }
  else if pending = some false ∧ out.legacyWorking then
    { out with
      mode := .idle
      legacyWorking := false
      lastGoodAt := some time }
  else out

def lookAgain (ctx : Context) (time : Option Int) : Context :=
  { ctx with
    now := max ctx.now (time.getD 0)
    pollNow := true }

def reduce (ctx : Context) : Event → Context
  | .reading time state copy => applyReading ctx state copy time
  | .malformed time reason pending =>
    let out := { touch ctx time with missed := ctx.missed + 1 }
    let out := if reason = "legacy" then legacyReading { out with legacy := true } time pending else out
    withdrawn out time
  | .readFailed time => withdrawn { touch ctx time with missed := ctx.missed + 1 } time
  | .tick time =>
    let out := touch ctx time
    let out :=
      if out.mode = .finishing ∧ out.doneAt.any (fun done => DONE_SHOWN_MS ≤ time - done) ∧ ¬out.ready then
        { out with mode := .idle }
      else out
    if out.lastGoodAt.any (fun good => SLEEP_GAP_MS < time - good) ∧ out.etaMinutes ≠ none then
      { out with
        gate := newGate
        etaMinutes := none }
    else out
  | .suspend time => { touch ctx time with suspendedAt := some time }
  | .resume time =>
    { forgetEstimates { ctx with now := time } with
      lastEventAt := some time
      suspendedAt := none }
  | .listen time ready =>
    { touch ctx time with
      mode := .finishing
      doneAt := some (ctx.doneAt.getD time)
      ready := ready
      keepOpen := false }
  | .lifecycle time => lookAgain ctx time
  | .reconnect time => lookAgain ctx time
  | .visible time => lookAgain ctx time
  | .turn time => lookAgain ctx time
  | .pollStarted => { ctx with pollNow := false }

/-! ## The strip -/

inductive Counter where
  | open (done : Option ℚ)
  | counted (unit : Counted) (done total : Option ℚ)
  | copied (done total : ℚ)
  deriving DecidableEq

inductive Kind where
  | hold
  | done
  | working
  deriving DecidableEq

inductive Role where
  | alert
  | status
  deriving DecidableEq

structure Strip where
  kind : Kind
  role : Role
  holdKey : Option String := none
  percent : Option Int := none
  phaseId : Option Phase := none
  left : Option Int := none
  counter : Option Counter := none
  slow : Bool := false
  neutral : Bool := false
  elapsedMs : Option ℚ := none
  deriving DecidableEq

def belowHundred (overall : ℚ) : Int :=
  ⌊double (double (min (double (99 / 100)) overall * 100) + double (1 / 10 ^ 9))⌋

def percentOf (ctx : Context) : Option Int :=
  if ctx.mode = .finishing ∧ (ctx.ready ∨ ctx.complete = .yes) then some 100
  else if ctx.overallSeen then some (belowHundred ctx.overallHigh)
  else none

def counterOf (ctx : Context) : Option Counter :=
  if ctx.step.unit = .open then some (.open ctx.step.done)
  else if ctx.step.unit ≠ .none then some (.counted ctx.step.unit ctx.step.done ctx.step.total)
  else
    match ctx.copy with
    | some copy =>
      if ctx.phase = .copying ∧ 0 < copy.total then some (.copied (min copy.done copy.total) copy.total)
      else none
    | none => none

def advancing (ctx : Context) : Bool :=
  ctx.advance.movedAt.any fun moved => ctx.now - moved ≤ ADVANCE_FRESH_MS

def stale (ctx : Context) : Bool :=
  ctx.lastGoodAt.all fun good => NEUTRAL_AFTER_MS < ctx.now - good

def namedPhase (phase : Phase) : Option Phase :=
  if phase = .unknown ∨ phase = .none then none else some phase

def workingStrip (ctx : Context) : Strip :=
  let neutral := stale ctx && ctx.lastGoodAt.isSome
  { kind := .working
    role := .status
    percent := if neutral ∨ ctx.step.unit = .open then none else percentOf ctx
    phaseId := namedPhase ctx.phase
    left := if neutral ∨ ctx.step.unit = .open then none else ctx.etaMinutes
    counter := if neutral then none else counterOf ctx
    slow := !neutral && ctx.advance.movedAt.isSome && !advancing ctx
    neutral := neutral
    elapsedMs :=
      if neutral ∨ (counterOf ctx).isSome ∨ namedPhase ctx.phase = none then none
      else some ctx.step.awakeElapsedMs }

def selectStrip (ctx : Context) : Option Strip :=
  if ctx.mode = .held then
    some
      { kind := .hold
        role := .alert
        holdKey := ctx.holdKey }
  else if ctx.mode = .finishing then
    some
      { kind := .done
        role := .status
        percent := some 100 }
  else if ctx.mode.isWorking then some (workingStrip ctx)
  else if (ctx.mode = .idle ∨ ctx.mode = .reclaim) ∧ ctx.checking = .yes then
    some
      { kind := .working
        role := .status }
  else none

end Murage.UpgradeMachine
