import Murage.SteerLineage.Cover

/-!
Owns what every run of calls on a turn's lineage keeps: its sources cover all that it was given, or
are not established.

Does not own: the walks over the lines and the ranges of one call.
-/

namespace Murage.SteerLineage

/-! ## What a turn was given -/

def Call.lines : Call → List ShownLine
  | .sources added => added
  | .ranges _ => []
  | .shown origins _ => shownLines origins

def Call.given : Call → List SourceRange
  | .sources _ => []
  | .ranges added => added
  | .shown _ added => added

def SourceRange.Reaches (range : SourceRange) (messages : List Row) (position : Nat) : Prop :=
  ∃ last, positionIn messages range.threadId range.upTo = some last ∧ position ≤ last

/-- What the sources of a turn cover: `lines` and `ranges` are all that it was given. -/
structure Covering (messages : List Row) (named : List ShownLine) (held : List HeldRange)
    (lines : List ShownLine) (ranges : List SourceRange) : Prop where
  line : ∀ line ∈ lines, line.ofUser = false → Named named line ∨
    ∃ position, positionIn messages line.threadId line.id = some position ∧
      ∃ range ∈ held, range.threadId = line.threadId ∧ range.Reaches messages position
  range : ∀ range ∈ ranges, ∃ last, positionIn messages range.threadId range.upTo = some last ∧
    ∃ kept ∈ held, kept.threadId = range.threadId ∧ kept.since ≤ range.since ∧
      kept.Reaches messages last
  fewNamed : named.length ≤ TURN_SOURCES_MAX
  fewHeld : held.length ≤ TURN_RANGES_MAX

/-- Within the limits, and each range with the stored position of its last line. -/
structure Fits (messages : List Row) (lineage : RunningTurnLineage) (named : List ShownLine) :
    Prop where
  placed : Placed messages lineage.ranges
  fewHeld : lineage.ranges.length ≤ TURN_RANGES_MAX
  fewNamed : named.length ≤ TURN_SOURCES_MAX
  separable : ∀ line ∈ named, Separable line.threadId

def Sound (messages : List Row) (lineage : RunningTurnLineage) : Prop :=
  ∀ named, lineage.sources = some (.named named) → Fits messages lineage named

/-! ## The invariant -/

/-- What holds between two calls. -/
structure Inv (messages : List Row) (lineage : RunningTurnLineage) (lines : List ShownLine)
    (ranges : List SourceRange) (named : List ShownLine) : Prop
    extends Fits messages lineage named where
  established : lineage.sources = some (.named named)
  carried : ∀ line ∈ lines, line.ofUser = false → Carried messages named lineage.ranges line
  held : ∀ range ∈ ranges, Held messages lineage.ranges range

/-- The sources went over, or the invariant holds. -/
def Kept (messages : List Row) (lineage : RunningTurnLineage) (lines : List ShownLine)
    (ranges : List SourceRange) : Prop :=
  lineage.sources = some .over ∨ ∃ named, Inv messages lineage lines ranges named

section Steps

variable {messages : List Row} {lineage : RunningTurnLineage} {lines : List ShownLine}
  {ranges : List SourceRange} {named : List ShownLine}

theorem Inv.append (inv : Inv messages lineage lines ranges named) (appended : List Row) :
    Inv (messages ++ appended) lineage lines ranges named where
  established := inv.established
  placed := inv.placed.append appended
  fewHeld := inv.fewHeld
  fewNamed := inv.fewNamed
  separable := inv.separable
  carried line isLine notUser := by
    have isCarried : Carried (messages ++ appended) (named ++ []) lineage.ranges line :=
      (inv.carried line isLine notUser).mono appended (.refl _)
    rwa [List.append_nil] at isCarried
  held range isRange := (inv.held range isRange).mono appended (.refl _)

theorem Inv.covering (inv : Inv messages lineage lines ranges named) :
    Covering messages named lineage.ranges lines ranges where
  line line isLine notUser := by
    rcases inv.carried line isLine notUser with isNamed | ⟨position, isStored, covers⟩
    · exact Or.inl isNamed
    · obtain ⟨range, isHeld, isThread, isWithin⟩ := covers
      exact Or.inr ⟨position, isStored, range, isHeld, isThread, range.position,
        inv.placed range isHeld, isWithin⟩
  range range isRange := by
    obtain ⟨last, isStored, kept, isKept, isThread, isEarly, isWithin⟩ := inv.held range isRange
    exact ⟨last, isStored, kept, isKept, isThread, isEarly, kept.position,
      inv.placed kept isKept, isWithin⟩
  fewNamed := inv.fewNamed
  fewHeld := inv.fewHeld

variable {db : Database}

theorem addSources_over (isOver : lineage.sources = some .over) :
    addSourcesToRunningTurn db lineage lines = lineage := by
  rw [addSourcesToRunningTurn, isOver]

theorem addRanges_over (isOver : lineage.sources = some .over) :
    addRangesToRunningTurn db lineage ranges = lineage := by
  rw [addRangesToRunningTurn, isOver]

/-- **Lines join a lineage.** -/
theorem Inv.addSources {added : List ShownLine} (inv : Inv db.messages lineage lines ranges named)
    (areSeparable : ∀ line ∈ added, Separable line.threadId) :
    Kept db.messages (addSourcesToRunningTurn db lineage added) (lines ++ added) ranges := by
  rw [addSourcesToRunningTurn, inv.established]
  dsimp only
  cases isEnd : addLines db added (named.map ShownLine.key) named lineage.ranges with
  | mk sources laterRanges =>
    cases sources with
    | «over» => exact Or.inl rfl
    | named later =>
      have bothSeparable : ∀ line ∈ named ++ added, Separable line.threadId := by
        intro line isLine
        rcases List.mem_append.1 isLine with isOld | isNew
        · exact inv.separable line isOld
        · exact areSeparable line isNew
      have joined := addLines_joined inv.placed bothSeparable isEnd
      obtain ⟨more, rfl, areNew⟩ := addLines_grown (congrArg Prod.fst isEnd)
      have counted := @addLines_counted db added named (named.map ShownLine.key) lineage.ranges
      rw [isEnd, Counted] at counted
      refine Or.inr ⟨named ++ more, ⟨joined.placed, ?_, ?_, ?_⟩, rfl, ?_, ?_⟩
      · exact joined.count.symm ▸ inv.fewHeld
      · have isShort := inv.fewNamed
        omega
      · intro line isLine
        rcases List.mem_append.1 isLine with isOld | isNew
        · exact inv.separable line isOld
        · exact areSeparable line (areNew line isNew)
      · intro line isLine notUser
        rcases List.mem_append.1 isLine with isOld | isNew
        · have isCarried : Carried (db.messages ++ []) (named ++ more) laterRanges line :=
            (inv.carried line isOld notUser).mono [] joined.widened
          rwa [List.append_nil] at isCarried
        · exact joined.carried line isNew notUser
      · exact fun range isRange => (inv.held range isRange).widen joined.widened

/-- **Ranges join a lineage.** -/
theorem Inv.addRanges {added : List SourceRange} (inv : Inv db.messages lineage lines ranges named) :
    Kept db.messages (addRangesToRunningTurn db lineage added) lines (ranges ++ added) := by
  rw [addRangesToRunningTurn, inv.established]
  dsimp only
  cases isOver : (addHeld db added lineage.ranges).1 with
  | true => exact Or.inl rfl
  | false =>
    obtain ⟨placed, widened, isShort, areHeld⟩ := addHeld_spec inv.placed inv.fewHeld isOver
    refine Or.inr ⟨named, ⟨placed, isShort, inv.fewNamed, inv.separable⟩, rfl, ?_, ?_⟩
    · intro line isLine notUser
      have isCarried : Carried (db.messages ++ []) (named ++ []) _ line :=
        (inv.carried line isLine notUser).mono [] widened
      rwa [List.append_nil, List.append_nil] at isCarried
    · intro range isRange
      rcases List.mem_append.1 isRange with isOld | isNew
      · exact (inv.held range isOld).widen widened
      · exact areHeld range isNew

/-- **One call.** -/
theorem Inv.answer {call : Call} (inv : Inv db.messages lineage lines ranges named)
    (areSeparable : ∀ line ∈ call.lines, Separable line.threadId) :
    Kept db.messages (answer db lineage call) (lines ++ call.lines) (ranges ++ call.given) := by
  cases call with
  | sources added =>
    rw [Call.given, List.append_nil]
    exact inv.addSources areSeparable
  | ranges added =>
    rw [Call.lines, List.append_nil]
    exact inv.addRanges
  | shown origins added =>
    rw [Call.lines] at areSeparable ⊢
    rw [SteerLineage.answer, addShownToRunningTurn, Call.given]
    rcases inv.addSources areSeparable with isOver | ⟨later, laterInv⟩
    · rw [addRanges_over isOver]
      exact Or.inl isOver
    · exact laterInv.addRanges

theorem answer_over {call : Call} (isOver : lineage.sources = some .over) :
    answer db lineage call = lineage := by
  cases call with
  | sources added => exact addSources_over isOver
  | ranges added => exact addRanges_over isOver
  | shown origins added =>
    rw [answer, addShownToRunningTurn, addSources_over isOver, addRanges_over isOver]

theorem answer_none {call : Call} (isNone : lineage.sources = none) :
    answer db lineage call = lineage := by
  have sources : ∀ added, addSourcesToRunningTurn db lineage added = lineage := fun added => by
    rw [addSourcesToRunningTurn, isNone]
  have ranges : ∀ added, addRangesToRunningTurn db lineage added = lineage := fun added => by
    rw [addRangesToRunningTurn, isNone]
  cases call with
  | sources added => exact sources added
  | ranges added => exact ranges added
  | shown origins added => rw [answer, addShownToRunningTurn, sources, ranges]

end Steps

/-! ## Runs -/

variable {events : List Event}

theorem run_fixed {start : World}
    (isFixed : ∀ db call, answer db start.lineage call = start.lineage) :
    (run start events).lineage = start.lineage := by
  induction events generalizing start with
  | nil => rfl
  | cons event rest ih =>
    have isStep : (step start event).lineage = start.lineage := isFixed _ _
    have isRest := @ih (step start event) (by rw [isStep]; exact isFixed)
    exact isRest.trans isStep

/-- **The sources stay over.** -/
theorem run_over {start : World} (isOver : start.lineage.sources = some .over) :
    (run start events).lineage = start.lineage :=
  run_fixed fun _ _ => answer_over isOver

theorem Kept.append {messages : List Row} {lineage : RunningTurnLineage} {lines : List ShownLine}
    {ranges : List SourceRange} (isKept : Kept messages lineage lines ranges)
    (appended : List Row) : Kept (messages ++ appended) lineage lines ranges :=
  isKept.imp_right fun ⟨named, inv⟩ => ⟨named, inv.append appended⟩

theorem Kept.answer {db : Database} {lineage : RunningTurnLineage} {lines : List ShownLine}
    {ranges : List SourceRange} {call : Call} (isKept : Kept db.messages lineage lines ranges)
    (areSeparable : ∀ line ∈ call.lines, Separable line.threadId) :
    Kept db.messages (answer db lineage call) (lines ++ call.lines) (ranges ++ call.given) := by
  rcases isKept with isOver | ⟨named, inv⟩
  · rw [answer_over isOver]
    exact Or.inl isOver
  · exact inv.answer areSeparable

/-- **Every run keeps the invariant, or takes the sources over.** -/
theorem run_kept {start : World} {lines : List ShownLine} {ranges : List SourceRange}
    (isKept : Kept start.messages start.lineage lines ranges)
    (areSeparable : ∀ event ∈ events, ∀ line ∈ event.call.lines, Separable line.threadId) :
    Kept (run start events).messages (run start events).lineage
      (lines ++ events.flatMap (·.call.lines)) (ranges ++ events.flatMap (·.call.given)) := by
  induction events generalizing start lines ranges with
  | nil =>
    rw [List.flatMap_nil, List.flatMap_nil, List.append_nil, List.append_nil]
    exact isKept
  | cons event rest ih =>
    have isBegun : Kept (event.database start).messages start.lineage lines ranges :=
      isKept.append event.appended
    have isStep : Kept (step start event).messages (step start event).lineage _ _ :=
      isBegun.answer (areSeparable event List.mem_cons_self)
    rw [List.flatMap_cons, List.flatMap_cons, ← List.append_assoc, ← List.append_assoc]
    exact ih isStep
      fun other isOther => areSeparable other (List.mem_cons_of_mem _ isOther)

/-! ## The room -/

/-- What `sourcesRoom` tells: exactly how many lines would be named, or that the sources would go
over; nothing is named in sources that are not established. -/
def RoomExact (db : Database) (lineage : RunningTurnLineage) (lines : List ShownLine) : Prop :=
  match lineage.sources with
  | some (.named named) =>
    if named.length + sourcesRoom db lineage lines ≤ TURN_SOURCES_MAX then
      ∃ more, (addSourcesToRunningTurn db lineage lines).sources = some (.named (named ++ more)) ∧
        more.length = sourcesRoom db lineage lines
    else (addSourcesToRunningTurn db lineage lines).sources = some .over
  | _ => sourcesRoom db lineage lines = 0 ∧ addSourcesToRunningTurn db lineage lines = lineage

theorem room_exact {db : Database} {lineage : RunningTurnLineage} {lines : List ShownLine}
    (isShort : ∀ named, lineage.sources = some (.named named) → named.length ≤ TURN_SOURCES_MAX) :
    RoomExact db lineage lines := by
  rw [RoomExact]
  cases established : lineage.sources with
  | none => exact ⟨by rw [sourcesRoom, established], by rw [addSourcesToRunningTurn, established]⟩
  | some sources =>
    cases sources with
    | «over» =>
      exact ⟨by rw [sourcesRoom, established], by rw [addSourcesToRunningTurn, established]⟩
    | named named =>
      have few := isShort named established
      have counted := @addLines_counted db lines named (named.map ShownLine.key) lineage.ranges
      rw [sourcesRoom, addSourcesToRunningTurn, established]
      dsimp only
      cases isEnd : (addLines db lines (named.map ShownLine.key) named lineage.ranges).1 with
      | «over» =>
        rw [isEnd, Counted] at counted
        rw [if_neg (Nat.not_le_of_lt counted)]
      | named later =>
        rw [isEnd, Counted] at counted
        obtain ⟨more, rfl, _⟩ := addLines_grown isEnd
        rw [List.length_append] at counted
        rw [if_pos (by omega)]
        exact ⟨more, rfl, by omega⟩

/-! ## The promise -/

theorem Sound.inv {messages : List Row} {lineage : RunningTurnLineage} {named : List ShownLine}
    (sound : Sound messages lineage) (established : lineage.sources = some (.named named)) :
    Inv messages lineage [] [] named where
  toFits := sound named established
  established := established
  carried _ isLine := nomatch isLine
  held _ isRange := nomatch isRange

theorem run_kept_of_sound {start : World} (sound : Sound start.messages start.lineage)
    (isSome : start.lineage.sources ≠ none)
    (areSeparable : ∀ event ∈ events, ∀ line ∈ event.call.lines, Separable line.threadId) :
    Kept (run start events).messages (run start events).lineage
      (events.flatMap (·.call.lines)) (events.flatMap (·.call.given)) := by
  have isBegun : Kept start.messages start.lineage [] [] := by
    cases established : start.lineage.sources with
    | none => exact absurd established isSome
    | some sources =>
      cases sources with
      | «over» => exact Or.inl established
      | named named => exact Or.inr ⟨named, sound.inv established⟩
  exact run_kept isBegun areSeparable

/-- **A turn's sources cover everything it was shown.** In every run, from every sound start: the
sources that were established go over and stay so, or they name or carry all that was given, within
the limits; those that were not stay as they are; and the room is exact. -/
theorem turn_sources_cover (start : World) (events : List Event)
    (sound : Sound start.messages start.lineage)
    (areSeparable : ∀ event ∈ events, ∀ line ∈ event.call.lines, Separable line.threadId) :
    (start.lineage.sources ≠ none →
      (run start events).lineage.sources = some .over ∨
      ∃ named, (run start events).lineage.sources = some (.named named) ∧
        Covering (run start events).messages named (run start events).lineage.ranges
          (events.flatMap (·.call.lines)) (events.flatMap (·.call.given))) ∧
    (start.lineage.sources = none → (run start events).lineage = start.lineage) ∧
    ((run start events).lineage.sources = some .over →
      ∀ more, (run start (events ++ more)).lineage.sources = some .over) ∧
    ∀ db lines, RoomExact db (run start events).lineage lines := by
  have stays : start.lineage.sources = none → (run start events).lineage = start.lineage :=
    fun isNone => run_fixed fun _ _ => answer_none isNone
  have isKept := fun isSome => run_kept_of_sound sound isSome areSeparable
  refine ⟨fun isSome => ?_, stays, fun isOver more => ?_, fun db lines => room_exact ?_⟩
  · exact (isKept isSome).imp_right fun ⟨named, inv⟩ => ⟨named, inv.established, inv.covering⟩
  · have isLater : run start (events ++ more) = run (run start events) more :=
      List.foldl_append
    rw [isLater, run_over isOver]
    exact isOver
  · intro named established
    by_cases isNone : start.lineage.sources = none
    · rw [stays isNone] at established
      exact (sound named established).fewNamed
    · rcases isKept isNone with isOver | ⟨later, inv⟩
      · rw [isOver] at established
        cases established
      · rw [inv.established] at established
        cases established
        exact inv.fewNamed

/-- A line after the range is taken in: the range is carried on to it. -/
theorem turn_sources_cover_example :
    ∃ named, Covering [⟨"room", "a", 1⟩, ⟨"room", "b", 2⟩] named
      [{ threadId := "room", upTo := "b", since := 3, position := 2 }]
      [{ threadId := "room", id := "b" }] [] := by
  have isCovered := (turn_sources_cover
    ⟨[⟨"room", "a", 1⟩, ⟨"room", "b", 2⟩],
      { sources := some (.named [])
        ranges := [{ threadId := "room", upTo := "a", since := 3, position := 1 }] }⟩
    [{ call := .sources [{ threadId := "room", id := "b" }] }]
    (fun named isNamed => by
      cases isNamed
      exact ⟨fun range isHeld => by cases List.mem_singleton.1 isHeld; decide, by decide,
        by decide, nofun⟩)
    (fun event isEvent line isLine => by
      cases List.mem_singleton.1 isEvent
      cases List.mem_singleton.1 isLine
      decide)).1 nofun
  rcases isCovered with isOver | ⟨named, _, covering⟩
  · exact absurd isOver (by decide)
  · exact ⟨named, covering⟩

/-- The promise fails where nothing was established, where two lines have one key, and where the
lines do not fit. -/
theorem turn_sources_not_cover :
    (¬ ∀ start : World, Sound start.messages start.lineage → ∀ events : List Event,
      (run start events).lineage.sources = some .over ∨
      ∃ named, (run start events).lineage.sources = some (.named named) ∧
        Covering (run start events).messages named (run start events).lineage.ranges
          (events.flatMap (·.call.lines)) (events.flatMap (·.call.given))) ∧
    (¬ ∀ start : World, Sound start.messages start.lineage → start.lineage.sources ≠ none →
      ∀ events : List Event, (run start events).lineage.sources = some .over ∨
      ∃ named, (run start events).lineage.sources = some (.named named) ∧
        Covering (run start events).messages named (run start events).lineage.ranges
          (events.flatMap (·.call.lines)) (events.flatMap (·.call.given))) ∧
    ¬ ∀ db lineage named lines, lineage.sources = some (.named named) →
      named.length ≤ TURN_SOURCES_MAX →
      ∃ more, (addSourcesToRunningTurn db lineage lines).sources = some (.named (named ++ more)) ∧
        more.length = sourcesRoom db lineage lines := by
  refine ⟨fun covers => ?_, fun covers => ?_, fun isExact => ?_⟩
  · have isSound : Sound [] { sources := none } := fun named isNamed => by cases isNamed
    rcases covers ⟨[], { sources := none }⟩ isSound [] with isOver | ⟨_, isNamed, _⟩
    · cases isOver
    · cases isNamed
  · have isSound : Sound [] { sources := some (.named []) } := fun named isNamed => by
      cases isNamed
      exact ⟨nofun, by decide, by decide, nofun⟩
    have isEnd : (run ⟨[], { sources := some (.named []) }⟩
        [{ call := .sources [⟨"a\x00b", "c", none⟩, ⟨"a", "b\x00c", none⟩] }]).lineage
        = { sources := some (.named [⟨"a\x00b", "c", none⟩]) } := by
      decide
    rcases covers ⟨[], { sources := some (.named []) }⟩ isSound nofun
      [{ call := .sources [⟨"a\x00b", "c", none⟩, ⟨"a", "b\x00c", none⟩] }] with
      isOver | ⟨named, isNamed, covering⟩
    · rw [isEnd] at isOver
      cases isOver
    · rw [isEnd] at isNamed
      cases isNamed
      rcases covering.line ⟨"a", "b\x00c", none⟩ (by decide) rfl with
        ⟨other, isOther, isThread, _⟩ | ⟨_, isStored, _⟩
      · cases List.mem_singleton.1 isOther
        exact absurd isThread (by decide)
      · cases isStored
  · -- The list of names is full, and two lines are new.
    have isFull : (List.replicate TURN_SOURCES_MAX (⟨"t", "x", none⟩ : ShownLine)).length
        = TURN_SOURCES_MAX := List.length_replicate
    have areKnown : (List.replicate TURN_SOURCES_MAX (⟨"t", "x", none⟩ : ShownLine)).map
        ShownLine.key = List.replicate TURN_SOURCES_MAX "t\x00x" := List.map_replicate
    have isNew : ∀ id, keyOf "t" id ≠ "t\x00x" →
        keyOf "t" id ∉ List.replicate TURN_SOURCES_MAX "t\x00x" :=
      fun id differs isKnown => differs (List.eq_of_mem_replicate isKnown)
    generalize List.replicate TURN_SOURCES_MAX (⟨"t", "x", none⟩ : ShownLine) = named
      at isFull areKnown
    generalize List.replicate TURN_SOURCES_MAX "t\x00x" = known at areKnown isNew
    have isRoom : sourcesRoom ⟨[], fun _ _ => false⟩ { sources := some (.named named) }
        [⟨"t", "y", none⟩, ⟨"t", "z", none⟩] = 2 := by
      have isFirst : ¬ ((⟨"t", "y", none⟩ : ShownLine).ofUser = true ∨
          (⟨"t", "y", none⟩ : ShownLine).key ∈ known) :=
        not_or.2 ⟨by decide, isNew "y" (by decide)⟩
      have isSecond : ¬ ((⟨"t", "z", none⟩ : ShownLine).ofUser = true ∨
          (⟨"t", "z", none⟩ : ShownLine).key ∈ known ++ [(⟨"t", "y", none⟩ : ShownLine).key]) := by
        rw [List.mem_append, not_or, not_or]
        exact ⟨by decide, isNew "z" (by decide), by decide⟩
      have noRange : ∀ line : ShownLine, ¬ ((widestRange [] line.threadId).isSome ∧
          ((⟨[], fun _ _ => false⟩ : Database).storedPosition line.threadId line.id).isSome) :=
        fun _ isPlaced => nomatch isPlaced.1
      rw [sourcesRoom]
      dsimp only
      rw [areKnown, roomFor, if_neg isFirst, if_neg (noRange _), roomFor, if_neg isSecond,
        if_neg (noRange _), roomFor]
    obtain ⟨more, isNamed, isCount⟩ := isExact ⟨[], fun _ _ => false⟩
      { sources := some (.named named) } named [⟨"t", "y", none⟩, ⟨"t", "z", none⟩] rfl
      (Nat.le_of_eq isFull)
    have counted := @room_exact ⟨[], fun _ _ => false⟩ { sources := some (.named named) }
      [⟨"t", "y", none⟩, ⟨"t", "z", none⟩] fun other isOther => by
        cases isOther
        exact Nat.le_of_eq isFull
    rw [RoomExact] at counted
    dsimp only at counted
    rw [isRoom, if_neg (by omega), isNamed] at counted
    cases counted

end Murage.SteerLineage
