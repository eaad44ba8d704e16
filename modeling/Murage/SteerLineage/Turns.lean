import Mathlib.Data.List.Nodup
import Murage.SteerLineage.Runs

/-!
Owns the two ends of a turn's sources: that a turn begins with sources that are established and
sound, and that what a turn writes rests on all that it was given.

Does not own: what happens while the turn runs.
-/

namespace Murage.SteerLineage

/-! ## The beginning -/

def Unique (messages : List Row) : Prop :=
  messages.Pairwise fun row other => ¬ (row.threadId = other.threadId ∧ row.id = other.id)

theorem positionIn_of_mem {messages : List Row} {row : Row} (unique : Unique messages)
    (isStored : row ∈ messages) : positionIn messages row.threadId row.id = some row.position := by
  induction messages with
  | nil => cases isStored
  | cons first rest ih =>
    obtain ⟨isFirst, restUnique⟩ := List.pairwise_cons.1 unique
    rcases List.mem_cons.1 isStored with rfl | isLater
    · rw [positionIn, List.find?_cons_of_pos (by simp)]
      rfl
    · have differs : ¬ (first.threadId = row.threadId ∧ first.id = row.id) := isFirst row isLater
      rw [positionIn, List.find?_cons_of_neg (by simpa using differs)]
      exact ih restUnique isLater

theorem newestFrom_mem {threadId : String} {rows : List Row} {newest : Option Row} {row : Row}
    (isNewest : newestFrom threadId rows newest = some row) :
    newest = some row ∨ (row ∈ rows ∧ row.threadId = threadId) := by
  induction rows generalizing newest with
  | nil => exact Or.inl isNewest
  | cons first rest ih =>
    rcases ih isNewest with isEarlier | ⟨isLater, isThread⟩
    · split at isEarlier
      · rename_i newer
        cases isEarlier
        exact Or.inr ⟨List.mem_cons_self, (of_decide_eq_true newer).1⟩
      · exact Or.inl isEarlier
    · exact Or.inr ⟨List.mem_cons_of_mem _ isLater, isThread⟩

theorem threadRangeNow_placed {db : Database} {threadId : String} {holdLogNow : Nat}
    (unique : Unique db.messages) :
    Placed db.messages (threadRangeNow db threadId holdLogNow).toList := by
  intro range isRange
  obtain ⟨row, isNewest, rfl⟩ := Option.map_eq_some_iff.1 (Option.mem_toList.1 isRange)
  rcases newestFrom_mem isNewest with isNone | ⟨isStored, isThread⟩
  · cases isNone
  · rw [← isThread]
    exact positionIn_of_mem unique isStored

theorem turnSources_named {withheldNow : ShownLine → Bool} {lines out named : List ShownLine}
    (isShort : out.length ≤ TURN_SOURCES_MAX)
    (isNamed : turnSourcesFrom withheldNow lines out = .named named) :
    named.length ≤ TURN_SOURCES_MAX ∧ out ⊆ named ∧ (∀ line ∈ named, line ∈ out ∨ line ∈ lines) ∧
      ∀ line ∈ lines, line.ofUser = false → withheldNow line = false →
        line.key ∈ named.map ShownLine.key := by
  induction lines generalizing out with
  | nil =>
    cases Sources.named.inj isNamed
    exact ⟨isShort, List.Subset.refl _, fun _ isLine => Or.inl isLine, List.forall_mem_nil _⟩
  | cons line rest ih =>
    have later : ∀ {named : List ShownLine}, (∀ other ∈ named, other ∈ out ∨ other ∈ rest) →
        ∀ other ∈ named, other ∈ out ∨ other ∈ line :: rest :=
      fun areLines other isOther => (areLines other isOther).imp_right (List.mem_cons_of_mem _)
    rw [turnSourcesFrom] at isNamed
    split at isNamed
    · rename_i isOfUser
      obtain ⟨few, areOut, areLines, areKeys⟩ := ih isShort isNamed
      exact ⟨few, areOut, later areLines, List.forall_mem_cons.2
        ⟨fun notUser => absurd isOfUser (by rw [notUser]; decide), areKeys⟩⟩
    split at isNamed
    · rename_i isLeftOut
      obtain ⟨few, areOut, areLines, areKeys⟩ := ih isShort isNamed
      refine ⟨few, areOut, later areLines, List.forall_mem_cons.2 ⟨fun _ isShown => ?_, areKeys⟩⟩
      have isKnown := isLeftOut.resolve_right (by rw [isShown]; decide)
      exact List.map_subset _ areOut isKnown
    split at isNamed
    · cases isNamed
    · rename_i isBelow
      obtain ⟨few, areOut, areLines, areKeys⟩ := ih (Nat.le_of_not_lt isBelow) isNamed
      refine ⟨few, fun other isOther => areOut (List.mem_append_left _ isOther), ?_,
        List.forall_mem_cons.2 ⟨fun _ _ => List.mem_map_of_mem
          (areOut (List.mem_append_right _ List.mem_cons_self)), areKeys⟩⟩
      intro other isOther
      rcases areLines other isOther with isOut | isRest
      · rcases List.mem_append.1 isOut with isOld | isFirst
        · exact Or.inl isOld
        · exact Or.inr (List.mem_singleton.1 isFirst ▸ List.mem_cons_self)
      · exact Or.inr (List.mem_cons_of_mem _ isRest)

def TurnInput.lines (input : TurnInput) : List ShownLine :=
  namedIn input.keptSources ++ input.shown ++ input.ownLines

def TurnInput.pendingLines (input : TurnInput) : List ShownLine :=
  input.pending.elim [] fun pending => shownLines pending.1

/-- What a turn begins with of other conversations, and what its prompts showed. -/
def TurnInput.given (input : TurnInput) : List ShownLine :=
  (namedIn input.keptSources ++ input.shown).filter (·.threadId ≠ input.threadId) ++
    input.pendingLines

theorem begun_kept {db : Database} {botId : Option String} {rootsOver : Bool}
    {withheldNow : ShownLine → Bool} {lines given : List ShownLine} {own : Option HeldRange}
    (placed : Placed db.messages own.toList)
    (areSeparable : ∀ line ∈ lines, Separable line.threadId)
    (areGiven : ∀ line ∈ given, line ∈ lines ∧ withheldNow line = false) :
    Kept db.messages
      { botId := botId
        rootsOver := rootsOver
        sources := some (turnSources lines withheldNow)
        ranges := own.toList } given [] := by
  cases isEnd : turnSources lines withheldNow with
  | «over» => exact Or.inl rfl
  | named named =>
    obtain ⟨few, _, areLines, areKeys⟩ := turnSources_named (Nat.zero_le _) isEnd
    have areNamed : ∀ line ∈ named, Separable line.threadId := fun line isLine =>
      areSeparable line ((areLines line isLine).resolve_left nofun)
    refine Or.inr ⟨named, ⟨placed, ?_, few, areNamed⟩, rfl, fun line isLine notUser => ?_,
      fun _ isRange => (nomatch isRange)⟩
    · exact Nat.le_trans (Option.length_toList_le) (by decide)
    · obtain ⟨isLine, isShown⟩ := areGiven line isLine
      obtain ⟨other, isOther, isKey⟩ := List.mem_map.1 (areKeys line isLine notUser isShown)
      exact Or.inl ⟨other, isOther, keyOf_inj (areNamed other isOther) (areSeparable line isLine) isKey⟩

theorem beginTurnLineage_kept {db : Database} {input : TurnInput} (unique : Unique db.messages)
    (areSeparable : ∀ line ∈ input.lines ++ input.pendingLines, Separable line.threadId) :
    ∃ ranges, Kept db.messages (beginTurnLineage db input) input.given ranges := by
  rw [beginTurnLineage]
  generalize isOwn : (if input.rangesUsable then
    threadRangeNow db input.threadId input.holdLogNow else none) = own
  dsimp only
  split
  · exact ⟨[], Or.inl rfl⟩
  split
  · exact ⟨[], Or.inl rfl⟩
  have placed : Placed db.messages own.toList := by
    rw [← isOwn]
    split
    · exact threadRangeNow_placed unique
    · exact fun _ isRange => (nomatch isRange)
  have linesSeparable : ∀ line ∈ (namedIn input.keptSources ++ input.shown ++
      if own = none then input.ownLines else []).filter
        (fun line => own = none ∨ line.threadId ≠ input.threadId), Separable line.threadId := by
    intro line isLine
    refine areSeparable line (List.mem_append_left _ ?_)
    rw [TurnInput.lines]
    rcases List.mem_append.1 (List.mem_of_mem_filter isLine) with isShown | isOwnLine
    · exact List.mem_append_left _ isShown
    · split at isOwnLine
      · exact List.mem_append_right _ isOwnLine
      · cases isOwnLine
  have isSet := @begun_kept db (some input.botId) input.rootsOver
    (fun line => line.threadId = input.threadId && input.withheldNow line) _
    ((namedIn input.keptSources ++ input.shown).filter (·.threadId ≠ input.threadId)) own placed
    linesSeparable fun line isLine => by
      obtain ⟨isShown, isOther⟩ := List.mem_filter.1 isLine
      have isElsewhere := of_decide_eq_true isOther
      exact ⟨List.mem_filter.2 ⟨List.mem_append_left _ isShown, decide_eq_true (Or.inr isElsewhere)⟩,
        by rw [decide_eq_false isElsewhere, Bool.false_and]⟩
  have withRanges := fun added => @Kept.answer db _ _ [] (.ranges added) isSet
    fun _ isLine => (nomatch isLine)
  simp only [Call.lines, List.append_nil] at withRanges
  cases isPending : input.pending with
  | none =>
    rw [TurnInput.given, TurnInput.pendingLines, isPending, Option.elim_none, List.append_nil]
    exact ⟨_, withRanges _⟩
  | some pending =>
    rw [TurnInput.given, TurnInput.pendingLines, isPending, Option.elim_some]
    refine ⟨_, @Kept.answer db _ _ _ (.shown pending.1 pending.2) (withRanges _) ?_⟩
    intro line isLine
    refine areSeparable line (List.mem_append_right _ ?_)
    rw [TurnInput.pendingLines, isPending]
    exact isLine

/-! ## What a turn writes rests on -/

def Lists (groups : List (String × List String)) (threadId id : String) : Prop :=
  ∃ ids, (threadId, ids) ∈ groups ∧ id ∈ ids

variable {groups : List (String × List String)}

theorem lists_addToGroup {line : ShownLine} {threadId id : String} :
    Lists (addToGroup groups line) threadId id ↔
      Lists groups threadId id ∨ (line.threadId = threadId ∧ line.id = id) := by
  rw [addToGroup]
  by_cases isKnown : groups.any (·.1 = line.threadId) = true
  · rw [if_pos isKnown]
    constructor
    · rintro ⟨ids, isGroup, isListed⟩
      obtain ⟨group, isOld, isMapped⟩ := List.mem_map.1 isGroup
      by_cases isThread : group.1 = line.threadId
      · rw [if_pos isThread] at isMapped
        obtain ⟨rfl, rfl⟩ := Prod.mk.inj isMapped
        rcases List.mem_append.1 isListed with isBefore | isLast
        · exact Or.inl ⟨group.2, isOld, isBefore⟩
        · exact Or.inr ⟨isThread.symm, (List.mem_singleton.1 isLast).symm⟩
      · rw [if_neg isThread] at isMapped
        subst isMapped
        exact Or.inl ⟨ids, isOld, isListed⟩
    · rintro (⟨ids, isGroup, isListed⟩ | ⟨rfl, rfl⟩)
      · by_cases isThread : threadId = line.threadId
        · refine ⟨ids ++ [line.id], List.mem_map.2 ⟨_, isGroup, ?_⟩,
            List.mem_append_left _ isListed⟩
          rw [if_pos isThread]
        · refine ⟨ids, List.mem_map.2 ⟨_, isGroup, ?_⟩, isListed⟩
          rw [if_neg isThread]
      · obtain ⟨group, isGroup, isThread⟩ := List.any_eq_true.1 isKnown
        have isSame := of_decide_eq_true isThread
        refine ⟨group.2 ++ [line.id], List.mem_map.2 ⟨group, isGroup, ?_⟩,
          List.mem_append_right _ List.mem_cons_self⟩
        rw [if_pos isSame, isSame]
  · rw [if_neg isKnown]
    constructor
    · rintro ⟨ids, isGroup, isListed⟩
      rcases List.mem_append.1 isGroup with isOld | isNew
      · exact Or.inl ⟨ids, isOld, isListed⟩
      · obtain ⟨rfl, rfl⟩ := Prod.mk.inj (List.mem_singleton.1 isNew)
        exact Or.inr ⟨rfl, (List.mem_singleton.1 isListed).symm⟩
    · rintro (⟨ids, isGroup, isListed⟩ | ⟨rfl, rfl⟩)
      · exact ⟨ids, List.mem_append_left _ isGroup, isListed⟩
      · exact ⟨[line.id], List.mem_append_right _ List.mem_cons_self, List.mem_cons_self⟩

theorem lists_foldl {lines : List ShownLine} {threadId id : String} :
    Lists (lines.foldl addToGroup groups) threadId id ↔
      Lists groups threadId id ∨ ∃ line ∈ lines, line.threadId = threadId ∧ line.id = id := by
  induction lines generalizing groups with
  | nil => simp
  | cons line rest ih =>
    rw [List.foldl_cons, ih, lists_addToGroup, or_assoc]
    simp only [List.mem_cons, exists_eq_or_imp]

/-- **The groups of a turn's sources are the lines it names.** -/
theorem runningTurnSources_lists {lineage : RunningTurnLineage} {botId : String}
    (isGroups : runningTurnSources lineage botId = some groups) :
    ∃ named, lineage.sources = some (.named named) ∧
      ∀ threadId id, Lists groups threadId id ↔
        ∃ line ∈ named, line.threadId = threadId ∧ line.id = id := by
  rw [runningTurnSources] at isGroups
  split at isGroups
  · cases isGroups
  split at isGroups
  · rename_i named isNamed
    cases isGroups
    refine ⟨named, isNamed, fun threadId id => ?_⟩
    rw [lists_foldl, or_iff_right]
    rintro ⟨ids, isGroup, _⟩
    cases isGroup
  · cases isGroups

/-- **What a turn writes rests on every line it was given**, when it began and while it ran: by name,
or within a range. -/
theorem begun_turn_rests {db : Database} {input : TurnInput} {events : List Event} {botId : String}
    {groups : List (String × List String)} {ranges : List SourceRange} {last : World}
    (unique : Unique db.messages)
    (areSeparable : ∀ line ∈ input.lines ++ input.pendingLines ++ events.flatMap (·.call.lines),
      Separable line.threadId)
    (isLast : run ⟨db.messages, beginTurnLineage db input⟩ events = last)
    (isGroups : runningTurnSources last.lineage botId = some groups)
    (areRanges : runningTurnRanges last.lineage botId = some ranges) :
    ∀ line ∈ input.given ++ events.flatMap (·.call.lines), line.ofUser = false →
      Lists groups line.threadId line.id ∨
      ∃ position, positionIn last.messages line.threadId line.id = some position ∧
        ∃ range ∈ ranges, range.threadId = line.threadId ∧ range.Reaches last.messages position := by
  obtain ⟨named, isNamed, areNamed⟩ := runningTurnSources_lists isGroups
  rw [runningTurnRanges, isGroups, Option.map_some] at areRanges
  cases areRanges
  obtain ⟨_, isBegun⟩ := beginTurnLineage_kept unique fun line isLine =>
    areSeparable line (List.mem_append_left _ isLine)
  have isKept : Kept last.messages last.lineage _ _ := isLast ▸ @run_kept events _ _ _ isBegun
    fun event isEvent line isLine => areSeparable line
      (List.mem_append_right _ (List.mem_flatMap.2 ⟨event, isEvent, isLine⟩))
  intro line isLine notUser
  rcases isKept with isOver | ⟨other, inv⟩
  · rw [isOver] at isNamed
    cases isNamed
  · rw [inv.established] at isNamed
    cases isNamed
    rcases inv.covering.line line isLine notUser with
      isListed | ⟨position, isStored, range, isHeld, isThread, reaches⟩
    · exact Or.inl ((areNamed _ _).2 isListed)
    · exact Or.inr ⟨position, isStored, range.toSourceRange, List.mem_map_of_mem isHeld, isThread,
        reaches⟩

def quotedTurn : TurnInput where
  threadId := "room"
  botId := "bot"
  rootsOver := false
  shown := [{ threadId := "aside", id := "q" }]
  withheldNow _ := false
  rangesUsable := true
  holdLogNow := 3

/-- A quote from another conversation is named, and what the turn writes is within its range. -/
theorem begun_turn_rests_example :
    Lists [("aside", ["q"])] "room" "b" ∨
      ∃ position, positionIn [⟨"room", "a", 1⟩, ⟨"room", "b", 2⟩] "room" "b" = some position ∧
        ∃ range ∈ ([⟨"room", "b", 3⟩] : List SourceRange), range.threadId = "room" ∧
          range.Reaches [⟨"room", "a", 1⟩, ⟨"room", "b", 2⟩] position :=
  @begun_turn_rests ⟨[⟨"room", "a", 1⟩], fun _ _ => false⟩ quotedTurn
    [{ appended := [⟨"room", "b", 2⟩], call := .sources [{ threadId := "room", id := "b" }] }]
    "bot" _ _ _ (List.pairwise_singleton _ _) (by decide) rfl (by decide) (by decide)
    { threadId := "room", id := "b" } (.tail _ (.head _)) rfl

end Murage.SteerLineage
