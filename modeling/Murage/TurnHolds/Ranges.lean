import Murage.TurnHolds.Steps
import Murage.Library.Transition

/-!
Owns what a range is worth: a careful step logs the place of every line that it takes something
from, and so a range that still holds rests on nothing that was taken away since.
-/

namespace Murage.TurnHolds

open Relation Murage.Library Murage.Library.Links Murage.Library.Transition

variable {json : String → Option Fields} {world next : World} {key : Key} {role : Role}
  {text : String}

/-! ## What is taken away is logged -/

theorem Sound.edge (sound : Sound json world) (isFilled : world.filled = true)
    {line original : Line} (isLine : line ∈ world.lines) (isOriginal : original ∈ world.lines)
    (above : TransGen (Names json world.lines) line.key original.key) :
    Edge.mk original.key line.key line.position ∈ world.edges :=
  (sound.filled isFilled).2 line isLine original.key above ⟨original, isOriginal, rfl⟩

structure LogsBoth (world next : World) (line : Line) : Prop where
  own : LoggedSince world.holdLogNow line.key.thread line.position next
  copies : ∀ copy place, Edge.mk line.key copy place ∈ world.edges →
    LoggedSince world.holdLogNow copy.thread place next

variable {line : Line}

theorem holdBoth_both :
    LogsBoth world ((world.hold line.key.thread line.position).holdCopies line.key) line :=
  ⟨holdBoth_line _ _ _ _, fun _ _ isEdge => holdBoth_copy _ _ isEdge⟩

theorem LogsBoth.later {last : World} (both : LogsBoth world next line) (logs : Logs next last) :
    LogsBoth world last line :=
  ⟨both.own.later logs, fun copy place isEdge => (both.copies copy place isEdge).later logs⟩

theorem update_both (sound : Sound json world) (isMade : world.made = true)
    (isLine : line ∈ world.lines) (isBot : role = .bot)
    (fires : takesAway json line.json text = true) :
    LogsBoth world (updateLine json line.key role text world) line := by
  have found := find_of_mem sound.distinct isLine
  rw [updateLine_eq found, if_pos (by simp [isMade, isBot, fires])]
  have both : LogsBoth (withUpdated line.key role text world) _ line := holdBoth_both
  exact ⟨both.own, both.copies⟩

theorem replace_both (sound : Sound json world) (isMade : world.made = true)
    (isLine : line ∈ world.lines) (isBot : line.role = .bot) :
    LogsBoth world (replaceLine json line.key role text world) line := by
  have found := find_of_mem sound.distinct isLine
  rw [replaceLine_eq]
  have both : LogsBoth world (heldForReplace line.key world) line := by
    rw [heldForReplace, found]
    dsimp only
    rw [if_pos (by simp [isMade, isBot])]
    exact holdBoth_both
  exact ⟨both.own, both.copies⟩

theorem forgotten_both (world : World) {keys : List Key} (isForgotten : line.key ∈ keys)
    (found : ∀ later : World, later.lines = world.lines → later.find line.key = some line)
    (isBot : line.role = .bot) : LogsBoth world (keys.foldl holdForgotten world) line := by
  induction keys generalizing world with
  | nil => exact absurd isForgotten List.not_mem_nil
  | cons first rest ih =>
    have logs := holdForgotten_logs world first
    rcases List.mem_cons.mp isForgotten with isFirst | deeper
    · have both : LogsBoth world (holdForgotten world first) line := by
        rw [← isFirst, holdForgotten, found world rfl]
        dsimp only
        rw [if_neg (by simp [isBot])]
        exact holdBoth_both
      exact both.later (forgotten_logs rest _)
    · have both := ih (holdForgotten world first) deeper
        fun later same => found later (same.trans logs.lines)
      refine ⟨both.own.earlier logs.onward, fun copy place isEdge => ?_⟩
      rw [← logs.edges] at isEdge
      exact (both.copies copy place isEdge).earlier logs.onward

theorem forget_both (sound : Sound json world) (isMade : world.made = true)
    (isLine : line ∈ world.lines) (isBot : line.role = .bot) {sourceOf : String → Option Key}
    {sourceIds : List String} (isForgotten : ∃ id ∈ sourceIds, sourceOf id = some line.key) :
    LogsBoth world (holdForgottenSources sourceOf sourceIds world) line := by
  obtain ⟨id, isId, isSource⟩ := isForgotten
  rw [holdForgottenSources, if_pos isMade]
  refine forgotten_both world ?_ (fun later same => ?_) isBot
  · exact List.mem_filterMap.mpr ⟨id, List.mem_dedup.mpr isId, isSource⟩
  · have distinct : (later.lines.map (·.key)).Nodup := by
      rw [same]
      exact sound.distinct
    refine find_of_mem distinct ?_
    rw [same]
    exact isLine

theorem delete_copies (sound : Sound json world) (isMade : world.made = true)
    (isLine : line ∈ world.lines) {copy : Key} {place : Nat}
    (isEdge : Edge.mk line.key copy place ∈ world.edges) :
    LoggedSince world.holdLogNow copy.thread place (deleteLine line.key world) := by
  have found := find_of_mem sound.distinct isLine
  rw [deleteLine_eq found, if_pos isMade]
  have isEdgeLater : Edge.mk line.key copy place ∈ (withoutLine line.key world).edges := isEdge
  exact holdCopies_logged isEdgeLater

theorem Sound.line_logged (sound : Sound json world) (names : NamesFields json)
    (isMade : world.made = true) {event : Event} (careful : Careful json world event)
    (isLine : line ∈ world.lines) (isBot : line.role = .bot) (takes : TakesLine json line event) :
    LoggedSince world.holdLogNow line.key.thread line.position (TurnHolds.step json world event) := by
  cases event with
  | update key role text =>
    have keepsRole : ∀ isIt : line.key = key, role = .bot := by
      rintro rfl
      exact (careful line (find_of_mem sound.distinct isLine)).1.trans isBot
    rcases takes with ⟨isIt, fields, isFields, notShown, isNew⟩ | replaced | forgotten |
      ⟨isIt, isNew⟩
    · subst isIt
      exact (update_both sound isMade isLine (keepsRole rfl)
        (takesAway_of_withheld names isFields notShown isNew)).own
    · exact replaced.elim
    · exact forgotten.elim
    · subst isIt
      exact (update_both sound isMade isLine (keepsRole rfl)
        (takesAway_of_relinked names isNew)).own
  | replace key role text =>
    rcases takes with withheld | isIt | forgotten | relinked
    · exact withheld.elim
    · have isIt : line.key = key := isIt
      subst isIt
      exact (replace_both sound isMade isLine isBot).own
    · exact forgotten.elim
    · exact relinked.elim
  | forget sourceOf sourceIds =>
    rcases takes with withheld | replaced | forgotten | relinked
    · exact withheld.elim
    · exact replaced.elim
    · exact (forget_both sound isMade isLine isBot forgotten).own
    · exact relinked.elim
  | _ => exact (takes.elim id fun more => more.elim id fun more => more.elim id id).elim

theorem Sound.copy_logged (sound : Sound json world) (names : NamesFields json)
    (isFilled : world.filled = true) {event : Event} (careful : Careful json world event)
    {line original : Line} (isLine : line ∈ world.lines) (isBot : line.role = .bot)
    (isOriginal : original ∈ world.lines)
    (above : TransGen (Names json world.lines) line.key original.key)
    (takes : TakesOriginal json original event) :
    LoggedSince world.holdLogNow line.key.thread line.position (TurnHolds.step json world event) := by
  have isMade := (sound.filled isFilled).1
  have isEdge := sound.edge isFilled isLine isOriginal above
  have found := find_of_mem sound.distinct isOriginal
  have isBotToo : ∀ role : Role, (role = .user → Uncopied json world original.key) →
      role = .bot := by
    intro role owner
    cases role with
    | user => exact absurd above (owner rfl line isLine isBot)
    | bot => rfl
  rcases takes with withheld | replaced | forgotten | deleted
  · cases event with
    | update key role text =>
      obtain ⟨isIt, fields, isFields, notShown, isNew⟩ := withheld
      subst isIt
      obtain ⟨-, -, owner⟩ := careful original found
      exact (update_both sound isMade isOriginal (isBotToo role owner)
        (takesAway_of_withheld names isFields notShown isNew)).copies _ _ isEdge
    | _ => exact withheld.elim
  · cases event with
    | replace key role text =>
      have isIt : original.key = key := replaced
      subst isIt
      obtain ⟨-, -, owner⟩ := careful
      exact (replace_both sound isMade isOriginal
        (isBotToo original.role (owner original found))).copies _ _ isEdge
    | _ => exact replaced.elim
  · cases event with
    | forget sourceOf sourceIds =>
      obtain ⟨id, isId, isSource⟩ := forgotten
      exact (forget_both sound isMade isOriginal
        (isBotToo original.role (careful id isId original isOriginal isSource))
        ⟨id, isId, isSource⟩).copies _ _ isEdge
    | _ => exact forgotten.elim
  · cases event with
    | delete key =>
      have isIt : original.key = key := deleted
      subst isIt
      exact delete_copies sound isMade isOriginal isEdge
    | _ => exact deleted.elim

/-- **A careful step logs the place of every line that it takes something from.** -/
theorem Sound.logged (sound : Sound json world) (names : NamesFields json)
    (isFilled : world.filled = true) {event : Event} (careful : Careful json world event)
    {thread : String} {position : Nat} (takes : TakesAway json thread position world event) :
    LoggedSince world.holdLogNow thread position (TurnHolds.step json world event) := by
  obtain ⟨line, isLine, isBot, rfl, rfl, fromLine | ⟨original, isOriginal, above, fromOriginal⟩⟩ :=
    takes
  · exact sound.line_logged names (sound.filled isFilled).1 careful isLine isBot fromLine
  · exact sound.copy_logged names isFilled careful isLine isBot isOriginal above fromOriginal

/-! ## What a step leaves -/

/-- The log goes on, unless it is dropped. -/
structure GoesOn (world next : World) : Prop where
  holds : world.holds <+: next.holds
  made : next.made = world.made
  filled : world.filled = true → next.filled = true
  highest : next.highest = world.highest
  taken : world.taken <+: next.taken

theorem Logs.goesOn (logs : Logs world next) : GoesOn world next where
  holds := by
    obtain ⟨more, isMore, -⟩ := logs.kept
    exact ⟨more, isMore.symm⟩
  made := logs.made
  filled := fun isFilled => logs.filled.trans isFilled
  highest := logs.highest
  taken := by
    exact logs.taken ▸ List.prefix_refl _

theorem GoesOn.congr {last : World} (goesOn : GoesOn world next) (holds : last.holds = next.holds)
    (made : last.made = next.made) (filled : last.filled = next.filled)
    (highest : last.highest = next.highest) (taken : last.taken = next.taken) :
    GoesOn world last where
  holds := by rw [holds]; exact goesOn.holds
  made := made.trans goesOn.made
  filled := fun isFilled => filled.trans (goesOn.filled isFilled)
  highest := highest.trans goesOn.highest
  taken := by rw [taken]; exact goesOn.taken

theorem GoesOn.refl (world : World) : GoesOn world world := (Logs.refl world).goesOn

theorem step_goesOn (json : String → Option Fields) (isMade : world.made = true) {event : Event} (notDrop : event ≠ .drop) :
    GoesOn world (TurnHolds.step json world event) := by
  cases event with
  | insert key role text =>
    show GoesOn world (insertLine json key role text world)
    unfold insertLine
    split
    · exact GoesOn.refl world
    · exact (GoesOn.refl world).congr rfl rfl rfl rfl rfl
  | replace key role text =>
    exact (heldForReplace_logs key world).goesOn.congr rfl rfl rfl rfl rfl
  | update key role text =>
    show GoesOn world (updateLine json key role text world)
    cases found : world.find key with
    | none =>
      rw [updateLine, found]
      exact GoesOn.refl world
    | some old =>
      have written : GoesOn world (withUpdated key role text world) :=
        (GoesOn.refl world).congr rfl rfl rfl rfl rfl
      rw [updateLine_eq found]
      split
      · have logs := (holdBoth_logs key.thread old.position key
          (withUpdated key role text world)).goesOn
        exact ⟨logs.holds, logs.made, logs.filled, logs.highest, logs.taken⟩
      · exact written
  | delete key =>
    show GoesOn world (deleteLine key world)
    cases found : world.find key with
    | none =>
      rw [deleteLine, found]
      exact GoesOn.refl world
    | some old =>
      have logs := (holdCopies_logs key (withoutLine key world)).goesOn
      rw [deleteLine_eq found, if_pos isMade]
      exact ⟨logs.holds, logs.made, logs.filled, logs.highest, logs.taken⟩
  | forget sourceOf sourceIds =>
    show GoesOn world (holdForgottenSources sourceOf sourceIds world)
    rw [holdForgottenSources, if_pos isMade]
    exact (forgotten_logs _ world).goesOn
  | take threadId =>
    have goesOn := GoesOn.refl world
    exact ⟨goesOn.holds, goesOn.made, goesOn.filled, goesOn.highest, List.prefix_append _ _⟩
  | make now =>
    refine ⟨?_, isMade.symm, id, rfl, List.prefix_refl _⟩
    show world.holds <+: if world.holds = [] then _ else world.holds
    split
    · rename_i isEmpty
      rw [isEmpty]
      exact List.nil_prefix
    · exact List.prefix_refl _
  | fill =>
    show GoesOn world (backfillTurnSourceCopies json world)
    unfold backfillTurnSourceCopies
    split
    · exact GoesOn.refl world
    · have goesOn := GoesOn.refl world
      exact ⟨goesOn.holds, goesOn.made, fun _ => rfl, goesOn.highest, goesOn.taken⟩
  | drop => exact absurd rfl notDrop

theorem step_remembers (json : String → Option Fields) (world : World) (event : Event) :
    world.taken <+: (TurnHolds.step json world event).taken ∧
      world.highest ≤ (TurnHolds.step json world event).highest := by
  by_cases isMade : world.made = true
  · by_cases isDrop : event = .drop
    · subst isDrop
      exact ⟨List.prefix_refl _, le_max_left _ _⟩
    · have goesOn := step_goesOn json isMade isDrop
      exact ⟨goesOn.taken, goesOn.highest.ge⟩
  · have notMade : world.made = false := Bool.eq_false_iff.mpr isMade
    cases event with
    | insert key role text =>
      show world.taken <+: (insertLine json key role text world).taken ∧ _
      simp only [TurnHolds.step, insertLine]
      split <;> exact ⟨List.prefix_refl _, Nat.le_refl _⟩
    | replace key role text =>
      have goesOn := (heldForReplace_logs key world).goesOn
      exact ⟨goesOn.taken, goesOn.highest.ge⟩
    | update key role text =>
      simp only [TurnHolds.step, updateLine, notMade, Bool.false_and]
      split <;> exact ⟨List.prefix_refl _, Nat.le_refl _⟩
    | delete key =>
      simp only [TurnHolds.step, deleteLine, notMade]
      split <;> exact ⟨List.prefix_refl _, Nat.le_refl _⟩
    | forget sourceOf sourceIds =>
      simp only [TurnHolds.step, holdForgottenSources, notMade]
      exact ⟨List.prefix_refl _, Nat.le_refl _⟩
    | take threadId => exact ⟨List.prefix_append _ _, Nat.le_refl _⟩
    | make now => exact ⟨List.prefix_refl _, Nat.le_refl _⟩
    | fill =>
      simp only [TurnHolds.step, backfillTurnSourceCopies, notMade]
      exact ⟨by simp, by simp⟩
    | drop => exact ⟨List.prefix_refl _, le_max_left _ _⟩

theorem foldl_remembers (json : String → Option Fields) (world : World) (labels : List Event) :
    world.taken <+: (labels.foldl (TurnHolds.step json) world).taken ∧
      world.highest ≤ (labels.foldl (TurnHolds.step json) world).highest := by
  induction labels generalizing world with
  | nil => exact ⟨List.prefix_refl _, Nat.le_refl _⟩
  | cons event rest ih =>
    have first := step_remembers json world event
    have onward := ih (TurnHolds.step json world event)
    exact ⟨first.1.trans onward.1, first.2.trans onward.2⟩

theorem Sound.foldl {labels : List Event} (sound : Sound json world)
    (careful : Along (TurnHolds.step json) (Careful json) world labels) :
    Sound json (labels.foldl (TurnHolds.step json) world) := by
  induction labels generalizing world with
  | nil => exact sound
  | cons event rest ih =>
    exact ih (sound.step careful.1) careful.2

/-! ## Ranges -/

theorem Sound.rangeHolds (sound : Sound json world) {range : HeldRange}
    (isTaken : range ∈ world.taken) (holds : rangeHolds range world = true) :
    world.highest < range.since ∧
      ∀ position ≤ range.position, ¬LoggedSince range.since range.threadId position world := by
  unfold TurnHolds.rangeHolds at holds
  split at holds
  · split at holds
    · exact Bool.noConfusion holds
    rename_i upTo found
    split at holds
    · exact Bool.noConfusion holds
    rename_i first isFirst
    simp only [Bool.and_eq_true, Bool.not_eq_true', decide_eq_false_iff_not, not_lt] at holds
    obtain ⟨began, noHit⟩ := holds
    obtain ⟨isUpTo, isLast⟩ := find_some found
    constructor
    · have isEntry := List.min?_mem isFirst
      obtain ⟨hold, isIn, rfl⟩ := List.mem_map.mp isEntry
      exact Nat.lt_of_lt_of_le (sound.above hold isIn) began
    · rintro position isWithin ⟨hold, isIn, isAfter, isThread, rfl⟩
      have place := sound.place range isTaken upTo isUpTo isLast
      have hit : hold.hits range upTo.position = true :=
        decide_eq_true ⟨isThread, isAfter, isWithin.trans place⟩
      exact Bool.noConfusion (noHit.symm.trans (List.any_eq_true.mpr ⟨hold, isIn, hit⟩))
  · exact Bool.noConfusion holds

/-- Nothing that the range rests on is taken away by the step. -/
def LeavesRange (json : String → Option Fields) (range : HeldRange) (world : World)
    (event : Event) : Prop :=
  ∀ position ≤ range.position, ¬TakesAway json range.threadId position world event

theorem Sound.leaves (sound : Sound json world) (names : NamesFields json)
    (isFilled : world.filled = true) {range : HeldRange} (isTaken : range ∈ world.taken)
    (since : range.since ≤ world.holdLogNow) {labels : List Event}
    (careful : Along (TurnHolds.step json) (Careful json) world labels)
    (holds : TurnHolds.rangeHolds range (labels.foldl (TurnHolds.step json) world) = true) :
    Along (TurnHolds.step json) (LeavesRange json range) world labels ∧ Event.drop ∉ labels ∧
      world.holds <+: (labels.foldl (TurnHolds.step json) world).holds := by
  induction labels generalizing world with
  | nil => exact ⟨trivial, List.not_mem_nil, List.prefix_refl _⟩
  | cons event rest ih =>
    have later := sound.step careful.1
    have last := later.foldl careful.2
    have remembers := step_remembers json world event
    have further := foldl_remembers json (TurnHolds.step json world event) rest
    have isTakenLater := remembers.1.subset isTaken
    obtain ⟨isNewer, notLogged⟩ := last.rangeHolds (further.1.subset isTakenLater) holds
    have notDrop : event ≠ .drop := by
      rintro rfl
      have dropped : range.since ≤ (TurnHolds.step json world .drop).highest :=
        since.trans (le_max_right _ _)
      exact absurd (dropped.trans further.2) (Nat.not_le_of_lt isNewer)
    have goesOn := step_goesOn json (sound.filled isFilled).1 notDrop
    have sinceLater : range.since ≤ (TurnHolds.step json world event).holdLogNow := by
      obtain ⟨more, isMore⟩ := goesOn.holds
      refine since.trans ?_
      rw [World.holdLogNow, World.holdLogNow, ← isMore, List.map_append]
      exact top_append _ _
    obtain ⟨leaves, noDrop, onward⟩ := ih later (goesOn.filled isFilled)
      isTakenLater sinceLater careful.2 holds
    refine ⟨⟨fun position isWithin takes => ?_, leaves⟩, ?_, goesOn.holds.trans onward⟩
    · obtain ⟨hold, isIn, isAfter, isThread, isPlace⟩ :=
        sound.logged names isFilled careful.1 takes
      exact notLogged position isWithin
        ⟨hold, onward.subset isIn, Nat.lt_of_le_of_lt since isAfter, isThread, isPlace⟩
    · intro isIn
      rcases List.mem_cons.mp isIn with isDrop | deeper
      · exact notDrop isDrop.symm
      · exact noDrop deeper

/-- Stored lines, and no log yet. -/
structure Blank (world : World) : Prop where
  distinct : (world.lines.map (·.key)).Nodup
  notMade : world.made = false
  notFilled : world.filled = false
  noLog : world.holds = []
  noRange : world.taken = []

theorem Blank.sound (blank : Blank world) : Sound json world where
  distinct := blank.distinct
  begun := fun isMade => Bool.noConfusion (blank.notMade.symm.trans isMade)
  above := by
    rw [blank.noLog]
    exact fun _ isIn => absurd isIn List.not_mem_nil
  filled := fun isFilled => Bool.noConfusion (blank.notFilled.symm.trans isFilled)
  since := by
    rw [blank.noRange]
    exact fun _ isIn => absurd isIn List.not_mem_nil
  place := by
    rw [blank.noRange]
    exact fun _ isIn => absurd isIn List.not_mem_nil

/-- **A range that still holds rests on nothing taken away.** In every run of careful steps from
lines without a log, when a range that was taken after the fill holds in the end, no step since
took anything from a bot's line of the thread up to the range's place or from an original of one at
any depth, and the log was not dropped since. -/
theorem rangeHolds_untouched (names : NamesFields json) {start : World} (isBlank : Blank start)
    {before after : List Event} {threadId : String} {range : HeldRange}
    (careful : Along (TurnHolds.step json) (Careful json) start
      (before ++ Event.take threadId :: after))
    (isFilled : (before.foldl (TurnHolds.step json) start).filled = true)
    (isRange : threadRangeNow threadId (before.foldl (TurnHolds.step json) start) = some range)
    (holds : rangeHolds range
      ((before ++ Event.take threadId :: after).foldl (TurnHolds.step json) start) = true) :
    Along (TurnHolds.step json) (LeavesRange json range)
        ((before ++ [Event.take threadId]).foldl (TurnHolds.step json) start) after ∧
      Event.drop ∉ after := by
  obtain ⟨earlier, onward⟩ := along_append.mp careful
  have blank : Sound json start := isBlank.sound
  have sound := blank.foldl earlier
  rw [List.foldl_append, List.foldl_cons] at holds
  rw [List.foldl_append]
  obtain ⟨-, -, isSince, -⟩ := threadRangeNow_spec isRange
  have isTaken : range ∈
      (TurnHolds.step json (before.foldl (TurnHolds.step json) start) (.take threadId)).taken :=
    List.mem_append_right _ (Option.mem_toList.mpr isRange)
  have leaves := (sound.step onward.1).leaves names isFilled isTaken isSince.le onward.2 holds
  exact ⟨leaves.1, leaves.2.1⟩

/-! ## Three conversations -/

def plainText : String := "\x7b\x7d"

def withheldText : String := "\x7b\"withheldFromBots\":true\x7d"

def copyText (threadId id : String) : String :=
  "\x7b\"copyOf\":\x7b\"threadId\":\"" ++ threadId ++ "\",\"messageIds\":[\"" ++ id ++ "\"]\x7d\x7d"

def copyFields (threadId id : String) : Fields :=
  { copyOf :=
      some
        { threadId := some threadId
          messageIds := some [some id] } }

/-- What the texts of the three conversations say. -/
def exampleJson (text : String) : Option Fields :=
  if text = plainText then some {}
  else if text = withheldText then some { withheldFromBots := some (.number 1) }
  else if text = copyText "origin" "a" then some (copyFields "origin" "a")
  else if text = copyText "middle" "b" then some (copyFields "middle" "b")
  else none

theorem exampleJson_names : NamesFields exampleJson where
  copyOf := by
    intro text fields isFields isLinked
    unfold exampleJson at isFields
    split_ifs at isFields with isPlain isWithheld isFirst isSecond
    · rw [← Option.some.inj isFields] at isLinked
      exact absurd rfl isLinked
    · rw [← Option.some.inj isFields] at isLinked
      exact absurd rfl isLinked
    · rw [isFirst]
      decide
    · rw [isSecond]
      decide
  withheld := by
    intro text fields isFields isMarked
    unfold exampleJson at isFields
    split_ifs at isFields with isPlain isWithheld isFirst isSecond
    · rw [← Option.some.inj isFields] at isMarked
      exact absurd rfl isMarked
    · rw [isWithheld]
      decide
    · rw [← Option.some.inj isFields] at isMarked
      exact absurd rfl isMarked
    · rw [← Option.some.inj isFields] at isMarked
      exact absurd rfl isMarked

def originKey : Key :=
  { thread := "origin"
    id := "a" }

def middleKey : Key :=
  { thread := "middle"
    id := "b" }

def roomKey : Key :=
  { thread := "room"
    id := "c" }

theorem blank_empty : Blank {} :=
  ⟨List.nodup_nil, rfl, rfl, rfl, rfl⟩

theorem not_above_of_unnamed {lines : List Line}
    (unnamed : ∀ line ∈ lines, key ∉ originals json line.json) (copy : Key) :
    ¬TransGen (Names json lines) copy key := by
  intro above
  obtain ⟨last, -, line, isIn, -, isNamed⟩ := TransGen.tail'_iff.mp above
  exact unnamed line isIn isNamed

theorem careful_insert_unnamed (unnamed : ∀ line ∈ world.lines, key ∉ originals json line.json)
    (untaken : ∀ range ∈ world.taken, range.last ≠ key) :
    Careful json world (.insert key role text) := fun _ =>
  ⟨fun _ line _ _ above => absurd above (not_above_of_unnamed unnamed line.key),
    fun range isTaken isLast => absurd isLast (untaken range isTaken)⟩

/-- The originals are stored before their copies. -/
def exampleOrder : List Event :=
  [.make 1, .fill, .insert originKey .bot plainText,
    .insert middleKey .bot (copyText "origin" "a"), .insert roomKey .bot (copyText "middle" "b")]

def exampleAfter : List Event :=
  [.insert
    { thread := "room"
      id := "d" } .bot plainText]

def exampleRange : HeldRange :=
  { threadId := "room"
    upTo := "c"
    position := 3
    since := 1000 }

theorem careful_fill_empty (world : World) : Careful json { world with lines := [], edges := [] } .fill := by
  refine ⟨fun bottom top above => ?_, fun _ isIn => absurd isIn List.not_mem_nil⟩
  obtain ⟨line, isIn, -⟩ := stored_of_transGen above
  exact absurd isIn List.not_mem_nil

theorem rangeHolds_untouched_example :
    Along (TurnHolds.step exampleJson) (LeavesRange exampleJson exampleRange)
        ((exampleOrder ++ [Event.take "room"]).foldl (TurnHolds.step exampleJson) {})
        exampleAfter ∧
      Event.drop ∉ exampleAfter := by
  have careful : Along (TurnHolds.step exampleJson) (Careful exampleJson) {}
      (exampleOrder ++ Event.take "room" :: exampleAfter) :=
    ⟨fun _ => by decide, careful_fill_empty (initializeTurnSourceHolds 1 {}),
      careful_insert_unnamed (by decide) (by decide),
      careful_insert_unnamed (by decide) (by decide),
      careful_insert_unnamed (by decide) (by decide), trivial,
      careful_insert_unnamed (by decide) (by decide), trivial⟩
  exact rangeHolds_untouched exampleJson_names blank_empty careful (by decide) (by decide)
    (by decide)

/-- A copy of a copy is stored before the copy that it names. -/
def exampleDisorder : List Event :=
  [.make 1, .fill, .insert originKey .bot plainText, .insert roomKey .bot (copyText "middle" "b"),
    .insert middleKey .bot (copyText "origin" "a")]

def exampleWithhold : Event := .update originKey .bot withheldText

def exampleTaken : World :=
  (exampleDisorder ++ [Event.take "room"]).foldl (TurnHolds.step exampleJson) {}

/-- The range of the room still holds after the original of its copy was withheld. -/
theorem rangeHolds_misses_original :
    NamesFields exampleJson ∧ Blank {} ∧ ∃ range : HeldRange,
      threadRangeNow "room" (exampleDisorder.foldl (TurnHolds.step exampleJson) {}) = some range ∧
        (exampleDisorder.foldl (TurnHolds.step exampleJson) {}).filled = true ∧
          rangeHolds range (TurnHolds.step exampleJson exampleTaken exampleWithhold) = true ∧
            TakesAway exampleJson "room" range.position exampleTaken exampleWithhold := by
  refine ⟨exampleJson_names, blank_empty,
    { threadId := "room"
      upTo := "c"
      position := 2
      since := 1000 }, by decide, by decide, by decide, ?_⟩
  refine ⟨Line.mk roomKey 2 .bot (copyText "middle" "b"), by decide, rfl, rfl, rfl, Or.inr ?_⟩
  refine ⟨Line.mk originKey 1 .bot plainText, by decide, ?_, Or.inl ⟨rfl, _, rfl, by decide, ?_⟩⟩
  · refine TransGen.tail (TransGen.single (b := middleKey) ?_) ?_
    · exact ⟨Line.mk roomKey 2 .bot (copyText "middle" "b"), by decide, rfl, by decide⟩
    · exact ⟨Line.mk middleKey 3 .bot (copyText "origin" "a"), by decide, rfl, by decide⟩
  · decide

end Murage.TurnHolds
