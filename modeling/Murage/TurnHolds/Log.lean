import Murage.TurnHolds.Index
import Mathlib.Data.List.Induction

/-!
Owns what the writes add to the hold log: what a step takes away from a line or from an original of
a copy, under which condition the index stays complete, and that the log then names the place of
every line that the step takes something from.
-/

namespace Murage.TurnHolds

open Relation Murage.Library Murage.Library.Links

variable {json : String → Option Fields} {world next : World} {key : Key} {role : Role}
  {text : String}

/-! ## Entries -/

/-- The later world has more entries, all of them new, and nothing else differs in the log. -/
structure Logs (world next : World) : Prop where
  kept : ∃ more, next.holds = world.holds ++ more ∧
    ∀ hold ∈ more, world.holdLogNow < hold.seq
  lines : next.lines = world.lines
  edges : next.edges = world.edges
  made : next.made = world.made
  filled : next.filled = world.filled
  highest : next.highest = world.highest
  taken : next.taken = world.taken

theorem Logs.refl (world : World) : Logs world world where
  kept := ⟨[], (List.append_nil _).symm, fun _ isIn => absurd isIn List.not_mem_nil⟩
  lines := rfl
  edges := rfl
  made := rfl
  filled := rfl
  highest := rfl
  taken := rfl

theorem top_append (first second : List Nat) : Numbers.top first ≤ Numbers.top (first ++ second) := by
  unfold Numbers.top
  induction first with
  | nil => exact Nat.zero_le _
  | cons number rest ih =>
    exact max_le_max (Nat.le_refl _) ih

theorem Logs.onward (logs : Logs world next) : world.holdLogNow ≤ next.holdLogNow := by
  obtain ⟨more, isMore, -⟩ := logs.kept
  rw [World.holdLogNow, World.holdLogNow, isMore, List.map_append]
  exact top_append _ _

theorem Logs.trans {last : World} (first : Logs world next) (second : Logs next last) :
    Logs world last where
  kept := by
    obtain ⟨more, isMore, isNew⟩ := first.kept
    obtain ⟨further, isFurther, isNewer⟩ := second.kept
    refine ⟨more ++ further, by rw [isFurther, isMore, List.append_assoc], fun hold isIn => ?_⟩
    rcases List.mem_append.mp isIn with isFirst | isSecond
    · exact isNew hold isFirst
    · exact Nat.lt_of_le_of_lt first.onward (isNewer hold isSecond)
  lines := second.lines.trans first.lines
  edges := second.edges.trans first.edges
  made := second.made.trans first.made
  filled := second.filled.trans first.filled
  highest := second.highest.trans first.highest
  taken := second.taken.trans first.taken

theorem Logs.mem (logs : Logs world next) {hold : Hold} (isIn : hold ∈ world.holds) :
    hold ∈ next.holds := by
  obtain ⟨more, isMore, -⟩ := logs.kept
  rw [isMore]
  exact List.mem_append_left _ isIn

variable (thread : String) (position : Nat)

theorem hold_logs (world : World) :
    Logs world (world.hold thread position) where
  kept := ⟨_, rfl, fun hold isIn => by
    rw [List.mem_singleton.mp isIn]
    exact Nat.lt_succ_self _⟩
  lines := rfl
  edges := rfl
  made := rfl
  filled := rfl
  highest := rfl
  taken := rfl

/-- The place is in the log, after what was there. -/
def LoggedSince (since : Nat) (thread : String) (position : Nat) (world : World) : Prop :=
  ∃ hold ∈ world.holds, since < hold.seq ∧ hold.thread = thread ∧ hold.position = position

theorem LoggedSince.later {since : Nat} {thread : String} {position : Nat}
    (logged : LoggedSince since thread position world) (logs : Logs world next) :
    LoggedSince since thread position next := by
  obtain ⟨hold, isIn, isAfter⟩ := logged
  exact ⟨hold, logs.mem isIn, isAfter⟩

theorem LoggedSince.earlier {since earlier : Nat} {thread : String} {position : Nat}
    (logged : LoggedSince since thread position world) (le : earlier ≤ since) :
    LoggedSince earlier thread position world := by
  obtain ⟨hold, isIn, isAfter, rest⟩ := logged
  exact ⟨hold, isIn, Nat.lt_of_le_of_lt le isAfter, rest⟩

theorem hold_logged (world : World) :
    LoggedSince world.holdLogNow thread position (world.hold thread position) :=
  ⟨_, List.mem_append_right _ List.mem_cons_self, Nat.lt_succ_self _, rfl, rfl⟩

theorem holdEdges_logs (edges : List Edge) (world : World) :
    Logs world (edges.foldl (fun later edge => later.hold edge.copy.thread edge.position) world) := by
  induction edges generalizing world with
  | nil => exact Logs.refl world
  | cons edge rest ih =>
    exact (hold_logs _ _ world).trans (ih _)

theorem holdEdges_logged {edges : List Edge} {edge : Edge} (isIn : edge ∈ edges)
    (world : World) :
    LoggedSince world.holdLogNow edge.copy.thread edge.position
      (edges.foldl (fun later edge => later.hold edge.copy.thread edge.position) world) := by
  induction edges generalizing world with
  | nil => exact absurd isIn List.not_mem_nil
  | cons first rest ih =>
    rcases List.mem_cons.mp isIn with rfl | later
    · exact (hold_logged _ _ world).later (holdEdges_logs rest _)
    · exact (ih later _).earlier (hold_logs _ _ world).onward

theorem holdCopies_logs (key : Key) (world : World) : Logs world (world.holdCopies key) :=
  holdEdges_logs _ world

theorem holdCopies_logged {origin copy : Key} {position : Nat}
    (isEdge : Edge.mk origin copy position ∈ world.edges) :
    LoggedSince world.holdLogNow copy.thread position (world.holdCopies origin) :=
  holdEdges_logged (List.mem_filter.mpr ⟨isEdge, decide_eq_true rfl⟩) world

theorem holdBoth_logs (key : Key) (world : World) :
    Logs world ((world.hold thread position).holdCopies key) :=
  (hold_logs _ _ world).trans (holdCopies_logs _ _)

theorem holdBoth_line (key : Key) (world : World) :
    LoggedSince world.holdLogNow thread position ((world.hold thread position).holdCopies key) :=
  (hold_logged _ _ world).later (holdCopies_logs _ _)

theorem holdBoth_copy {origin copy : Key} {place : Nat}
    (isEdge : Edge.mk origin copy place ∈ world.edges) :
    LoggedSince world.holdLogNow copy.thread place
      ((world.hold thread position).holdCopies origin) := by
  have isEdgeLater : Edge.mk origin copy place ∈ (world.hold thread position).edges := isEdge
  exact (holdCopies_logged isEdgeLater).earlier (hold_logs _ _ world).onward

/-! ## What a step takes away -/

def withheldOf (json : String → Option Fields) (text : String) : Option Scalar :=
  (json text).bind (·.withheldFromBots)

def linkOf (json : String → Option Fields) (text : String) : Option CopyOf :=
  (json text).bind (·.copyOf)

/-- The step withholds the stored line from bots. -/
def Withheld (json : String → Option Fields) (line : Line) : Event → Prop
  | .update key _ text =>
    line.key = key ∧ ∃ fields, json text = some fields ∧ fields.shown = false ∧
      withheldOf json line.json ≠ fields.withheldFromBots
  | _ => False

/-- The step gives the stored line another copy link. -/
def Relinked (json : String → Option Fields) (line : Line) : Event → Prop
  | .update key _ text => line.key = key ∧ linkOf json line.json ≠ linkOf json text
  | _ => False

def Replaced (line : Line) : Event → Prop
  | .replace key _ _ => line.key = key
  | _ => False

/-- Memory forgets a source that was captured from the stored line. -/
def Forgotten (line : Line) : Event → Prop
  | .forget sourceOf sourceIds => ∃ id ∈ sourceIds, sourceOf id = some line.key
  | _ => False

def Deleted (line : Line) : Event → Prop
  | .delete key => line.key = key
  | _ => False

def TakesOriginal (json : String → Option Fields) (line : Line) (event : Event) : Prop :=
  Withheld json line event ∨ Replaced line event ∨ Forgotten line event ∨ Deleted line event

def TakesLine (json : String → Option Fields) (line : Line) (event : Event) : Prop :=
  Withheld json line event ∨ Replaced line event ∨ Forgotten line event ∨ Relinked json line event

/-- **The step takes something away** from a bot's line of the thread at the place: from the line,
or from an original of it at any depth. -/
def TakesAway (json : String → Option Fields) (thread : String) (position : Nat) (world : World)
    (event : Event) : Prop :=
  ∃ line ∈ world.lines, line.role = .bot ∧ line.key.thread = thread ∧ line.position = position ∧
    (TakesLine json line event ∨
      ∃ original ∈ world.lines, TransGen (Names json world.lines) line.key original.key ∧
        TakesOriginal json original event)

/-! ## The condition -/

/-- No bot's line is a copy of the line. -/
def Uncopied (json : String → Option Fields) (world : World) (key : Key) : Prop :=
  ∀ line ∈ world.lines, line.role = .bot → ¬TransGen (Names json world.lines) line.key key

/-- A line that is stored under the last line of a range is stored no earlier than that was. -/
def StoredLater (world : World) (key : Key) : Prop :=
  ∀ range ∈ world.taken, range.last = key → range.position ≤ world.newPosition

/-- **The condition on a step.** A line is stored or written anew only where the index knows its
copies under all that it then rests on, and a line that ended a range is not stored again at an
earlier place; a bot's line stays a bot's, and no bot's line is a copy of an owner's line that is
withheld, replaced or forgotten; the fill meets chains of bounded length and no stale place; and a
log is made again later than the entries of the last one. -/
def Careful (json : String → Option Fields) (world : World) : Event → Prop
  | .insert key _ text =>
    world.find key = none →
      (world.filled = true → Covers json world key text) ∧ StoredLater world key
  | .replace key _ text =>
    (world.filled = true → Covers json world key text) ∧
      (world.find key = none → StoredLater world key) ∧
        ∀ old, world.find key = some old → old.role = .user → Uncopied json world key
  | .update key role text =>
    ∀ old, world.find key = some old →
      role = old.role ∧
        (world.filled = true →
          originals json text = originals json old.json ∨
            Covers json world key text ∧ CoversSelf json world key text) ∧
          (role = .user → Uncopied json world key)
  | .forget sourceOf sourceIds =>
    ∀ id ∈ sourceIds, ∀ old ∈ world.lines, sourceOf id = some old.key → old.role = .user →
      Uncopied json world old.key
  | .fill => Shallow (Names json world.lines) 9 ∧ Current world.lines world.edges
  | .make now => world.holds = [] → world.highest < now * 1000
  | .delete _ | .take _ | .drop => True

structure NamesFields (json : String → Option Fields) : Prop where
  copyOf : ∀ text fields, json text = some fields → fields.copyOf ≠ none →
    instr "copyOf".toList text.toList = true
  withheld : ∀ text fields, json text = some fields → fields.withheldFromBots ≠ none →
    instr "withheldFromBots".toList text.toList = true

/-! ## The trigger after an update fires -/

theorem takesAway_of_withheld (names : NamesFields json) {before : String} {fields : Fields}
    (isFields : json text = some fields) (notShown : fields.shown = false)
    (isNew : withheldOf json before ≠ fields.withheldFromBots) :
    takesAway json before text = true := by
  have isMarked : fields.withheldFromBots ≠ none := by
    intro unmarked
    simp [Fields.shown, unmarked] at notShown
  have named := names.withheld text fields isFields isMarked
  have notSame : before ≠ text := by
    rintro rfl
    exact isNew (by rw [withheldOf, isFields]; rfl)
  unfold takesAway copyFieldsChanged
  rw [isFields, named]
  cases isBefore : json before with
  | none => simp [fieldsDiffer, staysShown, notSame]
  | some old =>
    have differs : old.withheldFromBots ≠ fields.withheldFromBots := by
      rw [withheldOf, isBefore] at isNew
      exact isNew
    simp [fieldsDiffer, staysShown, notSame, notShown, differs]

theorem takesAway_of_relinked (names : NamesFields json) {before : String}
    (isNew : linkOf json before ≠ linkOf json text) : takesAway json before text = true := by
  have notSame : before ≠ text := by
    rintro rfl
    exact isNew rfl
  have named : instr "copyOf".toList before.toList = true ∨
      instr "copyOf".toList text.toList = true := by
    by_contra neither
    obtain ⟨notBefore, notAfter⟩ := not_or.mp neither
    refine isNew ?_
    have unlinked : ∀ other, ¬instr "copyOf".toList other.toList = true →
        linkOf json other = none := by
      intro other notNamed
      by_contra isLinked
      unfold linkOf at isLinked
      cases isOther : json other with
      | none =>
        rw [isOther] at isLinked
        exact isLinked rfl
      | some fields =>
        rw [isOther] at isLinked
        exact notNamed (names.copyOf other fields isOther isLinked)
    rw [unlinked before notBefore, unlinked text notAfter]
  unfold takesAway copyFieldsChanged
  have mentions : (instr "withheldFromBots".toList before.toList ||
      instr "withheldFromBots".toList text.toList || instr "copyOf".toList before.toList ||
        instr "copyOf".toList text.toList) = true := by
    rcases named with isBefore | isAfter
    · rw [isBefore, Bool.or_true, Bool.true_or]
    · rw [isAfter, Bool.or_true]
  rw [mentions]
  cases isBefore : json before with
  | none => simp [fieldsDiffer, staysShown, notSame]
  | some old =>
    cases isAfter : json text with
    | none => simp [fieldsDiffer, staysShown, notSame]
    | some new =>
      have differs : old.copyOf ≠ new.copyOf := by
        rw [linkOf, linkOf, isBefore, isAfter] at isNew
        exact isNew
      simp [fieldsDiffer, staysShown, notSame, differs]

end Murage.TurnHolds
