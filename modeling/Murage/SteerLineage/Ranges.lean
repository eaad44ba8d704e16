import Murage.SteerLineage.Model

/-!
Owns what held ranges cover: which range of a conversation reaches furthest, that a line is placed
in it, and that ranges are only ever carried on.

Does not own: the lines that are named.
-/

namespace Murage.SteerLineage

/-! ## Stored positions -/

variable {messages : List Row} {threadId : String} {position : Nat}

theorem positionIn_append {id : String} (isStored : positionIn messages threadId id = some position)
    (appended : List Row) :
    positionIn (messages ++ appended) threadId id = some position := by
  obtain ⟨row, isRow, rfl⟩ := Option.map_eq_some_iff.1 isStored
  rw [positionIn, List.find?_append, isRow]
  rfl

theorem storedPosition_stored {db : Database} {id : String}
    (isStored : db.storedPosition threadId id = some position) :
    positionIn db.messages threadId id = some position := by
  rw [Database.storedPosition] at isStored
  split at isStored
  · cases isStored
  · exact isStored

/-- Each range is kept with the stored position of its last line. -/
def Placed (messages : List Row) (ranges : List HeldRange) : Prop :=
  ∀ range ∈ ranges, positionIn messages range.threadId range.upTo = some range.position

variable {ranges : List HeldRange}

theorem Placed.append (placed : Placed messages ranges) (appended : List Row) :
    Placed (messages ++ appended) ranges :=
  fun range isHeld => positionIn_append (placed range isHeld) appended

/-! ## The widest range -/

theorem widestFrom_spec {start : Nat} {all : List HeldRange} {widest : Option (Nat × HeldRange)}
    (areRest : ∀ k, ranges[k]? = all[start + k]?)
    (isBest : ∀ found ∈ widest, all[found.1]? = some found.2 ∧ found.2.threadId = threadId)
    {index : Nat} {range : HeldRange}
    (isWidest : widestFrom threadId start ranges widest = some (index, range)) :
    all[index]? = some range ∧ range.threadId = threadId := by
  induction ranges generalizing start widest with
  | nil => exact isBest _ isWidest
  | cons first rest ih =>
    refine ih (fun k => ?_) (fun found isFound => ?_) isWidest
    · rw [show start + 1 + k = start + (k + 1) by omega, ← areRest (k + 1)]
      rfl
    · split at isFound
      · rename_i wider
        cases isFound
        exact ⟨(areRest 0).symm, (of_decide_eq_true wider).1⟩
      · exact isBest found isFound

theorem widestFrom_isSome {start : Nat} {widest : Option (Nat × HeldRange)} :
    (widestFrom threadId start ranges widest).isSome ↔
      widest.isSome ∨ ∃ range ∈ ranges, range.threadId = threadId := by
  induction ranges generalizing start widest with
  | nil => simp [widestFrom]
  | cons first rest ih =>
    rw [widestFrom, ih]
    simp only [List.mem_cons, exists_eq_or_imp]
    by_cases isThread : first.threadId = threadId
    · cases widest with
      | none => simp [isThread]
      | some found =>
        refine iff_of_true (Or.inl ?_) (Or.inl rfl)
        split <;> rfl
    · simp [isThread]

theorem widestRange_held {index : Nat} {range : HeldRange}
    (isWidest : widestRange ranges threadId = some (index, range)) :
    ranges[index]? = some range ∧ range.threadId = threadId :=
  widestFrom_spec (fun k => by rw [Nat.zero_add]) (fun _ isFound => by cases isFound) isWidest

theorem widestRange_isSome :
    (widestRange ranges threadId).isSome ↔ threadId ∈ ranges.map (·.threadId) := by
  rw [widestRange, widestFrom_isSome, List.mem_map]
  simp

/-! ## Wider ranges -/

/-- The range reaches as far, from as early a moment. -/
structure HeldRange.Contains (wider range : HeldRange) : Prop where
  thread : wider.threadId = range.threadId
  since : wider.since ≤ range.since
  reach : range.position ≤ wider.position

theorem HeldRange.Contains.refl (range : HeldRange) : range.Contains range :=
  ⟨rfl, Nat.le_refl _, Nat.le_refl _⟩

theorem HeldRange.Contains.trans {a b c : HeldRange} (first : a.Contains b)
    (second : b.Contains c) : a.Contains c :=
  ⟨first.thread.trans second.thread, Nat.le_trans first.since second.since,
    Nat.le_trans second.reach first.reach⟩

/-- Each range is contained in one of the later ranges. -/
def Widened (before after : List HeldRange) : Prop :=
  ∀ range ∈ before, ∃ wider ∈ after, wider.Contains range

theorem Widened.refl (ranges : List HeldRange) : Widened ranges ranges :=
  fun range isHeld => ⟨range, isHeld, .refl range⟩

theorem Widened.trans {a b c : List HeldRange} (first : Widened a b) (second : Widened b c) :
    Widened a c := by
  intro range isHeld
  obtain ⟨wider, isLater, contains⟩ := first range isHeld
  obtain ⟨widest, isLast, containsWider⟩ := second wider isLater
  exact ⟨widest, isLast, containsWider.trans contains⟩

def Covers (ranges : List HeldRange) (threadId : String) (position : Nat) : Prop :=
  ∃ range ∈ ranges, range.threadId = threadId ∧ position ≤ range.position

variable {before after : List HeldRange}

theorem Covers.mono (covers : Covers before threadId position) (widened : Widened before after) :
    Covers after threadId position := by
  obtain ⟨range, isHeld, rfl, isWithin⟩ := covers
  obtain ⟨wider, isLater, contains⟩ := widened range isHeld
  exact ⟨wider, isLater, contains.thread, Nat.le_trans isWithin contains.reach⟩

/-! ## Placing a line -/

theorem mem_set_of {index : Nat} {range wider other : HeldRange}
    (isHeld : ranges[index]? = some range) (isOther : other ∈ ranges) :
    other ∈ ranges.set index wider ∨ other = range := by
  obtain ⟨k, isBelow, rfl⟩ := List.mem_iff_getElem.1 isOther
  by_cases isSame : index = k
  · subst isSame
    rw [List.getElem?_eq_getElem isBelow] at isHeld
    exact Or.inr (Option.some.inj isHeld)
  · refine Or.inl (List.mem_iff_getElem.2 ⟨k, by rwa [List.length_set], ?_⟩)
    rw [List.getElem_set_ne isSame]

theorem threads_set {index : Nat} {range wider : HeldRange} (isHeld : ranges[index]? = some range)
    (isThread : wider.threadId = range.threadId) :
    (ranges.set index wider).map (·.threadId) = ranges.map (·.threadId) := by
  refine List.ext_getElem? fun k => ?_
  rw [List.getElem?_map, List.getElem?_map, List.getElem?_set]
  split
  · rename_i isSame
    subst isSame
    obtain ⟨isBelow, _⟩ := List.getElem?_eq_some_iff.1 isHeld
    rw [if_pos isBelow, isHeld, Option.map_some, Option.map_some, isThread]
  · rfl

theorem place_threads {db : Database} {later : List HeldRange} {line : ShownLine}
    (isPlaced : place db ranges line = some later) :
    later.map (·.threadId) = ranges.map (·.threadId) := by
  rw [place] at isPlaced
  split at isPlaced
  · cases isPlaced
  rename_i index range isWidest
  obtain ⟨isHeld, _⟩ := widestRange_held isWidest
  obtain ⟨position, _, rfl⟩ := Option.map_eq_some_iff.1 isPlaced
  by_cases isBeyond : range.position < position
  · rw [if_pos isBeyond]
    exact threads_set isHeld rfl
  · rw [if_neg isBeyond]

structure PlacedAs (messages : List Row) (before after : List HeldRange) (line : ShownLine) :
    Prop where
  placed : Placed messages after
  widened : Widened before after
  covered : ∃ position, positionIn messages line.threadId line.id = some position ∧
    Covers after line.threadId position

/-- **A line that is placed is within a range, which was carried on to it if need be.** -/
theorem place_some {db : Database} {later : List HeldRange} {line : ShownLine}
    (placed : Placed db.messages ranges) (isPlaced : place db ranges line = some later) :
    PlacedAs db.messages ranges later line := by
  rw [place] at isPlaced
  split at isPlaced
  · cases isPlaced
  rename_i index range isWidest
  obtain ⟨isHeld, isThread⟩ := widestRange_held isWidest
  obtain ⟨position, isPosition, rfl⟩ := Option.map_eq_some_iff.1 isPlaced
  have isStored := storedPosition_stored isPosition
  have isIn : range ∈ ranges := List.mem_of_getElem? isHeld
  by_cases isBeyond : range.position < position
  · rw [if_pos isBeyond]
    have isNew : range.carriedOn line.id position ∈
        ranges.set index (range.carriedOn line.id position) := by
      obtain ⟨isBelow, _⟩ := List.getElem?_eq_some_iff.1 isHeld
      exact List.mem_set isBelow _
    refine ⟨?_, ?_, position, isStored, _, isNew, isThread, Nat.le_refl _⟩
    · intro other isOther
      rcases List.mem_or_eq_of_mem_set isOther with isOld | rfl
      · exact placed other isOld
      · rw [← isThread] at isStored
        exact isStored
    · intro other isOther
      rcases mem_set_of isHeld isOther with isLeft | rfl
      · exact ⟨other, isLeft, .refl other⟩
      · exact ⟨_, isNew, rfl, Nat.le_refl _, Nat.le_of_lt isBeyond⟩
  · rw [if_neg isBeyond]
    exact ⟨placed, .refl ranges, position, isStored, range, isIn, isThread,
      Nat.le_of_not_lt isBeyond⟩

theorem place_isSome {db : Database} {line : ShownLine} :
    (place db ranges line).isSome ↔
      (widestRange ranges line.threadId).isSome ∧
        (db.storedPosition line.threadId line.id).isSome := by
  rw [place]
  cases widestRange ranges line.threadId with
  | none => simp
  | some found => simp

/-! ## A given range -/

def Held (messages : List Row) (ranges : List HeldRange) (range : SourceRange) : Prop :=
  ∃ last, positionIn messages range.threadId range.upTo = some last ∧
    ∃ held ∈ ranges, held.threadId = range.threadId ∧ held.since ≤ range.since ∧
      last ≤ held.position

variable {range : SourceRange}

theorem Held.mono (held : Held messages before range) (appended : List Row)
    (widened : Widened before after) :
    Held (messages ++ appended) after range := by
  obtain ⟨last, isStored, kept, isKept, isThread, isEarly, isWithin⟩ := held
  obtain ⟨wider, isLater, contains⟩ := widened kept isKept
  exact ⟨last, positionIn_append isStored appended, wider, isLater,
    contains.thread.trans isThread, Nat.le_trans contains.since isEarly,
    Nat.le_trans isWithin contains.reach⟩

theorem Held.widen (held : Held messages before range) (widened : Widened before after) :
    Held messages after range := by
  have isStill := held.mono [] widened
  rwa [List.append_nil] at isStill

variable {held : List HeldRange}

theorem Held.of_known (placed : Placed messages held) (isKnown : range.heldIn held = true) :
    Held messages held range := by
  obtain ⟨kept, isKept, isSame⟩ := List.any_eq_true.1 isKnown
  obtain ⟨isThread, isLast, isEarly⟩ := of_decide_eq_true isSame
  have isStored := placed kept isKept
  rw [isThread, isLast] at isStored
  exact ⟨kept.position, isStored, kept, isKept, isThread, isEarly, Nat.le_refl _⟩

theorem Held.of_push (isStored : positionIn messages range.threadId range.upTo = some position) :
    Held messages (held ++ [range.heldAt position]) range :=
  ⟨position, isStored, range.heldAt position, List.mem_append_right held List.mem_cons_self, rfl,
    Nat.le_refl _, Nat.le_refl _⟩

theorem Placed.push (placed : Placed messages held)
    (isStored : positionIn messages range.threadId range.upTo = some position) :
    Placed messages (held ++ [range.heldAt position]) := by
  intro other isOther
  rcases List.mem_append.1 isOther with isOld | isLast
  · exact placed other isOld
  · cases List.mem_singleton.1 isLast
    exact isStored

theorem Widened.push (held : List HeldRange) (range : HeldRange) :
    Widened held (held ++ [range]) :=
  fun other isOther => ⟨other, List.mem_append_left _ isOther, .refl other⟩

/-- **Ranges that join are held**, unless the turn's sources go over. -/
theorem addHeld_spec {db : Database} {ranges : List SourceRange} (placed : Placed db.messages held)
    (isShort : held.length ≤ TURN_RANGES_MAX) (stays : (addHeld db ranges held).1 = false) :
    Placed db.messages (addHeld db ranges held).2 ∧ Widened held (addHeld db ranges held).2 ∧
      (addHeld db ranges held).2.length ≤ TURN_RANGES_MAX ∧
      ∀ range ∈ ranges, Held db.messages (addHeld db ranges held).2 range := by
  induction ranges generalizing held with
  | nil => exact ⟨placed, .refl held, isShort, fun _ isRange => nomatch isRange⟩
  | cons range rest ih =>
    rw [addHeld] at stays ⊢
    by_cases isKnown : range.heldIn held = true
    · rw [if_pos isKnown] at stays ⊢
      obtain ⟨laterPlaced, widened, laterShort, areHeld⟩ :=
        ih placed isShort stays
      refine ⟨laterPlaced, widened, laterShort, fun other isOther => ?_⟩
      rcases List.mem_cons.1 isOther with rfl | isLater
      · exact (Held.of_known placed isKnown).widen widened
      · exact areHeld other isLater
    rw [if_neg isKnown] at stays ⊢
    cases isPosition : db.storedPosition range.threadId range.upTo with
    | none =>
      rw [isPosition] at stays
      cases stays
    | some position =>
      rw [isPosition] at stays
      dsimp only at stays ⊢
      have isStored := storedPosition_stored isPosition
      by_cases isFull : TURN_RANGES_MAX < (held ++ [range.heldAt position]).length
      · rw [if_pos isFull] at stays
        cases stays
      rw [if_neg isFull] at stays ⊢
      obtain ⟨laterPlaced, widened, laterShort, areHeld⟩ :=
        ih (placed.push isStored) (Nat.le_of_not_lt isFull) stays
      refine ⟨laterPlaced, (Widened.push held _).trans widened, laterShort,
        fun other isOther => ?_⟩
      rcases List.mem_cons.1 isOther with rfl | isLater
      · exact (Held.of_push isStored).widen widened
      · exact areHeld other isLater

end Murage.SteerLineage
