import Murage.SteerLineage.Ranges

/-!
Owns what a running turn's sources cover: each line it was given is named or within a range, each
range it was given is held, the counts stay within their limits, and how many lines are named.

Does not own: how ranges are placed.
-/

namespace Murage.SteerLineage

/-! ## Keys -/

/-- A text without the character that parts the two halves of a key. -/
def Separable (text : String) : Prop := '\x00' ∉ text.toList

instance (text : String) : Decidable (Separable text) := inferInstanceAs (Decidable (¬ _))

theorem keyOf_inj {threadId id otherThread other : String} (isFirst : Separable threadId)
    (isSecond : Separable otherThread) (same : keyOf threadId id = keyOf otherThread other) :
    threadId = otherThread ∧ id = other := by
  have firstHalf : ∀ {text rest : String}, Separable text →
      (keyOf text rest).toList.takeWhile (· ≠ '\x00') = text.toList := by
    intro text rest isSeparable
    have areText : ∀ c ∈ text.toList, decide (c ≠ '\x00') = true := fun c isChar =>
      decide_eq_true fun isSame => isSeparable (isSame ▸ isChar)
    rw [keyOf, String.toList_append, String.toList_append, List.append_assoc,
      List.takeWhile_append_of_pos areText]
    exact List.append_nil _
  have isThread : threadId = otherThread := by
    rw [← String.toList_inj, ← @firstHalf threadId id isFirst, same, firstHalf isSecond]
  subst isThread
  refine ⟨rfl, ?_⟩
  have letters := congrArg String.toList same
  simp only [keyOf, String.toList_append] at letters
  exact String.toList_inj.1 (List.append_cancel_left letters)

/-! ## Lines that join -/

def Named (named : List ShownLine) (line : ShownLine) : Prop :=
  ∃ other ∈ named, other.threadId = line.threadId ∧ other.id = line.id

def Carried (messages : List Row) (named : List ShownLine) (ranges : List HeldRange)
    (line : ShownLine) : Prop :=
  Named named line ∨ ∃ position, positionIn messages line.threadId line.id = some position ∧
    Covers ranges line.threadId position

theorem Carried.mono {messages : List Row} {named more : List ShownLine}
    {before after : List HeldRange} {line : ShownLine}
    (isCarried : Carried messages named before line) (appended : List Row)
    (widened : Widened before after) :
    Carried (messages ++ appended) (named ++ more) after line := by
  rcases isCarried with ⟨other, isNamed, isSame⟩ | ⟨position, isStored, covers⟩
  · exact Or.inl ⟨other, List.mem_append_left _ isNamed, isSame⟩
  · exact Or.inr ⟨position, positionIn_append isStored appended, covers.mono widened⟩

theorem addLines_grown {db : Database} {lines sources later : List ShownLine}
    {known : List String} {ranges : List HeldRange}
    (isEnd : (addLines db lines known sources ranges).1 = .named later) :
    ∃ more, later = sources ++ more ∧ ∀ line ∈ more, line ∈ lines := by
  induction lines generalizing sources known ranges with
  | nil =>
    cases Sources.named.inj isEnd
    exact ⟨[], (List.append_nil _).symm, nofun⟩
  | cons line rest ih =>
    have later : ∀ {more : List ShownLine}, (∀ other ∈ more, other ∈ rest) →
        ∀ other ∈ more, other ∈ line :: rest :=
      fun areNew other isOther => List.mem_cons_of_mem _ (areNew other isOther)
    rw [addLines] at isEnd
    by_cases isSkipped : line.ofUser = true ∨ line.key ∈ known
    · rw [if_pos isSkipped] at isEnd
      obtain ⟨more, isLater, areNew⟩ := ih isEnd
      exact ⟨more, isLater, later areNew⟩
    rw [if_neg isSkipped] at isEnd
    cases isPlace : place db ranges line with
    | some middle =>
      rw [isPlace] at isEnd
      obtain ⟨more, isLater, areNew⟩ := ih isEnd
      exact ⟨more, isLater, later areNew⟩
    | none =>
      rw [isPlace] at isEnd
      dsimp only at isEnd
      by_cases isFull : TURN_SOURCES_MAX < (sources ++ [line]).length
      · rw [if_pos isFull] at isEnd
        cases isEnd
      rw [if_neg isFull] at isEnd
      obtain ⟨more, isLater, areNew⟩ := ih isEnd
      refine ⟨line :: more, ?_, fun other isOther => ?_⟩
      · rw [isLater, List.append_assoc, List.singleton_append]
      · rcases List.mem_cons.1 isOther with rfl | isMore
        · exact List.mem_cons_self
        · exact later areNew other isMore

/-- What the walk over the lines leaves when the sources do not go over. -/
structure Joined (messages : List Row) (lines : List ShownLine) (ranges : List HeldRange)
    (later : List ShownLine) (laterRanges : List HeldRange) : Prop where
  placed : Placed messages laterRanges
  widened : Widened ranges laterRanges
  count : laterRanges.length = ranges.length
  carried : ∀ line ∈ lines, line.ofUser = false → Carried messages later laterRanges line

theorem Joined.first {messages : List Row} {line : ShownLine} {rest later : List ShownLine}
    {ranges middle laterRanges : List HeldRange}
    (joined : Joined messages rest middle later laterRanges)
    (widened : Widened ranges middle) (sameCount : middle.length = ranges.length)
    (isCarried : line.ofUser = false → Carried messages later laterRanges line) :
    Joined messages (line :: rest) ranges later laterRanges where
  placed := joined.placed
  widened := widened.trans joined.widened
  count := joined.count.trans sameCount
  carried := by
    intro other isOther notUser
    rcases List.mem_cons.1 isOther with rfl | isLater
    · exact isCarried notUser
    · exact joined.carried other isLater notUser

/-- **Each line that joins is carried**, unless the sources go over. -/
theorem addLines_joined {db : Database} {lines sources later : List ShownLine}
    {ranges laterRanges : List HeldRange} (placed : Placed db.messages ranges)
    (areSeparable : ∀ line ∈ sources ++ lines, Separable line.threadId)
    (isEnd : addLines db lines (sources.map ShownLine.key) sources ranges
      = (.named later, laterRanges)) :
    Joined db.messages lines ranges later laterRanges := by
  induction lines generalizing sources ranges with
  | nil =>
    obtain ⟨isNamed, rfl⟩ := Prod.mk.inj isEnd
    exact ⟨placed, .refl ranges, rfl, nofun⟩
  | cons line rest ih =>
    have restSeparable : ∀ other ∈ sources ++ rest, Separable other.threadId := by
      intro other isOther
      refine areSeparable other ?_
      rcases List.mem_append.1 isOther with isOld | isLater
      · exact List.mem_append_left _ isOld
      · exact List.mem_append_right _ (List.mem_cons_of_mem _ isLater)
    rw [addLines] at isEnd
    by_cases isSkipped : line.ofUser = true ∨ line.key ∈ sources.map ShownLine.key
    · rw [if_pos isSkipped] at isEnd
      refine (ih placed restSeparable isEnd).first (.refl ranges) rfl
        fun notUser => ?_
      -- A known key is the key of a line that is named.
      obtain ⟨other, isNamed, isKey⟩ :=
        List.mem_map.1 (isSkipped.resolve_left (ne_true_of_eq_false notUser))
      obtain ⟨isThread, isId⟩ := keyOf_inj (areSeparable other (List.mem_append_left _ isNamed))
        (areSeparable line (List.mem_append_right _ List.mem_cons_self)) isKey
      obtain ⟨more, rfl, _⟩ := addLines_grown (congrArg Prod.fst isEnd)
      exact Or.inl ⟨other, List.mem_append_left _ isNamed, isThread, isId⟩
    rw [if_neg isSkipped] at isEnd
    cases isPlace : place db ranges line with
    | some middle =>
      rw [isPlace] at isEnd
      have isPlaced := place_some placed isPlace
      have joined := ih isPlaced.placed restSeparable isEnd
      refine joined.first isPlaced.widened ?_ fun _ => ?_
      · have counted := congrArg List.length (place_threads isPlace)
        rwa [List.length_map, List.length_map] at counted
      · obtain ⟨position, isStored, covers⟩ := isPlaced.covered
        exact Or.inr ⟨position, isStored, covers.mono joined.widened⟩
    | none =>
      rw [isPlace] at isEnd
      dsimp only at isEnd
      by_cases isFull : TURN_SOURCES_MAX < (sources ++ [line]).length
      · rw [if_pos isFull] at isEnd
        cases isEnd
      rw [if_neg isFull, show sources.map ShownLine.key ++ [line.key]
        = (sources ++ [line]).map ShownLine.key by rw [List.map_append]; rfl] at isEnd
      have joined := ih placed
        (by rwa [List.append_assoc, List.singleton_append]) isEnd
      refine joined.first (.refl ranges) rfl fun _ => Or.inl ⟨line, ?_, rfl, rfl⟩
      obtain ⟨more, rfl, _⟩ := addLines_grown (congrArg Prod.fst isEnd)
      exact List.mem_append_left _ (List.mem_append_right _ (List.mem_singleton_self _))

/-! ## How many lines are named -/

theorem roomFor_congr {db : Database} {lines : List ShownLine} {known : List String}
    {ranges other : List HeldRange}
    (sameThreads : ranges.map (·.threadId) = other.map (·.threadId)) :
    roomFor db ranges lines known = roomFor db other lines known := by
  have sameWidest : ∀ threadId,
      (widestRange ranges threadId).isSome = (widestRange other threadId).isSome := by
    intro threadId
    rw [Bool.eq_iff_iff, widestRange_isSome, widestRange_isSome, sameThreads]
  induction lines generalizing known with
  | nil => rfl
  | cons line rest ih =>
    rw [roomFor, roomFor, sameWidest, ih, ih]

/-- How many lines the walk named, when it counts `room`. -/
def Counted (sources : List ShownLine) (room : Nat) : Sources → Prop
  | .over => TURN_SOURCES_MAX < sources.length + room
  | .named later =>
    later.length = sources.length + room ∧ (later.length ≤ TURN_SOURCES_MAX ∨ room = 0)

/-- **The walk that counts and the walk that names agree**: as many lines are named as are counted,
and the sources go over exactly when these do not fit. -/
theorem addLines_counted {db : Database} {lines sources : List ShownLine} {known : List String}
    {ranges : List HeldRange} :
    Counted sources (roomFor db ranges lines known)
      (addLines db lines known sources ranges).1 := by
  induction lines generalizing sources known ranges with
  | nil => exact ⟨rfl, Or.inr rfl⟩
  | cons line rest ih =>
    rw [addLines, roomFor]
    by_cases isSkipped : line.ofUser = true ∨ line.key ∈ known
    · rw [if_pos isSkipped, if_pos isSkipped]
      exact ih
    rw [if_neg isSkipped, if_neg isSkipped]
    cases isPlace : place db ranges line with
    | some middle =>
      have isWithin := place_isSome.1 (Option.isSome_of_eq_some isPlace)
      rw [if_pos isWithin, roomFor_congr (place_threads isPlace).symm]
      exact ih
    | none =>
      have isOutside : ¬ ((widestRange ranges line.threadId).isSome ∧
          (db.storedPosition line.threadId line.id).isSome) := by
        rw [← place_isSome, isPlace]
        exact Bool.false_ne_true
      rw [if_neg isOutside]
      dsimp only
      have isLonger : (sources ++ [line]).length = sources.length + 1 := List.length_append
      by_cases isFull : TURN_SOURCES_MAX < (sources ++ [line]).length
      · rw [if_pos isFull]
        show TURN_SOURCES_MAX < _
        omega
      · rw [if_neg isFull]
        have counted := @ih (sources ++ [line]) (known ++ [line.key]) ranges
        cases isEnd : (addLines db rest (known ++ [line.key]) (sources ++ [line]) ranges).1 with
        | «over» =>
          rw [isEnd, Counted] at counted
          show TURN_SOURCES_MAX < _
          omega
        | named later =>
          rw [isEnd, Counted] at counted
          refine ⟨?_, Or.inl ?_⟩
          · omega
          · omega

end Murage.SteerLineage
