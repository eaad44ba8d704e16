import Mathlib.Data.Finset.Card
import Murage.Transcript.HoldRows
import Murage.Transcript.Paging

/-!
Owns what the asks of a numbered transcript mean. `AskCase` says, for each
answer of `nextPage`, what the transcript lacks; every later argument about
paging uses it and never the loops. The loaded state is read off the same
notion: a transcript is complete when it is `Unbroken` up to its tail.

Does not own: what a page brings.
-/

namespace Murage.Transcript

variable {Content : Type}

/-- The rows carry exactly the numbers `1..k`, in order, and all are vouched. -/
structure Unbroken (rows : List (Message Content)) : Prop where
  numbers : rows.map (·.number) = List.range' 1 rows.length
  vouched : ∀ row ∈ rows, row.unvouched = false

/-- What every numbered transcript of this module holds: ordered rows, numbered
from 1. -/
structure WellNumbered (rows : List (Message Content)) : Prop where
  ordered : Ordered rows
  positive : ∀ row ∈ rows, 1 ≤ row.number

namespace Unbroken

variable {rows : List (Message Content)}

theorem mem_number (unbroken : Unbroken rows) {n : Nat} :
    (∃ row ∈ rows, row.number = n) ↔ 1 ≤ n ∧ n ≤ rows.length := by
  rw [← List.mem_map, unbroken.numbers, List.mem_range'_1]
  omega

end Unbroken

theorem eq_range'_of_ascending {numbers : List Nat}
    (ascending : numbers.Pairwise (· < ·))
    (within : ∀ n ∈ numbers, 1 ≤ n ∧ n ≤ numbers.length) :
    numbers = List.range' 1 numbers.length := by
  have distinct : numbers.Nodup := ascending.imp Nat.ne_of_lt
  have inside : numbers.toFinset ⊆ (List.range' 1 numbers.length).toFinset := by
    intro n isIn
    have bounds := within n (List.mem_toFinset.mp isIn)
    rw [List.mem_toFinset, List.mem_range'_1]
    omega
  have same : numbers.toFinset = (List.range' 1 numbers.length).toFinset := by
    refine Finset.eq_of_subset_of_card_le inside ?_
    rw [List.toFinset_card_of_nodup distinct, List.toFinset_card_of_nodup List.nodup_range',
      List.length_range']
  have irreflexive : Std.Irrefl fun a b : Nat => a < b := ⟨Nat.lt_irrefl⟩
  have antisymmetric : Std.Antisymm fun a b : Nat => a < b :=
    ⟨fun _ _ forth back => absurd back (Nat.lt_asymm forth)⟩
  refine ascending.eq_of_mem_iff List.pairwise_lt_range' fun n => ?_
  rw [← List.mem_toFinset, same, List.mem_toFinset]

variable {rows : List (Message Content)}

theorem WellNumbered.unbroken (wellNumbered : WellNumbered rows)
    (below : ∀ row ∈ rows, row.number ≤ rows.length)
    (vouched : ∀ row ∈ rows, row.unvouched = false) : Unbroken rows := by
  refine ⟨?_, vouched⟩
  have ascending : (rows.map (·.number)).Pairwise (· < ·) :=
    List.pairwise_map.mpr wellNumbered.ordered.ascending
  have numbers := eq_range'_of_ascending ascending fun n isIn => by
    obtain ⟨row, rowMember, rfl⟩ := List.mem_map.mp isIn
    rw [List.length_map]
    exact ⟨wellNumbered.positive row rowMember, below row rowMember⟩
  rwa [List.length_map] at numbers

/-! ## The loops, on the rows newest first -/

/-- Newest first, each number is the one below it plus one. -/
abbrev Consecutive (rows : List (Message Content)) : Prop :=
  rows.IsChain fun above below => above.number = below.number + 1

theorem aboveGap_none (descending : rows.Pairwise fun above below => below.number < above.number)
    (none_ : aboveGap rows = none) : Consecutive rows := by
  induction rows using aboveGap.induct with
  | case1 above below rest gap => simp [aboveGap, gap] at none_
  | case2 above below rest noGap ih =>
    rw [aboveGap, if_neg noGap] at none_
    obtain ⟨first, rest⟩ := List.pairwise_cons.mp descending
    have less := first below (by simp)
    exact List.isChain_cons_cons.mpr ⟨by omega, ih rest none_⟩
  | case3 rows short =>
    match rows with
    | [] => exact List.IsChain.nil
    | [row] => exact List.IsChain.singleton row
    | above :: below :: rest => exact absurd rfl (short above below rest)

theorem aboveGap_some {id : String}
    (descending : rows.Pairwise fun above below => below.number < above.number)
    (found : aboveGap rows = some id) :
    ∃ row ∈ rows, row.id = id ∧ 1 < row.number ∧
      ∀ other ∈ rows, other.number ≠ row.number - 1 := by
  induction rows using aboveGap.induct with
  | case1 above below rest gap =>
    rw [aboveGap, if_pos gap] at found
    obtain ⟨-, belowRest⟩ := List.pairwise_cons.mp descending
    refine ⟨above, by simp, Option.some.inj found, by omega, fun other isIn => ?_⟩
    rcases List.mem_cons.mp isIn with rfl | isIn
    · omega
    · rcases List.mem_cons.mp isIn with rfl | isIn
      · omega
      · have := (List.pairwise_cons.mp belowRest).1 other isIn
        omega
  | case2 above below rest noGap ih =>
    rw [aboveGap, if_neg noGap] at found
    obtain ⟨first, rest⟩ := List.pairwise_cons.mp descending
    obtain ⟨row, rowMember, isId, positive, absent⟩ := ih rest found
    refine ⟨row, List.mem_cons_of_mem _ rowMember, isId, positive, fun other isIn => ?_⟩
    rcases List.mem_cons.mp isIn with rfl | isIn
    · have := first row rowMember
      omega
    · exact absent other isIn
  | case3 rows short =>
    match rows with
    | [] => simp [aboveGap] at found
    | [row] => simp [aboveGap] at found
    | above :: below :: rest => exact absurd rfl (short above below rest)

theorem aboveUnvouched_none (none_ : aboveUnvouched rows = none)
    (top : ∀ row, rows.head? = some row → row.unvouched = false) :
    ∀ row ∈ rows, row.unvouched = false := by
  induction rows using aboveUnvouched.induct with
  | case1 above below rest unvouched => simp [aboveUnvouched, unvouched] at none_
  | case2 above below rest vouched ih =>
    rw [aboveUnvouched, if_neg vouched] at none_
    intro row isIn
    rcases List.mem_cons.mp isIn with rfl | isIn
    · exact top row rfl
    · refine ih none_ (fun head isHead => ?_) row isIn
      rw [← Option.some.inj isHead]
      simpa using vouched
  | case3 rows short =>
    match rows with
    | [] => simp
    | [row] => simpa using top row rfl
    | above :: below :: rest => exact absurd rfl (short above below rest)

theorem aboveUnvouched_some {id : String}
    (descending : rows.Pairwise fun above below => below.number < above.number)
    (consecutive : Consecutive rows) (positive : ∀ row ∈ rows, 1 ≤ row.number)
    (found : aboveUnvouched rows = some id) :
    ∃ row ∈ rows, row.id = id ∧ 1 < row.number ∧
      ∀ other ∈ rows, other.number = row.number - 1 → other.unvouched = true := by
  induction rows using aboveUnvouched.induct with
  | case1 above below rest unvouched =>
    rw [aboveUnvouched, if_pos unvouched] at found
    have next := (List.isChain_cons_cons.mp consecutive).1
    have belowPositive := positive below (by simp)
    obtain ⟨-, belowRest⟩ := List.pairwise_cons.mp descending
    refine ⟨above, by simp, Option.some.inj found, by omega, fun other isIn same => ?_⟩
    rcases List.mem_cons.mp isIn with rfl | isIn
    · omega
    · rcases List.mem_cons.mp isIn with rfl | isIn
      · exact unvouched
      · have := (List.pairwise_cons.mp belowRest).1 other isIn
        omega
  | case2 above below rest vouched ih =>
    rw [aboveUnvouched, if_neg vouched] at found
    obtain ⟨first, rest⟩ := List.pairwise_cons.mp descending
    obtain ⟨row, rowMember, isId, large, lacks⟩ := ih rest
      (List.isChain_cons_cons.mp consecutive).2
      (fun other isIn => positive other (List.mem_cons_of_mem _ isIn)) found
    refine ⟨row, List.mem_cons_of_mem _ rowMember, isId, large, fun other isIn same => ?_⟩
    rcases List.mem_cons.mp isIn with rfl | isIn
    · have := first row rowMember
      omega
    · exact lacks other isIn same
  | case3 rows short =>
    match rows with
    | [] => simp [aboveUnvouched] at found
    | [row] => simp [aboveUnvouched] at found
    | above :: below :: rest => exact absurd rfl (short above below rest)

theorem consecutive_length (consecutive : Consecutive rows)
    (last : ∀ row, rows.getLast? = some row → row.number ≤ 1) :
    ∀ row ∈ rows, row.number ≤ rows.length := by
  induction rows with
  | nil => simp
  | cons above rest ih =>
    match rest, consecutive, last, ih with
    | [], _, last, _ => simpa using last above rfl
    | below :: rest, consecutive, last, ih =>
      obtain ⟨next, restConsecutive⟩ := List.isChain_cons_cons.mp consecutive
      have bounded := ih restConsecutive fun row isLast =>
        last row (by rwa [List.getLast?_cons_cons])
      intro row isIn
      rcases List.mem_cons.mp isIn with rfl | isIn
      · have := bounded below (by simp)
        simp only [List.length_cons] at this ⊢
        omega
      · have := bounded row isIn
        rw [List.length_cons]
        omega

/-! ## The asks -/

/-- What each ask of a numbered transcript says it lacks: its tail; the number
that is its tail or its newest row, at which no vouched row is held; the row just
below the asked one; or nothing. -/
inductive AskCase (t : SeqTranscript Content) : Option PageAsk → Prop
  | unknownTail (unknown : t.tail = none) : AskCase t (some .newest)
  | top {tail n : Nat} (known : t.tail = some tail) (positive : 1 ≤ n)
      (isTop : n = tail ∨ ∃ row ∈ t.messages, row.number = n)
      (lacks : ∀ row ∈ t.messages, row.unvouched = false → row.number < n) :
      AskCase t (some .newest)
  | below {tail : Nat} {row : Message Content} (known : t.tail = some tail)
      (member : row ∈ t.messages) (large : 1 < row.number)
      (lacks : ∀ other ∈ t.messages, other.number = row.number - 1 → other.unvouched = true) :
      AskCase t (some (.before row.id none))
  | nothing {tail : Nat} (known : t.tail = some tail) (reached : tail ≤ t.messages.length)
      (unbroken : Unbroken t.messages) : AskCase t none

theorem le_getLast (ordered : Ordered rows) {top row : Message Content}
    (isTop : rows.getLast? = some top) (isIn : row ∈ rows) :
    row.number ≤ top.number := by
  have descending := List.pairwise_reverse.mpr ordered.ascending
  rw [← List.head?_reverse] at isTop
  obtain ⟨rest, split⟩ := List.head?_eq_some_iff.mp isTop
  rw [← List.mem_reverse] at isIn
  rw [split] at descending isIn
  rcases List.mem_cons.mp isIn with rfl | isIn
  · exact Nat.le_refl _
  · exact Nat.le_of_lt ((List.pairwise_cons.mp descending).1 row isIn)

variable {t : SeqTranscript Content}

theorem innerAsk_case {tail : Nat} (wellNumbered : WellNumbered t.messages)
    (known : t.tail = some tail) {top : Message Content} (isTop : t.messages.getLast? = some top)
    (reached : tail ≤ top.number) (topVouched : top.unvouched = false) :
    AskCase t (innerAsk t.messages) := by
  have ordered := wellNumbered.ordered
  have descending : t.messages.reverse.Pairwise fun above below => below.number < above.number :=
    List.pairwise_reverse.mpr ordered.ascending
  have head : t.messages.reverse.head? = some top := by rw [List.head?_reverse, isTop]
  unfold innerAsk
  cases gap : aboveGap t.messages.reverse with
  | some id =>
    obtain ⟨row, isIn, rfl, large, absent⟩ := aboveGap_some descending gap
    refine .below known (List.mem_reverse.mp isIn) large fun other otherMember same => ?_
    exact absurd same (absent other (List.mem_reverse.mpr otherMember))
  | none =>
    have consecutive := aboveGap_none descending gap
    have positive : ∀ row ∈ t.messages.reverse, 1 ≤ row.number := fun row isIn =>
      wellNumbered.positive row (List.mem_reverse.mp isIn)
    cases unvouched : aboveUnvouched t.messages.reverse with
    | some id =>
      obtain ⟨row, isIn, rfl, large, lacks⟩ :=
        aboveUnvouched_some descending consecutive positive unvouched
      exact .below known (List.mem_reverse.mp isIn) large fun other otherMember same =>
        lacks other (List.mem_reverse.mpr otherMember) same
    | none =>
      have vouched : ∀ row ∈ t.messages, row.unvouched = false := fun row isIn =>
        aboveUnvouched_none unvouched
          (fun first isFirst => Option.some.inj (head.symm.trans isFirst) ▸ topVouched)
          row (List.mem_reverse.mpr isIn)
      cases isFirst : t.messages.head? with
      | none =>
        rw [List.head?_eq_none_iff] at isFirst
        simp [isFirst] at isTop
      | some first =>
        obtain ⟨rest, split⟩ := List.head?_eq_some_iff.mp isFirst
        have firstMember : first ∈ t.messages := by simp [split]
        dsimp only
        split_ifs with front
        · refine .below known firstMember front fun other otherMember same => ?_
          rw [split] at otherMember ordered
          rcases List.mem_cons.mp otherMember with rfl | otherMember
          · omega
          · have := (Ordered.cons_iff.mp ordered).2.1 other otherMember
            omega
        · have bounded := consecutive_length consecutive fun row isLast => by
            rw [List.getLast?_reverse, isFirst] at isLast
            rw [← Option.some.inj isLast]
            omega
          rw [List.length_reverse] at bounded
          have topBound := bounded top (List.mem_of_mem_head? (by simp [head]))
          refine .nothing known (by omega) (wellNumbered.unbroken (fun row isIn => ?_) vouched)
          exact bounded row (List.mem_reverse.mpr isIn)

/-- **The asks.** Every ask of a numbered transcript names something it lacks,
and it asks nothing only when it lacks nothing up to its tail. -/
theorem nextPage_case (numbered : t.numbered = true) (wellNumbered : WellNumbered t.messages) :
    AskCase t (nextPage t) := by
  unfold nextPage numberedAsk
  rw [if_pos numbered]
  cases known : t.tail with
  | none => exact .unknownTail known
  | some tail =>
    cases isTop : t.messages.getLast? with
    | none =>
      have empty := List.getLast?_eq_none_iff.mp isTop
      dsimp only
      split_ifs with positive
      · exact .top known positive (Or.inl rfl) (by simp [empty])
      · exact .nothing known (by omega) ⟨by simp [empty], by simp [empty]⟩
    | some top =>
      have topMember := List.mem_of_getLast? isTop
      dsimp only
      split_ifs with newest
      · rcases newest with low | unvouched
        · refine .top known (by omega) (Or.inl rfl) fun row isIn _ => ?_
          have := le_getLast wellNumbered.ordered isTop isIn
          omega
        · refine .top known (wellNumbered.positive top topMember) (Or.inr ⟨top, topMember, rfl⟩)
            fun row isIn vouched => ?_
          refine Nat.lt_of_le_of_ne (le_getLast wellNumbered.ordered isTop isIn) fun same => ?_
          have isRow := wellNumbered.ordered.eq_of_number isIn topMember same
          rw [isRow, unvouched] at vouched
          exact absurd vouched (by simp)
      · rw [not_or] at newest
        exact innerAsk_case wellNumbered known isTop (by omega) (by simpa using newest.2)

theorem nextPage_eq_none_iff (numbered : t.numbered = true) (wellNumbered : WellNumbered t.messages) :
    nextPage t = none ↔
      Unbroken t.messages ∧ ∃ tail, t.tail = some tail ∧ tail ≤ t.messages.length := by
  have asks := nextPage_case numbered wellNumbered
  constructor
  · intro none_
    rw [none_] at asks
    cases asks with
    | nothing known reached unbroken => exact ⟨unbroken, _, known, reached⟩
  · rintro ⟨unbroken, tail, known, reached⟩
    generalize nextPage t = ask at asks
    cases asks with
    | unknownTail unknown => exact absurd (known.symm.trans unknown) (by simp)
    | @top other n isKnown positive isTop lacks =>
      have same : tail = other := Option.some.inj (known.symm.trans isKnown)
      have within : n ≤ t.messages.length := by
        rcases isTop with isTail | held
        · omega
        · exact (unbroken.mem_number.mp held).2
      obtain ⟨row, isIn, isN⟩ := unbroken.mem_number.mpr ⟨positive, within⟩
      have := lacks row isIn (unbroken.vouched row isIn)
      omega
    | @below other row isKnown isIn large lacks =>
      have bounds := unbroken.mem_number.mp ⟨row, isIn, rfl⟩
      obtain ⟨lower, lowerMember, isLower⟩ :=
        (unbroken.mem_number (n := row.number - 1)).mpr ⟨by omega, by omega⟩
      have unvouched := lacks lower lowerMember isLower
      rw [unbroken.vouched lower lowerMember] at unvouched
      exact absurd unvouched (by simp)
    | nothing => rfl

/-- A numbered transcript is complete exactly when its rows are unbroken and end
at the tail. -/
theorem transcriptState_eq_complete_iff (numbered : t.numbered = true)
    (wellNumbered : WellNumbered t.messages) :
    transcriptState t = .complete ↔ Unbroken t.messages ∧ t.tail = some t.messages.length := by
  have numberedRows := wellNumbered.ordered.numbered
  unfold transcriptState
  rw [numbered]
  cases known : t.tail with
  | none =>
    constructor
    · intro complete
      simp only [Bool.not_true, Bool.false_eq_true, if_false] at complete
      split_ifs at complete
    · rintro ⟨-, absurd_⟩
      exact absurd absurd_ (by simp)
  | some tail =>
    simp only [Bool.not_true, Bool.false_eq_true, if_false, Option.some.injEq]
    constructor
    · intro complete
      split_ifs at complete with length ends unvouched
      rw [not_not] at length
      refine ⟨wellNumbered.unbroken (fun row isIn => ?_) ?_, length.symm⟩
      · cases isTop : t.messages.getLast? with
        | none => simp [List.getLast?_eq_none_iff.mp isTop] at isIn
        | some top =>
          have topSeq : top.seq = some tail := by
            simp only [isTop, Option.any_some, Bool.or_eq_true, not_or] at ends
            simpa using ends.2
          have := le_getLast wellNumbered.ordered isTop isIn
          rw [Message.number_of_seq topSeq] at this
          omega
      · simpa using unvouched
    · rintro ⟨unbroken, rfl⟩
      have firstIsOne : t.messages.head?.any (·.seq != some 1) = false := by
        cases isFirst : t.messages.head? with
        | none => rfl
        | some first =>
          obtain ⟨rest, split⟩ := List.head?_eq_some_iff.mp isFirst
          have numbers := unbroken.numbers
          rw [split, List.map_cons, List.length_cons, List.range'_succ] at numbers
          have isOne : first.number = 1 := (List.cons.inj numbers).1
          have seq := numberedRows first (by simp [split])
          simp [seq, isOne]
      have lastIsTail :
          t.messages.getLast?.any (·.seq != some t.messages.length) = false := by
        cases isTop : t.messages.getLast? with
        | none => rfl
        | some top =>
          have numbers := congrArg List.getLast? unbroken.numbers
          have nonempty : t.messages.length ≠ 0 := by
            intro empty
            simp [List.length_eq_zero_iff.mp empty] at isTop
          rw [List.getLast?_map, isTop, List.getLast?_range', if_neg nonempty] at numbers
          have isLength : top.number = 1 + t.messages.length - 1 := Option.some.inj numbers
          have seq := numberedRows top (List.mem_of_getLast? isTop)
          simp only [Option.any_some, seq, isLength]
          simp
      have vouched : t.messages.any (·.unvouched) = false := by
        simpa using unbroken.vouched
      simp [firstIsOne, lastIsTail, vouched]

end Murage.Transcript
