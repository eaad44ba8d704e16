import Mathlib

/-!
Owns windows of a list that is ordered by a rank alone: when sorting a window by a finer order gives
the same page as sorting the whole list by it. It names no system.
-/

namespace Murage.Library.TieWindows

variable {α β : Type*} [LinearOrder β] {rank : α → β} {le : α → α → Prop}

/-- The rows of a page that starts inside the middle of three parts, and ends there or at the end of
the list. -/
theorem page_of_parts (low middle high : List α) {offset limit : Nat}
    (isStart : low.length ≤ offset)
    (isEnd : offset + limit ≤ low.length + middle.length ∨ high = []) :
    ((low ++ middle ++ high).drop offset).take limit =
      (middle.drop (offset - low.length)).take limit := by
  rw [List.append_assoc, List.drop_append, List.drop_eq_nil_of_le isStart, List.nil_append]
  rcases isEnd with isWithin | rfl
  · rw [List.drop_append, List.take_append]
    have isNone : limit - (middle.drop (offset - low.length)).length = 0 := by
      rw [List.length_drop]
      omega
    rw [isNone, List.take_zero, List.append_nil]
  · rw [List.append_nil]

variable {rows : List α}

/-- A list whose early rows meet a test when its later ones do is the rows that meet it, and then
the others. -/
theorem split_early {test : α → Bool}
    (isEarly : rows.Pairwise fun a b => test b = true → test a = true) :
    rows = rows.filter test ++ rows.filter fun row => !test row := by
  induction rows with
  | nil => rfl
  | cons row rows ih =>
    rw [List.pairwise_cons] at isEarly
    have isRest := ih isEarly.2
    cases isTest : test row with
    | true =>
      rw [List.filter_cons_of_pos isTest, List.filter_cons_of_neg (by simp [isTest]),
        List.cons_append, ← isRest]
    | false =>
      have isNone : rows.filter test = [] := by
        apply List.filter_eq_nil_iff.mpr
        intro other isOther isMet
        rw [isEarly.1 other isOther isMet] at isTest
        cases isTest
      rw [isNone, List.nil_append] at isRest
      rw [List.filter_cons_of_neg (by simp [isTest]), List.filter_cons_of_pos (by simp [isTest]),
        isNone, List.nil_append, ← isRest]

def below (rank : α → β) (least : β) (rows : List α) : List α :=
  rows.filter fun row => rank row < least

def between (rank : α → β) (least most : β) (rows : List α) : List α :=
  rows.filter fun row => least ≤ rank row ∧ rank row ≤ most

def above (rank : α → β) (most : β) (rows : List α) : List α :=
  rows.filter fun row => most < rank row

/-- A list ordered by rank is its part below, its part between and its part above two ranks. -/
theorem split_ranks (isOrdered : rows.Pairwise fun a b => rank a ≤ rank b) {least most : β}
    (isRange : least ≤ most) :
    rows = below rank least rows ++ between rank least most rows ++ above rank most rows := by
  have isLow := split_early (isOrdered.imp (S := fun a b =>
    decide (rank b < least) = true → decide (rank a < least) = true) fun isLe isBelow => by
      simp only [decide_eq_true_eq] at isBelow ⊢
      exact lt_of_le_of_lt isLe isBelow)
  have isHigh := split_early ((isOrdered.filter (fun row => !decide (rank row < least))).imp
    (S := fun a b => decide (rank b ≤ most) = true → decide (rank a ≤ most) = true)
    fun isLe isWithin => by
      simp only [decide_eq_true_eq] at isWithin ⊢
      exact le_trans isLe isWithin)
  have isBetween : (rows.filter fun row => !decide (rank row < least)).filter
      (fun row => rank row ≤ most) = between rank least most rows := by
    rw [List.filter_filter, between]
    apply List.filter_congr
    intro row _
    rw [Bool.eq_iff_iff]
    simp [and_comm]
  have isAbove : (rows.filter fun row => !decide (rank row < least)).filter
      (fun row => !decide (rank row ≤ most)) = above rank most rows := by
    rw [List.filter_filter, above]
    apply List.filter_congr
    intro row _
    rw [Bool.eq_iff_iff]
    simp only [Bool.and_eq_true, Bool.not_eq_true', decide_eq_false_iff_not, not_le, not_lt,
      decide_eq_true_eq]
    exact ⟨fun isBoth => isBoth.1, fun isHighRow =>
      ⟨isHighRow, le_of_lt (lt_of_le_of_lt isRange isHighRow)⟩⟩
  rw [isBetween, isAbove] at isHigh
  rw [List.append_assoc, ← isHigh]
  exact isLow

/-- The parts together are the list. -/
theorem length_parts (isOrdered : rows.Pairwise fun a b => rank a ≤ rank b) {least most : β}
    (isRange : least ≤ most) :
    (below rank least rows).length + (between rank least most rows).length +
      (above rank most rows).length = rows.length := by
  have isSplit := congrArg List.length (split_ranks isOrdered isRange)
  rw [List.length_append, List.length_append] at isSplit
  exact isSplit.symm

/-- Ranks do not fall from one position to a later one. -/
theorem rank_mono (isOrdered : rows.Pairwise fun a b => rank a ≤ rank b) {i j : Nat} {a b : α}
    (isA : rows[i]? = some a) (isB : rows[j]? = some b) (isLe : i ≤ j) :
    rank a ≤ rank b := by
  obtain ⟨isIndex, rfl⟩ := List.getElem?_eq_some_iff.mp isA
  obtain ⟨isOtherIndex, rfl⟩ := List.getElem?_eq_some_iff.mp isB
  rcases Nat.lt_or_eq_of_le isLe with isLt | rfl
  · exact List.pairwise_iff_getElem.mp isOrdered i j isIndex isOtherIndex isLt
  · exact le_refl _

/-- At most the rows in front of a position are below its rank. -/
theorem length_below (isOrdered : rows.Pairwise fun a b => rank a ≤ rank b) {i : Nat} {a : α}
    (isA : rows[i]? = some a) : (below rank (rank a) rows).length ≤ i := by
  have isNone : below rank (rank a) (rows.drop i) = [] := by
    apply List.filter_eq_nil_iff.mpr
    intro row isRow isBelow
    rw [decide_eq_true_eq] at isBelow
    obtain ⟨j, isJ⟩ := List.mem_iff_getElem?.mp isRow
    rw [List.getElem?_drop] at isJ
    exact absurd isBelow (not_lt.mpr (rank_mono isOrdered isA isJ (Nat.le_add_right i j)))
  rw [← List.take_append_drop i rows, below, List.filter_append]
  rw [below] at isNone
  rw [isNone, List.append_nil]
  exact Nat.le_trans (List.length_filter_le _ _) (List.length_take_le i rows)

/-- At most the rows behind a position are above its rank. -/
theorem length_above (isOrdered : rows.Pairwise fun a b => rank a ≤ rank b) {i : Nat} {a : α}
    (isA : rows[i]? = some a) :
    (above rank (rank a) rows).length ≤ rows.length - (i + 1) := by
  have isNone : above rank (rank a) (rows.take (i + 1)) = [] := by
    apply List.filter_eq_nil_iff.mpr
    intro row isRow isAbove
    rw [decide_eq_true_eq] at isAbove
    obtain ⟨j, isJ⟩ := List.mem_iff_getElem?.mp isRow
    obtain ⟨isIndex, rfl⟩ := List.getElem?_eq_some_iff.mp isJ
    rw [List.length_take] at isIndex
    rw [List.getElem?_take_of_lt (by omega)] at isJ
    exact absurd isAbove (not_lt.mpr (rank_mono isOrdered isJ isA (by omega)))
  rw [← List.take_append_drop (i + 1) rows, above, List.filter_append]
  rw [above] at isNone
  rw [isNone, List.nil_append, List.take_append_drop, ← List.length_drop]
  exact List.length_filter_le _ _

section Window

variable {front window back sorted windowSorted : List α} {skipped limit : Nat} {first last : α}

/-- Two lists with the same rows in the finer order are equal. -/
theorem eq_of_perm {rows others : List α} (isSorted : rows.Pairwise le)
    (isOtherSorted : others.Pairwise le) (isPerm : rows.Perm others)
    (isAntisymm : ∀ a ∈ rows, ∀ b ∈ rows, le a b → le b a → a = b) : rows = others :=
  List.Perm.eq_of_pairwise
    (fun a b isRow isOther => isAntisymm a isRow b (isPerm.mem_iff.mpr isOther))
    isSorted isOtherSorted isPerm

/-- **A page can be sorted in its window.** The rows are ordered by rank, in three parts of which the
middle is read. If nothing is left in front or the window's first rank is not the page's first, and
nothing is left behind or the window's last rank is not the page's last, then the page of the sorted
window is the page of all rows sorted. -/
theorem window_page (rank : α → β) (le : α → α → Prop) (isFiner : ∀ a b, le a b → rank a ≤ rank b)
    (isOrdered : (front ++ window ++ back).Pairwise fun a b => rank a ≤ rank b)
    (isSorted : sorted.Pairwise le) (isPerm : sorted.Perm (front ++ window ++ back))
    (isWindowSorted : windowSorted.Pairwise le) (isWindowPerm : windowSorted.Perm window)
    (isAntisymm : ∀ a ∈ sorted, ∀ b ∈ sorted, le a b → le b a → a = b) (isLimit : 0 < limit)
    (isFirst : window[skipped]? = some first)
    (isLast : window[min window.length (skipped + limit) - 1]? = some last)
    (isFrontDone : front = [] ∨ ∃ row, window[0]? = some row ∧ rank row ≠ rank first)
    (isBackDone : back = [] ∨
      skipped + limit ≤ window.length ∧
        ∃ row, window[window.length - 1]? = some row ∧ rank row ≠ rank last) :
    (windowSorted.drop skipped).take limit =
      (sorted.drop (front.length + skipped)).take limit := by
  obtain ⟨isFrontWindow, -, isBeforeBack⟩ := List.pairwise_append.mp isOrdered
  obtain ⟨-, isWindow, isBeforeWindow⟩ := List.pairwise_append.mp isFrontWindow
  have isSkipped : skipped < window.length := (List.getElem?_eq_some_iff.mp isFirst).1
  have isRange : rank first ≤ rank last := rank_mono isWindow isFirst isLast (by omega)
  have isFrontBelow : ∀ row ∈ front, rank row < rank first := by
    intro row isRow
    rcases isFrontDone with rfl | ⟨start, isStart, isOther⟩
    · cases isRow
    · exact lt_of_le_of_lt (isBeforeWindow row isRow start (List.mem_of_getElem? isStart))
        (lt_of_le_of_ne (rank_mono isWindow isStart isFirst (Nat.zero_le _)) isOther)
  have isBackAbove : ∀ row ∈ back, rank last < rank row := by
    intro row isRow
    rcases isBackDone with rfl | ⟨-, stop, isStop, isOther⟩
    · cases isRow
    · have isLe := rank_mono isWindow isLast isStop (by omega)
      exact lt_of_lt_of_le (lt_of_le_of_ne isLe (Ne.symm isOther))
        (isBeforeBack stop (List.mem_append_right _ (List.mem_of_getElem? isStop)) row isRow)
  have isBelow : below rank (rank first) (front ++ window ++ back) =
      front ++ below rank (rank first) window := by
    have isFront : below rank (rank first) front = front :=
      List.filter_eq_self.mpr fun row isRow => decide_eq_true (isFrontBelow row isRow)
    have isBack : below rank (rank first) back = [] :=
      List.filter_eq_nil_iff.mpr fun row isRow isLow =>
        absurd (of_decide_eq_true isLow)
          (not_lt.mpr (le_trans isRange (le_of_lt (isBackAbove row isRow))))
    rw [below] at isFront isBack
    rw [below, List.filter_append, List.filter_append, isFront, isBack, List.append_nil, below]
  have isBetween : between rank (rank first) (rank last) (front ++ window ++ back) =
      between rank (rank first) (rank last) window := by
    have isFront : between rank (rank first) (rank last) front = [] :=
      List.filter_eq_nil_iff.mpr fun row isRow isMiddle =>
        absurd (of_decide_eq_true isMiddle).1 (not_le.mpr (isFrontBelow row isRow))
    have isBack : between rank (rank first) (rank last) back = [] :=
      List.filter_eq_nil_iff.mpr fun row isRow isMiddle =>
        absurd (of_decide_eq_true isMiddle).2 (not_le.mpr (isBackAbove row isRow))
    rw [between] at isFront isBack
    rw [between, List.filter_append, List.filter_append, isFront, isBack, List.append_nil,
      List.nil_append, between]
  have isSortedRank := isSorted.imp (S := fun a b => rank a ≤ rank b) (isFiner _ _)
  have isWindowRank := isWindowSorted.imp (S := fun a b => rank a ≤ rank b) (isFiner _ _)
  have isMiddle : between rank (rank first) (rank last) sorted =
      between rank (rank first) (rank last) windowSorted := by
    apply eq_of_perm (isSorted.filter _) (isWindowSorted.filter _)
    · refine (isPerm.filter _).trans ?_
      rw [between] at isBetween
      rw [isBetween]
      exact (isWindowPerm.filter _).symm
    · intro a isA b isB
      exact isAntisymm a (List.mem_filter.mp isA).1 b (List.mem_filter.mp isB).1
  have isSortedLow : (below rank (rank first) sorted).length =
      front.length + (below rank (rank first) window).length := by
    rw [← List.length_append, ← isBelow]
    exact (isPerm.filter _).length_eq
  have isWindowLow : (below rank (rank first) windowSorted).length =
      (below rank (rank first) window).length := (isWindowPerm.filter _).length_eq
  have isStart := length_below isWindow isFirst
  have isParts := length_parts isWindow isRange
  have isSortedParts := length_parts isSortedRank isRange
  have isWindowParts := length_parts isWindowRank isRange
  have isHigh := length_above isWindow isLast
  have isLength := isPerm.length_eq
  have isWindowLength := isWindowPerm.length_eq
  rw [List.length_append, List.length_append] at isLength
  have isWindowMiddle : (between rank (rank first) (rank last) windowSorted).length =
      (between rank (rank first) (rank last) window).length := (isWindowPerm.filter _).length_eq
  have isSortedMiddle := congrArg List.length isMiddle
  have isBackShort : back = [] ∨ skipped + limit ≤ window.length :=
    isBackDone.imp_right And.left
  rw [split_ranks isSortedRank isRange, split_ranks isWindowRank isRange, page_of_parts,
    page_of_parts, isMiddle, isSortedLow, isWindowLow, Nat.add_sub_add_left]
  · rw [isSortedLow]
    omega
  · rcases isBackShort with rfl | isWithin
    · by_cases isWithin : skipped + limit ≤ window.length
      · left; omega
      · right
        rw [List.length_nil] at isLength
        exact List.eq_nil_of_length_eq_zero (by omega)
    · left; omega
  · omega
  · by_cases isWithin : skipped + limit ≤ window.length
    · left; omega
    · right
      exact List.eq_nil_of_length_eq_zero (by omega)

end Window

end Murage.Library.TieWindows
