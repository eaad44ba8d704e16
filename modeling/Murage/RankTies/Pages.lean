import Murage.Library.TieWindows
import Murage.RankTies.Model

/-!
Owns what a page is: positions of the list sorted by rank, id and version, however the query ordered
equal ranks.

Does not own: the reads themselves.
-/

namespace Murage.RankTies

open Murage.Library Murage.Library.Utf16

variable {γ : Type}

def Ranked.key (row : Ranked γ) : ℚ ×ₗ Text ×ₗ ℚ := toLex (row.rank, toLex (row.id, row.version))

theorem before_le (a b : Ranked γ) : before a b ≤ 0 ↔ a.key ≤ b.key := by
  simp only [Ranked.key, Prod.Lex.toLex_le_toLex, before]
  rcases lt_trichotomy a.rank b.rank with isLess | isSame | isMore
  · have isOther : a.rank - b.rank ≠ 0 := sub_ne_zero.mpr (ne_of_lt isLess)
    simp [isLess, isOther, le_of_lt isLess]
  · rw [if_neg (by simp [isSame])]
    simp only [isSame, lt_irrefl, false_or, true_and]
    rcases lt_trichotomy a.id b.id with isBefore | isSameId | isAfter
    · simp [isBefore]
    · simp [isSameId]
    · simp [isAfter, not_lt_of_gt isAfter, ne_of_gt isAfter]
  · have isOther : a.rank - b.rank ≠ 0 := sub_ne_zero.mpr (ne_of_gt isMore)
    simp [isOther, not_lt_of_gt isMore, not_le_of_gt isMore, ne_of_gt isMore]

theorem rank_le_of_key {a b : Ranked γ} (isLe : a.key ≤ b.key) : a.rank ≤ b.rank := by
  rcases Prod.Lex.toLex_le_toLex.mp isLe with isLess | ⟨isSame, -⟩
  · exact le_of_lt isLess
  · exact le_of_eq isSame

def sorted (rows : List (Ranked γ)) : List (Ranked γ) :=
  rows.mergeSort fun a b => before a b ≤ 0

theorem sorted_perm (rows : List (Ranked γ)) : (sorted rows).Perm rows :=
  List.mergeSort_perm rows _

theorem sorted_pairwise (rows : List (Ranked γ)) :
    (sorted rows).Pairwise fun a b => a.key ≤ b.key := by
  have isSorted := @List.pairwise_mergeSort (Ranked γ) (fun a b => decide (before a b ≤ 0))
    (fun a b c isLe isNext => by
      simp only [decide_eq_true_eq, before_le] at isLe isNext ⊢
      exact le_trans isLe isNext)
    (fun a b => by
      simp only [Bool.or_eq_true, decide_eq_true_eq, before_le]
      exact le_total a.key b.key) rows
  exact isSorted.imp fun isLe => (before_le _ _).mp (of_decide_eq_true isLe)

section Pages

variable {ordering ranked : List (Ranked γ)} {offset limit : Nat}

def expected (ranked : List (Ranked γ)) (offset limit : Nat) : Page γ :=
  ⟨(ranked.drop offset).take limit, offset + limit < ranked.length⟩

theorem slices_page (isOrdered : ordering.Pairwise fun a b => a.rank ≤ b.rank)
    (isRanked : ranked.Pairwise fun a b => a.key ≤ b.key) (isPerm : ranked.Perm ordering)
    (isDistinct : ∀ a ∈ ranked, ∀ b ∈ ranked, a.key ≤ b.key → b.key ≤ a.key → a = b)
    {back forward : Nat} (isBack : back ≤ offset) (isForward : 0 < forward) (isLimit : 0 < limit)
    {first : Ranked γ}
    (isFirst : (slices ordering (offset - back) (back + limit + forward))[back]? = some first)
    (isFrontDone : offset - back = 0 ∨
      ((slices ordering (offset - back) (back + limit + forward))[0]?).map (·.rank) ≠
        some first.rank)
    (isBackDone : (slices ordering (offset - back) (back + limit + forward)).length <
        back + limit + forward ∨
      ((slices ordering (offset - back) (back + limit + forward))[
          (slices ordering (offset - back) (back + limit + forward)).length - 1]?).map (·.rank) ≠
        ((slices ordering (offset - back) (back + limit + forward))[
          min (slices ordering (offset - back) (back + limit + forward)).length
            (back + limit) - 1]?).map (·.rank)) :
    ((sorted (slices ordering (offset - back) (back + limit + forward))).drop back).take limit =
      (ranked.drop offset).take limit := by
  have isRow := (List.getElem?_eq_some_iff.mp isFirst).1
  have isShort : (slices ordering (offset - back) (back + limit + forward)).length =
      min (back + limit + forward) (ordering.length - (offset - back)) := by
    rw [slices, List.length_take, List.length_drop]
  have isFront : (ordering.take (offset - back)).length + back = offset := by
    rw [List.length_take]
    omega
  have isParts : ordering = ordering.take (offset - back) ++
      slices ordering (offset - back) (back + limit + forward) ++
        (ordering.drop (offset - back)).drop (back + limit + forward) := by
    rw [slices, List.append_assoc, List.take_append_drop, List.take_append_drop]
  obtain ⟨last, isLast⟩ : ∃ last, (slices ordering (offset - back) (back + limit + forward))[
      min (slices ordering (offset - back) (back + limit + forward)).length
        (back + limit) - 1]? = some last :=
    ⟨_, List.getElem?_eq_getElem (by omega)⟩
  have isPage := TieWindows.window_page Ranked.rank (fun a b => a.key ≤ b.key)
    (fun _ _ => rank_le_of_key) (isParts ▸ isOrdered) isRanked (isParts ▸ isPerm)
    (sorted_pairwise _) (sorted_perm _) isDistinct isLimit isFirst isLast ?_ ?_
  · rw [isFront] at isPage
    exact isPage
  · rcases isFrontDone with isStart | isOther
    · left
      rw [isStart, List.take_zero]
    · right
      refine ⟨_, List.getElem?_eq_getElem (by omega), fun isSame => isOther ?_⟩
      rw [List.getElem?_eq_getElem (by omega), Option.map_some, isSame]
  · rcases isBackDone with isEnd | isOther
    · left
      apply List.drop_eq_nil_of_le
      rw [List.length_drop]
      omega
    · by_cases isWide : back + limit + forward ≤ ordering.length - (offset - back)
      · right
        refine ⟨by omega, _, List.getElem?_eq_getElem (by omega),
          fun isSame => isOther ?_⟩
        rw [List.getElem?_eq_getElem (by omega), isLast, Option.map_some,
          Option.map_some, isSame]
      · left
        apply List.drop_eq_nil_of_le
        rw [List.length_drop]
        omega

/-- Reading again and again ends with the page: each further read widens the window on a side where
rows are left. -/
theorem pageFrom_expected (isOrdered : ordering.Pairwise fun a b => a.rank ≤ b.rank)
    (isRanked : ranked.Pairwise fun a b => a.key ≤ b.key) (isPerm : ranked.Perm ordering)
    (isDistinct : ∀ a ∈ ranked, ∀ b ∈ ranked, a.key ≤ b.key → b.key ≤ a.key → a = b)
    (isLimit : 0 < limit) (fuel back forward : Nat) (isBack : back ≤ offset)
    (isBackStart : back = 0 → offset = 0) (isForward : 0 < forward)
    (isEnough : offset - back + (ordering.length + 1 - forward) < fuel) :
    pageFrom (slices ordering) offset limit fuel back forward =
      some (expected ranked offset limit) := by
  induction fuel generalizing back forward with
  | zero => omega
  | succ fuel ih =>
    have isShort : (slices ordering (offset - back) (back + limit + forward)).length =
        min (back + limit + forward) (ordering.length - (offset - back)) := by
      rw [slices, List.length_take, List.length_drop]
    have isLength := isPerm.length_eq
    rw [pageFrom]
    dsimp only
    cases isFirst : (slices ordering (offset - back) (back + limit + forward))[back]? with
    | none =>
      have isPast := List.getElem?_eq_none_iff.mp isFirst
      have isNoRow : ranked.length ≤ offset := by omega
      have isNoMore : ¬ offset + limit < ranked.length := by omega
      dsimp only
      rw [expected, List.drop_eq_nil_of_le isNoRow, List.take_nil, decide_eq_false isNoMore]
    | some first =>
      have isRow := (List.getElem?_eq_some_iff.mp isFirst).1
      dsimp only
      split
      next isUnsettled =>
        generalize isFront : (offset - back == 0 || _) = frontDone at isUnsettled ⊢
        generalize isEnd : (decide (_ < back + limit + forward) || _) = backDone
          at isUnsettled ⊢
        -- a side that is widened has rows left
        have isFrontLeft : frontDone = false → back < offset := by
          intro isOpen
          rw [isOpen, Bool.or_eq_false_iff, beq_eq_false_iff_ne] at isFront
          omega
        have isBackLeft : backDone = false → forward ≤ ordering.length := by
          intro isOpen
          rw [isOpen, Bool.or_eq_false_iff, decide_eq_false_iff_not] at isEnd
          omega
        apply ih <;> rw [TIE_WIDEN] at * <;>
          cases frontDone <;> cases backDone <;> simp at * <;> omega
      next isSettled =>
        rw [Bool.not_eq_true, Bool.not_eq_false', Bool.and_eq_true, Bool.or_eq_true,
          Bool.or_eq_true, beq_iff_eq, decide_eq_true_eq, decide_eq_true_eq,
          decide_eq_true_eq] at isSettled
        have isPage := slices_page isOrdered isRanked isPerm isDistinct isBack isForward
          isLimit isFirst isSettled.1 isSettled.2
        rw [sorted] at isPage
        rw [isPage, expected]
        congr 2
        apply decide_eq_decide.mpr
        omega

end Pages

theorem eq_of_key {rows : List (Ranked γ)}
    (isDistinct : (rows.map fun row => (row.id, row.version)).Nodup) {a b : Ranked γ}
    (isA : a ∈ rows) (isB : b ∈ rows) (isLe : a.key ≤ b.key) (isGe : b.key ≤ a.key) : a = b := by
  have isSame : a.key = b.key := le_antisymm isLe isGe
  simp only [Ranked.key, toLex_inj, Prod.mk.injEq] at isSame
  exact List.inj_on_of_nodup_map isDistinct isA isB (Prod.ext isSame.2.1 isSame.2.2)

theorem sorted_strict {rows : List (Ranked γ)}
    (isDistinct : (rows.map fun row => (row.id, row.version)).Nodup) :
    (sorted rows).Pairwise fun a b => a.key < b.key := by
  have isSortedDistinct : ((sorted rows).map fun row => (row.id, row.version)).Nodup :=
    ((sorted_perm rows).map _).nodup_iff.mpr isDistinct
  have isOther := List.pairwise_map.mp isSortedDistinct
  refine ((sorted_pairwise rows).and isOther).imp ?_
  rintro a b ⟨isLe, isDifferent⟩
  refine lt_of_le_of_ne isLe fun isSame => isDifferent ?_
  simp only [Ranked.key, toLex_inj, Prod.mk.injEq] at isSame
  exact Prod.ext isSame.2.1 isSame.2.2

theorem pages_flatten (ranked : List (Ranked γ)) (limit count : Nat) :
    ((List.range count).map fun page => (ranked.drop (page * limit)).take limit).flatten =
      ranked.take (count * limit) := by
  induction count with
  | zero => simp
  | succ count ih =>
    rw [List.range_succ, List.map_append, List.flatten_append, ih,
      Nat.succ_mul, List.take_add]
    simp

/-- **A page does not depend on how the index holds ties.** There is one order of the rows, by rank,
id and version; whichever ordering by rank the reads come from, a page ends, holds the positions from
its offset on in that order, and says rightly whether rows follow; and one page after another is the
list without gap or repeat. -/
theorem pageByRank_pages (rows : List (Ranked γ))
    (isDistinct : (rows.map fun row => (row.id, row.version)).Nodup) :
    ∃ ranked : List (Ranked γ), ranked.Perm rows ∧
      (ranked.Pairwise fun a b => a.rank < b.rank ∨
        a.rank = b.rank ∧ (a.id < b.id ∨ a.id = b.id ∧ a.version < b.version)) ∧
      (∀ ordering : List (Ranked γ), ordering.Perm rows →
        (ordering.Pairwise fun a b => a.rank ≤ b.rank) →
        ∀ offset limit : Nat, 1 ≤ limit → ∃ enough, ∀ fuel, enough ≤ fuel →
          pageByRank fuel (slices ordering) offset limit =
            some ⟨(ranked.drop offset).take limit, offset + limit < rows.length⟩) ∧
      ∀ limit count : Nat,
        ((List.range count).map fun page => (ranked.drop (page * limit)).take limit).flatten =
          ranked.take (count * limit) := by
  refine ⟨sorted rows, sorted_perm rows, ?_, ?_, pages_flatten _⟩
  · refine (sorted_strict isDistinct).imp fun isLess => ?_
    simpa only [Ranked.key, Prod.Lex.toLex_lt_toLex] using isLess
  · intro ordering isOrdering isOrdered offset limit isLimit
    refine ⟨offset + ordering.length + 2, fun fuel isEnough => ?_⟩
    have isPerm : (sorted rows).Perm ordering := (sorted_perm rows).trans isOrdering.symm
    have isUnique : ∀ a ∈ sorted rows, ∀ b ∈ sorted rows, a.key ≤ b.key → b.key ≤ a.key → a = b :=
      fun a isA b isB => eq_of_key isDistinct ((sorted_perm rows).mem_iff.mp isA)
        ((sorted_perm rows).mem_iff.mp isB)
    have isPage := pageFrom_expected isOrdered (sorted_pairwise rows) isPerm isUnique isLimit fuel
      (min offset TIE_FIRST_READ_ROWS) TIE_FIRST_READ_ROWS (Nat.min_le_left _ _)
      (by rw [TIE_FIRST_READ_ROWS]; omega) (by decide) (by omega)
    rw [expected, (sorted_perm rows).length_eq] at isPage
    exact isPage

/-- Two rows of one rank, which the index may hold either way. -/
def tied : List (Ranked Unit) := [⟨-2, units "b", 1, ()⟩, ⟨-2, units "a", 1, ()⟩]

theorem pageByRank_pages_example :
    ∃ fuel row, pageByRank fuel (slices tied) 0 1 = some ⟨[row], true⟩ ∧
      pageByRank fuel (slices tied.reverse) 0 1 = some ⟨[row], true⟩ := by
  obtain ⟨ranked, isPerm, -, isPage, -⟩ := pageByRank_pages tied (by decide)
  obtain ⟨enough, isOne⟩ := isPage tied (List.Perm.refl _) (by decide) 0 1 (by decide)
  obtain ⟨enough', isOther⟩ := isPage tied.reverse (List.reverse_perm _) (by decide) 0 1 (by decide)
  have isLength : ranked.length = 2 := isPerm.length_eq
  match ranked, isLength with
  | [first, second], _ =>
    exact ⟨max enough enough', first, isOne _ (le_max_left _ _), isOther _ (le_max_right _ _)⟩

end Murage.RankTies
