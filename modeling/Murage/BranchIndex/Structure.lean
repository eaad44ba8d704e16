import Murage.BranchIndex.Model
import Murage.Library.Forests

/-!
Owns what the tables of the branch index hold of a forest of rows: the segments are chains
of rows with growing keys, and each hangs from its parent. From it, what the index answers:
membership of a branch is being above its leaf, and the order on a branch is the order from the
root.

Does not own: that the writers keep it.
-/

namespace Murage.BranchIndex

open Murage.Library.Forests
open Murage.Library.OrderKeys

/-! ## The tables and the forest -/

/-- The segments, each under the segment it hangs from. -/
def Db.segForest (db : Db) : Forest Nat := fun seg => (db.segs seg).map SegRow.parent

/-- Where a row is on its segment: first, or next after its parent and with a larger key. -/
inductive Placed (lt : Key → Key → Prop) (forest : Forest Nat) (db : Db) (mrow : Nat)
    (row : BranchRow) (seg : SegRow) : Prop where
  | head (isHead : seg.head = mrow) (isPlace : forest mrow = some seg.attach)
  | follows (notHead : seg.head ≠ mrow) (parent : Nat) (parentRow : BranchRow)
      (isParent : forest mrow = some (some parent)) (isRow : db.rows parent = some parentRow)
      (sameSeg : db.segOf parentRow = db.segOf row) (isNext : parentRow.next = some mrow)
      (isAfter : lt (ordOf parent parentRow) (ordOf mrow row))

/-- What comes after a row on its segment. -/
inductive Onward (forest : Forest Nat) (db : Db) (mrow : Nat) (row : BranchRow) (seg : SegRow) :
    Prop where
  | tail (noNext : row.next = none) (isTail : seg.tail = mrow)
  | next (next : Nat) (nextRow : BranchRow) (isNext : row.next = some next)
      (isRow : db.rows next = some nextRow) (sameSeg : db.segOf nextRow = db.segOf row)
      (notHead : seg.head ≠ next) (isChild : forest next = some (some mrow))

/-- What a segment hangs from, and that its jump is above it. -/
inductive Hangs (db : Db) (seg : SegRow) : Prop where
  | root (noParent : seg.parent = none) (noAttach : seg.attach = none) (isTop : seg.lvl = 0)
      (noJump : seg.jump = none)
  | below (parent attach jump : Nat) (parentSeg : SegRow) (attachRow : BranchRow)
      (isParent : seg.parent = some parent) (isAttach : seg.attach = some attach)
      (isJump : seg.jump = some jump) (isAbove : Above db.segForest jump parent)
      (isSeg : db.segs parent = some parentSeg) (isLvl : seg.lvl = parentSeg.lvl + 1)
      (older : parent < seg.seg) (isRow : db.rows attach = some attachRow)
      (inParent : db.segOf attachRow = parent)

structure Indexed (lt : Key → Key → Prop) (forest : Forest Nat) (db : Db) : Prop where
  stored : ∀ mrow, (db.rows mrow).isSome = (forest mrow).isSome
  grounded : ∀ mrow, (forest mrow).isSome → Grounded forest mrow
  rows : ∀ mrow row, db.rows mrow = some row → ∃ seg, db.segs (db.segOf row) = some seg ∧
    Placed lt forest db mrow row seg ∧ Onward forest db mrow row seg
  segs : ∀ id seg, db.segs id = some seg → seg.seg = id ∧ id < db.nextSeg ∧ Hangs db seg ∧
    ∃ headRow, db.rows seg.head = some headRow ∧ db.segOf headRow = id
  rootSeg : ∀ root, db.rootSeg = some root → (db.segs root).isSome
  empty : db.rootSeg = none → ∀ mrow, db.rows mrow = none

structure KeyOrder (lt : Key → Key → Prop) : Prop where
  trans : ∀ {low middle high}, lt low middle → lt middle high → lt low high
  less : ∀ {low high}, lt low high → low < high

theorem Indexed.start (lt : Key → Key → Prop) : Indexed lt (fun _ => none) {} where
  stored _ := rfl
  grounded _ isNode := nomatch isNode
  rows _ _ isRow := nomatch isRow
  segs _ _ isSeg := nomatch isSeg
  rootSeg _ isRoot := nomatch isRoot
  empty _ _ := rfl

section Answers

variable {lt : Key → Key → Prop} {forest : Forest Nat} {db : Db} (indexed : Indexed lt forest db)

include indexed

theorem Indexed.row_of_node {mrow : Nat} (isNode : (forest mrow).isSome) :
    ∃ row, db.rows mrow = some row :=
  Option.isSome_iff_exists.mp (by rw [indexed.stored]; exact isNode)

variable {row : BranchRow}

theorem Indexed.node_of_row {mrow : Nat} (isRow : db.rows mrow = some row) :
    Grounded forest mrow :=
  indexed.grounded mrow (by rw [← indexed.stored, isRow]; rfl)

theorem Indexed.head_place {id : Nat} {seg : SegRow} (isSeg : db.segs id = some seg) :
    forest seg.head = some seg.attach := by
  obtain ⟨_, _, _, headRow, isHead, inSeg⟩ := indexed.segs id seg isSeg
  obtain ⟨found, isFound, placed, _⟩ := indexed.rows seg.head headRow isHead
  rw [inSeg] at isFound
  obtain rfl := Option.some.inj (isSeg.symm.trans isFound)
  cases placed with
  | head _ isPlace => exact isPlace
  | follows notHead => exact absurd rfl notHead

theorem Indexed.next_child {mrow next : Nat} {seg : SegRow} (isRow : db.rows mrow = some row)
    (isNext : row.next = some next) (isSeg : db.segs (db.segOf row) = some seg) :
    forest next = some (some mrow) ∧ seg.head ≠ next ∧
      ∃ nextRow, db.rows next = some nextRow ∧ db.segOf nextRow = db.segOf row := by
  obtain ⟨found, isFound, _, onward⟩ := indexed.rows mrow row isRow
  obtain rfl := Option.some.inj (isSeg.symm.trans isFound)
  cases onward with
  | tail noNext _ => cases noNext.symm.trans isNext
  | next found nextRow isFound isNextRow sameSeg notHead isChild =>
    obtain rfl := Option.some.inj (isNext.symm.trans isFound)
    exact ⟨isChild, notHead, nextRow, isNextRow, sameSeg⟩

/-! ## Along a segment -/

def Follows (db : Db) (mrow next : Nat) : Prop :=
  ∃ row, db.rows mrow = some row ∧ row.next = some next

theorem Indexed.head_reaches {mrow : Nat} {seg : SegRow} (isRow : db.rows mrow = some row)
    (isSeg : db.segs (db.segOf row) = some seg) :
    Relation.ReflTransGen (Follows db) seg.head mrow := by
  have grounded := indexed.node_of_row isRow
  induction grounded generalizing row with
  | @root mrow isRoot =>
    obtain ⟨found, isFound, placed, _⟩ := indexed.rows mrow row isRow
    obtain rfl := Option.some.inj (isSeg.symm.trans isFound)
    cases placed with
    | head isHead _ => exact isHead ▸ Relation.ReflTransGen.refl
    | follows _ parent _ isParent => cases isRoot.symm.trans isParent
  | @child mrow above isChild _ ih =>
    obtain ⟨found, isFound, placed, _⟩ := indexed.rows mrow row isRow
    obtain rfl := Option.some.inj (isSeg.symm.trans isFound)
    cases placed with
    | head isHead _ => exact isHead ▸ Relation.ReflTransGen.refl
    | follows _ parent parentRow isParent isParentRow sameSeg isNext _ =>
      obtain rfl := Option.some.inj (Option.some.inj (isChild.symm.trans isParent))
      refine Relation.ReflTransGen.tail ?_ ⟨parentRow, isParentRow, isNext⟩
      exact ih isParentRow (sameSeg ▸ isSeg)

theorem Indexed.reaches {mrow later : Nat} (order : KeyOrder lt) (isRow : db.rows mrow = some row)
    (isLater : Relation.ReflTransGen (Follows db) mrow later) :
    ∃ laterRow, db.rows later = some laterRow ∧ db.segOf laterRow = db.segOf row ∧
      Above forest mrow later ∧ (mrow = later ∨ lt (ordOf mrow row) (ordOf later laterRow)) := by
  induction isLater with
  | refl => exact ⟨row, isRow, rfl, Above.self (indexed.node_of_row isRow).isNode, Or.inl rfl⟩
  | @tail middle later _ follows ih =>
    obtain ⟨middleRow, isMiddle, sameSeg, isAbove, isOrder⟩ := ih
    obtain ⟨found, isFound, isNext⟩ := follows
    obtain rfl := Option.some.inj (isMiddle.symm.trans isFound)
    obtain ⟨seg, isSeg, _, onward⟩ := indexed.rows middle middleRow isMiddle
    cases onward with
    | tail noNext _ => cases noNext.symm.trans isNext
    | next next nextRow isNextRow isIn sameNext notHead isChild =>
      obtain rfl := Option.some.inj (isNext.symm.trans isNextRow)
      obtain ⟨nextSeg, isNextSeg, placed, _⟩ := indexed.rows later nextRow isIn
      rw [sameNext, isSeg] at isNextSeg
      obtain rfl := Option.some.inj isNextSeg
      refine ⟨nextRow, isIn, sameNext.trans sameSeg, Above.step isChild isAbove, Or.inr ?_⟩
      cases placed with
      | head isHead _ => exact absurd isHead notHead
      | follows _ parent parentRow isParent isParentRow _ _ isAfter =>
        obtain rfl := Option.some.inj (Option.some.inj (isChild.symm.trans isParent))
        obtain rfl := Option.some.inj (isMiddle.symm.trans isParentRow)
        rcases isOrder with rfl | isOrder
        · obtain rfl := Option.some.inj (isRow.symm.trans isMiddle)
          exact isAfter
        · exact order.trans isOrder isAfter

theorem Indexed.above_iff_le {mrow leaf : Nat} {row leafRow : BranchRow} (order : KeyOrder lt)
    (isRow : db.rows mrow = some row) (isLeaf : db.rows leaf = some leafRow)
    (sameSeg : db.segOf row = db.segOf leafRow) :
    (Above forest mrow leaf ↔ ordOf mrow row ≤ ordOf leaf leafRow) ∧
      (Above forest mrow leaf → mrow ≠ leaf → ordOf mrow row < ordOf leaf leafRow) := by
  obtain ⟨seg, isSeg, _⟩ := indexed.rows mrow row isRow
  have unique : Relator.RightUnique (Follows db) := by
    rintro first second third ⟨firstRow, isFirst, isSecond⟩ ⟨otherRow, isOther, isThird⟩
    obtain rfl := Option.some.inj (isFirst.symm.trans isOther)
    exact Option.some.inj (isSecond.symm.trans isThird)
  have total := Relation.ReflTransGen.total_of_right_unique unique
    (indexed.head_reaches isRow isSeg) (indexed.head_reaches isLeaf (sameSeg ▸ isSeg))
  have isEq : Above forest mrow leaf → Above forest leaf mrow → mrow = leaf :=
    fun upper lower => Above.antisymm (indexed.node_of_row isLeaf) upper lower
  rcases total with onward | backward
  · obtain ⟨found, isFound, _, isAbove, isOrder⟩ := indexed.reaches order isRow onward
    obtain rfl := Option.some.inj (isLeaf.symm.trans isFound)
    rcases isOrder with rfl | isLess
    · obtain rfl := Option.some.inj (isRow.symm.trans isLeaf)
      exact ⟨⟨fun _ => le_refl _, fun _ => isAbove⟩, fun _ isOther => absurd rfl isOther⟩
    · have isSmaller := order.less isLess
      exact ⟨⟨fun _ => le_of_lt isSmaller, fun _ => isAbove⟩, fun _ _ => isSmaller⟩
  · obtain ⟨found, isFound, _, isAbove, isOrder⟩ := indexed.reaches order isLeaf backward
    obtain rfl := Option.some.inj (isRow.symm.trans isFound)
    rcases isOrder with rfl | isLess
    · obtain rfl := Option.some.inj (isRow.symm.trans isLeaf)
      exact ⟨⟨fun _ => le_refl _, fun _ => isAbove⟩, fun _ isOther => absurd rfl isOther⟩
    · have isSmaller := order.less isLess
      refine ⟨⟨fun upper => ?_, fun notLess => absurd isSmaller (not_lt.mpr notLess)⟩,
        fun upper isOther => absurd (isEq upper isAbove) isOther⟩
      obtain rfl := isEq upper isAbove
      obtain rfl := Option.some.inj (isRow.symm.trans isLeaf)
      exact le_refl _

/-! ## Across segments -/

theorem Indexed.above_cases {mrow leaf : Nat} {row leafRow : BranchRow} {seg : SegRow}
    (isRow : db.rows mrow = some row) (isLeaf : db.rows leaf = some leafRow)
    (isSeg : db.segs (db.segOf leafRow) = some seg) (above : Above forest mrow leaf) :
    db.segOf row = db.segOf leafRow ∨
      ∃ attach, seg.attach = some attach ∧ Above forest mrow attach := by
  induction above generalizing leafRow with
  | self _ =>
    obtain rfl := Option.some.inj (isRow.symm.trans isLeaf)
    exact Or.inl rfl
  | @step leaf parent isParent isAbove ih =>
    obtain ⟨found, isFound, placed, _⟩ := indexed.rows leaf leafRow isLeaf
    obtain rfl := Option.some.inj (isSeg.symm.trans isFound)
    cases placed with
    | head _ isPlace => exact Or.inr ⟨parent, Option.some.inj (isPlace.symm.trans isParent), isAbove⟩
    | follows _ upper upperRow isUpper isUpperRow sameSeg _ _ =>
      obtain rfl := Option.some.inj (Option.some.inj (isParent.symm.trans isUpper))
      rw [← sameSeg] at isSeg ⊢
      exact ih isUpperRow isSeg

theorem Indexed.head_above {mrow : Nat} {seg : SegRow} (isRow : db.rows mrow = some row)
    (isSeg : db.segs (db.segOf row) = some seg) :
    Above forest seg.head mrow := by
  have reaches := indexed.head_reaches isRow isSeg
  obtain ⟨_, _, _, headRow, isHead, _⟩ := indexed.segs _ seg isSeg
  have steps : ∀ later, Relation.ReflTransGen (Follows db) seg.head later →
      Above forest seg.head later := by
    intro later isLater
    induction isLater with
    | refl => exact Above.self (indexed.node_of_row isHead).isNode
    | @tail middle later _ follows ih =>
      obtain ⟨middleRow, isMiddle, isNext⟩ := follows
      obtain ⟨_, _, _, onward⟩ := indexed.rows middle middleRow isMiddle
      cases onward with
      | tail noNext _ => cases noNext.symm.trans isNext
      | next next _ isFound _ _ _ isChild =>
        obtain rfl := Option.some.inj (isNext.symm.trans isFound)
        exact Above.step isChild ih
  exact steps mrow reaches

theorem Indexed.head_above_across {leaf upper : Nat} {leafRow : BranchRow} {upperSeg : SegRow}
    (isLeaf : db.rows leaf = some leafRow) (isUpper : db.segs upper = some upperSeg)
    (isAbove : Above db.segForest upper (db.segOf leafRow)) : Above forest upperSeg.head leaf := by
  obtain ⟨id, isId⟩ : ∃ id, id = db.segOf leafRow := ⟨_, rfl⟩
  rw [← isId] at isAbove
  induction isAbove generalizing leaf leafRow with
  | self _ => exact indexed.head_above isLeaf (isId ▸ isUpper)
  | @step id parent isParent _ ih =>
    obtain ⟨seg, isSeg, sameParent⟩ : ∃ seg, db.segs id = some seg ∧ seg.parent = some parent := by
      unfold Db.segForest at isParent
      cases isSeg : db.segs id with
      | none => rw [isSeg] at isParent; cases isParent
      | some seg => rw [isSeg] at isParent; exact ⟨seg, rfl, Option.some.inj isParent⟩
    obtain ⟨_, _, hangs, _⟩ := indexed.segs id seg isSeg
    cases hangs with
    | root noParent _ _ _ => cases noParent.symm.trans sameParent
    | below found attach _ _ attachRow isFound isAttach _ _ _ _ _ isRow inParent =>
      obtain rfl := Option.some.inj (sameParent.symm.trans isFound)
      have upperAbove := ih isRow inParent.symm
      have isPlace := indexed.head_place isSeg
      rw [isAttach] at isPlace
      exact (Above.step isPlace upperAbove).trans (indexed.head_above isLeaf (isId ▸ isSeg))

/-- A row above a row of another segment is on the segment that one of the segments above
hangs from, no later than where it hangs. -/
theorem Indexed.above_across {mrow leaf : Nat} {row leafRow : BranchRow}
    (isRow : db.rows mrow = some row) (isLeaf : db.rows leaf = some leafRow)
    (otherSeg : db.segOf row ≠ db.segOf leafRow) :
    Above forest mrow leaf ↔ ∃ child childSeg attach,
      Above db.segForest child (db.segOf leafRow) ∧ db.segs child = some childSeg ∧
        childSeg.parent = some (db.segOf row) ∧ childSeg.attach = some attach ∧
          Above forest mrow attach := by
  constructor
  · obtain ⟨id, isId⟩ : ∃ id, id = db.segOf leafRow := ⟨_, rfl⟩
    intro above
    rw [← isId] at otherSeg ⊢
    induction id using Nat.strongRecOn generalizing leaf leafRow with
    | _ id ih =>
      obtain ⟨seg, isSeg, _⟩ := indexed.rows leaf leafRow isLeaf
      rcases indexed.above_cases isRow isLeaf isSeg above with same | ⟨attach, isAttach, isUpper⟩
      · exact absurd (same.trans isId.symm) otherSeg
      rw [← isId] at isSeg
      obtain ⟨isName, _, hangs, _⟩ := indexed.segs id seg isSeg
      have isNode : (db.segForest id).isSome := by
        unfold Db.segForest
        rw [isSeg]
        rfl
      cases hangs with
      | root _ noAttach _ _ => cases noAttach.symm.trans isAttach
      | below parent found _ _ attachRow isParent isFound _ _ _ _ older isAttachRow inParent =>
        obtain rfl := Option.some.inj (isAttach.symm.trans isFound)
        by_cases isHere : db.segOf row = parent
        · exact ⟨id, seg, attach, Above.self isNode, isSeg, isParent.trans (congrArg some isHere.symm),
            isAttach, isUpper⟩
        · obtain ⟨child, childSeg, below, isBelow, others⟩ := ih parent
            (isName ▸ older) isAttachRow isHere inParent.symm isUpper
          refine ⟨child, childSeg, below, Above.step ?_ isBelow, others⟩
          unfold Db.segForest
          rw [isSeg]
          exact congrArg some isParent
  · rintro ⟨child, childSeg, attach, isAbove, isChild, _, isAttach, isUpper⟩
    have isPlace := indexed.head_place isChild
    rw [isAttach] at isPlace
    exact (Above.step isPlace isUpper).trans (indexed.head_above_across isLeaf isChild isAbove)

/-! ## Levels -/

theorem Indexed.segParent {id parent : Nat} {seg : SegRow} (isSeg : db.segs id = some seg)
    (isParent : db.segForest id = some (some parent)) :
    ∃ parentSeg, db.segs parent = some parentSeg ∧ seg.lvl = parentSeg.lvl + 1 := by
  unfold Db.segForest at isParent
  rw [isSeg] at isParent
  obtain ⟨_, _, hangs, _⟩ := indexed.segs id seg isSeg
  cases hangs with
  | root noParent _ _ _ => cases noParent.symm.trans (Option.some.inj isParent)
  | below found _ _ parentSeg _ isFound _ _ _ isIn isLvl _ _ _ =>
    obtain rfl := Option.some.inj ((Option.some.inj isParent).symm.trans isFound)
    exact ⟨parentSeg, isIn, isLvl⟩

theorem Indexed.lvl_above {upper id : Nat} {upperSeg seg : SegRow}
    (isUpper : db.segs upper = some upperSeg) (isSeg : db.segs id = some seg)
    (isAbove : Above db.segForest upper id) :
    upper = id ∨ upperSeg.lvl < seg.lvl := by
  induction isAbove generalizing seg with
  | self _ => exact Or.inl rfl
  | step isParent _ ih =>
    obtain ⟨parentSeg, isParentSeg, isLvl⟩ := indexed.segParent isSeg isParent
    rcases ih isParentSeg with rfl | isLower
    · obtain rfl := Option.some.inj (isUpper.symm.trans isParentSeg)
      exact Or.inr (by omega)
    · exact Or.inr (by omega)

theorem Indexed.climb_reaches {lvl fuel id : Nat} {seg : SegRow} (isSeg : db.segs id = some seg)
    (notBelow : lvl ≤ seg.lvl) (isEnough : seg.lvl ≤ lvl + fuel) :
    ∃ found, db.climb lvl fuel seg = .ok found ∧ found.lvl = lvl ∧
      db.segs found.seg = some found ∧ Above db.segForest found.seg id := by
  induction fuel generalizing id seg with
  | zero =>
    obtain ⟨isName, _⟩ := indexed.segs id seg isSeg
    subst isName
    refine ⟨seg, rfl, by omega, isSeg, Above.self ?_⟩
    unfold Db.segForest
    rw [isSeg]
    rfl
  | succ fuel ih =>
    obtain ⟨isName, _, hangs, _⟩ := indexed.segs id seg isSeg
    subst isName
    have isNode : (db.segForest seg.seg).isSome := by
      unfold Db.segForest
      rw [isSeg]
      rfl
    unfold Db.climb
    by_cases isIn : seg.lvl ≤ lvl
    · rw [if_pos isIn]
      exact ⟨seg, rfl, by omega, isSeg, Above.self isNode⟩
    rw [if_neg isIn]
    cases hangs with
    | root _ _ isTop _ => omega
    | below parent _ jump parentSeg _ isParent _ isJump isAbove isParentSeg isLvl _ _ _ =>
      have isStep : db.segForest seg.seg = some (some parent) := by
        unfold Db.segForest
        rw [isSeg]
        exact congrArg some isParent
      obtain ⟨jumpSeg, isJumpSeg⟩ : ∃ jumpSeg, db.segs jump = some jumpSeg := by
        have isSome := isAbove.top_isNode
        unfold Db.segForest at isSome
        cases isFound : db.segs jump with
        | none => rw [isFound] at isSome; cases isSome
        | some jumpSeg => exact ⟨jumpSeg, rfl⟩
      have isParentRead : db.readSegRow parent = .ok parentSeg := Db.readSegRow_of isParentSeg
      have isLower : jumpSeg.lvl ≤ parentSeg.lvl := by
        rcases indexed.lvl_above isJumpSeg isParentSeg isAbove with rfl | isLess
        · obtain rfl := Option.some.inj (isJumpSeg.symm.trans isParentSeg)
          exact Nat.le_refl _
        · exact isLess.le
      rw [isJump]
      dsimp only
      rw [Db.readSegRow_of isJumpSeg]
      by_cases isPast : lvl ≤ jumpSeg.lvl
      · obtain ⟨found, isFound, isLevel, isIn, isUpper⟩ :=
          ih isJumpSeg isPast (by omega)
        refine ⟨found, ?_, isLevel, isIn, isUpper.trans (Above.step isStep isAbove)⟩
        simpa [isPast, Option.filter] using isFound
      · obtain ⟨found, isFound, isLevel, isIn, isUpper⟩ :=
          ih isParentSeg (by omega) (by omega)
        refine ⟨found, ?_, isLevel, isIn, Above.step isStep isUpper⟩
        simpa [isPast, Option.filter, isParent, isParentRead] using isFound

end Answers

theorem answers_no {holds : Prop} (isNot : ¬holds) :
    ∃ answer, (pure false : Except String Bool) = .ok answer ∧ (answer = true ↔ holds) :=
  ⟨false, rfl, fun isTrue => absurd isTrue Bool.false_ne_true, fun isHeld => absurd isHeld isNot⟩

section

variable {lt : Key → Key → Prop} {forest : Forest Nat} {db : Db} (indexed : Indexed lt forest db)
  (order : KeyOrder lt)

include indexed

/-- The climb to a level: nothing when the leaf is above it, else the one segment above that
is at the level. -/
theorem Indexed.ancestorAt_eq {id lvl : Nat} {seg : SegRow} (isSeg : db.segs id = some seg) :
    (seg.lvl < lvl ∧ db.ancestorAt seg lvl = .ok none) ∨
      ∃ found, db.ancestorAt seg lvl = .ok (some found) ∧ found.lvl = lvl ∧
        db.segs found.seg = some found ∧ Above db.segForest found.seg id := by
  unfold Db.ancestorAt
  by_cases isBelow : seg.lvl < lvl
  · rw [if_pos isBelow]
    exact Or.inl ⟨isBelow, rfl⟩
  · rw [if_neg isBelow]
    obtain ⟨found, isFound, others⟩ := @Indexed.climb_reaches _ _ _ indexed lvl seg.lvl _ _ isSeg
      (by omega) (by omega)
    rw [isFound]
    exact Or.inr ⟨found, rfl, others⟩

include order

/-- **Membership.** The oracle says of every row exactly whether it is the leaf or above it. -/
theorem Indexed.branchOracle_iff {leaf : Nat} (isLeaf : (forest leaf).isSome) (mrow : Nat) :
    ∃ answer, db.branchOracle (some leaf) mrow = .ok answer ∧
      (answer = true ↔ Above forest mrow leaf) := by
  obtain ⟨leafRow, isLeafRow⟩ := indexed.row_of_node isLeaf
  obtain ⟨leafSeg, isLeafSeg, _⟩ := indexed.rows leaf leafRow isLeafRow
  obtain ⟨isLeafName, _⟩ := indexed.segs _ _ isLeafSeg
  unfold Db.branchOracle
  dsimp only
  rw [isLeafRow]
  dsimp only
  rw [Db.readSegRow_of isLeafSeg, ok_bind]
  by_cases isSelf : mrow = leaf
  · rw [if_pos isSelf]
    refine ⟨true, rfl, fun _ => ?_, fun _ => rfl⟩
    rw [isSelf]
    exact Above.self isLeaf
  rw [if_neg isSelf]
  cases isRow : db.rows mrow with
  | none =>
    refine answers_no fun above => ?_
    obtain ⟨row, isFound⟩ := indexed.row_of_node above.top_isNode
    cases isRow.symm.trans isFound
  | some row =>
    dsimp only
    rw [isLeafName]
    by_cases sameSeg : db.segOf row = db.segOf leafRow
    · rw [if_pos sameSeg]
      refine ⟨_, rfl, ?_⟩
      rw [decide_eq_true_iff]
      exact (indexed.above_iff_le order isRow isLeafRow sameSeg).1.symm
    rw [if_neg sameSeg]
    obtain ⟨mine, isMine, _⟩ := indexed.rows mrow row isRow
    rw [Db.readSegRow_of isMine, ok_bind]
    rw [indexed.above_across isRow isLeafRow sameSeg]
    -- a child on the way hangs from this segment, one level below it
    have childLevel {child : Nat} {childSeg : SegRow} (isChild : db.segs child = some childSeg)
        (isParent : childSeg.parent = some (db.segOf row)) : childSeg.lvl = mine.lvl + 1 := by
      have isStep : db.segForest child = some (some (db.segOf row)) := by
        unfold Db.segForest
        rw [isChild]
        exact congrArg some isParent
      obtain ⟨found, isFound, isLvl⟩ := indexed.segParent isChild isStep
      obtain rfl := Option.some.inj (isMine.symm.trans isFound)
      exact isLvl
    rcases @Indexed.ancestorAt_eq _ _ _ indexed _ (mine.lvl + 1) _ isLeafSeg with
      ⟨isHigh, isNone⟩ | ⟨found, isFound, isLevel, isIn, isAbove⟩
    · rw [isNone, ok_bind]
      refine answers_no ?_
      rintro ⟨child, childSeg, _, isUpper, isChild, isParent, _⟩
      have isLvl := childLevel isChild isParent
      rcases indexed.lvl_above isChild isLeafSeg isUpper with rfl | isLess
      · obtain rfl := Option.some.inj (isChild.symm.trans isLeafSeg)
        omega
      · omega
    rw [isFound, ok_bind]
    dsimp only
    -- the child on the way is the segment that was found
    have isOnly {child : Nat} {childSeg : SegRow} (isChild : db.segs child = some childSeg)
        (isParent : childSeg.parent = some (db.segOf row))
        (isUpper : Above db.segForest child (db.segOf leafRow)) : childSeg = found := by
      have isLvl := childLevel isChild isParent
      have isSame : child = found.seg := by
        rcases Above.total isUpper isAbove with upper | lower
        · rcases indexed.lvl_above isChild isIn upper with isSame | isLess
          · exact isSame
          · omega
        · rcases indexed.lvl_above isIn isChild lower with isSame | isLess
          · exact isSame.symm
          · omega
      rw [isSame] at isChild
      exact Option.some.inj (isChild.symm.trans isIn)
    by_cases isParent : found.parent = some (db.segOf row)
    swap
    · rw [if_pos isParent]
      refine answers_no ?_
      rintro ⟨child, childSeg, _, isUpper, isChild, isHung, _⟩
      exact absurd (isOnly isChild isHung isUpper ▸ isHung) isParent
    rw [if_neg (not_not.mpr isParent)]
    obtain ⟨_, _, hangs, _⟩ := indexed.segs _ _ isIn
    cases hangs with
    | root noParent _ _ _ => cases noParent.symm.trans isParent
    | below parent attach _ _ attachRow isUpperSeg isAttach _ _ _ _ _ isAttachRow inParent =>
      obtain rfl := Option.some.inj (isUpperSeg.symm.trans isParent)
      rw [isAttach]
      dsimp only
      rw [isAttachRow]
      refine ⟨_, rfl, ?_⟩
      rw [decide_eq_true_iff, ← (indexed.above_iff_le order isRow isAttachRow inParent.symm).1]
      constructor
      · exact fun isUpper => ⟨found.seg, found, attach, isAbove, isIn, isParent, isAttach, isUpper⟩
      · rintro ⟨child, childSeg, other, isUpper, isChild, isHung, isOther, isAboveOther⟩
        obtain rfl := isOnly isChild isHung isUpper
        obtain rfl := Option.some.inj (isAttach.symm.trans isOther)
        exact isAboveOther

/-- **Order on a branch.** Of two rows on one branch the one above comes first. -/
theorem Indexed.compareOnBranch_neg {upper lower : Nat} (isAbove : Above forest upper lower)
    (isOther : upper ≠ lower) :
    (∃ sign, db.compareOnBranch upper lower = .ok sign ∧ sign < 0) ∧
      ∃ sign, db.compareOnBranch lower upper = .ok sign ∧ 0 < sign := by
  obtain ⟨upperRow, isUpper⟩ := indexed.row_of_node isAbove.top_isNode
  obtain ⟨lowerRow, isLower⟩ := indexed.row_of_node isAbove.isNode
  unfold Db.compareOnBranch
  rw [if_neg isOther, if_neg (Ne.symm isOther), isUpper, isLower]
  dsimp only
  by_cases sameSeg : db.segOf upperRow = db.segOf lowerRow
  · rw [if_neg (not_not.mpr sameSeg), if_neg (not_not.mpr sameSeg.symm)]
    have isLess := (indexed.above_iff_le order isUpper isLower sameSeg).2 isAbove isOther
    have notLess : ¬ordOf lower lowerRow < ordOf upper upperRow :=
      fun isMore => List.lt_irrefl _ (List.lt_trans isLess isMore)
    unfold Db.bufferCompare
    rw [if_pos isLess, if_neg notLess, if_pos isLess]
    exact ⟨⟨-1, rfl, by decide⟩, ⟨1, rfl, by decide⟩⟩
  · rw [if_pos sameSeg, if_pos (Ne.symm sameSeg)]
    obtain ⟨upperSeg, isUpperSeg, _⟩ := indexed.rows upper upperRow isUpper
    obtain ⟨lowerSeg, isLowerSeg, _⟩ := indexed.rows lower lowerRow isLower
    rw [Db.readSegRow_of isUpperSeg, Db.readSegRow_of isLowerSeg]
    obtain ⟨child, childSeg, _, isBelow, isChild, isParent, _⟩ :=
      (indexed.above_across isUpper isLower sameSeg).mp isAbove
    have isStep : db.segForest child = some (some (db.segOf upperRow)) := by
      unfold Db.segForest
      rw [isChild]
      exact congrArg some isParent
    obtain ⟨found, isFound, isLvl⟩ := indexed.segParent isChild isStep
    obtain rfl := Option.some.inj (isUpperSeg.symm.trans isFound)
    have isLess : upperSeg.lvl < lowerSeg.lvl := by
      rcases indexed.lvl_above isChild isLowerSeg isBelow with rfl | isLess
      · obtain rfl := Option.some.inj (isChild.symm.trans isLowerSeg)
        omega
      · omega
    exact ⟨⟨_, rfl, by omega⟩, ⟨_, rfl, by omega⟩⟩

end

end Murage.BranchIndex
