import Murage.BranchIndex.Structure

/-!
Owns that each shape of write keeps the tables of the branch index: a row linked into a
segment, a row in front of a segment, a new segment, attachments moved, a row moved.

Does not own: which write an operation makes.
-/

namespace Murage.BranchIndex

open Murage.Library.Forests
open Murage.Library.OrderKeys

section

variable {lt : Key → Key → Prop} {forest forest' : Forest Nat} {db db' : Db} {new : Nat}

/-- Every row stays on its segment with its key, and every segment stays where it hangs. -/
structure Keeps (db db' : Db) : Prop where
  rows : ∀ mrow row, db.rows mrow = some row → ∃ kept, db'.rows mrow = some kept ∧
    db'.segOf kept = db.segOf row ∧ ordOf mrow kept = ordOf mrow row
  segs : ∀ id seg, db.segs id = some seg → ∃ kept, db'.segs id = some kept ∧
    kept.parent = seg.parent ∧ kept.lvl = seg.lvl

theorem Keeps.above (keeps : Keeps db db') {upper id : Nat}
    (above : Above db.segForest upper id) : Above db'.segForest upper id := by
  refine above.mono fun seg entry isEntry => ?_
  unfold Db.segForest at isEntry ⊢
  obtain ⟨found, isFound, rfl⟩ := Option.map_eq_some_iff.mp isEntry
  obtain ⟨kept, isKept, sameParent, _⟩ := keeps.segs seg found isFound
  rw [isKept, ← sameParent]
  rfl

theorem Hangs.kept {seg seg' : SegRow} (hangs : Hangs db seg) (keeps : Keeps db db')
    (sameName : seg'.seg = seg.seg) (sameParent : seg'.parent = seg.parent)
    (sameAttach : seg'.attach = seg.attach) (sameLvl : seg'.lvl = seg.lvl)
    (sameJump : seg'.jump = seg.jump) : Hangs db' seg' := by
  cases hangs with
  | root noParent noAttach isTop noJump =>
    exact Hangs.root (sameParent.trans noParent) (sameAttach.trans noAttach) (sameLvl.trans isTop)
      (sameJump.trans noJump)
  | below parent attach jump parentSeg attachRow isParent isAttach isJump isAbove isParentSeg isLvl
      older isRow inParent =>
      obtain ⟨keptRow, isKeptRow, keptSeg, _⟩ := keeps.rows attach attachRow isRow
      obtain ⟨keptParent, isKeptParent, _, keptLvl⟩ := keeps.segs parent parentSeg isParentSeg
      exact Hangs.below parent attach jump keptParent keptRow (sameParent.trans isParent)
        (sameAttach.trans isAttach) (sameJump.trans isJump) (keeps.above isAbove) isKeptParent
        (by rw [sameLvl, isLvl, keptLvl]) (by rw [sameName]; exact older) isKeptRow
        (keptSeg.trans inParent)

theorem Indexed.fresh_row (indexed : Indexed lt forest db) (isNew : forest new = none) :
    db.rows new = none := by
  have same := indexed.stored new
  rw [isNew] at same
  cases isRow : db.rows new with
  | none => rfl
  | some row => rw [isRow] at same; cases same

variable {mrow : Nat}

theorem Indexed.not_fresh (indexed : Indexed lt forest db) (isNew : forest new = none)
    {row : BranchRow} (isRow : db.rows mrow = some row) : mrow ≠ new := by
  rintro rfl
  cases (indexed.fresh_row isNew).symm.trans isRow

variable {seg : SegRow}

theorem Indexed.head_not_fresh (indexed : Indexed lt forest db) (isNew : forest new = none)
    {id : Nat} (isSeg : db.segs id = some seg) : seg.head ≠ new := by
  obtain ⟨_, _, _, headRow, isHead, _⟩ := indexed.segs id seg isSeg
  exact indexed.not_fresh isNew isHead

/-! ## A row linked into a segment -/

/-- The segments after a row was linked in behind `priorRow`. -/
def retail (db : Db) (new : Nat) (priorRow : BranchRow) (id : Nat) (seg : SegRow) : SegRow :=
  { seg with tail := if id = db.segOf priorRow ∧ priorRow.next = none then new else seg.tail }

/-- A new row comes right after another on its segment, and takes over what came next. -/
structure Linked (forest forest' : Forest Nat) (db db' : Db) (new prior : Nat)
    (row priorRow : BranchRow) : Prop where
  isNew : forest new = none
  isPrior : db.rows prior = some priorRow
  sameSeg : db.segOf row = db.segOf priorRow
  sameNext : row.next = priorRow.next
  newRow : db'.rows new = some row
  priorNext : db'.rows prior = some { priorRow with next := some new }
  otherRows : ∀ mrow, mrow ≠ new → mrow ≠ prior → db'.rows mrow = db.rows mrow
  segs : ∀ id, db'.segs id = (db.segs id).map (retail db new priorRow id)
  rootSeg : db'.rootSeg = db.rootSeg
  nextSeg : db'.nextSeg = db.nextSeg
  newPlace : forest' new = some (some prior)
  nextPlace : ∀ next, priorRow.next = some next → forest' next = some (some new)
  otherPlaces : ∀ mrow, mrow ≠ new → priorRow.next ≠ some mrow → forest' mrow = forest mrow

section Link

variable {prior : Nat} {row priorRow : BranchRow} (indexed : Indexed lt forest db)
  (linked : Linked forest forest' db db' new prior row priorRow)

include linked

theorem Linked.segOf (other : BranchRow) : db'.segOf other = db.segOf other := by
  unfold Db.segOf
  rw [linked.rootSeg]

theorem Linked.seg_of {id : Nat} (isSeg : db.segs id = some seg) :
    db'.segs id = some (retail db new priorRow id seg) := by
  rw [linked.segs, isSeg]
  rfl

include indexed

variable {other : BranchRow}

theorem Linked.row_of (isRow : db.rows mrow = some other) (isOther : mrow ≠ prior) :
    db'.rows mrow = some other :=
  (linked.otherRows mrow (indexed.not_fresh linked.isNew isRow) isOther).trans isRow

theorem Linked.keeps : Keeps db db' := by
  refine ⟨fun mrow other isRow => ?_, fun id seg isSeg => ⟨_, linked.seg_of isSeg, rfl, rfl⟩⟩
  by_cases isPrior : mrow = prior
  · subst isPrior
    obtain rfl := Option.some.inj (linked.isPrior.symm.trans isRow)
    exact ⟨_, linked.priorNext, linked.segOf _, rfl⟩
  · exact ⟨other, linked.row_of indexed isRow isPrior, linked.segOf other, rfl⟩

theorem Linked.prior_place : forest' prior = forest prior := by
  have grounded := indexed.node_of_row linked.isPrior
  obtain ⟨priorSeg, isPriorSeg, _⟩ := indexed.rows prior priorRow linked.isPrior
  refine linked.otherPlaces prior (indexed.not_fresh linked.isNew linked.isPrior) fun isNext => ?_
  exact grounded.acyclic (indexed.next_child linked.isPrior isNext isPriorSeg).1 (Above.self grounded.isNode)

theorem Linked.new_row {priorSeg : SegRow}
    (isPriorSeg : db.segs (db.segOf priorRow) = some priorSeg)
    (isAfter : lt (ordOf prior priorRow) (ordOf new row)) :
    Placed lt forest' db' new row (retail db new priorRow (db.segOf priorRow) priorSeg) ∧
      Onward forest' db' new row (retail db new priorRow (db.segOf priorRow) priorSeg) := by
  have notHead : priorSeg.head ≠ new := indexed.head_not_fresh linked.isNew isPriorSeg
  refine ⟨Placed.follows notHead prior _ linked.newPlace linked.priorNext ?_ rfl isAfter, ?_⟩
  · rw [linked.segOf, linked.segOf, linked.sameSeg]
    rfl
  · by_cases isLast : priorRow.next = none
    · exact Onward.tail (linked.sameNext.trans isLast) (if_pos ⟨rfl, isLast⟩)
    · obtain ⟨next, isNext⟩ := Option.ne_none_iff_exists'.mp isLast
      obtain ⟨isChild, notHead, nextRow, isNextRow, nextSeg⟩ :=
        indexed.next_child linked.isPrior isNext isPriorSeg
      obtain ⟨kept, isKept, keptSeg, _⟩ := (linked.keeps indexed).rows next nextRow isNextRow
      refine Onward.next next kept (linked.sameNext.trans isNext) isKept ?_ notHead
        (linked.nextPlace next isNext)
      rw [keptSeg, linked.segOf, linked.sameSeg, nextSeg]

theorem Linked.prior_row {priorSeg : SegRow}
    (isPriorSeg : db.segs (db.segOf priorRow) = some priorSeg) :
    Placed lt forest' db' prior { priorRow with next := some new }
        (retail db new priorRow (db.segOf priorRow) priorSeg) ∧
      Onward forest' db' prior { priorRow with next := some new }
        (retail db new priorRow (db.segOf priorRow) priorSeg) := by
  obtain ⟨found, isFound, placed, _⟩ := indexed.rows prior priorRow linked.isPrior
  obtain rfl := Option.some.inj (isPriorSeg.symm.trans isFound)
  have sameSeg : db'.segOf { priorRow with next := some new } = db.segOf priorRow := linked.segOf _
  have notHead : priorSeg.head ≠ new := indexed.head_not_fresh linked.isNew isPriorSeg
  refine ⟨?_, Onward.next new row rfl linked.newRow ?_ notHead linked.newPlace⟩
  · cases placed with
    | head isHead isPlace =>
      exact Placed.head isHead ((linked.prior_place indexed).trans isPlace)
    | follows notHead parent parentRow isParent isRow inSeg isNext isLess =>
      have parentOther : parent ≠ prior := by
        rintro rfl
        have grounded := indexed.node_of_row linked.isPrior
        exact grounded.acyclic isParent (Above.self grounded.isNode)
      exact Placed.follows notHead parent parentRow
        ((linked.prior_place indexed).trans isParent) (linked.row_of indexed isRow parentOther)
        (by rw [sameSeg, linked.segOf, inSeg]) isNext isLess
  · rw [sameSeg, linked.segOf, linked.sameSeg]

theorem Linked.other_row (isRow : db.rows mrow = some other) (isOther : mrow ≠ prior)
    (isSeg : db.segs (db.segOf other) = some seg)
    (isBefore : ∀ next nextRow, priorRow.next = some next → db.rows next = some nextRow →
      lt (ordOf new row) (ordOf next nextRow)) :
    Placed lt forest' db' mrow other (retail db new priorRow (db.segOf other) seg) ∧
      Onward forest' db' mrow other (retail db new priorRow (db.segOf other) seg) := by
  obtain ⟨found, isFound, placed, onward⟩ := indexed.rows mrow other isRow
  obtain rfl := Option.some.inj (isSeg.symm.trans isFound)
  obtain ⟨priorSeg, isPriorSeg, _, priorOnward⟩ := indexed.rows prior priorRow linked.isPrior
  have notNew := indexed.not_fresh linked.isNew isRow
  refine ⟨?_, ?_⟩
  · by_cases isNext : priorRow.next = some mrow
    · obtain ⟨_, notHead, nextRow, isNextRow, nextSeg⟩ :=
        indexed.next_child linked.isPrior isNext isPriorSeg
      obtain rfl := Option.some.inj (isRow.symm.trans isNextRow)
      have sameSeg : priorSeg = seg := by
        rw [nextSeg] at isSeg
        exact Option.some.inj (isPriorSeg.symm.trans isSeg)
      subst sameSeg
      refine Placed.follows notHead new row (linked.nextPlace mrow isNext) linked.newRow ?_
        (linked.sameNext.trans isNext) (isBefore mrow other isNext isRow)
      rw [linked.segOf, linked.segOf, linked.sameSeg, nextSeg]
    · have samePlace := linked.otherPlaces mrow notNew isNext
      cases placed with
      | head isHead isPlace => exact Placed.head isHead (samePlace.trans isPlace)
      | follows notHead parent parentRow isParent isParentRow inSeg isFollowed isLess =>
        have parentOther : parent ≠ prior := by
          rintro rfl
          obtain rfl := Option.some.inj (linked.isPrior.symm.trans isParentRow)
          exact isNext isFollowed
        exact Placed.follows notHead parent parentRow (samePlace.trans isParent)
          (linked.row_of indexed isParentRow parentOther)
          (by rw [linked.segOf, linked.segOf, inSeg]) isFollowed isLess
  · cases onward with
    | tail noNext isTail =>
      refine Onward.tail noNext ((if_neg ?_).trans isTail)
      rintro ⟨sameSeg, isLast⟩
      rw [sameSeg] at isSeg
      obtain rfl := Option.some.inj (isPriorSeg.symm.trans isSeg)
      cases priorOnward with
      | tail _ isPriorTail => exact isOther (isTail.symm.trans isPriorTail)
      | next _ _ isIn _ _ _ _ => cases isLast.symm.trans isIn
    | next next nextRow isNext isNextRow sameSeg notHead isChild =>
      obtain ⟨kept, isKept, keptSeg, _⟩ := (linked.keeps indexed).rows next nextRow isNextRow
      have notPriorNext : priorRow.next ≠ some next := by
        intro isPriorNext
        have isSame := isChild.symm.trans (indexed.next_child linked.isPrior isPriorNext isPriorSeg).1
        exact isOther (Option.some.inj (Option.some.inj isSame))
      exact Onward.next next kept isNext isKept (by rw [keptSeg, linked.segOf, sameSeg]) notHead
        ((linked.otherPlaces next (indexed.not_fresh linked.isNew isNextRow) notPriorNext).trans
          isChild)

/-- **A row linked into a segment.** Its key is between those of its neighbours. -/
theorem Indexed.link (grounded : ∀ mrow, (forest' mrow).isSome → Grounded forest' mrow)
    (isAfter : lt (ordOf prior priorRow) (ordOf new row))
    (isBefore : ∀ next nextRow, priorRow.next = some next → db.rows next = some nextRow →
      lt (ordOf new row) (ordOf next nextRow)) :
    Indexed lt forest' db' := by
  obtain ⟨priorSeg, isPriorSeg, _⟩ := indexed.rows prior priorRow linked.isPrior
  have keeps := linked.keeps indexed
  refine ⟨fun mrow => ?_, grounded, fun mrow other isOther => ?_, fun id seg' isSeg' => ?_, ?_, ?_⟩
  · by_cases isNew : mrow = new
    · subst isNew
      rw [linked.newRow, linked.newPlace]
      rfl
    · have sameNode : (forest' mrow).isSome = (forest mrow).isSome := by
        by_cases isNext : priorRow.next = some mrow
        · rw [linked.nextPlace mrow isNext, (indexed.next_child linked.isPrior isNext isPriorSeg).1]
          rfl
        · rw [linked.otherPlaces mrow isNew isNext]
      rw [sameNode, ← indexed.stored mrow]
      by_cases isPrior : mrow = prior
      · subst isPrior
        rw [linked.priorNext, linked.isPrior]
        rfl
      · rw [linked.otherRows mrow isNew isPrior]
  · by_cases isNew : mrow = new
    · subst isNew
      obtain rfl := Option.some.inj (linked.newRow.symm.trans isOther)
      refine ⟨_, ?_, linked.new_row indexed isPriorSeg isAfter⟩
      rw [linked.segOf, linked.sameSeg, linked.seg_of isPriorSeg]
    by_cases isPrior : mrow = prior
    · subst isPrior
      obtain rfl := Option.some.inj (linked.priorNext.symm.trans isOther)
      refine ⟨_, ?_, linked.prior_row indexed isPriorSeg⟩
      have sameSeg : db'.segOf { priorRow with next := some new } = db.segOf priorRow :=
        linked.segOf _
      rw [sameSeg, linked.seg_of isPriorSeg]
    · have isRow : db.rows mrow = some other :=
        (linked.otherRows mrow isNew isPrior).symm.trans isOther
      obtain ⟨seg, isSeg, _⟩ := indexed.rows mrow other isRow
      refine ⟨_, ?_, linked.other_row indexed isRow isPrior isSeg isBefore⟩
      rw [linked.segOf, linked.seg_of isSeg]
  · rw [linked.segs] at isSeg'
    obtain ⟨seg, isSeg, rfl⟩ := Option.map_eq_some_iff.mp isSeg'
    obtain ⟨isName, isOld, hangs, headRow, isHead, inSeg⟩ := indexed.segs id seg isSeg
    obtain ⟨kept, isKept, keptSeg, _⟩ := keeps.rows _ _ isHead
    exact ⟨isName, linked.nextSeg ▸ isOld, hangs.kept keeps rfl rfl rfl rfl rfl, kept, isKept,
      keptSeg.trans inSeg⟩
  · intro root isRoot
    rw [linked.rootSeg] at isRoot
    rw [linked.segs, Option.isSome_map]
    exact indexed.rootSeg root isRoot
  · intro noRoot
    rw [linked.rootSeg] at noRoot
    cases (indexed.empty noRoot prior).symm.trans linked.isPrior

end Link

/-! ## A row in front of a segment -/

def rehead (new front : Nat) (id : Nat) (seg : SegRow) : SegRow :=
  { seg with head := if id = front then new else seg.head }

/-- A new row comes first on a segment, before the row that was first. -/
structure Fronted (forest forest' : Forest Nat) (db db' : Db) (new target : Nat)
    (row targetRow : BranchRow) : Prop where
  isNew : forest new = none
  isTarget : db.rows target = some targetRow
  isHead : ∀ seg, db.segs (db.segOf targetRow) = some seg → seg.head = target
  sameSeg : db.segOf row = db.segOf targetRow
  isNext : row.next = some target
  newRow : db'.rows new = some row
  otherRows : ∀ mrow, mrow ≠ new → db'.rows mrow = db.rows mrow
  segs : ∀ id, db'.segs id = (db.segs id).map (rehead new (db.segOf targetRow) id)
  rootSeg : db'.rootSeg = db.rootSeg
  nextSeg : db'.nextSeg = db.nextSeg
  newPlace : forest' new = forest target
  targetPlace : forest' target = some (some new)
  otherPlaces : ∀ mrow, mrow ≠ new → mrow ≠ target → forest' mrow = forest mrow

section Front

variable {target : Nat} {row targetRow : BranchRow} (indexed : Indexed lt forest db)
  (fronted : Fronted forest forest' db db' new target row targetRow)

include fronted

theorem Fronted.segOf (other : BranchRow) : db'.segOf other = db.segOf other := by
  unfold Db.segOf
  rw [fronted.rootSeg]

theorem Fronted.seg_of {id : Nat} (isSeg : db.segs id = some seg) :
    db'.segs id = some (rehead new (db.segOf targetRow) id seg) := by
  rw [fronted.segs, isSeg]
  rfl

include indexed

theorem Fronted.row_of (isRow : db.rows mrow = some other) :
    db'.rows mrow = some other :=
  (fronted.otherRows mrow (indexed.not_fresh fronted.isNew isRow)).trans isRow

theorem Fronted.keeps : Keeps db db' :=
  ⟨fun _ other isRow => ⟨other, fronted.row_of indexed isRow, fronted.segOf other, rfl⟩,
    fun _ _ isSeg => ⟨_, fronted.seg_of isSeg, rfl, rfl⟩⟩

theorem Fronted.onward (isRow : db.rows mrow = some other)
    (isSeg : db.segs (db.segOf other) = some seg) :
    Onward forest' db' mrow other (rehead new (db.segOf targetRow) (db.segOf other) seg) := by
  obtain ⟨found, isFound, _, onward⟩ := indexed.rows mrow other isRow
  obtain rfl := Option.some.inj (isSeg.symm.trans isFound)
  cases onward with
  | tail noNext isTail => exact Onward.tail noNext isTail
  | next next nextRow isNext isNextRow sameSeg notHead isChild =>
    have nextNotNew := indexed.not_fresh fronted.isNew isNextRow
    have notTarget : next ≠ target := by
      rintro rfl
      obtain rfl := Option.some.inj (fronted.isTarget.symm.trans isNextRow)
      exact notHead (fronted.isHead seg (sameSeg ▸ isSeg))
    refine Onward.next next nextRow isNext (fronted.row_of indexed isNextRow)
      (by rw [fronted.segOf, fronted.segOf, sameSeg]) ?_
      ((fronted.otherPlaces next nextNotNew notTarget).trans isChild)
    unfold rehead
    split_ifs
    · exact Ne.symm nextNotNew
    · exact notHead

theorem Fronted.placed (isRow : db.rows mrow = some other)
    (isSeg : db.segs (db.segOf other) = some seg)
    (isBefore : lt (ordOf new row) (ordOf target targetRow)) :
    Placed lt forest' db' mrow other (rehead new (db.segOf targetRow) (db.segOf other) seg) := by
  obtain ⟨found, isFound, placed, _⟩ := indexed.rows mrow other isRow
  obtain rfl := Option.some.inj (isSeg.symm.trans isFound)
  have notNew := indexed.not_fresh fronted.isNew isRow
  have notHead (stays : db.segOf other ≠ db.segOf targetRow → seg.head ≠ mrow) :
      (rehead new (db.segOf targetRow) (db.segOf other) seg).head ≠ mrow := by
    unfold rehead
    split_ifs with isFront
    · exact Ne.symm notNew
    · exact stays isFront
  by_cases isTarget : mrow = target
  · subst isTarget
    obtain rfl := Option.some.inj (fronted.isTarget.symm.trans isRow)
    exact Placed.follows (notHead fun isOther => absurd rfl isOther) new row fronted.targetPlace
      fronted.newRow (by rw [fronted.segOf, fronted.segOf, fronted.sameSeg]) fronted.isNext isBefore
  · have samePlace := fronted.otherPlaces mrow notNew isTarget
    cases placed with
    | head isHead isPlace =>
      refine Placed.head ?_ (samePlace.trans isPlace)
      unfold rehead
      rw [if_neg ?_]
      · exact isHead
      · intro isFront
        rw [isFront] at isSeg
        exact isTarget (isHead.symm.trans (fronted.isHead seg isSeg))
    | follows wasNotHead parent parentRow isParent isParentRow sameSeg isNext isAfter =>
      exact Placed.follows (notHead fun _ => wasNotHead) parent parentRow (samePlace.trans isParent)
        (fronted.row_of indexed isParentRow) (by rw [fronted.segOf, fronted.segOf, sameSeg]) isNext
        isAfter

/-- **A row in front of a segment.** Its key is below that of the row that was first. -/
theorem Indexed.front (grounded : ∀ mrow, (forest' mrow).isSome → Grounded forest' mrow)
    (isBefore : lt (ordOf new row) (ordOf target targetRow)) : Indexed lt forest' db' := by
  obtain ⟨front, isFront, _⟩ := indexed.rows target targetRow fronted.isTarget
  have keeps := fronted.keeps indexed
  have isPlace : forest target = some front.attach := by
    have isHead := fronted.isHead front isFront
    rw [← isHead]
    exact indexed.head_place isFront
  have frontHead : (rehead new (db.segOf targetRow) (db.segOf targetRow) front).head = new := if_pos rfl
  refine ⟨fun mrow => ?_, grounded, fun mrow other isOther => ?_, fun id seg' isSeg' => ?_, ?_, ?_⟩
  · by_cases isNew : mrow = new
    · subst isNew
      rw [fronted.newRow, fronted.newPlace, isPlace]
      rfl
    rw [fronted.otherRows mrow isNew, indexed.stored mrow]
    by_cases isTarget : mrow = target
    · subst isTarget
      rw [fronted.targetPlace, isPlace]
      rfl
    · rw [fronted.otherPlaces mrow isNew isTarget]
  · by_cases isNew : mrow = new
    · subst isNew
      obtain rfl := Option.some.inj (fronted.newRow.symm.trans isOther)
      refine ⟨_, ?_, Placed.head frontHead (fronted.newPlace.trans isPlace),
        Onward.next target targetRow fronted.isNext (fronted.row_of indexed fronted.isTarget) ?_ ?_
          fronted.targetPlace⟩
      · rw [fronted.segOf, fronted.sameSeg, fronted.seg_of isFront]
      · rw [fronted.segOf, fronted.segOf, fronted.sameSeg]
      · rw [frontHead]
        exact Ne.symm (indexed.not_fresh fronted.isNew fronted.isTarget)
    · have isRow : db.rows mrow = some other := (fronted.otherRows mrow isNew).symm.trans isOther
      obtain ⟨seg, isSeg, _⟩ := indexed.rows mrow other isRow
      refine ⟨_, ?_, fronted.placed indexed isRow isSeg isBefore, fronted.onward indexed isRow isSeg⟩
      rw [fronted.segOf, fronted.seg_of isSeg]
  · rw [fronted.segs] at isSeg'
    obtain ⟨seg, isSeg, rfl⟩ := Option.map_eq_some_iff.mp isSeg'
    obtain ⟨isName, isOld, hangs, headRow, isHead, inSeg⟩ := indexed.segs id seg isSeg
    refine ⟨isName, fronted.nextSeg ▸ isOld, hangs.kept keeps rfl rfl rfl rfl rfl, ?_⟩
    by_cases isFrontSeg : id = db.segOf targetRow
    · refine ⟨row, ?_, (fronted.segOf row).trans (fronted.sameSeg.trans isFrontSeg.symm)⟩
      rw [show (rehead new (db.segOf targetRow) id seg).head = new from if_pos isFrontSeg]
      exact fronted.newRow
    · refine ⟨headRow, ?_, (fronted.segOf headRow).trans inSeg⟩
      rw [show (rehead new (db.segOf targetRow) id seg).head = seg.head from if_neg isFrontSeg]
      exact fronted.row_of indexed isHead
  · intro root isRoot
    rw [fronted.rootSeg] at isRoot
    rw [fronted.segs, Option.isSome_map]
    exact indexed.rootSeg root isRoot
  · intro noRoot
    rw [fronted.rootSeg] at noRoot
    cases (indexed.empty noRoot target).symm.trans fronted.isTarget

end Front

/-! ## A segment of its own -/

structure Hung (forest forest' : Forest Nat) (db db' : Db) (new : Nat) (row : BranchRow)
    (seg : SegRow) : Prop where
  isNew : forest new = none
  isFirst : db.rootSeg = none ↔ db'.rootSeg ≠ db.rootSeg
  firstSeg : db.rootSeg = none → db'.rootSeg = some seg.seg
  newRow : db'.rows new = some row
  noNext : row.next = none
  otherRows : ∀ mrow, mrow ≠ new → db'.rows mrow = db.rows mrow
  inSeg : db'.segOf row = seg.seg
  newSeg : db'.segs seg.seg = some seg
  isName : seg.seg = db.nextSeg
  isHead : seg.head = new
  isTail : seg.tail = new
  otherSegs : ∀ id, id ≠ db.nextSeg → db'.segs id = db.segs id
  nextSeg : db'.nextSeg = db.nextSeg + 1
  newPlace : forest' new = some seg.attach
  otherPlaces : ∀ mrow, mrow ≠ new → forest' mrow = forest mrow

section Hang

variable {row : BranchRow} {seg : SegRow} (indexed : Indexed lt forest db)
  (hung : Hung forest forest' db db' new row seg)

include indexed hung

theorem Hung.segOf (isRow : db.rows mrow = some other) :
    db'.segOf other = db.segOf other := by
  have sameRoot : db'.rootSeg = db.rootSeg := by
    by_contra isChanged
    have noRoot := hung.isFirst.mpr isChanged
    cases (indexed.empty noRoot mrow).symm.trans isRow
  unfold Db.segOf
  rw [sameRoot]

theorem Hung.seg_of {id : Nat} {other : SegRow} (isSeg : db.segs id = some other) :
    db'.segs id = some other := by
  obtain ⟨_, isOld, _⟩ := indexed.segs id other isSeg
  rw [hung.otherSegs id (Nat.ne_of_lt isOld), isSeg]

theorem Hung.row_of (isRow : db.rows mrow = some other) :
    db'.rows mrow = some other :=
  (hung.otherRows mrow (indexed.not_fresh hung.isNew isRow)).trans isRow

theorem Hung.keeps : Keeps db db' :=
  ⟨fun _ other isRow => ⟨other, hung.row_of indexed isRow, hung.segOf indexed isRow, rfl⟩,
    fun _ other isSeg => ⟨other, hung.seg_of indexed isSeg, rfl, rfl⟩⟩

/-- **A segment of its own.** The row's key does not matter. -/
theorem Indexed.hang (grounded : ∀ mrow, (forest' mrow).isSome → Grounded forest' mrow)
    (hangs : Hangs db seg) : Indexed lt forest' db' := by
  have keeps := hung.keeps indexed
  refine ⟨fun mrow => ?_, grounded, fun mrow other isOther => ?_, fun id other isSeg => ?_, ?_, ?_⟩
  · by_cases isNew : mrow = new
    · subst isNew
      rw [hung.newRow, hung.newPlace]
      rfl
    · rw [hung.otherRows mrow isNew, hung.otherPlaces mrow isNew, indexed.stored mrow]
  · by_cases isNew : mrow = new
    · subst isNew
      obtain rfl := Option.some.inj (hung.newRow.symm.trans isOther)
      refine ⟨seg, ?_, Placed.head hung.isHead hung.newPlace, Onward.tail hung.noNext hung.isTail⟩
      rw [hung.inSeg, hung.newSeg]
    have isRow : db.rows mrow = some other := (hung.otherRows mrow isNew).symm.trans isOther
    have samePlace := hung.otherPlaces mrow isNew
    obtain ⟨found, isFound, placed, onward⟩ := indexed.rows mrow other isRow
    refine ⟨found, ?_, ?_, ?_⟩
    · rw [hung.segOf indexed isRow]
      exact hung.seg_of indexed isFound
    · cases placed with
      | head isHead isPlace => exact Placed.head isHead (samePlace.trans isPlace)
      | follows notHead parent parentRow isParent isParentRow sameSeg isNext isAfter =>
        exact Placed.follows notHead parent parentRow (samePlace.trans isParent)
          (hung.row_of indexed isParentRow)
          (by rw [hung.segOf indexed isRow, hung.segOf indexed isParentRow, sameSeg]) isNext isAfter
    · cases onward with
      | tail noNext isTail => exact Onward.tail noNext isTail
      | next next nextRow isNext isNextRow sameSeg notHead isChild =>
        exact Onward.next next nextRow isNext (hung.row_of indexed isNextRow)
          (by rw [hung.segOf indexed isRow, hung.segOf indexed isNextRow, sameSeg]) notHead
          ((hung.otherPlaces next (indexed.not_fresh hung.isNew isNextRow)).trans isChild)
  · by_cases isNewSeg : id = db.nextSeg
    · subst isNewSeg
      rw [← hung.isName] at isSeg
      obtain rfl := Option.some.inj (hung.newSeg.symm.trans isSeg)
      refine ⟨hung.isName, hung.nextSeg ▸ Nat.lt_succ_self _, hangs.kept keeps rfl rfl rfl rfl rfl,
        row, ?_, hung.inSeg.trans hung.isName⟩
      rw [hung.isHead, hung.newRow]
    · rw [hung.otherSegs id isNewSeg] at isSeg
      obtain ⟨isName, isOld, otherHangs, headRow, isHead, inSeg⟩ := indexed.segs id other isSeg
      refine ⟨isName, hung.nextSeg ▸ Nat.lt_succ_of_lt isOld,
        otherHangs.kept keeps rfl rfl rfl rfl rfl, headRow, hung.row_of indexed isHead, ?_⟩
      rw [hung.segOf indexed isHead, inSeg]
  · intro root isRoot
    by_cases noRoot : db.rootSeg = none
    · obtain rfl := Option.some.inj ((hung.firstSeg noRoot).symm.trans isRoot)
      rw [hung.newSeg]
      rfl
    · have sameRoot : db'.rootSeg = db.rootSeg := by
        by_contra isChanged
        exact noRoot (hung.isFirst.mpr isChanged)
      rw [sameRoot] at isRoot
      obtain ⟨found, isFound⟩ := Option.isSome_iff_exists.mp (indexed.rootSeg root isRoot)
      rw [hung.seg_of indexed isFound]
      rfl
  · intro noRoot
    by_cases wasNone : db.rootSeg = none
    · cases (hung.firstSeg wasNone).symm.trans noRoot
    · have sameRoot : db'.rootSeg = db.rootSeg := by
        by_contra isChanged
        exact wasNone (hung.isFirst.mpr isChanged)
      exact absurd (sameRoot.symm.trans noRoot) wasNone

end Hang

/-! ## Attachments moved -/

/-- The segments after what hung from one row hangs from another. -/
def reattach (new anchor : Nat) (seg : SegRow) : SegRow :=
  if seg.attach = some anchor then { seg with attach := some new } else seg

theorem reattach_same (new anchor : Nat) (seg : SegRow) : (reattach new anchor seg).seg = seg.seg ∧
    (reattach new anchor seg).parent = seg.parent ∧ (reattach new anchor seg).lvl = seg.lvl ∧
    (reattach new anchor seg).jump = seg.jump ∧ (reattach new anchor seg).head = seg.head ∧
    (reattach new anchor seg).tail = seg.tail := by
  unfold reattach
  split_ifs
  · exact ⟨rfl, rfl, rfl, rfl, rfl, rfl⟩
  · exact ⟨rfl, rfl, rfl, rfl, rfl, rfl⟩

/-- The segments that hang from a row are moved to the row that comes next. -/
structure Reattached (forest forest' : Forest Nat) (db db' : Db) (new anchor : Nat)
    (anchorRow newRow : BranchRow) : Prop where
  isAnchor : db.rows anchor = some anchorRow
  isNew : db.rows new = some newRow
  isNext : anchorRow.next = some new
  rows : db'.rows = db.rows
  segs : ∀ id, db'.segs id = (db.segs id).map (reattach new anchor)
  rootSeg : db'.rootSeg = db.rootSeg
  nextSeg : db'.nextSeg = db.nextSeg
  newPlace : forest' new = forest new
  moved : ∀ mrow, mrow ≠ new → forest mrow = some (some anchor) → forest' mrow = some (some new)
  others : ∀ mrow, forest mrow ≠ some (some anchor) → forest' mrow = forest mrow

section Reattach

variable {anchor : Nat} {anchorRow newRow : BranchRow} (indexed : Indexed lt forest db)
  (moved : Reattached forest forest' db db' new anchor anchorRow newRow)

include moved

theorem Reattached.segOf (other : BranchRow) : db'.segOf other = db.segOf other := by
  unfold Db.segOf
  rw [moved.rootSeg]

theorem Reattached.seg_of {id : Nat} (isSeg : db.segs id = some seg) :
    db'.segs id = some (reattach new anchor seg) := by
  rw [moved.segs, isSeg]
  rfl

include indexed

/-- **Attachments moved.** The rows that hung from the anchor are now the new row's children. -/
theorem Indexed.reattach (grounded : ∀ mrow, (forest' mrow).isSome → Grounded forest' mrow) :
    Indexed lt forest' db' := by
  obtain ⟨anchorSeg, isAnchorSeg, _, onward⟩ := indexed.rows anchor anchorRow moved.isAnchor
  have newOnward : forest new = some (some anchor) ∧ anchorSeg.head ≠ new ∧
      db.segOf newRow = db.segOf anchorRow := by
    cases onward with
    | tail noNext _ => cases noNext.symm.trans moved.isNext
    | next next nextRow isNext isNextRow sameSeg notHead isChild =>
      obtain rfl := Option.some.inj (moved.isNext.symm.trans isNext)
      obtain rfl := Option.some.inj (moved.isNew.symm.trans isNextRow)
      exact ⟨isChild, notHead, sameSeg⟩
  obtain ⟨newChild, newNotHead, newSeg⟩ := newOnward
  have row_of {mrow : Nat} {other : BranchRow} (isRow : db.rows mrow = some other) :
      db'.rows mrow = some other := by
    rw [moved.rows, isRow]
  have keeps : Keeps db db' :=
    ⟨fun _ other isRow => ⟨other, row_of isRow, moved.segOf other, rfl⟩,
      fun _ seg isSeg =>
        ⟨_, moved.seg_of isSeg, (reattach_same new anchor seg).2.1,
          (reattach_same new anchor seg).2.2.1⟩⟩
  -- a child of the anchor that is not the new row was the head of a segment
  have stays {mrow parent : Nat} (isParent : forest mrow = some (some parent))
      (follows : ∃ parentRow, db.rows parent = some parentRow ∧ parentRow.next = some mrow) :
      forest' mrow = some (some parent) := by
    by_cases isAnchor : parent = anchor
    · obtain ⟨parentRow, isParentRow, isNext⟩ := follows
      subst isAnchor
      obtain rfl := Option.some.inj (moved.isAnchor.symm.trans isParentRow)
      obtain rfl := Option.some.inj (moved.isNext.symm.trans isNext)
      exact moved.newPlace.trans isParent
    · refine (moved.others mrow fun isChild => ?_).trans isParent
      exact isAnchor (Option.some.inj (Option.some.inj (isParent.symm.trans isChild)))
  refine ⟨fun mrow => ?_, grounded, fun mrow other isOther => ?_, fun id seg' isSeg' => ?_, ?_, ?_⟩
  · rw [moved.rows, indexed.stored mrow]
    by_cases isNew : mrow = new
    · rw [isNew, moved.newPlace]
    by_cases isChild : forest mrow = some (some anchor)
    · rw [isChild, moved.moved mrow isNew isChild]
      rfl
    · rw [moved.others mrow isChild]
  · have isRow : db.rows mrow = some other := by rw [← moved.rows, isOther]
    obtain ⟨seg, isSeg, placed, ahead⟩ := indexed.rows mrow other isRow
    obtain ⟨_, _, _, _, sameHead, sameTail⟩ := reattach_same new anchor seg
    refine ⟨_, by rw [moved.segOf, moved.seg_of isSeg], ?_, ?_⟩
    · cases placed with
      | head isHead isPlace =>
        refine Placed.head (sameHead.trans isHead) ?_
        have notNew : mrow ≠ new := by
          rintro rfl
          obtain rfl := Option.some.inj (moved.isNew.symm.trans isRow)
          rw [newSeg] at isSeg
          obtain rfl := Option.some.inj (isAnchorSeg.symm.trans isSeg)
          exact newNotHead isHead
        unfold BranchIndex.reattach
        split_ifs with isHere
        · exact moved.moved mrow notNew (isPlace.trans (congrArg some isHere))
        · refine (moved.others mrow fun isChild => isHere ?_).trans isPlace
          exact Option.some.inj (isPlace.symm.trans isChild)
      | follows notHead parent parentRow isParent isParentRow sameSeg isNext isAfter =>
        exact Placed.follows (sameHead ▸ notHead) parent parentRow
          (stays isParent ⟨parentRow, isParentRow, isNext⟩) (row_of isParentRow)
          (by rw [moved.segOf, moved.segOf, sameSeg]) isNext isAfter
    · cases ahead with
      | tail noNext isTail => exact Onward.tail noNext (sameTail.trans isTail)
      | next next nextRow isNext isNextRow sameSeg notHead isChild =>
        exact Onward.next next nextRow isNext (row_of isNextRow)
          (by rw [moved.segOf, moved.segOf, sameSeg]) (sameHead ▸ notHead)
          (stays isChild ⟨other, isRow, isNext⟩)
  · rw [moved.segs] at isSeg'
    obtain ⟨seg, isSeg, rfl⟩ := Option.map_eq_some_iff.mp isSeg'
    obtain ⟨sameName, sameParent, sameLvl, sameJump, sameHead, _⟩ :=
      reattach_same new anchor seg
    obtain ⟨isName, isOld, hangs, headRow, isHead, inSeg⟩ := indexed.segs id seg isSeg
    refine ⟨sameName.trans isName, moved.nextSeg ▸ isOld, ?_, headRow, ?_,
      (moved.segOf headRow).trans inSeg⟩
    · by_cases isHere : seg.attach = some anchor
      · cases hangs with
        | root _ noAttach _ _ => cases noAttach.symm.trans isHere
        | below parent attach jump parentSeg attachRow isParent isAttach isJump isAbove isParentSeg
            isLvl older isRow inParent =>
            obtain rfl := Option.some.inj (isHere.symm.trans isAttach)
            obtain rfl := Option.some.inj (moved.isAnchor.symm.trans isRow)
            have isMoved : (BranchIndex.reattach new anchor seg).attach = some new := by
              unfold BranchIndex.reattach
              rw [if_pos isHere]
            obtain ⟨keptParent, isKeptParent, _, keptLvl⟩ := keeps.segs parent parentSeg isParentSeg
            exact Hangs.below parent new jump keptParent newRow (sameParent.trans isParent) isMoved
              (sameJump.trans isJump) (keeps.above isAbove) isKeptParent
              (by rw [sameLvl, isLvl, keptLvl]) (by rw [sameName]; exact older) (row_of moved.isNew)
              (by rw [moved.segOf, newSeg, inParent])
      · refine hangs.kept keeps sameName sameParent ?_ sameLvl sameJump
        unfold BranchIndex.reattach
        rw [if_neg isHere]
    · rw [sameHead]
      exact row_of isHead
  · intro root isRoot
    rw [moved.rootSeg] at isRoot
    rw [moved.segs, Option.isSome_map]
    exact indexed.rootSeg root isRoot
  · intro noRoot mrow
    rw [moved.rootSeg] at noRoot
    rw [moved.rows]
    exact indexed.empty noRoot mrow

end Reattach

/-! ## A row under a new number -/

def renamed (old new mrow : Nat) : Nat := if mrow = old then new else mrow

/-- A row after one number was changed: the row that had it keeps its key. -/
def movedRow (old new mrow : Nat) (row : BranchRow) : BranchRow where
  seg := row.seg
  ord := if mrow = old then some (ordOf mrow row) else row.ord
  next := row.next.map (renamed old new)

/-- A segment after one number was changed, where `own` is the segment of the row. -/
def movedSeg (old new own id : Nat) (seg : SegRow) : SegRow :=
  { seg with
    attach := seg.attach.map (renamed old new)
    head := renamed old new seg.head
    tail := if id = own then renamed old new seg.tail else seg.tail }

/-- Everything that named a row by its old number names it by the new one. -/
structure Moved (forest : Forest Nat) (db db' : Db) (old new own : Nat) : Prop where
  isNew : forest new = none
  isOld : (forest old).isSome
  inOwn : ∀ row, db.rows old = some row → db.segOf row = own
  rows : ∀ mrow row, db.rows mrow = some row →
    db'.rows (renamed old new mrow) = some (movedRow old new mrow row)
  gone : db'.rows old = none
  others : ∀ mrow, mrow ≠ new → mrow ≠ old → db.rows mrow = none → db'.rows mrow = none
  segs : ∀ id, db'.segs id = (db.segs id).map (movedSeg old new own id)
  rootSeg : db'.rootSeg = db.rootSeg
  nextSeg : db'.nextSeg = db.nextSeg

section Move

variable {old own : Nat}

theorem ordOf_movedRow (mrow : Nat) (row : BranchRow) :
    ordOf (renamed old new mrow) (movedRow old new mrow row) = ordOf mrow row := by
  unfold ordOf movedRow renamed
  by_cases isOld : mrow = old
  · rw [if_pos isOld, if_pos isOld]
    rfl
  · rw [if_neg isOld, if_neg isOld]

variable (moved : Moved forest db db' old new own)

include moved

theorem Moved.segOf (row : BranchRow) (mrow : Nat) :
    db'.segOf (movedRow old new mrow row) = db.segOf row := by
  unfold Db.segOf
  rw [moved.rootSeg]
  rfl

theorem Moved.place (isNode : (forest mrow).isSome) :
    forest.rename old new (renamed old new mrow) =
      (forest mrow).map (Option.map (renamed old new)) := by
  have notNew : mrow ≠ new := by
    rintro rfl
    rw [moved.isNew] at isNode
    cases isNode
  unfold Forest.rename renamed
  by_cases isOld : mrow = old
  · subst isOld
    rw [if_pos rfl, if_pos rfl]
  · rw [if_neg isOld]
    dsimp only
    rw [if_neg notNew, if_neg isOld]

theorem Moved.injective {first second : Nat} (isFirst : (forest first).isSome)
    (isSecond : (forest second).isSome) (isOther : first ≠ second) :
    renamed old new first ≠ renamed old new second := by
  have notNew {mrow : Nat} (isNode : (forest mrow).isSome) : mrow ≠ new := by
    rintro rfl
    rw [moved.isNew] at isNode
    cases isNode
  unfold renamed
  split_ifs with isOld isAlso
  · exact fun _ => isOther (isOld.trans isAlso.symm)
  · exact Ne.symm (notNew isSecond)
  · exact notNew isFirst
  · exact isOther

/-- **A row under a new number.** -/
theorem Indexed.move (indexed : Indexed lt forest db) :
    Indexed lt (forest.rename old new) db' := by
  have isNode {mrow : Nat} {row : BranchRow} (isRow : db.rows mrow = some row) :
      (forest mrow).isSome := (indexed.node_of_row isRow).isNode
  have headNode {id : Nat} {seg : SegRow} (isSeg : db.segs id = some seg) :
      (forest seg.head).isSome := by
    obtain ⟨_, _, _, headRow, isHead, _⟩ := indexed.segs id seg isSeg
    exact isNode isHead
  have oldNotNew : old ≠ new := by
    rintro rfl
    have isOld := moved.isOld
    rw [moved.isNew] at isOld
    cases isOld
  -- every row that is there now was there under some number
  have row_cases {mrow : Nat} {row' : BranchRow} (isRow : db'.rows mrow = some row') :
      ∃ before row, db.rows before = some row ∧ mrow = renamed old new before ∧
        row' = movedRow old new before row := by
    by_cases isNew : mrow = new
    · obtain ⟨oldRow, isOldRow⟩ := indexed.row_of_node moved.isOld
      have isMoved := moved.rows old oldRow isOldRow
      have isName : renamed old new old = new := if_pos rfl
      rw [isName] at isMoved
      rw [isNew] at isRow
      exact ⟨old, oldRow, isOldRow, isNew.trans isName.symm,
        Option.some.inj (isRow.symm.trans isMoved)⟩
    by_cases isOld : mrow = old
    · subst isOld
      cases moved.gone.symm.trans isRow
    · cases isBefore : db.rows mrow with
      | none => cases (moved.others mrow isNew isOld isBefore).symm.trans isRow
      | some row =>
        have isMoved := moved.rows mrow row isBefore
        have isName : renamed old new mrow = mrow := if_neg isOld
        rw [isName, isRow] at isMoved
        exact ⟨mrow, row, isBefore, isName.symm, Option.some.inj isMoved⟩
  have seg_of {id : Nat} {seg : SegRow} (isSeg : db.segs id = some seg) :
      db'.segs id = some (movedSeg old new own id seg) := by
    rw [moved.segs, isSeg]
    rfl
  have above {upper id : Nat} (isAbove : Above db.segForest upper id) :
      Above db'.segForest upper id := by
    refine isAbove.mono fun seg entry isEntry => ?_
    unfold Db.segForest at isEntry ⊢
    obtain ⟨found, isFound, rfl⟩ := Option.map_eq_some_iff.mp isEntry
    rw [seg_of isFound]
    rfl
  have grounded : ∀ mrow, (forest.rename old new mrow).isSome →
      Grounded (forest.rename old new) mrow := by
    intro mrow isSome
    have step {before : Nat} (isBefore : (forest before).isSome)
        (isName : renamed old new before = mrow) : Grounded (forest.rename old new) mrow :=
      isName ▸ (indexed.grounded before isBefore).rename moved.isNew
    by_cases isNew : mrow = new
    · exact step moved.isOld ((if_pos rfl).trans isNew.symm)
    by_cases isOld : mrow = old
    · unfold Forest.rename at isSome
      dsimp only at isSome
      rw [if_neg isNew, if_pos isOld] at isSome
      cases isSome
    · unfold Forest.rename at isSome
      dsimp only at isSome
      rw [if_neg isNew, if_neg isOld, Option.isSome_map] at isSome
      exact step isSome (if_neg isOld)
  refine ⟨fun mrow => ?_, grounded, fun mrow row' isRow' => ?_, fun id seg' isSeg' => ?_, ?_, ?_⟩
  · cases isRow : db'.rows mrow with
    | some row' =>
      obtain ⟨before, row, isBefore, rfl, rfl⟩ := row_cases isRow
      rw [moved.place (isNode isBefore), Option.isSome_map, isNode isBefore]
      rfl
    | none =>
      cases isPlace : forest.rename old new mrow with
      | none => rfl
      | some entry =>
        exfalso
        unfold Forest.rename at isPlace
        dsimp only at isPlace
        split_ifs at isPlace with isNew isOld
        · obtain ⟨oldRow, isOldRow⟩ := indexed.row_of_node moved.isOld
          have isMoved := moved.rows old oldRow isOldRow
          rw [show renamed old new old = mrow from (if_pos rfl).trans isNew.symm, isRow] at isMoved
          cases isMoved
        · obtain ⟨place, isEntry, _⟩ := Option.map_eq_some_iff.mp isPlace
          obtain ⟨row, isBefore⟩ := indexed.row_of_node
            (by rw [isEntry]; rfl : (forest mrow).isSome)
          have isMoved := moved.rows mrow row isBefore
          rw [show renamed old new mrow = mrow from if_neg isOld, isRow] at isMoved
          cases isMoved
  · obtain ⟨before, row, isBefore, rfl, rfl⟩ := row_cases isRow'
    obtain ⟨seg, isSeg, placed, onward⟩ := indexed.rows before row isBefore
    refine ⟨_, by rw [moved.segOf, seg_of isSeg], ?_, ?_⟩
    · cases placed with
      | head isHead isPlace =>
        refine Placed.head (congrArg (renamed old new) isHead) ?_
        rw [moved.place (isNode isBefore), isPlace]
        rfl
      | follows notHead parent parentRow isParent isParentRow sameSeg isNext isAfter =>
        refine Placed.follows (moved.injective (headNode isSeg) (isNode isBefore) notHead)
          (renamed old new parent) _ ?_ (moved.rows parent parentRow isParentRow) ?_ ?_ ?_
        · rw [moved.place (isNode isBefore), isParent]
          rfl
        · rw [moved.segOf, moved.segOf, sameSeg]
        · exact congrArg (Option.map (renamed old new)) isNext
        · rw [ordOf_movedRow, ordOf_movedRow]
          exact isAfter
    · cases onward with
      | tail noNext isTail =>
        refine Onward.tail (congrArg (Option.map (renamed old new)) noNext) ?_
        unfold movedSeg
        by_cases isOwn : db.segOf row = own
        · rw [if_pos isOwn, isTail]
        · have notOld : before ≠ old := by
            rintro rfl
            exact isOwn (moved.inOwn row isBefore)
          rw [if_neg isOwn, isTail]
          exact (if_neg notOld).symm
      | next next nextRow isNext isNextRow sameSeg notHead isChild =>
        refine Onward.next (renamed old new next) _
          (congrArg (Option.map (renamed old new)) isNext) (moved.rows next nextRow isNextRow) ?_
          (moved.injective (headNode isSeg) (isNode isNextRow) notHead) ?_
        · rw [moved.segOf, moved.segOf, sameSeg]
        · rw [moved.place (isNode isNextRow), isChild]
          rfl
  · rw [moved.segs] at isSeg'
    obtain ⟨seg, isSeg, rfl⟩ := Option.map_eq_some_iff.mp isSeg'
    obtain ⟨isName, isOld, hangs, headRow, isHead, inSeg⟩ := indexed.segs id seg isSeg
    refine ⟨isName, moved.nextSeg ▸ isOld, ?_, _, moved.rows _ _ isHead, ?_⟩
    · cases hangs with
      | root noParent noAttach isTop noJump =>
        exact Hangs.root noParent (congrArg (Option.map (renamed old new)) noAttach) isTop noJump
      | below parent attach jump parentSeg attachRow isParent isAttach isJump isAbove isParentSeg
          isLvl older isRow inParent =>
          exact Hangs.below parent (renamed old new attach) jump _ _ isParent
            (congrArg (Option.map (renamed old new)) isAttach) isJump (above isAbove)
            (seg_of isParentSeg) isLvl older (moved.rows attach attachRow isRow)
            (by rw [moved.segOf, inParent])
    · rw [moved.segOf, inSeg]
  · intro root isRoot
    rw [moved.rootSeg] at isRoot
    rw [moved.segs, Option.isSome_map]
    exact indexed.rootSeg root isRoot
  · intro noRoot
    rw [moved.rootSeg] at noRoot
    obtain ⟨oldRow, isOldRow⟩ := indexed.row_of_node moved.isOld
    cases (indexed.empty noRoot old).symm.trans isOldRow

end Move

end

end Murage.BranchIndex
