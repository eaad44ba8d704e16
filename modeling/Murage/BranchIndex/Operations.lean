import Murage.BranchIndex.Writers

/-!
Owns what each operation on the branch index does when the tables hold a forest: it
succeeds, the tables hold the edited forest, and the keys keep room between them.

Does not own: sequences of operations.
-/

namespace Murage.BranchIndex

open Murage.Library.Forests
open Murage.Library.OrderKeys

/-! ## The keys of the rows -/

/-- A row's key is made of bytes and is positive, and the last row of a segment has no short
key, so that a longer number still goes after it. -/
def Roomy (mrow : Nat) (row : BranchRow) : Prop :=
  Bytes (ordOf mrow row) ∧ Under [] (ordOf mrow row) ∧ (row.next = none → 8 ≤ (ordOf mrow row).length)

def Keyed (db : Db) : Prop := ∀ mrow row, db.rows mrow = some row → Roomy mrow row

def RowsFrom (db db' : Db) (new : Nat) (newRow : BranchRow) : Prop :=
  ∀ mrow row, db'.rows mrow = some row → (mrow = new ∧ row = newRow) ∨
    ∃ before, db.rows mrow = some before ∧ ordOf mrow row = ordOf mrow before ∧
      (row.next = none → before.next = none)

theorem Keyed.rows {db db' : Db} {new : Nat} {newRow : BranchRow} (keyed : Keyed db)
    (rows : RowsFrom db db' new newRow) (roomy : Roomy new newRow) : Keyed db' := by
  intro mrow row isRow
  rcases rows mrow row isRow with ⟨rfl, rfl⟩ | ⟨before, isBefore, sameOrd, ends⟩
  · exact roomy
  · obtain ⟨bytes, positive, isLong⟩ := keyed mrow before isBefore
    unfold Roomy
    rw [sameOrd]
    exact ⟨bytes, positive, fun noNext => isLong (ends noNext)⟩

theorem be64_room {mrow : Nat} (positive : 0 < mrow) (fits : mrow < 2 ^ 64) :
    Bytes (be64 mrow) ∧ Under [] (be64 mrow) ∧ (be64 mrow).length = 8 :=
  ⟨bytes_bigEndian 8 mrow, positive_bigEndian positive (by omega), length_bigEndian 8 mrow⟩

/-! ## A new segment -/

section

variable {lt : Key → Key → Prop} {forest : Forest Nat} {db : Db} {mrow : Nat}

theorem Indexed.no_row (indexed : Indexed lt forest db) (isNew : forest mrow = none) :
    db.rows mrow = none := by
  have same := indexed.stored mrow
  rw [isNew] at same
  cases isRow : db.rows mrow with
  | none => rfl
  | some row => rw [isRow] at same; cases same

/-- The tables after a row was put on a segment of its own. -/
def Db.hangRow (db : Db) (mrow : Nat) (row : BranchRow) (seg : SegRow) (root : Option Nat) : Db where
  rows := Function.update db.rows mrow (some row)
  segs := Function.update db.segs db.nextSeg (some seg)
  rootSeg := root
  nextSeg := db.nextSeg + 1

variable {row : BranchRow}

theorem rowsFrom_insert {db' : Db} (sameRows : db'.rows = Function.update db.rows mrow (some row)) :
    RowsFrom db db' mrow row := by
  intro other found isFound
  rw [sameRows] at isFound
  by_cases isNew : other = mrow
  · subst isNew
    rw [Function.update_self] at isFound
    exact Or.inl ⟨rfl, (Option.some.inj isFound).symm⟩
  · rw [Function.update_of_ne isNew] at isFound
    exact Or.inr ⟨found, isFound, rfl, id⟩

theorem Indexed.hangRow (indexed : Indexed lt forest db) (seg : SegRow)
    (isNew : forest mrow = none) (isName : seg.seg = db.nextSeg) (isHead : seg.head = mrow)
    (isTail : seg.tail = mrow) (hangs : Hangs db seg)
    (isUnder : ∀ parent ∈ seg.attach, (forest parent).isSome) {stored root : Option Nat}
    (isRoot : db.rootSeg = none ∧ stored = none ∧ root = some seg.seg ∨
      db.rootSeg ≠ none ∧ stored = some seg.seg ∧ root = db.rootSeg) :
    Indexed lt (forest.leaf mrow seg.attach)
      (db.hangRow mrow { seg := stored, ord := none, next := none } seg root) := by
  have grounded := grounded_leaf isNew isUnder indexed.grounded
  have hung : Hung forest (forest.leaf mrow seg.attach) db
      (db.hangRow mrow { seg := stored, ord := none, next := none } seg root) mrow
      { seg := stored, ord := none, next := none } seg :=
    { isNew := isNew
      isFirst := by
        rcases isRoot with ⟨noRoot, _, rfl⟩ | ⟨hasRoot, _, rfl⟩
        · rw [noRoot]
          exact ⟨fun _ => Option.some_ne_none _, fun _ => rfl⟩
        · exact ⟨fun noRoot => absurd noRoot hasRoot, fun isOther => absurd rfl isOther⟩
      firstSeg := by
        rcases isRoot with ⟨_, _, rfl⟩ | ⟨hasRoot, _, _⟩
        · exact fun _ => rfl
        · exact fun noRoot => absurd noRoot hasRoot
      newRow := Function.update_self ..
      noNext := rfl
      otherRows := fun other isOther => Function.update_of_ne isOther ..
      inSeg := by
        rcases isRoot with ⟨_, rfl, rfl⟩ | ⟨_, rfl, _⟩
        · rfl
        · rfl
      newSeg := by
        rw [isName]
        exact Function.update_self ..
      isName := isName
      isHead := isHead
      isTail := isTail
      otherSegs := fun id isOther => Function.update_of_ne isOther ..
      nextSeg := rfl
      newPlace := Function.update_self ..
      otherPlaces := fun other isOther => Function.update_of_ne isOther .. }
  exact indexed.hang hung grounded hangs

theorem Indexed.encodeRoot_ok (indexed : Indexed lt forest db) (isNew : forest mrow = none) :
    ∃ db' row, db.encodeRoot mrow = .ok db' ∧ Indexed lt (forest.leaf mrow none) db' ∧
      RowsFrom db db' mrow row ∧ row.ord = none ∧ row.next = none := by
  let seg : SegRow :=
    { seg := db.nextSeg
      parent := none
      attach := none
      lvl := 0
      jump := none
      head := mrow
      tail := mrow }
  have hangs : Hangs db seg := Hangs.root rfl rfl rfl rfl
  by_cases noRoot : db.rootSeg = none
  · refine ⟨db.hangRow mrow { seg := none, ord := none, next := none } seg (some db.nextSeg), _, ?_,
      indexed.hangRow seg isNew rfl rfl rfl hangs (fun _ isParent => nomatch isParent)
        (Or.inl ⟨noRoot, rfl, rfl⟩), rowsFrom_insert rfl, rfl, rfl⟩
    simp only [Db.encodeRoot, Db.newSegment, pure, Except.pure, ok_bind, if_pos noRoot]
    rfl
  · refine ⟨db.hangRow mrow { seg := some db.nextSeg, ord := none, next := none } seg db.rootSeg, _,
      ?_, indexed.hangRow seg isNew rfl rfl rfl hangs (fun _ isParent => nomatch isParent)
        (Or.inr ⟨noRoot, rfl, rfl⟩), rowsFrom_insert rfl, rfl, rfl⟩
    simp only [Db.encodeRoot, Db.newSegment, pure, Except.pure, ok_bind, if_neg noRoot]
    rfl

theorem Indexed.newSegment_ok (indexed : Indexed lt forest db) {id : Nat} {parentSeg : SegRow}
    (isSeg : db.segs id = some parentSeg) (attach head : Nat) :
    ∃ jump, Above db.segForest jump id ∧
      db.newSegment (some parentSeg) (some attach) head = .ok (db.nextSeg,
        { db with
          segs := Function.update db.segs db.nextSeg (some
            { seg := db.nextSeg
              parent := some id
              attach := some attach
              lvl := parentSeg.lvl + 1
              jump := some jump
              head := head
              tail := head })
          nextSeg := db.nextSeg + 1 }) := by
  -- a segment's jump, or the segment itself, is there and is above it
  have jumpOf {id : Nat} {seg : SegRow} (isSeg : db.segs id = some seg) :
      ∃ found, db.readSegRow (seg.jump.getD seg.seg) = .ok found ∧
        db.segs found.seg = some found ∧ Above db.segForest found.seg id := by
    obtain ⟨isName, _, hangs, _⟩ := indexed.segs id seg isSeg
    have isNode : (db.segForest id).isSome := by
      unfold Db.segForest
      rw [isSeg]
      rfl
    cases hangs with
    | root _ _ _ noJump =>
      refine ⟨seg, ?_, by rw [isName, isSeg], by rw [isName]; exact Above.self isNode⟩
      rw [noJump, Option.getD_none, isName, Db.readSegRow_of isSeg]
    | below parent _ jump _ _ isParent _ isJump isAbove _ _ _ _ _ =>
      have isStep : db.segForest id = some (some parent) := by
        unfold Db.segForest
        rw [isSeg]
        exact congrArg some isParent
      have isIn := isAbove.top_isNode
      unfold Db.segForest at isIn
      rw [Option.isSome_map] at isIn
      obtain ⟨found, isFound⟩ := Option.isSome_iff_exists.mp isIn
      obtain ⟨foundName, _⟩ := indexed.segs jump found isFound
      refine ⟨found, ?_, by rw [foundName, isFound], by rw [foundName]; exact Above.step isStep isAbove⟩
      rw [isJump, Option.getD_some, Db.readSegRow_of isFound]
  obtain ⟨isName, _⟩ := indexed.segs id parentSeg isSeg
  obtain ⟨first, isFirst, firstThere, firstAbove⟩ := jumpOf isSeg
  obtain ⟨second, isSecond, _, secondAbove⟩ := jumpOf firstThere
  have isNode : (db.segForest id).isSome := firstAbove.isNode
  unfold Db.newSegment
  dsimp only
  rw [isFirst, ok_bind, isSecond, ok_bind, Option.map_some, isName]
  by_cases isEven : (parentSeg.lvl : Int) - first.lvl = first.lvl - second.lvl
  · rw [if_pos isEven]
    exact ⟨_, secondAbove.trans firstAbove, rfl⟩
  · rw [if_neg isEven]
    exact ⟨_, Above.self isNode, rfl⟩

/-! ## A row linked in -/

variable {priorRow : BranchRow}

theorem Indexed.other_of (indexed : Indexed lt forest db) (isNew : forest mrow = none)
    {prior : Nat} (isPrior : db.rows prior = some priorRow) : prior ≠ mrow := by
  rintro rfl
  cases (indexed.no_row isNew).symm.trans isPrior

theorem linkRow_rows (row : BranchRow) {prior : Nat}
    (isPrior : db.rows prior = some priorRow) (isOther : prior ≠ mrow) :
    ((db.rowInsert mrow row).rowNext mrow prior).rows mrow = some row ∧
      ((db.rowInsert mrow row).rowNext mrow prior).rows prior =
        some { priorRow with next := some mrow } ∧
      ∀ other, other ≠ mrow → other ≠ prior →
        ((db.rowInsert mrow row).rowNext mrow prior).rows other = db.rows other := by
  unfold Db.rowNext Db.rowInsert
  dsimp only
  refine ⟨?_, ?_, fun other isNew isOld => ?_⟩
  · rw [Function.update_of_ne (Ne.symm isOther), Function.update_self]
  · rw [Function.update_self, Function.update_of_ne isOther, isPrior]
    rfl
  · rw [Function.update_of_ne isOld, Function.update_of_ne isNew]

theorem rowsFrom_link {db' : Db} {prior : Nat} (isPrior : db.rows prior = some priorRow)
    (isOther : prior ≠ mrow)
    (sameRows : db'.rows = ((db.rowInsert mrow row).rowNext mrow prior).rows) :
    RowsFrom db db' mrow row := by
  obtain ⟨newRow, priorNext, others⟩ := linkRow_rows row isPrior isOther
  intro other found isFound
  rw [sameRows] at isFound
  by_cases isNew : other = mrow
  · subst isNew
    exact Or.inl ⟨rfl, Option.some.inj (isFound.symm.trans newRow)⟩
  by_cases isOld : other = prior
  · subst isOld
    obtain rfl := Option.some.inj (isFound.symm.trans priorNext)
    exact Or.inr ⟨priorRow, isPrior, rfl, fun noNext => nomatch noNext⟩
  · rw [others other isNew isOld] at isFound
    exact Or.inr ⟨found, isFound, rfl, id⟩

theorem segOf_storedSeg (ord : Option Key) (next : Option Nat) (id : Nat) :
    db.segOf { seg := db.storedSeg id, ord := ord, next := next } = id := by
  unfold Db.segOf Db.storedSeg
  by_cases isRoot : db.rootSeg = some id
  · rw [if_pos isRoot, isRoot]
    rfl
  · rw [if_neg isRoot]
    rfl

theorem Indexed.continue_ok {parent : Nat} {parentRow : BranchRow} {ord : Option Key}
    (indexed : Indexed lt forest db) (isNew : forest mrow = none)
    (isParent : db.rows parent = some parentRow) (noNext : parentRow.next = none)
    (isAfter : lt (ordOf parent parentRow) (ord.getD (be64 mrow))) :
    Indexed lt (forest.leaf mrow (some parent))
      (((db.rowInsert mrow
        { seg := db.storedSeg (db.segOf parentRow), ord := ord, next := none }).rowNext mrow
          parent).segTail mrow (db.segOf parentRow)) := by
  let row : BranchRow := { seg := db.storedSeg (db.segOf parentRow), ord := ord, next := none }
  have isOther := indexed.other_of isNew isParent
  obtain ⟨newRow, priorNext, others⟩ := linkRow_rows row isParent isOther
  have parentGrounded := indexed.node_of_row isParent
  have linked : Linked forest (forest.leaf mrow (some parent)) db
      (((db.rowInsert mrow row).rowNext mrow parent).segTail mrow (db.segOf parentRow)) mrow parent row
      parentRow :=
    { isNew := isNew
      isPrior := isParent
      sameSeg := segOf_storedSeg ord none _
      sameNext := noNext.symm
      newRow := newRow
      priorNext := priorNext
      otherRows := others
      segs := by
        intro id
        unfold Db.segTail Db.rowNext Db.rowInsert retail
        dsimp only
        by_cases isSeg : id = db.segOf parentRow
        · rw [isSeg, Function.update_self]
          cases db.segs (db.segOf parentRow) with
          | none => rfl
          | some seg => rw [Option.map_some, Option.map_some, if_pos ⟨rfl, noNext⟩]
        · rw [Function.update_of_ne isSeg]
          cases db.segs id with
          | none => rfl
          | some seg => rw [Option.map_some, if_neg fun both => isSeg both.1]
      rootSeg := rfl
      nextSeg := rfl
      newPlace := Function.update_self ..
      nextPlace := fun next isNext => nomatch noNext.symm.trans isNext
      otherPlaces := fun other isOther _ => Function.update_of_ne isOther .. }
  have grounded := grounded_leaf isNew
    (fun above isAbove => Option.some.inj isAbove ▸ parentGrounded.isNode) indexed.grounded
  exact indexed.link linked grounded isAfter fun next _ isNext => nomatch noNext.symm.trans isNext

theorem Indexed.encodeRow_tail {parent : Nat} {parentRow : BranchRow} {before : Option Nat}
    {ord : Option Key} (indexed : Indexed lt forest db) (isParent : db.rows parent = some parentRow)
    (noNext : parentRow.next = none)
    (isOrd : nextOrd mrow (ordOf parent parentRow) before = .ok ord) :
    db.encodeRow mrow (some parent) before = .ok
      (((db.rowInsert mrow
        { seg := db.storedSeg (db.segOf parentRow), ord := ord, next := none }).rowNext mrow
          parent).segTail mrow (db.segOf parentRow)) := by
  obtain ⟨parentSeg, isParentSeg, _, onward⟩ := indexed.rows parent parentRow isParent
  obtain ⟨isName, _⟩ := indexed.segs _ _ isParentSeg
  cases onward with
  | next next _ isNext => cases noNext.symm.trans isNext
  | tail _ isTail =>
    unfold Db.encodeRow
    dsimp only
    rw [isParent]
    dsimp only
    rw [Db.readSegRow_of isParentSeg, ok_bind, if_pos ⟨noNext, isTail⟩, isOrd, ok_bind, isName]
    rfl

/-- **A row is encoded under a row that is.** It goes on the parent's segment when the parent
is the last row there, with the key that is chosen for it, else on a segment of its own. -/
theorem Indexed.encodeRow_ok {parent : Nat} {before : Option Nat} (indexed : Indexed lt forest db)
    (isNew : forest mrow = none) (isParent : (forest parent).isSome)
    (hasOrd : ∀ parentRow, db.rows parent = some parentRow → parentRow.next = none →
      ∃ ord, nextOrd mrow (ordOf parent parentRow) before = .ok ord ∧
        lt (ordOf parent parentRow) (ord.getD (be64 mrow))) :
    ∃ db' row, db.encodeRow mrow (some parent) before = .ok db' ∧
      Indexed lt (forest.leaf mrow (some parent)) db' ∧ RowsFrom db db' mrow row ∧ row.next = none ∧
      (row.ord = none ∨ ∃ parentRow, db.rows parent = some parentRow ∧ parentRow.next = none ∧
        nextOrd mrow (ordOf parent parentRow) before = .ok row.ord) := by
  obtain ⟨parentRow, isParentRow⟩ := indexed.row_of_node isParent
  obtain ⟨parentSeg, isParentSeg, _, onward⟩ := indexed.rows parent parentRow isParentRow
  have isOther := indexed.other_of isNew isParentRow
  cases onward with
  | tail noNext _ =>
    obtain ⟨ord, isOrd, isAfter⟩ := hasOrd parentRow isParentRow noNext
    exact ⟨_, _, indexed.encodeRow_tail isParentRow noNext isOrd,
      indexed.continue_ok isNew isParentRow noNext isAfter,
      rowsFrom_link isParentRow isOther rfl, rfl, Or.inr ⟨parentRow, isParentRow, noNext, isOrd⟩⟩
  | next next _ isNext _ _ _ _ =>
    unfold Db.encodeRow
    dsimp only
    rw [isParentRow]
    dsimp only
    rw [Db.readSegRow_of isParentSeg, ok_bind, if_neg fun both => nomatch both.1.symm.trans isNext]
    obtain ⟨jump, isAbove, isMade⟩ := indexed.newSegment_ok isParentSeg parent mrow
    rw [isMade, ok_bind]
    let seg : SegRow :=
      { seg := db.nextSeg
        parent := some (db.segOf parentRow)
        attach := some parent
        lvl := parentSeg.lvl + 1
        jump := some jump
        head := mrow
        tail := mrow }
    have hangs : Hangs db seg :=
      Hangs.below _ parent jump parentSeg parentRow rfl rfl rfl isAbove isParentSeg rfl
        (indexed.segs _ _ isParentSeg).2.1 isParentRow rfl
    have hasRoot : db.rootSeg ≠ none := by
      intro noRoot
      cases (indexed.empty noRoot parent).symm.trans isParentRow
    have held := indexed.hangRow seg isNew rfl rfl rfl hangs
      (fun above isAbove => Option.some.inj isAbove ▸ isParent)
      (Or.inr ⟨hasRoot, rfl, rfl⟩)
    exact ⟨_, _, rfl, held, rowsFrom_insert rfl, rfl, Or.inl rfl⟩

/-! ## A row between two rows -/

theorem Indexed.between_ok {prior next : Nat} {nextRow : BranchRow} {key : Key}
    (indexed : Indexed lt forest db) (isNew : forest mrow = none)
    (isPrior : db.rows prior = some priorRow) (isNext : priorRow.next = some next)
    (isNextRow : db.rows next = some nextRow) (isAfter : lt (ordOf prior priorRow) key)
    (isBefore : lt key (ordOf next nextRow)) :
    Indexed lt (forest.before mrow next)
      ((db.rowInsert mrow
        { seg := db.storedSeg (db.segOf priorRow), ord := some key, next := some next }).rowNext
          mrow prior) := by
  let row : BranchRow :=
    { seg := db.storedSeg (db.segOf priorRow), ord := some key, next := some next }
  have isOther := indexed.other_of isNew isPrior
  have nextOther := indexed.other_of isNew isNextRow
  obtain ⟨newRow, priorNext, others⟩ := linkRow_rows row isPrior isOther
  obtain ⟨priorSeg, isPriorSeg, _⟩ := indexed.rows prior priorRow isPrior
  have isChild : forest next = some (some prior) :=
    (indexed.next_child isPrior isNext isPriorSeg).1
  have linked : Linked forest (forest.before mrow next) db ((db.rowInsert mrow row).rowNext mrow prior)
      mrow prior row priorRow :=
    { isNew := isNew
      isPrior := isPrior
      sameSeg := segOf_storedSeg _ _ _
      sameNext := isNext.symm
      newRow := newRow
      priorNext := priorNext
      otherRows := others
      segs := by
        intro id
        unfold Db.rowNext Db.rowInsert retail
        dsimp only
        cases db.segs id with
        | none => rfl
        | some seg => rw [Option.map_some, if_neg fun both => nomatch both.2.symm.trans isNext]
      rootSeg := rfl
      nextSeg := rfl
      newPlace := by
        unfold Forest.before
        rw [Function.update_self, isChild]
      nextPlace := by
        intro found isFound
        obtain rfl := Option.some.inj (isNext.symm.trans isFound)
        unfold Forest.before
        rw [Function.update_of_ne nextOther, Function.update_self]
      otherPlaces := by
        intro other isOther notNext
        unfold Forest.before
        rw [Function.update_of_ne isOther, Function.update_of_ne]
        rintro rfl
        exact notNext isNext }
  have grounded := grounded_before isNew (by rw [isChild]; rfl) indexed.grounded
  refine indexed.link linked grounded isAfter fun found foundRow isFound isFoundRow => ?_
  obtain rfl := Option.some.inj (isNext.symm.trans isFound)
  obtain rfl := Option.some.inj (isNextRow.symm.trans isFoundRow)
  exact isBefore

theorem Indexed.front_ok {target : Nat} {targetRow : BranchRow} {seg : SegRow} {key : Key}
    (indexed : Indexed lt forest db) (isNew : forest mrow = none)
    (isTarget : db.rows target = some targetRow) (isSeg : db.segs (db.segOf targetRow) = some seg)
    (isHead : seg.head = target) (isBefore : lt key (ordOf target targetRow)) :
    Indexed lt (forest.before mrow target)
      ((db.rowInsert mrow
        { seg := db.storedSeg (db.segOf targetRow), ord := some key, next := some target }).segHead
          mrow (db.segOf targetRow)) := by
  let row : BranchRow :=
    { seg := db.storedSeg (db.segOf targetRow), ord := some key, next := some target }
  have isOther := indexed.other_of isNew isTarget
  have isNode := (indexed.node_of_row isTarget).isNode
  have fronted : Fronted forest (forest.before mrow target) db
      ((db.rowInsert mrow row).segHead mrow (db.segOf targetRow)) mrow target row targetRow :=
    { isNew := isNew
      isTarget := isTarget
      isHead := by
        intro found isFound
        obtain rfl := Option.some.inj (isSeg.symm.trans isFound)
        exact isHead
      sameSeg := segOf_storedSeg _ _ _
      isNext := rfl
      newRow := Function.update_self ..
      otherRows := fun other isOther => Function.update_of_ne isOther ..
      segs := by
        intro id
        unfold Db.segHead Db.rowInsert rehead
        dsimp only
        by_cases isFront : id = db.segOf targetRow
        · rw [isFront, Function.update_self]
          cases db.segs (db.segOf targetRow) with
          | none => rfl
          | some found => rw [Option.map_some, Option.map_some, if_pos rfl]
        · rw [Function.update_of_ne isFront]
          cases db.segs id with
          | none => rfl
          | some found => rw [Option.map_some, if_neg isFront]
      rootSeg := rfl
      nextSeg := rfl
      newPlace := Function.update_self ..
      targetPlace := by
        unfold Forest.before
        rw [Function.update_of_ne isOther, Function.update_self]
      otherPlaces := by
        intro other isOther notTarget
        unfold Forest.before
        rw [Function.update_of_ne isOther, Function.update_of_ne notTarget] }
  exact indexed.front fronted (grounded_before isNew isNode indexed.grounded) isBefore

end

/-! ## Rows encoded with room -/

section

variable {forest : Forest Nat} {db : Db} {mrow : Nat}

theorem nextOrd_room {parentOrd : Key} (positive : 0 < mrow) (fits : mrow < 2 ^ 64)
    (bytes : Bytes parentOrd) (isPositive : Under [] parentOrd) (isLong : 8 ≤ parentOrd.length) :
    ∃ ord, nextOrd mrow parentOrd none = .ok ord ∧ Under parentOrd (ord.getD (be64 mrow)) ∧
      Bytes (ord.getD (be64 mrow)) ∧ Under [] (ord.getD (be64 mrow)) ∧
        8 ≤ (ord.getD (be64 mrow)).length := by
  obtain ⟨ownBytes, ownPositive, ownLength⟩ := be64_room positive fits
  unfold nextOrd
  dsimp only
  by_cases isLess : parentOrd < be64 mrow
  · rw [if_pos ⟨isLess, fun bound isBound => nomatch isBound⟩]
    exact ⟨none, rfl, under_of_lt isLess (ownLength.le.trans isLong), ownBytes, ownPositive,
      ownLength.ge⟩
  · rw [if_neg fun both => isLess both.1]
    obtain ⟨above, afterBytes, afterLength⟩ := under_afterKey bytes
    exact ⟨some (afterKey parentOrd), rfl, above, afterBytes, isPositive.trans above,
      isLong.trans afterLength⟩

/-- **A row is encoded under a row.** -/
theorem Indexed.encodeLeaf_ok {parent : Option Nat} (indexed : Indexed Under forest db)
    (keyed : Keyed db) (isNew : forest mrow = none) (positive : 0 < mrow) (fits : mrow < 2 ^ 64)
    (isParent : ∀ above ∈ parent, (forest above).isSome) :
    ∃ db', db.encodeRow mrow parent none = .ok db' ∧
      Indexed Under (forest.leaf mrow parent) db' ∧ Keyed db' := by
  obtain ⟨ownBytes, ownPositive, ownLength⟩ := be64_room positive fits
  have own {row : BranchRow} (noOrd : row.ord = none) : Roomy mrow row := by
    unfold Roomy ordOf
    rw [noOrd]
    exact ⟨ownBytes, ownPositive, fun _ => ownLength.ge⟩
  cases parent with
  | none =>
    obtain ⟨db', row, isDone, held, rows, noOrd, _⟩ := indexed.encodeRoot_ok isNew
    exact ⟨db', isDone, held, keyed.rows rows (own noOrd)⟩
  | some parent =>
    have room {parentRow : BranchRow} (isRow : db.rows parent = some parentRow)
        (noNext : parentRow.next = none) :=
      nextOrd_room positive fits (keyed parent parentRow isRow).1 (keyed parent parentRow isRow).2.1
        ((keyed parent parentRow isRow).2.2 noNext)
    obtain ⟨db', row, isDone, held, rows, _, isOrd⟩ := @Indexed.encodeRow_ok _ _ _ _ _ none
      indexed isNew (isParent parent rfl) fun parentRow isRow noNext => by
        obtain ⟨ord, isOrd, above, _⟩ := room isRow noNext
        exact ⟨ord, isOrd, above⟩
    refine ⟨db', isDone, held, keyed.rows rows ?_⟩
    rcases isOrd with noOrd | ⟨parentRow, isRow, noNext, isOrd⟩
    · exact own noOrd
    · obtain ⟨ord, isFound, _, bytes, isPositive, isLong⟩ := room isRow noNext
      obtain rfl := Except.ok.inj (isOrd.symm.trans isFound)
      exact ⟨bytes, isPositive, fun _ => isLong⟩

end

/-! ## Splices -/

section

variable {forest : Forest Nat} {db : Db} {mrow : Nat}

theorem roomy_between {key : Key} {next : Nat} {seg : Option Nat} (bytes : Bytes key)
    (positive : Under [] key) : Roomy mrow { seg := seg, ord := some key, next := some next } :=
  ⟨bytes, positive, fun noNext => nomatch noNext⟩

/-- **A row is spliced before a row.** -/
theorem Indexed.spliceBefore_ok {target : Nat} {parent : Option Nat}
    (indexed : Indexed Under forest db) (keyed : Keyed db) (isNew : forest mrow = none)
    (isTarget : forest target = some parent) :
    ∃ db', db.spliceBefore mrow target parent = .ok (true, db') ∧
      Indexed Under (forest.before mrow target) db' ∧ Keyed db' := by
  obtain ⟨targetRow, isTargetRow⟩ := indexed.row_of_node (by rw [isTarget]; rfl : (forest target).isSome)
  obtain ⟨seg, isSeg, placed, _⟩ := indexed.rows target targetRow isTargetRow
  obtain ⟨isName, _⟩ := indexed.segs _ _ isSeg
  obtain ⟨targetBytes, targetPositive, _⟩ := keyed target targetRow isTargetRow
  unfold Db.spliceBefore
  rw [isTargetRow]
  dsimp only
  rw [Db.readSegRow_of isSeg, ok_bind]
  cases placed with
  | head isHead _ =>
    obtain ⟨key, isKey, positive, isBefore, bytes⟩ :=
      midTight_between targetPositive (fun _ isDigit => absurd isDigit List.not_mem_nil) targetBytes
    rw [if_pos isHead, midKey, isKey, ok_bind, isName]
    exact ⟨_, rfl, indexed.front_ok isNew isTargetRow isSeg isHead isBefore,
      keyed.rows (rowsFrom_insert rfl) (roomy_between bytes positive)⟩
  | follows notHead prior priorRow isParent isPrior sameSeg isNext isAfter =>
    obtain rfl := Option.some.inj (isTarget.symm.trans isParent)
    obtain ⟨priorBytes, priorPositive, _⟩ := keyed prior priorRow isPrior
    obtain ⟨key, isKey, above, below, bytes⟩ := midTight_between isAfter priorBytes targetBytes
    rw [if_neg notHead]
    dsimp only
    rw [isPrior]
    dsimp only
    rw [if_neg (by rw [isName, sameSeg, isNext]; simp), midKey, isKey, ok_bind, isName, ← sameSeg]
    exact ⟨_, rfl, indexed.between_ok isNew isPrior isNext isTargetRow above below,
      keyed.rows (rowsFrom_link isPrior (indexed.other_of isNew isPrior) rfl)
        (roomy_between bytes (priorPositive.trans above))⟩

theorem Indexed.reattach_ok {lt : Key → Key → Prop} {spliced : Forest Nat} {anchor : Nat}
    {anchorRow newRow : BranchRow} (indexed : Indexed lt spliced db)
    (grounded : ∀ other, (forest.after mrow anchor other).isSome →
      Grounded (forest.after mrow anchor) other)
    (isAnchor : db.rows anchor = some anchorRow) (isRow : db.rows mrow = some newRow)
    (isNext : anchorRow.next = some mrow) (isPlace : spliced mrow = some (some anchor))
    (isSame : ∀ other, other ≠ mrow → spliced other = some (some mrow) ∧
      forest other = some (some anchor) ∨ spliced other = forest other) :
    Indexed lt (forest.after mrow anchor) (db.segAttachMove mrow anchor) := by
  have isOther : anchor ≠ mrow := by
    rintro rfl
    exact (indexed.node_of_row isRow).acyclic isPlace (Above.self (by rw [isPlace]; rfl))
  have after {other : Nat} (notNew : other ≠ mrow) : forest.after mrow anchor other =
      if forest other = some (some anchor) then some (some mrow) else forest other := by
    unfold Forest.after
    rw [Function.update_of_ne notNew]
  have moved : Reattached spliced (forest.after mrow anchor) db (db.segAttachMove mrow anchor) mrow
      anchor anchorRow newRow :=
    { isAnchor := isAnchor
      isNew := isRow
      isNext := isNext
      rows := rfl
      segs := fun id => rfl
      rootSeg := rfl
      nextSeg := rfl
      newPlace := (Function.update_self ..).trans isPlace.symm
      moved := by
        intro other notNew isChild
        rcases isSame other notNew with ⟨isMoved, _⟩ | isKept
        · exact absurd (Option.some.inj (Option.some.inj (isChild.symm.trans isMoved))) isOther
        · rw [after notNew, if_pos (isKept.symm.trans isChild)]
      others := by
        intro other notChild
        have notNew : other ≠ mrow := by
          rintro rfl
          exact notChild isPlace
        rcases isSame other notNew with ⟨isMoved, wasChild⟩ | isKept
        · rw [after notNew, if_pos wasChild, isMoved]
        · rw [after notNew, if_neg (isKept ▸ notChild), isKept] }
  exact indexed.reattach moved grounded

/-- **A row is spliced after a row.** -/
theorem Indexed.spliceAfter_ok {anchor : Nat} (indexed : Indexed Under forest db) (keyed : Keyed db)
    (isNew : forest mrow = none) (positive : 0 < mrow) (fits : mrow < 2 ^ 64)
    (isAnchor : (forest anchor).isSome) :
    ∃ db', db.spliceAfter mrow anchor = .ok (true, db') ∧
      Indexed Under (forest.after mrow anchor) db' ∧ Keyed db' := by
  obtain ⟨anchorRow, isAnchorRow⟩ := indexed.row_of_node isAnchor
  obtain ⟨seg, isSeg, _, onward⟩ := indexed.rows anchor anchorRow isAnchorRow
  obtain ⟨isName, _⟩ := indexed.segs _ _ isSeg
  obtain ⟨anchorBytes, anchorPositive, isLong⟩ := keyed anchor anchorRow isAnchorRow
  have isOther := indexed.other_of isNew isAnchorRow
  have grounded := grounded_after isNew isAnchor indexed.grounded
  unfold Db.spliceAfter
  rw [isAnchorRow]
  dsimp only
  rw [Db.readSegRow_of isSeg, ok_bind]
  cases onward with
  | tail noNext isTail =>
    obtain ⟨ord, isOrd, above, bytes, isPositive, ordLong⟩ :=
      nextOrd_room positive fits anchorBytes anchorPositive (isLong noNext)
    obtain ⟨newRow, anchorNext, _⟩ := linkRow_rows
      { seg := db.storedSeg (db.segOf anchorRow), ord := ord, next := none } isAnchorRow isOther
    rw [noNext]
    dsimp only
    rw [if_neg (fun notTail => notTail isTail), indexed.encodeRow_tail isAnchorRow noNext isOrd,
      ok_bind]
    refine ⟨_, rfl, (indexed.continue_ok isNew isAnchorRow noNext above).reattach_ok grounded
      anchorNext newRow rfl (Function.update_self ..) fun other notNew => Or.inr ?_,
      keyed.rows (rowsFrom_link isAnchorRow isOther rfl) ⟨bytes, isPositive, fun _ => ordLong⟩⟩
    exact Function.update_of_ne notNew ..
  | next next nextRow isNext isNextRow sameSeg _ isChild =>
    obtain ⟨nextBytes, _, _⟩ := keyed next nextRow isNextRow
    obtain ⟨nextSeg, isNextSeg, nextPlaced, _⟩ := indexed.rows next nextRow isNextRow
    have isAfter : Under (ordOf anchor anchorRow) (ordOf next nextRow) := by
      rw [sameSeg, isSeg] at isNextSeg
      obtain rfl := Option.some.inj isNextSeg
      cases nextPlaced with
      | head isHead _ => contradiction
      | follows _ found foundRow isFound isFoundRow _ _ isAfter =>
        obtain rfl := Option.some.inj (Option.some.inj (isChild.symm.trans isFound))
        obtain rfl := Option.some.inj (isAnchorRow.symm.trans isFoundRow)
        exact isAfter
    obtain ⟨key, isKey, above, below, bytes⟩ := midTight_between isAfter anchorBytes nextBytes
    obtain ⟨newRow, anchorNext, _⟩ := linkRow_rows
      { seg := db.storedSeg (db.segOf anchorRow), ord := some key, next := some next } isAnchorRow
      isOther
    rw [isNext]
    dsimp only
    rw [isNextRow]
    dsimp only
    rw [midKey, isKey, ok_bind, isName]
    have nextOther := indexed.other_of isNew isNextRow
    refine ⟨_, rfl, (indexed.between_ok isNew isAnchorRow isNext isNextRow above below).reattach_ok
      grounded anchorNext newRow rfl ?_ fun other notNew => ?_,
      keyed.rows (rowsFrom_link isAnchorRow isOther rfl)
        (roomy_between bytes (anchorPositive.trans above))⟩
    · unfold Forest.before
      rw [Function.update_self, isChild]
    · unfold Forest.before
      rw [Function.update_of_ne notNew]
      by_cases isSame : other = next
      · subst isSame
        exact Or.inl ⟨Function.update_self .., isChild⟩
      · exact Or.inr (Function.update_of_ne isSame ..)

end

/-! ## A row under a new number -/

section

variable {lt : Key → Key → Prop} {forest : Forest Nat} {db : Db} {old new : Nat}

/-- A segment whose first or last row got a new number. -/
def Db.moveEnds (db : Db) (old new : Nat) (seg : SegRow) : Db :=
  let moved := if seg.head = old then db.segHead new seg.seg else db
  if seg.tail = old then moved.segTail new seg.seg else moved

theorem moveEnds_same (db : Db) (old new : Nat) (seg : SegRow) :
    (db.moveEnds old new seg).rows = db.rows ∧ (db.moveEnds old new seg).rootSeg = db.rootSeg ∧
      (db.moveEnds old new seg).nextSeg = db.nextSeg ∧
        ∀ id, id ≠ seg.seg → (db.moveEnds old new seg).segs id = db.segs id := by
  unfold Db.moveEnds
  dsimp only
  split_ifs
  · exact ⟨rfl, rfl, rfl, fun id isOther => (Function.update_of_ne isOther ..).trans
      (Function.update_of_ne isOther ..)⟩
  · exact ⟨rfl, rfl, rfl, fun id isOther => Function.update_of_ne isOther ..⟩
  · exact ⟨rfl, rfl, rfl, fun id isOther => Function.update_of_ne isOther ..⟩
  · exact ⟨rfl, rfl, rfl, fun _ _ => rfl⟩

theorem moveEnds_own {seg : SegRow} (isSeg : db.segs seg.seg = some seg) :
    (db.moveEnds old new seg).segs seg.seg =
      some { seg with head := renamed old new seg.head, tail := renamed old new seg.tail } := by
  unfold Db.moveEnds Db.segTail Db.segHead renamed
  by_cases isHead : seg.head = old <;> by_cases isTail : seg.tail = old <;>
    simp [isHead, isTail, isSeg]

def Db.moveTables (db : Db) (old new : Nat) (row : BranchRow) (seg : SegRow) : Db :=
  (((db.rowDelete old).rowInsert new { row with ord := some (row.ord.getD (be64 old)) }).moveEnds
    old new seg).segAttachMove new old

theorem moveTables_same (db : Db) (old new : Nat) (row : BranchRow) (seg : SegRow) :
    (db.moveTables old new row seg).rows = Function.update (Function.update db.rows old none) new
      (some { row with ord := some (row.ord.getD (be64 old)) }) ∧
      (db.moveTables old new row seg).rootSeg = db.rootSeg ∧
      (db.moveTables old new row seg).nextSeg = db.nextSeg := by
  obtain ⟨sameRows, sameRoot, sameNext, _⟩ := moveEnds_same
    ((db.rowDelete old).rowInsert new { row with ord := some (row.ord.getD (be64 old)) }) old new seg
  exact ⟨sameRows, sameRoot, sameNext⟩

theorem attach_renamed (seg : SegRow) :
    (if seg.attach = some old then { seg with attach := some new } else seg) =
      { seg with attach := seg.attach.map (renamed old new) } := by
  cases seg with
  | mk id parent attach lvl jump head tail =>
    cases attach with
    | none => rfl
    | some attach =>
      dsimp only
      rw [Option.map_some, renamed]
      by_cases isOld : attach = old
      · rw [if_pos (congrArg some isOld), if_pos isOld]
      · rw [if_neg fun isSame => isOld (Option.some.inj isSame), if_neg isOld]

theorem moveTables_segs (new : Nat) {seg : SegRow} (indexed : Indexed lt forest db)
    (isRow : db.rows old = some row) (isSeg : db.segs (db.segOf row) = some seg) (id : Nat) :
    (db.moveTables old new row seg).segs id =
      (db.segs id).map (movedSeg old new (db.segOf row) id) := by
  obtain ⟨isName, _⟩ := indexed.segs _ _ isSeg
  unfold Db.moveTables Db.segAttachMove
  dsimp only
  simp only [attach_renamed]
  by_cases isOwn : id = db.segOf row
  · rw [isOwn, ← isName, moveEnds_own (isName.symm ▸ isSeg), isName, isSeg, Option.map_some,
      Option.map_some, movedSeg, if_pos rfl, isName]
  · obtain ⟨_, _, _, others⟩ := moveEnds_same
      ((db.rowDelete old).rowInsert new { row with ord := some (row.ord.getD (be64 old)) }) old new seg
    rw [others id (isName ▸ isOwn)]
    change (db.segs id).map _ = _
    cases isFound : db.segs id with
    | none => rfl
    | some found =>
      -- the head of another segment is another row
      have notOld : found.head ≠ old := by
        rintro rfl
        obtain ⟨_, _, _, headRow, isHead, inSeg⟩ := indexed.segs id found isFound
        obtain rfl := Option.some.inj (isRow.symm.trans isHead)
        exact isOwn inSeg.symm
      rw [Option.map_some, Option.map_some, movedSeg, if_neg isOwn,
        show renamed old new found.head = found.head from if_neg notOld]

/-- The rows after one got a new number, and kept its key. -/
private structure MovedRows (db db' : Db) (old new : Nat) (row : BranchRow) : Prop where
  moved : db'.rows new = some { row with ord := some (row.ord.getD (be64 old)) }
  gone : db'.rows old = none
  others : ∀ mrow, mrow ≠ new → mrow ≠ old → db'.rows mrow =
    (db.rows mrow).map fun found => { found with next := found.next.map (renamed old new) }

theorem MovedRows.keyed {db' : Db} (rows : MovedRows db db' old new row)
    (isRow : db.rows old = some row) (keyed : Keyed db) : Keyed db' := by
  have roomy : Roomy new { row with ord := some (row.ord.getD (be64 old)) } := keyed old row isRow
  refine keyed.rows (fun mrow found isFound => ?_) roomy
  by_cases isNew : mrow = new
  · subst isNew
    exact Or.inl ⟨rfl, Option.some.inj (isFound.symm.trans rows.moved)⟩
  by_cases isOld : mrow = old
  · subst isOld
    cases isFound.symm.trans rows.gone
  · rw [rows.others mrow isNew isOld] at isFound
    obtain ⟨before, isBefore, rfl⟩ := Option.map_eq_some_iff.mp isFound
    exact Or.inr ⟨before, isBefore, rfl, fun noNext => Option.map_eq_none_iff.mp noNext⟩

theorem MovedRows.moved_of {db' : Db} (rows : MovedRows db db' old new row)
    (indexed : Indexed lt forest db) (isNew : forest new = none) (isRow : db.rows old = some row)
    (segs : ∀ id, db'.segs id = (db.segs id).map (movedSeg old new (db.segOf row) id))
    (sameRoot : db'.rootSeg = db.rootSeg) (sameNext : db'.nextSeg = db.nextSeg) :
    Moved forest db db' old new (db.segOf row) where
  isNew := isNew
  isOld := (indexed.node_of_row isRow).isNode
  inOwn found isFound := by
    obtain rfl := Option.some.inj (isRow.symm.trans isFound)
    rfl
  rows mrow found isFound := by
    unfold renamed movedRow
    by_cases isOld : mrow = old
    · subst isOld
      obtain rfl := Option.some.inj (isRow.symm.trans isFound)
      -- a row does not come next after itself
      have sameNext : row.next.map (renamed mrow new) = row.next := by
        cases isNext : row.next with
        | none => rfl
        | some next =>
          obtain ⟨seg, isSeg, _⟩ := indexed.rows mrow row isRow
          have isChild := (indexed.next_child isRow isNext isSeg).1
          have notSelf : next ≠ mrow := by
            rintro rfl
            exact (indexed.node_of_row isRow).acyclic isChild (Above.self (by rw [isChild]; rfl))
          exact congrArg some (if_neg notSelf)
      rw [if_pos rfl, if_pos rfl, rows.moved, sameNext]
      rfl
    · rw [if_neg isOld, if_neg isOld, rows.others mrow (indexed.other_of isNew isFound) isOld, isFound]
      rfl
  gone := rows.gone
  others mrow notNew notOld noRow := by
    rw [rows.others mrow notNew notOld, noRow]
    rfl
  segs := segs
  rootSeg := sameRoot
  nextSeg := sameNext

/-- **A row is moved to a new number.** -/
theorem parentRow_of {moved linked : Db} {prior old : Nat} {priorRow : BranchRow}
    (isIn : moved.rows prior = some priorRow) (isNext : priorRow.next = some old) :
    (match moved.rows prior with
      | none => throw "branch index: the row before a moved row is not known"
      | some parentRow =>
        if parentRow.next ≠ some old then
          throw "branch index: the row before a moved row is not known"
        else pure linked : Except String Db) = .ok linked := by
  rw [isIn]
  dsimp only
  rw [if_neg fun isOther => isOther isNext]
  rfl

theorem Indexed.moveRow_ok {parent : Option Nat} (indexed : Indexed lt forest db) (keyed : Keyed db)
    (isNew : forest new = none) (isOld : forest old = some parent) :
    ∃ db', db.moveRow old new parent = .ok db' ∧ Indexed lt (forest.rename old new) db' ∧
      Keyed db' := by
  obtain ⟨row, isRow⟩ := indexed.row_of_node (by rw [isOld]; rfl : (forest old).isSome)
  obtain ⟨seg, isSeg, placed, _⟩ := indexed.rows old row isRow
  obtain ⟨isName, _⟩ := indexed.segs _ _ isSeg
  have notNew := indexed.other_of isNew isRow
  obtain ⟨tableRows, sameRoot, sameNext⟩ := moveTables_same db old new row seg
  have segs := moveTables_segs new indexed isRow isSeg
  have atNew : (db.moveTables old new row seg).rows new =
      some { row with ord := some (row.ord.getD (be64 old)) } := by
    rw [tableRows, Function.update_self]
  have atOld : (db.moveTables old new row seg).rows old = none := by
    rw [tableRows, Function.update_of_ne notNew, Function.update_self]
  have atOther {mrow : Nat} (isOther : mrow ≠ new) (isKept : mrow ≠ old) :
      (db.moveTables old new row seg).rows mrow = db.rows mrow := by
    rw [tableRows, Function.update_of_ne isOther, Function.update_of_ne isKept]
  have kept {found : BranchRow} (notNext : found.next ≠ some old) :
      { found with next := found.next.map (renamed old new) } = found := by
    have sameNext : found.next.map (renamed old new) = found.next := by
      cases isNext : found.next with
      | none => rfl
      | some next =>
        have notOld : next ≠ old := by
          rintro rfl
          exact notNext isNext
        exact congrArg some (if_neg notOld)
    rw [sameNext]
  unfold Db.moveRow
  rw [isRow]
  dsimp only
  rw [Db.readSegRow_of isSeg, ok_bind]
  cases placed with
  | head isHead _ =>
    have rows : MovedRows db (db.moveTables old new row seg) old new row :=
      { moved := atNew
        gone := atOld
        others := by
          intro mrow isOther isKept
          rw [atOther isOther isKept]
          cases isFound : db.rows mrow with
          | none => rfl
          | some found =>
            -- the row before the old one would be on the segment it is first on
            have notNext : found.next ≠ some old := by
              intro isNext
              obtain ⟨foundSeg, isFoundSeg, _⟩ := indexed.rows mrow found isFound
              obtain ⟨_, notHead, nextRow, isNextRow, sameSeg⟩ :=
                indexed.next_child isFound isNext isFoundSeg
              obtain rfl := Option.some.inj (isRow.symm.trans isNextRow)
              rw [← sameSeg, isSeg] at isFoundSeg
              obtain rfl := Option.some.inj isFoundSeg
              exact notHead isHead
            rw [Option.map_some, kept notNext] }
    rw [if_pos isHead]
    exact ⟨db.moveTables old new row seg, rfl,
      indexed.move (rows.moved_of indexed isNew isRow segs sameRoot sameNext),
      rows.keyed isRow keyed⟩
  | follows notHead prior priorRow isParent isPrior sameSeg isNext _ =>
    obtain rfl := Option.some.inj (isOld.symm.trans isParent)
    have priorNew := indexed.other_of isNew isPrior
    have priorOld : prior ≠ old := by
      rintro rfl
      exact (indexed.node_of_row isRow).acyclic isParent (Above.self (by rw [isParent]; rfl))
    have rows : MovedRows db ((db.moveTables old new row seg).rowNext new prior) old new row :=
      { moved := by
          unfold Db.rowNext
          rw [← atNew]
          exact Function.update_of_ne (Ne.symm priorNew) ..
        gone := by
          unfold Db.rowNext
          rw [← atOld]
          exact Function.update_of_ne (Ne.symm priorOld) ..
        others := by
          intro mrow isOther isKept
          unfold Db.rowNext
          dsimp only
          by_cases isSame : mrow = prior
          · subst isSame
            rw [Function.update_self, atOther isOther isKept, isPrior, Option.map_some,
              Option.map_some, isNext, Option.map_some, renamed, if_pos rfl]
          · rw [Function.update_of_ne isSame, atOther isOther isKept]
            cases isFound : db.rows mrow with
            | none => rfl
            | some found =>
              have notNext : found.next ≠ some old := by
                intro isIn
                obtain ⟨foundSeg, isFoundSeg, _⟩ := indexed.rows mrow found isFound
                have isChild := (indexed.next_child isFound isIn isFoundSeg).1
                exact isSame (Option.some.inj (Option.some.inj (isChild.symm.trans isParent)))
              rw [Option.map_some, kept notNext] }
    have isIn : (db.moveTables old new row seg).rows prior = some priorRow :=
      (atOther priorNew priorOld).trans isPrior
    refine ⟨(db.moveTables old new row seg).rowNext new prior, ?_,
      indexed.move (rows.moved_of indexed isNew isRow segs sameRoot sameNext),
      rows.keyed isRow keyed⟩
    rw [if_neg notHead]
    exact parentRow_of isIn isNext

end

end Murage.BranchIndex
