import Murage.Library.OrderKeys

/-!
Owns the order keys of the branch index (a row's own key, the key between two keys and the key
after one) and the branch index of one thread: its segments and rows, the writers that encode,
splice and move a row, and the questions the index answers.

A read that the source keeps in a map for the life of one question is made again here.

Does not own: the fill of a stored thread, the lines, and the rows of other threads.
-/

namespace Murage.BranchIndex

open Murage.Library.OrderKeys

def be64 (value : Nat) : Key := bigEndian 8 value

/-- The digits of `midKey` once one digit is below that of the upper bound. -/
def midBelow : Key → Key
  | [] => [128]
  | lo :: rest => if lo + 1 < 256 then [(lo + 256) / 2] else lo :: midBelow rest

/-- The digits of `midKey` while they are those of the upper bound. -/
def midTight : Key → Key → Except String Key
  | _, [] => .error "midKey: bounds are adjacent"
  | a, hi :: b =>
    let lo := a.headD 0
    if lo > hi then .error "midKey: bounds are inverted"
    else if lo + 1 < hi then .ok [(lo + hi) / 2]
    else if lo < hi then .ok (lo :: midBelow a.tail)
    else
      match midTight a.tail b with
      | .error error => .error error
      | .ok later => .ok (lo :: later)

def midKey (a : Key) : Option Key → Except String Key
  | none => .ok (midBelow a)
  | some b => midTight a b

def afterKey (a : Key) : Key :=
  if a.length = 12 ∧ spelled (a.drop 8) < 0xffffffff then
    a.take 8 ++ bigEndian 4 (spelled (a.drop 8) + 1)
  else a ++ bigEndian 4 1

/-! ## A key between two keys -/

theorem under_midBelow {a : Key} (bytes : Bytes a) : Under a (midBelow a) ∧ Bytes (midBelow a) := by
  induction a with
  | nil => exact ⟨Or.inl (by decide), by intro digit isDigit; simp [midBelow] at isDigit; omega⟩
  | cons lo rest ih =>
    have isByte := bytes lo List.mem_cons_self
    obtain ⟨under, isBytes⟩ :=
      ih fun digit isDigit => bytes digit (List.mem_cons_of_mem _ isDigit)
    unfold midBelow
    split_ifs with hasRoom
    · refine ⟨Or.inl (by omega), fun digit isDigit => ?_⟩
      obtain rfl := List.mem_singleton.mp isDigit
      omega
    · refine ⟨Or.inr ⟨rfl, under⟩, fun digit isDigit => ?_⟩
      rcases List.mem_cons.mp isDigit with rfl | isLater
      · exact isByte
      · exact isBytes digit isLater

theorem under_cons_head {a : Key} {lo : Nat} (isHead : a.headD 0 = lo) {later : Key}
    (under : Under a.tail later) : Under a (lo :: later) := by
  subst isHead
  cases a with
  | nil => exact Or.inr under
  | cons digit rest => exact Or.inr ⟨rfl, under⟩

theorem under_of_head {a : Key} {lo : Nat} (isHead : a.headD 0 < lo) {later : Key} :
    Under a (lo :: later) := by
  cases a with
  | nil => exact Or.inl isHead
  | cons digit rest => exact Or.inl isHead

/-- **Between two fractions there is a key.** -/
theorem midTight_between {a b : Key} (under : Under a b) (aBytes : Bytes a) (bBytes : Bytes b) :
    ∃ middle, midTight a b = .ok middle ∧ Under a middle ∧ Under middle b ∧ Bytes middle := by
  induction b generalizing a with
  | nil => exact absurd under (not_under_nil a)
  | cons hi b ih =>
    have hiByte := bBytes hi List.mem_cons_self
    have tailBytes : Bytes a.tail := fun digit isDigit => aBytes digit (List.mem_of_mem_tail isDigit)
    have firstDigits : a.headD 0 < hi ∨ (a.headD 0 = hi ∧ Under a.tail b) := by
      cases a with
      | nil =>
        rcases under_nil_cons.mp under with positive | later
        · exact Or.inl positive
        · rcases Nat.eq_zero_or_pos hi with isZero | positive
          · exact Or.inr ⟨isZero.symm, later⟩
          · exact Or.inl positive
      | cons digit rest => exact under
    unfold midTight
    dsimp only
    rcases firstDigits with isLess | ⟨isSame, later⟩
    · rw [if_neg (by omega)]
      split_ifs with hasRoom
      · refine ⟨_, rfl, under_of_head (by omega), Or.inl (by omega), fun digit isDigit => ?_⟩
        obtain rfl := List.mem_singleton.mp isDigit
        omega
      · obtain ⟨above, isBytes⟩ := under_midBelow tailBytes
        refine ⟨_, rfl, under_cons_head rfl above, Or.inl isLess, fun digit isDigit => ?_⟩
        rcases List.mem_cons.mp isDigit with rfl | isLater
        · omega
        · exact isBytes digit isLater
    · obtain ⟨middle, isMiddle, above, below, isBytes⟩ :=
        ih later tailBytes fun digit isDigit =>
          bBytes digit (List.mem_cons_of_mem _ isDigit)
      rw [if_neg (by omega), if_neg (by omega), if_neg (by omega), isMiddle]
      refine ⟨_, rfl, under_cons_head rfl above, Or.inr ⟨isSame, below⟩, fun digit isDigit => ?_⟩
      rcases List.mem_cons.mp isDigit with rfl | isLater
      · omega
      · exact isBytes digit isLater

/-! ## A key after a key -/

theorem under_afterKey {a : Key} (bytes : Bytes a) :
    Under a (afterKey a) ∧ Bytes (afterKey a) ∧ a.length ≤ (afterKey a).length := by
  unfold afterKey
  split_ifs with hasCounter
  · obtain ⟨isLong, hasRoom⟩ := hasCounter
    have tailLength : (a.drop 8).length = 4 := by
      rw [List.length_drop, isLong]
    have tailBytes : Bytes (a.drop 8) := fun digit isDigit => bytes digit (List.mem_of_mem_drop isDigit)
    obtain ⟨isTail, _⟩ := bigEndian_spelled tailBytes
    rw [tailLength] at isTail
    refine ⟨?_, fun digit isDigit => ?_, ?_⟩
    · have isWhole : a.take 8 ++ bigEndian 4 (spelled (a.drop 8)) = a := by
        rw [isTail, List.take_append_drop]
      have above : Under (a.take 8 ++ bigEndian 4 (spelled (a.drop 8)))
          (a.take 8 ++ bigEndian 4 (spelled (a.drop 8) + 1)) :=
        (under_append_left _).mpr (under_bigEndian (Nat.lt_succ_self _) (by omega))
      rwa [isWhole] at above
    · rcases List.mem_append.mp isDigit with isFront | isBack
      · exact bytes digit (List.mem_of_mem_take isFront)
      · exact bytes_bigEndian 4 _ digit isBack
    · rw [List.length_append, length_bigEndian, List.length_take, isLong]
      decide
  · refine ⟨?_, fun digit isDigit => ?_, ?_⟩
    · have above : Under (a ++ []) (a ++ bigEndian 4 1) :=
        (under_append_left a).mpr (positive_bigEndian (by decide) (by decide))
      rwa [List.append_nil] at above
    · rcases List.mem_append.mp isDigit with isFront | isBack
      · exact bytes digit isFront
      · exact bytes_bigEndian 4 1 digit isBack
    · rw [List.length_append]
      exact Nat.le_add_right _ _

structure SegRow where
  seg : Nat
  parent : Option Nat
  attach : Option Nat
  lvl : Nat
  jump : Option Nat
  head : Nat
  tail : Nat
deriving DecidableEq, Repr

structure BranchRow where
  seg : Option Nat
  ord : Option Key
  next : Option Nat
deriving DecidableEq, Repr

/-- The tables, with the root segment of the thread's key and the number the next segment
gets. -/
structure Db where
  rows : Nat → Option BranchRow := fun _ => none
  segs : Nat → Option SegRow := fun _ => none
  rootSeg : Option Nat := none
  nextSeg : Nat := 1

@[simp]
theorem ok_bind {α β : Type} (value : α) (next : α → Except String β) :
    (Except.ok value >>= next) = next value := rfl

namespace Db

section

variable (db : Db)

/-! ## Statements -/

def readSegRow (seg : Nat) : Except String SegRow :=
  match db.segs seg with
  | none => .error s!"branch index: segment {seg} is missing"
  | some row => .ok row

theorem readSegRow_of {db : Db} {id : Nat} {seg : SegRow} (isSeg : db.segs id = some seg) :
    db.readSegRow id = .ok seg := by
  unfold readSegRow
  rw [isSeg]

def rowInsert (mrow : Nat) (row : BranchRow) : Db :=
  { db with rows := Function.update db.rows mrow (some row) }

def rowNext (next : Nat) (mrow : Nat) : Db :=
  { db with
    rows := Function.update db.rows mrow
      ((db.rows mrow).map fun row => { row with next := some next }) }

def rowDelete (mrow : Nat) : Db := { db with rows := Function.update db.rows mrow none }

def segTail (tail seg : Nat) : Db :=
  { db with
    segs := Function.update db.segs seg ((db.segs seg).map fun row => { row with tail := tail }) }

def segHead (head seg : Nat) : Db :=
  { db with
    segs := Function.update db.segs seg ((db.segs seg).map fun row => { row with head := head }) }

def segAttachMove (new old : Nat) : Db :=
  { db with
    segs := fun seg => (db.segs seg).map fun row =>
      if row.attach = some old then { row with attach := some new } else row }

def segOf (row : BranchRow) : Nat := row.seg.getD (db.rootSeg.getD 0)

def storedSeg (seg : Nat) : Option Nat := if db.rootSeg = some seg then none else some seg

end

end Db

def ordOf (mrow : Nat) (row : BranchRow) : Key := row.ord.getD (be64 mrow)

/-- The key of a row that goes on a segment. -/
def nextOrd (mrow : Nat) (parentOrd : Key) (before : Option Nat) : Except String (Option Key) :=
  let own := be64 mrow
  let limit := before.map be64
  if parentOrd < own ∧ ∀ bound ∈ limit, own < bound then .ok none
  else
    match limit with
    | some bound =>
      if parentOrd < bound then (midKey parentOrd (some bound)).map some
      else .ok (some (afterKey parentOrd))
    | none => .ok (some (afterKey parentOrd))

namespace Db

section

variable (db : Db)

def newSegment (parent : Option SegRow) (attach : Option Nat) (head : Nat) :
    Except String (Nat × Db) := do
  let insert (lvl : Nat) (jump : Option Nat) : Nat × Db :=
    (db.nextSeg,
      { db with
        segs := Function.update db.segs db.nextSeg
          (some
            { seg := db.nextSeg
              parent := parent.map SegRow.seg
              attach := attach
              lvl := lvl
              jump := jump
              head := head
              tail := head })
        nextSeg := db.nextSeg + 1 })
  match parent with
  | none => pure (insert 0 none)
  | some parent =>
    let first ← db.readSegRow (parent.jump.getD parent.seg)
    let second ← db.readSegRow (first.jump.getD first.seg)
    let isEven := (parent.lvl : Int) - first.lvl = first.lvl - second.lvl
    pure (insert (parent.lvl + 1) (some (if isEven then second.seg else parent.seg)))

/-! ## Writers -/

def encodeRoot (mrow : Nat) : Except String Db := do
  let (seg, made) ← db.newSegment none none mrow
  if db.rootSeg = none then
    pure ({ made with rootSeg := some seg }.rowInsert mrow { seg := none, ord := none, next := none })
  else
    pure (made.rowInsert mrow { seg := some seg, ord := none, next := none })

def encodeRow (mrow : Nat) (parentMrow : Option Nat) (before : Option Nat) : Except String Db :=
  match parentMrow with
  | none => db.encodeRoot mrow
  | some parentMrow =>
    match db.rows parentMrow with
    | none => db.encodeRoot mrow
    | some parentRow => do
        let parentSeg ← db.readSegRow (db.segOf parentRow)
        if parentRow.next = none ∧ parentSeg.tail = parentMrow then
          let ord ← nextOrd mrow (ordOf parentMrow parentRow) before
          let row := { seg := db.storedSeg parentSeg.seg, ord := ord, next := none }
          pure (((db.rowInsert mrow row).rowNext mrow parentMrow).segTail mrow parentSeg.seg)
        else
          let (seg, made) ← db.newSegment (some parentSeg) (some parentMrow) mrow
          pure (made.rowInsert mrow { seg := some seg, ord := none, next := none })

def spliceBefore (newMrow targetMrow : Nat) (parentMrow : Option Nat) : Except String (Bool × Db) :=
  match db.rows targetMrow with
  | none => .ok (false, db)
  | some targetRow => do
      let seg ← db.readSegRow (db.segOf targetRow)
      let targetOrd := ordOf targetMrow targetRow
      if seg.head = targetMrow then
        let ord ← midKey [] (some targetOrd)
        let row := { seg := db.storedSeg seg.seg, ord := some ord, next := some targetMrow }
        pure (true, (db.rowInsert newMrow row).segHead newMrow seg.seg)
      else
        match parentMrow with
        | none => pure (false, db)
        | some parentMrow =>
          match db.rows parentMrow with
          | none => pure (false, db)
          | some parentRow =>
            if db.segOf parentRow ≠ seg.seg ∨ parentRow.next ≠ some targetMrow then
              pure (false, db)
            else
              let ord ← midKey (ordOf parentMrow parentRow) (some targetOrd)
              let row := { seg := db.storedSeg seg.seg, ord := some ord, next := some targetMrow }
              pure (true, (db.rowInsert newMrow row).rowNext newMrow parentMrow)

def spliceAfter (newMrow anchorMrow : Nat) : Except String (Bool × Db) :=
  match db.rows anchorMrow with
  | none => .ok (false, db)
  | some anchorRow => do
      let seg ← db.readSegRow (db.segOf anchorRow)
      match anchorRow.next with
      | none =>
        if seg.tail ≠ anchorMrow then pure (false, db)
        else
          let encoded ← db.encodeRow newMrow (some anchorMrow) none
          pure (true, encoded.segAttachMove newMrow anchorMrow)
      | some next =>
        match db.rows next with
        | none => pure (false, db)
        | some succRow =>
          let ord ← midKey (ordOf anchorMrow anchorRow) (some (ordOf next succRow))
          let row := { seg := db.storedSeg seg.seg, ord := some ord, next := some next }
          pure (true,
            ((db.rowInsert newMrow row).rowNext newMrow anchorMrow).segAttachMove newMrow anchorMrow)

def moveRow (oldMrow newMrow : Nat) (parentMrow : Option Nat) : Except String Db :=
  match db.rows oldMrow with
  | none => .ok db
  | some row => do
      let seg ← db.readSegRow (db.segOf row)
      let kept := { row with ord := some (row.ord.getD (be64 oldMrow)) }
      let moved := (db.rowDelete oldMrow).rowInsert newMrow kept
      let moved := if seg.head = oldMrow then moved.segHead newMrow seg.seg else moved
      let moved := if seg.tail = oldMrow then moved.segTail newMrow seg.seg else moved
      let moved := moved.segAttachMove newMrow oldMrow
      if seg.head = oldMrow then pure moved
      else
        match parentMrow with
        | none => throw "branch index: the row before a moved row is not known"
        | some parentMrow =>
          match moved.rows parentMrow with
          | none => throw "branch index: the row before a moved row is not known"
          | some parentRow =>
            if parentRow.next ≠ some oldMrow then
              throw "branch index: the row before a moved row is not known"
            else pure (moved.rowNext newMrow parentMrow)

/-! ## Questions -/

/-- The climb to the ancestor segment at a level, by jumps while they do not pass it. -/
def climb (lvl : Nat) : Nat → SegRow → Except String SegRow
  | 0, cur => .ok cur
  | fuel + 1, cur =>
    if cur.lvl ≤ lvl then .ok cur
    else do
      let jumped ←
        match cur.jump with
        | none => pure none
        | some jump => some <$> db.readSegRow jump
      match jumped.filter fun seg => decide (lvl ≤ seg.lvl) with
      | some seg => climb lvl fuel seg
      | none =>
        match cur.parent with
        | none => throw "branch index: segment null is missing"
        | some parent =>
          let seg ← db.readSegRow parent
          climb lvl fuel seg

def ancestorAt (leafSeg : SegRow) (lvl : Nat) : Except String (Option SegRow) :=
  if leafSeg.lvl < lvl then .ok none
  else some <$> db.climb lvl leafSeg.lvl leafSeg

def branchOracle (leafMrow : Option Nat) (mrow : Nat) : Except String Bool :=
  match leafMrow with
  | none => .ok false
  | some leafMrow =>
    match db.rows leafMrow with
    | none => .ok false
    | some leafRow => do
        let leafSeg ← db.readSegRow (db.segOf leafRow)
        let leafOrd := ordOf leafMrow leafRow
        if mrow = leafMrow then pure true
        else
          match db.rows mrow with
          | none => pure false
          | some row =>
            let mySeg := db.segOf row
            let myOrd := ordOf mrow row
            if mySeg = leafSeg.seg then pure (decide (myOrd ≤ leafOrd))
            else
              let mine ← db.readSegRow mySeg
              match ← db.ancestorAt leafSeg (mine.lvl + 1) with
              | none => pure false
              | some child =>
                if child.parent ≠ some mySeg then pure false
                else
                  match child.attach with
                  | none => pure false
                  | some attach =>
                    match db.rows attach with
                    | none => pure false
                    | some attachRow => pure (decide (myOrd ≤ ordOf attach attachRow))

/-- `Buffer.compare`: the sign of the byte order. -/
def bufferCompare (a b : Key) : Int := if a < b then -1 else if b < a then 1 else 0

def compareOnBranch (a b : Nat) : Except String Int :=
  if a = b then .ok 0
  else
    match db.rows a, db.rows b with
    | some ra, some rb =>
      let sa := db.segOf ra
      let sb := db.segOf rb
      if sa ≠ sb then do
        let segA ← db.readSegRow sa
        let segB ← db.readSegRow sb
        pure ((segA.lvl : Int) - segB.lvl)
      else .ok (bufferCompare (ordOf a ra) (ordOf b rb))
    | _, _ => .ok 0

end

end Db

end Murage.BranchIndex
