import Mathlib
import Murage.RidList.Places

/-!
Owns what filing and dropping do to the blocks and to the rowids in them, what is read from a list
of this shape, and that over any run the list is what it is for: a set of rowids that takes one at
a time and loses its lowest ones.

Does not own: the searches.
-/

namespace Murage.RidList

variable {list : RidList} {live : List Block} {rid : Int}

theorem ordered_insert {lower higher : List Int} (isOrdered : (lower ++ higher).Pairwise (· < ·))
    (areLower : ∀ other ∈ lower, other < rid) (areHigher : ∀ other ∈ higher, rid < other) :
    (lower ++ rid :: higher).Pairwise (· < ·) := by
  obtain ⟨isLow, isHigh, areApart⟩ := List.pairwise_append.mp isOrdered
  refine List.pairwise_append.mpr ⟨isLow, List.pairwise_cons.mpr ⟨areHigher, isHigh⟩, ?_⟩
  intro low isLowMember other isOther
  rcases List.mem_cons.mp isOther with rfl | isHigher
  · exact areLower low isLowMember
  · exact areApart low isLowMember other isHigher

theorem set_laid (head : Nat) (before after : List Block) (block next : Block) :
    (List.replicate head none ++ (before ++ block :: after).map some).set (head + before.length)
        (some next) =
      List.replicate head none ++ (before ++ next :: after).map some := by
  rw [List.set_append_right _ _ (by simp)]
  have isPlace : head + before.length - (List.replicate head (none : Slot)).length =
      (before.map some).length := by
    rw [List.length_replicate, List.length_map]
    omega
  rw [isPlace, List.map_append, List.set_append_right _ _ (Nat.le_refl _), Nat.sub_self,
    List.map_cons, List.set_cons_zero, List.map_append, List.map_cons]

/-- Filing a rowid never reads a free slot; it says whether the rowid was new, and the list then
holds it too. -/
theorem insert_spec (isShape : Shape list live) (rid : Int) :
    ∃ list' live' isNew, insert list rid = some (list', isNew) ∧ Shape list' live' ∧
      (isNew = true ↔ rid ∉ live.flatten) ∧
      ∀ other, other ∈ live'.flatten ↔ other = rid ∨ other ∈ live.flatten := by
  have isLength : list.blocks.length = list.head + live.length := by
    rw [isShape.laid]
    simp
  by_cases isEmpty : live = []
  · subst isEmpty
    have isLaid := isShape.laid
    have isSize := isShape.size
    refine ⟨_, [[rid]], true, if_pos (by rw [RidList.count, isLength]; simp), ⟨?_, ?_, ?_, ?_⟩, ?_, ?_⟩
    · simp [isLaid]
    · simp [RID_BLOCK]
    · simp
    · simp [isSize]
    · simp
    · simp
  · obtain ⟨before, block, after, place, rfl, isFound, areBelow, isHeld, isPlaced⟩ :=
      findPlace_spec isShape isEmpty rid
    have isCount : list.count ≠ 0 := by
      rw [RidList.count, isLength, List.length_append, List.length_cons]
      omega
    rw [insert, if_neg isCount, isFound]
    cases place with
    | none =>
      have isIn : rid ∈ (before ++ block :: after).flatten := by
        simp [isHeld rfl]
      refine ⟨list, _, false, rfl, isShape, ?_, ?_⟩
      · exact iff_of_false Bool.false_ne_true fun isAbsent => isAbsent isIn
      · intro other
        constructor
        · exact Or.inr
        · rintro (rfl | isOther)
          · exact isIn
          · exact isOther
    | some lo =>
      obtain ⟨areLower, areHigher, areAfter⟩ := isPlaced lo rfl
      generalize isFiled : block.take lo ++ rid :: block.drop lo = filed
      have isOld : (before ++ block :: after).flatten =
          (before.flatten ++ block.take lo) ++ (block.drop lo ++ after.flatten) := by
        rw [List.flatten_append, List.flatten_cons, List.append_assoc,
          ← List.append_assoc (block.take lo), List.take_append_drop]
      have isNew : before.flatten ++ filed ++ after.flatten =
          (before.flatten ++ block.take lo) ++ rid :: (block.drop lo ++ after.flatten) := by
        simp [← isFiled]
      have isLower : ∀ other ∈ before.flatten ++ block.take lo, other < rid := by
        intro other isOther
        rcases List.mem_append.mp isOther with isBefore | isTaken
        · exact areBelow other isBefore
        · exact areLower other isTaken
      have isHigher : ∀ other ∈ block.drop lo ++ after.flatten, rid < other := by
        intro other isOther
        rcases List.mem_append.mp isOther with isDropped | isAfter
        · exact areHigher other isDropped
        · exact areAfter other isAfter
      have isOrdered := isShape.ordered
      rw [isOld] at isOrdered
      have isNewOrdered := ordered_insert isOrdered isLower isHigher
      rw [← isNew] at isNewOrdered
      have isAbsent : rid ∉ (before ++ block :: after).flatten := by
        rw [isOld]
        intro isIn
        rcases List.mem_append.mp isIn with isLow | isHigh
        · exact absurd (isLower rid isLow) (Int.lt_irrefl rid)
        · exact absurd (isHigher rid isHigh) (Int.lt_irrefl rid)
      have isMember : ∀ other, other ∈ before.flatten ++ filed ++ after.flatten ↔
          other = rid ∨ other ∈ (before ++ block :: after).flatten := by
        intro other
        rw [isNew, isOld]
        simp only [List.mem_append, List.mem_cons]
        tauto
      have isSize : list.size + 1 = (before.flatten ++ filed ++ after.flatten).length := by
        rw [isShape.size, isOld, isNew]
        simp only [List.length_append, List.length_cons]
        omega
      have isFiledLength : filed.length = block.length + 1 := by
        rw [← isFiled, List.length_append, List.length_cons, List.length_take, List.length_drop]
        omega
      have isBlock := (isShape.full block (by simp)).2
      have isNeighbour : ∀ other, other ∈ before ∨ other ∈ after →
          other ≠ [] ∧ other.length ≤ RID_BLOCK := by
        intro other isOther
        apply isShape.full
        simp only [List.mem_append, List.mem_cons]
        tauto
      dsimp only
      rw [isFiled]
      by_cases isLong : RID_BLOCK < filed.length
      · rw [if_pos isLong, isShape.laid, set_laid]
        obtain ⟨head', isPlacedBefore⟩ := placeBefore_laid (list.size + 1) before.length
          (filed.take (RID_BLOCK / 2)) list.head
          (before ++ filed.drop (RID_BLOCK / 2) :: after) (by simp)
        rw [isPlacedBefore, List.take_left' rfl, List.drop_left' rfl]
        have isFlat : (before ++ filed.take (RID_BLOCK / 2) ::
            filed.drop (RID_BLOCK / 2) :: after).flatten =
              before.flatten ++ filed ++ after.flatten := by
          rw [List.flatten_append, List.flatten_cons, List.flatten_cons,
            ← List.append_assoc (filed.take (RID_BLOCK / 2)), List.take_append_drop,
            List.append_assoc]
        refine ⟨_, before ++ filed.take (RID_BLOCK / 2) :: filed.drop (RID_BLOCK / 2) :: after,
          true, rfl, ⟨rfl, ?_, ?_, ?_⟩, ?_, ?_⟩
        · intro other isOther
          have isLimit : RID_BLOCK = 512 := rfl
          simp only [List.mem_append, List.mem_cons] at isOther
          rcases isOther with isBefore | rfl | rfl | isAfter
          · exact isNeighbour other (Or.inl isBefore)
          · rw [ne_eq, ← List.length_eq_zero_iff, List.length_take]
            omega
          · rw [ne_eq, ← List.length_eq_zero_iff, List.length_drop]
            omega
          · exact isNeighbour other (Or.inr isAfter)
        · rw [isFlat]
          exact isNewOrdered
        · rw [isFlat]
          exact isSize
        · simp only [isAbsent, not_false_eq_true]
        · rw [isFlat]
          exact isMember
      · rw [if_neg isLong, isShape.laid, set_laid]
        have isFlat : (before ++ filed :: after).flatten =
            before.flatten ++ filed ++ after.flatten := by
          simp
        refine ⟨_, before ++ filed :: after, true, rfl, ⟨rfl, ?_, ?_, ?_⟩, ?_, ?_⟩
        · intro other isOther
          simp only [List.mem_append, List.mem_cons] at isOther
          rcases isOther with isBefore | rfl | isAfter
          · exact isNeighbour other (Or.inl isBefore)
          · rw [ne_eq, ← List.length_eq_zero_iff]
            omega
          · exact isNeighbour other (Or.inr isAfter)
        · rw [isFlat]
          exact isNewOrdered
        · rw [isFlat]
          exact isSize
        · simp only [isAbsent, not_false_eq_true]
        · rw [isFlat]
          exact isMember

/-! ## Dropping -/

theorem dropBlocks_spec (isShape : Shape list live) (fuel : Nat) (isFuel : live.length < fuel) (n : Nat)
    (isWithin : n ≤ live.flatten.length) :
    ∃ n' list' live', dropBlocks fuel n list = some (n', list') ∧ Shape list' live' ∧
      live'.flatten.drop n' = live.flatten.drop n ∧
      (n' = 0 ∨ ∃ block rest, live' = block :: rest ∧ n' < block.length) := by
  induction live generalizing list fuel n with
  | nil =>
    obtain rfl : n = 0 := by simpa using isWithin
    cases fuel with
    | zero => exact ⟨0, list, [], rfl, isShape, rfl, Or.inl rfl⟩
    | succ fuel =>
      refine ⟨0, list, [], ?_, isShape, rfl, Or.inl rfl⟩
      rw [dropBlocks, if_neg (fun isMore => Nat.lt_irrefl 0 isMore.1)]
  | cons block rest ih =>
    cases fuel with
    | zero => omega
    | succ fuel =>
      have isRead : readSlot list.blocks list.head = some block := by
        rw [isShape.laid]
        exact readSlot_laid list.head (block :: rest) 0
      have isHead : list.head < list.blocks.length := by
        rw [isShape.laid]
        simp
      rw [dropBlocks]
      by_cases isMore : 0 < n
      · rw [if_pos ⟨isMore, isHead⟩, isRead]
        dsimp only
        by_cases isWhole : block.length ≤ n
        · rw [if_pos isWhole]
          have isOrdered := isShape.ordered
          rw [List.flatten_cons, List.pairwise_append] at isOrdered
          have isSize := isShape.size
          rw [List.flatten_cons, List.length_append] at isSize isWithin
          have isRest : Shape ⟨list.blocks.set list.head none, list.head + 1,
              list.size - block.length⟩ rest := by
            refine ⟨?_, fun other isOther => isShape.full other (List.mem_cons_of_mem _ isOther),
              isOrdered.2.1, ?_⟩
            · rw [isShape.laid, List.set_append_right _ _ (by simp)]
              simp [List.replicate_succ']
            · dsimp only
              omega
          obtain ⟨n', list', live', isDropped, isShape', isLeft, isStop⟩ :=
            ih isRest fuel (by rw [List.length_cons] at isFuel; omega)
              (n - block.length) (by omega)
          refine ⟨n', list', live', isDropped, isShape', ?_, isStop⟩
          rw [isLeft, List.flatten_cons, List.drop_append, List.drop_eq_nil_of_le isWhole,
            List.nil_append]
        · rw [if_neg isWhole]
          exact ⟨n, list, block :: rest, rfl, isShape, rfl,
            Or.inr ⟨block, rest, rfl, Nat.lt_of_not_le isWhole⟩⟩
      · rw [if_neg (fun isBoth => isMore isBoth.1)]
        exact ⟨n, list, block :: rest, rfl, isShape, rfl, Or.inl (by omega)⟩

theorem compact_shape (isShape : Shape list live) :
    Shape (if list.head = list.blocks.length then { list with blocks := [], head := 0 }
      else if FRONT_SLACK < list.head ∧ 2 * list.count < list.head then
        { list with blocks := list.blocks.drop list.head, head := 0 }
      else list) live := by
  have isLaid := isShape.laid
  split
  · next isEmpty =>
    have isNone : live = [] := by
      rw [isLaid, List.length_append, List.length_replicate, List.length_map] at isEmpty
      exact List.eq_nil_of_length_eq_zero (by omega)
    subst isNone
    exact ⟨rfl, isShape.full, isShape.ordered, isShape.size⟩
  · split
    · refine ⟨?_, isShape.full, isShape.ordered, isShape.size⟩
      dsimp only
      rw [isLaid, List.drop_left' (by simp)]
      rfl
    · exact isShape

theorem dropFront_spec (isShape : Shape list live) (count : Nat) :
    ∃ list' live', dropFront list count = some list' ∧ Shape list' live' ∧
      live'.flatten = live.flatten.drop count := by
  have isBlocks : list.blocks.length = list.head + live.length := by
    rw [isShape.laid]
    simp
  have isSize := isShape.size
  obtain ⟨n, middle, left, isDropped, isMiddle, isLeft, isStop⟩ :=
    dropBlocks_spec isShape (list.blocks.length + 1) (by omega) (min count list.size) (by omega)
  have isAll : live.flatten.drop (min count list.size) = live.flatten.drop count := by
    rcases Nat.le_total count list.size with isLess | isMore
    · rw [Nat.min_eq_left isLess]
    · rw [Nat.min_eq_right isMore, List.drop_eq_nil_of_le (by omega),
        List.drop_eq_nil_of_le (by omega)]
  rw [isAll] at isLeft
  rw [dropFront, isDropped]
  dsimp only
  rcases isStop with rfl | ⟨block, rest, rfl, isInside⟩
  · rw [if_neg (fun isMore => Nat.lt_irrefl 0 isMore.1)]
    exact ⟨_, left, rfl, compact_shape isMiddle, isLeft⟩
  · by_cases isMore : 0 < n
    · have isRead : readSlot middle.blocks middle.head = some block := by
        rw [isMiddle.laid]
        exact readSlot_laid middle.head (block :: rest) 0
      have isHead : middle.head < middle.blocks.length := by
        rw [isMiddle.laid]
        simp
      have isOrdered := isMiddle.ordered
      have isMiddleSize := isMiddle.size
      rw [List.flatten_cons] at isOrdered isMiddleSize isLeft
      have isCut : Shape { middle with
          blocks := middle.blocks.set middle.head (some (block.drop n)), size := middle.size - n }
          (block.drop n :: rest) := by
        refine ⟨?_, ?_, ?_, ?_⟩
        · dsimp only
          rw [isMiddle.laid]
          exact set_laid middle.head [] rest block (block.drop n)
        · intro other isOther
          rcases List.mem_cons.mp isOther with rfl | isRest
          · have isShort := (isMiddle.full block List.mem_cons_self).2
            rw [ne_eq, ← List.length_eq_zero_iff, List.length_drop]
            omega
          · exact isMiddle.full other (List.mem_cons_of_mem _ isRest)
        · rw [List.flatten_cons]
          exact isOrdered.sublist ((List.drop_sublist n block).append_right rest.flatten)
        · rw [List.flatten_cons, List.length_append, List.length_drop]
          rw [List.length_append] at isMiddleSize
          dsimp only
          omega
      rw [if_pos ⟨isMore, isHead⟩, isRead]
      refine ⟨_, block.drop n :: rest, rfl, compact_shape isCut, ?_⟩
      rw [List.flatten_cons, ← isLeft, List.drop_append, Nat.sub_eq_zero_of_le (Nat.le_of_lt isInside),
        List.drop_zero]
    · obtain rfl : n = 0 := by omega
      rw [if_neg (fun isBoth => isMore isBoth.1)]
      exact ⟨_, block :: rest, rfl, compact_shape isMiddle, isLeft⟩

/-! ## Reading -/

theorem readAll_laid (head : Nat) (live : List Block) (indexes : List Nat)
    (isIndex : ∀ index ∈ indexes, index < live.length) :
    readAll (List.replicate head none ++ live.map some) (indexes.map (head + ·)) =
      some (indexes.map fun index => live.getD index []) := by
  induction indexes with
  | nil => rfl
  | cons index indexes ih =>
    have isHere := isIndex index List.mem_cons_self
    rw [List.map_cons, readAll, readSlot_laid, List.getElem?_eq_getElem isHere,
      ih fun other isOther => isIndex other (List.mem_cons_of_mem _ isOther)]
    dsimp only
    rw [List.map_cons, List.getD_eq_getElem _ _ isHere]

theorem places_eq (isShape : Shape list live) :
    list.places = (List.range live.length).map (list.head + ·) := by
  have isBlocks : list.blocks.length = list.head + live.length := by
    rw [isShape.laid]
    simp
  rw [RidList.places, isBlocks, Nat.add_sub_cancel_left, List.range'_eq_map_range]

theorem map_getD_range (live : List Block) :
    ((List.range live.length).map fun index => live.getD index []) = live := by
  apply List.ext_getElem
  · simp
  · intro index _ isIndex
    rw [List.getElem_map, List.getElem_range, List.getD_eq_getElem _ _ isIndex]

theorem reads_spec (isShape : Shape list live) :
    ascending list = some live.flatten ∧ toArray list = some live.flatten ∧
      descending list = some live.flatten.reverse := by
  refine ⟨?_, ?_, ?_⟩
  · rw [ascending, places_eq isShape, isShape.laid, readAll_laid _ _ _ (by simp), map_getD_range]
    rfl
  · have isLive : ∀ blocks : List Block, (blocks.map some).mapM (m := Option) id = some blocks := by
      intro blocks
      induction blocks with
      | nil => rfl
      | cons block blocks ih =>
        rw [List.map_cons, List.mapM_cons, ih]
        rfl
    rw [toArray, isShape.laid, List.drop_left' (by simp), isLive]
    rfl
  · rw [descending, places_eq isShape, ← List.map_reverse, isShape.laid,
      readAll_laid _ _ _ (by simp), List.map_reverse, map_getD_range]
    rw [Option.map_some, List.map_reverse, List.reverse_flatten]

end Murage.RidList

namespace Murage.RidList

inductive Op where
  | insert (rid : Int)
  | dropFront (count : Nat)

/-- One call: the list, and what `insert` answers. -/
def step (list : RidList) : Op → Option (RidList × List Bool)
  | .insert rid => (insert list rid).map fun filed => (filed.1, [filed.2])
  | .dropFront count => (dropFront list count).map fun left => (left, [])

/-- A sequence of calls, with the answers of `insert` in turn. -/
def run (list : RidList) : List Op → Option (RidList × List Bool)
  | [] => some (list, [])
  | op :: ops =>
    match step list op with
    | none => none
    | some (next, answer) => (run next ops).map fun rest => (rest.1, answer ++ rest.2)

def lowest (held : Finset Int) (count : Nat) : Finset Int :=
  ((held.sort (· ≤ ·)).take count).toFinset

/-- The set after the calls, and the answers: whether each rowid filed was new. -/
def specRun (held : Finset Int) : List Op → Finset Int × List Bool
  | [] => (held, [])
  | .insert rid :: ops =>
    let rest := specRun (Insert.insert rid held) ops
    (rest.1, decide (rid ∉ held) :: rest.2)
  | .dropFront count :: ops => specRun (held \ lowest held count) ops

theorem sort_flatten {live : List Block} (isOrdered : live.flatten.Pairwise (· < ·)) :
    live.flatten.toFinset.sort (· ≤ ·) = live.flatten :=
  (List.toFinset_sort (· ≤ ·) (isOrdered.imp Int.ne_of_lt)).mpr (isOrdered.imp Int.le_of_lt)

theorem sdiff_lowest {live : List Block} (isOrdered : live.flatten.Pairwise (· < ·)) (count : Nat) :
    live.flatten.toFinset \ lowest live.flatten.toFinset count =
      (live.flatten.drop count).toFinset := by
  rw [lowest, sort_flatten isOrdered]
  have isNodup : live.flatten.Nodup := isOrdered.imp Int.ne_of_lt
  have isSplit := List.take_append_drop count live.flatten
  rw [← isSplit, List.nodup_append] at isNodup
  ext rid
  rw [Finset.mem_sdiff, List.mem_toFinset, List.mem_toFinset, List.mem_toFinset]
  constructor
  · rintro ⟨isHeld, isNotLow⟩
    rw [← isSplit, List.mem_append] at isHeld
    exact isHeld.resolve_left isNotLow
  · intro isLeft
    exact ⟨List.mem_of_mem_drop isLeft, fun isLow => isNodup.2.2 rid isLow rid isLeft rfl⟩

theorem run_spec (ops : List Op) {list : RidList} {live : List Block} (isShape : Shape list live) :
    ∃ list' live', run list ops = some (list', (specRun live.flatten.toFinset ops).2) ∧
      Shape list' live' ∧ live'.flatten.toFinset = (specRun live.flatten.toFinset ops).1 := by
  induction ops generalizing list live with
  | nil => exact ⟨list, live, rfl, isShape, rfl⟩
  | cons op ops ih =>
    cases op with
    | insert rid =>
      obtain ⟨next, nextLive, isNew, isInserted, isNext, isAnswer, isIn⟩ :=
        insert_spec isShape rid
      obtain ⟨list', live', isRun, isShape', isSet⟩ := ih isNext
      have isNextSet : nextLive.flatten.toFinset = Insert.insert rid live.flatten.toFinset := by
        ext other
        rw [List.mem_toFinset, isIn, Finset.mem_insert, List.mem_toFinset]
      rw [isNextSet] at isRun isSet
      refine ⟨list', live', ?_, isShape', isSet⟩
      have isDecided : isNew = decide (rid ∉ live.flatten.toFinset) := by
        rw [Bool.eq_iff_iff, decide_eq_true_eq, isAnswer, List.mem_toFinset]
      rw [run, step, isInserted, Option.map_some]
      dsimp only
      rw [isRun, specRun, ← isDecided]
      rfl
    | dropFront count =>
      obtain ⟨next, nextLive, isDropped, isNext, isLeft⟩ := dropFront_spec isShape count
      obtain ⟨list', live', isRun, isShape', isSet⟩ := ih isNext
      rw [isLeft, ← sdiff_lowest isShape.ordered] at isRun isSet
      refine ⟨list', live', ?_, isShape', isSet⟩
      rw [run, step, isDropped, Option.map_some]
      dsimp only
      rw [isRun, specRun]
      rfl

/-- **The list is a sorted set.** In any run of calls from an empty list no free slot is ever read;
`insert` answers whether the rowid was new; and the list reads, in order and in the reverse order, as
the rowids filed and not dropped, counts them, and keeps them in blocks that are neither empty nor
longer than they may be, with free slots before the head alone. -/
theorem ridList_refines (ops : List Op) :
    ∃ list, run {} ops = some (list, (specRun ∅ ops).2) ∧
      ascending list = some ((specRun ∅ ops).1.sort (· ≤ ·)) ∧
      toArray list = some ((specRun ∅ ops).1.sort (· ≤ ·)) ∧
      ((specRun ∅ ops).1.sort (· ≤ ·)).Pairwise (· < ·) ∧
      descending list = some ((specRun ∅ ops).1.sort (· ≤ ·)).reverse ∧
      list.size = (specRun ∅ ops).1.card ∧
      ∃ live : List Block, list.blocks = List.replicate list.head none ++ live.map some ∧
        ∀ block ∈ live, block ≠ [] ∧ block.length ≤ RID_BLOCK := by
  have isStart : Shape ({} : RidList) [] := ⟨rfl, nofun, List.Pairwise.nil, rfl⟩
  obtain ⟨list, live, isRun, isShape, isSet⟩ := run_spec ops isStart
  rw [List.flatten_nil, List.toFinset_nil] at isRun isSet
  obtain ⟨isAscending, isArray, isDescending⟩ := reads_spec isShape
  have isSorted := sort_flatten isShape.ordered
  rw [isSet] at isSorted
  refine ⟨list, isRun, ?_, ?_, ?_, ?_, ?_, live, isShape.laid, isShape.full⟩
  · rw [isSorted, isAscending]
  · rw [isSorted, isArray]
  · rw [isSorted]
    exact isShape.ordered
  · rw [isSorted, isDescending]
  · rw [isShape.size, ← isSorted, Finset.length_sort]

end Murage.RidList
