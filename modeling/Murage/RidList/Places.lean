import Mathlib.Data.List.GetD
import Murage.RidList.Model

/-!
Owns the shape of the array: free slots in front of the head, then blocks, none of them empty or too
long, and the rowids in order through them; and where a rowid goes: the search over the blocks and
the search inside one.

Does not own: what is done at the place found.
-/

namespace Murage.RidList

open Murage.Library

structure Shape (list : RidList) (live : List Block) : Prop where
  laid : list.blocks = List.replicate list.head none ++ live.map some
  full : ∀ block ∈ live, block ≠ [] ∧ block.length ≤ RID_BLOCK
  ordered : live.flatten.Pairwise (· < ·)
  size : list.size = live.flatten.length

theorem readSlot_laid (head : Nat) (live : List Block) (index : Nat) :
    readSlot (List.replicate head none ++ live.map some) (head + index) = live[index]? := by
  rw [readSlot, List.getElem?_append_right (by simp)]
  simp
  cases live[index]? <;> rfl

theorem shiftDown_laid (head : Nat) (live : List Block) (index : Nat) (isIndex : index ≤ live.length) :
    ∃ stale, shiftDown (List.replicate (head + 1) none ++ live.map some) head index =
      some (List.replicate head none ++
        ((live.take index).map some ++ stale :: (live.drop index).map some)) := by
  induction index with
  | zero => exact ⟨none, by simp [shiftDown, List.replicate_succ']⟩
  | succ index ih =>
    obtain ⟨stale, isShifted⟩ := ih (by omega)
    have isTake : ((live.take index).map some).length = index := by
      rw [List.length_map, List.length_take]
      omega
    have isDrop : live.drop index = live[index] :: live.drop (index + 1) :=
      List.drop_eq_getElem_cons (by omega)
    have isTakeSucc : live.take (index + 1) = live.take index ++ [live[index]] := by
      rw [List.take_succ_eq_append_getElem (by omega)]
    refine ⟨some live[index], ?_⟩
    rw [shiftDown, isShifted]
    dsimp only
    have isRead : readSlot (List.replicate head none ++
        ((live.take index).map some ++ stale :: (live.drop index).map some)) (head + index + 1) =
          some live[index] := by
      rw [readSlot, List.getElem?_append_right (by simp; omega),
        List.getElem?_append_right (by simp; omega), isDrop]
      have isPlace : head + index + 1 - (List.replicate head (none : Slot)).length -
          ((live.take index).map some).length = 1 := by
        rw [List.length_replicate, isTake]
        omega
      rw [isPlace]
      rfl
    rw [isRead]
    dsimp only
    rw [List.set_append_right _ _ (by simp), List.set_append_right _ _ (by simp)]
    have isPlace : head + index - (List.replicate head (none : Slot)).length -
        ((live.take index).map some).length = 0 := by
      rw [List.length_replicate, isTake]
      omega
    rw [isPlace, List.set_cons_zero, isDrop, isTakeSucc, List.map_append, List.append_assoc]
    rfl

theorem placeBefore_laid (size index : Nat) (block : Block) (head : Nat) (live : List Block)
    (isIndex : index ≤ live.length) :
    ∃ head', placeBefore ⟨List.replicate head none ++ live.map some, head, size⟩ index block =
      some ⟨List.replicate head' none ++ (live.take index ++ block :: live.drop index).map some,
        head', size⟩ := by
  have isCount : RidList.count ⟨List.replicate head none ++ live.map some, head, size⟩ =
      live.length := by
    simp [RidList.count]
  rw [placeBefore, isCount]
  dsimp only
  by_cases isFront : index < live.length - index
  · rw [if_pos isFront]
    -- the head that the shift starts from has a free slot before it
    obtain ⟨front, isRefilled⟩ : ∃ front,
        (if head = 0 then
          RidList.mk (List.replicate (max FRONT_SLACK live.length) none ++
            (List.replicate head none ++ live.map some)) (max FRONT_SLACK live.length) size
        else ⟨List.replicate head none ++ live.map some, head, size⟩) =
          ⟨List.replicate (front + 1) none ++ live.map some, front + 1, size⟩ := by
      cases head with
      | zero =>
        refine ⟨max FRONT_SLACK live.length - 1, ?_⟩
        have isSlack : max FRONT_SLACK live.length - 1 + 1 = max FRONT_SLACK live.length := by
          rw [FRONT_SLACK]
          omega
        rw [if_pos rfl, isSlack]
        rfl
      | succ front => exact ⟨front, if_neg (Nat.succ_ne_zero front)⟩
    rw [isRefilled]
    dsimp only
    rw [Nat.add_sub_cancel]
    obtain ⟨stale, isShifted⟩ := shiftDown_laid front live index isIndex
    rw [isShifted]
    refine ⟨front, ?_⟩
    dsimp only
    have isTake : ((live.take index).map some).length = index := by
      rw [List.length_map, List.length_take]
      omega
    have isPlace : front + index - (List.replicate front (none : Slot)).length -
        ((live.take index).map some).length = 0 := by
      rw [List.length_replicate, isTake]
      omega
    rw [List.set_append_right _ _ (by simp), List.set_append_right _ _ (by simp), isPlace,
      List.set_cons_zero, List.map_append, List.map_cons]
  · rw [if_neg isFront]
    refine ⟨head, ?_⟩
    rw [List.take_append, List.drop_append, List.length_replicate, Nat.add_sub_cancel_left,
      List.take_of_length_le (by simp), List.drop_eq_nil_of_le (by simp), List.nil_append,
      List.append_assoc, List.map_append, List.map_cons, List.map_take, List.map_drop]

variable {list : RidList} {live : List Block} {rid : Int}

/-- The place inside a block: what is before it is lower, and what is from it on is higher, unless
the rowid is there. -/
theorem bisect_block {block : Block} (isOrdered : block.Pairwise (· < ·)) (rid : Int) {lo : Nat}
    (isLo : bisect (fun mid => block.getD mid 0 < rid) 0 block.length = lo) :
    (∀ other ∈ block.take lo, other < rid) ∧
      (block[lo]? = some rid → rid ∈ block) ∧
      (block[lo]? ≠ some rid → ∀ other ∈ block.drop lo, rid < other) := by
  have isAscending : ∀ i j, i < j → j < block.length → block.getD i 0 < block.getD j 0 := by
    intro i j isLess isPlace
    rw [List.getD_eq_getElem _ _ (by omega), List.getD_eq_getElem _ _ isPlace]
    exact List.pairwise_iff_getElem.mp isOrdered i j (by omega) isPlace isLess
  obtain ⟨-, isWithin, areBelow, areAbove⟩ := @bisect_spec (fun mid => block.getD mid 0 < rid) 0
    block.length (Nat.zero_le _) (by
      intro i j isLe _ isPlace isBelow
      rw [decide_eq_true_eq] at isBelow ⊢
      rcases Nat.lt_or_eq_of_le isLe with isLess | rfl
      · have := isAscending i j isLess isPlace
        omega
      · exact isBelow)
  rw [isLo] at isWithin areBelow areAbove
  refine ⟨?_, List.mem_of_getElem?, ?_⟩
  · intro other isOther
    obtain ⟨i, isIndex, rfl⟩ := List.mem_take_iff_getElem.mp isOther
    have isBelow := of_decide_eq_true (areBelow i (Nat.zero_le i) (by omega))
    rwa [List.getD_eq_getElem _ _ (by omega)] at isBelow
  · intro isAbsent other isOther
    obtain ⟨i, isIndex, rfl⟩ := List.mem_drop_iff_getElem.mp isOther
    have isFirst := of_decide_eq_false (areAbove lo (Nat.le_refl lo) (by omega))
    rw [List.getD_eq_getElem _ _ (by omega)] at isFirst
    rw [List.getElem?_eq_getElem (by omega), ne_eq, Option.some.injEq] at isAbsent
    cases i with
    | zero => simp only [Nat.add_zero]; omega
    | succ i =>
      have isLater := isAscending lo (lo + (i + 1)) (by omega) (by omega)
      rw [List.getD_eq_getElem _ _ (by omega), List.getD_eq_getElem _ _ (by omega)] at isLater
      omega

theorem le_last {block : Block} (isOrdered : block.Pairwise (· < ·)) {last other : Int}
    (isLast : block.getLast? = some last) (isOther : other ∈ block) : other ≤ last := by
  obtain ⟨front, rfl⟩ := List.getLast?_eq_some_iff.mp isLast
  rcases List.mem_append.mp isOther with isEarlier | isIt
  · exact Int.le_of_lt ((List.pairwise_append.mp isOrdered).2.2 other isEarlier last
      List.mem_cons_self)
  · exact Int.le_of_eq (List.mem_singleton.mp isIt)

def lastAt (live : List Block) (index : Nat) : Int := ((live.getD index []).getLast?).getD 0

theorem getLast_at (isFull : ∀ block ∈ live, block ≠ []) {index : Nat} (isIndex : index < live.length) :
    live[index].getLast? = some (lastAt live index) := by
  have isNonempty := isFull live[index] (List.getElem_mem isIndex)
  rw [lastAt, List.getD_eq_getElem _ _ isIndex, List.getLast?_eq_some_getLast isNonempty]
  rfl

theorem lastAt_lt (isFull : ∀ block ∈ live, block ≠ []) (isOrdered : live.flatten.Pairwise (· < ·))
    {i j : Nat} (isLess : i < j) (isPlace : j < live.length) : lastAt live i < lastAt live j := by
  have isBlocks := (List.pairwise_flatten.mp isOrdered).2
  have isPair := List.pairwise_iff_getElem.mp isBlocks i j (by omega) isPlace isLess
  exact isPair _ (List.mem_of_getLast? (getLast_at isFull (by omega))) _
    (List.mem_of_getLast? (getLast_at isFull isPlace))

theorem blockOf_eq (isFull : ∀ block ∈ live, block ≠ []) (head : Nat) (rid : Int) (lo hi : Nat)
    (isHigh : hi < live.length) :
    blockOf (List.replicate head none ++ live.map some) head rid lo hi =
      some (bisect (fun index => lastAt live index < rid) lo hi) := by
  fun_induction bisect (fun index => decide (lastAt live index < rid)) lo hi with
  | case1 lo hi isMore isBelow ih =>
    have isMid : (lo + hi) / 2 < live.length := by omega
    rw [blockOf, if_pos isMore]
    dsimp only
    rw [readSlot_laid, List.getElem?_eq_getElem isMid]
    dsimp only
    rw [getLast_at isFull isMid]
    dsimp only
    rw [if_pos (of_decide_eq_true isBelow), ih isHigh]
  | case2 lo hi isMore isNotBelow ih =>
    have isMid : (lo + hi) / 2 < live.length := by omega
    rw [blockOf, if_pos isMore]
    dsimp only
    rw [readSlot_laid, List.getElem?_eq_getElem isMid]
    dsimp only
    rw [getLast_at isFull isMid]
    dsimp only
    rw [if_neg (fun isBelow => isNotBelow (decide_eq_true isBelow)),
      ih (by omega)]
  | case3 lo hi isDone => rw [blockOf, if_neg isDone]

theorem take_below (isFull : ∀ block ∈ live, block ≠ []) (isOrdered : live.flatten.Pairwise (· < ·))
    {index : Nat} (areBelow : ∀ i, i < index → i < live.length → lastAt live i < rid) :
    ∀ other ∈ (live.take index).flatten, other < rid := by
  intro other isOther
  obtain ⟨block, isBlock, isIn⟩ := List.mem_flatten.mp isOther
  obtain ⟨i, isIndex, rfl⟩ := List.mem_take_iff_getElem.mp isBlock
  have isLe := le_last ((List.pairwise_flatten.mp isOrdered).1 _ (List.getElem_mem (by omega)))
    (getLast_at isFull (by omega)) isIn
  have isLess := areBelow i (by omega) (by omega)
  omega

/-- What is found for a rowid: the block it goes to, and the place there that keeps the order, or
that the rowid is held. -/
theorem findPlace_spec (isShape : Shape list live) (isSome : live ≠ []) (rid : Int) :
    ∃ before block after place,
      live = before ++ block :: after ∧
        findPlace list rid = some (before.length, block, place) ∧
        (∀ other ∈ before.flatten, other < rid) ∧
        (place = none → rid ∈ block) ∧
        ∀ lo, place = some lo →
          (∀ other ∈ block.take lo, other < rid) ∧ (∀ other ∈ block.drop lo, rid < other) ∧
            ∀ other ∈ after.flatten, rid < other := by
  have isFull : ∀ block ∈ live, block ≠ [] := fun block isBlock => (isShape.full block isBlock).1
  have isLive : 0 < live.length := List.length_pos_iff.mpr isSome
  have isLength : list.blocks.length = list.head + live.length := by
    rw [isShape.laid]
    simp
  have isCount : list.count = live.length := by
    rw [RidList.count]
    omega
  have isRead : ∀ index, readSlot list.blocks (list.head + index) = live[index]? := fun index => by
    rw [isShape.laid, readSlot_laid]
  have isLastPlace : list.blocks.length - 1 = list.head + (live.length - 1) := by omega
  have isLastBlock := @getLast_at live isFull (live.length - 1) (by omega)
  have isOrderedBlock : ∀ index (isIndex : index < live.length), live[index].Pairwise (· < ·) :=
    fun index isIndex => (List.pairwise_flatten.mp isShape.ordered).1 _ (List.getElem_mem isIndex)
  by_cases isAbove : lastAt live (live.length - 1) < rid
  · refine ⟨live.take (live.length - 1), live[live.length - 1], [],
      some live[live.length - 1].length, ?_, ?_, ?_, nofun, ?_⟩
    · rw [← List.take_succ_eq_append_getElem, Nat.sub_add_cancel isLive, List.take_length]
    · rw [findPlace, isLastPlace, isRead, List.getElem?_eq_getElem (by omega)]
      dsimp only
      rw [isLastBlock]
      dsimp only
      rw [if_pos isAbove, isCount, List.length_take]
      simp
    · apply take_below isFull isShape.ordered
      intro i isEarlier isIndex
      exact Int.lt_trans (lastAt_lt isFull isShape.ordered isEarlier (by omega)) isAbove
    · rintro _ ⟨⟩
      refine ⟨?_, ?_, nofun⟩
      · intro other isOther
        have isLe := le_last (isOrderedBlock _ (by omega)) isLastBlock (List.mem_of_mem_take isOther)
        omega
      · rw [List.drop_length]
        exact nofun
  · obtain ⟨-, isWithin, areBelow, areAbove⟩ := @bisect_spec (fun index => lastAt live index < rid) 0
      (live.length - 1) (Nat.zero_le _) (by
        intro i j isLe _ isPlace isBelow
        rw [decide_eq_true_eq] at isBelow ⊢
        rcases Nat.lt_or_eq_of_le isLe with isLess | rfl
        · exact Int.lt_trans (lastAt_lt isFull isShape.ordered isLess (by omega)) isBelow
        · exact isBelow)
    generalize isIndex : bisect (fun index => decide (lastAt live index < rid)) 0
      (live.length - 1) = index at isWithin areBelow areAbove
    have isHere : index < live.length := by omega
    have isNotBelow : ¬ lastAt live index < rid := by
      rcases Nat.lt_or_eq_of_le isWithin with isLess | rfl
      · exact of_decide_eq_false (areAbove index (Nat.le_refl _) isLess)
      · exact isAbove
    generalize isLo : bisect (fun mid => decide (live[index].getD mid 0 < rid)) 0
      live[index].length = lo
    obtain ⟨areLower, isHeld, areHigher⟩ := bisect_block (isOrderedBlock index isHere) rid isLo
    refine ⟨live.take index, live[index], live.drop (index + 1),
      if live[index][lo]? = some rid then none else some lo, ?_, ?_, ?_, ?_, ?_⟩
    · rw [← List.drop_eq_getElem_cons, List.take_append_drop]
    · rw [findPlace, isLastPlace, isRead, List.getElem?_eq_getElem (by omega)]
      dsimp only
      rw [isLastBlock]
      dsimp only
      rw [if_neg isAbove, isCount, isShape.laid, blockOf_eq isFull _ _ _ _ (by omega), isIndex]
      dsimp only
      rw [readSlot_laid, List.getElem?_eq_getElem isHere]
      dsimp only
      rw [isLo, List.length_take, Nat.min_eq_left (by omega)]
    · apply take_below isFull isShape.ordered
      intro i isEarlier _
      exact of_decide_eq_true (areBelow i (Nat.zero_le i) isEarlier)
    · intro isNone
      split at isNone
      · next isThere => exact isHeld isThere
      · cases isNone
    · intro found isFound
      split at isFound
      · cases isFound
      · next isAbsent =>
        obtain rfl := Option.some.inj isFound
        refine ⟨areLower, areHigher isAbsent, ?_⟩
        intro other isOther
        obtain ⟨block, isBlock, isIn⟩ := List.mem_flatten.mp isOther
        obtain ⟨i, isPlace, rfl⟩ := List.mem_drop_iff_getElem.mp isBlock
        have isLess := List.pairwise_iff_getElem.mp (List.pairwise_flatten.mp isShape.ordered).2 index
          (index + 1 + i) isHere (by omega) (by omega) _
          (List.mem_of_getLast? (getLast_at isFull isHere)) other isIn
        omega

end Murage.RidList
