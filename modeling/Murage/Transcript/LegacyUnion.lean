import Mathlib.Data.List.Flatten
import Mathlib.Data.List.Induction
import Mathlib.Data.List.Perm.Basic
import Murage.Transcript.Paging

/-!
Owns the union of a legacy page with the held rows: that no row is lost or doubled, and which held
rows keep their order.

Does not own: the gaps, and which inputs are unions.
-/

namespace Murage.Transcript

variable {Content : Type}

def idsOf (rows : List (Message Content)) : List String := rows.map (·.id)

def carriedOf (held page : List (Message Content)) : List (Message Content) :=
  held.filter fun row => (idsOf page).contains row.id

def freshOf (held page : List (Message Content)) : List (Message Content) :=
  page.filter fun row => !held.any (·.id == row.id)

def InHeldOrder (held page : List (Message Content)) : Prop := (idsOf (carriedOf held page)).Sublist (idsOf page)

/-- What a page is when it is laid over held rows: every row of both is there once, a held row as it
was, and the held rows keep their order as far as the page does. -/
structure LaidOver (held page laid : List (Message Content)) : Prop where
  once : (idsOf laid).Nodup
  kept : ∀ row ∈ held, row ∈ laid
  carried : ∀ row ∈ page, row.id ∈ idsOf laid
  only : ∀ row ∈ laid, row ∈ held ∨ row ∈ page
  inOrder : InHeldOrder held page → held.Sublist laid
  runs : ∀ run, run <:+: held → (∀ row ∈ run, row.id ∉ idsOf page) → run.Sublist laid

theorem mem_idsOf {rows : List (Message Content)} {id : String} : id ∈ idsOf rows ↔ ∃ row ∈ rows, row.id = id :=
  List.mem_map

variable {held page : List (Message Content)} {row : Message Content}

theorem mem_carriedOf :
    row ∈ carriedOf held page ↔ row ∈ held ∧ row.id ∈ idsOf page := by
  unfold carriedOf
  rw [List.mem_filter, List.contains_iff_mem]

variable {held : List (Message Content)}

theorem any_id_eq_true {id : String} :
    held.any (·.id == id) = true ↔ id ∈ idsOf held := by
  rw [List.any_eq_true, mem_idsOf]
  exact exists_congr fun row => and_congr_right fun _ => beq_iff_eq

theorem mem_freshOf :
    row ∈ freshOf held page ↔ row ∈ page ∧ row.id ∉ idsOf held := by
  unfold freshOf
  rw [List.mem_filter, Bool.not_eq_true', ← Bool.not_eq_true, any_id_eq_true]

theorem eq_of_id {rows : List (Message Content)} (once : (idsOf rows).Nodup) {first second : Message Content}
    (isFirst : first ∈ rows) (isSecond : second ∈ rows) (sameId : first.id = second.id) : first = second :=
  List.inj_on_of_nodup_map once isFirst isSecond sameId

theorem idsOf_append (first second : List (Message Content)) :
    idsOf (first ++ second) = idsOf first ++ idsOf second := List.map_append

theorem nodup_held_fresh (heldOnce : (idsOf held).Nodup) (pageOnce : (idsOf page).Nodup) :
    (idsOf (held ++ freshOf held page)).Nodup := by
  rw [idsOf_append]
  refine heldOnce.append (pageOnce.sublist (List.filter_sublist.map _)) fun id isHeld isFresh => ?_
  obtain ⟨row, isRow, rfl⟩ := mem_idsOf.mp isFresh
  exact (mem_freshOf.mp isRow).2 isHeld

theorem laidOver_of_perm {held page laid : List (Message Content)} (heldOnce : (idsOf held).Nodup)
    (pageOnce : (idsOf page).Nodup) (isPerm : laid.Perm (held ++ freshOf held page))
    (inOrder : InHeldOrder held page → held.Sublist laid)
    (runs : ∀ run, run <:+: held → (∀ row ∈ run, row.id ∉ idsOf page) → run.Sublist laid) :
    LaidOver held page laid where
  once := (isPerm.map _).nodup_iff.mpr (nodup_held_fresh heldOnce pageOnce)
  kept := fun row isHeld => isPerm.mem_iff.mpr (List.mem_append_left _ isHeld)
  carried := by
    intro row isPage
    refine (isPerm.map _).mem_iff.mpr (?_ : row.id ∈ idsOf (held ++ freshOf held page))
    rw [idsOf_append, List.mem_append]
    by_cases isHeld : row.id ∈ idsOf held
    · exact Or.inl isHeld
    · exact Or.inr (mem_idsOf.mpr ⟨row, mem_freshOf.mpr ⟨isPage, isHeld⟩, rfl⟩)
  only := by
    intro row isLaid
    rcases List.mem_append.mp (isPerm.mem_iff.mp isLaid) with isHeld | isFresh
    · exact Or.inl isHeld
    · exact Or.inr (mem_freshOf.mp isFresh).1
  inOrder := inOrder
  runs := runs

theorem laidOver_of_sublist {held page laid : List (Message Content)} (heldOnce : (idsOf held).Nodup)
    (pageOnce : (idsOf page).Nodup) (isPerm : laid.Perm (held ++ freshOf held page)) (stands : held.Sublist laid) :
    LaidOver held page laid :=
  laidOver_of_perm heldOnce pageOnce isPerm (fun _ => stands) fun _ isRun _ => isRun.sublist.trans stands

/-! ## The rows of the page, as they are held -/

/-- The source's `heldById`. -/
def heldById (held : List (Message Content)) : AList fun _ : String => Message Content :=
  held.foldl (fun map row => map.insert row.id row) ∅

theorem heldById_snoc (earlier : List (Message Content)) (row : Message Content) :
    heldById (earlier ++ [row]) = (heldById earlier).insert row.id row := by
  unfold heldById
  rw [List.foldl_append]
  rfl

theorem lookup_heldById (once : (idsOf held).Nodup) (id : String) :
    (heldById held).lookup id = held.find? fun row => row.id == id := by
  induction held using List.reverseRecOn with
  | nil => rfl
  | append_singleton earlier row ih =>
    rw [idsOf_append, List.nodup_append] at once
    obtain ⟨earlierOnce, -, isDisjoint⟩ := once
    have isEarlier := ih earlierOnce
    rw [heldById_snoc, List.find?_append]
    by_cases isId : row.id = id
    · have isAbsent : earlier.find? (fun row => row.id == id) = none := by
        rw [List.find?_eq_none]
        intro other isOther sameId
        exact isDisjoint other.id (mem_idsOf.mpr ⟨other, isOther, rfl⟩) row.id
          (List.mem_singleton_self _) ((beq_iff_eq.mp sameId).trans isId.symm)
      rw [isAbsent, Option.none_or, List.find?_singleton, ← isId, AList.lookup_insert, beq_self_eq_true]
      rfl
    · rw [AList.lookup_insert_ne (Ne.symm isId), isEarlier, List.find?_singleton,
        beq_eq_false_iff_ne.mpr isId]
      exact (Option.or_none ..).symm

def heldCopy (held : List (Message Content)) (row : Message Content) : Message Content :=
  ((heldById held).lookup row.id).getD row

theorem heldCopy_of_mem (once : (idsOf held).Nodup) {row copy : Message Content}
    (isHeld : copy ∈ held) (sameId : copy.id = row.id) : heldCopy held row = copy := by
  unfold heldCopy
  rw [lookup_heldById once]
  cases isFound : held.find? fun other => other.id == row.id with
  | none => exact absurd (beq_iff_eq.mpr sameId) (List.find?_eq_none.mp isFound copy isHeld)
  | some found =>
    have isSame := @List.find?_some _ (fun other : Message Content => other.id == row.id) _ _ isFound
    have isId := beq_iff_eq.mp isSame
    exact eq_of_id once (List.mem_of_find?_eq_some isFound) isHeld (isId.trans sameId.symm)

theorem heldCopy_of_not_mem (once : (idsOf held).Nodup) (notHeld : row.id ∉ idsOf held) :
    heldCopy held row = row := by
  unfold heldCopy
  rw [lookup_heldById once, List.find?_eq_none.mpr fun other isOther sameId =>
    notHeld (mem_idsOf.mpr ⟨other, isOther, beq_iff_eq.mp sameId⟩)]
  rfl

theorem heldCopy_id (once : (idsOf held).Nodup) (row : Message Content) :
    (heldCopy held row).id = row.id := by
  by_cases isHeld : row.id ∈ idsOf held
  · obtain ⟨copy, isCopy, sameId⟩ := mem_idsOf.mp isHeld
    rw [heldCopy_of_mem once isCopy sameId, sameId]
  · rw [heldCopy_of_not_mem once isHeld]

theorem eraseDupsBy_id {page : List (Message Content)} (once : (idsOf page).Nodup) :
    page.eraseDupsBy (fun left right => left.id == right.id) = page := by
  induction page with
  | nil => rfl
  | cons row rest ih =>
    obtain ⟨isNew, restOnce⟩ := List.nodup_cons.mp once
    have isWhole : (rest.filter fun other => (other.id == row.id) = false) = rest := by
      refine List.filter_eq_self.mpr fun other isOther => decide_eq_true ?_
      refine beq_eq_false_iff_ne.mpr fun sameId => isNew ?_
      exact mem_idsOf.mpr ⟨other, isOther, sameId⟩
    rw [List.eraseDupsBy_cons, isWhole, ih restOnce]

theorem map_heldCopy_perm (heldOnce : (idsOf held).Nodup) (pageOnce : (idsOf page).Nodup) :
    (page.map (heldCopy held)).Perm (carriedOf held page ++ freshOf held page) := by
  have copiesOnce : (page.map (heldCopy held)).Nodup := by
    refine List.Nodup.of_map (·.id) ?_
    have sameIds : page.map ((·.id) ∘ heldCopy held) = idsOf page :=
      List.map_congr_left fun row _ => heldCopy_id heldOnce row
    rw [List.map_map, sameIds]
    exact pageOnce
  have partsOnce : (carriedOf held page ++ freshOf held page).Nodup := by
    refine List.Nodup.of_map (·.id) (List.Nodup.sublist ?_ (nodup_held_fresh heldOnce pageOnce))
    exact (List.filter_sublist.append_right _).map _
  refine (List.perm_ext_iff_of_nodup copiesOnce partsOnce).mpr fun copy => ?_
  rw [List.mem_map, List.mem_append, mem_carriedOf, mem_freshOf]
  constructor
  · rintro ⟨row, isRow, rfl⟩
    by_cases isHeld : row.id ∈ idsOf held
    · obtain ⟨copy, isCopy, sameId⟩ := mem_idsOf.mp isHeld
      rw [heldCopy_of_mem heldOnce isCopy sameId]
      exact Or.inl ⟨isCopy, mem_idsOf.mpr ⟨row, isRow, sameId.symm⟩⟩
    · rw [heldCopy_of_not_mem heldOnce isHeld]
      exact Or.inr ⟨isRow, isHeld⟩
  · rintro (⟨isHeld, isCarried⟩ | ⟨isRow, notHeld⟩)
    · obtain ⟨row, isRow, sameId⟩ := mem_idsOf.mp isCarried
      exact ⟨row, isRow, heldCopy_of_mem heldOnce isHeld sameId.symm⟩
    · exact ⟨copy, isRow, heldCopy_of_not_mem heldOnce notHeld⟩

theorem map_heldCopy_congr {held first second : List (Message Content)} (heldOnce : (idsOf held).Nodup)
    (isHeld : ∀ row ∈ first, row.id ∈ idsOf held) (sameIds : idsOf first = idsOf second) :
    first.map (heldCopy held) = second.map (heldCopy held) := by
  induction first generalizing second with
  | nil =>
    cases second with
    | nil => rfl
    | cons other rest => exact nomatch sameIds
  | cons row rest ih =>
    cases second with
    | nil => exact nomatch sameIds
    | cons other others =>
      obtain ⟨sameId, sameRest⟩ := List.cons.inj sameIds
      obtain ⟨copy, isCopy, isId⟩ := mem_idsOf.mp (isHeld row List.mem_cons_self)
      rw [List.map_cons, List.map_cons, heldCopy_of_mem heldOnce isCopy isId,
        heldCopy_of_mem heldOnce isCopy (isId.trans sameId),
        ih (fun row isRow => isHeld row (List.mem_cons_of_mem _ isRow)) sameRest]

theorem carriedOf_sublist (heldOnce : (idsOf held).Nodup) (inOrder : InHeldOrder held page) :
    (carriedOf held page).Sublist (page.map (heldCopy held)) := by
  obtain ⟨chosen, isChosen, sameIds⟩ := List.sublist_map_iff.mp inOrder
  have isHeld : ∀ row ∈ carriedOf held page, row.id ∈ idsOf held := fun row isRow =>
    mem_idsOf.mpr ⟨row, (mem_carriedOf.mp isRow).1, rfl⟩
  have isCopied : (carriedOf held page).map (heldCopy held) = carriedOf held page := by
    refine (List.map_congr_left fun row isRow => ?_).trans (List.map_id _)
    exact heldCopy_of_mem heldOnce (mem_carriedOf.mp isRow).1 rfl
  rw [← isCopied, map_heldCopy_congr heldOnce isHeld sameIds]
  exact isChosen.map (heldCopy held)

/-! ## The split of the held rows -/

def UnionSplit.behind (split : UnionSplit Content) (row : Message Content) : List (Message Content) :=
  (split.after.lookup row.id).getD []

/-- The carried rows, each with what is kept behind it. -/
def UnionSplit.blocks (split : UnionSplit Content) (rows : List (Message Content)) : List (Message Content) :=
  rows.flatMap fun row => row :: split.behind row

/-- The split of the held rows seen so far puts them together again. -/
structure Splits (page held : List (Message Content)) (split : UnionSplit Content) : Prop where
  whole : split.front ++ split.blocks (carriedOf held page) = held
  absent : ∀ id, id ∉ idsOf (carriedOf held page) → split.after.lookup id = none
  last : split.predecessor = (carriedOf held page).getLast?.map (·.id)

theorem carriedOf_snoc (held page : List (Message Content)) (row : Message Content) :
    carriedOf (held ++ [row]) page =
      carriedOf held page ++ bif (idsOf page).contains row.id then [row] else [] := by
  unfold carriedOf
  rw [List.filter_append, List.filter_singleton]

def UnionSplit.grown (split : UnionSplit Content) (id : String) (row : Message Content) : UnionSplit Content :=
  { split with after := split.after.insert id ((split.after.lookup id).getD [] ++ [row]) }

theorem UnionSplit.behind_grown (split : UnionSplit Content) (last row : Message Content) :
    (split.grown last.id row).behind last = split.behind last ++ [row] := by
  unfold behind grown
  rw [AList.lookup_insert]
  rfl

theorem UnionSplit.behind_grown_of_ne (split : UnionSplit Content) {id : String} {row other : Message Content}
    (isOther : other.id ≠ id) : (split.grown id row).behind other = split.behind other := by
  unfold behind grown
  rw [AList.lookup_insert_ne isOther]

section

variable {page : List (Message Content)} {split : UnionSplit Content} {row : Message Content}

theorem UnionSplit.add_carried (isCarried : (idsOf page).contains row.id = true) :
    split.add (idsOf page) row = { split with predecessor := some row.id } := if_pos isCarried

theorem UnionSplit.add_front (notCarried : (idsOf page).contains row.id = false)
    (isFirst : split.predecessor = none) :
    split.add (idsOf page) row = { split with front := split.front ++ [row] } := by
  unfold add
  rw [notCarried, isFirst]
  rfl

theorem UnionSplit.add_behind {id : String} (notCarried : (idsOf page).contains row.id = false)
    (isBehind : split.predecessor = some id) : split.add (idsOf page) row = split.grown id row := by
  unfold add grown
  simp only [notCarried, isBehind, Bool.false_eq_true, if_false]

end

theorem splits_add {page held : List (Message Content)} {split : UnionSplit Content}
    (splits : Splits page held split) (once : (idsOf (held ++ [row])).Nodup) :
    Splits page (held ++ [row]) (split.add (idsOf page) row) := by
  rw [idsOf_append, List.nodup_append] at once
  have isNew : row.id ∉ idsOf (carriedOf held page) := by
    intro isHeld
    obtain ⟨other, isOther, sameId⟩ := mem_idsOf.mp isHeld
    exact once.2.2 other.id (mem_idsOf.mpr ⟨other, (mem_carriedOf.mp isOther).1, rfl⟩) row.id
      (List.mem_singleton_self _) sameId
  have isSnoc := carriedOf_snoc held page row
  cases isCarried : (idsOf page).contains row.id with
  | true =>
    rw [isCarried, cond_true] at isSnoc
    rw [UnionSplit.add_carried isCarried]
    refine ⟨?_, ?_, ?_⟩
    · have isBehind : split.behind row = [] := by
        unfold UnionSplit.behind
        rw [splits.absent row.id isNew]
        rfl
      show split.front ++ split.blocks (carriedOf (held ++ [row]) page) = held ++ [row]
      unfold UnionSplit.blocks
      rw [isSnoc, List.flatMap_append, ← List.append_assoc, List.flatMap_singleton, isBehind]
      exact congrArg (· ++ [row]) splits.whole
    · intro id notCarried
      rw [isSnoc, idsOf_append, List.mem_append, not_or] at notCarried
      exact splits.absent id notCarried.1
    · rw [isSnoc, List.getLast?_concat]
      rfl
  | false =>
    rw [isCarried, cond_false, List.append_nil] at isSnoc
    cases isLast : split.predecessor with
    | none =>
      have isNone : carriedOf held page = [] := by
        have isEmpty := splits.last.symm.trans isLast
        exact List.getLast?_eq_none_iff.mp (Option.map_eq_none_iff.mp isEmpty)
      rw [UnionSplit.add_front isCarried isLast]
      refine ⟨?_, ?_, ?_⟩
      · have isWhole := splits.whole
        rw [isNone] at isWhole
        rw [isSnoc, isNone]
        show split.front ++ [row] ++ [] = held ++ [row]
        rw [List.append_nil]
        exact congrArg (· ++ [row]) ((List.append_nil _).symm.trans isWhole)
      · rw [isSnoc]
        exact splits.absent
      · rw [isSnoc]
        exact splits.last
    | some id =>
      obtain ⟨last, isLastRow, rfl⟩ := Option.map_eq_some_iff.mp (splits.last.symm.trans isLast)
      obtain ⟨earlier, isEarlier⟩ := List.getLast?_eq_some_iff.mp isLastRow
      have carriedOnce : (idsOf (earlier ++ [last])).Nodup := by
        rw [← isEarlier]
        exact once.1.sublist (List.filter_sublist.map _)
      rw [idsOf_append, List.nodup_append] at carriedOnce
      rw [UnionSplit.add_behind isCarried isLast]
      refine ⟨?_, ?_, ?_⟩
      · -- The row goes behind the last carried row; what is behind the others stays.
        have isOther : ∀ other ∈ earlier,
            (other :: (split.grown last.id row).behind other) = other :: split.behind other := by
          intro other isOther
          have notLast : other.id ≠ last.id :=
            carriedOnce.2.2 other.id (mem_idsOf.mpr ⟨other, isOther, rfl⟩) last.id
              (List.mem_singleton_self _)
          rw [split.behind_grown_of_ne notLast]
        have isWhole := splits.whole
        unfold UnionSplit.blocks at isWhole ⊢
        rw [isEarlier, List.flatMap_append, List.flatMap_singleton] at isWhole
        rw [isSnoc, isEarlier, List.flatMap_append, List.flatMap_singleton, List.flatMap_congr isOther,
          split.behind_grown, ← isWhole]
        simp only [UnionSplit.grown, List.append_assoc, List.cons_append]
      · intro id notCarried
        rw [isSnoc] at notCarried
        have notLast : id ≠ last.id := by
          rintro rfl
          refine notCarried ?_
          rw [isEarlier]
          exact mem_idsOf.mpr ⟨last, List.mem_append_right _ (List.mem_singleton_self _), rfl⟩
        exact (AList.lookup_insert_ne notLast).trans (splits.absent id notCarried)
      · rw [isSnoc]
        exact splits.last

theorem splits_foldl (page : List (Message Content)) (once : (idsOf held).Nodup) :
    Splits page held (held.foldl (UnionSplit.add (idsOf page)) {}) := by
  induction held using List.reverseRecOn with
  | nil => exact ⟨rfl, fun id _ => AList.lookup_empty id, rfl⟩
  | append_singleton earlier row ih =>
    rw [List.foldl_append]
    refine splits_add (ih ?_) once
    rw [idsOf_append, List.nodup_append] at once
    exact once.1

/-! ## The union -/

theorem run_in_block (isCarried : Message Content → Prop) {front rows run : List (Message Content)}
    {behind : Message Content → List (Message Content)} (carried : ∀ row ∈ rows, isCarried row)
    (notCarried : ∀ row ∈ run, ¬isCarried row)
    (isRun : run <:+: front ++ rows.flatMap fun row => row :: behind row) :
    run <:+: front ∨ ∃ row ∈ rows, run <:+: behind row := by
  induction rows generalizing front with
  | nil =>
    rw [List.flatMap_nil, List.append_nil] at isRun
    exact Or.inl isRun
  | cons row rest ih =>
    have inRest : run <:+: behind row ++ rest.flatMap (fun row => row :: behind row) →
        ∃ row' ∈ row :: rest, run <:+: behind row' := by
      intro isRest
      rcases ih (fun row isRow => carried row (List.mem_cons_of_mem _ isRow)) isRest with
        isBehind | ⟨other, isOther, isBehind⟩
      · exact ⟨row, List.mem_cons_self, isBehind⟩
      · exact ⟨other, List.mem_cons_of_mem _ isOther, isBehind⟩
    -- No run reaches over the carried row.
    have noReach : ∀ part, (∀ other ∈ part, other ∈ run) →
        part <+: row :: (behind row ++ rest.flatMap fun row => row :: behind row) → part = [] := by
      intro part isPart isPrefix
      rcases List.prefix_cons_iff.mp isPrefix with isNil | ⟨tail, rfl, -⟩
      · exact isNil
      · exact absurd (carried row List.mem_cons_self) (notCarried row (isPart row List.mem_cons_self))
    rw [List.flatMap_cons, List.cons_append] at isRun
    rcases List.infix_append_iff.mp isRun with isFront | isBlock | ⟨left, right, rfl, isLeft, isRight⟩
    · exact Or.inl isFront
    · rcases List.infix_cons_iff.mp isBlock with isPrefix | isRest
      · rw [noReach run (fun _ isIn => isIn) isPrefix]
        exact Or.inl (List.nil_infix)
      · exact Or.inr (inRest isRest)
    · rw [noReach right (fun _ isIn => List.mem_append_right _ isIn) isRight, List.append_nil]
      exact Or.inl isLeft.isInfix

section

variable {held page : List (Message Content)}

theorem any_carried :
    held.any (fun row => (idsOf page).contains row.id) = true ↔ carriedOf held page ≠ [] := by
  unfold carriedOf
  rw [List.any_eq_true, ne_eq, List.filter_eq_nil_iff]
  simp only [not_forall, not_not, exists_prop]

theorem legacyUnion_of_disjoint (pageOnce : (idsOf page).Nodup) (isDisjoint : carriedOf held page = [])
    (older : Bool) : legacyUnion held page older =
      if older then page.map (heldCopy held) ++ held else held ++ page.map (heldCopy held) := by
  have noneCarried : held.any (fun row => (idsOf page).contains row.id) = false :=
    Bool.not_eq_true _ |>.mp fun isCarried => any_carried.mp isCarried isDisjoint
  unfold legacyUnion
  rw [eraseDupsBy_id pageOnce]
  exact if_pos (congrArg (!·) noneCarried)

theorem legacyUnion_of_carried (pageOnce : (idsOf page).Nodup) (isCarried : carriedOf held page ≠ [])
    (older : Bool) : legacyUnion held page older =
      (held.foldl (UnionSplit.add (idsOf page)) {}).front ++
        (held.foldl (UnionSplit.add (idsOf page)) {}).blocks (page.map (heldCopy held)) := by
  unfold legacyUnion
  rw [eraseDupsBy_id pageOnce]
  refine if_neg fun noneCarried => ?_
  rw [show page.map (·.id) = idsOf page from rfl, any_carried.mpr isCarried] at noneCarried
  exact nomatch noneCarried

/-- **The union** of held rows and a page holds every row of both once, and keeps the held order as far as
the page does. -/
theorem legacyUnion_laidOver (heldOnce : (idsOf held).Nodup) (pageOnce : (idsOf page).Nodup) (older : Bool) :
    LaidOver held page (legacyUnion held page older) := by
  have isPerm := map_heldCopy_perm heldOnce pageOnce
  by_cases isDisjoint : carriedOf held page = []
  · rw [isDisjoint, List.nil_append] at isPerm
    rw [legacyUnion_of_disjoint pageOnce isDisjoint older]
    cases older with
    | true =>
      refine laidOver_of_sublist heldOnce pageOnce ?_ (List.sublist_append_right _ _)
      exact List.perm_append_comm.trans (isPerm.append_left held)
    | false =>
      exact laidOver_of_sublist heldOnce pageOnce (isPerm.append_left held) (List.sublist_append_left _ _)
  · rw [legacyUnion_of_carried pageOnce isDisjoint older]
    have splits := splits_foldl page heldOnce
    generalize held.foldl (UnionSplit.add (idsOf page)) {} = split at splits
    have freshBlocks : split.blocks (freshOf held page) = freshOf held page := by
      unfold UnionSplit.blocks
      have isAlone : ∀ row ∈ freshOf held page, (row :: split.behind row) = [row] := by
        intro row isFresh
        have notCarried : row.id ∉ idsOf (carriedOf held page) := by
          intro isCarried
          obtain ⟨other, isOther, sameId⟩ := mem_idsOf.mp isCarried
          exact (mem_freshOf.mp isFresh).2 (mem_idsOf.mpr ⟨other, (mem_carriedOf.mp isOther).1, sameId⟩)
        unfold UnionSplit.behind
        rw [splits.absent row.id notCarried]
        rfl
      rw [List.flatMap_congr isAlone, List.flatMap_singleton']
    refine laidOver_of_perm heldOnce pageOnce ?_ ?_ ?_
    · have isBlocks := isPerm.flatMap_right fun row => row :: split.behind row
      rw [List.flatMap_append] at isBlocks
      have isWhole := (isBlocks.append_left split.front).trans (List.Perm.of_eq (List.append_assoc _ _ _).symm)
      refine isWhole.trans (List.Perm.of_eq ?_)
      exact congrArg₂ (· ++ ·) splits.whole freshBlocks
    · intro inOrder
      have isWhole : held.Sublist (split.front ++ split.blocks (carriedOf held page)) :=
        splits.whole.symm ▸ List.Sublist.refl held
      refine isWhole.trans ?_
      exact ((carriedOf_sublist heldOnce inOrder).flatMap _).append_left split.front
    · intro run isRun notCarried
      have isInBlock := run_in_block (fun row => row.id ∈ idsOf page)
        (fun row isCarried => (mem_carriedOf.mp isCarried).2) notCarried (splits.whole.symm ▸ isRun)
      rcases isInBlock with isFront | ⟨row, isRow, isBehind⟩
      · exact isFront.sublist.trans (List.sublist_append_left _ _)
      · have isHeld : row ∈ page.map (heldCopy held) :=
          isPerm.mem_iff.mpr (List.mem_append_left _ isRow)
        have isBlock : (row :: split.behind row).Sublist (split.blocks (page.map (heldCopy held))) :=
          List.sublist_flatten_of_mem (List.mem_map_of_mem isHeld)
        refine isBehind.sublist.trans (((List.sublist_cons_self row _).trans isBlock).trans ?_)
        exact List.sublist_append_right _ _

end

end Murage.Transcript
