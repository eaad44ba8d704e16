import Murage.Transcript.LegacyUnion

/-!
Owns the legacy branch: what each of its inputs leaves of the held rows and of the page, and which
gaps stay open.

Does not own: the union of two lists of rows.
-/

namespace Murage.Transcript

variable {Content : Type}

/-- The input is dropped: no page that vouches reached an unloaded transcript yet, or the gap an older
page was asked for is no held row. -/
def Dropped (t : SeqTranscript Content) (input : TranscriptInput Content) : Prop :=
  match input.kind with
  | .live | .patch => t.messagesUnloaded = true
  | .older => ∃ anchor ∈ t.legacyGaps, input.before = some anchor ∧ anchor ∉ idsOf t.messages
  | .newest | .statement => t.messagesUnloaded = true ∧ input.vouched = false

/-- The rows an input is laid over: a page that loads an unloaded transcript starts it. -/
def baseOf (t : SeqTranscript Content) (input : TranscriptInput Content) : List (Message Content) :=
  match input.kind with
  | .newest | .statement => if t.messagesUnloaded && input.vouched then [] else t.messages
  | _ => t.messages

/-- The input is asked for no gap: the held rows stay where they are. -/
def Beside (t : SeqTranscript Content) (input : TranscriptInput Content) : Prop :=
  input.kind = .live ∨ (input.kind = .older ∧ input.before.filter t.legacyGaps.contains = none)

/-! ## A page laid into a gap -/

section

variable {lower upper rows laid : List (Message Content)}

theorem not_mem_of_append (heldOnce : (idsOf (lower ++ upper)).Nodup) {id : String} (isLower : id ∈ idsOf lower) :
    id ∉ idsOf upper := by
  rw [idsOf_append, List.nodup_append] at heldOnce
  exact fun isUpper => heldOnce.2.2 id isLower id isUpper rfl

def isOutside (upper : List (Message Content)) (id : String) : Bool := !upper.any (·.id == id)

theorem isOutside_iff {id : String} : isOutside upper id = true ↔ id ∉ idsOf upper := by
  unfold isOutside
  rw [Bool.not_eq_true', ← Bool.not_eq_true, any_id_eq_true]

theorem inHeldOrder_lower (heldOnce : (idsOf (lower ++ upper)).Nodup)
    (inOrder : InHeldOrder (lower ++ upper) rows) : InHeldOrder lower (freshOf upper rows) := by
  have isPage : idsOf (freshOf upper rows) = (idsOf rows).filter (isOutside upper) := by
    unfold idsOf freshOf
    rw [List.filter_map]
    rfl
  have isCarried : carriedOf lower (freshOf upper rows) = carriedOf lower rows := by
    refine List.filter_congr fun row isLower => ?_
    have notUpper := not_mem_of_append heldOnce (mem_idsOf.mpr ⟨row, isLower, rfl⟩)
    rw [isPage, Bool.eq_iff_iff, List.contains_iff_mem, List.contains_iff_mem, List.mem_filter]
    exact ⟨And.left, fun isRow => ⟨isRow, isOutside_iff.mpr notUpper⟩⟩
  have isKept : (idsOf (carriedOf lower rows)).filter (isOutside upper) = idsOf (carriedOf lower rows) := by
    refine List.filter_eq_self.mpr fun id isId => isOutside_iff.mpr ?_
    obtain ⟨row, isRow, rfl⟩ := mem_idsOf.mp isId
    exact not_mem_of_append heldOnce (mem_idsOf.mpr ⟨row, (mem_carriedOf.mp isRow).1, rfl⟩)
  have isFront : (idsOf (carriedOf lower rows)).Sublist (idsOf rows) := by
    refine List.Sublist.trans (List.Sublist.map _ ?_) inOrder
    unfold carriedOf
    rw [List.filter_append]
    exact List.sublist_append_left _ _
  unfold InHeldOrder
  rw [isCarried, isPage, ← isKept]
  exact isFront.filter _

theorem laidOver_append (heldOnce : (idsOf (lower ++ upper)).Nodup)
    (isLaid : LaidOver lower (freshOf upper rows) laid) : LaidOver (lower ++ upper) rows (laid ++ upper) := by
  refine ⟨?_, ?_, ?_, ?_, ?_, ?_⟩
  · rw [idsOf_append]
    refine isLaid.once.append ?_ fun id isId isUpper => ?_
    · rw [idsOf_append, List.nodup_append] at heldOnce
      exact heldOnce.2.1
    · obtain ⟨row, isRow, rfl⟩ := mem_idsOf.mp isId
      rcases isLaid.only row isRow with isLower | isFresh
      · exact not_mem_of_append heldOnce (mem_idsOf.mpr ⟨row, isLower, rfl⟩) isUpper
      · exact (mem_freshOf.mp isFresh).2 isUpper
  · intro row isHeld
    rcases List.mem_append.mp isHeld with isLower | isUpper
    · exact List.mem_append_left _ (isLaid.kept row isLower)
    · exact List.mem_append_right _ isUpper
  · intro row isRow
    rw [idsOf_append, List.mem_append]
    by_cases isUpper : row.id ∈ idsOf upper
    · exact Or.inr isUpper
    · exact Or.inl (isLaid.carried row (mem_freshOf.mpr ⟨isRow, isUpper⟩))
  · intro row isRow
    rcases List.mem_append.mp isRow with isRow | isUpper
    · rcases isLaid.only row isRow with isLower | isFresh
      · exact Or.inl (List.mem_append_left _ isLower)
      · exact Or.inr (mem_freshOf.mp isFresh).1
    · exact Or.inl (List.mem_append_right _ isUpper)
  · intro inOrder
    exact (isLaid.inOrder (inHeldOrder_lower heldOnce inOrder)).append_right upper
  · intro run isRun notCarried
    have below : ∀ part, part <:+: lower → (∀ row ∈ part, row ∈ run) → part.Sublist laid := by
      intro part isPart isOf
      refine isLaid.runs part isPart fun row isRow isCarried => notCarried row (isOf row isRow) ?_
      obtain ⟨other, isOther, sameId⟩ := mem_idsOf.mp isCarried
      exact mem_idsOf.mpr ⟨other, (mem_freshOf.mp isOther).1, sameId⟩
    rcases List.infix_append_iff.mp isRun with isLower | isUpper | ⟨left, right, rfl, isLeft, isRight⟩
    · exact (below run isLower fun _ isRow => isRow).trans (List.sublist_append_left _ _)
    · exact isUpper.sublist.trans (List.sublist_append_right _ _)
    · have isBelow := below left isLeft.isInfix fun _ isRow => List.mem_append_left _ isRow
      exact isBelow.append isRight.sublist

end

theorem parts_of_anchor (held : List (Message Content)) (anchor : String) :
    held.takeWhile (·.id != anchor) ++ held.dropWhile (·.id != anchor) = held := List.takeWhile_append_dropWhile

/-- The rows laid between those below a gap and those above it. -/
def laidInGap (lower page : List (Message Content)) : List (Message Content) :=
  if page.any (fun row => lower.any (·.id == row.id)) then legacyUnion lower page false
  else lower ++ freshOf lower page

theorem laidInGap_laidOver {lower page : List (Message Content)} (lowerOnce : (idsOf lower).Nodup)
    (pageOnce : (idsOf page).Nodup) : LaidOver lower page (laidInGap lower page) := by
  unfold laidInGap
  split_ifs
  · exact legacyUnion_laidOver lowerOnce pageOnce false
  · exact laidOver_of_sublist lowerOnce pageOnce (List.Perm.refl _) (List.sublist_append_left _ _)

variable {t : SeqTranscript Content}

theorem legacyGapPage_messages (input : TranscriptInput Content) {anchor : String}
    (isHeld : anchor ∈ idsOf t.messages) : (legacyGapPage t input anchor).messages =
      laidInGap (t.messages.takeWhile (·.id != anchor))
          (freshOf (t.messages.dropWhile (·.id != anchor)) input.rows) ++
        t.messages.dropWhile (·.id != anchor) := by
  unfold legacyGapPage
  dsimp only
  rw [any_id_eq_true.mpr isHeld]
  rfl

variable {input : TranscriptInput Content}

theorem legacyGapPage_laidOver {anchor : String} (heldOnce : (idsOf t.messages).Nodup)
    (rowsOnce : (idsOf input.rows).Nodup) (isHeld : anchor ∈ idsOf t.messages) :
    LaidOver t.messages input.rows (legacyGapPage t input anchor).messages := by
  have isWhole := parts_of_anchor t.messages anchor
  rw [legacyGapPage_messages input isHeld]
  generalize t.messages.takeWhile (·.id != anchor) = lower at isWhole
  generalize t.messages.dropWhile (·.id != anchor) = upper at isWhole
  rw [← isWhole] at heldOnce ⊢
  refine laidOver_append heldOnce (laidInGap_laidOver ?_ (rowsOnce.sublist (List.filter_sublist.map _)))
  rw [idsOf_append, List.nodup_append] at heldOnce
  exact heldOnce.1

theorem legacyGapPage_gaps {anchor gap : String}
    (isOpen : gap ∈ (legacyGapPage t input anchor).legacyGaps) :
    gap ∈ t.legacyGaps ∨ (anchor ∈ idsOf t.messages ∧ gap ∈ idsOf input.rows) := by
  have stands : gap ∈ t.legacyGaps.filter (· != anchor) → gap ∈ t.legacyGaps := fun isOther =>
    (List.mem_filter.mp isOther).1
  by_cases isHeld : anchor ∈ idsOf t.messages
  · have isGaps : ∃ closed : Bool, (legacyGapPage t input anchor).legacyGaps =
        bif closed then t.legacyGaps.filter (· != anchor)
        else t.legacyGaps.filter (· != anchor) ++
          ((freshOf (t.messages.takeWhile (·.id != anchor))
            (freshOf (t.messages.dropWhile (·.id != anchor)) input.rows)).head?.map (·.id)).toList := by
      unfold legacyGapPage
      dsimp only
      rw [any_id_eq_true.mpr isHeld]
      exact ⟨_, (Bool.cond_eq_ite ..).symm⟩
    obtain ⟨closed, isGaps⟩ := isGaps
    rw [isGaps] at isOpen
    cases closed with
    | true => exact Or.inl (stands isOpen)
    | false =>
      rcases List.mem_append.mp isOpen with isOther | isNew
      · exact Or.inl (stands isOther)
      · obtain ⟨row, isHead, rfl⟩ := Option.map_eq_some_iff.mp (Option.mem_toList.mp isNew)
        have isFresh := (mem_freshOf.mp (List.mem_of_mem_head? isHead)).1
        exact Or.inr ⟨isHeld, mem_idsOf.mpr ⟨row, (mem_freshOf.mp isFresh).1, rfl⟩⟩
  · have isGaps : (legacyGapPage t input anchor).legacyGaps = t.legacyGaps.filter (· != anchor) := by
      unfold legacyGapPage
      dsimp only
      rw [Bool.eq_false_iff.mpr fun isAnchor => isHeld (any_id_eq_true.mp isAnchor)]
      rfl
    rw [isGaps] at isOpen
    exact Or.inl (stands isOpen)

/-! ## A newest page or a statement -/

theorem legacyPage_messages (isTaken : (t.messagesUnloaded && !input.vouched) = false) :
    (legacyPage t input).messages =
      legacyUnion (if t.messagesUnloaded then [] else t.messages) input.rows false := by
  unfold legacyPage
  rw [isTaken]
  rfl

theorem legacyPage_gaps_eq (isTaken : (t.messagesUnloaded && !input.vouched) = false) :
    ∃ standing : List String, (∀ id ∈ standing, t.messagesUnloaded = false ∧ id ∈ t.legacyGaps) ∧
      ∃ moved : List String, moved = (standing.flatMap fun id => if (idsOf input.rows).contains id then
          (input.rows.head?.map (·.id)).toList else [id]).eraseDups ∧
        ∃ disjoint : Bool, (legacyPage t input).legacyGaps =
          bif disjoint then moved ++ (input.rows.head?.map (·.id)).toList else moved := by
  refine ⟨if t.messagesUnloaded then [] else t.legacyGaps.filter fun id =>
    !closedByPage (if t.messagesUnloaded then [] else t.messages) id (idsOf input.rows)
      (input.hasMore == some true), ?_, _, rfl, ?_⟩
  · intro id isId
    cases isUnloaded : t.messagesUnloaded with
    | true =>
      rw [isUnloaded] at isId
      exact absurd isId List.not_mem_nil
    | false =>
      rw [isUnloaded] at isId
      exact ⟨rfl, (List.mem_filter.mp isId).1⟩
  · unfold legacyPage
    rw [isTaken]
    exact ⟨_, (Bool.cond_eq_ite ..).symm⟩

theorem legacyPage_gaps {gap : String} (isTaken : (t.messagesUnloaded && !input.vouched) = false)
    (isOpen : gap ∈ (legacyPage t input).legacyGaps) :
    (t.messagesUnloaded = false ∧ gap ∈ t.legacyGaps) ∨ gap ∈ idsOf input.rows := by
  have isOldest : gap ∈ (input.rows.head?.map (·.id)).toList → gap ∈ idsOf input.rows := by
    intro isNew
    obtain ⟨row, isHead, rfl⟩ := Option.map_eq_some_iff.mp (Option.mem_toList.mp isNew)
    exact mem_idsOf.mpr ⟨row, List.mem_of_mem_head? isHead, rfl⟩
  obtain ⟨standing, wasOpen, moved, isMoved, disjoint, isGaps⟩ := legacyPage_gaps_eq isTaken
  have wasMoved : gap ∈ moved → (t.messagesUnloaded = false ∧ gap ∈ t.legacyGaps) ∨ gap ∈ idsOf input.rows := by
    intro isGap
    rw [isMoved] at isGap
    obtain ⟨id, isStanding, isId⟩ := List.mem_flatMap.mp (List.mem_eraseDups.mp isGap)
    split_ifs at isId with isCarried
    · exact Or.inr (isOldest isId)
    · rw [List.mem_singleton] at isId
      exact Or.inl (isId ▸ wasOpen id isStanding)
  rw [isGaps] at isOpen
  cases disjoint with
  | true =>
    rcases List.mem_append.mp isOpen with isGap | isNew
    · exact wasMoved isGap
    · exact Or.inr (isOldest isNew)
  | false => exact wasMoved isOpen

/-! ## Every input -/

theorem gap_stands {rows after : List (Message Content)} {gap : String}
    (isLaid : LaidOver t.messages rows after) (wasOpen : gap ∈ t.legacyGaps) :
    gap ∈ idsOf after ∨ (gap ∈ t.legacyGaps ∧ gap ∉ idsOf t.messages) := by
  by_cases isHeld : gap ∈ idsOf t.messages
  · obtain ⟨row, isRow, rfl⟩ := mem_idsOf.mp isHeld
    exact Or.inl (mem_idsOf.mpr ⟨row, isLaid.kept row isRow, rfl⟩)
  · exact Or.inr ⟨wasOpen, isHeld⟩

theorem gap_carried {base rows after : List (Message Content)} {gap : String} (isLaid : LaidOver base rows after)
    (isCarried : gap ∈ idsOf rows) : gap ∈ idsOf after := by
  obtain ⟨row, isRow, rfl⟩ := mem_idsOf.mp isCarried
  exact isLaid.carried row isRow

/-- What an input leaves: nothing where it is dropped, else it is laid over the held rows, and the gaps are
those of held rows, but for ones that were of none. -/
structure LosesNothing (t : SeqTranscript Content) (input : TranscriptInput Content)
    (after : SeqTranscript Content) : Prop where
  dropped : Dropped t input → after.messages = t.messages
  laid : ¬Dropped t input → LaidOver (baseOf t input) input.rows after.messages
  beside : Beside t input → t.messages.Sublist after.messages
  gaps : ∀ gap ∈ after.legacyGaps, gap ∈ idsOf after.messages ∨ (gap ∈ t.legacyGaps ∧ gap ∉ idsOf t.messages)

section

variable {t : SeqTranscript Content} {input : TranscriptInput Content}

theorem legacyLive_losesNothing (isLive : input.kind = .live) (heldOnce : (idsOf t.messages).Nodup)
    (rowsOnce : (idsOf input.rows).Nodup) : LosesNothing t input (legacyLive t input) := by
  have isBase : baseOf t input = t.messages := by
    unfold baseOf
    rw [isLive]
  have isDropped : Dropped t input ↔ t.messagesUnloaded = true := by
    unfold Dropped
    rw [isLive]
  have isLaid : LaidOver t.messages input.rows (t.messages ++ freshOf t.messages input.rows) :=
    laidOver_of_sublist heldOnce rowsOnce (List.Perm.refl _) (List.sublist_append_left _ _)
  unfold legacyLive
  cases isUnloaded : t.messagesUnloaded with
  | true =>
    refine ⟨fun _ => rfl, fun notDropped => absurd (isDropped.mpr isUnloaded) notDropped,
      fun _ => List.Sublist.refl _, fun gap wasOpen => ?_⟩
    by_cases isHeld : gap ∈ idsOf t.messages
    · exact Or.inl isHeld
    · exact Or.inr ⟨wasOpen, isHeld⟩
  | false =>
    refine ⟨fun dropped => ?_, fun _ => isBase ▸ isLaid, fun _ => List.sublist_append_left _ _,
      fun gap wasOpen => gap_stands isLaid wasOpen⟩
    exact nomatch (isDropped.mp dropped).symm.trans isUnloaded

theorem legacyOlder_losesNothing (isOlder : input.kind = .older) (heldOnce : (idsOf t.messages).Nodup)
    (rowsOnce : (idsOf input.rows).Nodup) : LosesNothing t input (legacyOlder t input) := by
  have isBase : baseOf t input = t.messages := by
    unfold baseOf
    rw [isOlder]
  have isDropped : Dropped t input ↔
      ∃ anchor ∈ t.legacyGaps, input.before = some anchor ∧ anchor ∉ idsOf t.messages := by
    unfold Dropped
    rw [isOlder]
  unfold legacyOlder
  cases isGap : input.before.filter t.legacyGaps.contains with
  | none =>
    have isLaid : LaidOver t.messages input.rows (freshOf t.messages input.rows ++ t.messages) :=
      laidOver_of_sublist heldOnce rowsOnce List.perm_append_comm (List.sublist_append_right _ _)
    refine ⟨fun dropped => ?_, fun _ => isBase ▸ isLaid, fun _ => List.sublist_append_right _ _,
      fun gap wasOpen => gap_stands isLaid wasOpen⟩
    obtain ⟨anchor, isOpen, isBefore, -⟩ := isDropped.mp dropped
    rw [isBefore, Option.filter_some_pos (List.contains_iff_mem.mpr isOpen)] at isGap
    exact nomatch isGap
  | some anchor =>
    obtain ⟨isBefore, isOpen⟩ := Option.filter_eq_some_iff.mp isGap
    have notBeside : ¬Beside t input := by
      rintro (isLive | ⟨-, noGap⟩)
      · exact nomatch isOlder.symm.trans isLive
      · exact nomatch isGap.symm.trans noGap
    dsimp only
    by_cases isHeld : anchor ∈ idsOf t.messages
    · have isLaid : LaidOver t.messages input.rows (legacyGapPage t input anchor).messages :=
        legacyGapPage_laidOver heldOnce rowsOnce isHeld
      refine ⟨fun dropped => ?_, fun _ => isBase ▸ isLaid, fun beside => absurd beside notBeside,
        fun gap wasOpen => ?_⟩
      · obtain ⟨other, -, isOther, notHeld⟩ := isDropped.mp dropped
        obtain rfl := Option.some.inj (isBefore.symm.trans isOther)
        exact absurd isHeld notHeld
      · rcases legacyGapPage_gaps wasOpen with wasOpen | ⟨-, isCarried⟩
        · exact gap_stands isLaid wasOpen
        · exact Or.inl (gap_carried isLaid isCarried)
    · have isSame : (legacyGapPage t input anchor).messages = t.messages := by
        unfold legacyGapPage
        dsimp only
        rw [Bool.eq_false_iff.mpr fun isAnchor => isHeld (any_id_eq_true.mp isAnchor)]
        rfl
      refine ⟨fun _ => isSame, fun notDropped => ?_, fun beside => absurd beside notBeside,
        fun gap wasOpen => ?_⟩
      · refine absurd (isDropped.mpr ⟨anchor, ?_, isBefore, isHeld⟩) notDropped
        exact List.contains_iff_mem.mp isOpen
      · rw [isSame]
        rcases legacyGapPage_gaps wasOpen with wasOpen | ⟨isAnchor, -⟩
        · by_cases isHeldGap : gap ∈ idsOf t.messages
          · exact Or.inl isHeldGap
          · exact Or.inr ⟨wasOpen, isHeldGap⟩
        · exact absurd isAnchor isHeld

theorem legacyPage_losesNothing (isPage : input.kind = .newest ∨ input.kind = .statement)
    (heldOnce : (idsOf t.messages).Nodup) (rowsOnce : (idsOf input.rows).Nodup) :
    LosesNothing t input (legacyPage t input) := by
  have isBase : baseOf t input = if t.messagesUnloaded && input.vouched then [] else t.messages := by
    unfold baseOf
    rcases isPage with isKind | isKind <;> rw [isKind]
  have isDropped : Dropped t input ↔ t.messagesUnloaded = true ∧ input.vouched = false := by
    unfold Dropped
    rcases isPage with isKind | isKind <;> rw [isKind]
  have notBeside : ¬Beside t input := by
    rintro (isLive | ⟨isOlder, -⟩)
    · rcases isPage with isKind | isKind <;> exact nomatch isKind.symm.trans isLive
    · rcases isPage with isKind | isKind <;> exact nomatch isKind.symm.trans isOlder
  cases isTaken : t.messagesUnloaded && !input.vouched with
  | true =>
    have isSame : legacyPage t input = t := by
      unfold legacyPage
      rw [isTaken]
      rfl
    rw [isSame]
    refine ⟨fun _ => rfl, fun notDropped => ?_, fun beside => absurd beside notBeside, fun gap wasOpen => ?_⟩
    · rw [Bool.and_eq_true, Bool.not_eq_true'] at isTaken
      exact absurd (isDropped.mpr isTaken) notDropped
    · by_cases isHeld : gap ∈ idsOf t.messages
      · exact Or.inl isHeld
      · exact Or.inr ⟨wasOpen, isHeld⟩
  | false =>
    have sameBase : (if t.messagesUnloaded then [] else t.messages) = baseOf t input := by
      rw [isBase]
      cases isUnloaded : t.messagesUnloaded with
      | false => rfl
      | true =>
        rw [isUnloaded, Bool.true_and, Bool.not_eq_false'] at isTaken
        rw [isTaken]
        rfl
    have baseOnce : (idsOf (baseOf t input)).Nodup := by
      rw [isBase]
      split_ifs
      · exact List.nodup_nil
      · exact heldOnce
    have isLaid : LaidOver (baseOf t input) input.rows (legacyPage t input).messages := by
      rw [legacyPage_messages isTaken, sameBase]
      exact legacyUnion_laidOver baseOnce rowsOnce false
    refine ⟨fun dropped => ?_, fun _ => isLaid, fun beside => absurd beside notBeside, fun gap wasOpen => ?_⟩
    · obtain ⟨isUnloaded, notVouched⟩ := isDropped.mp dropped
      rw [isUnloaded, notVouched] at isTaken
      exact nomatch isTaken
    · rcases legacyPage_gaps isTaken wasOpen with ⟨isLoaded, wasOpen⟩ | isCarried
      · have isHeldBase : baseOf t input = t.messages := by
          rw [← sameBase, isLoaded]
          rfl
        rw [isHeldBase] at isLaid
        exact gap_stands isLaid wasOpen
      · exact Or.inl (gap_carried isLaid isCarried)

end

/-- **No row is lost or doubled.** An input that is not dropped leaves every held row and every row of its own
once; the held rows stay in order where it is laid beside them or carries them in that order, and in any
case where it carries none between them; and each gap it leaves is one of a held row, but for gaps that
were of none before. -/
theorem legacyTranscriptInput_losesNothing (t : SeqTranscript Content) (input : TranscriptInput Content)
    (notPatch : input.kind ≠ .patch) (heldOnce : (idsOf t.messages).Nodup) (rowsOnce : (idsOf input.rows).Nodup) :
    LosesNothing t input (legacyTranscriptInput t input) := by
  unfold legacyTranscriptInput
  cases isKind : input.kind with
  | live => exact legacyLive_losesNothing isKind heldOnce rowsOnce
  | patch => exact absurd isKind notPatch
  | older => exact legacyOlder_losesNothing isKind heldOnce rowsOnce
  | newest => exact legacyPage_losesNothing (Or.inl isKind) heldOnce rowsOnce
  | statement => exact legacyPage_losesNothing (Or.inr isKind) heldOnce rowsOnce

/-! ## What stays out -/

def legacyRow (id : String) : Message Unit where
  id := id
  seq := none
  unvouched := false
  content := ()

def heldRows : SeqTranscript Unit where
  messages := ["a", "x", "b", "y"].map legacyRow

def turnedPage : TranscriptInput Unit where
  kind := .newest
  rows := ["b", "a"].map legacyRow
  vouched := true

/-- A gap of no held row, and an older page asked before it. -/
def strayGap : SeqTranscript Unit where
  messages := [legacyRow "a"]
  legacyGaps := ["g"]

def strayPage : TranscriptInput Unit where
  kind := .older
  rows := [legacyRow "o"]
  vouched := true
  before := some "g"

def strayLive : TranscriptInput Unit where
  kind := .live
  rows := [legacyRow "n"]
  vouched := true

def markedUnloaded : SeqTranscript Unit where
  messages := [legacyRow "a"]
  messagesUnloaded := true

/-- A page that turns two held rows round turns round what stands behind them; a gap of no held row stays,
and the page asked for it is dropped; and a page that loads an unloaded transcript forgets its rows. -/
theorem legacyTranscriptInput_exceptions :
    idsOf (legacyTranscriptInput heldRows turnedPage).messages = ["b", "y", "a", "x"] ∧
      (legacyTranscriptInput strayGap strayLive).legacyGaps = ["g"] ∧
      idsOf (legacyTranscriptInput strayGap strayPage).messages = ["a"] ∧
      idsOf (legacyTranscriptInput markedUnloaded
        { turnedPage with rows := [legacyRow "c"] }).messages = ["c"] := by
  refine ⟨by decide, by decide, by decide, by decide⟩

/-- An older page laid into the gap it was asked for. -/
theorem legacyTranscriptInput_losesNothing_example :
    let t : SeqTranscript Unit :=
      { messages := ["a", "b", "g"].map legacyRow
        legacyGaps := ["g"] }
    let input : TranscriptInput Unit :=
      { kind := .older
        rows := ["b", "c", "d"].map legacyRow
        vouched := true
        before := some "g" }
    idsOf (legacyTranscriptInput t input).messages = ["a", "b", "c", "d", "g"] ∧
      LosesNothing t input (legacyTranscriptInput t input) :=
  ⟨by decide, legacyTranscriptInput_losesNothing _ _ (by decide) (by decide) (by decide)⟩

end Murage.Transcript
