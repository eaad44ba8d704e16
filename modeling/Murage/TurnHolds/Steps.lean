import Murage.TurnHolds.Log

/-!
Owns the invariant of the database under careful steps: the index stays complete, the log stays
above the logs before it, and no line that ended a range moves to an earlier place.
-/

namespace Murage.TurnHolds

open Relation Murage.Library Murage.Library.Links

variable {json : String → Option Fields} {world next : World} {key : Key} {role : Role}
  {text : String}

/-! ## The invariant -/

/-- **The invariant of the database.** -/
structure Sound (json : String → Option Fields) (world : World) : Prop where
  distinct : (world.lines.map (·.key)).Nodup
  begun : world.made = true → world.holds ≠ []
  above : ∀ hold ∈ world.holds, world.highest < hold.seq
  filled : world.filled = true → world.made = true ∧ Complete json world.lines world.edges
  since : ∀ range ∈ world.taken, range.since ≤ max world.highest world.holdLogNow
  place : ∀ range ∈ world.taken, ∀ line ∈ world.lines, line.key = range.last →
    range.position ≤ line.position

theorem find_some {line : Line} (found : world.find key = some line) :
    line ∈ world.lines ∧ line.key = key :=
  ⟨List.mem_of_find?_eq_some found, by simpa using List.find?_some found⟩

theorem find_none (missing : world.find key = none) {line : Line} (isIn : line ∈ world.lines) :
    line.key ≠ key := by
  simpa using List.find?_eq_none.mp missing line isIn

theorem find_of_mem (distinct : (world.lines.map (·.key)).Nodup) {line : Line}
    (isIn : line ∈ world.lines) : world.find line.key = some line := by
  cases found : world.find line.key with
  | none => exact absurd rfl (find_none found isIn)
  | some other =>
    obtain ⟨isOther, same⟩ := find_some found
    rw [line_eq_of_key distinct isOther isIn same]

theorem newPosition_gt {line : Line} (isIn : line ∈ world.lines) :
    line.position < world.newPosition :=
  Nat.lt_succ_of_le (Numbers.le_top (List.mem_map_of_mem isIn))

theorem Sound.highest_lt (sound : Sound json world) (isMade : world.made = true) :
    world.highest < world.holdLogNow := by
  obtain ⟨hold, rest, isLog⟩ := List.exists_cons_of_ne_nil (sound.begun isMade)
  have isIn : hold ∈ world.holds := by
    rw [isLog]
    exact List.mem_cons_self
  exact Nat.lt_of_lt_of_le (sound.above hold isIn) (Numbers.le_top (List.mem_map_of_mem isIn))

theorem Sound.logs (sound : Sound json world) (isMade : world.made = true)
    (logs : Logs world next) : Sound json next where
  distinct := by rw [logs.lines]; exact sound.distinct
  begun := by
    intro isMade
    rw [logs.made] at isMade
    obtain ⟨more, isMore, -⟩ := logs.kept
    rw [isMore]
    exact fun empty => sound.begun isMade (List.append_eq_nil_iff.mp empty).1
  above := by
    intro hold isIn
    rw [logs.highest]
    obtain ⟨more, isMore, isNew⟩ := logs.kept
    rw [isMore] at isIn
    rcases List.mem_append.mp isIn with old | isAdded
    · exact sound.above hold old
    · exact Nat.lt_trans (sound.highest_lt isMade) (isNew hold isAdded)
  filled := by
    intro isFilled
    rw [logs.filled] at isFilled
    rw [logs.made, logs.lines, logs.edges]
    exact sound.filled isFilled
  since := by
    intro range isIn
    rw [logs.taken] at isIn
    rw [logs.highest]
    exact (sound.since range isIn).trans (max_le_max (Nat.le_refl _) logs.onward)
  place := by
    intro range isIn
    rw [logs.taken] at isIn
    rw [logs.lines]
    exact sound.place range isIn

/-! ## Steps -/

theorem Sound.store (sound : Sound json world)
    (covers : world.filled = true → Covers json world key text)
    (placed : StoredLater world key) :
    Sound json (storeLine json key role text world.newPosition world) where
  distinct := by
    show ((storedLines (Line.mk key world.newPosition role text) world.lines).map (·.key)).Nodup
    rw [storedLines, List.map_append, List.nodup_append]
    refine ⟨sound.distinct.sublist (List.filter_sublist.map _), List.nodup_singleton _, ?_⟩
    intro kept isKept other isOther same
    obtain ⟨line, isIn, rfl⟩ := List.mem_map.mp isKept
    obtain rfl := List.mem_singleton.mp isOther
    exact of_decide_eq_true (List.mem_filter.mp isIn).2 same
  begun := sound.begun
  above := sound.above
  filled := by
    intro isFilled
    obtain ⟨isMade, complete⟩ := sound.filled isFilled
    refine ⟨isMade, ?_⟩
    show Complete json (storedLines (Line.mk key world.newPosition role text) world.lines)
      (if world.made then indexCopies json (Line.mk key world.newPosition role text) world.edges
        else world.edges)
    rw [if_pos isMade]
    exact complete.store (Line.mk key world.newPosition role text) (covers isFilled)
  since := sound.since
  place := by
    intro range isTaken line isIn isLast
    have isIn : line ∈ storedLines (Line.mk key world.newPosition role text) world.lines := isIn
    rcases mem_storedLines.mp isIn with ⟨before, -⟩ | rfl
    · exact sound.place range isTaken line before isLast
    · exact placed range isTaken isLast.symm

theorem Sound.insert (sound : Sound json world)
    (careful : Careful json world (.insert key role text)) :
    Sound json (insertLine json key role text world) := by
  unfold insertLine
  cases found : world.find key with
  | some old => exact sound
  | none =>
    obtain ⟨covers, placed⟩ := careful found
    exact sound.store covers placed

/-- What is there when a line that is replaced has been logged. -/
def heldForReplace (key : Key) (world : World) : World :=
  match world.find key with
  | some old =>
    if world.made && decide (old.role ≠ .user) then
      (world.hold old.key.thread old.position).holdCopies key
    else world
  | none => world

theorem replaceLine_eq :
    replaceLine json key role text world =
      storeLine json key role text world.newPosition (heldForReplace key world) := rfl

theorem heldForReplace_logs (key : Key) (world : World) : Logs world (heldForReplace key world) := by
  unfold heldForReplace
  split
  · split
    · exact holdBoth_logs _ _ _ _
    · exact Logs.refl world
  · exact Logs.refl world

theorem heldForReplace_eq (notMade : world.made = false) : heldForReplace key world = world := by
  unfold heldForReplace
  split
  · rw [notMade]
    rfl
  · rfl

theorem Sound.replace (sound : Sound json world)
    (careful : Careful json world (.replace key role text)) :
    Sound json (replaceLine json key role text world) := by
  obtain ⟨covers, placed, -⟩ := careful
  have logs := heldForReplace_logs key world
  have held : Sound json (heldForReplace key world) := by
    cases isMade : world.made with
    | true => exact sound.logs isMade logs
    | false =>
      rw [heldForReplace_eq isMade]
      exact sound
  have samePosition : (heldForReplace key world).newPosition = world.newPosition := by
    rw [World.newPosition, logs.lines, World.newPosition]
  rw [replaceLine_eq, ← samePosition]
  refine held.store ?_ ?_
  · intro isFilled
    rw [logs.filled] at isFilled
    unfold Covers
    rw [logs.lines, logs.edges]
    exact covers isFilled
  · intro range isTaken isLast
    rw [logs.taken] at isTaken
    rw [samePosition]
    cases found : world.find key with
    | none => exact placed found range isTaken isLast
    | some old =>
      obtain ⟨isIn, isKey⟩ := find_some found
      have before := sound.place range isTaken old isIn (isKey.trans isLast.symm)
      exact before.trans (newPosition_gt isIn).le

/-- The database with a line written anew, before the trigger. -/
def withUpdated (key : Key) (role : Role) (text : String) (world : World) : World :=
  { world with lines := updatedLines key role text world.lines }

theorem updateLine_eq {old : Line} (found : world.find key = some old) :
    updateLine json key role text world =
      if world.made && decide (role ≠ .user) && takesAway json old.json text then
        ((withUpdated key role text world).hold key.thread old.position).holdCopies key
      else withUpdated key role text world := by
  rw [updateLine, found]
  rfl

theorem Sound.update (sound : Sound json world)
    (careful : Careful json world (.update key role text)) :
    Sound json (updateLine json key role text world) := by
  cases found : world.find key with
  | none =>
    rw [updateLine, found]
    exact sound
  | some old =>
    obtain ⟨-, covers, -⟩ := careful old found
    obtain ⟨isOld, isKey⟩ := find_some found
    have written : Sound json (withUpdated key role text world) := by
      refine ⟨?_, sound.begun, sound.above, fun isFilled => ?_, sound.since, ?_⟩
      · have sameKeys : (updatedLines key role text world.lines).map (·.key) =
            world.lines.map (·.key) := by
          rw [updatedLines, List.map_map]
          refine List.map_congr_left fun line _ => ?_
          show (if line.key = key then _ else line).key = line.key
          split <;> rfl
        rw [withUpdated, sameKeys]
        exact sound.distinct
      · obtain ⟨isMade, complete⟩ := sound.filled isFilled
        refine ⟨isMade, ?_⟩
        rcases covers isFilled with same | ⟨covered, coveredSelf⟩
        · refine complete.update_same fun line isIn isIt => ?_
          rw [line_eq_of_key sound.distinct isIn isOld (isIt.trans isKey.symm)]
          exact same
        · exact complete.update covered coveredSelf
      · intro range isTaken line isIn isLast
        obtain ⟨before, isBefore, sameKey, samePlace, -⟩ := mem_updatedLines isIn
        rw [samePlace]
        exact sound.place range isTaken before isBefore (sameKey.symm.trans isLast)
    rw [updateLine_eq found]
    split
    · rename_i fires
      have isMade : world.made = true := by
        simp only [Bool.and_eq_true] at fires
        exact fires.1.1
      exact written.logs isMade (holdBoth_logs _ _ _ _)
    · exact written

def withoutLine (key : Key) (world : World) : World :=
  { world with lines := world.lines.filter (·.key ≠ key) }

def withoutEdges (key : Key) (world : World) : World :=
  { world with edges := world.edges.filter fun edge => edge.origin ≠ key ∧ edge.copy ≠ key }

theorem deleteLine_eq {old : Line} (found : world.find key = some old) :
    deleteLine key world =
      if world.made then withoutEdges key ((withoutLine key world).holdCopies key)
      else withoutLine key world := by
  rw [deleteLine, found]
  rfl

theorem Sound.delete (sound : Sound json world) (key : Key) :
    Sound json (deleteLine key world) := by
  cases found : world.find key with
  | none =>
    rw [deleteLine, found]
    exact sound
  | some old =>
    have distinct : ((world.lines.filter (·.key ≠ key)).map (·.key)).Nodup :=
      sound.distinct.sublist (List.filter_sublist.map _)
    have place : ∀ range ∈ world.taken, ∀ line ∈ world.lines.filter (·.key ≠ key),
        line.key = range.last → range.position ≤ line.position :=
      fun range isTaken line isIn =>
        sound.place range isTaken line (List.mem_filter.mp isIn).1
    rw [deleteLine_eq found]
    split
    · rename_i isMade
      have logs := holdCopies_logs key (withoutLine key world)
      obtain ⟨more, isMore, isNew⟩ := logs.kept
      have begun : ((withoutLine key world).holdCopies key).holds ≠ [] := by
        rw [isMore]
        exact fun empty => sound.begun isMade (List.append_eq_nil_iff.mp empty).1
      refine ⟨?_, fun _ => begun, ?_, fun isFilled => ?_, ?_, ?_⟩
      · show (((withoutLine key world).holdCopies key).lines.map (·.key)).Nodup
        rw [logs.lines]
        exact distinct
      · intro hold isIn
        show ((withoutLine key world).holdCopies key).highest < hold.seq
        rw [logs.highest]
        have isIn : hold ∈ ((withoutLine key world).holdCopies key).holds := isIn
        rw [isMore] at isIn
        rcases List.mem_append.mp isIn with isOld | isAdded
        · exact sound.above hold isOld
        · exact Nat.lt_trans (sound.highest_lt isMade) (isNew hold isAdded)
      · have isFilled : ((withoutLine key world).holdCopies key).filled = true := isFilled
        rw [logs.filled] at isFilled
        refine ⟨?_, ?_⟩
        · show ((withoutLine key world).holdCopies key).made = true
          rw [logs.made]
          exact isMade
        · show Complete json ((withoutLine key world).holdCopies key).lines
            (((withoutLine key world).holdCopies key).edges.filter
              fun edge => edge.origin ≠ key ∧ edge.copy ≠ key)
          rw [logs.lines, logs.edges]
          exact (sound.filled isFilled).2.delete key
      · intro range isIn
        have isIn : range ∈ ((withoutLine key world).holdCopies key).taken := isIn
        rw [logs.taken] at isIn
        show range.since ≤ max ((withoutLine key world).holdCopies key).highest
          ((withoutLine key world).holdCopies key).holdLogNow
        rw [logs.highest]
        exact (sound.since range isIn).trans (max_le_max (Nat.le_refl _) logs.onward)
      · intro range isIn line isLine
        have isIn : range ∈ ((withoutLine key world).holdCopies key).taken := isIn
        have isLine : line ∈ ((withoutLine key world).holdCopies key).lines := isLine
        rw [logs.taken] at isIn
        rw [logs.lines] at isLine
        exact place range isIn line isLine
    · rename_i notMade
      refine ⟨distinct, sound.begun, sound.above, fun isFilled => ?_, sound.since, place⟩
      exact absurd (sound.filled isFilled).1 notMade

theorem holdForgotten_logs (world : World) (key : Key) : Logs world (holdForgotten world key) := by
  unfold holdForgotten
  split
  · exact Logs.refl world
  · split
    · exact Logs.refl world
    · exact holdBoth_logs _ _ _ _

theorem forgotten_logs (keys : List Key) (world : World) :
    Logs world (keys.foldl holdForgotten world) := by
  induction keys generalizing world with
  | nil => exact Logs.refl world
  | cons key rest ih =>
    exact (holdForgotten_logs world key).trans (ih _)

theorem Sound.forget (sound : Sound json world) (sourceOf : String → Option Key)
    (sourceIds : List String) : Sound json (holdForgottenSources sourceOf sourceIds world) := by
  unfold holdForgottenSources
  split
  · rename_i isMade
    exact sound.logs isMade (forgotten_logs _ world)
  · exact sound

theorem newest_spec {threadId : String} {line : Line}
    (isNewest : world.newest threadId = some line) :
    line ∈ world.lines ∧ line.key.thread = threadId := by
  have isIn := List.mem_filter.mp (List.argmax_mem isNewest)
  exact ⟨isIn.1, of_decide_eq_true isIn.2⟩

theorem threadRangeNow_spec {threadId : String} {range : HeldRange}
    (isRange : threadRangeNow threadId world = some range) :
    world.made = true ∧ range.threadId = threadId ∧ range.since = world.holdLogNow ∧
      ∃ line ∈ world.lines, line.key = range.last ∧ line.position = range.position := by
  unfold threadRangeNow at isRange
  split at isRange
  · rename_i isMade
    obtain ⟨line, isNewest, rfl⟩ := Option.map_eq_some_iff.mp isRange
    obtain ⟨isIn, isThread⟩ := newest_spec isNewest
    refine ⟨isMade, rfl, rfl, line, isIn, ?_, rfl⟩
    cases line with
    | mk key position role json =>
      cases key
      simp_all [HeldRange.last]
  · exact absurd isRange.symm (Option.some_ne_none _)

theorem Sound.take (sound : Sound json world) (threadId : String) :
    Sound json { world with taken := world.taken ++ (threadRangeNow threadId world).toList } where
  distinct := sound.distinct
  begun := sound.begun
  above := sound.above
  filled := sound.filled
  since := by
    intro range member
    rcases List.mem_append.mp member with old | isNew
    · exact sound.since range old
    · obtain ⟨-, -, isSince, -⟩ := threadRangeNow_spec (Option.mem_toList.mp isNew)
      rw [isSince]
      exact le_max_right _ _
  place := by
    intro range member line isLine isLast
    rcases List.mem_append.mp member with old | isNew
    · exact sound.place range old line isLine isLast
    · obtain ⟨-, -, -, last, isIn, isKey, isPlace⟩ :=
        threadRangeNow_spec (Option.mem_toList.mp isNew)
      rw [line_eq_of_key sound.distinct isLine isIn (isLast.trans isKey.symm)]
      exact isPlace.ge

theorem Sound.make (sound : Sound json world) {now : Nat}
    (careful : Careful json world (.make now)) :
    Sound json (initializeTurnSourceHolds now world) := by
  by_cases isEmpty : world.holds = []
  · have later := careful isEmpty
    have isLog : (initializeTurnSourceHolds now world).holds =
        [{ seq := now * 1000
           thread := ""
           position := 0 }] := if_pos isEmpty
    refine ⟨sound.distinct, fun _ => ?_, ?_, fun isFilled => ?_, ?_, sound.place⟩
    · rw [isLog]
      exact List.cons_ne_nil _ _
    · intro hold isIn
      rw [isLog] at isIn
      rw [List.mem_singleton.mp isIn]
      exact later
    · exact ⟨rfl, (sound.filled isFilled).2⟩
    · intro range isIn
      have before := sound.since range isIn
      have noLog : world.holdLogNow = 0 := by rw [World.holdLogNow, isEmpty]; rfl
      rw [noLog] at before
      refine Nat.le_trans ?_ (le_max_left _ _)
      show range.since ≤ world.highest
      omega
  · have sameLog : (initializeTurnSourceHolds now world).holds = world.holds := if_neg isEmpty
    refine ⟨sound.distinct, fun _ => ?_, ?_, fun isFilled => ?_, ?_, sound.place⟩
    · rw [sameLog]
      exact isEmpty
    · rw [sameLog]
      exact sound.above
    · exact ⟨rfl, (sound.filled isFilled).2⟩
    · intro range isIn
      rw [World.holdLogNow, sameLog]
      exact sound.since range isIn

theorem Sound.fill (sound : Sound json world) (careful : Careful json world .fill) :
    Sound json (backfillTurnSourceCopies json world) := by
  unfold backfillTurnSourceCopies
  split
  · exact sound
  · rename_i goes
    have isMade : world.made = true := by
      simp only [Bool.or_eq_true, Bool.not_eq_true', not_or, Bool.not_eq_false] at goes
      exact goes.2
    refine ⟨sound.distinct, sound.begun, sound.above, fun _ => ⟨isMade, ?_⟩, sound.since,
      sound.place⟩
    exact complete_filled sound.distinct careful.2 careful.1

theorem Sound.drop (sound : Sound json world) : Sound json (drop world) where
  distinct := sound.distinct
  begun := fun isMade => Bool.noConfusion isMade
  above := fun _ isIn => absurd isIn List.not_mem_nil
  filled := fun isFilled => Bool.noConfusion isFilled
  since := fun range isIn => (sound.since range isIn).trans (le_max_left _ _)
  place := sound.place

/-- **Every careful step keeps the invariant.** -/
theorem Sound.step (sound : Sound json world) {event : Event}
    (careful : Careful json world event) : Sound json (step json world event) := by
  cases event with
  | insert key role text => exact sound.insert careful
  | replace key role text => exact sound.replace careful
  | update key role text => exact sound.update careful
  | delete key => exact sound.delete key
  | forget sourceOf sourceIds => exact sound.forget sourceOf sourceIds
  | take threadId => exact sound.take threadId
  | make now => exact sound.make careful
  | fill => exact sound.fill careful
  | drop => exact sound.drop

end Murage.TurnHolds
