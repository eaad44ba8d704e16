import Murage.UpgradeMachine.Holds

/-!
Owns whole sequences of events with what came before: the launches that were replaced, the
readings that were heard, and whether the work was said to be over.

Does not own: what one event does.
-/

namespace Murage.UpgradeMachine

open Murage.Library
open Murage.Library.Transition

/-! ## A sequence with its past -/

/-- The context with what came before: the launches replaced, oldest first, the readings of known
launches, and whether a reading said complete or LISTEN ready. -/
structure Traced where
  ctx : Context
  replaced : List String
  heard : List (String × Int)
  said : Bool

def Traced.start (family : Family) : Traced where
  ctx := initialContext family
  replaced := []
  heard := []
  said := false

def replacedBy (ctx : Context) (event : Event) : List String :=
  if (reduce ctx event).launch = ctx.launch then [] else ctx.launch.toList

def hears : Event → List (String × Int)
  | .reading _ s _ => s.launch.toList.map fun launch => (launch, s.seq)
  | _ => []

/-- A reading with complete true, or LISTEN ready. -/
def saysDone : Event → Bool
  | .reading _ s _ => s.complete = .yes
  | .listen _ ready => ready
  | _ => false

def trace (t : Traced) (event : Event) : Traced where
  ctx := reduce t.ctx event
  replaced := t.replaced ++ replacedBy t.ctx event
  heard := t.heard ++ hears event
  said := t.said || saysDone event

/-- A LISTEN that is not ready comes only after the word that the work is over, and a reading of a
launch that was replaced only for one of the last eight that were. -/
def Fair (t : Traced) : Event → Prop
  | .listen _ ready => ready = true ∨ t.said = true
  | .reading _ s _ => ∀ launch, s.launch = some launch → launch ∈ t.replaced → launch ∈ lastEight t.replaced
  | _ => True

/-! ## The launches of the past -/

theorem mem_of_mem_lastEight {launch : String} {launches : List String} (isIn : launch ∈ lastEight launches) :
    launch ∈ launches := List.mem_of_mem_drop isIn

theorem lastEight_append (earlier later : List String) :
    lastEight (lastEight earlier ++ later) = lastEight (earlier ++ later) := by
  unfold lastEight
  rw [List.length_append, List.length_drop, List.length_append]
  by_cases isLong : earlier.length ≤ 8
  · have isZero : earlier.length - 8 = 0 := by omega
    rw [isZero, List.drop_zero, Nat.sub_zero]
  · have isFront : earlier.length + later.length - 8 = (earlier.length - 8) + later.length := by omega
    have isBack : earlier.length - (earlier.length - 8) + later.length - 8 = later.length := by omega
    have isShort : earlier.length - 8 ≤ earlier.length := by omega
    have isTail : (earlier ++ later).drop (earlier.length - 8) = earlier.drop (earlier.length - 8) ++ later :=
      List.drop_append_of_le_length isShort
    rw [isFront, isBack, ← List.drop_drop, isTail]

/-- What holds along a fair sequence. -/
structure Sound (t : Traced) : Prop where
  nonneg : 0 ≤ t.ctx.overallHigh
  finishing : t.ctx.mode = .finishing → t.said = true
  beforeHold : t.ctx.modeBeforeHold = some .finishing → t.said = true
  retired : t.ctx.retired = lastEight t.replaced
  current : ∀ launch, t.ctx.launch = some launch → launch ∉ t.replaced
  heard : ∀ launch seq, (launch, seq) ∈ t.heard →
    launch ∈ t.replaced ∨ (t.ctx.launch = some launch ∧ seq ≤ t.ctx.seq)

theorem sound_start (family : Family) : Sound (Traced.start family) where
  nonneg := le_refl _
  finishing := (nomatch ·)
  beforeHold := (nomatch ·)
  retired := rfl
  current := fun _ isLaunch => nomatch isLaunch
  heard := fun _ _ isHeard => absurd isHeard List.not_mem_nil

variable {t : Traced}

theorem Sound.mem_retired (sound : Sound t) {launch : String} :
    launch ∈ t.ctx.retired ↔ launch ∈ lastEight t.replaced := by
  rw [sound.retired]

/-! ## Events that are no reading -/

variable {event : Event}

theorem Sound.other (sound : Sound t) (notReading : event.isReading = false) (fair : Fair t event) :
    Sound (trace t event) := by
  obtain ⟨sameLaunch, sameRetired, sameSeq, sameHigh, sameBefore⟩ := sameMarks_reduce t.ctx event notReading
  have noneReplaced : replacedBy t.ctx event = [] := if_pos sameLaunch
  have noneHeard : hears event = [] := by
    cases event with
    | reading time s copy => exact nomatch notReading
    | _ => rfl
  refine ⟨?_, ?_, ?_, ?_, ?_, ?_⟩
  · show 0 ≤ (reduce t.ctx event).overallHigh
    rw [sameHigh]
    exact sound.nonneg
  · intro isMode
    show (t.said || saysDone event) = true
    rcases reduce_finishing notReading isMode with wasFinishing | ⟨time, ready, rfl⟩
    · rw [sound.finishing wasFinishing, Bool.true_or]
    · rcases fair with isReady | isSaid
      · rw [show saysDone (.listen time ready) = ready from rfl, isReady, Bool.or_true]
      · rw [isSaid, Bool.true_or]
  · intro isBefore
    show (t.said || saysDone event) = true
    rw [sound.beforeHold (sameBefore.symm.trans isBefore), Bool.true_or]
  · show (reduce t.ctx event).retired = lastEight (t.replaced ++ replacedBy t.ctx event)
    rw [sameRetired, noneReplaced, List.append_nil]
    exact sound.retired
  · intro launch isLaunch
    show launch ∉ t.replaced ++ replacedBy t.ctx event
    rw [noneReplaced, List.append_nil]
    exact sound.current launch (sameLaunch.symm.trans isLaunch)
  · intro launch seq isHeard
    have wasHeard : (launch, seq) ∈ t.heard := by
      have isEither : (launch, seq) ∈ t.heard ++ hears event := isHeard
      rwa [noneHeard, List.append_nil] at isEither
    show launch ∈ t.replaced ++ replacedBy t.ctx event ∨
      ((reduce t.ctx event).launch = some launch ∧ seq ≤ (reduce t.ctx event).seq)
    rw [noneReplaced, List.append_nil, sameLaunch, sameSeq]
    exact sound.heard launch seq wasHeard

/-! ## Readings -/

theorem applied_said {ctx : Context} {said : Bool} (wasFinishing : ctx.mode = .finishing → said = true)
    (wasBefore : ctx.modeBeforeHold = some .finishing → said = true) (time : Int) (s : UpgradeState)
    (copy : Option Copy) (sameLaunch : Bool) :
    ((applyTo ctx s copy time sameLaunch).mode = .finishing →
        (said || saysDone (.reading time s copy)) = true) ∧
      ((applyTo ctx s copy time sameLaunch).modeBeforeHold = some .finishing →
        (said || saysDone (.reading time s copy)) = true) := by
  obtain ⟨-, -, -, -, isMode, isBefore⟩ := applyTo_marks ctx s copy time sameLaunch
  constructor
  · intro isFinishing
    rw [isMode] at isFinishing
    rcases modeAfter_finishing isFinishing with isComplete | was | was
    · rw [show saysDone (.reading time s copy) = decide (s.complete = .yes) from rfl, isComplete]
      exact Bool.or_true _
    · rw [wasFinishing was, Bool.true_or]
    · rw [wasBefore was, Bool.true_or]
  · intro isFinishing
    have hasBefore := (isBefore (by rw [isFinishing]; exact Option.some_ne_none _)).2
    rcases modeAfter_beforeHold (hasBefore.symm.trans isFinishing) with was | was
    · rw [wasFinishing was, Bool.true_or]
    · rw [wasBefore was, Bool.true_or]

theorem Sound.sameLaunch (sound : Sound t) (sameLaunch : (reduce t.ctx event).launch = t.ctx.launch)
    (sameRetired : (reduce t.ctx event).retired = t.ctx.retired)
    (isHigh : t.ctx.overallHigh ≤ (reduce t.ctx event).overallHigh)
    (isFinishing : (reduce t.ctx event).mode = .finishing → (t.said || saysDone event) = true)
    (isBefore : (reduce t.ctx event).modeBeforeHold = some .finishing → (t.said || saysDone event) = true)
    (isLater : t.ctx.seq ≤ (reduce t.ctx event).seq)
    (isHeard : ∀ launch seq, (launch, seq) ∈ hears event → launch ∈ t.replaced ∨
      (t.ctx.launch = some launch ∧ seq ≤ (reduce t.ctx event).seq)) : Sound (trace t event) := by
  have noneReplaced : replacedBy t.ctx event = [] := if_pos sameLaunch
  refine ⟨le_trans sound.nonneg isHigh, isFinishing, isBefore, ?_, ?_, ?_⟩
  · show (reduce t.ctx event).retired = lastEight (t.replaced ++ replacedBy t.ctx event)
    rw [sameRetired, noneReplaced, List.append_nil]
    exact sound.retired
  · intro launch isLaunch
    show launch ∉ t.replaced ++ replacedBy t.ctx event
    rw [noneReplaced, List.append_nil]
    exact sound.current launch (sameLaunch.symm.trans isLaunch)
  · intro launch seq isIn
    show launch ∈ t.replaced ++ replacedBy t.ctx event ∨
      ((reduce t.ctx event).launch = some launch ∧ seq ≤ (reduce t.ctx event).seq)
    rw [noneReplaced, List.append_nil, sameLaunch]
    rcases List.mem_append.mp isIn with wasHeard | isNew
    · rcases sound.heard launch seq wasHeard with isReplaced | ⟨isCurrent, isBelow⟩
      · exact Or.inl isReplaced
      · exact Or.inr ⟨isCurrent, le_trans isBelow isLater⟩
    · exact isHeard launch seq isNew

theorem Sound.newLaunch (sound : Sound t) {launch : String}
    (isLaunch : (reduce t.ctx event).launch = some launch) (isOther : t.ctx.launch ≠ some launch)
    (isNew : launch ∉ t.replaced)
    (isRetired : (reduce t.ctx event).retired = lastEight (t.ctx.retired ++ t.ctx.launch.toList))
    (nonneg : 0 ≤ (reduce t.ctx event).overallHigh)
    (isFinishing : (reduce t.ctx event).mode = .finishing → (t.said || saysDone event) = true)
    (isBefore : (reduce t.ctx event).modeBeforeHold = some .finishing → (t.said || saysDone event) = true)
    (isHeard : ∀ other seq, (other, seq) ∈ hears event → other = launch ∧ seq ≤ (reduce t.ctx event).seq) :
    Sound (trace t event) := by
  have isReplaced : replacedBy t.ctx event = t.ctx.launch.toList := by
    unfold replacedBy
    rw [if_neg (isLaunch ▸ Ne.symm isOther)]
  refine ⟨nonneg, isFinishing, isBefore, ?_, ?_, ?_⟩
  · show (reduce t.ctx event).retired = lastEight (t.replaced ++ replacedBy t.ctx event)
    rw [isRetired, isReplaced, sound.retired, lastEight_append]
  · intro found isFound
    obtain rfl := Option.some.inj (isFound.symm.trans isLaunch)
    show found ∉ t.replaced ++ replacedBy t.ctx event
    rw [isReplaced, List.mem_append, Option.mem_toList]
    rintro (wasReplaced | wasCurrent)
    · exact isNew wasReplaced
    · exact isOther wasCurrent
  · intro other seq isIn
    show other ∈ t.replaced ++ replacedBy t.ctx event ∨
      ((reduce t.ctx event).launch = some other ∧ seq ≤ (reduce t.ctx event).seq)
    rw [isReplaced, List.mem_append, Option.mem_toList]
    rcases List.mem_append.mp isIn with wasHeard | isSaid
    · rcases sound.heard other seq wasHeard with wasReplaced | ⟨wasCurrent, -⟩
      · exact Or.inl (Or.inl wasReplaced)
      · exact Or.inl (Or.inr wasCurrent)
    · obtain ⟨rfl, isBelow⟩ := isHeard other seq isSaid
      exact Or.inr ⟨isLaunch, isBelow⟩

theorem mem_hears {time : Int} {s : UpgradeState} {copy : Option Copy} {launch : String} {seq : Int} :
    (launch, seq) ∈ hears (.reading time s copy) ↔ s.launch = some launch ∧ seq = s.seq := by
  show (launch, seq) ∈ s.launch.toList.map (fun launch => (launch, s.seq)) ↔ _
  rw [List.mem_map]
  constructor
  · rintro ⟨found, isFound, isPair⟩
    obtain ⟨rfl, rfl⟩ := Prod.mk.inj isPair
    exact ⟨Option.mem_toList.mp isFound, rfl⟩
  · rintro ⟨isLaunch, rfl⟩
    exact ⟨launch, Option.mem_toList.mpr isLaunch, rfl⟩

theorem Sound.reading (sound : Sound t) {time : Int} {s : UpgradeState} {copy : Option Copy}
    (fair : Fair t (.reading time s copy)) : Sound (trace t (.reading time s copy)) := by
  obtain ⟨sameLaunch, sameRetired, sameSeq, sameHigh, sameBefore⟩ := sameMarks_touch t.ctx time
  have said : ∀ {ctx : Context}, ctx.mode = t.ctx.mode → ctx.modeBeforeHold = t.ctx.modeBeforeHold →
      (ctx.mode = .finishing → t.said = true) ∧ (ctx.modeBeforeHold = some .finishing → t.said = true) := by
    intro ctx isMode isBefore
    rw [isMode, isBefore]
    exact ⟨sound.finishing, sound.beforeHold⟩
  have stillSaid : t.said = true → (t.said || saysDone (.reading time s copy)) = true := fun isSaid => by
    rw [isSaid, Bool.true_or]
  rcases applyReading_cases t.ctx s copy time with ⟨isUnknown, isRead⟩ | ⟨launch, isLaunch,
    ⟨isRetired, isRead⟩ | ⟨notRetired, ctx, readIn, isRead⟩⟩
  · -- The launch is not known: the figures are applied, the marks stay.
    have isReduce : reduce t.ctx (.reading time s copy) = applyTo (touch t.ctx time) s copy time false := isRead
    obtain ⟨keepsLaunch, keepsRetired, keepsSeq, keepsHigh, -, -⟩ :=
      applyTo_marks (touch t.ctx time) s copy time false
    obtain ⟨wasFinishing, wasBefore⟩ := said (touch_mode t.ctx time) sameBefore
    obtain ⟨isFinishing, isBefore⟩ := applied_said wasFinishing wasBefore time s copy false
    rw [← isReduce] at keepsLaunch keepsRetired keepsSeq keepsHigh isFinishing isBefore
    refine sound.sameLaunch (keepsLaunch.trans sameLaunch) (keepsRetired.trans sameRetired)
      (le_trans sameHigh.ge keepsHigh) isFinishing isBefore (keepsSeq.trans sameSeq).ge ?_
    intro other seq isHeard
    rw [mem_hears, isUnknown] at isHeard
    exact nomatch isHeard.1
  · -- The launch is retired: the reading is ignored.
    have isReduce : reduce t.ctx (.reading time s copy) = ignore (touch t.ctx time) := isRead
    refine sound.sameLaunch (by rw [isReduce]; exact sameLaunch) (by rw [isReduce]; exact sameRetired)
      (by rw [isReduce]; exact sameHigh.ge) ?_ ?_ (by rw [isReduce]; exact sameSeq.ge) ?_
    · rw [isReduce]
      exact fun isMode => stillSaid (sound.finishing ((touch_mode t.ctx time).symm.trans isMode))
    · rw [isReduce]
      exact fun isBefore => stillSaid (sound.beforeHold (sameBefore.symm.trans isBefore))
    · intro other seq isHeard
      obtain ⟨isOther, -⟩ := mem_hears.mp isHeard
      obtain rfl := Option.some.inj (isLaunch.symm.trans isOther)
      exact Or.inl (mem_of_mem_lastEight (sound.mem_retired.mp isRetired))
  · have isNew : launch ∉ t.replaced := fun wasReplaced =>
      notRetired (sound.mem_retired.mpr (fair launch isLaunch wasReplaced))
    have hearsOnly : ∀ other seq, (other, seq) ∈ hears (.reading time s copy) →
        other = launch ∧ seq = s.seq := by
      intro other seq isHeard
      obtain ⟨isOther, isSeq⟩ := mem_hears.mp isHeard
      exact ⟨(Option.some.inj (isLaunch.symm.trans isOther)).symm, isSeq⟩
    -- The marks after the reading, from those of the context it is read in.
    have outcome : (reduce t.ctx (.reading time s copy)).launch = ctx.launch ∧
        (reduce t.ctx (.reading time s copy)).retired = ctx.retired ∧
        ctx.overallHigh ≤ (reduce t.ctx (.reading time s copy)).overallHigh ∧
        ctx.seq ≤ (reduce t.ctx (.reading time s copy)).seq ∧
        s.seq ≤ (reduce t.ctx (.reading time s copy)).seq ∧
        ((ctx.mode = .finishing → t.said = true) → (ctx.modeBeforeHold = some .finishing → t.said = true) →
          ((reduce t.ctx (.reading time s copy)).mode = .finishing →
              (t.said || saysDone (.reading time s copy)) = true) ∧
            ((reduce t.ctx (.reading time s copy)).modeBeforeHold = some .finishing →
              (t.said || saysDone (.reading time s copy)) = true)) := by
      rcases isRead with ⟨isOld, isRead⟩ | ⟨isFresh, isRead⟩
      · have isReduce : reduce t.ctx (.reading time s copy) = ignore ctx := isRead
        rw [isReduce]
        exact ⟨rfl, rfl, le_refl _, le_refl _, isOld.le, fun wasFinishing wasBefore =>
          ⟨fun isMode => stillSaid (wasFinishing isMode), fun isBefore => stillSaid (wasBefore isBefore)⟩⟩
      · have isReduce : reduce t.ctx (.reading time s copy) =
            applyTo { ctx with seq := s.seq } s copy time true := isRead
        obtain ⟨keepsLaunch, keepsRetired, keepsSeq, keepsHigh, -, -⟩ :=
          applyTo_marks { ctx with seq := s.seq } s copy time true
        rw [isReduce]
        refine ⟨keepsLaunch, keepsRetired, keepsHigh, ?_, ?_, fun wasFinishing wasBefore => ?_⟩
        · rw [keepsSeq]
          exact isFresh
        · exact keepsSeq.ge
        · have isSaid := @applied_said { ctx with seq := s.seq } t.said wasFinishing wasBefore time s copy true
          exact isSaid
    obtain ⟨isLaunchAfter, isRetiredAfter, isHighAfter, isSeqAfter, isHeardSeq, isSaidAfter⟩ := outcome
    cases readIn with
    | adopted isNull =>
      obtain ⟨wasFinishing, wasBefore⟩ := said (touch_mode t.ctx time) sameBefore
      obtain ⟨isFinishing, isBefore⟩ := isSaidAfter wasFinishing wasBefore
      have wasNull : t.ctx.launch = none := sameLaunch.symm.trans isNull
      refine sound.newLaunch isLaunchAfter ?_ isNew ?_ ?_ isFinishing isBefore fun other seq isHeard => ?_
      · rw [wasNull]
        exact nofun
      · rw [isRetiredAfter, wasNull]
        show (touch t.ctx time).retired = lastEight (t.ctx.retired ++ [])
        rw [sameRetired, sound.retired, List.append_nil]
        have isTwice := lastEight_append t.replaced []
        rw [List.append_nil, List.append_nil] at isTwice
        exact isTwice.symm
      · exact le_trans (sameHigh ▸ sound.nonneg) isHighAfter
      · obtain ⟨isSame, rfl⟩ := hearsOnly other seq isHeard
        exact ⟨isSame, isHeardSeq⟩
    | same isSame =>
      obtain ⟨wasFinishing, wasBefore⟩ := said (touch_mode t.ctx time) sameBefore
      obtain ⟨isFinishing, isBefore⟩ := isSaidAfter wasFinishing wasBefore
      refine sound.sameLaunch (isLaunchAfter.trans sameLaunch) (isRetiredAfter.trans sameRetired)
        (le_trans sameHigh.ge isHighAfter) isFinishing isBefore (le_trans sameSeq.ge isSeqAfter) ?_
      intro other seq isHeard
      obtain ⟨rfl, rfl⟩ := hearsOnly other seq isHeard
      exact Or.inr ⟨sameLaunch.symm.trans isSame, isHeardSeq⟩
    | @fresh current isCurrent isOther =>
      obtain ⟨isFinishing, isBefore⟩ := isSaidAfter (nomatch ·) (nomatch ·)
      have wasCurrent : t.ctx.launch = some current := sameLaunch.symm.trans isCurrent
      refine sound.newLaunch isLaunchAfter ?_ isNew ?_ ?_ isFinishing isBefore fun other seq isHeard => ?_
      · rw [wasCurrent]
        exact fun isSame => isOther (Option.some.inj isSame)
      · rw [isRetiredAfter]
        show lastEight ((touch t.ctx time).retired ++ (touch t.ctx time).launch.toList) = _
        rw [sameRetired, sameLaunch]
      · exact le_trans (le_refl (0 : ℚ)) isHighAfter
      · obtain ⟨isSame, rfl⟩ := hearsOnly other seq isHeard
        exact ⟨isSame, isHeardSeq⟩

/-- **One event** of a fair sequence. -/
theorem Sound.step (sound : Sound t) (fair : Fair t event) :
    Sound (trace t event) := by
  cases isReading : event.isReading with
  | false => exact sound.other isReading fair
  | true =>
    cases event with
    | reading time s copy => exact sound.reading fair
    | _ => exact nomatch isReading

/-! ## What the strip says -/

def shownPercent (ctx : Context) : Option Int := (selectStrip ctx).bind (·.percent)

def workingPercent (ctx : Context) : Option Int :=
  (selectStrip ctx).bind fun strip => if strip.kind = .working then strip.percent else none

/-- A reading of a launch that was replaced, or with a number below one that was heard. -/
def Stale (t : Traced) (s : UpgradeState) : Prop :=
  ∃ launch, s.launch = some launch ∧
    (launch ∈ t.replaced ∨ ∃ seq, (launch, seq) ∈ t.heard ∧ s.seq < seq)

/-- After the event a hundred is shown only if the work was said to be over, and a stale reading moves
the clock and counts as ignored. -/
def Truthful (t : Traced) (event : Event) : Prop :=
  (shownPercent (reduce t.ctx event) = some 100 → (trace t event).said = true) ∧
    ∀ time s copy, event = .reading time s copy → Stale t s →
      reduce t.ctx event = ignore (touch t.ctx time)

def SameLaunch (ctx : Context) (event : Event) : Prop := (reduce ctx event).launch = ctx.launch

theorem workingPercent_eq {ctx : Context} {percent : Int} (isPercent : workingPercent ctx = some percent) :
    ctx.mode ≠ .finishing ∧ percent = belowHundred ctx.overallHigh := by
  unfold workingPercent selectStrip at isPercent
  by_cases isHeld : ctx.mode = .held
  · rw [if_pos isHeld] at isPercent
    exact nomatch isPercent
  rw [if_neg isHeld] at isPercent
  by_cases isFinishing : ctx.mode = .finishing
  · rw [if_pos isFinishing] at isPercent
    exact nomatch isPercent
  rw [if_neg isFinishing] at isPercent
  refine ⟨isFinishing, ?_⟩
  by_cases isWorking : ctx.mode.isWorking = true
  · rw [if_pos isWorking] at isPercent
    have isShown : (if stale ctx && ctx.lastGoodAt.isSome ∨ ctx.step.unit = .open then none
        else percentOf ctx) = some percent := isPercent
    by_cases isHidden : stale ctx && ctx.lastGoodAt.isSome ∨ ctx.step.unit = .open
    · rw [if_pos isHidden] at isShown
      exact nomatch isShown
    rw [if_neg isHidden] at isShown
    unfold percentOf at isShown
    rw [if_neg fun isDone => isFinishing isDone.1] at isShown
    split_ifs at isShown
    exact (Option.some.inj isShown).symm
  · rw [if_neg isWorking] at isPercent
    split_ifs at isPercent <;> exact nomatch isPercent

theorem shownPercent_hundred {ctx : Context} (nonneg : 0 ≤ ctx.overallHigh) :
    shownPercent ctx = some 100 ↔ ctx.mode = .finishing := by
  constructor
  · intro isHundred
    by_contra notFinishing
    have isWorking : workingPercent ctx = some 100 := by
      unfold shownPercent selectStrip at isHundred
      unfold workingPercent selectStrip
      rw [if_neg notFinishing] at isHundred ⊢
      split_ifs at isHundred ⊢ <;> exact isHundred
    have isBelow := belowHundred_le ctx.overallHigh nonneg
    rw [← (workingPercent_eq isWorking).2] at isBelow
    exact absurd isBelow (by decide)
  · intro isFinishing
    unfold shownPercent selectStrip
    rw [if_neg (isFinishing ▸ nofun), if_pos isFinishing]
    rfl

/-! ## One event -/

theorem overallHigh_reduce {ctx : Context} (same : SameLaunch ctx event) :
    ctx.overallHigh ≤ (reduce ctx event).overallHigh := by
  cases event with
  | reading time s copy =>
    obtain ⟨sameLaunch, -, -, sameHigh, -⟩ := sameMarks_touch ctx time
    rcases applyReading_cases ctx s copy time with ⟨-, isRead⟩ | ⟨launch, -,
      ⟨-, isRead⟩ | ⟨-, read, readIn, isRead⟩⟩
    · have isReduce : reduce ctx (.reading time s copy) = applyTo (touch ctx time) s copy time false := isRead
      rw [isReduce]
      exact le_trans sameHigh.ge (applyTo_marks (touch ctx time) s copy time false).2.2.2.1
    · have isReduce : reduce ctx (.reading time s copy) = ignore (touch ctx time) := isRead
      rw [isReduce]
      exact sameHigh.ge
    · have isAfter : (reduce ctx (.reading time s copy)).launch = read.launch ∧
          read.overallHigh ≤ (reduce ctx (.reading time s copy)).overallHigh := by
        rcases isRead with ⟨-, isRead⟩ | ⟨-, isRead⟩
        · have isReduce : reduce ctx (.reading time s copy) = ignore read := isRead
          rw [isReduce]
          exact ⟨rfl, le_refl _⟩
        · have isReduce : reduce ctx (.reading time s copy) =
              applyTo { read with seq := s.seq } s copy time true := isRead
          obtain ⟨keepsLaunch, -, -, keepsHigh, -, -⟩ :=
            applyTo_marks { read with seq := s.seq } s copy time true
          rw [isReduce]
          exact ⟨keepsLaunch, keepsHigh⟩
      refine le_trans ?_ isAfter.2
      cases readIn with
      | adopted isNull => exact sameHigh.ge
      | same isSame => exact sameHigh.ge
      | @fresh current isCurrent isOther =>
        have isLaunch : some launch = ctx.launch := isAfter.1.symm.trans same
        rw [← sameLaunch, isCurrent] at isLaunch
        exact absurd (Option.some.inj isLaunch).symm isOther
  | _ => exact (sameMarks_reduce ctx _ rfl).high.ge

theorem Sound.stale_ignored (sound : Sound t) {time : Int} {s : UpgradeState} {copy : Option Copy}
    (fair : Fair t (.reading time s copy)) (stale : Stale t s) :
    reduce t.ctx (.reading time s copy) = ignore (touch t.ctx time) := by
  obtain ⟨sameLaunch, -, sameSeq, -, -⟩ := sameMarks_touch t.ctx time
  obtain ⟨launch, isLaunch, isStale⟩ := stale
  rcases applyReading_cases t.ctx s copy time with ⟨isUnknown, -⟩ | ⟨found, isFound,
    ⟨-, isRead⟩ | ⟨notRetired, read, readIn, isRead⟩⟩
  · exact nomatch isUnknown.symm.trans isLaunch
  · exact isRead
  · obtain rfl := Option.some.inj (isLaunch.symm.trans isFound)
    have isNew : launch ∉ t.replaced := fun wasReplaced =>
      notRetired (sound.mem_retired.mpr (fair launch isLaunch wasReplaced))
    rcases isStale with wasReplaced | ⟨seq, isHeard, isBelow⟩
    · exact absurd wasReplaced isNew
    rcases sound.heard launch seq isHeard with wasReplaced | ⟨isCurrent, isAtMost⟩
    · exact absurd wasReplaced isNew
    have wasCurrent : (touch t.ctx time).launch = some launch := sameLaunch.trans isCurrent
    cases readIn with
    | adopted isNull => exact nomatch isNull.symm.trans wasCurrent
    | same isSame =>
      rcases isRead with ⟨-, isRead⟩ | ⟨isFresh, -⟩
      · exact isRead
      · rw [sameSeq] at isFresh
        exact absurd (lt_of_lt_of_le isBelow isAtMost) (not_lt.mpr isFresh)
    | fresh isOther notSame => exact absurd (Option.some.inj (isOther.symm.trans wasCurrent)) notSame

/-- **One event.** In a state of a fair sequence an event is truthful exactly when it is fair. -/
theorem Sound.truthful_iff (sound : Sound t) (event : Event) : Truthful t event ↔ Fair t event := by
  constructor
  · rintro ⟨saidBefore, ignored⟩
    cases event with
    | listen time ready =>
      -- LISTEN shows a hundred, so the work was said to be over, now or before.
      have isSaid : (t.said || ready) = true := saidBefore rfl
      rcases Bool.or_eq_true_iff.mp isSaid with wasSaid | isReady
      · exact Or.inr wasSaid
      · exact Or.inl isReady
    | reading time s copy =>
      intro launch isLaunch wasReplaced
      have isIgnored := ignored time s copy rfl ⟨launch, isLaunch, Or.inl wasReplaced⟩
      have keepsLaunch : (reduce t.ctx (.reading time s copy)).launch = t.ctx.launch := by
        rw [isIgnored]
        exact (sameMarks_touch t.ctx time).launch
      by_contra notLast
      -- A launch that is no longer retired becomes the launch of the context.
      have becomes : (reduce t.ctx (.reading time s copy)).launch = some launch := by
        rcases applyReading_cases t.ctx s copy time with ⟨isUnknown, -⟩ | ⟨found, isFound,
          ⟨isRetired, -⟩ | ⟨-, read, readIn, isRead⟩⟩
        · exact nomatch isUnknown.symm.trans isLaunch
        · obtain rfl := Option.some.inj (isLaunch.symm.trans isFound)
          exact absurd (sound.mem_retired.mp isRetired) notLast
        · obtain rfl := Option.some.inj (isLaunch.symm.trans isFound)
          have isReadLaunch : read.launch = some launch := by
            cases readIn with
            | adopted isNull => rfl
            | same isSame => exact isSame
            | fresh isCurrent isOther => rfl
          rcases isRead with ⟨-, isRead⟩ | ⟨-, isRead⟩
          · exact (congrArg Context.launch isRead).trans isReadLaunch
          · refine (congrArg Context.launch isRead).trans ?_
            exact (applyTo_marks { read with seq := s.seq } s copy time true).1.trans isReadLaunch
      exact sound.current launch (keepsLaunch.symm.trans becomes) wasReplaced
    | _ => trivial
  · intro fair
    have after := sound.step fair
    refine ⟨fun isHundred => after.finishing ((shownPercent_hundred after.nonneg).mp isHundred), ?_⟩
    rintro time s copy rfl stale
    exact sound.stale_ignored fair stale

/-! ## Every sequence of events -/

/-- **The percent never goes back, and what is old is not heard.** Along every sequence whose events are
fair the shown percents of a launch do not fall, a hundred is shown only once the work was said to
be over, and a stale reading only moves the clock; and an event after it keeps this exactly when it
is fair. -/
theorem percent_never_back (family : Family) (events : List Event) (t : Traced)
    (run : Run (Restrict (ofFunction trace) Fair) (Traced.start family) events t) :
    (∀ later after, Run (Restrict (ofFunction reduce) SameLaunch) t.ctx later after →
        ∀ percent next, workingPercent t.ctx = some percent → workingPercent after = some next →
          percent ≤ next) ∧
      (shownPercent t.ctx = some 100 → t.said = true) ∧ ∀ event, Truthful t event ↔ Fair t event := by
  have sound : Sound t := by
    refine run.invariant (sound_start family) ?_
    rintro before event after sound ⟨rfl, fair⟩
    exact sound.step fair
  refine ⟨?_, fun isHundred => sound.finishing ((shownPercent_hundred sound.nonneg).mp isHundred),
    sound.truthful_iff⟩
  intro later after laterRun percent next isPercent isNext
  have isHigh : t.ctx.overallHigh ≤ after.overallHigh := by
    clear isNext
    induction laterRun with
    | nil => exact le_refl _
    | snoc prior taken ih =>
      obtain ⟨rfl, same⟩ := taken
      exact le_trans ih (overallHigh_reduce same)
  rw [(workingPercent_eq isPercent).2, (workingPercent_eq isNext).2]
  exact belowHundred_mono sound.nonneg isHigh

/-! ## Two runs where it fails -/

/-- The first reading of each launch, one after the other. -/
def readingsOf (launches : List Char) : List Event :=
  launches.map fun launch => .reading 0 (workReading (launchId launch) 1 .no) none

/-- The server listens and is not ready, with no word that the work is over. -/
def listenedTooSoon : Traced := trace (Traced.start .app) (.listen 0 false)

/-- Ten launches replace the first, and then a late answer of it comes. -/
def lateAnswer : Traced := (readingsOf "abcdefghija".toList).foldl trace (Traced.start .app)

/-- A hundred is shown with no word that the work is over, and the late answer of a launch replaced
long before makes it the launch again. -/
theorem percent_not_truthful :
    (shownPercent listenedTooSoon.ctx = some 100 ∧ listenedTooSoon.said = false) ∧
      launchId 'a' ∈ lateAnswer.replaced ∧ lateAnswer.ctx.launch = some (launchId 'a') := by
  refine ⟨⟨by decide, by decide⟩, by decide, by decide⟩

/-- Work that goes on, and then is complete. -/
theorem percent_never_back_example :
    let t := (readingsOf ['a', 'b']).foldl trace (Traced.start .app)
    (shownPercent t.ctx = some 100 → t.said = true) ∧ ∀ event, Truthful t event ↔ Fair t event := by
  have fair : Along trace Fair (Traced.start .app) (readingsOf ['a', 'b']) := by
    refine ⟨fun launch _ wasReplaced => ?_, fun launch _ wasReplaced => ?_, trivial⟩
    · exact absurd wasReplaced List.not_mem_nil
    · exact wasReplaced
  exact (percent_never_back .app _ _ (Run.foldl_along fair)).2

end Murage.UpgradeMachine
