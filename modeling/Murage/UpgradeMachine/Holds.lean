import Murage.Library.Transition
import Murage.UpgradeMachine.Model

/-!
Owns when a hold is shown (which events keep it, which clear it, and the two that hide it) and the
percents the strip shows: that the mark of a launch only rises, that a hundred comes after the word
that the work is over, and which readings are too old to be heard.
-/

namespace Murage.UpgradeMachine

open Murage.Library.Transition

/-! ## What an event leaves alone -/

section Frames

variable (ctx : Context) (time : Int)

theorem touch_eq : ∃ runAwakeMs gate etaMinutes advance, touch ctx time =
    { ctx with
      now := time
      lastEventAt := some time
      runAwakeMs := runAwakeMs
      gate := gate
      etaMinutes := etaMinutes
      advance := advance } := by
  unfold touch forgetEstimates
  dsimp only
  split
  · exact ⟨_, _, _, _, rfl⟩
  · split_ifs
    · exact ⟨_, _, _, _, rfl⟩
    · exact ⟨_, _, _, _, rfl⟩
    · exact ⟨_, _, _, _, rfl⟩

@[simp] theorem touch_mode : (touch ctx time).mode = ctx.mode := by
  obtain ⟨_, _, _, _, isTouch⟩ := touch_eq ctx time
  rw [isTouch]

@[simp] theorem touch_held : (touch ctx time).held = ctx.held := by
  obtain ⟨_, _, _, _, isTouch⟩ := touch_eq ctx time
  rw [isTouch]

@[simp] theorem touch_launch : (touch ctx time).launch = ctx.launch := by
  obtain ⟨_, _, _, _, isTouch⟩ := touch_eq ctx time
  rw [isTouch]

@[simp] theorem touch_retired : (touch ctx time).retired = ctx.retired := by
  obtain ⟨_, _, _, _, isTouch⟩ := touch_eq ctx time
  rw [isTouch]

@[simp] theorem touch_legacyWorking : (touch ctx time).legacyWorking = ctx.legacyWorking := by
  obtain ⟨_, _, _, _, isTouch⟩ := touch_eq ctx time
  rw [isTouch]

theorem withdrawn_eq : ∃ gate etaMinutes, withdrawn ctx time =
    { ctx with
      gate := gate
      etaMinutes := etaMinutes } := by
  unfold withdrawn
  split_ifs
  · exact ⟨_, _, rfl⟩
  · exact ⟨_, _, rfl⟩

@[simp] theorem withdrawn_mode : (withdrawn ctx time).mode = ctx.mode := by
  obtain ⟨_, _, isWithdrawn⟩ := withdrawn_eq ctx time
  rw [isWithdrawn]

@[simp] theorem withdrawn_held : (withdrawn ctx time).held = ctx.held := by
  obtain ⟨_, _, isWithdrawn⟩ := withdrawn_eq ctx time
  rw [isWithdrawn]

theorem accrue_eq (sameLaunch : Bool) (overall : Option ℚ) : ∃ high seen, accrue ctx sameLaunch overall =
    { ctx with
      overallHigh := high
      overallSeen := seen } := by
  unfold accrue
  split
  · split_ifs
    · exact ⟨_, _, rfl⟩
    · exact ⟨_, _, rfl⟩
  · exact ⟨_, _, rfl⟩

theorem estimate_eq (s : UpgradeState) (copy : Option Copy) : ∃ gate etaMinutes slow advance,
    estimate ctx s copy time =
      { ctx with
        gate := gate
        etaMinutes := etaMinutes
        slow := slow
        advance := advance } := by
  unfold estimate
  split_ifs
  · exact ⟨_, _, _, _, rfl⟩
  · exact ⟨_, _, _, _, rfl⟩

end Frames

/-! ## A reading -/

theorem applyTo_hold (ctx : Context) (s : UpgradeState) (copy : Option Copy) (time : Int) (sameLaunch : Bool) :
    (applyTo ctx s copy time sameLaunch).held = (heldAfter ctx s).1 ∧
      ((heldAfter ctx s).1 = .yes → (applyTo ctx s copy time sameLaunch).mode = .held) := by
  unfold applyTo
  dsimp only
  obtain ⟨_, _, _, _, isEstimate⟩ := estimate_eq
    (accrue (readInto (modeAfter ctx s (heldAfter ctx s).1).2.2 s copy time sameLaunch
      (modeAfter ctx s (heldAfter ctx s).1).1 (modeAfter ctx s (heldAfter ctx s).1).2.1
      (heldAfter ctx s).1 (heldAfter ctx s).2) sameLaunch s.overall) time s copy
  rw [isEstimate]
  obtain ⟨_, _, isAccrued⟩ := accrue_eq
    (readInto (modeAfter ctx s (heldAfter ctx s).1).2.2 s copy time sameLaunch
      (modeAfter ctx s (heldAfter ctx s).1).1 (modeAfter ctx s (heldAfter ctx s).1).2.1
      (heldAfter ctx s).1 (heldAfter ctx s).2) sameLaunch s.overall
  rw [isAccrued]
  refine ⟨rfl, fun isHeld => ?_⟩
  show (modeAfter ctx s (heldAfter ctx s).1).1 = .held
  unfold modeAfter
  rw [if_pos isHeld]

inductive ReadIn (ctx : Context) (launch : String) : Context → Prop
  | adopted (isNull : ctx.launch = none) : ReadIn ctx launch { ctx with launch := some launch }
  | same (isSame : ctx.launch = some launch) : ReadIn ctx launch ctx
  | fresh {current : String} (isCurrent : ctx.launch = some current) (isOther : current ≠ launch) :
      ReadIn ctx launch (newLaunch ctx launch)

theorem readIn_launched (ctx : Context) (launch : String) : ReadIn ctx launch (launched ctx launch) := by
  unfold launched
  cases isCurrent : ctx.launch with
  | none => exact ReadIn.adopted isCurrent
  | some current =>
    dsimp only
    split_ifs with isOther
    · exact ReadIn.fresh isCurrent isOther
    · exact ReadIn.same (isCurrent.trans (congrArg some (not_ne_iff.mp isOther)))

/-- **A reading, case by case.** It is ignored, for its launch is retired or its number old, or it
is applied, in the context of its launch. -/
theorem applyReading_cases (before : Context) (s : UpgradeState) (copy : Option Copy) (time : Int) :
    (s.launch = none ∧ applyReading before s copy time = applyTo (touch before time) s copy time false) ∨
      ∃ launch, s.launch = some launch ∧
        ((launch ∈ before.retired ∧ applyReading before s copy time = ignore (touch before time)) ∨
          (launch ∉ before.retired ∧ ∃ ctx, ReadIn (touch before time) launch ctx ∧
            ((s.seq < ctx.seq ∧ applyReading before s copy time = ignore ctx) ∨
              (ctx.seq ≤ s.seq ∧ applyReading before s copy time =
                applyTo { ctx with seq := s.seq } s copy time true)))) := by
  unfold applyReading
  cases isLaunch : s.launch with
  | none => exact Or.inl ⟨rfl, rfl⟩
  | some launch =>
    refine Or.inr ⟨launch, rfl, ?_⟩
    dsimp only
    rw [touch_retired]
    by_cases isRetired : launch ∈ before.retired
    · rw [if_pos isRetired]
      exact Or.inl ⟨isRetired, rfl⟩
    · rw [if_neg isRetired]
      refine Or.inr ⟨isRetired, launched (touch before time) launch, readIn_launched _ _, ?_⟩
      by_cases isOld : s.seq < (launched (touch before time) launch).seq
      · rw [if_pos isOld]
        exact Or.inl ⟨isOld, rfl⟩
      · rw [if_neg isOld]
        exact Or.inr ⟨Int.not_lt.mp isOld, rfl⟩

/-! ## Holds -/

/-- While a hold is known, the mode is that of a hold and the strip shows it. -/
def HoldShown (ctx : Context) : Prop :=
  ctx.held = .yes → ctx.mode = .held ∧ selectStrip ctx = some
    { kind := .hold
      role := .alert
      holdKey := ctx.holdKey }

variable {ctx : Context}

theorem holdShown_of_mode (isMode : ctx.held = .yes → ctx.mode = .held) : HoldShown ctx := by
  intro isHeld
  refine ⟨isMode isHeld, ?_⟩
  unfold selectStrip
  rw [if_pos (isMode isHeld)]

/-- The event does not hide a hold: it is no LISTEN, and no word of an old server that nothing is
pending after one that something was. -/
def KeepsHold (ctx : Context) (event : Event) : Prop :=
  ctx.held = .yes →
    match event with
    | .listen .. => False
    | .malformed _ reason pending => ¬(reason = "legacy" ∧ pending = some false ∧ ctx.legacyWorking = true)
    | _ => True

/-- A reading that says there is no hold, or one of a new known launch. -/
def ClearsHold (ctx : Context) : Event → Prop
  | .reading _ s _ => s.held = .no ∨
      ∃ launch current, s.launch = some launch ∧ ctx.launch = some current ∧ current ≠ launch
  | _ => False

def SaysHeld : Event → Prop
  | .reading _ s _ => s.held = .yes
  | _ => False

theorem heldAfter_yes {s : UpgradeState} :
    (heldAfter ctx s).1 = .yes ↔ s.held = .yes ∨ (s.held = .unknown ∧ ctx.held = .yes) := by
  unfold heldAfter
  cases s.held with
  | yes => simp
  | no => simp
  | unknown =>
    dsimp only
    split_ifs with isHeld
    · simp [isHeld]
    · simp [isHeld]

theorem readIn_held {ctx found : Context} {launch : String} (readIn : ReadIn ctx launch found) :
    (found.held = ctx.held ∧ found.mode = ctx.mode) ∨
      (found.held = .unknown ∧ ∃ current, ctx.launch = some current ∧ current ≠ launch) := by
  cases readIn with
  | adopted => exact Or.inl ⟨rfl, rfl⟩
  | same => exact Or.inl ⟨rfl, rfl⟩
  | fresh isCurrent isOther => exact Or.inr ⟨rfl, _, isCurrent, isOther⟩

theorem applyReading_mode {before : Context} (s : UpgradeState) (copy : Option Copy) (time : Int)
    (isMode : before.held = .yes → before.mode = .held) :
    (applyReading before s copy time).held = .yes → (applyReading before s copy time).mode = .held := by
  have applied : ∀ ctx same, (applyTo ctx s copy time same).held = .yes →
      (applyTo ctx s copy time same).mode = .held := by
    intro ctx same isHeld
    obtain ⟨sameHeld, isHeldMode⟩ := applyTo_hold ctx s copy time same
    exact isHeldMode (sameHeld ▸ isHeld)
  rcases applyReading_cases before s copy time with ⟨-, isRead⟩ | ⟨launch, -, ⟨-, isRead⟩ | ⟨-, ctx, readIn,
    ⟨-, isRead⟩ | ⟨-, isRead⟩⟩⟩
  · rw [isRead]
    exact applied _ _
  · rw [isRead]
    show (touch before time).held = .yes → (touch before time).mode = .held
    rw [touch_held, touch_mode]
    exact isMode
  · rw [isRead]
    show ctx.held = .yes → ctx.mode = .held
    rcases readIn_held readIn with ⟨sameHeld, sameMode⟩ | ⟨isUnknown, -⟩
    · rw [sameHeld, sameMode, touch_held, touch_mode]
      exact isMode
    · rw [isUnknown]
      exact (nomatch ·)
  · rw [isRead]
    exact applied _ _

theorem applyReading_held (before : Context) (s : UpgradeState) (copy : Option Copy) (time : Int) :
    ((applyReading before s copy time).held = .yes → before.held = .yes ∨ s.held = .yes) ∧
      (before.held = .yes → (applyReading before s copy time).held ≠ .yes →
        ClearsHold before (.reading time s copy)) := by
  have applied : ∀ ctx same, (applyTo ctx s copy time same).held = (heldAfter ctx s).1 :=
    fun ctx same => (applyTo_hold ctx s copy time same).1
  rcases applyReading_cases before s copy time with ⟨-, isRead⟩ | ⟨launch, isLaunch, ⟨-, isRead⟩ | ⟨-, ctx,
    readIn, isRead⟩⟩
  · rw [isRead, applied, Ne, heldAfter_yes, touch_held]
    refine ⟨fun isHeld => isHeld.symm.imp_left And.right, fun wasHeld notHeld => Or.inl ?_⟩
    cases isSaid : s.held with
    | yes => exact absurd (Or.inl isSaid) notHeld
    | no => rfl
    | unknown => exact absurd (Or.inr ⟨isSaid, wasHeld⟩) notHeld
  · have sameHeld : (applyReading before s copy time).held = before.held := by
      rw [isRead]
      exact touch_held before time
    rw [sameHeld]
    exact ⟨Or.inl, fun wasHeld notHeld => absurd wasHeld notHeld⟩
  · have isNew : ∀ current, (touch before time).launch = some current → current ≠ launch →
        ClearsHold before (.reading time s copy) := fun current isCurrent isOther =>
      Or.inr ⟨launch, current, isLaunch, touch_launch before time ▸ isCurrent, isOther⟩
    rcases isRead with ⟨-, isRead⟩ | ⟨-, isRead⟩
    · have sameHeld : (applyReading before s copy time).held = ctx.held := by rw [isRead]; rfl
      rw [sameHeld]
      rcases readIn_held readIn with ⟨isKept, -⟩ | ⟨isUnknown, current, isCurrent, isOther⟩
      · rw [isKept, touch_held]
        exact ⟨Or.inl, fun wasHeld notHeld => absurd wasHeld notHeld⟩
      · refine ⟨fun isHeld => ?_, fun _ _ => isNew current isCurrent isOther⟩
        rw [isUnknown] at isHeld
        exact nomatch isHeld
    · rw [isRead, applied, Ne, heldAfter_yes]
      dsimp only
      rcases readIn_held readIn with ⟨isKept, -⟩ | ⟨isUnknown, current, isCurrent, isOther⟩
      · rw [touch_held] at isKept
        refine ⟨fun isHeld => ?_, fun wasHeld notHeld => Or.inl ?_⟩
        · rcases isHeld with isSaid | ⟨-, isHeld⟩
          · exact Or.inr isSaid
          · exact Or.inl (isKept ▸ isHeld)
        · cases isSaid : s.held with
          | yes => exact absurd (Or.inl isSaid) notHeld
          | no => rfl
          | unknown => exact absurd (Or.inr ⟨isSaid, isKept.trans wasHeld⟩) notHeld
      · refine ⟨fun isHeld => ?_, fun _ _ => isNew current isCurrent isOther⟩
        rcases isHeld with isSaid | ⟨-, isHeld⟩
        · exact Or.inr isSaid
        · rw [isUnknown] at isHeld
          exact nomatch isHeld

/-! ## Every event -/

theorem legacyReading_held (out : Context) (time : Int) (pending : Option Bool) :
    (legacyReading out time pending).held = out.held := by
  unfold legacyReading
  split_ifs <;> rfl

theorem legacyReading_mode {out : Context} {time : Int} {pending : Option Bool} (isMode : out.mode = .held) :
    (legacyReading out time pending).mode = .held ↔ ¬(pending = some false ∧ out.legacyWorking = true) := by
  unfold legacyReading
  rw [if_neg fun isPending => isPending.2 isMode]
  split_ifs with isOver
  · exact ⟨(nomatch ·), fun notOver => absurd isOver notOver⟩
  · exact ⟨fun _ => isOver, fun _ => isMode⟩

def Event.isReading : Event → Bool
  | .reading .. => true
  | _ => false

theorem reduce_held_of_not_reading (ctx : Context) (event : Event) (notReading : event.isReading = false) :
    (reduce ctx event).held = ctx.held := by
  cases event with
  | reading time s copy => exact nomatch notReading
  | malformed time reason pending =>
    unfold reduce
    dsimp only
    rw [withdrawn_held]
    split_ifs
    · rw [legacyReading_held]
      exact touch_held ctx time
    · exact touch_held ctx time
  | readFailed time =>
    unfold reduce
    rw [withdrawn_held]
    exact touch_held ctx time
  | tick time =>
    unfold reduce
    dsimp only
    split_ifs <;> exact touch_held ctx time
  | suspend time => exact touch_held ctx time
  | resume time => rfl
  | listen time ready => exact touch_held ctx time
  | lifecycle time => rfl
  | reconnect time => rfl
  | visible time => rfl
  | turn time => rfl
  | pollStarted => rfl

theorem reduce_hold (ctx : Context) (event : Event) :
    ((reduce ctx event).held = .yes → ctx.held = .yes ∨ SaysHeld event) ∧
      (ctx.held = .yes → (reduce ctx event).held ≠ .yes → ClearsHold ctx event) := by
  cases event with
  | reading time s copy => exact applyReading_held ctx s copy time
  | _ =>
    rw [reduce_held_of_not_reading ctx _ rfl]
    exact ⟨Or.inl, fun wasHeld notHeld => absurd wasHeld notHeld⟩

/-- **One event.** Where a hold was shown, it is shown after an event exactly when the event does
not hide it. -/
theorem holdShown_reduce (shown : HoldShown ctx) (event : Event) :
    HoldShown (reduce ctx event) ↔ KeepsHold ctx event := by
  have wasMode : ctx.held = .yes → ctx.mode = .held := fun isHeld => (shown isHeld).1
  -- The mode of a hold stays in the events that look at no hold.
  have kept : (ctx.held = .yes → (reduce ctx event).held = .yes → (reduce ctx event).mode = .held) →
      ((reduce ctx event).held = ctx.held) → HoldShown (reduce ctx event) := by
    intro isMode sameHeld
    exact holdShown_of_mode fun isHeld => isMode (sameHeld ▸ isHeld) isHeld
  cases event with
  | reading time s copy =>
    refine ⟨fun _ _ => trivial, fun _ => holdShown_of_mode ?_⟩
    exact applyReading_mode s copy time wasMode
  | malformed time reason pending =>
    have sameHeld := reduce_held_of_not_reading ctx (.malformed time reason pending) rfl
    have isLegacyMode : ctx.held = .yes → ({ touch ctx time with
        missed := ctx.missed + 1
        legacy := true } : Context).mode = .held :=
      fun isHeld => (touch_mode ctx time).trans (wasMode isHeld)
    constructor
    · rintro after isHeld ⟨rfl, isPending, wasWorking⟩
      have isMode := (after (sameHeld.trans isHeld)).1
      unfold reduce at isMode
      dsimp only at isMode
      rw [withdrawn_mode, if_pos rfl] at isMode
      exact (legacyReading_mode (isLegacyMode isHeld)).mp isMode
        ⟨isPending, (touch_legacyWorking ctx time).trans wasWorking⟩
    · intro keeps
      refine kept (fun isHeld _ => ?_) sameHeld
      unfold reduce
      dsimp only
      rw [withdrawn_mode]
      split_ifs with isLegacy
      · refine (legacyReading_mode (isLegacyMode isHeld)).mpr ?_
        rintro ⟨isPending, wasWorking⟩
        exact keeps isHeld ⟨isLegacy, isPending, (touch_legacyWorking ctx time).symm.trans wasWorking⟩
      · exact (touch_mode ctx time).trans (wasMode isHeld)
  | readFailed time =>
    refine ⟨fun _ _ => trivial, fun _ => kept (fun isHeld _ => ?_)
      (reduce_held_of_not_reading ctx _ rfl)⟩
    unfold reduce
    rw [withdrawn_mode]
    exact (touch_mode ctx time).trans (wasMode isHeld)
  | tick time =>
    refine ⟨fun _ _ => trivial, fun _ => kept (fun isHeld _ => ?_)
      (reduce_held_of_not_reading ctx _ rfl)⟩
    have isMode := (touch_mode ctx time).trans (wasMode isHeld)
    unfold reduce
    dsimp only
    have notFinishing : (touch ctx time).mode ≠ .finishing := by
      rw [isMode]
      exact (nomatch ·)
    simp only [notFinishing, false_and, if_false]
    split_ifs <;> exact isMode
  | suspend time =>
    refine ⟨fun _ _ => trivial, fun _ => kept (fun isHeld _ => ?_)
      (reduce_held_of_not_reading ctx _ rfl)⟩
    exact (touch_mode ctx time).trans (wasMode isHeld)
  | listen time ready =>
    constructor
    · intro after isHeld
      have isMode := (after ((touch_held ctx time).trans isHeld)).1
      exact nomatch isMode
    · intro keeps isHeld
      exact (keeps ((touch_held ctx time).symm.trans isHeld)).elim
  | _ => exact ⟨fun _ _ => trivial, fun _ => kept (fun isHeld _ => wasMode isHeld) rfl⟩

/-! ## Every sequence of events -/

/-- **A hold is never hidden, but for two events.** In every sequence whose events take no LISTEN
while a hold is known, and no word of an old server that nothing is pending after one that
something was, a known hold is the mode and the strip shows it; and any other event in a state
so reached hides it. In every state at all a known hold ends only with a reading that says so or
one of a new known launch, and comes only with a reading that says it. -/
theorem hold_never_hidden (family : Family) (events : List Event) (ctx : Context)
    (run : Run (Restrict (ofFunction reduce) KeepsHold) (initialContext family) events ctx) :
    HoldShown ctx ∧ (∀ event, HoldShown (reduce ctx event) ↔ KeepsHold ctx event) ∧
      ∀ before event, ((reduce before event).held = .yes → before.held = .yes ∨ SaysHeld event) ∧
        (before.held = .yes → (reduce before event).held ≠ .yes → ClearsHold before event) := by
  have shown : HoldShown ctx := by
    refine run.invariant (fun isHeld => nomatch isHeld) ?_
    rintro before event after shown ⟨rfl, keeps⟩
    exact (holdShown_reduce shown event).mpr keeps
  exact ⟨shown, holdShown_reduce shown, fun before event => reduce_hold before event⟩

/-! ## Two runs that hide it -/

def launchId (digit : Char) : String := String.ofList (List.replicate 64 digit)

def workReading (launch : String) (seq : Int) (held : Tri) : UpgradeState where
  launch := some launch
  seq := seq
  stage := .background
  phase := .references
  overall := some (1 / 2)
  complete := .no
  held := held
  holdKey := if held = .yes then some "memoryStrip.hold" else none
  capture := if held = .yes then .off else .on
  «recall» := if held = .yes then .off else .on
  storedMode := .active
  counts := none
  keepOpen := .yes
  step :=
    { awakeElapsedMs := 0
      unit := .none
      done := none
      total := none }
  eta := none
  storage := .idle
  checking := .no

/-- A hold is read, then the server listens. -/
def heldThenListened : Context :=
  [Event.reading 0 (workReading (launchId 'a') 1 .yes) none, .listen 1000 false].foldl reduce (initialContext .window)

/-- An old server is at work, a hold is read, and an old server has done. -/
def heldBetweenLegacy : Context :=
  [Event.malformed 0 "legacy" (some true), .reading 1000 (workReading (launchId 'a') 1 .yes) none,
    .malformed 2000 "legacy" (some false)].foldl reduce (initialContext .app)

/-- LISTEN takes the strip of a hold away, and so does an old server that has done. -/
theorem hold_hidden :
    (heldThenListened.held = .yes ∧ heldThenListened.mode = .finishing) ∧
      heldBetweenLegacy.held = .yes ∧ heldBetweenLegacy.mode = .idle ∧ selectStrip heldBetweenLegacy = none := by
  refine ⟨⟨by decide, by decide⟩, by decide, by decide, by decide⟩

/-- A hold kept through a tick and an unknown reading. -/
theorem hold_never_hidden_example :
    HoldShown ([Event.reading 0 (workReading (launchId 'a') 1 .yes) none, .tick 1000,
      .reading 2000 (workReading (launchId 'a') 2 .unknown) none].foldl reduce (initialContext .app)) := by
  have keeps : Along reduce KeepsHold (initialContext .app)
      [Event.reading 0 (workReading (launchId 'a') 1 .yes) none, .tick 1000,
        .reading 2000 (workReading (launchId 'a') 2 .unknown) none] :=
    ⟨fun _ => trivial, fun _ => trivial, fun _ => trivial, trivial⟩
  exact (hold_never_hidden .app _ _ (Run.foldl_along keeps)).1

open Murage.Library
open Murage.Library.Binary64

/-! ## The percent of a part -/

theorem belowHundred_mono {x y : ℚ} (nonneg : 0 ≤ x) (ordered : x ≤ y) : belowHundred x ≤ belowHundred y := by
  have cap : (0 : ℚ) ≤ double (99 / 100) := double_nonneg (by norm_num)
  have nudge : (0 : ℚ) ≤ double (1 / 10 ^ 9) := double_nonneg (by norm_num)
  have atLeast : (0 : ℚ) ≤ min (double (99 / 100)) x * 100 := mul_nonneg (le_min cap nonneg) (by norm_num)
  have scaled : min (double (99 / 100)) x * 100 ≤ min (double (99 / 100)) y * 100 :=
    mul_le_mul_of_nonneg_right (min_le_min_left _ ordered) (by norm_num)
  have rounded := double_mono_of_nonneg atLeast scaled
  unfold belowHundred
  refine Int.floor_mono (double_mono_of_nonneg (add_nonneg (double_nonneg atLeast) nudge) ?_)
  linarith

theorem double_dyadic {x : ℚ} (n e : ℤ) (normal : -1022 ≤ e) (lower : (2 : ℚ) ^ e ≤ x)
    (upper : x < (2 : ℚ) ^ (e + 1)) (isMultiple : x = n * (2 : ℚ) ^ (e - 52)) : double x = x := by
  refine double_eq_self n ?_
  unfold ulp
  rw [exponent_eq normal lower upper]
  exact isMultiple

theorem belowHundred_le (x : ℚ) (nonneg : 0 ≤ x) : belowHundred x ≤ 99 := by
  have isCap : double (127 / 128) = 127 / 128 :=
    double_dyadic (127 * 2 ^ 46) (-1) (by decide) (by norm_num) (by norm_num) (by norm_num)
  have isScaled : double (3175 / 32) = 3175 / 32 :=
    double_dyadic (3175 * 2 ^ 41) 6 (by decide) (by norm_num) (by norm_num) (by norm_num)
  have isNudge : double (1 / 2 ^ 20) = 1 / 2 ^ 20 :=
    double_dyadic (2 ^ 52) (-20) (by decide) (by norm_num) (by norm_num) (by norm_num)
  have isSum : double (199 / 2) = 199 / 2 :=
    double_dyadic (199 * 2 ^ 45) 6 (by decide) (by norm_num) (by norm_num) (by norm_num)
  have cap : double (99 / 100) ≤ 127 / 128 := by
    rw [← isCap]
    exact double_mono_of_nonneg (by norm_num) (by norm_num)
  have nudge : double (1 / 10 ^ 9) ≤ 1 / 2 ^ 20 := by
    rw [← isNudge]
    exact double_mono_of_nonneg (by norm_num) (by norm_num)
  have nudgeNonneg : (0 : ℚ) ≤ double (1 / 10 ^ 9) := double_nonneg (by norm_num)
  have partNonneg : (0 : ℚ) ≤ min (double (99 / 100)) x * 100 :=
    mul_nonneg (le_min (double_nonneg (by norm_num)) nonneg) (by norm_num)
  have scaled : double (min (double (99 / 100)) x * 100) ≤ 3175 / 32 := by
    rw [← isScaled]
    refine double_mono_of_nonneg partNonneg ?_
    have isCapped := min_le_left (double (99 / 100)) x
    linarith
  have sum : double (double (min (double (99 / 100)) x * 100) + double (1 / 10 ^ 9)) ≤ 199 / 2 := by
    rw [← isSum]
    refine double_mono_of_nonneg (add_nonneg (double_nonneg partNonneg) nudgeNonneg) ?_
    norm_num at nudge scaled ⊢
    linarith
  unfold belowHundred
  refine Int.lt_add_one_iff.mp (Int.floor_lt.mpr (lt_of_le_of_lt sum ?_))
  norm_num

/-! ## What events do to the marks -/

/-- The launch, its number and its mark, and the mode a hold came over. -/
structure SameMarks (before after : Context) : Prop where
  launch : after.launch = before.launch
  retired : after.retired = before.retired
  seq : after.seq = before.seq
  high : after.overallHigh = before.overallHigh
  beforeHold : after.modeBeforeHold = before.modeBeforeHold

theorem SameMarks.trans {first second third : Context} (left : SameMarks first second)
    (right : SameMarks second third) : SameMarks first third :=
  ⟨right.launch.trans left.launch, right.retired.trans left.retired, right.seq.trans left.seq,
    right.high.trans left.high, right.beforeHold.trans left.beforeHold⟩

theorem sameMarks_touch (ctx : Context) (time : Int) : SameMarks ctx (touch ctx time) := by
  obtain ⟨_, _, _, _, isTouch⟩ := touch_eq ctx time
  rw [isTouch]
  exact ⟨rfl, rfl, rfl, rfl, rfl⟩

theorem sameMarks_withdrawn (ctx : Context) (time : Int) : SameMarks ctx (withdrawn ctx time) := by
  obtain ⟨_, _, isWithdrawn⟩ := withdrawn_eq ctx time
  rw [isWithdrawn]
  exact ⟨rfl, rfl, rfl, rfl, rfl⟩

theorem sameMarks_legacyReading (ctx : Context) (time : Int) (pending : Option Bool) :
    SameMarks ctx (legacyReading ctx time pending) := by
  unfold legacyReading
  split_ifs <;> exact ⟨rfl, rfl, rfl, rfl, rfl⟩

theorem sameMarks_reduce (ctx : Context) (event : Event) (notReading : event.isReading = false) :
    SameMarks ctx (reduce ctx event) := by
  cases event with
  | reading time s copy => exact nomatch notReading
  | malformed time reason pending =>
    unfold reduce
    dsimp only
    refine SameMarks.trans ?_ (sameMarks_withdrawn _ time)
    have counted : SameMarks ctx { touch ctx time with missed := ctx.missed + 1 } :=
      (sameMarks_touch ctx time).trans ⟨rfl, rfl, rfl, rfl, rfl⟩
    split_ifs
    · refine SameMarks.trans ?_ (sameMarks_legacyReading _ time pending)
      exact counted.trans ⟨rfl, rfl, rfl, rfl, rfl⟩
    · exact counted
  | readFailed time =>
    refine SameMarks.trans ?_ (sameMarks_withdrawn _ time)
    exact (sameMarks_touch ctx time).trans ⟨rfl, rfl, rfl, rfl, rfl⟩
  | tick time =>
    unfold reduce
    dsimp only
    split_ifs <;> exact (sameMarks_touch ctx time).trans ⟨rfl, rfl, rfl, rfl, rfl⟩
  | suspend time => exact (sameMarks_touch ctx time).trans ⟨rfl, rfl, rfl, rfl, rfl⟩
  | listen time ready => exact (sameMarks_touch ctx time).trans ⟨rfl, rfl, rfl, rfl, rfl⟩
  | _ => exact ⟨rfl, rfl, rfl, rfl, rfl⟩

theorem legacyReading_finishing {out : Context} {time : Int} {pending : Option Bool}
    (isMode : (legacyReading out time pending).mode = .finishing) : out.mode = .finishing := by
  unfold legacyReading at isMode
  split_ifs at isMode <;> exact isMode

theorem reduce_finishing {event : Event} (notReading : event.isReading = false)
    (isMode : (reduce ctx event).mode = .finishing) :
    ctx.mode = .finishing ∨ ∃ time ready, event = .listen time ready := by
  cases event with
  | reading time s copy => exact nomatch notReading
  | malformed time reason pending =>
    unfold reduce at isMode
    dsimp only at isMode
    rw [withdrawn_mode] at isMode
    split_ifs at isMode
    · have isOut := legacyReading_finishing isMode
      exact Or.inl ((touch_mode ctx time).symm.trans isOut)
    · exact Or.inl ((touch_mode ctx time).symm.trans isMode)
  | readFailed time =>
    unfold reduce at isMode
    rw [withdrawn_mode] at isMode
    exact Or.inl ((touch_mode ctx time).symm.trans isMode)
  | tick time =>
    unfold reduce at isMode
    dsimp only at isMode
    split_ifs at isMode <;> exact Or.inl ((touch_mode ctx time).symm.trans isMode)
  | suspend time => exact Or.inl ((touch_mode ctx time).symm.trans isMode)
  | listen time ready => exact Or.inr ⟨time, ready, rfl⟩
  | _ => exact Or.inl isMode

/-! ## What a reading does to the marks -/

theorem modeAfter_run (ctx : Context) (s : UpgradeState) (held : Tri) :
    (modeAfter ctx s held).2.2 = ctx ∨ (modeAfter ctx s held).2.2 = startRun ctx := by
  unfold modeAfter
  split_ifs <;> simp

theorem applyTo_marks (ctx : Context) (s : UpgradeState) (copy : Option Copy) (time : Int) (sameLaunch : Bool) :
    (applyTo ctx s copy time sameLaunch).launch = ctx.launch ∧
      (applyTo ctx s copy time sameLaunch).retired = ctx.retired ∧
      (applyTo ctx s copy time sameLaunch).seq = ctx.seq ∧
      ctx.overallHigh ≤ (applyTo ctx s copy time sameLaunch).overallHigh ∧
      (applyTo ctx s copy time sameLaunch).mode = (modeAfter ctx s (heldAfter ctx s).1).1 ∧
      ((applyTo ctx s copy time sameLaunch).modeBeforeHold ≠ none →
        (applyTo ctx s copy time sameLaunch).mode = .held ∧
          (applyTo ctx s copy time sameLaunch).modeBeforeHold =
            (modeAfter ctx s (heldAfter ctx s).1).2.1) := by
  unfold applyTo
  dsimp only
  generalize isRead : readInto (modeAfter ctx s (heldAfter ctx s).1).2.2 s copy time sameLaunch
    (modeAfter ctx s (heldAfter ctx s).1).1 (modeAfter ctx s (heldAfter ctx s).1).2.1
    (heldAfter ctx s).1 (heldAfter ctx s).2 = out
  have isRun : out.launch = ctx.launch ∧ out.retired = ctx.retired ∧ out.seq = ctx.seq ∧
      out.overallHigh = ctx.overallHigh := by
    rw [← isRead]
    unfold readInto
    dsimp only
    rcases modeAfter_run ctx s (heldAfter ctx s).1 with isRun | isRun
    · rw [isRun]
      exact ⟨rfl, rfl, rfl, rfl⟩
    · rw [isRun]
      exact ⟨rfl, rfl, rfl, rfl⟩
  have isMode : out.mode = (modeAfter ctx s (heldAfter ctx s).1).1 := by
    rw [← isRead]
    rfl
  have isBefore : out.modeBeforeHold ≠ none → out.mode = .held ∧
      out.modeBeforeHold = (modeAfter ctx s (heldAfter ctx s).1).2.1 := by
    rw [← isRead]
    unfold readInto
    dsimp only
    split_ifs with isHeld
    · exact fun _ => ⟨isHeld, rfl⟩
    · exact fun isSome => absurd rfl isSome
  obtain ⟨_, _, _, _, isEstimate⟩ := estimate_eq (accrue out sameLaunch s.overall) time s copy
  rw [isEstimate]
  obtain ⟨sameLaunchId, sameRetired, sameSeq, sameHigh⟩ := isRun
  unfold accrue
  split
  · split_ifs
    · exact ⟨sameLaunchId, sameRetired, sameSeq, sameHigh ▸ le_max_left _ _, isMode, isBefore⟩
    · exact ⟨sameLaunchId, sameRetired, sameSeq, sameHigh.ge, isMode, isBefore⟩
  · exact ⟨sameLaunchId, sameRetired, sameSeq, sameHigh.ge, isMode, isBefore⟩

theorem modeAfter_finishing {s : UpgradeState} {held : Tri}
    (isMode : (modeAfter ctx s held).1 = .finishing) :
    s.complete = .yes ∨ ctx.mode = .finishing ∨ ctx.modeBeforeHold = some .finishing := by
  unfold modeAfter at isMode
  by_cases isHeld : held = .yes
  · rw [if_pos isHeld] at isMode
    exact nomatch isMode
  rw [if_neg isHeld] at isMode
  by_cases isComplete : s.complete = .yes
  · exact Or.inl isComplete
  rw [if_neg isComplete] at isMode
  by_cases isPending : s.stage.isPending = true
  · rw [if_pos isPending] at isMode
    dsimp only at isMode
    split_ifs at isMode
  rw [if_neg isPending] at isMode
  by_cases wasHeld : ctx.mode = .held
  · rw [if_pos wasHeld] at isMode
    dsimp only at isMode
    cases isBefore : ctx.modeBeforeHold with
    | none =>
      rw [isBefore] at isMode
      exact nomatch isMode
    | some mode =>
      rw [isBefore] at isMode
      dsimp only at isMode
      split_ifs at isMode
      exact Or.inr (Or.inr (congrArg some isMode))
  · rw [if_neg wasHeld] at isMode
    exact Or.inr (Or.inl isMode)

theorem modeAfter_beforeHold {s : UpgradeState} {held : Tri}
    (isBefore : (modeAfter ctx s held).2.1 = some .finishing) :
    ctx.mode = .finishing ∨ ctx.modeBeforeHold = some .finishing := by
  unfold modeAfter at isBefore
  split_ifs at isBefore <;> simp_all

end Murage.UpgradeMachine
