import Murage.RevokeBudget.Ledger

/-!
Owns runs of the budget under a clock that never goes back, with what was charged in them, and what
holds after any of them.

Does not own: one step of the ledger or of the admission.
-/

namespace Murage.RevokeBudget

open Murage.Library.Binary64

inductive Call where
  | noteBytes (bytes now : Int)
  | noteCost (bytes rows : ℚ)
  | slice (flip : Nat) (isInline : Bool) (marker : Int → Nat) (start finish : Int)
  /-- A read of the bytes written or of a wait, which trims the ledger. -/
  | read (now : Int)

/-- The budget with its history: every charge, the last moment, the bytes the most recent slice was
charged past those free when it was admitted, and the bytes charged directly since. -/
structure Trace where
  budget : Budget := {}
  charges : List Entry := []
  clock : Int
  excess : Int := 0
  direct : Int := 0

variable (config : Config)

def freeAt (now : Int) (budget : Budget) : Int :=
  config.bytesPerMinute - (trim now budget).spent

def step (trace : Trace) : Call → Trace
  | .noteBytes bytes now =>
    { trace with
      budget := noteRevokeBytes bytes now trace.budget
      charges := if 0 < bytes then trace.charges ++ [⟨now, bytes⟩] else trace.charges
      clock := now
      direct := if 0 < bytes then trace.direct + bytes else trace.direct }
  | .noteCost bytes rows => { trace with budget := noteRevokeCost config bytes rows trace.budget }
  | .read now => { trace with budget := trim now trace.budget, clock := now }
  | .slice flip isInline marker start finish =>
    match budgetedMarkerSlice config flip isInline marker start finish trace.budget with
    | (budget, none) => { trace with budget := budget, clock := finish }
    | (budget, some changed) =>
      let bytes := sliceBytes config changed trace.budget
      { budget := budget
        charges := if 0 < changed then trace.charges ++ [⟨finish, bytes⟩] else trace.charges
        clock := finish
        excess := if 0 < changed then max 0 (bytes - freeAt config start trace.budget) else 0
        direct := 0 }

def run (trace : Trace) (calls : List Call) : Trace := calls.foldl (step config) trace

/-- The clock never goes back. -/
def Timed : Int → List Call → Prop
  | _, [] => True
  | clock, .noteBytes _ now :: calls => clock ≤ now ∧ Timed now calls
  | clock, .noteCost _ _ :: calls => Timed clock calls
  | clock, .read now :: calls => clock ≤ now ∧ Timed now calls
  | clock, .slice _ _ _ start finish :: calls => clock ≤ start ∧ start ≤ finish ∧ Timed finish calls

/-- What holds between calls. -/
structure Inv (trace : Trace) : Prop where
  sound : Sound trace.clock trace.budget
  charged : ∀ entry ∈ trace.charges, 0 < entry.bytes
  agrees : ∀ now, trace.clock ≤ now →
    windowSum trace.budget.ledger now = windowSum trace.charges now
  priced : ∀ cost ∈ trace.budget.cost, Priced config cost
  notNegative : 0 ≤ trace.excess ∧ 0 ≤ trace.direct
  bounded : windowSum trace.charges trace.clock ≤
    config.bytesPerMinute + trace.excess + trace.direct

variable {config} {trace : Trace} {clock now : Int}

theorem Sound.later {budget : Budget} (isSound : Sound clock budget) (isLater : clock ≤ now) :
    Sound now budget :=
  ⟨isSound.ordered, fun entry isEntry => ⟨(isSound.charged entry isEntry).1,
    Int.le_trans (isSound.charged entry isEntry).2 isLater⟩, isSound.spent⟩

theorem Inv.bounded_later (isInv : Inv config trace) (isLater : trace.clock ≤ now) :
    windowSum trace.charges now ≤ config.bytesPerMinute + trace.excess + trace.direct :=
  Int.le_trans (windowSum_antitone isInv.charged isLater) isInv.bounded

theorem Inv.noteBytes (isInv : Inv config trace) (bytes : Int) (isNow : trace.clock ≤ now) :
    Inv config (step config trace (.noteBytes bytes now)) := by
  rw [step]
  by_cases isBytes : 0 < bytes
  · obtain ⟨isSound, isSame, isCost⟩ := noteRevokeBytes_spec isInv.sound isBytes isNow
    rw [if_pos isBytes, if_pos isBytes]
    have isLater := isInv.bounded_later isNow
    refine ⟨isSound, ?_, ?_, ?_, ⟨isInv.notNegative.1, ?_⟩, ?_⟩
    · intro entry isEntry
      rcases List.mem_append.mp isEntry with isOld | isIt
      · exact isInv.charged entry isOld
      · rw [List.mem_singleton.mp isIt]
        exact isBytes
    · intro later isLater
      rw [isSame later isLater, windowSum_append, isInv.agrees later (Int.le_trans isNow isLater)]
    · rw [isCost]
      exact isInv.priced
    · have := isInv.notNegative.2
      dsimp only
      omega
    · have isEmpty : windowSum [] now = 0 := rfl
      dsimp only
      rw [windowSum_append, windowSum_cons, isEmpty]
      dsimp only
      split_ifs <;> omega
  · have isSame : noteRevokeBytes bytes now trace.budget = trace.budget := if_neg isBytes
    rw [if_neg isBytes, if_neg isBytes, isSame]
    exact ⟨isInv.sound.later isNow, isInv.charged,
      fun later isLater => isInv.agrees later (Int.le_trans isNow isLater), isInv.priced,
      isInv.notNegative, isInv.bounded_later isNow⟩

variable (config) in
theorem noteRevokeCost_ledger (bytes rows : ℚ) (budget : Budget) :
    (noteRevokeCost config bytes rows budget).ledger = budget.ledger ∧
      (noteRevokeCost config bytes rows budget).spent = budget.spent := by
  rw [noteRevokeCost]
  split <;> exact ⟨rfl, rfl⟩

theorem Inv.noteCost (isInv : Inv config trace) (bytes rows : ℚ) :
    Inv config (step config trace (.noteCost bytes rows)) := by
  obtain ⟨isLedger, isSpent⟩ := noteRevokeCost_ledger config bytes rows trace.budget
  have isSound := isInv.sound
  rw [step]
  refine ⟨⟨?_, ?_, ?_⟩, isInv.charged, ?_, noteRevokeCost_priced config bytes rows isInv.priced,
    isInv.notNegative, isInv.bounded⟩
  · rw [isLedger]
    exact isSound.ordered
  · rw [isLedger]
    exact isSound.charged
  · rw [isLedger, isSpent]
    exact isSound.spent
  · dsimp only
    rw [isLedger]
    exact isInv.agrees

theorem Inv.read (isInv : Inv config trace) (isNow : trace.clock ≤ now) :
    Inv config (step config trace (.read now)) := by
  obtain ⟨isTrimmed, isSame, -, -, isCost⟩ := trim_spec isInv.sound now
  rw [step]
  refine ⟨isTrimmed.later isNow, isInv.charged, ?_, ?_, isInv.notNegative, isInv.bounded_later isNow⟩
  · intro later isLater
    rw [isSame later isLater]
    exact isInv.agrees later (Int.le_trans isNow isLater)
  · rw [isCost]
    exact isInv.priced

theorem Inv.freeAt_eq (isInv : Inv config trace) (isNow : trace.clock ≤ now) :
    freeAt config now trace.budget = config.bytesPerMinute - windowSum trace.charges now := by
  obtain ⟨-, -, isSpent, -, -⟩ := trim_spec isInv.sound now
  rw [freeAt, isSpent, isInv.agrees now isNow]

theorem admission_within {budget : Budget} (isPriced : ∀ cost ∈ budget.cost, Priced config cost)
    {flip : Nat} {isInline : Bool} {room : Int}
    (isAdmitted : admission config flip isInline budget = some room) :
    budget.spent ≤ config.bytesPerMinute := by
  have isPos := (priced_cost config isPriced).pos
  have isNeed := needRows_pos flip isInline
  have isBudget := config.isBudget
  rw [admission] at isAdmitted
  by_cases isShort : roomOf config budget < needRows flip isInline
  · rw [if_pos isShort] at isAdmitted
    split at isAdmitted
    · next isFallback => omega
    · cases isAdmitted
  · by_contra isOver
    have isNegative : ((config.bytesPerMinute - budget.spent : Int) : ℚ) /
        revokeCostPerChange config budget < 0 := by
      apply div_neg_of_neg_of_pos _ isPos
      exact_mod_cast (by omega : config.bytesPerMinute - budget.spent < 0)
    have isRounded : rounded (((config.bytesPerMinute - budget.spent : Int) : ℚ) /
        revokeCostPerChange config budget) ≤ 0 := by
      rw [rounded, if_pos isNegative, neg_nonpos]
      exact double_nonneg (le_of_lt (neg_pos.mpr isNegative))
    have isRoom : roomOf config budget ≤ 0 := by
      rw [roomOf]
      exact_mod_cast le_trans (Int.floor_le _) isRounded
    omega

theorem sliceBytes_pos {budget : Budget} (isPriced : ∀ cost ∈ budget.cost, Priced config cost)
    {changed : Nat} (isChanged : 0 < changed) : 0 < sliceBytes config changed budget := by
  have isCost := (priced_cost config isPriced).1
  have isPage := config.isPage
  have isCeiling : (8 : ℚ) ≤ config.revokeChangeCeiling := by
    rw [Config.revokeChangeCeiling, Config.frameBytes, REVOKE_CHANGE_CEILING_FRAMES, FRAME_HEADER]
    exact_mod_cast (by omega : (8 : Int) ≤ 2 * (config.bytesPerChange + 24))
  rw [REVOKE_COST_FLOOR] at isCost
  have isRows : (1 : ℚ) ≤ changed := by exact_mod_cast isChanged
  have isOne : ((1 : Int) : ℚ) ≤ changed * revokeCostPerChange config budget := by
    push_cast
    nlinarith
  have isRounded : ((1 : Int) : ℚ) ≤ rounded (changed * revokeCostPerChange config budget) := by
    have isNonneg : ((0 : ℚ)) ≤ ((1 : Int) : ℚ) := by norm_num
    rw [rounded_nonneg (le_trans isNonneg isOne), ← double_int (by decide) (by decide : (1 : Int) < 2 ^ 53)]
    exact double_mono_of_nonneg isNonneg isOne
  rw [sliceBytes]
  exact Int.ceil_pos.mpr (lt_of_lt_of_le (by norm_num) isRounded)

theorem Inv.slice (isInv : Inv config trace) (flip : Nat) (isInline : Bool) (marker : Int → Nat)
    {start finish : Int} (isStart : trace.clock ≤ start) (isFinish : start ≤ finish) :
    Inv config (step config trace (.slice flip isInline marker start finish)) := by
  obtain ⟨isTrimmed, isSame, isSpent, -, isCost⟩ := trim_spec isInv.sound start
  have isPriced := priced_cost config isInv.priced
  have isSeededCost : revokeCostPerChange config (trim start trace.budget) =
      revokeCostPerChange config trace.budget := by
    rw [revokeCostPerChange, revokeCostPerChange, isCost]
  generalize isSeeded : ({ trim start trace.budget with
    cost := some (revokeCostPerChange config (trim start trace.budget)) } : Budget) = seeded
  have isSeededSound : Sound start seeded := by
    rw [← isSeeded]
    exact ⟨isTrimmed.ordered, (isTrimmed.later isStart).charged, isTrimmed.spent⟩
  have isSeededAgrees : ∀ later, start ≤ later →
      windowSum seeded.ledger later = windowSum trace.charges later := by
    intro later isLater
    rw [← isSeeded]
    exact (isSame later isLater).trans (isInv.agrees later (Int.le_trans isStart isLater))
  have isSeededPriced : ∀ cost ∈ seeded.cost, Priced config cost := by
    rw [← isSeeded]
    rintro _ ⟨⟩
    rw [isSeededCost]
    exact isPriced
  have isClock := Int.le_trans isStart isFinish
  have isOver : ∀ {excess direct : Int}, 0 ≤ excess → 0 ≤ direct →
      windowSum trace.charges finish ≤ config.bytesPerMinute + excess + direct →
      Inv config ⟨seeded, trace.charges, finish, excess, direct⟩ := fun isExcess isDirect isBound =>
    ⟨isSeededSound.later isFinish, isInv.charged,
      fun later isLater => isSeededAgrees later (Int.le_trans isFinish isLater), isSeededPriced,
      ⟨isExcess, isDirect⟩, isBound⟩
  rw [step, budgetedMarkerSlice]
  simp only [isSeeded]
  cases isAdmitted : admission config flip isInline seeded with
  | none => exact isOver isInv.notNegative.1 isInv.notNegative.2 (isInv.bounded_later isClock)
  | some room =>
    dsimp only
    generalize marker (room - MARKER_STEP_RESERVE) = changed
    have isFree := isInv.freeAt_eq isStart
    have isWithin := admission_within isSeededPriced isAdmitted
    have isSeededSpent : seeded.spent = windowSum trace.charges start := by
      rw [← isSeeded]
      exact isSpent.trans (isInv.agrees start isStart)
    have isLater := windowSum_antitone isInv.charged isFinish
    by_cases isChanged : 0 < changed
    · have isBytes : sliceBytes config changed seeded = sliceBytes config changed trace.budget := by
        rw [sliceBytes, sliceBytes, ← isSeeded]
        exact congrArg (fun cost : ℚ => ⌈rounded (changed * cost)⌉) isSeededCost
      have isPos := sliceBytes_pos isInv.priced isChanged
      rw [← isBytes] at isPos
      obtain ⟨isNoted, isNotedSame, isNotedCost⟩ :=
        noteRevokeBytes_spec isSeededSound isPos isFinish
      simp only [if_pos isChanged, isBytes] at isNoted isNotedSame isNotedCost ⊢
      rw [isBytes] at isPos
      refine ⟨isNoted, ?_, ?_, ?_, ⟨le_max_left _ _, le_refl 0⟩, ?_⟩
      · intro entry isEntry
        rcases List.mem_append.mp isEntry with isOld | isIt
        · exact isInv.charged entry isOld
        · rw [List.mem_singleton.mp isIt]
          exact isPos
      · intro later isAfter
        dsimp only
        rw [isNotedSame later isAfter, windowSum_append,
          isSeededAgrees later (Int.le_trans isFinish isAfter)]
      · dsimp only
        rw [isNotedCost]
        exact isSeededPriced
      · have isEmpty : windowSum [] finish = 0 := rfl
        dsimp only
        rw [windowSum_append, windowSum_cons, isEmpty, isFree]
        dsimp only
        split_ifs <;> omega
    · simp only [if_neg isChanged]
      exact isOver (le_refl 0) (le_refl 0) (by omega)

/-- **Between calls** the ledger, the cost and the bound hold. -/
theorem run_inv (calls : List Call) (isTimed : Timed trace.clock calls) (isInv : Inv config trace) :
    Inv config (run config trace calls) := by
  induction calls generalizing trace with
  | nil => exact isInv
  | cons call calls ih =>
    rw [run, List.foldl_cons]
    cases call with
    | noteBytes bytes now =>
      exact ih isTimed.2 (isInv.noteBytes bytes isTimed.1)
    | noteCost bytes rows => exact ih isTimed (isInv.noteCost bytes rows)
    | slice flip isInline marker start finish =>
      refine ih ?_ (isInv.slice flip isInline marker isTimed.1 isTimed.2.1)
      rw [step]
      split <;> exact isTimed.2.2
    | read now => exact ih isTimed.2 (isInv.read isTimed.1)

theorem inv_start (config : Config) (clock : Int) : Inv config { clock := clock } where
  sound := ⟨List.Pairwise.nil, nofun, rfl⟩
  charged := nofun
  agrees _ _ := rfl
  priced := nofun
  notNegative := ⟨le_refl 0, le_refl 0⟩
  bounded := by
    have isBudget := config.isBudget
    have isEmpty : windowSum [] clock = 0 := rfl
    dsimp only
    omega

/-- **The budget admits safely and does not starve.** After any calls under a clock that never goes
back, at any moment from the last one on: the bytes written are the charges of the last minute; the
cost is between an eighth of its ceiling and the ceiling; the wait for bytes that a minute can hold
is the least; where a minute holds a least slice and the waiting flip at the ceiling, a slice is
admitted after the wait for what it needs, if rounding did not take the price of its rows below what
they cost; and the charges of the minute exceed the budget by no more than the most recent slice was
charged past the bytes free at its admission, and what was charged directly since. -/
theorem budget_holds (config : Config) (clock : Int) (calls : List Call)
    (isTimed : Timed clock calls) :
    let trace := run config { clock := clock } calls
    ∀ now, trace.clock ≤ now →
      revokeBytesWritten now trace.budget = windowSum trace.charges now ∧
      (config.revokeChangeCeiling / 8 ≤ revokeCostPerChange config trace.budget ∧
        revokeCostPerChange config trace.budget ≤ config.revokeChangeCeiling) ∧
      (∀ need, 0 < need → need ≤ config.bytesPerMinute →
        let wait := revokeWriteWaitMs config need now trace.budget
        0 ≤ wait ∧
          revokeBytesWritten (now + wait) trace.budget + need ≤ config.bytesPerMinute ∧
          ∀ shorter, 0 ≤ shorter → shorter < wait →
            ¬ revokeBytesWritten (now + shorter) trace.budget + need ≤ config.bytesPerMinute) ∧
      (∀ (flip : Nat) isInline marker finish,
        (MARKER_STEP_RESERVE + MIN_SLICE_CHANGES) * config.revokeChangeCeiling ≤
          config.bytesPerMinute →
        flip * config.revokeChangeCeiling ≤ config.bytesPerMinute →
        revokeCostPerChange config trace.budget * needRows flip false ≤
          ⌈rounded (revokeCostPerChange config trace.budget * needRows flip false)⌉ →
        let wait := revokeWriteWaitMs config (revokeSliceNeed config flip trace.budget) now
          trace.budget
        (budgetedMarkerSlice config flip isInline marker (now + wait) finish
          trace.budget).2.isSome = true) ∧
      windowSum trace.charges now ≤ config.bytesPerMinute + trace.excess + trace.direct := by
  intro trace now isNow
  have isInv : Inv config trace := run_inv calls isTimed (inv_start config clock)
  have isWritten : ∀ later, now ≤ later →
      revokeBytesWritten later trace.budget = windowSum trace.budget.ledger later := by
    intro later _
    exact (trim_spec isInv.sound later).2.2.1
  refine ⟨?_, ?_, ?_, ?_, isInv.bounded_later isNow⟩
  · rw [isWritten now (le_refl now), isInv.agrees now isNow]
  · have isCost := priced_cost config isInv.priced
    rw [Priced, REVOKE_COST_FLOOR, mul_one_div] at isCost
    exact isCost
  · intro need _ isNeed wait
    obtain ⟨notNegative, fits, least⟩ : LeastWait config trace.budget.ledger need now
        (revokeWriteWaitMs config need now trace.budget) :=
      revokeWriteWaitMs_least config isInv.sound isNeed
    refine ⟨notNegative, ?_, fun shorter isNonneg isShorter => ?_⟩
    · rw [isWritten _ (by omega)]
      exact fits
    · rw [isWritten _ (by omega)]
      exact not_le.mpr (least shorter isNonneg isShorter)
  · intro flip isInline marker finish isMinute isFlip isKept wait
    have isNeed : revokeSliceNeed config flip trace.budget ≤ config.bytesPerMinute :=
      min_le_right _ _
    obtain ⟨-, fits, -⟩ : LeastWait config trace.budget.ledger _ now wait :=
      revokeWriteWaitMs_least config isInv.sound isNeed
    obtain ⟨-, -, isSpent, -, isCost⟩ := trim_spec isInv.sound (now + wait)
    have isTrimmedCost : revokeCostPerChange config (trim (now + wait) trace.budget) =
        revokeCostPerChange config trace.budget := by
      rw [revokeCostPerChange, revokeCostPerChange, isCost]
    rw [budgetedMarkerSlice, isTrimmedCost]
    generalize isSeeded : ({ trim (now + wait) trace.budget with
      cost := some (revokeCostPerChange config trace.budget) } : Budget) = seeded
    have isSeededCost : revokeCostPerChange config seeded =
        revokeCostPerChange config trace.budget := by
      rw [← isSeeded]
      rfl
    have isAdmitted : (admission config flip isInline seeded).isSome = true := by
      apply admission_isSome config _ flip isInline isMinute isFlip
      · rw [isSeededCost]
        exact isKept
      · rw [revokeSliceNeed, isSeededCost, ← revokeSliceNeed, ← isSeeded]
        dsimp only
        rw [isSpent]
        exact fits
      · rw [← isSeeded]
        rintro _ ⟨⟩
        exact priced_cost config isInv.priced
    obtain ⟨room, isRoom⟩ := Option.isSome_iff_exists.mp isAdmitted
    simp only [isRoom]
    split <;> rfl

/-- A minute of 20 MiB over pages of 4096 bytes. -/
def shipped : Config := ⟨20 * 1024 * 1024, 4096, by decide, by decide⟩

theorem budget_holds_example :
    revokeBytesWritten 10 (run shipped { clock := 0 } [.noteBytes 5 3]).budget = 5 :=
  (budget_holds shipped 0 [.noteBytes 5 3] ⟨by decide, trivial⟩ 10 (by decide)).1

/-- Bytes charged directly are past the budget with no slice at all. -/
theorem direct_over :
    (run shipped { clock := 0 } [.noteBytes (2 * 20 * 1024 * 1024) 1]).excess = 0 ∧
      Timed 0 [.noteBytes (2 * 20 * 1024 * 1024) 1] ∧
      shipped.bytesPerMinute <
        windowSum (run shipped { clock := 0 } [.noteBytes (2 * 20 * 1024 * 1024) 1]).charges 1 :=
  ⟨rfl, ⟨by decide, trivial⟩, by decide⟩

end Murage.RevokeBudget
