import Murage.RevokeBudget.Model

/-!
Owns what the ledger says: at any later moment its entries of the last minute are the charges of the
last minute, and the wait is the least that leaves room. Then the cost of a row, which stays between
its floor and its ceiling, and the admission of a slice, to which the room that the wait is for is
enough.

Does not own: the runs of the budget.
-/

namespace Murage.RevokeBudget

/-- The bytes of the entries dated within the minute up to a moment. -/
def windowSum (entries : List Entry) (now : Int) : Int :=
  ((entries.filter fun entry => now - REVOKE_WRITE_WINDOW_MS < entry.dated).map (·.bytes)).sum

def total (entries : List Entry) : Int := (entries.map (·.bytes)).sum

theorem windowSum_cons (entry : Entry) (entries : List Entry) (now : Int) :
    windowSum (entry :: entries) now =
      (if now - REVOKE_WRITE_WINDOW_MS < entry.dated then entry.bytes else 0) +
        windowSum entries now := by
  unfold windowSum
  rw [List.filter_cons]
  by_cases isRecent : now - REVOKE_WRITE_WINDOW_MS < entry.dated <;> simp [isRecent]

theorem windowSum_append (left right : List Entry) (now : Int) :
    windowSum (left ++ right) now = windowSum left now + windowSum right now := by
  unfold windowSum
  rw [List.filter_append, List.map_append, List.sum_append]

variable {entries : List Entry}

theorem windowSum_antitone (isCharge : ∀ entry ∈ entries, 0 < entry.bytes) {now later : Int}
    (isLater : now ≤ later) : windowSum entries later ≤ windowSum entries now := by
  induction entries with
  | nil => exact le_refl _
  | cons entry entries ih =>
    have isHere := isCharge entry List.mem_cons_self
    have isRest := ih fun other isOther =>
      isCharge other (List.mem_cons_of_mem _ isOther)
    rw [windowSum_cons, windowSum_cons]
    split_ifs <;> omega

theorem windowSum_total {now : Int}
    (isRecent : ∀ entry ∈ entries, now - REVOKE_WRITE_WINDOW_MS < entry.dated) :
    windowSum entries now = total entries := by
  unfold windowSum total
  rw [List.filter_eq_self.mpr fun entry isEntry => decide_eq_true (isRecent entry isEntry)]

/-- A ledger in order: one entry to a millisecond, each with bytes, and the sum beside it. -/
structure Sound (clock : Int) (budget : Budget) : Prop where
  ordered : budget.ledger.Pairwise fun a b => a.dated < b.dated
  charged : ∀ entry ∈ budget.ledger, 0 < entry.bytes ∧ entry.dated ≤ clock
  spent : budget.spent = total budget.ledger

variable {clock now : Int} {budget : Budget}

theorem trimFrom_eq (isOrdered : entries.Pairwise fun a b => a.dated < b.dated) (now : Int) :
    trimFrom now entries (total entries) =
      (entries.filter fun entry => now - REVOKE_WRITE_WINDOW_MS < entry.dated,
        windowSum entries now) := by
  induction entries with
  | nil => rfl
  | cons entry entries ih =>
    rw [List.pairwise_cons] at isOrdered
    rw [trimFrom, windowSum_cons]
    by_cases isOld : entry.dated ≤ now - REVOKE_WRITE_WINDOW_MS
    · have isRest : total (entry :: entries) - entry.bytes = total entries := by
        simp [total]
      rw [if_pos isOld, isRest, ih isOrdered.2, if_neg (by omega),
        List.filter_cons_of_neg (by simpa using isOld), Int.zero_add]
    · have isRecent : ∀ other ∈ entry :: entries,
          now - REVOKE_WRITE_WINDOW_MS < other.dated := by
        intro other isOther
        rcases List.mem_cons.mp isOther with rfl | isRest
        · omega
        · have isAfter := isOrdered.1 other isRest
          omega
      rw [if_neg isOld, ← windowSum_cons, windowSum_total isRecent,
        List.filter_eq_self.mpr fun other isOther => decide_eq_true (isRecent other isOther)]

/-- Trimming keeps a ledger sound, keeps what it says of every later moment, and leaves the bytes of
the minute. -/
theorem trim_spec (isSound : Sound clock budget) (now : Int) :
    Sound clock (trim now budget) ∧
      (∀ later, now ≤ later →
        windowSum (trim now budget).ledger later = windowSum budget.ledger later) ∧
      (trim now budget).spent = windowSum budget.ledger now ∧
      (∀ entry ∈ (trim now budget).ledger, now - REVOKE_WRITE_WINDOW_MS < entry.dated) ∧
      (trim now budget).cost = budget.cost := by
  have isTrimmed := trimFrom_eq isSound.ordered now
  rw [← isSound.spent] at isTrimmed
  have isLedger : (trim now budget).ledger =
      budget.ledger.filter fun entry => now - REVOKE_WRITE_WINDOW_MS < entry.dated :=
    congrArg Prod.fst isTrimmed
  have isSpent : (trim now budget).spent = windowSum budget.ledger now :=
    congrArg Prod.snd isTrimmed
  refine ⟨⟨?_, ?_, ?_⟩, ?_, isSpent, ?_, rfl⟩
  · rw [isLedger]
    exact isSound.ordered.filter _
  · rw [isLedger]
    exact fun entry isEntry => isSound.charged entry (List.mem_filter.mp isEntry).1
  · rw [isLedger, isSpent]
    rfl
  · intro later isLater
    rw [isLedger, windowSum, windowSum, List.filter_filter]
    congr 2
    apply List.filter_congr
    intro entry _
    rw [Bool.eq_iff_iff, Bool.and_eq_true, decide_eq_true_eq, decide_eq_true_eq]
    omega
  · intro entry isEntry
    rw [isLedger] at isEntry
    exact of_decide_eq_true (List.mem_filter.mp isEntry).2

theorem noteRevokeBytes_spec (isSound : Sound clock budget) {bytes : Int} (isBytes : 0 < bytes)
    (isNow : clock ≤ now) :
    Sound now (noteRevokeBytes bytes now budget) ∧
      (∀ later, now ≤ later → windowSum (noteRevokeBytes bytes now budget).ledger later =
        windowSum budget.ledger later + windowSum [⟨now, bytes⟩] later) ∧
      (noteRevokeBytes bytes now budget).cost = budget.cost := by
  obtain ⟨isTrimmed, isSame, -, -, isCost⟩ := trim_spec isSound now
  have isCharged : ∀ entry ∈ (trim now budget).ledger, 0 < entry.bytes ∧ entry.dated ≤ now :=
    fun entry isEntry => ⟨(isTrimmed.charged entry isEntry).1,
      Int.le_trans (isTrimmed.charged entry isEntry).2 isNow⟩
  have isNew : ∀ entry ∈ (trim now budget).ledger ++ [Entry.mk now bytes],
      0 < entry.bytes ∧ entry.dated ≤ now := by
    intro entry isEntry
    rcases List.mem_append.mp isEntry with isOld | isIt
    · exact isCharged entry isOld
    · rw [List.mem_singleton.mp isIt]
      exact ⟨isBytes, Int.le_refl now⟩
  have isTotal : total ((trim now budget).ledger ++ [Entry.mk now bytes]) =
      (trim now budget).spent + bytes := by
    rw [isTrimmed.spent]
    simp [total]
  rw [noteRevokeBytes, if_pos isBytes]
  dsimp only
  cases isLast : (trim now budget).ledger.getLast? with
  | none =>
    have isNone := List.getLast?_eq_none_iff.mp isLast
    dsimp only
    refine ⟨⟨?_, isNew, isTotal.symm⟩, ?_, isCost⟩
    · rw [isNone]
      exact List.pairwise_singleton _ _
    · intro later isLater
      rw [windowSum_append, isSame later isLater]
  | some last =>
    obtain ⟨front, isFront⟩ := List.getLast?_eq_some_iff.mp isLast
    have isOrdered := isTrimmed.ordered
    rw [isFront] at isOrdered
    obtain ⟨isFrontOrdered, -, isBefore⟩ := List.pairwise_append.mp isOrdered
    dsimp only
    by_cases isMerged : last.dated = now
    · rw [if_pos isMerged, isFront, List.dropLast_concat]
      have isLastCharged := isCharged last (isFront ▸ List.mem_append_right _ List.mem_cons_self)
      refine ⟨⟨?_, ?_, ?_⟩, ?_, isCost⟩
      · refine List.pairwise_append.mpr ⟨isFrontOrdered, List.pairwise_singleton _ _, ?_⟩
        intro entry isEntry other isOther
        rw [List.mem_singleton.mp isOther]
        exact isBefore entry isEntry last List.mem_cons_self
      · intro entry isEntry
        rcases List.mem_append.mp isEntry with isOld | isIt
        · exact isCharged entry (isFront ▸ List.mem_append_left _ isOld)
        · rw [List.mem_singleton.mp isIt]
          exact ⟨by dsimp only; omega, isLastCharged.2⟩
      · rw [isTrimmed.spent, isFront]
        simp [total]
        omega
      · intro later isLater
        rw [← isSame later isLater, isFront, windowSum_append, windowSum_append, windowSum_cons,
          windowSum_cons, windowSum_cons, isMerged]
        have isEmpty : windowSum [] later = 0 := rfl
        dsimp only
        split_ifs <;> omega
    · rw [if_neg isMerged]
      refine ⟨⟨?_, isNew, isTotal.symm⟩, ?_, isCost⟩
      · refine List.pairwise_append.mpr
          ⟨isTrimmed.ordered, List.pairwise_singleton _ _, ?_⟩
        intro entry isEntry other isOther
        rw [List.mem_singleton.mp isOther]
        have isLastNow := (isCharged last (isFront ▸ List.mem_append_right _ List.mem_cons_self)).2
        rw [isFront] at isEntry
        rcases List.mem_append.mp isEntry with isEarlier | isIt
        · have isLess := isBefore entry isEarlier last List.mem_cons_self
          dsimp only
          omega
        · rw [List.mem_singleton.mp isIt]
          dsimp only
          omega
      · intro later isLater
        rw [windowSum_append, isSame later isLater]

/-! ## The wait -/

variable (config : Config) {need : Int}

structure LeastWait (entries : List Entry) (need now wait : Int) : Prop where
  notNegative : 0 ≤ wait
  fits : windowSum entries (now + wait) + need ≤ config.bytesPerMinute
  least : ∀ shorter, 0 ≤ shorter → shorter < wait →
    config.bytesPerMinute < windowSum entries (now + shorter) + need

theorem waitFrom_least (isOrdered : entries.Pairwise fun a b => a.dated < b.dated)
    (isCharged : ∀ entry ∈ entries, 0 < entry.bytes)
    (isRecent : ∀ entry ∈ entries, now - REVOKE_WRITE_WINDOW_MS < entry.dated)
    (isFull : config.bytesPerMinute < total entries + need) (isNeed : need ≤ config.bytesPerMinute) :
    LeastWait config entries need now (waitFrom config need now entries (total entries)) := by
  induction entries with
  | nil =>
    have isNone : total [] = 0 := rfl
    omega
  | cons entry entries ih =>
    rw [List.pairwise_cons] at isOrdered
    have isRest : total (entry :: entries) - entry.bytes = total entries := by
      simp [total]
    have isEntry := isRecent entry List.mem_cons_self
    have isBytes := isCharged entry List.mem_cons_self
    have isLater : ∀ moment, moment - REVOKE_WRITE_WINDOW_MS < entry.dated →
        windowSum (entry :: entries) moment = total (entry :: entries) := by
      intro moment isIn
      apply windowSum_total
      intro other isOther
      rcases List.mem_cons.mp isOther with rfl | isAfter
      · exact isIn
      · exact Int.lt_trans isIn (isOrdered.1 other isAfter)
    have isRestCharged : ∀ other ∈ entries, 0 < other.bytes := fun other isOther =>
      isCharged other (List.mem_cons_of_mem _ isOther)
    rw [waitFrom, isRest]
    by_cases isRoom : total entries + need ≤ config.bytesPerMinute
    · rw [if_pos isRoom]
      have isWait : max 1 (entry.dated + REVOKE_WRITE_WINDOW_MS - now) =
          entry.dated + REVOKE_WRITE_WINDOW_MS - now := by omega
      rw [isWait]
      refine ⟨by omega, ?_, ?_⟩
      · rw [windowSum_cons, if_neg (by omega), windowSum_total fun other isOther => ?_]
        · omega
        · have isAfter := isOrdered.1 other isOther
          omega
      · intro shorter _ isShorter
        rw [isLater _ (by omega)]
        exact isFull
    · rw [if_neg isRoom]
      obtain ⟨notNegative, fits, least⟩ := ih isOrdered.2 isRestCharged
        (fun other isOther => isRecent other (List.mem_cons_of_mem _ isOther)) (by omega)
      refine ⟨notNegative, ?_, ?_⟩
      · rw [windowSum_cons]
        by_cases isIn : now + waitFrom config need now entries (total entries) -
            REVOKE_WRITE_WINDOW_MS < entry.dated
        · -- the entry is still in, so all after it are, and those left no room
          have isAll : windowSum entries (now + waitFrom config need now entries (total entries)) =
              total entries := by
            apply windowSum_total
            intro other isOther
            exact Int.lt_trans isIn (isOrdered.1 other isOther)
          omega
        · rw [if_neg isIn]
          omega
      · intro shorter isNonneg isShorter
        have isLess := least shorter isNonneg isShorter
        rw [windowSum_cons]
        split_ifs <;> omega

/-- **The wait is the least.** -/
theorem revokeWriteWaitMs_least (isSound : Sound clock budget) (isNeed : need ≤ config.bytesPerMinute) :
    LeastWait config budget.ledger need now (revokeWriteWaitMs config need now budget) := by
  obtain ⟨isTrimmed, isSame, isSpent, isRecent, -⟩ := trim_spec isSound now
  rw [revokeWriteWaitMs]
  by_cases isRoom : (trim now budget).spent + need ≤ config.bytesPerMinute
  · rw [if_pos isRoom]
    refine ⟨Int.le_refl 0, ?_, fun shorter isNonneg isShorter => by omega⟩
    rw [Int.add_zero, ← isSpent]
    exact isRoom
  · rw [if_neg isRoom, isTrimmed.spent]
    rw [isTrimmed.spent] at isRoom
    obtain ⟨notNegative, fits, least⟩ := waitFrom_least config isTrimmed.ordered
      (fun entry isEntry => (isTrimmed.charged entry isEntry).1) isRecent (by omega) isNeed
    refine ⟨notNegative, ?_, fun shorter isNonneg isShorter => ?_⟩
    · rw [← isSame _ (by omega)]
      exact fits
    · rw [← isSame _ (by omega)]
      exact least shorter isNonneg isShorter

end Murage.RevokeBudget

namespace Murage.RevokeBudget

open Murage.Library.Binary64

variable (config : Config) {budget : Budget} {clock now : Int}

theorem Config.ceiling_pos : 0 < config.revokeChangeCeiling := by
  have isPage := config.isPage
  rw [Config.revokeChangeCeiling, Config.frameBytes, REVOKE_CHANGE_CEILING_FRAMES, FRAME_HEADER]
  omega

/-- C is between an eighth of the ceiling and the ceiling. -/
def Priced (cost : ℚ) : Prop :=
  (config.revokeChangeCeiling : ℚ) * REVOKE_COST_FLOOR ≤ cost ∧ cost ≤ config.revokeChangeCeiling

theorem priced_ceiling : Priced config config.revokeChangeCeiling := by
  have isPos : (0 : ℚ) < config.revokeChangeCeiling := by exact_mod_cast config.ceiling_pos
  refine ⟨?_, le_refl _⟩
  rw [REVOKE_COST_FLOOR]
  linarith

theorem Priced.pos {cost : ℚ} (isPriced : Priced config cost) : 0 < cost := by
  have isPos : (0 : ℚ) < config.revokeChangeCeiling := by exact_mod_cast config.ceiling_pos
  have isFloor := isPriced.1
  rw [REVOKE_COST_FLOOR] at isFloor
  linarith

theorem priced_cost (isPriced : ∀ cost ∈ budget.cost, Priced config cost) :
    Priced config (revokeCostPerChange config budget) := by
  rw [revokeCostPerChange]
  cases isCost : budget.cost with
  | none => exact priced_ceiling config
  | some cost => exact isPriced cost isCost

theorem noteRevokeCost_priced (bytes rows : ℚ) (isPriced : ∀ cost ∈ budget.cost, Priced config cost) :
    ∀ cost ∈ (noteRevokeCost config bytes rows budget).cost, Priced config cost := by
  rw [noteRevokeCost]
  split
  · exact isPriced
  · rintro _ ⟨⟩
    refine ⟨le_max_left _ _, max_le (priced_ceiling config).1 (min_le_left _ _)⟩

/-! ## Rounding -/

theorem double_int {n : Int} (isNonneg : 0 ≤ n) (isSafe : n < 2 ^ 53) : double n = n := by
  obtain ⟨m, rfl⟩ := Int.eq_ofNat_of_zero_le isNonneg
  rcases Nat.eq_zero_or_pos m with rfl | isPos
  · exact_mod_cast double_zero
  · have isLog : Int.log 2 (((m : Int) : ℚ)) = Nat.log 2 m := by
      rw [Int.cast_natCast]
      exact Int.log_natCast 2 m
    have isSmall : Nat.log 2 m ≤ 52 := by
      have isBelow : Nat.log 2 m < 53 := Nat.log_lt_of_lt_pow (by omega) (by exact_mod_cast isSafe)
      omega
    have isExponent : exponent (((m : Int) : ℚ)) = Nat.log 2 m := by
      rw [exponent, isLog]
      omega
    apply double_eq_self (m * 2 ^ (52 - Nat.log 2 m))
    have isPower : ((2 : ℚ) ^ (52 - Nat.log 2 m)) * (2 : ℚ) ^ ((Nat.log 2 m : Int) - 52) = 1 := by
      rw [← zpow_natCast, ← zpow_add₀ two_ne_zero]
      have isZero : ((52 - Nat.log 2 m : Nat) : Int) + ((Nat.log 2 m : Int) - 52) = 0 := by omega
      rw [isZero, zpow_zero]
    rw [ulp, isExponent]
    push_cast
    rw [mul_assoc, isPower, mul_one]

theorem rounded_nonneg {x : ℚ} (isNonneg : 0 ≤ x) : rounded x = double x :=
  if_neg (not_lt.mpr isNonneg)

theorem le_floor_rounded {n : Int} {x : ℚ} (isNonneg : 0 ≤ n) (isSafe : n < 2 ^ 53)
    (isReached : (n : ℚ) ≤ x) : n ≤ ⌊rounded x⌋ := by
  have isCast : (0 : ℚ) ≤ n := by exact_mod_cast isNonneg
  rw [rounded_nonneg (le_trans isCast isReached), Int.le_floor, ← double_int isNonneg isSafe]
  exact double_mono_of_nonneg isCast isReached

theorem ceil_rounded_le {n : Int} {x : ℚ} (isNonneg : 0 ≤ x) (isSafe : n < 2 ^ 53)
    (isWithin : x ≤ (n : ℚ)) : ⌈rounded x⌉ ≤ n := by
  have isInt : 0 ≤ n := by exact_mod_cast le_trans isNonneg isWithin
  rw [rounded_nonneg isNonneg, Int.ceil_le, ← double_int isInt isSafe]
  exact double_mono_of_nonneg isNonneg isWithin

/-! ## Admission -/

theorem needRows_pos (flip : Nat) (isInline : Bool) : 0 < needRows flip isInline := by
  rw [needRows, MARKER_STEP_RESERVE, MIN_SLICE_CHANGES]
  omega

theorem needRows_le (flip : Nat) (isInline : Bool) :
    needRows flip isInline ≤ needRows flip false := by
  rw [needRows, needRows]
  cases isInline with
  | false => exact Int.le_refl _
  | true =>
    rw [if_pos rfl, if_neg Bool.false_ne_true]
    omega

/-- **What the wait is for admits.** With the bytes a slice needs free, it is admitted, if a minute
holds a least slice and the waiting flip at the ceiling, and rounding did not take the price of the
rows below what they cost. -/
theorem admission_isSome (isPriced : ∀ cost ∈ budget.cost, Priced config cost) (flip : Nat)
    (isInline : Bool)
    (isMinute : (MARKER_STEP_RESERVE + MIN_SLICE_CHANGES) * config.revokeChangeCeiling ≤
      config.bytesPerMinute)
    (isFlip : flip * config.revokeChangeCeiling ≤ config.bytesPerMinute)
    (isPriceKept : revokeCostPerChange config budget * needRows flip false ≤
      ⌈rounded (revokeCostPerChange config budget * needRows flip false)⌉)
    (isFree : budget.spent + revokeSliceNeed config flip budget ≤ config.bytesPerMinute) :
    (admission config flip isInline budget).isSome = true := by
  have isCost := priced_cost config isPriced
  have isPos := isCost.pos
  have isBudget := config.isBudget
  have isCeiling := config.ceiling_pos
  have isNeed := needRows_pos flip false
  have isRows : needRows flip false * config.revokeChangeCeiling ≤ config.bytesPerMinute := by
    rcases le_total (MARKER_STEP_RESERVE + MIN_SLICE_CHANGES) (flip : Int) with isMore | isLess
    · rw [needRows, if_neg Bool.false_ne_true, max_eq_right isMore]
      exact isFlip
    · rw [needRows, if_neg Bool.false_ne_true, max_eq_left isLess]
      exact isMinute
  have isNeedSafe : needRows flip false < 2 ^ 53 := by nlinarith
  -- the rows cost at most what they do at the ceiling, so their price is within the minute
  have isPrice : revokeCostPerChange config budget * needRows flip false ≤
      (config.bytesPerMinute : ℚ) := by
    have isCast : ((needRows flip false * config.revokeChangeCeiling : Int) : ℚ) ≤
        (config.bytesPerMinute : ℚ) := by exact_mod_cast isRows
    rw [Int.cast_mul] at isCast
    have isNonneg : (0 : ℚ) ≤ needRows flip false := by exact_mod_cast Int.le_of_lt isNeed
    nlinarith [mul_le_mul_of_nonneg_right isCost.2 isNonneg]
  have isPriceNonneg : 0 ≤ revokeCostPerChange config budget * needRows flip false :=
    mul_nonneg (le_of_lt isPos) (by exact_mod_cast Int.le_of_lt isNeed)
  have isWhole : ⌈rounded (revokeCostPerChange config budget * needRows flip false)⌉ ≤
      config.bytesPerMinute := ceil_rounded_le isPriceNonneg isBudget.2 isPrice
  rw [revokeSliceNeed, min_eq_left isWhole] at isFree
  have isRoom : needRows flip false ≤ roomOf config budget := by
    apply le_floor_rounded (Int.le_of_lt isNeed) isNeedSafe
    rw [le_div_iff₀ isPos, mul_comm]
    refine le_trans isPriceKept ?_
    exact_mod_cast (by omega)
  rw [admission, if_neg (not_lt.mpr (le_trans (needRows_le flip isInline) isRoom))]
  rfl

end Murage.RevokeBudget
