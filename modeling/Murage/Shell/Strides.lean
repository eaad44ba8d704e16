import Mathlib.Algebra.Order.Group.Unbundled.Int
import Murage.Library.WholeDoubles
import Murage.Shell.Ranges

/-!
Owns the loop over a range of numbers: which number follows a number, at which numbers the loop
stands still, and the numbers of every range whose ends are near each other.

Does not own: how the ends are spelled, and what becomes of the numbers.
-/

namespace Murage.Shell

open Murage.Library.WholeDoubles

/-! ## One step -/

/-- A number that neither of its neighbours rounds to: 2 from the next doubles, and odd among
these. -/
def Lone (value : Int) : Prop :=
  2 ^ 53 < value.natAbs ∧ value.natAbs < 2 ^ 54 ∧ value % 4 = 2

instance (value : Int) : Decidable (Lone value) := inferInstanceAs (Decidable (_ ∧ _ ∧ _))

variable {value : Int}

theorem kept_of_small (isSmall : value.natAbs ≤ 2 ^ 53) : Kept value :=
  ⟨roundNat_small isSmall, lt_limit (by omega)⟩

theorem Kept.neg (isKept : Kept value) : Kept (-value) := by
  rwa [Kept, Int.natAbs_neg]

theorem Kept.of_neg (isKept : Kept (-value)) : Kept value := by
  rwa [Kept, Int.natAbs_neg] at isKept

theorem Kept.even (isKept : Kept value) (isLarge : 2 ^ 53 < value.natAbs) :
    value % 2 = 0 := by
  have isEven := even_of_round isLarge.le isKept.1
  omega

theorem Lone.kept (isLone : Lone value) : Kept value := by
  obtain ⟨isLarge, isSmall, isTwo⟩ := isLone
  refine ⟨?_, lt_limit (by omega)⟩
  rw [roundNat_band isLarge.le isSmall, if_neg (by omega), if_neg (by omega)]

theorem ofInt_rounded {n : Int} (isKept : Kept value) (isRound : roundNat n.natAbs = value.natAbs)
    (isSigned : n < 0 ↔ value < 0) :
    Num.ofInt n = .finite value := by
  rw [Num.ofInt, isRound, if_neg (Nat.not_le_of_lt isKept.2)]
  congr 1
  by_cases isNegative : n < 0
  · rw [if_pos isNegative]
    omega
  · rw [if_neg isNegative]
    omega

theorem next_near (isAbove : -2 ^ 53 ≤ value) (isBelow : value < 2 ^ 53) :
    (Num.finite value).next true = .finite (value + 1) := by
  have isKept : Kept (value + 1) := kept_of_small (by omega)
  exact Num.ofInt_kept isKept

theorem next_lone (isLone : Lone value) :
    (Num.finite value).next true = .finite (value + 2) := by
  obtain ⟨isLarge, isSmall, isTwo⟩ := isLone
  have isBand : roundNat (value + 1).natAbs = (value + 2).natAbs := by
    rw [roundNat_band (by omega) (by omega)]
    split_ifs <;> omega
  have isKept : Kept (value + 2) := by
    refine ⟨?_, lt_limit (by omega)⟩
    rw [← isBand, roundNat_roundNat]
  exact ofInt_rounded isKept isBand (by omega)

/-- Where the loop on its way up stands still. -/
def Standing (value : Int) : Prop :=
  (2 ^ 53 ≤ value ∨ value < -2 ^ 53) ∧ (value % 4 = 0 ∨ 2 ^ 54 ≤ value.natAbs)

theorem next_standing (isKept : Kept value) (isStanding : Standing value) :
    (Num.finite value).next true = .finite value := by
  obtain ⟨isFar, isStill⟩ := isStanding
  have isRound : roundNat (value + 1).natAbs = value.natAbs := by
    by_cases isLarge : 2 ^ 54 ≤ value.natAbs
    · by_cases isNegative : value < 0
      · rw [show (value + 1).natAbs = value.natAbs - 1 by omega]
        exact roundNat_pred_of_large isLarge isKept.1
      · rw [show (value + 1).natAbs = value.natAbs + 1 by omega]
        exact roundNat_succ_of_large isLarge isKept.1
    · rw [roundNat_band (by omega) (by omega)]
      split_ifs <;> omega
  exact ofInt_rounded isKept isRound (by omega)

theorem kept_cases (isKept : Kept value) :
    (-2 ^ 53 ≤ value ∧ value < 2 ^ 53) ∨ Lone value ∨ Standing value := by
  by_cases isLarge : 2 ^ 53 < value.natAbs
  · have isEven := isKept.even isLarge
    rw [Lone, Standing]
    omega
  · rw [Standing]
    omega

/-! ## The way down -/

theorem ofInt_neg (n : Int) : Num.ofInt (-n) = (Num.ofInt n).neg := by
  rw [Num.ofInt, Num.ofInt, Int.natAbs_neg]
  by_cases isZero : n = 0
  · have isPos : ¬ limit ≤ 0 := Nat.not_le_of_lt (lt_limit (by omega))
    rw [isZero, Int.natAbs_zero, roundNat_small (Nat.zero_le _), if_neg isPos, if_neg isPos]
    rfl
  · split
    · rw [Num.neg]
      congr 1
      rw [← decide_not]
      exact decide_eq_decide.2 (by omega)
    · rw [Num.neg]
      congr 1
      split_ifs <;> omega

namespace Num

theorem neg_neg (n : Num) : n.neg.neg = n := by
  cases n with
  | nan => rfl
  | infinite negative => rw [neg, neg, Bool.not_not]
  | finite value => rw [neg, neg, Int.neg_neg]

theorem neg_next (n : Num) : n.neg.next false = (n.next true).neg := by
  cases n with
  | nan => rfl
  | infinite negative => rfl
  | finite value =>
    change ofInt (-value + -1) = (ofInt (value + 1)).neg
    rw [← ofInt_neg, Int.neg_add]

theorem neg_within (n hi : Num) : n.neg.within false hi.neg = n.within true hi := by
  cases n with
  | nan => cases hi <;> rfl
  | infinite negative => cases hi with
      | nan => rfl
      | infinite other => cases negative <;> cases other <;> rfl
      | finite value => cases negative <;> rfl
  | finite value => cases hi with
      | nan => rfl
      | infinite other => cases other <;> rfl
      | finite hi => simp [within, le, neg]

end Num

/-- **The loop down is the loop up over the negative numbers.** -/
theorem rangeFrom_neg (hi : Num) (most : Nat) (n : Num) :
    rangeFrom false hi.neg most n.neg = (rangeFrom true hi most n).map (List.map Num.neg) := by
  induction most generalizing n with
  | zero => rfl
  | succ most ih =>
    have same : n.neg.next false = n.neg ↔ n.next true = n := by
      rw [Num.neg_next]
      refine ⟨fun isSame => ?_, congrArg Num.neg⟩
      rw [← Num.neg_neg (n.next true), isSame, Num.neg_neg]
    rw [rangeFrom, rangeFrom, Num.neg_within]
    by_cases isWithin : n.within true hi = true
    · rw [if_pos isWithin, if_pos isWithin]
      by_cases stands : n.next true = n
      · rw [if_pos stands, if_pos (same.2 stands)]
        rfl
      · rw [if_neg stands, if_neg (mt same.1 stands), Num.neg_next, ih,
          Option.map_map, Option.map_map]
        rfl
    · rw [if_neg isWithin, if_neg isWithin]
      rfl

/-! ## The numbers -/

/-- `count` whole numbers from `first` on. -/
def consecutive (first : Int) : Nat → List Int
  | 0 => []
  | count + 1 => first :: consecutive (first + 1) count

theorem consecutive_length (first : Int) (count : Nat) :
    (consecutive first count).length = count := by
  induction count generalizing first with
  | zero => rfl
  | succ count ih => rw [consecutive, List.length_cons, ih]

theorem consecutive_eq {first other : Int} {count number : Nat} (isSome : 0 < count)
    (same : consecutive first count = consecutive other number) :
    first = other ∧ count = number := by
  have isCount : count = number := by
    rw [← consecutive_length first count, same, consecutive_length]
  refine ⟨?_, isCount⟩
  obtain ⟨before, rfl⟩ := Nat.exists_eq_add_one_of_ne_zero isSome.ne'
  rw [← isCount, consecutive, consecutive] at same
  exact (List.cons.inj same).1

def EndsUp (lo hi : Int) : Prop := (-2 ^ 53 - 2 ≤ lo ∧ hi < 2 ^ 53) ∨ (lo = hi ∧ Lone lo)

/-- It visits each whole number between the ends. -/
def ExactUp (lo hi : Int) : Prop := (-2 ^ 53 ≤ lo ∧ hi < 2 ^ 53) ∨ (lo = hi ∧ Lone lo)

instance (lo hi : Int) : Decidable (ExactUp lo hi) := inferInstanceAs (Decidable (_ ∨ _))

variable {lo hi : Int} {most : Nat}

theorem rangeFrom_beyond {up : Bool} (isBeyond : ¬ Ahead up lo hi) :
    rangeFrom up (.finite hi) (most + 1) (.finite lo) = some [] := by
  rw [rangeFrom, if_neg (mt within_iff.1 isBeyond)]

theorem rangeFrom_step {next : Int} (ordered : lo ≤ hi) (differs : next ≠ lo)
    (isNext : (Num.finite lo).next true = .finite next) :
    rangeFrom true (.finite hi) (most + 1) (.finite lo)
      = (rangeFrom true (.finite hi) most (.finite next)).map (.finite lo :: ·) := by
  have moves : ¬ Num.finite next = .finite lo := fun same => differs (Num.finite.inj same)
  have isWithin : (Num.finite lo).within true (.finite hi) = true := within_iff.2 ordered
  rw [rangeFrom, if_pos isWithin, isNext, if_neg moves]

theorem rangeFrom_near {count : Nat} (isAbove : -2 ^ 53 ≤ lo) (isBelow : hi < 2 ^ 53)
    (isCount : hi + 1 = lo + count) (isEnough : count < most) :
    rangeFrom true (.finite hi) most (.finite lo)
      = some ((consecutive lo count).map .finite) := by
  induction count generalizing lo most with
  | zero =>
    obtain ⟨fewer, rfl⟩ := Nat.exists_eq_add_one_of_ne_zero (show most ≠ 0 by omega)
    exact rangeFrom_beyond (show ¬ lo ≤ hi by omega)
  | succ count ih =>
    obtain ⟨fewer, rfl⟩ := Nat.exists_eq_add_one_of_ne_zero (show most ≠ 0 by omega)
    rw [rangeFrom_step (by omega) (by omega) (next_near isAbove (by omega)),
      ih (by omega) (by omega) (by omega)]
    rfl

theorem rangeFrom_standing (isKept : Kept lo) (isStanding : Standing lo) (ordered : lo ≤ hi) :
    rangeFrom true (.finite hi) most (.finite lo) = none := by
  cases most with
  | zero => rfl
  | succ most =>
    have isWithin : (Num.finite lo).within true (.finite hi) = true := within_iff.2 ordered
    rw [rangeFrom, if_pos isWithin, if_pos (next_standing isKept isStanding)]

theorem rangeFrom_across (isAbove : -2 ^ 53 ≤ lo) (isBelow : lo ≤ 2 ^ 53) (isPast : 2 ^ 53 ≤ hi) :
    rangeFrom true (.finite hi) most (.finite lo) = none := by
  induction most generalizing lo with
  | zero => rfl
  | succ most ih =>
    by_cases isLast : lo = 2 ^ 53
    · have isStanding : Standing lo := by
        rw [Standing]
        omega
      exact rangeFrom_standing (kept_of_small (by omega)) isStanding (by omega)
    · rw [rangeFrom_step (by omega) (by omega) (next_near isAbove (by omega)),
        ih (by omega) (by omega)]
      rfl

theorem rangeFrom_lone (isLone : Lone lo) (isEnough : 1 < most) :
    rangeFrom true (.finite lo) most (.finite lo) = some ((consecutive lo 1).map .finite) := by
  obtain ⟨fewer, rfl⟩ := Nat.exists_eq_add_of_lt isEnough
  have isBeyond : ¬ Ahead true (lo + 2) lo := show ¬ lo + 2 ≤ lo by omega
  rw [show 1 + fewer + 1 = fewer + 1 + 1 by omega,
    rangeFrom_step le_rfl (by omega) (next_lone isLone), rangeFrom_beyond isBeyond]
  rfl

theorem Kept.two_further (isLone : Lone lo) (isKept : Kept hi) (ordered : lo < hi) :
    lo + 2 ≤ hi := by
  obtain ⟨isLarge, isSmall, isTwo⟩ := isLone
  have isEven := isKept.even
  omega

/-- **Where the loop up ends**, it has visited all whole numbers between the ends, or left out the
second. -/
theorem rangeFrom_ends (ordered : lo ≤ hi) (firstKept : Kept lo) (lastKept : Kept hi)
    (isEnough : hi - lo + 1 < most) (ends : EndsUp lo hi) :
    (ExactUp lo hi ∧ rangeFrom true (.finite hi) most (.finite lo)
      = some ((consecutive lo (hi + 1 - lo).toNat).map .finite)) ∨
    (¬ ExactUp lo hi ∧ lo < hi ∧ ∃ count, rangeFrom true (.finite hi) most (.finite lo)
      = some ((lo :: consecutive (lo + 2) (count + 1)).map .finite)) := by
  by_cases isAlone : lo = hi ∧ Lone lo
  · obtain ⟨rfl, isLone⟩ := isAlone
    refine Or.inl ⟨Or.inr ⟨rfl, isLone⟩, ?_⟩
    rw [show (lo + 1 - lo).toNat = 1 by omega]
    exact rangeFrom_lone isLone (by omega)
  obtain ⟨isAbove, isBelow⟩ := ends.resolve_right isAlone
  by_cases isNear : -2 ^ 53 ≤ lo
  · exact Or.inl ⟨Or.inl ⟨isNear, isBelow⟩, rangeFrom_near isNear isBelow (by omega) (by omega)⟩
  -- The loop begins two below -2^53, where the number between is no double.
  have isLone : Lone lo := by
    have isEven := firstKept.even (by omega)
    rw [Lone]
    omega
  have isBefore : lo < hi := lt_of_le_of_ne ordered fun isSame => isAlone ⟨isSame, isLone⟩
  have isFurther : lo + 2 ≤ hi := Kept.two_further isLone lastKept isBefore
  obtain ⟨count, isCount⟩ := Int.eq_ofNat_of_zero_le (show 0 ≤ hi - (lo + 2) by omega)
  obtain ⟨fewer, rfl⟩ := Nat.exists_eq_add_one_of_ne_zero (show most ≠ 0 by omega)
  refine Or.inr ⟨not_or.2 ⟨fun isExact => isNear isExact.1, isAlone⟩, isBefore, count, ?_⟩
  have isLow : -2 ^ 53 ≤ lo + 2 := by
    obtain ⟨_, _, isTwo⟩ := isLone
    omega
  rw [rangeFrom_step ordered (by omega) (next_lone isLone),
    rangeFrom_near isLow isBelow (show hi + 1 = lo + 2 + (count + 1 : Nat) by omega) (by omega)]
  rfl

/-- **Elsewhere it does not end.** -/
theorem rangeFrom_endless (ordered : lo ≤ hi) (firstKept : Kept lo) (lastKept : Kept hi)
    (isEndless : ¬ EndsUp lo hi) : rangeFrom true (.finite hi) most (.finite lo) = none := by
  rw [EndsUp, not_or] at isEndless
  rcases kept_cases firstKept with ⟨isAbove, isBelow⟩ | isLone | isStanding
  · exact rangeFrom_across isAbove isBelow.le (by omega)
  · have isFurther : lo + 2 ≤ hi := by
      refine Kept.two_further isLone lastKept (lt_of_le_of_ne ordered fun isSame => ?_)
      exact isEndless.2 ⟨isSame, isLone⟩
    have isNext := next_lone isLone
    cases most with
    | zero => rfl
    | succ most =>
      rw [rangeFrom_step ordered (by omega) isNext]
      obtain ⟨isLarge, _, isTwo⟩ := isLone
      by_cases isEdge : lo + 2 = -2 ^ 53
      · rw [rangeFrom_across isEdge.ge (by omega) (by omega)]
        rfl
      · have isStanding : Standing (lo + 2) := by
          rw [Standing]
          omega
        rw [rangeFrom_standing (Num.ofInt_finite isNext).2 isStanding isFurther]
        rfl
  · exact rangeFrom_standing firstKept isStanding ordered

end Murage.Shell
