import Mathlib.Data.Int.Log
import Mathlib.Algebra.Order.Round
import Mathlib.Data.Rat.Floor
import Mathlib.Tactic.Linarith
import Mathlib.Tactic.NormNum

/-!
Owns the rounding of a number that is not negative to a double, to nearest with ties to even, as
a function on rationals: that it keeps the order, and that a double is its own rounding. Numbers
too large for a double are not its subject. It names no system.
-/

namespace Murage.Library.Binary64

def nearestEven (x : ℚ) : ℤ :=
  let below := ⌊x⌋
  if x - below < 1 / 2 then below
  else if 1 / 2 < x - below then below + 1
  else if below % 2 = 0 then below
  else below + 1

/-- The exponent of a number, with that of the subnormal ones at least. -/
def exponent (x : ℚ) : ℤ := max (Int.log 2 x) (-1022)

/-- The distance of two doubles around a number. -/
def ulp (x : ℚ) : ℚ := (2 : ℚ) ^ (exponent x - 52)

def double (x : ℚ) : ℚ := nearestEven (x / ulp x) * ulp x

/-! ## Whole numbers -/

theorem nearestEven_intCast (n : ℤ) : nearestEven n = n := by
  unfold nearestEven
  simp

theorem floor_le_nearestEven (x : ℚ) : ⌊x⌋ ≤ nearestEven x := by
  unfold nearestEven
  dsimp only
  split_ifs <;> omega

theorem nearestEven_le_floor_add_one (x : ℚ) : nearestEven x ≤ ⌊x⌋ + 1 := by
  unfold nearestEven
  dsimp only
  split_ifs <;> omega

theorem nearestEven_mono {x y : ℚ} (ordered : x ≤ y) : nearestEven x ≤ nearestEven y := by
  have floors := Int.floor_mono ordered
  rcases Int.lt_or_eq_of_le floors with below | same
  · have isUpper := nearestEven_le_floor_add_one x
    have isLower := floor_le_nearestEven y
    omega
  · unfold nearestEven
    dsimp only
    rw [← same]
    -- The same floor: what is left is the part behind the point.
    split_ifs <;> first | omega | linarith

/-- Rounding stays below a whole number that bounds what is rounded. -/
theorem nearestEven_le {x : ℚ} {n : ℤ} (bounded : x ≤ n) : nearestEven x ≤ n :=
  nearestEven_intCast n ▸ nearestEven_mono bounded

theorem le_nearestEven {x : ℚ} {n : ℤ} (bounded : n ≤ x) : n ≤ nearestEven x :=
  nearestEven_intCast n ▸ nearestEven_mono bounded

/-! ## Doubles -/

theorem ulp_pos (x : ℚ) : 0 < ulp x := by
  exact zpow_pos two_pos _

theorem zpow_split (a b : ℤ) : (2 : ℚ) ^ (a + b) = 2 ^ a * 2 ^ b := zpow_add₀ two_ne_zero a b

/-- A number is below the power of two after its exponent. -/
theorem lt_zpow_exponent_succ (x : ℚ) : x < (2 : ℚ) ^ (exponent x + 1) := by
  have isBelow : x < (2 : ℚ) ^ (Int.log 2 x + 1) := by
    exact_mod_cast Int.lt_zpow_succ_log_self (by decide : 1 < 2) x
  refine lt_of_lt_of_le isBelow (zpow_le_zpow_right₀ one_le_two ?_)
  unfold exponent
  omega

theorem exponent_mono {x y : ℚ} (positive : 0 < x) (ordered : x ≤ y) : exponent x ≤ exponent y := by
  have logs : Int.log 2 x ≤ Int.log 2 y := Int.log_mono_right positive ordered
  unfold exponent
  omega

/-- A number whose exponent is not that of the subnormal ones is at least its power of two. -/
theorem zpow_exponent_le {y : ℚ} (positive : 0 < y) (normal : -1022 < exponent y) :
    (2 : ℚ) ^ exponent y ≤ y := by
  have isLog : exponent y = Int.log 2 y := by
    unfold exponent at normal ⊢
    omega
  rw [isLog]
  exact_mod_cast Int.zpow_log_le_self (by decide : 1 < 2) positive

/-- The rounding of a number does not pass the power of two after its exponent. -/
theorem double_le_zpow (x : ℚ) : double x ≤ (2 : ℚ) ^ (exponent x + 1) := by
  have isPower : (2 : ℚ) ^ (exponent x + 1) = ((2 ^ 53 : ℤ) : ℚ) * ulp x := by
    unfold ulp
    have isSum : exponent x + 1 = 53 + (exponent x - 52) := by omega
    rw [isSum, zpow_split]
    norm_num
  have isQuotient : x / ulp x ≤ ((2 ^ 53 : ℤ) : ℚ) := by
    rw [div_le_iff₀ (ulp_pos x), ← isPower]
    exact (lt_zpow_exponent_succ x).le
  rw [isPower]
  unfold double
  exact mul_le_mul_of_nonneg_right (by exact_mod_cast nearestEven_le isQuotient) (ulp_pos x).le

theorem zpow_le_double {y : ℚ} (positive : 0 < y) (normal : -1022 < exponent y) :
    (2 : ℚ) ^ exponent y ≤ double y := by
  have isPower : (2 : ℚ) ^ exponent y = ((2 ^ 52 : ℤ) : ℚ) * ulp y := by
    unfold ulp
    have isSum : exponent y = 52 + (exponent y - 52) := by omega
    rw [isSum, zpow_split]
    norm_num
  have isQuotient : ((2 ^ 52 : ℤ) : ℚ) ≤ y / ulp y := by
    rw [le_div_iff₀ (ulp_pos y), ← isPower]
    exact zpow_exponent_le positive normal
  rw [isPower]
  unfold double
  exact mul_le_mul_of_nonneg_right (by exact_mod_cast le_nearestEven isQuotient) (ulp_pos y).le

/-- **Rounding keeps the order.** -/
theorem double_mono {x y : ℚ} (positive : 0 < x) (ordered : x ≤ y) : double x ≤ double y := by
  rcases Int.lt_or_eq_of_le (exponent_mono positive ordered) with below | same
  · -- A power of two lies between the two.
    have normal : -1022 < exponent y := by
      refine lt_of_le_of_lt ?_ below
      unfold exponent
      omega
    calc double x ≤ (2 : ℚ) ^ (exponent x + 1) := double_le_zpow x
      _ ≤ (2 : ℚ) ^ exponent y := zpow_le_zpow_right₀ one_le_two (by omega)
      _ ≤ double y := zpow_le_double (lt_of_lt_of_le positive ordered) normal
  · have sameUlp : ulp x = ulp y := by
      unfold ulp
      rw [same]
    unfold double
    rw [← sameUlp]
    refine mul_le_mul_of_nonneg_right ?_ (ulp_pos x).le
    have quotients : x / ulp x ≤ y / ulp x := div_le_div_of_nonneg_right ordered (ulp_pos x).le
    exact_mod_cast nearestEven_mono quotients

theorem double_zero : double 0 = 0 := by
  unfold double
  rw [zero_div]
  have isZero : nearestEven (0 : ℚ) = 0 := by exact_mod_cast nearestEven_intCast 0
  rw [isZero]
  simp

theorem double_nonneg {x : ℚ} (nonneg : 0 ≤ x) : 0 ≤ double x := by
  unfold double
  have isQuotient : ((0 : ℤ) : ℚ) ≤ x / ulp x := by
    rw [Int.cast_zero]
    exact div_nonneg nonneg (ulp_pos x).le
  exact mul_nonneg (by exact_mod_cast le_nearestEven isQuotient) (ulp_pos x).le

theorem double_mono_of_nonneg {x y : ℚ} (nonneg : 0 ≤ x) (ordered : x ≤ y) : double x ≤ double y := by
  rcases nonneg.lt_or_eq with positive | rfl
  · exact double_mono positive ordered
  · rw [double_zero]
    exact double_nonneg ordered

/-- A whole multiple of the distance of doubles is its own rounding. -/
theorem double_eq_self {x : ℚ} (n : ℤ) (isMultiple : x = n * ulp x) : double x = x := by
  have isQuotient : x / ulp x = n := by
    rw [div_eq_iff (ulp_pos x).ne']
    exact isMultiple
  unfold double
  rw [isQuotient, nearestEven_intCast]
  exact isMultiple.symm

/-- The exponent of a number between a power of two and the next one. -/
theorem exponent_eq {x : ℚ} {e : ℤ} (normal : -1022 ≤ e) (lower : (2 : ℚ) ^ e ≤ x)
    (upper : x < (2 : ℚ) ^ (e + 1)) : exponent x = e := by
  have positive : 0 < x := lt_of_lt_of_le (zpow_pos two_pos _) lower
  have isAtLeast : e ≤ Int.log 2 x := by
    rw [← Int.zpow_le_iff_le_log (by decide : 1 < 2) positive]
    exact_mod_cast lower
  have isBelow : Int.log 2 x < e + 1 := by
    rw [← Int.lt_zpow_iff_log_lt (by decide : 1 < 2) positive]
    exact_mod_cast upper
  unfold exponent
  omega

end Murage.Library.Binary64
