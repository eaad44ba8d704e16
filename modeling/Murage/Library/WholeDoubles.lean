import Mathlib.Data.Nat.Log
import Mathlib.Tactic.Ring

/-!
Owns the rounding of whole numbers to 53 significant bits, as a double keeps them: what is its own
rounding, that rounding keeps the order, how much it adds at most, and what one more and one less
make of a number that is its own rounding. It names no system.
-/

namespace Murage.Library.WholeDoubles

/-- The distance of two doubles around a whole number, 1 while every whole number is one. -/
def spacing (n : Nat) : Nat := 2 ^ (n.log2 - 52)

/-- How many of `unit` are nearest to a number, of two the even count. -/
def nearest (n unit : Nat) : Nat :=
  if 2 * (n % unit) < unit then n / unit
  else if unit < 2 * (n % unit) then n / unit + 1
  else if n / unit % 2 = 0 then n / unit
  else n / unit + 1

/-- A whole number rounded to 53 significant bits, to nearest with ties to even. -/
def roundNat (n : Nat) : Nat := nearest n (spacing n) * spacing n

/-- What no double reaches. -/
@[irreducible] def limit : Nat := 2 ^ 1024

variable (n : Nat)

theorem spacing_pos : 0 < spacing n := Nat.two_pow_pos _

theorem div_le_nearest (unit : Nat) : n / unit ≤ nearest n unit := by
  unfold nearest
  split_ifs <;> omega

theorem nearest_le (unit : Nat) : nearest n unit ≤ n / unit + 1 := by
  unfold nearest
  split_ifs <;> omega

/-- A multiple is its own rounding. -/
theorem nearest_mul {unit : Nat} (isPos : 0 < unit) (count : Nat) :
    nearest (count * unit) unit = count := by
  unfold nearest
  rw [Nat.mul_mod_left, Nat.mul_div_left count isPos, if_pos (by omega)]

theorem nearest_mono {unit a b : Nat} (ordered : a ≤ b) : nearest a unit ≤ nearest b unit := by
  have quotients : a / unit ≤ b / unit := Nat.div_le_div_right ordered
  rcases quotients.lt_or_eq with isBelow | isSame
  · have isUpper := nearest_le a unit
    have isLower := div_le_nearest b unit
    omega
  · have parts : a % unit ≤ b % unit := by
      have isA := Nat.div_add_mod a unit
      have isB := Nat.div_add_mod b unit
      rw [isSame] at isA
      omega
    unfold nearest
    rw [isSame]
    split_ifs <;> omega

/-! ## The number of bits -/

theorem lt_bits : n < 2 ^ (n.log2 + 1) := Nat.lt_log2_self

theorem bits_le {n : Nat} (isPos : n ≠ 0) : 2 ^ n.log2 ≤ n := Nat.log2_self_le isPos

theorem log2_mono {a b : Nat} (isPos : a ≠ 0) (ordered : a ≤ b) : a.log2 ≤ b.log2 :=
  (Nat.le_log2 (by omega)).2 ((bits_le isPos).trans ordered)

/-- A number has fewer than 2^53 of its own distances. -/
theorem div_spacing_lt : n / spacing n < 2 ^ 53 := by
  rw [Nat.div_lt_iff_lt_mul (spacing_pos n)]
  refine (lt_bits n).trans_le ?_
  rw [spacing, ← pow_add]
  exact Nat.pow_le_pow_right Nat.two_pos (by omega)

/-! ## The rounding -/

/-- **A number of at most 53 significant bits is its own rounding.** -/
theorem roundNat_of_multiple {count exponent : Nat} (isShort : count ≤ 2 ^ 53) :
    roundNat (count * 2 ^ exponent) = count * 2 ^ exponent := by
  generalize isNumber : count * 2 ^ exponent = n
  by_cases isZero : n = 0
  · rw [isZero, roundNat, nearest, Nat.zero_mod, Nat.zero_div, if_pos (by simpa using spacing_pos 0),
      Nat.zero_mul]
  suffices divides : spacing n ∣ n by
    obtain ⟨times, isTimes⟩ := divides
    rw [mul_comm] at isTimes
    have counted : nearest n (spacing n) = times := by
      have isNearest := nearest_mul (spacing_pos n) times
      rwa [← isTimes] at isNearest
    rw [roundNat, counted]
    exact isTimes.symm
  by_cases isFine : n.log2 - 52 ≤ exponent
  · have divides : spacing n ∣ count * 2 ^ exponent := Dvd.dvd.mul_left (pow_dvd_pow 2 isFine) count
    rwa [isNumber] at divides
  · -- The number is a power of two, which its distance divides.
    have isAtMost : n ≤ 2 ^ n.log2 := by
      calc n = count * 2 ^ exponent := isNumber.symm
        _ ≤ 2 ^ 53 * 2 ^ exponent := Nat.mul_le_mul_right _ isShort
        _ = 2 ^ (53 + exponent) := (pow_add 2 53 exponent).symm
        _ ≤ 2 ^ n.log2 := Nat.pow_le_pow_right Nat.two_pos (by omega)
    have isPower : n = 2 ^ n.log2 := le_antisymm isAtMost (bits_le isZero)
    rw [spacing]
    conv_rhs => rw [isPower]
    exact pow_dvd_pow 2 (by omega)

theorem roundNat_small {n : Nat} (isSmall : n ≤ 2 ^ 53) : roundNat n = n := by
  have isRound : roundNat (n * 2 ^ 0) = n * 2 ^ 0 := roundNat_of_multiple isSmall
  simpa using isRound

/-- **Rounding again changes nothing.** -/
theorem roundNat_roundNat : roundNat (roundNat n) = roundNat n := by
  refine roundNat_of_multiple ?_
  have isBelow := div_spacing_lt n
  have isNearest := nearest_le n (spacing n)
  omega

/-- **Rounding keeps the order.** -/
theorem roundNat_mono {a b : Nat} (ordered : a ≤ b) : roundNat a ≤ roundNat b := by
  by_cases isZero : a = 0
  · rw [isZero, roundNat_small (Nat.zero_le _)]
    exact Nat.zero_le _
  have bits := log2_mono isZero ordered
  rcases bits.lt_or_eq with isBelow | isSame
  · -- A power of two is between the two.
    have isUpper : roundNat a ≤ 2 ^ (a.log2 + 1) := by
      by_cases isSmall : a.log2 ≤ 52
      · have isRound : roundNat a = a := by
          refine roundNat_small ((lt_bits a).le.trans ?_)
          exact Nat.pow_le_pow_right Nat.two_pos (by omega)
        rw [isRound]
        exact (lt_bits a).le
      · have isCount : nearest a (spacing a) ≤ 2 ^ 53 := by
          have isQuotient := div_spacing_lt a
          have isNearest := nearest_le a (spacing a)
          omega
        calc nearest a (spacing a) * spacing a ≤ 2 ^ 53 * spacing a :=
              Nat.mul_le_mul_right _ isCount
          _ = 2 ^ (53 + (a.log2 - 52)) := (pow_add 2 53 _).symm
          _ = 2 ^ (a.log2 + 1) := by congr 1; omega
    have isLower : 2 ^ b.log2 ≤ roundNat b := by
      have isPos : b ≠ 0 := by omega
      by_cases isSmall : b.log2 ≤ 52
      · have isRound : roundNat b = b := by
          refine roundNat_small ((lt_bits b).le.trans ?_)
          exact Nat.pow_le_pow_right Nat.two_pos (by omega)
        rw [isRound]
        exact bits_le isPos
      · have isCount : 2 ^ 52 ≤ b / spacing b := by
          rw [Nat.le_div_iff_mul_le (spacing_pos b), spacing, ← pow_add]
          exact (Nat.pow_le_pow_right Nat.two_pos (by omega)).trans (bits_le isPos)
        calc 2 ^ b.log2 = 2 ^ 52 * 2 ^ (b.log2 - 52) := by rw [← pow_add]; congr 1; omega
          _ ≤ nearest b (spacing b) * spacing b :=
            Nat.mul_le_mul_right _ (isCount.trans (div_le_nearest b _))
    exact isUpper.trans ((Nat.pow_le_pow_right Nat.two_pos isBelow).trans isLower)
  · have units : spacing a = spacing b := by rw [spacing, isSame, spacing]
    rw [roundNat, roundNat, units]
    exact Nat.mul_le_mul_right _ (nearest_mono ordered)

/-- Rounding at most doubles a number. -/
theorem roundNat_le : roundNat n ≤ 2 * n := by
  by_cases isZero : n = 0
  · rw [isZero, roundNat_small (Nat.zero_le _)]
  have isUnit : spacing n ≤ n := by
    refine le_trans ?_ (bits_le isZero)
    exact Nat.pow_le_pow_right Nat.two_pos (Nat.sub_le _ _)
  calc roundNat n ≤ (n / spacing n + 1) * spacing n := Nat.mul_le_mul_right _ (nearest_le n _)
    _ = n / spacing n * spacing n + spacing n := by ring
    _ ≤ n + n := Nat.add_le_add (Nat.div_mul_le_self n _) isUnit
    _ = 2 * n := (two_mul n).symm

theorem limit_eq : limit = 2 ^ 1024 := by
  unfold limit
  rfl

theorem lt_limit {n : Nat} (isSmall : n < 2 ^ 55) : n < limit := by
  -- The exponent stays a variable, or the power is written out.
  obtain ⟨exponent, isLonger, isLimit⟩ : ∃ exponent, 55 ≤ exponent ∧ limit = 2 ^ exponent :=
    ⟨1024, by decide, limit_eq⟩
  rw [isLimit]
  exact isSmall.trans_le (Nat.pow_le_pow_right Nat.two_pos isLonger)

/-! ## Two apart -/

theorem spacing_eq {n exponent : Nat} (isLow : 2 ^ (52 + exponent) ≤ n)
    (isHigh : n < 2 ^ (53 + exponent)) : spacing n = 2 ^ exponent := by
  have isPos : n ≠ 0 := by
    have isPower := Nat.two_pow_pos (52 + exponent)
    omega
  have atLeast : 52 + exponent ≤ n.log2 := (Nat.le_log2 isPos).2 isLow
  have atMost : n.log2 < 53 + exponent := (Nat.log2_lt isPos).2 isHigh
  rw [spacing]
  congr 1
  omega

/-- From 2^53 to 2^54 the doubles are the even numbers. -/
theorem roundNat_band {n : Nat} (isLow : 2 ^ 53 ≤ n) (isHigh : n < 2 ^ 54) :
    roundNat n = if n % 4 = 1 then n - 1 else if n % 4 = 3 then n + 1 else n := by
  have isTwo : spacing n = 2 ^ 1 := spacing_eq isLow isHigh
  rw [roundNat, isTwo, nearest]
  split_ifs <;> omega

theorem spacing_dvd {n : Nat} (isRound : roundNat n = n) : spacing n ∣ n :=
  ⟨nearest n (spacing n), by rw [mul_comm]; exact isRound.symm⟩

/-- From 2^53 on every double is even. -/
theorem even_of_round {n : Nat} (isLow : 2 ^ 53 ≤ n) (isRound : roundNat n = n) : n % 2 = 0 := by
  have isPos : n ≠ 0 := by omega
  have isLong : 53 ≤ n.log2 := (Nat.le_log2 isPos).2 isLow
  have isEven : 2 ^ 1 ∣ spacing n := pow_dvd_pow 2 (by omega)
  exact Nat.mod_eq_zero_of_dvd (isEven.trans (spacing_dvd isRound))

/-! ## Four apart and more -/

theorem four_le_spacing {n : Nat} (isLow : 2 ^ 54 ≤ n) : 4 ≤ spacing n := by
  have isPos : n ≠ 0 := by omega
  have isLong : 54 ≤ n.log2 := (Nat.le_log2 isPos).2 isLow
  exact Nat.pow_le_pow_right (show 0 < 2 by decide) (show 2 ≤ n.log2 - 52 by omega)

theorem nearest_after {unit count : Nat} (isWide : 4 ≤ unit) :
    nearest (unit * count + 1) unit = count := by
  have isRest : (unit * count + 1) % unit = 1 := by
    rw [Nat.mul_add_mod, Nat.mod_eq_of_lt (by omega)]
  have isQuotient : (unit * count + 1) / unit = count := by
    rw [Nat.mul_add_div (by omega), Nat.div_eq_of_lt (by omega), Nat.add_zero]
  rw [nearest, isRest, isQuotient, if_pos (by omega)]

theorem nearest_before {unit count : Nat} (isWide : 4 ≤ unit) :
    nearest (unit * count + (unit - 1)) unit = count + 1 := by
  have isRest : (unit * count + (unit - 1)) % unit = unit - 1 := by
    rw [Nat.mul_add_mod, Nat.mod_eq_of_lt (by omega)]
  have isQuotient : (unit * count + (unit - 1)) / unit = count := by
    rw [Nat.mul_add_div (by omega), Nat.div_eq_of_lt (by omega), Nat.add_zero]
  rw [nearest, isRest, isQuotient, if_neg (by omega), if_pos (by omega)]

/-- **One more than a double from 2^54 on rounds back to it.** -/
theorem roundNat_succ_of_large {n : Nat} (isLow : 2 ^ 54 ≤ n) (isRound : roundNat n = n) :
    roundNat (n + 1) = n := by
  have isPos : n ≠ 0 := by omega
  have isLong : 54 ≤ n.log2 := (Nat.le_log2 isPos).2 isLow
  have isWide := four_le_spacing isLow
  have divides := spacing_dvd isRound
  -- The number and the power of two above it are both multiples of the distance.
  have isBelow : n + 1 < 2 ^ (n.log2 + 1) := by
    have dividesPower : spacing n ∣ 2 ^ (n.log2 + 1) := pow_dvd_pow 2 (by omega)
    have isGap := Nat.le_of_dvd (Nat.sub_pos_of_lt (lt_bits n)) (Nat.dvd_sub dividesPower divides)
    omega
  have isSame : spacing (n + 1) = spacing n := by
    have atLeast : n.log2 ≤ (n + 1).log2 := log2_mono isPos (Nat.le_succ n)
    have atMost : (n + 1).log2 < n.log2 + 1 := (Nat.log2_lt (by omega)).2 isBelow
    rw [spacing, spacing]
    congr 1
    omega
  rw [roundNat, isSame]
  generalize spacing n = unit at isWide divides
  obtain ⟨count, rfl⟩ := divides
  rw [nearest_after isWide, mul_comm]

/-- **One less than a double from 2^54 on rounds back to it.** -/
theorem roundNat_pred_of_large {n : Nat} (isLow : 2 ^ 54 ≤ n) (isRound : roundNat n = n) :
    roundNat (n - 1) = n := by
  by_cases isFirst : n = 2 ^ 54
  · rw [roundNat_band (by omega) (by omega), isFirst]
    rfl
  have isWide : 4 ≤ spacing (n - 1) := four_le_spacing (by omega)
  have bits : (n - 1).log2 ≤ n.log2 := log2_mono (by omega) (Nat.sub_le n 1)
  have isFiner : spacing (n - 1) ∣ spacing n := pow_dvd_pow 2 (by omega)
  have divides := isFiner.trans (spacing_dvd isRound)
  rw [roundNat]
  generalize spacing (n - 1) = unit at isWide divides
  obtain ⟨count, rfl⟩ := divides
  cases count with
  | zero => omega
  | succ count =>
    have isBefore : unit * (count + 1) - 1 = unit * count + (unit - 1) := by
      rw [Nat.mul_succ]
      omega
    rw [isBefore, nearest_before isWide, mul_comm]

end Murage.Library.WholeDoubles
