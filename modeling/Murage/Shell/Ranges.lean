import Mathlib.Algebra.Order.Group.Int
import Mathlib.Data.List.TakeWhile
import Mathlib.Data.Nat.Digits.Defs
import Murage.Shell.Lexer

/-!
Owns the numbers of a brace range: they lie between its ends, and each is spelled in fewer
characters than the range.

Does not own: whether a range ends.
-/

namespace Murage.Shell

open Murage.Library.WholeDoubles

/-! ## Numbers -/

/-- A whole number that a double keeps as it is. -/
def Kept (value : Int) : Prop := roundNat value.natAbs = value.natAbs ∧ value.natAbs < limit

namespace Num

theorem ofInt_finite {n value : Int} (isFinite : ofInt n = finite value) :
    value.natAbs = roundNat n.natAbs ∧ Kept value := by
  rw [ofInt] at isFinite
  split at isFinite
  · cases isFinite
  · rename_i isBelow
    have isMagnitude : value.natAbs = roundNat n.natAbs := by
      cases isFinite
      split <;> omega
    refine ⟨isMagnitude, ?_, isMagnitude ▸ Nat.lt_of_not_le isBelow⟩
    rw [isMagnitude, roundNat_roundNat]

theorem ofInt_kept {value : Int} (isKept : Kept value) : ofInt value = finite value := by
  rw [ofInt, isKept.1, if_neg (Nat.not_le_of_lt isKept.2)]
  split <;> congr 1 <;> omega

theorem ofInt_mono {a b x y : Int} (ordered : a ≤ b) (isFirst : ofInt a = finite x)
    (isSecond : ofInt b = finite y) : x ≤ y := by
  have signs : ∀ {n value : Int}, ofInt n = finite value →
      value = if n < 0 then -(roundNat n.natAbs : Int) else roundNat n.natAbs := by
    intro n value isFinite
    rw [ofInt] at isFinite
    split at isFinite
    · cases isFinite
    · cases isFinite
      rfl
  have isX := signs isFirst
  have isY := signs isSecond
  by_cases isNegative : b < 0
  · have magnitudes := roundNat_mono (show b.natAbs ≤ a.natAbs by omega)
    rw [if_pos (by omega)] at isX
    rw [if_pos isNegative] at isY
    omega
  · rw [if_neg isNegative] at isY
    by_cases isBelow : a < 0
    · rw [if_pos isBelow] at isX
      omega
    · have magnitudes := roundNat_mono (show a.natAbs ≤ b.natAbs by omega)
      rw [if_neg isBelow] at isX
      omega

theorem ofInt_not_low {value n : Int} (isKept : Kept value) (ordered : value ≤ n) :
    ofInt n ≠ infinite true := by
  intro isInfinite
  rw [ofInt] at isInfinite
  split at isInfinite
  · rename_i isLarge
    have isNegative : n < 0 := by simpa using isInfinite
    have magnitudes := roundNat_mono (show n.natAbs ≤ value.natAbs by omega)
    rw [isKept.1] at magnitudes
    have isSmall := isKept.2
    omega
  · cases isInfinite

theorem ofInt_not_high {value n : Int} (isKept : Kept value) (ordered : n ≤ value) :
    ofInt n ≠ infinite false := by
  intro isInfinite
  rw [ofInt] at isInfinite
  split at isInfinite
  · rename_i isLarge
    have isPositive : ¬ n < 0 := by simpa using isInfinite
    have magnitudes := roundNat_mono (show n.natAbs ≤ value.natAbs by omega)
    rw [isKept.1] at magnitudes
    have isSmall := isKept.2
    omega
  · cases isInfinite

theorem ofInt_ne_nan (n : Int) : ofInt n ≠ nan := by
  rw [ofInt]
  split <;> exact nofun

end Num

/-! ## The numbers of a range -/

/-- `b` is not before `a` on the way up, or on the way down. -/
def Ahead (up : Bool) (a b : Int) : Prop := if up then a ≤ b else b ≤ a

theorem Ahead.refl (up : Bool) (a : Int) : Ahead up a a := by
  cases up <;> exact le_rfl

theorem Ahead.trans {up : Bool} {a b c : Int} (first : Ahead up a b) (second : Ahead up b c) :
    Ahead up a c := by
  cases up with
  | true => exact le_trans (show a ≤ b from first) second
  | false => exact le_trans (show c ≤ b from second) first

theorem within_iff {up : Bool} {a b : Int} :
    (Num.finite a).within up (.finite b) = true ↔ Ahead up a b := by
  cases up <;> simp [Num.within, Num.le, Ahead]

theorem next_ahead {up : Bool} {value next : Int} (isKept : Kept value)
    (isNext : (Num.finite value).next up = .finite next) : Ahead up value next ∧ Kept next := by
  refine ⟨?_, (Num.ofInt_finite isNext).2⟩
  cases up with
  | true => exact Num.ofInt_mono (show value ≤ value + 1 by omega) (Num.ofInt_kept isKept) isNext
  | false => exact Num.ofInt_mono (show value + -1 ≤ value by omega) isNext (Num.ofInt_kept isKept)

theorem next_beyond {up negative : Bool} {value : Int} (isKept : Kept value)
    (isNext : (Num.finite value).next up = .infinite negative) (hi : Int) :
    (Num.infinite negative).within up (.finite hi) = false := by
  cases up with
  | true =>
    cases negative with
    | true => exact absurd isNext (Num.ofInt_not_low isKept (show value ≤ value + 1 by omega))
    | false => rfl
  | false =>
    cases negative with
    | true => rfl
    | false => exact absurd isNext (Num.ofInt_not_high isKept (show value + -1 ≤ value by omega))

/-- **The numbers of a range lie between its ends.** -/
theorem rangeFrom_between {up : Bool} {most : Nat} {value hi : Int} {numbers : List Num}
    (isKept : Kept value)
    (isRange : rangeFrom up (.finite hi) most (.finite value) = some numbers) :
    ∀ n ∈ numbers, ∃ v, n = .finite v ∧ Ahead up value v ∧ Ahead up v hi := by
  induction most generalizing value numbers with
  | zero => cases isRange
  | succ most ih =>
    rw [rangeFrom] at isRange
    split at isRange
    case isFalse =>
      cases isRange
      exact fun _ isNumber => nomatch isNumber
    rename_i isWithin
    split at isRange
    case isTrue => cases isRange
    obtain ⟨others, areOthers, rfl⟩ := Option.map_eq_some_iff.1 isRange
    intro n isNumber
    rcases List.mem_cons.1 isNumber with rfl | isLater
    · exact ⟨value, rfl, Ahead.refl up value, within_iff.1 isWithin⟩
    cases isNext : (Num.finite value).next up with
    | nan => exact absurd isNext (Num.ofInt_ne_nan _)
    | infinite negative =>
      rw [isNext] at areOthers
      cases most with
      | zero => cases areOthers
      | succ most =>
        rw [rangeFrom, next_beyond isKept isNext hi] at areOthers
        cases areOthers
        cases isLater
    | finite next =>
      rw [isNext] at areOthers
      obtain ⟨isAhead, nextKept⟩ := next_ahead isKept isNext
      obtain ⟨v, isValue, isAfter, isBefore⟩ :=
        ih nextKept areOthers n isLater
      exact ⟨v, isValue, isAhead.trans isAfter, isBefore⟩

/-! ## How a number is spelled -/

theorem digitsValue_lt {digits : Text} (areDigits : ∀ c ∈ digits, isDigit c = true) :
    digitsValue digits < 10 ^ digits.length := by
  have fromHere : ∀ (start : Nat), digits.foldl
      (fun value c => 10 * value + (c.toNat - (u '0').toNat)) start
        < (start + 1) * 10 ^ digits.length := by
    induction digits with
    | nil => intro start; simp
    | cons c rest ih =>
      intro start
      have isFirst := areDigits c List.mem_cons_self
      have isSmall : c.toNat - (u '0').toNat ≤ 9 := by
        rw [isDigit, Bool.and_eq_true, decide_eq_true_eq, decide_eq_true_eq,
          UInt16.le_iff_toNat_le, UInt16.le_iff_toNat_le] at isFirst
        have isNine : (u '9').toNat = (u '0').toNat + 9 := by decide
        omega
      refine (ih (fun d isLater => areDigits d (List.mem_cons_of_mem _ isLater))
        _).trans_le ?_
      rw [List.length_cons, pow_succ, mul_comm (10 ^ rest.length), ← mul_assoc]
      refine Nat.mul_le_mul_right _ (?_ : 10 * start + _ + 1 ≤ _)
      omega
  simpa [digitsValue] using fromHere 0

theorem signedDigits_spelled {text digits rest : Text}
    (isRead : signedDigits text = some (digits, rest)) :
    0 < digits.length ∧ digits.length + rest.length = text.length ∧
      ∃ sign unsigned, digits = sign ++ unsigned ∧ (∀ c ∈ unsigned, isDigit c = true) ∧
        (sign = [] ∨ sign = [u '-']) := by
  have parts : ∀ unsigned : Text,
      (unsigned.takeWhile isDigit).length + (unsigned.dropWhile isDigit).length
        = unsigned.length := fun unsigned => by
    rw [← List.length_append, List.takeWhile_append_dropWhile]
  rw [signedDigits] at isRead
  by_cases isSigned : text.head? = some (u '-')
  · obtain ⟨tail, rfl⟩ := List.head?_eq_some_iff.1 isSigned
    simp only [isSigned, if_true, List.drop_succ_cons, List.drop_zero] at isRead
    split at isRead
    · cases isRead
    · cases isRead
      refine ⟨by simp, ?_, [u '-'], tail.takeWhile isDigit, rfl,
        fun c isDigits => List.mem_takeWhile_imp isDigits, Or.inr rfl⟩
      have counted := parts tail
      simp only [List.length_cons]
      omega
  · simp only [isSigned, if_false] at isRead
    split at isRead
    · cases isRead
    · rename_i isSome
      cases isRead
      exact ⟨List.length_pos_iff.2 isSome, parts text, [], text.takeWhile isDigit, rfl,
        fun c isDigits => List.mem_takeWhile_imp isDigits, Or.inl rfl⟩

theorem ofText_rounds {text digits rest : Text} (isRead : signedDigits text = some (digits, rest)) :
    ∃ n : Int, Num.ofText digits = Num.ofInt n ∧ n.natAbs < 10 ^ digits.length := by
  obtain ⟨isPositive, _, sign, unsigned, rfl, areDigits, isSign⟩ := signedDigits_spelled isRead
  have isSmall := digitsValue_lt areDigits
  have longer : 10 ^ unsigned.length ≤ 10 ^ (sign ++ unsigned).length :=
    Nat.pow_le_pow_right (by omega) (by simp)
  rcases isSign with rfl | rfl
  · cases unsigned with
    | nil => cases isPositive
    | cons c others =>
      have isUnsigned : c ≠ u '-' := by
        rintro rfl
        exact absurd (areDigits _ List.mem_cons_self) (by decide)
      refine ⟨digitsValue (c :: others), ?_, by omega⟩
      rw [List.nil_append, Num.ofText, if_neg isUnsigned]
  · refine ⟨-(digitsValue unsigned : Int), ?_, by omega⟩
    rw [List.singleton_append, Num.ofText, if_pos rfl]

/-- **A number that is read has at most one digit more than its text**, which rounding may add. -/
theorem ofText_bound {text digits rest : Text} {value : Int}
    (isRead : signedDigits text = some (digits, rest)) (isFinite : Num.ofText digits = .finite value) :
    Kept value ∧ value.natAbs < 10 ^ (digits.length + 1) := by
  obtain ⟨n, isNumber, isSmall⟩ := ofText_rounds isRead
  rw [isNumber] at isFinite
  obtain ⟨isMagnitude, isKept⟩ := Num.ofInt_finite isFinite
  have isRounded := roundNat_le n.natAbs
  refine ⟨isKept, ?_⟩
  rw [isMagnitude, pow_succ]
  omega

theorem text_length {value : Int} {count : Nat} (isPositive : 0 < count)
    (isSmall : value.natAbs < 10 ^ count) : (Num.finite value).text.length ≤ count + 1 := by
  have isRepr := Nat.repr_length value.natAbs count isPositive isSmall
  have isUnits : (units (toString value.natAbs)).length ≤ count := by
    rw [units, List.length_map, String.length_toList]
    exact isRepr
  rw [Num.text, List.length_append]
  split
  · rw [List.length_singleton]
    omega
  · rw [List.length_nil]
    omega

theorem decimalRange_spelled {inner : Text} {lo hi : Num}
    (isRange : decimalRange inner = some (lo, hi)) :
    ∃ first second rest beyond start, signedDigits inner = some (first, rest) ∧
      signedDigits start = some (second, beyond) ∧ lo = .ofText first ∧ hi = .ofText second ∧
      first.length + 3 ≤ inner.length ∧ second.length + 3 ≤ inner.length := by
  rw [decimalRange] at isRange
  obtain ⟨⟨first, rest⟩, isFirst, isRange⟩ := Option.bind_eq_some_iff.1 isRange
  obtain ⟨start, isStart, isRange⟩ := Option.bind_eq_some_iff.1 isRange
  obtain ⟨⟨second, beyond⟩, isSecond, isRange⟩ := Option.bind_eq_some_iff.1 isRange
  have isDots : rest.length = start.length + 2 := by
    rw [afterDots.eq_def] at isStart
    split at isStart
    · split at isStart
      · cases isStart
        rfl
      · cases isStart
    · cases isStart
  have firstLength := (signedDigits_spelled isFirst).2.1
  have secondLength := (signedDigits_spelled isSecond).2.1
  have firstPositive := (signedDigits_spelled isFirst).1
  have secondPositive := (signedDigits_spelled isSecond).1
  by_cases isEnd : beyond = []
  · dsimp only at isRange
    rw [if_pos isEnd] at isRange
    cases isRange
    exact ⟨first, second, rest, beyond, start, isFirst, isSecond, rfl, rfl, by omega, by omega⟩
  · dsimp only at isRange
    rw [if_neg isEnd] at isRange
    cases isRange

/-! ## The alternatives of a brace -/

theorem readBrace_range {inner : Text} {lo hi : Num} (isRead : readBrace inner = .range lo hi) :
    decimalRange inner = some (lo, hi) ∧
      ¬ (Num.finite MAX_BRACE_ALTS).lt ((hi.sub lo).abs.add (.finite 1)) = true := by
  rw [readBrace] at isRead
  dsimp only at isRead
  split at isRead
  · cases isRead
  split at isRead
  · cases isRead
  split at isRead
  · split at isRead <;> cases isRead
  split at isRead
  · rename_i first second isDecimal
    split at isRead
    · cases isRead
    · rename_i isShort
      cases isRead
      exact ⟨isDecimal, isShort⟩
  · split at isRead
    · cases isRead
    · split at isRead
      · cases isRead
      · split at isRead <;> cases isRead

theorem rangeNumbers_finite {lo hi : Num} {numbers : List Num}
    (isShort : ¬ (Num.finite MAX_BRACE_ALTS).lt ((hi.sub lo).abs.add (.finite 1)) = true)
    (isRange : rangeNumbers lo hi = some numbers) :
    numbers = [] ∨ ∃ a b, lo = .finite a ∧ hi = .finite b := by
  have isEmpty : ∀ up, lo.within up hi = false → rangeFrom up hi (MAX_BRACE_ALTS + 1) lo = some numbers →
      numbers = [] := by
    intro up isBeyond areNumbers
    rw [rangeFrom, isBeyond] at areNumbers
    cases areNumbers
    rfl
  cases lo with
  | nan =>
    cases hi <;> exact Or.inl (isEmpty false rfl isRange)
  | infinite negative =>
    cases hi with
    | nan => exact Or.inl (isEmpty false rfl isRange)
    | finite b => exact absurd rfl isShort
    | infinite other =>
      -- one more than an infinite number is the same number
      rw [rangeNumbers, rangeFrom] at isRange
      split at isRange
      · rw [if_pos (by rfl)] at isRange
        cases isRange
      · cases isRange
        exact Or.inl rfl
  | finite a =>
    cases hi with
    | nan => exact Or.inl (isEmpty false rfl isRange)
    | infinite other => exact absurd rfl isShort
    | finite b => exact Or.inr ⟨a, b, rfl, rfl⟩

/-- **The numbers of a range are spelled in fewer characters than the range.** -/
theorem range_shorter {inner : Text} {lo hi : Num} {numbers : List Num}
    (isRead : readBrace inner = .range lo hi) (areNumbers : rangeNumbers lo hi = some numbers) :
    ∀ n ∈ numbers, n.text.length ≤ inner.length := by
  obtain ⟨isDecimal, isShort⟩ := readBrace_range isRead
  intro n isNumber
  rcases rangeNumbers_finite isShort areNumbers with rfl | ⟨a, b, rfl, rfl⟩
  · cases isNumber
  obtain ⟨first, second, rest, beyond, start, isFirst, isSecond, isLo, isHi, firstShort,
    secondShort⟩ := decimalRange_spelled isDecimal
  have ends : ∀ {digits : Text} {value : Int}, digits.length + 3 ≤ inner.length →
      value.natAbs < 10 ^ (digits.length + 1) → value.natAbs < 10 ^ (inner.length - 2) :=
    fun shorter bound => bound.trans_le (Nat.pow_le_pow_right (by omega) (by omega))
  obtain ⟨isKept, isLow⟩ := ofText_bound isFirst isLo.symm
  have isLow := ends firstShort isLow
  have isHigh := ends secondShort (ofText_bound isSecond isHi.symm).2
  obtain ⟨v, rfl, isAfter, isBefore⟩ := rangeFrom_between isKept areNumbers n isNumber
  have isBetween : v.natAbs ≤ max a.natAbs b.natAbs := by
    cases isUp : (Num.finite a).le (.finite b) with
    | true =>
      rw [isUp] at isAfter isBefore
      have after : a ≤ v := isAfter
      have before : v ≤ b := isBefore
      omega
    | false =>
      rw [isUp] at isAfter isBefore
      have after : v ≤ a := isAfter
      have before : b ≤ v := isBefore
      omega
  have isText : (Num.finite v).text.length ≤ inner.length - 2 + 1 :=
    text_length (by omega) (by omega)
  omega

theorem splitOn_shorter (separator : UInt16) (text : Text) :
    splitOn separator text ≠ [] ∧ ∀ part ∈ splitOn separator text, part.length ≤ text.length := by
  induction text with
  | nil => exact ⟨nofun, fun part isPart => by cases List.mem_singleton.1 isPart; rfl⟩
  | cons c rest ih =>
    rw [splitOn]
    split
    · refine ⟨nofun, fun part isPart => ?_⟩
      rcases List.mem_cons.1 isPart with rfl | isLater
      · exact Nat.zero_le _
      · exact (ih.2 part isLater).trans (Nat.le_succ _)
    · cases isSplit : splitOn separator rest with
      | nil => exact absurd isSplit ih.1
      | cons first others =>
        rw [isSplit] at ih
        refine ⟨nofun, fun part isPart => ?_⟩
        rcases List.mem_cons.1 isPart with rfl | isLater
        · exact Nat.succ_le_succ (ih.2 first List.mem_cons_self)
        · exact (ih.2 part (List.mem_cons_of_mem _ isLater)).trans
            (Nat.le_succ _)

theorem readBrace_alts {inner : Text} {alts : List Text} (isRead : readBrace inner = .alts alts) :
    ∀ alt ∈ alts, alt.length ≤ inner.length := by
  rw [readBrace] at isRead
  dsimp only at isRead
  split at isRead
  · cases isRead
  split at isRead
  · cases isRead
  split at isRead
  · split at isRead <;> cases isRead
  split at isRead
  · split at isRead <;> cases isRead
  · split at isRead
    · rename_i lo hi isLetters
      cases isRead
      intro alt isAlt
      obtain ⟨k, _, rfl⟩ := List.mem_map.1 isAlt
      rw [letterRange.eq_def] at isLetters
      split at isLetters
      · exact Nat.le_of_ble_eq_true rfl
      · cases isLetters
    · split at isRead
      · cases isRead
      · split at isRead
        · cases isRead
          exact (splitOn_shorter _ _).2
        · cases isRead

end Murage.Shell
