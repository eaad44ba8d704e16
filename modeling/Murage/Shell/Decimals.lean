import Mathlib.Data.List.Basic
import Murage.Shell.Ranges

/-!
Owns the whole numbers that digits with or without a sign spell, how a range between two of them
is read, and the word that a number is read as.

Does not own: the numbers of a range.
-/

namespace Murage.Shell

/-! ## Characters -/

/-- The characters of a number with its sign. -/
def decimalChars : Text := units "-0123456789"

theorem mem_decimalChars {c : UInt16} (isDigits : isDigit c = true) : c ∈ decimalChars := by
  rw [isDigit, Bool.and_eq_true, decide_eq_true_eq, decide_eq_true_eq, UInt16.le_iff_toNat_le,
    UInt16.le_iff_toNat_le] at isDigits
  have isZero : (u '0').toNat = 48 := by decide
  have isNine : (u '9').toNat = 57 := by decide
  have spelled : ∀ k < 10, UInt16.ofNat (48 + k) ∈ decimalChars := by decide
  have isSpelled := spelled (c.toNat - 48) (by omega)
  rw [Nat.add_sub_cancel' (by omega), UInt16.ofNat_toNat] at isSpelled
  exact isSpelled

theorem decimal_plain : ∀ c ∈ decimalChars,
    wordEnd c = false ∧ c ≠ singleQuote ∧ c ≠ doubleQuote ∧ c ≠ backslash ∧ c ≠ u '$' ∧
      c ≠ backquote ∧ c ≠ u '~' ∧ c ≠ u '*' ∧ c ≠ u '?' ∧ c ≠ u '\x7b' := by
  refine List.forall_iff_forall_mem.mp ?_
  decide

theorem range_plain : ∀ c ∈ u '.' :: decimalChars,
    quotes.contains c = false ∧ (units "$<>").contains c = false ∧ c ≠ backslash ∧
      isSpace c = false ∧ (units "'\"`$\\\x7b()<>|&;").contains c = false ∧ c ≠ u '\x7d' := by
  refine List.forall_iff_forall_mem.mp ?_
  decide

theorem opensParen_plain {first text : Text} (isPlain : ∀ c ∈ text, first.contains c = false) :
    opensParen first text = false := by
  induction text with
  | nil => rfl
  | cons c rest ih =>
    have isRest := ih fun d isLater => isPlain d (List.mem_cons_of_mem _ isLater)
    cases rest with
    | nil => rfl
    | cons d rest =>
      rw [opensParen, isRest, isPlain c List.mem_cons_self]
      rfl

theorem upTo_append {stop : UInt16} {before rest : Text} (isBefore : ∀ c ∈ before, c ≠ stop) :
    upTo stop (before ++ stop :: rest) = some (before, stop :: rest) := by
  induction before with
  | nil => rw [List.nil_append, upTo, if_pos rfl]
  | cons c before ih =>
    rw [List.cons_append, upTo, if_neg (isBefore c List.mem_cons_self),
      ih fun d isLater => isBefore d (List.mem_cons_of_mem _ isLater)]
    rfl

/-! ## Numbers -/

/-- A whole number as `-?\d+` spells it. -/
structure Decimal where
  negative : Bool
  digits : Text
  isSome : digits ≠ []
  areDigits : ∀ c ∈ digits, isDigit c = true

namespace Decimal

def text (number : Decimal) : Text :=
  if number.negative then u '-' :: number.digits else number.digits

def value (number : Decimal) : Int :=
  if number.negative then -(digitsValue number.digits : Int) else digitsValue number.digits

variable (number : Decimal)

theorem text_plain : ∀ c ∈ number.text, c ∈ decimalChars := by
  intro c isChar
  rw [text] at isChar
  split at isChar
  · rcases List.mem_cons.1 isChar with rfl | isDigits
    · decide
    · exact mem_decimalChars (number.areDigits c isDigits)
  · exact mem_decimalChars (number.areDigits c isChar)

theorem head_digits : ∃ c rest, number.digits = c :: rest ∧ c ≠ u '-' := by
  obtain ⟨c, rest, isDigits⟩ := List.exists_cons_of_ne_nil number.isSome
  refine ⟨c, rest, isDigits, ?_⟩
  rintro rfl
  have isDigit := number.areDigits (u '-') (isDigits ▸ List.mem_cons_self)
  exact absurd isDigit (by decide)

theorem ofText_text : Num.ofText number.text = .ofInt number.value := by
  rw [text, value]
  obtain ⟨c, rest, isDigits, isUnsigned⟩ := number.head_digits
  by_cases isNegative : number.negative = true
  · rw [if_pos isNegative, if_pos isNegative, Num.ofText, if_pos rfl]
  · rw [if_neg isNegative, if_neg isNegative, isDigits, Num.ofText, if_neg isUnsigned]

theorem signedDigits_text {rest : Text} (isEnd : ∀ c ∈ rest.head?, isDigit c = false) :
    signedDigits (number.text ++ rest) = some (number.text, rest) := by
  obtain ⟨c, others, isDigits, isUnsigned⟩ := number.head_digits
  have isRead : (number.digits ++ rest).takeWhile isDigit = number.digits ∧
      (number.digits ++ rest).dropWhile isDigit = rest := by
    rw [List.takeWhile_append_of_pos number.areDigits,
      List.dropWhile_append_of_pos number.areDigits]
    cases rest with
    | nil => exact ⟨List.append_nil _, rfl⟩
    | cons d rest =>
      have isStop : isDigit d = false := isEnd d rfl
      rw [List.takeWhile_cons, List.dropWhile_cons, isStop]
      exact ⟨List.append_nil _, rfl⟩
  have isUnsignedHead : (number.digits ++ rest).head? ≠ some (u '-') := by
    rw [isDigits]
    exact fun same => isUnsigned (Option.some.inj same)
  rw [text, signedDigits]
  by_cases isNegative : number.negative = true
  · simp only [isNegative, if_true, List.cons_append, List.head?_cons, List.drop_succ_cons,
      List.drop_zero, isRead.1, isRead.2, if_neg number.isSome]
  · simp only [isNegative, if_false, isUnsignedHead, isRead.1, isRead.2, if_neg number.isSome,
      Bool.false_eq_true]

end Decimal

/-! ## Ranges -/

/-- `lo..hi` -/
def rangeText (lo hi : Decimal) : Text := lo.text ++ units ".." ++ hi.text

theorem rangeText_plain (lo hi : Decimal) : ∀ c ∈ rangeText lo hi, c ∈ u '.' :: decimalChars := by
  intro c isChar
  rw [rangeText, List.mem_append, List.mem_append] at isChar
  rcases isChar with (isLo | isDot) | isHi
  · exact List.mem_cons_of_mem _ (lo.text_plain c isLo)
  · have isSame : ∀ d ∈ units "..", d ∈ u '.' :: decimalChars :=
      List.forall_iff_forall_mem.mp (by decide)
    exact isSame c isDot
  · exact List.mem_cons_of_mem _ (hi.text_plain c isHi)

theorem decimalRange_text (lo hi : Decimal) :
    decimalRange (rangeText lo hi) = some (.ofInt lo.value, .ofInt hi.value) := by
  have isFirst : signedDigits (rangeText lo hi) = some (lo.text, units ".." ++ hi.text) := by
    rw [rangeText, List.append_assoc]
    exact lo.signedDigits_text fun c isDot => by cases isDot; decide
  have isSecond : signedDigits hi.text = some (hi.text, []) := by
    have isRead : signedDigits (hi.text ++ []) = some (hi.text, []) := hi.signedDigits_text nofun
    rwa [List.append_nil] at isRead
  have areDots : afterDots (units ".." ++ hi.text) = some hi.text := rfl
  rw [decimalRange, isFirst]
  dsimp only [bind, Option.bind]
  rw [areDots]
  dsimp only
  rw [isSecond]
  dsimp only
  rw [if_pos rfl, lo.ofText_text, hi.ofText_text]

/-- Whether the ends are too far from each other. -/
def refused (lo hi : Num) : Bool :=
  (Num.finite MAX_BRACE_ALTS).lt ((hi.sub lo).abs.add (.finite 1))

theorem readBrace_text (lo hi : Decimal) :
    readBrace (rangeText lo hi) =
      if refused (.ofInt lo.value) (.ofInt hi.value) then .asks
      else .range (.ofInt lo.value) (.ofInt hi.value) := by
  have isPlain := fun c isChar => range_plain c (rangeText_plain lo hi c isChar)
  have noQuotes : (rangeText lo hi).any quotes.contains = false :=
    List.any_eq_false.2 fun c isChar => by rw [(isPlain c isChar).1]; decide
  have noParens : opensParen (units "$<>") (rangeText lo hi) = false :=
    opensParen_plain fun c isChar => (isPlain c isChar).2.1
  have noEscape : (rangeText lo hi).contains backslash = false := by
    rw [List.contains_eq_mem, decide_eq_false_iff_not]
    exact fun isChar => (isPlain backslash isChar).2.2.1 rfl
  have noSpace : (rangeText lo hi).any isSpace = false :=
    List.any_eq_false.2 fun c isChar => by rw [(isPlain c isChar).2.2.2.1]; decide
  have noSpecial : (rangeText lo hi).any (units "'\"`$\\\x7b()<>|&;").contains = false :=
    List.any_eq_false.2 fun c isChar => by rw [(isPlain c isChar).2.2.2.2.1]; decide
  have isSome : rangeText lo hi ≠ [] := by
    intro isEmpty
    have isFirst := decimalRange_text lo hi
    rw [isEmpty] at isFirst
    cases isFirst
  rw [readBrace]
  simp only [noQuotes, noParens, noEscape, noSpace, noSpecial, isSome, decimalRange_text]
  rw [if_neg, if_neg, if_neg Bool.false_ne_true]
  · rfl
  · rintro (isEmpty | isSpaced)
    · exact isEmpty
    · cases isSpaced
  · rintro ⟨_, _, isQuoted | isEscaped⟩
    · cases isQuoted
    · cases isEscaped

/-! ## Spelled numbers -/

theorem u_digit {d : Char} (isDecimal : d.isDigit = true) :
    (u d).toNat = d.toNat ∧ isDigit (u d) = true := by
  rw [Char.isDigit, Bool.and_eq_true, decide_eq_true_eq, decide_eq_true_eq, ge_iff_le,
    UInt32.le_iff_toNat_le, UInt32.le_iff_toNat_le] at isDecimal
  have isZero : ('0' : Char).val.toNat = 48 := by decide
  have isNine : ('9' : Char).val.toNat = 57 := by decide
  have unitZero : (u '0').toNat = 48 := by decide
  have unitNine : (u '9').toNat = 57 := by decide
  have isSame : (u d).toNat = d.val.toNat := by
    rw [u, UInt32.toNat_toUInt16, Nat.mod_eq_of_lt (by omega)]
  refine ⟨isSame, ?_⟩
  rw [isDigit, Bool.and_eq_true, decide_eq_true_eq, decide_eq_true_eq, UInt16.le_iff_toNat_le,
    UInt16.le_iff_toNat_le]
  omega

theorem units_repr_digits (n : Nat) : ∀ c ∈ units (toString n), isDigit c = true := by
  intro c isChar
  rw [units, Nat.toString_eq_repr, Nat.toList_repr, List.mem_map] at isChar
  obtain ⟨d, isIn, rfl⟩ := isChar
  exact (u_digit (Nat.isDigit_of_mem_toDigits (by decide) (by decide) isIn)).2

theorem digitsValue_units (n : Nat) : digitsValue (units (toString n)) = n := by
  have isZero : (u '0').toNat = '0'.toNat := by decide
  rw [digitsValue, units, Nat.toString_eq_repr, Nat.toList_repr, List.foldl_map]
  calc (Nat.toDigits 10 n).foldl
        (fun value d => 10 * value + ((u d).toNat - (u '0').toNat)) 0
      = (Nat.toDigits 10 n).foldl (fun value d => 10 * value + (d.toNat - '0'.toNat)) 0 := by
        refine List.foldl_ext _ _ _ fun value d isIn => ?_
        rw [(u_digit (Nat.isDigit_of_mem_toDigits (by decide) (by decide) isIn)).1, isZero]
    _ = n := by rw [← Nat.ofDigitChars_eq_foldl, Nat.ofDigitChars_ten_toDigits]

/-- The number as it is spelled. -/
def Decimal.ofInt (value : Int) : Decimal where
  negative := value < 0
  digits := units (toString value.natAbs)
  isSome isEmpty := by
    have isPositive := Nat.length_repr_pos (n := value.natAbs)
    rw [units, List.map_eq_nil_iff, Nat.toString_eq_repr] at isEmpty
    rw [← String.length_toList, isEmpty] at isPositive
    cases isPositive
  areDigits := units_repr_digits value.natAbs

theorem Decimal.ofInt_text (value : Int) : (ofInt value).text = (Num.finite value).text := by
  rw [text, Num.text, ofInt]
  by_cases isNegative : value < 0
  · simp only [isNegative, decide_true, if_true, List.singleton_append]
  · simp only [isNegative, decide_false, if_false, Bool.false_eq_true, List.nil_append]

theorem Decimal.ofInt_value (value : Int) : (ofInt value).value = value := by
  rw [Decimal.value, ofInt]
  dsimp only
  rw [digitsValue_units]
  by_cases isNegative : value < 0
  · rw [if_pos (decide_eq_true isNegative)]
    omega
  · rw [if_neg (by rwa [decide_eq_true_eq])]
    omega

theorem Decimal.text_value {a b : Decimal} (same : a.text = b.text) : a.value = b.value := by
  obtain ⟨c, rest, isFirst, isUnsigned⟩ := a.head_digits
  obtain ⟨d, others, isSecond, otherUnsigned⟩ := b.head_digits
  rw [text, text] at same
  rw [value, value]
  split at same
  · rename_i isNegative
    split at same
    · rename_i otherNegative
      rw [if_pos isNegative, if_pos otherNegative, (List.cons.inj same).2]
    · rw [isSecond] at same
      exact absurd (List.cons.inj same).1.symm otherUnsigned
  · rename_i isPositive
    split at same
    · rw [isFirst] at same
      exact absurd (List.cons.inj same).1 isUnsigned
    · rename_i otherPositive
      rw [if_neg isPositive, if_neg otherPositive, same]

theorem text_injective {a b : Int} (same : (Num.finite a).text = (Num.finite b).text) : a = b := by
  rw [← Decimal.ofInt_text, ← Decimal.ofInt_text] at same
  rw [← Decimal.ofInt_value a, Decimal.text_value same, Decimal.ofInt_value]

/-! ## The word of a number -/

def numberWord (value : Int) : Word := [.lit (Num.finite value).text .none]

theorem numberWord_injective : Function.Injective numberWord := by
  intro a b same
  exact text_injective (Part.lit.inj (List.singleton_inj.1 same)).1

theorem addLit_lit (before text : Text) :
    addLit [.lit before .none] text .none = [.lit (before ++ text) .none] := rfl

theorem word_step {fuel : Nat} {env : Env} {parts : Word} {c : UInt16} {after : Text}
    (isPlain : c ∈ decimalChars) :
    word (fuel + 1) env parts (c :: after) = word fuel env (addLit parts [c] .none) after := by
  obtain ⟨noEnd, noSingle, noDouble, noEscape, noDollar, noBackquote, noTilde, noStar, noMark,
    noBrace⟩ := decimal_plain c isPlain
  conv_lhs => rw [word.eq_def]
  dsimp only
  rw [noEnd, if_neg Bool.false_ne_true, if_neg noSingle, if_neg noDouble, if_neg noEscape,
    if_neg noDollar, if_neg noBackquote, if_neg fun isTilde => noTilde isTilde.1,
    if_neg (not_or.2 ⟨noStar, noMark⟩), if_neg noBrace]

theorem word_literal {fuel : Nat} {env : Env} {before text : Text}
    (arePlain : ∀ c ∈ text, c ∈ decimalChars) (isEnough : text.length < fuel) :
    word fuel env [.lit before .none] text = pure ([.lit (before ++ text) .none], []) := by
  induction text generalizing fuel before with
  | nil =>
    rw [List.append_nil]
    cases fuel with
    | zero => cases isEnough
    | succ fewer => rfl
  | cons c rest ih =>
    obtain ⟨fewer, rfl⟩ := Nat.exists_eq_add_one_of_ne_zero (Nat.ne_zero_of_lt isEnough)
    rw [word_step (arePlain c List.mem_cons_self), addLit_lit,
      ih (fun d isLater => arePlain d (List.mem_cons_of_mem _ isLater))
        (Nat.lt_of_succ_lt_succ isEnough), List.append_assoc]
    rfl

theorem text_ne_nil (value : Int) : (Num.finite value).text ≠ [] := by
  rw [← Decimal.ofInt_text, Decimal.text]
  split
  · exact nofun
  · exact (Decimal.ofInt value).isSome

/-- **A number is read as one literal.** -/
theorem word_number {fuel : Nat} {env : Env} {value : Int}
    (isEnough : (Num.finite value).text.length < fuel) :
    word fuel env [] (Num.finite value).text = pure (numberWord value, []) := by
  have arePlain := (Decimal.ofInt value).text_plain
  rw [Decimal.ofInt_text] at arePlain
  rw [numberWord]
  cases isText : (Num.finite value).text with
  | nil => exact absurd isText (text_ne_nil value)
  | cons c rest =>
    rw [isText] at arePlain isEnough
    obtain ⟨fewer, rfl⟩ := Nat.exists_eq_add_one_of_ne_zero (Nat.ne_zero_of_lt isEnough)
    rw [word_step (arePlain c List.mem_cons_self)]
    exact word_literal (fun d isLater => arePlain d (List.mem_cons_of_mem _ isLater))
      (Nat.lt_of_succ_lt_succ isEnough)

end Murage.Shell
