import Mathlib

/-!
Owns keys that are byte strings in lexicographic order, read as fractions to base 256: the
order of the fractions, a key between two, a key after one, and numbers as keys. It names
no system.
-/

namespace Murage.Library.OrderKeys

abbrev Key := List Nat

def Bytes (key : Key) : Prop := ∀ digit ∈ key, digit < 256

/-- The smaller fraction: a key stands for the fraction with these digits, and zeros add
nothing to it. -/
def Under : Key → Key → Prop
  | _, [] => False
  | [], y :: ys => 0 < y ∨ Under [] ys
  | x :: xs, y :: ys => x < y ∨ (x = y ∧ Under xs ys)

theorem not_under_nil (key : Key) : ¬Under key [] := by
  cases key <;> exact id

theorem under_nil_cons {y : Nat} {ys : Key} : Under [] (y :: ys) ↔ 0 < y ∨ Under [] ys := Iff.rfl

theorem under_cons {x y : Nat} {xs ys : Key} :
    Under (x :: xs) (y :: ys) ↔ x < y ∨ (x = y ∧ Under xs ys) := Iff.rfl

theorem Under.lt {low high : Key} (under : Under low high) : low < high := by
  induction high generalizing low with
  | nil => exact absurd under (not_under_nil low)
  | cons y ys ih =>
    cases low with
    | nil => exact List.nil_lt_cons y ys
    | cons x xs =>
      rcases under_cons.mp under with isLess | ⟨isSame, later⟩
      · exact List.cons_lt_cons_iff.mpr (Or.inl isLess)
      · exact List.cons_lt_cons_iff.mpr (Or.inr ⟨isSame, ih later⟩)

theorem Under.trans {low middle high : Key} (lower : Under low middle) (upper : Under middle high) :
    Under low high := by
  induction high generalizing low middle with
  | nil => exact absurd upper (not_under_nil middle)
  | cons z zs ih =>
    cases middle with
    | nil => exact absurd lower (not_under_nil low)
    | cons y ys =>
      cases low with
      | nil =>
        rw [under_nil_cons] at lower ⊢
        rcases under_cons.mp upper with isLess | ⟨rfl, later⟩
        · exact Or.inl (Nat.lt_of_le_of_lt (Nat.zero_le y) isLess)
        · exact lower.imp id fun positive => ih positive later
      | cons x xs =>
        rw [under_cons] at lower upper ⊢
        rcases lower with isLess | ⟨rfl, below⟩
        · rcases upper with isMore | ⟨rfl, _⟩
          · exact Or.inl (isLess.trans isMore)
          · exact Or.inl isLess
        · exact upper.imp id fun ⟨isSame, above⟩ => ⟨isSame, ih below above⟩

theorem under_append_left (front : Key) {low high : Key} :
    Under (front ++ low) (front ++ high) ↔ Under low high := by
  induction front with
  | nil => exact Iff.rfl
  | cons digit front ih =>
    rw [List.cons_append, List.cons_append, under_cons]
    constructor
    · rintro (isLess | ⟨_, under⟩)
      · exact absurd isLess (Nat.lt_irrefl digit)
      · exact ih.mp under
    · exact fun under => Or.inr ⟨rfl, ih.mpr under⟩

/-- A larger key that is not longer is a larger fraction. -/
theorem under_of_lt {low high : Key} (isLess : low < high) (notLonger : high.length ≤ low.length) :
    Under low high := by
  induction high generalizing low with
  | nil => exact absurd isLess (List.not_lt_nil low)
  | cons y ys ih =>
    cases low with
    | nil => exact absurd notLonger (Nat.not_succ_le_zero _)
    | cons x xs =>
      rcases List.cons_lt_cons_iff.mp isLess with isFirst | ⟨isSame, later⟩
      · exact Or.inl isFirst
      · exact Or.inr ⟨isSame, ih later (Nat.le_of_succ_le_succ notLonger)⟩

/-! ## Numbers as keys -/

/-- The `width` lowest digits of a number to base 256, highest first. -/
def bigEndian : Nat → Nat → Key
  | 0, _ => []
  | width + 1, number => number / 256 ^ width % 256 :: bigEndian width number

theorem length_bigEndian (width number : Nat) : (bigEndian width number).length = width := by
  induction width with
  | zero => rfl
  | succ width ih => exact congrArg Nat.succ ih

theorem bytes_bigEndian (width number : Nat) : Bytes (bigEndian width number) := by
  induction width with
  | zero => exact fun digit isDigit => absurd isDigit List.not_mem_nil
  | succ width ih =>
    intro digit isDigit
    rcases List.mem_cons.mp isDigit with rfl | isLater
    · exact Nat.mod_lt _ (by decide)
    · exact ih digit isLater

theorem bigEndian_mod (width number : Nat) :
    bigEndian width (number % 256 ^ width) = bigEndian width number := by
  have general : ∀ more, bigEndian width (number % 256 ^ (width + more)) = bigEndian width number := by
    induction width with
    | zero => exact fun _ => rfl
    | succ width ih =>
      intro more
      have isWidth : width + 1 + more = width + (1 + more) := by omega
      rw [bigEndian, bigEndian, isWidth, ih (1 + more)]
      congr 1
      rw [Nat.pow_add, Nat.mod_mul_right_div_self, Nat.pow_add, Nat.pow_one, Nat.mod_mul_right_mod]
  exact general 0

/-- A smaller number is a smaller key. -/
theorem under_bigEndian {width low high : Nat} (isLess : low < high) (fits : high < 256 ^ width) :
    Under (bigEndian width low) (bigEndian width high) := by
  induction width generalizing low high with
  | zero => exact absurd (Nat.lt_of_le_of_lt (Nat.zero_le low) isLess) (by simpa using fits)
  | succ width ih =>
    have positive : 0 < 256 ^ width := Nat.pow_pos (by decide)
    have isDigit {number : Nat} (isSmall : number < 256 ^ (width + 1)) :
        number / 256 ^ width % 256 = number / 256 ^ width := by
      refine Nat.mod_eq_of_lt ((Nat.div_lt_iff_lt_mul positive).mpr ?_)
      rwa [Nat.pow_succ, Nat.mul_comm] at isSmall
    rw [bigEndian, bigEndian, isDigit fits, isDigit (isLess.trans fits)]
    rcases Nat.lt_or_ge (low / 256 ^ width) (high / 256 ^ width) with isFirst | notFirst
    · exact Or.inl isFirst
    · have isSame : low / 256 ^ width = high / 256 ^ width :=
        Nat.le_antisymm (Nat.div_le_div_right isLess.le) notFirst
      refine Or.inr ⟨isSame, ?_⟩
      rw [← bigEndian_mod width low, ← bigEndian_mod width high]
      refine ih ?_ (Nat.mod_lt _ positive)
      have lowParts := Nat.div_add_mod low (256 ^ width)
      have highParts := Nat.div_add_mod high (256 ^ width)
      rw [isSame] at lowParts
      omega

/-- A positive number is a positive key. -/
theorem positive_bigEndian {width number : Nat} (positive : 0 < number)
    (fits : number < 256 ^ width) : Under [] (bigEndian width number) := by
  have zeros : ∀ width, Under (bigEndian width 0) (bigEndian width number) →
      Under [] (bigEndian width number) := by
    intro width
    induction width with
    | zero => exact fun under => absurd under (not_under_nil [])
    | succ width ih =>
      intro under
      rw [bigEndian, bigEndian, under_cons, Nat.zero_div, Nat.zero_mod] at under
      rw [bigEndian, under_nil_cons]
      exact under.imp id fun later => ih later.2
  exact zeros width (under_bigEndian positive fits)

def spelled (key : Key) : Nat := key.foldl (fun number digit => number * 256 + digit) 0

theorem bigEndian_snoc {width number digit : Nat} (isByte : digit < 256) :
    bigEndian (width + 1) (number * 256 + digit) = bigEndian width number ++ [digit] := by
  induction width with
  | zero =>
    have isDigit : (number * 256 + digit) / 256 ^ 0 % 256 = digit := by
      rw [Nat.pow_zero, Nat.div_one]
      omega
    have isKey : bigEndian 1 (number * 256 + digit) =
        [(number * 256 + digit) / 256 ^ 0 % 256] := rfl
    rw [isKey, isDigit]
    rfl
  | succ width ih =>
    have isFirst : (number * 256 + digit) / 256 ^ (width + 1) = number / 256 ^ width := by
      have isQuotient : (number * 256 + digit) / 256 = number := by omega
      rw [Nat.pow_succ, Nat.mul_comm (256 ^ width), ← Nat.div_div_eq_div_mul, isQuotient]
    rw [bigEndian, ih, isFirst]
    rfl

/-- A key is the digits of the number it spells. -/
theorem bigEndian_spelled {key : Key} (bytes : Bytes key) :
    bigEndian key.length (spelled key) = key ∧ spelled key < 256 ^ key.length := by
  induction key using List.reverseRecOn with
  | nil => exact ⟨rfl, by decide⟩
  | append_singleton front digit ih =>
    have isByte : digit < 256 := bytes digit (List.mem_append_right _ List.mem_cons_self)
    obtain ⟨isFront, isSmall⟩ :=
      ih fun other isOther => bytes other (List.mem_append_left _ isOther)
    have isSpelled : spelled (front ++ [digit]) = spelled front * 256 + digit := by
      unfold spelled
      rw [List.foldl_append]
      rfl
    rw [List.length_append, List.length_singleton, isSpelled, bigEndian_snoc isByte, isFront]
    refine ⟨rfl, ?_⟩
    rw [Nat.pow_succ]
    omega

end Murage.Library.OrderKeys
