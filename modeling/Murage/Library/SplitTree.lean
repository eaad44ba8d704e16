import Mathlib

/-!
Owns trees over numbered leaves whose left part is the largest power of two that leaves a leaf to
the right, and the stack that builds one leaf by leaf: the carry that merges finished parts, and
the fold that closes the stack.

Does not own: what the values of leaves and parents are.
-/

namespace Murage.Library.SplitTree

universe u v

variable {Node : Type u} {Value : Type v}

/-- The largest power of two below a number above one. -/
def leftCount (count : Nat) : Nat := 2 ^ (count - 1).log2

theorem leftCount_pos (count : Nat) : 0 < leftCount count := Nat.two_pow_pos _

theorem leftCount_lt {count : Nat} (isMany : 1 < count) : leftCount count < count := by
  have isBelow := Nat.log2_self_le (show count - 1 ≠ 0 by omega)
  rw [leftCount]
  omega

theorem leftCount_eq {count level : Nat} (isAbove : 2 ^ level < count)
    (isWithin : count ≤ 2 ^ (level + 1)) : leftCount count = 2 ^ level := by
  have isPositive := Nat.two_pow_pos level
  have isLevel : (count - 1).log2 = level :=
    (Nat.log2_eq_iff (by omega)).2 ⟨by omega, by omega⟩
  rw [leftCount, isLevel]

/-! ## Bits of a count -/

theorem exists_half (count : Nat) : ∃ half, count = 2 * half ∨ count = 2 * half + 1 :=
  ⟨count / 2, by omega⟩

theorem two_mul_shift (half level : Nat) : 2 * half * 2 ^ level = half * 2 ^ (level + 1) := by
  rw [Nat.pow_succ, Nat.mul_comm 2 half, Nat.mul_assoc, Nat.mul_comm 2]

theorem odd_shift (half level : Nat) :
    (2 * half + 1) * 2 ^ level = half * 2 ^ (level + 1) + 2 ^ level := by
  rw [Nat.add_mul, Nat.one_mul, two_mul_shift]

section

variable (value : Node → Value) (parent : Value → Value → Node) (leaf : Nat → Node)

/-- The tree of `count` leaves from `first` on. -/
def tree (first count : Nat) : Node :=
  if isMany : 1 < count then
    have : leftCount count < count := leftCount_lt isMany
    have : count - leftCount count < count := Nat.sub_lt_of_pos_le (leftCount_pos count) (Nat.le_of_lt this)
    parent (value (tree first (leftCount count)))
      (value (tree (first + leftCount count) (count - leftCount count)))
  else leaf first
termination_by count

def full (level first : Nat) : Value := value (tree value parent leaf first (2 ^ level))

/-- Merges a finished part with those the stack has for the bits that carry. An empty stack has
nothing to take. -/
def carry : Nat → Value → List Value → Option (List Value)
  | count, part, [] => if count % 2 = 1 then some [part] else none
  | count, part, top :: rest =>
    if count % 2 = 1 then some (part :: top :: rest)
    else carry (count / 2) (value (parent top part)) rest

/-- The stack of `count` full trees of a level: one tree for each bit, the least on top. -/
def stackFor (level count : Nat) : List Value :=
  if isSome : 0 < count then
    have : count / 2 < count := Nat.div_lt_self isSome (Nat.lt_succ_self 1)
    if count % 2 = 1 then
      full value parent leaf level ((count - 1) * 2 ^ level) :: stackFor (level + 1) (count / 2)
    else stackFor (level + 1) (count / 2)
  else []
termination_by count

def close (last : Node) (stack : List Value) : Node :=
  stack.foldl (fun node top => parent top (value node)) last

variable {value parent leaf}

theorem tree_one (first : Nat) : tree value parent leaf first 1 = leaf first := by
  rw [tree, dif_neg (Nat.lt_irrefl 1)]

theorem tree_split {level count : Nat} (first : Nat) (isAbove : 2 ^ level < count)
    (isWithin : count ≤ 2 ^ (level + 1)) :
    tree value parent leaf first count = parent (full value parent leaf level first)
      (value (tree value parent leaf (first + 2 ^ level) (count - 2 ^ level))) := by
  have isPositive := Nat.two_pow_pos level
  rw [tree, dif_pos (by omega)]
  dsimp only
  rw [leftCount_eq isAbove isWithin, full]

theorem full_zero (first : Nat) : full value parent leaf 0 first = value (leaf first) := by
  rw [full, Nat.pow_zero, tree_one]

theorem full_succ (level first : Nat) :
    full value parent leaf (level + 1) first = value (parent (full value parent leaf level first)
      (full value parent leaf level (first + 2 ^ level))) := by
  have isDouble : 2 ^ (level + 1) = 2 ^ level + 2 ^ level := by rw [Nat.pow_succ]; omega
  have isPositive := Nat.two_pow_pos level
  rw [full, tree_split first (by omega) (Nat.le_refl _), isDouble, Nat.add_sub_cancel, full, full]

theorem stackFor_zero (level : Nat) : stackFor value parent leaf level 0 = [] := by
  rw [stackFor, dif_neg (Nat.lt_irrefl 0)]

theorem stackFor_odd (level half : Nat) :
    stackFor value parent leaf level (2 * half + 1)
      = full value parent leaf level (half * 2 ^ (level + 1)) ::
        stackFor value parent leaf (level + 1) half := by
  have isHalf : (2 * half + 1) / 2 = half := by omega
  rw [stackFor, dif_pos (Nat.succ_pos _), if_pos (by omega), isHalf, Nat.add_sub_cancel,
    two_mul_shift]

theorem stackFor_even (level half : Nat) :
    stackFor value parent leaf level (2 * half) = stackFor value parent leaf (level + 1) half := by
  rcases Nat.eq_zero_or_pos half with rfl | isSome
  · rw [Nat.mul_zero, stackFor_zero, stackFor_zero]
  · have isHalf : 2 * half / 2 = half := by omega
    rw [stackFor, dif_pos (by omega), if_neg (by omega), isHalf]

/-- **One more full tree.** The carry of a part that follows `count` others leaves the stack of one
more, and takes nothing from an empty stack. -/
theorem carry_stackFor (level count : Nat) :
    carry value parent (count + 1) (full value parent leaf level (count * 2 ^ level))
        (stackFor value parent leaf level count)
      = some (stackFor value parent leaf level (count + 1)) := by
  induction count using Nat.strongRecOn generalizing level with
  | ind count ih =>
    obtain ⟨half, rfl | rfl⟩ := exists_half count
    · -- the bit is free: the part is the tree for it
      rw [stackFor_odd, stackFor_even, two_mul_shift]
      cases stackFor value parent leaf (level + 1) half with
      | nil => rw [carry, if_pos (by omega)]
      | cons top rest => rw [carry, if_pos (by omega)]
    · -- the bit is taken: its tree and the part make one of the next level
      have isHalf : (2 * half + 1 + 1) / 2 = half + 1 := by omega
      have isEven : 2 * half + 1 + 1 = 2 * (half + 1) := by omega
      have isPair : value (parent (full value parent leaf level (half * 2 ^ (level + 1)))
            (full value parent leaf level (half * 2 ^ (level + 1) + 2 ^ level)))
          = full value parent leaf (level + 1) (half * 2 ^ (level + 1)) :=
        (full_succ level _).symm
      rw [stackFor_odd, carry, if_neg (by omega), isHalf, odd_shift, isPair,
        ih half (by omega) (level + 1), isEven, stackFor_even]

/-- **The stack closes to the tree.** Closing the stack over the last leaves, which are at most a
full tree of its level, gives the tree of all. -/
theorem close_stackFor (level count last : Nat) (isSome : 0 < last) (isWithin : last ≤ 2 ^ level) :
    close value parent (tree value parent leaf (count * 2 ^ level) last)
        (stackFor value parent leaf level count)
      = tree value parent leaf 0 (count * 2 ^ level + last) := by
  induction count using Nat.strongRecOn generalizing level last with
  | ind count ih =>
    have isDouble : 2 ^ (level + 1) = 2 ^ level + 2 ^ level := by rw [Nat.pow_succ]; omega
    obtain ⟨half, rfl | rfl⟩ := exists_half count
    · rcases Nat.eq_zero_or_pos half with rfl | isMore
      · rw [Nat.mul_zero, Nat.zero_mul, Nat.zero_add, stackFor_zero, close, List.foldl_nil]
      · rw [stackFor_even, two_mul_shift]
        exact ih half (by omega) (level + 1) last isSome (by omega)
    · have isFirst : (2 * half + 1) * 2 ^ level = half * 2 ^ (level + 1) + 2 ^ level := by
        rw [Nat.add_mul, Nat.one_mul, Nat.pow_succ, Nat.mul_comm 2 half, Nat.mul_assoc,
          Nat.mul_comm 2]
      have isPair : tree value parent leaf (half * 2 ^ (level + 1)) (2 ^ level + last)
          = parent (full value parent leaf level (half * 2 ^ (level + 1)))
            (value (tree value parent leaf (half * 2 ^ (level + 1) + 2 ^ level) last)) := by
        have isAbove : 2 ^ level < 2 ^ level + last := by omega
        rw [tree_split _ isAbove (by omega), Nat.add_sub_cancel_left]
      rw [stackFor_odd, odd_shift, close, List.foldl_cons, ← isPair, Nat.add_assoc]
      exact ih half (by omega) (level + 1) (2 ^ level + last) (by omega) (by omega)

end

end Murage.Library.SplitTree
