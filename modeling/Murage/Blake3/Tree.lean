import Murage.Blake3.Model
import Murage.Library.SplitTree

/-!
Owns what the hash is: the chained blocks of a chunk, the tree whose left part is the largest power
of two of whole chunks that leaves a byte to the right, and that the stack computes it for every
input whose chunks can be counted in 32 bits: the merge in 32 bits is the carry of the chunk count,
and the loop keeps one full tree for each bit of it.

Does not own: the bytes of a text.
-/

namespace Murage.Blake3

open Murage.Library

section

variable (compress : Compress)

/-! ## The recursive definition -/

/-- A chunk: its blocks but the last are compressed, the first with `CHUNK_START`, the last with
`CHUNK_END`. -/
def chunkTree (counter : Nat) (cv : ChainingValue) (flags : Nat) (chunk : List UInt8) : Output :=
  if chunk.length ≤ BLOCK_LEN then
    { cv := cv
      block := words chunk
      counter := counter
      blockLen := chunk.length
      flags := flags ||| CHUNK_END }
  else
    chunkTree counter (first8 (compress cv (words (chunk.take BLOCK_LEN)) counter BLOCK_LEN flags)) 0
      (chunk.drop BLOCK_LEN)
termination_by chunk.length
decreasing_by
  rw [List.length_drop, BLOCK_LEN]
  simp only [BLOCK_LEN] at *
  omega

/-- The largest power of two of whole chunks that leaves a byte to the right. -/
def leftLength (length : Nat) : Nat := CHUNK_LEN * 2 ^ ((length - 1) / CHUNK_LEN).log2

theorem leftLength_pos (length : Nat) : 0 < leftLength length :=
  Nat.mul_pos (Nat.succ_pos 1023) (Nat.two_pow_pos _)

theorem leftLength_lt {length : Nat} (isLong : CHUNK_LEN < length) : leftLength length < length := by
  rw [CHUNK_LEN] at isLong
  have isBelow := Nat.log2_self_le (show (length - 1) / 1024 ≠ 0 by omega)
  rw [leftLength, CHUNK_LEN]
  omega

def treeOutput (bytes : List UInt8) (counter : Nat) : Output :=
  if isLong : CHUNK_LEN < bytes.length then
    have := leftLength_lt isLong
    have := leftLength_pos bytes.length
    parentOutput
      (chainingValue compress (treeOutput (bytes.take (leftLength bytes.length)) counter))
      (chainingValue compress (treeOutput (bytes.drop (leftLength bytes.length))
        (counter + leftLength bytes.length / CHUNK_LEN)))
  else chunkTree compress counter IV CHUNK_START bytes
termination_by bytes.length
decreasing_by
  · rw [List.length_take]
    omega
  · rw [List.length_drop]
    omega

/-- The hash by its recursive definition: `ROOT` is set on the last compression alone. -/
def treeHash (bytes : List UInt8) : List Char := rootHex compress (treeOutput compress bytes 0)

/-! ## A chunk -/

variable {compress}

theorem chained_succ (chunk : List UInt8) (counter count : Nat) :
    chained compress chunk counter (count + 1) = first8 (compress
      (chained compress chunk counter count)
      (words (subarray chunk (count * BLOCK_LEN) ((count + 1) * BLOCK_LEN))) counter BLOCK_LEN
      (if count = 0 then CHUNK_START else 0)) := by
  rw [chained, List.range_succ, List.foldl_append]
  rfl

theorem chunkTree_chained (chunk : List UInt8) (counter count : Nat)
    (isWithin : count * BLOCK_LEN < chunk.length ∨ count = 0) :
    chunkTree compress counter IV CHUNK_START chunk
      = chunkTree compress counter (chained compress chunk counter count)
        (if count = 0 then CHUNK_START else 0) (chunk.drop (count * BLOCK_LEN)) := by
  induction count with
  | zero => rw [Nat.zero_mul, List.drop_zero, if_pos rfl]; rfl
  | succ count ih =>
    have isMore : (count + 1) * BLOCK_LEN < chunk.length :=
      isWithin.resolve_right (Nat.succ_ne_zero count)
    have isEarlier : count * BLOCK_LEN < chunk.length := by
      rw [BLOCK_LEN] at isMore ⊢
      omega
    have isLong : ¬ (chunk.drop (count * BLOCK_LEN)).length ≤ BLOCK_LEN := by
      rw [List.length_drop]
      rw [BLOCK_LEN] at isMore ⊢
      omega
    have isBlock : (chunk.drop (count * BLOCK_LEN)).take BLOCK_LEN
        = subarray chunk (count * BLOCK_LEN) ((count + 1) * BLOCK_LEN) := by
      rw [subarray, Nat.succ_mul, Nat.add_sub_cancel_left]
    rw [ih (Or.inl isEarlier), chunkTree, if_neg isLong, isBlock,
      ← chained_succ, List.drop_drop, ← Nat.succ_mul, if_neg (Nat.succ_ne_zero count)]

theorem chunkOutput_eq (chunk : List UInt8) (counter : Nat) :
    chunkOutput compress chunk counter = chunkTree compress counter IV CHUNK_START chunk := by
  have isWithin : (partsOf chunk.length BLOCK_LEN - 1) * BLOCK_LEN < chunk.length ∨
      partsOf chunk.length BLOCK_LEN - 1 = 0 := by
    rw [partsOf, BLOCK_LEN]
    omega
  have isLast : (chunk.drop ((partsOf chunk.length BLOCK_LEN - 1) * BLOCK_LEN)).length ≤ BLOCK_LEN := by
    rw [List.length_drop, partsOf, BLOCK_LEN]
    omega
  have sameTest : (partsOf chunk.length BLOCK_LEN - 1 = 0) = (partsOf chunk.length BLOCK_LEN = 1) := by
    rw [partsOf, BLOCK_LEN]
    exact propext (by omega)
  rw [chunkTree_chained chunk counter _ isWithin, chunkTree, if_pos isLast, chunkOutput]
  simp only [sameTest]

/-! ## The tree over the chunks -/

theorem chunkOf_take {bytes : List UInt8} {length index : Nat}
    (isWithin : (index + 1) * CHUNK_LEN ≤ length) :
    chunkOf (bytes.take length) index = chunkOf bytes index := by
  have isChunk : (index + 1) * CHUNK_LEN - index * CHUNK_LEN ≤ length - index * CHUNK_LEN :=
    Nat.sub_le_sub_right isWithin _
  rw [chunkOf, subarray, chunkOf, subarray, List.drop_take, List.take_take, Nat.min_eq_left isChunk]

theorem chunkOf_drop (bytes : List UInt8) (first index : Nat) :
    chunkOf (bytes.drop (first * CHUNK_LEN)) index = chunkOf bytes (first + index) := by
  have isSize : ∀ count, (count + 1) * CHUNK_LEN - count * CHUNK_LEN = CHUNK_LEN := fun count => by
    rw [Nat.succ_mul, Nat.add_sub_cancel_left]
  rw [chunkOf, subarray, chunkOf, subarray, List.drop_drop, isSize, isSize, Nat.add_mul]

/-- **The recursive definition is the tree over the chunks.** -/
theorem treeOutput_eq (bytes : List UInt8) (first : Nat) (leaf : Nat → Output)
    (isLeaf : ∀ index < partsOf bytes.length CHUNK_LEN,
      leaf (first + index) = chunkOutput compress (chunkOf bytes index) (first + index)) :
    treeOutput compress bytes first = SplitTree.tree (chainingValue compress) parentOutput leaf first
      (partsOf bytes.length CHUNK_LEN) := by
  induction isLength : bytes.length using Nat.strongRecOn generalizing bytes first with
  | ind length ih =>
    subst isLength
    by_cases isLong : CHUNK_LEN < bytes.length
    · have isShorter := leftLength_lt isLong
      have isPositive := leftLength_pos bytes.length
      have isCount : partsOf bytes.length CHUNK_LEN - 1 = (bytes.length - 1) / CHUNK_LEN := by
        rw [partsOf, CHUNK_LEN] at *
        omega
      have isMany : 1 < partsOf bytes.length CHUNK_LEN := by
        rw [partsOf, CHUNK_LEN] at *
        omega
      have isLeft : leftLength bytes.length
          = SplitTree.leftCount (partsOf bytes.length CHUNK_LEN) * CHUNK_LEN := by
        rw [leftLength, SplitTree.leftCount, isCount, Nat.mul_comm]
      have isTaken : (bytes.take (leftLength bytes.length)).length = leftLength bytes.length := by
        rw [List.length_take]
        omega
      have isDropped : (bytes.drop (leftLength bytes.length)).length
          = bytes.length - leftLength bytes.length := List.length_drop
      have isLeftCount : partsOf (bytes.take (leftLength bytes.length)).length CHUNK_LEN
          = SplitTree.leftCount (partsOf bytes.length CHUNK_LEN) := by
        have isSome := SplitTree.leftCount_pos (partsOf bytes.length CHUNK_LEN)
        rw [isTaken, isLeft]
        generalize SplitTree.leftCount (partsOf bytes.length CHUNK_LEN) = count at isSome
        rw [partsOf, CHUNK_LEN]
        omega
      have isRightCount : partsOf (bytes.drop (leftLength bytes.length)).length CHUNK_LEN
          = partsOf bytes.length CHUNK_LEN
            - SplitTree.leftCount (partsOf bytes.length CHUNK_LEN) := by
        rw [isDropped]
        rw [isLeft] at isShorter ⊢
        generalize SplitTree.leftCount (partsOf bytes.length CHUNK_LEN) = count at isShorter
        rw [CHUNK_LEN] at isShorter
        rw [partsOf, partsOf, CHUNK_LEN]
        omega
      have isFirst : leftLength bytes.length / CHUNK_LEN
          = SplitTree.leftCount (partsOf bytes.length CHUNK_LEN) := by
        rw [isLeft, Nat.mul_div_cancel _ (show 0 < CHUNK_LEN by decide)]
      have isFewer := SplitTree.leftCount_lt isMany
      rw [treeOutput, dif_pos isLong, SplitTree.tree, dif_pos isMany]
      dsimp only
      rw [ih _ (by omega) (bytes.take (leftLength bytes.length)) first ?_ rfl,
        ih _ (by omega) (bytes.drop (leftLength bytes.length)) _ ?_ rfl,
        isLeftCount, isRightCount, isFirst]
      · intro index isIndex
        rw [isRightCount] at isIndex
        rw [isFirst, isLeft, chunkOf_drop, Nat.add_assoc]
        exact isLeaf _ (by omega)
      · intro index isIndex
        rw [isLeftCount] at isIndex
        have isWithin : (index + 1) * CHUNK_LEN ≤ leftLength bytes.length := by
          rw [isLeft]
          exact Nat.mul_le_mul_right _ isIndex
        rw [chunkOf_take isWithin]
        exact isLeaf index (by omega)
    · have isOne : partsOf bytes.length CHUNK_LEN = 1 := by
        rw [partsOf, CHUNK_LEN] at *
        omega
      have isChunk : chunkOf bytes 0 = bytes := by
        rw [chunkOf, subarray, Nat.zero_mul, List.drop_zero]
        exact List.take_of_length_le (by omega)
      have isOutput := isLeaf 0 (by omega)
      rw [Nat.add_zero, isChunk, chunkOutput_eq] at isOutput
      rw [treeOutput, dif_neg isLong, isOne, SplitTree.tree_one, isOutput]

end

variable {compress : Compress}

/-! ## The merge -/

theorem and_one_eq_zero (total : BitVec 32) :
    total &&& 1#32 = 0#32 ↔ total.getLsbD 0 = false := by
  rw [BitVec.and_one_eq_setWidth_ofBool_getLsbD]
  cases total.getLsbD 0 with
  | false => exact ⟨fun _ => rfl, fun _ => rfl⟩
  | true => exact ⟨fun isZero => absurd isZero (by decide), fun isFalse => nomatch isFalse⟩

theorem shifted_bit {index level : Nat} (isSmall : level < 32) :
    (((BitVec.ofNat 32 index).sshiftRight level) &&& 1#32 = 0#32) ↔ (index / 2 ^ level) % 2 ≠ 1 := by
  have isWithin : level + 0 < 32 := isSmall
  rw [and_one_eq_zero, BitVec.getLsbD_sshiftRight, if_pos isWithin, Nat.add_zero,
    BitVec.getLsbD_ofNat, decide_eq_true isSmall, Nat.testBit_eq_decide_div_mod_eq]
  simp

/-- **In 32 bits, a count that is not a multiple of 2³² is carried as it is.** -/
theorem merge_eq_carry {index level : Nat} (isSome : 0 < index / 2 ^ level) (isSmall : index < 2 ^ 32)
    (cv : ChainingValue) (stack : List ChainingValue) :
    merge compress ((BitVec.ofNat 32 index).sshiftRight level) cv stack
      = SplitTree.carry (chainingValue compress) parentOutput (index / 2 ^ level) cv stack := by
  -- a bit of the count is left, and it has 32
  have isWithin : ∀ {level}, 0 < index / 2 ^ level → level < 32 := fun {level} isSome => by
    have isBelow : 2 ^ level ≤ index := (Nat.div_pos_iff.1 isSome).2
    exact (Nat.pow_lt_pow_iff_right (Nat.lt_succ_self 1)).1 (Nat.lt_of_le_of_lt isBelow isSmall)
  induction stack generalizing level cv with
  | nil =>
    have isLevel := isWithin isSome
    rw [merge, SplitTree.carry]
    by_cases isOdd : (index / 2 ^ level) % 2 = 1
    · rw [if_pos isOdd, if_neg fun isEven => (shifted_bit isLevel).1 isEven isOdd]
    · rw [if_neg isOdd, if_pos ((shifted_bit isLevel).2 isOdd)]
  | cons top rest ih =>
    have isLevel := isWithin isSome
    rw [merge, SplitTree.carry]
    by_cases isOdd : (index / 2 ^ level) % 2 = 1
    · rw [if_pos isOdd, if_neg fun isEven => (shifted_bit isLevel).1 isEven isOdd]
    · have isHalf : index / 2 ^ level / 2 = index / 2 ^ (level + 1) := by
        rw [Nat.div_div_eq_div_mul, Nat.pow_succ]
      have isMore : 0 < index / 2 ^ (level + 1) := by omega
      rw [if_neg isOdd, if_pos ((shifted_bit isLevel).2 isOdd), ← BitVec.sshiftRight_add, isHalf]
      exact ih isMore _

theorem merge_zero (cv : ChainingValue) (stack : List ChainingValue) :
    merge compress 0#32 cv stack = none := by
  induction stack generalizing cv with
  | nil => rfl
  | cons top rest ih =>
    rw [merge, if_pos (by decide)]
    exact ih _

/-! ## The loop -/

def leafOf (compress : Compress) (bytes : List UInt8) (index : Nat) : Output :=
  chunkOutput compress (chunkOf bytes index) index

theorem nextChunk_stackFor (bytes : List UInt8) {count : Nat} (isSmall : count + 1 < 2 ^ 32) :
    nextChunk compress bytes
        (SplitTree.stackFor (chainingValue compress) parentOutput (leafOf compress bytes) 0 count,
          leafOf compress bytes count) (count + 1)
      = some (SplitTree.stackFor (chainingValue compress) parentOutput (leafOf compress bytes) 0
          (count + 1), leafOf compress bytes (count + 1)) := by
  have isFull : chainingValue compress (leafOf compress bytes count)
      = SplitTree.full (chainingValue compress) parentOutput (leafOf compress bytes) 0
        (count * 2 ^ 0) := by
    rw [SplitTree.full_zero, Nat.pow_zero, Nat.mul_one]
  have isSome : 0 < (count + 1) / 2 ^ 0 := by
    rw [Nat.pow_zero, Nat.div_one]
    exact Nat.succ_pos count
  have isMerged : merge compress (BitVec.ofNat 32 (count + 1))
        (chainingValue compress (leafOf compress bytes count))
        (SplitTree.stackFor (chainingValue compress) parentOutput (leafOf compress bytes) 0 count)
      = some (SplitTree.stackFor (chainingValue compress) parentOutput (leafOf compress bytes) 0
          (count + 1)) := by
    rw [← BitVec.sshiftRight_zero (x := BitVec.ofNat 32 (count + 1)),
      merge_eq_carry isSome isSmall, Nat.pow_zero, Nat.div_one, isFull, SplitTree.carry_stackFor]
  rw [nextChunk, isMerged]
  rfl

/-- **The loop keeps one full tree for each bit of the chunk count.** -/
theorem chunks_stackFor (bytes : List UInt8) {count : Nat} (isSmall : count < 2 ^ 32) :
    (List.range' 1 count).foldlM (nextChunk compress bytes)
        ([], chunkOutput compress (chunkOf bytes 0) 0)
      = some (SplitTree.stackFor (chainingValue compress) parentOutput (leafOf compress bytes) 0 count,
          leafOf compress bytes count) := by
  induction count with
  | zero =>
    rw [SplitTree.stackFor_zero]
    rfl
  | succ count ih =>
    rw [List.range'_1_concat, List.foldlM_append, ih (Nat.lt_of_succ_lt isSmall),
      Option.bind_eq_bind, Option.bind_some, Nat.add_comm 1 count, List.foldlM_cons,
      nextChunk_stackFor bytes isSmall]
    rfl

theorem foldlM_none {State Entry : Type} {step : State → Entry → Option State} {entry : Entry}
    (fails : ∀ state, step state entry = none) {entries : List Entry} (isIn : entry ∈ entries)
    (state : State) : entries.foldlM step state = none := by
  induction entries generalizing state with
  | nil => cases isIn
  | cons first rest ih =>
    rw [List.foldlM_cons]
    cases isStep : step state first with
    | none => rfl
    | some next =>
      refine ih ((List.mem_cons.1 isIn).resolve_left fun isFirst => ?_) next
      rw [← isFirst, fails] at isStep
      cases isStep

theorem nextChunk_wraps (bytes : List UInt8) (held : List ChainingValue × Output) :
    nextChunk compress bytes held (2 ^ 32) = none := by
  have isZero : BitVec.ofNat 32 (2 ^ 32) = 0#32 := by decide
  rw [nextChunk, isZero, merge_zero]

theorem blake3Hex_none {bytes : List UInt8} (isLong : 2 ^ 42 < bytes.length) :
    blake3Hex compress bytes = none := by
  have isIn : 2 ^ 32 ∈ List.range' 1 (partsOf bytes.length CHUNK_LEN - 1) := by
    rw [List.mem_range'_1, partsOf, CHUNK_LEN]
    omega
  rw [blake3Hex, foldlM_none (nextChunk_wraps bytes) isIn]
  rfl

theorem blake3Hex_tree {bytes : List UInt8} (isShort : bytes.length ≤ 2 ^ 42) :
    blake3Hex compress bytes = some (treeHash compress bytes) := by
  have isSmall : partsOf bytes.length CHUNK_LEN - 1 < 2 ^ 32 := by
    rw [partsOf, CHUNK_LEN]
    omega
  have isSome : partsOf bytes.length CHUNK_LEN - 1 + 1 = partsOf bytes.length CHUNK_LEN := by
    rw [partsOf]
    omega
  have isTree : treeOutput compress bytes 0 = SplitTree.tree (chainingValue compress) parentOutput
      (leafOf compress bytes) 0 (partsOf bytes.length CHUNK_LEN) :=
    treeOutput_eq bytes 0 (leafOf compress bytes) fun index _ => by rw [Nat.zero_add, leafOf]
  have isClosed : SplitTree.close (chainingValue compress) parentOutput
        (leafOf compress bytes (partsOf bytes.length CHUNK_LEN - 1))
        (SplitTree.stackFor (chainingValue compress) parentOutput (leafOf compress bytes) 0
          (partsOf bytes.length CHUNK_LEN - 1))
      = treeOutput compress bytes 0 := by
    have closed := @SplitTree.close_stackFor _ _ (chainingValue compress) parentOutput
      (leafOf compress bytes) 0 (partsOf bytes.length CHUNK_LEN - 1) 1 (Nat.succ_pos 0)
      (Nat.le_refl 1)
    rw [Nat.pow_zero, Nat.mul_one, SplitTree.tree_one, isSome] at closed
    rw [closed, isTree]
  rw [blake3Hex, chunks_stackFor bytes isSmall, treeHash, ← isClosed]
  rfl

example : blake3Hex Blake3.compress [] = some
    "af1349b9f5f9a1a6a0404dea36dcc9499bcb25c9adc112b7cc9a93cae41f3262".toList := by
  decide +kernel

end Murage.Blake3
