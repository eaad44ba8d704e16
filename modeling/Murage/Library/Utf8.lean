import Mathlib.Data.List.Basic
import Mathlib.Tactic.Common

/-!
Owns UTF-8 over lists of bytes: the encoding of a text, the strict decoder, which is its
inverse, and the lossy decoder, which puts a replacement character for every maximal part that
is not UTF-8. It names no system.
-/

namespace Murage.Library.Utf8

abbrev Bytes := List UInt8

def encode (text : List Char) : Bytes := text.flatMap String.utf8EncodeChar

@[simp] theorem encode_nil : encode [] = [] := rfl

@[simp] theorem encode_cons (c : Char) (rest : List Char) :
    encode (c :: rest) = String.utf8EncodeChar c ++ encode rest := rfl

/-- The letter at the front. -/
def head? (bytes : Bytes) : Option Char := bytes.toByteArray.utf8DecodeChar? 0

theorem head?_encodeChar (c : Char) (rest : Bytes) : head? (String.utf8EncodeChar c ++ rest) = some c := by
  unfold head?
  rw [List.toByteArray_append]
  exact ByteArray.utf8DecodeChar?_utf8EncodeChar_append

/-- The letter at the front stands there encoded. -/
theorem eq_encodeChar_of_head? {bytes : Bytes} {c : Char} (isHead : head? bytes = some c) :
    bytes = String.utf8EncodeChar c ++ bytes.drop c.utf8Size := by
  have isFront := String.toByteArray_utf8EncodeChar_of_utf8DecodeChar?_eq_some isHead
  have isTaken : String.utf8EncodeChar c = bytes.take c.utf8Size := by
    have sameData := congrArg (fun array : ByteArray => array.data.toList) isFront
    simpa using sameData
  rw [isTaken, List.take_append_drop]

theorem utf8EncodeChar_ne_nil (c : Char) : String.utf8EncodeChar c ≠ [] := by
  intro isEmpty
  have isLength := String.length_utf8EncodeChar c
  rw [isEmpty] at isLength
  exact absurd isLength.symm (Nat.pos_iff_ne_zero.mp c.utf8Size_pos)

/-! ## Strict -/

def decodeWithin : Nat → Bytes → Option (List Char)
  | _, [] => some []
  | 0, _ :: _ => none
  | fuel + 1, bytes =>
    match head? bytes with
    | some c => (decodeWithin fuel (bytes.drop c.utf8Size)).map (c :: ·)
    | none => none

/-- The text of the bytes, where all of them are UTF-8. -/
def decode (bytes : Bytes) : Option (List Char) := decodeWithin bytes.length bytes

theorem decodeWithin_encode (text : List Char) :
    ∀ fuel, (encode text).length ≤ fuel → decodeWithin fuel (encode text) = some text := by
  induction text with
  | nil =>
    intro fuel _
    cases fuel <;> rfl
  | cons c rest ih =>
    intro fuel isEnough
    have isSize : (String.utf8EncodeChar c).length = c.utf8Size := String.length_utf8EncodeChar c
    rw [encode_cons, List.length_append, isSize] at isEnough
    have isPositive := c.utf8Size_pos
    obtain ⟨less, rfl⟩ : ∃ less, fuel = less + 1 := ⟨fuel - 1, by omega⟩
    obtain ⟨first, others, isCons⟩ := List.exists_cons_of_ne_nil
      (List.append_ne_nil_of_left_ne_nil (utf8EncodeChar_ne_nil c) (encode rest))
    have isDropped : (String.utf8EncodeChar c ++ encode rest).drop c.utf8Size = encode rest := by
      rw [← isSize, List.drop_left]
    rw [encode_cons, isCons, decodeWithin, ← isCons, head?_encodeChar]
    simp only [isDropped, ih less (by omega), Option.map_some]
    exact List.cons_ne_nil _ _

theorem encode_of_decodeWithin {fuel : Nat} {bytes : Bytes} {text : List Char}
    (isText : decodeWithin fuel bytes = some text) : bytes = encode text := by
  induction fuel generalizing bytes text with
  | zero =>
    cases bytes with
    | nil =>
      obtain rfl := Option.some.inj isText
      rfl
    | cons first rest => exact (Option.some_ne_none _ isText.symm).elim
  | succ fuel ih =>
    cases bytes with
    | nil =>
      obtain rfl := Option.some.inj isText
      rfl
    | cons first rest =>
      rw [decodeWithin] at isText
      · split at isText
        · rename_i c isHead
          obtain ⟨later, isLater, rfl⟩ := Option.map_eq_some_iff.mp isText
          rw [encode_cons, ← ih isLater]
          exact eq_encodeChar_of_head? isHead
        · exact (Option.some_ne_none _ isText.symm).elim
      · exact List.cons_ne_nil _ _

/-- **The strict decoder is the inverse of the encoder.** -/
theorem decode_eq_some_iff {bytes : Bytes} {text : List Char} :
    decode bytes = some text ↔ bytes = encode text := by
  constructor
  · exact encode_of_decodeWithin
  · rintro rfl
    exact decodeWithin_encode text _ (Nat.le_refl _)

theorem encode_injective {left right : List Char} (same : encode left = encode right) : left = right := by
  have isLeft := decode_eq_some_iff.mpr (rfl : encode left = encode left)
  have isRight := decode_eq_some_iff.mpr same
  exact Option.some.inj (isLeft.symm.trans isRight)

/-! ## Lossy -/

def replacement : Char := Char.ofNat 0xFFFD

/-- Whether a byte goes on a letter that began. -/
def continues (least greatest : UInt8) (rest : Bytes) : Bool :=
  match rest with
  | [] => false
  | next :: _ => least ≤ next && next ≤ greatest

/-- What the byte after the first of a letter may be, and how many bytes the letter has. -/
def second (first : UInt8) : Option (UInt8 × UInt8 × Nat) :=
  if 0xC2 ≤ first && first ≤ 0xDF then some (0x80, 0xBF, 2)
  else if first = 0xE0 then some (0xA0, 0xBF, 3)
  else if first = 0xED then some (0x80, 0x9F, 3)
  else if 0xE1 ≤ first && first ≤ 0xEF then some (0x80, 0xBF, 3)
  else if first = 0xF0 then some (0x90, 0xBF, 4)
  else if 0xF1 ≤ first && first ≤ 0xF3 then some (0x80, 0xBF, 4)
  else if first = 0xF4 then some (0x80, 0x8F, 4)
  else none

/-- How many bytes at the front are the longest start of a letter, at least one. -/
def maximalPart : Bytes → Nat
  | [] => 1
  | first :: rest =>
    match second first with
    | none => 1
    | some (least, greatest, size) =>
      if continues least greatest rest = false then 1
      else if size = 4 && continues 0x80 0xBF rest.tail then 3
      else 2

def decodeLossyWithin : Nat → Bytes → List Char
  | _, [] => []
  | 0, _ :: _ => []
  | fuel + 1, bytes =>
    match head? bytes with
    | some c => c :: decodeLossyWithin fuel (bytes.drop c.utf8Size)
    | none => replacement :: decodeLossyWithin fuel (bytes.drop (maximalPart bytes))

def decodeLossy (bytes : Bytes) : List Char := decodeLossyWithin bytes.length bytes

theorem decodeLossyWithin_of_decodeWithin {fuel : Nat} {bytes : Bytes} {text : List Char}
    (isText : decodeWithin fuel bytes = some text) : decodeLossyWithin fuel bytes = text := by
  induction fuel generalizing bytes text with
  | zero =>
    cases bytes with
    | nil => exact Option.some.inj isText
    | cons first rest => exact (Option.some_ne_none _ isText.symm).elim
  | succ fuel ih =>
    cases bytes with
    | nil => exact Option.some.inj isText
    | cons first rest =>
      rw [decodeWithin] at isText
      · rw [decodeLossyWithin]
        · split at isText
          · obtain ⟨later, isLater, rfl⟩ := Option.map_eq_some_iff.mp isText
            simp only [ih isLater]
          · exact (Option.some_ne_none _ isText.symm).elim
        · exact List.cons_ne_nil _ _
      · exact List.cons_ne_nil _ _

/-- The lossy decoder loses nothing of a text. -/
theorem decodeLossy_encode (text : List Char) : decodeLossy (encode text) = text :=
  decodeLossyWithin_of_decodeWithin (decode_eq_some_iff.mpr rfl)

end Murage.Library.Utf8
