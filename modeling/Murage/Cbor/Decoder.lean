import Murage.Cbor.Exact

/-!
Owns that `decodeCbor` accepts the encodings of the fragment and nothing else, and that the bytes
it accepts have one reading.
-/

namespace Murage.Cbor

open Murage.Library
open Murage.Library.Reader
open Murage.Library.Utf8 (Bytes)

/-! ## What follows a head -/

/-- The sentences after a head of a major type below seven, by the value. -/
def Content (grammar : Grammar UInt8 Value) (major n : Nat) : Grammar UInt8 Value
  | .int value, sentence =>
    sentence = [] ∧ ((major = 0 ∧ value = n) ∨ (major = 1 ∧ value = -1 - n))
  | .bytes value, sentence => major = 2 ∧ sentence = value ∧ value.length = n
  | .text value, sentence =>
    major = 3 ∧ sentence = Utf8.encode value.toList ∧ (Utf8.encode value.toList).length = n
  | .array values, sentence => major = 4 ∧ values.length = n ∧ Sequence grammar values sentence
  | .map map, sentence =>
    major = 5 ∧ map.length = n ∧ Settable [] (map.map (·.1)) ∧ Entries grammar map sentence
  | _, _ => False

theorem exact_text (taken : Bytes) : Exact
    (match Utf8.decode taken with
      | some text => pure (.text (String.ofList text))
      | none => throw "TypeError" : Reader Value)
    fun value sentence => ∃ text : String,
      value = .text text ∧ taken = Utf8.encode text.toList ∧ sentence = [] := by
  cases isDecoded : Utf8.decode taken with
  | some letters =>
    refine (Exact.pure _).congr fun value sentence => ?_
    have isTaken := Utf8.decode_eq_some_iff.mp isDecoded
    constructor
    · rintro ⟨rfl, rfl⟩
      exact ⟨_, rfl, by rw [String.toList_ofList, isTaken], rfl⟩
    · rintro ⟨text, rfl, isText, rfl⟩
      rw [Utf8.encode_injective (isTaken.symm.trans isText), String.ofList_toList]
      exact ⟨rfl, rfl⟩
  | none =>
    refine (Exact.throw _).congr fun value sentence => ⟨False.elim, ?_⟩
    rintro ⟨text, rfl, isText, rfl⟩
    exact Option.some_ne_none _ ((Utf8.decode_eq_some_iff.mpr isText).symm.trans isDecoded)

theorem exact_content {read : Reader Value} {grammar : Grammar UInt8 Value} (exact : Exact read grammar)
    (major n : Nat) : Exact (content read major n) (Content grammar major n) := by
  unfold content
  split
  · refine (Exact.pure _).congr fun value sentence => ?_
    cases value <;> simp [Content, and_comm]
  · refine (Exact.pure _).congr fun value sentence => ?_
    cases value <;> simp [Content, and_comm]
  · refine ((exact_take n).map Value.bytes).congr fun value sentence => ?_
    constructor
    · rintro ⟨taken, rfl, rfl, isLength⟩
      exact ⟨rfl, rfl, isLength⟩
    · intro inContent
      cases value <;> simp_all [Content]
  · refine ((exact_take n).bind exact_text).congr fun value sentence => ?_
    constructor
    · rintro ⟨taken, front, back, rfl, ⟨rfl, isLength⟩, text, rfl, isText, rfl⟩
      exact ⟨rfl, by rw [List.append_nil, isText], isText ▸ isLength⟩
    · intro inContent
      cases value with
      | text text =>
        obtain ⟨-, rfl, isLength⟩ := inContent
        exact ⟨_, _, [], (List.append_nil _).symm, ⟨rfl, isLength⟩, text, rfl, rfl, rfl⟩
      | int value =>
        obtain ⟨-, ⟨impossible, -⟩ | ⟨impossible, -⟩⟩ := inContent
        · exact absurd impossible (by decide)
        · exact absurd impossible (by decide)
      | bytes value => exact absurd inContent.1 (by decide)
      | array values => exact absurd inContent.1 (by decide)
      | map map => exact absurd inContent.1 (by decide)
      | bool value => exact inContent.elim
      | null => exact inContent.elim
  · refine ((exact_items exact n).map Value.array).congr fun value sentence => ?_
    cases value <;> simp [Content]
  · refine ((exact_entries exact n []).map Value.map).congr fun value sentence => ?_
    cases value <;> simp [Content]
  · rename_i not0 not1 not2 not3 not4 not5
    refine (Exact.throw _).congr fun value sentence => ⟨False.elim, ?_⟩
    cases value <;> simp_all [Content]

theorem sequence_fits {room : Nat} {values : List Value} {sentence : Bytes} :
    Sequence (fun value sentence => Fits room value ∧ Encodes value sentence) values sentence ↔
      (∀ value ∈ values, Fits room value) ∧ EncodesItems values sentence := by
  induction values generalizing sentence with
  | nil =>
    rw [Sequence, EncodesItems]
    exact ⟨fun isEmpty => ⟨nofun, isEmpty⟩, And.right⟩
  | cons value rest ih =>
    rw [Sequence, EncodesItems, List.forall_mem_cons]
    constructor
    · rintro ⟨front, back, rfl, ⟨fits, encodes⟩, inRest⟩
      obtain ⟨fitsRest, encodesRest⟩ := ih.mp inRest
      exact ⟨⟨fits, fitsRest⟩, front, back, rfl, encodes, encodesRest⟩
    · rintro ⟨⟨fits, fitsRest⟩, front, back, rfl, encodes, encodesRest⟩
      exact ⟨front, back, rfl, ⟨fits, encodes⟩, ih.mpr ⟨fitsRest, encodesRest⟩⟩

theorem fits_text {room : Nat} {value : Value} (fits : Fits room value) (key : String) :
    Fits room (.text key) := by
  cases room with
  | zero => exact fits.elim
  | succ room => exact trivial

theorem entries_fits {room : Nat} {map : List (String × Value)} {sentence : Bytes} :
    Entries (fun value sentence => Fits room value ∧ Encodes value sentence) map sentence ↔
      (∀ entry ∈ map, Fits room entry.2) ∧ EncodesEntries map sentence := by
  induction map generalizing sentence with
  | nil =>
    rw [Entries, EncodesEntries]
    exact ⟨fun isEmpty => ⟨nofun, isEmpty⟩, And.right⟩
  | cons entry rest ih =>
    rw [Entries, EncodesEntries, List.forall_mem_cons]
    constructor
    · rintro ⟨name, front, back, rfl, ⟨-, encodesKey⟩, ⟨fits, encodes⟩, inRest⟩
      obtain ⟨fitsRest, encodesRest⟩ := ih.mp inRest
      rw [Encodes] at encodesKey
      exact ⟨⟨fits, fitsRest⟩, name, front, back, rfl, encodesKey, encodes, encodesRest⟩
    · rintro ⟨⟨fits, fitsRest⟩, name, front, back, rfl, encodesKey, encodes, encodesRest⟩
      refine ⟨name, front, back, rfl, ⟨fits_text fits _, ?_⟩, ⟨fits, encodes⟩,
        ih.mpr ⟨fitsRest, encodesRest⟩⟩
      rw [Encodes]
      exact encodesKey

/-! ## Items -/

def Shape (grammar : Grammar UInt8 Value) : Grammar UInt8 Value := fun value sentence =>
  (sentence = [tag 7 20] ∧ value = .bool false) ∨ (sentence = [tag 7 21] ∧ value = .bool true) ∨
    (sentence = [tag 7 22] ∧ value = .null) ∨
    ∃ major n head back, major < 7 ∧ sentence = head ++ back ∧ Head major n head ∧
      Content grammar major n value back

theorem exact_simple (info : Nat) : Exact (simple info) fun value sentence =>
    sentence = [] ∧ ((info = 20 ∧ value = .bool false) ∨ (info = 21 ∧ value = .bool true) ∨
      (info = 22 ∧ value = .null)) := by
  unfold simple
  by_cases isFalse : info = 20
  · rw [if_pos isFalse]
    exact (Exact.pure _).congr fun value sentence => by simp [isFalse, and_comm]
  by_cases isTrue : info = 21
  · rw [if_neg isFalse, if_pos isTrue]
    exact (Exact.pure _).congr fun value sentence => by simp [isTrue, and_comm]
  by_cases isNull : info = 22
  · rw [if_neg isFalse, if_neg isTrue, if_pos isNull]
    exact (Exact.pure _).congr fun value sentence => by simp [isNull, and_comm]
  · rw [if_neg isFalse, if_neg isTrue, if_neg isNull]
    exact (Exact.throw _).congr fun value sentence => by simp [isFalse, isTrue, isNull]

theorem exact_item_succ {room : Nat} {grammar : Grammar UInt8 Value} (exact : Exact (item room) grammar) :
    Exact (item (room + 1)) (Shape grammar) := by
  unfold item
  have exactRest : ∀ initial : Nat, Exact
      (if initial >>> 5 = 7 then simple (initial &&& 0x1F)
        else length (initial &&& 0x1F) >>= fun n => content (item room) (initial >>> 5) n.toNat)
      fun value sentence =>
        if initial >>> 5 = 7 then sentence = [] ∧ ((initial &&& 0x1F = 20 ∧ value = .bool false) ∨
          (initial &&& 0x1F = 21 ∧ value = .bool true) ∨ (initial &&& 0x1F = 22 ∧ value = .null))
        else andThen (Length (initial &&& 0x1F))
          (fun n => Content grammar (initial >>> 5) n.toNat) value sentence := by
    intro initial
    refine Exact.ite (fun _ => exact_simple _) fun _ => ?_
    exact (exact_length _).bind fun n => exact_content exact _ _
  refine (exact_byte_bind exactRest).congr fun value sentence => ?_
  constructor
  · rintro ⟨initial, rest, rfl, inRest⟩
    have isInitial := tag_split initial
    have isMajor : initial.toNat >>> 5 < 8 := by
      have isByte := initial.toNat_lt
      rw [Nat.shiftRight_eq_div_pow]
      omega
    split_ifs at inRest with isSimple
    · rw [isSimple] at isInitial
      obtain ⟨rfl, ⟨isInfo, rfl⟩ | ⟨isInfo, rfl⟩ | ⟨isInfo, rfl⟩⟩ := inRest
      · exact Or.inl ⟨by rw [← isInitial, isInfo], rfl⟩
      · exact Or.inr (Or.inl ⟨by rw [← isInitial, isInfo], rfl⟩)
      · exact Or.inr (Or.inr (Or.inl ⟨by rw [← isInitial, isInfo], rfl⟩))
    · obtain ⟨_, front, back, rfl, ⟨n, rfl, isArgument⟩, inContent⟩ := inRest
      refine Or.inr (Or.inr (Or.inr ⟨_, n, initial :: front, back, by omega, rfl, ?_, inContent⟩))
      exact (head_cons isMajor).mpr ⟨rfl, isArgument⟩
  · rintro (⟨rfl, rfl⟩ | ⟨rfl, rfl⟩ | ⟨rfl, rfl⟩ | ⟨major, n, head, back, isMajor, rfl, isHead, inContent⟩)
    · refine ⟨_, [], rfl, ?_⟩
      rw [if_pos (by decide)]
      exact ⟨rfl, Or.inl ⟨by decide, rfl⟩⟩
    · refine ⟨_, [], rfl, ?_⟩
      rw [if_pos (by decide)]
      exact ⟨rfl, Or.inr (Or.inl ⟨by decide, rfl⟩)⟩
    · refine ⟨_, [], rfl, ?_⟩
      rw [if_pos (by decide)]
      exact ⟨rfl, Or.inr (Or.inr ⟨by decide, rfl⟩)⟩
    · obtain ⟨initial, front, rfl⟩ := List.exists_cons_of_ne_nil (head_ne_nil isHead)
      obtain ⟨rfl, isArgument⟩ := (head_cons (by omega)).mp isHead
      refine ⟨initial, front ++ back, rfl, ?_⟩
      rw [if_neg (by omega)]
      exact ⟨n, front, back, rfl, ⟨n, rfl, isArgument⟩, inContent⟩

theorem head_lt {major n : Nat} {head : Bytes} (isHead : Head major n head) : n < 2 ^ 32 := by
  obtain ⟨_, _, _, isArgument⟩ := isHead
  exact (argument_lt isArgument).1

/-- The shapes of items whose inner items are of the fragment are the encodings of the fragment
with one level more. -/
theorem shape_iff {room : Nat} {value : Value} {sentence : Bytes} :
    Shape (fun value sentence => Fits room value ∧ Encodes value sentence) value sentence ↔
      Fits (room + 1) value ∧ Encodes value sentence := by
  constructor
  · rintro (⟨rfl, rfl⟩ | ⟨rfl, rfl⟩ | ⟨rfl, rfl⟩ | ⟨major, n, head, back, -, rfl, isHead, inContent⟩)
    · exact ⟨trivial, by rw [Encodes]; rfl⟩
    · exact ⟨trivial, by rw [Encodes]; rfl⟩
    · exact ⟨trivial, by rw [Encodes]⟩
    · have isWord := head_lt isHead
      cases value with
      | bool value => exact inContent.elim
      | null => exact inContent.elim
      | int value =>
        obtain ⟨rfl, ⟨rfl, rfl⟩ | ⟨rfl, rfl⟩⟩ := inContent
        · rw [Encodes, List.append_nil]
          exact ⟨by rw [Fits]; omega, n, Or.inl ⟨rfl, isHead⟩⟩
        · rw [Encodes, List.append_nil]
          exact ⟨by rw [Fits]; omega, n, Or.inr ⟨rfl, isHead⟩⟩
      | bytes value =>
        obtain ⟨rfl, rfl, rfl⟩ := inContent
        rw [Encodes]
        exact ⟨trivial, head, rfl, isHead⟩
      | text value =>
        obtain ⟨rfl, rfl, rfl⟩ := inContent
        rw [Encodes]
        exact ⟨trivial, head, rfl, isHead⟩
      | array values =>
        obtain ⟨rfl, rfl, inSequence⟩ := inContent
        obtain ⟨fits, encodes⟩ := sequence_fits.mp inSequence
        rw [Encodes]
        exact ⟨fits, head, back, rfl, isHead, encodes⟩
      | map map =>
        obtain ⟨rfl, rfl, settable, inEntries⟩ := inContent
        obtain ⟨fits, encodes⟩ := entries_fits.mp inEntries
        rw [Encodes]
        exact ⟨⟨settable.distinct, settable.plain, fits⟩, head, back, rfl, isHead, encodes⟩
  · rintro ⟨fits, encodes⟩
    cases value with
    | bool value =>
      rw [Encodes] at encodes
      cases value with
      | false => exact Or.inl ⟨encodes, rfl⟩
      | true => exact Or.inr (Or.inl ⟨encodes, rfl⟩)
    | null =>
      rw [Encodes] at encodes
      exact Or.inr (Or.inr (Or.inl ⟨encodes, rfl⟩))
    | int value =>
      rw [Encodes] at encodes
      obtain ⟨n, ⟨rfl, isHead⟩ | ⟨rfl, isHead⟩⟩ := encodes
      · exact Or.inr (Or.inr (Or.inr ⟨0, n, sentence, [], by decide, (List.append_nil _).symm, isHead,
          rfl, Or.inl ⟨rfl, rfl⟩⟩))
      · exact Or.inr (Or.inr (Or.inr ⟨1, n, sentence, [], by decide, (List.append_nil _).symm, isHead,
          rfl, Or.inr ⟨rfl, rfl⟩⟩))
    | bytes value =>
      rw [Encodes] at encodes
      obtain ⟨head, rfl, isHead⟩ := encodes
      exact Or.inr (Or.inr (Or.inr ⟨2, _, head, _, by decide, rfl, isHead, rfl, rfl, rfl⟩))
    | text value =>
      rw [Encodes] at encodes
      obtain ⟨head, rfl, isHead⟩ := encodes
      exact Or.inr (Or.inr (Or.inr ⟨3, _, head, _, by decide, rfl, isHead, rfl, rfl, rfl⟩))
    | array values =>
      rw [Encodes] at encodes
      obtain ⟨head, body, rfl, isHead, encodesItems⟩ := encodes
      exact Or.inr (Or.inr (Or.inr ⟨4, _, head, body, by decide, rfl, isHead, rfl, rfl,
        sequence_fits.mpr ⟨fits, encodesItems⟩⟩))
    | map map =>
      rw [Encodes] at encodes
      obtain ⟨head, body, rfl, isHead, encodesEntries⟩ := encodes
      obtain ⟨distinct, plain, fitsEntries⟩ := fits
      exact Or.inr (Or.inr (Or.inr ⟨5, _, head, body, by decide, rfl, isHead, rfl, rfl,
        ⟨distinct, nofun, plain⟩, entries_fits.mpr ⟨fitsEntries, encodesEntries⟩⟩))

/-- **An item is read exactly.** The induction is on the levels there may be. -/
theorem exact_item (room : Nat) :
    Exact (item room) fun value sentence => Fits room value ∧ Encodes value sentence := by
  induction room with
  | zero => exact (Exact.throw _).congr fun value sentence => ⟨False.elim, fun fits => fits.1⟩
  | succ room ih =>
    exact (exact_item_succ ih).congr fun value sentence => shape_iff

/-! ## The whole input -/

theorem decodeCbor_eq_ok {bytes : Bytes} {value : Value} :
    decodeCbor bytes = .ok value ↔ item 17 bytes = .ok (value, []) := by
  unfold decodeCbor
  cases item 17 bytes with
  | error message => exact ⟨(nomatch ·), (nomatch ·)⟩
  | ok pair =>
    obtain ⟨found, rest⟩ := pair
    dsimp only
    split_ifs with hasRest
    · refine ⟨(nomatch ·), fun isRead => ?_⟩
      exact absurd (Prod.mk.inj (Except.ok.inj isRead)).2 hasRest
    · rw [not_ne_iff.mp hasRest]
      exact ⟨fun isRead => by rw [Except.ok.inj isRead],
        fun isRead => by rw [(Prod.mk.inj (Except.ok.inj isRead)).1]⟩

/-- **`decodeCbor` accepts exactly the supported fragment.** It answers a value on the encodings
of that value, in any form of their lengths, where the value is of the fragment and at most
sixteen levels deep, and on nothing else; no input it accepts goes on to another one. -/
theorem decodeCbor_exact (bytes : Bytes) (value : Value) :
    (decodeCbor bytes = .ok value ↔ Fits 17 value ∧ Encodes value bytes) ∧
      ∀ more other, decodeCbor bytes = .ok value → decodeCbor (bytes ++ more) = .ok other →
        more = [] ∧ other = value := by
  have accepted : ∀ (input : Bytes) (found : Value),
      decodeCbor input = .ok found ↔ Fits 17 found ∧ Encodes found input := by
    intro input found
    rw [decodeCbor_eq_ok, exact_item 17 input found []]
    constructor
    · rintro ⟨sentence, rfl, inGrammar⟩
      rw [List.append_nil]
      exact inGrammar
    · intro inGrammar
      exact ⟨input, (List.append_nil _).symm, inGrammar⟩
  refine ⟨accepted bytes value, fun more other isValue isOther => ?_⟩
  have sameInput : bytes ++ more = bytes ++ more ++ [] := (List.append_nil _).symm
  obtain ⟨rfl, isSame, -⟩ := (exact_item 17).unique ((accepted _ _).mp isValue)
    ((accepted _ _).mp isOther) sameInput
  exact ⟨List.append_right_eq_self.mp isSame.symm, rfl⟩

/-- A length that is written longer than it needs to be is read all the same. -/
theorem decodeCbor_exact_example :
    decodeCbor [0x82, 0x18, 0x05, 0x20] = .ok (.array [.int 5, .int (-1)]) ∧
      Encodes (.array [.int 5, .int (-1)]) [0x82, 0x18, 0x05, 0x20] ∧
      ∀ other, decodeCbor [0x82, 0x18, 0x05, 0x20, 0x00] ≠ .ok other := by
  have isRead : decodeCbor [0x82, 0x18, 0x05, 0x20] = .ok (.array [.int 5, .int (-1)]) := rfl
  have exact := decodeCbor_exact [0x82, 0x18, 0x05, 0x20] (.array [.int 5, .int (-1)])
  refine ⟨isRead, (exact.1.mp isRead).2, fun other isOther => ?_⟩
  exact List.cons_ne_nil _ _ (exact.2 [0x00] other isRead isOther).1

end Murage.Cbor
