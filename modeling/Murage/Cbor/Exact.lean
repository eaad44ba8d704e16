import Murage.Cbor.Model
import Murage.Library.Reader

/-!
Owns which bytes encode a value, in every form a length may be written in, which values the
fragment has, and that `decodeCbor` reads these encodings exactly: every reader of it against the
sentences it stands for, from the length of a head up to a whole item.
-/

namespace Murage.Cbor

open Murage.Library
open Murage.Library.Utf8 (Bytes)

/-- The first byte of a head. -/
def tag (major info : Nat) : UInt8 := UInt8.ofNat (major * 32 + info)

/-- The bytes that stand for an argument after the first byte, by what the first byte says. -/
inductive Argument : Nat → Nat → Bytes → Prop
  | inline {n : Nat} : n < 24 → Argument n n []
  | one {n : Nat} : n < 2 ^ 8 → Argument 24 n [UInt8.ofNat n]
  | two {n : Nat} : n < 2 ^ 16 → Argument 25 n [UInt8.ofNat (n / 2 ^ 8), UInt8.ofNat (n % 2 ^ 8)]
  | four {n : Nat} : n < 2 ^ 32 → Argument 26 n
      [UInt8.ofNat (n / 2 ^ 24), UInt8.ofNat (n / 2 ^ 16 % 2 ^ 8), UInt8.ofNat (n / 2 ^ 8 % 2 ^ 8),
        UInt8.ofNat (n % 2 ^ 8)]

def Head (major n : Nat) (head : Bytes) : Prop :=
  ∃ info rest, head = tag major info :: rest ∧ Argument info n rest

def EncodesText (text : String) (bytes : Bytes) : Prop :=
  ∃ head, bytes = head ++ Utf8.encode text.toList ∧ Head 3 (Utf8.encode text.toList).length head

mutual

def Encodes : Value → Bytes → Prop
  | .bool value, bytes => bytes = [tag 7 (if value then 21 else 20)]
  | .null, bytes => bytes = [tag 7 22]
  | .int value, bytes => ∃ n : Nat, (value = n ∧ Head 0 n bytes) ∨ (value = -1 - n ∧ Head 1 n bytes)
  | .bytes value, bytes => ∃ head, bytes = head ++ value ∧ Head 2 value.length head
  | .text value, bytes => EncodesText value bytes
  | .array items, bytes => ∃ head body,
      bytes = head ++ body ∧ Head 4 items.length head ∧ EncodesItems items body
  | .map entries, bytes => ∃ head body,
      bytes = head ++ body ∧ Head 5 entries.length head ∧ EncodesEntries entries body

def EncodesItems : List Value → Bytes → Prop
  | [], bytes => bytes = []
  | value :: rest, bytes => ∃ front back,
      bytes = front ++ back ∧ Encodes value front ∧ EncodesItems rest back

def EncodesEntries : List (String × Value) → Bytes → Prop
  | [], bytes => bytes = []
  | (key, value) :: rest, bytes => ∃ name front back,
      bytes = name ++ (front ++ back) ∧ EncodesText key name ∧ Encodes value front ∧
        EncodesEntries rest back

end

/-- The value is of the fragment, with at most so many levels: integers of thirty-three bits, and
maps where no key comes twice and none would reach the prototype. -/
def Fits : Nat → Value → Prop
  | 0, _ => False
  | _ + 1, .int value => -2 ^ 32 ≤ value ∧ value ≤ 2 ^ 32 - 1
  | room + 1, .array items => ∀ value ∈ items, Fits room value
  | room + 1, .map entries =>
    (entries.map (·.1)).Nodup ∧ "__proto__" ∉ entries.map (·.1) ∧ ∀ entry ∈ entries, Fits room entry.2
  | _ + 1, _ => True

/-! ## Heads -/

theorem argument_lt {info n : Nat} {rest : Bytes} (isArgument : Argument info n rest) :
    n < 2 ^ 32 ∧ info < 27 := by
  cases isArgument with
  | inline fits => omega
  | one fits => omega
  | two fits => omega
  | four fits => omega

theorem tag_toNat {major info : Nat} (isMajor : major < 8) (isInfo : info < 32) :
    (tag major info).toNat = major * 32 + info := by
  unfold tag
  rw [UInt8.toNat_ofNat']
  omega

theorem tag_split (initial : UInt8) : tag (initial.toNat >>> 5) (initial.toNat &&& 0x1F) = initial := by
  apply UInt8.toNat_inj.mp
  have isByte := initial.toNat_lt
  have isMask : initial.toNat &&& 0x1F = initial.toNat % 32 := Nat.and_two_pow_sub_one_eq_mod _ 5
  rw [isMask, Nat.shiftRight_eq_div_pow, tag_toNat (by omega) (by omega)]
  omega

theorem tag_major {major info : Nat} (isMajor : major < 8) (isInfo : info < 32) :
    (tag major info).toNat >>> 5 = major := by
  rw [tag_toNat isMajor isInfo, Nat.shiftRight_eq_div_pow]
  omega

theorem tag_info {major info : Nat} (isMajor : major < 8) (isInfo : info < 32) :
    (tag major info).toNat &&& 0x1F = info := by
  have isMask : (tag major info).toNat &&& 0x1F = (tag major info).toNat % 32 :=
    Nat.and_two_pow_sub_one_eq_mod _ 5
  rw [isMask, tag_toNat isMajor isInfo]
  omega

theorem head_cons {major n : Nat} {initial : UInt8} {rest : Bytes} (isMajor : major < 8) :
    Head major n (initial :: rest) ↔
      initial.toNat >>> 5 = major ∧ Argument (initial.toNat &&& 0x1F) n rest := by
  constructor
  · rintro ⟨info, _, isHead, isArgument⟩
    obtain ⟨rfl, rfl⟩ := List.cons.inj isHead
    have isInfo : info < 32 := by
      have := (argument_lt isArgument).2
      omega
    rw [tag_major isMajor isInfo, tag_info isMajor isInfo]
    exact ⟨rfl, isArgument⟩
  · rintro ⟨rfl, isArgument⟩
    exact ⟨_, rest, by rw [tag_split], isArgument⟩

theorem head_ne_nil {major n : Nat} {head : Bytes} (isHead : Head major n head) : head ≠ [] := by
  obtain ⟨_, _, rfl, _⟩ := isHead
  exact List.cons_ne_nil _ _

open Murage.Library.Reader

/-! ## Heads -/

theorem exact_byte_bind {α : Type} {next : Nat → Reader α} {second : Nat → Grammar UInt8 α}
    (exactNext : ∀ n, Exact (next n) (second n)) :
    Exact (byte >>= next) fun value sentence => ∃ (first : UInt8) (rest : Bytes),
      sentence = first :: rest ∧ second first.toNat value rest := by
  intro input value rest
  rw [bind_eq_ok]
  constructor
  · rintro ⟨n, middle, isByte, isNext⟩
    cases input with
    | nil => exact nomatch isByte
    | cons first later =>
      obtain ⟨rfl, rfl⟩ := Prod.mk.inj (Except.ok.inj isByte)
      obtain ⟨back, rfl, inSecond⟩ := (exactNext _ _ _ _).mp isNext
      exact ⟨first :: back, rfl, first, back, rfl, inSecond⟩
  · rintro ⟨_, rfl, first, back, rfl, inSecond⟩
    exact ⟨first.toNat, back ++ rest, rfl, (exactNext _ _ _ _).mpr ⟨back, rfl, inSecond⟩⟩

variable {n : Nat}

theorem int32_of_lt (isSmall : n < 2 ^ 31) : int32 n = n := by
  unfold int32
  rw [Int.bmod_def]
  split <;> omega

theorem uint32_int32 (isWord : n < 2 ^ 32) : uint32 (int32 n) = n := by
  unfold uint32 int32
  have isSame : Int.bmod (n : Int) (2 ^ 32) % ((2 ^ 32 : Nat) : Int) = (n : Int) % ((2 ^ 32 : Nat) : Int) :=
    Int.bmod_emod
  have isRemainder : Int.bmod (n : Int) (2 ^ 32) % 2 ^ 32 = (n : Int) % 2 ^ 32 := isSame
  rw [isRemainder]
  omega

theorem two_bytes (first second : UInt8) :
    int32 ((first.toNat <<< 8) ||| second.toNat) = ((first.toNat * 2 ^ 8 + second.toNat : Nat) : Int) := by
  have isFirst := first.toNat_lt
  have isSecond := second.toNat_lt
  rw [← Nat.shiftLeft_add_eq_or_of_lt (i := 8) isSecond, Nat.shiftLeft_eq, int32_of_lt (by omega)]

theorem four_bytes (first second third fourth : UInt8) :
    (uint32 (int32 (first.toNat <<< 24)) : Int) + int32 (second.toNat <<< 16) + int32 (third.toNat <<< 8)
        + (fourth.toNat : Int)
      = ((first.toNat * 2 ^ 24 + second.toNat * 2 ^ 16 + third.toNat * 2 ^ 8 + fourth.toNat : Nat) : Int) := by
  have isFirst := first.toNat_lt
  have isSecond := second.toNat_lt
  have isThird := third.toNat_lt
  have isFourth := fourth.toNat_lt
  rw [Nat.shiftLeft_eq, Nat.shiftLeft_eq, Nat.shiftLeft_eq, uint32_int32 (by omega),
    int32_of_lt (by omega), int32_of_lt (by omega)]
  omega

theorem ofNat_of_eq {byte : UInt8} (same : n = byte.toNat) : UInt8.ofNat n = byte := by
  rw [same, UInt8.ofNat_toNat]

theorem toNat_ofNat (isByte : n < 2 ^ 8) : (UInt8.ofNat n).toNat = n := by
  rw [UInt8.toNat_ofNat']
  omega

theorem argument_one {sentence : Bytes} :
    Argument 24 n sentence ↔ ∃ first : UInt8, sentence = [first] ∧ n = first.toNat := by
  constructor
  · intro isArgument
    cases isArgument with
    | inline fits => exact absurd fits (by decide)
    | one fits => exact ⟨_, rfl, (toNat_ofNat fits).symm⟩
  · rintro ⟨first, rfl, rfl⟩
    have isByte : Argument 24 first.toNat [UInt8.ofNat first.toNat] := Argument.one first.toNat_lt
    rwa [UInt8.ofNat_toNat] at isByte

theorem argument_two {sentence : Bytes} :
    Argument 25 n sentence ↔ ∃ first second : UInt8,
      sentence = [first, second] ∧ n = first.toNat * 2 ^ 8 + second.toNat := by
  constructor
  · intro isArgument
    cases isArgument with
    | inline fits => exact absurd fits (by decide)
    | two fits =>
      refine ⟨_, _, rfl, ?_⟩
      rw [toNat_ofNat (by omega), toNat_ofNat (by omega)]
      omega
  · rintro ⟨first, second, rfl, rfl⟩
    have isFirst := first.toNat_lt
    have isSecond := second.toNat_lt
    have isPair := Argument.two (n := first.toNat * 2 ^ 8 + second.toNat) (by omega)
    rwa [ofNat_of_eq (by omega : _ = first.toNat), ofNat_of_eq (by omega : _ = second.toNat)] at isPair

theorem argument_four {sentence : Bytes} :
    Argument 26 n sentence ↔ ∃ first second third fourth : UInt8,
      sentence = [first, second, third, fourth] ∧
        n = first.toNat * 2 ^ 24 + second.toNat * 2 ^ 16 + third.toNat * 2 ^ 8 + fourth.toNat := by
  constructor
  · intro isArgument
    cases isArgument with
    | inline fits => exact absurd fits (by decide)
    | four fits =>
      refine ⟨_, _, _, _, rfl, ?_⟩
      rw [toNat_ofNat (by omega), toNat_ofNat (by omega), toNat_ofNat (by omega), toNat_ofNat (by omega)]
      omega
  · rintro ⟨first, second, third, fourth, rfl, rfl⟩
    have isFirst := first.toNat_lt
    have isSecond := second.toNat_lt
    have isThird := third.toNat_lt
    have isFourth := fourth.toNat_lt
    have isQuad := Argument.four
      (n := first.toNat * 2 ^ 24 + second.toNat * 2 ^ 16 + third.toNat * 2 ^ 8 + fourth.toNat) (by omega)
    rwa [ofNat_of_eq (by omega : _ = first.toNat), ofNat_of_eq (by omega : _ = second.toNat),
      ofNat_of_eq (by omega : _ = third.toNat), ofNat_of_eq (by omega : _ = fourth.toNat)] at isQuad

/-- The arguments a length reader answers with. -/
def Length (info : Nat) : Grammar UInt8 Int :=
  fun value sentence => ∃ n : Nat, value = n ∧ Argument info n sentence

theorem exact_length (info : Nat) : Exact (length info) (Length info) := by
  unfold length
  by_cases isInline : info < 24
  · rw [if_pos isInline]
    refine (Exact.pure _).congr fun value sentence => ?_
    constructor
    · rintro ⟨rfl, rfl⟩
      exact ⟨info, rfl, Argument.inline isInline⟩
    · rintro ⟨n, rfl, isArgument⟩
      cases isArgument with
      | inline => exact ⟨rfl, rfl⟩
      | one => exact absurd isInline (by decide)
      | two => exact absurd isInline (by decide)
      | four => exact absurd isInline (by decide)
  rw [if_neg isInline]
  by_cases isOne : info = 24
  · subst isOne
    rw [if_pos rfl]
    refine (exact_byte_bind fun first => Exact.pure (first : Int)).congr fun value sentence => ?_
    constructor
    · rintro ⟨first, _, rfl, rfl, rfl⟩
      exact ⟨_, rfl, argument_one.mpr ⟨first, rfl, rfl⟩⟩
    · rintro ⟨n, rfl, isArgument⟩
      obtain ⟨first, rfl, rfl⟩ := argument_one.mp isArgument
      exact ⟨first, [], rfl, rfl, rfl⟩
  rw [if_neg isOne]
  by_cases isTwo : info = 25
  · subst isTwo
    rw [if_pos rfl]
    refine (exact_byte_bind fun first => exact_byte_bind fun second =>
      Exact.pure (int32 ((first <<< 8) ||| second))).congr fun value sentence => ?_
    constructor
    · rintro ⟨first, _, rfl, second, _, rfl, isValue, rfl⟩
      exact ⟨first.toNat * 2 ^ 8 + second.toNat, isValue.trans (two_bytes first second),
        argument_two.mpr ⟨first, second, rfl, rfl⟩⟩
    · rintro ⟨n, rfl, isArgument⟩
      obtain ⟨first, second, rfl, rfl⟩ := argument_two.mp isArgument
      exact ⟨first, _, rfl, second, _, rfl, (two_bytes first second).symm, rfl⟩
  rw [if_neg isTwo]
  by_cases isFour : info = 26
  · subst isFour
    rw [if_pos rfl]
    refine (exact_byte_bind fun first => exact_byte_bind fun second => exact_byte_bind fun third =>
      exact_byte_bind fun fourth => Exact.pure (uint32 (int32 (first <<< 24)) + int32 (second <<< 16)
        + int32 (third <<< 8) + (fourth : Int))).congr fun value sentence => ?_
    constructor
    · rintro ⟨first, _, rfl, second, _, rfl, third, _, rfl, fourth, _, rfl, isValue, rfl⟩
      exact ⟨first.toNat * 2 ^ 24 + second.toNat * 2 ^ 16 + third.toNat * 2 ^ 8 + fourth.toNat,
        isValue.trans (four_bytes first second third fourth),
        argument_four.mpr ⟨first, second, third, fourth, rfl, rfl⟩⟩
    · rintro ⟨n, rfl, isArgument⟩
      obtain ⟨first, second, third, fourth, rfl, rfl⟩ := argument_four.mp isArgument
      exact ⟨first, _, rfl, second, _, rfl, third, _, rfl, fourth, _, rfl,
        (four_bytes first second third fourth).symm, rfl⟩
  rw [if_neg isFour]
  refine (Exact.throw _).congr fun value sentence => ⟨False.elim, ?_⟩
  rintro ⟨n, rfl, isArgument⟩
  cases isArgument with
  | inline fits => exact isInline fits
  | one => exact isOne rfl
  | two => exact isTwo rfl
  | four => exact isFour rfl

/-! ## Strings -/

theorem exact_take (n : Nat) : Exact (take n) fun value sentence => sentence = value ∧ value.length = n := by
  intro input value rest
  unfold take
  split_ifs with isShort
  · constructor
    · exact (nomatch ·)
    · rintro ⟨sentence, rfl, rfl, rfl⟩
      rw [List.length_append] at isShort
      omega
  · constructor
    · intro isRead
      obtain ⟨rfl, rfl⟩ := Prod.mk.inj (Except.ok.inj isRead)
      refine ⟨_, (List.take_append_drop n input).symm, rfl, ?_⟩
      rw [List.length_take]
      omega
    · rintro ⟨sentence, rfl, rfl, rfl⟩
      rw [List.take_left, List.drop_left]

/-! ## Sequences -/

/-- Values one after another. -/
def Sequence (grammar : Grammar UInt8 Value) : List Value → Bytes → Prop
  | [], sentence => sentence = []
  | value :: rest, sentence => ∃ front back,
      sentence = front ++ back ∧ grammar value front ∧ Sequence grammar rest back

theorem exact_items {read : Reader Value} {grammar : Grammar UInt8 Value} (exact : Exact read grammar)
    (n : Nat) : Exact (items read n) fun values sentence =>
      values.length = n ∧ Sequence grammar values sentence := by
  induction n with
  | zero =>
    refine (Exact.pure []).congr fun values sentence => ?_
    constructor
    · rintro ⟨rfl, rfl⟩
      exact ⟨rfl, rfl⟩
    · rintro ⟨isEmpty, inSequence⟩
      obtain rfl := List.eq_nil_of_length_eq_zero isEmpty
      exact ⟨rfl, inSequence⟩
  | succ n ih =>
    refine (exact.bind fun value => ih.map (value :: ·)).congr fun values sentence => ?_
    constructor
    · rintro ⟨value, front, back, rfl, inFront, rest, rfl, isLength, inRest⟩
      exact ⟨congrArg (· + 1) isLength, front, back, rfl, inFront, inRest⟩
    · rintro ⟨isLength, inSequence⟩
      cases values with
      | nil => exact absurd isLength.symm (Nat.succ_ne_zero n)
      | cons value rest =>
        obtain ⟨front, back, rfl, inFront, inRest⟩ := inSequence
        exact ⟨value, front, back, rfl, inFront, rest, rfl, Nat.succ.inj isLength, inRest⟩

/-- Entries one after another, every key a text. -/
def Entries (grammar : Grammar UInt8 Value) : List (String × Value) → Bytes → Prop
  | [], sentence => sentence = []
  | (key, value) :: rest, sentence => ∃ name front back,
      sentence = name ++ (front ++ back) ∧ grammar (.text key) name ∧ grammar value front ∧
        Entries grammar rest back

/-- The keys that may still be set. -/
structure Settable (set new : List String) : Prop where
  distinct : new.Nodup
  fresh : ∀ key ∈ new, key ∉ set
  plain : "__proto__" ∉ new

theorem settable_cons {set new : List String} {key : String} :
    Settable set (key :: new) ↔ ¬(key = "__proto__" ∨ key ∈ set) ∧ Settable (set ++ [key]) new := by
  constructor
  · rintro ⟨distinct, fresh, plain⟩
    obtain ⟨notLater, distinctLater⟩ := List.nodup_cons.mp distinct
    refine ⟨?_, distinctLater, ?_, fun isPrototype => plain (List.mem_cons_of_mem _ isPrototype)⟩
    · rintro (rfl | isSet)
      · exact plain List.mem_cons_self
      · exact fresh key List.mem_cons_self isSet
    · intro later isLater isSet
      rcases List.mem_append.mp isSet with isSet | isKey
      · exact fresh later (List.mem_cons_of_mem _ isLater) isSet
      · exact notLater (List.mem_singleton.mp isKey ▸ isLater)
  · rintro ⟨isGood, distinct, fresh, plain⟩
    refine ⟨List.nodup_cons.mpr ⟨fun isLater => ?_, distinct⟩, ?_, ?_⟩
    · exact fresh key isLater (List.mem_append_right _ List.mem_cons_self)
    · intro later isLater isSet
      rcases List.mem_cons.mp isLater with rfl | isLater
      · exact isGood (Or.inr isSet)
      · exact fresh later isLater (List.mem_append_left _ isSet)
    · intro isPrototype
      rcases List.mem_cons.mp isPrototype with rfl | isPrototype
      · exact isGood (Or.inl rfl)
      · exact plain isPrototype

theorem exact_entry {read : Reader Value} {grammar : Grammar UInt8 Value}
    {set : List (String × Value)} (exact : Exact read grammar)
    (exactRest : ∀ next : String × Value, Exact (entries read n (set ++ [next]))
      fun map sentence => ∃ new, map = (set ++ [next]) ++ new ∧ new.length = n ∧
        Settable ((set ++ [next]).map (·.1)) (new.map (·.1)) ∧ Entries grammar new sentence)
    (key : Value) : Exact
      (match key with
        | .text key =>
          if key = "__proto__" ∨ key ∈ set.map (·.1) then throw "cbor: bad key"
          else read >>= fun value => entries read n (set ++ [(key, value)])
        | _ => throw "cbor: non-text key")
      fun map sentence => ∃ name value new front back, key = .text name ∧
        sentence = front ++ back ∧ grammar value front ∧
        map = set ++ (name, value) :: new ∧ new.length = n ∧
        Settable (set.map (·.1)) (name :: new.map (·.1)) ∧ Entries grammar new back := by
  split
  · rename_i name
    split_ifs with isBad
    · refine (Exact.throw _).congr fun map sentence => ⟨False.elim, ?_⟩
      rintro ⟨other, _, _, _, _, isName, _, _, _, _, settable, _⟩
      obtain rfl := Value.text.inj isName
      exact (settable_cons.mp settable).1 isBad
    · refine (exact.bind fun value => exactRest (name, value)).congr fun map sentence => ?_
      constructor
      · rintro ⟨value, front, back, rfl, inFront, new, rfl, isLength, settable, inEntries⟩
        rw [List.map_append] at settable
        exact ⟨name, value, new, front, back, rfl, rfl, inFront, by simp, isLength,
          settable_cons.mpr ⟨isBad, settable⟩, inEntries⟩
      · rintro ⟨other, value, new, front, back, isName, rfl, inFront, rfl, isLength, settable,
          inEntries⟩
        obtain rfl := Value.text.inj isName
        refine ⟨value, front, back, rfl, inFront, new, by simp, isLength, ?_, inEntries⟩
        rw [List.map_append]
        exact (settable_cons.mp settable).2
  · rename_i notText
    refine (Exact.throw _).congr fun map sentence => ⟨False.elim, ?_⟩
    rintro ⟨name, _, _, _, _, isName, _⟩
    exact notText name isName

theorem exact_entries {read : Reader Value} {grammar : Grammar UInt8 Value} (exact : Exact read grammar)
    (n : Nat) : ∀ set : List (String × Value), Exact (entries read n set) fun map sentence =>
      ∃ new, map = set ++ new ∧ new.length = n ∧ Settable (set.map (·.1)) (new.map (·.1)) ∧
        Entries grammar new sentence := by
  induction n with
  | zero =>
    intro set
    refine (Exact.pure set).congr fun map sentence => ?_
    constructor
    · rintro ⟨rfl, rfl⟩
      exact ⟨[], (List.append_nil _).symm, rfl, ⟨List.nodup_nil, nofun, nofun⟩, rfl⟩
    · rintro ⟨new, rfl, isEmpty, _, inEntries⟩
      obtain rfl := List.eq_nil_of_length_eq_zero isEmpty
      exact ⟨List.append_nil _, inEntries⟩
  | succ n ih =>
    intro set
    refine (exact.bind (exact_entry exact fun next => ih (set ++ [next]))).congr fun map sentence => ?_
    constructor
    · rintro ⟨_, name, _, rfl, inName, key, value, new, front, back, rfl, rfl, inFront, rfl, isLength,
        settable, inEntries⟩
      exact ⟨(key, value) :: new, rfl, congrArg (· + 1) isLength, settable, name, front, back, rfl, inName,
        inFront, inEntries⟩
    · rintro ⟨new, rfl, isLength, settable, inEntries⟩
      cases new with
      | nil => exact absurd isLength.symm (Nat.succ_ne_zero n)
      | cons entry new =>
        obtain ⟨name, front, back, rfl, inName, inFront, inEntries⟩ := inEntries
        exact ⟨.text entry.1, name, front ++ back, rfl, inName, entry.1, entry.2, new, front, back, rfl, rfl,
          inFront, rfl, Nat.succ.inj isLength, settable, inEntries⟩

end Murage.Cbor
