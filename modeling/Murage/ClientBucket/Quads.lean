import Mathlib.Data.Nat.Digits.Lemmas
import Murage.ClientBucket.Groups

/-!
Owns what the reader of an IPv6 address accepts, first in lower case, with a quad at the end or
without, and then in either case; and the numbers that are read back from their texts.

Does not own: brackets and zones.
-/

namespace Murage.ClientBucket

/-! ## Numbers and their texts -/

theorem numberOf_snoc (base : Nat) (text : Text) (c : UInt16) :
    numberOf base (text ++ [c]) = numberOf base text * base + digitOf c := by
  rw [numberOf, List.foldl_append]
  rfl

theorem digitOf_unitOf : ∀ digit < 16, digitOf (unitOf digit) = digit := by decide

theorem numberOf_digits {base : Nat} {digits : List Nat} (areDigits : ∀ digit ∈ digits, digit < 16) :
    numberOf base (digits.reverse.map unitOf) = Nat.ofDigits base digits := by
  induction digits with
  | nil => rfl
  | cons digit rest ih =>
    obtain ⟨isDigit, areRest⟩ := List.forall_mem_cons.1 areDigits
    rw [List.reverse_cons, List.map_append, List.map_singleton, numberOf_snoc,
      ih areRest, digitOf_unitOf digit isDigit, Nat.ofDigits_cons, Nat.add_comm,
      Nat.mul_comm]

theorem numberOf_numberText {base : Nat} (isBase : 1 < base) (isSmall : base ≤ 16) (n : Nat) :
    numberOf base (numberText base n) = n := by
  rw [numberText]
  split
  · rename_i isZero
    rw [isZero, numberOf, List.foldl_cons, Nat.zero_mul]
    rfl
  · rw [numberOf_digits fun digit isDigit =>
      Nat.lt_of_lt_of_le (Nat.digits_lt_base isBase isDigit) isSmall, Nat.ofDigits_digits]

theorem isHexDigit_unitOf : ∀ digit < 16, isHexDigit (unitOf digit) = true := by decide

theorem numberText_hexGroup {n : Nat} (isGroup : n < 65536) : HexGroup (numberText 16 n) n := by
  refine ⟨?_, numberOf_numberText (by decide) (Nat.le_refl 16) n⟩
  rw [numberText]
  split
  · rfl
  · rename_i isSome
    have isShort : (Nat.digits 16 n).length ≤ 4 :=
      (Nat.digits_length_le_iff (by decide) n).2 isGroup
    have isLong : 1 ≤ (Nat.digits 16 n).length :=
      List.length_pos_iff.2 (Nat.digits_ne_nil_iff_ne_zero.2 isSome)
    rw [isHextet, Bool.and_eq_true, Bool.and_eq_true, decide_eq_true_iff, decide_eq_true_iff,
      List.length_map, List.length_reverse, List.all_eq_true]
    refine ⟨⟨isLong, isShort⟩, fun c isUnit => ?_⟩
    obtain ⟨digit, isDigit, rfl⟩ := List.mem_map.1 isUnit
    exact isHexDigit_unitOf digit (Nat.digits_lt_base (by decide) (List.mem_reverse.1 isDigit))

theorem shifted_or {low : Nat} (isByte : low ≤ 255) (high : Nat) :
    (high <<< 8) ||| low = high * 256 + low := by
  rw [← Nat.shiftLeft_add_eq_or_of_lt (Nat.lt_succ_of_le isByte), Nat.shiftLeft_eq]

/-! ## Dotted quads -/

variable {text : Text}

theorem isOctetText_iff :
    isOctetText text = true ∧ numberOf 10 text ≤ 255 ↔ SpellsOctet text (numberOf 10 text) := by
  rw [isOctetText, Bool.and_eq_true, Bool.and_eq_true, decide_eq_true_iff, decide_eq_true_iff,
    List.all_eq_true]
  exact ⟨fun ⟨⟨⟨isSome, isShort⟩, areDigits⟩, isByte⟩ => ⟨isSome, isShort, areDigits, rfl, isByte⟩,
    fun isOctet => ⟨⟨⟨isOctet.isSome, isOctet.isShort⟩, isOctet.areDigits⟩, isOctet.isByte⟩⟩

variable {octets : List Nat} {texts : List Text}

theorem forall_octet :
    List.Forall₂ SpellsOctet texts octets ↔ octets = texts.map (numberOf 10) ∧
      ∀ text ∈ texts, SpellsOctet text (numberOf 10 text) := by
  induction texts generalizing octets with
  | nil => simp
  | cons text rest ih =>
    cases octets with
    | nil => simp
    | cons octet others =>
      rw [List.forall₂_cons, ih, List.map_cons, List.cons.injEq,
        List.forall_mem_cons]
      constructor
      · rintro ⟨isOctet, rfl, areOctets⟩
        cases isOctet.isOctet
        exact ⟨⟨rfl, rfl⟩, isOctet, areOctets⟩
      · rintro ⟨⟨rfl, rfl⟩, isOctet, areOctets⟩
        exact ⟨isOctet, rfl, areOctets⟩

theorem octet_plain {octet : Nat} (isOctet : SpellsOctet text octet) :
    ∀ c ∈ text, c ≠ u '.' ∧ c ≠ u ':' := by
  intro c isUnit
  have isDigit := isOctet.areDigits c isUnit
  refine ⟨fun isDot => ?_, fun isColon => ?_⟩
  · subst isDot
    exact absurd isDigit (by decide)
  · subst isColon
    exact absurd isDigit (by decide)

/-- **What the reader of a quad accepts.** -/
theorem ipv4_iff :
    ipv4 text = some octets ↔ SpellsQuad text octets := by
  rw [ipv4]
  dsimp only
  constructor
  · intro isRead
    split at isRead
    · rename_i areTexts
      split at isRead
      · rename_i areBytes
        cases isRead
        rw [Bool.and_eq_true, decide_eq_true_iff, List.all_eq_true] at areTexts
        rw [List.all_eq_true] at areBytes
        refine ⟨text.splitOn (u '.'), (join_splitOn _ text).symm, areTexts.1,
          forall_octet.2 ⟨rfl, fun part isPart => ?_⟩⟩
        have isByte := areBytes _ (List.mem_map_of_mem isPart)
        exact isOctetText_iff.1 ⟨areTexts.2 part isPart, by simpa using isByte⟩
      · cases isRead
    · cases isRead
  · rintro ⟨parts, rfl, isQuad, areOctets⟩
    obtain ⟨rfl, areTexts⟩ := forall_octet.1 areOctets
    have isSome : parts ≠ [] := fun isEmpty => by
      rw [isEmpty] at isQuad
      cases isQuad
    have isSplit : (join (u '.') parts).splitOn (u '.') = parts :=
      splitOn_parts (fun part isPart isDot =>
        (octet_plain (areTexts part isPart) _ isDot).1 rfl) isSome
    rw [isSplit, if_pos, if_pos]
    · rw [List.all_eq_true]
      intro octet isOctet
      obtain ⟨part, isPart, rfl⟩ := List.mem_map.1 isOctet
      exact decide_eq_true (areTexts part isPart).isByte
    · rw [Bool.and_eq_true, decide_eq_true_iff, List.all_eq_true]
      exact ⟨isQuad, fun part isPart => (isOctetText_iff.2 (areTexts part isPart)).1⟩

theorem quad_units (isQuad : SpellsQuad text octets) :
    ∀ c ∈ text, c = u '.' ∨ isDigit c = true := by
  obtain ⟨parts, rfl, _, areOctets⟩ := isQuad
  have areTexts := (forall_octet.1 areOctets).2
  intro c isUnit
  rcases mem_join isUnit with isDot | ⟨part, isPart, isIn⟩
  · exact Or.inl isDot
  · exact Or.inr ((areTexts part isPart).areDigits c isIn)

theorem quad_uncoloned (isQuad : SpellsQuad text octets) :
    u ':' ∉ text := by
  intro isColon
  rcases quad_units isQuad _ isColon with isDot | isDigit
  · exact absurd isDot (by decide)
  · exact absurd isDigit (by decide)

theorem quad_dotted (isQuad : SpellsQuad text octets) :
    u '.' ∈ text := by
  by_contra noDot
  have isRead := ipv4_iff.2 isQuad
  rw [ipv4, List.splitOn_eq_singleton noDot] at isRead
  cases isRead

theorem quad_octets (isQuad : SpellsQuad text octets) :
    ∃ a b c d, octets = [a, b, c, d] ∧ a ≤ 255 ∧ b ≤ 255 ∧ c ≤ 255 ∧ d ≤ 255 := by
  obtain ⟨parts, _, isQuad, areOctets⟩ := isQuad
  obtain ⟨rfl, areTexts⟩ := forall_octet.1 areOctets
  match parts, isQuad with
  | [first, second, third, fourth], _ =>
    refine ⟨_, _, _, _, rfl, ?_, ?_, ?_, ?_⟩
    all_goals exact (areTexts _ (by simp)).isByte

/-! ## The quad at the end -/

def groupTexts (a b c d : Nat) : List Text :=
  [numberText 16 ((a <<< 8) ||| b), numberText 16 ((c <<< 8) ||| d)]

theorem groupTexts_groups {a b c d : Nat} (isQuad : SpellsQuad text [a, b, c, d]) :
    List.Forall₂ HexGroup (groupTexts a b c d) [a * 256 + b, c * 256 + d] := by
  obtain ⟨_, _, _, _, isSame, isA, isB, isC, isD⟩ := quad_octets isQuad
  cases isSame
  have isFirst : HexGroup (numberText 16 (a * 256 + b)) (a * 256 + b) :=
    numberText_hexGroup (by omega)
  have isSecond : HexGroup (numberText 16 (c * 256 + d)) (c * 256 + d) :=
    numberText_hexGroup (by omega)
  rw [groupTexts, shifted_or isB, shifted_or isD]
  exact .cons isFirst (.cons isSecond .nil)

theorem joined_split {tail : Text} {before : List Text}
    (isSplit : text.splitOn (u ':') = before ++ [tail]) :
    joined text = if tail.contains (u '.') then
      match ipv4 tail with
      | some [a, b, c, d] => some (join (u ':') (before ++ groupTexts a b c d))
      | _ => none
    else some text := by
  have isWhole := join_splitOn (u ':') text
  rw [isSplit] at isWhole
  have isTail : (before ++ [tail]).getLastD [] = tail := by
    rw [List.getLastD_eq_getLast?, List.getLast?_concat]
    rfl
  rw [joined, isSplit, List.dropLast_concat, isWhole, isTail]
  rfl

theorem joined_quad {tail : Text} {before : List Text} {a b c d : Nat}
    (isSplit : text.splitOn (u ':') = before ++ [tail]) (isQuad : SpellsQuad tail [a, b, c, d]) :
    joined text = some (join (u ':') (before ++ groupTexts a b c d)) := by
  have isDotted : tail.contains (u '.') = true := List.contains_iff_mem.2 (quad_dotted isQuad)
  rw [joined_split isSplit, if_pos isDotted, ipv4_iff.2 isQuad]

theorem joined_undotted (noDot : ∀ part ∈ text.splitOn (u ':'), u '.' ∉ part) :
    joined text = some text := by
  rcases List.eq_nil_or_concat' (text.splitOn (u ':')) with isEmpty | ⟨before, tail, isSplit⟩
  · exact absurd isEmpty (List.splitOn_ne_nil _ _)
  · have isUndotted := noDot tail (isSplit ▸ List.mem_append_right _ (List.mem_singleton_self _))
    rw [joined_split isSplit, if_neg fun isDotted => isUndotted (List.contains_iff_mem.1 isDotted)]

theorem splitOn_compressed (front tail : Text) :
    (front ++ u ':' :: u ':' :: tail).splitOn (u ':')
      = front.splitOn (u ':') ++ [] :: tail.splitOn (u ':') := by
  rw [List.splitOn_append_cons_self]
  have isEmpty : (u ':' :: tail).splitOn (u ':') = ([] : Text).splitOn (u ':') ++ tail.splitOn (u ':') :=
    List.splitOn_append_cons_self [] tail
  rw [isEmpty]
  rfl

theorem splitOn_injective {other : Text} (isSame : text.splitOn (u ':') = other.splitOn (u ':')) :
    text = other := by
  rw [← join_splitOn (u ':') text, isSame, join_splitOn]

variable {groups : List Nat}

theorem groups_undotted (areGroups : List.Forall₂ HexGroup texts groups) :
    ∀ part ∈ (join (u ':') texts).splitOn (u ':'), u '.' ∉ part := by
  intro part isPart
  by_cases isSome : texts = []
  · subst isSome
    rw [join_nil, List.splitOn_nil, List.mem_singleton] at isPart
    rw [isPart]
    exact List.not_mem_nil
  · rw [splitOn_join (forall_hexGroup_whole areGroups) isSome] at isPart
    exact hextet_undotted ((forall_hexGroup.1 areGroups).1 part isPart)

/-- The two groups of a quad are the last ones of a text: the quad in their place spells the same
groups. -/
theorem quad_of_groups {expanded tail : Text} {a b c d : Nat}
    (isQuad : SpellsQuad tail [a, b, c, d]) (isText : text.splitOn (u ':') = texts ++ [tail])
    (isExpanded : expanded.splitOn (u ':') = texts ++ groupTexts a b c d)
    (isBare : Bare HexGroup (List.Forall₂ HexGroup) expanded groups) :
    Bare HexGroup (Pieces HexGroup) text groups := by
  obtain ⟨areLast, isLast⟩ := forall_hexGroup.1 (groupTexts_groups isQuad)
  cases isBare with
  | full areGroups isWhole =>
    rename_i all
    have isSome : all ≠ [] := fun isEmpty => by
      subst isEmpty
      cases areGroups
      cases isWhole
    rw [splitOn_join (forall_hexGroup_whole areGroups) isSome] at isExpanded
    subst isExpanded
    obtain ⟨areHex, rfl⟩ := forall_hexGroup.1 areGroups
    have areFirst := (List.forall_mem_append.1 areHex).1
    rw [List.map_append, ← isLast] at isWhole ⊢
    rw [← join_splitOn (u ':') text, isText]
    exact .full (.quad (forall_hexGroup.2 ⟨areFirst, rfl⟩) isQuad) isWhole
  | @compressed front back before after areFront areBack isMissing =>
    rw [splitOn_compressed] at isExpanded
    -- the empty part of the pair of colons is before the two groups
    obtain ⟨between, isTexts, isBack⟩ : ∃ between,
        texts = (join (u ':') front).splitOn (u ':') ++ [] :: between ∧
          (join (u ':') back).splitOn (u ':') = between ++ groupTexts a b c d := by
      have notEmpty : [] ∉ groupTexts a b c d := fun isIn =>
        (hextet_whole (areLast _ isIn)).1 rfl
      rcases List.append_eq_append_iff.1 isExpanded with
        ⟨between, isTexts, isRest⟩ | ⟨between, _, isRest⟩
      · cases between with
        | nil =>
          rw [List.nil_append] at isRest
          exact absurd (isRest ▸ List.mem_cons_self) notEmpty
        | cons first between =>
          rw [List.cons_append, List.cons.injEq] at isRest
          obtain ⟨rfl, isBack⟩ := isRest
          exact ⟨between, isTexts, isBack⟩
      · exact absurd (isRest ▸ List.mem_append_right _ List.mem_cons_self) notEmpty
    have isSome : back ≠ [] := fun isEmpty => by
      subst isEmpty
      have isShort := congrArg List.length isBack
      rw [join_nil, List.length_append] at isShort
      exact absurd isShort (by simp [groupTexts])
    rw [splitOn_join (forall_hexGroup_whole areBack) isSome] at isBack
    subst isBack
    obtain ⟨areHex, rfl⟩ := forall_hexGroup.1 areBack
    have areBetween := (List.forall_mem_append.1 areHex).1
    have areParts : ∀ part ∈ between ++ [tail], u ':' ∉ part := by
      intro part isPart
      rcases List.mem_append.1 isPart with isBetween | isTail
      · exact (hextet_whole (areBetween part isBetween)).2
      · rw [List.mem_singleton.1 isTail]
        exact quad_uncoloned isQuad
    have isWritten : text = join (u ':') front ++ u ':' :: u ':' :: join (u ':') (between ++ [tail]) := by
      refine splitOn_injective ?_
      rw [splitOn_compressed, isText, isTexts, List.append_assoc, List.cons_append]
      exact congrArg (fun parts => _ ++ [] :: parts)
        (splitOn_parts areParts (by simp)).symm
    rw [List.map_append, ← isLast] at isMissing ⊢
    rw [isWritten]
    exact .compressed areFront (.quad (forall_hexGroup.2 ⟨areBetween, rfl⟩) isQuad) isMissing

theorem pieces_mono (isBare : Bare HexGroup (List.Forall₂ HexGroup) text groups) :
    Bare HexGroup (Pieces HexGroup) text groups := by
  cases isBare with
  | full areGroups isWhole => exact .full (.groups areGroups) isWhole
  | compressed areFront areBack isMissing => exact .compressed areFront (.groups areBack) isMissing

theorem full_read (arePieces : Pieces HexGroup texts groups) (isWhole : groups.length = 8) :
    ipv6 (join (u ':') texts) = some groups := by
  cases arePieces with
  | groups areGroups =>
    rw [ipv6, joined_undotted (groups_undotted areGroups)]
    exact groups8_iff.2 (.full areGroups isWhole)
  | @quad texts groups last a b c d areGroups isQuad =>
    have areParts : ∀ part ∈ texts ++ [last], u ':' ∉ part :=
      List.forall_mem_append.2 ⟨fun part isPart => (forall_hexGroup_whole areGroups part isPart).2,
        fun part isPart => List.mem_singleton.1 isPart ▸ quad_uncoloned isQuad⟩
    have isSplit := splitOn_parts areParts (by simp)
    rw [ipv6, joined_quad isSplit isQuad]
    exact groups8_iff.2 (.full (List.rel_append areGroups (groupTexts_groups isQuad)) isWhole)

theorem compressed_read {front back : List Text} {before after : List Nat}
    (areFront : List.Forall₂ HexGroup front before) (areBack : Pieces HexGroup back after)
    (isMissing : before.length + after.length < 8) :
    ipv6 (join (u ':') front ++ u ':' :: u ':' :: join (u ':') back)
      = some (before ++ List.replicate (8 - before.length - after.length) 0 ++ after) := by
  cases areBack with
  | groups areGroups =>
    have noDot : ∀ part ∈ (join (u ':') front ++ u ':' :: u ':' :: join (u ':') back).splitOn
        (u ':'), u '.' ∉ part := by
      rw [splitOn_compressed]
      refine List.forall_mem_append.2 ⟨groups_undotted areFront, ?_⟩
      exact List.forall_mem_cons.2 ⟨List.not_mem_nil, groups_undotted areGroups⟩
    rw [ipv6, joined_undotted noDot]
    exact groups8_iff.2 (.compressed areFront areGroups isMissing)
  | @quad texts groups last a b c d areGroups isQuad =>
    have isHex := groupTexts_groups isQuad
    have areWhole := forall_hexGroup_whole areGroups
    have areParts : ∀ part ∈ texts ++ [last], u ':' ∉ part :=
      List.forall_mem_append.2 ⟨fun part isPart => (areWhole part isPart).2,
        fun part isPart => List.mem_singleton.1 isPart ▸ quad_uncoloned isQuad⟩
    have isSplit : (join (u ':') front ++ u ':' :: u ':' :: join (u ':') (texts ++ [last])).splitOn
        (u ':') = ((join (u ':') front).splitOn (u ':') ++ [] :: texts) ++ [last] := by
      rw [splitOn_compressed, splitOn_parts areParts (by simp), List.append_assoc,
        List.cons_append]
    have areExpanded : ∀ part ∈ texts ++ groupTexts a b c d, Whole part :=
      List.forall_mem_append.2 ⟨areWhole, forall_hexGroup_whole isHex⟩
    have isExpanded : join (u ':') (((join (u ':') front).splitOn (u ':') ++ [] :: texts) ++
          groupTexts a b c d)
        = join (u ':') front ++ u ':' :: u ':' :: join (u ':') (texts ++ groupTexts a b c d) := by
      rw [← join_splitOn (u ':') (join (u ':') front ++ _), splitOn_compressed,
        splitOn_join areExpanded (by simp [groupTexts]), List.append_assoc, List.cons_append]
    rw [ipv6, joined_quad isSplit isQuad, isExpanded]
    exact groups8_iff.2 (.compressed areFront (List.rel_append areGroups isHex) isMissing)

/-- **What the reader of an IPv6 address accepts**: each text of eight groups in lower case. -/
theorem ipv6_iff :
    ipv6 text = some groups ↔ Bare HexGroup (Pieces HexGroup) text groups := by
  constructor
  · intro isRead
    rcases List.eq_nil_or_concat' (text.splitOn (u ':')) with isEmpty | ⟨before, tail, isSplit⟩
    · exact absurd isEmpty (List.splitOn_ne_nil _ _)
    rw [ipv6, joined_split isSplit] at isRead
    split at isRead
    · cases isQuad : ipv4 tail with
      | none =>
        rw [isQuad] at isRead
        cases isRead
      | some octets =>
        obtain ⟨a, b, c, d, rfl, _⟩ := quad_octets (ipv4_iff.1 isQuad)
        rw [isQuad] at isRead
        have areTexts := forall_hexGroup_whole (groupTexts_groups (ipv4_iff.1 isQuad))
        have isExpanded : (join (u ':') (before ++ groupTexts a b c d)).splitOn (u ':')
            = before ++ groupTexts a b c d := by
          have areBefore : ∀ part ∈ before, u ':' ∉ part := fun part isPart =>
            not_mem_splitOn part (isSplit ▸ List.mem_append_left _ isPart)
          exact splitOn_parts (List.forall_mem_append.2 ⟨areBefore,
            fun part isPart => (areTexts part isPart).2⟩) (by simp [groupTexts])
        exact quad_of_groups (ipv4_iff.1 isQuad) isSplit isExpanded (groups8_iff.1 isRead)
    · exact pieces_mono (groups8_iff.1 isRead)
  · intro isBare
    cases isBare with
    | full arePieces isWhole => exact full_read arePieces isWhole
    | compressed areFront areBack isMissing => exact compressed_read areFront areBack isMissing

/-! ## One code unit -/

variable (c : UInt16)

theorem lowerUnit_toNat :
    (lowerUnit c).toNat = if 0x41 ≤ c.toNat ∧ c.toNat ≤ 0x5a then c.toNat + 0x20 else c.toNat := by
  have isBounds : (0x41 ≤ c ∧ c ≤ 0x5a) ↔ 0x41 ≤ c.toNat ∧ c.toNat ≤ 0x5a := by
    rw [UInt16.le_iff_toNat_le, UInt16.le_iff_toNat_le]
    rfl
  rw [lowerUnit]
  by_cases isLetter : 0x41 ≤ c ∧ c ≤ 0x5a
  · have isSmall := isBounds.1 isLetter
    have isShift : (0x20 : UInt16).toNat = 0x20 := rfl
    rw [if_pos isLetter, if_pos isSmall, UInt16.toNat_add]
    rw [isShift]
    exact Nat.mod_eq_of_lt (by omega)
  · rw [if_neg isLetter, if_neg fun isSmall => isLetter (isBounds.2 isSmall)]

theorem isDigit_iff : isDigit c = true ↔ 0x30 ≤ c.toNat ∧ c.toNat ≤ 0x39 := by
  rw [isDigit, Bool.and_eq_true, decide_eq_true_iff, decide_eq_true_iff, UInt16.le_iff_toNat_le,
    UInt16.le_iff_toNat_le]
  rfl

theorem isHexDigit_iff : isHexDigit c = true ↔
    (0x30 ≤ c.toNat ∧ c.toNat ≤ 0x39) ∨ (0x61 ≤ c.toNat ∧ c.toNat ≤ 0x66) := by
  rw [isHexDigit, Bool.or_eq_true, isDigit_iff, Bool.and_eq_true, decide_eq_true_iff,
    decide_eq_true_iff, UInt16.le_iff_toNat_le, UInt16.le_iff_toNat_le]
  rfl

theorem isAnyHexDigit_iff : isAnyHexDigit c = true ↔
    isHexDigit c = true ∨ (0x41 ≤ c.toNat ∧ c.toNat ≤ 0x46) := by
  rw [isAnyHexDigit, Bool.or_eq_true, Bool.and_eq_true, decide_eq_true_iff, decide_eq_true_iff,
    UInt16.le_iff_toNat_le, UInt16.le_iff_toNat_le]
  rfl

theorem isHexDigit_lowerUnit :
    isHexDigit (lowerUnit c) = true ↔ isAnyHexDigit c = true := by
  rw [isAnyHexDigit_iff, isHexDigit_iff, isHexDigit_iff, lowerUnit_toNat]
  split
  · omega
  · omega

theorem lowerUnit_eq {c d : UInt16} (notLetter : d.toNat < 0x41) : lowerUnit c = d ↔ c = d := by
  rw [← UInt16.toNat_inj, ← UInt16.toNat_inj, lowerUnit_toNat]
  split
  · omega
  · exact Iff.rfl

theorem lowerUnit_colon {c : UInt16} : lowerUnit c = u ':' ↔ c = u ':' := lowerUnit_eq (by decide)

theorem lowerUnit_quad {c : UInt16} (isUnit : lowerUnit c = u '.' ∨ isDigit (lowerUnit c) = true) :
    lowerUnit c = c := by
  have isSmall : (lowerUnit c).toNat < 0x41 := by
    rcases isUnit with isDot | isDigit
    · rw [isDot]
      decide
    · exact Nat.lt_of_le_of_lt ((isDigit_iff _).1 isDigit).2 (by decide)
  exact ((lowerUnit_eq isSmall).1 rfl).symm

/-! ## Groups and quads -/

theorem spellsGroup_iff {group : Nat} :
    SpellsGroup text group ↔ HexGroup (text.map lowerUnit) group := by
  have areDigits : (∀ c ∈ text, isAnyHexDigit c = true) ↔
      ∀ c ∈ text.map lowerUnit, isHexDigit c = true := by
    rw [List.forall_mem_map]
    exact forall₂_congr fun c _ => (isHexDigit_lowerUnit c).symm
  rw [HexGroup, isHextet, Bool.and_eq_true, Bool.and_eq_true, decide_eq_true_iff,
    decide_eq_true_iff, List.all_eq_true, ← areDigits, List.length_map]
  constructor
  · intro isGroup
    exact ⟨⟨⟨isGroup.isSome, isGroup.isShort⟩, isGroup.areDigits⟩, isGroup.isGroup⟩
  · rintro ⟨⟨⟨isSome, isShort⟩, areDigits⟩, isGroup⟩
    exact ⟨isSome, isShort, areDigits, isGroup⟩

theorem forall_spellsGroup :
    List.Forall₂ SpellsGroup texts groups ↔
      List.Forall₂ HexGroup (texts.map (List.map lowerUnit)) groups := by
  rw [List.forall₂_map_left_iff]
  exact ⟨fun areGroups => areGroups.imp fun _ _ => spellsGroup_iff.1,
    fun areGroups => areGroups.imp fun _ _ => spellsGroup_iff.2⟩

theorem map_of_units (areUnits : ∀ c ∈ text, lowerUnit c = c) :
    text.map lowerUnit = text := by
  rw [List.map_congr_left areUnits, List.map_id']

theorem quad_lower :
    SpellsQuad (text.map lowerUnit) octets ↔ SpellsQuad text octets := by
  constructor
  · intro isQuad
    have areUnits : ∀ c ∈ text, lowerUnit c = c := fun c isUnit =>
      lowerUnit_quad (quad_units isQuad _ (List.mem_map_of_mem isUnit))
    rw [map_of_units areUnits] at isQuad
    exact isQuad
  · intro isQuad
    have areUnits : ∀ c ∈ text, lowerUnit c = c := fun c isUnit => by
      have isSmall : c.toNat < 0x41 := by
        rcases quad_units isQuad c isUnit with isDot | isDigit
        · rw [isDot]
          decide
        · exact Nat.lt_of_le_of_lt ((isDigit_iff _).1 isDigit).2 (by decide)
      exact (lowerUnit_eq isSmall).2 rfl
    rw [map_of_units areUnits]
    exact isQuad

theorem pieces_lower :
    Pieces SpellsGroup texts groups ↔ Pieces HexGroup (texts.map (List.map lowerUnit)) groups := by
  constructor
  · intro arePieces
    cases arePieces with
    | groups areGroups => exact .groups (forall_spellsGroup.1 areGroups)
    | quad areGroups isQuad =>
      rw [List.map_append]
      exact .quad (forall_spellsGroup.1 areGroups) (quad_lower.2 isQuad)
  · intro arePieces
    generalize isLower : texts.map (List.map lowerUnit) = lowered at arePieces
    cases arePieces with
    | groups areGroups =>
      subst isLower
      exact .groups (forall_spellsGroup.2 areGroups)
    | quad areGroups isQuad =>
      obtain ⟨before, last, rfl, rfl, isLast⟩ := List.map_eq_append_iff.1 isLower
      obtain ⟨tail, rfl, rfl⟩ := List.map_eq_singleton_iff.1 isLast
      exact .quad (forall_spellsGroup.2 areGroups) (quad_lower.1 isQuad)

/-! ## Whole texts -/

theorem map_join {separator : UInt16} (isOwn : lowerUnit separator = separator) (texts : List Text) :
    (join separator texts).map lowerUnit = join separator (texts.map (List.map lowerUnit)) := by
  induction texts with
  | nil => rw [join_nil, List.map_nil, List.map_nil, join_nil]
  | cons text rest ih =>
    cases rest with
    | nil => rw [join_singleton, List.map_singleton, join_singleton]
    | cons next more =>
      rw [join_cons text (List.cons_ne_nil next more), List.map_append, List.map_cons,
        ih, isOwn]
      exact (join_cons _ (List.cons_ne_nil _ _)).symm

theorem unmap_join (isLower : text.map lowerUnit = join (u ':') texts) :
    ∃ parts, text = join (u ':') parts ∧ parts.map (List.map lowerUnit) = texts := by
  induction texts generalizing text with
  | nil =>
    rw [join_nil, List.map_eq_nil_iff] at isLower
    exact ⟨[], by rw [isLower, join_nil], rfl⟩
  | cons first rest ih =>
    cases rest with
    | nil =>
      rw [join_singleton] at isLower
      exact ⟨[text], (join_singleton _ text).symm, by rw [List.map_singleton, isLower]⟩
    | cons next more =>
      rw [join_cons first (List.cons_ne_nil next more)] at isLower
      obtain ⟨before, tail, rfl, rfl, isTail⟩ := List.map_eq_append_iff.1 isLower
      obtain ⟨c, after, rfl, isColon, isAfter⟩ := List.map_eq_cons_iff.1 isTail
      obtain ⟨parts, rfl, areParts⟩ := ih isAfter
      have isSome : parts ≠ [] := fun isEmpty => by
        rw [isEmpty] at areParts
        cases areParts
      refine ⟨before :: parts, ?_, by rw [List.map_cons, areParts]⟩
      rw [join_cons before isSome, lowerUnit_colon.1 isColon]

/-- **A text spells groups when its lower case does, in lower case.** -/
theorem bare_lower :
    Bare SpellsGroup (Pieces SpellsGroup) text groups ↔
      Bare HexGroup (Pieces HexGroup) (text.map lowerUnit) groups := by
  have isOwn : lowerUnit (u ':') = u ':' := rfl
  constructor
  · intro isBare
    cases isBare with
    | full arePieces isWhole =>
      rw [map_join isOwn]
      exact .full (pieces_lower.1 arePieces) isWhole
    | compressed areFront areBack isMissing =>
      rw [List.map_append, List.map_cons, List.map_cons, map_join isOwn, map_join isOwn, isOwn]
      exact .compressed (forall_spellsGroup.1 areFront) (pieces_lower.1 areBack) isMissing
  · intro isBare
    generalize isLower : text.map lowerUnit = lowered at isBare
    cases isBare with
    | full arePieces isWhole =>
      obtain ⟨parts, rfl, rfl⟩ := unmap_join isLower
      exact .full (pieces_lower.2 arePieces) isWhole
    | compressed areFront areBack isMissing =>
      obtain ⟨before, tail, rfl, isBefore, isTail⟩ := List.map_eq_append_iff.1 isLower
      obtain ⟨c, after, rfl, isColon, isAfter⟩ := List.map_eq_cons_iff.1 isTail
      obtain ⟨d, rest, rfl, isPair, isRest⟩ := List.map_eq_cons_iff.1 isAfter
      obtain ⟨front, rfl, rfl⟩ := unmap_join isBefore
      obtain ⟨back, rfl, rfl⟩ := unmap_join isRest
      rw [lowerUnit_colon.1 isColon, lowerUnit_colon.1 isPair]
      exact .compressed (forall_spellsGroup.2 areFront) (pieces_lower.2 areBack) isMissing

end Murage.ClientBucket
