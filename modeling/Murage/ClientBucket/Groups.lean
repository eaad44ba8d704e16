import Mathlib.Data.List.Forall2
import Murage.ClientBucket.Model

/-!
Owns what an address is and every way to write it: letters of either case, leading zeros, one `::`
that stands for a group or more, a dotted quad at the end, brackets and the name of a zone; and
what the reader of eight groups accepts.

Does not own: a quad at the end, and the case of letters, where they are read.
-/

namespace Murage.ClientBucket

structure Ipv4 where
  octets : List Nat
  isQuad : octets.length = 4
  areOctets : ∀ octet ∈ octets, octet ≤ 255

structure Ipv6 where
  groups : List Nat
  isWhole : groups.length = 8
  areGroups : ∀ group ∈ groups, group < 65536

inductive Address where
  | ipv4 (address : Ipv4)
  | ipv6 (address : Ipv6)

/-! ## The groups of a text -/

/-- A hexadecimal digit of either case. -/
def isAnyHexDigit (c : UInt16) : Bool := isHexDigit c || (0x41 ≤ c && c ≤ 0x46)

/-- One to four digits. -/
structure SpellsGroup (text : Text) (group : Nat) : Prop where
  isSome : 1 ≤ text.length
  isShort : text.length ≤ 4
  areDigits : ∀ c ∈ text, isAnyHexDigit c = true
  isGroup : numberOf 16 (text.map lowerUnit) = group

/-- One to three digits that count to 255 at most. -/
structure SpellsOctet (text : Text) (octet : Nat) : Prop where
  isSome : 1 ≤ text.length
  isShort : text.length ≤ 3
  areDigits : ∀ c ∈ text, isDigit c = true
  isOctet : numberOf 10 text = octet
  isByte : octet ≤ 255

/-- Four octets with dots between them. -/
def SpellsQuad (text : Text) (octets : List Nat) : Prop :=
  ∃ parts, text = join (u '.') parts ∧ parts.length = 4 ∧ List.Forall₂ SpellsOctet parts octets

section

variable (group : Text → Nat → Prop)

/-- Pieces of a text that spell some groups: the last may be a quad. -/
inductive Pieces : List Text → List Nat → Prop
  | groups {texts : List Text} {groups : List Nat} (areGroups : List.Forall₂ group texts groups) :
      Pieces texts groups
  | quad {texts : List Text} {groups : List Nat} {last : Text} {a b c d : Nat}
      (areGroups : List.Forall₂ group texts groups) (isQuad : SpellsQuad last [a, b, c, d]) :
      Pieces (texts ++ [last]) (groups ++ [a * 256 + b, c * 256 + d])

/-- Eight groups, or fewer with one `::` for those that are missing. -/
inductive Bare (pieces : List Text → List Nat → Prop) : Text → List Nat → Prop
  | full {texts : List Text} {groups : List Nat} (arePieces : pieces texts groups)
      (isWhole : groups.length = 8) : Bare pieces (join (u ':') texts) groups
  | compressed {front back : List Text} {before after : List Nat}
      (areFront : List.Forall₂ group front before) (areBack : pieces back after)
      (isMissing : before.length + after.length < 8) :
      Bare pieces (join (u ':') front ++ u ':' :: u ':' :: join (u ':') back)
        (before ++ List.replicate (8 - before.length - after.length) 0 ++ after)

end

/-- The name of a zone: what follows the percent sign on its line. -/
inductive Zone : Text → Prop
  | none : Zone []
  | named {name : Text} (isLine : ∀ c ∈ name, endsLine c = false) : Zone (u '%' :: name)

inductive Spells : Text → Address → Prop
  | ipv4 {text : Text} {address : Ipv4} (isQuad : SpellsQuad text address.octets) :
      Spells text (.ipv4 address)
  | bare {text zone : Text} {address : Ipv6}
      (areGroups : Bare SpellsGroup (Pieces SpellsGroup) text address.groups) (isZone : Zone zone) :
      Spells (text ++ zone) (.ipv6 address)
  | bracketed {text zone : Text} {address : Ipv6}
      (areGroups : Bare SpellsGroup (Pieces SpellsGroup) text address.groups) (isZone : Zone zone) :
      Spells (u '[' :: (text ++ zone ++ [u ']'])) (.ipv6 address)

/-! ## Who asks -/

/-- The first 64 bits of an address, or the IPv4 address that it is or maps. -/
inductive Client where
  | ipv4 (octets : List Nat)
  | ipv6 (groups : List Nat)
deriving DecidableEq

/-- `::ffff:0:0/96` -/
def Ipv6.isMapped (address : Ipv6) : Prop :=
  address.groups.take 5 = [0, 0, 0, 0, 0] ∧ address.groups.getD 5 0 = 0xffff

instance (address : Ipv6) : Decidable address.isMapped := inferInstanceAs (Decidable (_ ∧ _))

def Ipv6.lastOctets (address : Ipv6) : List Nat :=
  [address.groups.getD 6 0 / 256, address.groups.getD 6 0 % 256, address.groups.getD 7 0 / 256,
    address.groups.getD 7 0 % 256]

def Address.client : Address → Client
  | .ipv4 address => .ipv4 address.octets
  | .ipv6 address =>
    if address.isMapped then .ipv4 address.lastOctets else .ipv6 (address.groups.take 4)

def Client.bucket : Client → Text
  | .ipv4 octets => ip4Text octets
  | .ipv6 groups => ip6Text groups

/-! ## Groups in lower case -/

def HexGroup (text : Text) (group : Nat) : Prop := isHextet text = true ∧ numberOf 16 text = group

/-- A part between colons that is there. -/
def Whole (text : Text) : Prop := text ≠ [] ∧ u ':' ∉ text

theorem hexDigit_spec {c : UInt16} (isHex : isHexDigit c = true) : c ≠ u ':' ∧ c ≠ u '.' := by
  refine ⟨fun isColon => ?_, fun isDot => ?_⟩
  · subst isColon
    exact absurd isHex (by decide)
  · subst isDot
    exact absurd isHex (by decide)

variable {text : Text}

theorem hextet_digits (isHex : isHextet text = true) :
    text ≠ [] ∧ ∀ c ∈ text, isHexDigit c = true := by
  rw [isHextet, Bool.and_eq_true, Bool.and_eq_true, List.all_eq_true, decide_eq_true_iff] at isHex
  exact ⟨List.length_pos_iff.1 isHex.1.1, isHex.2⟩

theorem hextet_whole (isHex : isHextet text = true) : Whole text := by
  obtain ⟨isSome, areDigits⟩ := hextet_digits isHex
  exact ⟨isSome, fun isColon => (hexDigit_spec (areDigits _ isColon)).1 rfl⟩

theorem hextet_undotted (isHex : isHextet text = true) : u '.' ∉ text :=
  fun isDot => (hexDigit_spec ((hextet_digits isHex).2 _ isDot)).2 rfl

variable {texts : List Text} {groups : List Nat}

theorem forall_hexGroup :
    List.Forall₂ HexGroup texts groups ↔
      (∀ text ∈ texts, isHextet text = true) ∧ groups = texts.map (numberOf 16) := by
  induction texts generalizing groups with
  | nil => simp
  | cons text rest ih =>
    cases groups with
    | nil => simp
    | cons group others =>
      rw [List.forall₂_cons, ih, List.map_cons, List.cons.injEq,
        List.forall_mem_cons, HexGroup]
      exact ⟨fun ⟨⟨isHex, isGroup⟩, areHex, areGroups⟩ =>
          ⟨⟨isHex, areHex⟩, isGroup.symm, areGroups⟩,
        fun ⟨⟨isHex, areHex⟩, isGroup, areGroups⟩ =>
          ⟨⟨isHex, isGroup.symm⟩, areHex, areGroups⟩⟩

theorem forall_hexGroup_whole (areGroups : List.Forall₂ HexGroup texts groups) :
    ∀ text ∈ texts, Whole text :=
  fun text isText => hextet_whole ((forall_hexGroup.1 areGroups).1 text isText)

theorem hextets_iff :
    hextets texts = some groups ↔ List.Forall₂ HexGroup texts groups := by
  rw [hextets, forall_hexGroup, ← List.all_eq_true]
  split
  · rename_i areHex
    rw [Option.some.injEq]
    exact ⟨fun isSame => ⟨areHex, isSame.symm⟩, fun isRead => isRead.2.symm⟩
  · rename_i notHex
    exact ⟨fun isSome => (nomatch isSome), fun isRead => absurd isRead.1 notHex⟩

/-! ## Parts between colons -/

theorem join_nil (separator : UInt16) : join separator [] = [] := List.intercalate_nil

theorem join_singleton (separator : UInt16) (text : Text) : join separator [text] = text :=
  List.intercalate_singleton

variable {separator : UInt16}

theorem join_cons (text : Text) {rest : List Text} (isMore : rest ≠ []) :
    join separator (text :: rest) = text ++ separator :: join separator rest := by
  rw [join, List.intercalate_cons_of_ne_nil isMore, List.append_assoc]
  rfl

theorem mem_join {c : UInt16} (isUnit : c ∈ join separator texts) :
    c = separator ∨ ∃ text ∈ texts, c ∈ text := by
  induction texts with
  | nil =>
    rw [join_nil] at isUnit
    cases isUnit
  | cons text rest ih =>
    cases rest with
    | nil =>
      rw [join_singleton] at isUnit
      exact Or.inr ⟨text, List.mem_cons_self, isUnit⟩
    | cons next more =>
      rw [join_cons text (List.cons_ne_nil next more)] at isUnit
      rcases List.mem_append.1 isUnit with isText | isLater
      · exact Or.inr ⟨text, List.mem_cons_self, isText⟩
      · rcases List.mem_cons.1 isLater with isSeparator | isRest
        · exact Or.inl isSeparator
        · rcases ih isRest with isSeparator | ⟨other, isOther, isIn⟩
          · exact Or.inl isSeparator
          · exact Or.inr ⟨other, List.mem_cons_of_mem _ isOther, isIn⟩

theorem splitOn_parts {parts : List Text} (areParts : ∀ part ∈ parts, separator ∉ part)
    (isSome : parts ≠ []) :
    (join separator parts).splitOn separator = parts :=
  List.splitOn_intercalate separator areParts isSome

theorem not_mem_splitOn :
    ∀ part ∈ text.splitOn separator, separator ∉ part := by
  induction text with
  | nil =>
    rw [List.splitOn_nil]
    exact List.forall_mem_singleton.2 List.not_mem_nil
  | cons c rest ih =>
    rw [List.splitOn_cons_eq_if_modifyHead]
    split
    · exact List.forall_mem_cons.2 ⟨List.not_mem_nil, ih⟩
    · rename_i isOther
      obtain ⟨first, others, isSplit⟩ := List.exists_cons_of_ne_nil (List.splitOn_ne_nil separator rest)
      rw [isSplit] at ih ⊢
      obtain ⟨notFirst, notOthers⟩ := List.forall_mem_cons.1 ih
      refine List.forall_mem_cons.2 ⟨fun isIn => ?_, notOthers⟩
      rcases List.mem_cons.1 isIn with isSame | isLater
      · exact isOther (beq_iff_eq.2 isSame.symm)
      · exact notFirst isLater

theorem splitOn_join (areWhole : ∀ text ∈ texts, Whole text) (isSome : texts ≠ []) :
    (join (u ':') texts).splitOn (u ':') = texts :=
  splitOn_parts (fun text isText => (areWhole text isText).2) isSome

theorem join_splitOn (separator : UInt16) (text : Text) :
    join separator (text.splitOn separator) = text := List.intercalate_splitOn separator

theorem join_ne_nil (areWhole : ∀ text ∈ texts, Whole text) (isSome : texts ≠ []) :
    join (u ':') texts ≠ [] := by
  cases texts with
  | nil => exact absurd rfl isSome
  | cons text rest =>
    have isText := (areWhole text List.mem_cons_self).1
    cases rest with
    | nil =>
      rw [join_singleton]
      exact isText
    | cons next others =>
      rw [join_cons text (List.cons_ne_nil next others)]
      exact fun isEmpty => isText (List.append_eq_nil_iff.1 isEmpty).1

theorem groupsOf_join (areWhole : ∀ text ∈ texts, Whole text) :
    groupsOf (join (u ':') texts) = texts := by
  rw [groupsOf]
  by_cases isSome : texts = []
  · subst isSome
    rfl
  · rw [if_neg (join_ne_nil areWhole isSome), splitOn_join areWhole isSome]

theorem join_groupsOf (half : Text) : join (u ':') (groupsOf half) = half := by
  rw [groupsOf]
  split
  · rename_i isEmpty
    rw [isEmpty]
    rfl
  · exact join_splitOn _ half

/-! ## The pair of colons -/

theorem splitPairs_pair (rest : Text) :
    splitPairs (u ':' :: u ':' :: rest) = [] :: splitPairs rest := by
  rw [splitPairs, if_pos ⟨rfl, rfl⟩]

theorem splitPairs_cons {c : UInt16} {rest : Text}
    (notPair : c ≠ u ':' ∨ rest.head? ≠ some (u ':')) :
    splitPairs (c :: rest) = (splitPairs rest).modifyHead (c :: ·) := by
  cases rest with
  | nil => rfl
  | cons d rest =>
    have isOther : ¬ (c = u ':' ∧ d = u ':') := fun isPair =>
      notPair.elim (fun isOther => isOther isPair.1) fun isOther => isOther (congrArg some isPair.2)
    rw [splitPairs, if_neg isOther]

theorem splitPairs_append (noColon : u ':' ∉ text) (rest : Text) :
    splitPairs (text ++ rest) = (splitPairs rest).modifyHead (text ++ ·) := by
  induction text with
  | nil =>
    show splitPairs rest = List.modifyHead id (splitPairs rest)
    rw [List.modifyHead_id]
    rfl
  | cons c text ih =>
    rw [List.mem_cons, not_or] at noColon
    rw [List.cons_append, splitPairs_cons (Or.inl (Ne.symm noColon.1)),
      ih noColon.2, List.modifyHead_modifyHead]
    rfl

theorem splitPairs_join (areWhole : ∀ text ∈ texts, Whole text) (rest : Text) :
    splitPairs (join (u ':') texts ++ rest) = (splitPairs rest).modifyHead (join (u ':') texts ++ ·) := by
  induction texts with
  | nil =>
    rw [join_nil]
    exact splitPairs_append List.not_mem_nil rest
  | cons text others ih =>
    obtain ⟨isText, areOthers⟩ := List.forall_mem_cons.1 areWhole
    cases others with
    | nil =>
      rw [join_singleton]
      exact splitPairs_append isText.2 rest
    | cons next more =>
      have isNext : (join (u ':') (next :: more) ++ rest).head? ≠ some (u ':') := by
        obtain ⟨isSome, noColon⟩ := areOthers next List.mem_cons_self
        obtain ⟨c, tail, rfl⟩ := List.exists_cons_of_ne_nil isSome
        have isFirst : (join (u ':') ((c :: tail) :: more) ++ rest).head? = some c := by
          cases more with
          | nil => rw [join_singleton]; rfl
          | cons third fourth => rw [join_cons _ (List.cons_ne_nil third fourth)]; rfl
        rw [isFirst]
        exact fun isColon => noColon (Option.some.inj isColon ▸ List.mem_cons_self)
      rw [join_cons text (List.cons_ne_nil next more), List.append_assoc,
        splitPairs_append isText.2, List.cons_append, splitPairs_cons (Or.inr isNext),
        ih areOthers, List.modifyHead_modifyHead, List.modifyHead_modifyHead]
      refine congrArg (List.modifyHead · _) (funext fun tail => ?_)
      simp only [Function.comp_apply, List.append_assoc, List.cons_append]

theorem intercalate_splitPairs (text : Text) :
    [u ':', u ':'].intercalate (splitPairs text) = text ∧ splitPairs text ≠ [] := by
  fun_induction splitPairs text with
  | case1 c d rest isPair ih =>
    obtain ⟨rfl, rfl⟩ := isPair
    rw [List.intercalate_cons_of_ne_nil ih.2, ih.1]
    exact ⟨rfl, List.cons_ne_nil _ _⟩
  | case2 c d rest notPair ih =>
    obtain ⟨isText, isSome⟩ := ih
    obtain ⟨first, others, isSplit⟩ := List.exists_cons_of_ne_nil isSome
    rw [isSplit] at isText ⊢
    refine ⟨?_, List.cons_ne_nil _ _⟩
    rw [List.modifyHead_cons, ← isText]
    cases others with
    | nil => rfl
    | cons next more => rfl
  | case3 text notLong => exact ⟨List.intercalate_singleton, List.cons_ne_nil _ _⟩

theorem splitPairs_one {head : Text} (isSplit : splitPairs text = [head]) : text = head := by
  rw [← (intercalate_splitPairs text).1, isSplit, List.intercalate_singleton]

theorem splitPairs_two {head rest : Text} (isSplit : splitPairs text = [head, rest]) :
    text = head ++ u ':' :: u ':' :: rest := by
  rw [← (intercalate_splitPairs text).1, isSplit,
    List.intercalate_cons_of_ne_nil (List.cons_ne_nil rest []), List.intercalate_singleton,
    List.append_assoc]
  rfl

theorem splitPairs_full (areWhole : ∀ text ∈ texts, Whole text) :
    splitPairs (join (u ':') texts) = [join (u ':') texts] := by
  have isSplit := splitPairs_join areWhole []
  rw [List.append_nil] at isSplit
  rw [isSplit, splitPairs, List.modifyHead_cons, List.append_nil]
  exact fun _ _ _ isLong => nomatch isLong

theorem splitPairs_compressed {front back : List Text} (areFront : ∀ text ∈ front, Whole text)
    (areBack : ∀ text ∈ back, Whole text) :
    splitPairs (join (u ':') front ++ u ':' :: u ':' :: join (u ':') back)
      = [join (u ':') front, join (u ':') back] := by
  rw [splitPairs_join areFront, splitPairs_pair, splitPairs_full areBack, List.modifyHead_cons,
    List.append_nil]

/-! ## Eight groups -/

theorem zeros_hexGroup (count : Nat) :
    List.Forall₂ HexGroup (List.replicate count [u '0']) (List.replicate count 0) := by
  refine forall_hexGroup.2 ⟨fun text isText => ?_, ?_⟩
  · rw [List.eq_of_mem_replicate isText]
    rfl
  · rw [List.map_replicate]
    rfl

theorem groups8_full {head : Text} (isSplit : splitPairs text = [head]) :
    groups8 text = some groups ↔
      List.Forall₂ HexGroup (groupsOf head) groups ∧ groups.length = 8 := by
  rw [groups8, isSplit]
  dsimp only
  constructor
  · intro isRead
    split at isRead
    · cases isRead
    · rename_i isWhole
      have areGroups := hextets_iff.1 isRead
      exact ⟨areGroups, by rw [← areGroups.length_eq]; omega⟩
  · rintro ⟨areGroups, isWhole⟩
    have isLength := areGroups.length_eq
    rw [if_neg (by omega)]
    exact hextets_iff.2 areGroups

theorem groups8_compressed {head rest : Text} (isSplit : splitPairs text = [head, rest]) :
    groups8 text = some groups ↔
      ∃ before after, List.Forall₂ HexGroup (groupsOf head) before ∧
        List.Forall₂ HexGroup (groupsOf rest) after ∧ before.length + after.length < 8 ∧
        groups = before ++ List.replicate (8 - before.length - after.length) 0 ++ after := by
  rw [groups8, isSplit]
  dsimp only
  constructor
  · intro isRead
    split at isRead
    · cases isRead
    · rename_i isMissing
      obtain ⟨areHex, rfl⟩ := forall_hexGroup.1 (hextets_iff.1 isRead)
      rw [List.forall_mem_append, List.forall_mem_append] at areHex
      refine ⟨(groupsOf head).map (numberOf 16), (groupsOf rest).map (numberOf 16),
        forall_hexGroup.2 ⟨areHex.1.1, rfl⟩, forall_hexGroup.2 ⟨areHex.2, rfl⟩, ?_, ?_⟩
      · rw [List.length_map, List.length_map]
        omega
      · have isCount : (8 - ((groupsOf head).length : Int) - (groupsOf rest).length).toNat
            = 8 - (groupsOf head).length - (groupsOf rest).length := by omega
        rw [List.map_append, List.map_append, List.map_replicate, List.length_map, List.length_map,
          isCount]
        rfl
  · rintro ⟨before, after, areBefore, areAfter, isMissing, rfl⟩
    have isBefore := areBefore.length_eq
    have isAfter := areAfter.length_eq
    have isCount : (8 - ((groupsOf head).length : Int) - (groupsOf rest).length).toNat
        = 8 - before.length - after.length := by omega
    rw [if_neg (by omega), isCount]
    exact hextets_iff.2 (List.rel_append (List.rel_append areBefore (zeros_hexGroup _)) areAfter)

/-- **What the reader of eight groups accepts.** -/
theorem groups8_iff :
    groups8 text = some groups ↔ Bare HexGroup (List.Forall₂ HexGroup) text groups := by
  constructor
  · intro isRead
    cases isSplit : splitPairs text with
    | nil => exact absurd isSplit (intercalate_splitPairs text).2
    | cons head others =>
      cases others with
      | nil =>
        obtain ⟨areGroups, isWhole⟩ := (groups8_full isSplit).1 isRead
        rw [splitPairs_one isSplit, ← join_groupsOf head]
        exact .full areGroups isWhole
      | cons rest more =>
        cases more with
        | nil =>
          obtain ⟨before, after, areBefore, areAfter, isMissing, rfl⟩ :=
            (groups8_compressed isSplit).1 isRead
          rw [splitPairs_two isSplit, ← join_groupsOf head, ← join_groupsOf rest]
          exact .compressed areBefore areAfter isMissing
        | cons third others =>
          rw [groups8, isSplit] at isRead
          cases isRead
  · intro isBare
    cases isBare with
    | full areGroups isWhole =>
      have areWhole := forall_hexGroup_whole areGroups
      refine (groups8_full (splitPairs_full areWhole)).2 ⟨?_, isWhole⟩
      rw [groupsOf_join areWhole]
      exact areGroups
    | @compressed front back before after areFront areBack isMissing =>
      have wholeFront := forall_hexGroup_whole areFront
      have wholeBack := forall_hexGroup_whole areBack
      refine (groups8_compressed (splitPairs_compressed wholeFront wholeBack)).2
        ⟨before, after, ?_, ?_, isMissing, rfl⟩
      · rw [groupsOf_join wholeFront]
        exact areFront
      · rw [groupsOf_join wholeBack]
        exact areBack

end Murage.ClientBucket
