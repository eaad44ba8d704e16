import Murage.SpokenFinals.Words

/-!
Owns: when the finals and a text-only end of turn agree: a conflict is answered exactly when no
tokens of the text say the finals first, and the words said by the finals and the new final are
those of the end exactly when none of the words carried over from a token changes when it is read
again.
-/

namespace Murage.SpokenFinals

open Murage.Library.Utf16 Murage.Library.Replacing Murage.Library.Spacing

variable (casing : Casing)

/-! ### What is to hold -/

/-- The spoken words of the first `k` tokens of a text. -/
def saidBy (text : Text) (k : Nat) : List Text :=
  spokenWords casing (join ((tokensOf text).take k))

/-- Some tokens at the head of the text begin with the spoken words of the finals. -/
def Matches (finalized text : Text) : Prop :=
  ∃ k ≤ (tokensOf text).length, spokenWords casing finalized <+: saidBy casing text k

/-- The finals and the end of turn agree. -/
structure Agrees (finalized text : Text) : Prop where
  conflict : (reconcileTextEnd casing finalized text).conflict = true ↔ ¬Matches casing finalized text
  kept : (reconcileTextEnd casing finalized text).conflict = true →
    (reconcileTextEnd casing finalized text).newFinal = none ∧
      (reconcileTextEnd casing finalized text).endText = finalized
  words : (reconcileTextEnd casing finalized text).conflict = false →
    spokenWords casing finalized ++
        ((reconcileTextEnd casing finalized text).newFinal.map (spokenWords casing)).getD [] =
      spokenWords casing (reconcileTextEnd casing finalized text).endText

/-- The words past the finals of the token in which the finals end are all read as themselves. -/
def CarrySteady (finalized text : Text) : Prop :=
  ∀ k ≤ (tokensOf text).length, spokenWords casing finalized <+: saidBy casing text k →
    (∀ earlier < k, ¬spokenWords casing finalized <+: saidBy casing text earlier) →
      ∀ word ∈ (saidBy casing text k).drop (spokenWords casing finalized).length, Steady word

/-! ### Tokens -/

variable {casing} {finalized text : Text}

theorem tokensOf_eq (text : Text) : tokensOf text = words text := by
  have isBlank : ∀ c ∈ collapse (trim text), (c == unit ' ') = isSpace c := by
    intro c isIn
    by_cases isStop : isSpace c = true
    · rw [isStop, (collapseFrom_tidy false (trim text)).1.blank c isIn isStop]
      exact beq_self_eq_true _
    · rw [Bool.eq_false_iff.mpr isStop, beq_eq_false_iff_ne]
      rintro rfl
      exact isStop isSpace_blank
  calc tokensOf text = words (collapse (trim text)) := by rw [tokensOf, parts_congr isBlank]; rfl
    _ = words (trim text) := words_collapseFrom false (trim text)
    _ = words text := words_trim text

theorem spokenWords_tokens (text : Text) :
    spokenWords casing text = (tokensOf text).flatMap (spokenWords casing) := by
  rw [tokensOf_eq]
  exact reading_words spokenWords_nil (fun text _ more isStop => spokenWords_append isStop text more) text

theorem saidBy_eq (text : Text) (k : Nat) :
    saidBy casing text k = ((tokensOf text).take k).flatMap (spokenWords casing) :=
  spokenWords_join _

theorem saidBy_append (text : Text) (k : Nat) :
    saidBy casing text k ++ ((tokensOf text).drop k).flatMap (spokenWords casing) =
      spokenWords casing text := by
  rw [saidBy_eq, ← List.flatMap_append, List.take_append_drop, ← spokenWords_tokens]

theorem saidBy_begins {k later : Nat} (isLater : k ≤ later) :
    saidBy casing text k <+: saidBy casing text later := by
  obtain ⟨more, isMore⟩ := List.take_prefix_take_left (l := tokensOf text) isLater
  rw [saidBy_eq, saidBy_eq, ← isMore, List.flatMap_append]
  exact List.prefix_append _ _

/-! ### The cut -/

theorem cutFrom_spec (start count : Nat)
    (isEarly : ∀ k < start, ¬spokenWords casing finalized <+: saidBy casing text k) :
    (cutFrom casing (spokenWords casing finalized) (tokensOf text) (List.range' start count) = none ∧
        ∀ k < start + count, ¬spokenWords casing finalized <+: saidBy casing text k) ∨
      ∃ k < start + count,
        cutFrom casing (spokenWords casing finalized) (tokensOf text) (List.range' start count) =
            some ⟨k, (saidBy casing text k).drop (spokenWords casing finalized).length⟩ ∧
          spokenWords casing finalized <+: saidBy casing text k ∧
          ∀ earlier < k, ¬spokenWords casing finalized <+: saidBy casing text earlier := by
  induction count generalizing start with
  | zero => exact .inl ⟨rfl, isEarly⟩
  | succ count ih =>
    have isSaid : spokenWords casing (join ((tokensOf text).take start)) = saidBy casing text start :=
      rfl
    rw [List.range'_succ, cutFrom, isSaid]
    by_cases isShort : (saidBy casing text start).length < (spokenWords casing finalized).length
    · have isNext : ∀ k < start + 1, ¬spokenWords casing finalized <+: saidBy casing text k := by
        intro k isLess
        rcases Nat.lt_succ_iff_lt_or_eq.mp isLess with isBefore | rfl
        · exact isEarly k isBefore
        · exact fun isHead => absurd isHead.length_le (Nat.not_le.mpr isShort)
      rw [if_pos isShort, Nat.add_comm count 1, ← Nat.add_assoc]
      exact ih (start + 1) isNext
    · rw [if_neg isShort]
      by_cases isHead : spokenWords casing finalized <+: saidBy casing text start
      · rw [if_pos isHead]
        exact .inr ⟨start, by omega, rfl, isHead, isEarly⟩
      · rw [if_neg isHead]
        refine .inl ⟨rfl, fun k _ isLater => ?_⟩
        rcases Nat.lt_or_ge k start with isBefore | isAfter
        · exact isEarly k isBefore isLater
        · exact isHead (List.prefix_of_prefix_length_le isLater (saidBy_begins isAfter)
            (Nat.not_lt.mp isShort))

/-! ### The answer -/

theorem newFinal_words (rest : Text) :
    ((if rest ≠ [] ∧ (spokenWords casing rest).length ≠ 0 then some rest else none).map
        (spokenWords casing)).getD [] = spokenWords casing rest := by
  split
  · rw [Option.map_some, Option.getD_some]
  · next isNothing =>
    rw [not_and_or, not_not, not_not, List.length_eq_zero_iff] at isNothing
    rw [Option.map_none, Option.getD_none]
    rcases isNothing with isEmpty | isSilent
    · rw [isEmpty, spokenWords_nil]
    · rw [isSilent]

theorem agrees_silent (isSilent : spokenWords casing finalized = []) :
    Agrees casing finalized text ∧ Matches casing finalized text ∧
      CarrySteady casing finalized text := by
  have isHead : ∀ k, spokenWords casing finalized <+: saidBy casing text k := by
    intro k
    rw [isSilent]
    exact List.nil_prefix
  have isAnswer : reconcileTextEnd casing finalized text =
      { newFinal := if (tokensOf text).length ≠ 0 then some (join (tokensOf text)) else none
        endText := trim text
        conflict := false } := by
    rw [reconcileTextEnd, isSilent, if_pos List.length_nil]
  have isMatch : Matches casing finalized text := ⟨0, Nat.zero_le _, isHead 0⟩
  refine ⟨⟨?_, ?_, ?_⟩, isMatch, ?_⟩
  · rw [isAnswer]
    exact ⟨(nomatch ·), fun isNot => absurd isMatch isNot⟩
  · rw [isAnswer]
    exact (nomatch ·)
  · rw [isAnswer, isSilent, List.nil_append, spokenWords_trim, spokenWords_tokens text]
    rintro -
    by_cases isNone : tokensOf text = []
    · rw [isNone, if_neg (fun isSome => isSome List.length_nil), Option.map_none, Option.getD_none,
        List.flatMap_nil]
    · rw [if_pos fun isZero => isNone (List.length_eq_zero_iff.mp isZero), Option.map_some,
        Option.getD_some, spokenWords_join]
  · intro k _ _ isFirst word isIn
    cases k with
    | zero =>
      rw [isSilent, saidBy_eq] at isIn
      exact nomatch isIn
    | succ k => exact absurd (isHead 0) (isFirst 0 (Nat.succ_pos k))

theorem agrees_conflict (isSpoken : spokenWords casing finalized ≠ [])
    (isNone : cutFrom casing (spokenWords casing finalized) (tokensOf text)
      (List.range' 1 (tokensOf text).length) = none)
    (isNever : ¬Matches casing finalized text) :
    Agrees casing finalized text ↔ trim finalized = finalized := by
  have isSome : ¬(spokenWords casing finalized).length = 0 :=
    fun isZero => isSpoken (List.length_eq_zero_iff.mp isZero)
  have isAnswer : reconcileTextEnd casing finalized text =
      { newFinal := none, endText := trim finalized, conflict := true } := by
    rw [reconcileTextEnd, if_neg isSome, splitAfterFinals, if_neg isSome, isNone]
  constructor
  · intro isAgreed
    have isKept := isAgreed.kept
    rw [isAnswer] at isKept
    exact (isKept rfl).2
  · intro isTrimmed
    refine ⟨?_, ?_, ?_⟩
    · rw [isAnswer]
      exact ⟨fun _ => isNever, fun _ => rfl⟩
    · rw [isAnswer]
      exact fun _ => ⟨rfl, isTrimmed⟩
    · rw [isAnswer]
      exact (nomatch ·)

theorem agrees_cut (isSpoken : spokenWords casing finalized ≠ []) {k : Nat}
    (isWithin : k ≤ (tokensOf text).length)
    (isCut : cutFrom casing (spokenWords casing finalized) (tokensOf text)
        (List.range' 1 (tokensOf text).length) =
      some ⟨k, (saidBy casing text k).drop (spokenWords casing finalized).length⟩)
    (isHead : spokenWords casing finalized <+: saidBy casing text k)
    (isFirst : ∀ earlier < k, ¬spokenWords casing finalized <+: saidBy casing text earlier) :
    Agrees casing finalized text ↔ CarrySteady casing finalized text := by
  have isSome : ¬(spokenWords casing finalized).length = 0 :=
    fun isZero => isSpoken (List.length_eq_zero_iff.mp isZero)
  have isMatch : Matches casing finalized text := ⟨k, isWithin, isHead⟩
  have isSteady : CarrySteady casing finalized text ↔
      ∀ word ∈ (saidBy casing text k).drop (spokenWords casing finalized).length, Steady word := by
    refine ⟨fun isAll => isAll k isWithin isHead isFirst, fun isIt other _ isOther isLeast => ?_⟩
    obtain rfl : other = k := by
      rcases Nat.lt_trichotomy other k with isLess | isSame | isMore
      · exact absurd isOther (isFirst other isLess)
      · exact isSame
      · exact absurd isHead (isLeast k isMore)
    exact isIt
  have isSaid : saidBy casing text k ++ ((tokensOf text).drop k).flatMap (spokenWords casing) =
      spokenWords casing text := saidBy_append text k
  rw [isSteady]
  rw [List.prefix_iff_eq_append] at isHead
  generalize isCarry : (saidBy casing text k).drop (spokenWords casing finalized).length = carry
    at isCut isHead ⊢
  have isLetters : ∀ word ∈ carry, word ≠ [] ∧ Letters word := by
    intro word isIn
    rw [← isCarry] at isIn
    exact spokenWords_letters (List.drop_subset _ _ isIn)
  have isAnswer : reconcileTextEnd casing finalized text =
      { newFinal := if join (carry ++ (tokensOf text).drop k) ≠ [] ∧
            (spokenWords casing (join (carry ++ (tokensOf text).drop k))).length ≠ 0 then
          some (join (carry ++ (tokensOf text).drop k)) else none
        endText := trim text
        conflict := false } := by
    rw [reconcileTextEnd, if_neg isSome, splitAfterFinals, if_neg isSome, isCut]
  have isWords : spokenWords casing finalized ++
        ((reconcileTextEnd casing finalized text).newFinal.map (spokenWords casing)).getD [] =
      spokenWords casing (reconcileTextEnd casing finalized text).endText ↔
        ∀ word ∈ carry, Steady word := by
    rw [isAnswer]
    show _ ++ ((if _ then _ else _ : Option Text).map (spokenWords casing)).getD [] =
      spokenWords casing (trim text) ↔ _
    rw [newFinal_words, spokenWords_join, List.flatMap_append, spokenWords_trim, ← isSaid, ← isHead,
      List.append_assoc, List.append_right_inj, List.append_left_inj, spokenWords_carry isLetters]
  rw [← isWords]
  constructor
  · intro isAgreed
    exact isAgreed.words (by rw [isAnswer])
  · intro isSame
    refine ⟨?_, ?_, fun _ => isSame⟩
    · rw [isAnswer]
      exact ⟨(nomatch ·), fun isNot => absurd isMatch isNot⟩
    · rw [isAnswer]
      exact (nomatch ·)

/-- **When the finals and the end agree.** Where no tokens of the text say the finals first, the
answer is a conflict, and it gives the finalized text back when that has no white space at its
ends. Where some do, there is no conflict, and the words said are those of the end precisely when
none of the words carried over changes when it is read again. -/
theorem reconcileTextEnd_agrees (casing : Casing) (finalized text : Text) :
    Agrees casing finalized text ↔
      CarrySteady casing finalized text ∧
        (¬Matches casing finalized text → trim finalized = finalized) := by
  by_cases isSilent : spokenWords casing finalized = []
  · obtain ⟨isAgreed, isMatch, isSteady⟩ : Agrees casing finalized text ∧
        Matches casing finalized text ∧ CarrySteady casing finalized text := agrees_silent isSilent
    exact ⟨fun _ => ⟨isSteady, fun isNot => absurd isMatch isNot⟩, fun _ => isAgreed⟩
  · have isEarly : ∀ k < 1, ¬spokenWords casing finalized <+: saidBy casing text k := by
      intro k isLess isHead
      obtain rfl := Nat.lt_one_iff.mp isLess
      rw [saidBy_eq] at isHead
      exact isSilent (List.prefix_nil.mp isHead)
    rcases cutFrom_spec 1 (tokensOf text).length isEarly with ⟨isNone, isNever⟩ |
      ⟨k, isLess, isCut, isHead, isFirst⟩
    · have isNotMatch : ¬Matches casing finalized text := by
        rintro ⟨k, isWithin, isHead⟩
        exact isNever k (by omega) isHead
      rw [agrees_conflict isSilent isNone isNotMatch]
      constructor
      · intro isTrimmed
        refine ⟨fun k isWithin isHead => ?_, fun _ => isTrimmed⟩
        exact absurd ⟨k, isWithin, isHead⟩ isNotMatch
      · intro isBoth
        exact isBoth.2 isNotMatch
    · have isWithin : k ≤ (tokensOf text).length := by omega
      have isMatch : Matches casing finalized text := ⟨k, isWithin, isHead⟩
      rw [agrees_cut isSilent isWithin isCut isHead isFirst]
      exact ⟨fun isSteady => ⟨isSteady, fun isNot => absurd isMatch isNot⟩, And.left⟩

/-- Lower case of ASCII texts; it leaves every other unit as it is. -/
def asciiCasing : Casing where
  toLowerCase text := text.map lowerUnit
  ascii _ _ := rfl
  atSpace text stop more isStop := by
    have isKept : lowerUnit stop = stop := by
      rw [lowerUnit, if_neg]
      intro isHeld
      have isInside : isWord stop = true := by rw [isWord, isHeld, Bool.or_true, Bool.true_or, Bool.true_or]
      exact absurd isInside (Bool.eq_false_iff.mp (isSpace_not_word isStop))
    rw [List.map_append, List.map_cons, isKept]

/-- After the final `twenty`, the end `twenty-d'r` has `dr` left over, which is sent as a new final
and read as `doctor`: the end says `twenty dr`, the finals say `twenty doctor`. -/
theorem carried_word_changes :
    ¬Agrees asciiCasing (units "twenty") (units "twenty-d'r") := by
  intro isAgreed
  exact absurd (isAgreed.words (by decide)) (by decide)

end Murage.SpokenFinals
