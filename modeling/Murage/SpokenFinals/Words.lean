import Murage.SpokenFinals.Model

/-!
Owns: that spoken words are read from white space to white space, that they are words of the
letters a to z, and what reading such a word a second time makes of it.

Does not own: the answer at the end of a turn.
-/

namespace Murage.SpokenFinals

open Murage.Library.Utf16 Murage.Library.Replacing Murage.Library.Replacing.Pattern
open Murage.Library.Spacing

variable {casing : Casing}

/-! ### From white space to white space -/

/-- The replacements of `readAloud`, in order. -/
def spokenPatterns : List (Pattern Text) :=
  [cancelledPattern, letterDigitPattern, clockPattern, ordinalPattern, leadingZeroPattern,
    numberPattern, zeroPattern, doctorPattern]

/-- Its last steps, unit by unit. -/
def lettersOnly (text : Text) : Text :=
  ((text.filter (· != 0x27)).map fun c => if c = unit '-' then unit ' ' else c).map
    fun c => if isLower c || isSpace c then c else unit ' '

theorem readAloud_eq (text : Text) :
    readAloud text = lettersOnly (replaceEach spokenPatterns text) := rfl

theorem boundary_nil {next : Unit → Pattern Text}
    (isNever : ∀ before, (next ()).read before [] = none) (before : Bool) :
    (boundary >>= next).read before [] = none := by
  cases before with
  | false => rfl
  | true => exact isNever true

theorem spokenPatterns_nil (pattern : Pattern Text) (isOne : pattern ∈ spokenPatterns)
    (before : Bool) : pattern.read before [] = none := by
  simp only [spokenPatterns, List.mem_cons, List.not_mem_nil, or_false] at isOne
  rcases isOne with rfl | rfl | rfl | rfl | rfl | rfl | rfl | rfl
  · rfl
  · rfl
  · rfl
  · exact boundary_nil (fun _ => rfl) before
  · exact boundary_nil (fun _ => rfl) before
  · rfl
  · exact boundary_nil (fun _ => rfl) before
  · exact boundary_nil (fun _ => rfl) before

theorem lettersOnly_atSpace {stop : UInt16} (isStop : isSpace stop = true) (text more : Text) :
    lettersOnly (text ++ stop :: more) = lettersOnly text ++ stop :: lettersOnly more := by
  have isQuote : (stop != 0x27) = true := by
    rw [bne_iff_ne]
    rintro rfl
    exact absurd isStop (by decide)
  have isHyphen : stop ≠ unit '-' := by
    rintro rfl
    exact absurd isStop (by decide)
  have isKept : (isLower stop || isSpace stop) = true := by rw [isStop, Bool.or_true]
  rw [lettersOnly, List.filter_append, List.filter_cons, if_pos isQuote, List.map_append,
    List.map_cons, if_neg isHyphen, List.map_append, List.map_cons, if_pos isKept]
  rfl

theorem readAloud_atSpace {stop : UInt16} (isStop : isSpace stop = true) (text more : Text) :
    readAloud (text ++ stop :: more) = readAloud text ++ stop :: readAloud more := by
  rw [readAloud_eq, replaceEach_atSpace spokenPatterns_nil isStop, lettersOnly_atSpace isStop]
  rfl

theorem ascii_seen {kept : UInt16} (isAscii : kept < 128) {c d : UInt16} (isSame : seen c = seen d) :
    c = kept ↔ d = kept := by
  rcases seen_eq isSame with rfl | ⟨⟨isOther, -⟩, isOtherToo, -⟩
  · rfl
  · exact ⟨fun isEq => absurd (isEq ▸ isAscii) isOther, fun isEq => absurd (isEq ▸ isAscii) isOtherToo⟩

theorem lettersOnly_seen {text other : Text} (isSame : text.map seen = other.map seen) :
    lettersOnly text = lettersOnly other := by
  have isQuote : ∀ c d, seen c = seen d → (c != 0x27) = (d != 0x27) := by
    intro c d isEq
    rw [Bool.eq_iff_iff, bne_iff_ne, bne_iff_ne, Ne, Ne, ascii_seen (by decide) isEq]
  rw [lettersOnly, lettersOnly, List.map_map, List.map_map]
  refine map_of_seen ?_ (filter_of_seen isQuote isSame)
  intro c d isEq
  have isHyphen : c = unit '-' ↔ d = unit '-' := ascii_seen (by decide) isEq
  have isLetter : isLower c = isLower d := Class.lower.seen isEq
  rw [Function.comp_apply, Function.comp_apply]
  by_cases isMinus : c = unit '-'
  · rw [if_pos isMinus, if_pos (isHyphen.mp isMinus)]
  · rw [if_neg isMinus, if_neg (isHyphen.not.mp isMinus)]
    rcases seen_eq isEq with rfl | ⟨⟨isOther, isClear⟩, isOtherToo, isClearToo⟩
    · rfl
    · rw [isLetter, isClear, isClearToo]
      cases isHeld : isLower d with
      | true => exact absurd (Class.lower.ascii d isHeld) isOtherToo
      | false => rfl

theorem readAloud_seen {text other : Text} (isSame : text.map seen = other.map seen) :
    readAloud text = readAloud other :=
  lettersOnly_seen (replaceEach_seen spokenPatterns isSame)

theorem spokenWords_eq (text : Text) :
    spokenWords casing text = words (readAloud (casing.toLowerCase text)) :=
  split_words _

theorem spokenWords_nil : spokenWords casing [] = [] := by
  rw [spokenWords_eq, casing.ascii [] (fun _ isIn => nomatch isIn)]
  rfl

/-- **The reading goes from white space to white space.** -/
theorem spokenWords_append {stop : UInt16} (isStop : isSpace stop = true) (text more : Text) :
    spokenWords casing (text ++ stop :: more) = spokenWords casing text ++ spokenWords casing more := by
  rw [spokenWords_eq, readAloud_seen (casing.atSpace text stop more isStop),
    readAloud_atSpace isStop, words_append isStop, ← spokenWords_eq, ← spokenWords_eq]

theorem spokenWords_join (texts : List Text) :
    spokenWords casing (join texts) = texts.flatMap (spokenWords casing) :=
  reading_join spokenWords_nil (fun text _ more isStop => spokenWords_append isStop text more) texts

theorem spokenWords_trim (text : Text) : spokenWords casing (trim text) = spokenWords casing text :=
  reading_trim spokenWords_nil (fun text _ more isStop => spokenWords_append isStop text more) text

theorem spokenWords_letters {text word : Text} (isWord : word ∈ spokenWords casing text) :
    word ≠ [] ∧ ∀ c ∈ word, isLower c = true := by
  rw [spokenWords_eq] at isWord
  obtain ⟨isFull, isClear, isIn⟩ := mem_words isWord
  refine ⟨isFull, fun c isUnit => ?_⟩
  have isRead := isIn c isUnit
  rw [readAloud_eq, lettersOnly] at isRead
  obtain ⟨d, -, isKept⟩ := List.mem_map.mp isRead
  by_cases isHeld : (isLower d || isSpace d) = true
  · rw [if_pos isHeld] at isKept
    rw [← isKept]
    rw [Bool.or_eq_true] at isHeld
    rcases isHeld with isLetter | isStop
    · exact isLetter
    · exact absurd isStop (Bool.eq_false_iff.mp (isKept ▸ isClear c isUnit))
  · rw [if_neg isHeld] at isKept
    exact absurd isSpace_blank (Bool.eq_false_iff.mp (isKept ▸ isClear c isUnit))

/-! ### A spoken word read again -/

def Letters (text : Text) : Prop := ∀ c ∈ text, isLower c = true

theorem isLower_word {c : UInt16} (isLetter : isLower c = true) : isWord c = true := by
  rw [isWord, isLetter, Bool.true_or, Bool.true_or, Bool.true_or]

theorem isLower_notDigit {c : UInt16} (isLetter : isLower c = true) : isDigit c = false := by
  rw [Bool.eq_false_iff]
  intro isHeld
  simp only [isLower, isDigit, Bool.and_eq_true, decide_eq_true_eq, UInt16.le_iff_toNat_le]
    at isLetter isHeld
  have : (unit 'a').toNat = 97 := rfl
  have : (unit '9').toNat = 57 := rfl
  omega

variable {text : Text}

theorem Letters.clear (isLetters : Letters text) : Clear text := fun c isIn =>
  Bool.eq_false_iff.mpr fun isStop => absurd (isLower_word (isLetters c isIn))
    (Bool.eq_false_iff.mp (isSpace_not_word isStop))

theorem Letters.suffix {text rest : Text} (isLetters : Letters text) (isEnd : rest <:+ text) :
    Letters rest := fun c isIn => isLetters c (isEnd.subset isIn)

theorem Letters.oneDigit (isLetters : Letters text) (before : Bool) :
    (one .digit).read before text = none := by
  cases text with
  | nil => rfl
  | cons c rest =>
    show (if isDigit c then _ else none) = none
    rw [isLower_notDigit (isLetters c List.mem_cons_self)]
    rfl

theorem Letters.runDigit (isLetters : Letters text) (before : Bool) :
    (run .digit).read before text = none := by
  cases text with
  | nil => rfl
  | cons c rest =>
    have isNone : (c :: rest).takeWhile isDigit = [] := by
      rw [List.takeWhile_cons, isLower_notDigit (isLetters c List.mem_cons_self)]
      rfl
    show ((c :: rest).takeWhile isDigit).getLast?.map _ = none
    rw [isNone]
    rfl

theorem bind_read {β γ : Type} (pattern : Pattern β) (next : β → Pattern γ) (before : Bool)
    (text : Text) :
    (pattern >>= next).read before text = (pattern.read before text).bind fun found =>
      (next found.value).read found.before found.rest := rfl

theorem boundary_read (before : Bool) (c : UInt16) (rest : Text) :
    boundary.read before (c :: rest) =
      if before != isWord c then some ⟨(), before, c :: rest⟩ else none := rfl

theorem Letters.numbers (isLetters : Letters text) (pattern : Pattern Text)
    (isOne : pattern ∈ [letterDigitPattern, clockPattern, ordinalPattern, leadingZeroPattern,
      numberPattern]) : replaceAll pattern text = text := by
  refine replaceFrom_unmatched fun before rest isEnd isRest => ?_
  have isLettersToo := isLetters.suffix isEnd
  cases rest with
  | nil => exact absurd rfl isRest
  | cons c more =>
    have isMore : Letters more := isLettersToo.suffix (List.suffix_cons c more)
    simp only [List.mem_cons, List.not_mem_nil, or_false] at isOne
    rcases isOne with rfl | rfl | rfl | rfl | rfl
    · rw [letterDigitPattern, bind_read]
      show (if isLower c then some _ else none).bind _ = none
      rw [if_pos (isLettersToo c List.mem_cons_self), Option.bind_some, bind_read]
      show ((one .digit).read (isWord c) more).bind _ = none
      rw [isMore.oneDigit]
      rfl
    · rw [clockPattern, bind_read, isLettersToo.runDigit]
      rfl
    · rw [ordinalPattern, bind_read, boundary_read]
      split
      · rw [Option.bind_some, bind_read, isLettersToo.runDigit]
        rfl
      · rfl
    · have isNotZero : (c == unit '0') = false := by
        rw [beq_eq_false_iff_ne]
        rintro rfl
        exact absurd (isLettersToo _ List.mem_cons_self) (by decide)
      rw [leadingZeroPattern, bind_read, boundary_read]
      split
      · rw [Option.bind_some, bind_read]
        show (if (c == unit '0') = true then some _ else none : Option (Matched UInt16)).bind _ = none
        rw [isNotZero]
        rfl
      · rfl
    · rw [numberPattern, bind_read, isLettersToo.runDigit]
      rfl

theorem Letters.wholeWord {text fixed : Text} (isLetters : Letters text) (isText : text ≠ [])
    (isFixed : fixed ≠ []) (isFixedLetters : Letters fixed) (isPlain) (next : Pattern Text)
    (before : Bool) :
    (boundary >>= fun _ => literal fixed isPlain >>= fun _ => boundary >>= fun _ => next).read
        before text =
      if before = false ∧ text = fixed then next.read true [] else none := by
  cases text with
  | nil => exact absurd rfl isText
  | cons c rest =>
    rw [bind_read, boundary_read, isLower_word (isLetters c List.mem_cons_self)]
    cases before with
    | true => rfl
    | false =>
      show (literal fixed isPlain >>= fun _ => boundary >>= fun _ => next).read false (c :: rest) = _
      rw [bind_read, literal_read]
      have isBefore : (fixed.getLast?.map isWord).getD false = true := by
        rw [List.getLast?_eq_some_getLast isFixed]
        exact isLower_word (isFixedLetters _ (List.getLast_mem isFixed))
      by_cases isHead : fixed <+: c :: rest
      · obtain ⟨after, isAfter⟩ := isHead
        rw [if_pos ⟨after, isAfter⟩, Option.bind_some, isBefore, bind_read, ← isAfter,
          List.drop_left]
        cases after with
        | nil =>
          rw [List.append_nil, if_pos ⟨rfl, rfl⟩]
          rfl
        | cons d more =>
          have isLonger : ¬(false = false ∧ fixed ++ d :: more = fixed) := by
            rintro ⟨-, isEq⟩
            exact absurd (List.append_right_eq_self.mp isEq) (List.cons_ne_nil d more)
          have isInside : isWord d = true := isLower_word (isLetters d
            (isAfter ▸ List.mem_append_right _ List.mem_cons_self))
          rw [boundary_read, isInside, if_neg isLonger]
          rfl
      · have isOther : ¬(false = false ∧ c :: rest = fixed) :=
          fun isBoth => isHead (isBoth.2 ▸ List.prefix_rfl)
        rw [if_neg isHead, if_neg isOther]
        rfl

theorem Letters.replaceWord {text fixed value : Text} (isLetters : Letters text) (isText : text ≠ [])
    (isFixed : fixed ≠ []) (isFixedLetters : Letters fixed) (isPlain) {next : Pattern Text}
    {before : Bool} (isNext : next.read true [] = some ⟨value, before, []⟩) :
    replaceAll (boundary >>= fun _ => literal fixed isPlain >>= fun _ => boundary >>= fun _ => next)
        text =
      if text = fixed then value else text := by
  have isRead := fun (before : Bool) (rest : Text) (isEnd : rest <:+ text) (isRest : rest ≠ []) =>
    (isLetters.suffix isEnd).wholeWord isRest isFixed isFixedLetters isPlain next before
  cases text with
  | nil => exact absurd rfl isText
  | cons c rest =>
    have isFirst := isRead false _ List.suffix_rfl isText
    by_cases isIt : c :: rest = fixed
    · rw [if_pos ⟨rfl, isIt⟩, isNext] at isFirst
      rw [if_pos isIt, replaceAll, replaceFrom_some isFirst]
      show value ++ replaceFrom _ rest.length _ _ = value
      rw [replaceFrom_skipped (Nat.le_refl _), List.append_nil]
    · rw [if_neg (fun isBoth : _ ∧ _ => isIt isBoth.2)] at isFirst
      rw [if_neg isIt, replaceAll, replaceFrom_none isFirst,
        isLower_word (isLetters c List.mem_cons_self),
        replaceFrom_inside (fun d isIn => isLower_word (isLetters d (List.mem_cons_of_mem c isIn)))]
      intro other isEnd isOther
      have isLater := isRead true other (isEnd.trans (List.suffix_cons c rest)) isOther
      rw [if_neg (fun isBoth : _ ∧ _ => absurd isBoth.1 (by decide))] at isLater
      exact isLater

theorem cancelledPattern_read (before : Bool) (text : Text) :
    cancelledPattern.read before text =
      if units "cancelled" <+: text then some ⟨units "canceled", true, text.drop 9⟩ else none := by
  rw [cancelledPattern, bind_read, literal_read]
  split
  · rfl
  · rfl

theorem cancelled_length {skip : Nat} {before : Bool} (isWithin : skip ≤ text.length) :
    (replaceFrom cancelledPattern skip before text).length + skip ≤ text.length := by
  induction text generalizing skip before with
  | nil =>
    rw [replaceFrom, List.length_nil, Nat.zero_add]
    exact isWithin
  | cons c rest ih =>
    rw [List.length_cons] at isWithin ⊢
    cases skip with
    | succ skip =>
      have isRest : (replaceFrom cancelledPattern skip (isWord c) rest).length + skip ≤
          rest.length := ih (Nat.le_of_succ_le_succ isWithin)
      rw [replaceFrom]
      omega
    | zero =>
      have isRead := cancelledPattern_read before (c :: rest)
      by_cases isHead : units "cancelled" <+: c :: rest
      · rw [if_pos isHead] at isRead
        have isLong : 8 ≤ rest.length := Nat.le_of_succ_le_succ isHead.length_le
        have isRest : (replaceFrom cancelledPattern 8 (isWord c) rest).length + 8 ≤
            rest.length := ih isLong
        have isSkip : rest.length - ((c :: rest).drop 9).length = 8 := by
          rw [List.drop_succ_cons, List.length_drop]
          omega
        have isValue : (units "canceled").length = 8 := rfl
        rw [replaceFrom_some isRead, isSkip, List.length_append, isValue]
        omega
      · rw [if_neg isHead] at isRead
        have isRest : (replaceFrom cancelledPattern 0 (isWord c) rest).length + 0 ≤
            rest.length := ih (Nat.zero_le _)
        rw [replaceFrom_none isRead, List.length_cons]
        omega

theorem cancelled_shorter {before : Bool} (isIn : units "cancelled" <:+: text) :
    (replaceFrom cancelledPattern 0 before text).length < text.length := by
  induction text generalizing before with
  | nil => exact absurd (List.infix_nil.mp isIn) (by decide)
  | cons c rest ih =>
    have isRead := cancelledPattern_read before (c :: rest)
    by_cases isHead : units "cancelled" <+: c :: rest
    · rw [if_pos isHead] at isRead
      have isLong : 8 ≤ rest.length := Nat.le_of_succ_le_succ isHead.length_le
      have isRest : (replaceFrom cancelledPattern 8 (isWord c) rest).length + 8 ≤ rest.length :=
        cancelled_length isLong
      have isSkip : rest.length - ((c :: rest).drop 9).length = 8 := by
        rw [List.drop_succ_cons, List.length_drop]
        omega
      have isValue : (units "canceled").length = 8 := rfl
      rw [replaceFrom_some isRead, isSkip, List.length_append, isValue, List.length_cons]
      omega
    · rw [if_neg isHead] at isRead
      have isRest : (replaceFrom cancelledPattern 0 (isWord c) rest).length < rest.length :=
        ih ((List.infix_cons_iff.mp isIn).resolve_left isHead)
      rw [replaceFrom_none isRead, List.length_cons, List.length_cons]
      omega

theorem cancelled_kept (isOut : ¬units "cancelled" <:+: text) :
    replaceAll cancelledPattern text = text := by
  refine replaceFrom_unmatched fun before rest isEnd _ => ?_
  rw [cancelledPattern_read, if_neg fun isHead => isOut (isHead.isInfix.trans isEnd.isInfix)]

theorem cancelled_letters {skip : Nat} {before : Bool} (isLetters : Letters text) :
    Letters (replaceFrom cancelledPattern skip before text) := by
  induction text generalizing skip before with
  | nil => exact isLetters
  | cons c rest ih =>
    have isRest : Letters rest := isLetters.suffix (List.suffix_cons c rest)
    cases skip with
    | succ skip => exact ih isRest
    | zero =>
      have isRead := cancelledPattern_read before (c :: rest)
      by_cases isHead : units "cancelled" <+: c :: rest
      · rw [if_pos isHead] at isRead
        rw [replaceFrom_some isRead]
        intro d isIn
        rcases List.mem_append.mp isIn with isNew | isLater
        · exact List.all_eq_true.mp (by decide : (units "canceled").all isLower = true) d isNew
        · exact ih isRest d isLater
      · rw [if_neg isHead] at isRead
        rw [replaceFrom_none isRead]
        intro d isIn
        rcases List.mem_cons.mp isIn with rfl | isLater
        · exact isLetters _ List.mem_cons_self
        · exact ih isRest d isLater

theorem cancelled_ne_nil (isText : text ≠ []) : replaceAll cancelledPattern text ≠ [] := by
  cases text with
  | nil => exact absurd rfl isText
  | cons c rest =>
    have isRead := cancelledPattern_read false (c :: rest)
    rw [replaceAll]
    by_cases isHead : units "cancelled" <+: c :: rest
    · rw [if_pos isHead] at isRead
      rw [replaceFrom_some isRead]
      exact List.append_ne_nil_of_left_ne_nil (by decide : units "canceled" ≠ []) _
    · rw [if_neg isHead] at isRead
      rw [replaceFrom_none isRead]
      exact List.cons_ne_nil _ _

theorem Letters.lettersOnly (isLetters : Letters text) : lettersOnly text = text := by
  induction text with
  | nil => rfl
  | cons c rest ih =>
    have isLetter := isLetters c List.mem_cons_self
    have isQuote : (c != 0x27) = true := by
      rw [bne_iff_ne]
      rintro rfl
      exact absurd isLetter (by decide)
    have isHyphen : c ≠ unit '-' := by
      rintro rfl
      exact absurd isLetter (by decide)
    have isRest := ih (isLetters.suffix (List.suffix_cons c rest))
    rw [SpokenFinals.lettersOnly] at isRest ⊢
    rw [List.filter_cons, if_pos isQuote, List.map_cons, if_neg isHyphen, List.map_cons, isLetter,
      Bool.true_or, if_pos rfl, isRest]

def voiced (word : Text) : Text :=
  if word = units "zero" then units "oh"
  else if word = units "dr" then units "doctor"
  else word

theorem lowerUnit_letter {c : UInt16} (isLetter : isLower c = true) : lowerUnit c = c := by
  have isNotUpper : isUpper c = false := by
    rw [Bool.eq_false_iff]
    intro isHeld
    simp only [isLower, isUpper, Bool.and_eq_true, decide_eq_true_eq, UInt16.le_iff_toNat_le]
      at isLetter isHeld
    have : (unit 'a').toNat = 97 := rfl
    have : (unit 'Z').toNat = 90 := rfl
    omega
  rw [lowerUnit, isNotUpper]
  rfl

theorem Letters.zero (isLetters : Letters text) (isText : text ≠ []) :
    replaceAll zeroPattern text = if text = units "zero" then units "oh" else text :=
  isLetters.replaceWord isText (by decide) (List.all_eq_true.mp (by decide)) (by decide) rfl

theorem Letters.doctor (isLetters : Letters text) (isText : text ≠ []) :
    replaceAll doctorPattern text = if text = units "dr" then units "doctor" else text :=
  isLetters.replaceWord isText (by decide) (List.all_eq_true.mp (by decide)) (by decide) rfl

theorem Letters.voiced (isLetters : Letters text) (isText : text ≠ []) :
    Letters (voiced text) ∧ SpokenFinals.voiced text ≠ [] := by
  rw [SpokenFinals.voiced]
  split
  · exact ⟨List.all_eq_true.mp (by decide), by decide⟩
  · split
    · exact ⟨List.all_eq_true.mp (by decide), by decide⟩
    · exact ⟨isLetters, isText⟩

theorem Letters.titles (isLetters : Letters text) (isText : text ≠ []) :
    replaceAll doctorPattern (replaceAll zeroPattern text) = SpokenFinals.voiced text := by
  rw [isLetters.zero isText, SpokenFinals.voiced]
  by_cases isZero : text = units "zero"
  · have isOh : Letters (units "oh") := List.all_eq_true.mp (by decide)
    rw [if_pos isZero, if_pos isZero, isOh.doctor (by decide), if_neg (by decide)]
  · rw [if_neg isZero, if_neg isZero, isLetters.doctor isText]

theorem spokenWords_word {word : Text} (isLetters : Letters word) (isWord : word ≠ []) :
    spokenWords casing word = [voiced (replaceAll cancelledPattern word)] := by
  have isLow : casing.toLowerCase word = word := by
    rw [casing.ascii word fun c isIn => Class.lower.ascii c (isLetters c isIn)]
    calc word.map lowerUnit = word.map id :=
          List.map_congr_left fun c isIn => lowerUnit_letter (isLetters c isIn)
      _ = word := List.map_id word
  have isOne : Letters (replaceAll cancelledPattern word) := cancelled_letters isLetters
  have isFull := cancelled_ne_nil isWord
  obtain ⟨isVoiced, isVoicedFull⟩ := isOne.voiced isFull
  have isAloud : readAloud word = voiced (replaceAll cancelledPattern word) := by
    rw [readAloud, isOne.numbers letterDigitPattern (by simp), isOne.numbers clockPattern (by simp),
      isOne.numbers ordinalPattern (by simp), isOne.numbers leadingZeroPattern (by simp),
      isOne.numbers numberPattern (by simp), isOne.titles isFull]
    exact isVoiced.lettersOnly
  rw [spokenWords_eq, isLow, isAloud, words_clear isVoiced.clear isVoicedFull]

/-- A spoken word that says the same when it is read again. -/
def Steady (word : Text) : Prop :=
  word ≠ units "zero" ∧ word ≠ units "dr" ∧ ¬units "cancelled" <:+: word

instance : DecidablePred Steady := fun word => by unfold Steady; infer_instance

/-- **Which words are read as themselves.** All but `zero`, `dr` and those with `cancelled` in
them. -/
theorem spokenWords_steady {word : Text} (isLetters : Letters word) (isWord : word ≠ []) :
    spokenWords casing word = [word] ↔ Steady word := by
  rw [spokenWords_word isLetters isWord, List.singleton_inj, voiced, Steady]
  by_cases isIn : units "cancelled" <:+: word
  · have isShorter : (replaceAll cancelledPattern word).length < word.length :=
      cancelled_shorter isIn
    have isLong : 9 ≤ word.length := isIn.length_le
    refine ⟨fun isSame => ?_, fun isSteady => absurd isIn isSteady.2.2⟩
    split at isSame
    · rw [← isSame] at isLong
      exact absurd isLong (by decide)
    · split at isSame
      · rw [← isSame] at isLong
        exact absurd isLong (by decide)
      · rw [isSame] at isShorter
        exact absurd isShorter (Nat.lt_irrefl _)
  · rw [cancelled_kept isIn]
    constructor
    · intro isSame
      refine ⟨?_, ?_, isIn⟩
      · rintro rfl
        exact absurd isSame (by decide)
      · rintro rfl
        exact absurd isSame (by decide)
    · rintro ⟨isNotZero, isNotTitle, -⟩
      rw [if_neg isNotZero, if_neg isNotTitle]

theorem spokenWords_carry {carry : List Text}
    (isSpoken : ∀ word ∈ carry, word ≠ [] ∧ Letters word) :
    carry.flatMap (spokenWords casing) = carry ↔ ∀ word ∈ carry, Steady word := by
  induction carry with
  | nil => exact ⟨fun _ _ isIn => (nomatch isIn), fun _ => rfl⟩
  | cons word later ih =>
    rw [List.forall_mem_cons] at isSpoken
    obtain ⟨⟨isWord, isLetters⟩, isLater⟩ := isSpoken
    have isFirst : spokenWords casing word = [word] ↔ Steady word :=
      spokenWords_steady isLetters isWord
    rw [List.forall_mem_cons, ← ih isLater, ← isFirst, List.flatMap_cons,
      spokenWords_word isLetters isWord, List.singleton_append, List.cons.injEq,
      List.singleton_inj]

end Murage.SpokenFinals
