import Mathlib.Data.List.Chain
import Mathlib.Data.List.DropRight
import Murage.Library.Replacing

/-!
Owns: the words of a text, what `trim`, `split` and the collapsing of white space do to them, and
that a reading which takes the two sides of every white space apart reads word by word. It names no
system.
-/

namespace Murage.Library.Spacing

open Murage.Library.Utf16 Murage.Library.Replacing

/-! ### Operations -/

/-- `trim()` -/
def trim (text : Text) : Text := (text.dropWhile isSpace).rdropWhile isSpace

/-- `replace(/\s+/g, " ")`, when `after` says whether white space is before the text. -/
def collapseFrom : (after : Bool) → Text → Text
  | _, [] => []
  | after, c :: rest =>
    if isSpace c then
      if after then collapseFrom true rest else unit ' ' :: collapseFrom true rest
    else c :: collapseFrom false rest

def collapse (text : Text) : Text := collapseFrom false text

/-- A unit in front of the first part. -/
def ontoFirst (c : UInt16) : List Text → List Text
  | [] => [[c]]
  | part :: later => (c :: part) :: later

/-- `split` at each separator. -/
def parts (separator : UInt16 → Bool) : Text → List Text
  | [] => [[]]
  | c :: rest =>
    if separator c then [] :: parts separator rest else ontoFirst c (parts separator rest)

def words (text : Text) : List Text := (parts isSpace text).filter fun part => !part.isEmpty

/-- `join(" ")` -/
def join : List Text → Text
  | [] => []
  | [word] => word
  | word :: next :: later => word ++ unit ' ' :: join (next :: later)

def Clear (text : Text) : Prop := ∀ c ∈ text, isSpace c = false

theorem isSpace_blank : isSpace (unit ' ') = true := by decide

/-! ### Texts from white space to white space -/

/-- Induction over a text, from each white space to the next. -/
theorem spacedInduction {motive : Text → Prop} (clear : ∀ text, Clear text → motive text)
    (spaced : ∀ text stop more, Clear text → isSpace stop = true → motive more →
      motive (text ++ stop :: more)) (text : Text) : motive text := by
  induction isLength : text.length using Nat.strongRecOn generalizing text with
  | ind length ih =>
    have isSplit : (text.takeWhile fun c => !isSpace c) ++ text.dropWhile (fun c => !isSpace c) =
        text := List.takeWhile_append_dropWhile
    have isClear : Clear (text.takeWhile fun c => !isSpace c) := by
      intro c isIn
      have isKept := List.mem_takeWhile_imp isIn
      rw [Bool.not_eq_true'] at isKept
      exact isKept
    cases isLeft : text.dropWhile fun c => !isSpace c with
    | nil =>
      rw [isLeft, List.append_nil] at isSplit
      exact clear text (isSplit ▸ isClear)
    | cons stop more =>
      rw [isLeft] at isSplit
      have isStop : isSpace stop = true := by
        have isOut := List.head?_dropWhile_not (fun c => !isSpace c) text
        rw [isLeft] at isOut
        exact (Bool.not_eq_false' _).mp isOut
      have isShorter : more.length < length := by
        rw [← isLength, ← isSplit, List.length_append, List.length_cons]
        omega
      exact isSplit ▸ spaced _ stop more isClear isStop
        (ih more.length isShorter more rfl)

theorem parts_ne_nil (separator : UInt16 → Bool) (text : Text) : parts separator text ≠ [] := by
  cases text with
  | nil => exact List.cons_ne_nil [] []
  | cons c rest =>
    rw [parts]
    cases separator c with
    | true => exact List.cons_ne_nil _ _
    | false => cases parts separator rest <;> exact List.cons_ne_nil _ _

theorem parts_append {separator : UInt16 → Bool} {stop : UInt16} (isStop : separator stop = true)
    (text more : Text) :
    parts separator (text ++ stop :: more) = parts separator text ++ parts separator more := by
  induction text with
  | nil =>
    show (if separator stop then [] :: parts separator more else _) = _
    rw [if_pos isStop]
    rfl
  | cons c rest ih =>
    rw [List.cons_append, parts, parts, ih]
    cases separator c with
    | true => rfl
    | false =>
      cases isParts : parts separator rest with
      | nil => exact absurd isParts (parts_ne_nil separator rest)
      | cons part later => rfl

variable {text : Text}

theorem parts_clear {separator : UInt16 → Bool} (isClear : ∀ c ∈ text, separator c = false) :
    parts separator text = [text] := by
  induction text with
  | nil => rfl
  | cons c rest ih =>
    rw [List.forall_mem_cons] at isClear
    rw [parts, isClear.1, ih isClear.2]
    rfl

theorem parts_congr {separator other : UInt16 → Bool} (isSame : ∀ c ∈ text, separator c = other c) :
    parts separator text = parts other text := by
  induction text with
  | nil => rfl
  | cons c rest ih =>
    rw [List.forall_mem_cons] at isSame
    rw [parts, parts, isSame.1, ih isSame.2]

/-! ### Words -/

theorem words_append {stop : UInt16} (isStop : isSpace stop = true) (text more : Text) :
    words (text ++ stop :: more) = words text ++ words more := by
  rw [words, parts_append isStop, List.filter_append]
  rfl

theorem words_clear (isClear : Clear text) (isText : text ≠ []) :
    words text = [text] := by
  rw [words, parts_clear isClear]
  cases text with
  | nil => exact absurd rfl isText
  | cons c rest => rfl

theorem mem_words {word : Text} (isWord : word ∈ words text) :
    word ≠ [] ∧ Clear word ∧ ∀ c ∈ word, c ∈ text := by
  induction text using spacedInduction with
  | clear text isClear =>
    cases text with
    | nil => exact nomatch isWord
    | cons c rest =>
      rw [words_clear isClear (List.cons_ne_nil c rest), List.mem_singleton] at isWord
      rw [isWord]
      exact ⟨List.cons_ne_nil c rest, isClear, fun _ isIn => isIn⟩
  | spaced text stop more isClear isStop ih =>
    rw [words_append isStop, List.mem_append] at isWord
    rcases isWord with isHere | isLater
    · cases text with
      | nil => exact nomatch isHere
      | cons c rest =>
        rw [words_clear isClear (List.cons_ne_nil c rest), List.mem_singleton] at isHere
        rw [isHere]
        exact ⟨List.cons_ne_nil c rest, isClear, fun _ isIn => List.mem_append_left _ isIn⟩
    · obtain ⟨isFull, isWordClear, isIn⟩ := ih isLater
      exact ⟨isFull, isWordClear,
        fun c isUnit => List.mem_append_right _ (List.mem_cons_of_mem stop (isIn c isUnit))⟩

theorem words_dropWhile (text : Text) : words (text.dropWhile isSpace) = words text := by
  induction text with
  | nil => rfl
  | cons c rest ih =>
    rw [List.dropWhile_cons]
    by_cases isStop : isSpace c = true
    · rw [if_pos isStop, ih]
      exact (words_append isStop [] rest).symm
    · rw [if_neg isStop]

theorem words_trim (text : Text) : words (trim text) = words text := by
  rw [trim, ← words_dropWhile text]
  induction text.dropWhile isSpace using List.reverseRecOn with
  | nil => rfl
  | append_singleton text c ih =>
    by_cases isStop : isSpace c = true
    · rw [List.rdropWhile_concat_pos _ _ _ isStop, ih, words_append isStop]
      exact (List.append_nil _).symm
    · rw [List.rdropWhile_concat_neg _ _ _ isStop]

theorem collapseFrom_append (isClear : Clear text) {stop : UInt16} (isStop : isSpace stop = true)
    (after : Bool) (more : Text) :
    collapseFrom after (text ++ stop :: more) =
      if text.isEmpty && after then collapseFrom true more
      else text ++ unit ' ' :: collapseFrom true more := by
  induction text generalizing after with
  | nil =>
    rw [List.nil_append, collapseFrom, if_pos isStop]
    rfl
  | cons c rest ih =>
    rw [Clear, List.forall_mem_cons] at isClear
    rw [List.cons_append, collapseFrom, isClear.1, ih isClear.2 false,
      Bool.and_false]
    rfl

theorem collapseFrom_clear (isClear : Clear text) (after : Bool) :
    collapseFrom after text = text := by
  induction text generalizing after with
  | nil => rfl
  | cons c rest ih =>
    rw [Clear, List.forall_mem_cons] at isClear
    rw [collapseFrom, isClear.1, ih isClear.2 false]
    rfl

theorem words_collapseFrom (after : Bool) (text : Text) :
    words (collapseFrom after text) = words text := by
  induction text using spacedInduction generalizing after with
  | clear text isClear => rw [collapseFrom_clear isClear]
  | spaced text stop more isClear isStop ih =>
    rw [collapseFrom_append isClear isStop, words_append isStop]
    split
    · next isEmpty =>
      rw [Bool.and_eq_true, List.isEmpty_iff] at isEmpty
      rw [ih, isEmpty.1]
      rfl
    · rw [words_append isSpace_blank, ih]

/-! ### Splitting at single blanks -/

/-- Single blanks are the only white space. -/
structure Tidy (text : Text) : Prop where
  blank : ∀ c ∈ text, isSpace c = true → c = unit ' '
  apart : text.IsChain fun c d => isSpace c = true → isSpace d = false

theorem Tidy.piece {part : Text} (isTidy : Tidy text) (isPart : part <:+: text) : Tidy part :=
  ⟨fun c isIn => isTidy.blank c (isPart.subset isIn), List.IsChain.infix isTidy.apart isPart⟩

theorem collapseFrom_tidy (after : Bool) (text : Text) :
    Tidy (collapseFrom after text) ∧
      (after = true → ∀ c ∈ (collapseFrom after text).head?, isSpace c = false) := by
  induction text generalizing after with
  | nil => exact ⟨⟨fun _ isIn => (nomatch isIn), List.isChain_nil⟩, fun _ _ isIn => nomatch isIn⟩
  | cons c rest ih =>
    rw [collapseFrom]
    by_cases isStop : isSpace c = true
    · rw [if_pos isStop]
      obtain ⟨isTidy, isHead⟩ := ih true
      cases after with
      | true => exact ⟨isTidy, isHead⟩
      | false =>
        refine ⟨⟨?_, ?_⟩, (nomatch ·)⟩
        · intro d isIn isBlank
          rcases List.mem_cons.mp isIn with rfl | isLater
          · rfl
          · exact isTidy.blank d isLater isBlank
        · exact List.isChain_cons.mpr ⟨fun d isFirst _ => isHead rfl d isFirst, isTidy.apart⟩
    · rw [if_neg isStop]
      obtain ⟨isTidy, -⟩ := ih false
      refine ⟨⟨?_, ?_⟩, ?_⟩
      · intro d isIn isBlank
        rcases List.mem_cons.mp isIn with rfl | isLater
        · exact absurd isBlank isStop
        · exact isTidy.blank d isLater isBlank
      · exact List.isChain_cons.mpr ⟨fun d _ isBlank => absurd isBlank isStop, isTidy.apart⟩
      · rintro - d ⟨⟩
        exact Bool.eq_false_iff.mpr isStop

theorem Tidy.parts_ne_nil (isTidy : Tidy text) (isText : text ≠ [])
    (isHead : ∀ c ∈ text.head?, isSpace c = false) (isLast : ∀ c ∈ text.getLast?, isSpace c = false) :
    ∀ part ∈ parts isSpace text, part ≠ [] := by
  induction text using spacedInduction with
  | clear text isClear =>
    intro part isPart
    rw [parts_clear isClear, List.mem_singleton] at isPart
    exact isPart ▸ isText
  | spaced text stop more isClear isStop ih =>
    intro part isPart
    rw [parts_append isStop, parts_clear isClear, List.mem_append, List.mem_singleton] at isPart
    rcases isPart with rfl | isLater
    · rintro rfl
      exact absurd isStop (Bool.eq_false_iff.mp (isHead stop rfl))
    · cases more with
      | nil =>
        rw [List.getLast?_append, List.getLast?_singleton] at isLast
        exact absurd isStop (Bool.eq_false_iff.mp (isLast stop rfl))
      | cons c rest =>
        have isMore : stop :: c :: rest <:+: text ++ stop :: c :: rest :=
          (List.suffix_append text _).isInfix
        have isApart := List.isChain_cons.mp ( List.IsChain.infix isTidy.apart isMore)
        have isEnd : (c :: rest).getLast? = (text ++ stop :: c :: rest).getLast? := by
          rw [List.getLast?_append, List.getLast?_cons_cons,
            List.getLast?_eq_some_getLast (List.cons_ne_nil c rest)]
          rfl
        exact ih (isTidy.piece ((List.suffix_cons stop _).isInfix.trans isMore))
          (List.cons_ne_nil c rest) (fun d isFirst => isApart.1 d isFirst isStop)
          (isEnd ▸ isLast) part isLater

/-- **Splitting at single blanks.** A text whose white space was collapsed and trimmed splits at its
blanks into its words. -/
theorem split_words (text : Text) :
    (if trim (collapse text) = [] then [] else parts (· == unit ' ') (trim (collapse text))) =
      words text := by
  have isWords : words (trim (collapse text)) = words text := by
    rw [words_trim]
    exact words_collapseFrom false text
  by_cases isEmpty : trim (collapse text) = []
  · rw [if_pos isEmpty, ← isWords, isEmpty]
    rfl
  · rw [if_neg isEmpty, ← isWords]
    have isFront : trim (collapse text) <+: (collapse text).dropWhile isSpace :=
      List.rdropWhile_prefix _ _
    have isPart : trim (collapse text) <:+: collapse text :=
      isFront.isInfix.trans (List.dropWhile_suffix _).isInfix
    have isTidy : Tidy (trim (collapse text)) := (collapseFrom_tidy false text).1.piece isPart
    have isBlank : ∀ c ∈ trim (collapse text), (c == unit ' ') = isSpace c := by
      intro c isIn
      by_cases isStop : isSpace c = true
      · rw [isStop, isTidy.blank c isIn isStop]
        exact beq_self_eq_true _
      · rw [Bool.eq_false_iff.mpr isStop, beq_eq_false_iff_ne]
        rintro rfl
        exact isStop isSpace_blank
    have isHead : ∀ c ∈ (trim (collapse text)).head?, isSpace c = false := by
      intro c isFirst
      obtain ⟨rest, isRest⟩ := List.head?_eq_some_iff.mp isFirst
      obtain ⟨after, isAfter⟩ := isFront
      rw [isRest] at isAfter
      have isOut := List.head?_dropWhile_not isSpace (collapse text)
      rw [← isAfter] at isOut
      exact isOut
    have isLast : ∀ c ∈ (trim (collapse text)).getLast?, isSpace c = false := by
      intro c isEnd
      have isOut := List.rdropWhile_last_not isSpace _ isEmpty
      rw [Option.mem_def, List.getLast?_eq_some_getLast isEmpty, Option.some.injEq] at isEnd
      exact Bool.eq_false_iff.mpr (isEnd ▸ isOut)
    rw [parts_congr isBlank, words, eq_comm, List.filter_eq_self]
    intro part isIn
    have isFull := isTidy.parts_ne_nil isEmpty isHead isLast part isIn
    rw [Bool.not_eq_true', List.isEmpty_eq_false_iff]
    exact isFull

/-! ### Readings word by word -/

theorem join_append {word : Text} {later : List Text} (isLater : later ≠ []) :
    join (word :: later) = word ++ unit ' ' :: join later := by
  cases later with
  | nil => exact absurd rfl isLater
  | cons next later => rfl

section Reading

variable {β : Type} {reading : Text → List β} (isNil : reading [] = [])
  (isSplit : ∀ text stop more, isSpace stop = true →
    reading (text ++ stop :: more) = reading text ++ reading more)
include isNil isSplit

theorem reading_words (text : Text) : reading text = (words text).flatMap reading := by
  induction text using spacedInduction with
  | clear text isClear =>
    cases text with
    | nil => exact isNil
    | cons c rest =>
      rw [words_clear isClear (List.cons_ne_nil c rest), List.flatMap_singleton]
  | spaced text stop more isClear isStop ih =>
    rw [isSplit text stop more isStop, words_append isStop, List.flatMap_append,
      ih]
    cases text with
    | nil => rw [isNil]; rfl
    | cons c rest =>
      rw [words_clear isClear (List.cons_ne_nil c rest), List.flatMap_singleton]

theorem reading_trim (text : Text) : reading (trim text) = reading text := by
  rw [reading_words isNil isSplit, words_trim, ← reading_words isNil isSplit]

theorem reading_join (texts : List Text) : reading (join texts) = texts.flatMap reading := by
  induction texts with
  | nil => exact isNil
  | cons word later ih =>
    cases later with
    | nil => exact (List.flatMap_singleton reading word).symm
    | cons next later =>
      rw [join_append (List.cons_ne_nil next later), isSplit _ _ _ isSpace_blank,
        ih]
      rfl

end Reading

end Murage.Library.Spacing
