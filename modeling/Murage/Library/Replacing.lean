import Mathlib.Data.List.Infix
import Murage.Library.Utf16

/-!
Owns: patterns over texts of UTF-16 code units (classes of ASCII units, sequence, choice and the
word boundary) and the replacement of all their matches, as JavaScript's `replace` with a global
expression does it. A pattern carries two laws: it reads over no white space, and it cannot tell
one unit outside ASCII from another. Both are inherited by the replacement.

Does not own: expressions that must give units back to match (a run takes all it can).
-/

namespace Murage.Library.Replacing

open Murage.Library.Utf16

/-! ### Classes of code units -/

/-- `\s`, which is also what `trim` takes away. -/
def isSpace (c : UInt16) : Bool :=
  (9 ≤ c && c ≤ 13) || c == 0x20 || c == 0xa0 || c == 0x1680 || (0x2000 ≤ c && c ≤ 0x200a) ||
    c == 0x2028 || c == 0x2029 || c == 0x202f || c == 0x205f || c == 0x3000 || c == 0xfeff

/-- `[0-9]` -/
def isDigit (c : UInt16) : Bool := unit '0' ≤ c && c ≤ unit '9'

/-- `[a-z]` -/
def isLower (c : UInt16) : Bool := unit 'a' ≤ c && c ≤ unit 'z'

/-- `[A-Z]` -/
def isUpper (c : UInt16) : Bool := unit 'A' ≤ c && c ≤ unit 'Z'

/-- `\w`, the units of a word as `\b` counts them. -/
def isWord (c : UInt16) : Bool := isLower c || isUpper c || isDigit c || c == unit '_'

/-- What a unit is when only ASCII and white space are told apart. -/
def seen (c : UInt16) : UInt16 := if c < 128 || isSpace c then c else 0xfffd

/-- A class of ASCII units without white space. -/
structure Class where
  holds : UInt16 → Bool
  ascii : ∀ c, holds c = true → c < 128
  notSpace : ∀ c, isSpace c = true → holds c = false

theorem isWord_ascii {c : UInt16} (isHeld : isWord c = true) : c < 128 := by
  simp only [isWord, isLower, isUpper, isDigit, Bool.or_eq_true, Bool.and_eq_true,
    decide_eq_true_eq, beq_iff_eq, UInt16.le_iff_toNat_le, ← UInt16.toNat_inj] at isHeld
  rw [UInt16.lt_iff_toNat_lt]
  have : (unit 'z').toNat = 122 := rfl
  have : (unit 'Z').toNat = 90 := rfl
  have : (unit '9').toNat = 57 := rfl
  have : (unit '_').toNat = 95 := rfl
  have : (128 : UInt16).toNat = 128 := rfl
  omega

theorem isSpace_not_word {c : UInt16} (isStop : isSpace c = true) : isWord c = false := by
  rw [Bool.eq_false_iff]
  intro isHeld
  simp only [isSpace, isWord, isLower, isUpper, isDigit, Bool.or_eq_true, Bool.and_eq_true,
    decide_eq_true_eq, beq_iff_eq, UInt16.le_iff_toNat_le, ← UInt16.toNat_inj] at isHeld isStop
  have : (unit 'a').toNat = 97 := rfl
  have : (unit 'A').toNat = 65 := rfl
  have : (unit '0').toNat = 48 := rfl
  have : (unit 'z').toNat = 122 := rfl
  have : (unit 'Z').toNat = 90 := rfl
  have : (unit '9').toNat = 57 := rfl
  have : (unit '_').toNat = 95 := rfl
  simp only [UInt16.reduceToNat] at isStop
  omega

theorem seen_eq {c d : UInt16} (isSame : seen c = seen d) :
    c = d ∨ ((¬c < 128 ∧ isSpace c = false) ∧ ¬d < 128 ∧ isSpace d = false) := by
  have stays : ∀ c : UInt16, (c < 128 || isSpace c) = true → seen c = c := fun c isPlain => if_pos isPlain
  have hides : ∀ c : UInt16, (c < 128 || isSpace c) ≠ true → seen c = 0xfffd :=
    fun c isOther => if_neg isOther
  have outside : ¬((0xfffd : UInt16) < 128 || isSpace 0xfffd) = true := by decide
  have splits : ∀ c : UInt16, ¬(c < 128 || isSpace c) = true → ¬c < 128 ∧ isSpace c = false := by
    intro c isOther
    rw [Bool.or_eq_true, decide_eq_true_eq, not_or, Bool.not_eq_true] at isOther
    exact isOther
  by_cases isPlain : (c < 128 || isSpace c) = true
  · rw [stays c isPlain] at isSame
    by_cases isOtherPlain : (d < 128 || isSpace d) = true
    · rw [stays d isOtherPlain] at isSame
      exact .inl isSame
    · rw [hides d isOtherPlain] at isSame
      exact absurd (isSame ▸ isPlain) outside
  · rw [hides c isPlain] at isSame
    by_cases isOtherPlain : (d < 128 || isSpace d) = true
    · rw [stays d isOtherPlain] at isSame
      exact absurd (isSame ▸ isOtherPlain) outside
    · exact .inr ⟨splits c isPlain, splits d isOtherPlain⟩

theorem isWord_seen {c d : UInt16} (isSame : seen c = seen d) : isWord c = isWord d := by
  rcases seen_eq isSame with rfl | ⟨⟨isOther, -⟩, isOtherToo, -⟩
  · rfl
  · rw [Bool.eq_false_iff.mpr fun isHeld => isOther (isWord_ascii isHeld),
      Bool.eq_false_iff.mpr fun isHeld => isOtherToo (isWord_ascii isHeld)]

namespace Class

variable (of : Class)

theorem seen {c d : UInt16} (isSame : seen c = seen d) : of.holds c = of.holds d := by
  rcases seen_eq isSame with rfl | ⟨⟨isOther, -⟩, isOtherToo, -⟩
  · rfl
  · rw [Bool.eq_false_iff.mpr fun isHeld => isOther (of.ascii c isHeld),
      Bool.eq_false_iff.mpr fun isHeld => isOtherToo (of.ascii d isHeld)]

theorem seen_holds {c d : UInt16} (isSame : Replacing.seen c = Replacing.seen d)
    (isHeld : of.holds c = true) : c = d := by
  rcases seen_eq isSame with rfl | ⟨⟨isOther, -⟩, -⟩
  · rfl
  · exact absurd (of.ascii c isHeld) isOther

/-- A class of units that `\w` has too. -/
def ofWord (holds : UInt16 → Bool) (isIn : ∀ c, holds c = true → isWord c = true) : Class where
  holds := holds
  ascii c isHeld := isWord_ascii (isIn c isHeld)
  notSpace c isStop := by
    rw [Bool.eq_false_iff]
    intro isHeld
    exact absurd (isIn c isHeld) (isSpace_not_word isStop ▸ Bool.false_ne_true)

def digit : Class := ofWord isDigit fun c isHeld => by
  rw [isWord, isHeld, Bool.or_true, Bool.true_or]

def lower : Class := ofWord isLower fun c isHeld => by
  rw [isWord, isHeld, Bool.true_or, Bool.true_or, Bool.true_or]

/-- One unit alone. -/
def only (c : UInt16) (isPlain : (c < 128 && !isSpace c) = true) : Class where
  holds other := other == c
  ascii other isHeld := by
    rw [Bool.and_eq_true, decide_eq_true_eq] at isPlain
    exact beq_iff_eq.mp isHeld ▸ isPlain.1
  notSpace other isStop := by
    rw [beq_eq_false_iff_ne]
    rintro rfl
    rw [isStop, Bool.not_true, Bool.and_false] at isPlain
    exact absurd isPlain (by decide)

end Class

/-! ### Patterns -/

/-- A match: what it gives, whether the unit before the rest is one of a word, and the rest. -/
structure Matched (β : Type) where
  value : β
  before : Bool
  rest : Text

namespace Matched

variable {β : Type}

def followed (found : Matched β) (more : Text) : Matched β :=
  { found with rest := found.rest ++ more }

def view (found : Matched β) : β × Bool × Text :=
  (found.value, found.before, found.rest.map seen)

end Matched

/-- A pattern at the head of a text, when `before` says whether a unit of a word is before it. -/
structure Pattern (β : Type) where
  read : (before : Bool) → Text → Option (Matched β)
  atSpace : ∀ before text stop more, isSpace stop = true →
    read before (text ++ stop :: more) = (read before text).map (·.followed (stop :: more))
  unseen : ∀ before text other, text.map seen = other.map seen →
    (read before text).map Matched.view = (read before other).map Matched.view

namespace Pattern

variable {β γ : Type}

def give (value : β) : Pattern β where
  read before text := some ⟨value, before, text⟩
  atSpace _ _ _ _ _ := rfl
  unseen before text other isSame := by
    rw [Option.map_some, Option.map_some, Matched.view, Matched.view, isSame]

def andThen (first : Pattern β) (second : β → Pattern γ) : Pattern γ where
  read before text := (first.read before text).bind fun found =>
    (second found.value).read found.before found.rest
  atSpace before text stop more isStop := by
    rw [first.atSpace before text stop more isStop]
    cases first.read before text with
    | none => rfl
    | some found => exact (second found.value).atSpace found.before found.rest stop more isStop
  unseen before text other isSame := by
    have isFirst := first.unseen before text other isSame
    cases isFound : first.read before text with
    | none =>
      rw [isFound, Option.map_none, eq_comm, Option.map_eq_none_iff] at isFirst
      rw [isFirst]
    | some found =>
      rw [isFound, Option.map_some, eq_comm, Option.map_eq_some_iff] at isFirst
      obtain ⟨foundToo, isFoundToo, isView⟩ := isFirst
      rw [isFoundToo]
      rw [Matched.view, Matched.view, Prod.mk.injEq, Prod.mk.injEq] at isView
      obtain ⟨isValue, isBefore, isRest⟩ := isView
      have isSecond := (second found.value).unseen found.before found.rest foundToo.rest isRest.symm
      rw [Option.bind_some, Option.bind_some, isValue, isBefore]
      exact isSecond

instance : Monad Pattern where
  pure := give
  bind := andThen

def either (first second : Pattern β) : Pattern β where
  read before text := (first.read before text).or (second.read before text)
  atSpace before text stop more isStop := by
    rw [first.atSpace before text stop more isStop, second.atSpace before text stop more isStop,
      Option.map_or]
  unseen before text other isSame := by
    rw [Option.map_or, Option.map_or, first.unseen before text other isSame,
      second.unseen before text other isSame]

def one (of : Class) : Pattern UInt16 where
  read _ text := text.head?.bind fun c =>
    if of.holds c then some ⟨c, isWord c, text.tail⟩ else none
  atSpace before text stop more isStop := by
    cases text with
    | nil =>
      show (if of.holds stop then _ else _) = _
      rw [of.notSpace stop isStop]
      rfl
    | cons c rest =>
      show (if of.holds c then _ else _) = Option.map _ (if of.holds c then _ else _)
      cases of.holds c <;> rfl
  unseen before text other isSame := by
    cases text with
    | nil =>
      rw [List.map_nil, eq_comm, List.map_eq_nil_iff] at isSame
      rw [isSame]
    | cons c rest =>
      cases other with
      | nil => rw [List.map_nil, List.map_eq_nil_iff] at isSame; exact nomatch isSame
      | cons d others =>
        rw [List.map_cons, List.map_cons, List.cons.injEq] at isSame
        show Option.map _ (if of.holds c then _ else _) = Option.map _ (if of.holds d then _ else _)
        rw [of.seen isSame.1]
        by_cases isHeld : of.holds d = true
        · obtain rfl := of.seen_holds isSame.1.symm isHeld
          rw [if_pos isHeld, if_pos isHeld, Option.map_some, Option.map_some, Matched.view,
            Matched.view]
          exact congrArg (fun text => some (d, isWord d, text)) isSame.2
        · rw [if_neg isHeld, if_neg isHeld]

/-- `\b` -/
def boundary : Pattern Unit where
  read before text := if before != text.head?.any isWord then some ⟨(), before, text⟩ else none
  atSpace before text stop more isStop := by
    cases text with
    | nil =>
      show (if before != isWord stop then _ else _) = Option.map _ (if before != false then _ else _)
      rw [isSpace_not_word isStop]
      split <;> rfl
    | cons c rest =>
      show (if before != isWord c then _ else _) = Option.map _ (if before != isWord c then _ else _)
      split <;> rfl
  unseen before text other isSame := by
    have isHead : text.head?.any isWord = other.head?.any isWord := by
      cases text with
      | nil =>
        rw [List.map_nil, eq_comm, List.map_eq_nil_iff] at isSame
        rw [isSame]
      | cons c rest =>
        cases other with
        | nil => rw [List.map_nil, List.map_eq_nil_iff] at isSame; exact nomatch isSame
        | cons d others =>
          rw [List.map_cons, List.map_cons, List.cons.injEq] at isSame
          exact isWord_seen isSame.1
    rw [isHead]
    split
    · rw [Option.map_some, Option.map_some, Matched.view, Matched.view, isSame]
    · rfl

def run (of : Class) : Pattern Text where
  read _ text := (text.takeWhile of.holds).getLast?.map fun last =>
    ⟨text.takeWhile of.holds, isWord last, text.dropWhile of.holds⟩
  atSpace before text stop more isStop := by
    have isRun : (text ++ stop :: more).takeWhile of.holds = text.takeWhile of.holds ∧
        (text ++ stop :: more).dropWhile of.holds = text.dropWhile of.holds ++ stop :: more := by
      induction text with
      | nil =>
        show (match of.holds stop with | true => _ | false => _) = _ ∧
          (match of.holds stop with | true => _ | false => _) = _
        rw [of.notSpace stop isStop]
        exact ⟨rfl, rfl⟩
      | cons c rest ih =>
        rw [List.cons_append, List.takeWhile_cons, List.dropWhile_cons, List.takeWhile_cons,
          List.dropWhile_cons, ih.1, ih.2]
        cases of.holds c <;> exact ⟨rfl, rfl⟩
    rw [isRun.1, isRun.2, Option.map_map]
    rfl
  unseen before text other isSame := by
    have isRun : text.takeWhile of.holds = other.takeWhile of.holds ∧
        (text.dropWhile of.holds).map seen = (other.dropWhile of.holds).map seen := by
      induction text generalizing other with
      | nil =>
        rw [List.map_nil, eq_comm, List.map_eq_nil_iff] at isSame
        rw [isSame]
        exact ⟨rfl, rfl⟩
      | cons c rest ih =>
        cases other with
        | nil => rw [List.map_nil, List.map_eq_nil_iff] at isSame; exact nomatch isSame
        | cons d others =>
          rw [List.map_cons, List.map_cons, List.cons.injEq] at isSame
          rw [List.takeWhile_cons, List.dropWhile_cons, List.takeWhile_cons,
            List.dropWhile_cons, of.seen isSame.1]
          by_cases isHeld : of.holds d = true
          · obtain rfl := of.seen_holds isSame.1.symm isHeld
            obtain ⟨isTaken, isLeft⟩ := ih others isSame.2
            rw [if_pos isHeld, if_pos isHeld, if_pos isHeld, if_pos isHeld, isTaken]
            exact ⟨rfl, isLeft⟩
          · rw [if_neg isHeld, if_neg isHeld, if_neg isHeld, if_neg isHeld, List.map_cons,
              List.map_cons, isSame.1, isSame.2]
            exact ⟨rfl, rfl⟩
    rw [isRun.1]
    cases (other.takeWhile of.holds).getLast? with
    | none => rfl
    | some last =>
      rw [Option.map_some, Option.map_some, Option.map_some, Option.map_some, Matched.view,
        Matched.view, isRun.2]

def literal : (fixed : Text) → (fixed.all fun c => c < 128 && !isSpace c) = true → Pattern Unit
  | [], _ => give ()
  | c :: rest, isPlain => do
      let _ ← one (.only c (Bool.and_eq_true_iff.mp (List.all_cons ▸ isPlain)).1)
      literal rest (Bool.and_eq_true_iff.mp (List.all_cons ▸ isPlain)).2

/-- A literal matches where it is the beginning, and leaves what comes after it. -/
theorem literal_read {fixed : Text} (isPlain) (before : Bool) (text : Text) :
    (literal fixed isPlain).read before text =
      if fixed <+: text then
        some ⟨(), (fixed.getLast?.map isWord).getD before, text.drop fixed.length⟩
      else none := by
  induction fixed generalizing before text with
  | nil =>
    rw [if_pos List.nil_prefix]
    rfl
  | cons c fixed ih =>
    cases text with
    | nil =>
      have isEmpty : ¬c :: fixed <+: [] := fun isHead =>
        absurd (List.prefix_nil.mp isHead) (List.cons_ne_nil c fixed)
      rw [if_neg isEmpty]
      rfl
    | cons d rest =>
      show (if (d == c) = true then _ else none : Option (Matched UInt16)).bind _ = _
      by_cases isSame : d = c
      · obtain rfl := isSame
        rw [if_pos (beq_self_eq_true d), Option.bind_some]
        show (literal fixed _).read (isWord d) rest = _
        rw [ih]
        have isHead : d :: fixed <+: d :: rest ↔ fixed <+: rest := by
          rw [List.cons_prefix_cons]
          exact ⟨And.right, fun isHead => ⟨rfl, isHead⟩⟩
        by_cases isRest : fixed <+: rest
        · rw [if_pos isRest, if_pos (isHead.mpr isRest)]
          cases isLast : fixed.getLast? with
          | none =>
            rw [List.getLast?_eq_none_iff] at isLast
            rw [isLast]
            rfl
          | some last => rw [List.getLast?_cons, isLast]; rfl
        · rw [if_neg isRest, if_neg (isHead.not.mpr isRest)]
      · rw [if_neg (fun isEq => isSame (beq_iff_eq.mp isEq)),
          if_neg (fun isHead => isSame (List.cons_prefix_cons.mp isHead).1.symm)]
        rfl

end Pattern

/-! ### Replacing -/

/-- A text after all matches of a pattern were replaced by what the pattern gives for them;
`skip` units of it are the rest of a match. -/
def replaceFrom (pattern : Pattern Text) : (skip : Nat) → (before : Bool) → Text → Text
  | _, _, [] => []
  | skip + 1, _, c :: rest => replaceFrom pattern skip (isWord c) rest
  | 0, before, c :: rest =>
    match pattern.read before (c :: rest) with
    | some found =>
      found.value ++ replaceFrom pattern (rest.length - found.rest.length) (isWord c) rest
    | none => c :: replaceFrom pattern 0 (isWord c) rest

def replaceAll (pattern : Pattern Text) (text : Text) : Text := replaceFrom pattern 0 false text

variable {pattern : Pattern Text}

variable {before : Bool}

theorem replaceFrom_none {c : UInt16} {rest : Text}
    (isNone : pattern.read before (c :: rest) = none) :
    replaceFrom pattern 0 before (c :: rest) = c :: replaceFrom pattern 0 (isWord c) rest := by
  rw [replaceFrom, isNone]

theorem replaceFrom_some {c : UInt16} {rest : Text} {found : Matched Text}
    (isFound : pattern.read before (c :: rest) = some found) :
    replaceFrom pattern 0 before (c :: rest) =
      found.value ++ replaceFrom pattern (rest.length - found.rest.length) (isWord c) rest := by
  rw [replaceFrom, isFound]

variable {text : Text}

theorem replaceFrom_skipped {skip : Nat} (isSkipped : text.length ≤ skip) :
    replaceFrom pattern skip before text = [] := by
  induction text generalizing skip before with
  | nil => rfl
  | cons c rest ih =>
    cases skip with
    | zero => exact absurd isSkipped (Nat.not_succ_le_zero _)
    | succ skip => exact ih (Nat.le_of_succ_le_succ isSkipped)

/-- No match runs over white space, and none begins at it, so the texts on its two sides are replaced
each for itself. -/
theorem replaceFrom_atSpace (isNever : ∀ before, pattern.read before [] = none) {stop : UInt16}
    (isStop : isSpace stop = true) (more : Text) {skip : Nat} (isWithin : skip ≤ text.length) :
    replaceFrom pattern skip before (text ++ stop :: more) =
      replaceFrom pattern skip before text ++ stop :: replaceFrom pattern 0 false more := by
  induction text generalizing skip before with
  | nil =>
    obtain rfl := Nat.le_zero.mp isWithin
    have isNone : pattern.read before (stop :: more) = none := by
      have isRead := pattern.atSpace before [] stop more isStop
      rw [isNever before] at isRead
      exact isRead
    rw [List.nil_append, replaceFrom_none isNone, isSpace_not_word isStop]
    rfl
  | cons c rest ih =>
    rw [List.length_cons] at isWithin
    rw [List.cons_append]
    cases skip with
    | succ skip => exact ih (Nat.le_of_succ_le_succ isWithin)
    | zero =>
      have isRead := pattern.atSpace before (c :: rest) stop more isStop
      rw [List.cons_append] at isRead
      cases isFound : pattern.read before (c :: rest) with
      | none =>
        rw [isFound] at isRead
        rw [replaceFrom_none isRead, replaceFrom_none isFound,
          ih (Nat.zero_le _), List.cons_append]
      | some found =>
        rw [isFound] at isRead
        have isSkip : (rest ++ stop :: more).length - (found.rest ++ stop :: more).length =
            rest.length - found.rest.length := by
          rw [List.length_append, List.length_append]
          omega
        rw [replaceFrom_some isRead, replaceFrom_some isFound]
        show found.value ++ replaceFrom pattern ((rest ++ stop :: more).length -
          (found.rest ++ stop :: more).length) (isWord c) (rest ++ stop :: more) = _
        rw [isSkip, ih (Nat.sub_le _ _), List.append_assoc]

theorem replaceAll_atSpace (isNever : ∀ before, pattern.read before [] = none) {stop : UInt16}
    (isStop : isSpace stop = true) (text more : Text) :
    replaceAll pattern (text ++ stop :: more) =
      replaceAll pattern text ++ stop :: replaceAll pattern more :=
  replaceFrom_atSpace isNever isStop more (Nat.zero_le _)

variable {other : Text}

theorem replaceFrom_seen {skip : Nat} (isSame : text.map seen = other.map seen) :
    (replaceFrom pattern skip before text).map seen =
      (replaceFrom pattern skip before other).map seen := by
  induction text generalizing skip before other with
  | nil =>
    rw [List.map_nil, eq_comm, List.map_eq_nil_iff] at isSame
    rw [isSame]
  | cons c rest ih =>
    cases other with
    | nil => rw [List.map_nil, List.map_eq_nil_iff] at isSame; exact nomatch isSame
    | cons d others =>
      have isRead := pattern.unseen before (c :: rest) (d :: others) isSame
      rw [List.map_cons, List.map_cons, List.cons.injEq] at isSame
      cases skip with
      | succ skip =>
        rw [replaceFrom, replaceFrom, isWord_seen isSame.1]
        exact ih isSame.2
      | zero =>
        cases isFound : pattern.read before (c :: rest) with
        | none =>
          rw [isFound, Option.map_none, eq_comm, Option.map_eq_none_iff] at isRead
          rw [replaceFrom_none isFound, replaceFrom_none isRead, List.map_cons,
            List.map_cons, isSame.1, isWord_seen isSame.1, ih isSame.2]
        | some found =>
          rw [isFound, Option.map_some, eq_comm, Option.map_eq_some_iff] at isRead
          obtain ⟨foundToo, isFoundToo, isView⟩ := isRead
          rw [Matched.view, Matched.view, Prod.mk.injEq, Prod.mk.injEq] at isView
          have isRest := congrArg List.length isView.2.2
          have isLength := congrArg List.length isSame.2
          rw [List.length_map, List.length_map] at isRest isLength
          rw [replaceFrom_some isFound, replaceFrom_some isFoundToo, List.map_append,
            List.map_append, isView.1, isRest, isLength, isWord_seen isSame.1,
            ih isSame.2]

theorem replaceAll_seen (isSame : text.map seen = other.map seen) :
    (replaceAll pattern text).map seen = (replaceAll pattern other).map seen :=
  replaceFrom_seen isSame

/-- A pattern that matches nowhere in a text leaves it as it is. -/
theorem replaceFrom_unmatched
    (isNever : ∀ before rest, rest <:+ text → rest ≠ [] → pattern.read before rest = none) :
    replaceFrom pattern 0 before text = text := by
  induction text generalizing before with
  | nil => rfl
  | cons c rest ih =>
    rw [replaceFrom_none (isNever before _ List.suffix_rfl (List.cons_ne_nil c rest)),
      ih fun before other isEnd =>
        isNever before other (isEnd.trans (List.suffix_cons c rest))]

/-- The same inside a word, where no boundary is. -/
theorem replaceFrom_inside (isInside : ∀ c ∈ text, isWord c = true)
    (isNever : ∀ rest, rest <:+ text → rest ≠ [] → pattern.read true rest = none) :
    replaceFrom pattern 0 true text = text := by
  induction text with
  | nil => rfl
  | cons c rest ih =>
    rw [List.forall_mem_cons] at isInside
    rw [replaceFrom_none (isNever _ List.suffix_rfl (List.cons_ne_nil c rest)), isInside.1,
      ih isInside.2 fun other isEnd =>
        isNever other (isEnd.trans (List.suffix_cons c rest))]

/-- One replacement after another. -/
def replaceEach (patterns : List (Pattern Text)) (text : Text) : Text :=
  patterns.foldl (fun text pattern => replaceAll pattern text) text

theorem replaceEach_atSpace {patterns : List (Pattern Text)}
    (isNever : ∀ pattern ∈ patterns, ∀ before, pattern.read before [] = none) {stop : UInt16}
    (isStop : isSpace stop = true) (text more : Text) :
    replaceEach patterns (text ++ stop :: more) =
      replaceEach patterns text ++ stop :: replaceEach patterns more := by
  induction patterns generalizing text more with
  | nil => rfl
  | cons pattern patterns ih =>
    rw [List.forall_mem_cons] at isNever
    rw [replaceEach, List.foldl_cons, replaceAll_atSpace isNever.1 isStop]
    exact ih isNever.2 _ _

theorem replaceEach_seen (patterns : List (Pattern Text)) (isSame : text.map seen = other.map seen) :
    (replaceEach patterns text).map seen = (replaceEach patterns other).map seen := by
  induction patterns generalizing text other with
  | nil => exact isSame
  | cons pattern patterns ih => exact ih (replaceAll_seen isSame)

/-- A function of units that cannot tell them apart either maps the two texts alike. -/
theorem map_of_seen {β : Type} {f : UInt16 → β} (isBlind : ∀ c d, seen c = seen d → f c = f d)
    (isSame : text.map seen = other.map seen) : text.map f = other.map f := by
  induction text generalizing other with
  | nil =>
    rw [List.map_nil, eq_comm, List.map_eq_nil_iff] at isSame
    rw [isSame]
  | cons c rest ih =>
    cases other with
    | nil => rw [List.map_nil, List.map_eq_nil_iff] at isSame; exact nomatch isSame
    | cons d others =>
      rw [List.map_cons, List.map_cons, List.cons.injEq] at isSame
      rw [List.map_cons, List.map_cons, isBlind c d isSame.1, ih isSame.2]

/-- So does a filter that cannot tell them apart. -/
theorem filter_of_seen {kept : UInt16 → Bool} (isBlind : ∀ c d, seen c = seen d → kept c = kept d)
    (isSame : text.map seen = other.map seen) :
    (text.filter kept).map seen = (other.filter kept).map seen := by
  induction text generalizing other with
  | nil =>
    rw [List.map_nil, eq_comm, List.map_eq_nil_iff] at isSame
    rw [isSame]
  | cons c rest ih =>
    cases other with
    | nil => rw [List.map_nil, List.map_eq_nil_iff] at isSame; exact nomatch isSame
    | cons d others =>
      rw [List.map_cons, List.map_cons, List.cons.injEq] at isSame
      rw [List.filter_cons, List.filter_cons, isBlind c d isSame.1]
      split
      · rw [List.map_cons, List.map_cons, isSame.1, ih isSame.2]
      · exact ih isSame.2

end Murage.Library.Replacing
