import Mathlib.Data.List.Basic
import Mathlib.Tactic.Common

/-!
Owns the texts of statements as a database reads them: how parameters are numbered and bound,
where a word outside of all brackets cuts a text, and when a row meets a condition, in
three-valued logic, where AND binds tighter than OR. A text is its tokens: blanks and the case
of keywords are gone.
It names no statement.
-/

namespace Murage.Library.SqlText

inductive Keyword where
  | UPDATE
  | DELETE
  | INSERT
  | VALUES
  | SELECT
  | WHERE
  | ON
  | CONFLICT
  | RETURNING
  | AND
  | OR
  | BETWEEN
  | CASE
  | END
deriving DecidableEq, Repr

inductive Value where
  | null
  | integer (n : Int)
  | text (s : String)
deriving DecidableEq, Repr

inductive Tok where
  | keyword (keyword : Keyword)
  /-- A name, a number or an operator. -/
  | word (word : String)
  | literal (text : String)
  /-- A parameter, `?` or, numbered from zero here, `?NNN`. -/
  | param (number : Option Nat)
  /-- What a parameter was bound to. -/
  | value (value : Value)
  | opening
  | closing
  | semicolon
deriving DecidableEq, Repr

abbrev Text := List Tok

/-! ## Parameters -/

/-- How many binds a text needs after a token. `?` takes the number after the largest so far. -/
def Tok.largest (last : Nat) : Tok → Nat
  | .param none => last + 1
  | .param (some number) => max last (number + 1)
  | _ => last

def largest : Nat → Text → Nat
  | last, [] => last
  | last, t :: rest => largest (t.largest last) rest

def Tok.bound (binds : List Value) (last : Nat) : Tok → Tok
  | .param none => .value (binds[last]?.getD .null)
  | .param (some number) => .value (binds[number]?.getD .null)
  | t => t

def bound (binds : List Value) : Nat → Text → Text
  | _, [] => []
  | last, t :: rest => t.bound binds last :: bound binds (t.largest last) rest

def Plain (text : Text) : Prop := ∀ t ∈ text, ∀ number, t ≠ .param (some number)

instance (text : Text) : Decidable (Plain text) :=
  decidable_of_iff (text.all fun t => match t with
    | .param (some _) => false
    | _ => true) (by
      unfold Plain
      rw [List.all_eq_true]
      refine forall₂_congr fun t _ => ?_
      cases t with
      | param number => cases number <;> simp
      | _ => simp)

section

variable {binds : List Value} {xs : Text} {last : Nat}

theorem largest_append (last : Nat) (xs ys : Text) :
    largest last (xs ++ ys) = largest (largest last xs) ys := by
  induction xs generalizing last with
  | nil => rfl
  | cons t rest ih => exact ih (t.largest last)

theorem bound_append (binds : List Value) (last : Nat) (xs ys : Text) :
    bound binds last (xs ++ ys) = bound binds last xs ++ bound binds (largest last xs) ys := by
  induction xs generalizing last with
  | nil => rfl
  | cons t rest ih =>
    simp only [List.cons_append, bound, ih, largest]

theorem Tok.le_largest (last : Nat) (t : Tok) : last ≤ t.largest last := by
  cases t with
  | param number =>
    cases number with
    | none => exact Nat.le_succ last
    | some number => exact Nat.le_max_left last (number + 1)
  | _ => exact Nat.le_refl last

theorem le_largest (last : Nat) (xs : Text) : last ≤ largest last xs := by
  induction xs generalizing last with
  | nil => exact Nat.le_refl last
  | cons t rest ih =>
    exact Nat.le_trans (t.le_largest last) (ih (t.largest last))

/-- Binds after those a text uses do not reach it. -/
theorem bound_more (more : List Value) (enough : largest last xs ≤ binds.length) :
    bound (binds ++ more) last xs = bound binds last xs := by
  induction xs generalizing last with
  | nil => rfl
  | cons t rest ih =>
    have covers : t.largest last ≤ binds.length := Nat.le_trans (le_largest _ rest) enough
    simp only [bound, ih enough]
    congr 1
    cases t with
    | param number =>
      cases number with
      | none =>
        have isIn : last < binds.length := covers
        simp only [Tok.bound, List.getElem?_append_left isIn]
      | some number =>
        have isIn : number < binds.length := Nat.le_trans (Nat.le_max_right _ _) covers
        simp only [Tok.bound, List.getElem?_append_left isIn]
    | _ => rfl

/-- Where parameters have no numbers, binds before theirs move them along. -/
theorem bound_shift (before binds : List Value) (last : Nat) (plain : Plain xs) :
    bound (before ++ binds) (before.length + last) xs = bound binds last xs := by
  induction xs generalizing last with
  | nil => rfl
  | cons t rest ih =>
    have plainRest : Plain rest := fun u isIn => plain u (List.mem_cons_of_mem t isIn)
    cases t with
    | param number =>
      cases number with
      | none =>
        have isHere : (before ++ binds)[before.length + last]? = binds[last]? := by
          rw [List.getElem?_append_right (Nat.le_add_right _ _), Nat.add_sub_cancel_left]
        simp only [bound, Tok.bound, Tok.largest, isHere, Nat.add_assoc,
          ih _ plainRest]
      | some number => exact absurd rfl (plain _ List.mem_cons_self number)
    | _ => simp only [bound, Tok.bound, Tok.largest, ih _ plainRest]

theorem largest_shift (before last : Nat) (plain : Plain xs) :
    largest (before + last) xs = before + largest last xs := by
  induction xs generalizing last with
  | nil => rfl
  | cons t rest ih =>
    have plainRest : Plain rest := fun u isIn => plain u (List.mem_cons_of_mem t isIn)
    cases t with
    | param number =>
      cases number with
      | none => simp only [largest, Tok.largest, Nat.add_assoc, ih _ plainRest]
      | some number => exact absurd rfl (plain _ List.mem_cons_self number)
    | _ => simp only [largest, Tok.largest, ih _ plainRest]

end

/-! ## Cuts outside of all brackets -/

/-- The depth after a token. `CASE ... END` brackets what it holds. -/
def Tok.depth (depth : Nat) : Tok → Nat
  | .opening => depth + 1
  | .keyword .CASE => depth + 1
  | .closing => depth - 1
  | .keyword .END => depth - 1
  | _ => depth

def closes : Nat → Text → Bool
  | depth, [] => depth == 0
  | depth, t :: rest =>
    if depth = 0 ∧ (t = .closing ∨ t = .keyword .END) then false else closes (t.depth depth) rest

/-- The text before the first token outside of all brackets that stops it, and the rest from
there. -/
def upTo (stops : Tok → Bool) : Nat → Text → Text × Text
  | _, [] => ([], [])
  | depth, t :: rest =>
    if depth = 0 ∧ stops t = true then ([], t :: rest)
    else (t :: (upTo stops (t.depth depth) rest).1, (upTo stops (t.depth depth) rest).2)

def onHead (t : Tok) : List Text → List Text
  | [] => [[t]]
  | piece :: pieces => (t :: piece) :: pieces

/-- What OR holds apart. -/
def disjuncts : Nat → Text → List Text
  | _, [] => [[]]
  | depth, t :: rest =>
    if depth = 0 ∧ t = .keyword .OR then [] :: disjuncts 0 rest
    else onHead t (disjuncts (t.depth depth) rest)

/-- What AND holds apart, except the AND of a BETWEEN. -/
def factors : Nat → Nat → Text → List Text
  | _, _, [] => [[]]
  | depth, betweens, t :: rest =>
    if depth = 0 ∧ t = .keyword .AND then
      match betweens with
      | 0 => [] :: factors 0 0 rest
      | betweens + 1 => onHead t (factors 0 betweens rest)
    else if depth = 0 ∧ t = .keyword .BETWEEN then onHead t (factors 0 (betweens + 1) rest)
    else onHead t (factors (t.depth depth) betweens rest)

/-- The BETWEENs that still wait for their AND. -/
def waiting : Nat → Nat → Text → Nat
  | _, betweens, [] => betweens
  | depth, betweens, t :: rest =>
    if depth = 0 ∧ t = .keyword .AND then waiting 0 (betweens - 1) rest
    else if depth = 0 ∧ t = .keyword .BETWEEN then waiting 0 (betweens + 1) rest
    else waiting (t.depth depth) betweens rest

section

variable {stops : Tok → Bool} {xs ys : Text} {depth betweens : Nat}

theorem closes_append (isClosed : closes depth xs = true) : closes depth (xs ++ ys) = closes 0 ys := by
  induction xs generalizing depth with
  | nil =>
    have isZero : depth = 0 := beq_iff_eq.mp isClosed
    rw [isZero, List.nil_append]
  | cons t rest ih =>
    rw [List.cons_append, closes]
    rw [closes] at isClosed
    split_ifs at isClosed ⊢
    exact ih isClosed

theorem upTo_parts (stops : Tok → Bool) (depth : Nat) (xs : Text) :
    (upTo stops depth xs).1 ++ (upTo stops depth xs).2 = xs := by
  induction xs generalizing depth with
  | nil => rfl
  | cons t rest ih =>
    rw [upTo]
    split_ifs
    · rfl
    · exact congrArg (t :: ·) (ih (t.depth depth))

/-- Nothing stops a text inside of brackets. -/
theorem upTo_bracketed (stops : Tok → Bool) (isClosed : closes depth xs = true) :
    upTo stops (depth + 1) (xs ++ .closing :: ys) =
      (xs ++ .closing :: (upTo stops 0 ys).1, (upTo stops 0 ys).2) := by
  induction xs generalizing depth with
  | nil =>
    have isZero : depth = 0 := beq_iff_eq.mp isClosed
    subst isZero
    rfl
  | cons t rest ih =>
    rw [closes] at isClosed
    rw [List.cons_append, upTo, if_neg (fun isTop => Nat.succ_ne_zero depth isTop.1)]
    split_ifs at isClosed with isUnopened
    have deeper : t.depth (depth + 1) = t.depth depth + 1 := by
      cases t with
      | closing =>
        have isOpen : depth ≠ 0 := fun isZero => isUnopened ⟨isZero, Or.inl rfl⟩
        exact (Nat.sub_add_cancel (Nat.pos_of_ne_zero isOpen)).symm
      | keyword found =>
        cases found with
        | END =>
          have isOpen : depth ≠ 0 := fun isZero => isUnopened ⟨isZero, Or.inr rfl⟩
          exact (Nat.sub_add_cancel (Nat.pos_of_ne_zero isOpen)).symm
        | _ => rfl
      | _ => rfl
    rw [deeper, ih isClosed]
    rfl

/-- A text that nothing stops goes on into what follows it. -/
theorem upTo_append (isClosed : closes depth xs = true) (isFree : (upTo stops depth xs).2 = []) :
    upTo stops depth (xs ++ ys) = (xs ++ (upTo stops 0 ys).1, (upTo stops 0 ys).2) := by
  induction xs generalizing depth with
  | nil =>
    have isZero : depth = 0 := beq_iff_eq.mp isClosed
    rw [isZero]
    rfl
  | cons t rest ih =>
    rw [upTo] at isFree
    rw [closes] at isClosed
    rw [List.cons_append, upTo]
    split_ifs at isFree isClosed ⊢
    rw [ih isClosed isFree]
    rfl

/-- A text that something stops is stopped there, whatever follows. -/
theorem upTo_stopped {before after : Text} {t : Tok}
    (isStopped : upTo stops depth xs = (before, t :: after)) :
    upTo stops depth (xs ++ ys) = (before, t :: (after ++ ys)) := by
  induction xs generalizing depth before with
  | nil => cases isStopped
  | cons u rest ih =>
    rw [upTo] at isStopped
    rw [List.cons_append, upTo]
    split_ifs at isStopped ⊢
    · cases isStopped
      rfl
    · obtain ⟨isBefore, isRest⟩ := Prod.mk.inj isStopped
      rw [ih (Prod.ext rfl isRest), ← isBefore]

theorem onHead_ne (t : Tok) (pieces : List Text) : onHead t pieces ≠ [] := by
  cases pieces <;> exact List.cons_ne_nil _ _

theorem onHead_append (t : Tok) {pieces : List Text} (isSome : pieces ≠ []) (more : List Text) :
    onHead t (pieces ++ more) = onHead t pieces ++ more := by
  cases pieces with
  | nil => exact absurd rfl isSome
  | cons piece rest => rfl

theorem disjuncts_ne (depth : Nat) (xs : Text) : disjuncts depth xs ≠ [] := by
  cases xs with
  | nil => exact List.cons_ne_nil _ _
  | cons t rest =>
    rw [disjuncts]
    split_ifs
    · exact List.cons_ne_nil _ _
    · exact onHead_ne _ _

theorem factors_ne (depth betweens : Nat) (xs : Text) : factors depth betweens xs ≠ [] := by
  cases xs with
  | nil => exact List.cons_ne_nil _ _
  | cons t rest =>
    simp only [factors]
    split_ifs
    · cases betweens
      · exact List.cons_ne_nil _ _
      · exact onHead_ne _ _
    · exact onHead_ne _ _
    · exact onHead_ne _ _

/-- What follows a text, without an OR of its own, goes to the text's last disjunct. -/
theorem disjuncts_append {firsts : List Text} {last : Text} (isClosed : closes depth xs = true)
    (isCut : disjuncts depth xs = firsts ++ [last]) (isWhole : disjuncts 0 ys = [ys]) :
    disjuncts depth (xs ++ ys) = firsts ++ [last ++ ys] := by
  induction xs generalizing depth firsts last with
  | nil =>
    have isZero : depth = 0 := beq_iff_eq.mp isClosed
    have isBoth : ([] : List Text) ++ [[]] = firsts ++ [last] := isCut
    obtain ⟨isFirsts, isLast⟩ := List.append_inj' isBoth rfl
    cases isLast
    rw [isZero, List.nil_append, isWhole, ← isFirsts]
    rfl
  | cons t rest ih =>
    rw [List.cons_append, disjuncts]
    rw [closes] at isClosed
    rw [disjuncts] at isCut
    split_ifs at isClosed
    split_ifs at isCut ⊢ with isOr
    · cases firsts with
      | nil => exact absurd (List.cons.inj isCut).2 (disjuncts_ne 0 rest)
      | cons first firsts =>
        obtain ⟨isFirst, isRest⟩ := List.cons.inj isCut
        rw [isOr.1, isOr.2] at isClosed
        have closesRest : closes 0 rest = true := isClosed
        rw [ih closesRest isRest, ← isFirst]
        rfl
    · obtain ⟨firsts', last', isSplit⟩ :
          ∃ firsts' last', disjuncts (t.depth depth) rest = firsts' ++ [last'] :=
        ⟨_, _, (List.dropLast_append_getLast (disjuncts_ne _ _)).symm⟩
      rw [ih isClosed isSplit]
      rw [isSplit] at isCut
      cases firsts' with
      | nil =>
        have isBoth : ([] : List Text) ++ [t :: last'] = firsts ++ [last] := isCut
        obtain ⟨isFirsts, isLast⟩ := List.append_inj' isBoth rfl
        cases isLast
        rw [← isFirsts]
        rfl
      | cons first' firsts' =>
        have isBoth : ((t :: first') :: firsts') ++ [last'] = firsts ++ [last] := isCut
        obtain ⟨isFirsts, isLast⟩ := List.append_inj' isBoth rfl
        cases isLast
        rw [← isFirsts]
        rfl

theorem waiting_append (isClosed : closes depth xs = true) :
    waiting depth betweens (xs ++ ys) = waiting 0 (waiting depth betweens xs) ys := by
  induction xs generalizing depth betweens with
  | nil =>
    have isZero : depth = 0 := beq_iff_eq.mp isClosed
    rw [isZero]
    rfl
  | cons t rest ih =>
    rw [closes] at isClosed
    rw [List.cons_append, waiting, waiting]
    split_ifs at isClosed
    split_ifs with isAnd isBetween
    · rw [isAnd.1, isAnd.2] at isClosed
      have closesRest : closes 0 rest = true := isClosed
      exact ih closesRest
    · rw [isBetween.1, isBetween.2] at isClosed
      have closesRest : closes 0 rest = true := isClosed
      exact ih closesRest
    · exact ih isClosed

/-- A factor that AND adds to a text is one more factor of it. -/
theorem factors_append (isClosed : closes depth xs = true) (isSettled : waiting depth betweens xs = 0)
    (isWhole : factors 0 0 ys = [ys]) :
    factors depth betweens (xs ++ .keyword .AND :: ys) = factors depth betweens xs ++ [ys] := by
  induction xs generalizing depth betweens with
  | nil =>
    have isZero : depth = 0 := beq_iff_eq.mp isClosed
    have noBetween : betweens = 0 := isSettled
    subst isZero noBetween
    change [] :: factors 0 0 ys = [[], ys]
    rw [isWhole]
  | cons t rest ih =>
    rw [closes] at isClosed
    rw [waiting] at isSettled
    simp only [List.cons_append, factors]
    split_ifs at isClosed
    split_ifs at isSettled ⊢ with isAnd isBetween
    · rw [isAnd.1, isAnd.2] at isClosed
      have closesRest : closes 0 rest = true := isClosed
      cases betweens with
      | zero => exact congrArg ([] :: ·) (ih closesRest isSettled)
      | succ betweens =>
        have isSettled : waiting 0 betweens rest = 0 := isSettled
        change onHead t (factors 0 betweens (rest ++ .keyword .AND :: ys)) =
          onHead t (factors 0 betweens rest) ++ [ys]
        rw [ih closesRest isSettled, onHead_append _ (factors_ne _ _ _)]
    · rw [isBetween.1, isBetween.2] at isClosed
      have closesRest : closes 0 rest = true := isClosed
      rw [ih closesRest isSettled, onHead_append _ (factors_ne _ _ _)]
    · rw [ih isClosed isSettled, onHead_append _ (factors_ne _ _ _)]

end

/-! ## Conditions -/

def and3 : Option Bool → Option Bool → Option Bool
  | some false, _ => some false
  | _, some false => some false
  | some true, other => other
  | none, _ => none

def or3 : Option Bool → Option Bool → Option Bool
  | some true, _ => some true
  | _, some true => some true
  | some false, other => other
  | none, _ => none

/-- Whether a condition is true, from what its factors are. -/
def meets (test : Text → Option Bool) (condition : Text) : Bool :=
  ((disjuncts 0 condition).map fun disjunct =>
    ((factors 0 0 disjunct).map test).foldr and3 (some true)).foldr or3 (some false) == some true

def isCondition (text : Text) : Bool :=
  closes 0 text && (disjuncts 0 text).all fun disjunct =>
    closes 0 disjunct && waiting 0 0 disjunct == 0 && (factors 0 0 disjunct).all (· ≠ [])

section

variable {test : Text → Option Bool} {condition added : Text}

theorem and3_true {a b : Option Bool} :
    and3 a b = some true ↔ a = some true ∧ b = some true := by
  rcases a with _ | _ | _ <;> rcases b with _ | _ | _ <;> decide

theorem or3_true {a b : Option Bool} :
    or3 a b = some true ↔ a = some true ∨ b = some true := by
  rcases a with _ | _ | _ <;> rcases b with _ | _ | _ <;> decide

theorem all3_true (results : List (Option Bool)) :
    results.foldr and3 (some true) = some true ↔ ∀ r ∈ results, r = some true := by
  induction results with
  | nil => simp
  | cons result rest ih =>
    rw [List.foldr_cons, and3_true, ih, List.forall_mem_cons]

theorem any3_true (results : List (Option Bool)) :
    results.foldr or3 (some false) = some true ↔ some true ∈ results := by
  induction results with
  | nil => simp
  | cons result rest ih =>
    rw [List.foldr_cons, or3_true, ih, List.mem_cons, eq_comm]

/-- A condition is true where one of its disjuncts has only true factors. -/
theorem meets_iff (test : Text → Option Bool) (condition : Text) :
    meets test condition = true ↔
      ∃ disjunct ∈ disjuncts 0 condition, ∀ factor ∈ factors 0 0 disjunct, test factor = some true := by
  unfold meets
  rw [beq_iff_eq, any3_true, List.mem_map]
  simp only [all3_true, List.forall_mem_map]

def earlier (condition : Text) : List Text := (disjuncts 0 condition).dropLast

/-- A text that AND may add to a condition. -/
structure IsFactor (text : Text) : Prop where
  closed : closes 0 text = true
  settled : waiting 0 0 text = 0
  noOr : disjuncts 0 (.keyword .AND :: text) = [.keyword .AND :: text]
  noAnd : factors 0 0 text = [text]
  some : text ≠ []

/-- How a condition is cut where AND adds a factor to it. -/
theorem cut_and (isRead : isCondition condition = true) (isFactor : IsFactor added) :
    ∃ last, disjuncts 0 condition = earlier condition ++ [last] ∧
      disjuncts 0 (condition ++ .keyword .AND :: added) =
        earlier condition ++ [last ++ .keyword .AND :: added] ∧
      factors 0 0 (last ++ .keyword .AND :: added) = factors 0 0 last ++ [added] := by
  unfold isCondition at isRead
  rw [Bool.and_eq_true, List.all_eq_true] at isRead
  obtain ⟨isClosed, areRead⟩ := isRead
  have isSplit : disjuncts 0 condition =
      earlier condition ++ [(disjuncts 0 condition).getLast (disjuncts_ne _ _)] :=
    (List.dropLast_append_getLast (disjuncts_ne _ _)).symm
  generalize (disjuncts 0 condition).getLast (disjuncts_ne _ _) = last at isSplit
  have lastRead := areRead last (isSplit ▸ List.mem_append_right _ (List.mem_singleton_self _))
  rw [Bool.and_eq_true, Bool.and_eq_true, beq_iff_eq] at lastRead
  exact ⟨last, isSplit, disjuncts_append isClosed isSplit isFactor.noOr,
    factors_append lastRead.1.1 lastRead.1.2 isFactor.noAnd⟩

/-- **A factor that AND adds.** It joins the last disjunct of the condition and none before. -/
theorem meets_and (test : Text → Option Bool) (isRead : isCondition condition = true)
    (isFactor : IsFactor added) :
    meets test (condition ++ .keyword .AND :: added) = true ↔
      (∃ disjunct ∈ earlier condition, ∀ factor ∈ factors 0 0 disjunct, test factor = some true) ∨
        (meets test condition = true ∧ test added = some true) := by
  obtain ⟨last, isSplit, isAdded, areFactors⟩ := cut_and isRead isFactor
  rw [meets_iff, meets_iff, isAdded, isSplit]
  simp only [List.mem_append, List.mem_singleton, or_and_right, exists_or, exists_eq_left,
    areFactors, or_imp, forall_and, forall_eq]
  constructor
  · rintro (isEarlier | isLast)
    · exact Or.inl isEarlier
    · exact Or.inr (Or.inr isLast)
  · rintro (isEarlier | ⟨isEarlier, -⟩ | isLast)
    · exact Or.inl isEarlier
    · exact Or.inl isEarlier
    · exact Or.inr isLast

theorem isCondition_and (isRead : isCondition condition = true) (isFactor : IsFactor added) :
    isCondition (condition ++ .keyword .AND :: added) = true := by
  obtain ⟨last, isSplit, isAdded, areFactors⟩ := cut_and isRead isFactor
  unfold isCondition at isRead ⊢
  rw [Bool.and_eq_true, List.all_eq_true] at isRead ⊢
  obtain ⟨isClosed, areRead⟩ := isRead
  have addedClosed : closes 0 (.keyword .AND :: added) = true := isFactor.closed
  have addedSettled : waiting 0 0 (.keyword .AND :: added) = 0 := isFactor.settled
  refine ⟨(closes_append isClosed).trans addedClosed, fun disjunct isHere => ?_⟩
  rw [isSplit] at areRead
  rw [isAdded] at isHere
  rcases List.mem_append.mp isHere with isEarlier | isLast
  · exact areRead disjunct (List.mem_append_left _ isEarlier)
  · have lastRead := areRead last (List.mem_append_right _ (List.mem_singleton_self _))
    rw [Bool.and_eq_true, Bool.and_eq_true, beq_iff_eq, List.all_eq_true] at lastRead
    obtain ⟨⟨lastClosed, lastSettled⟩, areSome⟩ := lastRead
    rw [List.mem_singleton.mp isLast, Bool.and_eq_true, Bool.and_eq_true, beq_iff_eq,
      List.all_eq_true, closes_append lastClosed, waiting_append lastClosed, lastSettled, areFactors]
    refine ⟨⟨addedClosed, addedSettled⟩, fun factor isHere => ?_⟩
    rcases List.mem_append.mp isHere with isOld | isNew
    · exact areSome factor isOld
    · rw [List.mem_singleton.mp isNew]
      exact decide_eq_true isFactor.some

end

/-! ## Statements -/

def Tok.isOneOf (words : List Keyword) : Tok → Bool
  | .keyword found => words.contains found
  | _ => false

/-- The text without a semicolon at its end. -/
def trimmed (text : Text) : Text :=
  if text.getLast? = some .semicolon then text.dropLast else text

section

variable {binds : List Value} {last : Nat} {xs : Text}

/-- Binding parameters moves no bracket and no keyword. -/
theorem bound_shape (binds : List Value) (last : Nat) (t : Tok) :
    t.bound binds last = t ∨
      ((∃ number, t = .param number) ∧ ∃ value, t.bound binds last = .value value) := by
  cases t with
  | param number => cases number <;> exact Or.inr ⟨⟨_, rfl⟩, _, rfl⟩
  | _ => exact Or.inl rfl

/-- A text begins with a keyword where it does once bound. -/
theorem bound_keyword {keyword : Keyword} {rest : Text}
    (isText : bound binds last xs = .keyword keyword :: rest) :
    ∃ rest, xs = .keyword keyword :: rest := by
  cases xs with
  | nil => cases isText
  | cons t others =>
    have isHead := (List.cons.inj isText).1
    rcases bound_shape binds last t with isSame | ⟨-, value, isValue⟩
    · exact ⟨others, by rw [← isHead, isSame]⟩
    · rw [isValue] at isHead
      cases isHead

theorem closes_bound (binds : List Value) (last depth : Nat) (xs : Text) :
    closes depth (bound binds last xs) = closes depth xs := by
  induction xs generalizing last depth with
  | nil => rfl
  | cons t rest ih =>
    rw [bound, closes, closes, ih]
    rcases bound_shape binds last t with isSame | ⟨⟨number, isParam⟩, value, isValue⟩
    · rw [isSame]
    · rw [isValue, isParam]
      simp [Tok.depth]

theorem free_bound (words : List Keyword) (binds : List Value) (last depth : Nat) (xs : Text) :
    (upTo (Tok.isOneOf words) depth (bound binds last xs)).2 = [] ↔
      (upTo (Tok.isOneOf words) depth xs).2 = [] := by
  induction xs generalizing last depth with
  | nil => rfl
  | cons t rest ih =>
    rw [bound, upTo, upTo]
    rcases bound_shape binds last t with isSame | ⟨⟨number, isParam⟩, value, isValue⟩
    · rw [isSame]
      split_ifs
      · simp
      · exact ih _ _
    · rw [isValue, isParam]
      simpa [Tok.isOneOf, Tok.depth] using ih _ _

theorem trimmed_bound (binds : List Value) (xs : Text) :
    trimmed (bound binds 0 xs) = bound binds 0 (trimmed xs) := by
  rcases List.eq_nil_or_concat xs with isNil | ⟨init, t, isConcat⟩
  · rw [isNil]
    rfl
  · rw [isConcat, List.concat_eq_append, bound_append]
    unfold trimmed
    have isSame : t.bound binds (largest 0 init) = .semicolon ↔ t = .semicolon := by
      rcases bound_shape binds (largest 0 init) t with isSame | ⟨⟨number, isParam⟩, value, isValue⟩
      · rw [isSame]
      · rw [isValue, isParam]
        simp
    simp only [bound, List.getLast?_append, List.getLast?_singleton,
      Option.some.injEq, isSame, Option.some_or]
    split_ifs with isSemicolon
    · rw [List.dropLast_concat, List.dropLast_concat]
    · rw [bound_append]
      rfl

theorem semicolon_bound (binds : List Value) (last : Nat) (xs : Text) :
    .semicolon ∈ bound binds last xs ↔ .semicolon ∈ xs := by
  induction xs generalizing last with
  | nil => rfl
  | cons t rest ih =>
    rw [bound, List.mem_cons, List.mem_cons, ih]
    rcases bound_shape binds last t with isSame | ⟨⟨number, isParam⟩, value, isValue⟩
    · rw [isSame]
    · rw [isValue, isParam]
      simp

theorem trimmed_whole (isWhole : .semicolon ∉ xs) : trimmed xs = xs := by
  unfold trimmed
  rw [if_neg fun isLast => isWhole (List.mem_of_getLast? isLast)]

theorem largest_trimmed (xs : Text) : largest 0 (trimmed xs) = largest 0 xs := by
  unfold trimmed
  split_ifs with isSemicolon
  · have isSplit := List.dropLast_append_getLast? _ isSemicolon
    conv_rhs => rw [← isSplit, largest_append]
    rfl
  · rfl

end

/-- What a database reads in a statement that writes. -/
inductive Reading where
  /-- `UPDATE` or `DELETE`, its `WHERE` when it has one, and its `RETURNING`. -/
  | change (head : Text) (condition : Option Text) (tail : Text)
  /-- `INSERT`: the rows it gives, the condition of a `SELECT` that gives one, and what it does
  on a conflict. -/
  | insert (head rows : Text) (condition : Option Text) (tail : Text)
deriving DecidableEq, Repr

def readChange (text : Text) : Option Reading :=
  match upTo (Tok.isOneOf [.WHERE, .RETURNING]) 0 text with
  | (head, .keyword .WHERE :: rest) =>
    let (condition, tail) := upTo (Tok.isOneOf [.RETURNING]) 0 rest
    if isCondition condition then some (.change head (some condition) tail) else none
  | (head, tail) => some (.change head none tail)

def readInsert (text : Text) : Option Reading :=
  match upTo (Tok.isOneOf [.VALUES, .SELECT]) 0 text with
  | (head, .keyword .VALUES :: rest) =>
    let (rows, tail) := upTo (Tok.isOneOf [.ON, .RETURNING]) 0 rest
    some (.insert head rows none tail)
  | (head, .keyword .SELECT :: rest) =>
    match upTo (Tok.isOneOf [.WHERE, .ON, .RETURNING]) 0 rest with
    | (row, .keyword .WHERE :: rest) =>
      let (condition, tail) := upTo (Tok.isOneOf [.ON, .RETURNING]) 0 rest
      if isCondition condition then
        some (.insert head (.opening :: row ++ [.closing]) (some condition) tail)
      else none
    | (row, tail) => some (.insert head (.opening :: row ++ [.closing]) none tail)
  | _ => none

def readStatement (text : Text) : Option Reading :=
  let text := trimmed text
  if text.contains .semicolon then none
  else
    match text with
    | .keyword .UPDATE :: _ => readChange text
    | .keyword .DELETE :: _ => readChange text
    | .keyword .INSERT :: _ => readInsert text
    | _ => none

end Murage.Library.SqlText
