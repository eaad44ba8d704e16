import Murage.Shell.Pieces

/-!
Owns what holds of every reading of a text: it returns or throws, each lexer is created for less
text than its construct has, the lexers in one another are bounded by the restarts of their count,
and what is refused for its depth or does not end is the error of the whole.

Does not own: texts on which the count restarts.
-/

namespace Murage.Shell

open Murage.Library
open Murage.Library.Traced (Rules Meets EndsIn)

/-! ## The rules -/

/-- A lexer that is created or refused: it has less to read than the construct it is for, and there
are at most 65 lexers in one another for every start of the count. -/
def Logged : Event → Prop
  | .lexer _ level operands opener left =>
    level ≤ (MAX_LEX_DEPTH + 1) * (operands + 1) ∧ left < opener
  | .refused _ level operands opener left =>
    level ≤ (MAX_LEX_DEPTH + 1) * (operands + 1) + 1 ∧ left < opener
  | .range _ _ => True

/-- A refused lexer ends the reading, and so does a range that does not end. -/
def Announces : Event → Stop → Prop
  | .lexer .., _ => False
  | .refused .., stop => stop = unreadable .depth []
  | .range lo hi, stop => rangeNumbers lo hi = none ∧ stop = .endless

/-- The errors that only such an event explains. -/
def Announced : Stop → Prop
  | .unreadable error => error.reason = .depth
  | .endless => True
  | .outOfFuel => False

def reading : Rules Event Stop where
  Logs := Logged
  Throws := (· ≠ .outOfFuel)
  Announces := Announces
  Announced := Announced

/-- A lexer's depth is what its count allows, and its level follows from its restarts. -/
def Env.Fits (env : Env) : Prop :=
  env.level ≤ (MAX_LEX_DEPTH + 1) * env.operands + env.depth + 1 ∧ env.depth ≤ MAX_LEX_DEPTH

theorem inside_fits {env : Env} (site : Site) (isFit : env.Fits) :
    (env.inside site).level ≤
        (MAX_LEX_DEPTH + 1) * (env.inside site).operands + (env.inside site).depth + 1 ∧
      (env.inside site).depth ≤ MAX_LEX_DEPTH + 1 := by
  obtain ⟨isLevel, isDepth⟩ := isFit
  unfold MAX_LEX_DEPTH at *
  rw [Env.inside]
  dsimp only
  split_ifs <;> omega

theorem create_meets {env : Env} {site : Site} {opener left : Nat} (isFit : env.Fits)
    (isShorter : left < opener) : Meets reading Env.Fits (env.create site opener left) := by
  obtain ⟨isLevel, isDepth⟩ := inside_fits site isFit
  rw [Env.create]
  split
  · have isRefused : Logged (.refused site (env.inside site).level (env.inside site).operands
        opener left) := by
      refine ⟨?_, isShorter⟩
      unfold MAX_LEX_DEPTH at *
      omega
    exact Meets.announce isRefused (fun _ => Iff.rfl) nofun
  · rename_i isAllowed
    have isFit : (env.inside site).Fits := ⟨isLevel, Nat.le_of_not_lt isAllowed⟩
    have isLogged : Logged (.lexer site (env.inside site).level (env.inside site).operands
        opener left) := by
      refine ⟨?_, isShorter⟩
      unfold MAX_LEX_DEPTH at *
      omega
    have isAnnounced : Meets reading (fun _ => True) (Traced.log (.lexer site
        (env.inside site).level (env.inside site).operands opener left)) :=
      Meets.log isLogged (fun _ => id) trivial
    exact isAnnounced.bind fun _ _ => Meets.pure isFit

theorem ask_meets {α : Type} {post : α → Prop} {reason : UnreadableReason} {detail : Text}
    (isPlain : reason ≠ .depth) : Meets reading post (ask reason detail) :=
  Meets.fail nofun isPlain

theorem liftError_meets {α : Type} {post : α → Prop} {result : Except Unreadable α}
    (isEnd : Plain post result) : Meets reading post (liftError result) := by
  cases result with
  | error error => exact Meets.ofExcept nofun fun other isError => by cases isError; exact isEnd
  | ok value => exact Meets.ofExcept isEnd nofun


/-! ## Alternatives -/

theorem expand_meets {inner : Text} :
    Meets reading (fun alts => ∀ list ∈ alts, ∀ alt ∈ list, alt.length ≤ inner.length)
      (expand inner) := by
  rw [expand]
  split
  · exact Meets.pure nofun
  · exact ask_meets nofun
  · rename_i alts isAlts
    refine Meets.pure fun list isList => ?_
    cases isList
    exact readBrace_alts isAlts
  · rename_i lo hi isRange
    split
    · rename_i isEndless
      have isLogged : Logged (.range lo hi) := trivial
      refine Meets.announce isLogged (fun stop => ?_) nofun
      exact ⟨And.right, fun isEnd => ⟨isEndless, isEnd⟩⟩
    · rename_i numbers areNumbers
      have isLogged : Meets reading (fun _ => True) (Traced.log (.range lo hi)) :=
        Meets.log trivial (fun _ isEnd => nomatch areNumbers.symm.trans isEnd.1) trivial
      refine isLogged.bind fun _ _ => Meets.pure fun list isList => ?_
      cases isList
      intro alt isAlt
      obtain ⟨n, isNumber, rfl⟩ := List.mem_map.1 isAlt
      exact range_shorter isRange areNumbers n isNumber

theorem unescapeBacktick_length (text : Text) : (unescapeBacktick text).length ≤ text.length := by
  fun_induction unescapeBacktick text with
  | case1 => exact le_rfl
  | case2 d beyond isEscaped ih =>
    simp only [List.length_cons]
    omega
  | case3 d beyond isPlain ih =>
    simp only [List.length_cons] at ih ⊢
    omega
  | case4 => exact le_rfl
  | case5 c rest isPlain ih =>
    simp only [List.length_cons]
    omega

/-! ## What each function leaves -/

theorem skipBlanks_length (comment : Bool) (text : Text) :
    (skipBlanks comment text).length ≤ text.length := by
  fun_induction skipBlanks comment text <;> simp only [List.length_cons, List.length_nil] at * <;>
    omega

theorem skipBlanks_begins {comment : Bool} {text : Text} {c : UInt16} {after : Text}
    (isBegin : skipBlanks comment text = c :: after) : isBlank c = false := by
  fun_induction skipBlanks comment text with
  | case1 => cases isBegin
  | case2 => cases isBegin; decide
  | case3 _ _ _ ih => exact ih isBegin
  | case4 => rename_i ih; exact ih isBegin
  | case5 => rename_i ih; exact ih isBegin
  | case6 => rename_i ih; exact ih isBegin
  | case7 => cases isBegin; decide
  | case8 => cases isBegin; decide
  | case9 => cases isBegin; rename_i isBlankless _ _; simpa using isBlankless

theorem operator_found {text : Text} {op : String}
    (isFound : (OPERATORS.find? fun op => (units op).isPrefixOf text) = some op) :
    (text.drop op.length).length < text.length := by
  have spelled : ∀ op ∈ OPERATORS, 0 < op.length ∧ (units op).length = op.length := by decide
  obtain ⟨isPositive, isSpelled⟩ := spelled op (List.mem_of_find?_eq_some isFound)
  have matches' : (units op).isPrefixOf text = true := by
    simpa using List.find?_some isFound
  have isFirst := (List.isPrefixOf_iff_prefix.1 matches').length_le
  rw [List.length_drop]
  omega

theorem slice_length (start rest : Text) : (slice start rest).length ≤ start.length := by
  rw [slice, List.length_take]
  exact Nat.min_le_right _ _

def EndsWord : Text → Prop
  | [] => True
  | c :: after => wordEnd c = true ∧ ¬ ((c = u '<' ∨ c = u '>') ∧ after.head? = some (u '('))

theorem not_endsWord {c : UInt16} {after : Text} (isBlankless : isBlank c = false)
    (notNewline : c ≠ u '\n')
    (notOperator : ¬ ((units "(;&|)<>").contains c = true ∧
      ¬ ((c = u '<' ∨ c = u '>') ∧ after.head? = some (u '(')))) :
    ¬ EndsWord (c :: after) := by
  rintro ⟨isEnd, isPlain⟩
  have members : (units " \t\n;&|()<>").all (fun d =>
      isBlank d || d == u '\n' || (units "(;&|)<>").contains d) = true := by decide
  have isIn := List.all_eq_true.1 members c (List.contains_iff_mem.1 isEnd)
  rw [isBlankless, Bool.false_or, Bool.or_eq_true] at isIn
  rcases isIn with isNewline | isOperator
  · exact notNewline (eq_of_beq isNewline)
  · exact notOperator ⟨isOperator, isPlain⟩

/-- What the readers of the scan do with enough fuel: eight calls for each character, and the more
the fewer characters the next call is sure to be past. -/
structure Works (fuel : Nat) : Prop where
  scan : ∀ {env st}, env.Fits → 8 * st.rest.length + 1 < fuel →
    Meets reading (fun out => out.1.rest.length ≤ st.rest.length) (scan fuel env st)
  operator : ∀ {env st fd}, env.Fits → 8 * st.rest.length < fuel →
    Meets reading (fun out => out.rest.length < st.rest.length) (operator fuel env st fd)
  word : ∀ {env parts text}, env.Fits → 8 * text.length < fuel →
    Meets reading (fun out => out.2.length ≤ text.length ∧
      (¬ EndsWord text → out.2.length < text.length)) (word fuel env parts text)
  doubleQuoted : ∀ {env terminated parts text}, env.Fits → 8 * text.length < fuel →
    Meets reading (fun out => out.2.length ≤ text.length)
      (doubleQuoted fuel env terminated parts text)
  dollar : ∀ {env quote parts text}, env.Fits → 8 * text.length < fuel →
    Meets reading (fun out => out.2.length ≤ text.length) (dollar fuel env quote parts text)
  bracedVar : ∀ {env quote text}, env.Fits → 8 * text.length + 4 < fuel →
    Meets reading (fun out => out.2.length ≤ text.length) (bracedVar fuel env quote text)
  matchArith : ∀ {env depth text}, env.Fits → 8 * text.length < fuel →
    Meets reading (fun out => ∀ closer ∈ out, closer.length ≤ text.length)
      (matchArith fuel env depth text)
  matchBrace : ∀ {env depth text}, env.Fits → 8 * text.length < fuel →
    Meets reading (fun out => out.length ≤ text.length) (matchBrace fuel env depth text)
  nested : ∀ {env opener text}, env.Fits → 8 * text.length + 2 < fuel → text.length < opener →
    Meets reading (fun out => out.length ≤ text.length) (nested fuel env opener text)
  skipQuoted : ∀ {env text}, env.Fits → 8 * text.length + 1 < fuel →
    Meets reading (fun out => out.length ≤ text.length) (skipQuoted fuel env text)
  backtickAt : ∀ {env text}, env.Fits → 8 * text.length < fuel →
    Meets reading (fun out => out.2.length ≤ text.length) (backtickAt fuel env text)
  brace : ∀ {env text}, env.Fits → 8 * text.length < fuel →
    Meets reading (fun out => ∀ read ∈ out, read.2.length ≤ text.length) (brace fuel env text)
  lexWordText : ∀ {env opener text quote}, env.Fits → 8 * text.length + 3 < fuel →
    text.length < opener → Meets reading (fun _ => True) (lexWordText fuel env opener text quote)
  run : ∀ {env text}, env.Fits → 8 * text.length + 2 < fuel →
    Meets reading (fun out => ∃ before, out = before ++ [Token.eof]) (run fuel env text)

section step

variable {fuel : Nat} (works : Works fuel)

include works

variable {text : Text} {env : Env}

theorem run_meets (isFit : env.Fits) (isEnough : 8 * text.length + 2 < fuel + 1) :
    Meets reading (fun out => ∃ before, out = before ++ [Token.eof]) (run (fuel + 1) env text) := by
  rw [run]
  have scanned := @Works.scan fuel works env { rest := text } isFit (Nat.lt_of_succ_lt_succ isEnough)
  refine scanned.bind fun ⟨st, closed⟩ _ => ?_
  dsimp only
  split
  · exact ask_meets nofun
  · exact Meets.pure ⟨st.tokens, rfl⟩

theorem lexWordText_meets {opener : Nat} {quote : Quote} (isFit : env.Fits)
    (isEnough : 8 * text.length + 3 < fuel + 1) (isShorter : text.length < opener) :
    Meets reading (fun _ => True) (lexWordText (fuel + 1) env opener text quote) := by
  rw [lexWordText]
  refine (create_meets isFit isShorter).bind fun inner isInner => ?_
  split
  · refine (works.doubleQuoted isInner (by omega)).bind fun ⟨parts, _⟩ _ => ?_
    exact Meets.pure trivial
  · refine (works.run isInner (by omega)).bind fun tokens _ => ?_
    exact Meets.pure trivial

theorem brace_meets (isFit : env.Fits) (isEnough : 8 * text.length < fuel + 1) :
    Meets reading (fun out => ∀ read ∈ out, read.2.length ≤ text.length)
      (brace (fuel + 1) env text) := by
  rw [brace]
  split
  · exact Meets.pure nofun
  rename_i inner closer isFound
  obtain ⟨counted, isPositive⟩ := upTo_length isFound
  refine expand_meets.bind fun alts areShort => ?_
  split
  · exact Meets.pure nofun
  rename_i list
  refine (Meets.forEach fun alt isAlt =>
    show Meets reading (fun _ => True) _ from ?_).bind fun words _ => ?_
  · have isShort := areShort list rfl alt isAlt
    split
    · exact Meets.pure trivial
    · refine (create_meets isFit (by omega)).bind fun inner isInner => ?_
      refine (works.word isInner (by omega)).bind fun ⟨parts, _⟩ _ => ?_
      exact Meets.pure trivial
  · refine Meets.pure fun read isRead => ?_
    cases isRead
    rw [List.length_drop]
    omega

theorem backtickAt_meets (isFit : env.Fits) (isEnough : 8 * text.length < fuel + 1) :
    Meets reading (fun out => out.2.length ≤ text.length) (backtickAt (fuel + 1) env text) := by
  rw [backtickAt]
  refine (create_meets isFit (Nat.lt_succ_self _)).bind fun _ _ => ?_
  split
  · exact ask_meets nofun
  rename_i body closer isFound
  obtain ⟨counted, isPositive⟩ := upToUnescaped_length isFound
  have isShort := unescapeBacktick_length body
  dsimp only
  refine (create_meets isFit (by omega)).bind fun inner isInner => ?_
  refine (works.run isInner (by omega)).bind fun tokens _ => ?_
  refine Meets.pure ?_
  rw [List.length_drop]
  omega

theorem skipQuoted_meets (isFit : env.Fits) (isEnough : 8 * text.length + 1 < fuel + 1) :
    Meets reading (fun out => out.length ≤ text.length) (skipQuoted (fuel + 1) env text) := by
  rw [skipQuoted]
  refine (create_meets isFit (Nat.lt_succ_self _)).bind fun inner isInner => ?_
  refine (works.doubleQuoted isInner (by omega)).bind fun ⟨_, rest⟩ isRest => ?_
  exact Meets.pure isRest

theorem nested_meets {opener : Nat} (isFit : env.Fits) (isEnough : 8 * text.length + 2 < fuel + 1)
    (isShorter : text.length < opener) :
    Meets reading (fun out => out.length ≤ text.length) (nested (fuel + 1) env opener text) := by
  rw [nested]
  refine (create_meets isFit isShorter).bind fun inner isInner => ?_
  have scanned := @Works.scan fuel works inner { rest := text } isInner (Nat.lt_of_succ_lt_succ isEnough)
  refine scanned.bind fun ⟨st, closed⟩ isRest => ?_
  dsimp only
  split
  · exact ask_meets nofun
  split
  · exact ask_meets nofun
  · exact Meets.pure isRest

theorem matchBrace_meets {depth : Nat} (isFit : env.Fits) (isEnough : 8 * text.length < fuel + 1) :
    Meets reading (fun out => out.length ≤ text.length)
      (matchBrace (fuel + 1) env depth text) := by
  cases text with
  | nil =>
    rw [matchBrace]
    exact ask_meets nofun
  | cons c after =>
    rw [List.length_cons] at isEnough
    -- what is left of `after` is read with the next fuel
    have goOn : ∀ {depth : Nat} {rest : Text}, rest.length ≤ after.length →
        Meets reading (fun out => out.length ≤ (c :: after).length)
          (matchBrace fuel env depth rest) := fun isLeft =>
      (works.matchBrace isFit (by omega)).imp fun _ isOut =>
        (isOut.trans isLeft).trans (Nat.le_succ _)
    have dropped : (after.drop 1).length ≤ after.length := by
      rw [List.length_drop]
      omega
    rw [matchBrace]
    split
    · exact goOn dropped
    split
    · split
      · exact ask_meets nofun
      · rename_i before closer isFound
        have counted := upTo_length isFound
        refine goOn ?_
        rw [List.length_drop]
        omega
    split
    · exact (works.skipQuoted isFit (by omega)).bind fun rest isRest => goOn isRest
    split
    · exact (works.backtickAt isFit (by omega)).bind fun ⟨_, rest⟩ isRest => goOn isRest
    split
    · refine (works.nested isFit (by omega) (by omega)).bind fun closer isCloser => goOn ?_
      rw [List.length_drop]
      omega
    split
    · exact goOn le_rfl
    split
    · split
      · exact Meets.pure le_rfl
      · exact goOn le_rfl
    · exact goOn le_rfl

theorem matchArith_meets {depth : Nat} (isFit : env.Fits) (isEnough : 8 * text.length < fuel + 1) :
    Meets reading (fun out => ∀ closer ∈ out, closer.length ≤ text.length)
      (matchArith (fuel + 1) env depth text) := by
  cases text with
  | nil =>
    rw [matchArith]
    exact ask_meets nofun
  | cons c after =>
    rw [List.length_cons] at isEnough
    have goOn : ∀ {depth : Nat} {rest : Text}, rest.length ≤ after.length →
        Meets reading (fun out => ∀ closer ∈ out, closer.length ≤ (c :: after).length)
          (matchArith fuel env depth rest) := fun isLeft =>
      (works.matchArith isFit (by omega)).imp fun _ isOut closer isCloser =>
        ((isOut closer isCloser).trans isLeft).trans (Nat.le_succ _)
    have dropped : (after.drop 1).length ≤ after.length := by
      rw [List.length_drop]
      omega
    rw [matchArith]
    split
    · exact goOn dropped
    split
    · split
      · exact ask_meets nofun
      · rename_i before closer isFound
        have counted := upTo_length isFound
        refine goOn ?_
        rw [List.length_drop]
        omega
    split
    · exact (works.skipQuoted isFit (by omega)).bind fun rest isRest => goOn isRest
    split
    · exact (works.backtickAt isFit (by omega)).bind fun ⟨_, rest⟩ isRest => goOn isRest
    split
    · refine (works.nested isFit (by omega) (by omega)).bind fun closer isCloser => goOn ?_
      rw [List.length_drop]
      omega
    split
    · exact goOn le_rfl
    split
    · split
      · refine Meets.pure fun closer isCloser => ?_
        split at isCloser
        · cases isCloser
          exact le_rfl
        · cases isCloser
      · exact goOn le_rfl
    · exact goOn le_rfl

theorem bracedVar_meets {quote : Quote} (isFit : env.Fits)
    (isEnough : 8 * text.length + 4 < fuel + 1) :
    Meets reading (fun out => out.2.length ≤ text.length)
      (bracedVar (fuel + 1) env quote text) := by
  rw [bracedVar]
  refine (works.matchBrace isFit (by omega)).bind fun closer isCloser => ?_
  have isSlice := slice_length text closer
  have dropped : (closer.drop 1).length ≤ text.length := by
    rw [List.length_drop]
    omega
  refine (liftError_meets readVar_plain).bind fun read isRead => ?_
  split
  · exact Meets.pure dropped
  · refine (works.lexWordText isFit (by omega) (by omega)).bind fun operand _ => ?_
    exact Meets.pure dropped

theorem dollar_meets {quote : Quote} {parts : Word} (isFit : env.Fits)
    (isEnough : 8 * text.length < fuel + 1) :
    Meets reading (fun out => out.2.length ≤ text.length)
      (dollar (fuel + 1) env quote parts text) := by
  rw [dollar.eq_def]
  dsimp only
  split
  · exact Meets.pure le_rfl
  rename_i next after
  rw [List.length_cons] at isEnough
  split
  · split
    · exact ask_meets nofun
    · rename_i inner closer isFound
      have counted := upToUnescaped_length isFound
      refine (liftError_meets ansiUnescape_plain).bind fun text _ => Meets.pure ?_
      rw [List.length_drop, List.length_cons]
      omega
  split
  · exact (works.doubleQuoted isFit (by omega)).imp fun _ isOut => isOut.trans (Nat.le_succ _)
  split
  · have arithmetic : Meets reading (fun out => ∀ closer ∈ out, closer.length ≤ after.length)
        (if after.head? = some (u '(') then matchArith fuel env 0 (after.drop 1)
          else pure none : Lex (Option Text)) := by
      have dropped : (after.drop 1).length ≤ after.length := by
        rw [List.length_drop]
        omega
      split
      · exact (works.matchArith isFit (by omega)).imp fun _ isOut closer isCloser =>
          (isOut closer isCloser).trans dropped
      · exact Meets.pure nofun
    refine arithmetic.bind fun closer isCloser => ?_
    split
    · rename_i closer
      have isShort := isCloser closer rfl
      refine Meets.pure ?_
      rw [List.length_drop, List.length_cons]
      omega
    · refine (works.nested isFit (by omega) (by rw [List.length_cons]; omega)).bind
        fun closer isShort => Meets.pure ?_
      rw [List.length_drop, List.length_cons]
      omega
  split
  · refine (works.bracedVar isFit (by omega)).bind fun ⟨part, rest⟩ isRest => ?_
    exact Meets.pure (le_trans isRest (Nat.le_succ _))
  split
  · exact Meets.pure (dropWhile_length _ _)
  split
  · exact Meets.pure (Nat.le_succ _)
  · exact Meets.pure le_rfl

theorem doubleQuoted_meets {terminated : Bool} {parts : Word} (isFit : env.Fits)
    (isEnough : 8 * text.length < fuel + 1) :
    Meets reading (fun out => out.2.length ≤ text.length)
      (doubleQuoted (fuel + 1) env terminated parts text) := by
  cases text with
  | nil =>
    rw [doubleQuoted]
    split
    · exact ask_meets nofun
    · exact Meets.pure le_rfl
  | cons c after =>
    rw [List.length_cons] at isEnough
    have goOn : ∀ {parts : Word} {rest : Text}, rest.length ≤ after.length →
        Meets reading (fun out => out.2.length ≤ (c :: after).length)
          (doubleQuoted fuel env terminated parts rest) := fun isLeft =>
      (works.doubleQuoted isFit (by omega)).imp fun _ isOut =>
        (isOut.trans isLeft).trans (Nat.le_succ _)
    rw [doubleQuoted.eq_def]
    dsimp only
    split
    · exact Meets.pure (Nat.le_succ _)
    split
    · split
      · exact goOn le_rfl
      · rename_i d rest
        split
        · exact goOn (Nat.le_succ _)
        split
        · exact goOn (Nat.le_succ _)
        · exact goOn le_rfl
    split
    · exact (works.dollar isFit (by omega)).bind fun ⟨parts, rest⟩ isRest => goOn isRest
    split
    · exact (works.backtickAt isFit (by omega)).bind fun ⟨text, rest⟩ isRest => goOn isRest
    · exact goOn le_rfl

theorem word_meets {parts : Word} (isFit : env.Fits) (isEnough : 8 * text.length < fuel + 1) :
    Meets reading (fun out => out.2.length ≤ text.length ∧
      (¬ EndsWord text → out.2.length < text.length)) (word (fuel + 1) env parts text) := by
  cases text with
  | nil =>
    rw [word]
    exact Meets.pure ⟨le_rfl, fun starts => absurd trivial starts⟩
  | cons c after =>
    rw [List.length_cons] at isEnough
    have goOn : ∀ {parts : Word} {rest : Text}, rest.length ≤ after.length →
        Meets reading (fun out => out.2.length ≤ (c :: after).length ∧
          (¬ EndsWord (c :: after) → out.2.length < (c :: after).length))
          (word fuel env parts rest) := fun isLeft =>
      (works.word isFit (by omega)).imp fun _ isOut => by
        have isShort := isOut.1.trans isLeft
        exact ⟨isShort.trans (Nat.le_succ _), fun _ => Nat.lt_succ_of_le isShort⟩
    rw [word.eq_def]
    dsimp only
    split
    · rename_i isEnd
      split
      · refine (works.nested isFit (by rw [List.length_drop]; omega)
          (by rw [List.length_drop]; omega)).bind fun closer isCloser => goOn ?_
        rw [List.length_drop] at isCloser ⊢
        omega
      · rename_i isPlain
        exact Meets.pure ⟨le_rfl, fun starts => absurd ⟨isEnd, isPlain⟩ starts⟩
    split
    · split
      · exact ask_meets nofun
      · rename_i inner closer isFound
        have counted := upTo_length isFound
        refine goOn ?_
        rw [List.length_drop]
        omega
    split
    · refine (works.doubleQuoted isFit (by omega)).bind fun ⟨more, rest⟩ isRest => ?_
      exact goOn isRest
    split
    · split
      · exact goOn le_rfl
      · split
        · exact goOn (Nat.le_succ _)
        · exact goOn (Nat.le_succ _)
    split
    · exact (works.dollar isFit (by omega)).bind fun ⟨parts, rest⟩ isRest => goOn isRest
    split
    · exact (works.backtickAt isFit (by omega)).bind fun ⟨text, rest⟩ isRest => goOn isRest
    split
    · exact goOn (dropWhile_length _ _)
    split
    · exact goOn le_rfl
    split
    · refine (works.brace isFit (by omega)).bind fun read isRead => ?_
      split
      · rename_i part rest
        exact goOn (isRead (part, rest) rfl)
      · exact goOn le_rfl
    · exact goOn le_rfl

theorem operator_meets {st : Scan} {fd : Option Num} (isFit : env.Fits)
    (isEnough : 8 * st.rest.length < fuel + 1) :
    Meets reading (fun out => out.rest.length < st.rest.length)
      (operator (fuel + 1) env st fd) := by
  rw [operator]
  split
  · exact ask_meets fun isThrown => by cases isThrown
  rename_i op isFound
  have isAfter := operator_found isFound
  generalize st.rest.drop op.length = after at isAfter ⊢
  dsimp only
  split
  · refine ((works.matchArith isFit (by omega)).mapError ?_ ?_ ?_).bind fun closer isCloser => ?_
    · intro stop isThrown
      cases stop with
      | unreadable error =>
        dsimp only
        split <;> exact fun isSame => by cases isSame
      | endless => exact fun isSame => by cases isSame
      | outOfFuel => exact isThrown
    · intro event stop isAnnounced
      cases event with
      | lexer => exact isAnnounced.elim
      | refused => cases isAnnounced; rfl
      | range => cases isAnnounced.2; rfl
    · intro stop isAnnounced
      cases stop with
      | unreadable error =>
        dsimp only at isAnnounced ⊢
        split at isAnnounced
        · cases isAnnounced
        · rename_i isOther
          rw [if_neg isOther]
      | endless => rfl
      | outOfFuel => rfl
    split
    · exact Meets.pure isAfter
    · rename_i closer
      have isShort := isCloser closer rfl
      refine Meets.pure ?_
      rw [List.length_drop]
      omega
  split
  · split
    · exact ask_meets fun isThrown => by cases isThrown
    · have isStart := dropWhile_length isBlank after
      refine (works.word isFit (by omega)).bind fun found isRest => ?_
      obtain ⟨delimiter, rest⟩ := found
      dsimp only at isRest ⊢
      split
      · exact ask_meets fun isThrown => by cases isThrown
      · exact Meets.pure (by dsimp only; omega)
  · exact Meets.pure isAfter

theorem scan_meets {st : Scan} (isFit : env.Fits) (isEnough : 8 * st.rest.length + 1 < fuel + 1) :
    Meets reading (fun out => out.1.rest.length ≤ st.rest.length) (scan (fuel + 1) env st) := by
  have isSkipped := skipBlanks_length false st.rest
  have goOn : ∀ {next : Scan}, next.rest.length < st.rest.length →
      Meets reading (fun out => out.1.rest.length ≤ st.rest.length) (scan fuel env next) :=
    fun isLeft => (works.scan isFit (by omega)).imp fun _ isOut => isOut.trans isLeft.le
  rw [scan.eq_def]
  dsimp only
  split
  · exact Meets.pure (Nat.zero_le _)
  rename_i c after isBegin
  have isBlankless := skipBlanks_begins isBegin
  rw [isBegin] at isSkipped
  have isBegun : after.length < st.rest.length := isSkipped
  split
  · split
    · exact goOn isBegun
    split
    · exact goOn isBegun
    · exact Meets.pure isSkipped
  rename_i notClosed
  split
  · refine (liftError_meets drainHeredocs_plain).bind fun ⟨tokens, rest⟩ isRest => ?_
    exact goOn (lt_of_le_of_lt isRest isBegun)
  rename_i notNewline
  split
  · have isBeyond := dropWhile_length isDigit (c :: after)
    refine (works.operator isFit (by dsimp only; omega)).bind fun next isNext => goOn ?_
    dsimp only at isNext
    omega
  split
  · exact goOn isBegun
  split
  · refine (works.operator isFit (by dsimp only; omega)).bind fun next isNext => goOn ?_
    dsimp only at isNext
    omega
  · rename_i notOperator
    have starts : ¬ EndsWord (c :: after) :=
      not_endsWord isBlankless notNewline notOperator
    refine (works.word isFit (by omega)).bind fun ⟨word, rest⟩ isRest => ?_
    have isShort := isRest.2 starts
    refine (liftError_meets pushWord_plain).bind fun next isNext => goOn ?_
    rw [isNext]
    exact lt_of_lt_of_le isShort isSkipped

end step

theorem works_all (fuel : Nat) : Works fuel := by
  induction fuel with
  | zero =>
    constructor <;> intros <;> omega
  | succ fuel works =>
    exact {
      scan := scan_meets works
      operator := operator_meets works
      word := word_meets works
      doubleQuoted := doubleQuoted_meets works
      dollar := dollar_meets works
      bracedVar := bracedVar_meets works
      matchArith := matchArith_meets works
      matchBrace := matchBrace_meets works
      nested := nested_meets works
      skipQuoted := skipQuoted_meets works
      backtickAt := backtickAt_meets works
      brace := brace_meets works
      lexWordText := lexWordText_meets works
      run := run_meets works }

end Murage.Shell
