import Murage.Shell.Tokens

/-!
Owns the shell lexer: words, double quotes, parameter expansions, substitutions of both forms,
arithmetic, braces, operators and the scan over a whole text. A position is the text that is left
from there on. `fuel` bounds the calls within one another; every lexer that is created inside
another one is logged with how deep it is, and every brace range with its ends.

Does not own: the pieces that read no further text, and that the fuel suffices.
-/

namespace Murage.Shell

open Murage.Library

/-! ## Lexers in one another -/

/-- Where a lexer is created: for the body of `$( )` or `<( )`, past a double-quoted string, to
find a closing backtick, for the text between backticks, for an alternative of a brace, and for the
operand of a parameter expansion. -/
inductive Site where
  | nested
  | quoted
  | closing
  | backtick
  | alternative
  | operand
deriving DecidableEq, Repr

/-- A lexer: the depth it was given, and, which it does not know, how many lexers are in one
another down to it and how many of these read an operand. -/
structure Env where
  depth : Nat
  level : Nat
  operands : Nat
  nestedBody : Bool := false

/-- A lexer that is created, one that is refused for its depth, and a range of numbers. `opener`:
what is left in the outer lexer where the construct opens; `left`: what the new lexer has to
read. -/
inductive Event where
  | lexer (site : Site) (level operands opener left : Nat)
  | refused (site : Site) (level operands opener left : Nat)
  | range (lo hi : Num)

abbrev Lex := Traced Event Stop

def ask {α : Type} (reason : UnreadableReason) (detail : Text) : Lex α :=
  Traced.fail (unreadable reason detail)

/-- Every site passes on the depth of its own lexer and one more, an operand none. -/
def Env.inside (env : Env) (site : Site) : Env where
  depth := if site = .operand then 0 else env.depth + 1
  level := env.level + 1
  operands := if site = .operand then env.operands + 1 else env.operands
  nestedBody := site = .nested

/-- `new Lexer` -/
def Env.create (env : Env) (site : Site) (opener left : Nat) : Lex Env :=
  let inner := env.inside site
  if MAX_LEX_DEPTH < inner.depth then
    ⟨[.refused site inner.level inner.operands opener left], .error (unreadable .depth [])⟩
  else do
    Traced.log (.lexer site inner.level inner.operands opener left)
    pure inner

/-! ## Braces -/

/-- The digits of `-?\d+` at the beginning, and what follows them. -/
def signedDigits (text : Text) : Option (Text × Text) :=
  let unsigned := if text.head? = some (u '-') then text.drop 1 else text
  let digits := unsigned.takeWhile isDigit
  if digits = [] then none
  else
    some (if text.head? = some (u '-') then u '-' :: digits else digits,
      unsigned.dropWhile isDigit)

def rangeEnd (text : Text) : Option Text :=
  match signedDigits text with
  | some (_, rest) => some rest
  | none =>
    match text with
    | c :: rest => if isLetter c then some rest else none
    | [] => none

def afterDots : Text → Option Text
  | c :: d :: rest => if c = u '.' ∧ d = u '.' then some rest else none
  | _ => none

/-- `^(-?\d+)\.\.(-?\d+)$` -/
def decimalRange (inner : Text) : Option (Num × Num) := do
  let (lo, rest) ← signedDigits inner
  let (hi, beyond) ← signedDigits (← afterDots rest)
  if beyond = [] then some (Num.ofText lo, Num.ofText hi) else none

/-- `^[A-Za-z]\.\.[A-Za-z]$` -/
def letterRange : Text → Option (UInt16 × UInt16)
  | [lo, c, d, hi] =>
    if isLetter lo ∧ c = u '.' ∧ d = u '.' ∧ isLetter hi then some (lo, hi) else none
  | _ => none

def stepRange (inner : Text) : Bool :=
  (do
    let beyondLo ← afterDots (← rangeEnd inner)
    let beyondHi ← afterDots (← rangeEnd beyondLo)
    let (_, beyond) ← signedDigits beyondHi
    guard (beyond = [])).isSome

def letters (lo hi : UInt16) : List Text :=
  let count := if lo ≤ hi then hi.toNat - lo.toNat + 1 else lo.toNat - hi.toNat + 1
  (List.range count).map fun k =>
    [if lo ≤ hi then (lo.toNat + k).toUInt16 else (lo.toNat - k).toUInt16]

/-- Whether a `;`, `|` or `&` stands after something else than a backslash. -/
def unescapedEnd (before : UInt16) : Text → Bool
  | [] => false
  | c :: rest =>
    ((c == u ';' || c == u '|' || c == u '&') && before != backslash) || unescapedEnd c rest

/-- What stands between a `{` and the first `}`. -/
inductive BraceRead where
  | plain
  | asks
  | alts (alts : List Text)
  | range (lo hi : Num)

def quotes : Text := units "'\"`"

def readBrace (inner : Text) : BraceRead :=
  let quoted := inner.any quotes.contains || opensParen (units "$<>") inner
  if inner ≠ [] ∧ inner.head?.all (!isSpace ·) ∧ (quoted ∨ inner.contains (backslash)) then .asks
  else if inner = [] ∨ inner.any isSpace then .plain
  else if inner.any (units "'\"`$\\\x7b()<>|&;").contains then
    let endsWord := !quoted && unescapedEnd 0 inner
    if endsWord = false ∧ (inner.contains (u ',') ∨ includes inner (units "..")) then .asks
    else .plain
  else
    match decimalRange inner with
    | some (lo, hi) =>
      if (Num.finite MAX_BRACE_ALTS).lt ((hi.sub lo).abs.add (.finite 1)) then .asks
      else .range lo hi
    | none =>
      match letterRange inner with
      | some (lo, hi) => .alts (letters lo hi)
      | none =>
        if stepRange inner then .asks
        else if inner.contains (u ',') then .alts (splitOn (u ',') inner)
        else .plain

/-- Whether the loop over a range goes on at `n`. -/
def Num.within (n : Num) (up : Bool) (hi : Num) : Bool := if up then n.le hi else hi.le n

/-- One more, or one less. -/
def Num.next (n : Num) (up : Bool) : Num := n.add (.finite (if up then 1 else -1))

/-- The numbers from `n` on, none when the loop over them does not end: the next number is the
number it was. -/
def rangeFrom (up : Bool) (hi : Num) : Nat → Num → Option (List Num)
  | 0, _ => none
  | most + 1, n =>
    if n.within up hi then
      if n.next up = n then none else (rangeFrom up hi most (n.next up)).map (n :: ·)
    else some []

def rangeNumbers (lo hi : Num) : Option (List Num) :=
  rangeFrom (lo.le hi) hi (MAX_BRACE_ALTS + 1) lo

/-- `String(n)`, for the numbers of a range. -/
def Num.text : Num → Text
  | nan => units "NaN"
  | infinite negative => units (if negative then "-Infinity" else "Infinity")
  | finite value => (if value < 0 then [u '-'] else []) ++ units (toString value.natAbs)

/-- The alternatives that stand between a `{` and the first `}`. -/
def expand (inner : Text) : Lex (Option (List Text)) :=
  match readBrace inner with
  | .plain => pure none
  | .asks => ask .expansion (u '\x7b' :: inner ++ [u '\x7d'])
  | .alts alts => pure (some alts)
  | .range lo hi =>
    match rangeNumbers lo hi with
    | none => ⟨[.range lo hi], .error .endless⟩
    | some numbers => do
        Traced.log (.range lo hi)
        pure (some (numbers.map Num.text))

/-! ## Parameter expansions -/

/-- What stands between `${` and its `}`: the name, the operator and the operand. -/
structure VarRead where
  name : Text
  op : Option Text
  operand : Text := []
deriving DecidableEq, Repr

def braced (inner : Text) : Text := units "$\x7b" ++ inner ++ [u '\x7d']

/-- `SUBSCRIPT` -/
def subscript (text : Text) : Bool :=
  !text.isEmpty && text.all fun c =>
    nameChar c || (units "$@*+-\x7b\x7d").contains c || isSpace c

def readName : Text → Option (Text × Text)
  | [] => none
  | c :: rest =>
    if nameStart c then some ((c :: rest).takeWhile nameChar, (c :: rest).dropWhile nameChar)
    else if isDigit c then some ((c :: rest).takeWhile isDigit, (c :: rest).dropWhile isDigit)
    else if specialVar c then some ([c], rest)
    else none

/-- What follows a subscript, which may not be one that could run something. -/
def readSubscript (rest : Text) : Option Text :=
  if rest.head? ≠ some (u '[') then some rest
  else
    match upTo (u ']') rest with
    | none => none
    | some (before, beyond) => if subscript (before.drop 1) then some (beyond.drop 1) else none

def readVar (inner : Text) : Except Unreadable VarRead :=
  let asks : Except Unreadable VarRead := .error ⟨.expansion, some (braced inner)⟩
  if inner.head? = some (u '!') then .error ⟨.expansion, some (units "$\x7b!…\x7d")⟩
  else
    let isLength : Bool := inner.head? = some (u '#') && 1 < inner.length
    match readName (if isLength then inner.drop 1 else inner) with
    | none => asks
    | some (name, rest) =>
      match readSubscript rest with
      | none => asks
      | some rest =>
        if isLength then if rest ≠ [] then asks else .ok ⟨name, some [u '#'], []⟩
        else if rest = [] then .ok ⟨name, none, []⟩
        else
          match VAR_OPS.find? (·.isPrefixOf rest) with
          | none => asks
          | some op => .ok ⟨name, some op, rest.drop op.length⟩

/-! ## The scan -/

/-- A lexer between two tokens. -/
structure Scan where
  rest : Text
  tokens : List Token := []
  pending : List Pending := []
  parens : Nat := 0
  cases : Nat := 0
  commandPosition : Bool := true
  redirectTarget : Bool := false
  casePhase : Nat := 0

/-- Blanks, continuations and comments. `comment`: the text is in one. -/
def skipBlanks (comment : Bool) : Text → Text
  | [] => []
  | c :: rest =>
    if comment then if c = u '\n' then c :: rest else skipBlanks true rest
    else if isBlank c then skipBlanks false rest
    else if c = u '#' then skipBlanks true rest
    else if c = backslash then
      match rest with
      | d :: beyond => if d = u '\n' then skipBlanks false beyond else c :: rest
      | [] => c :: rest
    else c :: rest

/-- Whether a redirection stands there: digits before it are its descriptor. -/
def redirects : Text → Bool
  | d :: e => (d == u '<' || d == u '>') && e.head? != some (u '(')
  | [] => false

def pushWord (st : Scan) (word : Word) : Except Unreadable Scan :=
  match optionExpansion word with
  | some option => .error ⟨.expansion, some (units option)⟩
  | none =>
    let st := { st with tokens := st.tokens ++ [Token.word word] }
    let bare := bareWord word
    if st.redirectTarget then .ok { st with redirectTarget := false }
    else if st.casePhase = 1 then .ok { st with casePhase := 2 }
    else if st.casePhase = 2 then
      .ok { st with casePhase := if bare = some (units "in") then 3 else 0 }
    else if st.casePhase = 3 then
      if bare = some (units "esac") ∧ 0 < st.cases then
        .ok { st with
          casePhase := 0
          cases := st.cases - 1
          commandPosition := false }
      else .ok { st with casePhase := 0 }
    else if st.commandPosition ∧ bare = some (units "case") then
      .ok { st with
        cases := st.cases + 1
        casePhase := 1
        commandPosition := false }
    else if st.commandPosition ∧ bare = some (units "esac") ∧ 0 < st.cases then
      .ok { st with
        cases := st.cases - 1
        commandPosition := false }
    else
      .ok { st with
        commandPosition := st.commandPosition &&
          bare.any fun text =>
            KEEPS_COMMAND_POSITION.contains text || (afterAssignment text).isSome }

def liftError {α : Type} (result : Except Unreadable α) : Lex α :=
  Traced.ofExcept (result.mapError .unreadable)

def delimiterText (word : Word) : Text :=
  word.flatMap fun
    | .lit text _ => text
    | .tilde user => u '~' :: user
    | _ => []

/-- `s.slice(start, rest)` -/
def slice (start rest : Text) : Text := start.take (start.length - rest.length)

/-- The token of an operator is pushed; a here-document's waits for its body. -/
def Scan.push (st : Scan) (op : String) (fd : Option Num) : Scan :=
  { st with tokens := st.tokens ++ [Token.op op fd none none] }

/-- What an operator does to the places of the tokens around it. -/
def Scan.operated (st : Scan) (op : String) : Scan :=
  let st :=
    if op = "(" then { st with parens := st.parens + 1 }
    else if op = ")" ∧ 0 < st.parens then { st with parens := st.parens - 1 }
    else st
  if REDIRECT_OPS.contains op then
    { st with redirectTarget := op != "<<" && op != "<<-" }
  else
    { st with
      commandPosition := true
      redirectTarget := false
      casePhase := if st.casePhase = 3 ∧ op = "(" then st.casePhase else 0 }

def unescapeBacktick : Text → Text
  | [] => []
  | c :: rest =>
    if c = backslash then
      match rest with
      | d :: beyond =>
        if d = backquote ∨ d = backslash ∨ d = u '$' then d :: unescapeBacktick beyond
        else c :: unescapeBacktick (d :: beyond)
      | [] => [c]
    else c :: unescapeBacktick rest

mutual

/-- Tokens up to the end of the text, or of a nested body; true when it stopped at its `)`. -/
def scan : Nat → Env → Scan → Lex (Scan × Bool)
  | 0, _, _ => Traced.fail .outOfFuel
  | fuel + 1, env, st =>
    match skipBlanks false st.rest with
    | [] => pure ({ st with rest := [] }, false)
    | c :: after =>
      if env.nestedBody ∧ c = u ')' then
        if 0 < st.parens then
          scan fuel env { st.push ")" none with
            rest := after
            parens := st.parens - 1
            commandPosition := true }
        else if 0 < st.cases then
          scan fuel env { st.push ")" none with
            rest := after
            commandPosition := true
            casePhase := 0 }
        else pure ({ st with rest := c :: after }, true)
      else if c = u '\n' then do
        let (tokens, rest) ←
          liftError (drainHeredocs st.pending (st.tokens ++ [Token.newline]) after)
        scan fuel env { st with
          rest := rest
          tokens := tokens
          pending := []
          commandPosition := if st.casePhase ≠ 3 then true else st.commandPosition }
      else
        let digits := (c :: after).takeWhile isDigit
        let beyond := (c :: after).dropWhile isDigit
        if digits ≠ [] ∧ redirects beyond then do
          let st ← operator fuel env { st with rest := beyond } (some (Num.ofText digits))
          scan fuel env st
        else if (c = u '\x7b' ∨ c = u '\x7d') ∧ after.head?.all wordEnd then
          scan fuel env { st.push (if c = u '\x7b' then "\x7b" else "\x7d") none with
            rest := after
            commandPosition := true }
        else if (units "(;&|)<>").contains c ∧
            ¬ ((c = u '<' ∨ c = u '>') ∧ after.head? = some (u '(')) then do
          let st ← operator fuel env { st with rest := c :: after } none
          scan fuel env st
        else do
          let (word, rest) ← word fuel env [] (c :: after)
          let st ← liftError (pushWord { st with rest := rest } word)
          scan fuel env st
termination_by structural fuel => fuel

def operator : Nat → Env → Scan → Option Num → Lex Scan
  | 0, _, _, _ => Traced.fail .outOfFuel
  | fuel + 1, env, st, fd =>
    match OPERATORS.find? fun op => (units op).isPrefixOf st.rest with
    | none => ask .operator (st.rest.take 1)
    | some op =>
      let after := st.rest.drop op.length
      if op = "((" then do
        -- `(( … ))` is read to its closer here, `( (a) )` is two subshells
        let closer ← (matchArith fuel env 0 after).mapError fun
          | .unreadable error =>
            if error.reason = .substitution then
              unreadable .malformed (units "(( without ))")
            else .unreadable error
          | stop => stop
        match closer with
        | none => pure { (st.push "(" none).push "(" none with rest := after }
        | some closer =>
          pure { st with
            rest := closer.drop 2
            tokens := st.tokens ++ [Token.op op none none (some (slice after closer))] }
      else
        let st := { st.operated op with rest := after }
        if op = "<<" ∨ op = "<<-" then do
          let start := after.dropWhile isBlank
          if start.head?.all wordEnd then ask .heredoc (units "no delimiter")
          else do
            let (delimiter, rest) ← word fuel env [] start
            let raw := slice start rest
            if includes raw (units "\\\n") then ask .heredoc (units "continued delimiter")
            else
              let heredoc : Heredoc :=
                { delimiter := delimiterText delimiter
                  quoted := raw.any (units "'\"\\").contains
                  strip := op = "<<-" }
              pure { st with
                rest := rest
                tokens := st.tokens ++ [Token.op op fd (some heredoc) none]
                pending := st.pending ++ [⟨st.tokens.length, heredoc⟩] }
        else pure (st.push op fd)
termination_by structural fuel => fuel

def word : Nat → Env → Word → Text → Lex (Word × Text)
  | 0, _, _, _ => Traced.fail .outOfFuel
  | _ + 1, _, parts, [] => pure (parts, [])
  | fuel + 1, env, parts, c :: after =>
    if wordEnd c then
      if (c = u '<' ∨ c = u '>') ∧ after.head? = some (u '(') then do
        let start := after.drop 1
        let closer ← nested fuel env (after.length + 1) start
        word fuel env (parts ++ [.procsub (slice start closer) c]) (closer.drop 1)
      else pure (parts, c :: after)
    else if c = singleQuote then
      match upTo (singleQuote) after with
      | none => ask .quote (units "'")
      | some (inner, closer) => word fuel env (addLit parts inner .single) (closer.drop 1)
    else if c = doubleQuote then do
      let (more, rest) ← doubleQuoted fuel env true parts after
      -- an empty string in double quotes is an empty word, not no word
      let parts := if more.length = parts.length then addLit more [] .double else more
      word fuel env parts rest
    else if c = backslash then
      match after with
      | [] => word fuel env (addLit parts [backslash] .none) []
      | d :: rest =>
        if d = u '\n' then word fuel env parts rest
        else word fuel env (addLit parts [d] .none) rest
    else if c = u '$' then do
      let (parts, rest) ← dollar fuel env .none parts after
      word fuel env parts rest
    else if c = backquote then do
      let (text, rest) ← backtickAt fuel env after
      word fuel env (parts ++ [.subst text .none]) rest
    else if c = u '~' ∧ (parts = [] ∨ (bareWord parts).any fun text => afterAssignment text = some [])
    then
      word fuel env (parts ++ [.tilde (after.takeWhile tildeUser)]) (after.dropWhile tildeUser)
    else if c = u '*' ∨ c = u '?' then word fuel env (parts ++ [.glob [c]]) after
    else if c = u '\x7b' then do
      match ← brace fuel env after with
      | some (part, rest) => word fuel env (parts ++ [part]) rest
      | none => word fuel env (addLit parts [c] .none) after
    else word fuel env (addLit parts [c] .none) after
termination_by structural fuel => fuel

/-- Inside double quotes, the opening one read; without `terminated`, a text without its quotes. -/
def doubleQuoted : Nat → Env → Bool → Word → Text → Lex (Word × Text)
  | 0, _, _, _, _ => Traced.fail .outOfFuel
  | _ + 1, _, terminated, parts, [] =>
    if terminated then ask .quote (units "\"") else pure (parts, [])
  | fuel + 1, env, terminated, parts, c :: after =>
    if c = doubleQuote ∧ terminated then pure (parts, after)
    else if c = backslash then
      match after with
      | [] => doubleQuoted fuel env terminated (addLit parts [backslash] .double) []
      | d :: rest =>
        if d = u '\n' then doubleQuoted fuel env terminated parts rest
        else if (units "\"\\$`").contains d then
          doubleQuoted fuel env terminated (addLit parts [d] .double) rest
        else doubleQuoted fuel env terminated (addLit parts [backslash] .double) (d :: rest)
    else if c = u '$' then do
      let (parts, rest) ← dollar fuel env .double parts after
      doubleQuoted fuel env terminated parts rest
    else if c = backquote then do
      let (text, rest) ← backtickAt fuel env after
      doubleQuoted fuel env terminated (parts ++ [.subst text .double]) rest
    else doubleQuoted fuel env terminated (addLit parts [c] .double) after
termination_by structural fuel => fuel

/-- Past a `$`. -/
def dollar : Nat → Env → Quote → Word → Text → Lex (Word × Text)
  | 0, _, _, _, _ => Traced.fail .outOfFuel
  | fuel + 1, env, quote, parts, rest =>
    match rest with
    | [] => pure (addLit parts [u '$'] quote, [])
    | next :: after =>
      if next = singleQuote ∧ quote = .none then
        match upToUnescaped (singleQuote) after with
        | none => ask .quote (units "$'")
        | some (inner, closer) => do
            let text ← liftError (ansiUnescape 0 inner)
            pure (addLit parts text .single, closer.drop 1)
      else if next = doubleQuote ∧ quote = .none then doubleQuoted fuel env true parts after
      else if next = u '(' then do
        let closer ← (if after.head? = some (u '(') then matchArith fuel env 0 (after.drop 1)
          else pure none)
        match closer with
        | some closer =>
          pure (parts ++ [.arith (slice (after.drop 1) closer) quote], closer.drop 2)
        | none => do
            let closer ← nested fuel env (rest.length + 1) after
            pure (parts ++ [.subst (slice after closer) quote], closer.drop 1)
      else if next = u '\x7b' then do
        let (part, rest) ← bracedVar fuel env quote after
        pure (parts ++ [part], rest)
      else if nameStart next then
        pure (parts ++ [.var (rest.takeWhile nameChar) quote none none],
          rest.dropWhile nameChar)
      else if specialVar next then pure (parts ++ [.var [next] quote none none], after)
      else pure (addLit parts [u '$'] quote, rest)
termination_by structural fuel => fuel

/-- Past `${`: the name, an optional operator and its operand. -/
def bracedVar : Nat → Env → Quote → Text → Lex (Part × Text)
  | 0, _, _, _ => Traced.fail .outOfFuel
  | fuel + 1, env, quote, start => do
      let closer ← matchBrace fuel env 1 start
      let read ← liftError (readVar (slice start closer))
      if read.operand = [] then pure (.var read.name quote read.op none, closer.drop 1)
      else do
        let operand ← lexWordText fuel env (start.length + 2) read.operand quote
        pure (.var read.name quote read.op (some operand), closer.drop 1)
termination_by structural fuel => fuel

/-- What begins with the `))` that closes `$((`, none when the text is not arithmetic after all. -/
def matchArith : Nat → Env → Nat → Text → Lex (Option Text)
  | 0, _, _, _ => Traced.fail .outOfFuel
  | _ + 1, _, _, [] => ask .substitution (units "$((")
  | fuel + 1, env, depth, c :: after =>
    if c = backslash then matchArith fuel env depth (after.drop 1)
    else if c = singleQuote then
      match upTo (singleQuote) after with
      | none => ask .quote (units "'")
      | some (_, closer) => matchArith fuel env depth (closer.drop 1)
    else if c = doubleQuote then do
      let rest ← skipQuoted fuel env after
      matchArith fuel env depth rest
    else if c = backquote then do
      let (_, rest) ← backtickAt fuel env after
      matchArith fuel env depth rest
    else if c = u '$' ∧ after.head? = some (u '(') then do
      let closer ← nested fuel env (after.length + 1) (after.drop 1)
      matchArith fuel env depth (closer.drop 1)
    else if c = u '(' then matchArith fuel env (depth + 1) after
    else if c = u ')' then
      if depth = 0 then pure (if after.head? = some (u ')') then some (c :: after) else none)
      else matchArith fuel env (depth - 1) after
    else matchArith fuel env depth after
termination_by structural fuel => fuel

/-- What begins with the `}` that closes `${`. -/
def matchBrace : Nat → Env → Nat → Text → Lex Text
  | 0, _, _, _ => Traced.fail .outOfFuel
  | _ + 1, _, _, [] => ask .expansion (units "$\x7b")
  | fuel + 1, env, depth, c :: after =>
    if c = backslash then matchBrace fuel env depth (after.drop 1)
    else if c = singleQuote then
      match upTo (singleQuote) after with
      | none => ask .quote (units "'")
      | some (_, closer) => matchBrace fuel env depth (closer.drop 1)
    else if c = doubleQuote then do
      let rest ← skipQuoted fuel env after
      matchBrace fuel env depth rest
    else if c = backquote then do
      let (_, rest) ← backtickAt fuel env after
      matchBrace fuel env depth rest
    else if c = u '$' ∧ after.head? = some (u '(') then do
      let closer ← nested fuel env (after.length + 1) (after.drop 1)
      matchBrace fuel env depth (closer.drop 1)
    else if c = u '\x7b' then matchBrace fuel env (depth + 1) after
    else if c = u '\x7d' then
      if depth = 1 then pure (c :: after) else matchBrace fuel env (depth - 1) after
    else matchBrace fuel env depth after
termination_by structural fuel => fuel

/-- Past a `$(`, `<(` or `>(` that opens where `opener` is left: what begins with its `)`. -/
def nested : Nat → Env → Nat → Text → Lex Text
  | 0, _, _, _ => Traced.fail .outOfFuel
  | fuel + 1, env, opener, start => do
      let inner ← env.create .nested opener start.length
      let (st, closed) ← scan fuel inner { rest := start }
      if closed = false then ask .substitution (units "$(")
      else if st.pending ≠ [] then
        ask .heredoc (units "no terminator inside a substitution")
      else pure st.rest
termination_by structural fuel => fuel

/-- Past a double-quoted string, its opening quote read. -/
def skipQuoted : Nat → Env → Text → Lex Text
  | 0, _, _ => Traced.fail .outOfFuel
  | fuel + 1, env, start => do
      let inner ← env.create .quoted (start.length + 1) start.length
      let (_, rest) ← doubleQuoted fuel inner true [] start
      pure rest
termination_by structural fuel => fuel

/-- Past a backtick: the text up to the one that closes it, read by a lexer of its own, and what
follows. -/
def backtickAt : Nat → Env → Text → Lex (Text × Text)
  | 0, _, _ => Traced.fail .outOfFuel
  | fuel + 1, env, start => do
      let _ ← env.create .closing (start.length + 1) start.length
      match upToUnescaped (backquote) start with
      | none => ask .substitution (units "`")
      | some (body, closer) => do
          let text := unescapeBacktick body
          let inner ← env.create .backtick (start.length + 1) text.length
          let _ ← run fuel inner text
          pure (text, closer.drop 1)
termination_by structural fuel => fuel

/-- Past a `{`: a brace with its alternatives, none when it is a plain character. -/
def brace : Nat → Env → Text → Lex (Option (Part × Text))
  | 0, _, _ => Traced.fail .outOfFuel
  | fuel + 1, env, start =>
    match upTo (u '\x7d') start with
    | none => pure none
    | some (inner, closer) => do
        match ← expand inner with
        | none => pure none
        | some alts => do
            let words ← Traced.forEach (fun alt =>
              if alt = [] then pure []
              else do
                let inner ← env.create .alternative (start.length + 1) alt.length
                let (parts, _) ← word fuel inner [] alt
                pure parts) alts
            pure (some (.brace words, closer.drop 1))
termination_by structural fuel => fuel

/-- The operand of a parameter expansion, as a word. -/
def lexWordText : Nat → Env → Nat → Text → Quote → Lex Word
  | 0, _, _, _, _ => Traced.fail .outOfFuel
  | fuel + 1, env, opener, text, quote => do
      let inner ← env.create .operand opener text.length
      if quote = .double then do
        let (parts, _) ← doubleQuoted fuel inner false [] text
        pure parts
      else do
        let tokens ← run fuel inner text
        pure (tokens.flatMap fun
          | .word word => word
          | _ => [])
termination_by structural fuel => fuel

def run : Nat → Env → Text → Lex (List Token)
  | 0, _, _ => Traced.fail .outOfFuel
  | fuel + 1, env, text => do
      let (st, _) ← scan fuel env { rest := text }
      if st.pending ≠ [] then ask .heredoc (units "no terminator")
      else pure (st.tokens ++ [Token.eof])
termination_by structural fuel => fuel

end

/-- The lexer of a whole text. -/
def Env.top : Env where
  depth := 0
  level := 1
  operands := 0

/-- Tokens for a whole script. The fuel is more than the calls within one another. -/
def lex (text : Text) : Lex (List Token) :=
  if MAX_TEXT_CHARS < text.length then ask .length []
  else run (8 * text.length + 3) Env.top text

end Murage.Shell
