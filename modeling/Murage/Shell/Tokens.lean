import Murage.Library.Traced
import Murage.Shell.Text

/-!
Owns what the reader of shell text produces: words and their parts, tokens, the reasons it gives
for text it cannot read, and the parts of its work that read no further text: literal parts,
options that an expansion would make, decoded escapes and here-documents.

Does not own: the scanning.
-/

namespace Murage.Shell

open Murage.Library

/-! ## Errors -/

/-- The reasons of `Unreadable` that the lexer gives; `malformed` is its "syntax". -/
inductive UnreadableReason where
  | length
  | quote
  | heredoc
  | substitution
  | expansion
  | operator
  | malformed
  | escape
  | depth
deriving DecidableEq, Repr

structure Unreadable where
  reason : UnreadableReason
  detail : Option Text := none
deriving DecidableEq, Repr

/-- How reading ends without a result: the text is unreadable, a loop of the code does not end, or
the model's own bound on its steps is used up. -/
inductive Stop where
  | unreadable (error : Unreadable)
  | endless
  | outOfFuel
deriving DecidableEq, Repr

def unreadable (reason : UnreadableReason) (detail : Text) : Stop :=
  .unreadable ⟨reason, if detail = [] then none else some detail⟩

/-! ## Words -/

inductive Quote where
  | none
  | single
  | double
deriving DecidableEq, Repr

inductive Part where
  | lit (text : Text) (quote : Quote)
  | var (name : Text) (quote : Quote) (op : Option Text) (word : Option (List Part))
  | subst (text : Text) (quote : Quote)
  | arith (text : Text) (quote : Quote)
  | procsub (text : Text) (dir : UInt16)
  | tilde (user : Text)
  | glob (text : Text)
  | brace (alts : List (List Part))

abbrev Word := List Part

/-- A literal part is joined to the literal before it when their quoting is the same. -/
def addLit (parts : Word) (text : Text) (quote : Quote) : Word :=
  match parts.getLast? with
  | some (.lit before other) =>
    if other = quote then parts.dropLast ++ [.lit (before ++ text) quote]
    else parts ++ [.lit text quote]
  | _ => parts ++ [.lit text quote]

def Part.bare : Part → Option Text
  | .lit text .none => some text
  | _ => none

def bareWord : Word → Option Text
  | [part] => part.bare
  | _ => none

/-- What follows the `=` of an assignment: `^[A-Za-z_][A-Za-z0-9_]*\+?=`. -/
def afterAssignment : Text → Option Text
  | [] => none
  | c :: rest =>
    if nameStart c then
      match rest.dropWhile nameChar with
      | d :: e :: beyond =>
        if d = u '=' then some (e :: beyond)
        else if d = u '+' ∧ e = u '=' then some beyond
        else none
      | [d] => if d = u '=' then some [] else none
      | [] => none
    else none

/-! ## Tokens -/

structure Heredoc where
  delimiter : Text
  quoted : Bool
  strip : Bool
  body : Text := []
deriving DecidableEq, Repr

inductive Token where
  | word (word : Word)
  | op (op : String) (fd : Option Num) (heredoc : Option Heredoc) (arith : Option Text)
  | newline
  | eof

def OPERATORS : List String :=
  [";;&", ";;", ";&", ";", "&&", "&>>", "&>", "&", "||", "|&", "|",
    "((", "(", "))", ")", "<<<", "<<-", "<<", "<&", "<>", "<", ">>", ">&", ">|", ">"]

def KEEPS_COMMAND_POSITION : List Text :=
  ["then", "do", "else", "elif", "if", "while", "until", "!", "time", "\x7b"].map units

def REDIRECT_OPS : List String :=
  ["<<<", "<<-", "<<", "<&", "<>", "<", ">>", ">&", ">|", ">", "&>", "&>>"]

/-- The operators after the name of a parameter expansion, in the order they are tried. -/
def VAR_OPS : List Text :=
  [":-", ":=", ":+", ":?", "##", "#", "%%", "%", "//", "/#", "/%", "/", "^^", "^", ",,", ",", "-",
    "=", "+", "?", ":"].map units

def MAX_TEXT_CHARS : Nat := 256 * 1024
def MAX_BRACE_ALTS : Nat := 512
def MAX_LEX_DEPTH : Nat := 64

/-! ## Options that an expansion makes -/

def leadOf : Word → Text
  | .lit text _ :: rest => text ++ leadOf rest
  | _ => []

def firstExpansion : Word → Option Part
  | [] => none
  | .lit _ _ :: rest => firstExpansion rest
  | part :: _ => some part

/-- Whether a `[` stands before the first `=` of a text. -/
def opensGlob (text : Text) : Bool :=
  match text.idxOf? (u '['), text.idxOf? (u '=') with
  | some opened, some assigned => opened < assigned
  | some _, none => true
  | none, _ => false

/-- The walk over a word that starts with `-`. -/
def optionWalk (before : Text) : Word → Option String
  | [] => none
  | .lit text _ :: rest =>
    if ¬ before.contains (u '=') ∧ opensGlob text then some "a glob in an option"
    else optionWalk (before ++ text) rest
  | .var .. :: rest => optionWalk before rest
  | .tilde _ :: rest => optionWalk before rest
  | .brace _ :: rest =>
    if before.contains (u '=') then optionWalk before rest else some "a brace in an option"
  | .glob _ :: rest =>
    if before.contains (u '=') then optionWalk before rest else some "a glob in an option"
  | _ :: _ => some "a substitution in an option"

/-- Why a word in option position cannot be read by its spelling. -/
def optionExpansion (word : Word) : Option String :=
  let lead := leadOf word
  let after := firstExpansion word
  let makesOption : Bool :=
    match after with
    | some (.brace alts) => lead = [] && alts.any fun alt => (leadOf alt).head? == some (u '-')
    | _ => false
  if makesOption then some "a brace that expands to an option"
  else if lead.head? ≠ some (u '-') ∨ (lead.length < 2 ∧ after.isNone) then none
  else optionWalk [] word

/-! ## Decoded escapes -/

def ansiSimple (c : UInt16) : Option UInt16 :=
  if c = u 'n' then some 10
  else if c = u 't' then some 9
  else if c = u 'r' then some 13
  else if c = backslash ∨ c = singleQuote ∨ c = doubleQuote ∨ c = u '?' then some c
  else if c = u 'a' then some 7
  else if c = u 'b' then some 8
  else if c = u 'e' ∨ c = u 'E' then some 27
  else if c = u 'f' then some 12
  else if c = u 'v' then some 11
  else none

def isHex (c : UInt16) : Bool :=
  isDigit c || (u 'a' ≤ c && c ≤ u 'f') || (u 'A' ≤ c && c ≤ u 'F')

def isOctal (c : UInt16) : Bool := u '0' ≤ c && c ≤ u '7'

def digitValue (c : UInt16) : Nat :=
  if isDigit c then c.toNat - 48 else if c ≤ u 'F' then c.toNat - 55 else c.toNat - 87

def valueOf (base : Nat) (digits : Text) : Nat :=
  digits.foldl (fun value c => base * value + digitValue c) 0

/-- `String.fromCodePoint` -/
def fromCodePoint (code : Nat) : Text :=
  if code < 0x10000 then [code.toUInt16]
  else
    let beyond := code - 0x10000
    [(0xd800 + beyond / 0x400).toUInt16, (0xdc00 + beyond % 0x400).toUInt16]

def decoded (code : Nat) (spelled : Text) : Except Unreadable Text :=
  if code = 0 then .error ⟨.escape, some (units "NUL in $'…' (" ++ spelled ++ units ")")⟩
  else if 0x10ffff < code ∨ (0xd800 ≤ code ∧ code ≤ 0xdfff) then
    .error ⟨.escape, some (spelled ++ units " in $'…'")⟩
  else .ok (fromCodePoint code)

/-- The digits of a numeric escape at `x`, `u`, `U` or an octal digit, with their base and the
whole of what is spelled. -/
def numericEscape : Text → Option (Nat × Text × Text)
  | [] => none
  | c :: rest =>
    let digits (most : Nat) := (rest.take most).takeWhile isHex
    let hex (most : Nat) :=
      if digits most = [] then none else some (16, digits most, c :: digits most)
    if c = u 'x' then hex 2
    else if c = u 'u' then hex 4
    else if c = u 'U' then hex 8
    else
      let octal := ((c :: rest).take 3).takeWhile isOctal
      if octal = [] then none else some (8, octal, octal)

/-- The first code unit of `toUpperCase` where it is at most 0x7f; the other characters stay, and
they are above it too. -/
def upperAscii (c : UInt16) : UInt16 :=
  if u 'a' ≤ c ∧ c ≤ u 'z' then c - 32
  else if c = 0x131 then u 'I'
  else if c = 0x17f then u 'S'
  else if c = 0xdf then u 'S'
  else if c = 0x1f0 then u 'J'
  else if c = 0x1e96 then u 'H'
  else if c = 0x1e97 then u 'T'
  else if c = 0x1e98 then u 'W'
  else if c = 0x1e99 then u 'Y'
  else if c = 0x1e9a then u 'A'
  else if 0xfb00 ≤ c ∧ c ≤ 0xfb04 then u 'F'
  else if c = 0xfb05 ∨ c = 0xfb06 then u 'S'
  else c

/-- `$'…'` with its escapes decoded. `skip` code units of the text are spelled by the escape
before them. -/
def ansiUnescape (skip : Nat) : Text → Except Unreadable Text
  | [] => .ok []
  | c :: rest =>
    match skip with
    | skip + 1 => ansiUnescape skip rest
    | 0 =>
      let more (text : Text) (skip : Nat) : Except Unreadable Text :=
        (ansiUnescape skip rest).map (text ++ ·)
      if c ≠ backslash then more [c] 0
      else
        match rest with
        | [] => .error ⟨.escape, some (units "$'…' ends with \\")⟩
        | next :: beyond =>
          match ansiSimple next with
          | some simple => more [simple] 1
          | none =>
            match numericEscape rest with
            | some (base, digits, spelled) =>
              match decoded (valueOf base digits) (backslash :: spelled) with
              | .error error => .error error
              | .ok text => more text spelled.length
            | none =>
              if next = u 'c' then
                match beyond with
                | [] => .error ⟨.escape, some (units "$'…' ends with \\c")⟩
                | target :: _ =>
                  let code := (upperAscii target).toNat
                  let spelled := units "\\c" ++ [target]
                  if 0x7f < code then
                    .error ⟨.escape, some (spelled ++ units " in $'…'")⟩
                  else
                    match decoded (code ^^^ 0x40) spelled with
                    | .error error => .error error
                    | .ok text => more text 2
              else .error ⟨.escape, some (backslash :: next :: units " in $'…'")⟩

/-! ## Here-documents -/

/-- The body of a here-document whose lines are read from `lines`: the lines before the one that is
its delimiter, and the lines after it. `line` and `compare` are the logical line so far. -/
def heredocBody (heredoc : Heredoc) (line compare : Text) (body : List Text) :
    List Text → Option (List Text × List Text)
  | [] => none
  | physical :: rest =>
    let stripped := if heredoc.strip then physical.dropWhile (· == u '\t') else physical
    let run := (physical.reverse.takeWhile (· == backslash)).length
    if heredoc.quoted = false ∧ run % 2 = 1 ∧ rest ≠ [] then
      heredocBody heredoc (line ++ physical.dropLast) (compare ++ stripped.dropLast) body rest
    else if compare ++ stripped = heredoc.delimiter then some (body, rest)
    else heredocBody heredoc [] [] (body ++ [line ++ physical]) rest

/-- A here-document opened on the current line, with the place of its token. -/
structure Pending where
  token : Nat
  heredoc : Heredoc

def Token.withHeredoc (heredoc : Heredoc) : Token → Token
  | .op text fd _ arithmetic => .op text fd (some heredoc) arithmetic
  | other => other

def drainHeredocs : List Pending → List Token → Text → Except Unreadable (List Token × Text)
  | [], tokens, rest => .ok (tokens, rest)
  | pending :: others, tokens, rest =>
    match heredocBody pending.heredoc [] [] [] (splitOn (u '\n') rest) with
    | none =>
      .error ⟨.heredoc, some (units "no terminator " ++ pending.heredoc.delimiter)⟩
    | some (lines, left) =>
      let heredoc :=
        { pending.heredoc with body := lines.flatMap fun line => line ++ [u '\n'] }
      drainHeredocs others (tokens.modify pending.token (Token.withHeredoc heredoc))
        (joinWith (u '\n') left)

end Murage.Shell
