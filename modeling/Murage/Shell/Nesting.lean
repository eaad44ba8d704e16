import Murage.Shell.Total

/-!
Owns what the reading of a whole text promises: it ends with tokens or with an error, no more than
65 lexers are ever in one another, deeper nesting is an error, and each lexer reads less than the
construct it was created for; and on which texts it keeps that.

Does not own: what the tokens are.
-/

namespace Murage.Shell

open Murage.Library.Traced (Meets)

structure ReadsWithin (run : Lex (List Token)) : Prop where
  total : (∃ before, run.outcome = .ok (before ++ [Token.eof])) ∨
    ∃ error, run.outcome = .error (.unreadable error)
  shallow : ∀ site level operands opener left,
    .lexer site level operands opener left ∈ run.events → level ≤ MAX_LEX_DEPTH + 1
  reported : ∀ site level operands opener left,
    .refused site level operands opener left ∈ run.events →
      run.outcome = .error (unreadable .depth [])
  shorter : ∀ site level operands opener left,
    .lexer site level operands opener left ∈ run.events ∨
      .refused site level operands opener left ∈ run.events → left < opener

/-- What a step has to be for it: a lexer inside the operand of an expansion, where the count began
again, is created while at most 64 are in one another, and a range of numbers moves on from each
of its numbers. -/
def Event.Counts : Event → Prop
  | .lexer _ level operands _ _ => operands = 0 ∨ level ≤ MAX_LEX_DEPTH + 1
  | .refused .. => True
  | .range lo hi => (rangeNumbers lo hi).isSome

theorem lex_meets (text : Text) :
    Meets reading (fun out => ∃ before, out = before ++ [Token.eof]) (lex text) := by
  have isFit : Env.top.Fits := ⟨by decide, by decide⟩
  rw [lex]
  split
  · exact ask_meets nofun
  · exact (works_all _).run isFit (by omega)

/-- `count` expansions, each the operand of the one around it. -/
def nestedOperands : Nat → Text
  | 0 => units "b"
  | count + 1 => units "$\x7ba-" ++ nestedOperands count ++ [u '\x7d']

def Event.isDeep : Event → Bool
  | .lexer _ level _ _ _ => MAX_LEX_DEPTH + 1 < level
  | _ => false

def isEndless (run : Lex (List Token)) : Bool :=
  match run.outcome with
  | .error .endless => true
  | _ => false

end Murage.Shell
