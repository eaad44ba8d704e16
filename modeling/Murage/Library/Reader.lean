import Mathlib.Data.List.Basic
import Mathlib.Tactic.Common

/-!
Owns readers with a cursor and what it is for one to read a grammar exactly: it answers a value
precisely where the input goes on with a sentence for that value, and stops right after it. The
rules are those of the reader's own constructors. It names no format.
-/

namespace Murage.Library.Reader

universe u

variable {β ε α γ : Type u}

abbrev Reads (β ε : Type u) := StateT (List β) (Except ε)

/-- Which sentences stand for which values. -/
abbrev Grammar (β α : Type u) := α → List β → Prop

def Exact (reader : Reads β ε α) (grammar : Grammar β α) : Prop :=
  ∀ input value rest, reader input = .ok (value, rest) ↔
    ∃ sentence, input = sentence ++ rest ∧ grammar value sentence

/-- A value read, then what the value decides. -/
def andThen (first : Grammar β α) (second : α → Grammar β γ) : Grammar β γ :=
  fun value sentence => ∃ seen front back,
    sentence = front ++ back ∧ first seen front ∧ second seen value back

theorem bind_eq_ok {reader : Reads β ε α} {next : α → Reads β ε γ} {input rest : List β} {value : γ} :
    (reader >>= next) input = .ok (value, rest) ↔
      ∃ seen middle, reader input = .ok (seen, middle) ∧ next seen middle = .ok (value, rest) := by
  have isBind : (reader >>= next) input = reader input >>= fun pair => next pair.1 pair.2 := rfl
  rw [isBind]
  cases reader input with
  | error message => exact ⟨(nomatch ·), fun ⟨_, _, isOk, _⟩ => nomatch isOk⟩
  | ok pair =>
    constructor
    · intro isRead
      exact ⟨pair.1, pair.2, rfl, isRead⟩
    · rintro ⟨seen, middle, isPair, isRead⟩
      obtain rfl := Except.ok.inj isPair
      exact isRead

namespace Exact

variable {reader : Reads β ε α} {grammar : Grammar β α}

theorem congr (exact : Exact reader grammar) {other : Grammar β α}
    (same : ∀ value sentence, grammar value sentence ↔ other value sentence) : Exact reader other := by
  intro input value rest
  rw [exact input value rest]
  exact exists_congr fun sentence => and_congr_right fun _ => same value sentence

/-- A value that is there without reading. -/
theorem pure (value : α) :
    Exact (Pure.pure value : Reads β ε α) fun other sentence => other = value ∧ sentence = [] := by
  intro input other rest
  show (Except.ok (value, input) : Except ε (α × List β)) = .ok (other, rest) ↔ _
  constructor
  · intro isRead
    obtain ⟨rfl, rfl⟩ := Prod.mk.inj (Except.ok.inj isRead)
    exact ⟨[], rfl, rfl, rfl⟩
  · rintro ⟨sentence, rfl, rfl, rfl⟩
    rfl

/-- A throw reads nothing. -/
theorem throw (message : ε) : Exact (MonadExcept.throw message : Reads β ε α) fun _ _ => False := by
  intro input value rest
  exact ⟨(nomatch ·), fun ⟨_, _, impossible⟩ => impossible.elim⟩

theorem bind (exact : Exact reader grammar) {next : α → Reads β ε γ} {second : α → Grammar β γ}
    (exactNext : ∀ value, Exact (next value) (second value)) :
    Exact (reader >>= next) (andThen grammar second) := by
  intro input value rest
  rw [bind_eq_ok]
  constructor
  · rintro ⟨seen, middle, isFirst, isSecond⟩
    obtain ⟨front, rfl, inFirst⟩ := (exact _ _ _).mp isFirst
    obtain ⟨back, rfl, inSecond⟩ := (exactNext seen _ _ _).mp isSecond
    exact ⟨front ++ back, (List.append_assoc ..).symm, seen, front, back, rfl, inFirst, inSecond⟩
  · rintro ⟨_, rfl, seen, front, back, rfl, inFirst, inSecond⟩
    refine ⟨seen, back ++ rest, (exact _ _ _).mpr ⟨front, List.append_assoc .., inFirst⟩, ?_⟩
    exact (exactNext seen _ _ _).mpr ⟨back, rfl, inSecond⟩

/-- A value read and used, with nothing read after it. -/
theorem map (exact : Exact reader grammar) (f : α → γ) :
    Exact (reader >>= fun value => Pure.pure (f value))
      fun other sentence => ∃ value, other = f value ∧ grammar value sentence := by
  refine (exact.bind fun value => Exact.pure (f value)).congr fun other sentence => ?_
  constructor
  · rintro ⟨value, front, _, rfl, inFirst, rfl, rfl⟩
    rw [List.append_nil]
    exact ⟨value, rfl, inFirst⟩
  · rintro ⟨value, rfl, inFirst⟩
    exact ⟨value, sentence, [], (List.append_nil _).symm, inFirst, rfl, rfl⟩

theorem ite {condition : Prop} [Decidable condition] {left right : Reads β ε α}
    {leftGrammar rightGrammar : Grammar β α} (exactLeft : condition → Exact left leftGrammar)
    (exactRight : ¬condition → Exact right rightGrammar) :
    Exact (if condition then left else right)
      fun value sentence => if condition then leftGrammar value sentence else rightGrammar value sentence := by
  by_cases holds : condition
  · simp only [if_pos holds]
    exact exactLeft holds
  · simp only [if_neg holds]
    exact exactRight holds

/-- **One reading.** Where a grammar is read exactly, an input goes on with one sentence of it
only, for one value. -/
theorem unique (exact : Exact reader grammar) {left right : α} {first second leftRest rightRest : List β}
    (inLeft : grammar left first) (inRight : grammar right second)
    (same : first ++ leftRest = second ++ rightRest) :
    left = right ∧ first = second ∧ leftRest = rightRest := by
  have isLeft : reader (first ++ leftRest) = .ok (left, leftRest) := (exact _ _ _).mpr ⟨first, rfl, inLeft⟩
  have isRight : reader (first ++ leftRest) = .ok (right, rightRest) :=
    (exact _ _ _).mpr ⟨second, same, inRight⟩
  obtain ⟨rfl, rfl⟩ := Prod.mk.inj (Except.ok.inj (isLeft.symm.trans isRight))
  exact ⟨rfl, List.append_cancel_right same, rfl⟩

end Exact

end Murage.Library.Reader
