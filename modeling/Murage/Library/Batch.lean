import Mathlib.Data.List.Basic
import Mathlib.Tactic.Common

/-!
Owns atomic batches of SQL statements: a statement sees the tables and the number
of rows the statement before it changed (`changes()`), and a batch in which one
statement fails leaves the tables as they were. It names no schema; the rules are
for a batch that keeps an invariant, that keeps a relation, and for one with
assertions between its statements.
-/

namespace Murage.Library.Batch

variable {Db Row : Type}

/-- Why a statement fails. -/
inductive SqlError where
  | unique
  | check
deriving DecidableEq, Repr

/-- What a statement leaves: the tables, how many rows it changed and the rows it
returns. -/
structure Outcome (Db Row : Type) where
  db : Db
  changes : Nat
  rows : List Row
deriving DecidableEq, Repr

/-- A statement, from `changes()` and the tables. -/
abbrev Statement (Db Row : Type) := Nat → Db → Except SqlError (Outcome Db Row)

def run : List (Statement Db Row) → Nat → Db → Except SqlError (Db × List (List Row))
  | [], _, db => .ok (db, [])
  | statement :: rest, changes, db =>
    match statement changes db with
    | .error error => .error error
    | .ok outcome =>
      match run rest outcome.changes outcome.db with
      | .error error => .error error
      | .ok (final, rows) => .ok (final, outcome.rows :: rows)

def batch (statements : List (Statement Db Row)) (db : Db) :
    Db × Except SqlError (List (List Row)) :=
  match run statements 0 db with
  | .error error => (db, .error error)
  | .ok (final, rows) => (final, .ok rows)

/-- The rows one statement of a batch returned. -/
def rowsOf (result : Except SqlError (List (List Row))) (index : Nat) :
    Except SqlError (List Row) :=
  result.map fun rows => rows.getD index []

section Rules

variable {statements : List (Statement Db Row)} {db : Db}

theorem run_nil (changes : Nat) : run ([] : List (Statement Db Row)) changes db = .ok (db, []) :=
  rfl

theorem run_cons {statement : Statement Db Row} {changes : Nat} {outcome : Outcome Db Row}
    (done : statement changes db = .ok outcome) :
    run (statement :: statements) changes db =
      match run statements outcome.changes outcome.db with
      | .error error => .error error
      | .ok (final, rows) => .ok (final, outcome.rows :: rows) := by
  simp [run, done]

/-! ## Pre- and postconditions -/

/-- `statement` takes `changes()` and tables that meet `before` to ones that meet
`after`, when it does not fail. -/
def Ensures (before : Nat → Db → Prop) (statement : Statement Db Row) (after : Nat → Db → Prop) :
    Prop :=
  ∀ changes db outcome, before changes db → statement changes db = .ok outcome →
    after outcome.changes outcome.db

/-- Assertions that hold between the statements of a batch. -/
inductive Chain : (Nat → Db → Prop) → List (Statement Db Row) → (Nat → Db → Prop) → Prop
  | nil {assertion : Nat → Db → Prop} : Chain assertion [] assertion
  | cons {before between after : Nat → Db → Prop} {statement : Statement Db Row}
      {rest : List (Statement Db Row)} :
      Ensures before statement between → Chain between rest after →
        Chain before (statement :: rest) after

theorem Chain.append {before between after : Nat → Db → Prop}
    {first second : List (Statement Db Row)} (left : Chain before first between)
    (right : Chain between second after) : Chain before (first ++ second) after := by
  induction left with
  | nil => exact right
  | cons here _ ih => exact Chain.cons here (ih right)

/-- Statements that each keep an assertion. -/
theorem Chain.kept {assertion : Nat → Db → Prop}
    (kept : ∀ statement ∈ statements, Ensures assertion statement assertion) :
    Chain assertion statements assertion := by
  induction statements with
  | nil => exact Chain.nil
  | cons statement rest ih =>
    exact Chain.cons (kept statement (by simp))
      (ih fun other isIn => kept other (List.mem_cons_of_mem _ isIn))

/-- **Chain rule.** A batch changes nothing or ends where its chain ends. -/
theorem batch_chain {before after : Nat → Db → Prop} (chain : Chain before statements after)
    (initial : before 0 db) :
    (batch statements db).1 = db ∨ ∃ changes, after changes (batch statements db).1 := by
  have ran : ∀ changes tables final rows, before changes tables →
      run statements changes tables = .ok (final, rows) → ∃ changes, after changes final := by
    clear initial
    induction chain with
    | nil =>
      intro changes tables final rows holds done
      rw [run_nil, Except.ok.injEq, Prod.mk.injEq] at done
      exact ⟨changes, done.1 ▸ holds⟩
    | @cons before between after statement rest here _ ih =>
      intro changes tables final rows holds done
      cases first : statement changes tables with
      | error error => simp [run, first] at done
      | ok outcome =>
        rw [run_cons first] at done
        cases later : run rest outcome.changes outcome.db with
        | error error => simp [later] at done
        | ok ended =>
          rw [later] at done
          have isFinal : ended.1 = final := congrArg Prod.fst (Except.ok.inj done)
          exact isFinal ▸ ih _ _ _ _ (here _ _ _ holds first) later
  unfold batch
  cases done : run statements 0 db with
  | error error => exact Or.inl rfl
  | ok ended => exact Or.inr (ran 0 db ended.1 ended.2 initial done)

/-- **Relation rule.** A reflexive and transitive relation that every statement
keeps is kept by the batch. -/
theorem batch_related {related : Db → Db → Prop} (reflexive : ∀ db, related db db)
    (transitive : ∀ a b c, related a b → related b c → related a c)
    (kept : ∀ statement ∈ statements, ∀ changes before outcome,
      statement changes before = .ok outcome → related before outcome.db) :
    related db (batch statements db).1 := by
  have chain : Chain (fun _ tables => related db tables) statements
      (fun _ tables => related db tables) :=
    Chain.kept fun statement isIn changes before outcome holds done =>
      transitive _ _ _ holds (kept statement isIn changes before outcome done)
  rcases batch_chain chain (reflexive db) with same | ⟨_, holds⟩
  · rw [same]
    exact reflexive db
  · exact holds

/-- **Invariant rule.** -/
theorem batch_invariant {Inv : Db → Prop} (initial : Inv db)
    (kept : ∀ statement ∈ statements, ∀ changes before outcome, Inv before →
      statement changes before = .ok outcome → Inv outcome.db) :
    Inv (batch statements db).1 := by
  have chain : Chain (fun _ tables => Inv tables) statements (fun _ tables => Inv tables) :=
    Chain.kept fun statement isIn changes before outcome holds done =>
      kept statement isIn changes before outcome holds done
  rcases batch_chain chain initial with same | ⟨_, holds⟩
  · rw [same]
    exact initial
  · exact holds

end Rules

end Murage.Library.Batch
