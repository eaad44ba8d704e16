import Mathlib.Data.List.Induction
import Mathlib.Tactic.Common

/-!
Owns finite runs of a labelled transition relation: the run relation, the
invariant rule, the same rule over runs whose steps all meet a side condition,
and the ranking rule that bounds the length of a run. It names no system.
-/

namespace Murage.Library.Transition

universe u v

variable {State : Type u} {Label : Type v}

/-- `Run step start labels state`: `labels`, oldest first, lead from `start` to
`state`. -/
inductive Run (step : State → Label → State → Prop) (start : State) :
    List Label → State → Prop
  | nil : Run step start [] start
  | snoc {labels : List Label} {state next : State} {label : Label} :
      Run step start labels state → step state label next →
        Run step start (labels ++ [label]) next

/-- The steps of `step` that also meet `condition` where they are taken. -/
def Restrict (step : State → Label → State → Prop) (condition : State → Label → Prop) :
    State → Label → State → Prop :=
  fun state label next => step state label next ∧ condition state label

/-- The relation of a total transition function. -/
def ofFunction (apply : State → Label → State) : State → Label → State → Prop :=
  fun state label next => next = apply state label

def Along (apply : State → Label → State) (condition : State → Label → Prop) :
    State → List Label → Prop
  | _, [] => True
  | state, label :: rest => condition state label ∧ Along apply condition (apply state label) rest

theorem along_append {apply : State → Label → State} {condition : State → Label → Prop}
    {start : State} {first second : List Label} :
    Along apply condition start (first ++ second) ↔
      Along apply condition start first ∧ Along apply condition (first.foldl apply start) second := by
  induction first generalizing start with
  | nil => exact (Iff.of_eq (true_and _)).symm
  | cons label rest ih =>
    rw [List.cons_append, Along, Along, ih, and_assoc]
    rfl

section

variable {step : State → Label → State → Prop} {start state next : State}
  {label : Label} {labels : List Label}

/-- **Invariant rule.** What holds at the start and is kept by every step holds
in every state of every run. -/
theorem Run.invariant {Inv : State → Prop} (run : Run step start labels state)
    (initial : Inv start)
    (kept : ∀ before label after, Inv before → step before label after → Inv after) :
    Inv state := by
  induction run with
  | nil => exact initial
  | snoc _ taken ih => exact kept _ _ _ ih taken

/-- The invariant rule, for a step whose label the run carries. -/
theorem Run.invariant_of_mem {Inv : State → Prop} (run : Run step start labels state)
    (initial : Inv start)
    (kept : ∀ before label after, label ∈ labels → Inv before → step before label after →
      Inv after) : Inv state := by
  induction run with
  | nil => exact initial
  | snoc _ taken ih =>
    refine kept _ _ _ (by simp) (ih fun before label after isIn => ?_) taken
    exact kept before label after (List.mem_append_left _ isIn)

/-- A run followed by a run is a run. -/
theorem Run.append {more : List Label} (first : Run step start labels state)
    (second : Run step state more next) : Run step start (labels ++ more) next := by
  induction second with
  | nil => simpa using first
  | snoc _ taken ih =>
    rw [← List.append_assoc]
    exact Run.snoc ih taken

/-- Labels fold to the run of a transition function. -/
theorem Run.foldl (apply : State → Label → State) (start : State) (labels : List Label) :
    Run (ofFunction apply) start labels (labels.foldl apply start) := by
  induction labels using List.reverseRecOn with
  | nil => exact Run.nil
  | append_singleton earlier label ih =>
    rw [List.foldl_append]
    exact ih.snoc rfl

/-- Labels that meet a condition along the way fold to a restricted run. -/
theorem Run.foldl_along {apply : State → Label → State} {condition : State → Label → Prop}
    (along : Along apply condition start labels) :
    Run (Restrict (ofFunction apply) condition) start labels (labels.foldl apply start) := by
  induction labels generalizing start with
  | nil => exact Run.nil
  | cons label rest ih =>
    have first : Run (Restrict (ofFunction apply) condition) start [label] (apply start label) :=
      Run.nil.snoc ⟨rfl, along.1⟩
    exact first.append (ih along.2)

/-- Two restrictions are one. -/
theorem Run.restrict_restrict {first second : State → Label → Prop}
    (run : Run (Restrict step fun state label => first state label ∧ second state label)
      start labels state) : Run (Restrict (Restrict step first) second) start labels state := by
  induction run with
  | nil => exact Run.nil
  | snoc _ taken ih =>
    exact ih.snoc ⟨⟨taken.1, taken.2.1⟩, taken.2.2⟩

/-- **Ranking rule.** When every step from an invariant state lowers `rank`, a
run is at most as long as the rank it starts from. -/
theorem Run.length_add_rank_le {Inv : State → Prop} {rank : State → Nat}
    (run : Run step start labels state) (initial : Inv start)
    (kept : ∀ before label after, Inv before → step before label after → Inv after)
    (lowers : ∀ before label after, Inv before → step before label after →
      rank after < rank before) :
    labels.length + rank state ≤ rank start := by
  induction run with
  | nil => simp
  | snoc prior taken ih =>
    have drop := lowers _ _ _ (prior.invariant initial kept) taken
    rw [List.length_append, List.length_singleton]
    omega

/-- A run is empty or ends with a step from a state a run reaches. -/
theorem Run.eq_or_last (run : Run step start labels state) :
    (labels = [] ∧ state = start) ∨
      ∃ before label prior, Run step start prior before ∧ step before label state := by
  cases run with
  | nil => exact Or.inl ⟨rfl, rfl⟩
  | snoc prior taken => exact Or.inr ⟨_, _, _, prior, taken⟩

end

end Murage.Library.Transition
