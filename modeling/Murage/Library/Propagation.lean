import Mathlib.Order.Bounds.Basic

/-!
Owns: positions carried along the edges of a graph, where an edge may be closed to high positions,
and what a set of marks must satisfy to hold the least position of every node. It names no system.
-/

namespace Murage.Library.Propagation

variable {ν ε κ : Type*} [LinearOrder κ]

/-- How edges carry positions: what a position becomes, and which positions an edge lets through. A
smaller position is let through wherever a larger one is and stays at most what the larger one
becomes. -/
structure Carrying (ν ε κ : Type*) [LinearOrder κ] where
  source : ε → ν
  target : ε → ν
  lets : ε → κ → Prop
  moved : ε → κ → κ
  lets_of_le : ∀ edge low high, low ≤ high → lets edge high → lets edge low
  moved_le : ∀ edge low high, low ≤ high → moved edge low ≤ moved edge high

inductive Reaches (carrying : Carrying ν ε κ) (seeds : ν → κ → Prop) : ν → κ → Prop
  | seed {node position} : seeds node position → Reaches carrying seeds node position
  | carried {edge position} : Reaches carrying seeds (carrying.source edge) position →
      carrying.lets edge position →
      Reaches carrying seeds (carrying.target edge) (carrying.moved edge position)

/-- The node's marks go on over the edge: it lets nothing of the mark through, or the node behind it
has a mark at most what is carried there. -/
def GoesOn (carrying : Carrying ν ε κ) (marks : ν → κ → Prop) (position : κ) (edge : ε) : Prop :=
  carrying.lets edge position →
    ∃ other ≤ carrying.moved edge position, marks (carrying.target edge) other

variable {carrying : Carrying ν ε κ} {seeds marks : ν → κ → Prop}

/-- Marks that every edge goes on from are below everything that reaches a node. -/
theorem Reaches.marked
    (isSeeded : ∀ node position, seeds node position → ∃ other ≤ position, marks node other)
    (isClosed : ∀ position edge, marks (carrying.source edge) position →
      GoesOn carrying marks position edge)
    {node : ν} {position : κ} (isReached : Reaches carrying seeds node position) :
    ∃ other ≤ position, marks node other := by
  induction isReached with
  | seed isSeed => exact isSeeded _ _ isSeed
  | @carried edge position _ isLet ih =>
    obtain ⟨low, isLow, isMark⟩ := ih
    obtain ⟨other, isOther, isIn⟩ :=
      isClosed low edge isMark (carrying.lets_of_le edge low position isLow isLet)
    exact ⟨other, isOther.trans (carrying.moved_le edge low position isLow), isIn⟩

/-- **The least marks are the least positions.** -/
theorem least_marks
    (isSeeded : ∀ node position, seeds node position → ∃ other ≤ position, marks node other)
    (isClosed : ∀ position edge, marks (carrying.source edge) position →
      GoesOn carrying marks position edge)
    (isSound : ∀ node position, marks node position → Reaches carrying seeds node position)
    (node : ν) (position : κ) :
    IsLeast {position | marks node position} position ↔
      IsLeast {position | Reaches carrying seeds node position} position := by
  constructor
  · rintro ⟨isMark, isLowest⟩
    refine ⟨isSound node position isMark, fun other isReached => ?_⟩
    obtain ⟨low, isLow, isIn⟩ := Reaches.marked isSeeded isClosed isReached
    exact (isLowest isIn).trans isLow
  · rintro ⟨isReached, isLowest⟩
    obtain ⟨low, isLow, isIn⟩ := Reaches.marked isSeeded isClosed isReached
    obtain rfl : low = position := le_antisymm isLow (isLowest (isSound node low isIn))
    exact ⟨isIn, fun other isMark => isLowest (isSound node other isMark)⟩

end Murage.Library.Propagation
