import Mathlib.Logic.Relation
import Mathlib.Tactic.Common

/-!
Owns links between nodes: what a change of one node's links leaves of what it reaches, and the
chains of a bounded length. It names no system.
-/

namespace Murage.Library.Links

open Relation

universe u

variable {α : Type u} {links edited : α → α → Prop} {node top bottom middle : α}

def Without (node : α) (links : α → α → Prop) : α → α → Prop :=
  fun lower upper => lower ≠ node ∧ links lower upper

def EditedAt (node : α) (links edited : α → α → Prop) : Prop :=
  ∀ lower upper, lower ≠ node → (edited lower upper ↔ links lower upper)

theorem Without.link (path : TransGen (Without node links) bottom top) :
    TransGen links bottom top :=
  TransGen.mono (fun _ _ link => link.2) _ _ path

theorem EditedAt.without (isEdit : EditedAt node links edited) :
    Without node edited = Without node links := by
  funext lower upper
  refine propext ⟨fun link => ?_, fun link => ?_⟩
  · exact ⟨link.1, (isEdit lower upper link.1).mp link.2⟩
  · exact ⟨link.1, (isEdit lower upper link.1).mpr link.2⟩

/-- The first node of a chain without a node is another one. -/
theorem Without.bottom_ne (path : TransGen (Without node links) bottom top) : bottom ≠ node := by
  induction path with
  | single link => exact link.1
  | tail _ _ ih => exact ih

/-- A chain does not pass a node, or it leads to the node and goes on by one of its links and
never comes back. -/
theorem split_at (node : α) (path : TransGen links bottom top) :
    TransGen (Without node links) bottom top ∨
      ReflTransGen (Without node links) bottom node ∧
        ∃ next, links node next ∧ ReflTransGen (Without node links) next top := by
  induction path with
  | single link =>
    by_cases isNode : bottom = node
    · subst isNode
      exact Or.inr ⟨ReflTransGen.refl, _, link, ReflTransGen.refl⟩
    · exact Or.inl (TransGen.single ⟨isNode, link⟩)
  | @tail passed upper _ link ih =>
    by_cases isNode : passed = node
    · subst isNode
      refine Or.inr ⟨?_, _, link, ReflTransGen.refl⟩
      rcases ih with avoids | ⟨leads, -⟩
      · exact avoids.to_reflTransGen
      · exact leads
    · refine ih.imp (fun avoids => avoids.tail ⟨isNode, link⟩) ?_
      rintro ⟨leads, next, first, onward⟩
      exact ⟨leads, next, first, onward.tail ⟨isNode, link⟩⟩

/-- **A chain after an edit** was there before, or it leads to the edited node and goes on by one
of its new links and what was there before. -/
theorem EditedAt.cases (isEdit : EditedAt node links edited) (path : TransGen edited bottom top) :
    (bottom ≠ node ∧ TransGen links bottom top) ∨
      (bottom = node ∨ bottom ≠ node ∧ TransGen links bottom node) ∧
        ∃ next, edited node next ∧ (next = top ∨ next ≠ node ∧ TransGen links next top) := by
  have before : ∀ {lower upper : α}, TransGen (Without node edited) lower upper →
      lower ≠ node ∧ TransGen links lower upper := by
    intro lower upper avoids
    rw [isEdit.without] at avoids
    exact ⟨Without.bottom_ne avoids, Without.link avoids⟩
  rcases split_at node path with avoids | ⟨leads, next, first, onward⟩
  · exact Or.inl (before avoids)
  · refine Or.inr ⟨?_, next, first, ?_⟩
    · exact (reflTransGen_iff_eq_or_transGen.mp leads).imp Eq.symm before
    · exact (reflTransGen_iff_eq_or_transGen.mp onward).imp Eq.symm before

def Chain (links : α → α → Prop) : Nat → α → α → Prop
  | 0, bottom, top => links bottom top
  | n + 1, bottom, top => ∃ next, links bottom next ∧ Chain links n next top

/-- Every chain can be walked in at most so many links. -/
def Shallow (links : α → α → Prop) (most : Nat) : Prop :=
  ∀ bottom top, TransGen links bottom top → ∃ n, n < most ∧ Chain links n bottom top

end Murage.Library.Links
