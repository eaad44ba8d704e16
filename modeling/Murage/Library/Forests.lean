import Mathlib.Data.Option.Basic
import Mathlib.Logic.Function.Basic
import Mathlib.Tactic.Common

/-!
Owns forests given by parents: what is above what, that a grounded forest has no cycle, and
the edits of a forest (a leaf, a node before another, a node after another, a new name).
It names no system.
-/

namespace Murage.Library.Forests

universe u

variable {α : Type u}

/-- What is in the forest, and under which parent. `some none` is a root. -/
abbrev Forest (α : Type u) := α → Option (Option α)

/-- A node and what it hangs below, however far. -/
inductive Above (forest : Forest α) : α → α → Prop where
  | self {node : α} (isNode : (forest node).isSome) : Above forest node node
  | step {top node parent : α} (isParent : forest node = some (some parent))
      (above : Above forest top parent) : Above forest top node

/-- A node that hangs from a root. -/
inductive Grounded (forest : Forest α) : α → Prop where
  | root {node : α} (isRoot : forest node = some none) : Grounded forest node
  | child {node parent : α} (isParent : forest node = some (some parent))
      (grounded : Grounded forest parent) : Grounded forest node

section

variable {forest : Forest α} {top middle node parent : α}

theorem Grounded.isNode (grounded : Grounded forest node) : (forest node).isSome := by
  cases grounded with
  | root isRoot => rw [isRoot]; rfl
  | child isParent _ => rw [isParent]; rfl

theorem Above.isNode (above : Above forest top node) : (forest node).isSome := by
  cases above with
  | self isNode => exact isNode
  | step isParent _ => rw [isParent]; rfl

theorem Above.top_isNode (above : Above forest top node) : (forest top).isSome := by
  induction above with
  | self isNode => exact isNode
  | step _ _ ih => exact ih

theorem Above.trans (upper : Above forest top middle) (lower : Above forest middle node) :
    Above forest top node := by
  induction lower with
  | self _ => exact upper
  | step isParent _ ih => exact Above.step isParent ih

/-- A forest that only grows keeps what is above what. -/
theorem Above.mono {larger : Forest α} (grows : ∀ node entry, forest node = some entry →
    larger node = some entry) (above : Above forest top node) : Above larger top node := by
  induction above with
  | self isNode =>
    obtain ⟨entry, isEntry⟩ := Option.isSome_iff_exists.mp isNode
    exact Above.self (by rw [grows _ _ isEntry]; rfl)
  | step isParent _ ih => exact Above.step (grows _ _ isParent) ih

/-- What is above a node is the node, or above its parent. -/
theorem above_iff (isParent : forest node = some (some parent)) :
    Above forest top node ↔ top = node ∨ Above forest top parent := by
  constructor
  · intro above
    cases above with
    | self _ => exact Or.inl rfl
    | step isStep upper =>
      obtain rfl := Option.some.inj (Option.some.inj (isParent.symm.trans isStep))
      exact Or.inr upper
  · rintro (rfl | upper)
    · exact Above.self (by rw [isParent]; rfl)
    · exact Above.step isParent upper

/-- What is above one node is above one another. -/
theorem Above.total {other : α} (upper : Above forest top node) (above : Above forest other node) :
    Above forest top other ∨ Above forest other top := by
  induction upper with
  | self _ => exact Or.inr above
  | step isParent isAbove ih =>
    rcases (above_iff isParent).mp above with rfl | isUpper
    · exact Or.inl (Above.step isParent isAbove)
    · exact ih isUpper

/-- A grounded node is not below itself. -/
theorem Grounded.acyclic (grounded : Grounded forest node) (isParent : forest node = some (some parent)) :
    ¬Above forest node parent := by
  induction grounded generalizing parent with
  | root isRoot => cases isRoot.symm.trans isParent
  | @child node above isStep _ ih =>
    obtain rfl := Option.some.inj (Option.some.inj (isStep.symm.trans isParent))
    intro cyclic
    cases cyclic with
    | self _ => exact ih isStep (Above.self (by rw [isStep]; rfl))
    | step isUpper upper =>
      refine ih isUpper (Above.trans (Above.step isStep ?_) upper)
      exact Above.self (Above.isNode (Above.step isUpper upper))

theorem Above.antisymm (grounded : Grounded forest node) (upper : Above forest top node)
    (lower : Above forest node top) : top = node := by
  cases upper with
  | self _ => rfl
  | step isParent above => exact absurd (lower.trans above) (grounded.acyclic isParent)

end

/-! ## Edits -/

section

variable [DecidableEq α]

def Forest.leaf (forest : Forest α) (new : α) (parent : Option α) : Forest α :=
  Function.update forest new (some parent)

/-- A new node in the place of another, which becomes its child. -/
def Forest.before (forest : Forest α) (new target : α) : Forest α :=
  Function.update (Function.update forest target (some (some new))) new (forest target)

/-- A new node that takes the children of another, and becomes its child. -/
def Forest.after (forest : Forest α) (new anchor : α) : Forest α :=
  Function.update
    (fun node => if forest node = some (some anchor) then some (some new) else forest node)
    new (some (some anchor))

def Forest.rename (forest : Forest α) (old new : α) : Forest α := fun node =>
  let renamed := fun entry : Option α => entry.map fun parent => if parent = old then new else parent
  if node = new then (forest old).map renamed
  else if node = old then none
  else (forest node).map renamed

variable {forest : Forest α} {new node target anchor old parent : α}

theorem Grounded.leaf {under : Option α} (isNew : forest new = none)
    (grounded : Grounded forest node) : Grounded (forest.leaf new under) node := by
  unfold Forest.leaf
  induction grounded with
  | @root node isRoot =>
    refine Grounded.root ?_
    rw [Function.update_of_ne (by rintro rfl; cases isNew.symm.trans isRoot), isRoot]
  | @child node parent isParent _ ih =>
    refine Grounded.child ?_ ih
    rw [Function.update_of_ne (by rintro rfl; cases isNew.symm.trans isParent), isParent]

theorem Grounded.leaf_new {under : Option α} (isNew : forest new = none)
    (isUnder : ∀ parent ∈ under, Grounded forest parent) : Grounded (forest.leaf new under) new := by
  cases under with
  | none => exact Grounded.root (Function.update_self ..)
  | some parent =>
    exact Grounded.child (Function.update_self ..) ((isUnder parent rfl).leaf isNew)

/-- The new node stands where the target stood. -/
theorem before_place
    (above : ∀ parent, forest target = some (some parent) → Grounded (forest.before new target) parent)
    (isTarget : (forest target).isSome) : Grounded (forest.before new target) new := by
  obtain ⟨entry, isEntry⟩ := Option.isSome_iff_exists.mp isTarget
  have isPlace : forest.before new target new = some entry := by
    unfold Forest.before
    rw [Function.update_self, isEntry]
  cases entry with
  | none => exact Grounded.root isPlace
  | some parent => exact Grounded.child isPlace (above parent isEntry)

theorem Grounded.before (isNew : forest new = none) (isTarget : (forest target).isSome)
    (grounded : Grounded forest node) : Grounded (forest.before new target) node := by
  have notNew {other : α} (isSome : (forest other).isSome) : other ≠ new := by
    rintro rfl
    rw [isNew] at isSome
    cases isSome
  have isChild : forest.before new target target = some (some new) := by
    unfold Forest.before
    rw [Function.update_of_ne (notNew isTarget), Function.update_self]
  have others {other : α} (isOther : other ≠ target) (isSome : (forest other).isSome) :
      forest.before new target other = forest other := by
    unfold Forest.before
    rw [Function.update_of_ne (notNew isSome), Function.update_of_ne isOther]
  induction grounded with
  | @root node isRoot =>
    by_cases isOther : node = target
    · subst isOther
      refine Grounded.child isChild (before_place (fun parent isParent => ?_) isTarget)
      cases isRoot.symm.trans isParent
    · exact Grounded.root ((others isOther (by rw [isRoot]; rfl)).trans isRoot)
  | @child node above isParent _ ih =>
    by_cases isOther : node = target
    · subst isOther
      refine Grounded.child isChild (before_place (fun parent isStep => ?_) isTarget)
      obtain rfl := Option.some.inj (Option.some.inj (isParent.symm.trans isStep))
      exact ih
    · exact Grounded.child ((others isOther (by rw [isParent]; rfl)).trans isParent)
        ih

theorem Grounded.before_new (isNew : forest new = none) (isTarget : Grounded forest target) :
    Grounded (forest.before new target) new := by
  have grounded := isTarget.before isNew isTarget.isNode
  have isChild : forest.before new target target = some (some new) := by
    unfold Forest.before
    rw [Function.update_of_ne ?_, Function.update_self]
    rintro rfl
    have isSome := isTarget.isNode
    rw [isNew] at isSome
    cases isSome
  cases grounded with
  | root isRoot => cases isChild.symm.trans isRoot
  | child isParent above =>
    obtain rfl := Option.some.inj (Option.some.inj (isChild.symm.trans isParent))
    exact above

theorem Grounded.after (isNew : forest new = none) (isAnchor : Grounded forest anchor)
    (grounded : Grounded forest node) : Grounded (forest.after new anchor) node := by
  have notNew {other : α} (isSome : (forest other).isSome) : other ≠ new := by
    rintro rfl
    rw [isNew] at isSome
    cases isSome
  have isBelow : forest.after new anchor new = some (some anchor) := Function.update_self ..
  induction grounded with
  | @root node isRoot =>
    refine Grounded.root ?_
    unfold Forest.after
    rw [Function.update_of_ne (notNew (by rw [isRoot]; rfl)), if_neg (by rw [isRoot]; simp), isRoot]
  | @child node above isParent _ ih =>
    have isNode : node ≠ new := notNew (by rw [isParent]; rfl)
    by_cases isChild : above = anchor
    · subst isChild
      refine Grounded.child ?_ (Grounded.child isBelow ih)
      unfold Forest.after
      rw [Function.update_of_ne isNode, if_pos isParent]
    · refine Grounded.child ?_ ih
      unfold Forest.after
      rw [Function.update_of_ne isNode, if_neg ?_, isParent]
      rw [isParent]
      exact fun isSame => isChild (Option.some.inj (Option.some.inj isSame))

theorem Grounded.after_new (isNew : forest new = none) (isAnchor : Grounded forest anchor) :
    Grounded (forest.after new anchor) new :=
  Grounded.child (Function.update_self ..) (isAnchor.after isNew isAnchor)

/-- An edit of a grounded forest is grounded. -/
theorem grounded_leaf {under : Option α} (isNew : forest new = none)
    (isUnder : ∀ parent ∈ under, (forest parent).isSome)
    (grounded : ∀ node, (forest node).isSome → Grounded forest node) :
    ∀ node, (forest.leaf new under node).isSome → Grounded (forest.leaf new under) node := by
  intro node isNode
  by_cases isSame : node = new
  · rw [isSame]
    exact Grounded.leaf_new isNew fun parent isParent => grounded parent (isUnder parent isParent)
  · unfold Forest.leaf at isNode
    rw [Function.update_of_ne isSame] at isNode
    exact (grounded node isNode).leaf isNew

theorem grounded_before (isNew : forest new = none) (isTarget : (forest target).isSome)
    (grounded : ∀ node, (forest node).isSome → Grounded forest node) :
    ∀ node, (forest.before new target node).isSome → Grounded (forest.before new target) node := by
  intro node isNode
  by_cases isSame : node = new
  · rw [isSame]
    exact Grounded.before_new isNew (grounded target isTarget)
  by_cases isOld : node = target
  · rw [isOld]
    exact (grounded target isTarget).before isNew isTarget
  · unfold Forest.before at isNode
    rw [Function.update_of_ne isSame, Function.update_of_ne isOld] at isNode
    exact (grounded node isNode).before isNew isTarget

theorem grounded_after (isNew : forest new = none) (isAnchor : (forest anchor).isSome)
    (grounded : ∀ node, (forest node).isSome → Grounded forest node) :
    ∀ node, (forest.after new anchor node).isSome → Grounded (forest.after new anchor) node := by
  intro node isNode
  by_cases isSame : node = new
  · rw [isSame]
    exact Grounded.after_new isNew (grounded anchor isAnchor)
  · unfold Forest.after at isNode
    rw [Function.update_of_ne isSame] at isNode
    refine Grounded.after isNew (grounded anchor isAnchor) (grounded node ?_)
    split_ifs at isNode with isChild
    · rw [isChild]
      rfl
    · exact isNode

theorem Grounded.rename (isNew : forest new = none) (grounded : Grounded forest node) :
    Grounded (forest.rename old new) (if node = old then new else node) := by
  have isPlace {other : α} {entry : Option α} (isEntry : forest other = some entry) :
      forest.rename old new (if other = old then new else other) =
        some (entry.map fun parent => if parent = old then new else parent) := by
    have notNew : other ≠ new := by
      rintro rfl
      cases isNew.symm.trans isEntry
    unfold Forest.rename
    by_cases isOld : other = old
    · subst isOld
      rw [if_pos rfl, if_pos rfl, isEntry]
      rfl
    · rw [if_neg isOld]
      dsimp only
      rw [if_neg notNew, if_neg isOld, isEntry]
      rfl
  induction grounded with
  | root isRoot => exact Grounded.root (isPlace isRoot)
  | child isParent _ ih => exact Grounded.child (isPlace isParent) ih

end

end Murage.Library.Forests
