import Murage.BranchIndex.Structure
import Murage.BranchIndex.Operations
import Murage.Library.Transition

/-!
Owns the sequences of operations on a branch index that starts empty: each operation the tree
allows succeeds, and the index answers what is above what in the tree they make.

Does not own: the fill of a stored thread.
-/

namespace Murage.BranchIndex

open Murage.Library.Forests
open Murage.Library.OrderKeys
open Murage.Library.Transition

/-- One operation on the index of a thread. -/
inductive Op where
  | encodeRow (mrow : Nat) (parent : Option Nat)
  | spliceBefore (new target : Nat)
  | spliceAfter (new anchor : Nat)
  | moveRow (old new : Nat)
deriving DecidableEq, Repr

/-- A rowid that is not in use. -/
def Fresh (forest : Forest Nat) (mrow : Nat) : Prop :=
  forest mrow = none ∧ 1 ≤ mrow ∧ mrow ≤ 2 ^ 53 - 1

def parentIn (forest : Forest Nat) (mrow : Nat) : Option Nat := (forest mrow).getD none

namespace Op

def forest (tree : Forest Nat) : Op → Forest Nat
  | encodeRow mrow parent => tree.leaf mrow parent
  | spliceBefore new target => tree.before new target
  | spliceAfter new anchor => tree.after new anchor
  | moveRow old new => tree.rename old new

def Allowed (tree : Forest Nat) : Op → Prop
  | encodeRow mrow parent => Fresh tree mrow ∧ ∀ above ∈ parent, (tree above).isSome
  | spliceBefore new target => Fresh tree new ∧ (tree target).isSome
  | spliceAfter new anchor => Fresh tree new ∧ (tree anchor).isSome
  | moveRow old new => Fresh tree new ∧ (tree old).isSome

/-- The operation on the tables, which is told the true parent. -/
def perform (tree : Forest Nat) (db : Db) : Op → Except String (Bool × Db)
  | encodeRow mrow parent => (true, ·) <$> db.encodeRow mrow parent none
  | spliceBefore new target => db.spliceBefore new target (parentIn tree target)
  | spliceAfter new anchor => db.spliceAfter new anchor
  | moveRow old new => (true, ·) <$> db.moveRow old new (parentIn tree old)

end Op

structure IndexedTree where
  tree : Forest Nat := fun _ => none
  db : Db := {}

/-- An allowed operation that succeeds. -/
def Performs (state : IndexedTree) (op : Op) (next : IndexedTree) : Prop :=
  op.Allowed state.tree ∧ next.tree = op.forest state.tree ∧
    op.perform state.tree state.db = .ok (true, next.db)

theorem keyOrder_under : KeyOrder Under := ⟨Under.trans, Under.lt⟩

theorem Fresh.fits {tree : Forest Nat} {mrow : Nat} (fresh : Fresh tree mrow) :
    0 < mrow ∧ mrow < 2 ^ 64 := by
  obtain ⟨_, positive, small⟩ := fresh
  omega

theorem place_of_node {tree : Forest Nat} {mrow : Nat} (isNode : (tree mrow).isSome) :
    tree mrow = some (parentIn tree mrow) := by
  obtain ⟨place, isPlace⟩ := Option.isSome_iff_exists.mp isNode
  unfold parentIn
  rw [isPlace]
  rfl

/-- **One operation.** An allowed operation succeeds, and the tables index the new tree. -/
theorem Indexed.perform_ok {tree : Forest Nat} {db : Db} (indexed : Indexed Under tree db)
    (keyed : Keyed db) {op : Op} (allowed : op.Allowed tree) :
    ∃ db', op.perform tree db = .ok (true, db') ∧ Indexed Under (op.forest tree) db' ∧ Keyed db' := by
  cases op with
  | encodeRow mrow parent =>
    obtain ⟨fresh, isParent⟩ := allowed
    obtain ⟨db', isDone, held, keys⟩ :=
      indexed.encodeLeaf_ok keyed fresh.1 fresh.fits.1 fresh.fits.2 isParent
    refine ⟨db', ?_, held, keys⟩
    unfold Op.perform
    dsimp only
    rw [isDone]
    rfl
  | spliceBefore new target =>
    obtain ⟨fresh, isTarget⟩ := allowed
    exact indexed.spliceBefore_ok keyed fresh.1 (place_of_node isTarget)
  | spliceAfter new anchor =>
    obtain ⟨fresh, isAnchor⟩ := allowed
    exact indexed.spliceAfter_ok keyed fresh.1 fresh.fits.1 fresh.fits.2 isAnchor
  | moveRow old new =>
    obtain ⟨fresh, isOld⟩ := allowed
    obtain ⟨db', isDone, held, keys⟩ := indexed.moveRow_ok keyed fresh.1 (place_of_node isOld)
    refine ⟨db', ?_, held, keys⟩
    unfold Op.perform
    dsimp only
    rw [isDone]
    rfl

theorem run_indexed {ops : List Op} {state : IndexedTree} (run : Run Performs {} ops state) :
    Indexed Under state.tree state.db ∧ Keyed state.db := by
  have start : Indexed Under (fun _ => none) {} ∧ Keyed {} :=
    ⟨Indexed.start Under, fun _ _ isRow => nomatch isRow⟩
  let Sound : IndexedTree → Prop := fun state => Indexed Under state.tree state.db ∧ Keyed state.db
  refine @Run.invariant _ _ _ _ _ _ Sound run start fun before op after held taken => ?_
  obtain ⟨indexed, keyed⟩ := held
  obtain ⟨allowed, isTree, isDone⟩ := taken
  obtain ⟨db', isMade, held, keys⟩ := indexed.perform_ok keyed allowed
  obtain rfl := congrArg Prod.snd (Except.ok.inj (isMade.symm.trans isDone))
  exact ⟨isTree ▸ held, keys⟩

/-- **The index answers exactly.** After any operations, every operation that the tree allows
succeeds, a row is on the branch of a leaf exactly when it is the leaf or above it in the
tree, and two rows of one path compare as they lie on it. -/
theorem branch_index_exact {ops : List Op} {state : IndexedTree} (run : Run Performs {} ops state) :
    (∀ op : Op, op.Allowed state.tree → ∃ db, op.perform state.tree state.db = .ok (true, db)) ∧
      (∀ leaf, (state.tree leaf).isSome → ∀ mrow,
        ∃ answer, state.db.branchOracle (some leaf) mrow = .ok answer ∧
          (answer = true ↔ Above state.tree mrow leaf)) ∧
      ∀ upper lower, Above state.tree upper lower →
        ∃ forth back, state.db.compareOnBranch upper lower = .ok forth ∧
          state.db.compareOnBranch lower upper = .ok back ∧
          (upper = lower → forth = 0) ∧ (upper ≠ lower → forth < 0 ∧ 0 < back) := by
  obtain ⟨indexed, keyed⟩ := run_indexed run
  refine ⟨fun op allowed => ?_, fun leaf isLeaf mrow => ?_, fun upper lower isAbove => ?_⟩
  · obtain ⟨db', isDone, _⟩ := indexed.perform_ok keyed allowed
    exact ⟨db', isDone⟩
  · exact indexed.branchOracle_iff keyOrder_under isLeaf mrow
  · by_cases isSame : upper = lower
    · subst isSame
      have isEqual : state.db.compareOnBranch upper upper = .ok 0 := if_pos rfl
      exact ⟨0, 0, isEqual, isEqual, fun _ => rfl, fun isOther => absurd rfl isOther⟩
    · obtain ⟨⟨forth, isForth, isBefore⟩, back, isBack, isAfter⟩ :=
        indexed.compareOnBranch_neg keyOrder_under isAbove isSame
      exact ⟨forth, back, isForth, isBack, fun same => absurd same isSame, fun _ => ⟨isBefore, isAfter⟩⟩

def IndexedTree.after (state : IndexedTree) (op : Op) : IndexedTree where
  tree := op.forest state.tree
  db :=
    match op.perform state.tree state.db with
    | .ok (_, db) => db
    | .error _ => state.db

theorem performs_after {state : IndexedTree} {op : Op} (allowed : op.Allowed state.tree)
    (isDone : (op.perform state.tree state.db).toOption.map Prod.fst = some true) :
    Performs state op (state.after op) := by
  refine ⟨allowed, rfl, ?_⟩
  unfold IndexedTree.after
  cases isMade : op.perform state.tree state.db with
  | error message =>
    rw [isMade] at isDone
    cases isDone
  | ok result =>
    rw [isMade] at isDone
    exact congrArg (fun done => Except.ok (done, result.2)) (Option.some.inj isDone)

/-- Row 5 is a root, row 3 its child and row 4 goes between them: row 3 is on a branch that
row 5 is on. -/
theorem branch_index_exact_spliced :
    ∃ state, Run Performs {} [.encodeRow 5 none, .encodeRow 3 (some 5), .spliceBefore 4 3] state ∧
      ∃ answer, state.db.branchOracle (some 3) 5 = .ok answer ∧
        (answer = true ↔ Above state.tree 5 3) := by
  have run : Run Performs {} [.encodeRow 5 none, .encodeRow 3 (some 5), .spliceBefore 4 3]
      ((((({} : IndexedTree).after (.encodeRow 5 none)).after (.encodeRow 3 (some 5))).after
        (.spliceBefore 4 3))) := by
    refine ((Run.nil.snoc (performs_after ?_ rfl)).snoc (performs_after ?_ rfl)).snoc
      (performs_after ?_ rfl)
    · exact ⟨⟨rfl, by decide, by decide⟩, fun above isAbove => nomatch isAbove⟩
    · exact ⟨⟨rfl, by decide, by decide⟩, fun above isAbove => Option.some.inj isAbove ▸ rfl⟩
    · exact ⟨⟨rfl, by decide, by decide⟩, rfl⟩
  exact ⟨_, run, (branch_index_exact run).2.1 3 rfl 5⟩

end Murage.BranchIndex
