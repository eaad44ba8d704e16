import Mathlib.Logic.Function.Basic
import Mathlib.Tactic.Common

/-!
Owns sequences of operations on files that are each atomic: where a sequence may end by a crash or
a failure, which files stay, and which are there once it has gone through. It names no program.
-/

namespace Murage.Library.FileOps

universe u v

variable {Name : Type u} {Content : Type v}

abbrev Files (Name : Type u) (Content : Type v) := Name → Option Content

/-- One operation: it is performed whole, or not at all. -/
inductive Op (Name : Type u) (Content : Type v) where
  | write (name : Name) (content : Content)
  | remove (name : Name)

def Op.name : Op Name Content → Name
  | .write name _ => name
  | .remove name => name

section

variable [DecidableEq Name]

def Op.perform (files : Files Name Content) : Op Name Content → Files Name Content
  | .write name content => Function.update files name (some content)
  | .remove name => Function.update files name none

/-- Where the operations may end: a crash or a failed write stops them, a failed removal does not. -/
inductive Ends : List (Op Name Content) → Files Name Content → Files Name Content → Prop
  | stop (ops : List (Op Name Content)) (files : Files Name Content) : Ends ops files files
  | step {op : Op Name Content} {rest : List (Op Name Content)} {files after : Files Name Content} :
      Ends rest (op.perform files) after → Ends (op :: rest) files after
  | skip {name : Name} {rest : List (Op Name Content)} {files after : Files Name Content} :
      Ends rest files after → Ends (.remove name :: rest) files after

/-- Where they end when they go through. -/
inductive Completes : List (Op Name Content) → Files Name Content → Files Name Content → Prop
  | done (files : Files Name Content) : Completes [] files files
  | step {op : Op Name Content} {rest : List (Op Name Content)} {files after : Files Name Content} :
      Completes rest (op.perform files) after → Completes (op :: rest) files after
  | skip {name : Name} {rest : List (Op Name Content)} {files after : Files Name Content} :
      Completes rest files after → Completes (.remove name :: rest) files after

variable {ops more : List (Op Name Content)} {files after : Files Name Content} {name : Name}

theorem Completes.ends (completes : Completes ops files after) : Ends ops files after := by
  induction completes with
  | done files => exact Ends.stop [] files
  | step _ ih => exact Ends.step ih
  | skip _ ih => exact Ends.skip ih

theorem Op.perform_of_ne {op : Op Name Content} (isOther : op.name ≠ name) : op.perform files name = files name := by
  cases op with
  | write other content => exact Function.update_of_ne (Ne.symm isOther) _ _
  | remove other => exact Function.update_of_ne (Ne.symm isOther) _ _

theorem Op.perform_write (files : Files Name Content) (name : Name) (content : Content) :
    Op.perform files (.write name content) name = some content := Function.update_self _ _ _

/-- A file that no operation names stays. -/
theorem Ends.untouched (ends : Ends ops files after) (isOther : ∀ op ∈ ops, op.name ≠ name) :
    after name = files name := by
  induction ends with
  | stop ops files => rfl
  | @step op rest files after _ ih =>
    rw [ih fun op isIn => isOther op (List.mem_cons_of_mem _ isIn)]
    exact Op.perform_of_ne (isOther op List.mem_cons_self)
  | skip _ ih =>
    exact ih fun op isIn => isOther op (List.mem_cons_of_mem _ isIn)

/-- A written file is there, unless an operation after the write names it. -/
theorem Completes.wrote (completes : Completes ops files after) {content : Content}
    (once : (ops.map (·.name)).Nodup) (isIn : Op.write name content ∈ ops) : after name = some content := by
  induction completes with
  | done files => exact absurd isIn List.not_mem_nil
  | @step op rest files after restCompletes ih =>
    obtain ⟨isNew, restOnce⟩ := List.nodup_cons.mp once
    rcases List.mem_cons.mp isIn with rfl | inRest
    · have isOther : ∀ op ∈ rest, op.name ≠ name := fun op isRest sameName =>
        isNew (List.mem_map.mpr ⟨op, isRest, sameName⟩)
      rw [restCompletes.ends.untouched isOther]
      exact Function.update_self _ _ _
    · exact ih restOnce inRest
  | skip _ ih =>
    rcases List.mem_cons.mp isIn with isSame | inRest
    · exact nomatch isSame
    · exact ih (List.nodup_cons.mp once).2 inRest

/-- Operations one after the other end in the first, or the first go through. -/
theorem Ends.append (ends : Ends (ops ++ more) files after) :
    Ends ops files after ∨ ∃ between, Completes ops files between ∧ Ends more between after := by
  induction ops generalizing files with
  | nil => exact Or.inr ⟨files, Completes.done files, ends⟩
  | cons op rest ih =>
    rw [List.cons_append] at ends
    cases ends with
    | stop => exact Or.inl (Ends.stop _ _)
    | step restEnds =>
      rcases ih restEnds with inRest | ⟨between, through, inMore⟩
      · exact Or.inl (Ends.step inRest)
      · exact Or.inr ⟨between, Completes.step through, inMore⟩
    | skip restEnds =>
      rcases ih restEnds with inRest | ⟨between, through, inMore⟩
      · exact Or.inl (Ends.skip inRest)
      · exact Or.inr ⟨between, Completes.skip through, inMore⟩

theorem Completes.append (completes : Completes (ops ++ more) files after) :
    ∃ between, Completes ops files between ∧ Completes more between after := by
  induction ops generalizing files with
  | nil => exact ⟨files, Completes.done files, completes⟩
  | cons op rest ih =>
    rw [List.cons_append] at completes
    cases completes with
    | step restCompletes =>
      obtain ⟨between, through, inMore⟩ := ih restCompletes
      exact ⟨between, Completes.step through, inMore⟩
    | skip restCompletes =>
      obtain ⟨between, through, inMore⟩ := ih restCompletes
      exact ⟨between, Completes.skip through, inMore⟩

/-- **Commit rule.** Operations that go up to one write of the root, and after it: what is read off the
files before holds up to that write, and what is read off them after it holds from there on. -/
theorem Ends.commit {before : List (Op Name Content)} {commit : Op Name Content} {Old New : Files Name Content → Prop}
    (ends : Ends (before ++ commit :: more) files after)
    (isOld : ∀ reached, Ends before files reached → Old reached)
    (isNew : ∀ between reached, Completes before files between → Ends more (commit.perform between) reached →
      New reached)
    (isWrite : ∃ name content, commit = .write name content) : Old after ∨ New after := by
  rcases ends.append with inBefore | ⟨between, through, atCommit⟩
  · exact Or.inl (isOld after inBefore)
  · cases atCommit with
    | stop => exact Or.inl (isOld _ through.ends)
    | step inMore => exact Or.inr (isNew between after through inMore)
    | skip =>
      obtain ⟨_, _, isCommit⟩ := isWrite
      exact nomatch isCommit

end

end Murage.Library.FileOps
