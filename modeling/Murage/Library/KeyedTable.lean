import Mathlib.Data.List.Sort
import Mathlib.Order.Basic
import Mathlib.Tactic.Common

/-!
Owns a table whose rows are kept in the order of their primary keys, as a database stores
them, and the reading of such a table a page at a time, each page from the key of the last row
read: the pages together are the table. It names no schema.
-/

namespace Murage.Library

universe u v

@[ext] structure KeyedTable (κ : Type u) (α : Type v) [LinearOrder κ] where
  rows : List (κ × α)
  sorted : rows.Pairwise fun row later => row.1 < later.1

namespace KeyedTable

variable {κ : Type u} {α : Type v} [LinearOrder κ]

def empty : KeyedTable κ α := ⟨[], List.Pairwise.nil⟩

instance : EmptyCollection (KeyedTable κ α) := ⟨empty⟩

instance : Inhabited (KeyedTable κ α) := ⟨empty⟩

instance : Membership (κ × α) (KeyedTable κ α) := ⟨fun t row => row ∈ t.rows⟩

def place (row : κ × α) : List (κ × α) → List (κ × α)
  | [] => [row]
  | held :: rest =>
    if row.1 < held.1 then row :: held :: rest
    else if row.1 = held.1 then held :: rest
    else held :: place row rest

theorem mem_place {row found : κ × α} {rows : List (κ × α)} (isIn : found ∈ place row rows) :
    found = row ∨ found ∈ rows := by
  induction rows with
  | nil => exact Or.inl (List.mem_singleton.mp isIn)
  | cons held rest ih =>
    rw [place] at isIn
    split_ifs at isIn
    · exact List.mem_cons.mp isIn
    · exact Or.inr isIn
    · rcases List.mem_cons.mp isIn with rfl | isIn
      · exact Or.inr List.mem_cons_self
      · exact (ih isIn).imp_right (List.mem_cons_of_mem _)

theorem mem_place_of_mem (row : κ × α) {found : κ × α} {rows : List (κ × α)}
    (isIn : found ∈ rows) : found ∈ place row rows := by
  induction rows with
  | nil => cases isIn
  | cons held rest ih =>
    rw [place]
    split_ifs
    · exact List.mem_cons_of_mem _ isIn
    · exact isIn
    · rcases List.mem_cons.mp isIn with rfl | isIn
      · exact List.mem_cons_self
      · exact List.mem_cons_of_mem _ (ih isIn)

/-- Afterwards the key is there. -/
theorem exists_mem_place (row : κ × α) (rows : List (κ × α)) :
    ∃ found ∈ place row rows, found.1 = row.1 := by
  induction rows with
  | nil => exact ⟨row, List.mem_singleton_self _, rfl⟩
  | cons held rest ih =>
    rw [place]
    split_ifs with before same
    · exact ⟨row, List.mem_cons_self, rfl⟩
    · exact ⟨held, List.mem_cons_self, same.symm⟩
    · obtain ⟨found, isIn, isKey⟩ := ih
      exact ⟨found, List.mem_cons_of_mem _ isIn, isKey⟩

/-- `INSERT OR IGNORE`. -/
def insert (t : KeyedTable κ α) (row : κ × α) : KeyedTable κ α where
  rows := place row t.rows
  sorted := by
    obtain ⟨rows, sorted⟩ := t
    induction rows with
    | nil => exact List.pairwise_singleton _ _
    | cons held rest ih =>
      obtain ⟨isFirst, sortedRest⟩ := List.pairwise_cons.mp sorted
      rw [place]
      split_ifs with before same
      · refine List.pairwise_cons.mpr ⟨fun later member => ?_, sorted⟩
        rcases List.mem_cons.mp member with rfl | member
        · exact before
        · exact lt_trans before (isFirst later member)
      · exact sorted
      · refine List.pairwise_cons.mpr ⟨fun later member => ?_, ih sortedRest⟩
        rcases mem_place member with rfl | member
        · exact lt_of_le_of_ne (not_lt.mp before) (Ne.symm same)
        · exact isFirst later member

theorem mem_insert {t : KeyedTable κ α} {row found : κ × α} (isIn : found ∈ t.insert row) :
    found = row ∨ found ∈ t :=
  mem_place isIn

theorem mem_insert_of_mem {t : KeyedTable κ α} (row : κ × α) {found : κ × α}
    (isIn : found ∈ t) : found ∈ t.insert row :=
  mem_place_of_mem row isIn

theorem exists_mem_insert (t : KeyedTable κ α) (row : κ × α) :
    ∃ found ∈ t.insert row, found.1 = row.1 :=
  exists_mem_place row t.rows

/-- A row whose key is new is there. -/
theorem mem_insert_self {t : KeyedTable κ α} {row : κ × α} (isNew : ∀ held ∈ t, held.1 ≠ row.1) :
    row ∈ t.insert row := by
  obtain ⟨found, isIn, isKey⟩ := t.exists_mem_insert row
  rcases mem_insert isIn with rfl | held
  · exact isIn
  · exact absurd isKey (isNew found held)

/-- The rows whose keys come after `k`. -/
def after (t : KeyedTable κ α) (k : κ) : List (κ × α) := t.rows.filter fun row => k < row.1

/-- One page of the rows after `k`. -/
def page (t : KeyedTable κ α) (k : κ) (n : Nat) : List (κ × α) := (t.after k).take n

def resume (k : κ) (page : List (κ × α)) : κ := (page.getLast?.map (·.1)).getD k

/-- The first `n` rows deleted. -/
def drop (t : KeyedTable κ α) (n : Nat) : KeyedTable κ α :=
  ⟨t.rows.drop n, t.sorted.sublist (List.drop_sublist _ _)⟩

/-- The rows that meet a condition. -/
def filter (t : KeyedTable κ α) (p : κ × α → Bool) : KeyedTable κ α :=
  ⟨t.rows.filter p, t.sorted.sublist List.filter_sublist⟩

section Rules

variable (t : KeyedTable κ α) (k : κ) (n : Nat)

theorem mem_after {t : KeyedTable κ α} {k : κ} {row : κ × α} :
    row ∈ t.after k ↔ row ∈ t ∧ k < row.1 := by
  rw [after, List.mem_filter, decide_eq_true_iff]
  rfl

/-- Every row is read that comes after the start. -/
theorem after_eq_rows {t : KeyedTable κ α} {k : κ} (isFirst : ∀ row ∈ t, k < row.1) :
    t.after k = t.rows :=
  List.filter_eq_self.mpr fun row isIn => decide_eq_true (isFirst row isIn)

omit [LinearOrder κ] in
theorem resume_nil : resume k ([] : List (κ × α)) = k := rfl

omit [LinearOrder κ] in
theorem resume_append (front : List (κ × α)) (last : κ × α) :
    resume k (front ++ [last]) = last.1 := by
  rw [resume, List.getLast?_append]
  rfl

theorem filter_last {front rest : List (κ × α)} {last : κ × α}
    (sorted : (front ++ last :: rest).Pairwise fun row later => row.1 < later.1) :
    (front ++ last :: rest).filter (fun row => last.1 < row.1) = rest := by
  obtain ⟨_, sortedRest, isBefore⟩ := List.pairwise_append.mp sorted
  have skipped : front.filter (fun row => last.1 < row.1) = [] := by
    refine List.filter_eq_nil_iff.mpr fun row isIn isAfter => ?_
    exact lt_asymm (of_decide_eq_true isAfter) (isBefore row isIn last List.mem_cons_self)
  have kept : rest.filter (fun row => last.1 < row.1) = rest :=
    List.filter_eq_self.mpr fun row isIn =>
      decide_eq_true ((List.pairwise_cons.mp sortedRest).1 row isIn)
  rw [List.filter_append, skipped, List.nil_append, List.filter_cons_of_neg, kept]
  simp

/-- **The next page starts where the last one ended.** -/
theorem after_resume : t.after (resume k (t.page k n)) = (t.after k).drop n := by
  rcases List.eq_nil_or_concat (t.page k n) with isNil | ⟨front, last, isPage⟩
  · rw [isNil, resume_nil]
    rcases List.take_eq_nil_iff.mp isNil with rfl | isDone
    · rfl
    · rw [isDone, List.drop_nil]
  · rw [List.concat_eq_append] at isPage
    rw [isPage, resume_append]
    have isCut : t.after k = front ++ last :: (t.after k).drop n := by
      conv_lhs => rw [← List.take_append_drop n (t.after k)]
      rw [show (t.after k).take n = front ++ [last] from isPage, List.append_assoc]
      rfl
    have isLater : k < last.1 := by
      have isIn : last ∈ t.after k := by
        rw [isCut]
        exact List.mem_append_right _ List.mem_cons_self
      exact (mem_after.mp isIn).2
    have isFiltered : t.after last.1 = (t.after k).filter fun row => last.1 < row.1 := by
      rw [after, after, List.filter_filter]
      refine List.filter_congr fun row _ => ?_
      rw [Bool.eq_iff_iff, Bool.and_eq_true, decide_eq_true_iff, decide_eq_true_iff]
      exact ⟨fun isAfter => ⟨isAfter, lt_trans isLater isAfter⟩, And.left⟩
    have sorted : (t.after k).Pairwise fun row later => row.1 < later.1 :=
      t.sorted.sublist List.filter_sublist
    rw [isFiltered]
    conv_lhs => rw [isCut]
    rw [isCut] at sorted
    exact filter_last sorted

/-- Reading on from a page is reading the whole. -/
theorem page_append : t.page k n ++ t.after (resume k (t.page k n)) = t.after k := by
  rw [after_resume]
  exact List.take_append_drop n _

/-- A page that is not full is the last. -/
theorem page_of_short {t : KeyedTable κ α} {k : κ} {n : Nat} (isShort : (t.page k n).length < n) :
    t.page k n = t.after k := by
  refine List.take_of_length_le (Nat.le_of_not_lt fun isLong => ?_)
  rw [page, List.length_take, Nat.min_eq_left (Nat.le_of_lt isLong)] at isShort
  exact Nat.lt_irrefl _ isShort

theorem drop_of_length_le {t : KeyedTable κ α} {n : Nat} (isAll : t.rows.length ≤ n) :
    t.drop n = ∅ :=
  KeyedTable.ext (List.drop_eq_nil_of_le isAll)

end Rules

end KeyedTable

end Murage.Library
