import Mathlib

/-!
Owns paging by position: a reader asks for what comes after the last row it holds, and the list may
change from one ask to the next. It names no system.
-/

namespace Murage.Library.KeysetPages

variable {α κ : Type*} [LinearOrder κ] (key : α → κ)

def after (cursor : κ) (rows : List α) : List α := rows.filter fun row => cursor < key row

/-- One answer: at most `size` rows after the position. -/
def page (cursor : κ) (rows : List α) (size : Nat) : List α := (after key cursor rows).take size

/-- Where the next answer begins; nowhere when this one is the last. -/
def next (cursor : κ) (rows : List α) (size : Nat) : Option κ :=
  if size < (after key cursor rows).length then (page key cursor rows size).getLast?.map key
  else none

/-- The answers to a sequence of asks, each with the rows as they are then, and the position they
stop at. -/
def run : Option κ → List (List α × Nat) → List (List α) × Option κ
  | none, _ => ([], none)
  | some cursor, [] => ([], some cursor)
  | some cursor, (rows, size) :: asks =>
    let rest := run (next key cursor rows size) asks
    (page key cursor rows size :: rest.1, rest.2)

def Ordered (rows : List α) : Prop := rows.Pairwise fun a b => key a < key b

variable {key} {cursor : κ} {rows : List α} {size : Nat} {asks : List (List α × Nat)}

theorem mem_after {row : α} : row ∈ after key cursor rows ↔ row ∈ rows ∧ cursor < key row := by
  rw [after, List.mem_filter, decide_eq_true_eq]

theorem mem_page {row : α} (isRow : row ∈ page key cursor rows size) :
    row ∈ rows ∧ cursor < key row :=
  mem_after.mp (List.mem_of_mem_take isRow)

theorem page_ordered (isOrdered : Ordered key rows) : Ordered key (page key cursor rows size) :=
  (isOrdered.filter _).sublist (List.take_sublist size _)

/-- Where the next answer begins is the position of the last row of this one; the rows it leaves out
are behind it. -/
theorem next_eq_some (isOrdered : Ordered key rows) {position : κ}
    (isNext : next key cursor rows size = some position) :
    (∀ row ∈ page key cursor rows size, key row ≤ position) ∧
      (∀ row ∈ rows, cursor < key row → row ∉ page key cursor rows size → position < key row) ∧
      (∃ row ∈ page key cursor rows size, key row = position) ∧
      size < (after key cursor rows).length := by
  unfold next at isNext
  split at isNext
  · next isMore =>
    obtain ⟨last, isLast, rfl⟩ := Option.map_eq_some_iff.mp isNext
    have isPage := List.mem_of_getLast? isLast
    obtain ⟨front, isFront⟩ := List.getLast?_eq_some_iff.mp isLast
    have isPageOrdered : Ordered key (page key cursor rows size) := page_ordered isOrdered
    refine ⟨?_, ?_, ⟨last, isPage, rfl⟩, isMore⟩
    · intro row isRow
      rw [isFront] at isRow isPageOrdered
      rcases List.mem_append.mp isRow with isEarlier | isIt
      · exact le_of_lt ((List.pairwise_append.mp isPageOrdered).2.2 row isEarlier last
          List.mem_cons_self)
      · rw [List.mem_singleton.mp isIt]
    · intro row isRow isAfter isOut
      have isSplit := List.take_append_drop size (after key cursor rows)
      have isRest : row ∈ (after key cursor rows).drop size := by
        have isIn := mem_after.mpr ⟨isRow, isAfter⟩
        rw [← isSplit] at isIn
        rcases List.mem_append.mp isIn with isPageRow | isLater
        · exact absurd isPageRow isOut
        · exact isLater
      have isAfterOrdered : Ordered key (after key cursor rows) := isOrdered.filter _
      rw [Ordered, ← isSplit] at isAfterOrdered
      exact (List.pairwise_append.mp isAfterOrdered).2.2 last isPage row isRest
  · cases isNext

/-- The last answer holds every row after the position. -/
theorem page_of_next_none (isSize : 0 < size) (isNext : next key cursor rows size = none) :
    page key cursor rows size = after key cursor rows := by
  unfold next at isNext
  split at isNext
  · next isMore =>
    rw [Option.map_eq_none_iff, List.getLast?_eq_none_iff, page, List.take_eq_nil_iff] at isNext
    rcases isNext with isZero | isNone
    · omega
    · rw [isNone] at isMore
      exact absurd isMore (Nat.not_lt_zero _)
  · next isAll => exact List.take_of_length_le (Nat.le_of_not_lt isAll)

/-- **Answers go on in order.** Whatever the list becomes between asks, the rows given come one after
another in their order, all after the position the reader began at. -/
theorem run_ordered (isOrdered : ∀ ask ∈ asks, Ordered key ask.1) (position : Option κ) :
    Ordered key (run key position asks).1.flatten ∧
      ∀ cursor ∈ position, ∀ row ∈ (run key position asks).1.flatten, cursor < key row := by
  induction asks generalizing position with
  | nil => cases position <;> simp [run, Ordered]
  | cons ask asks ih =>
    cases position with
    | none => simp [run, Ordered]
    | some cursor =>
      obtain ⟨rows, size⟩ := ask
      have isRows : Ordered key rows := isOrdered _ List.mem_cons_self
      obtain ⟨isRest, isBehind⟩ := ih
        (fun ask isAsk => isOrdered ask (List.mem_cons_of_mem _ isAsk))
        (next key cursor rows size)
      rw [run]
      dsimp only
      rw [List.flatten_cons]
      cases isNext : next key cursor rows size with
      | none =>
        simp only [run, List.flatten_nil, List.append_nil]
        refine ⟨page_ordered isRows, ?_⟩
        rintro _ ⟨⟩ row isRow
        exact (mem_page isRow).2
      | some position =>
        rw [isNext] at isRest isBehind
        obtain ⟨isUpTo, -, ⟨last, isLast, isPosition⟩, -⟩ := next_eq_some isRows isNext
        have isForward : cursor < position := isPosition ▸ (mem_page isLast).2
        refine ⟨List.pairwise_append.mpr ⟨page_ordered isRows, isRest, ?_⟩, ?_⟩
        · intro row isRow later isLater
          exact lt_of_le_of_lt (isUpTo row isRow) (isBehind position rfl later isLater)
        · rintro _ ⟨⟩ row isRow
          rcases List.mem_append.mp isRow with isPage | isLater
          · exact (mem_page isPage).2
          · exact lt_trans isForward (isBehind position rfl row isLater)

/-- **Nothing present throughout is lost.** Answers that go on to the last one give a row at every
position that the list holds at each ask. -/
theorem run_complete (isOrdered : ∀ ask ∈ asks, Ordered key ask.1) (isSize : ∀ ask ∈ asks, 0 < ask.2)
    {position : κ} (isThroughout : ∀ ask ∈ asks, ∃ row ∈ ask.1, key row = position)
    (start : κ) (isBehind : start < position) (isEnd : (run key (some start) asks).2 = none) :
    ∃ row ∈ (run key (some start) asks).1.flatten, key row = position := by
  induction asks generalizing start with
  | nil => cases isEnd
  | cons ask asks ih =>
    obtain ⟨rows, size⟩ := ask
    have isRows : Ordered key rows := isOrdered _ List.mem_cons_self
    obtain ⟨row, isRow, isPosition⟩ := isThroughout _ List.mem_cons_self
    rw [run] at isEnd ⊢
    dsimp only at isEnd ⊢
    rw [List.flatten_cons]
    by_cases isPage : row ∈ page key start rows size
    · exact ⟨row, List.mem_append_left _ isPage, isPosition⟩
    · cases isNext : next key start rows size with
      | none =>
        rw [page_of_next_none (isSize _ List.mem_cons_self) isNext] at isPage
        exact absurd (mem_after.mpr ⟨isRow, isPosition ▸ isBehind⟩) isPage
      | some later =>
        rw [isNext] at isEnd
        have isStill := (next_eq_some isRows isNext).2.1 row isRow (isPosition ▸ isBehind) isPage
        obtain ⟨found, isFound, isSame⟩ := ih
          (fun ask isAsk => isOrdered ask (List.mem_cons_of_mem _ isAsk))
          (fun ask isAsk => isSize ask (List.mem_cons_of_mem _ isAsk))
          (fun ask isAsk => isThroughout ask (List.mem_cons_of_mem _ isAsk))
          later (isPosition ▸ isStill) isEnd
        exact ⟨found, List.mem_append_right _ isFound, isSame⟩

/-- Every row given was in the list at some ask. -/
theorem mem_run (position : Option κ) {row : α} (isRow : row ∈ (run key position asks).1.flatten) :
    ∃ ask ∈ asks, row ∈ ask.1 := by
  induction asks generalizing position with
  | nil => cases position <;> cases isRow
  | cons ask asks ih =>
    cases position with
    | none => cases isRow
    | some cursor =>
      obtain ⟨rows, size⟩ := ask
      rw [run] at isRow
      dsimp only at isRow
      rw [List.flatten_cons] at isRow
      rcases List.mem_append.mp isRow with isPage | isLater
      · exact ⟨_, List.mem_cons_self, (mem_page isPage).1⟩
      · obtain ⟨ask, isAsk, isIn⟩ := ih _ isLater
        exact ⟨ask, List.mem_cons_of_mem _ isAsk, isIn⟩

/-- **Asks about one list end**, after as many as there are rows after the position at most, and one
where there are none. -/
theorem run_ends (isOrdered : Ordered key rows) (isSame : ∀ ask ∈ asks, ask.1 = rows ∧ 0 < ask.2)
    (start : κ) (isAsked : asks ≠ [])
    (isEnough : (after key start rows).length ≤ asks.length) :
    (run key (some start) asks).2 = none := by
  induction asks generalizing start with
  | nil => exact absurd rfl isAsked
  | cons ask asks ih =>
    obtain ⟨askedRows, size⟩ := ask
    obtain ⟨isRows, isSize⟩ := isSame _ List.mem_cons_self
    dsimp only at isRows isSize
    subst isRows
    rw [run]
    dsimp only
    cases isNext : next key start askedRows size with
    | none => rw [run]
    | some later =>
      obtain ⟨-, -, ⟨last, isLast, isPosition⟩, isMore⟩ := next_eq_some isOrdered isNext
      have isFewer : (after key later askedRows).length < (after key start askedRows).length := by
        have isStart := (mem_page isLast).2
        have isPart : after key later askedRows =
            (after key start askedRows).filter fun row => later < key row := by
          rw [after, after, List.filter_filter]
          apply List.filter_congr
          intro row _
          rw [Bool.eq_iff_iff, Bool.and_eq_true, decide_eq_true_eq, decide_eq_true_eq]
          exact ⟨fun isAfter => ⟨isAfter, lt_trans (isPosition ▸ isStart) isAfter⟩, And.left⟩
        rw [isPart]
        apply List.length_filter_lt_length_iff_exists.mpr
        refine ⟨last, mem_after.mpr (mem_page isLast), ?_⟩
        rw [decide_eq_true_eq, isPosition]
        exact lt_irrefl later
      apply ih (fun ask isAsk => isSame ask (List.mem_cons_of_mem _ isAsk))
      · rintro rfl
        rw [List.length_singleton] at isEnough
        omega
      · rw [List.length_cons] at isEnough
        omega

/-- Ordered rows that pass a test only at one position hold one such row at most. -/
theorem countP_eq_one (isOrdered : Ordered key rows) {test : α → Bool} {position : κ}
    (isHere : ∃ row ∈ rows, test row = true)
    (isOnly : ∀ row ∈ rows, test row = true → key row = position) : rows.countP test = 1 := by
  have isSome : 0 < rows.countP test := List.countP_pos_iff.mpr isHere
  rw [List.countP_eq_length_filter] at isSome ⊢
  have isFiltered : Ordered key (rows.filter test) := isOrdered.filter _
  match isRows : rows.filter test with
  | [] =>
    rw [isRows] at isSome
    exact absurd isSome (Nat.not_lt_zero _)
  | [_] => rfl
  | first :: second :: rest =>
    rw [isRows, Ordered, List.pairwise_cons] at isFiltered
    have isLess := isFiltered.1 second List.mem_cons_self
    have isAt : ∀ row ∈ rows.filter test, key row = position := fun row isRow =>
      isOnly row (List.mem_filter.mp isRow).1 (List.mem_filter.mp isRow).2
    rw [isRows] at isAt
    rw [isAt first List.mem_cons_self,
      isAt second (List.mem_cons_of_mem _ List.mem_cons_self)] at isLess
    exact absurd isLess (lt_irrefl _)

end Murage.Library.KeysetPages
