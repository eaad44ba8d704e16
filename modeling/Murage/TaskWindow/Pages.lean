import Murage.Library.KeysetPages
import Murage.TaskWindow.Model

/-!
Owns the order the tasks are paged in, the cursor as the text of a position in it, and the law of the
window and its older pages: following the cursors is paging by position, the pages are together all
the tasks, each in order, and a task that stays is not lost when others come and go.

Does not own: what a page shows of a task.
-/

namespace Murage.TaskWindow

open Murage.Library Murage.Library.Utf16

variable {ν γ : Type}

/-- A place in the order: the later times first, then the ids in theirs. -/
abbrev Position (ν : Type) := νᵒᵈ ×ₗ Text

def position (createdAt : ν) (threadId : Text) : Position ν :=
  toLex (OrderDual.toDual createdAt, threadId)

def WindowTask.position (task : WindowTask ν γ) : Position ν :=
  TaskWindow.position task.createdAt task.threadId

/-- Tasks of a record: their ids are distinct, and none is empty. -/
structure Listed (tasks : List (WindowTask ν γ)) : Prop where
  isDistinct : (tasks.map (·.threadId)).Nodup
  isNamed : ∀ task ∈ tasks, task.threadId ≠ []

def cursorText (numerals : Numerals ν) (place : Position ν) : Text :=
  numerals.text (OrderDual.ofDual (ofLex place).1) ++ colon :: (ofLex place).2

theorem encodeTaskCursor_eq (numerals : Numerals ν) (task : WindowTask ν γ) :
    encodeTaskCursor numerals task = cursorText numerals task.position := rfl

theorem idxOf_append {unit : UInt16} {front : Text} (isAbsent : unit ∉ front) (back : Text) :
    (front ++ unit :: back).idxOf? unit = some front.length := by
  induction front with
  | nil => simp [List.idxOf?_cons]
  | cons first front ih =>
    rw [List.mem_cons, not_or] at isAbsent
    rw [List.cons_append, List.idxOf?_cons, ih isAbsent.2]
    simp [Ne.symm isAbsent.1]

/-- **A cursor reads back**, whatever the id holds, if it holds anything. -/
theorem decodeTaskCursor_cursorText (numerals : Numerals ν) {createdAt : ν} {threadId : Text}
    (isNamed : threadId ≠ []) :
    decodeTaskCursor numerals (cursorText numerals (position createdAt threadId)) =
      some (createdAt, threadId) := by
  have isSplit := idxOf_append (numerals.noColon createdAt) threadId
  have isText := numerals.notEmpty createdAt
  rw [cursorText, position, decodeTaskCursor]
  simp only [ofLex_toLex, OrderDual.ofDual_toDual, isSplit]
  cases isLength : (numerals.text createdAt).length with
  | zero => exact absurd (List.eq_nil_of_length_eq_zero isLength) isText
  | succ count =>
    have isRest : (numerals.text createdAt ++ colon :: threadId).drop (count + 1 + 1) =
        threadId := by
      rw [← isLength, List.drop_append]
      simp
    have isFront : (numerals.text createdAt ++ colon :: threadId).take (count + 1) =
        numerals.text createdAt := by
      rw [← isLength, List.take_left']
      rfl
    simp only [isFront, isRest, numerals.readsBack]
    rw [if_pos isNamed]

theorem drop_findIdx {rows : List (WindowTask ν γ)} {test : WindowTask ν γ → Bool}
    (isLate : rows.Pairwise fun a b => test a = true → test b = true) :
    sliceFrom rows (rows.findIdx? test) = rows.filter test := by
  induction rows with
  | nil => rfl
  | cons row rows ih =>
    rw [List.pairwise_cons] at isLate
    rw [List.findIdx?_cons]
    cases isTest : test row with
    | true =>
      have isAll : rows.filter test = rows :=
        List.filter_eq_self.mpr fun other isOther => isLate.1 other isOther isTest
      rw [List.filter_cons_of_pos isTest, isAll]
      rfl
    | false =>
      rw [List.filter_cons_of_neg (by simp [isTest]), ← ih isLate.2]
      cases rows.findIdx? test <;> rfl

variable [LinearOrder ν]

theorem newerFirst_le (at₁ : ν) (id₁ : Text) (at₂ : ν) (id₂ : Text) :
    newerFirst at₁ id₁ at₂ id₂ ≤ 0 ↔ position at₁ id₁ ≤ position at₂ id₂ := by
  simp only [position, Prod.Lex.toLex_le_toLex, OrderDual.toDual_lt_toDual,
    OrderDual.toDual_inj, newerFirst]
  rcases lt_trichotomy at₂ at₁ with isNewer | isSame | isOlder
  · simp [isNewer]
  · subst isSame
    simp only [lt_irrefl, if_false, false_or, true_and]
    rcases lt_trichotomy id₁ id₂ with isBefore | isSameId | isAfter
    · simp [isBefore, le_of_lt isBefore]
    · simp [isSameId]
    · simp [isAfter, not_lt_of_gt isAfter, not_le_of_gt isAfter]
  · simp [isOlder, not_lt_of_gt isOlder, ne_of_lt isOlder]

theorem newerFirst_pos (at₁ : ν) (id₁ : Text) (at₂ : ν) (id₂ : Text) :
    0 < newerFirst at₁ id₁ at₂ id₂ ↔ position at₂ id₂ < position at₁ id₁ := by
  rw [← not_le, newerFirst_le, not_le]

theorem sortNewerFirst_perm (tasks : List (WindowTask ν γ)) : (sortNewerFirst tasks).Perm tasks :=
  List.mergeSort_perm tasks _

variable {tasks : List (WindowTask ν γ)}

theorem mem_sortNewerFirst {task : WindowTask ν γ} :
    task ∈ sortNewerFirst tasks ↔ task ∈ tasks := (sortNewerFirst_perm tasks).mem_iff

theorem sortNewerFirst_ordered (isDistinct : (tasks.map (·.threadId)).Nodup) :
    KeysetPages.Ordered WindowTask.position (sortNewerFirst tasks) := by
  have isSorted := @List.pairwise_mergeSort (WindowTask ν γ)
    (fun a b => decide (newerFirst a.createdAt a.threadId b.createdAt b.threadId ≤ 0))
    (fun a b c isLe isNext => by
      simp only [decide_eq_true_eq, newerFirst_le] at isLe isNext ⊢
      exact le_trans isLe isNext)
    (fun a b => by
      simp only [Bool.or_eq_true, decide_eq_true_eq, newerFirst_le]
      exact le_total _ _) tasks
  have isOther := List.pairwise_map.mp
    (((sortNewerFirst_perm tasks).map (·.threadId)).nodup_iff.mpr isDistinct)
  refine (isSorted.and isOther).imp ?_
  rintro a b ⟨isLe, isDifferent⟩
  rw [decide_eq_true_eq, newerFirst_le] at isLe
  refine lt_of_le_of_ne isLe fun isSame => isDifferent ?_
  simp only [WindowTask.position, position, toLex_inj, Prod.mk.injEq] at isSame
  exact isSame.2

theorem pageFrom_eq (numerals : Numerals ν) (isDistinct : (tasks.map (·.threadId)).Nodup)
    (createdAt : ν) (threadId : Text) (limit : Num) :
    pageFrom numerals tasks (some (createdAt, threadId)) limit =
      ⟨KeysetPages.page WindowTask.position (position createdAt threadId) (sortNewerFirst tasks)
          (pageSize limit),
        (KeysetPages.next WindowTask.position (position createdAt threadId) (sortNewerFirst tasks)
          (pageSize limit)).map (cursorText numerals), tasks.length⟩ := by
  have isLate : (sortNewerFirst tasks).Pairwise fun a b =>
      decide (0 < newerFirst a.createdAt a.threadId createdAt threadId) = true →
        decide (0 < newerFirst b.createdAt b.threadId createdAt threadId) = true := by
    refine (sortNewerFirst_ordered isDistinct).imp fun isLess isAfter => ?_
    simp only [decide_eq_true_eq, newerFirst_pos] at isAfter ⊢
    exact lt_trans isAfter isLess
  have isRest := drop_findIdx isLate
  have isAfter : ((sortNewerFirst tasks).filter fun task =>
      0 < newerFirst task.createdAt task.threadId createdAt threadId) =
        KeysetPages.after WindowTask.position (position createdAt threadId)
          (sortNewerFirst tasks) := by
    apply List.filter_congr
    intro task _
    rw [Bool.eq_iff_iff, decide_eq_true_eq, decide_eq_true_eq, newerFirst_pos]
    rfl
  rw [isAfter] at isRest
  rw [pageFrom, isRest]
  refine congrArg₂ (fun page next => TaskPage.mk page next tasks.length) rfl ?_
  rw [KeysetPages.next, KeysetPages.page]
  split
  · rw [Option.map_map]
    rfl
  · rfl

end Murage.TaskWindow

namespace Murage.TaskWindow

open Murage.Library Murage.Library.Utf16

variable {ν γ : Type} [LinearOrder ν] {numerals : Numerals ν}

theorem pageSize_pos (limit : Num) : 0 < pageSize limit := by
  cases limit with
  | nan => decide
  | infinite isNegative => cases isNegative <;> decide
  | finite value =>
    rw [pageSize]
    omega

variable (numerals) in
theorem follow_eq (asks : List (List (WindowTask ν γ) × Num)) (isListed : ∀ ask ∈ asks, Listed ask.1)
    (start : Option (Position ν)) (isNamed : ∀ place ∈ start, (ofLex place).2 ≠ []) :
    ∃ pages, follow numerals (start.map (cursorText numerals)) asks =
        some (pages, (KeysetPages.run WindowTask.position start
          (asks.map fun ask => (sortNewerFirst ask.1, pageSize ask.2))).2.map
            (cursorText numerals)) ∧
      pages.map (·.tasks) = (KeysetPages.run WindowTask.position start
        (asks.map fun ask => (sortNewerFirst ask.1, pageSize ask.2))).1 := by
  induction asks generalizing start with
  | nil =>
    cases start with
    | none => exact ⟨[], rfl, rfl⟩
    | some place => exact ⟨[], rfl, rfl⟩
  | cons ask asks ih =>
    cases start with
    | none => exact ⟨[], rfl, rfl⟩
    | some place =>
      obtain ⟨tasks, limit⟩ := ask
      have isTasks : Listed tasks := isListed _ List.mem_cons_self
      have isPlace := isNamed place rfl
      have isDecoded : decodeTaskCursor numerals (cursorText numerals place) =
          some (OrderDual.ofDual (ofLex place).1, (ofLex place).2) :=
        decodeTaskCursor_cursorText numerals isPlace
      have isPage := pageFrom_eq numerals isTasks.isDistinct
        (OrderDual.ofDual (ofLex place).1) (ofLex place).2 limit
      have isPosition : position (OrderDual.ofDual (ofLex place).1) (ofLex place).2 = place := rfl
      rw [isPosition] at isPage
      obtain ⟨pages, isFollowed, isPages⟩ := ih
        (fun ask isAsk => isListed ask (List.mem_cons_of_mem _ isAsk))
        (KeysetPages.next WindowTask.position place (sortNewerFirst tasks) (pageSize limit))
        (by
          intro later isLater
          obtain ⟨-, -, ⟨last, isLast, rfl⟩, -⟩ :=
            KeysetPages.next_eq_some (sortNewerFirst_ordered isTasks.isDistinct) isLater
          exact isTasks.isNamed last (mem_sortNewerFirst.mp (KeysetPages.mem_page isLast).1))
      refine ⟨pageFrom numerals tasks
        (some (OrderDual.ofDual (ofLex place).1, (ofLex place).2)) limit :: pages, ?_, ?_⟩
      · rw [Option.map_some, follow, pageTasks]
        simp only [isDecoded]
        rw [isPage]
        simp only [isFollowed]
        rfl
      · rw [List.map_cons, isPages, isPage]
        rfl

variable {tasks : List (WindowTask ν γ)}

variable (numerals) in
/-- A window that leaves tasks out names the last of its newest ones, and every task it leaves out
comes after that one. -/
theorem windowTasks_older (isListed : Listed tasks) (currentThreadId : Text) (extra : List Text)
    {size : Nat} (isSize : 1 ≤ size) (isMore : size < tasks.length) :
    ∃ last ∈ tasks,
      (windowTasks numerals tasks currentThreadId extra size).older =
          some (cursorText numerals last.position) ∧
        ∀ task ∈ tasks, task ∈ (windowTasks numerals tasks currentThreadId extra size).tasks ∨
          last.position < task.position := by
  have isLength := (sortNewerFirst_perm tasks).length_eq
  have isRanked : (sortNewerFirst tasks).take size ≠ [] := by
    intro isNone
    rw [List.take_eq_nil_iff] at isNone
    rcases isNone with isZero | isEmpty
    · omega
    · rw [isEmpty, List.length_nil] at isLength
      omega
  obtain ⟨last, isLast⟩ : ∃ last, ((sortNewerFirst tasks).take size).getLast? = some last :=
    ⟨_, List.getLast?_eq_some_getLast isRanked⟩
  have isLastRanked := List.mem_of_getLast? isLast
  rw [windowTasks, if_neg (Nat.not_le_of_lt isMore)]
  dsimp only
  refine ⟨last, mem_sortNewerFirst.mp (List.mem_of_mem_take isLastRanked), ?_, ?_⟩
  · rw [isLast, Option.map_some, encodeTaskCursor_eq]
  · intro task isTask
    have isSorted := mem_sortNewerFirst.mpr isTask
    have isOrdered := sortNewerFirst_ordered isListed.isDistinct
    rw [← List.take_append_drop size (sortNewerFirst tasks)] at isSorted
    rw [KeysetPages.Ordered, ← List.take_append_drop size (sortNewerFirst tasks)] at isOrdered
    rcases List.mem_append.mp isSorted with isNewest | isOlder
    · left
      rw [List.mem_filter, Bool.or_eq_true, Bool.or_eq_true, List.contains_iff_mem]
      exact ⟨isTask, Or.inl (Or.inl (List.mem_map_of_mem isNewest))⟩
    · right
      exact (List.pairwise_append.mp isOrdered).2.2 last isLastRanked task isOlder

theorem windowTasks_subset (currentThreadId : Text) (extra : List Text) (size : Nat)
    {task : WindowTask ν γ}
    (isKept : task ∈ (windowTasks numerals tasks currentThreadId extra size).tasks) :
    task ∈ tasks := by
  rw [windowTasks] at isKept
  split at isKept
  · exact isKept
  · exact (List.mem_filter.mp isKept).1

/-- Newest first; of two from one time, the smaller id first. -/
def Newer (a b : WindowTask ν γ) : Prop :=
  b.createdAt < a.createdAt ∨ a.createdAt = b.createdAt ∧ a.threadId < b.threadId

theorem newer_iff (a b : WindowTask ν γ) : Newer a b ↔ a.position < b.position := by
  simp only [Newer, WindowTask.position, position, Prod.Lex.toLex_lt_toLex,
    OrderDual.toDual_lt_toDual, OrderDual.toDual_inj]

theorem pageTasks_length {before : Option Text} {limit : Num} {page : TaskPage ν γ}
    (isPage : pageTasks numerals tasks before limit = some page) :
    page.tasks.length ≤ pageSize limit := by
  have isShort : ∀ start, (pageFrom numerals tasks start limit).tasks.length ≤ pageSize limit :=
    fun start => List.length_take_le _ _
  cases before with
  | none =>
    rw [pageTasks] at isPage
    rw [← Option.some.inj isPage]
    exact isShort none
  | some cursor =>
    rw [pageTasks] at isPage
    cases isStart : decodeTaskCursor numerals cursor with
    | none =>
      rw [isStart] at isPage
      cases isPage
    | some start =>
      rw [isStart] at isPage
      rw [← Option.some.inj isPage]
      exact isShort (some start)

theorem pageSize_le {limit : ℚ} (isLimit : 1 ≤ limit) : (pageSize (.finite limit) : ℚ) ≤ limit := by
  have isWhole : 1 ≤ ⌊limit⌋ := Int.le_floor.mpr (by exact_mod_cast isLimit)
  have isNonneg : 0 ≤ limit := le_trans zero_le_one isLimit
  rw [pageSize, if_pos isNonneg, if_neg (by omega)]
  have isLe : ((max 1 (min TASK_PAGE_MAX ⌊limit⌋)).toNat : Int) ≤ ⌊limit⌋ := by omega
  calc ((max 1 (min TASK_PAGE_MAX ⌊limit⌋)).toNat : ℚ)
      = (((max 1 (min TASK_PAGE_MAX ⌊limit⌋)).toNat : Int) : ℚ) := by norm_cast
    _ ≤ (⌊limit⌋ : ℚ) := by exact_mod_cast isLe
    _ ≤ limit := Int.floor_le limit

variable (numerals) in
theorem follow_window (isListed : Listed tasks) (currentThreadId : Text) (extra : List Text)
    {size : Nat} (isSize : 1 ≤ size) {asks : List (List (WindowTask ν γ) × Num)}
    (isAsksListed : ∀ ask ∈ asks, Listed ask.1) :
    ∃ (start : Option (Position ν)) (pages : List (TaskPage ν γ)),
      (windowTasks numerals tasks currentThreadId extra size).older =
          start.map (cursorText numerals) ∧
        (∀ place ∈ start, (ofLex place).2 ≠ []) ∧
        (∀ task ∈ tasks, task ∈ (windowTasks numerals tasks currentThreadId extra size).tasks ∨
          ∃ place ∈ start, place < task.position) ∧
        (start ≠ none → tasks ≠ []) ∧
        follow numerals (windowTasks numerals tasks currentThreadId extra size).older asks =
          some (pages, (KeysetPages.run WindowTask.position start
            (asks.map fun ask => (sortNewerFirst ask.1, pageSize ask.2))).2.map
              (cursorText numerals)) ∧
        pages.flatMap (·.tasks) = (KeysetPages.run WindowTask.position start
          (asks.map fun ask => (sortNewerFirst ask.1, pageSize ask.2))).1.flatten := by
  rcases Nat.lt_or_ge size tasks.length with isMore | isAll
  · obtain ⟨last, isLast, isOlder, isLeft⟩ :=
      windowTasks_older numerals isListed currentThreadId extra isSize isMore
    have isNamed : ∀ place ∈ some last.position, (ofLex place).2 ≠ [] := by
      rintro _ ⟨⟩
      exact isListed.isNamed last isLast
    obtain ⟨pages, isFollowed, isPages⟩ :=
      follow_eq numerals asks isAsksListed (some last.position) isNamed
    refine ⟨some last.position, pages, isOlder, isNamed, ?_, ?_, ?_, ?_⟩
    · intro task isTask
      exact (isLeft task isTask).imp_right fun isAfter => ⟨_, rfl, isAfter⟩
    · rintro - rfl
      cases isLast
    · rw [isOlder]
      exact isFollowed
    · rw [← isPages, List.flatMap_def]
  · have isWhole : windowTasks numerals tasks currentThreadId extra size =
        ⟨tasks, tasks.length, none⟩ := if_pos isAll
    refine ⟨none, [], by rw [isWhole]; rfl, nofun, ?_, nofun, ?_, ?_⟩
    · intro task isTask
      rw [isWhole]
      exact Or.inl isTask
    · rw [isWhole]
      cases asks <;> rfl
    · rw [KeysetPages.run]
      rfl

theorem asks_ordered {asks : List (List (WindowTask ν γ) × Num)}
    (isListed : ∀ ask ∈ asks, Listed ask.1) :
    ∀ ask ∈ asks.map (fun ask => (sortNewerFirst ask.1, pageSize ask.2)),
      KeysetPages.Ordered WindowTask.position ask.1 ∧ 0 < ask.2 := by
  intro ask isAsk
  obtain ⟨given, isGiven, rfl⟩ := List.mem_map.mp isAsk
  exact ⟨sortNewerFirst_ordered (isListed given isGiven).isDistinct, pageSize_pos given.2⟩

theorem pages_unchanged (isListed : Listed tasks) (currentThreadId : Text) (extra : List Text)
    {size : Nat} (isSize : 1 ≤ size) (limits : List Num) (isEnough : tasks.length ≤ limits.length) :
    ∃ pages, follow numerals (windowTasks numerals tasks currentThreadId extra size).older
        (limits.map fun limit => (tasks, limit)) = some (pages, none) ∧
      (∀ task, task ∈ tasks ↔
        task ∈ (windowTasks numerals tasks currentThreadId extra size).tasks ∨
          task ∈ pages.flatMap (·.tasks)) ∧
      (pages.flatMap (·.tasks)).Pairwise Newer := by
  have isSame : ∀ ask ∈ limits.map fun limit => (tasks, limit), ask.1 = tasks := by
    intro ask isAsk
    obtain ⟨limit, -, rfl⟩ := List.mem_map.mp isAsk
    rfl
  have isAsksListed : ∀ ask ∈ limits.map fun limit => (tasks, limit), Listed ask.1 :=
    fun ask isAsk => (isSame ask isAsk).symm ▸ isListed
  obtain ⟨start, pages, isOlder, -, isLeft, isSome, isFollowed, isPages⟩ :=
    follow_window numerals isListed currentThreadId extra isSize isAsksListed
  have isOrdered := asks_ordered isAsksListed
  have isRunOrdered := KeysetPages.run_ordered (fun ask isAsk => (isOrdered ask isAsk).1) start
  have isEnd : (KeysetPages.run WindowTask.position start
      ((limits.map fun limit => (tasks, limit)).map fun ask =>
        (sortNewerFirst ask.1, pageSize ask.2))).2 = none := by
    cases start with
    | none => rw [KeysetPages.run]
    | some place =>
      have isTask : 0 < tasks.length := List.length_pos_iff.mpr (isSome fun isNone => by cases isNone)
      have isLength := (sortNewerFirst_perm tasks).length_eq
      apply KeysetPages.run_ends (sortNewerFirst_ordered isListed.isDistinct)
      · intro ask isAsk
        refine ⟨?_, (isOrdered ask isAsk).2⟩
        obtain ⟨given, isGiven, rfl⟩ := List.mem_map.mp isAsk
        rw [isSame given isGiven]
      · intro isNone
        rw [List.map_eq_nil_iff, List.map_eq_nil_iff] at isNone
        rw [isNone, List.length_nil] at isEnough
        omega
      · have isPart := List.length_filter_le
          (fun task : WindowTask ν γ => decide (place < task.position)) (sortNewerFirst tasks)
        rw [KeysetPages.after, List.length_map, List.length_map]
        omega
  rw [isEnd, Option.map_none] at isFollowed
  refine ⟨pages, isFollowed, ?_, ?_⟩
  · intro task
    constructor
    · intro isTask
      refine (isLeft task isTask).imp_right ?_
      rintro ⟨place, rfl, isAfter⟩
      have isThroughout : ∀ ask ∈ (limits.map fun limit => (tasks, limit)).map fun ask =>
          (sortNewerFirst ask.1, pageSize ask.2), ∃ row ∈ ask.1, row.position = task.position := by
        intro ask isAsk
        obtain ⟨given, isGiven, rfl⟩ := List.mem_map.mp isAsk
        rw [isSame given isGiven]
        exact ⟨task, mem_sortNewerFirst.mpr isTask, rfl⟩
      obtain ⟨row, isRow, isAt⟩ := KeysetPages.run_complete
        (fun ask isAsk => (isOrdered ask isAsk).1) (fun ask isAsk => (isOrdered ask isAsk).2)
        isThroughout place isAfter isEnd
      obtain ⟨ask, isAsk, isIn⟩ := KeysetPages.mem_run _ isRow
      obtain ⟨given, isGiven, rfl⟩ := List.mem_map.mp isAsk
      rw [isSame given isGiven, mem_sortNewerFirst] at isIn
      have isTaskRow : row = task := by
        apply List.inj_on_of_nodup_map isListed.isDistinct isIn isTask
        simp only [WindowTask.position, position, toLex_inj, Prod.mk.injEq] at isAt
        exact isAt.2
      rw [isPages, ← isTaskRow]
      exact isRow
    · rintro (isKept | isPaged)
      · exact windowTasks_subset currentThreadId extra size isKept
      · rw [isPages] at isPaged
        obtain ⟨ask, isAsk, isIn⟩ := KeysetPages.mem_run _ isPaged
        obtain ⟨given, isGiven, rfl⟩ := List.mem_map.mp isAsk
        rwa [isSame given isGiven, mem_sortNewerFirst] at isIn
  · rw [isPages]
    exact isRunOrdered.1.imp fun isLess => (newer_iff _ _).mpr isLess

/-- When tasks come and go, the pages stay in order, and a task that is there throughout is returned
once. -/
theorem pages_changing (isListed : Listed tasks) (currentThreadId : Text) (extra : List Text)
    {size : Nat} (isSize : 1 ≤ size) (asks : List (List (WindowTask ν γ) × Num))
    (isAsksListed : ∀ ask ∈ asks, Listed ask.1) :
    ∃ pages stop, follow numerals
        (windowTasks numerals tasks currentThreadId extra size).older asks = some (pages, stop) ∧
      (pages.flatMap (·.tasks)).Pairwise Newer ∧
      (stop = none →
        ∀ cursor ∈ (windowTasks numerals tasks currentThreadId extra size).older,
        ∀ createdAt threadId,
          decodeTaskCursor numerals cursor = some (createdAt, threadId) →
        ∀ task : WindowTask ν γ,
          0 < newerFirst task.createdAt task.threadId createdAt threadId →
          (∀ ask ∈ asks, ∃ held ∈ ask.1,
            held.threadId = task.threadId ∧ held.createdAt = task.createdAt) →
          (pages.flatMap (·.tasks)).countP (fun given => given.threadId = task.threadId) = 1) := by
  obtain ⟨start, pages, isOlder, isNamed, -, -, isFollowed, isPages⟩ :=
    follow_window numerals isListed currentThreadId extra isSize isAsksListed
  have isOrdered := asks_ordered isAsksListed
  have isRunOrdered := KeysetPages.run_ordered (fun ask isAsk => (isOrdered ask isAsk).1) start
  refine ⟨pages, _, isFollowed, ?_, ?_⟩
  · rw [isPages]
    exact isRunOrdered.1.imp fun isLess => (newer_iff _ _).mpr isLess
  · intro isStop cursor isCursor createdAt threadId isDecoded task isAfter isThroughout
    rw [Option.map_eq_none_iff] at isStop
    rw [isOlder] at isCursor
    obtain ⟨place, rfl, rfl⟩ := Option.map_eq_some_iff.mp isCursor
    have isPlace : decodeTaskCursor numerals (cursorText numerals place) =
        some (OrderDual.ofDual (ofLex place).1, (ofLex place).2) :=
      decodeTaskCursor_cursorText numerals (isNamed place rfl)
    rw [isPlace, Option.some.injEq, Prod.mk.injEq] at isDecoded
    obtain ⟨rfl, rfl⟩ := isDecoded
    rw [newerFirst_pos] at isAfter
    rw [isPages]
    have isHeld : ∀ ask ∈ asks.map fun ask => (sortNewerFirst ask.1, pageSize ask.2),
        ∃ row ∈ ask.1, row.position = task.position := by
      intro ask isAsk
      obtain ⟨given, isGiven, rfl⟩ := List.mem_map.mp isAsk
      obtain ⟨held, isIn, isId, isTime⟩ := isThroughout given isGiven
      refine ⟨held, mem_sortNewerFirst.mpr isIn, ?_⟩
      rw [WindowTask.position, WindowTask.position, isId, isTime]
    have isOnly : ∀ row ∈ (KeysetPages.run WindowTask.position (some place)
        (asks.map fun ask => (sortNewerFirst ask.1, pageSize ask.2))).1.flatten,
        decide (row.threadId = task.threadId) = true → row.position = task.position := by
      intro row isRow isId
      obtain ⟨ask, isAsk, isIn⟩ := KeysetPages.mem_run _ isRow
      obtain ⟨given, isGiven, rfl⟩ := List.mem_map.mp isAsk
      obtain ⟨held, isHeldIn, isHeldId, isTime⟩ := isThroughout given isGiven
      have isSame : row = held :=
        List.inj_on_of_nodup_map (isAsksListed given isGiven).isDistinct
          (mem_sortNewerFirst.mp isIn) isHeldIn
          ((of_decide_eq_true isId).trans isHeldId.symm)
      rw [isSame, WindowTask.position, WindowTask.position, isHeldId, isTime]
    obtain ⟨row, isRow, isAt⟩ := KeysetPages.run_complete
      (fun ask isAsk => (isOrdered ask isAsk).1) (fun ask isAsk => (isOrdered ask isAsk).2)
      isHeld place isAfter isStop
    refine KeysetPages.countP_eq_one isRunOrdered.1 ⟨row, isRow, ?_⟩ isOnly
    simp only [WindowTask.position, position, toLex_inj, Prod.mk.injEq] at isAt
    exact decide_eq_true isAt.2

/-- **The window and its older pages lose no conversation.** While the tasks stay as they are, the
reader comes to an end after as many asks as there are tasks at most, with any limits; the window and
the pages together are the tasks, and the pages are in order, newest first, so no task is in two of
them. When tasks come and go between the asks, no ask is refused and the pages are still in order;
and if the reader comes to an end, a task older than the window's cursor that is there at every ask
is returned exactly once. A page holds at most its limit. -/
theorem window_and_pages (numerals : Numerals ν) (tasks : List (WindowTask ν γ))
    (isListed : Listed tasks) (currentThreadId : Text) (extra : List Text) (size : Nat)
    (isSize : 1 ≤ size) :
    (∀ limits : List Num, tasks.length ≤ limits.length →
      ∃ pages, follow numerals (windowTasks numerals tasks currentThreadId extra size).older
          (limits.map fun limit => (tasks, limit)) = some (pages, none) ∧
        (∀ task, task ∈ tasks ↔
          task ∈ (windowTasks numerals tasks currentThreadId extra size).tasks ∨
            task ∈ pages.flatMap (·.tasks)) ∧
        (pages.flatMap (·.tasks)).Pairwise Newer) ∧
      (∀ asks : List (List (WindowTask ν γ) × Num), (∀ ask ∈ asks, Listed ask.1) →
        ∃ pages stop, follow numerals
            (windowTasks numerals tasks currentThreadId extra size).older asks =
              some (pages, stop) ∧
          (pages.flatMap (·.tasks)).Pairwise Newer ∧
          (stop = none →
            ∀ cursor ∈ (windowTasks numerals tasks currentThreadId extra size).older,
            ∀ createdAt threadId,
              decodeTaskCursor numerals cursor = some (createdAt, threadId) →
            ∀ task : WindowTask ν γ,
              0 < newerFirst task.createdAt task.threadId createdAt threadId →
              (∀ ask ∈ asks, ∃ held ∈ ask.1,
                held.threadId = task.threadId ∧ held.createdAt = task.createdAt) →
              (pages.flatMap (·.tasks)).countP (fun given => given.threadId = task.threadId) =
                1)) ∧
      ∀ before limit page, pageTasks numerals tasks before limit = some page →
        page.tasks.length ≤ pageSize limit ∧
          ∀ value, limit = .finite value → 1 ≤ value → (page.tasks.length : ℚ) ≤ value := by
  refine ⟨pages_unchanged isListed currentThreadId extra isSize,
    pages_changing isListed currentThreadId extra isSize, ?_⟩
  intro before limit page isPage
  refine ⟨pageTasks_length isPage, ?_⟩
  rintro value rfl isValue
  exact le_trans (by exact_mod_cast pageTasks_length isPage) (pageSize_le isValue)

/-- Times of one digit, printed and read as that. -/
def digits : Numerals (Fin 10) where
  text number := [UInt16.ofNat (48 + number)]
  read text :=
    match text with
    | [unit] =>
      if 48 ≤ unit.toNat ∧ unit.toNat < 58 then some (Fin.ofNat 10 (unit.toNat - 48)) else none
    | _ => none
  noColon := by decide
  notEmpty number := List.cons_ne_nil _ _
  readsBack := by decide

def taskAt (threadId : Text) (createdAt : Fin 10) : WindowTask (Fin 10) Unit :=
  ⟨threadId, createdAt, none, none, none, none, none, ()⟩

def colons : List (WindowTask (Fin 10) Unit) :=
  [taskAt (units "b:1") 5, taskAt (units "a") 5, taskAt (units "c") 3]

theorem window_and_pages_example :
    ∃ pages, follow digits (windowTasks digits colons (units "a") [] 1).older
        ([.finite 1, .finite 1, .finite 1].map fun limit => (colons, limit)) =
          some (pages, none) ∧
      ∀ task, task ∈ colons ↔
        task ∈ (windowTasks digits colons (units "a") [] 1).tasks ∨
          task ∈ pages.flatMap (·.tasks) := by
  obtain ⟨pages, isFollowed, isAll, -⟩ := (window_and_pages digits colons
    ⟨by decide, by decide⟩ (units "a") [] 1 (by decide)).1 [.finite 1, .finite 1, .finite 1] (by decide)
  exact ⟨pages, isFollowed, isAll⟩

/-- The newest task has the empty id. -/
def unnamed : List (WindowTask (Fin 10) Unit) := [taskAt [] 2, taskAt (units "b") 1]

theorem unnamed_window : windowTasks digits unnamed (units "c") [] 1 =
    ⟨[taskAt [] 2], 2, some (units "2:")⟩ := by
  have isSorted : sortNewerFirst unnamed = unnamed := List.mergeSort_of_pairwise (by decide)
  have isNoneUnread : (unnamed.filter fun task =>
      !(((unnamed.take 1).map (·.threadId)).contains task.threadId) && isUnread task &&
        !mustKeepTaskNow task (units "c") []) = [] := by
    decide +kernel
  have isNone : sortNewerFirst ([] : List (WindowTask (Fin 10) Unit)) = [] := List.mergeSort_nil
  rw [windowTasks, if_neg (by decide), isSorted]
  dsimp only
  rw [isNoneUnread, isNone]
  rfl

/-- A window that ends at a task without an id names a cursor that is refused, and the task behind it
is in neither. -/
theorem unnamed_refused :
    (unnamed.map (·.threadId)).Nodup ∧
      taskAt (units "b") 1 ∈ unnamed ∧
      taskAt (units "b") 1 ∉ (windowTasks digits unnamed (units "c") [] 1).tasks ∧
      (windowTasks digits unnamed (units "c") [] 1).older = some (units "2:") ∧
      follow digits (some (units "2:")) [(unnamed, .finite 50)] = none := by
  rw [unnamed_window]
  refine ⟨by decide, by decide, by decide, rfl, ?_⟩
  have isRefused : decodeTaskCursor digits (units "2:") = none := by decide
  rw [follow, pageTasks, isRefused]

end Murage.TaskWindow
