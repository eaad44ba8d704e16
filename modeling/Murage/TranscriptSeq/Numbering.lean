import Mathlib.Data.List.Nodup
import Murage.TranscriptSeq.Model

/-!
Owns what a write and a turn of the walk's loop keep of the rows: their places, the
numbers `1..k` of every conversation, and the numbers already given.

Does not own: the stored state of the walk, and runs.
-/

namespace Murage.TranscriptSeq

open Murage.Library.Numbers

/-! ## Rows -/

structure Placed (rows : List Row) : Prop where
  ordered : rows.Pairwise (·.rowid < ·.rowid)
  keys : rows.Pairwise fun row other => ¬(row.threadId = other.threadId ∧ row.id = other.id)
  inOrder : ∀ row ∈ rows, ∀ other ∈ rows, row.threadId = other.threadId →
    row.replaced = false → other.replaced = false →
    ∀ m n, row.seq = some m → other.seq = some n → row.rowid < other.rowid → m < n
  /-- Of the rows never replaced, the walk numbers the first of a conversation first. -/
  walked : ∀ row ∈ rows, ∀ other ∈ rows, row.threadId = other.threadId →
    row.replaced = false → row.seq.isSome → other.seq = none → row.rowid < other.rowid

namespace Placed

variable {rows : List Row}

theorem sublist {fewer : List Row} (placed : Placed rows) (taken : fewer.Sublist rows) :
    Placed fewer where
  ordered := placed.ordered.sublist taken
  keys := placed.keys.sublist taken
  inOrder := fun row isIn other isOther =>
    placed.inOrder row (taken.subset isIn) other (taken.subset isOther)
  walked := fun row isIn other isOther =>
    placed.walked row (taken.subset isIn) other (taken.subset isOther)

theorem eq_of_rowid (placed : Placed rows) {row other : Row} (isIn : row ∈ rows)
    (isOther : other ∈ rows) (same : row.rowid = other.rowid) : row = other := by
  have nodup : (rows.map (·.rowid)).Nodup :=
    List.pairwise_map.mpr (placed.ordered.imp fun {_ _} less => Nat.ne_of_lt less)
  exact List.inj_on_of_nodup_map nodup isIn isOther same

theorem eq_of_key (placed : Placed rows) {row other : Row} (isIn : row ∈ rows)
    (isOther : other ∈ rows) (thread : row.threadId = other.threadId) (id : row.id = other.id) :
    row = other := by
  have nodup : (rows.map fun row => (row.threadId, row.id)).Nodup :=
    List.pairwise_map.mpr (placed.keys.imp fun {_ _} differs same =>
      differs ⟨congrArg Prod.fst same, congrArg Prod.snd same⟩)
  exact List.inj_on_of_nodup_map nodup isIn isOther (Prod.ext thread id)

theorem append (placed : Placed rows) {new : Row} (last : ∀ row ∈ rows, row.rowid < new.rowid)
    (isNew : ∀ row ∈ rows, ¬(row.threadId = new.threadId ∧ row.id = new.id))
    (numbered : new.replaced = false → new.seq.isSome →
      ∀ row ∈ rows, row.threadId = new.threadId → ∃ n, row.seq = some n ∧ some n < new.seq) :
    Placed (rows ++ [new]) where
  ordered := List.pairwise_append.mpr ⟨placed.ordered, List.pairwise_singleton _ _,
    fun row isIn other isOther => by
      obtain rfl := List.mem_singleton.mp isOther
      exact last row isIn⟩
  keys := List.pairwise_append.mpr ⟨placed.keys, List.pairwise_singleton _ _,
    fun row isIn other isOther => by
      obtain rfl := List.mem_singleton.mp isOther
      exact isNew row isIn⟩
  inOrder := fun row isIn other isOther thread first second m n isM isN less => by
    rcases List.mem_append.mp isIn with old | isLast <;>
      rcases List.mem_append.mp isOther with oldOther | isLastOther
    · exact placed.inOrder row old other oldOther thread first second m n isM isN less
    · obtain rfl := List.mem_singleton.mp isLastOther
      obtain ⟨held, isHeld, below⟩ := numbered second (by rw [isN]; rfl) row old thread
      obtain rfl : held = m := Option.some.inj (isHeld.symm.trans isM)
      rw [isN] at below
      exact Option.some_lt_some.mp below
    · obtain rfl := List.mem_singleton.mp isLast
      exact absurd (last other oldOther) (Nat.lt_asymm less)
    · obtain rfl := List.mem_singleton.mp isLast
      obtain rfl := List.mem_singleton.mp isLastOther
      exact absurd less (Nat.lt_irrefl _)
  walked := fun row isIn other isOther thread first isSome isNone => by
    rcases List.mem_append.mp isIn with old | isLast <;>
      rcases List.mem_append.mp isOther with oldOther | isLastOther
    · exact placed.walked row old other oldOther thread first isSome isNone
    · obtain rfl := List.mem_singleton.mp isLastOther
      exact last row old
    · obtain rfl := List.mem_singleton.mp isLast
      obtain ⟨held, isHeld, -⟩ := numbered first isSome other oldOther thread.symm
      rw [isNone] at isHeld
      cases isHeld
    · obtain rfl := List.mem_singleton.mp isLast
      obtain rfl := List.mem_singleton.mp isLastOther
      rw [isNone] at isSome
      cases isSome

end Placed

variable {rows : List Row} {row : Row}

theorem lt_newestRowid (isIn : row ∈ rows) :
    row.rowid < newestRowid rows + 1 :=
  Nat.lt_succ_of_le (le_top (List.mem_map_of_mem isIn))

theorem mem_numbersOf {threadId : String} {number : Nat} :
    number ∈ numbersOf rows threadId ↔
      ∃ row ∈ rows, row.threadId = threadId ∧ row.seq = some number := by
  unfold numbersOf
  rw [List.mem_filterMap]
  constructor
  · rintro ⟨row, isIn, isSeq⟩
    obtain ⟨isRow, isThread⟩ := List.mem_filter.mp isIn
    exact ⟨row, isRow, beq_iff_eq.mp isThread, isSeq⟩
  · rintro ⟨row, isIn, isThread, isSeq⟩
    exact ⟨row, List.mem_filter.mpr ⟨isIn, beq_iff_eq.mpr isThread⟩, isSeq⟩

theorem numbersOf_perm {rows others : List Row} (same : rows.Perm others) (threadId : String) :
    (numbersOf rows threadId).Perm (numbersOf others threadId) :=
  (same.filter _).filterMap _

theorem numbersOf_cons (row : Row) (rows : List Row) (threadId : String) :
    numbersOf (row :: rows) threadId =
      (if row.threadId = threadId then row.seq.toList else []) ++ numbersOf rows threadId := by
  unfold numbersOf
  by_cases isThread : row.threadId = threadId
  · rw [if_pos isThread, List.filter_cons, if_pos (beq_iff_eq.mpr isThread),
      List.filterMap_cons]
    cases row.seq <;> rfl
  · rw [if_neg isThread, List.filter_cons, if_neg (by simpa using isThread), List.nil_append]

/-- Every conversation's numbers are `1..k`. -/
def Numbered (rows : List Row) : Prop := ∀ threadId, Contiguous (numbersOf rows threadId)

theorem Numbered.append (numbered : Numbered rows) {new : Row}
    (isNext : ∀ n, new.seq = some n → n = nextSeq rows new.threadId) :
    Numbered (rows ++ [new]) := by
  intro threadId
  refine Contiguous.perm ?_ (numbersOf_perm (List.perm_append_singleton new rows) threadId)
  rw [numbersOf_cons]
  split_ifs with isThread
  · cases isSeq : new.seq with
    | none => exact numbered threadId
    | some n =>
      obtain rfl := isNext n isSeq
      subst isThread
      exact (numbered new.threadId).next
  · exact numbered threadId

theorem Numbered.withoutThread (numbered : Numbered rows) (threadId : String) :
    Numbered (rows.filter fun row => row.threadId != threadId) := by
  intro other
  unfold numbersOf
  rw [List.filter_filter]
  by_cases same : other = threadId
  · subst same
    rw [List.filter_eq_nil_iff.mpr fun row _ => by simp]
    exact contiguous_nil
  · rw [List.filter_congr fun row _ => show (row.threadId == other && row.threadId != threadId) =
      (row.threadId == other) from ?_]
    · exact numbered other
    · by_cases isOther : row.threadId = other
      · subst isOther
        simp [same]
      · simp [isOther]

/-! ## A write -/

theorem isKey_iff {threadId id : String} :
    row.isKey threadId id = true ↔ row.threadId = threadId ∧ row.id = id := by
  unfold Row.isKey
  rw [Bool.and_eq_true, beq_iff_eq, beq_iff_eq]

theorem Placed.perm_of_key {threadId id : String} (placed : Placed rows) (isIn : row ∈ rows)
    (isKey : row.isKey threadId id = true) :
    rows.Perm (row :: rows.filter fun row => !row.isKey threadId id) := by
  obtain ⟨before, after, rfl⟩ := List.append_of_mem isIn
  obtain ⟨thread, sameId⟩ := isKey_iff.mp isKey
  have others := List.pairwise_append.mp placed.keys
  have beforeOther : ∀ other ∈ before, (!other.isKey threadId id) = true := fun other isOther => by
    rw [Bool.not_eq_true', ← Bool.not_eq_true, isKey_iff]
    rintro ⟨otherThread, otherId⟩
    exact others.2.2 other isOther row List.mem_cons_self
      ⟨otherThread.trans thread.symm, otherId.trans sameId.symm⟩
  have afterOther : ∀ other ∈ after, (!other.isKey threadId id) = true := fun other isOther => by
    rw [Bool.not_eq_true', ← Bool.not_eq_true, isKey_iff]
    rintro ⟨otherThread, otherId⟩
    exact (List.pairwise_cons.mp others.2.1).1 other isOther
      ⟨thread.trans otherThread.symm, sameId.trans otherId.symm⟩
  rw [List.filter_append, List.filter_cons, if_neg (by rw [isKey]; simp),
    List.filter_eq_self.mpr beforeOther, List.filter_eq_self.mpr afterOther]
  exact List.perm_middle

namespace Db

variable {db db' : Db} {threadId id : String}

theorem prior_eq_none (absent : db.prior threadId id = none) (isIn : row ∈ db.rows) :
    ¬(row.threadId = threadId ∧ row.id = id) := by
  rw [← isKey_iff]
  exact List.find?_eq_none.mp absent row isIn

theorem prior_spec (isPrior : db.prior threadId id = some row) :
    row ∈ db.rows ∧ row.threadId = threadId ∧ row.id = id :=
  ⟨List.mem_of_find?_eq_some isPrior, isKey_iff.mp (List.find?_some isPrior)⟩

theorem prior_eq_some (placed : Placed db.rows) (isIn : row ∈ db.rows)
    (thread : row.threadId = threadId) (isId : row.id = id) :
    db.prior threadId id = some row := by
  cases isPrior : db.prior threadId id with
  | none => exact absurd ⟨thread, isId⟩ (prior_eq_none isPrior isIn)
  | some other =>
    obtain ⟨isOther, otherThread, otherId⟩ := prior_spec isPrior
    exact congrArg some (placed.eq_of_key isOther isIn (otherThread.trans thread.symm)
      (otherId.trans isId.symm))

theorem seqOfRow_eq_some (placed : Placed db.rows) {number : Nat} :
    db.seqOfRow threadId id = some number ↔
      ∃ row ∈ db.rows, row.threadId = threadId ∧ row.id = id ∧ row.seq = some number := by
  unfold seqOfRow
  rw [Option.bind_eq_some_iff]
  constructor
  · rintro ⟨row, isPrior, isSeq⟩
    obtain ⟨isIn, thread, isId⟩ := prior_spec isPrior
    exact ⟨row, isIn, thread, isId, isSeq⟩
  · rintro ⟨row, isIn, thread, isId, isSeq⟩
    exact ⟨row, prior_eq_some placed isIn thread isId, isSeq⟩

theorem threadNumbered_iff :
    db.threadNumbered threadId = true ↔
      db.indexReady = true ∧ ∀ row ∈ db.rows, row.threadId = threadId → row.seq ≠ none := by
  simp [threadNumbered, Option.ne_none_iff_isSome]

theorem storedSeq_of_prior (isPrior : db.prior threadId id = some row) :
    db.storedSeq threadId id = row.seq := by
  obtain ⟨isIn, thread, -⟩ := prior_spec isPrior
  unfold storedSeq seqOfRow
  rw [isPrior, Option.bind_some]
  cases isSeq : row.seq with
  | some held => rfl
  | none =>
    refine if_neg fun numbered => ?_
    exact (threadNumbered_iff.mp numbered).2 row isIn thread isSeq

theorem storedSeq_of_new (absent : db.prior threadId id = none) :
    db.storedSeq threadId id =
      if db.threadNumbered threadId then some (nextSeq db.rows threadId) else none := by
  unfold storedSeq seqOfRow
  rw [absent, Option.bind_none]

theorem replaceRow_numbered (placed : Placed db.rows) (numbered : Numbered db.rows) :
    Numbered (db.replaceRow threadId id).rows := by
  cases isPrior : db.prior threadId id with
  | none =>
    have others : db.rows.filter (fun row => !row.isKey threadId id) = db.rows :=
      List.filter_eq_self.mpr fun row isIn => by
        rw [Bool.not_eq_true', ← Bool.not_eq_true, isKey_iff]
        exact prior_eq_none isPrior isIn
    unfold replaceRow
    rw [others]
    refine numbered.append fun n isNext => ?_
    rw [storedSeq_of_new isPrior] at isNext
    split_ifs at isNext
    exact (Option.some.inj isNext).symm
  | some row =>
    obtain ⟨isIn, thread, isId⟩ := prior_spec isPrior
    intro other
    refine Contiguous.perm (numbered other) ?_
    have taken := placed.perm_of_key isIn (isKey_iff.mpr ⟨thread, isId⟩)
    refine (numbersOf_perm (List.perm_append_singleton _ _) other).trans ?_
    refine List.Perm.trans ?_ (numbersOf_perm taken other).symm
    rw [numbersOf_cons, numbersOf_cons, storedSeq_of_prior isPrior, thread]

theorem replaceRow_placed (placed : Placed db.rows) : Placed (db.replaceRow threadId id).rows := by
  have others : (db.rows.filter fun row => !row.isKey threadId id).Sublist db.rows :=
    List.filter_sublist
  refine (placed.sublist others).append (fun row isIn => ?_) (fun row isIn same => ?_)
    fun isNew isSome row isIn thread => ?_
  · exact lt_newestRowid (others.subset isIn)
  · have differs := (List.mem_filter.mp isIn).2
    rw [isKey_iff.mpr same] at differs
    cases differs
  · have absent : db.prior threadId id = none := Option.isNone_iff_eq_none.mp (by
      simpa using isNew)
    have isSeq := storedSeq_of_new absent
    have isStored : (db.storedSeq threadId id).isSome := isSome
    show ∃ n, row.seq = some n ∧ some n < db.storedSeq threadId id
    by_cases isNumbered : db.threadNumbered threadId = true
    swap
    · rw [isSeq, if_neg isNumbered] at isStored
      cases isStored
    rw [isSeq, if_pos isNumbered]
    have isRow := others.subset isIn
    have isHeld := (threadNumbered_iff.mp isNumbered).2 row isRow thread
    obtain ⟨held, isHeld⟩ := Option.ne_none_iff_exists'.mp isHeld
    refine ⟨held, isHeld, Option.some_lt_some.mpr (Nat.lt_succ_of_le (le_top ?_))⟩
    exact mem_numbersOf.mpr ⟨row, isRow, thread, isHeld⟩

end Db

/-! ## The walk -/

/-- No row loses its number, and none appears without one. -/
structure Fills (rows rows' : List Row) : Prop where
  unnumbered : ∀ row ∈ rows', row.seq = none → row ∈ rows
  numbered : ∀ row ∈ rows, row.seq ≠ none → row ∈ rows'

theorem Fills.refl (rows : List Row) : Fills rows rows :=
  ⟨fun _ isIn _ => isIn, fun _ isIn _ => isIn⟩

theorem Fills.trans {rows rows' rows'' : List Row} (first : Fills rows rows')
    (second : Fills rows' rows'') : Fills rows rows'' where
  unnumbered := fun row isIn isNone =>
    first.unnumbered row (second.unnumbered row isIn isNone) isNone
  numbered := fun row isIn isSome =>
    second.numbered row (first.numbered row isIn isSome) isSome

section SetSeq

variable {rows : List Row} {row : Row} {seq : Nat}

theorem mem_setSeq (placed : Placed rows) (isIn : row ∈ rows) {found : Row} :
    found ∈ setSeq rows seq row.rowid ↔
      found = { row with seq := some seq } ∨ (found ∈ rows ∧ found ≠ row) := by
  unfold setSeq
  rw [List.mem_map]
  constructor
  · rintro ⟨source, isSource, rfl⟩
    split_ifs with same
    · rw [placed.eq_of_rowid isSource isIn same]
      exact Or.inl rfl
    · exact Or.inr ⟨isSource, fun isRow => same (by rw [isRow])⟩
  · rintro (rfl | ⟨isFound, differs⟩)
    · exact ⟨row, isIn, if_pos rfl⟩
    · exact ⟨found, isFound, if_neg fun same => differs (placed.eq_of_rowid isFound isIn same)⟩

theorem Placed.setSeq (placed : Placed rows) (isIn : row ∈ rows) (unnumbered : row.seq = none)
    (isFirst : ∀ other ∈ rows, other.seq = none → other ≠ row → row.rowid < other.rowid)
    (isPast : ∀ other ∈ rows, other.threadId = row.threadId → ∀ n, other.seq = some n → n < seq) :
    Placed (setSeq rows seq row.rowid) where
  ordered := List.pairwise_map.mpr (placed.ordered.imp fun {_ _} less => by
    split_ifs <;> exact less)
  keys := List.pairwise_map.mpr (placed.keys.imp fun {_ _} differs => by
    split_ifs <;> exact differs)
  inOrder := fun first isFirstRow second isSecond thread never neverSecond m n isM isN less => by
    rcases (mem_setSeq placed isIn).mp isFirstRow with rfl | ⟨oldFirst, -⟩ <;>
      rcases (mem_setSeq placed isIn).mp isSecond with rfl | ⟨oldSecond, -⟩
    · exact absurd less (Nat.lt_irrefl _)
    · -- A numbered row never replaced is not ahead of the first row without a number.
      have before := placed.walked second oldSecond row isIn thread.symm neverSecond
        (by rw [isN]; rfl) unnumbered
      exact absurd less (Nat.lt_asymm before)
    · obtain rfl := Option.some.inj isN
      exact isPast first oldFirst thread m isM
    · exact placed.inOrder first oldFirst second oldSecond thread never neverSecond m n isM isN less
  walked := fun first isFirstRow second isSecond thread never isSome isNone => by
    rcases (mem_setSeq placed isIn).mp isSecond with rfl | ⟨oldSecond, differs⟩
    · cases isNone
    rcases (mem_setSeq placed isIn).mp isFirstRow with rfl | ⟨oldFirst, -⟩
    · exact isFirst second oldSecond isNone differs
    · exact placed.walked first oldFirst second oldSecond thread never isSome isNone

theorem numbersOf_setSeq (placed : Placed rows) (isIn : row ∈ rows) (unnumbered : row.seq = none)
    (threadId : String) :
    (numbersOf (setSeq rows seq row.rowid) threadId).Perm
      ((if row.threadId = threadId then [seq] else []) ++ numbersOf rows threadId) := by
  obtain ⟨before, after, rfl⟩ := List.append_of_mem isIn
  have others := List.pairwise_append.mp placed.ordered
  have sameBefore : before.map (fun other =>
      if other.rowid = row.rowid then { other with seq := some seq } else other) = before :=
    List.map_congr_left (g := id) (fun other isOther => if_neg
      (Nat.ne_of_lt (others.2.2 other isOther row List.mem_cons_self))) |>.trans (List.map_id _)
  have sameAfter : after.map (fun other =>
      if other.rowid = row.rowid then { other with seq := some seq } else other) = after :=
    List.map_congr_left (g := id) (fun other isOther => if_neg
      (Nat.ne_of_gt ((List.pairwise_cons.mp others.2.1).1 other isOther))) |>.trans (List.map_id _)
  unfold TranscriptSeq.setSeq
  rw [List.map_append, List.map_cons, sameBefore, sameAfter, if_pos rfl]
  refine (numbersOf_perm List.perm_middle threadId).trans ?_
  refine List.Perm.trans ?_ ((numbersOf_perm List.perm_middle threadId).symm.append_left _)
  rw [numbersOf_cons, numbersOf_cons, unnumbered]
  split_ifs <;> rfl

theorem Numbered.setSeq (numbered : Numbered rows) (placed : Placed rows) (isIn : row ∈ rows)
    (unnumbered : row.seq = none) :
    Numbered (setSeq rows (nextSeq rows row.threadId) row.rowid) := by
  intro threadId
  refine Contiguous.perm ?_ (numbersOf_setSeq placed isIn unnumbered threadId)
  split_ifs with isThread
  · subst isThread
    exact (numbered row.threadId).next
  · exact numbered threadId

theorem top_setSeq (numbered : Numbered rows) (placed : Placed rows) (isIn : row ∈ rows)
    (unnumbered : row.seq = none) (threadId : String) :
    top (numbersOf (setSeq rows (nextSeq rows row.threadId) row.rowid) threadId) =
      if row.threadId = threadId then nextSeq rows row.threadId
      else top (numbersOf rows threadId) := by
  rw [((numbered.setSeq placed isIn unnumbered) threadId).top_eq,
    (numbersOf_setSeq placed isIn unnumbered threadId).length_eq, List.length_append]
  split_ifs with isThread
  · subst isThread
    unfold nextSeq
    rw [(numbered row.threadId).top_eq, List.length_singleton, Nat.add_comm]
  · rw [(numbered threadId).top_eq, List.length_nil, Nat.zero_add]

theorem Fills.setSeq (placed : Placed rows) (isIn : row ∈ rows) (unnumbered : row.seq = none) :
    Fills rows (setSeq rows seq row.rowid) where
  unnumbered := fun found isFound isNone => by
    rcases (mem_setSeq placed isIn).mp isFound with rfl | ⟨old, -⟩
    · cases isNone
    · exact old
  numbered := fun found isFound isSome =>
    (mem_setSeq placed isIn).mpr (Or.inr ⟨isFound, fun isRow => isSome (isRow ▸ unnumbered)⟩)

end SetSeq

namespace Walk

/-- The loop with `unread` rows above its cursor: no row behind it lacks a number. -/
structure Going (walk : Walk) (unread : List Row) : Prop where
  placed : Placed walk.rows
  numbered : Numbered walk.rows
  above : ∀ row ∈ walk.rows, row.seq = none → walk.cursor < row.rowid
  ahead : walk.rows.filter (fun row => walk.cursor < row.rowid) = unread
  next : ∀ threadId n, walk.next threadId = some n → top (numbersOf walk.rows threadId) = n

variable {walk : Walk} {row : Row} {rest : List Row}

theorem visit_numbered {held : Nat} (isSeq : row.seq = some held) :
    walk.visit row = { walk with scanned := walk.scanned + 1, cursor := row.rowid } := by
  unfold visit
  rw [isSeq]

theorem visit_unnumbered (isSeq : row.seq = none) :
    walk.visit row =
      { rows := setSeq walk.rows (walk.number row.threadId) row.rowid
        next := Function.update walk.next row.threadId (some (walk.number row.threadId))
        scanned := walk.scanned + 1
        cursor := row.rowid } := by
  unfold visit
  rw [isSeq]

namespace Going

theorem mem (going : walk.Going (row :: rest)) : row ∈ walk.rows ∧ walk.cursor < row.rowid := by
  have isIn : row ∈ walk.rows.filter fun row => walk.cursor < row.rowid := by
    rw [going.ahead]
    exact List.mem_cons_self
  obtain ⟨isRow, isAhead⟩ := List.mem_filter.mp isIn
  exact ⟨isRow, of_decide_eq_true isAhead⟩

theorem lt (going : walk.Going (row :: rest)) {other : Row} (isOther : other ∈ walk.rows)
    (isAhead : walk.cursor < other.rowid) (differs : other ≠ row) : row.rowid < other.rowid := by
  have ordered := going.placed.ordered.sublist
    (List.filter_sublist (p := fun row => walk.cursor < row.rowid))
  rw [going.ahead] at ordered
  have isIn : other ∈ walk.rows.filter fun row => walk.cursor < row.rowid :=
    List.mem_filter.mpr ⟨isOther, decide_eq_true isAhead⟩
  rw [going.ahead] at isIn
  rcases List.mem_cons.mp isIn with same | later
  · exact absurd same differs
  · exact (List.pairwise_cons.mp ordered).1 other later

theorem ahead_rest (going : walk.Going (row :: rest)) :
    walk.rows.filter (fun other => row.rowid < other.rowid) = rest := by
  have ordered := going.placed.ordered.sublist
    (List.filter_sublist (p := fun row => walk.cursor < row.rowid))
  rw [going.ahead] at ordered
  have narrowed : walk.rows.filter (fun other => row.rowid < other.rowid) =
      (row :: rest).filter fun other => row.rowid < other.rowid := by
    rw [← going.ahead, List.filter_filter]
    refine List.filter_congr fun other _ => ?_
    have isAhead := going.mem.2
    by_cases less : row.rowid < other.rowid
    · simp [less, Nat.lt_trans isAhead less]
    · simp [less]
  rw [narrowed, List.filter_cons, if_neg (by simp)]
  refine List.filter_eq_self.mpr fun other later => decide_eq_true ?_
  exact (List.pairwise_cons.mp ordered).1 other later

theorem number_eq (going : walk.Going (row :: rest)) (threadId : String) :
    walk.number threadId = nextSeq walk.rows threadId := by
  unfold number nextSeq
  cases isNext : walk.next threadId with
  | none => rfl
  | some n => rw [going.next threadId n isNext, Option.getD_some]

/-- **One turn of the loop.** -/
theorem visit (going : walk.Going (row :: rest)) :
    (walk.visit row).Going rest ∧ Fills walk.rows (walk.visit row).rows := by
  obtain ⟨isIn, isAhead⟩ := going.mem
  have isFirst : ∀ other ∈ walk.rows, other.seq = none → other ≠ row →
      row.rowid < other.rowid := fun other isOther isNone differs =>
    going.lt isOther (going.above other isOther isNone) differs
  cases isSeq : row.seq with
  | some held =>
    rw [visit_numbered isSeq]
    refine ⟨⟨going.placed, going.numbered, fun other isOther isNone => ?_, going.ahead_rest,
      going.next⟩, Fills.refl _⟩
    refine isFirst other isOther isNone fun same => ?_
    rw [same, isSeq] at isNone
    cases isNone
  | none =>
    rw [visit_unnumbered isSeq, going.number_eq]
    refine ⟨⟨?_, going.numbered.setSeq going.placed isIn isSeq, ?_, ?_, ?_⟩,
      Fills.setSeq going.placed isIn isSeq⟩
    · refine going.placed.setSeq isIn isSeq isFirst fun other isOther thread n isNumber => ?_
      exact Nat.lt_succ_of_le (le_top (mem_numbersOf.mpr ⟨other, isOther, thread, isNumber⟩))
    · intro found isFound isNone
      rcases (mem_setSeq going.placed isIn).mp isFound with rfl | ⟨old, differs⟩
      · cases isNone
      · exact isFirst found old isNone differs
    · show (setSeq _ _ _).filter _ = rest
      unfold setSeq
      rw [List.filter_map, ← going.ahead_rest]
      refine (List.map_congr_left (g := id) fun other isOther => ?_).trans ?_
      · have isLater := of_decide_eq_true (List.mem_filter.mp isOther).2
        refine if_neg fun same => ?_
        simp [same] at isLater
      · rw [List.map_id]
        refine List.filter_congr fun other _ => ?_
        show decide (row.rowid < Row.rowid (if _ then _ else _)) = _
        split_ifs <;> rfl
    · intro threadId n (isNext : Function.update walk.next row.threadId
        (some (nextSeq walk.rows row.threadId)) threadId = some n)
      rw [top_setSeq going.numbered going.placed isIn isSeq]
      by_cases isThread : row.threadId = threadId
      · subst isThread
        rw [if_pos rfl]
        rw [Function.update_self] at isNext
        exact Option.some.inj isNext
      · rw [if_neg isThread]
        rw [Function.update_of_ne (Ne.symm isThread)] at isNext
        exact going.next threadId n isNext

/-- **A batch, cut anywhere.** -/
theorem loop (late : Nat → Bool) (batchLength : Nat) {batch tail : List Row} :
    ∀ {walk : Walk}, walk.Going (batch ++ tail) →
      (∃ unread, (Walk.loop late batchLength batch walk).Going unread) ∧
        Fills walk.rows (Walk.loop late batchLength batch walk).rows := by
  induction batch with
  | nil => exact fun going => ⟨⟨tail, going⟩, Fills.refl _⟩
  | cons row rest ih =>
    intro walk going
    obtain ⟨visited, fills⟩ := going.visit
    unfold Walk.loop
    dsimp only
    split_ifs
    · exact ⟨⟨_, visited⟩, fills⟩
    · obtain ⟨finished, more⟩ := ih visited
      exact ⟨finished, fills.trans more⟩

end Going

end Walk

theorem limited_append (rows : Int) (found : List Row) :
    ∃ tail, limited rows found ++ tail = found := by
  unfold limited
  split_ifs
  · exact ⟨[], List.append_nil found⟩
  · exact ⟨found.drop rows.toNat, List.take_append_drop _ _⟩

theorem limited_eq_nil {rows : Int} (bounded : rows ≠ 0) {found : List Row}
    (isNil : limited rows found = []) : found = [] := by
  unfold limited at isNil
  split_ifs at isNil with negative
  · exact isNil
  · rcases List.take_eq_nil_iff.mp isNil with isZero | isEmpty
    · omega
    · exact isEmpty

end Murage.TranscriptSeq
