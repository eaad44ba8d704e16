import Murage.BillingLease.Model

/-!
Owns what one fenced statement does: which statements the lease condition fences, and that these
do what the statement alone does while the lease is held and nothing once it is gone.

Does not own: the calls and their runs.
-/

namespace Murage.BillingLease

open Murage.Library.SqlText

variable {Tables Row : Type} {e : Engine Tables Row} {db : Db Tables} {sql : Text}
  {binds : List Value} {lease : HomeLease}

def Engine.meetsEarlier (e : Engine Tables Row) (db : Db Tables) (condition : Text) (row : Row) :
    Bool :=
  (earlier condition).any fun disjunct =>
    (factors 0 0 disjunct).all fun factor => e.test db (some row) factor == some true

/-- An `INSERT` that gives one row of expressions, cut where the database cuts it, and whose
parameters are `?` and are counted as they are. -/
structure GivesOneRow (head values tail : Text) : Prop where
  headClosed : closes 0 head = true
  headFree : (upTo (Tok.isOneOf [.VALUES, .SELECT]) 0 head).2 = []
  headUnbound : largest 0 head = 0
  valuesClosed : closes 0 values = true
  valuesFree : (upTo (Tok.isOneOf [.WHERE, .ON, .RETURNING]) 0 values).2 = []
  marks : questionMarks values = largest 0 values ∨ largest 0 tail = 0
  plain : Plain (values ++ tail)

def Fences (e : Engine Tables Row) (db : Db Tables) (lease : HomeLease) (sql : Text)
    (binds : List Value) : Prop :=
  (∃ head condition, readStatement (bound binds 0 sql) = some (.change head (some condition) []) ∧
    (db.held lease = true ∨ ∀ row ∈ e.rows db head, e.meetsEarlier db condition row = false)) ∨
  (∃ head values tail, insertParts (trimmed sql) = some (head, values, tail) ∧
    GivesOneRow head values tail ∧ .semicolon ∉ trimmed sql)

/-! ## The lease condition -/

theorem heldText_isFactor (lease : HomeLease) : IsFactor (heldText lease) :=
  ⟨rfl, rfl, rfl, rfl, List.cons_ne_nil _ _⟩

theorem held_plain : Plain HELD := by decide

theorem heldText_whole (lease : HomeLease) : .semicolon ∉ heldText lease := by
  unfold heldText
  rw [semicolon_bound]
  decide

theorem bound_held (before : List Value) (after : List Value) (lease : HomeLease) :
    bound (before ++ (heldBinds lease ++ after)) before.length HELD = heldText lease := by
  have isShifted := bound_shift before (heldBinds lease ++ after) 0 held_plain
  rw [Nat.add_zero] at isShifted
  rw [isShifted]
  exact bound_more after (Nat.le_refl 3)

/-! ## UPDATE and DELETE -/

variable {condition : Text}

theorem read_change {text head tail : Text}
    (isRead : readStatement text = some (.change head (some condition) tail)) :
    .semicolon ∉ trimmed text ∧ (∃ word rest, trimmed text = .keyword word :: rest ∧
      (word = .UPDATE ∨ word = .DELETE)) ∧ readChange (trimmed text) =
        some (.change head (some condition) tail) := by
  unfold readStatement at isRead
  simp only at isRead
  split_ifs at isRead with hasSemicolon
  have isWhole : .semicolon ∉ trimmed text := fun isHere =>
    hasSemicolon (List.contains_iff_mem.mpr isHere)
  split at isRead
  · rename_i rest isText
    exact ⟨isWhole, ⟨_, rest, isText, Or.inl rfl⟩, isRead⟩
  · rename_i rest isText
    exact ⟨isWhole, ⟨_, rest, isText, Or.inr rfl⟩, isRead⟩
  · rename_i rest isText
    unfold readInsert at isRead
    split at isRead
    · cases isRead
    · split at isRead
      · simp only at isRead
        split_ifs at isRead
        cases isRead
      · cases isRead
    · cases isRead
  · cases isRead

theorem readChange_and {text head : Text}
    (isRead : readChange text = some (.change head (some condition) [])) (lease : HomeLease) :
    isCondition condition = true ∧
      readChange (text ++ .keyword .AND :: heldText lease) =
        some (.change head (some (condition ++ .keyword .AND :: heldText lease)) []) := by
  unfold readChange at isRead
  split at isRead
  · rename_i head' rest isCut
    simp only at isRead
    split_ifs at isRead with isRight
    obtain ⟨isHead, isCondition', isTail⟩ := Reading.change.inj (Option.some.inj isRead)
    obtain rfl := Option.some.inj isCondition'
    subst isHead
    have isWhole : (upTo (Tok.isOneOf [.RETURNING]) 0 rest).1 = rest := by
      have parts := upTo_parts (Tok.isOneOf [.RETURNING]) 0 rest
      rw [isTail, List.append_nil] at parts
      exact parts
    rw [isWhole] at isRight ⊢
    refine ⟨isRight, ?_⟩
    have isClosed : closes 0 rest = true := (Bool.and_eq_true_iff.mp isRight).1
    have afterCondition : upTo (Tok.isOneOf [.RETURNING]) 0 (.keyword .AND :: heldText lease) =
        (.keyword .AND :: heldText lease, []) := rfl
    unfold readChange
    rw [upTo_stopped isCut]
    simp only
    rw [upTo_append isClosed isTail, afterCondition]
    simp only
    rw [if_pos (isCondition_and isRight (heldText_isFactor lease))]
  · cases isRead

variable {fenced : Text × List Value}

theorem fenceSql_change {word : Keyword} {rest : Text}
    (isText : trimmed sql = .keyword word :: rest) (isWord : word = .UPDATE ∨ word = .DELETE)
    (isFenced : fenceSql sql binds lease = .ok fenced) :
    fenced = (trimmed sql ++ .keyword .AND :: HELD, binds ++ heldBinds lease) := by
  unfold fenceSql at isFenced
  rw [isText] at isFenced ⊢
  rcases isWord with rfl | rfl
  · simp only [↓reduceIte] at isFenced
    split_ifs at isFenced
    exact (Except.ok.inj isFenced).symm
  · simp only [↓reduceIte] at isFenced
    split_ifs at isFenced
    exact (Except.ok.inj isFenced).symm

theorem execute_fenced_change (e : Engine Tables Row) (db : Db Tables) {head : Text}
    (isRead : readStatement (bound binds 0 sql) = some (.change head (some condition) []))
    (isFenced : fenceSql sql binds lease = .ok fenced) :
    isCondition condition = true ∧ e.execute db fenced.1 fenced.2 =
      if largest 0 sql ≠ binds.length then .error "wrong_number_of_parameter_bindings"
      else e.apply db
        (.change head (some (condition ++ .keyword .AND :: heldText lease)) []) := by
  obtain ⟨isWhole, ⟨word, rest, isText, isWord⟩, isChange⟩ := read_change isRead
  obtain ⟨isRight, isAnd⟩ := readChange_and isChange lease
  refine ⟨isRight, ?_⟩
  rw [trimmed_bound] at isText isWhole isAnd
  obtain ⟨rest', isKeyword⟩ := bound_keyword isText
  rw [fenceSql_change isKeyword isWord isFenced]
  have isLargest : largest 0 (trimmed sql ++ .keyword .AND :: HELD) = largest 0 sql + 3 := by
    rw [largest_append, largest_trimmed]
    rfl
  have isLength : (binds ++ heldBinds lease).length = binds.length + 3 := List.length_append
  unfold Engine.execute
  simp only [isLargest, isLength, ne_eq, Nat.add_right_cancel_iff]
  split_ifs with isBound
  · have isEnough : largest 0 (trimmed sql) ≤ binds.length :=
      Nat.le_of_eq ((largest_trimmed sql).trans isBound)
    have isFencedText : bound (binds ++ heldBinds lease) 0 (trimmed sql ++ .keyword .AND :: HELD) =
        bound binds 0 (trimmed sql) ++ .keyword .AND :: heldText lease := by
      rw [bound_append, bound_more _ isEnough, largest_trimmed, isBound]
      have isHeld := bound_held binds [] lease
      rw [List.append_nil] at isHeld
      exact congrArg (bound binds 0 (trimmed sql) ++ .keyword .AND :: ·) isHeld
    rw [isFencedText]
    have isWholeText : .semicolon ∉ bound binds 0 (trimmed sql) ++ .keyword .AND :: heldText lease := by
      intro isHere
      rcases List.mem_append.mp isHere with isOld | isNew
      · exact isWhole isOld
      · rcases List.mem_cons.mp isNew with isAnd | isIn
        · cases isAnd
        · exact heldText_whole lease isIn
    unfold readStatement
    simp only
    rw [trimmed_whole isWholeText, if_neg fun hasSemicolon =>
      isWholeText (List.contains_iff_mem.mp hasSemicolon)]
    rw [isText] at isAnd ⊢
    rcases isWord with rfl | rfl
    · simp only [List.cons_append] at isAnd ⊢
      rw [isAnd]
    · simp only [List.cons_append] at isAnd ⊢
      rw [isAnd]
  · rfl

theorem meetsEarlier_iff {row : Row} :
    e.meetsEarlier db condition row = true ↔ ∃ disjunct ∈ earlier condition,
      ∀ factor ∈ factors 0 0 disjunct, e.test db (some row) factor = some true := by
  simp only [Engine.meetsEarlier, List.any_eq_true, List.all_eq_true, beq_iff_eq]

/-- **A fenced UPDATE or DELETE.** It does what the statement alone does while the lease is held,
and nothing once it is gone and no row meets an earlier disjunct. -/
theorem fenced_change (e : Engine Tables Row) (db : Db Tables) {head : Text}
    (isRead : readStatement (bound binds 0 sql) = some (.change head (some condition) []))
    (isFenced : fenceSql sql binds lease = .ok fenced) :
    (db.held lease = true → e.execute db fenced.1 fenced.2 = e.execute db sql binds) ∧
      (db.held lease = false → (∀ row ∈ e.rows db head, e.meetsEarlier db condition row = false) →
        ∀ tables n, e.execute db fenced.1 fenced.2 = .ok (tables, n) → tables = db.tables) := by
  obtain ⟨isRight, isExecuted⟩ := execute_fenced_change e db isRead isFenced
  rw [isExecuted]
  have meetsAt : ∀ row, meets (e.test db (some row)) (condition ++ .keyword .AND :: heldText lease) =
      (e.meetsEarlier db condition row ||
        (meets (e.test db (some row)) condition && db.held lease)) := by
    intro row
    rw [Bool.eq_iff_iff, meets_and _ isRight (heldText_isFactor lease), Bool.or_eq_true,
      Bool.and_eq_true, meetsEarlier_iff, e.test_held, Option.some_inj]
  refine ⟨fun isHeld => ?_, fun isLost noEarlier tables n isDone => ?_⟩
  · unfold Engine.execute
    split_ifs with isBound
    · rfl
    · rw [isRead]
      unfold Engine.apply
      simp only [Option.all_some, meetsAt, isHeld, Bool.and_true]
      congr 1
      refine List.filter_congr fun row _ => ?_
      rw [Bool.or_eq_right_iff_imp, meetsEarlier_iff, meets_iff]
      rintro ⟨disjunct, isEarlier, isTrue⟩
      exact ⟨disjunct, List.dropLast_subset _ isEarlier, isTrue⟩
  · split_ifs at isDone
    unfold Engine.apply at isDone
    simp only [Option.all_some, meetsAt, isLost, Bool.and_false, Bool.or_false] at isDone
    rw [List.filter_eq_nil_iff.mpr fun row isHere => by simp [noEarlier row isHere],
      e.change_none] at isDone
    exact (Prod.mk.inj (Except.ok.inj isDone)).1.symm

/-! ## INSERT -/

theorem beforeValues_eq {text head rest : Text}
    (isCut : beforeValues text = some (head, rest)) :
    text = head ++ .keyword .VALUES :: .opening :: rest := by
  induction text generalizing head with
  | nil => cases isCut
  | cons t others ih =>
    unfold beforeValues at isCut
    split at isCut
    · rename_i isNil
      cases isNil
    · rename_i isText
      cases isCut
      rw [isText]
      rfl
    · rename_i t' others' _ isText
      obtain ⟨rfl, rfl⟩ := List.cons.inj isText
      obtain ⟨⟨head', rest'⟩, isCut', isSame⟩ := Option.map_eq_some_iff.mp isCut
      obtain ⟨rfl, rfl⟩ := Prod.mk.inj isSame
      rw [ih isCut']
      rfl

theorem beforeTail_eq {text values tail : Text}
    (isCut : beforeTail text = some (values, tail)) :
    text = values ++ .closing :: tail ∧
      (tail = [] ∨ ∃ rest, tail = .keyword .ON :: .keyword .CONFLICT :: rest) := by
  induction text generalizing values with
  | nil => cases isCut
  | cons t others ih =>
    unfold beforeTail at isCut
    split at isCut
    · rename_i isNil
      cases isNil
    · rename_i isText
      cases isCut
      rw [isText]
      exact ⟨rfl, Or.inl rfl⟩
    · rename_i rest isText
      cases isCut
      rw [isText]
      exact ⟨rfl, Or.inr ⟨rest, rfl⟩⟩
    · rename_i t' others' _ _ isText
      obtain ⟨rfl, rfl⟩ := List.cons.inj isText
      obtain ⟨⟨values', tail'⟩, isCut', isSame⟩ := Option.map_eq_some_iff.mp isCut
      obtain ⟨rfl, rfl⟩ := Prod.mk.inj isSame
      obtain ⟨isText, isTail⟩ := ih isCut'
      exact ⟨congrArg (t :: ·) isText, isTail⟩

theorem insertParts_eq {text head values tail : Text}
    (isCut : insertParts text = some (head, values, tail)) :
    (∃ rest, text = .keyword .INSERT :: rest) ∧
      text = head ++ .keyword .VALUES :: .opening :: (values ++ .closing :: tail) ∧
      (tail = [] ∨ ∃ rest, tail = .keyword .ON :: .keyword .CONFLICT :: rest) := by
  unfold insertParts at isCut
  split at isCut
  · rename_i rest
    obtain ⟨⟨head', rest'⟩, isHead, isRest⟩ := Option.bind_eq_some_iff.mp isCut
    obtain ⟨⟨values', tail'⟩, isValues, isSame⟩ := Option.bind_eq_some_iff.mp isRest
    obtain ⟨rfl, isPair⟩ := Prod.mk.inj (Option.some.inj isSame)
    obtain ⟨rfl, rfl⟩ := Prod.mk.inj isPair
    obtain ⟨isRest', isTail⟩ := beforeTail_eq isValues
    refine ⟨⟨rest, rfl⟩, ?_, isTail⟩
    rw [← isRest']
    exact beforeValues_eq isHead
  · cases isCut

/-- A tail of an `INSERT`: nothing, or `ON CONFLICT` and what follows. -/
def IsTail (tail : Text) : Prop :=
  tail = [] ∨ ∃ rest, tail = .keyword .ON :: .keyword .CONFLICT :: rest

theorem upTo_tail {tail : Text} (isTail : IsTail tail) :
    upTo (Tok.isOneOf [.ON, .RETURNING]) 0 tail = ([], tail) := by
  rcases isTail with rfl | ⟨rest, rfl⟩
  · rfl
  · rfl

section

variable {head values tail : Text}

theorem readInsert_values (headClosed : closes 0 head = true)
    (headFree : (upTo (Tok.isOneOf [.VALUES, .SELECT]) 0 head).2 = [])
    (valuesClosed : closes 0 values = true) (isTail : IsTail tail) :
    readInsert (head ++ .keyword .VALUES :: .opening :: (values ++ .closing :: tail)) =
      some (.insert head (.opening :: values ++ [.closing]) none tail) := by
  have atValues : ∀ rest, upTo (Tok.isOneOf [.VALUES, .SELECT]) 0 (.keyword .VALUES :: rest) =
      ([], .keyword .VALUES :: rest) := fun rest => rfl
  have atRows : upTo (Tok.isOneOf [.ON, .RETURNING]) 0 (.opening :: (values ++ .closing :: tail)) =
      (.opening :: values ++ [.closing], tail) := by
    rw [upTo, if_neg fun isStop => Bool.false_ne_true isStop.2]
    change (.opening :: (upTo _ (0 + 1) _).1, (upTo _ (0 + 1) _).2) = _
    rw [upTo_bracketed _ valuesClosed, upTo_tail isTail]
    rfl
  unfold readInsert
  rw [upTo_append headClosed headFree, atValues]
  simp only [List.append_nil, atRows]

theorem readInsert_select (headClosed : closes 0 head = true)
    (headFree : (upTo (Tok.isOneOf [.VALUES, .SELECT]) 0 head).2 = [])
    (valuesClosed : closes 0 values = true)
    (valuesFree : (upTo (Tok.isOneOf [.WHERE, .ON, .RETURNING]) 0 values).2 = [])
    (isTail : IsTail tail) (lease : HomeLease) :
    readInsert (head ++ .keyword .SELECT ::
        (values ++ .keyword .WHERE :: (heldText lease ++ tail))) =
      some (.insert head (.opening :: values ++ [.closing]) (some (heldText lease)) tail) := by
  have atSelect : ∀ rest, upTo (Tok.isOneOf [.VALUES, .SELECT]) 0 (.keyword .SELECT :: rest) =
      ([], .keyword .SELECT :: rest) := fun rest => rfl
  have atWhere : ∀ rest, upTo (Tok.isOneOf [.WHERE, .ON, .RETURNING]) 0 (.keyword .WHERE :: rest) =
      ([], .keyword .WHERE :: rest) := fun rest => rfl
  have heldFree : (upTo (Tok.isOneOf [.ON, .RETURNING]) 0 (heldText lease)).2 = [] := rfl
  have heldRead : isCondition (heldText lease) = true := rfl
  unfold readInsert
  rw [upTo_append headClosed headFree, atSelect]
  simp only [List.append_nil]
  rw [upTo_append valuesClosed valuesFree, atWhere]
  simp only [List.append_nil]
  rw [upTo_append (heldText_isFactor lease).closed heldFree, upTo_tail isTail]
  simp only [List.append_nil, heldRead, ↓reduceIte]

theorem largest_le_questionMarks {text : Text} (plain : Plain text) :
    largest 0 text ≤ questionMarks text := by
  induction text with
  | nil => exact Nat.le_refl 0
  | cons t rest ih =>
    have plainRest : Plain rest := fun u isIn => plain u (List.mem_cons_of_mem t isIn)
    have counted := ih plainRest
    unfold questionMarks at counted ⊢
    rw [List.map_cons, List.sum_cons, largest]
    cases t with
    | param number =>
      cases number with
      | none =>
        have shifted := largest_shift 1 0 plainRest
        rw [Nat.add_zero] at shifted
        change largest 1 rest ≤ _
        rw [shifted]
        exact Nat.add_le_add_left counted 1
      | some number => exact absurd rfl (plain _ List.mem_cons_self number)
    | _ => exact Nat.le_trans counted (Nat.le_add_left _ _)

theorem split_binds (oneRow : GivesOneRow head values tail)
    (isBound : largest 0 values + largest 0 tail = binds.length) :
    ∃ first rest, binds = first ++ rest ∧ first.length = largest 0 values ∧
      binds.take (questionMarks values) = first ∧ binds.drop (questionMarks values) = rest := by
  refine ⟨_, _, (List.take_append_drop (questionMarks values) binds).symm, ?_, rfl, rfl⟩
  rw [List.length_take]
  have plainValues : Plain values := fun t isIn => oneRow.plain t (List.mem_append_left _ isIn)
  have isCounted := largest_le_questionMarks plainValues
  rcases oneRow.marks with isSame | isNone
  · omega
  · omega

theorem bound_insert (oneRow : GivesOneRow head values tail)
    (isBound : largest 0 values + largest 0 tail = binds.length) (lease : HomeLease) :
    ∃ values' tail', closes 0 values' = true ∧
      (upTo (Tok.isOneOf [.WHERE, .ON, .RETURNING]) 0 values').2 = [] ∧
      (IsTail tail → IsTail tail') ∧
      bound binds 0 (head ++ .keyword .VALUES :: .opening :: (values ++ .closing :: tail)) =
        bound [] 0 head ++ .keyword .VALUES :: .opening :: (values' ++ .closing :: tail') ∧
      bound (binds.take (questionMarks values) ++
          (heldBinds lease ++ binds.drop (questionMarks values))) 0
          (head ++ .keyword .SELECT :: (values ++ .keyword .WHERE :: (HELD ++ tail))) =
        bound [] 0 head ++ .keyword .SELECT ::
          (values' ++ .keyword .WHERE :: (heldText lease ++ tail')) := by
  obtain ⟨first, rest, isSplit, isLength, isTake, isDrop⟩ := split_binds oneRow isBound
  rw [isTake, isDrop]
  have plainTail : Plain tail := fun t isIn => oneRow.plain t (List.mem_append_right _ isIn)
  have needsNone : largest 0 head ≤ ([] : List Value).length := Nat.le_of_eq oneRow.headUnbound
  have headBound : ∀ binds, bound binds 0 head = bound [] 0 head := fun binds =>
    bound_more binds needsNone
  have valuesBound : ∀ more, bound (first ++ more) 0 values = bound first 0 values := fun more =>
    bound_more more (Nat.le_of_eq isLength.symm)
  have tailBound : ∀ before : List Value,
      bound (before ++ rest) before.length tail = bound rest 0 tail := fun before =>
    bound_shift before rest 0 plainTail
  refine ⟨bound first 0 values, bound rest 0 tail, ?_, ?_, ?_, ?_, ?_⟩
  · rw [closes_bound]
    exact oneRow.valuesClosed
  · rw [free_bound]
    exact oneRow.valuesFree
  · rintro (rfl | ⟨others, rfl⟩)
    · exact Or.inl rfl
    · exact Or.inr ⟨_, rfl⟩
  · rw [bound_append, headBound, oneRow.headUnbound]
    change _ ++ .keyword .VALUES :: .opening :: bound binds 0 (values ++ .closing :: tail) = _
    rw [bound_append]
    change _ ++ .keyword .VALUES :: .opening :: (bound binds 0 values ++
      .closing :: bound binds (largest 0 values) tail) = _
    rw [isSplit, valuesBound, ← isLength, tailBound]
  · rw [bound_append, headBound, oneRow.headUnbound]
    change _ ++ .keyword .SELECT :: bound _ 0 (values ++ .keyword .WHERE :: (HELD ++ tail)) = _
    rw [bound_append, valuesBound, ← isLength]
    change _ ++ .keyword .SELECT :: (bound first 0 values ++ .keyword .WHERE ::
      bound (first ++ (heldBinds lease ++ rest)) first.length (HELD ++ tail)) = _
    rw [bound_append, bound_held]
    have isTail := tailBound (first ++ heldBinds lease)
    rw [List.append_assoc, List.length_append] at isTail
    rw [← isTail]
    rfl

theorem readStatement_insert {text rest : Text} (isInsert : text = .keyword .INSERT :: rest)
    (isWhole : .semicolon ∉ text) : readStatement text = readInsert text := by
  unfold readStatement
  simp only
  rw [trimmed_whole isWhole, if_neg fun hasSemicolon =>
    isWhole (List.contains_iff_mem.mp hasSemicolon), isInsert]

theorem insert_head {others : Text}
    (isText : .keyword .INSERT :: others =
      head ++ .keyword .VALUES :: .opening :: (values ++ .closing :: tail)) :
    ∃ rest, head = .keyword .INSERT :: rest := by
  cases head with
  | nil => exact absurd (List.cons.inj isText).1 (by decide)
  | cons t rest => exact ⟨rest, by rw [(List.cons.inj isText).1]⟩

theorem largest_insert (oneRow : GivesOneRow head values tail) :
    largest 0 (head ++ .keyword .VALUES :: .opening :: (values ++ .closing :: tail)) =
        largest 0 values + largest 0 tail ∧
      largest 0 (head ++ .keyword .SELECT :: (values ++ .keyword .WHERE :: (HELD ++ tail))) =
        largest 0 values + largest 0 tail + 3 := by
  have plainTail : Plain tail := fun t isIn => oneRow.plain t (List.mem_append_right _ isIn)
  constructor
  · have shifted := largest_shift (largest 0 values) 0 plainTail
    rw [largest_append, oneRow.headUnbound, ← shifted]
    exact largest_append 0 values (.closing :: tail)
  · have shifted := largest_shift (largest 0 values + 3) 0 plainTail
    rw [Nat.add_right_comm, ← shifted, largest_append, oneRow.headUnbound]
    change largest 0 (values ++ .keyword .WHERE :: (HELD ++ tail)) = _
    rw [largest_append]
    exact largest_append (largest 0 values) HELD tail

theorem read_inserts {others : Text}
    (isText : .keyword .INSERT :: others =
      head ++ .keyword .VALUES :: .opening :: (values ++ .closing :: tail))
    (isWhole : .semicolon ∉ .keyword .INSERT :: others) (isTail : IsTail tail)
    (oneRow : GivesOneRow head values tail)
    (isBound : largest 0 values + largest 0 tail = binds.length) (lease : HomeLease) :
    ∃ head' rows tail',
      readStatement (bound binds 0 (.keyword .INSERT :: others)) =
        some (.insert head' rows none tail') ∧
      readStatement (bound (binds.take (questionMarks values) ++
          (heldBinds lease ++ binds.drop (questionMarks values))) 0
          (head ++ .keyword .SELECT :: (values ++ .keyword .WHERE :: (HELD ++ tail)))) =
        some (.insert head' rows (some (heldText lease)) tail') := by
  obtain ⟨values', tail', valuesClosed, valuesFree, stillTail, isBoundText, isFencedText⟩ :=
    bound_insert oneRow isBound lease
  obtain ⟨rest, isHead⟩ := insert_head isText
  have headClosed : closes 0 (bound [] 0 head) = true := by
    rw [closes_bound]
    exact oneRow.headClosed
  have headFree : (upTo (Tok.isOneOf [.VALUES, .SELECT]) 0 (bound [] 0 head)).2 = [] := by
    rw [free_bound]
    exact oneRow.headFree
  have boundHead : ∃ rest, bound [] 0 head = .keyword .INSERT :: rest := by
    rw [isHead]
    exact ⟨_, rfl⟩
  obtain ⟨rest', isBoundHead⟩ := boundHead
  rw [isText] at isWhole ⊢
  rw [← semicolon_bound binds 0, isBoundText] at isWhole
  have fencedWhole : .semicolon ∉ bound [] 0 head ++ .keyword .SELECT ::
      (values' ++ .keyword .WHERE :: (heldText lease ++ tail')) := by
    have heldWhole := heldText_whole lease
    simp only [List.mem_append, List.mem_cons, not_or] at isWhole ⊢
    exact ⟨isWhole.1, by decide, isWhole.2.2.2.1, by decide, heldWhole, isWhole.2.2.2.2.2⟩
  refine ⟨bound [] 0 head, .opening :: values' ++ [.closing], tail', ?_, ?_⟩
  · rw [isBoundText, readStatement_insert (by rw [isBoundHead]; rfl) isWhole]
    exact readInsert_values headClosed headFree valuesClosed (stillTail isTail)
  · rw [isFencedText, readStatement_insert (by rw [isBoundHead]; rfl) fencedWhole]
    exact readInsert_select headClosed headFree valuesClosed valuesFree (stillTail isTail) lease

/-- **A fenced INSERT.** It does what the statement alone does while the lease is held, and
nothing once it is gone. -/
theorem fenced_insert {fenced : Text × List Value}
    (isCut : insertParts (trimmed sql) = some (head, values, tail))
    (oneRow : GivesOneRow head values tail) (isWhole : .semicolon ∉ trimmed sql)
    (isFenced : fenceSql sql binds lease = .ok fenced) :
    (db.held lease = true → e.execute db fenced.1 fenced.2 = e.execute db sql binds) ∧
      (db.held lease = false → ∀ tables n,
        e.execute db fenced.1 fenced.2 = .ok (tables, n) → tables = db.tables) := by
  obtain ⟨⟨others, isInsert⟩, isText, isTail⟩ := insertParts_eq isCut
  have fencedIs : fenced =
      (head ++ .keyword .SELECT :: (values ++ .keyword .WHERE :: (HELD ++ tail)),
        binds.take (questionMarks values) ++
          (heldBinds lease ++ binds.drop (questionMarks values))) := by
    unfold fenceSql at isFenced
    simp only [isCut] at isFenced
    rw [isInsert] at isFenced
    exact (Except.ok.inj isFenced).symm
  have isLargest : largest 0 sql = largest 0 values + largest 0 tail := by
    rw [← largest_trimmed, isText]
    exact (largest_insert oneRow).1
  have isLargestFenced : largest 0 fenced.1 = largest 0 sql + 3 := by
    rw [isLargest, fencedIs]
    exact (largest_insert oneRow).2
  have isLength : fenced.2.length = binds.length + 3 := by
    rw [fencedIs]
    simp only [List.length_append, List.length_take, List.length_drop, heldBinds, List.length_cons,
      List.length_nil]
    omega
  unfold Engine.execute
  simp only [isLargestFenced, isLength, ne_eq, Nat.add_right_cancel_iff]
  split_ifs with isBound
  · rw [isInsert] at isText isWhole
    obtain ⟨head', rows, tail', readsAs, readsFenced⟩ :=
      read_inserts isText isWhole isTail oneRow (isLargest ▸ isBound) lease
    have isSame : readStatement (bound binds 0 sql) =
        readStatement (bound binds 0 (trimmed sql)) := by
      have boundWhole : .semicolon ∉ bound binds 0 (trimmed sql) := by
        rw [semicolon_bound, isInsert]
        exact isWhole
      unfold readStatement
      simp only
      rw [trimmed_bound, trimmed_whole boundWhole]
    rw [isSame, isInsert, readsAs, fencedIs, readsFenced]
    have isOne : ∀ row, meets (e.test db row) (heldText lease) = db.held lease := by
      intro row
      rw [Bool.eq_iff_iff, meets_iff]
      change (∃ disjunct ∈ [heldText lease], ∀ factor ∈ factors 0 0 disjunct, _) ↔ _
      simp only [List.mem_singleton, exists_eq_left, (heldText_isFactor lease).noAnd, forall_eq,
        e.test_held, Option.some_inj]
    unfold Engine.apply
    simp only [Option.all_some, Option.all_none, isOne, ↓reduceIte]
    refine ⟨fun isHeld => by rw [isHeld]; rfl, fun isLost tables n isDone => ?_⟩
    rw [isLost] at isDone
    exact (Prod.mk.inj (Except.ok.inj isDone)).1.symm
  · exact ⟨fun _ => rfl, fun _ tables n isDone => by cases isDone⟩

end

/-- **One fenced statement.** It does what the statement alone does while the lease is held, and
nothing once it is gone. -/
theorem fenced_effect (fences : Fences e db lease sql binds)
    (isFenced : fenceSql sql binds lease = .ok fenced) :
    (db.held lease = true → e.execute db fenced.1 fenced.2 = e.execute db sql binds) ∧
      (db.held lease = false → ∀ tables n,
        e.execute db fenced.1 fenced.2 = .ok (tables, n) → tables = db.tables) := by
  rcases fences with ⟨head, condition, isRead, isSafe⟩ | ⟨head, values, tail, isCut, oneRow, isWhole⟩
  · obtain ⟨whileHeld, onceLost⟩ := fenced_change e db isRead isFenced
    refine ⟨whileHeld, fun isLost => ?_⟩
    rcases isSafe with isHeld | noEarlier
    · exact absurd (isHeld.symm.trans isLost) (by decide)
    · exact onceLost isLost noEarlier
  · exact fenced_insert isCut oneRow isWhole isFenced

end Murage.BillingLease
