import Murage.Library.Transition
import Murage.Postings.Model
import Mathlib.Data.List.Nodup

/-!
Owns that the postings are exact: what it means for the word index to index a set of entries,
that dropping an entry's words and adding an entry's words keep it so, and every statement and
run of statements with them.

Does not own: which words a text has.
-/

namespace Murage.Postings

open Murage.Library.Transition

variable {words : String → Finset String} {x : WordIndex} {entries : Set Entry} {entry : Entry}

/-! ## An index of a set of entries -/

/-- An entry that waits for its postings. -/
def WordIndex.Owed (x : WordIndex) (seq : Nat) : Prop := ∃ n, (n, seq) ∈ x.todo

def WordIndex.Speaks (words : String → Finset String) (x : WordIndex) (posting : Posting)
    (entry : Entry) : Prop :=
  entry.rowid = posting.seq ∧ ¬x.Owed entry.rowid ∧
    x.number entry.scopeId = some posting.scope ∧ posting.term ∈ words entry.text

/-- The index has the words of just these entries, except those on the to-do list. -/
structure WordIndex.Indexes (words : String → Finset String) (x : WordIndex)
    (entries : Set Entry) : Prop where
  rowids : ∀ entry ∈ entries, ∀ other ∈ entries, entry.rowid = other.rowid → entry = other
  scopeIds : (x.scopes.map (·.1)).Nodup
  numbers : (x.scopes.map (·.2)).Nodup
  todo : ∀ item ∈ x.todo, ∃ entry ∈ entries,
    entry.rowid = item.2 ∧ x.number entry.scopeId = some item.1
  exact : ∀ posting, posting ∈ x.postings ↔ ∃ entry ∈ entries, x.Speaks words posting entry
  numbered : ∀ entry ∈ entries, ¬x.Owed entry.rowid → (words entry.text).Nonempty →
    (x.number entry.scopeId).isSome
  scratch : x.scratch = []

namespace WordIndex

/-! ## Numbers -/

variable {scopeId : String} {n : Nat}

theorem number_addScope_of_some (other : String) (isNumber : x.number scopeId = some n) :
    (x.addScope other).number scopeId = some n := by
  unfold addScope
  split_ifs
  · exact isNumber
  · obtain ⟨pair, isFound, rfl⟩ := Option.map_eq_some_iff.mp isNumber
    show ((x.scopes ++ [(other, x.nextNumber)]).find? _).map _ = _
    rw [List.find?_append, isFound]
    rfl

theorem number_addScope_self (scopeId : String) :
    ∃ n, (x.addScope scopeId).number scopeId = some n := by
  cases isNumber : x.number scopeId with
  | some n => exact ⟨n, number_addScope_of_some scopeId isNumber⟩
  | none =>
    refine ⟨x.nextNumber, ?_⟩
    have isAbsent : x.scopes.find? (fun pair => decide (pair.1 = scopeId)) = none :=
      Option.map_eq_none_iff.mp isNumber
    rw [addScope, isNumber]
    show ((x.scopes ++ [(scopeId, x.nextNumber)]).find? _).map _ = _
    rw [List.find?_append, isAbsent]
    simp

theorem lt_nextNumber {pair : String × Nat} (isIn : pair ∈ x.scopes) :
    pair.2 < x.nextNumber := by
  have isBelow (scopes : List (String × Nat)) (isIn : pair ∈ scopes) :
      pair.2 ≤ scopes.foldr (fun row top => max row.2 top) 0 := by
    induction scopes with
    | nil => cases isIn
    | cons first rest ih =>
      rcases List.mem_cons.mp isIn with rfl | isIn
      · exact le_max_left _ _
      · exact le_trans (ih isIn) (le_max_right _ _)
  exact Nat.lt_succ_of_le (isBelow x.scopes isIn)

theorem nodup_addScope (scopeId : String) (scopeIds : (x.scopes.map (·.1)).Nodup)
    (numbers : (x.scopes.map (·.2)).Nodup) :
    ((x.addScope scopeId).scopes.map (·.1)).Nodup ∧
      ((x.addScope scopeId).scopes.map (·.2)).Nodup := by
  unfold addScope
  split_ifs with isThere
  · exact ⟨scopeIds, numbers⟩
  · have isAbsent : scopeId ∉ x.scopes.map (·.1) := by
      intro isIn
      obtain ⟨pair, isPair, rfl⟩ := List.mem_map.mp isIn
      refine isThere ?_
      rw [number, Option.isSome_map]
      exact List.find?_isSome.mpr ⟨pair, isPair, decide_eq_true rfl⟩
    constructor
    · rw [List.map_append]
      refine List.nodup_append.mpr ⟨scopeIds, List.nodup_singleton _,
        fun id isIn last isLast same => isAbsent ?_⟩
      have isLastId : last = scopeId := List.mem_singleton.mp isLast
      exact isLastId ▸ same ▸ isIn
    · rw [List.map_append]
      refine List.nodup_append.mpr ⟨numbers, List.nodup_singleton _, fun n isIn last isLast => ?_⟩
      obtain ⟨pair, isPair, rfl⟩ := List.mem_map.mp isIn
      rw [List.mem_singleton.mp isLast]
      exact Nat.ne_of_lt (lt_nextNumber isPair)

/-! ## The words of one entry -/

theorem vocab_of_scratch {text : String} (isScratch : x.scratch = [text]) :
    x.vocab words = words text := by
  rw [vocab, isScratch]
  exact Finset.union_empty _

theorem addWords_eq (scopeId text : String) (seq : Nat) (isEmpty : x.scratch = [])
    (isNumber : (x.addScope scopeId).number scopeId = some n) :
    x.addWords words scopeId text seq =
      { scopes := (x.addScope scopeId).scopes
        postings := x.postings ∪ (words text).image fun term =>
          { term := term
            scope := n
            seq := seq }
        todo := x.todo
        scratch := [] } := by
  have isScratch : ((x.addScope scopeId).insertWords text).scratch = [text] := by
    unfold addScope
    split_ifs <;> exact congrArg (· ++ [text]) isEmpty
  have samePostings : (x.addScope scopeId).postings = x.postings := by
    unfold addScope
    split_ifs <;> rfl
  have sameTodo : (x.addScope scopeId).todo = x.todo := by
    unfold addScope
    split_ifs <;> rfl
  have isInserted : ((x.addScope scopeId).insertWords text).number scopeId = some n := isNumber
  rw [addWords, addPostings, isInserted]
  show clearWords { (x.addScope scopeId).insertWords text with postings := _ } = _
  rw [vocab_of_scratch isScratch, clearWords, ← samePostings, ← sameTodo]
  rfl

theorem dropPostings_of_number (seq : Nat) (isNumber : x.number scopeId = some n) :
    x.dropPostings words (some scopeId) (some seq) =
      { x with
        postings := x.postings.filter fun posting =>
          ¬(posting.term ∈ x.vocab words ∧ posting.scope = n ∧ posting.seq = seq) } := by
  unfold dropPostings
  simp only [Option.bind_some, isNumber]

theorem dropTodo_of_number (seq : Nat) (isNumber : x.number scopeId = some n) :
    x.dropTodo (some scopeId) (some seq) = { x with todo := x.todo.erase (n, seq) } := by
  unfold dropTodo
  simp only [Option.bind_some, isNumber]

theorem drop_of_none (words : String → Finset String) (seq : Nat)
    (isNumber : x.number scopeId = none) :
    x.dropPostings words (some scopeId) (some seq) = x ∧
      x.dropTodo (some scopeId) (some seq) = x := by
  unfold dropPostings dropTodo
  simp only [Option.bind_some, isNumber, and_self]

theorem dropWords_eq (scopeId text : String) (seq : Nat) (isEmpty : x.scratch = [])
    (isNumber : x.number scopeId = some n) :
    x.dropWords words (some scopeId) (some text) (some seq) =
      { scopes := x.scopes
        postings := x.postings.filter fun posting =>
          ¬(posting.term ∈ words text ∧ posting.scope = n ∧ posting.seq = seq)
        todo := x.todo.erase (n, seq)
        scratch := [] } := by
  have isScratch : (x.insertWords text).scratch = [text] := congrArg (· ++ [text]) isEmpty
  have isInserted : (x.insertWords text).number scopeId = some n := isNumber
  rw [dropWords, Option.elim_some, dropPostings_of_number seq isInserted,
    vocab_of_scratch isScratch, dropTodo_of_number seq (by exact isNumber)]
  rfl

theorem dropWords_of_none (scopeId text : String) (seq : Nat) (isEmpty : x.scratch = [])
    (isNumber : x.number scopeId = none) :
    x.dropWords words (some scopeId) (some text) (some seq) = x := by
  have isInserted : (x.insertWords text).number scopeId = none := isNumber
  obtain ⟨isPostings, isTodo⟩ := drop_of_none words seq isInserted
  rw [dropWords, Option.elim_some, isPostings, isTodo]
  show ({ x with scratch := [] } : WordIndex) = x
  rw [← isEmpty]

theorem dropWords_none (isEmpty : x.scratch = []) :
    x.dropWords words none none none = x := by
  show ({ x with scratch := [] } : WordIndex) = x
  rw [← isEmpty]

/-- **An entry's words are dropped**: the index is one of the others. -/
theorem Indexes.drop (indexes : x.Indexes words entries) (isIn : entry ∈ entries) :
    (x.dropWords words (some entry.scopeId) (some entry.text) (some entry.rowid)).Indexes words
      (entries \ {entry}) := by
  have isOther (other : Entry) (isMember : other ∈ entries) (isLeft : other ≠ entry) :
      other.rowid ≠ entry.rowid :=
    fun same => isLeft (indexes.rowids other isMember entry isIn same)
  cases isNumber : x.number entry.scopeId with
  | none =>
    rw [dropWords_of_none _ _ _ indexes.scratch isNumber]
    have notOwed : ¬x.Owed entry.rowid := by
      intro ⟨n, isListed⟩
      obtain ⟨other, isMember, sameRowid, isSome⟩ := indexes.todo _ isListed
      rw [indexes.rowids other isMember entry isIn sameRowid, isNumber] at isSome
      cases isSome
    exact
      { indexes with
        rowids := fun first isFirst second isSecond =>
          indexes.rowids first isFirst.1 second isSecond.1
        todo := fun item isListed => by
          obtain ⟨other, isMember, sameRowid, isSome⟩ := indexes.todo item isListed
          refine ⟨other, ⟨isMember, fun isEntry => ?_⟩, sameRowid, isSome⟩
          rw [Set.mem_singleton_iff.mp isEntry, isNumber] at isSome
          cases isSome
        exact := fun posting => by
          rw [indexes.exact posting]
          refine exists_congr fun other => and_congr_left fun speaks => ?_
          refine ⟨fun isMember => ⟨isMember, fun isEntry => ?_⟩, fun isMember => isMember.1⟩
          have isSome := speaks.2.2.1
          rw [Set.mem_singleton_iff.mp isEntry, isNumber] at isSome
          cases isSome
        numbered := fun other isMember => indexes.numbered other isMember.1 }
  | some n =>
    rw [dropWords_eq _ _ _ indexes.scratch isNumber]
    have owed (seq : Nat) (isOtherSeq : seq ≠ entry.rowid) :
        (∃ m, (m, seq) ∈ x.todo.erase (n, entry.rowid)) ↔ x.Owed seq := by
      refine exists_congr fun m => Finset.mem_erase.trans (and_iff_right fun same => ?_)
      exact isOtherSeq (Prod.mk.inj same).2
    exact
      { rowids := fun first isFirst second isSecond =>
          indexes.rowids first isFirst.1 second isSecond.1
        scopeIds := indexes.scopeIds
        numbers := indexes.numbers
        todo := fun item isListed => by
          obtain ⟨isItem, isListed⟩ := Finset.mem_erase.mp isListed
          obtain ⟨other, isMember, sameRowid, isSome⟩ := indexes.todo item isListed
          refine ⟨other, ⟨isMember, fun isEntry => isItem ?_⟩, sameRowid, isSome⟩
          rw [Set.mem_singleton_iff.mp isEntry] at sameRowid isSome
          exact Prod.ext (Option.some.inj (isSome.symm.trans isNumber)) sameRowid.symm
        exact := fun posting => by
          rw [Finset.mem_filter, indexes.exact posting]
          constructor
          · rintro ⟨⟨other, isMember, sameRowid, notOwed, isSome, hasTerm⟩, isLeft⟩
            have notEntry : other ≠ entry := by
              rintro rfl
              exact isLeft ⟨hasTerm, Option.some.inj (isSome.symm.trans isNumber),
                sameRowid.symm⟩
            refine ⟨other, ⟨isMember, notEntry⟩, sameRowid, ?_, isSome, hasTerm⟩
            exact fun isOwed => notOwed ((owed _ (isOther other isMember notEntry)).mp isOwed)
          · rintro ⟨other, ⟨isMember, notEntry⟩, sameRowid, notOwed, isSome, hasTerm⟩
            have isOtherSeq := isOther other isMember notEntry
            refine ⟨⟨other, isMember, sameRowid, ?_, isSome, hasTerm⟩, ?_⟩
            · exact fun isOwed => notOwed ((owed _ isOtherSeq).mpr isOwed)
            · exact fun isDropped => isOtherSeq (sameRowid.trans isDropped.2.2)
        numbered := fun other isMember notOwed =>
          indexes.numbered other isMember.1 fun isOwed =>
            notOwed ((owed _ (isOther other isMember.1 isMember.2)).mpr isOwed)
        scratch := rfl }

/-- **An entry's words are added**: the index is one of the entry too. -/
theorem Indexes.add (indexes : x.Indexes words entries) (entry : Entry)
    (isNew : ∀ other ∈ entries, other.rowid ≠ entry.rowid) :
    (x.addWords words entry.scopeId entry.text entry.rowid).Indexes words
      (insert entry entries) := by
  obtain ⟨n, isNumber⟩ := number_addScope_self (x := x) entry.scopeId
  rw [addWords_eq _ _ _ indexes.scratch isNumber]
  have notOwed : ¬x.Owed entry.rowid := by
    intro ⟨m, isListed⟩
    obtain ⟨other, isIn, sameRowid, _⟩ := indexes.todo _ isListed
    exact isNew other isIn sameRowid
  obtain ⟨scopeIds, numbers⟩ :=
    nodup_addScope entry.scopeId indexes.scopeIds indexes.numbers
  have isKept (other : Entry) (isIn : other ∈ entries) (isUnowed : ¬x.Owed other.rowid)
      (hasWords : (words other.text).Nonempty) :
      (x.addScope entry.scopeId).number other.scopeId = x.number other.scopeId := by
    obtain ⟨m, isSome⟩ :=
      Option.isSome_iff_exists.mp (indexes.numbered other isIn isUnowed hasWords)
    rw [isSome, number_addScope_of_some entry.scopeId isSome]
  have mem_added (posting : Posting) :
      (posting ∈ x.postings ∪ (words entry.text).image fun term =>
        { term := term
          scope := n
          seq := entry.rowid }) ↔
      posting ∈ x.postings ∨
        posting.term ∈ words entry.text ∧ n = posting.scope ∧ entry.rowid = posting.seq := by
    rw [Finset.mem_union, Finset.mem_image]
    refine or_congr_right ⟨?_, fun ⟨hasTerm, isScope, isSeq⟩ => ?_⟩
    · rintro ⟨term, hasTerm, rfl⟩
      exact ⟨hasTerm, rfl, rfl⟩
    · exact ⟨posting.term, hasTerm, by rw [isScope, isSeq]⟩
  exact
    { rowids := by
        rintro first (rfl | isFirst) second (rfl | isSecond) same
        · rfl
        · exact absurd same.symm (isNew second isSecond)
        · exact absurd same (isNew first isFirst)
        · exact indexes.rowids first isFirst second isSecond same
      scopeIds := scopeIds
      numbers := numbers
      todo := fun item isListed => by
        obtain ⟨other, isIn, sameRowid, isSome⟩ := indexes.todo item isListed
        exact ⟨other, Or.inr isIn, sameRowid, number_addScope_of_some _ isSome⟩
      exact := fun posting => by
        refine (mem_added posting).trans ⟨?_, ?_⟩
        · rintro (isOld | ⟨hasTerm, isScope, isSeq⟩)
          · obtain ⟨other, isIn, sameRowid, isUnowed, isSome, hasTerm⟩ :=
              (indexes.exact posting).mp isOld
            exact ⟨other, Or.inr isIn, sameRowid, isUnowed,
              number_addScope_of_some _ isSome, hasTerm⟩
          · exact ⟨entry, Or.inl rfl, isSeq, notOwed, isNumber.trans (congrArg some isScope),
              hasTerm⟩
        · rintro ⟨other, rfl | isIn, sameRowid, isUnowed, isSome, hasTerm⟩
          · exact Or.inr ⟨hasTerm, Option.some.inj (isNumber.symm.trans isSome), sameRowid⟩
          · refine Or.inl ((indexes.exact posting).mpr
              ⟨other, isIn, sameRowid, isUnowed, ?_, hasTerm⟩)
            exact (isKept other isIn isUnowed ⟨_, hasTerm⟩).symm.trans isSome
      numbered := by
        rintro other (rfl | isIn) isUnowed hasWords
        · exact Option.isSome_iff_exists.mpr ⟨n, isNumber⟩
        · obtain ⟨m, isSome⟩ :=
            Option.isSome_iff_exists.mp (indexes.numbered other isIn isUnowed hasWords)
          exact Option.isSome_iff_exists.mpr ⟨m, number_addScope_of_some _ isSome⟩
      scratch := rfl }

/-- **A waiting entry is filled** and taken off the list. -/
theorem Indexes.fill {scope : Nat} (indexes : x.Indexes words entries) (isIn : entry ∈ entries)
    (isListed : (scope, entry.rowid) ∈ x.todo) :
    ((x.postingFiller words entry.scopeId entry.text entry.rowid).unlist scope
      entry.rowid).Indexes words entries := by
  obtain ⟨held, isHeld, sameRowid, isScope⟩ := indexes.todo _ isListed
  obtain rfl := indexes.rowids held isHeld entry isIn sameRowid
  have isOther (other : Entry) (isMember : other ∈ entries) (isLeft : other ≠ held) :
      other.rowid ≠ held.rowid :=
    fun same => isLeft (indexes.rowids other isMember held isIn same)
  have owed (seq : Nat) (isOtherSeq : seq ≠ held.rowid) :
      (x.unlist scope held.rowid).Owed seq ↔ x.Owed seq := by
    refine exists_congr fun m => Finset.mem_erase.trans (and_iff_right fun same => ?_)
    exact isOtherSeq (Prod.mk.inj same).2
  have others : (x.unlist scope held.rowid).Indexes words (entries \ {held}) :=
    { rowids := fun first isFirst second isSecond =>
        indexes.rowids first isFirst.1 second isSecond.1
      scopeIds := indexes.scopeIds
      numbers := indexes.numbers
      todo := fun item isItem => by
        obtain ⟨notItem, isItem⟩ := Finset.mem_erase.mp isItem
        obtain ⟨other, isMember, sameRowid, isSome⟩ := indexes.todo item isItem
        refine ⟨other, ⟨isMember, fun isHeld => notItem ?_⟩, sameRowid, isSome⟩
        rw [Set.mem_singleton_iff.mp isHeld] at sameRowid isSome
        exact Prod.ext (Option.some.inj (isSome.symm.trans isScope)) sameRowid.symm
      exact := fun posting => by
        refine (indexes.exact posting).trans ⟨?_, ?_⟩
        · rintro ⟨other, isMember, sameRowid, isUnowed, isSome, hasTerm⟩
          have notHeld : other ≠ held := by
            rintro rfl
            exact isUnowed ⟨scope, isListed⟩
          refine ⟨other, ⟨isMember, notHeld⟩, sameRowid, fun isOwed => isUnowed ?_, isSome, hasTerm⟩
          exact (owed _ (isOther other isMember notHeld)).mp isOwed
        · rintro ⟨other, ⟨isMember, notHeld⟩, sameRowid, isUnowed, isSome, hasTerm⟩
          refine ⟨other, isMember, sameRowid, fun isOwed => isUnowed ?_, isSome, hasTerm⟩
          exact (owed _ (isOther other isMember notHeld)).mpr isOwed
      numbered := fun other isMember isUnowed =>
        indexes.numbered other isMember.1 fun isOwed =>
          isUnowed ((owed _ (isOther other isMember.1 isMember.2)).mpr isOwed)
      scratch := indexes.scratch }
  -- the two writes are to different tables, so the entry may leave the list first
  have commutes : (x.postingFiller words held.scopeId held.text held.rowid).unlist scope held.rowid =
      (x.unlist scope held.rowid).addWords words held.scopeId held.text held.rowid := by
    obtain ⟨n, isNumber⟩ := number_addScope_self (x := x) held.scopeId
    have sameScopes : ((x.unlist scope held.rowid).addScope held.scopeId).scopes =
        (x.addScope held.scopeId).scopes := by
      unfold addScope
      by_cases isThere : (x.number held.scopeId).isSome
      · rw [if_pos isThere, if_pos (by exact isThere)]
        rfl
      · rw [if_neg isThere, if_neg (by exact isThere)]
        rfl
    have isNumber' : ((x.unlist scope held.rowid).addScope held.scopeId).number held.scopeId =
        some n := by
      rw [number, sameScopes]
      exact isNumber
    rw [postingFiller, addWords_eq _ _ _ indexes.scratch isNumber,
      addWords_eq _ _ _ (by exact indexes.scratch) isNumber', sameScopes]
    rfl
  have isAll : insert held (entries \ {held}) = entries := by
    rw [Set.insert_sdiff_singleton, Set.insert_eq_of_mem isIn]
  rw [commutes, ← isAll]
  exact others.add held fun other isMember => isOther other isMember.1 isMember.2

theorem number_addWords (other text : String) (seq : Nat) (isNumber : x.number scopeId = some n) :
    (x.addWords words other text seq).number scopeId = some n := by
  have isAdded := number_addScope_of_some other isNumber
  have sameScopes : (x.addWords words other text seq).scopes = (x.addScope other).scopes := by
    show ((((x.addScope other).insertWords text).addPostings words other seq)).scopes = _
    unfold addPostings
    split <;> rfl
  rw [number, sameScopes]
  exact isAdded

theorem number_dropWords (scopeId : String) (other text : Option String) (seq : Option Nat) :
    (x.dropWords words other text seq).number scopeId = x.number scopeId := by
  have sameScopes : (x.dropWords words other text seq).scopes = x.scopes := by
    have inserted : (text.elim x fun text => x.insertWords text).scopes = x.scopes := by
      cases text <;> rfl
    unfold dropWords
    rw [← inserted]
    generalize (text.elim x fun text => x.insertWords text) = y
    have dropped : (y.dropPostings words other seq).scopes = y.scopes := by
      unfold dropPostings
      split <;> rfl
    show ((y.dropPostings words other seq).dropTodo other seq).scopes = y.scopes
    rw [← dropped]
    unfold dropTodo
    split <;> rfl
  rw [number, sameScopes, number]

end WordIndex

/-! ## Statements -/

/-- The entries' primary keys differ, and the index indexes them. -/
structure Db.Sound (words : String → Finset String) (db : Db) : Prop where
  keys : (db.entries.map fun entry => (entry.id, entry.version)).Nodup
  indexes : db.index.Indexes words {entry | entry ∈ db.entries}

section

variable {db db' : Db} {id : String} {version : Int} {scopeId text : String} {rowid : Nat}

theorem lt_newRowid (isIn : entry ∈ db.entries) : entry.rowid < db.newRowid := by
  have isBelow (entries : List Entry) (isIn : entry ∈ entries) :
      entry.rowid ≤ entries.foldr (fun entry top => max entry.rowid top) 0 := by
    induction entries with
    | nil => cases isIn
    | cons first rest ih =>
      rcases List.mem_cons.mp isIn with rfl | isIn
      · exact le_max_left _ _
      · exact le_trans (ih isIn) (le_max_right _ _)
  exact Nat.lt_succ_of_le (isBelow db.entries isIn)

theorem keyed_some (isKeyed : db.keyed id version = some entry) :
    entry ∈ db.entries ∧ entry.id = id ∧ entry.version = version := by
  have isFound := List.find?_some isKeyed
  rw [Bool.and_eq_true, decide_eq_true_iff, decide_eq_true_iff] at isFound
  exact ⟨List.mem_of_find?_eq_some isKeyed, isFound⟩

theorem entry_some (isEntry : db.entry rowid = some entry) :
    entry ∈ db.entries ∧ entry.rowid = rowid :=
  ⟨List.mem_of_find?_eq_some isEntry, by simpa using List.find?_some isEntry⟩

theorem Db.Sound.beforeInsert (sound : db.Sound words) (id : String) (version : Int) :
    (beforeInsert words id version db).index.Indexes words
      {entry | entry ∈ db.entries ∧ ¬(entry.id = id ∧ entry.version = version)} := by
  cases isKeyed : db.keyed id version with
  | none =>
    have isKept : {entry | entry ∈ db.entries ∧ ¬(entry.id = id ∧ entry.version = version)} =
        {entry | entry ∈ db.entries} := by
      refine Set.ext fun entry => and_iff_left_of_imp fun isIn isSame => ?_
      refine List.find?_eq_none.mp isKeyed entry isIn ?_
      rw [Bool.and_eq_true, decide_eq_true_iff, decide_eq_true_iff]
      exact isSame
    rw [isKept, Postings.beforeInsert, isKeyed]
    show (db.index.dropWords words none none none).Indexes words _
    rw [WordIndex.dropWords_none sound.indexes.scratch]
    exact sound.indexes
  | some old =>
    obtain ⟨isIn, isId, isVersion⟩ := keyed_some isKeyed
    have isKept : {entry | entry ∈ db.entries ∧ ¬(entry.id = id ∧ entry.version = version)} =
        {entry | entry ∈ db.entries} \ {old} := by
      refine Set.ext fun entry => and_congr_right fun isMember => not_congr ⟨fun isSame => ?_, ?_⟩
      · refine List.inj_on_of_nodup_map sound.keys isMember isIn ?_
        exact Prod.ext (isSame.1.trans isId.symm) (isSame.2.trans isVersion.symm)
      · rintro rfl
        exact ⟨isId, isVersion⟩
    rw [isKept, Postings.beforeInsert, isKeyed]
    exact sound.indexes.drop isIn

/-- **An insert** over what its trigger left. -/
theorem Db.Sound.place (sound : db.Sound words) (id : String) (version : Int)
    (scopeId text : String) :
    (Postings.place words id version scopeId text (Postings.beforeInsert words id version db)).Sound
      words := by
  let entry : Entry :=
    { rowid := db.newRowid
      id := id
      version := version
      scopeId := scopeId
      text := text }
  have isEntries : (Postings.place words id version scopeId text
      (Postings.beforeInsert words id version db)).entries =
      db.entries.filter (fun held => ¬(held.id = id ∧ held.version = version)) ++ [entry] := rfl
  constructor
  · rw [isEntries, List.map_append]
    refine List.nodup_append.mpr ⟨sound.keys.sublist (List.filter_sublist.map _),
      List.nodup_singleton _, fun key isIn last isLast same => ?_⟩
    obtain ⟨held, isHeld, rfl⟩ := List.mem_map.mp isIn
    have notKey := of_decide_eq_true (List.mem_filter.mp isHeld).2
    rw [List.mem_singleton.mp isLast] at same
    exact notKey ⟨(Prod.mk.inj same).1, (Prod.mk.inj same).2⟩
  · have isSet : {held | held ∈ (Postings.place words id version scopeId text
        (Postings.beforeInsert words id version db)).entries} =
        insert entry {held | held ∈ db.entries ∧ ¬(held.id = id ∧ held.version = version)} := by
      refine Set.ext fun held => ?_
      rw [isEntries]
      refine List.mem_append.trans (Or.comm.trans (or_congr List.mem_singleton ?_))
      rw [List.mem_filter, decide_eq_true_iff]
      rfl
    rw [isSet]
    exact (sound.beforeInsert id version).add entry fun other isOther =>
      Nat.ne_of_lt (lt_newRowid isOther.1)

theorem Db.Sound.update (sound : db.Sound words) (rowid : Nat) (scopeId text : String) :
    (updateEntry words rowid scopeId text db).Sound words := by
  rw [updateEntry]
  cases isEntry : db.entry rowid with
  | none => exact sound
  | some old =>
    obtain ⟨isIn, rfl⟩ := entry_some isEntry
    let change (entry : Entry) : Entry := { entry with scopeId := scopeId, text := text }
    constructor
    · have isMapped : (db.entries.map fun entry =>
          if entry.rowid = old.rowid then change entry else entry).map
            (fun entry => (entry.id, entry.version)) =
          db.entries.map fun entry => (entry.id, entry.version) := by
        rw [List.map_map]
        refine List.map_congr_left fun entry _ => ?_
        show (Entry.id (if _ then _ else _), Entry.version (if _ then _ else _)) = _
        split_ifs <;> rfl
      exact isMapped.symm ▸ sound.keys
    · have isSet : {entry | entry ∈ db.entries.map fun entry =>
          if entry.rowid = old.rowid then change entry else entry} =
          insert (change old) ({entry | entry ∈ db.entries} \ {old}) := by
        refine Set.ext fun entry => ?_
        constructor
        · intro isMember
          obtain ⟨held, isHeld, rfl⟩ := List.mem_map.mp isMember
          split_ifs with isOld
          · rw [sound.indexes.rowids held isHeld old isIn isOld]
            exact Or.inl rfl
          · refine Or.inr ⟨isHeld, fun isSame => isOld ?_⟩
            rw [Set.mem_singleton_iff.mp isSame]
        · rintro (rfl | ⟨isMember, notOld⟩)
          · exact List.mem_map.mpr ⟨old, isIn, if_pos rfl⟩
          · refine List.mem_map.mpr ⟨entry, isMember, if_neg fun same => notOld ?_⟩
            exact sound.indexes.rowids entry isMember old isIn same
      have added := (sound.indexes.drop isIn).add (change old)
        fun other isOther same =>
          isOther.2 (sound.indexes.rowids other isOther.1 old isIn same)
      exact isSet.symm ▸ added

theorem Db.Sound.delete (sound : db.Sound words) (rowid : Nat) :
    (deleteEntry words rowid db).Sound words := by
  rw [deleteEntry]
  cases isEntry : db.entry rowid with
  | none => exact sound
  | some old =>
    obtain ⟨isIn, rfl⟩ := entry_some isEntry
    refine ⟨sound.keys.sublist (List.filter_sublist.map _), ?_⟩
    have isSet : {entry | entry ∈ db.entries.filter (·.rowid ≠ old.rowid)} =
        {entry | entry ∈ db.entries} \ {old} := by
      refine Set.ext fun entry => ?_
      refine List.mem_filter.trans (and_congr_right fun isMember => ?_)
      rw [decide_eq_true_iff]
      refine not_congr ⟨fun same => ?_, fun same => ?_⟩
      · exact sound.indexes.rowids entry isMember old isIn same
      · rw [Set.mem_singleton_iff.mp same]
    exact isSet.symm ▸ sound.indexes.drop isIn

theorem Db.Sound.fill (sound : db.Sound words) (scope seq : Nat) :
    (fillEntry words scope seq db).Sound words := by
  rw [fillEntry]
  split_ifs with isListed
  · obtain ⟨entry, isIn, rfl, _⟩ := sound.indexes.todo _ isListed
    have isEntry : db.entry entry.rowid = some entry := by
      cases isFound : db.entry entry.rowid with
      | none => simpa using List.find?_eq_none.mp isFound entry isIn
      | some held =>
        obtain ⟨isHeld, sameRowid⟩ := entry_some isFound
        rw [sound.indexes.rowids held isHeld entry isIn sameRowid]
    refine ⟨sound.keys, ?_⟩
    rw [isEntry]
    exact sound.indexes.fill isIn isListed
  · exact sound

/-! ## Runs -/

def Step (words : String → Finset String) (db : Db) (statement : Statement) (db' : Db) : Prop :=
  statement.run words db = some db'

/-- **Every statement keeps the index exact.** -/
theorem Db.Sound.step (sound : db.Sound words) {statement : Statement}
    (taken : Step words db statement db') : db'.Sound words := by
  cases statement with
  | insert id version scopeId text =>
    rw [Step, Statement.run, insertEntry] at taken
    split_ifs at taken
    obtain rfl := Option.some.inj taken
    exact sound.place id version scopeId text
  | insertOrReplace id version scopeId text =>
    obtain rfl := Option.some.inj taken
    exact sound.place id version scopeId text
  | update rowid scopeId text =>
    obtain rfl := Option.some.inj taken
    exact sound.update rowid scopeId text
  | delete rowid =>
    obtain rfl := Option.some.inj taken
    exact sound.delete rowid
  | fill scope seq =>
    obtain rfl := Option.some.inj taken
    exact sound.fill scope seq

/-- **A scope id keeps its number** at every statement. -/
theorem number_step {statement : Statement} (taken : Step words db statement db')
    (isNumber : db.index.number scopeId = some n) : db'.index.number scopeId = some n := by
  have placed (id : String) (version : Int) (other text : String) :
      (place words id version other text
        (beforeInsert words id version db)).index.number scopeId = some n :=
    WordIndex.number_addWords other text _ ((WordIndex.number_dropWords scopeId _ _ _).trans isNumber)
  cases statement with
  | insert id version other text =>
    rw [Step, Statement.run, insertEntry] at taken
    split_ifs at taken
    obtain rfl := Option.some.inj taken
    exact placed id version other text
  | insertOrReplace id version other text =>
    obtain rfl := Option.some.inj taken
    exact placed id version other text
  | update rowid other text =>
    obtain rfl := Option.some.inj taken
    rw [updateEntry]
    split
    · exact isNumber
    · exact WordIndex.number_addWords other text _
        ((WordIndex.number_dropWords scopeId _ _ _).trans isNumber)
  | delete rowid =>
    obtain rfl := Option.some.inj taken
    rw [deleteEntry]
    split
    · exact isNumber
    · exact (WordIndex.number_dropWords scopeId _ _ _).trans isNumber
  | fill scope seq =>
    obtain rfl := Option.some.inj taken
    rw [fillEntry]
    split_ifs
    · show ((db.entry seq).elim db.index _).number scopeId = some n
      cases db.entry seq with
      | none => exact isNumber
      | some entry => exact WordIndex.number_addWords entry.scopeId entry.text seq isNumber
    · exact isNumber

/-- **The word index stays exact** over every run of statements: a posting is there just if an
entry that does not wait has that scope and that word; no scope shares a number or changes its
own; the to-do list names entries only; the scratch table is empty. -/
theorem postings_exact {start : Db} {statements : List Statement} (sound : start.Sound words)
    (run : Run (Step words) start statements db) :
    (∀ term scope seq, Posting.mk term scope seq ∈ db.index.postings ↔
      ∃ entry ∈ db.entries, entry.rowid = seq ∧ (∀ n, (n, seq) ∉ db.index.todo) ∧
        db.index.number entry.scopeId = some scope ∧ term ∈ words entry.text) ∧
    (∀ more later, Run (Step words) db more later → ∀ scopeId n,
      db.index.number scopeId = some n → later.index.number scopeId = some n) ∧
    (db.index.scopes.map (·.2)).Nodup ∧
    (∀ item ∈ db.index.todo, ∃ entry ∈ db.entries, entry.rowid = item.2) ∧
    db.index.scratch = [] := by
  have kept : db.Sound words := by
    induction run with
    | nil => exact sound
    | snoc _ taken ih => exact ih.step taken
  refine ⟨fun term scope seq => ?_, fun more later after scopeId n isNumber => ?_,
    kept.indexes.numbers, fun item isListed => ?_, kept.indexes.scratch⟩
  · refine (kept.indexes.exact _).trans (exists_congr fun entry => and_congr_right fun _ => ?_)
    refine and_congr_right fun isSeq => and_congr_left fun _ => ?_
    rw [isSeq]
    exact not_exists
  · induction after with
    | nil => exact isNumber
    | snoc _ taken ih => exact number_step taken ih
  · obtain ⟨entry, isEntry, isSeq, _⟩ := kept.indexes.todo item isListed
    exact ⟨entry, isEntry, isSeq⟩

end

/-! ## A file with one entry to fill -/

def exampleWords (text : String) : Finset String := {text}

def exampleFile : Db :=
  { entries :=
      [{ rowid := 7
         id := "note"
         version := 1
         scopeId := "private"
         text := "harbour" }]
    index :=
      { scopes := [("private", 1)]
        todo := {(1, 7)} } }

theorem exampleFile_sound : exampleFile.Sound exampleWords where
  keys := by decide
  indexes :=
    { rowids := fun first isFirst second isSecond _ => by
        rw [List.mem_singleton.mp isFirst, List.mem_singleton.mp isSecond]
      scopeIds := by decide
      numbers := by decide
      todo := fun item isListed => by
        rw [Finset.mem_singleton.mp isListed]
        exact ⟨_, List.mem_singleton_self _, rfl, rfl⟩
      exact := fun posting => by
        refine ⟨fun isIn => absurd isIn (Finset.notMem_empty _), ?_⟩
        rintro ⟨entry, isIn, _, isUnowed, _⟩
        rw [List.mem_singleton.mp isIn] at isUnowed
        exact absurd ⟨1, Finset.mem_singleton_self _⟩ isUnowed
      numbered := fun entry isIn _ _ => by
        rw [List.mem_singleton.mp isIn]
        rfl
      scratch := rfl }

theorem postings_exact_exampleFile : ∃ db,
    Run (Step exampleWords) exampleFile
      [.fill 1 7, .insertOrReplace "note" 1 "team" "harbour", .update 8 "team" "lantern"] db ∧
    Posting.mk "lantern" 2 8 ∈ db.index.postings ∧ db.index.scratch = [] ∧
    ∀ term scope seq, Posting.mk term scope seq ∈ db.index.postings ↔
      ∃ entry ∈ db.entries, entry.rowid = seq ∧ (∀ n, (n, seq) ∉ db.index.todo) ∧
        db.index.number entry.scopeId = some scope ∧ term ∈ exampleWords entry.text := by
  let filled := fillEntry exampleWords 1 7 exampleFile
  let replaced := replaceEntry exampleWords "note" 1 "team" "harbour" filled
  have isFilled : Step exampleWords exampleFile (.fill 1 7) filled := rfl
  have isReplaced : Step exampleWords filled (.insertOrReplace "note" 1 "team" "harbour")
      replaced := rfl
  have isUpdated : Step exampleWords replaced (.update 8 "team" "lantern")
      (updateEntry exampleWords 8 "team" "lantern" replaced) := rfl
  have run := ((Run.nil.snoc isFilled).snoc isReplaced).snoc isUpdated
  obtain ⟨isExact, _, _, _, scratch⟩ := postings_exact exampleFile_sound run
  exact ⟨_, run, by decide, scratch, isExact⟩

end Murage.Postings
