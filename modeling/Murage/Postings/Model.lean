import Mathlib.Data.Finset.Image
import Mathlib.Data.Finset.Lattice.Fold

/-!
Owns the word index of the memory search: the entries, the postings by word, scope and rowid,
the backfill's to-do list, the scratch table that yields a text's words, and the triggers that
keep the postings at every write of an entry.

Does not own: what the writes add up to. Which words a text has is a parameter.
-/

namespace Murage.Postings

structure Entry where
  rowid : Nat
  id : String
  version : Int
  scopeId : String
  text : String
  deriving DecidableEq

structure Posting where
  term : String
  scope : Nat
  seq : Nat
  deriving DecidableEq

/-- `scopes`: `posting_scopes`, a number for each scope id; `todo`: `posting_todo`, by scope
number and rowid; `scratch`: the texts of `posting_words`. -/
structure WordIndex where
  scopes : List (String × Nat) := []
  postings : Finset Posting := ∅
  todo : Finset (Nat × Nat) := ∅
  scratch : List String := []

namespace WordIndex

section

variable (words : String → Finset String)

def number (x : WordIndex) (scopeId : String) : Option Nat :=
  (x.scopes.find? (·.1 = scopeId)).map (·.2)

/-- `coalesce(max(n),0)+1`. -/
def nextNumber (x : WordIndex) : Nat := x.scopes.foldr (fun row top => max row.2 top) 0 + 1

def addScope (scopeId : String) (x : WordIndex) : WordIndex :=
  if (x.number scopeId).isSome then x
  else { x with scopes := x.scopes ++ [(scopeId, x.nextNumber)] }

def insertWords (text : String) (x : WordIndex) : WordIndex :=
  { x with scratch := x.scratch ++ [text] }

/-- `delete-all`. -/
def clearWords (x : WordIndex) : WordIndex := { x with scratch := [] }

/-- `posting_vocab`. -/
def vocab (x : WordIndex) : Finset String :=
  x.scratch.foldr (fun text terms => words text ∪ terms) ∅

/-- Existing rows are left as they are. -/
def addPostings (scopeId : String) (seq : Nat) (x : WordIndex) : WordIndex :=
  match x.number scopeId with
  | none => x
  | some n =>
    { x with
      postings := x.postings ∪ (x.vocab words).image fun term =>
        { term := term
          scope := n
          seq := seq } }

/-- A comparison with NULL holds of no row. -/
def dropPostings (scopeId : Option String) (seq : Option Nat) (x : WordIndex) : WordIndex :=
  match scopeId.bind x.number, seq with
  | some n, some seq =>
    { x with
      postings := x.postings.filter fun posting =>
        ¬(posting.term ∈ x.vocab words ∧ posting.scope = n ∧ posting.seq = seq) }
  | _, _ => x

def dropTodo (scopeId : Option String) (seq : Option Nat) (x : WordIndex) : WordIndex :=
  match scopeId.bind x.number, seq with
  | some n, some seq => { x with todo := x.todo.erase (n, seq) }
  | _, _ => x

def addWords (scopeId text : String) (seq : Nat) (x : WordIndex) : WordIndex :=
  (((x.addScope scopeId).insertWords text).addPostings words scopeId seq).clearWords

/-- Without a text nothing goes into the scratch table. -/
def dropWords (scopeId text : Option String) (seq : Option Nat) (x : WordIndex) : WordIndex :=
  (((text.elim x fun text => x.insertWords text).dropPostings words scopeId seq).dropTodo scopeId
    seq).clearWords

/-- One entry of the backfill: the work of the insert trigger. -/
def postingFiller (scopeId text : String) (seq : Nat) (x : WordIndex) : WordIndex :=
  x.addWords words scopeId text seq

def unlist (scope seq : Nat) (x : WordIndex) : WordIndex :=
  { x with todo := x.todo.erase (scope, seq) }

end

end WordIndex

/-! ## Entries and their triggers -/

structure Db where
  entries : List Entry := []
  index : WordIndex := {}

def Db.newRowid (db : Db) : Nat := db.entries.foldr (fun entry top => max entry.rowid top) 0 + 1

def Db.entry (db : Db) (rowid : Nat) : Option Entry := db.entries.find? (·.rowid = rowid)

def Db.keyed (db : Db) (id : String) (version : Int) : Option Entry :=
  db.entries.find? fun entry => entry.id = id && entry.version = version

inductive Statement
  | insert (id : String) (version : Int) (scopeId text : String)
  | insertOrReplace (id : String) (version : Int) (scopeId text : String)
  | update (rowid : Nat) (scopeId text : String)
  | delete (rowid : Nat)
  | fill (scope seq : Nat)

section

variable (words : String → Finset String)

/-- `entries_postings_replace`, before an insert. -/
def beforeInsert (id : String) (version : Int) (db : Db) : Db :=
  let old := db.keyed id version
  { db with
    index := db.index.dropWords words (old.map (·.scopeId)) (old.map (·.text))
      (old.map (·.rowid)) }

/-- The new row, instead of the one with its key, and `entries_postings_insert`. -/
def place (id : String) (version : Int) (scopeId text : String) (db : Db) : Db :=
  let entry : Entry :=
    { rowid := db.newRowid
      id := id
      version := version
      scopeId := scopeId
      text := text }
  { entries := db.entries.filter (fun held => ¬(held.id = id ∧ held.version = version)) ++ [entry]
    index := db.index.addWords words scopeId text entry.rowid }

/-- Fails, with all that its trigger did undone, where the key is there. -/
def insertEntry (id : String) (version : Int) (scopeId text : String) (db : Db) : Option Db :=
  if (db.keyed id version).isSome then none
  else some (place words id version scopeId text (beforeInsert words id version db))

def replaceEntry (id : String) (version : Int) (scopeId text : String) (db : Db) : Db :=
  place words id version scopeId text (beforeInsert words id version db)

/-- The row with new values, and `entries_postings_update`. -/
def updateEntry (rowid : Nat) (scopeId text : String) (db : Db) : Db :=
  match db.entry rowid with
  | none => db
  | some old =>
    { entries := db.entries.map fun entry =>
        if entry.rowid = rowid then { entry with scopeId := scopeId, text := text } else entry
      index := (db.index.dropWords words (some old.scopeId) (some old.text) (some rowid)).addWords
        words scopeId text rowid }

/-- The row gone, and `entries_postings_delete`. -/
def deleteEntry (rowid : Nat) (db : Db) : Db :=
  match db.entry rowid with
  | none => db
  | some old =>
    { entries := db.entries.filter (·.rowid ≠ rowid)
      index := db.index.dropWords words (some old.scopeId) (some old.text) (some rowid) }

/-- One row of the to-do list (`fillScope`), with its entry's scope and text of now. -/
def fillEntry (scope seq : Nat) (db : Db) : Db :=
  if (scope, seq) ∈ db.index.todo then
    let filled := (db.entry seq).elim db.index fun entry =>
      db.index.postingFiller words entry.scopeId entry.text seq
    { db with index := filled.unlist scope seq }
  else db

/-- `none`: the statement fails. -/
def Statement.run : Statement → Db → Option Db
  | .insert id version scopeId text, db => insertEntry words id version scopeId text db
  | .insertOrReplace id version scopeId text, db =>
    some (replaceEntry words id version scopeId text db)
  | .update rowid scopeId text, db => some (updateEntry words rowid scopeId text db)
  | .delete rowid, db => some (deleteEntry words rowid db)
  | .fill scope seq, db => some (fillEntry words scope seq db)

end

end Murage.Postings
