import Mathlib.Data.List.AList
import Mathlib.Data.List.Sort

/-!
Owns the rows of a transcript and `holdRows`, the one merge of numbered rows
(`src/src/state/transcript-seq.ts`). The two `Map`s of the source are
association lists with distinct keys; only the sorted keys of one of them are
ever listed, so their insertion order is not modelled.

Does not own: the transcript, its inputs and its paging.
-/

namespace Murage.Transcript

/-- A transcript row. `content` stands for every field that this module copies
and never reads. `seq` is the row's storage position, absent on a legacy
thread's rows. -/
structure Message (Content : Type) where
  id : String
  seq : Option Nat
  unvouched : Bool
  content : Content
deriving DecidableEq, Repr

variable {Content : Type}

namespace Message

/-- The source's `row.seq!`. -/
def number (row : Message Content) : Nat := row.seq.getD 0

/-- The row with its flag set or cleared; every other field is the row's. -/
def copy (row : Message Content) (unvouched : Bool) : Message Content :=
  { row with unvouched := unvouched }

variable (row : Message Content)

@[simp] theorem copy_id (flag : Bool) : (row.copy flag).id = row.id := rfl

@[simp] theorem copy_seq (flag : Bool) : (row.copy flag).seq = row.seq :=
  rfl

@[simp] theorem copy_unvouched (flag : Bool) :
    (row.copy flag).unvouched = flag := rfl

@[simp] theorem copy_number (flag : Bool) :
    (row.copy flag).number = row.number := rfl

@[simp] theorem copy_copy (first second : Bool) :
    (row.copy first).copy second = row.copy second := rfl

@[simp] theorem copy_self : row.copy row.unvouched = row := rfl

theorem number_of_seq {row : Message Content} {n : Nat} (seq : row.seq = some n) :
    row.number = n := by
  simp [number, seq]

end Message

/-- A numbered row without content. -/
def plainRow (seq : Nat) (id : String) (unvouched : Bool := false) : Message Unit :=
  { id := id, seq := some seq, unvouched := unvouched, content := () }

/-- `holdRows`' options: whether the input vouches for its rows, and whether it
is a patch (a newer copy of held rows). -/
structure HoldOptions where
  vouched : Bool
  replace : Bool := false
deriving DecidableEq, Repr

/-- The loop state of `holdRows`: the rows by number, the number of each id, and
whether anything differs from the held list. -/
structure Held (Content : Type) where
  bySeq : AList fun _ : Nat => Message Content
  seqOf : AList fun _ : String => Nat
  changed : Bool

namespace Held

/-- The loop state with nothing held. -/
def empty : Held Content := { bySeq := ∅, seqOf := ∅, changed := false }

def load (held : Held Content) (row : Message Content) : Held Content :=
  match row.seq with
  | none => held
  | some seq =>
    { held with bySeq := held.bySeq.insert seq row, seqOf := held.seqOf.insert row.id seq }

/-- The branch of a number that no row, or a row of another id, holds. A vouched
holder stays, and so does any holder against an unvouched input. An id held at
another number moves only from an unvouched row, and only for a vouched input. -/
def place (held : Held Content) (vouched : Bool) (seq : Nat) (row : Message Content)
    (current : Option (Message Content)) : Held Content :=
  if current.any fun holder => !(holder.unvouched && vouched) then held
  else
    let write (bySeq : AList fun _ : Nat => Message Content) : Held Content :=
      let seqOf := match current with
        | some holder => held.seqOf.erase holder.id
        | none => held.seqOf
      { bySeq := bySeq.insert seq (row.copy !vouched)
        seqOf := seqOf.insert row.id seq
        changed := true }
    match held.seqOf.lookup row.id with
    | none => write held.bySeq
    | some elsewhere =>
      if vouched && (held.bySeq.lookup elsewhere).any (·.unvouched) then
        write (held.bySeq.erase elsewhere)
      else held

/-- The branch of a number that a row of the same id holds. -/
def renew (held : Held Content) (options : HoldOptions) (seq : Nat) (row holder : Message Content) :
    Held Content :=
  if options.replace then
    { held with
      bySeq := held.bySeq.insert seq (row.copy (holder.unvouched && !options.vouched))
      changed := true }
  else if holder.unvouched && options.vouched then
    { held with bySeq := held.bySeq.insert seq (row.copy false), changed := true }
  else held

def hold (options : HoldOptions) (held : Held Content) (row : Message Content) : Held Content :=
  match row.seq with
  | none => held
  | some seq =>
    match held.bySeq.lookup seq with
    | none => held.place options.vouched seq row none
    | some holder =>
      if holder.id ≠ row.id then held.place options.vouched seq row (some holder)
      else held.renew options seq row holder

def rows (held : Held Content) : List (Message Content) :=
  (held.bySeq.keys.insertionSort (· ≤ ·)).filterMap held.bySeq.lookup

end Held

/-- Hold numbered rows: a number not held joins at its place, a held number
yields only to a vouched copy over an unvouched holder, or to a patch. -/
def holdRows (held rows : List (Message Content)) (options : HoldOptions) :
    List (Message Content) :=
  let loaded := held.foldl Held.load Held.empty
  let start := { loaded with changed := held.length != loaded.bySeq.keys.length }
  let final := rows.foldl (Held.hold options) start
  if final.changed then final.rows else held

end Murage.Transcript
