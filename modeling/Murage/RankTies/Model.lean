import Mathlib.Algebra.Order.Ring.Rat
import Mathlib.Data.List.Sort
import Murage.Library.Utf16

/-!
Owns the pages of a ranked list whose equal ranks come in no order of their own: the comparison of
two rows, and the window that is read, widened and sorted for a page.

Does not own: the query that ranks the rows. `fetch` answers for it.
-/

namespace Murage.RankTies

open Murage.Library.Utf16

/-- A row as the query returns it. Ranks and versions are the exact values of their numbers. -/
structure Ranked (γ : Type) where
  rank : ℚ
  id : Text
  version : ℚ
  columns : γ
deriving DecidableEq

structure Page (γ : Type) where
  rows : List (Ranked γ)
  more : Bool
deriving DecidableEq

def TIE_FIRST_READ_ROWS : Nat := 256
def TIE_WIDEN : Nat := 4

variable {γ : Type}

def before (a b : Ranked γ) : ℚ :=
  if a.rank - b.rank ≠ 0 then a.rank - b.rank
  else if a.id < b.id then -1
  else if a.id > b.id then 1
  else a.version - b.version

/-- One read of the window after another, `fuel` of them at most. -/
def pageFrom (fetch : (start count : Nat) → List (Ranked γ)) (offset limit : Nat) :
    (fuel back forward : Nat) → Option (Page γ)
  | 0, _, _ => none
  | fuel + 1, back, forward =>
    let lo := offset - back
    let rows := fetch lo (back + limit + forward)
    let last := rows[min rows.length (back + limit) - 1]?
    match rows[back]? with
    | none => some ⟨[], false⟩
    | some first =>
      let frontDone := lo == 0 || (rows[0]?).map (·.rank) ≠ some first.rank
      let backDone := rows.length < back + limit + forward ||
        (rows[rows.length - 1]?).map (·.rank) ≠ last.map (·.rank)
      if !(frontDone && backDone) then
        pageFrom fetch offset limit fuel
          (if !frontDone then min offset (back * TIE_WIDEN) else back)
          (if !backDone then forward * TIE_WIDEN else forward)
      else
        let ordered := rows.mergeSort fun a b => before a b ≤ 0
        some ⟨(ordered.drop back).take limit, back + limit < rows.length⟩

def pageByRank (fuel : Nat) (fetch : (start count : Nat) → List (Ranked γ)) (offset limit : Nat) :
    Option (Page γ) :=
  pageFrom fetch offset limit fuel (min offset TIE_FIRST_READ_ROWS) TIE_FIRST_READ_ROWS

/-- The rows from position `start` on, at most `count` of them. -/
def slices (ordering : List (Ranked γ)) (start count : Nat) : List (Ranked γ) :=
  (ordering.drop start).take count

end Murage.RankTies
