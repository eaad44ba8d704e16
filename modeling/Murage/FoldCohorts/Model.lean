import Mathlib.Data.List.Dedup
import Mathlib.Data.List.GetD
import Mathlib.Data.List.Sort
import Murage.Library.Bisect

/-!
Owns how a backlog of revokes is cut into cohorts: the turn positions of a span, the search among
them, and the runs of candidates that no position separates.

Does not own: which jobs are candidates, and what the fold of a cohort does.
-/

namespace Murage.FoldCohorts

open Murage.Library

structure Candidate where
  id : Int
  started : Int
deriving DecidableEq, Repr

structure FoldCohort where
  lo : Int
  hi : Int
  ids : List Int
deriving DecidableEq, Repr

/-- The positions a turn can have: of the lines, of the sessions, and of the turns this process has
open. -/
structure Turns where
  lines : List Int
  sessions : List Int
  openTurns : List Int

/-- Every turn position from `lo` on, below `hi`, distinct and sorted. -/
def turnPositions (turns : Turns) (lo hi : Int) : List Int :=
  if lo < hi then
    ((turns.lines ++ turns.sessions ++ turns.openTurns).filter fun p => lo ≤ p && p < hi).dedup.mergeSort
      fun a b => a ≤ b
  else []

/-- Whether a sorted list holds a value from `lo` on, below `hi`. -/
def anyIn (sorted : List Int) (lo hi : Int) : Bool :=
  let a := bisect (fun m => sorted.getD m 0 < lo) 0 sorted.length
  a < sorted.length && sorted.getD a 0 < hi

/-- The loop over the jobs: the current cohort takes a job, or ends before it. -/
def cohortsFrom (positions : List Int) (most : Nat) (cur : FoldCohort) : List Candidate → List FoldCohort
  | [] => [cur]
  | job :: rest =>
    let nlo := min cur.lo job.started
    let nhi := max cur.hi job.started
    if cur.ids.length < most && !anyIn positions nlo nhi then
      cohortsFrom positions most ⟨nlo, nhi, cur.ids ++ [job.id]⟩ rest
    else cur :: cohortsFrom positions most ⟨job.started, job.started, [job.id]⟩ rest

def foldCohorts (turns : Turns) (jobs : List Candidate) (most : Nat) : List FoldCohort :=
  match jobs with
  | [] => []
  | first :: rest =>
    let lo := (rest.map Candidate.started).foldl min first.started
    let hi := (rest.map Candidate.started).foldl max first.started
    cohortsFrom (turnPositions turns lo hi) most ⟨first.started, first.started, [first.id]⟩ rest

end Murage.FoldCohorts
