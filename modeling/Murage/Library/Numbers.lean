import Mathlib.Data.List.MinMax
import Mathlib.Data.List.Perm.Basic
import Mathlib.Data.List.Range
import Mathlib.Order.Nat
import Mathlib.Tactic.Common

/-!
Owns the lists whose entries are exactly `1..n`, each once, in any order: what they
count up to, and that the next number extends them. It names no system.
-/

namespace Murage.Library.Numbers

/-- The largest entry, zero when there is none. -/
def top (numbers : List Nat) : Nat := numbers.foldr max 0

/-- Exactly `1..n`, each once. -/
def Contiguous (numbers : List Nat) : Prop := numbers.Perm (List.range' 1 numbers.length)

variable {numbers others : List Nat}

theorem le_top {number : Nat} (isIn : number ∈ numbers) : number ≤ top numbers :=
  List.le_max_of_le' 0 isIn (Nat.le_refl number)

/-- No item measures more than the largest. -/
theorem le_topOf {α : Type*} (measure : α → Nat) {items : List α} {item : α}
    (isIn : item ∈ items) :
    measure item ≤ items.foldr (fun item most => max (measure item) most) 0 := by
  have isTop : items.foldr (fun item most => max (measure item) most) 0 =
      top (items.map measure) := (List.foldr_map ..).symm
  rw [isTop]
  exact le_top (List.mem_map_of_mem isIn)

theorem contiguous_nil : Contiguous [] := List.Perm.refl []

theorem Contiguous.perm (contiguous : Contiguous numbers) (same : others.Perm numbers) :
    Contiguous others := by
  unfold Contiguous
  rw [same.length_eq]
  exact same.trans contiguous

theorem Contiguous.mem_iff (contiguous : Contiguous numbers) (number : Nat) :
    number ∈ numbers ↔ 1 ≤ number ∧ number ≤ numbers.length := by
  rw [List.Perm.mem_iff contiguous, List.mem_range'_1]
  omega

/-- They count up to their length. -/
theorem Contiguous.top_eq (contiguous : Contiguous numbers) : top numbers = numbers.length := by
  refine Nat.le_antisymm (List.max_le_of_forall_le numbers _ fun number isIn => ?_) ?_
  · exact ((contiguous.mem_iff number).mp isIn).2
  · by_cases empty : numbers.length = 0
    · omega
    · exact le_top ((contiguous.mem_iff _).mpr (by omega))

/-- The next number keeps them so. -/
theorem Contiguous.next (contiguous : Contiguous numbers) :
    Contiguous ((top numbers + 1) :: numbers) := by
  unfold Contiguous
  rw [contiguous.top_eq, List.length_cons, List.range'_concat, Nat.one_mul, Nat.add_comm 1]
  exact (List.Perm.cons _ contiguous).trans (List.perm_append_singleton _ _).symm

end Murage.Library.Numbers
