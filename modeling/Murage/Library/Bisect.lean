import Mathlib.Tactic.Common

/-!
Owns bisection: the first place of a range where a test that is true up to some place is false. It
names no system.
-/

namespace Murage.Library

/-- The first place from `first` on, below `last`, where the test is false. -/
def bisect (isBelow : Nat → Bool) (first last : Nat) : Nat :=
  if first < last then
    if isBelow ((first + last) / 2) then bisect isBelow ((first + last) / 2 + 1) last
    else bisect isBelow first ((first + last) / 2)
  else first
termination_by last - first

variable {isBelow : Nat → Bool}

/-- **Bisection.** A test that is false wherever it is false further down is true before the place
that is found and false from there on. -/
theorem bisect_spec {first last : Nat} (isOrdered : first ≤ last)
    (monotone : ∀ i j, i ≤ j → first ≤ i → j < last → isBelow j = true → isBelow i = true) :
    first ≤ bisect isBelow first last ∧ bisect isBelow first last ≤ last ∧
      (∀ i, first ≤ i → i < bisect isBelow first last → isBelow i = true) ∧
      ∀ i, bisect isBelow first last ≤ i → i < last → isBelow i = false := by
  fun_induction bisect isBelow first last with
  | case1 first last isMore isIn ih =>
    have isMiddle : first ≤ (first + last) / 2 ∧ (first + last) / 2 < last := by omega
    obtain ⟨isAfter, isWithin, areBelow, areAbove⟩ := ih (by omega)
      fun i j isLess isFirst isLast => monotone i j isLess (by omega) isLast
    refine ⟨by omega, isWithin, fun i isFirst isFound => ?_, areAbove⟩
    by_cases isEarly : i ≤ (first + last) / 2
    · exact monotone i _ isEarly isFirst isMiddle.2 isIn
    · exact areBelow i (by omega) isFound
  | case2 first last isMore notThere ih =>
    have isMiddle : first ≤ (first + last) / 2 ∧ (first + last) / 2 < last := by omega
    obtain ⟨isAfter, isWithin, areBelow, areAbove⟩ := ih isMiddle.1
      fun i j isLess isFirst isLast => monotone i j isLess isFirst (by omega)
    refine ⟨isAfter, by omega, areBelow, fun i isFound isLast => ?_⟩
    by_cases isEarly : i < (first + last) / 2
    · exact areAbove i isFound isEarly
    · cases isTested : isBelow i with
      | false => rfl
      | true => exact absurd (monotone _ i (by omega) isMiddle.1 isLast isTested) notThere
  | case3 first last isDone =>
    exact ⟨Nat.le_refl _, isOrdered, fun i isFirst isFound => by omega,
      fun i isFound isLast => by omega⟩

end Murage.Library
