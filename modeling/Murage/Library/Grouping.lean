import Murage.Library.OrderedMap
import Mathlib.Algebra.BigOperators.Group.List.Basic
import Mathlib.Data.List.Induction
import Mathlib.Data.List.Perm.Basic

/-!
Owns the grouping of a list by a key, in the order the keys are met, and what the groups of some
keys hold together: the items with these keys, each once.

Does not own: what a group is for.
-/

namespace Murage.Library

universe u v w

variable {κ : Type u} {α : Type v} [DecidableEq κ]

namespace OrderedMap

def groupBy (key : α → κ) (items : List α) : OrderedMap κ (List α) :=
  items.foldl (fun groups item =>
    groups.set (key item) ((groups.get (key item)).getD [] ++ [item])) ∅

section GroupBy

variable (key : α → κ) (items : List α)

theorem groupBy_concat (item : α) :
    groupBy key (items ++ [item]) =
      (groupBy key items).set (key item) (((groupBy key items).get (key item)).getD [] ++ [item]) := by
  rw [groupBy, List.foldl_append]
  rfl

/-- A key's group is there once an item has the key. -/
theorem get_groupBy (k : κ) :
    (groupBy key items).get k =
      if items.any (key · = k) then some (items.filter (key · = k)) else none := by
  induction items using List.reverseRecOn with
  | nil => rfl
  | append_singleton items item ih =>
    rw [groupBy_concat, get_set]
    by_cases same : k = key item
    · subst same
      have isAny : (items ++ [item]).any (key · = key item) = true := by simp
      rw [if_pos rfl, if_pos isAny, ih, List.filter_append]
      by_cases met : items.any (key · = key item) = true
      · rw [if_pos met]
        simp
      · have none : items.filter (key · = key item) = [] := by
          simpa [List.filter_eq_nil_iff] using met
        rw [if_neg met, none]
        simp
    · have other : ¬ key item = k := fun isKey => same isKey.symm
      rw [if_neg same, ih, List.filter_append]
      simp [other]

theorem mem_keys_groupBy (k : κ) : k ∈ (groupBy key items).keys ↔ ∃ item ∈ items, key item = k := by
  rw [mem_keys_iff, get_groupBy]
  by_cases met : items.any (key · = k) = true
  · rw [if_pos met]
    simpa using met
  · rw [if_neg met]
    simpa using met

theorem groupBy_of_mem {group : κ × List α} (isIn : group ∈ (groupBy key items).entries) :
    group.2 = items.filter (key · = group.1) ∧ group.2 ≠ [] := by
  have isThere := get_of_mem_entries isIn
  rw [get_groupBy] at isThere
  split_ifs at isThere with met
  have isGroup : items.filter (key · = group.1) = group.2 := Option.some.inj isThere
  obtain ⟨item, isItem, isKey⟩ := List.any_eq_true.mp met
  exact ⟨isGroup.symm, List.ne_nil_of_mem (isGroup ▸ List.mem_filter.mpr ⟨isItem, isKey⟩)⟩

/-- The items of some keys, one key after the other. -/
theorem flatMap_filter_perm {keys : List κ} (distinct : keys.Nodup) :
    (keys.flatMap fun k => items.filter (key · = k)).Perm (items.filter (key · ∈ keys)) := by
  induction keys with
  | nil => simp
  | cons k keys ih =>
    obtain ⟨fresh, distinctRest⟩ := List.nodup_cons.mp distinct
    have isHead : (items.filter (key · ∈ k :: keys)).filter (key · = k) =
        items.filter (key · = k) := by
      rw [List.filter_filter]
      refine List.filter_congr fun item _ => ?_
      by_cases same : key item = k <;> simp [same]
    have isTail : (items.filter (key · ∈ k :: keys)).filter (fun item => !(key item = k)) =
        items.filter (key · ∈ keys) := by
      rw [List.filter_filter]
      refine List.filter_congr fun item _ => ?_
      by_cases same : key item = k
      · simp [same, fresh]
      · simp [same]
    have split := List.filter_append_perm (key · = k) (items.filter (key · ∈ k :: keys))
    rw [isHead, isTail] at split
    exact ((ih distinctRest).append_left _).trans split

/-- The groups of the keys with a property hold the items whose key has it, each once. -/
theorem groups_perm (p : κ → Bool) :
    (((groupBy key items).entries.filter (p ·.1)).flatMap (·.2)).Perm
      (items.filter fun item => p (key item)) := by
  have isFlat : ((groupBy key items).entries.filter (p ·.1)).flatMap (·.2) =
      ((groupBy key items).keys.filter p).flatMap fun k => items.filter (key · = k) := by
    rw [keys, List.filter_map, List.flatMap_map]
    exact List.flatMap_congr fun group isIn =>
      (groupBy_of_mem key items (List.mem_of_mem_filter isIn)).1
  have isAll : items.filter (key · ∈ (groupBy key items).keys.filter p) =
      items.filter fun item => p (key item) := by
    refine List.filter_congr fun item isIn => ?_
    have isKey := (mem_keys_groupBy key items (key item)).mpr ⟨item, isIn, rfl⟩
    simp [List.mem_filter, isKey]
  rw [isFlat, ← isAll]
  exact flatMap_filter_perm key items ((groupBy key items).distinct.filter p)

end GroupBy

end OrderedMap

end Murage.Library
