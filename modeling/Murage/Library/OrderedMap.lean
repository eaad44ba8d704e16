import Mathlib.Data.List.Nodup
import Mathlib.Tactic.Common

/-!
Owns a finite map whose keys keep the order they were first set in, as the maps of
a scripting language do: the type carries that no key is there twice. It names no
schema; the rules are what reading gives after setting and after erasing.
-/

namespace Murage.Library

universe u v

variable {κ : Type u} {α : Type v} [DecidableEq κ]

structure OrderedMap (κ : Type u) (α : Type v) where
  entries : List (κ × α)
  distinct : (entries.map (·.1)).Nodup

namespace OrderedMap

def empty : OrderedMap κ α := ⟨[], List.nodup_nil⟩

instance : EmptyCollection (OrderedMap κ α) := ⟨empty⟩

instance : Inhabited (OrderedMap κ α) := ⟨empty⟩

def keys (m : OrderedMap κ α) : List κ := m.entries.map (·.1)

def get (m : OrderedMap κ α) (k : κ) : Option α := (m.entries.find? (·.1 = k)).map (·.2)

/-- The entry of `k` with a new value. -/
def renewed (k : κ) (v : α) (entry : κ × α) : κ × α := if entry.1 = k then (k, v) else entry

theorem renewed_key (k : κ) (v : α) (entry : κ × α) : (renewed k v entry).1 = entry.1 := by
  unfold renewed
  split_ifs with same
  · exact same.symm
  · rfl

/-- A key that is there keeps its place; a new one goes last. -/
def set (m : OrderedMap κ α) (k : κ) (v : α) : OrderedMap κ α :=
  if held : k ∈ m.keys then
    { entries := m.entries.map (renewed k v)
      distinct := by
        have same : (m.entries.map (renewed k v)).map (·.1) = m.entries.map (·.1) := by
          rw [List.map_map]
          exact List.map_congr_left fun entry _ => renewed_key k v entry
        rw [same]
        exact m.distinct }
  else
    { entries := m.entries ++ [(k, v)]
      distinct := by
        rw [List.map_append, List.nodup_append]
        refine ⟨m.distinct, by simp, fun key member last isLast same => held ?_⟩
        have isKey : k = key := by rw [same, List.mem_singleton.mp isLast]
        exact isKey ▸ member }

def erase (m : OrderedMap κ α) (k : κ) : OrderedMap κ α :=
  { entries := m.entries.filter (·.1 ≠ k)
    distinct := m.distinct.sublist (List.filter_sublist.map _) }

omit [DecidableEq κ] in
def restrict (m : OrderedMap κ α) (kept : List (κ × α)) (areEntries : kept.Sublist m.entries) :
    OrderedMap κ α :=
  { entries := kept
    distinct := m.distinct.sublist (areEntries.map _) }

omit [DecidableEq κ] in
/-- The entries that `keeps` holds of. -/
def filter (keeps : κ × α → Bool) (m : OrderedMap κ α) : OrderedMap κ α :=
  m.restrict (m.entries.filter keeps) List.filter_sublist

omit [DecidableEq κ] in
/-- Without its `count` oldest entries. -/
def drop (count : Nat) (m : OrderedMap κ α) : OrderedMap κ α :=
  m.restrict (m.entries.drop count) (List.drop_sublist count _)

omit [DecidableEq κ] in
/-- The same keys with values made from theirs. -/
def mapValues (f : κ → α → α) (m : OrderedMap κ α) : OrderedMap κ α :=
  { entries := m.entries.map fun entry => (entry.1, f entry.1 entry.2)
    distinct := by
      rw [List.map_map]
      exact m.distinct }

section Rules

variable (m : OrderedMap κ α) (k k' : κ) (v : α)

@[simp] theorem get_empty : (∅ : OrderedMap κ α).get k = none := rfl

theorem mem_keys_iff : k ∈ m.keys ↔ (m.get k).isSome := by
  simp [keys, get, List.find?_isSome]

theorem get_eq_none_iff : m.get k = none ↔ k ∉ m.keys := by
  rw [mem_keys_iff]
  cases m.get k <;> simp

theorem find_renewed_self (entries : List (κ × α)) (held : k ∈ entries.map (·.1)) :
    ((entries.map (renewed k v)).find? (·.1 = k)).map (·.2) = some v := by
  induction entries with
  | nil => simp at held
  | cons entry rest ih =>
    by_cases same : entry.1 = k
    · simp [renewed, same]
    · have later : k ∈ rest.map (·.1) := by
        rcases List.mem_cons.mp held with here | later
        · exact absurd here.symm same
        · exact later
      simpa [renewed, same] using ih later

theorem find_renewed_ne {k k' : κ} (other : k' ≠ k) (entries : List (κ × α)) :
    ((entries.map (renewed k v)).find? (·.1 = k')).map (·.2) =
      (entries.find? (·.1 = k')).map (·.2) := by
  induction entries with
  | nil => rfl
  | cons entry rest ih =>
    by_cases same : entry.1 = k
    · have skipped : entry.1 ≠ k' := fun here => other (here.symm.trans same)
      simpa [renewed, same, Ne.symm other] using ih
    · by_cases here : entry.1 = k'
      · simp [renewed, here, other]
      · simpa [renewed, same, here] using ih

theorem get_set : (m.set k v).get k' = if k' = k then some v else m.get k' := by
  unfold set
  split_ifs with held same same
  · rw [same]
    exact find_renewed_self k v m.entries held
  · exact find_renewed_ne v same m.entries
  · have absent : m.entries.find? (·.1 = k) = none := by
      simpa [get] using (get_eq_none_iff m k).mpr held
    simp [get, same, List.find?_append, absent]
  · have last : [(k, v)].find? (fun entry => decide (entry.1 = k')) = none := by
      simp [Ne.symm same]
    simp [get, List.find?_append, last]

theorem get_erase : (m.erase k).get k' = if k' = k then none else m.get k' := by
  unfold get erase
  rw [List.find?_filter]
  split_ifs with same
  · rw [same, List.find?_eq_none.mpr (by simp)]
    rfl
  · congr 2
    funext entry
    by_cases here : entry.1 = k' <;> simp [here, same]

theorem get_mapValues (f : κ → α → α) : (m.mapValues f).get k = (m.get k).map (f k) := by
  unfold get mapValues
  rw [List.find?_map, Option.map_map]
  cases found : m.entries.find? (·.1 = k) with
  | none =>
    have none : m.entries.find? ((fun entry => decide (entry.1 = k)) ∘
        fun entry => (entry.1, f entry.1 entry.2)) = none := found
    rw [none]
    rfl
  | some entry =>
    have isKey : entry.1 = k := by simpa using List.find?_some found
    have same : m.entries.find? ((fun entry => decide (entry.1 = k)) ∘
        fun entry => (entry.1, f entry.1 entry.2)) = some entry := found
    rw [same, ← isKey]
    rfl

@[simp] theorem get_set_self : (m.set k v).get k = some v := by simp [get_set]

@[simp] theorem get_erase_self : (m.erase k).get k = none := by simp [get_erase]

theorem mem_keys_set : k' ∈ (m.set k v).keys ↔ k' = k ∨ k' ∈ m.keys := by
  rw [mem_keys_iff, mem_keys_iff, get_set]
  split_ifs with same <;> simp [same]

end Rules

section Values

omit [DecidableEq κ] in
def values (m : OrderedMap κ α) : List α := m.entries.map (·.2)

variable {k : κ}

theorem renewed_of_not_mem (v : α) {entries : List (κ × α)} (absent : k ∉ entries.map (·.1)) :
    entries.map (renewed k v) = entries := by
  have kept : entries.map (renewed k v) = entries.map id :=
    List.map_congr_left fun entry isIn =>
      if_neg fun same => absent (List.mem_map.mpr ⟨entry, isIn, same⟩)
  rw [kept, List.map_id]

theorem countP_renewed (p : α → Bool) (k : κ) (v : α) {entries : List (κ × α)}
    (distinct : (entries.map (·.1)).Nodup) :
    ((entries.map (renewed k v)).map (·.2)).countP p ≤
      (entries.map (·.2)).countP p + if p v then 1 else 0 := by
  induction entries with
  | nil => exact Nat.zero_le _
  | cons entry rest ih =>
    obtain ⟨notRest, distinctRest⟩ := List.nodup_cons.mp distinct
    rw [List.map_cons, List.map_cons, List.map_cons, List.countP_cons, List.countP_cons]
    by_cases same : entry.1 = k
    · rw [renewed_of_not_mem v (same ▸ notRest), renewed, if_pos same]
      show List.countP p _ + (if p v then 1 else 0) ≤ _
      omega
    · rw [renewed, if_neg same]
      have later := ih distinctRest
      omega

/-- Setting a key adds its value at most. -/
theorem countP_values_set (p : α → Bool) (m : OrderedMap κ α) (k : κ) (v : α) :
    (m.set k v).values.countP p ≤ m.values.countP p + if p v then 1 else 0 := by
  by_cases held : k ∈ m.keys
  · rw [set, dif_pos held]
    exact countP_renewed p k v m.distinct
  · rw [set, dif_neg held]
    show ((m.entries ++ [(k, v)]).map (·.2)).countP p ≤ _
    rw [List.map_append, List.countP_append, List.map_singleton, List.countP_singleton]
    exact Nat.le_refl _

variable {m : OrderedMap κ α} {v : α}

theorem mem_entries_set {entry : κ × α} (isIn : entry ∈ (m.set k v).entries) :
    entry = (k, v) ∨ entry ∈ m.entries := by
  unfold set at isIn
  split_ifs at isIn with held
  · obtain ⟨first, isFirst, rfl⟩ := List.mem_map.mp isIn
    unfold renewed
    split_ifs
    · exact Or.inl rfl
    · exact Or.inr isFirst
  · exact (List.mem_append.mp isIn).symm.imp_left List.mem_singleton.mp

theorem mem_entries_erase {entry : κ × α} :
    entry ∈ (m.erase k).entries ↔ entry ∈ m.entries ∧ entry.1 ≠ k := by
  show entry ∈ m.entries.filter _ ↔ _
  rw [List.mem_filter, decide_eq_true_iff]

theorem get_of_mem_entries {entry : κ × α} (isIn : entry ∈ m.entries) :
    m.get entry.1 = some entry.2 := by
  obtain ⟨other, isFound⟩ : ∃ other, m.entries.find? (·.1 = entry.1) = some other :=
    Option.isSome_iff_exists.mp (List.find?_isSome.mpr ⟨entry, isIn, decide_eq_true rfl⟩)
  have sameKey : other.1 = entry.1 := by simpa using List.find?_some isFound
  have same : other = entry :=
    List.inj_on_of_nodup_map m.distinct (List.mem_of_find?_eq_some isFound) isIn sameKey
  rw [get, isFound, same]
  rfl

theorem mem_entries_of_get (isThere : m.get k = some v) :
    (k, v) ∈ m.entries := by
  obtain ⟨entry, isFound, rfl⟩ := Option.map_eq_some_iff.mp isThere
  have sameKey : entry.1 = k := by simpa using List.find?_some isFound
  have isIn := List.mem_of_find?_eq_some isFound
  rw [← sameKey]
  exact isIn

/-- A value that is read is there. -/
theorem mem_values_of_get (isIn : m.get k = some v) :
    v ∈ m.values := by
  obtain ⟨entry, isFound, rfl⟩ := Option.map_eq_some_iff.mp isIn
  exact List.mem_map_of_mem (List.mem_of_find?_eq_some isFound)

/-- What is read of some of the entries is read of all. -/
theorem get_of_sublist {m part : OrderedMap κ α} (areEntries : part.entries.Sublist m.entries)
    (isIn : part.get k = some v) : m.get k = some v :=
  get_of_mem_entries (areEntries.subset (mem_entries_of_get isIn))

theorem get_of_filter {keeps : κ × α → Bool} (isIn : (m.filter keeps).get k = some v) :
    m.get k = some v :=
  get_of_sublist List.filter_sublist isIn

theorem get_of_drop {count : Nat} (isIn : (m.drop count).get k = some v) : m.get k = some v :=
  get_of_sublist (List.drop_sublist count _) isIn

theorem get_filter_of {keeps : κ × α → Bool} (isIn : m.get k = some v)
    (isKept : keeps (k, v) = true) :
    (m.filter keeps).get k = some v := by
  have isEntry : (k, v) ∈ (m.filter keeps).entries :=
    List.mem_filter.2 ⟨mem_entries_of_get isIn, isKept⟩
  exact get_of_mem_entries isEntry

theorem get_drop_of {count : Nat} (isIn : m.get k = some v)
    (isLater : k ∉ (m.entries.take count).map (·.1)) :
    (m.drop count).get k = some v := by
  have isEntry := mem_entries_of_get isIn
  rw [← List.take_append_drop count m.entries] at isEntry
  rcases List.mem_append.1 isEntry with isFirst | isRest
  · exact absurd (List.mem_map_of_mem isFirst) isLater
  · have isKept : (k, v) ∈ (m.drop count).entries := isRest
    exact get_of_mem_entries isKept

end Values

end OrderedMap

end Murage.Library
