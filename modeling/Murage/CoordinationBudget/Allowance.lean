import Murage.CoordinationBudget.Traces

/-!
Owns how many advances a record admits, over every run.

Does not own: how long the owner of a root can hand on.
-/

namespace Murage.CoordinationBudget

open Murage.Library

/-- An advance on a root without a path makes its record. -/
def handoff (rootId : Id) (count : Nat) : Observed → Nat
  | .advanced root _ =>
    if root.id = rootId then (if root.paths = [] then 1 else count + 1) else count
  | .began .. => count

/-- The advances that succeeded on the last record of a root. -/
def handoffs (log : List Observed) (rootId : Id) : Nat := log.foldl (handoff rootId) 0

structure Counted (world : World) : Prop where
  exact : ∀ root ∈ world.state.roots, handoffs world.log root.id = root.paths.length
  saved : ∀ roots ∈ world.state.file, ∀ root ∈ roots,
    handoffs world.log root.id = root.paths.length
  most : ∀ rootId, handoffs world.log rootId ≤ MAX_HANDOFFS_PER_ROOT

theorem handoffs_began (log : List Observed) (rootId other owner : Id) :
    handoffs (log ++ [.began other owner]) rootId = handoffs log rootId := by
  rw [handoffs, List.foldl_append]
  rfl

theorem handoffs_advanced (log : List Observed) (root : Root) (path : List Id) (rootId : Id) :
    handoffs (log ++ [.advanced root path]) rootId = if root.id = rootId then
      (if root.paths = [] then 1 else handoffs log rootId + 1) else handoffs log rootId := by
  rw [handoffs, List.foldl_append]
  rfl

theorem start_counted (now : Int) : Counted (World.start now) where
  exact _ isRoot := nomatch isRoot
  saved _ isSaved := nomatch isSaved
  most _ := Nat.zero_le _

theorem begin_counted {world : World} (counted : Counted world) (owner rootId : Id) :
    Counted (world.next (.begin owner rootId)) := by
  have logged : Counted { world with log := world.log ++ [.began rootId owner] } := by
    refine ⟨fun root isRoot => ?_, fun roots isSaved root isRoot => ?_, fun other => ?_⟩
    · rw [handoffs_began]
      exact counted.exact root isRoot
    · rw [handoffs_began]
      exact counted.saved roots isSaved root isRoot
    · rw [handoffs_began]
      exact counted.most other
  rcases next_begin world owner rootId with
    ⟨_, _, isSame⟩ | ⟨_, _, ⟨_, _, isDone⟩ | ⟨_, isDone⟩⟩
  · rw [isSame]
    exact counted
  · rw [isDone]
    exact logged
  · rw [isDone]
    refine ⟨?_, ?_, logged.most⟩
    · rw [await_roots]
      exact logged.exact
    · rw [await_file]
      exact logged.saved

theorem addPath_spec {roots : List Root} (isDistinct : (roots.map Root.id).Nodup) {root : Root}
    (isRoot : root ∈ roots) (path : List Id) :
    { root with paths := root.paths ++ [path] } ∈ State.addPath root.id path roots ∧
      ∀ other : Root, other.id ≠ root.id →
        (other ∈ State.addPath root.id path roots ↔ other ∈ roots) := by
  induction roots with
  | nil => cases isRoot
  | cons first rest ih =>
    rw [List.map_cons, List.nodup_cons] at isDistinct
    rw [State.addPath]
    split
    · rename_i isFirst
      have isSame : root = first := by
        rcases List.mem_cons.1 isRoot with isSame | isLater
        · exact isSame
        · exact absurd (List.mem_map.2 ⟨root, isLater, isFirst.symm⟩) isDistinct.1
      subst isSame
      refine ⟨List.mem_cons_self, fun other isElse => ?_⟩
      have notOld : other ≠ root := fun isSame => isElse (isSame ▸ rfl)
      have notNew : other ≠ { root with paths := root.paths ++ [path] } :=
        fun isSame => isElse (isSame ▸ rfl)
      rw [List.mem_cons, List.mem_cons, or_iff_right notOld, or_iff_right notNew]
    · rename_i notFirst
      have isLater : root ∈ rest :=
        (List.mem_cons.1 isRoot).resolve_left fun isSame => notFirst (isSame ▸ rfl)
      obtain ⟨isIn, others⟩ := ih isDistinct.2 isLater
      refine ⟨List.mem_cons_of_mem _ isIn, fun other isElse => ?_⟩
      rw [List.mem_cons, List.mem_cons, others other isElse]

/-! ## An advance that is admitted -/

section advance

variable {world : World} (genuine : Genuine world) {trace : CoordinationTrace}
  {sender target : Id} {admission : State.Admission}
  (isAdmitted : world.state.checkAdvance world.now trace sender target = .ok admission)

include genuine isAdmitted

theorem next_spec :
    world.now < admission.root.expiresAt ∧
      { admission.root with paths := admission.root.paths ++ [admission.path] } ∈ admission.next ∧
      (∀ other ∈ admission.next, other.id ≠ admission.root.id → other ∈ world.state.roots) ∧
      (∀ other ∈ world.state.roots, other.id ≠ admission.root.id → world.now < other.expiresAt →
        other ∈ admission.next) := by
  cases (admit_ok isAdmitted).2.2.2.2 with
  | @kept root path isLive =>
    obtain ⟨isRoot, _, isFresh⟩ := live_spec isLive
    obtain ⟨isIn, others⟩ := addPath_spec genuine.distinct isRoot path
    exact ⟨isFresh, isIn, fun other isOther isElse => (others other isElse).1 isOther,
      fun other isOther isElse _ => (others other isElse).2 isOther⟩
  | waiting _ _ isFresh =>
    refine ⟨isFresh, List.mem_append_right _ (List.mem_singleton_self _), ?_, ?_⟩
    · intro other isOther isElse
      rcases List.mem_append.1 isOther with isOld | isNew
      · exact (List.mem_filter.1 isOld).1
      · cases List.mem_singleton.1 isNew
        exact absurd rfl isElse
    · intro other isOther _ isUnexpired
      exact List.mem_append_left _ (List.mem_filter.2 ⟨isOther, decide_eq_true isUnexpired⟩)

theorem same_record {root : Root} (isRoot : root ∈ world.state.roots)
    (isSame : root.id = admission.root.id) (isFresh : world.now < root.expiresAt) :
    root = admission.root := by
  cases (admit_ok isAdmitted).2.2.2.2 with
  | kept isLive => exact List.inj_on_of_nodup_map genuine.distinct isRoot (live_spec isLive).1 isSame
  | waiting noLive =>
    have isExpired := live_none noLive root isRoot isSame
    exact absurd isFresh (Int.not_lt.2 isExpired)

omit genuine in
theorem advanced_exact (counted : Counted world) :
    handoffs (world.log ++ [.advanced admission.root admission.path]) admission.root.id
      = admission.root.paths.length + 1 := by
  rw [handoffs_advanced, if_pos rfl]
  cases (admit_ok isAdmitted).2.2.2.2 with
  | @kept root _ isLive =>
    rw [counted.exact root (live_spec isLive).1]
    split
    · rename_i isEmpty
      rw [isEmpty]
      rfl
    · rfl
  | waiting => rfl

end advance

theorem advance_counted {world : World} (genuine : Genuine world) (counted : Counted world)
    (trace : Option CoordinationTrace) (sender target : Id) (written : Bool) :
    Counted (world.next (.advance trace sender target written)) := by
  rcases next_advance world trace sender target written with
    isSame | ⟨given, admission, rfl, isAdmitted, _, isDone⟩
  · rw [isSame]
    exact counted
  obtain ⟨_, isIn, areOld, _⟩ := next_spec genuine isAdmitted
  have isExact := advanced_exact isAdmitted counted
  have hasBudget := (admit_ok isAdmitted).2.2.2.1.budget
  have others : ∀ rootId, rootId ≠ admission.root.id →
      handoffs (world.log ++ [.advanced admission.root admission.path]) rootId
        = handoffs world.log rootId := fun rootId isOther => by
    rw [handoffs_advanced, if_neg fun isSame => isOther isSame.symm]
  have exact : ∀ root ∈ admission.next,
      handoffs (world.log ++ [.advanced admission.root admission.path]) root.id
        = root.paths.length := fun root isRoot => by
    by_cases isSame : root.id = admission.root.id
    · have isRecord := List.inj_on_of_nodup_map (next_distinct genuine isAdmitted) isRoot isIn isSame
      rw [isSame, isExact, isRecord, List.length_append, List.length_singleton]
    · rw [others root.id isSame]
      exact counted.exact root (areOld root isRoot isSame)
  rw [isDone]
  refine ⟨exact, fun roots isSaved => ?_, fun rootId => ?_⟩
  · cases isSaved
    exact exact
  · by_cases isSame : rootId = admission.root.id
    · subst isSame
      rw [isExact]
      exact hasBudget
    · rw [others rootId isSame]
      exact counted.most rootId

theorem restart_counted {world : World} (counted : Counted world) (readable renamed : Bool) :
    Counted (world.next (.restart readable renamed)) := by
  rw [World.next]
  cases isFile : world.state.file with
  | none => exact ⟨fun _ isIn => (by cases isIn), fun _ isIn => (by cases isIn), counted.most⟩
  | some roots =>
    have saved := counted.saved roots isFile
    rw [start]
    split
    · refine ⟨saved, fun others areSaved => ?_, counted.most⟩
      cases areSaved
      exact saved
    · refine ⟨fun _ isIn => (by cases isIn), fun others areSaved => ?_, counted.most⟩
      split at areSaved
      · cases areSaved
      · cases areSaved
        exact saved

/-- **A record admits at most `MAX_HANDOFFS_PER_ROOT` advances.** -/
theorem next_counted {world : World} (genuine : Genuine world) (counted : Counted world)
    (event : Event) : Counted (world.next event) := by
  cases event with
  | begin owner rootId => exact begin_counted counted owner rootId
  | advance trace sender target written =>
    exact advance_counted genuine counted trace sender target written
  | clock now => exact ⟨counted.exact, counted.saved, counted.most⟩
  | restart readable renamed => exact restart_counted counted readable renamed

end Murage.CoordinationBudget
