import Murage.CoordinationBudget.Steps

/-!
Owns where traces come from, over every run: each that is returned starts at its root's owner, has
no bot twice, is short, and continues a trace that was returned on the same root.

Does not own: how many there are.
-/

namespace Murage.CoordinationBudget

open Murage.Library
open Murage.Library.Transition (Run ofFunction)

def WellFormed (owner : Id) (path : List Id) : Prop :=
  path.head? = some owner ∧ path.Nodup ∧ path.length ≤ MAX_COORDINATION_DEPTH + 1

/-- A trace that `begin` or `advance` returned. -/
def Returned (log : List Observed) (rootId : Id) (path : List Id) : Prop :=
  (∃ owner, path = [owner] ∧ .began rootId owner ∈ log) ∨
    ∃ root, root.id = rootId ∧ .advanced root path ∈ log

/-- A path that was earned when nothing but `log` had happened. -/
structure Earned (log : List Observed) (root : Root) (path : List Id) : Prop where
  formed : WellFormed root.owner path
  continues : ∃ origin target, path = origin ++ [target] ∧ Returned log root.id origin

/-- A root that `begin` made, with paths that `advance` returned. -/
structure Root.Genuine (log : List Observed) (root : Root) : Prop where
  begun : .began root.id root.owner ∈ log
  formed : ∀ path ∈ root.paths, WellFormed root.owner path
  returned : ∀ path ∈ root.paths, ∃ record, record.id = root.id ∧ .advanced record path ∈ log

structure Genuine (world : World) : Prop where
  distinct : (world.state.roots.map Root.id).Nodup
  roots : ∀ root ∈ world.state.roots, root.Genuine world.log
  saved : ∀ roots ∈ world.state.file, ∀ root ∈ roots, root.Genuine world.log
  waiting : ∀ rootId waiting, world.state.pending.get rootId = some waiting →
    .began rootId waiting.owner ∈ world.log
  earned : ∀ before root path after, world.log = before ++ .advanced root path :: after →
    Earned before root path

theorem Root.Genuine.grow {log more : List Observed} {root : Root} (isGenuine : root.Genuine log) :
    root.Genuine (log ++ more) where
  begun := List.mem_append_left _ isGenuine.begun
  formed := isGenuine.formed
  returned path isPath := by
    obtain ⟨record, isSame, isLogged⟩ := isGenuine.returned path isPath
    exact ⟨record, isSame, List.mem_append_left _ isLogged⟩

theorem split_snoc {log before after : List Observed} {seen entry : Observed}
    (isSplit : log ++ [seen] = before ++ entry :: after) :
    (entry = seen ∧ before = log) ∨ ∃ earlier, log = before ++ entry :: earlier := by
  rcases List.eq_nil_or_concat' after with rfl | ⟨earlier, last, rfl⟩
  · obtain ⟨isLog, isEntry⟩ := List.append_inj' isSplit rfl
    exact Or.inl ⟨(List.singleton_inj.1 isEntry).symm, isLog.symm⟩
  · rw [← List.cons_append, ← List.append_assoc] at isSplit
    exact Or.inr ⟨earlier, (List.append_inj' isSplit rfl).1⟩

variable {world : World}

theorem Genuine.state (genuine : Genuine world) {after : State}
    (distinct : (after.roots.map Root.id).Nodup)
    (roots : ∀ root ∈ after.roots, root.Genuine world.log)
    (saved : ∀ roots ∈ after.file, ∀ root ∈ roots, root.Genuine world.log)
    (waiting : ∀ rootId waiting, after.pending.get rootId = some waiting →
      .began rootId waiting.owner ∈ world.log) : Genuine { world with state := after } :=
  ⟨distinct, roots, saved, waiting, genuine.earned⟩

theorem Genuine.began (genuine : Genuine world) (rootId owner : Id) :
    Genuine { world with log := world.log ++ [.began rootId owner] } where
  distinct := genuine.distinct
  roots root isRoot := (genuine.roots root isRoot).grow
  saved roots isSaved root isRoot := (genuine.saved roots isSaved root isRoot).grow
  waiting other waiting isWaiting := List.mem_append_left _ (genuine.waiting other waiting isWaiting)
  earned before root path after isLog := by
    rcases split_snoc isLog with ⟨isSame, _⟩ | ⟨earlier, isBefore⟩
    · cases isSame
    · exact genuine.earned before root path earlier isBefore

theorem begin_genuine (genuine : Genuine world) (owner rootId : Id) :
    Genuine (world.next (.begin owner rootId)) := by
  have logged := genuine.began rootId owner
  rcases next_begin world owner rootId with
    ⟨_, _, isDone⟩ | ⟨_, _, ⟨_, _, isDone⟩ | ⟨_, isDone⟩⟩
  · rw [isDone]
    exact genuine
  · rw [isDone]
    exact logged
  · rw [isDone]
    refine ⟨?_, ?_, ?_, fun other waiting isWaiting => ?_, logged.earned⟩
    · rw [await_roots]
      exact logged.distinct
    · rw [await_roots]
      exact logged.roots
    · rw [await_file]
      exact logged.saved
    · rcases await_pending isWaiting with ⟨rfl, rfl⟩ | isOld
      · exact List.mem_append_right _ (List.mem_singleton_self _)
      · exact logged.waiting other waiting isOld

theorem mem_addPath {rootId : Id} {path : List Id} {roots : List Root} {root : Root}
    (isRoot : root ∈ State.addPath rootId path roots) :
    root ∈ roots ∨ ∃ before ∈ roots, before.id = rootId ∧
      root = { before with paths := before.paths ++ [path] } := by
  induction roots with
  | nil => cases isRoot
  | cons first rest ih =>
    rw [State.addPath] at isRoot
    split at isRoot
    · rename_i isFirst
      rcases List.mem_cons.1 isRoot with rfl | isLater
      · exact Or.inr ⟨first, List.mem_cons_self, isFirst, rfl⟩
      · exact Or.inl (List.mem_cons_of_mem _ isLater)
    · rcases List.mem_cons.1 isRoot with rfl | isLater
      · exact Or.inl List.mem_cons_self
      · rcases ih isLater with isIn | ⟨before, isBefore, isSame⟩
        · exact Or.inl (List.mem_cons_of_mem _ isIn)
        · exact Or.inr ⟨before, List.mem_cons_of_mem _ isBefore, isSame⟩

variable {admission : State.Admission}

/-- **What an advance returns is earned.** -/
theorem admission_earned (genuine : Genuine world) {trace : CoordinationTrace} {sender target : Id}
    (isAdmitted : world.state.checkAdvance world.now trace sender target = .ok admission) :
    .began admission.root.id admission.root.owner ∈ world.log ∧
      Earned world.log admission.root admission.path := by
  obtain ⟨_, isPath, isRootId, checked, source⟩ := admit_ok isAdmitted
  have isBegun : .began admission.root.id admission.root.owner ∈ world.log := by
    cases source with
    | kept isLive => exact (genuine.roots _ (live_spec isLive).1).begun
    | waiting _ isWaiting => exact genuine.waiting _ _ isWaiting
  have isOrigin : (trace.path = [admission.root.owner]) ∨ trace.path ∈ admission.root.paths := by
    by_cases isLong : 1 < trace.path.length
    · exact Or.inr (checked.known isLong)
    · refine Or.inl ?_
      have isOwner := checked.owner
      cases isTrace : trace.path with
      | nil =>
        rw [isTrace] at isOwner
        cases isOwner
      | cons first rest =>
        rw [isTrace, List.length_cons] at isLong
        have isEmpty : rest = [] := List.length_eq_zero_iff.1 (by omega)
        rw [isTrace, List.head?_cons] at isOwner
        rw [isEmpty, Option.some.inj isOwner]
  have isFormed : WellFormed admission.root.owner trace.path ∧
      Returned world.log admission.root.id trace.path := by
    rcases isOrigin with isOwner | isKnown
    · refine ⟨?_, Or.inl ⟨admission.root.owner, isOwner, isBegun⟩⟩
      rw [isOwner]
      exact ⟨rfl, List.nodup_singleton _, Nat.succ_le_succ (Nat.zero_le _)⟩
    · cases source with
      | kept isLive =>
        have isGenuine := genuine.roots _ (live_spec isLive).1
        exact ⟨isGenuine.formed _ isKnown, Or.inr (isGenuine.returned _ isKnown)⟩
      | waiting => cases isKnown
  refine ⟨isBegun, ⟨?_, trace.path, target, isPath, isFormed.2⟩⟩
  rw [isPath]
  refine ⟨?_, ?_, ?_⟩
  · rw [List.head?_append, checked.owner, Option.some_or]
  · rw [List.nodup_append]
    refine ⟨isFormed.1.2.1, List.nodup_singleton _, fun bot isBot other isOther isSame => ?_⟩
    rw [← isSame.trans (List.mem_singleton.1 isOther)] at checked
    exact checked.acyclic isBot
  · rw [List.length_append, List.length_singleton]
    exact Nat.succ_le_succ checked.depth

theorem next_roots (genuine : Genuine world) {trace : CoordinationTrace} {sender target : Id}
    (isAdmitted : world.state.checkAdvance world.now trace sender target = .ok admission) :
    ∀ root ∈ admission.next,
      root.Genuine (world.log ++ [.advanced admission.root admission.path]) := by
  obtain ⟨isBegun, isEarned⟩ := admission_earned genuine isAdmitted
  have isLogged : .advanced admission.root admission.path ∈
      world.log ++ [.advanced admission.root admission.path] :=
    List.mem_append_right _ (List.mem_singleton_self _)
  intro root isRoot
  cases (admit_ok isAdmitted).2.2.2.2 with
  | kept isLive =>
    rcases mem_addPath isRoot with isIn | ⟨before, isBefore, isSame, rfl⟩
    · exact (genuine.roots root isIn).grow
    · -- no other root has the id of the live one
      obtain ⟨isRoot, isId, _⟩ := live_spec isLive
      have isBefore := List.inj_on_of_nodup_map genuine.distinct isBefore isRoot isSame
      subst isBefore
      have isGenuine := genuine.roots before isRoot
      refine ⟨List.mem_append_left _ isGenuine.begun, fun path isPath => ?_,
        fun path isPath => ?_⟩
      · rcases List.mem_append.1 isPath with isOld | isNew
        · exact isGenuine.formed path isOld
        · exact List.mem_singleton.1 isNew ▸ isEarned.formed
      · rcases List.mem_append.1 isPath with isOld | isNew
        · exact isGenuine.grow.returned path isOld
        · exact ⟨before, rfl, List.mem_singleton.1 isNew ▸ isLogged⟩
  | waiting =>
    rcases List.mem_append.1 isRoot with isIn | isNew
    · exact (genuine.roots root (List.mem_filter.1 isIn).1).grow
    · cases List.mem_singleton.1 isNew
      refine ⟨List.mem_append_left _ isBegun, fun path isPath => ?_, fun path isPath => ?_⟩
      · cases List.mem_singleton.1 isPath
        exact isEarned.formed
      · cases List.mem_singleton.1 isPath
        refine ⟨_, ?_, isLogged⟩
        rfl

theorem addPath_ids (rootId : Id) (path : List Id) (roots : List Root) :
    (State.addPath rootId path roots).map Root.id = roots.map Root.id := by
  induction roots with
  | nil => rfl
  | cons first rest ih =>
    rw [State.addPath]
    split
    · rfl
    · rw [List.map_cons, List.map_cons, ih]

theorem next_distinct (genuine : Genuine world) {trace : CoordinationTrace} {sender target : Id}
    (isAdmitted : world.state.checkAdvance world.now trace sender target = .ok admission) :
    (admission.next.map Root.id).Nodup := by
  cases (admit_ok isAdmitted).2.2.2.2 with
  | kept isLive =>
    dsimp only
    rw [addPath_ids]
    exact genuine.distinct
  | waiting noLive =>
    dsimp only
    rw [List.map_append, List.nodup_append]
    refine ⟨genuine.distinct.sublist (List.filter_sublist.map _), List.nodup_singleton _, ?_⟩
    intro rootId isOld other isNew isSame
    obtain ⟨root, isRoot, rfl⟩ := List.mem_map.1 isOld
    obtain ⟨isIn, isUnexpired⟩ := List.mem_filter.1 isRoot
    have isExpired := live_none noLive root isIn (isSame.trans (List.mem_singleton.1 isNew))
    exact absurd (of_decide_eq_true isUnexpired) (Int.not_lt.2 isExpired)

theorem advance_genuine (genuine : Genuine world) (trace : Option CoordinationTrace)
    (sender target : Id) (written : Bool) :
    Genuine (world.next (.advance trace sender target written)) := by
  rcases next_advance world trace sender target written with
    isSame | ⟨given, admission, rfl, isAdmitted, _, isDone⟩
  · rw [isSame]
    exact genuine
  · obtain ⟨isBegun, isEarned⟩ := admission_earned genuine isAdmitted
    have areRoots := next_roots genuine isAdmitted
    rw [isDone]
    refine ⟨next_distinct genuine isAdmitted, areRoots, ?_, ?_, ?_⟩
    · intro roots isSaved root isRoot
      cases isSaved
      exact areRoots root isRoot
    · intro other waiting isWaiting
      refine List.mem_append_left _ (genuine.waiting other waiting ?_)
      dsimp only at isWaiting
      split at isWaiting
      · rw [OrderedMap.get_erase] at isWaiting
        split at isWaiting
        · cases isWaiting
        · exact isWaiting
      · exact isWaiting
    · intro before root path after isLog
      rcases split_snoc isLog with ⟨isSame, rfl⟩ | ⟨earlier, isBefore⟩
      · cases isSame
        exact isEarned
      · exact genuine.earned before root path earlier isBefore

theorem restart_genuine (genuine : Genuine world) (readable renamed : Bool) :
    Genuine (world.next (.restart readable renamed)) := by
  have noneWaits : ∀ rootId waiting,
      (∅ : OrderedMap Id Waiting).get rootId = some waiting → .began rootId waiting.owner ∈ world.log :=
    fun _ _ isWaiting => by cases isWaiting
  rw [World.next]
  cases isFile : world.state.file with
  | none =>
    rw [start]
    exact genuine.state List.nodup_nil (fun _ isIn => by cases isIn) (fun _ isIn => by cases isIn)
      noneWaits
  | some roots =>
    have saved := genuine.saved roots isFile
    rw [start]
    split
    · rename_i isUsed
      have isDistinct : (roots.map Root.id).Nodup := by
        rw [isLoaded, Bool.and_eq_true, Bool.and_eq_true, Bool.and_eq_true] at isUsed
        exact of_decide_eq_true isUsed.2.2
      refine genuine.state isDistinct saved (fun others areSaved => ?_) noneWaits
      cases areSaved
      exact saved
    · refine genuine.state List.nodup_nil (fun _ isIn => by cases isIn)
        (fun others areSaved => ?_) noneWaits
      split at areSaved
      · cases areSaved
      · cases areSaved
        exact saved

theorem next_genuine (genuine : Genuine world) (event : Event) :
    Genuine (world.next event) := by
  cases event with
  | begin owner rootId => exact begin_genuine genuine owner rootId
  | advance trace sender target written => exact advance_genuine genuine trace sender target written
  | clock now => exact ⟨genuine.distinct, genuine.roots, genuine.saved, genuine.waiting, genuine.earned⟩
  | restart readable renamed => exact restart_genuine genuine readable renamed

theorem start_genuine (now : Int) : Genuine (World.start now) where
  distinct := List.nodup_nil
  roots := nofun
  saved := nofun
  waiting _ _ isWaiting := nomatch isWaiting
  earned before root path after isLog := absurd isLog.symm (by simp [World.start])

end Murage.CoordinationBudget
