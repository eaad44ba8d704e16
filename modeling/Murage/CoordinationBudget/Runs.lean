import Murage.CoordinationBudget.Allowance

/-!
Owns how long the owner of a root can hand on: what keeps the record that `begin` found, and what
an advance on it answers; and what the allowance keeps over every run of calls, clock steps, failed
saves and restarts.

Does not own: a root that is not handed on before a restart, a file that cannot be read again, and
which turns ask for the allowance.
-/

namespace Murage.CoordinationBudget

open Murage.Library

/-! ## What is stored -/

/-- What the schemas promise of the roots in memory and in the file. -/
structure Stored (world : World) : Prop where
  valid : isState world.state.roots = true
  saved : ∀ roots ∈ world.state.file, isState roots = true ∧ (roots.map Root.id).Nodup
  named : ∀ rootId waiting, world.state.pending.get rootId = some waiting →
    isId rootId = true ∧ isId waiting.owner = true

theorem start_stored (now : Int) : Stored (World.start now) where
  valid := rfl
  saved _ isSaved := nomatch isSaved
  named _ _ isWaiting := nomatch isWaiting

variable {world : World}

theorem begin_stored (stored : Stored world) (owner rootId : Id) :
    Stored (world.next (.begin owner rootId)) := by
  rcases next_begin world owner rootId with
    ⟨_, _, isSame⟩ | ⟨isOwner, isRoot, ⟨_, _, isDone⟩ | ⟨_, isDone⟩⟩
  · rw [isSame]
    exact stored
  · rw [isDone]
    exact ⟨stored.valid, stored.saved, stored.named⟩
  · rw [isDone]
    refine ⟨?_, ?_, fun other waiting isWaiting => ?_⟩
    · rw [await_roots]
      exact stored.valid
    · rw [await_file]
      exact stored.saved
    · rcases await_pending isWaiting with ⟨rfl, rfl⟩ | isOld
      · exact ⟨isRoot, isOwner⟩
      · exact stored.named other waiting isOld

theorem advance_stored (genuine : Genuine world) (stored : Stored world)
    (trace : Option CoordinationTrace) (sender target : Id) (written : Bool) :
    Stored (world.next (.advance trace sender target written)) := by
  rcases next_advance world trace sender target written with
    isSame | ⟨given, admission, rfl, isAdmitted, isValid, isDone⟩
  · rw [isSame]
    exact stored
  · rw [isDone]
    refine ⟨isValid, fun roots isSaved => ?_, fun other waiting isWaiting => ?_⟩
    · cases isSaved
      exact ⟨isValid, next_distinct genuine isAdmitted⟩
    · refine stored.named other waiting ?_
      dsimp only at isWaiting
      split at isWaiting
      · rw [OrderedMap.get_erase] at isWaiting
        split at isWaiting
        · cases isWaiting
        · exact isWaiting
      · exact isWaiting

theorem restart_stored (stored : Stored world) (readable renamed : Bool) :
    Stored (world.next (.restart readable renamed)) := by
  have noneNamed : ∀ rootId waiting, (∅ : OrderedMap Id Waiting).get rootId = some waiting →
      isId rootId = true ∧ isId waiting.owner = true := fun _ _ isWaiting => by cases isWaiting
  rw [World.next]
  cases isFile : world.state.file with
  | none => exact ⟨rfl, fun _ isIn => (by cases isIn), noneNamed⟩
  | some roots =>
    have saved := stored.saved roots isFile
    rw [start]
    split
    · refine ⟨saved.1, fun others areSaved => ?_, noneNamed⟩
      cases areSaved
      exact saved
    · refine ⟨rfl, fun others areSaved => ?_, noneNamed⟩
      split at areSaved
      · cases areSaved
      · cases areSaved
        exact saved

theorem next_stored (genuine : Genuine world) (stored : Stored world) (event : Event) :
    Stored (world.next event) := by
  cases event with
  | begin owner rootId => exact begin_stored stored owner rootId
  | advance trace sender target written =>
    exact advance_stored genuine stored trace sender target written
  | clock now => exact ⟨stored.valid, stored.saved, stored.named⟩
  | restart readable renamed => exact restart_stored stored readable renamed

/-! ## The record of a root -/

variable {st : State} {now : Int} {rootId owner : Id} {expiresAt : Int}

variable {root : Root}

theorem live_of (isDistinct : (st.roots.map Root.id).Nodup) (isRoot : root ∈ st.roots)
    (isFresh : now < root.expiresAt) : st.live now root.id = some root := by
  cases isLive : st.live now root.id with
  | none =>
    have isExpired := live_none isLive root isRoot rfl
    exact absurd isFresh (Int.not_lt.2 isExpired)
  | some other =>
    obtain ⟨isOther, isSame, _⟩ := live_spec isLive
    rw [List.inj_on_of_nodup_map isDistinct isOther isRoot isSame]

theorem live_none_of
    (areExpired : ∀ root ∈ st.roots, root.id = rootId → root.expiresAt ≤ now) :
    st.live now rootId = none := by
  refine List.find?_eq_none.2 fun root isRoot isLive => ?_
  simp only [Bool.and_eq_true, decide_eq_true_eq] at isLive
  have isExpired := areExpired root isRoot isLive.1
  exact absurd isLive.2 (Int.not_lt.2 isExpired)

theorem prior_cases (isPrior : st.prior now rootId = some ⟨owner, expiresAt⟩) :
    (∃ root, st.live now rootId = some root ∧ root.owner = owner ∧ root.expiresAt = expiresAt) ∨
      (st.live now rootId = none ∧ st.pending.get rootId = some ⟨owner, expiresAt⟩) := by
  rw [State.prior] at isPrior
  cases isLive : st.live now rootId with
  | some root =>
    rw [isLive] at isPrior
    cases isPrior
    exact Or.inl ⟨root, rfl, rfl, rfl⟩
  | none =>
    rw [isLive] at isPrior
    exact Or.inr ⟨rfl, isPrior⟩

theorem prior_of_live (isLive : st.live now rootId = some root) :
    st.prior now rootId = some ⟨root.owner, root.expiresAt⟩ := by
  rw [State.prior, isLive]

theorem prior_of_mem (isDistinct : (st.roots.map Root.id).Nodup) (isRoot : root ∈ st.roots)
    (isFresh : now < expiresAt) (isSame : root.id = rootId) (isOwner : root.owner = owner)
    (isExpiry : root.expiresAt = expiresAt) :
    st.prior now rootId = some ⟨owner, expiresAt⟩ := by
  subst isSame isOwner isExpiry
  exact prior_of_live (live_of isDistinct isRoot isFresh)

theorem prior_of_waiting {waiting : Waiting} (noLive : st.live now rootId = none)
    (isWaiting : st.pending.get rootId = some waiting) : st.prior now rootId = some waiting := by
  rw [State.prior, noLive]
  exact isWaiting

/-! ## What keeps it -/

def pushedOut (st : State) (now : Int) : List Id :=
  let waiting := (st.unexpired now).entries
  (waiting.take (waiting.length - (MAX_ROOTS - 1))).map (·.1)

/-- A step keeps the record of a root: no new root pushes it out, the clock neither reaches its end
nor brings an older record of the root back, and a start reads a file that has it. -/
def Stays (rootId : Id) (expiresAt : Int) (world : World) : Event → Prop
  | .begin owner other => isId owner = true → isId other = true →
      world.state.prior world.now other = none → rootId ∉ pushedOut world.state world.now
  | .advance .. => True
  | .clock later => later < expiresAt ∧ ∀ root ∈ world.state.roots, root.id = rootId →
      later < root.expiresAt → world.now < root.expiresAt
  | .restart readable _ => readable = true ∧ ∃ roots ∈ world.state.file,
      fileBytes roots ≤ MAX_FILE_BYTES ∧ ∃ root ∈ roots,
        world.state.live world.now rootId = some root

theorem await_live (other : Id) :
    (st.await now owner rootId).live now other = st.live now other := by
  rw [State.live, await_roots, State.live]

theorem await_keeps {other : Id} {waiting : Waiting} (isWaiting : st.pending.get rootId = some waiting)
    (isFresh : now < waiting.expiresAt) (isOther : rootId ≠ other)
    (isKept : rootId ∉ pushedOut st now) :
    (st.await now owner other).pending.get rootId = some waiting := by
  rw [State.await]
  dsimp only
  rw [OrderedMap.get_set, if_neg isOther]
  exact OrderedMap.get_drop_of
    (OrderedMap.get_filter_of isWaiting (decide_eq_true isFresh)) isKept

variable {world : World} (isPrior : world.state.prior world.now rootId = some ⟨owner, expiresAt⟩)
  (isFresh : world.now < expiresAt)

include isPrior isFresh

theorem begin_prior {other bot : Id} (stays : Stays rootId expiresAt world (.begin bot other)) :
    (world.next (.begin bot other)).state.prior world.now rootId = some ⟨owner, expiresAt⟩ := by
  rcases next_begin world bot other with
    ⟨_, _, isSame⟩ | ⟨isBot, isRoot, ⟨_, _, isDone⟩ | ⟨noPrior, isDone⟩⟩
  · rw [isSame]
    exact isPrior
  · rw [isDone]
    exact isPrior
  · rw [isDone]
    rcases prior_cases isPrior with ⟨root, isLive, rfl, rfl⟩ | ⟨noLive, isWaiting⟩
    · exact prior_of_live ((await_live rootId).trans isLive)
    · have isOther : rootId ≠ other := fun isSame => by
        rw [isSame, noPrior] at isPrior
        cases isPrior
      exact prior_of_waiting ((await_live rootId).trans noLive)
        (await_keeps isWaiting isFresh isOther (stays isBot isRoot noPrior))

theorem clock_prior (genuine : Genuine world) {later : Int}
    (stays : Stays rootId expiresAt world (.clock later)) :
    world.state.prior later rootId = some ⟨owner, expiresAt⟩ := by
  obtain ⟨isBefore, noneComesBack⟩ := stays
  rcases prior_cases isPrior with ⟨root, isLive, rfl, rfl⟩ | ⟨noLive, isWaiting⟩
  · obtain ⟨isRoot, rfl, _⟩ := live_spec isLive
    exact prior_of_mem genuine.distinct isRoot isBefore rfl rfl rfl
  · refine prior_of_waiting (live_none_of fun root isRoot isSame => ?_) isWaiting
    refine Int.not_lt.1 fun isLater => ?_
    have isExpired := live_none noLive root isRoot isSame
    exact absurd (noneComesBack root isRoot isSame isLater) (Int.not_lt.2 isExpired)

theorem restart_prior (stored : Stored world) {readable renamed : Bool}
    (stays : Stays rootId expiresAt world (.restart readable renamed)) :
    (start world.state.file readable renamed).prior world.now rootId
      = some ⟨owner, expiresAt⟩ := by
  obtain ⟨rfl, roots, isFile, isSmall, root, isRoot, isLive⟩ := stays
  obtain ⟨isValid, isDistinct⟩ := stored.saved roots isFile
  have isUsed : isLoaded roots = true := by
    rw [isLoaded, isValid, decide_eq_true isSmall, decide_eq_true isDistinct]
    rfl
  have isStarted : start world.state.file true renamed
      = { roots := roots, pending := ∅, file := world.state.file } := by
    rw [Option.mem_def.1 isFile, start, isUsed]
    rfl
  obtain ⟨_, isId, isUnexpired⟩ := live_spec isLive
  have isKept : (start world.state.file true renamed).live world.now rootId = some root := by
    rw [isStarted, ← isId]
    exact live_of isDistinct isRoot isUnexpired
  rw [prior_of_live isKept, ← isPrior, prior_of_live isLive]

theorem advance_prior (genuine : Genuine world) (trace : Option CoordinationTrace)
    (sender target : Id) (written : Bool) :
    (world.next (.advance trace sender target written)).state.prior world.now rootId
      = some ⟨owner, expiresAt⟩ := by
  rcases next_advance world trace sender target written with
    isSame | ⟨given, admission, rfl, isAdmitted, _, isDone⟩
  · rw [isSame]
    exact isPrior
  obtain ⟨isUnexpired, isIn, areOld, areKept⟩ := next_spec genuine isAdmitted
  have isDistinct := next_distinct genuine isAdmitted
  rw [isDone]
  rcases prior_cases isPrior with ⟨root, isLive, rfl, rfl⟩ | ⟨noLive, isWaiting⟩
  · obtain ⟨isRoot, rfl, _⟩ := live_spec isLive
    by_cases isSame : root.id = admission.root.id
    · have isRecord := same_record genuine isAdmitted isRoot isSame isFresh
      subst isRecord
      exact prior_of_mem isDistinct isIn isFresh rfl rfl rfl
    · exact prior_of_mem isDistinct (areKept root isRoot isSame isFresh) isFresh rfl rfl rfl
  · by_cases isSame : admission.root.id = rootId
    · cases (admit_ok isAdmitted).2.2.2.2 with
      | kept isLive =>
        obtain ⟨isRoot, _, isLater⟩ := live_spec isLive
        have isExpired := live_none noLive _ isRoot isSame
        exact absurd isLater (Int.not_lt.2 isExpired)
      | waiting _ isGiven =>
        -- the root that waited is the one that is promoted
        rw [show given.rootId = rootId from isSame, isWaiting] at isGiven
        cases isGiven
        exact prior_of_mem isDistinct isIn isFresh isSame rfl rfl
    · refine prior_of_waiting (live_none_of fun root isRoot isRootId => ?_) ?_
      · exact live_none noLive root
          (areOld root isRoot fun isRecord => isSame (isRecord.symm.trans isRootId)) isRootId
      · dsimp only
        split
        · have isGiven : admission.root.id = given.rootId := (admit_ok isAdmitted).2.2.1
          rw [OrderedMap.get_erase, if_neg fun isErased => isSame (isGiven.trans isErased.symm)]
          exact isWaiting
        · exact isWaiting

/-- **A step that keeps the record of a root leaves it as it was.** -/
theorem next_prior (genuine : Genuine world) (stored : Stored world) {event : Event}
    (stays : Stays rootId expiresAt world event) :
    (world.next event).state.prior (world.next event).now rootId = some ⟨owner, expiresAt⟩ ∧
      (world.next event).now < expiresAt := by
  cases event with
  | begin bot other => exact ⟨begin_prior isPrior isFresh stays, isFresh⟩
  | advance trace sender target written =>
    exact ⟨advance_prior isPrior isFresh genuine trace sender target written, isFresh⟩
  | clock later => exact ⟨clock_prior isPrior isFresh genuine stays, stays.1⟩
  | restart readable renamed => exact ⟨restart_prior isPrior isFresh stored stays, isFresh⟩

omit isPrior isFresh

/-! ## What it allows -/

/-- What the first advance of an owner answers: only a full table, the cap of the root or a failed
save stops it. -/
def Opens (world : World) (owner rootId : Id) : Prop :=
  ∀ target written, isId target = true → target ≠ owner →
    let answer := (world.state.advance world.now (some ⟨rootId, [owner]⟩) owner target written).2
    answer = .ok ⟨rootId, [owner, target]⟩ ∨
      (answer = .error .rootLimit ∧
        MAX_ROOTS ≤ (world.state.roots.filter fun root => world.now < root.expiresAt).length) ∨
      (answer = .error .exhausted ∧ handoffs world.log rootId = MAX_HANDOFFS_PER_ROOT) ∨
      (answer = .error .saveFailed ∧ written = false)

variable {target : Id}

theorem admits_first (isTarget : isId target = true) (isOther : target ≠ root.owner) :
    State.admits root ⟨rootId, [root.owner]⟩ root.owner target
      = if MAX_HANDOFFS_PER_ROOT ≤ root.paths.length then .error .exhausted else .ok () := by
  simp [State.admits, isTarget, isOther, MAX_COORDINATION_DEPTH]

theorem trace_valid (isRoot : isId rootId = true) (isOwner : isId owner = true) :
    (CoordinationTrace.mk rootId [owner]).isValid = true := by
  simp [CoordinationTrace.isValid, isRoot, isOwner]

theorem root_valid (isValid : root.isValid = true) (isTarget : isId target = true)
    (hasBudget : root.paths.length < MAX_HANDOFFS_PER_ROOT) :
    Root.isValid { root with paths := root.paths ++ [[root.owner, target]] } = true := by
  simp only [Root.isValid, Bool.and_eq_true, decide_eq_true_eq] at isValid
  obtain ⟨⟨⟨isRoot, isOwner⟩, _⟩, arePaths⟩ := isValid
  simp only [Root.isValid, Bool.and_eq_true, decide_eq_true_eq, List.all_append]
  refine ⟨⟨⟨isRoot, isOwner⟩, ?_⟩, arePaths, by simp [isOwner, isTarget]⟩
  rw [List.length_append, List.length_singleton]
  exact hasBudget

theorem advance_admitted (written : Bool) {next : List Root} {path : List Id} {promoting : Bool}
    (isValid : isState next = true)
    (isAdmitted : st.checkAdvance now ⟨rootId, [owner]⟩ owner target = .ok ⟨root, path, next, promoting⟩) :
    (st.advance now (some ⟨rootId, [owner]⟩) owner target written).2 =
      if written then .ok ⟨root.id, path⟩ else .error .saveFailed := by
  cases written with
  | false => simp [State.advance, isAdmitted, State.save, isValid]
  | true => simp [State.advance, isAdmitted, State.save, isValid]

theorem advance_refused {trace : CoordinationTrace} {sender : Id} {refusal : Refusal}
    (written : Bool) (isRefused : st.checkAdvance now trace sender target = .error refusal) :
    (st.advance now (some trace) sender target written).2 = .error refusal := by
  rw [State.advance, isRefused]

theorem admit_live (isLive : st.live now rootId = some root) (isRoot : isId rootId = true)
    (isOwner : isId root.owner = true) (isTarget : isId target = true)
    (isOther : target ≠ root.owner) :
    st.checkAdvance now ⟨rootId, [root.owner]⟩ root.owner target =
      if MAX_HANDOFFS_PER_ROOT ≤ root.paths.length then .error .exhausted
      else .ok ⟨root, [root.owner, target],
        State.addPath root.id [root.owner, target] st.roots, false⟩ := by
  rw [State.checkAdvance, trace_valid isRoot isOwner, if_neg (by decide)]
  dsimp only
  rw [isLive]
  dsimp only
  rw [admits_first isTarget isOther]
  by_cases isSpent : MAX_HANDOFFS_PER_ROOT ≤ root.paths.length
  · rw [if_pos isSpent, if_pos isSpent]
  · rw [if_neg isSpent, if_neg isSpent]
    rfl

theorem admit_waiting (noLive : st.live now rootId = none)
    (isWaiting : st.pending.get rootId = some ⟨owner, expiresAt⟩) (isFresh : now < expiresAt)
    (isRoot : isId rootId = true) (isOwner : isId owner = true) (isTarget : isId target = true)
    (isOther : target ≠ owner) :
    st.checkAdvance now ⟨rootId, [owner]⟩ owner target =
      if MAX_ROOTS ≤ (st.roots.filter fun root => now < root.expiresAt).length then
        .error .rootLimit
      else .ok ⟨⟨rootId, owner, expiresAt, []⟩, [owner, target],
        (st.roots.filter fun root => now < root.expiresAt) ++
          [⟨rootId, owner, expiresAt, [[owner, target]]⟩], true⟩ := by
  have isPromoted : st.promoted now ⟨rootId, [owner]⟩ = some ⟨rootId, owner, expiresAt, []⟩ := by
    rw [State.promoted, noLive, isWaiting]
    exact if_pos ⟨isFresh, rfl⟩
  have isAdmitted : State.admits ⟨rootId, owner, expiresAt, []⟩ ⟨rootId, [owner]⟩ owner target
      = .ok () := by
    rw [admits_first isTarget isOther]
    rfl
  rw [State.checkAdvance, trace_valid isRoot isOwner, if_neg (by decide)]
  dsimp only
  rw [noLive, isPromoted]
  dsimp only
  rw [isAdmitted]
  rfl

theorem addPath_valid {roots : List Root} (isValid : isState roots = true)
    (isDistinct : (roots.map Root.id).Nodup) (isRoot : root ∈ roots) (isTarget : isId target = true)
    (hasBudget : root.paths.length < MAX_HANDOFFS_PER_ROOT) :
    isState (State.addPath root.id [root.owner, target] roots) = true := by
  simp only [isState, Bool.and_eq_true, decide_eq_true_eq, List.all_eq_true] at isValid ⊢
  refine ⟨?_, fun added isAdded => ?_⟩
  · have sameLength := congrArg List.length (addPath_ids root.id [root.owner, target] roots)
    rw [List.length_map, List.length_map] at sameLength
    rw [sameLength]
    exact isValid.1
  · rcases mem_addPath isAdded with isOld | ⟨before, isBefore, isSame, rfl⟩
    · exact isValid.2 added isOld
    · rw [List.inj_on_of_nodup_map isDistinct isBefore isRoot isSame]
      exact root_valid (isValid.2 root isRoot) isTarget hasBudget

theorem promoted_valid {roots : List Root} (isValid : isState roots = true)
    (hasRoom : (roots.filter fun root => now < root.expiresAt).length < MAX_ROOTS) (expiresAt : Int)
    (isRoot : isId rootId = true) (isOwner : isId owner = true) (isTarget : isId target = true) :
    isState ((roots.filter fun root => now < root.expiresAt) ++
      [⟨rootId, owner, expiresAt, [[owner, target]]⟩]) = true := by
  have isPromoted : (Root.mk rootId owner expiresAt []).isValid = true := by
    simp [Root.isValid, isRoot, isOwner]
  simp only [isState, Bool.and_eq_true, decide_eq_true_eq, List.all_eq_true] at isValid ⊢
  refine ⟨?_, fun added isAdded => ?_⟩
  · rw [List.length_append, List.length_singleton]
    exact hasRoom
  · rcases List.mem_append.1 isAdded with isOld | isNew
    · exact isValid.2 added (List.mem_filter.1 isOld).1
    · rw [List.mem_singleton.1 isNew]
      exact root_valid isPromoted isTarget (Nat.succ_pos 31)

/-- **The owner of a root that is found can hand on.** -/
theorem prior_opens (genuine : Genuine world) (counted : Counted world) (stored : Stored world)
    (isPrior : world.state.prior world.now rootId = some ⟨owner, expiresAt⟩)
    (isFresh : world.now < expiresAt) : Opens world owner rootId := by
  intro target written isTarget isOther
  have isValid := stored.valid
  rcases prior_cases isPrior with ⟨root, isLive, rfl, rfl⟩ | ⟨noLive, isWaiting⟩
  · obtain ⟨isRoot, rfl, _⟩ := live_spec isLive
    have isRootValid : root.isValid = true := by
      rw [isState, Bool.and_eq_true, List.all_eq_true] at isValid
      exact isValid.2 root isRoot
    have areIds := isRootValid
    simp only [Root.isValid, Bool.and_eq_true, decide_eq_true_eq] at areIds
    have isAdmitted := admit_live isLive areIds.1.1.1 areIds.1.1.2 isTarget isOther
    by_cases isSpent : MAX_HANDOFFS_PER_ROOT ≤ root.paths.length
    · rw [if_pos isSpent] at isAdmitted
      refine Or.inr (Or.inr (Or.inl ⟨advance_refused written isAdmitted, ?_⟩))
      rw [counted.exact root isRoot]
      exact Nat.le_antisymm areIds.1.2 isSpent
    · rw [if_neg isSpent] at isAdmitted
      have isSaved := addPath_valid stored.valid genuine.distinct isRoot isTarget
        (Nat.lt_of_not_le isSpent)
      have isDone := advance_admitted written isSaved isAdmitted
      cases written with
      | true => exact Or.inl isDone
      | false => exact Or.inr (Or.inr (Or.inr ⟨isDone, rfl⟩))
  · obtain ⟨isRoot, isOwner⟩ := stored.named rootId _ isWaiting
    have isAdmitted := admit_waiting noLive isWaiting isFresh isRoot isOwner isTarget isOther
    by_cases isFull : MAX_ROOTS ≤
        (world.state.roots.filter fun root => world.now < root.expiresAt).length
    · rw [if_pos isFull] at isAdmitted
      exact Or.inr (Or.inl ⟨advance_refused written isAdmitted, isFull⟩)
    · rw [if_neg isFull] at isAdmitted
      have isSaved := promoted_valid stored.valid (Nat.lt_of_not_le isFull) expiresAt
        isRoot isOwner isTarget
      have isDone := advance_admitted written isSaved isAdmitted
      cases written with
      | true => exact Or.inl isDone
      | false => exact Or.inr (Or.inr (Or.inr ⟨isDone, rfl⟩))

theorem begin_found {trace : CoordinationTrace}
    (isBegun : (world.state.begin world.now owner rootId).2 = .ok trace) :
    trace = ⟨rootId, [owner]⟩ ∧ ∃ expiresAt,
      (world.next (.begin owner rootId)).state.prior world.now rootId = some ⟨owner, expiresAt⟩ ∧
      (world.state.prior world.now rootId = none → expiresAt = world.now + LIFETIME) := by
  rcases begin_cases world.state world.now owner rootId with
    ⟨refusal, isDone⟩ | ⟨_, _, ⟨expiresAt, isPrior, isDone⟩ | ⟨noPrior, isDone⟩⟩
  · rw [isDone] at isBegun
    cases isBegun
  · rw [isDone] at isBegun
    cases isBegun
    refine ⟨rfl, expiresAt, ?_, fun isNone => ?_⟩
    · rw [World.next, isDone]
      exact isPrior
    · rw [isPrior] at isNone
      cases isNone
  · rw [isDone] at isBegun
    cases isBegun
    refine ⟨rfl, world.now + LIFETIME, ?_, fun _ => rfl⟩
    rw [World.next, isDone]
    dsimp only
    have noLive : world.state.live world.now rootId = none := by
      rw [State.prior] at noPrior
      cases isLive : world.state.live world.now rootId with
      | none => rfl
      | some root =>
        rw [isLive] at noPrior
        cases noPrior
    refine prior_of_waiting ((await_live rootId).trans noLive) ?_
    rw [State.await]
    dsimp only
    rw [OrderedMap.get_set, if_pos rfl]

end Murage.CoordinationBudget

namespace Murage.CoordinationBudget

open Murage.Library
open Murage.Library.Transition (Run Restrict ofFunction)

structure Sound (world : World) : Prop where
  genuine : Genuine world
  counted : Counted world
  stored : Stored world

theorem start_sound (now : Int) : Sound (World.start now) :=
  ⟨start_genuine now, start_counted now, start_stored now⟩

theorem next_sound (sound : Sound world) (event : Event) :
    Sound (world.next event) :=
  ⟨next_genuine sound.genuine event, next_counted sound.genuine sound.counted event,
    next_stored sound.genuine sound.stored event⟩

theorem run_sound {now : Int} {labels : List Event}
    (run : Run (ofFunction World.next) (World.start now) labels world) : Sound world := by
  refine run.invariant (start_sound now) ?_
  rintro before event after sound rfl
  exact next_sound sound event

theorem run_opens {rootId owner : Id} {expiresAt : Int} {world later : World} {labels : List Event}
    (run : Run (Restrict (ofFunction World.next) (Stays rootId expiresAt)) world labels later)
    (sound : Sound world) (isPrior : world.state.prior world.now rootId = some ⟨owner, expiresAt⟩)
    (isFresh : world.now < expiresAt) : Opens later owner rootId := by
  have kept : Sound later ∧
      later.state.prior later.now rootId = some ⟨owner, expiresAt⟩ ∧ later.now < expiresAt := by
    induction run with
    | nil => exact ⟨sound, isPrior, isFresh⟩
    | @snoc _ before _ event _ step ih =>
      obtain ⟨isSound, isFound, isBefore⟩ := ih
      obtain ⟨rfl, stays⟩ := step
      exact ⟨next_sound isSound event,
        next_prior isFound isBefore isSound.genuine isSound.stored stays⟩
  exact prior_opens kept.1.genuine kept.1.counted kept.1.stored kept.2.1 kept.2.2

/-- **The allowance is neither exceeded nor forged, and it is there until it ends.** Over every run,
each trace that an advance returned was earned by what was returned before it, a record admitted at
most `MAX_HANDOFFS_PER_ROOT` advances, an advance that throws changes nothing, and the owner of a
trace that `begin` returns can hand on while the steps keep the record of the root. -/
theorem allowance_kept {now : Int} {labels : List Event} {world : World}
    (run : Run (ofFunction World.next) (World.start now) labels world) :
    (∀ before root path after, world.log = before ++ .advanced root path :: after →
        Earned before root path) ∧
      (∀ rootId, handoffs world.log rootId ≤ MAX_HANDOFFS_PER_ROOT) ∧
      (∀ trace sender target written refusal,
        (world.state.advance world.now trace sender target written).2 = .error refusal →
          (world.state.advance world.now trace sender target written).1 = world.state) ∧
      ∀ owner rootId trace, (world.state.begin world.now owner rootId).2 = .ok trace →
        trace = ⟨rootId, [owner]⟩ ∧ ∃ expiresAt,
          (world.next (.begin owner rootId)).state.prior world.now rootId
            = some ⟨owner, expiresAt⟩ ∧
          (world.state.prior world.now rootId = none → expiresAt = world.now + LIFETIME) ∧
          ∀ more later, world.now < expiresAt →
            Run (Restrict (ofFunction World.next) (Stays rootId expiresAt))
              (world.next (.begin owner rootId)) more later → Opens later owner rootId := by
  have sound := run_sound run
  refine ⟨sound.genuine.earned, sound.counted.most, ?_, ?_⟩
  · intro trace sender target written refusal isThrown
    rcases advance_cases world.state world.now trace sender target written with
      ⟨_, isDone, _⟩ | ⟨_, _, _, _, isDone, _⟩
    · rw [isDone]
    · rw [isDone] at isThrown
      cases isThrown
  · intro owner rootId trace isBegun
    obtain ⟨isTrace, expiresAt, isFound, isNew⟩ := begin_found isBegun
    refine ⟨isTrace, expiresAt, isFound, isNew, fun more later isFresh opening => ?_⟩
    exact run_opens opening (next_sound sound _) isFound isFresh

def sampleOwner : Id := [0x61]
def sampleTarget : Id := [0x62]
def sampleRoot : Id := [0x72]

def sampleAdvance : Event := .advance (some ⟨sampleRoot, [sampleOwner]⟩) sampleOwner sampleTarget true

/-- A root that is begun, handed on, and there after an hour and a restart. -/
theorem allowance_kept_example :
    Opens (([sampleAdvance, .clock 3600000, .restart true true]).foldl World.next
      ((World.start 0).next (.begin sampleOwner sampleRoot))) sampleOwner sampleRoot := by
  obtain ⟨_, expiresAt, isFound, isNew, opens⟩ :=
    (allowance_kept (Run.nil : Run (ofFunction World.next) (World.start 0) [] (World.start 0))).2.2.2
      sampleOwner sampleRoot ⟨sampleRoot, [sampleOwner]⟩ rfl
  cases isNew rfl
  refine opens [sampleAdvance, .clock 3600000, .restart true true] _ (by decide) ?_
  refine .snoc (.snoc (.snoc .nil ⟨rfl, trivial⟩) ⟨rfl, ?_⟩) ⟨rfl, rfl, ?_⟩
  · refine ⟨[⟨sampleRoot, sampleOwner, LIFETIME, [[sampleOwner, sampleTarget]]⟩], by decide, ?_, ?_⟩
    · decide
    · exact ⟨_, List.mem_singleton_self _, by decide⟩
  · exact ⟨by decide, by decide⟩

/-- A root that has not been handed on is lost at a restart, and an older record of a root hides it
once the clock is set back. -/
theorem opening_lost :
    (let world := ([.begin sampleOwner sampleRoot, .restart true true] : List Event).foldl
        World.next (World.start 0)
     Observed.began sampleRoot sampleOwner ∈ world.log ∧ world.now < LIFETIME ∧
       (world.state.advance world.now (some ⟨sampleRoot, [sampleOwner]⟩) sampleOwner sampleTarget
          true).2 = .error .unavailable) ∧
    (let world := ([.begin sampleOwner sampleRoot, sampleAdvance, .clock 90000000,
        .begin sampleTarget sampleRoot, .clock 82800000] : List Event).foldl
        World.next (World.start 0)
     Observed.began sampleRoot sampleTarget ∈ world.log ∧
       (world.state.pending.get sampleRoot).map Waiting.expiresAt = some 176400000 ∧
       (world.state.advance world.now (some ⟨sampleRoot, [sampleTarget]⟩) sampleTarget sampleOwner
          true).2 = .error .unavailable) := by
  decide

end Murage.CoordinationBudget
