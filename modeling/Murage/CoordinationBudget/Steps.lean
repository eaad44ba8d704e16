import Murage.CoordinationBudget.Model

/-!
Owns what one call does: what an advance has checked when it is admitted, that a call that throws
changes nothing, and what a begin leaves waiting.

Does not own: what holds over a run.
-/

namespace Murage.CoordinationBudget

open Murage.Library

variable {st : State} {now : Int} {trace : CoordinationTrace} {sender target : Id}

/-! ## What is checked -/

structure Admits (root : Root) (trace : CoordinationTrace) (sender target : Id) : Prop where
  owner : trace.path.head? = some root.owner
  sender : trace.path.getLast? = some sender
  known : 1 < trace.path.length → trace.path ∈ root.paths
  acyclic : target ∉ trace.path
  depth : trace.path.length ≤ MAX_COORDINATION_DEPTH
  budget : root.paths.length < MAX_HANDOFFS_PER_ROOT
  named : isId target = true

theorem admits_ok {root : Root} (isOk : State.admits root trace sender target = .ok ()) :
    Admits root trace sender target := by
  rw [State.admits] at isOk
  split at isOk
  · cases isOk
  rename_i isOwned
  split at isOk
  · cases isOk
  rename_i isKnown
  split at isOk
  · cases isOk
  rename_i isAcyclic
  split at isOk
  · cases isOk
  rename_i isShort
  split at isOk
  · cases isOk
  rename_i hasBudget
  split at isOk
  · cases isOk
  rename_i isNamed
  push Not at isOwned
  refine ⟨isOwned.1, isOwned.2, fun isLong => ?_, ?_, Nat.le_of_not_lt isShort,
    Nat.lt_of_not_le hasBudget, by simpa using isNamed⟩
  · simpa using fun isAbsent => isKnown ⟨isLong, isAbsent⟩
  · simpa using isAcyclic

/-- Where the advance of an admission comes from: a root that is kept, or one that waits. -/
inductive Source (st : State) (now : Int) (trace : CoordinationTrace) : State.Admission → Prop
  | kept {root : Root} {path : List Id} (isLive : st.live now trace.rootId = some root) :
      Source st now trace ⟨root, path, State.addPath root.id path st.roots, false⟩
  | waiting {owner : Id} {expiresAt : Int} {path : List Id}
      (noLive : st.live now trace.rootId = none)
      (isWaiting : st.pending.get trace.rootId = some ⟨owner, expiresAt⟩)
      (isFresh : now < expiresAt) (isFirst : trace.path = [owner])
      (hasRoom : (st.roots.filter fun item => now < item.expiresAt).length < MAX_ROOTS) :
      Source st now trace
        ⟨⟨trace.rootId, owner, expiresAt, []⟩, path,
          (st.roots.filter fun item => now < item.expiresAt) ++
            [⟨trace.rootId, owner, expiresAt, [path]⟩], true⟩

theorem live_spec {rootId : Id} {root : Root} (isLive : st.live now rootId = some root) :
    root ∈ st.roots ∧ root.id = rootId ∧ now < root.expiresAt := by
  have isFound := List.find?_some isLive
  simp only [Bool.and_eq_true, decide_eq_true_eq] at isFound
  exact ⟨List.mem_of_find?_eq_some isLive, isFound⟩

theorem live_none {rootId : Id} (noLive : st.live now rootId = none) :
    ∀ root ∈ st.roots, root.id = rootId → root.expiresAt ≤ now := by
  intro root isRoot isSame
  have notFound := List.find?_eq_none.1 noLive root isRoot
  simp only [Bool.and_eq_true, decide_eq_true_eq, not_and] at notFound
  exact Int.not_lt.1 (notFound isSame)

/-- **What an admitted advance has checked.** -/
theorem admit_ok {admission : State.Admission}
    (isAdmitted : st.checkAdvance now trace sender target = .ok admission) :
    trace.isValid = true ∧ admission.path = trace.path ++ [target] ∧
      admission.root.id = trace.rootId ∧ Admits admission.root trace sender target ∧
      Source st now trace admission := by
  rw [State.checkAdvance] at isAdmitted
  split at isAdmitted
  · cases isAdmitted
  rename_i isValid
  have isTrace : trace.isValid = true := by simpa using isValid
  dsimp only at isAdmitted
  cases isLive : st.live now trace.rootId with
  | some root =>
    rw [isLive] at isAdmitted
    dsimp only at isAdmitted
    cases isChecked : State.admits root trace sender target with
    | error refusal =>
      rw [isChecked] at isAdmitted
      cases isAdmitted
    | ok unit =>
      rw [isChecked] at isAdmitted
      cases isAdmitted
      exact ⟨isTrace, rfl, (live_spec isLive).2.1, admits_ok isChecked, .kept isLive⟩
  | none =>
    rw [isLive] at isAdmitted
    cases isWaiting : st.pending.get trace.rootId with
    | none =>
      rw [State.promoted, isLive, isWaiting] at isAdmitted
      cases isAdmitted
    | some waiting =>
      rw [State.promoted, isLive, isWaiting] at isAdmitted
      dsimp only at isAdmitted
      by_cases isPromoted : now < waiting.expiresAt ∧ trace.path = [waiting.owner]
      · rw [if_pos isPromoted] at isAdmitted
        dsimp only at isAdmitted
        split at isAdmitted
        · cases isAdmitted
        rename_i hasRoom
        cases isChecked : State.admits ⟨trace.rootId, waiting.owner, waiting.expiresAt, []⟩
            trace sender target with
        | error refusal =>
          rw [isChecked] at isAdmitted
          cases isAdmitted
        | ok unit =>
          rw [isChecked] at isAdmitted
          cases isAdmitted
          exact ⟨isTrace, rfl, rfl, admits_ok isChecked,
            .waiting isLive isWaiting isPromoted.1 isPromoted.2 (Nat.lt_of_not_le hasRoom)⟩
      · rw [if_neg isPromoted] at isAdmitted
        cases isAdmitted

/-! ## What a call changes -/

/-- An advance that is returned: it was admitted and saved. -/
structure Advanced (st : State) (now : Int) (trace : CoordinationTrace) (sender target : Id)
    (after : State) (admission : State.Admission) : Prop where
  admitted : st.checkAdvance now trace sender target = .ok admission
  valid : isState admission.next = true
  after : after = { st with
    roots := admission.next
    file := some admission.next
    pending := if admission.promoting then st.pending.erase trace.rootId else st.pending }

/-- **A call of `advance` throws and changes nothing, or it was admitted and saved.** -/
theorem advance_cases (st : State) (now : Int) (trace : Option CoordinationTrace)
    (sender target : Id) (written : Bool) :
    (∃ refusal, st.advance now trace sender target written = (st, .error refusal) ∧
        advanceSeen st now trace sender target written = []) ∨
      ∃ given admission, trace = some given ∧
        Advanced st now given sender target (st.advance now trace sender target written).1
          admission ∧
        (st.advance now trace sender target written).2
          = .ok ⟨admission.root.id, admission.path⟩ ∧
        advanceSeen st now trace sender target written
          = [.advanced admission.root admission.path] := by
  cases trace with
  | none => exact Or.inl ⟨.unavailable, rfl, rfl⟩
  | some given =>
    cases isAdmitted : st.checkAdvance now given sender target with
    | error refusal =>
      have isRefused : st.advance now (some given) sender target written
          = (st, .error refusal) := by rw [State.advance, isAdmitted]
      exact Or.inl ⟨refusal, isRefused, by
        unfold advanceSeen
        rw [isRefused]⟩
    | ok admission =>
      by_cases isValid : isState admission.next = true
      · cases written with
        | false =>
          have isRefused : st.advance now (some given) sender target false
              = (st, .error .saveFailed) := by
            simp [State.advance, isAdmitted, State.save, isValid]
          exact Or.inl ⟨.saveFailed, isRefused, by
        unfold advanceSeen
        rw [isRefused]⟩
        | true =>
          have isDone : st.advance now (some given) sender target true
              = ({ st with
                  roots := admission.next
                  file := some admission.next
                  pending := if admission.promoting then st.pending.erase given.rootId
                    else st.pending }, .ok ⟨admission.root.id, admission.path⟩) := by
            simp [State.advance, isAdmitted, State.save, isValid]
          refine Or.inr ⟨given, admission, rfl, ⟨isAdmitted, isValid, ?_⟩, ?_, ?_⟩
          · rw [isDone]
          · rw [isDone]
          · unfold advanceSeen
            rw [isDone]
            dsimp only
            rw [isAdmitted]
      · have isRefused : st.advance now (some given) sender target written
            = (st, .error .invalid) := by
          simp [State.advance, isAdmitted, State.save, isValid]
        exact Or.inl ⟨.invalid, isRefused, by
        unfold advanceSeen
        rw [isRefused]⟩

theorem begin_cases (st : State) (now : Int) (owner rootId : Id) :
    (∃ refusal, st.begin now owner rootId = (st, .error refusal)) ∨
      (isId owner = true ∧ isId rootId = true ∧
        ((∃ expiresAt, st.prior now rootId = some ⟨owner, expiresAt⟩ ∧
            st.begin now owner rootId = (st, .ok ⟨rootId, [owner]⟩)) ∨
          (st.prior now rootId = none ∧
            st.begin now owner rootId
              = (st.await now owner rootId, .ok ⟨rootId, [owner]⟩)))) := by
  by_cases isInvalid : isId owner = false ∨ isId rootId = false
  · exact Or.inl ⟨.invalid, by rw [State.begin, if_pos isInvalid]⟩
  · have areIds : isId owner = true ∧ isId rootId = true := by simpa using isInvalid
    cases isPrior : st.prior now rootId with
    | none =>
      refine Or.inr ⟨areIds.1, areIds.2, Or.inr ⟨rfl, ?_⟩⟩
      rw [State.begin, if_neg isInvalid, isPrior]
    | some prior =>
      by_cases isOwner : prior.owner = owner
      · refine Or.inr ⟨areIds.1, areIds.2, Or.inl ⟨prior.expiresAt, ?_, ?_⟩⟩
        · rw [← isOwner]
        · rw [State.begin, if_neg isInvalid, isPrior]
          exact if_neg fun isOther => isOther isOwner
      · refine Or.inl ⟨.ownerMismatch, ?_⟩
        rw [State.begin, if_neg isInvalid, isPrior]
        exact if_pos isOwner

theorem await_roots (st : State) (now : Int) (owner rootId : Id) :
    (st.await now owner rootId).roots = st.roots := by rw [State.await]

theorem await_file (st : State) (now : Int) (owner rootId : Id) :
    (st.await now owner rootId).file = st.file := by rw [State.await]

theorem await_pending {owner rootId other : Id} {waiting : Waiting}
    (isWaiting : (st.await now owner rootId).pending.get other = some waiting) :
    (other = rootId ∧ waiting = ⟨owner, now + LIFETIME⟩) ∨ st.pending.get other = some waiting := by
  rw [State.await] at isWaiting
  dsimp only at isWaiting
  rw [OrderedMap.get_set] at isWaiting
  split at isWaiting
  · rename_i isSame
    exact Or.inl ⟨isSame, (Option.some.inj isWaiting).symm⟩
  · exact Or.inr (OrderedMap.get_of_filter (OrderedMap.get_of_drop isWaiting))

theorem next_begin (world : World) (owner rootId : Id) :
    (∃ refusal, (world.state.begin world.now owner rootId).2 = .error refusal ∧
        world.next (.begin owner rootId) = world) ∨
      (isId owner = true ∧ isId rootId = true ∧
        ((∃ expiresAt, world.state.prior world.now rootId = some ⟨owner, expiresAt⟩ ∧
            world.next (.begin owner rootId)
              = { world with log := world.log ++ [.began rootId owner] }) ∨
          (world.state.prior world.now rootId = none ∧
            world.next (.begin owner rootId) = { world with
              state := world.state.await world.now owner rootId
              log := world.log ++ [.began rootId owner] }))) := by
  rcases begin_cases world.state world.now owner rootId with
    ⟨refusal, isDone⟩ | ⟨isOwner, isRoot, ⟨expiresAt, isPrior, isDone⟩ | ⟨isPrior, isDone⟩⟩
  · refine Or.inl ⟨refusal, by rw [isDone], ?_⟩
    rw [World.next, isDone]
    exact congrArg (World.mk world.state world.now) (List.append_nil _)
  · refine Or.inr ⟨isOwner, isRoot, Or.inl ⟨expiresAt, isPrior, ?_⟩⟩
    rw [World.next, isDone]
  · refine Or.inr ⟨isOwner, isRoot, Or.inr ⟨isPrior, ?_⟩⟩
    rw [World.next, isDone]

theorem next_advance (world : World) (trace : Option CoordinationTrace) (sender target : Id)
    (written : Bool) :
    world.next (.advance trace sender target written) = world ∨
      ∃ given admission, trace = some given ∧
        world.state.checkAdvance world.now given sender target = .ok admission ∧
        isState admission.next = true ∧
        world.next (.advance trace sender target written) = { world with
          state := { world.state with
            roots := admission.next
            file := some admission.next
            pending := if admission.promoting then world.state.pending.erase given.rootId
              else world.state.pending }
          log := world.log ++ [.advanced admission.root admission.path] } := by
  rcases advance_cases world.state world.now trace sender target written with
    ⟨refusal, isDone, isSeen⟩ | ⟨given, admission, rfl, isAdvanced, _, isSeen⟩
  · refine Or.inl ?_
    rw [World.next, isDone, isSeen, List.append_nil]
  · refine Or.inr ⟨given, admission, rfl, isAdvanced.admitted, isAdvanced.valid, ?_⟩
    rw [World.next, isSeen, isAdvanced.after]

end Murage.CoordinationBudget
