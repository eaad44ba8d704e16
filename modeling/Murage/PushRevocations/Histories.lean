import Mathlib.Data.List.Basic
import Murage.PushRevocations.Model

/-!
Owns what is said of a log: that a removal was reported, that a send was answered before the next,
that a second attempt of one run follows a success that an add overtook; and how each of it is kept
when something more is observed.

Does not own: the queue.
-/

namespace Murage.PushRevocations

theorem snoc_split {α : Type} {log before after : List α} {seen entry : α}
    (isSplit : log ++ [seen] = before ++ entry :: after) :
    (after = [] ∧ entry = seen ∧ log = before) ∨
      ∃ earlier, after = earlier ++ [seen] ∧ log = before ++ entry :: earlier := by
  rcases List.eq_nil_or_concat' after with rfl | ⟨earlier, last, rfl⟩
  · obtain ⟨isLog, isEntry⟩ := List.append_inj' isSplit rfl
    exact Or.inl ⟨rfl, (List.singleton_inj.1 isEntry).symm, isLog⟩
  · rw [← List.cons_append, ← List.append_assoc] at isSplit
    obtain ⟨isLog, isLast⟩ := List.append_inj' isSplit rfl
    exact Or.inr ⟨earlier, by rw [List.singleton_inj.1 isLast], isLog⟩

theorem last_place {α : Type} {before before' after after' : List α} {entry : α}
    (isSame : before ++ entry :: after = before' ++ entry :: after')
    (isLast : entry ∉ after) (isLast' : entry ∉ after') : after = after' := by
  rcases List.append_eq_append_iff.1 isSame with ⟨between, _, isRest⟩ | ⟨between, _, isRest⟩
  · cases between with
    | nil => exact (List.cons.inj isRest).2
    | cons first others =>
      rw [List.cons_append] at isRest
      refine absurd ?_ isLast
      rw [(List.cons.inj isRest).2]
      exact List.mem_append_right _ List.mem_cons_self
  · cases between with
    | nil => exact (List.cons.inj isRest).2.symm
    | cons first others =>
      rw [List.cons_append] at isRest
      refine absurd ?_ isLast'
      rw [(List.cons.inj isRest).2]
      exact List.mem_append_right _ List.mem_cons_self

/-! ## What is said of a log -/

def OnlyAdds (log : List Observed) : Prop := ∀ seen ∈ log, ∃ id, seen = .added id

/-- After the last add of `id`, a send of it began and answered true. -/
def Cleared (id : Id) (log : List Observed) : Prop :=
  ∃ before during after,
    log = before ++ .began id :: (during ++ .returned id true :: after) ∧
      OnlyAdds during ∧ .added id ∉ during ∧ .added id ∉ after

/-- The send of `id` that began before this was answered, or the process ended. -/
def Answered (id : Id) (log : List Observed) : Prop :=
  ∃ during answer after, log = during ++ answer :: after ∧ OnlyAdds during ∧
    (answer = .restarted ∨ ∃ sent, answer = .returned id sent)

/-- The send of `id` that began before this succeeded, and `id` was added during it. -/
def Overtaken (id : Id) (log : List Observed) : Prop :=
  ∃ during after, log = during ++ .returned id true :: after ∧ OnlyAdds during ∧
    .added id ∈ during

def SameRun (log : List Observed) : Prop := .runBegan ∉ log ∧ .restarted ∉ log

variable {seen : Observed} {log : List Observed} {id : Id}

theorem Cleared.snoc (isCleared : Cleared id log) (isOther : seen ≠ .added id) :
    Cleared id (log ++ [seen]) := by
  obtain ⟨before, during, after, rfl, onlyAdds, notDuring, notAfter⟩ := isCleared
  refine ⟨before, during, after ++ [seen], by simp, onlyAdds, notDuring, ?_⟩
  rw [List.mem_append, List.mem_singleton]
  exact not_or.2 ⟨notAfter, Ne.symm isOther⟩

theorem Answered.snoc (isAnswered : Answered id log) :
    Answered id (log ++ [seen]) := by
  obtain ⟨during, answer, after, rfl, onlyAdds, isAnswer⟩ := isAnswered
  exact ⟨during, answer, after ++ [seen], by simp, onlyAdds, isAnswer⟩

theorem Overtaken.snoc (isOvertaken : Overtaken id log) :
    Overtaken id (log ++ [seen]) := by
  obtain ⟨during, after, rfl, onlyAdds, isAdded⟩ := isOvertaken
  exact ⟨during, after ++ [seen], by simp, onlyAdds, isAdded⟩

theorem OnlyAdds.snoc :
    OnlyAdds (log ++ [seen]) ↔ OnlyAdds log ∧ ∃ id, seen = .added id := by
  constructor
  · intro onlyAdds
    exact ⟨fun other isOther => onlyAdds other (List.mem_append_left _ isOther),
      onlyAdds seen (List.mem_append_right _ (List.mem_singleton_self _))⟩
  · rintro ⟨onlyAdds, isAdd⟩ other isOther
    rcases List.mem_append.1 isOther with isBefore | isNow
    · exact onlyAdds other isBefore
    · exact List.mem_singleton.1 isNow ▸ isAdd

theorem OnlyAdds.not_began (onlyAdds : OnlyAdds log) (id : Id) :
    .began id ∉ log := fun isBegan => by
  obtain ⟨_, isAdd⟩ := onlyAdds _ isBegan
  cases isAdd

/-! ## Removals that are owed -/

/-- Every id that was added is queued or its removal was reported since. -/
def Owed (ids : List Id) (log : List Observed) : Prop :=
  ∀ id, .added id ∈ log → id ∈ ids ∨ Cleared id log

variable {ids : List Id}

theorem Owed.snoc (isOwed : Owed ids log) (isOther : ∀ id, seen ≠ .added id) :
    Owed ids (log ++ [seen]) := by
  intro id isAdded
  rcases List.mem_append.1 isAdded with isBefore | isNow
  · exact (isOwed id isBefore).imp_right fun isCleared => isCleared.snoc (isOther id)
  · exact absurd (List.mem_singleton.1 isNow).symm (isOther id)

theorem Owed.added {queued : List Id} (isOwed : Owed ids log)
    (isKept : ∀ other ∈ ids, other ∈ queued) (isQueued : id ∈ queued) :
    Owed queued (log ++ [.added id]) := by
  intro other isAdded
  by_cases isSame : other = id
  · exact Or.inl (isSame ▸ isQueued)
  rcases List.mem_append.1 isAdded with isBefore | isNow
  · refine (isOwed other isBefore).imp (isKept other) fun isCleared => isCleared.snoc ?_
    intro isAdd
    exact isSame (Observed.added.inj isAdd).symm
  · exact absurd (Observed.added.inj (List.mem_singleton.1 isNow)) isSame

theorem Owed.cleared {before during : List Observed}
    (isOwed : Owed ids (before ++ .began id :: during)) (onlyAdds : OnlyAdds during)
    (notAdded : .added id ∉ during) :
    Owed (ids.filter (· ≠ id)) (before ++ .began id :: during ++ [.returned id true]) := by
  intro other isAdded
  by_cases isSame : other = id
  · subst isSame
    exact Or.inr ⟨before, during, [], by simp, onlyAdds, notAdded, List.not_mem_nil⟩
  refine ((isOwed.snoc fun _ isSame => by cases isSame) other isAdded).imp_left fun isQueued => ?_
  exact List.mem_filter.2 ⟨isQueued, decide_eq_true isSame⟩

/-! ## The send on the wire -/

/-- The send that has begun last is on the wire while nothing but adds followed it, and every
earlier one was answered. -/
structure Wire (inFlight : Option Id) (addedDuringSend : Bool) (log : List Observed) : Prop where
  sending : ∀ id ∈ inFlight, ∃ before during, log = before ++ .began id :: during ∧
    OnlyAdds during ∧ (addedDuringSend = true ↔ .added id ∈ during)
  waits : ∀ before id during, log = before ++ .began id :: during → OnlyAdds during →
    inFlight = some id
  answered : ∀ before id during, log = before ++ .began id :: during →
    OnlyAdds during ∨ Answered id during

variable {inFlight : Option Id} {addedDuringSend : Bool} {log : List Observed}

theorem Wire.added (wire : Wire inFlight addedDuringSend log) (id : Id) :
    Wire inFlight (addedDuringSend || inFlight == some id) (log ++ [.added id]) where
  sending other isInFlight := by
    obtain ⟨before, during, isLog, onlyAdds, isAdded⟩ := wire.sending other isInFlight
    refine ⟨before, during ++ [.added id], by rw [isLog]; simp,
      OnlyAdds.snoc.2 ⟨onlyAdds, id, rfl⟩, ?_⟩
    rw [Bool.or_eq_true, isAdded, List.mem_append, List.mem_singleton, beq_iff_eq,
      Option.mem_def.1 isInFlight, Option.some.injEq, Observed.added.injEq]
  waits before other during isLog onlyAdds := by
    rcases snoc_split isLog with ⟨_, isEntry, _⟩ | ⟨earlier, rfl, isBefore⟩
    · cases isEntry
    · exact wire.waits before other earlier isBefore (OnlyAdds.snoc.1 onlyAdds).1
  answered before other during isLog := by
    rcases snoc_split isLog with ⟨_, isEntry, _⟩ | ⟨earlier, rfl, isBefore⟩
    · cases isEntry
    · exact (wire.answered before other earlier isBefore).imp
        (fun onlyAdds => OnlyAdds.snoc.2 ⟨onlyAdds, id, rfl⟩) Answered.snoc

theorem Wire.began (wire : Wire none addedDuringSend log) (id : Id) :
    Wire (some id) false (log ++ [.began id]) where
  sending other isInFlight := by
    cases isInFlight
    exact ⟨log, [], rfl, nofun, by simp⟩
  waits before other during isLog onlyAdds := by
    rcases snoc_split isLog with ⟨_, isEntry, _⟩ | ⟨earlier, rfl, isBefore⟩
    · cases isEntry
      rfl
    · obtain ⟨_, isAdd⟩ := (OnlyAdds.snoc.1 onlyAdds).2
      cases isAdd
  answered before other during isLog := by
    rcases snoc_split isLog with ⟨rfl, _, _⟩ | ⟨earlier, rfl, isBefore⟩
    · exact Or.inl nofun
    · rcases wire.answered before other earlier isBefore with onlyAdds | isAnswered
      · exact nomatch wire.waits before other earlier isBefore onlyAdds
      · exact Or.inr isAnswered.snoc

theorem Wire.ended (wire : Wire inFlight addedDuringSend log)
    (isEnd : ∀ id ∈ inFlight, seen = .restarted ∨ ∃ sent, seen = .returned id sent)
    (isPlain : ∀ id, seen ≠ .began id ∧ seen ≠ .added id) (later : Bool) :
    Wire none later (log ++ [seen]) where
  sending := nofun
  waits before other during isLog onlyAdds := by
    rcases snoc_split isLog with ⟨_, isEntry, _⟩ | ⟨earlier, rfl, _⟩
    · exact absurd isEntry.symm (isPlain other).1
    · obtain ⟨id, isAdd⟩ := (OnlyAdds.snoc.1 onlyAdds).2
      exact absurd isAdd (isPlain id).2
  answered before other during isLog := by
    rcases snoc_split isLog with ⟨_, isEntry, _⟩ | ⟨earlier, rfl, isBefore⟩
    · exact absurd isEntry.symm (isPlain other).1
    · rcases wire.answered before other earlier isBefore with onlyAdds | isAnswered
      · refine Or.inr ⟨earlier, seen, [], rfl, onlyAdds, ?_⟩
        exact isEnd other (wire.waits before other earlier isBefore onlyAdds)
      · exact Or.inr isAnswered.snoc

/-! ## Attempts of one run -/

/-- In the run that goes on, an id that was attempted counts as tried or an add overtook its success;
in every run, a second attempt follows such a success. -/
structure Tries (tried : Option (List Id)) (log : List Observed) : Prop where
  tried : ∀ ids ∈ tried, ∀ before id after, log = before ++ .began id :: after → SameRun after →
    .began id ∉ after → id ∈ ids ∨ Overtaken id after
  retried : ∀ before id between after,
    log = before ++ .began id :: (between ++ .began id :: after) → SameRun between →
      .began id ∉ between → Overtaken id between

theorem Tries.retried_snoc {tried : Option (List Id)} (tries : Tries tried log)
    (isPlain : ∀ id, seen ≠ .began id) (before : List Observed) (id : Id)
    (between after : List Observed)
    (isLog : log ++ [seen] = before ++ .began id :: (between ++ .began id :: after))
    (isRun : SameRun between) (isNext : .began id ∉ between) : Overtaken id between := by
  have isSplit : log ++ [seen] = (before ++ .began id :: between) ++ .began id :: after := by
    rw [isLog, List.append_assoc, List.cons_append]
  rcases snoc_split isSplit with ⟨_, isEntry, _⟩ | ⟨earlier, rfl, isEarlier⟩
  · exact absurd isEntry.symm (isPlain id)
  · refine tries.retried before id between earlier ?_ isRun isNext
    rw [isEarlier, List.append_assoc, List.cons_append]

theorem Tries.snoc {tried : Option (List Id)} (tries : Tries tried log)
    (isPlain : ∀ id, seen ≠ .began id) : Tries tried (log ++ [seen]) where
  tried ids isTried before id after isLog isRun isLast := by
    rcases snoc_split isLog with ⟨_, isEntry, _⟩ | ⟨earlier, rfl, isBefore⟩
    · exact absurd isEntry.symm (isPlain id)
    · refine (tries.tried ids isTried before id earlier isBefore ⟨?_, ?_⟩ ?_).imp_right Overtaken.snoc
      · exact fun isIn => isRun.1 (List.mem_append_left _ isIn)
      · exact fun isIn => isRun.2 (List.mem_append_left _ isIn)
      · exact fun isIn => isLast (List.mem_append_left _ isIn)
  retried := tries.retried_snoc isPlain

theorem Tries.began (tries : Tries (some ids) log) (isUntried : id ∉ ids) :
    Tries (some (ids ++ [id])) (log ++ [.began id]) where
  tried others areTried before other after isLog isRun isLast := by
    cases areTried
    rcases snoc_split isLog with ⟨_, isEntry, _⟩ | ⟨earlier, rfl, isBefore⟩
    · cases isEntry
      exact Or.inl (List.mem_append_right _ (List.mem_singleton_self _))
    · refine (tries.tried ids rfl before other earlier isBefore ⟨?_, ?_⟩ ?_).imp
        (List.mem_append_left _) Overtaken.snoc
      · exact fun isIn => isRun.1 (List.mem_append_left _ isIn)
      · exact fun isIn => isRun.2 (List.mem_append_left _ isIn)
      · exact fun isIn => isLast (List.mem_append_left _ isIn)
  retried before other between after isLog isRun isNext := by
    have isSplit : log ++ [.began id] = (before ++ .began other :: between) ++ .began other :: after :=
      by rw [isLog, List.append_assoc, List.cons_append]
    rcases snoc_split isSplit with ⟨_, isEntry, isEarlier⟩ | ⟨earlier, rfl, isEarlier⟩
    · cases isEntry
      exact (tries.tried ids rfl before id between isEarlier isRun isNext).resolve_left isUntried
    · refine tries.retried before other between earlier ?_ isRun isNext
      rw [isEarlier, List.append_assoc, List.cons_append]

theorem Tries.fresh {tried : Option (List Id)} (tries : Tries tried log)
    (isStart : seen = .runBegan ∨ seen = .restarted) (anew : Option (List Id)) :
    Tries anew (log ++ [seen]) where
  tried ids _ before id after isLog isRun isLast := by
    rcases snoc_split isLog with ⟨_, isEntry, _⟩ | ⟨earlier, rfl, _⟩
    · rcases isStart with rfl | rfl <;> cases isEntry
    · have isIn : seen ∈ earlier ++ [seen] :=
        List.mem_append_right _ (List.mem_singleton_self _)
      rcases isStart with rfl | rfl
      · exact absurd isIn isRun.1
      · exact absurd isIn isRun.2
  retried := tries.retried_snoc (by rcases isStart with rfl | rfl <;> exact fun _ isSame => by cases isSame)

theorem Tries.overtaken {before during : List Observed}
    (tries : Tries (some ids) (before ++ .began id :: during)) (onlyAdds : OnlyAdds during)
    (isAdded : .added id ∈ during) :
    Tries (some (ids.filter (· ≠ id))) (before ++ .began id :: during ++ [.returned id true]) where
  tried others areTried place other after isLog isRun isLast := by
    cases areTried
    by_cases isSame : other = id
    · subst isSame
      have isAfter : during ++ [.returned other true] = after := by
        have isSame : before ++ .began other :: (during ++ [.returned other true])
            = place ++ .began other :: after := by
          rw [← isLog, List.append_assoc, List.cons_append]
        refine last_place isSame ?_ isLast
        rw [List.mem_append, List.mem_singleton]
        exact not_or.2 ⟨onlyAdds.not_began other, nofun⟩
      exact Or.inr ⟨during, [], isAfter.symm, onlyAdds, isAdded⟩
    · refine ((tries.snoc fun _ isSame => by cases isSame).tried ids rfl place other after isLog isRun isLast).imp_left
        fun isTried => List.mem_filter.2 ⟨isTried, decide_eq_true isSame⟩
  retried := (tries.snoc fun _ isSame => by cases isSame).retried

end Murage.PushRevocations
