import Mathlib.Data.List.Infix
import Mathlib.Data.List.Nodup
import Murage.TxScope.Model

/-!
Owns what a run registers, with the ends of the frames around each registration, what is seen of the
run, and that the frames do just this; and the law of the hooks: which registrations run, how
often, when, and in which order.
-/

namespace Murage.TxScope

inductive Kind where
  | effect
  | undo
deriving DecidableEq, Repr

/-- One call of `afterCommit` or `onRollback`, with the ends of the frames open at that call, the
innermost first: whether each commits. -/
structure Registration where
  kind : Kind
  hook : HookId
  outcomes : List Bool
deriving DecidableEq, Repr

def Registration.within (committed : Bool) (entry : Registration) : Registration :=
  { entry with outcomes := entry.outcomes ++ [committed] }

/-- Every frame that encloses the registration commits. -/
def Registration.survives (entry : Registration) : Bool := entry.outcomes.all id

/-- The hooks of one kind that are still wanted when the frames inside have ended, in the order they
were registered. -/
def survivors (kind : Kind) (entries : List Registration) : List HookId :=
  (entries.filter fun entry => entry.kind = kind && entry.survives).map (·.hook)

/-- What the end of a frame calls, given what was registered inside and whether another frame is
still open: nothing if it hands its hooks to its parent. -/
def ended (isInner committed : Bool) (entries : List Registration) : List HookId :=
  if committed then (if isInner then [] else survivors .effect entries)
  else (survivors .undo entries).reverse

variable {α ε : Type}

mutual
/-- Every registration of a run, in the order they are made; `isInner` says that the run happens
inside a frame. -/
def registered (isInner : Bool) : Calls α ε → List Registration
  | .done => []
  | .effect hook _ now rest =>
    ⟨.effect, hook, []⟩ ::
      ((if isInner then [] else registered false now) ++ registered isInner rest)
  | .undo hook rest => ⟨.undo, hook, []⟩ :: registered isInner rest
  | .frame bracket body runs rest =>
    (registered true body).map (·.within bracket.committed) ++
      (registeredBy isInner runs (ended isInner bracket.committed (registered true body)) ++
        registered isInner rest)

def registeredBy (isInner : Bool) : Runs α ε → List HookId → List Registration
  | .none, _ => []
  | .more _ _ _, [] => []
  | .more _ calls rest, _ :: hooks => registered isInner calls ++ registeredBy isInner rest hooks
end

mutual
def seen (isInner : Bool) : Calls α ε → List Entry
  | .done => []
  | .effect hook _ now rest =>
    (if isInner then [] else .ran hook :: seen false now) ++ seen isInner rest
  | .undo _ rest => seen isInner rest
  | .frame bracket body runs rest =>
    .opened :: (seen true body ++ .closed bracket.committed ::
      (seenOf isInner bracket.committed runs
        (ended isInner bracket.committed (registered true body)) ++ seen isInner rest))

/-- What is seen of a loop: each hook called, what it does, and its failure where that is
reported. -/
def seenOf (isInner isReported : Bool) : Runs α ε → List HookId → List Entry
  | .none, hooks => hooks.map .ran
  | .more _ _ _, [] => []
  | .more threw calls rest, hook :: hooks =>
    .ran hook :: (seen isInner calls ++
      ((if threw && isReported then [.reported hook] else []) ++
        seenOf isInner isReported rest hooks))
end

theorem survivors_append (kind : Kind) (left right : List Registration) :
    survivors kind (left ++ right) = survivors kind left ++ survivors kind right := by
  rw [survivors, List.filter_append, List.map_append]
  rfl

theorem survivors_within_commit (kind : Kind) (entries : List Registration) :
    survivors kind (entries.map (·.within true)) = survivors kind entries := by
  rw [survivors, List.filter_map, List.map_map, survivors]
  congr 1
  apply List.filter_congr
  intro entry _
  simp [Registration.within, Registration.survives]

theorem survivors_within_rollback (kind : Kind) (entries : List Registration) :
    survivors kind (entries.map (·.within false)) = [] := by
  rw [survivors, List.filter_map]
  have isNone : (entries.filter ((fun entry : Registration =>
      decide (entry.kind = kind) && entry.survives) ∘ fun entry => entry.within false)) = [] := by
    apply List.filter_eq_nil_iff.mpr
    intro entry _
    simp [Registration.within, Registration.survives]
  rw [isNone]
  rfl

/-- The open frames after these registrations: what survives goes to the innermost. -/
def keep (entries : List Registration) : List Frame → List Frame
  | [] => []
  | top :: outer =>
    ⟨top.commit ++ survivors .effect entries, top.rollback ++ survivors .undo entries⟩ :: outer

@[simp] theorem keep_nil (frames : List Frame) : keep [] frames = frames := by
  cases frames with
  | nil => rfl
  | cons top outer => simp [keep, survivors]

theorem keep_append (left right : List Registration) (frames : List Frame) :
    keep (left ++ right) frames = keep right (keep left frames) := by
  cases frames with
  | nil => rfl
  | cons top outer => simp [keep, survivors_append]

@[simp] theorem keep_isEmpty (entries : List Registration) (frames : List Frame) :
    (keep entries frames).isEmpty = frames.isEmpty := by
  cases frames <;> rfl

theorem foldl_ran (hooks : List HookId) (state : State) :
    hooks.foldl (fun before hook => before.note (.ran hook)) state =
      ⟨state.frames, state.log ++ hooks.map .ran⟩ := by
  induction hooks generalizing state with
  | nil => simp
  | cons hook hooks ih =>
    rw [List.foldl_cons, ih]
    simp [State.note]

theorem loopOf_nil (isReported : Bool) (runs : Runs α ε) (state : State) :
    loopOf runs isReported [] state = state := by
  cases runs <;> rfl

theorem txScopeEnd_keep (loop : Loop) (committed : Bool) (entries : List Registration)
    (frames : List Frame) (log : List Entry)
    (isEmptyLoop : ∀ isReported state, loop isReported [] state = state) :
    txScopeEnd loop committed ⟨keep entries (⟨[], []⟩ :: frames), log⟩ =
      loop committed (ended (!frames.isEmpty) committed entries)
        ⟨keep (entries.map (·.within committed)) frames, log ++ [.closed committed]⟩ := by
  cases committed with
  | false =>
    have isKept : keep (entries.map (·.within false)) frames = frames := by
      cases frames with
      | nil => rfl
      | cons top outer => simp [keep, survivors_within_rollback]
    rw [isKept]
    simp [txScopeEnd, keep, ended]
  | true =>
    cases frames with
    | nil => simp [txScopeEnd, keep, ended]
    | cons parent rest =>
      simp [txScopeEnd, keep, ended, survivors_within_commit, isEmptyLoop]

mutual
/-- What a run leaves: the frames that were open, with what survives added to the innermost, and
what is seen of it. -/
theorem exec_eq : ∀ (calls : Calls α ε) (frames : List Frame) (log : List Entry),
    exec calls ⟨frames, log⟩ =
      ⟨keep (registered (!frames.isEmpty) calls) frames, log ++ seen (!frames.isEmpty) calls⟩
  | .done, frames, log => by simp [exec, registered, seen]
  | .effect hook threw now rest, [], log => by
    have isNow := exec_eq now [] (log ++ [.ran hook])
    have isRest := exec_eq rest [] (log ++ [.ran hook] ++ seen false now)
    simp only [exec, afterCommit, State.note_eq, isNow]
    simpa [keep, registered, seen] using isRest
  | .effect hook threw now rest, top :: outer, log => by
    rw [exec, afterCommit, exec_eq rest]
    simp [keep, registered, seen, survivors, Registration.survives]
  | .undo hook rest, [], log => by
    rw [exec, onRollback, exec_eq rest]
    simp [keep, registered, seen]
  | .undo hook rest, top :: outer, log => by
    rw [exec, onRollback, exec_eq rest]
    simp [keep, registered, seen, survivors, Registration.survives]
  | .frame bracket body runs rest, frames, log => by
    rw [exec_frame, txScopeBegin, State.note_eq, exec_eq body,
      txScopeEnd_keep _ _ _ _ _ (loopOf_nil · runs), loopOf_eq runs, exec_eq rest]
    simp [registered, seen, keep_append]

theorem loopOf_eq : ∀ (runs : Runs α ε) (isReported : Bool) (hooks : List HookId)
    (frames : List Frame) (log : List Entry),
    loopOf runs isReported hooks ⟨frames, log⟩ =
      ⟨keep (registeredBy (!frames.isEmpty) runs hooks) frames,
        log ++ seenOf (!frames.isEmpty) isReported runs hooks⟩
  | .none, isReported, hooks, frames, log => by
    rw [loopOf, foldl_ran]
    simp [registeredBy, seenOf]
  | .more threw calls rest, isReported, [], frames, log => by
    simp [loopOf, registeredBy, seenOf]
  | .more threw calls rest, isReported, hook :: hooks, frames, log => by
    rw [loopOf, tried, State.note_eq]
    simp only [exec_eq calls]
    rw [registeredBy, seenOf, keep_append]
    cases threw && isReported with
    | true =>
      rw [if_pos rfl, State.note_eq, loopOf_eq rest]
      simp
    | false =>
      rw [if_neg Bool.false_ne_true, loopOf_eq rest]
      simp
end

end Murage.TxScope

namespace Murage.TxScope

variable {α ε : Type}

/-! ### How often a hook runs -/

def Registration.runs (isInner : Bool) (entry : Registration) : Bool :=
  match entry.kind with
  | .effect => !isInner && entry.survives
  | .undo => !entry.survives

theorem countP_add_countP {β : Type} (left right both : β → Bool) (values : List β)
    (isSplit : ∀ value, (if left value then 1 else 0) + (if right value then 1 else 0) =
      if both value then 1 else 0) :
    values.countP left + values.countP right = values.countP both := by
  induction values with
  | nil => rfl
  | cons value values ih =>
    have isHere := isSplit value
    rw [List.countP_cons, List.countP_cons, List.countP_cons]
    omega

theorem count_survivors (kind : Kind) (hook : HookId) (entries : List Registration) :
    (survivors kind entries).count hook =
      entries.countP fun entry => entry.hook = hook && (entry.kind = kind && entry.survives) := by
  rw [survivors, List.count, List.countP_map, List.countP_filter]
  apply List.countP_congr
  intro entry _
  simp

theorem count_ended (isInner committed : Bool) (hook : HookId) (entries : List Registration) :
    entries.countP (fun entry => entry.hook = hook && entry.runs true) +
        (ended isInner committed entries).count hook =
      (entries.map (·.within committed)).countP
        fun entry => entry.hook = hook && entry.runs isInner := by
  rw [List.countP_map, ended]
  cases committed with
  | false =>
    rw [if_neg Bool.false_ne_true, List.count_reverse, count_survivors]
    apply countP_add_countP
    rintro ⟨kind, hook', outcomes⟩
    by_cases isHook : hook' = hook <;> cases isAll : outcomes.all id <;> cases kind <;>
      simp [Registration.runs, Registration.within, Registration.survives, isHook, isAll]
  | true =>
    rw [if_pos rfl]
    cases isInner with
    | true =>
      rw [if_pos rfl, List.count_nil, Nat.add_zero]
      apply List.countP_congr
      rintro ⟨kind, hook', outcomes⟩ _
      cases kind <;> simp [Registration.runs, Registration.within, Registration.survives]
    | false =>
      rw [if_neg Bool.false_ne_true, count_survivors]
      apply countP_add_countP
      rintro ⟨kind, hook', outcomes⟩
      by_cases isHook : hook' = hook <;> cases isAll : outcomes.all id <;> cases kind <;>
        simp [Registration.runs, Registration.within, Registration.survives, isHook, isAll]

mutual
theorem count_seen (hook : HookId) : ∀ (isInner : Bool) (calls : Calls α ε),
    (seen isInner calls).count (.ran hook) =
      (registered isInner calls).countP fun entry => entry.hook = hook && entry.runs isInner
  | isInner, .done => rfl
  | isInner, .effect registeredHook threw now rest => by
    have isRest := count_seen hook isInner rest
    have isNow := count_seen hook false now
    cases isInner with
    | true =>
      simp [seen, registered, isRest, Registration.runs]
    | false =>
      simp [seen, registered, isRest, isNow, List.countP_cons, List.count_cons,
        List.countP_append, Registration.runs, Registration.survives]
  | isInner, .undo registeredHook rest => by
    have isRest := count_seen hook isInner rest
    simp [seen, registered, isRest, List.countP_cons, Registration.runs,
      Registration.survives]
  | isInner, .frame bracket body runs rest => by
    have isBody := count_seen hook true body
    have isRest := count_seen hook isInner rest
    have isLoop := count_seenOf hook isInner bracket.committed runs
      (ended isInner bracket.committed (registered true body))
    have isEnded := count_ended isInner bracket.committed hook (registered true body)
    simp only [seen, registered, List.count_cons, List.count_append, List.countP_append,
      isBody, isRest, isLoop]
    simp only [beq_iff_eq, reduceCtorEq, if_false]
    omega

theorem count_seenOf (hook : HookId) : ∀ (isInner isReported : Bool) (runs : Runs α ε)
    (hooks : List HookId),
    (seenOf isInner isReported runs hooks).count (.ran hook) =
      hooks.count hook + (registeredBy isInner runs hooks).countP
        fun entry => entry.hook = hook && entry.runs isInner
  | isInner, isReported, .none, hooks => by
    simp only [seenOf, registeredBy, List.countP_nil, Nat.add_zero, List.count, List.countP_map]
    apply List.countP_congr
    simp
  | isInner, isReported, .more threw calls rest, [] => rfl
  | isInner, isReported, .more threw calls rest, called :: hooks => by
    have isCall := count_seen hook isInner calls
    have isRest := count_seenOf hook isInner isReported rest hooks
    have isReport : (if threw && isReported then [Entry.reported called] else []).count
        (.ran hook) = 0 := by
      cases threw && isReported <;> simp
    simp only [seenOf, registeredBy, List.count_cons, List.count_append, List.countP_append,
      isCall, isRest, isReport]
    simp only [beq_iff_eq, Entry.ran.injEq]
    omega
end

theorem countP_of_nodup (isInner : Bool) {entries : List Registration}
    (isOne : (entries.map (·.hook)).Nodup) {entry : Registration} (isEntry : entry ∈ entries) :
    (entries.countP fun other => other.hook = entry.hook && other.runs isInner) =
      (entry.runs isInner).toNat := by
  induction entries with
  | nil => cases isEntry
  | cons first rest ih =>
    rw [List.map_cons, List.nodup_cons] at isOne
    rw [List.countP_cons]
    rcases List.mem_cons.mp isEntry with rfl | isRest
    · have isNone : (rest.countP fun other =>
          other.hook = entry.hook && other.runs isInner) = 0 := by
        apply List.countP_eq_zero.mpr
        intro other isOther isHit
        rw [Bool.and_eq_true, decide_eq_true_eq] at isHit
        exact isOne.1 (isHit.1 ▸ List.mem_map_of_mem isOther)
      rw [isNone]
      cases entry.runs isInner <;> simp
    · have isOther : first.hook ≠ entry.hook := by
        intro isSame
        exact isOne.1 (isSame ▸ List.mem_map_of_mem isRest)
      rw [ih isOne.2 isRest]
      simp [isOther]

/-! ### Where a hook runs -/

def ranCalls : Runs α ε → List HookId → List (Calls α ε)
  | .none, _ => []
  | .more _ _ _, [] => []
  | .more _ calls rest, _ :: hooks => calls :: ranCalls rest hooks

/-- A part of a run that really happens, and whether it happens inside a frame. -/
inductive Part (isInner : Bool) (part : Calls α ε) : Bool → Calls α ε → Prop
  | here : Part isInner part isInner part
  | now {hook threw now rest} : Part isInner part false now →
      Part isInner part false (.effect hook threw now rest)
  | afterEffect {isOuter hook threw now rest} : Part isInner part isOuter rest →
      Part isInner part isOuter (.effect hook threw now rest)
  | afterUndo {isOuter hook rest} : Part isInner part isOuter rest →
      Part isInner part isOuter (.undo hook rest)
  | body {isOuter bracket body runs rest} : Part isInner part true body →
      Part isInner part isOuter (.frame bracket body runs rest)
  | hook {isOuter bracket body runs rest calls} :
      calls ∈ ranCalls runs (ended isOuter bracket.committed (registered true body)) →
      Part isInner part isOuter calls →
      Part isInner part isOuter (.frame bracket body runs rest)
  | afterFrame {isOuter bracket body runs rest} : Part isInner part isOuter rest →
      Part isInner part isOuter (.frame bracket body runs rest)

theorem seen_ranCalls (isInner isReported : Bool) {calls : Calls α ε} :
    ∀ (runs : Runs α ε) (hooks : List HookId), calls ∈ ranCalls runs hooks →
      seen isInner calls <:+: seenOf isInner isReported runs hooks
  | .none, _, isRan => nomatch isRan
  | .more _ _ _, [], isRan => nomatch isRan
  | .more threw first rest, hook :: hooks, isRan => by
    rw [seenOf]
    rcases List.mem_cons.mp isRan with rfl | isLater
    · exact (List.infix_append' [Entry.ran hook] _ _)
    · have isRest := seen_ranCalls isInner isReported rest hooks isLater
      refine isRest.trans (List.IsSuffix.isInfix ?_)
      rw [← List.cons_append, ← List.append_assoc]
      exact List.suffix_append _ _

theorem seen_part {isInner isOuter : Bool} {part calls : Calls α ε}
    (isPart : Part isInner part isOuter calls) :
    seen isInner part <:+: seen isOuter calls := by
  induction isPart with
  | here => exact List.infix_rfl
  | @now hook threw now rest _ ih =>
    rw [seen, if_neg Bool.false_ne_true]
    exact ih.trans (List.infix_append' [Entry.ran hook] _ _)
  | afterEffect _ ih =>
    rw [seen]
    exact ih.trans (List.suffix_append _ _).isInfix
  | afterUndo _ ih => exact ih
  | body _ ih =>
    rw [seen]
    exact ih.trans (List.infix_append' [Entry.opened] _ _)
  | @hook isOuter bracket body runs rest calls isRan _ ih =>
    rw [seen]
    have isInLoop := seen_ranCalls isOuter bracket.committed runs _ isRan
    refine ih.trans (isInLoop.trans ?_)
    rw [← List.cons_append, List.append_cons]
    exact List.infix_append' _ _ _
  | afterFrame _ ih =>
    rw [seen]
    refine ih.trans (List.IsSuffix.isInfix ?_)
    rw [← List.cons_append, ← List.cons_append, ← List.append_assoc]
    exact List.suffix_append _ _

theorem ran_sublist (isInner isReported : Bool) :
    ∀ (runs : Runs α ε) (hooks : List HookId),
      (hooks.map Entry.ran).Sublist (seenOf isInner isReported runs hooks)
  | .none, hooks => List.Sublist.refl _
  | .more _ _ _, [] => List.nil_sublist _
  | .more _ _ rest, hook :: hooks => by
    rw [seenOf, List.map_cons]
    apply List.Sublist.cons_cons
    exact (ran_sublist isInner isReported rest hooks).trans
      ((List.sublist_append_right _ _).trans (List.sublist_append_right _ _))

/-- The frame at whose end a registration's hook is called: for an effect, the outermost frame
around it, which commits; for a rollback hook, the innermost that rolls back. -/
def CalledBy (entry : Registration) (isOuter : Bool) (calls : Calls α ε) : Prop :=
  ∃ isInner bracket body runs rest,
    Part isInner (.frame bracket body runs rest) isOuter calls ∧
      match entry.kind with
      | .effect => isInner = false ∧ bracket.committed = true ∧
          entry.hook ∈ survivors .effect (registered true body)
      | .undo => bracket.committed = false ∧
          entry.hook ∈ survivors .undo (registered true body)

theorem CalledBy.of_part {entry : Registration} {isOuter isPartOuter : Bool}
    {part calls : Calls α ε}
    (isMono : ∀ {isInner frame}, Part isInner frame isPartOuter part →
      Part isInner frame isOuter calls) (isCalled : CalledBy entry isPartOuter part) :
    CalledBy entry isOuter calls := by
  obtain ⟨isInner, bracket, body, runs, rest, isPart, isFrame⟩ := isCalled
  exact ⟨isInner, bracket, body, runs, rest, isMono isPart, isFrame⟩

theorem mem_survivors {kind : Kind} {entry : Registration} {entries : List Registration}
    (isEntry : entry ∈ entries) (isKind : entry.kind = kind) (isSurvivor : entry.survives = true) :
    entry.hook ∈ survivors kind entries := by
  apply List.mem_map_of_mem
  rw [List.mem_filter]
  exact ⟨isEntry, by simp [isKind, isSurvivor]⟩

theorem calledBy_of_body {isOuter : Bool} {bracket : Bracket α ε} {body : Calls α ε}
    {runs : Runs α ε} {rest : Calls α ε} {inner : Registration}
    (isEntry : inner ∈ registered true body)
    (isRun : (inner.within bracket.committed).runs isOuter = true)
    (isInside : inner.outcomes ≠ [] → inner.runs true = true → CalledBy inner true body) :
    CalledBy (inner.within bracket.committed) isOuter (.frame bracket body runs rest) := by
  obtain ⟨kind, hook, outcomes⟩ := inner
  cases kind with
  | effect =>
    simp only [Registration.runs, Registration.within, Registration.survives, List.all_append,
      Bool.and_eq_true, Bool.not_eq_true', List.all_cons, List.all_nil, id_eq,
      Bool.and_true] at isRun
    obtain ⟨rfl, isSurvivor, isCommit⟩ := isRun
    have isWanted := mem_survivors isEntry rfl isSurvivor
    exact ⟨false, bracket, body, runs, rest, .here, rfl, isCommit, isWanted⟩
  | undo =>
    cases isSurvivor : outcomes.all id with
    | true =>
      have isRollback : bracket.committed = false := by
        simpa [Registration.runs, Registration.within, Registration.survives,
          isSurvivor] using isRun
      have isWanted := mem_survivors isEntry rfl isSurvivor
      exact ⟨isOuter, bracket, body, runs, rest, .here, isRollback, isWanted⟩
    | false =>
      have isNested : outcomes ≠ [] := by
        rintro rfl
        cases isSurvivor
      have isRunInside : (Registration.mk .undo hook outcomes).runs true = true := by
        simp [Registration.runs, Registration.survives, isSurvivor]
      exact (isInside isNested isRunInside).of_part .body

mutual
theorem calledBy_of_runs : ∀ (entry : Registration) (isOuter : Bool) (calls : Calls α ε),
    entry ∈ registered isOuter calls → entry.outcomes ≠ [] → entry.runs isOuter = true →
      CalledBy entry isOuter calls
  | _, _, .done, isEntry, _, _ => nomatch isEntry
  | entry, isOuter, .effect hook threw now rest, isEntry, isInside, isRun => by
    rw [registered] at isEntry
    rcases List.mem_cons.mp isEntry with rfl | isEntry
    · exact absurd rfl isInside
    · rcases List.mem_append.mp isEntry with isNow | isRest
      · cases isOuter with
        | true => cases isNow
        | false => exact (calledBy_of_runs entry false now isNow isInside isRun).of_part .now
      · exact (calledBy_of_runs entry isOuter rest isRest isInside isRun).of_part .afterEffect
  | entry, isOuter, .undo hook rest, isEntry, isInside, isRun => by
    rw [registered] at isEntry
    rcases List.mem_cons.mp isEntry with rfl | isRest
    · exact absurd rfl isInside
    · exact (calledBy_of_runs entry isOuter rest isRest isInside isRun).of_part .afterUndo
  | entry, isOuter, .frame bracket body runs rest, isEntry, isInside, isRun => by
    rw [registered] at isEntry
    rcases List.mem_append.mp isEntry with isBody | isLater
    · obtain ⟨inner, isInner, rfl⟩ := List.mem_map.mp isBody
      exact calledBy_of_body isInner isRun (calledBy_of_runs inner true body isInner)
    · rcases List.mem_append.mp isLater with isHook | isRest
      · exact calledBy_of_registeredBy entry isOuter runs _ isHook isInside isRun
          fun _ isRan _ _ isPart => .hook isRan isPart
      · exact (calledBy_of_runs entry isOuter rest isRest isInside isRun).of_part .afterFrame

theorem calledBy_of_registeredBy {calls : Calls α ε} :
    ∀ (entry : Registration) (isOuter : Bool) (runs : Runs α ε) (hooks : List HookId),
      entry ∈ registeredBy isOuter runs hooks → entry.outcomes ≠ [] →
      entry.runs isOuter = true →
      (∀ ran ∈ ranCalls runs hooks, ∀ isInner frame, Part isInner frame isOuter ran →
        Part isInner frame isOuter calls) →
      CalledBy entry isOuter calls
  | _, _, .none, _, isEntry, _, _, _ => nomatch isEntry
  | _, _, .more _ _ _, [], isEntry, _, _, _ => nomatch isEntry
  | entry, isOuter, .more threw first rest, hook :: hooks, isEntry, isInside, isRun, isMono => by
    rw [registeredBy] at isEntry
    rcases List.mem_append.mp isEntry with isFirst | isRest
    · exact (calledBy_of_runs entry isOuter first isFirst isInside isRun).of_part
        (isMono first List.mem_cons_self _ _)
    · exact calledBy_of_registeredBy entry isOuter rest hooks isRest isInside isRun
        fun ran isRan => isMono ran (List.mem_cons_of_mem _ isRan)
end

/-- **A hook fires with its transaction.** In every run that closes the frames it opens, whatever
frames commit or roll back and whatever its hooks throw, register or open: an effect runs exactly
once if every frame around its registration commits, and never otherwise; a rollback hook runs
exactly once if some frame around it rolls back, and never otherwise. An effect registered inside
frames is called at the end of the outermost, a rollback hook at the end of the innermost that rolls
back; and a frame's end calls, straight after it, the effects wanted inside it in the order of their
registration, or its rollback hooks in the reverse order, each one after the other. -/
theorem hooks_fire_with_transaction (calls : Calls α ε)
    (isOnePerHook : ((registered false calls).map (·.hook)).Nodup) :
    (exec calls {}).frames = [] ∧
      (∀ entry ∈ registered false calls,
        (exec calls {}).log.count (.ran entry.hook) =
            (match entry.kind with
            | .effect => if entry.survives then 1 else 0
            | .undo => if entry.survives then 0 else 1) ∧
          (entry.outcomes ≠ [] → entry.runs false = true → CalledBy entry false calls)) ∧
      ∀ isInner bracket body runs rest,
        Part isInner (.frame bracket body runs rest) false calls →
        ∃ inside after,
          (.opened :: inside ++ .closed bracket.committed :: after) <:+: (exec calls {}).log ∧
          inside = seen true body ∧
          after = seenOf isInner bracket.committed runs
            (ended isInner bracket.committed (registered true body)) ∧
          ((ended isInner bracket.committed (registered true body)).map Entry.ran).Sublist
            after := by
  have isRun := exec_eq calls [] []
  simp only [List.isEmpty_nil, Bool.not_true, List.nil_append] at isRun
  have isStart : (({} : State)) = ⟨[], []⟩ := rfl
  rw [isStart, isRun]
  refine ⟨rfl, ?_, ?_⟩
  · intro entry isEntry
    refine ⟨?_, calledBy_of_runs entry false calls isEntry⟩
    rw [count_seen, countP_of_nodup false isOnePerHook isEntry, Registration.runs]
    cases entry.kind <;> cases entry.survives <;> rfl
  · intro isInner bracket body runs rest isPart
    refine ⟨_, _, ?_, rfl, rfl, ran_sublist isInner bracket.committed runs _⟩
    have isSeen := seen_part isPart
    rw [seen] at isSeen
    refine List.IsInfix.trans (List.IsPrefix.isInfix ⟨seen isInner rest, ?_⟩) isSeen
    rw [List.cons_append, List.cons_append, List.append_assoc, List.cons_append]

/-- An effect and a rollback hook inside a frame that rolls back inside one that commits, with an
effect of the outer frame that throws. -/
def nested : Calls Unit Unit :=
  .frame (.calls true)
    (.effect 1 true .done
      (.frame (.scopedTx (.error ()) none) (.effect 2 false .done (.undo 3 .done))
        (.more true (.effect 4 false .done .done) .none) (.effect 5 false .done .done)))
    (.more true .done .none) .done

theorem hooks_fire_with_transaction_example :
    (exec nested {}).log.count (.ran 2) = 0 ∧ (exec nested {}).log.count (.ran 3) = 1 ∧
      (exec nested {}).log.count (.ran 4) = 1 ∧ (exec nested {}).log.count (.ran 5) = 1 := by
  have isFired := (hooks_fire_with_transaction nested (by decide)).2.1
  exact ⟨(isFired ⟨.effect, 2, [false, true]⟩ (by decide)).1,
    (isFired ⟨.undo, 3, [false, true]⟩ (by decide)).1,
    (isFired ⟨.effect, 4, [true]⟩ (by decide)).1, (isFired ⟨.effect, 5, [true]⟩ (by decide)).1⟩

/-- The hook that throws stops neither the loop nor what follows. -/
example : (exec nested {}).log =
    [.opened, .opened, .closed false, .ran 3, .closed true, .ran 1, .reported 1, .ran 4,
      .ran 5] := by
  decide

end Murage.TxScope
