import Murage.SteerQueue.Drains

/-!
Owns the outcomes of the starts: what a start that answers "requeue" puts back, and what
holds in every state that the drains, the starts and new messages lead to.
-/

namespace Murage.SteerQueue

open Murage.Library
open Murage.Library.Transition
open Murage.OwnerSends
open Murage.OwnerSends.SendStore

/-! ## Rows put back -/

def requeuedAt (pair : SendRow × Line) (now : Int) (row : SendRow) : SendRow :=
  { row with
    status := .queued
    dispatched := false
    existingMessageId := some pair.2.id
    text := pair.2.text
    prompt := pair.1.prompt.or row.prompt
    updatedAt := now }

theorem requeueStarted_spec {s : SendStore} {pair : SendRow × Line} (now : Int) {stored : SendRow}
    (found : bySeq s pair.1.seq = some stored) (started : stored.status = .started) :
    ∃ after, orElse (s.requeueStarted pair.1.seq pair.2.id pair.2.text pair.1.prompt now) s = after ∧
      after.rows.map (·.seq) = s.rows.map (·.seq) ∧ after.lines = s.lines ∧
      bySeq after pair.1.seq = some (requeuedAt pair now stored) ∧
      ∀ seq, seq ≠ pair.1.seq → bySeq after seq = bySeq s seq := by
  obtain ⟨isIn, isSeq⟩ := bySeq_spec found
  have isThere : s.rows.any (fun r => r.seq == pair.1.seq && r.status == .started) = true :=
    List.any_eq_true.mpr ⟨stored, isIn, by rw [isSeq, started]; simp⟩
  let set : SendRow → SendRow := fun row =>
    if row.seq == pair.1.seq && row.status == .started then requeuedAt pair now row else row
  have keeps : ∀ row, (set row).seq = row.seq := fun row => by
    unfold set
    split_ifs <;> rfl
  have done : orElse (s.requeueStarted pair.1.seq pair.2.id pair.2.text pair.1.prompt now) s =
      { s with rows := s.rows.map set, lateOpen := s.lateOpen.erase pair.1.seq } := by
    unfold requeueStarted updateOne
    rw [if_pos isThere]
    rfl
  refine ⟨_, done, ?_, rfl, ?_, fun seq differs => ?_⟩
  · show (s.rows.map set).map (·.seq) = _
    rw [List.map_map]
    exact List.map_congr_left fun row _ => keeps row
  · rw [bySeq_map rfl keeps, found, Option.map_some]
    refine congrArg some (if_pos ?_)
    rw [isSeq, started]
    simp
  · rw [bySeq_map rfl keeps]
    cases other : bySeq s seq with
    | none => rfl
    | some row =>
      refine congrArg some (if_neg ?_)
      rw [(bySeq_spec other).2]
      simp [differs]

/-- **A start put back.** Exactly its rows wait again, each from its line. -/
theorem requeue_foldl (now : Int) (committed : List (SendRow × Line)) {s : SendStore}
    (told : (committed.map fun pair => pair.1.seq).Nodup)
    (started : ∀ pair ∈ committed, ∃ stored, bySeq s pair.1.seq = some stored ∧
      stored.status = .started) :
    ∃ after, committed.foldl (fun store pair => orElse (store.requeueStarted pair.1.seq pair.2.id
        pair.2.text pair.1.prompt now) store) s = after ∧
      after.rows.map (·.seq) = s.rows.map (·.seq) ∧ after.lines = s.lines ∧
      (∀ pair ∈ committed, ∀ stored, bySeq s pair.1.seq = some stored →
        bySeq after pair.1.seq = some (requeuedAt pair now stored)) ∧
      ∀ seq, (∀ pair ∈ committed, pair.1.seq ≠ seq) → bySeq after seq = bySeq s seq := by
  induction committed generalizing s with
  | nil => exact ⟨s, rfl, rfl, rfl, fun _ isNone => absurd isNone List.not_mem_nil, fun _ _ => rfl⟩
  | cons pair rest ih =>
    obtain ⟨isNew, toldRest⟩ := List.nodup_cons.mp told
    have differs : ∀ other ∈ rest, other.1.seq ≠ pair.1.seq := fun other isIn same =>
      isNew (List.mem_map.mpr ⟨other, isIn, same⟩)
    obtain ⟨stored, found, isStarted⟩ := started pair List.mem_cons_self
    obtain ⟨middle, isMiddle, seqs, lines, isPair, others⟩ :=
      requeueStarted_spec now found isStarted
    obtain ⟨after, isAfter, seqs', lines', pairs, others'⟩ := @ih middle
      toldRest fun other isIn => by
        rw [others _ (differs other isIn)]
        exact started other (List.mem_cons_of_mem _ isIn)
    refine ⟨after, ?_, seqs'.trans seqs, lines'.trans lines, fun other isIn held isHeld => ?_,
      fun seq noPair => ?_⟩
    · rw [List.foldl_cons, isMiddle]
      exact isAfter
    · rcases List.mem_cons.mp isIn with rfl | later
      · rw [others' _ fun another isAnother same => differs another isAnother same, isPair]
        rw [found] at isHeld
        obtain rfl := Option.some.inj isHeld
        rfl
      · refine pairs other later held ?_
        rw [others _ (differs other later)]
        exact isHeld
    · rw [others' seq fun other isIn => noPair other (List.mem_cons_of_mem _ isIn)]
      exact others seq (noPair pair List.mem_cons_self).symm

namespace Drains

variable {parse : ParseAttachments} {s s' : Drains}

/-- What a start that answers "requeue" does: its rows wait in their places, from their
lines, and nothing else changes. -/
def Requeues (s s' : Drains) (start : Start) : Prop :=
  (∀ pair ∈ start.committed, ∃ stored stored', bySeq s.store pair.1.seq = some stored ∧
    stored.status = .started ∧ bySeq s'.store pair.1.seq = some stored' ∧
    stored'.status = .queued ∧ stored'.seq = stored.seq ∧
    stored'.existingMessageId = some pair.2.id ∧ stored'.text = pair.2.text ∧
    stored'.via = stored.via ∧ stored'.origin = stored.origin ∧
    stored'.viaDevice = stored.viaDevice) ∧
  (∀ seq, (∀ pair ∈ start.committed, pair.1.seq ≠ seq) →
    bySeq s'.store seq = bySeq s.store seq) ∧
  s'.store.rows.map (·.seq) = s.store.rows.map (·.seq) ∧ s'.store.lines = s.store.lines

variable {start : Start}

theorem Sound.find_token (sound : s.Sound parse) (isIn : start ∈ s.pending) :
    s.pending.find? (·.token == start.token) = some start := by
  cases found : s.pending.find? (·.token == start.token) with
  | none => exact absurd (beq_self_eq_true start.token) (List.find?_eq_none.mp found start isIn)
  | some other =>
    have isOther := List.mem_of_find?_eq_some found
    have sameToken : other.token = start.token := by
      simpa using List.find?_some (p := fun pending : Start => pending.token == start.token) found
    exact congrArg some (List.inj_on_of_nodup_map sound.told isOther isIn sameToken)

/-- A start that has settled is pending no more, and its conversation is free. -/
def ended (s : Drains) (start : Start) : Drains :=
  { s with
    pending := s.pending.filter (·.token != start.token)
    starting := Function.update s.starting start.threadId none }

theorem Sound.ended (sound : s.Sound parse) (isIn : start ∈ s.pending) :
    (s.ended start).Sound parse := by
  have fewer : (s.ended start).pending.Sublist s.pending := List.filter_sublist
  refine ⟨sound.distinct, fun other isOther => sound.tokens other (fewer.subset isOther),
    sound.told.sublist (fewer.map _), fun other isOther => ?_, sound.alone.sublist (fewer.map _),
    fun other isOther => sound.running other (fewer.subset isOther), sound.calls,
    fun other isOther => sound.called other (fewer.subset isOther), sound.keeps, sound.sameLine⟩
  have isPending := fewer.subset isOther
  refine (Function.update_of_ne (fun same => ?_) _ _).trans (sound.starting other isPending)
  obtain rfl := List.inj_on_of_nodup_map sound.alone isPending isIn same
  have differs := (List.mem_filter.mp isOther).2
  simp at differs

theorem Sound.committed_told (sound : s.Sound parse) (isIn : start ∈ s.pending) :
    (start.committed.map fun pair => pair.1.seq).Nodup := by
  obtain ⟨call, isCall, -, same⟩ := sound.called start isIn
  have isRight := sound.calls call isCall
  rw [← same]
  exact committed_distinct isRight.distinct isRight.committed

theorem Sound.requeueInPlace (sound : s.Sound parse) (isIn : start ∈ s.pending) (now : Int) :
    ((s.ended start).requeueInPlace now start.committed).Sound parse ∧
      Requeues s ((s.ended start).requeueInPlace now start.committed) start := by
  have ended := sound.ended isIn
  obtain ⟨after, isAfter, seqs, lines, pairs, others⟩ := requeue_foldl now start.committed
    (sound.committed_told isIn) (sound.running start isIn)
  have isState : (s.ended start).requeueInPlace now start.committed =
      (s.ended start).setStore after := congrArg (s.ended start).setStore isAfter
  rw [isState]
  obtain ⟨call, isCall, sameThread, sameCommitted⟩ := sound.called start isIn
  have sameThere : ∀ thread id there,
      Batch.messageById thread { store := s.store, home := s.home } id = some there →
      Batch.messageById thread { store := after, home := s.home } id = some there :=
    fun _ _ _ isThere => Batch.messageById_of_lines lines isThere
  refine ⟨⟨seqs ▸ sound.distinct, ended.tokens, ended.told, ended.starting, ended.alone,
    fun other isOther pair isPair => ?_, sound.calls, ended.called, fun other isOther pair isPair =>
      ?_, sound.sameLine⟩, fun pair isPair => ?_, others, seqs, lines⟩
  · -- Another start is of another conversation, so its rows are others.
    obtain ⟨stored, found, started⟩ := ended.running other isOther pair isPair
    refine ⟨stored, ?_, started⟩
    refine (others pair.1.seq fun mine isMine sameSeq => ?_).trans found
    have isPending : other ∈ s.pending := (List.mem_filter.mp isOther).1
    obtain ⟨otherCall, isOtherCall, otherThread, otherCommitted⟩ := sound.called other isPending
    obtain ⟨held, isHeld, heldThread, -⟩ :=
      sound.keeps otherCall isOtherCall pair (otherCommitted ▸ isPair)
    obtain ⟨held', isHeld', heldThread', -⟩ :=
      sound.keeps call isCall mine (sameCommitted ▸ isMine)
    rw [sameSeq, isHeld] at isHeld'
    obtain rfl := Option.some.inj isHeld'
    have sameThreads : other.threadId = start.threadId := by
      rw [← otherThread, ← heldThread, heldThread', sameThread]
    obtain rfl := List.inj_on_of_nodup_map sound.alone isPending isIn sameThreads
    have differs := (List.mem_filter.mp isOther).2
    simp at differs
  · obtain ⟨stored, found, isThread, isThere, named, held⟩ := sound.keeps other isOther pair isPair
    by_cases mine : ∃ pair' ∈ start.committed, pair'.1.seq = pair.1.seq
    · obtain ⟨pair', isPair', sameSeq⟩ := mine
      have sameLine := sound.sameLine call isCall other isOther pair' (sameCommitted ▸ isPair') pair
        isPair sameSeq
      refine ⟨requeuedAt pair' now stored, ?_, isThread, sameThere _ _ _ isThere, named,
        Or.inr ⟨Or.inl rfl, ?_⟩⟩
      · show bySeq after pair.1.seq = _
        rw [← sameSeq]
        exact pairs pair' isPair' stored (sameSeq ▸ found)
      · rw [← sameLine]
        rfl
    · refine ⟨stored, ?_, isThread, sameThere _ _ _ isThere, named, held⟩
      exact (others pair.1.seq fun pair' isPair' sameSeq => mine ⟨pair', isPair', sameSeq⟩).trans
        found
  · obtain ⟨stored, found, started⟩ := sound.running start isIn pair isPair
    exact ⟨stored, requeuedAt pair now stored, found, started, pairs pair isPair stored found, rfl,
      rfl, rfl, rfl, rfl, rfl, rfl⟩

theorem Sound.settle_eq (sound : s.Sound parse) (isIn : start ∈ s.pending) (outcome : Outcome)
    (now : Int) (occupied : Bool) (env : String → Nat → DrainEnv) :
    s.settle parse start.token outcome now occupied env =
      match outcome with
      | .requeue => ((s.ended start).requeueInPlace now start.committed).scheduleRetry
          start.threadId true now
      | .final =>
        let cleared := (s.ended start).clearRetry start.threadId
        if occupied then cleared else cleared.drainSteeredMessages parse env := by
  unfold Drains.settle
  rw [sound.find_token isIn]
  exact if_pos (sound.starting start isIn)

variable {env : String → Nat → DrainEnv}

theorem Sound.settle (sound : s.Sound parse) (token : Nat) (outcome : Outcome) (now : Int)
    (occupied : Bool) (settles : Settles env) :
    (s.settle parse token outcome now occupied env).Sound parse := by
  by_cases isPending : ∃ start ∈ s.pending, start.token = token
  · obtain ⟨start, isIn, rfl⟩ := isPending
    rw [sound.settle_eq isIn]
    cases outcome with
    | requeue => exact (sound.requeueInPlace isIn now).1.scheduleRetry start.threadId true now
    | final =>
      have cleared := (sound.ended isIn).clearRetry start.threadId
      dsimp only
      split_ifs
      · exact cleared
      · exact cleared.drainSteeredMessages settles
  · have absent : s.pending.find? (·.token == token) = none :=
      List.find?_eq_none.mpr fun start isIn => by
        simpa using fun same => isPending ⟨start, isIn, same⟩
    unfold Drains.settle
    rw [absent]
    exact sound

theorem Sound.retryTimer (sound : s.Sound parse) (threadId : String) (counts : Bool) (now : Int)
    (settles : Settles env) :
    (s.retryTimer parse threadId counts now env).Sound parse := by
  unfold Drains.retryTimer
  cases s.retries threadId with
  | none => exact sound
  | some retry =>
    have due : ({ s with
        retries := Function.update s.retries threadId
          (some { retry with due := 0, timer := false }) } : Drains).Sound parse :=
      sound.of_same rfl rfl rfl rfl rfl rfl
    have tried := due.drainSteeredMessages settles
    dsimp only
    generalize Drains.drainSteeredMessages _ parse env = after at tried ⊢
    cases after.retries threadId with
    | none => exact tried
    | some retry =>
      dsimp only
      split_ifs
      · exact tried
      · exact tried.scheduleRetry threadId false now
      · exact tried.clearRetry threadId

theorem Sound.watchTimer (sound : s.Sound parse) (threadId : String) (settles : Settles env) :
    (s.watchTimer parse threadId env).Sound parse := by
  have erased : ({ s with watches := s.watches.erase threadId } : Drains).Sound parse :=
    sound.of_same rfl rfl rfl rfl rfl rfl
  exact erased.drainSteeredMessages settles

/-! ## New messages -/

theorem accept_rows {store : SendStore} {input : AcceptInput} (isNew : store.prior input = none)
    (live : Bool) (uuid generation : String) :
    (store.accept input live uuid generation).1.lines = store.lines ∧
      ((store.accept input live uuid generation).1.rows = store.rows ∨
        ∃ row, row.seq = nextSeq store.rows ∧
          (store.accept input live uuid generation).1.rows = store.rows ++ [row]) := by
  rcases accept_cases store input live uuid generation with
    ⟨result, isResult, -⟩ | ⟨-, isResult⟩ | ⟨prior, isPrior, -⟩
  · rw [isResult]
    exact ⟨rfl, Or.inl rfl⟩
  · rw [isResult]
    rcases enroll_cases store input none uuid generation with
      ⟨same, -, -, isEnroll⟩ | isEnroll | ⟨-, isEnroll⟩
    · rw [isEnroll]
      exact ⟨rfl, Or.inl rfl⟩
    · rw [isEnroll]
      exact ⟨rfl, Or.inl rfl⟩
    · rw [isEnroll]
      exact ⟨rfl, Or.inr ⟨store.admittedRow input none uuid generation, rfl, rfl⟩⟩
  · rw [isNew] at isPrior
    cases isPrior

theorem Sound.accept (sound : s.Sound parse) {input : AcceptInput}
    (isNew : s.store.prior input = none) (live : Bool) (uuid generation : String) :
    (s.setStore (s.store.accept input live uuid generation).1).Sound parse := by
  obtain ⟨lines, rows⟩ := accept_rows isNew live uuid generation
  generalize (s.store.accept input live uuid generation).1 = store at lines rows
  have found : ∀ seq stored, bySeq s.store seq = some stored → bySeq store seq = some stored := by
    intro seq stored isStored
    rcases rows with same | ⟨row, -, appended⟩
    · unfold bySeq at isStored ⊢
      rw [same]
      exact isStored
    · unfold bySeq at isStored ⊢
      rw [appended, List.find?_append, isStored, Option.some_or]
  have distinct : (store.rows.map (·.seq)).Nodup := by
    rcases rows with same | ⟨row, isSeq, appended⟩
    · rw [same]
      exact sound.distinct
    · rw [appended, List.map_append, List.nodup_append']
      refine ⟨sound.distinct, List.nodup_singleton _, ?_⟩
      rw [List.map_singleton, List.disjoint_singleton]
      intro taken
      obtain ⟨other, isIn, sameSeq⟩ := List.mem_map.mp taken
      have less := lt_nextSeq isIn
      omega
  refine ⟨distinct, sound.tokens, sound.told, sound.starting, sound.alone,
    fun start isIn pair isPair => ?_, sound.calls, sound.called, fun call isIn pair isPair => ?_,
    sound.sameLine⟩
  · obtain ⟨stored, isStored, started⟩ := sound.running start isIn pair isPair
    exact ⟨stored, found _ _ isStored, started⟩
  · obtain ⟨stored, isStored, isThread, isThere, named, held⟩ := sound.keeps call isIn pair isPair
    exact ⟨stored, found _ _ isStored, isThread,
      Batch.messageById_of_lines lines isThere, named, held⟩

/-! ## Runs -/

/-- A server that has just started: rows of any kind, nothing being started. -/
structure Fresh (s : Drains) : Prop where
  distinct : (s.store.rows.map (·.seq)).Nodup
  pending : s.pending = []
  runs : s.runs = []

theorem Fresh.sound (fresh : s.Fresh) : s.Sound parse where
  distinct := fresh.distinct
  tokens := by rw [fresh.pending]; exact fun _ isIn => by cases isIn
  told := by rw [fresh.pending]; exact List.nodup_nil
  starting := by rw [fresh.pending]; exact fun _ isIn => by cases isIn
  alone := by rw [fresh.pending]; exact List.nodup_nil
  running := by rw [fresh.pending]; exact fun _ isIn => by cases isIn
  calls := by rw [fresh.runs]; exact fun _ isIn => by cases isIn
  called := by rw [fresh.pending]; exact fun _ isIn => by cases isIn
  keeps := by rw [fresh.runs]; exact fun _ isIn => by cases isIn
  sameLine := by rw [fresh.runs]; exact fun _ isIn => by cases isIn

/-- Appends and refusals may fail, the outcome of a line that is there is written; a
message that arrives has no row yet. -/
def Meets (s : Drains) (op : DrainOp) : Prop :=
  (∀ env, op.env = some env → Settles env) ∧
    ∀ input live uuid generation, op = .accept input live uuid generation →
      s.store.prior input = none

theorem Sound.apply (sound : s.Sound parse) {op : DrainOp} (meets : s.Meets op) :
    (s.apply parse op).Sound parse := by
  obtain ⟨settles, arrives⟩ := meets
  cases op with
  | drain env => exact sound.drainSteeredMessages (settles env rfl)
  | settle token outcome now occupied env =>
    exact sound.settle token outcome now occupied (settles env rfl)
  | retryTimer threadId counts now env =>
    exact sound.retryTimer threadId counts now (settles env rfl)
  | watchTimer threadId env => exact sound.watchTimer threadId (settles env rfl)
  | accept input live uuid generation =>
    exact sound.accept (arrives input live uuid generation rfl) live uuid generation

theorem sound_of_run {start : Drains} (fresh : start.Fresh) {ops : List DrainOp}
    (run : Run (Restrict (ofFunction (apply parse)) Meets) start ops s) : s.Sound parse := by
  refine run.invariant fresh.sound fun before op after sound step => ?_
  obtain ⟨rfl, meets⟩ := step
  exact sound.apply meets

/-- No two starts of one conversation have not settled. -/
def Alone (s : Drains) : Prop := (s.pending.map (·.threadId)).Nodup

/-- A row that runs again runs from the line it ran from. -/
def SameLine (s : Drains) : Prop :=
  ∀ call ∈ s.runs, ∀ call' ∈ s.runs, ∀ pair ∈ call.committed, ∀ pair' ∈ call'.committed,
    pair.1.seq = pair'.1.seq → pair.2 = pair'.2

/-- A start that answers "requeue" puts back the rows of its run, and only those. -/
def PutsBack (parse : ParseAttachments) (s : Drains) : Prop :=
  ∀ start ∈ s.pending, (∃ call ∈ s.runs, call.threadId = start.threadId ∧
      call.committed = start.committed) ∧
    ∀ now occupied env, Requeues s (s.settle parse start.token .requeue now occupied env) start

/-- **The drain.** In every state the drains, the starts and new messages lead to: each
call of `run` was given exactly what its batch committed, no two starts of a conversation
are pending, a start that answers "requeue" puts back exactly the rows of its run, and a
row that runs again runs from its line. -/
theorem drain_runs_what_it_committed {start : Drains} (fresh : start.Fresh) {ops : List DrainOp}
    (run : Run (Restrict (ofFunction (apply parse)) Meets) start ops s) :
    (∀ call ∈ s.runs, Right parse call) ∧ s.Alone ∧ s.SameLine ∧ s.PutsBack parse := by
  have sound := sound_of_run fresh run
  refine ⟨sound.calls, sound.alone, sound.sameLine, fun pending member => ?_⟩
  refine ⟨sound.called pending member, fun now occupied env => ?_⟩
  rw [sound.settle_eq member]
  exact (sound.requeueInPlace member now).2

/-- A message that waits, and one whose line is in the transcript. -/
def waitingRow (seq : Nat) (text : String) (existing : Option String) : SendRow :=
  { seq := seq
    kind := .bot
    ownerId := "b"
    threadId := "t"
    sendId := none
    queueId := text
    fingerprint := text
    text := text
    existingMessageId := existing
    status := .queued
    createdAt := 0
    updatedAt := 0
    message := seq }

def twoWaiting : Drains :=
  { store :=
      { rows := [waitingRow 1 "hello" none, waitingRow 2 "again" (some "m")]
        lines := OrderedMap.set ∅ "m" "again" }
    home := fun _ => "t" }

/-- An idle bot, and appends that succeed. -/
def idle : DrainEnv :=
  { now := 0
    reads := true
    bot := true
    busy := false
    blocked := false
    occupied := false
    marks := true
    row := fun _ =>
      { rereads := true
        refuses := true
        settles := true
        lineId := "n"
        append := some ⟨"n", by decide⟩ }
    starts := true }

def noFiles : ParseAttachments := fun _ => none

theorem twoWaiting_runs :
    (twoWaiting.drainSteeredMessages noFiles fun _ _ => idle).runs.map
      (fun call => (call.prompt, call.excludeIds)) = [("hello\nagain", ["n", "m"])] := by
  have threads : queuedThreads twoWaiting.store .bot = ["t"] := List.mergeSort_singleton "t"
  have queued : queuedRows twoWaiting.store "t" .bot = twoWaiting.store.rows :=
    List.mergeSort_of_pairwise (l := twoWaiting.store.rows) (by decide)
  have drainable : (twoWaiting.store.releaseThreadLate "t").drainable "t" .bot =
      twoWaiting.store.rows :=
    congrArg (drainRun ∅) (List.mergeSort_of_pairwise (l := twoWaiting.store.rows) (by decide))
  have pass : (twoWaiting.drainOne noFiles idle "t").2 = false ∧
      (twoWaiting.drainOne noFiles idle "t").1.runs.map
        (fun call => (call.prompt, call.excludeIds)) = [("hello\nagain", ["n", "m"])] := by
    unfold drainOne
    rw [queued]
    unfold Drains.drainRows setStore
    dsimp only
    rw [drainable]
    decide
  unfold Drains.drainSteeredMessages
  rw [threads]
  show (twoWaiting.passes noFiles (fun _ => idle) "t" 64).runs.map _ = _
  unfold Drains.passes
  generalize twoWaiting.drainOne noFiles idle "t" = result at pass ⊢
  obtain ⟨after, again⟩ := result
  obtain ⟨rfl, runs⟩ := pass
  exact runs

/-- The start of the two rows may answer "requeue". -/
theorem drain_runs_what_it_committed_together :
    (∀ call ∈ (twoWaiting.drainSteeredMessages noFiles fun _ _ => idle).runs, Right noFiles call) ∧
      (twoWaiting.drainSteeredMessages noFiles fun _ _ => idle).PutsBack noFiles ∧
      (twoWaiting.drainSteeredMessages noFiles fun _ _ => idle).runs.map (·.prompt) =
        ["hello\nagain"] := by
  have fresh : twoWaiting.Fresh := ⟨by decide, rfl, rfl⟩
  have meets : twoWaiting.Meets (.drain fun _ _ => idle) :=
    ⟨fun env isEnv => by
      obtain rfl := Option.some.inj isEnv
      exact fun _ _ _ => rfl, fun _ _ _ _ isAccept => by cases isAccept⟩
  have run : Run (Restrict (ofFunction (apply noFiles)) Meets) twoWaiting [.drain fun _ _ => idle]
      (twoWaiting.drainSteeredMessages noFiles fun _ _ => idle) := Run.nil.snoc ⟨rfl, meets⟩
  obtain ⟨right, -, -, putsBack⟩ := drain_runs_what_it_committed fresh run
  refine ⟨right, putsBack, ?_⟩
  have runs := congrArg (List.map Prod.fst) twoWaiting_runs
  rw [List.map_map] at runs
  exact runs

end Drains

end Murage.SteerQueue
