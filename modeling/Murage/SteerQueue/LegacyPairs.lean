import Murage.SteerQueue.LegacyLines

/-!
Owns what one run of the import does to one thread: nothing, or the landing of the lines the file
has for it, and the landing when the run reports no problem.

Does not own: the file, and runs one after the other.
-/

namespace Murage.SteerQueue.Legacy

open Murage.Library

/-! ## The pairs of a file -/

/-- The pairs the loop reaches: those before an element that is no pair. -/
def readable : SteerQueueEntries → List Pair
  | [] => []
  | none :: _ => []
  | some pair :: rest => pair :: readable rest

/-- No thread has lines in two pairs. -/
def ListedOnce (pairs : List Pair) : Prop :=
  pairs.Pairwise fun first second =>
    first.threadId = second.threadId → first.lines = [] ∨ second.lines = []

instance (pairs : List Pair) : Decidable (ListedOnce pairs) :=
  inferInstanceAs (Decidable (List.Pairwise _ _))

def linesOf (pairs : List Pair) (threadId : String) : List Line :=
  (pairs.filter (·.threadId = threadId)).flatMap Pair.lines

variable {pairs more : List Pair} {pair : Pair} {threadId : String}

theorem linesOf_append :
    linesOf (pairs ++ more) threadId = linesOf pairs threadId ++ linesOf more threadId := by
  rw [linesOf, List.filter_append, List.flatMap_append]
  rfl

theorem linesOf_cons_self (rest : List Pair) :
    linesOf (pair :: rest) pair.threadId = pair.lines ++ linesOf rest pair.threadId := by
  simp [linesOf]

theorem linesOf_cons_of_ne (rest : List Pair) (isOther : pair.threadId ≠ threadId) :
    linesOf (pair :: rest) threadId = linesOf rest threadId := by
  rw [linesOf, List.filter_cons_of_neg (by simpa using isOther)]
  rfl

theorem mem_linesOf {line : Line} (isPair : pair ∈ pairs) (isLine : line ∈ pair.lines) :
    line ∈ linesOf pairs pair.threadId :=
  List.mem_flatMap.2 ⟨pair, List.mem_filter.2 ⟨isPair, decide_eq_true rfl⟩, isLine⟩

theorem linesOf_eq_nil (areEmpty : ∀ pair ∈ pairs, pair.threadId = threadId → pair.lines = []) :
    linesOf pairs threadId = [] := by
  refine List.flatMap_eq_nil_iff.2 fun pair isListed => ?_
  obtain ⟨isPair, isThread⟩ := List.mem_filter.1 isListed
  exact areEmpty pair isPair (of_decide_eq_true isThread)

theorem linesOf_rest (isOnce : ListedOnce (pair :: pairs)) (hasLines : pair.lines ≠ []) :
    linesOf pairs pair.threadId = [] := by
  refine linesOf_eq_nil fun other isOther isSame => ?_
  rcases (List.pairwise_cons.1 isOnce).1 other isOther isSame.symm with isEmpty | isEmpty
  · exact absurd isEmpty hasLines
  · exact isEmpty

variable (threadId) in
theorem linesOf_eq_lines (isOnce : ListedOnce pairs) :
    linesOf pairs threadId = [] ∨
      ∃ pair ∈ pairs, pair.threadId = threadId ∧ linesOf pairs threadId = pair.lines := by
  induction pairs with
  | nil => exact Or.inl rfl
  | cons first rest ih =>
    by_cases isThread : first.threadId = threadId
    · subst isThread
      by_cases isEmpty : first.lines = []
      · rw [linesOf_cons_self, isEmpty, List.nil_append]
        refine (ih (List.pairwise_cons.1 isOnce).2).imp_right ?_
        exact fun ⟨pair, isPair, same⟩ => ⟨pair, List.mem_cons_of_mem _ isPair, same⟩
      · refine Or.inr ⟨first, List.mem_cons_self, rfl, ?_⟩
        rw [linesOf_cons_self, linesOf_rest isOnce isEmpty, List.append_nil]
    · rw [linesOf_cons_of_ne rest isThread]
      refine (ih (List.pairwise_cons.1 isOnce).2).imp_right ?_
      exact fun ⟨pair, isPair, same⟩ => ⟨pair, List.mem_cons_of_mem _ isPair, same⟩

variable (threadId) in
theorem linesOf_prefix {part : List Pair} (isPart : part <+: pairs) (isOnce : ListedOnce pairs) :
    linesOf part threadId = [] ∨ linesOf part threadId = linesOf pairs threadId := by
  obtain ⟨more, rfl⟩ := isPart
  by_cases isEmpty : linesOf more threadId = []
  · exact Or.inr (by rw [linesOf_append, isEmpty, List.append_nil])
  refine Or.inl (linesOf_eq_nil fun pair isPair isThread => ?_)
  by_contra hasLines
  refine isEmpty (linesOf_eq_nil fun other isOther isSame => ?_)
  rcases (List.pairwise_append.1 isOnce).2.2 pair isPair other isOther (isThread.trans isSame.symm)
    with lines | lines
  · exact absurd lines hasLines
  · exact lines

theorem readable_take (waiting : SteerQueueEntries) (count : Nat) :
    readable (waiting.take count) <+: readable waiting := by
  induction waiting generalizing count with
  | nil => rw [List.take_nil]
  | cons first rest ih =>
    cases count with
    | zero => exact List.nil_prefix
    | succ count =>
      cases first with
      | none => exact List.prefix_rfl
      | some pair => exact List.prefix_cons_inj pair |>.2 (ih count)

theorem mem_readable {waiting : SteerQueueEntries} (arePairs : waiting.any Option.isNone = false)
    (isListed : some pair ∈ waiting) : pair ∈ readable waiting := by
  induction waiting with
  | nil => cases isListed
  | cons first rest ih =>
    cases first with
    | none => cases arePairs
    | some other =>
      rcases List.mem_cons.1 isListed with isFirst | isLater
      · cases isFirst
        exact List.mem_cons_self
      · exact List.mem_cons_of_mem _ (ih arePairs isLater)

/-! ## The loop -/

variable {sha256Hex : LineKey → String} {reads : Reads} {faults : Faults} {options : Options}
  {recovery : Recovery}

theorem recoverPairs_eq (waiting : SteerQueueEntries) :
    recoverPairs sha256Hex reads faults options recovery waiting =
      ((readable waiting).foldl (recoverPair sha256Hex reads faults options) recovery,
        waiting.any Option.isNone) := by
  induction waiting generalizing recovery with
  | nil => rfl
  | cons first rest ih =>
    cases first with
    | none => rfl
    | some pair => exact ih

def Recovery.begin (recovery : Recovery) (threadId : String) : Transaction where
  rows := recovery.threads threadId
  calls := recovery.calls

variable (sha256Hex reads faults options) in
/-- **One pair commits its transaction or leaves the threads.** A pair of a live thread that does
not commit leaves a problem, and it had a fault. -/
theorem recoverPair_cases (recovery : Recovery) (pair : Pair) :
    (∃ items after, pair.threadId ≠ "" ∧ options.live pair.threadId = true ∧
      pair.items = some items ∧
      importItems sha256Hex reads faults pair.threadId (recovery.begin pair.threadId) items =
        .ok after ∧
      recoverPair sha256Hex reads faults options recovery pair =
        { threads := Function.update recovery.threads pair.threadId after.rows
          calls := after.calls
          added := recovery.added + after.threadAdded
          problems := recovery.problems }) ∨
    (recoverPair sha256Hex reads faults options recovery pair).threads = recovery.threads ∧
      (((recoverPair sha256Hex reads faults options recovery pair).problems = recovery.problems ∧
          (pair.lines = [] ∨ options.live pair.threadId = false)) ∨
        (recoverPair sha256Hex reads faults options recovery pair).problems ≠ [] ∧
          (options.live pair.threadId = false ∨ ∃ call, faults call ≠ none)) := by
  by_cases isUnnamed : pair.threadId = ""
  · have isSkipped : recoverPair sha256Hex reads faults options recovery pair = recovery :=
      if_pos isUnnamed
    rw [isSkipped]
    exact Or.inr ⟨rfl, Or.inl ⟨rfl, Or.inl (if_pos isUnnamed)⟩⟩
  cases areItems : pair.items with
  | none =>
    have isSkipped : recoverPair sha256Hex reads faults options recovery pair = recovery := by
      rw [recoverPair, if_neg isUnnamed, areItems]
    rw [isSkipped]
    refine Or.inr ⟨rfl, Or.inl ⟨rfl, Or.inl ?_⟩⟩
    rw [Pair.lines, if_neg isUnnamed, areItems]
    rfl
  | some items =>
    by_cases isDead : options.live pair.threadId = false
    · by_cases isDeleted : options.deleted pair.threadId = true
      · have isSkipped : recoverPair sha256Hex reads faults options recovery pair = recovery := by
          rw [recoverPair, if_neg isUnnamed, areItems]
          exact (if_pos isDead).trans (if_pos isDeleted)
        rw [isSkipped]
        exact Or.inr ⟨rfl, Or.inl ⟨rfl, Or.inr isDead⟩⟩
      · have isKept : recoverPair sha256Hex reads faults options recovery pair =
            { recovery with
              problems := recovery.problems ++
                [pair.threadId ++ ": conversation not recognised; its words are kept"] } := by
          rw [recoverPair, if_neg isUnnamed, areItems]
          exact (if_pos isDead).trans (if_neg isDeleted)
        rw [isKept]
        exact Or.inr ⟨rfl, Or.inr ⟨List.concat_ne_nil _ _, Or.inl isDead⟩⟩
    cases isRun : importItems sha256Hex reads faults pair.threadId
        (recovery.begin pair.threadId) items with
    | ok after =>
      refine Or.inl ⟨items, after, isUnnamed, eq_true_of_ne_false isDead, rfl, isRun, ?_⟩
      rw [Recovery.begin] at isRun
      rw [recoverPair, if_neg isUnnamed, areItems]
      simp only [if_neg isDead, isRun]
    | error thrown =>
      have hasFault : ∃ call, faults call ≠ none := by
        by_contra noFault
        have areNone : faults = fun _ => none :=
          funext fun call => not_not.1 fun isFault => noFault ⟨call, isFault⟩
        obtain ⟨after, isCommitted⟩ := importItems_commits sha256Hex reads pair.threadId items
          (recovery.begin pair.threadId)
        rw [areNone, isCommitted] at isRun
        cases isRun
      have isUndone : recoverPair sha256Hex reads faults options recovery pair =
          { recovery with
            calls := thrown.calls
            problems := recovery.problems ++ [pair.threadId ++ ": " ++ thrown.error] } := by
        rw [Recovery.begin] at isRun
        rw [recoverPair, if_neg isUnnamed, areItems]
        simp only [if_neg isDead, isRun]
      rw [isUndone]
      exact Or.inr ⟨rfl, Or.inr ⟨List.concat_ne_nil _ _, Or.inr hasFault⟩⟩

theorem problems_of_foldl (areNone : (pairs.foldl (recoverPair sha256Hex reads faults options)
    recovery).problems = []) : recovery.problems = [] := by
  induction pairs generalizing recovery with
  | nil => exact areNone
  | cons pair rest ih =>
    have afterFirst := ih areNone
    rcases recoverPair_cases sha256Hex reads faults options recovery pair with
      ⟨_, _, _, _, _, _, isCommitted⟩ | ⟨_, ⟨isSame, _⟩ | ⟨isProblem, _⟩⟩
    · rwa [isCommitted] at afterFirst
    · rwa [isSame] at afterFirst
    · exact absurd afterFirst isProblem

theorem problems_of_noFault (isLive : ∀ threadId, options.live threadId = true) :
    (pairs.foldl (recoverPair sha256Hex reads (fun _ => none) options) recovery).problems =
      recovery.problems := by
  induction pairs generalizing recovery with
  | nil => rfl
  | cons pair rest ih =>
    refine ih.trans ?_
    rcases recoverPair_cases sha256Hex reads (fun _ => none) options recovery pair with
      ⟨_, _, _, _, _, _, isCommitted⟩ | ⟨_, ⟨isSame, _⟩ | ⟨_, isDead | ⟨_, isFault⟩⟩⟩
    · rw [isCommitted]
    · exact isSame
    · exact absurd (isLive pair.threadId) (by rw [isDead]; exact Bool.false_ne_true)
    · exact absurd rfl isFault

variable (faults options) in
theorem recoverPair_lands (recovery : Recovery) (pair : Pair)
    (inReach : options.live pair.threadId = true →
      AllInReach sha256Hex reads pair.threadId (recovery.threads pair.threadId) pair.lines) :
    (options.live pair.threadId = true ∧
      (recoverPair sha256Hex reads faults options recovery pair).threads =
        Function.update recovery.threads pair.threadId ((lineLanding sha256Hex pair.threadId).landAll
          (recovery.threads pair.threadId) pair.lines)) ∨
    (recoverPair sha256Hex reads faults options recovery pair).threads = recovery.threads ∧
      ((recoverPair sha256Hex reads faults options recovery pair).problems = [] →
        pair.lines = [] ∨ options.live pair.threadId = false) := by
  rcases recoverPair_cases sha256Hex reads faults options recovery pair with
    ⟨items, after, isNamed, isLive, areItems, isRun, isCommitted⟩ |
      ⟨areKept, ⟨_, isAccounted⟩ | ⟨isProblem, _⟩⟩
  · refine Or.inl ⟨isLive, ?_⟩
    have areLines : pair.lines = linesFrom (fun _ => 0) items := by
      rw [Pair.lines, if_neg isNamed, areItems]
      rfl
    have reached := inReach isLive
    rw [areLines] at reached ⊢
    rw [isCommitted, importItems_rows isRun reached]
    rfl
  · exact Or.inr ⟨areKept, fun _ => isAccounted⟩
  · exact Or.inr ⟨areKept, fun areNone => absurd areNone isProblem⟩

variable (faults recovery) in
/-- **One run does nothing to a thread, or it lands the lines the file has for it**; without a
problem it lands them in a live thread. -/
theorem foldl_thread (isOnce : ListedOnce pairs)
    (inReach : options.live threadId = true →
      AllInReach sha256Hex reads threadId (recovery.threads threadId) (linesOf pairs threadId)) :
    ((pairs.foldl (recoverPair sha256Hex reads faults options) recovery).threads threadId =
        recovery.threads threadId ∨
      options.live threadId = true ∧
        (pairs.foldl (recoverPair sha256Hex reads faults options) recovery).threads threadId =
          (lineLanding sha256Hex threadId).landAll (recovery.threads threadId)
            (linesOf pairs threadId)) ∧
    ((pairs.foldl (recoverPair sha256Hex reads faults options) recovery).problems = [] →
      options.live threadId = true →
        (pairs.foldl (recoverPair sha256Hex reads faults options) recovery).threads threadId =
          (lineLanding sha256Hex threadId).landAll (recovery.threads threadId)
            (linesOf pairs threadId)) := by
  induction pairs generalizing recovery with
  | nil => exact ⟨Or.inl rfl, fun _ _ => rfl⟩
  | cons pair rest ih =>
    have restOnce := (List.pairwise_cons.1 isOnce).2
    rw [List.foldl_cons]
    generalize isNext : recoverPair sha256Hex reads faults options recovery pair = next
    by_cases isThread : pair.threadId = threadId
    · subst isThread
      by_cases isEmpty : pair.lines = []
      · rw [linesOf_cons_self, isEmpty, List.nil_append] at inReach ⊢
        have isUntouched : next.threads pair.threadId = recovery.threads pair.threadId := by
          have noLines : AllInReach sha256Hex reads pair.threadId
              (recovery.threads pair.threadId) pair.lines := by
            rw [isEmpty]
            trivial
          have nothingLands := recoverPair_lands faults options recovery pair fun _ => noLines
          rw [isNext, isEmpty] at nothingLands
          rcases nothingLands with ⟨_, isLanded⟩ | ⟨areKept, _⟩
          · rw [isLanded, Function.update_self]
            rfl
          · rw [areKept]
        rw [← isUntouched] at inReach ⊢
        exact ih next restOnce inReach
      have restEmpty := linesOf_rest isOnce isEmpty
      rw [linesOf_cons_self, restEmpty, List.append_nil] at inReach ⊢
      have noLines : AllInReach sha256Hex reads pair.threadId (next.threads pair.threadId)
          (linesOf rest pair.threadId) := by
        rw [restEmpty]
        trivial
      have afterRest := ih next restOnce fun _ => noLines
      have isSame : (rest.foldl (recoverPair sha256Hex reads faults options) next).threads
          pair.threadId = next.threads pair.threadId := by
        rw [restEmpty] at afterRest
        exact afterRest.1.elim id fun isLanded => isLanded.2
      rw [isSame]
      have firstPair := recoverPair_lands faults options recovery pair inReach
      rw [isNext] at firstPair
      rcases firstPair with ⟨isLive, isLanded⟩ | ⟨areKept, isAccounted⟩
      · rw [isLanded, Function.update_self]
        exact ⟨Or.inr ⟨isLive, rfl⟩, fun _ _ => rfl⟩
      · rw [areKept]
        refine ⟨Or.inl rfl, fun areNone isLive => ?_⟩
        rcases isAccounted (problems_of_foldl areNone) with isNil | isDead
        · exact absurd isNil isEmpty
        · exact nomatch isLive.symm.trans isDead
    · rw [linesOf_cons_of_ne rest isThread] at inReach ⊢
      have isUntouched : next.threads threadId = recovery.threads threadId := by
        rw [← isNext]
        rcases recoverPair_cases sha256Hex reads faults options recovery pair with
          ⟨_, _, _, _, _, _, isCommitted⟩ | ⟨areKept, _⟩
        · rw [isCommitted]
          exact Function.update_of_ne (Ne.symm isThread) _ _
        · rw [areKept]
      rw [← isUntouched] at inReach ⊢
      exact ih next restOnce inReach

end Murage.SteerQueue.Legacy
