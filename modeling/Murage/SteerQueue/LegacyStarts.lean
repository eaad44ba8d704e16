import Murage.Library.Transition
import Murage.SteerQueue.LegacyPairs

/-!
Owns runs of the import: starts that go through, fail or are stopped part way, and what others
write in between; that the lines of a thread land in it at one moment; and the send id the bounded
search loses.

Does not own: the loop of one run.
-/

namespace Murage.SteerQueue.Legacy

open Murage.Library
open Murage.Library.Transition

/-! ## The system -/

/-- The data folder, and what each run of the queue reported with the options it ran under, which
nothing reads. -/
structure World where
  folder : Folder
  reports : List (Options × LegacyImportResult) := []

inductive Step where
  | started (start : Start)
  /-- The process ends when it has gone over the first `pairs` elements: the transaction of the next
  one is undone, and the file stays. -/
  | stopped (start : Start) (pairs : Nat)
  /-- Anyone else writes a line. -/
  | written (threadId : String) (message : Message)

section

variable (sha256Hex : LineKey → String) (reads : Reads)

def Step.elements (folder : Folder) : Step → Option (Start × SteerQueueEntries)
  | .started start =>
    match folder.file, start.readError with
    | some (.entries waiting), none => some (start, waiting)
    | _, _ => none
  | .stopped start pairs =>
    match folder.file, start.readError with
    | some (.entries waiting), none => some (start, waiting.take pairs)
    | _, _ => none
  | .written _ _ => none

def World.step (world : World) : Step → World
  | .started start =>
    let imported := importLegacyQueueFile sha256Hex reads world.folder start
    { folder := imported.folder
      reports := world.reports ++ (imported.report.map ((start.options, ·))).toList }
  | .stopped start pairs =>
    match Step.elements world.folder (.stopped start pairs) with
    | none => world
    | some (_, waiting) =>
      { world with
        folder.threads :=
          (recoverMirroredQueue sha256Hex reads start.faults waiting world.folder.threads
            start.options).1 }
  | .written threadId message =>
    { world with
      folder.threads :=
        Function.update world.folder.threads threadId
          (world.folder.threads threadId ++ [message]) }

/-- Where a live thread has a line already, the step's import finds it. -/
def SendIdsInReach (world : World) (step : Step) : Prop :=
  match step.elements world.folder with
  | none => True
  | some (start, waiting) =>
    ∀ pair ∈ readable waiting, start.options.live pair.threadId = true →
      AllInReach sha256Hex reads pair.threadId (world.folder.threads pair.threadId) pair.lines

instance (world : World) (step : Step) : Decidable (SendIdsInReach sha256Hex reads world step) :=
  match isElements : step.elements world.folder with
  | none => isTrue (by rw [SendIdsInReach, isElements]; trivial)
  | some (start, waiting) =>
    decidable_of_iff (∀ pair ∈ readable waiting, start.options.live pair.threadId = true →
        AllInReach sha256Hex reads pair.threadId (world.folder.threads pair.threadId) pair.lines)
      (by rw [SendIdsInReach, isElements])

/-- No two lines of a pair have one digest. -/
def CollisionFree (waiting : SteerQueueEntries) : Prop :=
  ∀ pair, some pair ∈ waiting → ∀ first ∈ pair.lines, ∀ second ∈ pair.lines,
    (sha256Hex (first.key pair.threadId)).toList.take 40 =
      (sha256Hex (second.key pair.threadId)).toList.take 40 →
    first.key pair.threadId = second.key pair.threadId

/-- What others wrote into a thread, oldest first. -/
def writtenTo (threadId : String) (steps : List Step) : List Message :=
  steps.filterMap fun
    | .written other message => if other = threadId then some message else none
    | _ => none

/-- The threads after one run in which every thread is live and no append throws. -/
def successfulRun (waiting : SteerQueueEntries) (threads : Threads) : Threads :=
  (recoverMirroredQueue sha256Hex reads (fun _ => none) waiting threads {}).1

/-- A thread with the lines of one successful run, between what others wrote before and after. -/
def LinesOfOneRun (waiting : SteerQueueEntries) (threads : Threads) (written : List Message)
    (threadId : String) (rows : List Message) : Prop :=
  ∃ before after, written = before ++ after ∧
    rows = successfulRun sha256Hex reads waiting
      (Function.update threads threadId (threads threadId ++ before)) threadId ++ after

structure ImportsOnce (waiting : SteerQueueEntries) (threads : Threads) (steps : List Step)
    (world : World) : Prop where
  /-- A thread has no line of the import, or the lines of one successful run. -/
  allOrNothing : ∀ threadId,
    world.folder.threads threadId = threads threadId ++ writtenTo threadId steps ∨
      LinesOfOneRun sha256Hex reads waiting threads (writtenTo threadId steps) threadId
        (world.folder.threads threadId)
  /-- Once a run reports complete, its live threads have the lines of one successful run, and
  each non-empty item is in its thread. -/
  complete : ∀ options result, (options, result) ∈ world.reports → result.complete = true →
    ∀ pair, some pair ∈ waiting → options.live pair.threadId = true →
      LinesOfOneRun sha256Hex reads waiting threads (writtenTo pair.threadId steps) pair.threadId
        (world.folder.threads pair.threadId) ∧
      ∀ line ∈ pair.lines,
        InThread sha256Hex pair.threadId (world.folder.threads pair.threadId) line
  /-- Two lines of a thread are two rows. -/
  apart : ∀ pair, some pair ∈ waiting →
    (pair.lines.map (·.id sha256Hex pair.threadId)).Nodup
  /-- The file stays as it is until a run reports complete. -/
  file : world.folder.file = some (.entries waiting) ∨
    world.folder.file = none ∧ ∃ report ∈ world.reports, report.2.complete = true

end

/-! ## One step -/

variable {sha256Hex : LineKey → String} {reads : Reads} {faults : Faults} {options : Options}
  {waiting : SteerQueueEntries} {threads : Threads} {threadId : String} {world : World}

theorem recoverMirroredQueue_threads :
    (recoverMirroredQueue sha256Hex reads faults waiting threads options).1 =
      ((readable waiting).foldl (recoverPair sha256Hex reads faults options)
        { threads := threads }).threads := by
  rw [recoverMirroredQueue, recoverPairs_eq]

theorem recoverMirroredQueue_complete {result : LegacyImportResult}
    (isReport : (recoverMirroredQueue sha256Hex reads faults waiting threads options).2 =
      some result) (isComplete : result.complete = true) :
    waiting.any Option.isNone = false ∧
      ((readable waiting).foldl (recoverPair sha256Hex reads faults options)
        { threads := threads }).problems = [] := by
  rw [recoverMirroredQueue, recoverPairs_eq] at isReport
  cases arePairs : waiting.any Option.isNone with
  | true =>
    rw [arePairs] at isReport
    cases isReport
  | false =>
    rw [arePairs] at isReport
    cases isReport
    exact ⟨rfl, List.length_eq_zero_iff.1 (of_decide_eq_true isComplete)⟩

theorem successfulRun_thread (isOnce : ListedOnce (readable waiting))
    (inReach : AllInReach sha256Hex reads threadId (threads threadId)
      (linesOf (readable waiting) threadId)) :
    successfulRun sha256Hex reads waiting threads threadId =
      (lineLanding sha256Hex threadId).landAll (threads threadId)
        (linesOf (readable waiting) threadId) := by
  rw [successfulRun, recoverMirroredQueue_threads]
  exact (foldl_thread _ _ isOnce fun _ => inReach).2 (problems_of_noFault fun _ => rfl) rfl

variable (sha256Hex reads) in
theorem importLegacyQueueFile_idle {folder : Folder} {start : Start}
    (isIdle : Step.elements folder (.started start) = none) :
    (importLegacyQueueFile sha256Hex reads folder start).folder = folder ∧
      (importLegacyQueueFile sha256Hex reads folder start).report = none := by
  rw [importLegacyQueueFile]
  rw [Step.elements] at isIdle
  cases isFile : folder.file with
  | none => exact ⟨rfl, rfl⟩
  | some content =>
    cases isRead : start.readError with
    | some error => exact ⟨rfl, rfl⟩
    | none =>
      cases content with
      | invalid => exact ⟨rfl, rfl⟩
      | unexpected => exact ⟨rfl, rfl⟩
      | entries waiting =>
        rw [isFile, isRead] at isIdle
        cases isIdle

variable (sha256Hex reads) in
/-- A start over the file's elements leaves the threads of the run and its report, and it removes
the file only when the run is complete. -/
theorem importLegacyQueueFile_entries {folder : Folder} {start : Start}
    (isFile : folder.file = some (.entries waiting)) (isRead : start.readError = none) :
    (importLegacyQueueFile sha256Hex reads folder start).folder.threads =
        (recoverMirroredQueue sha256Hex reads start.faults waiting folder.threads
          start.options).1 ∧
      (importLegacyQueueFile sha256Hex reads folder start).report =
        (recoverMirroredQueue sha256Hex reads start.faults waiting folder.threads
          start.options).2 ∧
      ((importLegacyQueueFile sha256Hex reads folder start).folder.file = folder.file ∨
        start.unlinks = true ∧
          (importLegacyQueueFile sha256Hex reads folder start).folder.file = none ∧
          ∃ result, (importLegacyQueueFile sha256Hex reads folder start).report = some result ∧
            result.complete = true) := by
  rw [importLegacyQueueFile, isFile, isRead]
  dsimp only
  generalize recoverMirroredQueue sha256Hex reads start.faults waiting folder.threads
    start.options = run
  obtain ⟨after, _ | result⟩ := run
  · exact ⟨rfl, rfl, Or.inl rfl⟩
  dsimp only
  by_cases isComplete : result.complete = false
  · rw [if_pos isComplete]
    exact ⟨rfl, rfl, Or.inl rfl⟩
  by_cases isRemoved : start.unlinks = true
  · rw [if_neg isComplete, if_pos isRemoved]
    exact ⟨rfl, rfl, Or.inr ⟨isRemoved, rfl, result, rfl, eq_true_of_ne_false isComplete⟩⟩
  · rw [if_neg isComplete, if_neg isRemoved]
    exact ⟨rfl, rfl, Or.inl rfl⟩

theorem elements_started {folder : Folder} {start begun : Start}
    (isElements : Step.elements folder (.started start) = some (begun, waiting)) :
    begun = start ∧ folder.file = some (.entries waiting) ∧ start.readError = none := by
  rw [Step.elements] at isElements
  split at isElements
  · cases isElements
    exact ⟨rfl, ‹_›, ‹_›⟩
  · cases isElements

theorem elements_stopped {folder : Folder} {start begun : Start} {pairs : Nat}
    {part : SteerQueueEntries}
    (isElements : Step.elements folder (.stopped start pairs) = some (begun, part)) :
    begun = start ∧ ∃ whole, folder.file = some (.entries whole) ∧ part = whole.take pairs := by
  rw [Step.elements] at isElements
  split at isElements
  · cases isElements
    exact ⟨rfl, _, ‹_›, rfl⟩
  · cases isElements

variable (threadId) in
theorem allInReach_linesOf {pairs : List Pair} (isOnce : ListedOnce pairs) {rows : List Message}
    (inReach : ∀ pair ∈ pairs, pair.threadId = threadId →
      AllInReach sha256Hex reads threadId rows pair.lines) :
    AllInReach sha256Hex reads threadId rows (linesOf pairs threadId) := by
  rcases linesOf_eq_lines threadId isOnce with isEmpty | ⟨pair, isPair, isThread, areLines⟩
  · rw [isEmpty]
    trivial
  · rw [areLines]
    exact inReach pair isPair isThread

/-- **A run over a part of the file does nothing to a thread, or it lands all its lines.** -/
theorem recoverMirroredQueue_thread {part : SteerQueueEntries} (isOnce : ListedOnce (readable waiting))
    (isPart : readable part <+: readable waiting)
    (inReach : ∀ pair ∈ readable part, options.live pair.threadId = true →
      AllInReach sha256Hex reads pair.threadId (threads pair.threadId) pair.lines) :
    (recoverMirroredQueue sha256Hex reads faults part threads options).1 threadId =
        threads threadId ∨
      AllInReach sha256Hex reads threadId (threads threadId)
          (linesOf (readable waiting) threadId) ∧
        (recoverMirroredQueue sha256Hex reads faults part threads options).1 threadId =
          (lineLanding sha256Hex threadId).landAll (threads threadId)
            (linesOf (readable waiting) threadId) := by
  have partOnce : ListedOnce (readable part) := isOnce.sublist isPart.sublist
  have partReached : options.live threadId = true →
      AllInReach sha256Hex reads threadId (threads threadId) (linesOf (readable part) threadId) := by
    refine fun isLive => allInReach_linesOf threadId partOnce fun pair isPair isThread => ?_
    subst isThread
    exact inReach pair isPair isLive
  rw [recoverMirroredQueue_threads]
  rcases (foldl_thread faults { threads := threads } partOnce
      partReached).1 with isUntouched | ⟨isLive, isLanded⟩
  · exact Or.inl isUntouched
  rcases linesOf_prefix threadId isPart isOnce with isEmpty | isWhole
  · rw [isEmpty] at isLanded
    exact Or.inl isLanded
  · rw [isWhole] at isLanded partReached
    exact Or.inr ⟨partReached isLive, isLanded⟩

/-! ## Runs -/

/-- What holds in every state of a run: a thread's lines have landed once or not yet, they have
landed in the live threads of a complete report, and the file is there until such a report. -/
structure Sound (sha256Hex : LineKey → String) (reads : Reads) (waiting : SteerQueueEntries)
    (threads : Threads) (steps : List Step) (world : World) : Prop where
  once : ∀ threadId, (lineLanding sha256Hex threadId).Once
    (AllInReach sha256Hex reads threadId · (linesOf (readable waiting) threadId))
    (linesOf (readable waiting) threadId) (threads threadId) (writtenTo threadId steps)
    (world.folder.threads threadId)
  reported : ∀ options result, (options, result) ∈ world.reports → result.complete = true →
    waiting.any Option.isNone = false ∧
      ∀ pair ∈ readable waiting, options.live pair.threadId = true →
        (lineLanding sha256Hex pair.threadId).Landed
          (AllInReach sha256Hex reads pair.threadId · (linesOf (readable waiting) pair.threadId))
          (linesOf (readable waiting) pair.threadId) (threads pair.threadId)
          (writtenTo pair.threadId steps) (world.folder.threads pair.threadId)
  file : world.folder.file = some (.entries waiting) ∨
    world.folder.file = none ∧ ∃ report ∈ world.reports, report.2.complete = true

theorem step_written (other : String) (message : Message) :
    (world.step sha256Hex reads (.written other message)).folder.threads =
      Function.update world.folder.threads other (world.folder.threads other ++ [message]) := rfl

theorem writtenTo_written (steps : List Step) (message : Message) :
    writtenTo threadId (steps ++ [.written threadId message]) =
      writtenTo threadId steps ++ [message] := by
  rw [writtenTo, List.filterMap_append]
  exact congrArg (writtenTo threadId steps ++ ·) (by simp)

theorem writtenTo_other (steps : List Step) {other : String} (isOther : other ≠ threadId)
    (message : Message) :
    writtenTo threadId (steps ++ [.written other message]) = writtenTo threadId steps := by
  rw [writtenTo, List.filterMap_append]
  simp [isOther, writtenTo]

theorem writtenTo_import (steps : List Step) {step : Step}
    (isImport : ∀ threadId, writtenTo threadId [step] = []) :
    writtenTo threadId (steps ++ [step]) = writtenTo threadId steps := by
  rw [writtenTo, List.filterMap_append]
  exact (congrArg (writtenTo threadId steps ++ ·) (isImport threadId)).trans (List.append_nil _)

namespace Sound

variable {steps : List Step}

theorem written (isSound : Sound sha256Hex reads waiting threads steps world) (other : String)
    (message : Message) :
    Sound sha256Hex reads waiting threads (steps ++ [.written other message])
      (world.step sha256Hex reads (.written other message)) where
  once threadId := by
    by_cases isThread : other = threadId
    · subst isThread
      rw [writtenTo_written, step_written, Function.update_self]
      exact (isSound.once other).grew message
    · rw [writtenTo_other steps isThread, step_written, Function.update_of_ne (Ne.symm isThread)]
      exact isSound.once threadId
  reported options result isReport isComplete := by
    refine (isSound.reported options result isReport isComplete).imp_right ?_
    intro landed pair isPair isLive
    by_cases isThread : other = pair.threadId
    · rw [isThread, writtenTo_written, step_written, Function.update_self]
      exact (landed pair isPair isLive).grew message
    · rw [writtenTo_other steps isThread, step_written, Function.update_of_ne (Ne.symm isThread)]
      exact landed pair isPair isLive
  file := isSound.file

theorem imported (isSound : Sound sha256Hex reads waiting threads steps world) {step : Step}
    (isImport : ∀ threadId, writtenTo threadId [step] = []) {next : World}
    (isThread : ∀ threadId, next.folder.threads threadId = world.folder.threads threadId ∨
      AllInReach sha256Hex reads threadId (world.folder.threads threadId)
          (linesOf (readable waiting) threadId) ∧
        next.folder.threads threadId =
          (lineLanding sha256Hex threadId).landAll (world.folder.threads threadId)
            (linesOf (readable waiting) threadId))
    (isReported : ∀ options result, (options, result) ∈ next.reports → result.complete = true →
      (options, result) ∈ world.reports ∨ waiting.any Option.isNone = false ∧
        ∀ pair ∈ readable waiting, options.live pair.threadId = true →
          AllInReach sha256Hex reads pair.threadId (world.folder.threads pair.threadId)
              (linesOf (readable waiting) pair.threadId) ∧
            next.folder.threads pair.threadId =
              (lineLanding sha256Hex pair.threadId).landAll
                (world.folder.threads pair.threadId) (linesOf (readable waiting) pair.threadId))
    (isFile : next.folder.file = some (.entries waiting) ∨
      next.folder.file = none ∧ ∃ report ∈ next.reports, report.2.complete = true) :
    Sound sha256Hex reads waiting threads (steps ++ [step]) next where
  once threadId := by
    rw [writtenTo_import steps isImport]
    rcases isThread threadId with isUntouched | ⟨isReached, isLanded⟩
    · rw [isUntouched]
      exact isSound.once threadId
    · rw [isLanded]
      exact Or.inr ((isSound.once threadId).landed isReached)
  reported options result isReport isComplete := by
    rcases isReported options result isReport isComplete with isOld | ⟨arePairs, landed⟩
    · refine (isSound.reported options result isOld isComplete).imp_right ?_
      intro landed pair isPair isLive
      rw [writtenTo_import steps isImport]
      have landedBefore := landed pair isPair isLive
      rcases isThread pair.threadId with isUntouched | ⟨_, isLanded⟩
      · rwa [isUntouched]
      · rwa [isLanded, Landing.landAll_of_there landedBefore.there]
    · refine ⟨arePairs, fun pair isPair isLive => ?_⟩
      obtain ⟨isReached, isLanded⟩ := landed pair isPair isLive
      rw [writtenTo_import steps isImport, isLanded]
      exact (isSound.once pair.threadId).landed isReached
  file := isFile

theorem file_eq (isSound : Sound sha256Hex reads waiting threads steps world)
    {found : SteerQueueEntries} (isFile : world.folder.file = some (.entries found)) :
    found = waiting := by
  rcases isSound.file with isIn | ⟨isGone, _⟩
  · rw [isFile] at isIn
    cases isIn
    rfl
  · rw [isFile] at isGone
    cases isGone

theorem started (isSound : Sound sha256Hex reads waiting threads steps world)
    (isOnce : ListedOnce (readable waiting)) (start : Start)
    (inReach : SendIdsInReach sha256Hex reads world (.started start)) :
    Sound sha256Hex reads waiting threads (steps ++ [.started start])
      (world.step sha256Hex reads (.started start)) := by
  cases isElements : Step.elements world.folder (.started start) with
  | none =>
    obtain ⟨isFolder, isReport⟩ :=
      importLegacyQueueFile_idle sha256Hex reads isElements
    have isIdle : world.step sha256Hex reads (.started start) = world := by
      rw [World.step, isFolder, isReport, Option.map_none, Option.toList_none, List.append_nil]
    rw [isIdle]
    exact isSound.imported (fun _ => rfl) (fun _ => Or.inl rfl) (fun _ _ isOld _ => Or.inl isOld)
      isSound.file
  | some elements =>
    obtain ⟨begun, found⟩ := elements
    rw [SendIdsInReach, isElements] at inReach
    obtain ⟨rfl, isFile, isRead⟩ := elements_started isElements
    obtain rfl := isSound.file_eq isFile
    obtain ⟨areThreads, isReport, isKept⟩ :=
      importLegacyQueueFile_entries sha256Hex reads isFile isRead
    refine isSound.imported (fun _ => rfl) (fun threadId => ?_) ?_ ?_
    · rw [World.step, areThreads]
      exact recoverMirroredQueue_thread isOnce List.prefix_rfl inReach
    · intro options result isIn isComplete
      rcases List.mem_append.1 isIn with isOld | isNew
      · exact Or.inl isOld
      obtain ⟨reported, isReported, isPair⟩ := Option.map_eq_some_iff.1 (Option.mem_toList.1 isNew)
      cases isPair
      rw [isReport] at isReported
      obtain ⟨arePairs, noProblem⟩ := recoverMirroredQueue_complete isReported isComplete
      refine Or.inr ⟨arePairs, fun pair isPair isLive => ?_⟩
      have isReached := allInReach_linesOf pair.threadId isOnce
        fun other isOther isSame => isSame ▸ inReach other isOther (isSame ▸ isLive)
      refine ⟨isReached, ?_⟩
      rw [World.step, areThreads, recoverMirroredQueue_threads]
      exact (foldl_thread _ _ isOnce fun _ => isReached).2 noProblem isLive
    · rcases isKept with isSame | ⟨_, isGone, result, isReported, isComplete⟩
      · exact Or.inl (isSame.trans isFile)
      · refine Or.inr ⟨isGone, (begun.options, result), ?_, isComplete⟩
        refine List.mem_append_right _ (Option.mem_toList.2 ?_)
        rw [isReported]
        rfl

theorem stopped (isSound : Sound sha256Hex reads waiting threads steps world)
    (isOnce : ListedOnce (readable waiting)) (start : Start) (pairs : Nat)
    (inReach : SendIdsInReach sha256Hex reads world (.stopped start pairs)) :
    Sound sha256Hex reads waiting threads (steps ++ [.stopped start pairs])
      (world.step sha256Hex reads (.stopped start pairs)) := by
  cases isElements : Step.elements world.folder (.stopped start pairs) with
  | none =>
    have isIdle : world.step sha256Hex reads (.stopped start pairs) = world := by
      rw [World.step, isElements]
    rw [isIdle]
    exact isSound.imported (fun _ => rfl) (fun _ => Or.inl rfl) (fun _ _ isOld _ => Or.inl isOld)
      isSound.file
  | some elements =>
    obtain ⟨begun, part⟩ := elements
    rw [SendIdsInReach, isElements] at inReach
    have isNext : world.step sha256Hex reads (.stopped start pairs) =
        { world with
          folder.threads :=
            (recoverMirroredQueue sha256Hex reads start.faults part world.folder.threads
              start.options).1 } := by
      rw [World.step, isElements]
    obtain ⟨rfl, whole, isFile, rfl⟩ := elements_stopped isElements
    obtain rfl := isSound.file_eq isFile
    rw [isNext]
    exact isSound.imported (fun _ => rfl)
      (fun threadId => recoverMirroredQueue_thread isOnce (readable_take whole pairs) inReach)
      (fun _ _ isOld _ => Or.inl isOld) isSound.file

end Sound

theorem ids_nodup {pair : Pair} (collisionFree : CollisionFree sha256Hex waiting)
    (isListed : some pair ∈ waiting) :
    (pair.lines.map (·.id sha256Hex pair.threadId)).Nodup := by
  have areKeys : (pair.lines.map (Line.key pair.threadId)).Nodup := by
    rw [Pair.lines]
    split
    · exact List.nodup_nil
    · exact keys_nodup _ _ _
  refine (List.nodup_map_iff_inj_on (List.Nodup.of_map _ areKeys)).2 ?_
  intro first isFirst second isSecond isSame
  have sameDigest : (sha256Hex (first.key pair.threadId)).toList.take 40 =
      (sha256Hex (second.key pair.threadId)).toList.take 40 := by
    have sameText := congrArg String.toList isSame
    simpa [Line.id, legacyLineId, Line.key] using sameText
  exact List.inj_on_of_nodup_map areKeys isFirst isSecond
    (collisionFree pair isListed first isFirst second isSecond sameDigest)

theorem sound_initial (waiting : SteerQueueEntries) (threads : Threads) :
    Sound sha256Hex reads waiting threads [] { folder := ⟨some (.entries waiting), threads⟩ } where
  once _ := Or.inl (List.append_nil _).symm
  reported _ _ isReport := nomatch isReport
  file := Or.inl rfl

theorem sound_of_run {steps : List Step} (isOnce : ListedOnce (readable waiting))
    (run : Run (Restrict (ofFunction (World.step sha256Hex reads)) (SendIdsInReach sha256Hex reads))
      { folder := ⟨some (.entries waiting), threads⟩ } steps world) :
    Sound sha256Hex reads waiting threads steps world := by
  induction run with
  | nil => exact sound_initial waiting threads
  | @snoc steps before next step _ taken ih =>
    obtain ⟨isNext, inReach⟩ := taken
    obtain rfl : next = before.step sha256Hex reads step := isNext
    cases step with
    | started start => exact ih.started isOnce start inReach
    | stopped start pairs => exact ih.stopped isOnce start pairs inReach
    | written threadId message => exact ih.written threadId message

theorem linesOfOneRun_of_landed {written rows : List Message}
    (isOnce : ListedOnce (readable waiting))
    (isLanded : (lineLanding sha256Hex threadId).Landed
      (AllInReach sha256Hex reads threadId · (linesOf (readable waiting) threadId))
      (linesOf (readable waiting) threadId) (threads threadId) written rows) :
    LinesOfOneRun sha256Hex reads waiting threads written threadId rows := by
  obtain ⟨before, after, rfl, inReach, rfl⟩ := isLanded
  refine ⟨before, after, rfl, ?_⟩
  have isThread : Function.update threads threadId (threads threadId ++ before) threadId =
      threads threadId ++ before := Function.update_self _ _ _
  rw [successfulRun_thread isOnce (by rwa [isThread]), isThread]

/-- **The legacy import is idempotent and all or nothing.** Over any starts that go through, fail at
any append or are stopped, and whatever others write in between, a thread has no line of the import
or the lines of one successful run; a run that reports complete has every non-empty item of every
live thread in its thread. This holds when no thread has lines in two pairs of the file and no line
is taken for missing because the row of its send id is older than the newest 1000 rows. -/
theorem recoverMirroredQueue_once {steps : List Step}
    (collisionFree : CollisionFree sha256Hex waiting) (isOnce : ListedOnce (readable waiting))
    (run : Run (Restrict (ofFunction (World.step sha256Hex reads)) (SendIdsInReach sha256Hex reads))
      { folder := ⟨some (.entries waiting), threads⟩ } steps world) :
    ImportsOnce sha256Hex reads waiting threads steps world := by
  have isSound := sound_of_run isOnce run
  exact
    { allOrNothing := fun threadId =>
        (isSound.once threadId).imp_right (linesOfOneRun_of_landed isOnce)
      complete := fun options result isReport isComplete pair isListed isLive => by
        obtain ⟨arePairs, landed⟩ := isSound.reported options result isReport isComplete
        have isPair := mem_readable arePairs isListed
        have isLanded := landed pair isPair isLive
        exact ⟨linesOfOneRun_of_landed isOnce isLanded,
          fun line isLine => isLanded.there line (mem_linesOf isPair isLine)⟩
      apart := fun pair isListed => ids_nodup collisionFree isListed
      file := isSound.file }

def exampleDigest (key : LineKey) : String :=
  if key = ⟨"t", ⟨none, some "s", "hello"⟩, 0⟩ then
    "36c3fe985fe1c28e8b3671c273d4171f575fbc059b1a41f1c055110231ff4bc9"
  else if key = ⟨"t", ⟨some "q2", none, "second"⟩, 0⟩ then
    "4d343e780e76ef5b1f065f1dbf513ece3d3a28efd29edfaf805157a9f809d9db"
  else if key = ⟨"t", ⟨none, none, "same words"⟩, 0⟩ then
    "77d4749c29a07cdf3aa419cf73a8a69fcd621cf2435f5d584be1be23e00be40d"
  else if key = ⟨"t", ⟨none, none, "same words"⟩, 1⟩ then
    "1332c6bf6b43948b686856eff5a446cd9bbae2e835a43689a3b5dfc22980a82a"
  else ""

def repeatedItem : Item where
  text := "same words"

/-- A start whose second append fails, and one that goes through. -/
def exampleSteps : List Step :=
  [.started { faults := fun call => if call = 1 then some "disk full" else none }, .started {}]

theorem recoverMirroredQueue_once_example :
    ImportsOnce exampleDigest .keyed [some ⟨"t", some [some repeatedItem, some repeatedItem]⟩]
      (fun _ => []) exampleSteps
      (exampleSteps.foldl (World.step exampleDigest .keyed)
        { folder :=
            ⟨some (.entries [some ⟨"t", some [some repeatedItem, some repeatedItem]⟩]),
              fun _ => []⟩ }) :=
  recoverMirroredQueue_once
    (by
      intro pair isListed
      cases List.mem_singleton.1 isListed
      decide +kernel)
    (by decide +kernel)
    (Run.foldl_along ⟨by decide +kernel, by decide +kernel, trivial⟩)

/-! ## Where the import adds a line again -/

def sentItem : Item where
  text := "hello"
  sendId := some "s"

def secondItem : Item where
  messageId := some "q2"
  text := "second"

/-- The thread has the first item's line by its send id, before 999 rows of others. -/
def longThread : List Message :=
  { id := "m", role := "user", kind := "text", text := some "hello", sendId := some "s" } ::
    (List.range 999).map fun n =>
      { id := "m" ++ toString n, role := "bot", kind := "text", text := some "words" }

def sentPair : Pair where
  threadId := "t"
  items := some [some sentItem, some secondItem]

/-- The folder with the long thread. -/
def keptFile : World where
  folder := ⟨some (.entries [some sentPair]), fun _ => longThread⟩

/-- The file lists the thread twice, and the first append fails. -/
def listedTwice : World where
  folder :=
    ⟨some (.entries [some ⟨"t", some [some sentItem]⟩, some ⟨"t", some [some secondItem]⟩]),
      fun _ => []⟩

def diskFull : Step := .started { faults := fun call => if call = 0 then some "disk full" else none }

/-- **A second run adds a line the first one found**, once the row with its send id is no longer
among the newest 1000; and a thread that the file lists twice gets a part of its lines. -/
theorem import_not_once :
    (ListedOnce (readable [some sentPair]) ∧
      ¬ ImportsOnce exampleDigest .keyed [some sentPair] (fun _ => longThread)
        [.started { unlinks := false }, .started { unlinks := false }]
        ((keptFile.step exampleDigest .keyed (.started { unlinks := false })).step exampleDigest
          .keyed (.started { unlinks := false }))) ∧
    (SendIdsInReach exampleDigest .keyed listedTwice diskFull ∧
      ¬ ImportsOnce exampleDigest .keyed
        [some ⟨"t", some [some sentItem]⟩, some ⟨"t", some [some secondItem]⟩] (fun _ => [])
        [diskFull] (listedTwice.step exampleDigest .keyed diskFull)) := by
  refine ⟨⟨by decide +kernel, fun isOnce => ?_⟩, by decide +kernel, fun isOnce => ?_⟩
  · have areTwo : (((keptFile.step exampleDigest .keyed (.started { unlinks := false })).step
        exampleDigest .keyed (.started { unlinks := false })).folder.threads "t").length = 1002 := by
      decide +kernel
    rcases isOnce.allOrNothing "t" with areNone | ⟨before, after, areNil, areOne⟩
    · rw [areNone] at areTwo
      exact absurd areTwo (by decide +kernel)
    · obtain ⟨rfl, rfl⟩ := List.append_eq_nil_iff.1 areNil.symm
      rw [areOne] at areTwo
      exact absurd areTwo (by decide +kernel)
  · have isPart : (listedTwice.step exampleDigest .keyed diskFull).folder.threads "t" =
        [legacyMessage (legacyLineId exampleDigest "t" secondItem 0) secondItem] := by
      decide +kernel
    rcases isOnce.allOrNothing "t" with areNone | ⟨before, after, areNil, areOne⟩
    · rw [areNone] at isPart
      exact absurd isPart (by decide +kernel)
    · obtain ⟨rfl, rfl⟩ := List.append_eq_nil_iff.1 areNil.symm
      rw [areOne] at isPart
      exact absurd isPart (by decide +kernel)

end Murage.SteerQueue.Legacy
