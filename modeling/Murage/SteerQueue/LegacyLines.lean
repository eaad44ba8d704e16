import Murage.Library.Landing
import Murage.SteerQueue.LegacyImport

/-!
Owns what one entry of the file puts into its thread: its lines with their occurrences, when a
thread has a line, when the import's bounded search gives the same answer, and that a committed
entry lands its lines.

Does not own: the loop over the pairs, and runs of the import.
-/

namespace Murage.SteerQueue.Legacy

open Murage.Library
open Murage.OwnerSends

/-! ## The lines of an entry -/

/-- A non-empty item with the number of items before it that have its words. -/
structure Line where
  item : Item
  occurrence : Nat
deriving DecidableEq, Repr

def linesFrom (seen : Words → Nat) : List (Option Item) → List Line
  | [] => []
  | none :: rest => linesFrom seen rest
  | some item :: rest =>
    if item.text = "" then linesFrom seen rest
    else
      ⟨item, seen item.words⟩ ::
        linesFrom (Function.update seen item.words (seen item.words + 1)) rest

/-- An entry without a thread id belongs to no thread. -/
def Pair.lines (pair : Pair) : List Line :=
  if pair.threadId = "" then [] else linesFrom (fun _ => 0) (pair.items.getD [])

def Line.key (threadId : String) (line : Line) : LineKey where
  threadId := threadId
  words := line.item.words
  occurrence := line.occurrence

theorem le_occurrence_of_mem {seen : Words → Nat} {items : List (Option Item)} {line : Line}
    (isLine : line ∈ linesFrom seen items) : seen line.item.words ≤ line.occurrence := by
  induction items generalizing seen with
  | nil => cases isLine
  | cons first rest ih =>
    cases first with
    | none => exact ih isLine
    | some item =>
      rw [linesFrom] at isLine
      split at isLine
      · exact ih isLine
      rcases List.mem_cons.1 isLine with rfl | isLater
      · exact le_rfl
      have isCounted := ih isLater
      by_cases isSame : line.item.words = item.words
      · rw [isSame, Function.update_self] at isCounted
        rw [isSame]
        omega
      · rwa [Function.update_of_ne isSame] at isCounted

/-- **The occurrence tells the lines of an entry apart.** -/
theorem keys_nodup (threadId : String) (seen : Words → Nat) (items : List (Option Item)) :
    ((linesFrom seen items).map (Line.key threadId)).Nodup := by
  induction items generalizing seen with
  | nil => exact List.nodup_nil
  | cons first rest ih =>
    cases first with
    | none => exact ih seen
    | some item =>
      rw [linesFrom]
      split
      · exact ih seen
      rw [List.map_cons, List.nodup_cons]
      refine ⟨fun isRepeated => ?_, ih _⟩
      obtain ⟨line, isLater, isSame⟩ := List.mem_map.1 isRepeated
      have sameWords : line.item.words = item.words := congrArg LineKey.words isSame
      have sameCount : line.occurrence = seen item.words := congrArg LineKey.occurrence isSame
      have isCounted := le_occurrence_of_mem isLater
      rw [sameWords, Function.update_self] at isCounted
      omega

/-! ## The threads as logs -/

section

variable (sha256Hex : LineKey → String) (reads : Reads) (faults : Faults) (threadId : String)

def Line.id (line : Line) : String := legacyLineId sha256Hex threadId line.item line.occurrence

def Line.message (line : Line) : Message := legacyMessage (line.id sha256Hex threadId) line.item

def InThread (rows : List Message) (line : Line) : Prop :=
  (alreadyThere .whole rows line.item || hasId rows (line.id sha256Hex threadId)) = true

/-- What the import's tests answer: its search for a send id may be bounded. -/
def Found (rows : List Message) (line : Line) : Prop :=
  (alreadyThere reads rows line.item || hasId rows (line.id sha256Hex threadId)) = true

instance (rows : List Message) (line : Line) : Decidable (InThread sha256Hex threadId rows line) :=
  instDecidableEqBool _ _

instance (rows : List Message) (line : Line) :
    Decidable (Found sha256Hex reads threadId rows line) :=
  instDecidableEqBool _ _

end

variable {sha256Hex : LineKey → String} {reads : Reads} {faults : Faults} {threadId : String}
  {rows : List Message}

theorem hasId_append {id : String} (more : List Message) (isIn : hasId rows id = true) :
    hasId (rows ++ more) id = true := by
  rw [hasId, List.any_append]
  exact Bool.or_eq_true_iff.2 (Or.inl isIn)

theorem alreadyThere_append {item : Item} (more : List Message)
    (isIn : alreadyThere .whole rows item = true) :
    alreadyThere .whole (rows ++ more) item = true := by
  rcases Bool.or_eq_true_iff.1 isIn with byId | bySendId
  · refine Bool.or_eq_true_iff.2 (Or.inl ?_)
    obtain ⟨id, isId, isHeld⟩ := (Option.any_eq_true _ _).1 byId
    exact (Option.any_eq_true _ _).2 ⟨id, isId, hasId_append more isHeld⟩
  · refine Bool.or_eq_true_iff.2 (Or.inr ?_)
    obtain ⟨sendId, isId, isHeld⟩ := (Option.any_eq_true _ _).1 bySendId
    refine (Option.any_eq_true _ _).2 ⟨sendId, isId, ?_⟩
    rw [hasSendId, List.any_append]
    exact Bool.or_eq_true_iff.2 (Or.inl isHeld)

theorem alreadyThere_whole {item : Item} (isFound : alreadyThere reads rows item = true) :
    alreadyThere .whole rows item = true := by
  rcases Bool.or_eq_true_iff.1 isFound with byId | bySendId
  · exact Bool.or_eq_true_iff.2 (Or.inl byId)
  refine Bool.or_eq_true_iff.2 (Or.inr ?_)
  obtain ⟨sendId, isId, isHeld⟩ := (Option.any_eq_true _ _).1 bySendId
  refine (Option.any_eq_true _ _).2 ⟨sendId, isId, ?_⟩
  cases reads with
  | whole => exact isHeld
  | keyed =>
    obtain ⟨row, isRow, isBearer⟩ := List.find?_isSome.1 isHeld
    exact List.any_eq_true.2 ⟨row, List.mem_reverse.1 (List.mem_of_mem_take isRow), isBearer⟩

/-- **A thread is a log in which the lines of its entry land.** -/
def lineLanding (sha256Hex : LineKey → String) (threadId : String) : Landing Message Line where
  There := InThread sha256Hex threadId
  decides _ _ := inferInstance
  write := Line.message sha256Hex threadId
  grows more isThere := by
    rcases Bool.or_eq_true_iff.1 isThere with byMark | byId
    · exact Bool.or_eq_true_iff.2 (Or.inl (alreadyThere_append more byMark))
    · exact Bool.or_eq_true_iff.2 (Or.inr (hasId_append more byId))
  wrote rows line := by
    refine Bool.or_eq_true_iff.2 (Or.inr ?_)
    rw [hasId, List.any_append]
    exact Bool.or_eq_true_iff.2 (Or.inr (List.any_eq_true.2
      ⟨line.message sha256Hex threadId, List.mem_singleton.2 rfl, beq_self_eq_true _⟩))

/-! ## What the bounded search may miss -/

def InReach (sha256Hex : LineKey → String) (reads : Reads) (threadId : String)
    (rows : List Message) (line : Line) : Prop :=
  InThread sha256Hex threadId rows line → Found sha256Hex reads threadId rows line

/-- The lines are in reach one after the other, each in the thread the lines before it leave. -/
def AllInReach (sha256Hex : LineKey → String) (reads : Reads) (threadId : String) :
    List Message → List Line → Prop
  | _, [] => True
  | rows, line :: rest =>
    InReach sha256Hex reads threadId rows line ∧
      AllInReach sha256Hex reads threadId ((lineLanding sha256Hex threadId).land rows line) rest

instance (rows : List Message) (line : Line) :
    Decidable (InReach sha256Hex reads threadId rows line) :=
  inferInstanceAs (Decidable (_ → _))

instance decidableAllInReach : ∀ (rows : List Message) (lines : List Line),
    Decidable (AllInReach sha256Hex reads threadId rows lines)
  | _, [] => isTrue trivial
  | rows, line :: rest =>
    have := decidableAllInReach ((lineLanding sha256Hex threadId).land rows line) rest
    inferInstanceAs (Decidable (_ ∧ _))

/-! ## The transaction -/

variable {tx after : Transaction}

theorem importItem_text {item : Item} (hasText : item.text ≠ "") :
    importItem sha256Hex reads faults threadId tx (some item) =
      let line : Line := ⟨item, tx.seen item.words⟩
      let seen := Function.update tx.seen item.words (tx.seen item.words + 1)
      if Found sha256Hex reads threadId tx.rows line then .ok { tx with seen := seen }
      else
        match faults tx.calls with
        | some error => .error ⟨error, tx.calls + 1⟩
        | none =>
          .ok
            { rows := tx.rows ++ [line.message sha256Hex threadId]
              seen := seen
              calls := tx.calls + 1
              threadAdded := tx.threadAdded + 1 } := by
  rw [importItem, if_neg hasText]
  by_cases isMarked : alreadyThere reads tx.rows item = true
  · have isFound : Found sha256Hex reads threadId tx.rows ⟨item, tx.seen item.words⟩ :=
      Bool.or_eq_true_iff.2 (Or.inl isMarked)
    simp only [if_pos isMarked, if_pos isFound]
  by_cases isHeld :
      hasId tx.rows (legacyLineId sha256Hex threadId item (tx.seen item.words)) = true
  · have isFound : Found sha256Hex reads threadId tx.rows ⟨item, tx.seen item.words⟩ :=
      Bool.or_eq_true_iff.2 (Or.inr isHeld)
    simp only [if_neg isMarked, if_pos isHeld, if_pos isFound]
  have isFound : ¬ Found sha256Hex reads threadId tx.rows ⟨item, tx.seen item.words⟩ :=
    fun isFound => (Bool.or_eq_true_iff.1 isFound).elim isMarked isHeld
  simp only [if_neg isMarked, if_neg isHeld, if_neg isFound]
  cases faults tx.calls with
  | some error => rfl
  | none =>
    have isNew : ¬ hasId tx.rows (legacyMessage (legacyLineId sha256Hex threadId item
        (tx.seen item.words)) item).id = true := isHeld
    simp only [appendMessage, if_neg isNew]
    rfl

/-- **A committed entry lands its lines**, where its tests reach them. -/
theorem importItems_rows {items : List (Option Item)}
    (isCommitted : importItems sha256Hex reads faults threadId tx items = .ok after)
    (inReach : AllInReach sha256Hex reads threadId tx.rows (linesFrom tx.seen items)) :
    after.rows = (lineLanding sha256Hex threadId).landAll tx.rows (linesFrom tx.seen items) := by
  induction items generalizing tx with
  | nil =>
    cases isCommitted
    rfl
  | cons first rest ih =>
    cases first with
    | none => exact ih isCommitted inReach
    | some item =>
      by_cases hasText : item.text = ""
      · rw [importItems, importItem, if_pos hasText] at isCommitted
        rw [linesFrom, if_pos hasText] at inReach ⊢
        exact ih isCommitted inReach
      rw [importItems, importItem_text hasText] at isCommitted
      rw [linesFrom, if_neg hasText] at inReach ⊢
      obtain ⟨firstReached, restReached⟩ := inReach
      rw [Landing.landAll, List.foldl_cons]
      by_cases isFound : Found sha256Hex reads threadId tx.rows ⟨item, tx.seen item.words⟩
      · simp only [if_pos isFound] at isCommitted
        have isIn : (lineLanding sha256Hex threadId).There tx.rows ⟨item, tx.seen item.words⟩ := by
          rcases Bool.or_eq_true_iff.1 isFound with byMark | byId
          · exact Bool.or_eq_true_iff.2 (Or.inl (alreadyThere_whole byMark))
          · exact Bool.or_eq_true_iff.2 (Or.inr byId)
        rw [Landing.land_of_there isIn] at restReached ⊢
        exact ih isCommitted restReached
      · have isMissing : ¬ (lineLanding sha256Hex threadId).There tx.rows
            ⟨item, tx.seen item.words⟩ := fun isIn => isFound (firstReached isIn)
        rw [Landing.land_of_not_there isMissing] at restReached ⊢
        cases isFault : faults tx.calls with
        | some error =>
          simp only [if_neg isFound, isFault] at isCommitted
          cases isCommitted
        | none =>
          simp only [if_neg isFound, isFault] at isCommitted
          exact ih isCommitted restReached

variable (sha256Hex reads threadId) in
theorem importItems_commits (items : List (Option Item)) (tx : Transaction) :
    ∃ after, importItems sha256Hex reads (fun _ => none) threadId tx items = .ok after := by
  induction items generalizing tx with
  | nil => exact ⟨tx, rfl⟩
  | cons first rest ih =>
    cases first with
    | none => exact ih tx
    | some item =>
      by_cases hasText : item.text = ""
      · rw [importItems, importItem, if_pos hasText]
        exact ih tx
      rw [importItems, importItem_text hasText]
      by_cases isFound : Found sha256Hex reads threadId tx.rows ⟨item, tx.seen item.words⟩
      · simp only [if_pos isFound]
        exact ih _
      · simp only [if_neg isFound]
        exact ih _

end Murage.SteerQueue.Legacy
