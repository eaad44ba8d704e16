import Mathlib.Algebra.Order.Floor.Ring
import Mathlib.Data.List.Sort
import Mathlib.Data.Rat.Floor
import Murage.Library.Utf16

/-!
Owns the tasks a frame carries and the older ones behind it: what the window keeps, the cursor as a
text, and one page of older tasks.

Does not own: what a task records beside the fields the window reads, and how a number is printed.
-/

namespace Murage.TaskWindow

open Murage.Library.Utf16

def TASK_PAGE_MAX : Int := 200
def TASK_PAGE_DEFAULT : Int := 50

def colon : UInt16 := 0x3a

/-- How a finite number is printed and read. A number prints without a colon and not as nothing, and
what is printed reads as the number; a text that spells no finite number reads as none. -/
structure Numerals (ν : Type) where
  text : ν → Text
  read : Text → Option ν
  noColon : ∀ number, colon ∉ text number
  notEmpty : ∀ number, text number ≠ []
  readsBack : ∀ number, read (text number) = some number

/-- A task, with a finite number for its time; `record` is the rest of it. -/
structure WindowTask (ν γ : Type) where
  threadId : Text
  createdAt : ν
  pinned : Option Bool
  unread : Option Bool
  busy : Option Bool
  activity : Option Text
  unreadCount : Option ℚ
  record : γ
deriving DecidableEq

/-- A number of JavaScript, as a limit may be any. -/
inductive Num where
  | nan
  | infinite (isNegative : Bool)
  | finite (value : ℚ)

variable {ν γ : Type} [LinearOrder ν]

def isUnread (task : WindowTask ν γ) : Bool :=
  task.unread == some true || decide (0 < task.unreadCount.getD 0)

def mustKeepTask (task : WindowTask ν γ) (currentThreadId : Text) (extra : List Text) : Bool :=
  task.threadId == currentThreadId || task.pinned == some true || isUnread task ||
    task.busy == some true ||
    (task.activity.isSome && task.activity != some (units "idle")) ||
    extra.contains task.threadId

def newerFirst (at₁ : ν) (id₁ : Text) (at₂ : ν) (id₂ : Text) : Int :=
  if at₂ < at₁ then -1
  else if at₁ < at₂ then 1
  else if id₁ < id₂ then -1
  else if id₁ > id₂ then 1
  else 0

def sortNewerFirst (tasks : List (WindowTask ν γ)) : List (WindowTask ν γ) :=
  tasks.mergeSort fun a b => newerFirst a.createdAt a.threadId b.createdAt b.threadId ≤ 0

structure TaskWindow (ν γ : Type) where
  tasks : List (WindowTask ν γ)
  total : Nat
  older : Option Text

def unreadKeep (size : Nat) : Nat := max 1 ((size + 1) / 2)

def mustKeepTaskNow (task : WindowTask ν γ) (currentThreadId : Text) (extra : List Text) : Bool :=
  mustKeepTask { task with unread := none, unreadCount := none } currentThreadId extra

def encodeTaskCursor (numerals : Numerals ν) (task : WindowTask ν γ) : Text :=
  numerals.text task.createdAt ++ colon :: task.threadId

def decodeTaskCursor (numerals : Numerals ν) (cursor : Text) : Option (ν × Text) :=
  match cursor.idxOf? colon with
  | none => none
  | some 0 => none
  | some split =>
    match numerals.read (cursor.take split) with
    | none => none
    | some createdAt =>
      let threadId := cursor.drop (split + 1)
      if threadId ≠ [] then some (createdAt, threadId) else none

def windowTasks (numerals : Numerals ν) (tasks : List (WindowTask ν γ)) (currentThreadId : Text)
    (extra : List Text) (size : Nat) : TaskWindow ν γ :=
  if tasks.length ≤ size then ⟨tasks, tasks.length, none⟩
  else
    let ranked := (sortNewerFirst tasks).take size
    let newest := ranked.map (·.threadId)
    let unread := ((sortNewerFirst (tasks.filter fun task =>
      !newest.contains task.threadId && isUnread task &&
        !mustKeepTaskNow task currentThreadId extra)).take (unreadKeep size)).map (·.threadId)
    ⟨tasks.filter fun task => newest.contains task.threadId || unread.contains task.threadId ||
        mustKeepTaskNow task currentThreadId extra,
      tasks.length, ranked.getLast?.map (encodeTaskCursor numerals)⟩

structure TaskPage (ν γ : Type) where
  tasks : List (WindowTask ν γ)
  next : Option Text
  total : Nat

/-- `Math.max(1, Math.min(TASK_PAGE_MAX, Math.trunc(limit) || TASK_PAGE_DEFAULT))`. -/
def pageSize : Num → Nat
  | .nan => TASK_PAGE_DEFAULT.toNat
  | .infinite true => 1
  | .infinite false => TASK_PAGE_MAX.toNat
  | .finite limit =>
    let whole := if 0 ≤ limit then ⌊limit⌋ else ⌈limit⌉
    (max 1 (min TASK_PAGE_MAX (if whole = 0 then TASK_PAGE_DEFAULT else whole))).toNat

/-- `start < 0 ? [] : ordered.slice(start)`. -/
def sliceFrom (ordered : List (WindowTask ν γ)) : Option Nat → List (WindowTask ν γ)
  | none => []
  | some start => ordered.drop start

/-- The page after a decoded position, or the first. -/
def pageFrom (numerals : Numerals ν) (tasks : List (WindowTask ν γ)) (start : Option (ν × Text))
    (limit : Num) : TaskPage ν γ :=
  let size := pageSize limit
  let ordered := sortNewerFirst tasks
  let rest :=
    match start with
    | none => ordered
    | some (createdAt, threadId) =>
      sliceFrom ordered <| ordered.findIdx? fun task : WindowTask ν γ =>
        0 < newerFirst task.createdAt task.threadId createdAt threadId
  let page := rest.take size
  ⟨page, if size < rest.length then page.getLast?.map (encodeTaskCursor numerals) else none,
    tasks.length⟩

/-- A cursor that cannot be read is refused. -/
def pageTasks (numerals : Numerals ν) (tasks : List (WindowTask ν γ)) (before : Option Text)
    (limit : Num) : Option (TaskPage ν γ) :=
  match before with
  | none => some (pageFrom numerals tasks none limit)
  | some cursor =>
    match decodeTaskCursor numerals cursor with
    | none => none
    | some start => some (pageFrom numerals tasks (some start) limit)

/-- A reader that asks for older pages, each ask with the tasks as they are then and a limit of its
own, until `next` is absent or it stops asking: the pages, and the cursor it stops at. -/
def follow (numerals : Numerals ν) :
    Option Text → List (List (WindowTask ν γ) × Num) → Option (List (TaskPage ν γ) × Option Text)
  | none, _ => some ([], none)
  | some cursor, [] => some ([], some cursor)
  | some cursor, (tasks, limit) :: asks =>
    match pageTasks numerals tasks (some cursor) limit with
    | none => none
    | some page => (follow numerals page.next asks).map fun rest => (page :: rest.1, rest.2)

end Murage.TaskWindow
