import Mathlib.Data.List.Count

/-!
Owns the stack of transaction frames: opening and ending one, the hooks registered in it, and
`scopedTx` around a piece of work.

Does not own: the SQL statements a frame stands for. What the program and its hooks do between two
calls is not looked at; the calls themselves come in any order that closes what it opens.
-/

namespace Murage.TxScope

/-- One registration of a hook. The same function registered twice is two of these. -/
abbrev HookId := Nat

structure Frame where
  commit : List HookId
  rollback : List HookId
deriving DecidableEq, Repr

/-- What is seen from outside: frames opening and ending, hooks being called, and the line written
when a hook throws after a commit. -/
inductive Entry where
  | opened
  | closed (committed : Bool)
  | ran (hook : HookId)
  | reported (hook : HookId)
deriving DecidableEq, Repr

/-- The open frames, the innermost first, and what has been seen so far. -/
structure State where
  frames : List Frame := []
  log : List Entry := []
deriving DecidableEq, Repr

def State.note (state : State) (entry : Entry) : State :=
  { state with log := state.log ++ [entry] }

@[simp] theorem State.note_eq (frames : List Frame) (log : List Entry) (entry : Entry) :
    (State.mk frames log).note entry = ⟨frames, log ++ [entry]⟩ := rfl

/-- A function called for its effect: whether it throws, and the state it leaves. -/
abbrev Call := State → Bool × State

/-- `for (const fn of hooks) { try { fn(); } catch { … } }`, with the failures reported or not. -/
abbrev Loop := (isReported : Bool) → List HookId → State → State

def txScopeBegin (state : State) : State :=
  { state.note .opened with frames := ⟨[], []⟩ :: state.frames }

def txScopeEnd (loop : Loop) (committed : Bool) (state : State) : State :=
  match state.frames with
  | [] => state
  | frame :: outer =>
    let ended := { state.note (.closed committed) with frames := outer }
    if !committed then loop false frame.rollback.reverse ended
    else
      match outer with
      | parent :: rest =>
        { ended with
          frames := ⟨parent.commit ++ frame.commit, parent.rollback ++ frame.rollback⟩ :: rest }
      | [] => loop true frame.commit ended

/-- One turn of a loop over hooks: a throw is caught, and reported where the loop says so. -/
def tried (isReported : Bool) (hook : HookId) (fn : Call) (state : State) : State :=
  match fn (state.note (.ran hook)) with
  | (threw, after) => if threw && isReported then after.note (.reported hook) else after

/-- Outside a frame the effect runs at once, and its throw is the caller's. -/
def afterCommit (hook : HookId) (fn : Call) (state : State) : Bool × State :=
  match state.frames with
  | top :: outer =>
    (false, { state with frames := ⟨top.commit ++ [hook], top.rollback⟩ :: outer })
  | [] => fn (state.note (.ran hook))

def onRollback (hook : HookId) (state : State) : State :=
  match state.frames with
  | top :: outer => { state with frames := ⟨top.commit, top.rollback ++ [hook]⟩ :: outer }
  | [] => state

/-- The work's throw ends the frame as rolled back and is thrown again. A result is asked whether it
was rolled back; a question that throws counts as no. -/
def scopedTx {α ε : Type} (loop : Loop) (work : State → Except ε α × State)
    (rolledBack : Option (α → Except ε Bool)) (state : State) : Except ε α × State :=
  match work (txScopeBegin state) with
  | (.error error, after) => (.error error, txScopeEnd loop false after)
  | (.ok result, after) =>
    let undone :=
      match rolledBack with
      | none => false
      | some judge =>
        match judge result with
        | .ok answer => answer
        | .error _ => false
    (.ok result, txScopeEnd loop (!undone) after)

/-- How a frame is opened and ended: by the two calls, or by `scopedTx` around work with this
outcome. -/
inductive Bracket (α ε : Type) where
  | calls (committed : Bool)
  | scopedTx (outcome : Except ε α) (rolledBack : Option (α → Except ε Bool))

/-- Whether the frame's transaction commits. -/
def Bracket.committed {α ε : Type} : Bracket α ε → Bool
  | .calls committed => committed
  | .scopedTx (.error _) _ => false
  | .scopedTx (.ok _) none => true
  | .scopedTx (.ok result) (some judge) =>
    match judge result with
    | .ok answer => !answer
    | .error _ => true

/-! A run is told as the calls made, in the order they are made. A frame tells what happens inside
it and, after its end, what each hook called there does; so a hook is free to register hooks and to
open frames of its own. -/
mutual
inductive Calls (α ε : Type) where
  | done
  /-- `afterCommit`. What the effect does if it runs at once is told with it. -/
  | effect (hook : HookId) (threw : Bool) (now : Calls α ε) (rest : Calls α ε)
  /-- `onRollback`. -/
  | undo (hook : HookId) (rest : Calls α ε)
  | frame (bracket : Bracket α ε) (body : Calls α ε) (runs : Runs α ε) (rest : Calls α ε)

/-- What the hooks called by one loop do, in turn. A hook not told of calls nothing and returns. -/
inductive Runs (α ε : Type) where
  | none
  | more (threw : Bool) (calls : Calls α ε) (rest : Runs α ε)
end

variable {α ε : Type}

mutual
def exec : Calls α ε → State → State
  | .done, state => state
  | .effect hook threw now rest, state =>
    exec rest (afterCommit hook (fun called => (threw, exec now called)) state).2
  | .undo hook rest, state => exec rest (onRollback hook state)
  | .frame (.calls committed) body runs rest, state =>
    exec rest (txScopeEnd (loopOf runs) committed (exec body (txScopeBegin state)))
  | .frame (.scopedTx outcome rolledBack) body runs rest, state =>
    exec rest
      (scopedTx (loopOf runs) (fun opened => (outcome, exec body opened)) rolledBack state).2

/-- The loop over hooks that do what is told of them. -/
def loopOf : Runs α ε → Loop
  | .none, _, hooks, state => hooks.foldl (fun before hook => before.note (.ran hook)) state
  | .more _ _ _, _, [], state => state
  | .more threw calls rest, isReported, hook :: hooks, state =>
    loopOf rest isReported hooks
      (tried isReported hook (fun called => (threw, exec calls called)) state)
end

theorem exec_frame (bracket : Bracket α ε) (body : Calls α ε) (runs : Runs α ε)
    (rest : Calls α ε) (state : State) :
    exec (.frame bracket body runs rest) state =
      exec rest
        (txScopeEnd (loopOf runs) bracket.committed (exec body (txScopeBegin state))) := by
  cases bracket with
  | calls committed => rw [exec, Bracket.committed]
  | scopedTx outcome rolledBack =>
    rw [exec, scopedTx]
    cases outcome with
    | error error => rfl
    | ok result =>
      cases rolledBack with
      | none => rfl
      | some judge =>
        simp only [Bracket.committed]
        cases judge result with
        | error error => rfl
        | ok answer => rfl

end Murage.TxScope
