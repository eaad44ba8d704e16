import Mathlib.Tactic.Common

/-!
Owns computations that log events and return or throw: the monad, and the judgement on all of a
computation at once, that what it logs, what it throws and what it returns are as they should be
and that the log announces certain errors. It names no program.
-/

namespace Murage.Library

universe u v w

/-- What a computation logged, oldest first, and how it ended. -/
structure Traced (Event : Type u) (ε : Type v) (α : Type w) where
  events : List Event
  outcome : Except ε α

namespace Traced

variable {Event : Type u} {ε : Type v} {α β : Type w}

def bind (run : Traced Event ε α) (next : α → Traced Event ε β) : Traced Event ε β :=
  match run.outcome with
  | .error error => ⟨run.events, .error error⟩
  | .ok value => ⟨run.events ++ (next value).events, (next value).outcome⟩

instance : Monad (Traced Event ε) where
  pure value := ⟨[], .ok value⟩
  bind := bind

def fail (error : ε) : Traced Event ε α := ⟨[], .error error⟩

def log (event : Event) : Traced Event ε PUnit := ⟨[event], .ok ⟨⟩⟩

def mapError (run : Traced Event ε α) (change : ε → ε) : Traced Event ε α :=
  ⟨run.events, run.outcome.mapError change⟩

/-- A computation for each member of a list, in its order. -/
def forEach {γ : Type w} (each : γ → Traced Event ε α) : List γ → Traced Event ε (List α)
  | [] => pure []
  | item :: rest => do
      let first ← each item
      let others ← forEach each rest
      pure (first :: others)

/-- A result that is there already. -/
def ofExcept (outcome : Except ε α) : Traced Event ε α := ⟨[], outcome⟩

/-! ## How a computation ends -/

section Outcomes

variable {run : Traced Event ε α} {next : α → Traced Event ε β}

theorem bind_ok {value : α} (isEnd : run.outcome = .ok value) :
    (run >>= next).outcome = (next value).outcome := by
  change (bind run next).outcome = _
  rw [bind, isEnd]

theorem bind_error {error : ε} (isEnd : run.outcome = .error error) :
    (run >>= next).outcome = .error error := by
  change (bind run next).outcome = _
  rw [bind, isEnd]

theorem forEach_ok {γ δ : Type w} {items : List δ} {item : δ → γ} {each : γ → Traced Event ε α}
    {result : δ → α} (isEach : ∀ d ∈ items, (each (item d)).outcome = .ok (result d)) :
    (forEach each (items.map item)).outcome = .ok (items.map result) := by
  induction items with
  | nil => rfl
  | cons first rest ih =>
    have others := ih fun other isOther =>
      isEach other (List.mem_cons_of_mem _ isOther)
    rw [List.map_cons, forEach, bind_ok (isEach first List.mem_cons_self), bind_ok others]
    rfl

theorem forEach_error {γ : Type w} {item : γ} {rest : List γ} {each : γ → Traced Event ε α}
    {error : ε} (isFirst : (each item).outcome = .error error) :
    (forEach each (item :: rest)).outcome = .error error := by
  rw [forEach, bind_error isFirst]

end Outcomes

/-! ## The judgement -/

/-- What may be logged and thrown. An event that announces an error is followed by it, and an error
that has to be announced is. -/
structure Rules (Event : Type u) (ε : Type v) where
  Logs : Event → Prop
  Throws : ε → Prop
  Announces : Event → ε → Prop
  Announced : ε → Prop

/-- How a computation may end. -/
def EndsIn (Throws : ε → Prop) (post : α → Prop) : Except ε α → Prop
  | .error error => Throws error
  | .ok value => post value

/-- The computation keeps the rules and returns only what `post` allows. -/
structure Meets (rules : Rules Event ε) (post : α → Prop) (run : Traced Event ε α) : Prop where
  logs : ∀ event ∈ run.events, rules.Logs event
  ends : EndsIn rules.Throws post run.outcome
  follows : ∀ event ∈ run.events, ∀ error, rules.Announces event error → run.outcome = .error error
  announced : ∀ error, run.outcome = .error error → rules.Announced error →
    ∃ event ∈ run.events, rules.Announces event error

variable {rules : Rules Event ε} {post : α → Prop} {postNext : β → Prop}

theorem Meets.pure {value : α} (isPost : post value) :
    Meets rules post (Pure.pure value : Traced Event ε α) where
  logs _ isEvent := nomatch isEvent
  ends := isPost
  follows _ isEvent := nomatch isEvent
  announced _ isError := nomatch isError

theorem Meets.fail {error : ε} (isThrown : rules.Throws error) (isPlain : ¬ rules.Announced error) :
    Meets rules post (fail error : Traced Event ε α) where
  logs _ isEvent := nomatch isEvent
  ends := isThrown
  follows _ isEvent := nomatch isEvent
  announced other isError isAnnounced := by
    cases isError
    exact absurd isAnnounced isPlain

/-- An error after the event that announces it. -/
theorem Meets.announce {event : Event} {error : ε} (isLogged : rules.Logs event)
    (announces : ∀ other, rules.Announces event other ↔ other = error)
    (isThrown : rules.Throws error) :
    Meets rules post (⟨[event], .error error⟩ : Traced Event ε α) where
  logs _ isEvent := List.mem_singleton.1 isEvent ▸ isLogged
  ends := isThrown
  follows other isEvent thrown isAnnounced := by
    cases List.mem_singleton.1 isEvent
    rw [(announces thrown).1 isAnnounced]
  announced other isError _ := by
    cases isError
    exact ⟨event, List.mem_singleton_self event, (announces error).2 rfl⟩

theorem Meets.log {event : Event} {post : PUnit → Prop} (isLogged : rules.Logs event)
    (isPlain : ∀ error, ¬ rules.Announces event error) (isPost : post ⟨⟩) :
    Meets rules post (log event : Traced Event ε PUnit) where
  logs _ isEvent := List.mem_singleton.1 isEvent ▸ isLogged
  ends := isPost
  follows other isEvent error isAnnounced :=
    absurd isAnnounced (List.mem_singleton.1 isEvent ▸ isPlain error)
  announced _ isError := nomatch isError

theorem Meets.ofExcept {outcome : Except ε α} (isEnd : EndsIn rules.Throws post outcome)
    (isPlain : ∀ error, outcome = .error error → ¬ rules.Announced error) :
    Meets rules post (ofExcept outcome : Traced Event ε α) where
  logs _ isEvent := nomatch isEvent
  ends := isEnd
  follows _ isEvent := nomatch isEvent
  announced error isError isAnnounced := absurd isAnnounced (isPlain error isError)

/-- **Sequencing.** What the first part returns is where the second begins. -/
theorem Meets.bind {run : Traced Event ε α} {next : α → Traced Event ε β}
    (first : Meets rules post run) (second : ∀ value, post value → Meets rules postNext (next value)) :
    Meets rules postNext (run >>= next) := by
  obtain ⟨events, outcome⟩ := run
  cases outcome with
  | error error =>
    refine ⟨first.logs, first.ends, ?_, ?_⟩
    · intro event isEvent thrown isAnnounced
      cases first.follows event isEvent thrown isAnnounced
      rfl
    · intro thrown isError isAnnounced
      cases isError
      exact first.announced error rfl isAnnounced
  | ok value =>
    have rest := second value first.ends
    refine ⟨?_, rest.ends, ?_, ?_⟩
    · intro event isEvent
      rcases List.mem_append.1 isEvent with isFirst | isSecond
      · exact first.logs event isFirst
      · exact rest.logs event isSecond
    · intro event isEvent thrown isAnnounced
      rcases List.mem_append.1 isEvent with isFirst | isSecond
      · cases first.follows event isFirst thrown isAnnounced
      · exact rest.follows event isSecond thrown isAnnounced
    · intro thrown isError isAnnounced
      obtain ⟨event, isEvent, announces⟩ := rest.announced thrown isError isAnnounced
      exact ⟨event, List.mem_append_right _ isEvent, announces⟩

theorem Meets.imp {other : α → Prop} {run : Traced Event ε α} (isMet : Meets rules post run)
    (weaker : ∀ value, post value → other value) : Meets rules other run := by
  refine ⟨isMet.logs, ?_, isMet.follows, isMet.announced⟩
  have isEnd := isMet.ends
  cases isOutcome : run.outcome with
  | error error => rwa [isOutcome] at isEnd
  | ok value =>
    rw [isOutcome] at isEnd
    exact weaker value isEnd

/-- Errors may be replaced by others, not those that are announced. -/
theorem Meets.mapError {run : Traced Event ε α} {change : ε → ε} (isMet : Meets rules post run)
    (keepsThrown : ∀ error, rules.Throws error → rules.Throws (change error))
    (keeps : ∀ event error, rules.Announces event error → change error = error)
    (isOld : ∀ error, rules.Announced (change error) → change error = error) :
    Meets rules post (run.mapError change) := by
  obtain ⟨events, outcome⟩ := run
  cases outcome with
  | ok value => exact ⟨isMet.logs, isMet.ends, fun event isEvent error isAnnounced =>
    (nomatch isMet.follows event isEvent error isAnnounced), fun _ isError => nomatch isError⟩
  | error error =>
    refine ⟨isMet.logs, keepsThrown error isMet.ends, ?_, ?_⟩
    · intro event isEvent thrown isAnnounced
      cases isMet.follows event isEvent thrown isAnnounced
      exact congrArg Except.error (keeps event error isAnnounced)
    · intro thrown isError isAnnounced
      have isChanged : change error = thrown := Except.error.inj isError
      subst isChanged
      have isSame := isOld error isAnnounced
      rw [isSame] at isAnnounced ⊢
      exact isMet.announced error rfl isAnnounced

theorem Meets.forEach {γ : Type w} {items : List γ} {each : γ → Traced Event ε α}
    (isMet : ∀ item ∈ items, Meets rules post (each item)) :
    Meets rules (fun results => ∀ result ∈ results, post result) (forEach each items) := by
  induction items with
  | nil => exact Meets.pure fun _ isResult => nomatch isResult
  | cons item rest ih =>
    refine (isMet item List.mem_cons_self).bind fun first isFirst => ?_
    refine (ih fun other isOther =>
      isMet other (List.mem_cons_of_mem _ isOther)).bind fun others areOthers => ?_
    refine Meets.pure fun result isResult => ?_
    rcases List.mem_cons.1 isResult with rfl | isLater
    · exact isFirst
    · exact areOthers result isLater

end Traced

end Murage.Library
