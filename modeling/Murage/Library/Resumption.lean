import Mathlib.Data.List.Basic
import Mathlib.Tactic.Common

/-!
Owns concurrent programs that share a world: a program stops at every await, the world moves
under it there, and it goes on from what it saw. What a program keeps to is stated over every
world the others may leave, and a pool of programs keeps to what each of them does.
It names no system.
-/

namespace Murage.Library.Resumption

universe u

variable {World : Type} {α β : Type}

/-- A program. An await acts on the world in one step and goes on from the world it found. The
flag says that what it awaits fails. -/
inductive Prog (World : Type) (α : Type) where
  | done (value : Except String α)
  | await (act : World → Bool → World) (next : World → Bool → Prog World α)

namespace Prog

def bind : Prog World α → (α → Prog World β) → Prog World β
  | done (.ok value), rest => rest value
  | done (.error error), _ => done (.error error)
  | await act next, rest => await act fun world fails => (next world fails).bind rest

instance : Monad (Prog World) where
  pure value := done (.ok value)
  bind := bind

def fail (error : String) : Prog World α := done (.error error)

def statement (run : World → World × α) : Prog World α :=
  await (fun world _ => (run world).1) fun world _ => done (.ok (run world).2)

def call (act : World → World) (answer : World → Except String α) : Prog World α :=
  await (fun world fails => if fails then world else act world)
    fun world fails => if fails then fail "unavailable" else done (answer world)

/-- The program whose error is its value. -/
def attempt : Prog World α → Prog World (Except String α)
  | done value => done (.ok value)
  | await act next => await act fun world fails => (next world fails).attempt

end Prog

/-! ## What a program keeps to -/

section

variable (inv : World → Prop) (later : World → World → Prop)

/-- From `world` on, whatever others make of it along `later`, each step of the program keeps
`inv` and moves along `later`, and the program ends in `post`. -/
def Meets (post : Except String α → World → Prop) : Prog World α → World → Prop
  | .done value, world => ∀ next, later world next → inv next → post value next
  | .await act rest, world => ∀ next, later world next → inv next → ∀ fails,
      (inv (act next fails) ∧ later next (act next fails)) ∧
        Meets post (rest next fails) (act next fails)

end

section

variable {inv : World → Prop} {later : World → World → Prop}
  {post : Except String α → World → Prop} {program : Prog World α} {world next : World}

theorem Meets.stable (trans : ∀ a b c, later a b → later b c → later a c)
    (meets : Meets inv later post program world) (moved : later world next) :
    Meets inv later post program next := by
  cases program with
  | done value => exact fun last more => meets last (trans _ _ _ moved more)
  | await act rest => exact fun last more => meets last (trans _ _ _ moved more)

/-- What a program meets from every later world that keeps the invariant, it meets. -/
theorem Meets.intro (refl : ∀ world, later world world)
    (meets : ∀ next, later world next → inv next → Meets inv later post program next) :
    Meets inv later post program world := by
  cases program with
  | done value => exact fun next moved holds => meets next moved holds next (refl next) holds
  | await act rest => exact fun next moved holds => meets next moved holds next (refl next) holds

theorem Meets.imp {weaker : Except String α → World → Prop}
    (meets : Meets inv later post program world)
    (implies : ∀ value next, inv next → post value next → weaker value next) :
    Meets inv later weaker program world := by
  induction program generalizing world with
  | done value => exact fun next moved holds => implies value next holds (meets next moved holds)
  | await act rest ih =>
    intro next moved holds fails
    obtain ⟨kept, rests⟩ := meets next moved holds fails
    exact ⟨kept, ih next fails rests⟩

/-- Where a program ends is later than where it began. -/
theorem Meets.and_later (trans : ∀ a b c, later a b → later b c → later a c)
    (meets : Meets inv later post program world) :
    Meets inv later (fun value next => later world next ∧ post value next) program world := by
  induction program generalizing world with
  | done value => exact fun next moved holds => ⟨moved, meets next moved holds⟩
  | await act rest ih =>
    intro next moved holds fails
    obtain ⟨kept, rests⟩ := meets next moved holds fails
    refine ⟨kept, (ih next fails rests).imp fun value last _ ended => ?_⟩
    exact ⟨trans _ _ _ (trans _ _ _ moved kept.2) ended.1, ended.2⟩

theorem Meets.pure {value : α} (ends : ∀ next, later world next → inv next → post (.ok value) next) :
    Meets inv later post (Pure.pure value) world := ends

theorem Meets.fail {error : String}
    (ends : ∀ next, later world next → inv next → post (.error error) next) :
    Meets inv later post (Prog.fail error) world := ends

variable {ends : Except String β → World → Prop} {rest : α → Prog World β}

/-- A program, then a program from what it returned. -/
theorem Meets.bind (refl : ∀ world, later world world) (meets : Meets inv later
      (fun value next =>
        match value with
        | .ok value => Meets inv later ends (rest value) next
        | .error error => ends (.error error) next) program world) :
    Meets inv later ends (program >>= rest) world := by
  change Meets inv later ends (program.bind rest) world
  induction program generalizing world with
  | done value =>
    cases value with
    | ok value => exact Meets.intro refl meets
    | error error => exact meets
  | await act next ih =>
    intro found moved holds fails
    obtain ⟨kept, rests⟩ := meets found moved holds fails
    exact ⟨kept, ih found fails rests⟩

theorem Meets.statement {run : World → World × α}
    (step : ∀ next, later world next → inv next → (inv (run next).1 ∧ later next (run next).1) ∧
      ∀ last, later (run next).1 last → inv last → post (.ok (run next).2) last) :
    Meets inv later post (Prog.statement run) world :=
  fun next moved holds _ => step next moved holds

/-- A program, then a program from what it returned: what the first ends in is what the rest
starts from. -/
theorem Meets.seq (refl : ∀ world, later world world) (meets : Meets inv later post program world)
    (ok : ∀ value next, inv next → post (.ok value) next → Meets inv later ends (rest value) next)
    (error : ∀ error next, inv next → post (.error error) next → ends (.error error) next) :
    Meets inv later ends (program >>= rest) world := by
  refine Meets.bind refl (meets.imp fun value next holds ended => ?_)
  cases value with
  | ok value => exact ok value next holds ended
  | error text => exact error text next holds ended

/-- A statement, then a program from what it found. -/
theorem Meets.statement_seq (refl : ∀ world, later world world)
    {run : World → World × α}
    (step : ∀ next, later world next → inv next → (inv (run next).1 ∧ later next (run next).1) ∧
      ∀ last, later (run next).1 last → inv last → Meets inv later ends (rest (run next).2) last) :
    Meets inv later ends (Prog.statement run >>= rest) world :=
  Meets.bind refl (Meets.statement step)

theorem Meets.call (refl : ∀ world, later world world) {act : World → World}
    {answer : World → Except String α}
    (step : ∀ next, later world next → inv next → (inv (act next) ∧ later next (act next)) ∧
      ∀ last, later (act next) last → inv last → post (answer next) last)
    (fails : ∀ next, later world next → inv next → ∀ last, later next last → inv last →
      post (.error "unavailable") last) :
    Meets inv later post (Prog.call act answer) world := by
  intro next moved holds isFailed
  cases isFailed with
  | false => exact step next moved holds
  | true => exact ⟨⟨holds, refl next⟩, fails next moved holds⟩

theorem Meets.attempt {ends : Except String (Except String α) → World → Prop}
    (meets : Meets inv later (fun value next => ends (.ok value) next) program world) :
    Meets inv later ends program.attempt world := by
  induction program generalizing world with
  | done value => exact meets
  | await act rest ih =>
    intro next moved holds fails
    obtain ⟨kept, rests⟩ := meets next moved holds fails
    exact ⟨kept, ih next fails rests⟩

/-- A loop whose body ends where the next iteration may begin. -/
theorem Meets.foldlM (refl : ∀ world, later world world) {row : Type}
    (loop : List row → α → World → Prop) (errors : String → World → Prop) {rows : List row}
    {body : α → row → Prog World α} {start : α}
    (step : ∀ row rest value world, inv world → loop (row :: rest) value world →
      Meets inv later
        (fun result next =>
          match result with
          | .ok value => loop rest value next
          | .error error => errors error next) (body value row) world)
    (stays : ∀ rows value world next, later world next → loop rows value world →
      loop rows value next)
    (holds : loop rows start world) :
    Meets inv later
      (fun result next =>
        match result with
        | .ok value => loop [] value next
        | .error error => errors error next) (rows.foldlM body start) world := by
  induction rows generalizing start world with
  | nil => exact fun next moved _ => stays [] start world next moved holds
  | cons row rest ih =>
    rw [List.foldlM_cons]
    refine Meets.bind refl (Meets.intro refl fun next moved isInv => ?_)
    refine (step row rest start next isInv (stays _ _ _ _ moved holds)).imp fun value last _ ended => ?_
    cases value with
    | ok value => exact ih ended
    | error error => exact ended

end

/-! ## A pool of programs -/

/-- Programs over one world, in the order they were started. -/
structure Pool (World : Type) (α : Type) where
  world : World
  programs : List (Prog World α) := []

namespace Pool

def start (pool : Pool World α) (program : Prog World α) : Pool World α :=
  { pool with programs := pool.programs ++ [program] }

/-- One await of one program. -/
def step (pool : Pool World α) (which : Nat) (fails : Bool) : Pool World α :=
  match pool.programs[which]? with
  | some (.await act next) =>
    { world := act pool.world fails
      programs := pool.programs.set which (next pool.world fails) }
  | _ => pool

theorem length_step (pool : Pool World α) (which : Nat) (fails : Bool) :
    (pool.step which fails).programs.length = pool.programs.length := by
  unfold step
  split
  · exact List.length_set
  · rfl

/-- Every program of the pool meets its own end. -/
def Keeps (inv : World → Prop) (later : World → World → Prop)
    (ends : Nat → Except String α → World → Prop) (pool : Pool World α) : Prop :=
  inv pool.world ∧ ∀ which program, pool.programs[which]? = some program →
    Meets inv later (ends which) program pool.world

section

variable {inv : World → Prop} {later : World → World → Prop}
  {ends : Nat → Except String α → World → Prop} {pool : Pool World α}

theorem Keeps.start (keeps : pool.Keeps inv later ends) {program : Prog World α}
    (meets : Meets inv later (ends pool.programs.length) program pool.world) :
    (pool.start program).Keeps inv later ends := by
  refine ⟨keeps.1, fun which other isHere => ?_⟩
  unfold Pool.start at isHere
  rw [List.getElem?_append] at isHere
  split_ifs at isHere with isOld
  · exact keeps.2 which other isHere
  · rw [List.getElem?_singleton] at isHere
    split_ifs at isHere with isLast
    cases isHere
    have isWhich : which = pool.programs.length := by omega
    rw [isWhich]
    exact meets

/-- The world moved under the programs. -/
theorem Keeps.moved (trans : ∀ a b c, later a b → later b c → later a c)
    (keeps : pool.Keeps inv later ends) {next : World} (isInv : inv next)
    (moved : later pool.world next) : ({ pool with world := next } : Pool World α).Keeps inv later ends :=
  ⟨isInv, fun which program isHere => (keeps.2 which program isHere).stable trans moved⟩

/-- **One await.** It keeps what every program of the pool keeps to. -/
theorem Keeps.step (refl : ∀ world, later world world)
    (trans : ∀ a b c, later a b → later b c → later a c) (keeps : pool.Keeps inv later ends)
    (which : Nat) (fails : Bool) : (pool.step which fails).Keeps inv later ends := by
  unfold Pool.step
  split
  · rename_i act next isAwait
    obtain ⟨⟨isInv, moved⟩, meets⟩ := keeps.2 which _ isAwait pool.world (refl _) keeps.1 fails
    refine ⟨isInv, fun other program isHere => ?_⟩
    by_cases isSame : which = other
    · subst isSame
      rw [List.getElem?_set_self (List.getElem?_eq_some_iff.mp isAwait).1] at isHere
      cases isHere
      exact meets
    · rw [List.getElem?_set_ne isSame] at isHere
      exact (keeps.2 other program isHere).stable trans moved
  · exact keeps

/-- What ended has met its end. -/
theorem Keeps.ended (refl : ∀ world, later world world) (keeps : pool.Keeps inv later ends)
    {which : Nat} {value : Except String α} (isDone : pool.programs[which]? = some (.done value)) :
    ends which value pool.world :=
  keeps.2 which _ isDone pool.world (refl _) keeps.1

end

end Pool

end Murage.Library.Resumption
