import Murage.Library.Transition
import Murage.WorkAdmission.Gates
import Mathlib.Data.List.Chain

/-!
Owns runs of the arbiter: any order of admissions, releases and changes of the budget gate. In
every state reached each cap holds, cards start apart, a refusal has changed nothing, and the
writer root of every claim that has ended was released once.

Does not own: what the dependencies answer.
-/

namespace Murage.WorkAdmission

open Murage.Library Murage.Library.Transition

variable {uuid : Nat → String} {limits : Limits} {deps : Deps} {s s' : Arbiter}
  {input : AdmissionInput} {retry reservation : Option Claim} {claim held : Claim}

/-! ## The parts stay in step -/

theorem Arbiter.Sound.empty : ({} : Arbiter).Sound where
  keyed entry isIn := by cases isIn
  made claim isIn := by cases isIn
  refs i claim isThere := by cases isThere
  known ref isIn := by cases isIn
  unreleased claim isIn := by cases isIn
  roots claim isIn := by cases isIn
  rooted ref isIn := by cases isIn

theorem Arbiter.Sound.ref_lt (sound : s.Sound) (isMade : claim ∈ s.made) :
    claim.ref < s.made.length := by
  obtain ⟨i, isLess, isIn⟩ := List.mem_iff_getElem.mp isMade
  rw [sound.refs i claim (isIn ▸ List.getElem?_eq_getElem isLess)]
  exact isLess

theorem Arbiter.Sound.eq_of_ref (sound : s.Sound) (isMade : claim ∈ s.made)
    (isMade' : held ∈ s.made) (same : claim.ref = held.ref) : claim = held := by
  obtain ⟨i, isIn⟩ := List.mem_iff_getElem?.mp isMade
  obtain ⟨j, isThere'⟩ := List.mem_iff_getElem?.mp isMade'
  have sameIndex : i = j :=
    (sound.refs i claim isIn).symm.trans (same.trans (sound.refs j held isThere'))
  exact Option.some.inj (isIn.symm.trans (sameIndex ▸ isThere'))

theorem Arbiter.Sound.release (sound : s.Sound) (isMade : claim ∈ s.made) :
    (s.release claim).Sound := by
  by_cases isDone : claim.ref ∈ s.released
  · rwa [Arbiter.release, if_pos isDone]
  · have live := live_release s claim
    rw [Arbiter.release, if_neg isDone] at live ⊢
    refine
      { keyed := fun entry isIn => sound.keyed entry (OrderedMap.mem_entries_erase.mp isIn).1
        made := fun claim isIn => sound.made claim (live.subset isIn)
        refs := sound.refs
        known := fun ref isIn => ?_
        unreleased := fun other isIn isReleased => ?_
        roots := fun other isOther => ?_
        rooted := fun ref isIn => ?_ }
    · rcases List.mem_append.mp isIn with isOld | isNew
      · exact sound.known ref isOld
      · rw [List.mem_singleton.mp isNew]
        exact sound.ref_lt isMade
    · obtain ⟨entry, isEntry, rfl⟩ := List.mem_map.mp isIn
      obtain ⟨isThere, isKept⟩ := OrderedMap.mem_entries_erase.mp isEntry
      have isLive : entry.2 ∈ s.live := List.mem_map_of_mem isThere
      rcases List.mem_append.mp isReleased with isOld | isNew
      · exact sound.unreleased entry.2 isLive isOld
      · have isSame :=
          sound.eq_of_ref (sound.made entry.2 isLive) isMade (List.mem_singleton.mp isNew)
        exact isKept ((sound.keyed entry isThere).trans (congrArg Claim.id isSame))
    · have before := sound.roots other isOther
      by_cases isSame : other.ref = claim.ref
      · have isClaim := sound.eq_of_ref isOther isMade isSame
        subst isClaim
        rw [if_neg fun isBoth => isDone isBoth.2] at before
        by_cases isRooted : other.writerRoot.isSome = true
        · simp [isRooted, List.count_append, before]
        · simp [isRooted, before]
      · have notNew : claim.ref ≠ other.ref := fun same => isSame same.symm
        by_cases isRooted : claim.writerRoot.isSome = true
        · simp [isRooted, List.count_append, notNew, before, isSame]
        · simp [isRooted, before, isSame]
    · show ref ∈ s.released ++ [claim.ref]
      by_cases isRooted : claim.writerRoot.isSome = true
      · simp only [isRooted, if_true] at isIn
        exact List.mem_append.mpr ((List.mem_append.mp isIn).imp_left (sound.rooted ref))
      · simp only [isRooted, if_false, Bool.false_eq_true] at isIn
        exact List.mem_append_left _ (sound.rooted ref isIn)

theorem made_release (s : Arbiter) (claim : Claim) : (s.release claim).made = s.made := by
  rw [Arbiter.release]
  split_ifs <;> rfl

theorem Arbiter.Sound.add (sound : s.Sound) (isNew : claim.ref = s.made.length) (start : Option Int)
    (drawn : Nat) :
    Arbiter.Sound
      { s with
        lastCardStart := start
        made := s.made ++ [claim]
        claims := s.claims.set claim.id claim
        drawn := drawn } where
  keyed entry isIn := by
    rcases OrderedMap.mem_entries_set isIn with rfl | isOld
    · rfl
    · exact sound.keyed entry isOld
  made other isIn := by
    obtain ⟨entry, isEntry, rfl⟩ := List.mem_map.mp isIn
    rcases OrderedMap.mem_entries_set isEntry with rfl | isOld
    · exact List.mem_append_right _ (List.mem_singleton_self claim)
    · exact List.mem_append_left _ (sound.made entry.2 (List.mem_map_of_mem isOld))
  refs i other isThere := by
    by_cases isOld : i < s.made.length
    · rw [List.getElem?_append_left isOld] at isThere
      exact sound.refs i other isThere
    · rw [List.getElem?_append_right (Nat.le_of_not_lt isOld), List.getElem?_singleton] at isThere
      split_ifs at isThere with isLast
      rw [← Option.some.inj isThere, isNew]
      omega
  known ref isIn := by
    rw [List.length_append]
    exact Nat.lt_add_right _ (sound.known ref isIn)
  unreleased other isIn isReleased := by
    obtain ⟨entry, isEntry, rfl⟩ := List.mem_map.mp isIn
    rcases OrderedMap.mem_entries_set isEntry with rfl | isOld
    · exact Nat.lt_irrefl _ (isNew ▸ sound.known _ isReleased)
    · exact sound.unreleased entry.2 (List.mem_map_of_mem isOld) isReleased
  roots other isOther := by
    rcases List.mem_append.mp isOther with isOld | isLast
    · exact sound.roots other isOld
    · rw [List.mem_singleton.mp isLast]
      have notReleased : claim.ref ∉ s.released := fun isReleased =>
        Nat.lt_irrefl _ (isNew ▸ sound.known _ isReleased)
      rw [if_neg fun isBoth => notReleased isBoth.2]
      exact List.count_eq_zero.mpr fun isRooted => notReleased (sound.rooted _ isRooted)
  rooted := sound.rooted

/-! ## Events -/

/-- A call, with what it came to; `replaced`: the reservation that the new claim took the place
of. -/
inductive Event
  | asked (deps : Deps) (input : AdmissionInput) (retryClaim : Option Claim)
      (decision : Decision) (replaced : Option Claim)
  | release (claim : Claim)
  | setBudgetGate (gate : BudgetGate)

/-- One call. A caller can only release a claim that it was given. -/
inductive Step (uuid : Nat → String) (limits : Limits) : Arbiter → Event → Arbiter → Prop
  | admitted {s s' : Arbiter} {deps : Deps} {input : AdmissionInput} {retryClaim : Option Claim}
      {claim : Claim} :
      WorkAdmission.admitWork uuid limits deps s input retryClaim = (.admitted claim, s') →
        Step uuid limits s (.asked deps input retryClaim (.admitted claim)
          (s.reservation input retryClaim)) s'
  | refused {s s' : Arbiter} {deps : Deps} {input : AdmissionInput} {retryClaim : Option Claim}
      {refusal : Refusal} :
      WorkAdmission.admitWork uuid limits deps s input retryClaim = (.refused refusal, s') →
        Step uuid limits s (.asked deps input retryClaim (.refused refusal) none) s'
  | release {s : Arbiter} {claim : Claim} :
      claim ∈ s.made → Step uuid limits s (.release claim) (s.release claim)
  | setBudgetGate {s : Arbiter} (gate : BudgetGate) :
      Step uuid limits s (.setBudgetGate gate) { s with budgetGate := gate }

def Event.ends (claim : Claim) : Event → Prop
  | .asked _ _ _ _ replaced => replaced = some claim
  | .release released => released = claim
  | .setBudgetGate _ => False

def Event.cardStart : Event → Option Int
  | .asked _ input _ (.admitted claim) _ => if claim.kind = .cardRun then some input.now else none
  | _ => none

/-- How many cards of a group might run, where one was admitted. -/
def Event.parallel (groupId : Option String) : Event → Int
  | .asked _ input _ (.admitted claim) _ =>
    if claim.kind = .cardRun ∧ claim.groupId = groupId then input.parallel else 0
  | _ => 0

/-- The most cards of a group that any admission allowed. -/
def mostParallel (groupId : Option String) (events : List Event) : Int :=
  events.foldr (fun event most => max (event.parallel groupId) most) 0

/-- The times at which card runs were admitted. -/
def cardStarts (events : List Event) : List Int := events.filterMap Event.cardStart

theorem mostParallel_snoc (groupId : Option String) (events : List Event) (event : Event) :
    mostParallel groupId events ≤ mostParallel groupId (events ++ [event]) ∧
      event.parallel groupId ≤ mostParallel groupId (events ++ [event]) := by
  induction events with
  | nil => exact ⟨le_max_right _ _, le_max_left _ _⟩
  | cons first rest ih =>
    obtain ⟨isMore, isCounted⟩ := ih
    exact ⟨max_le_max (Int.le_refl _) isMore, le_trans isCounted (le_max_right _ _)⟩

/-! ## What an admission does -/

theorem admitWork_admitted (isAdmitted : admitWork uuid limits deps s input retry = (.admitted claim, s')) :
    Passed limits input (s.others (s.reservation input retry))
        (s.reservation input retry).isSome s.lastCardStart ∧
      (∃ root, claim = s.newClaim uuid input root) ∧
      s' = s.take claim (s.reservation input retry) := by
  unfold admitWork at isAdmitted
  simp only at isAdmitted
  cases isOpen : refusal limits deps s input (s.reservation input retry) with
  | some refusal =>
    rw [isOpen] at isAdmitted
    cases isAdmitted
  | none =>
    rw [isOpen] at isAdmitted
    cases isRoot : writerRootOf deps input (uuid s.drawn) (s.reservation input retry) with
    | error refusal =>
      rw [isRoot] at isAdmitted
      cases isAdmitted
    | ok root =>
      rw [isRoot] at isAdmitted
      obtain ⟨isClaim, isState⟩ := Prod.mk.inj isAdmitted
      obtain rfl := Decision.admitted.inj isClaim
      exact ⟨refusal_passed isOpen, ⟨root, rfl⟩, isState.symm⟩

/-- **A refusal changes nothing** but how many random ids were drawn. -/
theorem admit_refused {refused : Refusal}
    (isRefused : admitWork uuid limits deps s input retry = (.refused refused, s')) :
    ∃ drawn, s' = { s with drawn := drawn } := by
  unfold admitWork at isRefused
  simp only at isRefused
  cases isOpen : refusal limits deps s input (s.reservation input retry) with
  | some refusal =>
    rw [isOpen] at isRefused
    obtain ⟨_, rfl⟩ := Prod.mk.inj isRefused
    exact ⟨s.drawn, rfl⟩
  | none =>
    rw [isOpen] at isRefused
    cases isRoot : writerRootOf deps input (uuid s.drawn) (s.reservation input retry) with
    | error refusal =>
      rw [isRoot] at isRefused
      obtain ⟨_, rfl⟩ := Prod.mk.inj isRefused
      exact ⟨s.drawn + 1, rfl⟩
    | ok root =>
      rw [isRoot] at isRefused
      cases isRefused

/-! ## Caps -/

structure Caps (limits : Limits) (events : List Event) (live : List Claim) : Prop where
  thread : ∀ botId threadId,
    (live.countP fun claim => claim.botId = botId && claim.threadId = threadId) ≤ 1
  speaker : ∀ botId, (live.countP fun claim => claim.botId = botId && claim.kind.isRoom) ≤ 1
  ceiling : ∀ botId, (live.countP fun claim => claim.botId = botId && claim.kind ≠ .ownerDirect) ≤
    limits.maxThreads
  card : ∀ botId groupId, (live.countP fun claim =>
    claim.kind.isCard && claim.botId = botId && claim.groupId = groupId) ≤ 1
  group : ∀ groupId, (live.countP fun claim =>
    claim.kind = .cardRun && claim.groupId = groupId : Nat) ≤ mostParallel groupId events
  install : (live.countP fun claim => claim.kind = .cardRun : Nat) ≤ max 0 limits.installCardCap

theorem Caps.fewer {events : List Event} {live fewer : List Claim} (event : Event)
    (caps : Caps limits events live) (isPart : fewer.Sublist live) :
    Caps limits (events ++ [event]) fewer where
  thread botId threadId := Nat.le_trans isPart.countP_le (caps.thread botId threadId)
  speaker botId := Nat.le_trans isPart.countP_le (caps.speaker botId)
  ceiling botId := Nat.le_trans isPart.countP_le (caps.ceiling botId)
  card botId groupId := Nat.le_trans isPart.countP_le (caps.card botId groupId)
  group groupId := Int.le_trans (Int.ofNat_le.mpr isPart.countP_le)
    (Int.le_trans (caps.group groupId) (mostParallel_snoc groupId events event).1)
  install := Int.le_trans (Int.ofNat_le.mpr isPart.countP_le) caps.install

theorem countP_lt_one {live : List Claim} {p : Claim → Bool} (isNone : ∀ claim ∈ live, ¬p claim = true) :
    live.countP p < 1 := by
  rw [List.countP_eq_zero.mpr isNone]
  exact Nat.one_pos

/-- **An admission keeps the caps.** -/
theorem Caps.admitted {events : List Event} (sound : s.Sound) (caps : Caps limits events s.live)
    (isAdmitted : admitWork uuid limits deps s input retry = (.admitted claim, s')) :
    Caps limits (events ++ [.asked deps input retry (.admitted claim) (s.reservation input retry)])
      s'.live := by
  obtain ⟨passed, ⟨root, rfl⟩, rfl⟩ := admitWork_admitted isAdmitted
  generalize isReservation : s.reservation input retry = reservation at passed ⊢
  have reserved (held : Claim) (isHeld : reservation = some held) :=
    reservation_some (isReservation.trans isHeld)
  have isHeld (held : Claim) (isSome : reservation = some held) : held ∈ s.live :=
    (reserved held isSome).1
  refine
    { thread := fun botId threadId => ?_
      speaker := fun botId => ?_
      ceiling := fun botId => ?_
      card := fun botId groupId => ?_
      group := fun groupId => ?_
      install := ?_ }
  · refine take_keeps_cap sound isHeld (caps.thread botId threadId) fun counts => Or.inl ?_
    simp only [Bool.and_eq_true, decide_eq_true_iff] at counts
    refine countP_lt_one fun other isIn isSame => passed.thread other isIn ?_
    simp only [Bool.and_eq_true, decide_eq_true_iff] at isSame
    exact ⟨isSame.2.trans counts.2.symm, isSame.1.trans counts.1.symm⟩
  · refine take_keeps_cap sound isHeld (caps.speaker botId) fun counts => Or.inl ?_
    simp only [Bool.and_eq_true, decide_eq_true_iff] at counts
    refine countP_lt_one fun other isIn isSame => passed.speaker counts.2 other isIn ?_
    simp only [Bool.and_eq_true, decide_eq_true_iff] at isSame
    exact ⟨isSame.1.trans counts.1.symm, isSame.2⟩
  · refine take_keeps_cap sound isHeld (caps.ceiling botId) fun counts => Or.inl ?_
    simp only [Bool.and_eq_true, decide_eq_true_iff] at counts
    obtain ⟨rfl, notOwner⟩ := counts
    exact passed.ceiling notOwner
  · refine take_keeps_cap sound isHeld (caps.card botId groupId) fun counts => ?_
    simp only [Bool.and_eq_true, decide_eq_true_iff] at counts
    obtain ⟨⟨isCard, isBot⟩, isGroup⟩ := counts
    cases reservation with
    | none =>
      refine Or.inl (countP_lt_one fun other isIn isSame => ?_)
      simp only [Bool.and_eq_true, decide_eq_true_iff] at isSame
      exact passed.card isCard rfl other isIn
        ⟨isSame.1.1, isSame.1.2.trans isBot.symm, isSame.2.trans isGroup.symm⟩
    | some held =>
      obtain ⟨_, sameKind, sameGroup, sameBot, _⟩ := reserved held rfl
      refine Or.inr ⟨held, rfl, ?_⟩
      simp only [Bool.and_eq_true, decide_eq_true_iff]
      exact ⟨⟨sameKind ▸ isCard, sameBot.trans isBot⟩, sameGroup.trans isGroup⟩
  · obtain ⟨isMore, isCounted⟩ := mostParallel_snoc groupId events
      (.asked deps input retry (.admitted (s.newClaim uuid input root)) reservation)
    generalize mostParallel groupId (events ++ [_]) = most at isMore isCounted ⊢
    have before := Int.le_trans (caps.group groupId) isMore
    have isSome : 0 ≤ most := Int.le_trans (Int.natCast_nonneg _) before
    refine (Int.le_toNat isSome).mp (take_keeps_cap sound isHeld
      ((Int.le_toNat isSome).mpr before) fun counts => ?_)
    simp only [Bool.and_eq_true, decide_eq_true_iff] at counts
    obtain ⟨isRun, rfl⟩ := counts
    cases reservation with
    | none =>
      refine Or.inl (Int.lt_toNat.mpr (Int.lt_of_lt_of_le (passed.group isRun rfl) ?_))
      rwa [Event.parallel, if_pos ⟨isRun, rfl⟩] at isCounted
    | some held =>
      obtain ⟨_, sameKind, sameGroup, _⟩ := reserved held rfl
      refine Or.inr ⟨held, rfl, ?_⟩
      simp only [Bool.and_eq_true, decide_eq_true_iff]
      exact ⟨sameKind.trans isRun, sameGroup⟩
  · have isSome : 0 ≤ max 0 limits.installCardCap := le_max_left _ _
    refine (Int.le_toNat isSome).mp (take_keeps_cap sound isHeld
      ((Int.le_toNat isSome).mpr caps.install) fun counts => ?_)
    have isRun : input.kind = .cardRun := of_decide_eq_true counts
    cases reservation with
    | none =>
      exact Or.inl (Int.lt_toNat.mpr (Int.lt_of_lt_of_le (passed.install isRun rfl)
        (le_max_right _ _)))
    | some held =>
      obtain ⟨_, sameKind, _⟩ := reserved held rfl
      exact Or.inr ⟨held, rfl, decide_eq_true (sameKind.trans isRun)⟩

/-! ## Runs -/

section

variable {events : List Event}

/-- What every run keeps. -/
structure Kept (limits : Limits) (events : List Event) (s : Arbiter) : Prop where
  sound : s.Sound
  caps : Caps limits events s.live
  starts : (cardStarts events).IsChain fun earlier later => earlier + cardStaggerMs ≤ later
  last : s.lastCardStart = (cardStarts events).getLast?
  ended : ∀ claim ∈ s.made, claim.ref ∈ s.released ↔ ∃ event ∈ events, event.ends claim
  endedMade : ∀ event ∈ events, ∀ claim, event.ends claim → claim ∈ s.made

theorem cardStarts_snoc (events : List Event) (event : Event) :
    cardStarts (events ++ [event]) = cardStarts events ++ event.cardStart.toList := by
  rw [cardStarts, List.filterMap_append]
  cases isStart : event.cardStart with
  | none => rw [List.filterMap_cons_none isStart]; rfl
  | some start => rw [List.filterMap_cons_some isStart]; rfl

theorem Kept.empty (limits : Limits) : Kept limits [] {} where
  sound := Arbiter.Sound.empty
  caps :=
    { thread := fun _ _ => Nat.zero_le _
      speaker := fun _ => Nat.zero_le _
      ceiling := fun _ => Nat.zero_le _
      card := fun _ _ => Nat.zero_le _
      group := fun _ => Int.le_refl _
      install := le_max_left _ _ }
  starts := List.IsChain.nil
  last := rfl
  ended claim isIn := by cases isIn
  endedMade event isIn := by cases isIn

theorem exists_snoc {p : Event → Prop} (events : List Event) (event : Event) :
    (∃ held ∈ events ++ [event], p held) ↔ (∃ held ∈ events, p held) ∨ p event := by
  simp only [List.mem_append, List.mem_singleton, or_and_right, exists_or, exists_eq_left]

theorem Kept.quiet {event : Event} (kept : Kept limits events s) (notStart : event.cardStart = none)
    (notEnd : ∀ claim, ¬event.ends claim) (budgetGate : BudgetGate) (drawn : Nat) :
    Kept limits (events ++ [event]) { s with budgetGate := budgetGate, drawn := drawn } where
  sound := ⟨kept.sound.keyed, kept.sound.made, kept.sound.refs, kept.sound.known,
    kept.sound.unreleased, kept.sound.roots, kept.sound.rooted⟩
  caps := kept.caps.fewer event (List.Sublist.refl _)
  starts := by
    rw [cardStarts_snoc, notStart]
    exact (List.append_nil _).symm ▸ kept.starts
  last := by
    rw [cardStarts_snoc, notStart]
    exact (List.append_nil _).symm ▸ kept.last
  ended claim isMade := by
    rw [exists_snoc, or_iff_left (notEnd claim)]
    exact kept.ended claim isMade
  endedMade held isIn claim ends := by
    rcases List.mem_append.mp isIn with isOld | isNew
    · exact kept.endedMade held isOld claim ends
    · exact absurd (List.mem_singleton.mp isNew ▸ ends) (notEnd claim)

theorem mem_released_release (s : Arbiter) (claim : Claim) (ref : Nat) :
    ref ∈ (s.release claim).released ↔ ref ∈ s.released ∨ ref = claim.ref := by
  by_cases isDone : claim.ref ∈ s.released
  · rw [Arbiter.release, if_pos isDone]
    exact ⟨Or.inl, fun isEither => isEither.elim id fun isSame => isSame ▸ isDone⟩
  · rw [Arbiter.release, if_neg isDone]
    show ref ∈ s.released ++ [claim.ref] ↔ _
    rw [List.mem_append, List.mem_singleton]

theorem lastCardStart_release (s : Arbiter) (claim : Claim) :
    (s.release claim).lastCardStart = s.lastCardStart := by
  rw [Arbiter.release]
  split_ifs <;> rfl

theorem Kept.release (kept : Kept limits events s) (isMade : claim ∈ s.made) :
    Kept limits (events ++ [.release claim]) (s.release claim) where
  sound := kept.sound.release isMade
  caps := kept.caps.fewer _ (live_release s claim)
  starts := by
    rw [cardStarts_snoc]
    exact (List.append_nil _).symm ▸ kept.starts
  last := by
    rw [cardStarts_snoc, lastCardStart_release]
    exact (List.append_nil _).symm ▸ kept.last
  ended other isOther := by
    rw [made_release] at isOther
    rw [mem_released_release, exists_snoc, kept.ended other isOther]
    refine or_congr_right ⟨fun same => ?_, fun same => ?_⟩
    · exact (kept.sound.eq_of_ref isOther isMade same).symm
    · exact congrArg Claim.ref (Eq.symm same)
  endedMade event isIn other ends := by
    rw [made_release]
    rcases List.mem_append.mp isIn with isOld | isNew
    · exact kept.endedMade event isOld other ends
    · rw [List.mem_singleton.mp isNew] at ends
      have isSame : claim = other := ends
      exact isSame ▸ isMade

def Arbiter.freed (s : Arbiter) (reservation : Option Claim) : Arbiter :=
  reservation.elim s fun held => s.release held

structure Freed (s : Arbiter) (reservation : Option Claim) (freed : Arbiter) : Prop where
  sound : freed.Sound
  made : freed.made = s.made
  lastCardStart : freed.lastCardStart = s.lastCardStart
  released : ∀ ref, ref ∈ freed.released ↔
    ref ∈ s.released ∨ ∃ held, reservation = some held ∧ ref = held.ref

theorem freed_facts (sound : s.Sound) (isHeld : ∀ held, reservation = some held → held ∈ s.live) :
    Freed s reservation (s.freed reservation) := by
  cases reservation with
  | none => exact ⟨sound, rfl, rfl, fun ref => by simp [Arbiter.freed]⟩
  | some held =>
    have isMade := sound.made held (isHeld held rfl)
    refine ⟨sound.release isMade, made_release s held, lastCardStart_release s held, fun ref => ?_⟩
    rw [Arbiter.freed, Option.elim_some, mem_released_release]
    simp

theorem Kept.admitted (kept : Kept limits events s)
    (isAdmitted : admitWork uuid limits deps s input retry = (.admitted claim, s')) :
    Kept limits
      (events ++ [.asked deps input retry (.admitted claim) (s.reservation input retry)]) s' := by
  have caps := kept.caps.admitted kept.sound isAdmitted
  obtain ⟨passed, ⟨root, rfl⟩, rfl⟩ := admitWork_admitted isAdmitted
  generalize isReservation : s.reservation input retry = reservation at passed caps ⊢
  have isHeld (held : Claim) (isSome : reservation = some held) : held ∈ s.live :=
    (reservation_some (isReservation.trans isSome)).1
  have freed := freed_facts kept.sound isHeld
  have isNew : (s.newClaim uuid input root).ref = (s.freed reservation).made.length :=
    congrArg List.length freed.made.symm
  have isMade (held : Claim) (isSome : reservation = some held) : held ∈ s.made :=
    kept.sound.made held (isHeld held isSome)
  refine
    { sound := freed.sound.add isNew _ _
      caps := caps
      starts := ?_
      last := ?_
      ended := fun other isOther => ?_
      endedMade := fun event isIn other ends => ?_ }
  · rw [cardStarts_snoc]
    by_cases isRun : input.kind = .cardRun
    · have isStart : Event.cardStart (.asked deps input retry
          (.admitted (s.newClaim uuid input root)) reservation) = some input.now := if_pos isRun
      rw [isStart]
      refine List.isChain_append.mpr ⟨kept.starts, List.isChain_singleton _, ?_⟩
      intro last isLast now isNow
      obtain rfl := Option.some.inj (Option.mem_def.mp isNow)
      exact passed.stagger isRun last (kept.last.trans isLast)
    · have isStart : Event.cardStart (.asked deps input retry
          (.admitted (s.newClaim uuid input root)) reservation) = none := if_neg isRun
      rw [isStart]
      exact (List.append_nil _).symm ▸ kept.starts
  · rw [cardStarts_snoc]
    show (if input.kind = .cardRun then some input.now else (s.freed reservation).lastCardStart) = _
    by_cases isRun : input.kind = .cardRun
    · have isStart : Event.cardStart (.asked deps input retry
          (.admitted (s.newClaim uuid input root)) reservation) = some input.now := if_pos isRun
      rw [isStart, if_pos isRun, Option.toList_some, List.getLast?_concat]
    · have isStart : Event.cardStart (.asked deps input retry
          (.admitted (s.newClaim uuid input root)) reservation) = none := if_neg isRun
      rw [isStart, if_neg isRun, freed.lastCardStart, kept.last]
      exact congrArg List.getLast? (List.append_nil _).symm
  · have isReleased : other.ref ∈ (s.freed reservation).released ↔ other.ref ∈ s.released ∨
        ∃ held, reservation = some held ∧ other.ref = held.ref := freed.released other.ref
    show other.ref ∈ (s.freed reservation).released ↔ _
    rw [isReleased, exists_snoc]
    have isThere : other ∈ (s.freed reservation).made ++ [s.newClaim uuid input root] := isOther
    rw [freed.made] at isThere
    rcases List.mem_append.mp isThere with isOld | isLast
    · rw [kept.ended other isOld]
      refine or_congr_right ⟨fun ⟨held, isSome, same⟩ => ?_, fun isSome => ⟨other, isSome, rfl⟩⟩
      exact isSome.trans (congrArg some
        (kept.sound.eq_of_ref isOld (isMade held isSome) same).symm)
    · have isRef : other.ref = s.made.length := by rw [List.mem_singleton.mp isLast]; rfl
      have notOld : other ∉ s.made := fun isOld =>
        Nat.lt_irrefl _ (isRef ▸ kept.sound.ref_lt isOld)
      constructor
      · rintro (isOld | ⟨held, isSome, same⟩)
        · exact absurd (isRef ▸ kept.sound.known _ isOld) (Nat.lt_irrefl _)
        · exact absurd (isRef ▸ same ▸ kept.sound.ref_lt (isMade held isSome)) (Nat.lt_irrefl _)
      · rintro (⟨event, isEvent, ends⟩ | isSome)
        · exact absurd (kept.endedMade event isEvent other ends) notOld
        · exact absurd (isMade other isSome) notOld
  · show other ∈ (s.freed reservation).made ++ [s.newClaim uuid input root]
    rw [freed.made]
    refine List.mem_append_left _ ?_
    rcases List.mem_append.mp isIn with isOld | isLast
    · exact kept.endedMade event isOld other ends
    · rw [List.mem_singleton.mp isLast] at ends
      exact isMade other ends

/-- **The invariant of a run.** -/
theorem run_kept (run : Run (Step uuid limits) {} events s) : Kept limits events s := by
  induction run with
  | nil => exact Kept.empty limits
  | snoc _ taken ih =>
    cases taken with
    | admitted isAdmitted => exact ih.admitted isAdmitted
    | refused isRefused =>
      obtain ⟨drawn, rfl⟩ := admit_refused isRefused
      exact ih.quiet rfl (fun claim ends => by cases ends) _ drawn
    | release isMade => exact ih.release isMade
    | setBudgetGate gate => exact ih.quiet rfl (fun claim ends => by cases ends) gate _

/-- **The arbiter keeps every cap.** In every state that any order of calls reaches: the caps
hold; cards were started apart; the writer root of a claim was released once if the claim has
ended, and not yet otherwise; and an admission that is refused leaves everything as it is. -/
theorem arbiter_keeps_caps (run : Run (Step uuid limits) {} events s) :
    Caps limits events s.live ∧
    (cardStarts events).IsChain (fun earlier later => earlier + cardStaggerMs ≤ later) ∧
    (∀ claim ∈ s.made, claim.writerRoot.isSome = true →
      ((∃ event ∈ events, event.ends claim) → s.rootsReleased.count claim.ref = 1) ∧
      ((¬∃ event ∈ events, event.ends claim) → s.rootsReleased.count claim.ref = 0)) ∧
    ∀ deps input retryClaim refusal s',
      admitWork uuid limits deps s input retryClaim = (.refused refusal, s') →
        s'.claims = s.claims ∧ s'.lastCardStart = s.lastCardStart ∧
          s'.reservation input retryClaim = s.reservation input retryClaim ∧
          s'.made = s.made ∧ s'.released = s.released ∧ s'.rootsReleased = s.rootsReleased := by
  have kept := run_kept run
  refine ⟨kept.caps, kept.starts, fun claim isMade isRooted => ?_,
    fun deps input retryClaim refusal s' isRefused => ?_⟩
  · have counted := kept.sound.roots claim isMade
    refine ⟨fun hasEnded => ?_, fun notEnded => ?_⟩
    · rw [counted, if_pos ⟨isRooted, (kept.ended claim isMade).mpr hasEnded⟩]
    · rw [counted, if_neg fun isBoth => notEnded ((kept.ended claim isMade).mp isBoth.2)]
  · obtain ⟨drawn, rfl⟩ := admit_refused isRefused
    exact ⟨rfl, rfl, rfl, rfl, rfl, rfl⟩

end

/-! ## A card, retried -/

def exampleUuid (n : Nat) : String := String.ofList (List.replicate n 'x')

def exampleLimits : Limits := { maxThreads := 3, installCardCap := 4 }

def exampleDeps : Deps :=
  { restoreReview := false
    flags := { autonomy := true, budgets := true }
    threadRunning := fun _ _ => false
    speakingInRoom := fun _ => false
    directThreads := fun _ => 0
    rootCounters := fun _ _ => { wakes := 0, workMs := 0 }
    askWouldDeadlock := fun _ _ => false
    reachable := fun _ => true
    authorize := none
    dependencyOpen := fun _ => false
    claimWriterRoot := fun _ _ _ => true
    botName := none
    budget := fun _ => none }

def exampleCard (now : Int) : AdmissionInput :=
  { kind := .cardRun
    priority := .work
    botId := "dax"
    threadId := "card"
    project := some
      { groupId := "group"
        isProject := true
        closed := false
        runState := .running
        mode := .conversation
        boardOn := true
        parallelCards := 2 }
    requestId := some "request"
    writerRoot := some { canonicalPath := "/work", dev := "1", ino := "2" }
    now := now }

def exampleStart : Arbiter := { budgetGate := .installed }

def exampleClaim : Claim :=
  exampleStart.newClaim exampleUuid (exampleCard 0) (exampleCard 0).writerRoot

def exampleHeld : Arbiter := exampleStart.take exampleClaim none

def exampleRetried : Claim :=
  exampleHeld.newClaim exampleUuid (exampleCard 2000) (exampleCard 2000).writerRoot

theorem exampleCard_keeps_caps : ∃ events s,
    Run (Step exampleUuid exampleLimits) {} events s ∧ cardStarts events = [0, 2000] ∧
      Caps exampleLimits events s.live ∧ s.rootsReleased.count 0 = 1 := by
  have isInstalled : Step exampleUuid exampleLimits {} (.setBudgetGate .installed) exampleStart :=
    Step.setBudgetGate .installed
  have isHeld : admitWork exampleUuid exampleLimits exampleDeps exampleStart (exampleCard 0) none =
      (.admitted exampleClaim, exampleHeld) := rfl
  have isRetried : admitWork exampleUuid exampleLimits exampleDeps exampleHeld (exampleCard 2000)
      (some exampleClaim) =
        (.admitted exampleRetried, exampleHeld.take exampleRetried (some exampleClaim)) := rfl
  have run := ((Run.nil.snoc isInstalled).snoc (Step.admitted isHeld)).snoc
    (Step.admitted isRetried)
  obtain ⟨caps, _, roots, _⟩ := arbiter_keeps_caps run
  refine ⟨_, _, run, rfl, caps, (roots exampleClaim (by decide) rfl).1 ?_⟩
  exact ⟨_, List.mem_append_right _ (List.mem_singleton_self _), rfl⟩

end Murage.WorkAdmission
