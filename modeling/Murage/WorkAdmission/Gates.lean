import Murage.WorkAdmission.Model

/-!
Owns what an admission that passed every gate may rely on, and what an admission and a release
do to the live claims, counted under any condition.

Does not own: runs.
-/

namespace Murage.WorkAdmission

open Murage.Library

variable {uuid : Nat → String} {limits : Limits} {deps : Deps} {s s' : Arbiter}
  {input : AdmissionInput} {retry reservation : Option Claim} {claim held : Claim}
  {live : List Claim}

/-! ## The gates -/

/-- What an admission knows once no gate has refused it, of the claims other than its
reservation. -/
structure Passed (limits : Limits) (input : AdmissionInput) (live : List Claim)
    (reserved : Bool) (lastCardStart : Option Int) : Prop where
  thread : ∀ claim ∈ live, ¬(claim.threadId = input.threadId ∧ claim.botId = input.botId)
  speaker : input.kind.isRoom = true →
    ∀ claim ∈ live, ¬(claim.botId = input.botId ∧ claim.kind.isRoom = true)
  ceiling : input.kind ≠ .ownerDirect →
    (live.countP fun claim => claim.botId = input.botId && claim.kind ≠ .ownerDirect) <
      limits.maxThreads
  card : input.kind.isCard = true → reserved = false → ∀ claim ∈ live,
    ¬(claim.kind.isCard = true ∧ claim.botId = input.botId ∧ claim.groupId = input.groupId)
  group : input.kind = .cardRun → reserved = false →
    (live.countP fun claim => claim.kind = .cardRun && claim.groupId = input.groupId : Nat) <
      input.parallel
  install : input.kind = .cardRun → reserved = false →
    (live.countP fun claim => claim.kind = .cardRun : Nat) < limits.installCardCap
  stagger : input.kind = .cardRun → ∀ last, lastCardStart = some last →
    last + cardStaggerMs ≤ input.now

theorem threadGate_passed (isOpen : threadGate deps input live = none) :
    ∀ claim ∈ live, ¬(claim.threadId = input.threadId ∧ claim.botId = input.botId) := by
  intro claim isIn ⟨sameThread, sameBot⟩
  unfold threadGate at isOpen
  split_ifs at isOpen with isRunning
  · cases isOpen
  · refine isRunning (Bool.or_eq_true_iff.mpr (Or.inr (List.any_eq_true.mpr ⟨claim, isIn, ?_⟩)))
    simp [sameThread, sameBot]

theorem speakerGate_passed (isOpen : speakerGate deps input live = none)
    (isRoom : input.kind.isRoom = true) :
    ∀ claim ∈ live, ¬(claim.botId = input.botId ∧ claim.kind.isRoom = true) := by
  intro claim isIn ⟨sameBot, isSpeaking⟩
  unfold speakerGate at isOpen
  split_ifs at isOpen with isLocked
  · cases isOpen
  · refine isLocked (Bool.and_eq_true_iff.mpr ⟨isRoom, Bool.or_eq_true_iff.mpr (Or.inr ?_)⟩)
    exact List.any_eq_true.mpr ⟨claim, isIn, by simp [sameBot, isSpeaking]⟩

theorem ceilingGate_passed (isOpen : ceilingGate limits deps input live = none)
    (notOwner : input.kind ≠ .ownerDirect) :
    (live.countP fun claim => claim.botId = input.botId && claim.kind ≠ .ownerDirect) <
      limits.maxThreads := by
  unfold ceilingGate at isOpen
  simp only [decide_eq_false notOwner, Bool.false_and, if_false, Bool.false_eq_true] at isOpen
  split_ifs at isOpen with isFull
  · cases isOpen
  · exact Nat.lt_of_le_of_lt (Nat.le_add_left _ _) (Nat.lt_of_not_le isFull)

theorem cardGate_passed (isOpen : cardGate limits deps input live false = none)
    (isCard : input.kind.isCard = true) :
    (∀ claim ∈ live,
      ¬(claim.kind.isCard = true ∧ claim.botId = input.botId ∧ claim.groupId = input.groupId)) ∧
    (input.kind = .cardRun →
      (live.countP fun claim => claim.kind = .cardRun && claim.groupId = input.groupId : Nat) <
          input.parallel ∧
        (live.countP fun claim => claim.kind = .cardRun : Nat) < limits.installCardCap) := by
  unfold cardGate at isOpen
  simp only [isCard, Bool.not_false, Bool.and_self, if_true] at isOpen
  split_ifs at isOpen with isBusy isFull isCapped
  · cases isOpen
  · cases isOpen
  · cases isOpen
  · refine ⟨fun claim isIn ⟨isCard, sameBot, sameGroup⟩ => ?_, fun isRun => ?_⟩
    · exact isBusy (List.any_eq_true.mpr ⟨claim, isIn, by simp [isCard, sameBot, sameGroup]⟩)
    · simp only [isRun, decide_true, Bool.true_and, decide_eq_true_iff, not_le] at isFull isCapped
      exact ⟨isFull, isCapped⟩

theorem staggerGate_passed {last : Int} (isOpen : staggerGate input (some last) = none)
    (isRun : input.kind = .cardRun) : last + cardStaggerMs ≤ input.now := by
  unfold staggerGate at isOpen
  simp only [isRun, decide_true, Bool.true_and] at isOpen
  split_ifs at isOpen with isEarly
  rw [decide_eq_true_iff] at isEarly
  omega

/-- **No gate refused.** -/
theorem refusal_passed (isOpen : refusal limits deps s input reservation = none) :
    Passed limits input (s.others reservation) reservation.isSome s.lastCardStart := by
  simp only [refusal, Option.or_eq_none_iff] at isOpen
  obtain ⟨⟨⟨⟨⟨⟨_, thread⟩, speaker⟩, ceiling⟩, card⟩, _⟩, stagger⟩ := isOpen
  exact
    { thread := threadGate_passed thread
      speaker := speakerGate_passed speaker
      ceiling := ceilingGate_passed ceiling
      card := fun isCard notReserved => (cardGate_passed (notReserved ▸ card) isCard).1
      group := fun isRun notReserved =>
        ((cardGate_passed (notReserved ▸ card) (by rw [isRun]; rfl)).2 isRun).1
      install := fun isRun notReserved =>
        ((cardGate_passed (notReserved ▸ card) (by rw [isRun]; rfl)).2 isRun).2
      stagger := fun isRun last isLast => staggerGate_passed (isLast ▸ stagger) isRun }

/-! ## The reservation -/

theorem reservation_some (isReserved : s.reservation input retry = some held) :
    held ∈ s.live ∧ held.kind = input.kind ∧ held.groupId = input.groupId ∧
      held.botId = input.botId ∧ held.threadId = input.threadId := by
  rw [Arbiter.reservation, Option.filter_eq_some_iff] at isReserved
  obtain ⟨_, isSame⟩ := isReserved
  simp only [Bool.and_eq_true, decide_eq_true_iff] at isSame
  obtain ⟨⟨⟨⟨⟨⟨⟨isLive, _⟩, _⟩, sameKind⟩, sameGroup⟩, _⟩, sameBot⟩, sameThread⟩ := isSame
  exact ⟨OrderedMap.mem_values_of_get isLive, sameKind, sameGroup, sameBot, sameThread⟩

/-! ## Counting the live claims -/

structure Arbiter.Sound (s : Arbiter) : Prop where
  keyed : ∀ entry ∈ s.claims.entries, entry.1 = entry.2.id
  made : ∀ claim ∈ s.live, claim ∈ s.made
  refs : ∀ (i : Nat) (claim : Claim), s.made[i]? = some claim → claim.ref = i
  known : ∀ ref ∈ s.released, ref < s.made.length
  unreleased : ∀ claim ∈ s.live, claim.ref ∉ s.released
  roots : ∀ claim ∈ s.made, s.rootsReleased.count claim.ref =
    if claim.writerRoot.isSome = true ∧ claim.ref ∈ s.released then 1 else 0
  rooted : ∀ ref ∈ s.rootsReleased, ref ∈ s.released

theorem countP_others (p : Claim → Bool) (isHeld : held ∈ s.live) :
    (s.others (some held)).countP p + (if p held then 1 else 0) ≤ s.live.countP p := by
  have along (claims : List Claim) (isIn : held ∈ claims) :
      (claims.filter fun claim => some claim ≠ some held).countP p + (if p held then 1 else 0) ≤
        claims.countP p := by
    induction claims with
    | nil => cases isIn
    | cons first rest ih =>
      rw [List.countP_cons]
      by_cases isFirst : first = held
      · subst isFirst
        rw [List.filter_cons_of_neg (by simp)]
        exact Nat.add_le_add_right (List.filter_sublist.countP_le) _
      · rw [List.filter_cons_of_pos (by simpa using isFirst), List.countP_cons]
        have later := ih (List.mem_of_ne_of_mem (Ne.symm isFirst) isIn)
        omega
  exact along s.live isHeld

theorem others_sublist (s : Arbiter) (reservation : Option Claim) :
    (s.others reservation).Sublist s.live :=
  List.filter_sublist

theorem live_release (s : Arbiter) (claim : Claim) : (s.release claim).live.Sublist s.live := by
  by_cases isDone : claim.ref ∈ s.released
  · rw [Arbiter.release, if_pos isDone]
  · rw [Arbiter.release, if_neg isDone]
    exact List.filter_sublist.map _

theorem live_release_others (sound : s.Sound) (isHeld : held ∈ s.live) :
    (s.release held).live.Sublist (s.others (some held)) := by
  have isFresh := sound.unreleased held isHeld
  rw [Arbiter.release, if_neg isFresh]
  show ((s.claims.entries.filter fun entry => entry.1 ≠ held.id).map (·.2)).Sublist
    ((s.claims.entries.map (·.2)).filter fun claim => some claim ≠ some held)
  rw [List.filter_map]
  refine List.Sublist.map _ ?_
  have kept : ∀ entry ∈ s.claims.entries, entry.1 ≠ held.id → entry.2 ≠ held := by
    intro entry isIn isOther isSame
    exact isOther ((sound.keyed entry isIn).trans (congrArg Claim.id isSame))
  have narrowed : s.claims.entries.filter (fun entry => entry.1 ≠ held.id) =
      (s.claims.entries.filter fun entry => some entry.2 ≠ some held).filter
        fun entry => entry.1 ≠ held.id := by
    rw [List.filter_filter]
    refine List.filter_congr fun entry isIn => ?_
    by_cases isOther : entry.1 = held.id
    · simp [isOther]
    · simp [isOther, kept entry isIn isOther]
  rw [narrowed]
  exact List.filter_sublist

/-- **The new claim counts once, its reservation no more.** -/
theorem countP_take (sound : s.Sound) (p : Claim → Bool) (claim : Claim)
    (isHeld : ∀ held, reservation = some held → held ∈ s.live) :
    (s.take claim reservation).live.countP p ≤
      (s.others reservation).countP p + if p claim then 1 else 0 := by
  cases reservation with
  | none =>
    have isAll : s.others none = s.live := List.filter_eq_self.mpr fun claim _ => by simp
    rw [isAll]
    exact OrderedMap.countP_values_set p s.claims claim.id claim
  | some held =>
    have left := (live_release_others sound (isHeld held rfl)).countP_le (p := p)
    have added := OrderedMap.countP_values_set p (s.release held).claims claim.id claim
    exact Nat.le_trans added (Nat.add_le_add_right left _)

/-- **A cap is kept**: there was room for the claim, or it takes the place of one that counted
already. -/
theorem take_keeps_cap (sound : s.Sound) {p : Claim → Bool} {cap : Nat}
    (isHeld : ∀ held, reservation = some held → held ∈ s.live)
    (kept : s.live.countP p ≤ cap)
    (hasRoom : p claim = true → (s.others reservation).countP p < cap ∨
      ∃ held, reservation = some held ∧ p held = true) :
    (s.take claim reservation).live.countP p ≤ cap := by
  have taken := countP_take sound p claim isHeld
  have fewer := (others_sublist s reservation).countP_le (p := p)
  by_cases counts : p claim = true
  · rw [if_pos counts] at taken
    rcases hasRoom counts with isRoom | ⟨held, rfl, isCounted⟩
    · omega
    · have once := countP_others p (isHeld held rfl)
      rw [if_pos isCounted] at once
      omega
  · rw [if_neg counts] at taken
    omega

end Murage.WorkAdmission
