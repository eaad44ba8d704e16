import Murage.PhoneAsk.Tokens

/-!
Owns what a revoke of share and ask is worth: a token that it covers is never accepted again, a
device that is switched off gets none, a revoke that wrote nothing changes nothing, and a floor
file that cannot be read brings no token back.
-/

namespace Murage.PhoneAsk

open Murage.Library

variable {sha256 : String → String} {world next : World} {deviceId : String}

/-! ## The floor only grows -/

/-- The floor is readable and holds a revoke of the device up to a generation. -/
structure Stands (deviceId : String) (through : Nat) (world : World) : Prop where
  readable : world.floorFile.readable = true
  reached : ∃ revoked, world.floorFile.floor.through deviceId = some revoked ∧ through ≤ revoked

theorem Stands.congr {through : Nat} (stands : Stands deviceId through world)
    (same : next.floorFile = world.floorFile) : Stands deviceId through next where
  readable := by rw [same]; exact stands.readable
  reached := by rw [same]; exact stands.reached

theorem Stands.raised {other : String} {through : Nat} {above : Option Nat} {off : Option Bool}
    (stands : Stands deviceId through world) (raised : Raised other above off world next) :
    Stands deviceId through next := by
  obtain ⟨revoked, isRevoked, isReached⟩ := stands.reached
  refine ⟨raised.readable, ?_⟩
  by_cases same : deviceId = other
  · subst same
    obtain ⟨higher, isHigher, isAbove⟩ := raised.grows revoked isRevoked
    exact ⟨higher, isHigher, Nat.le_trans isReached isAbove⟩
  · exact ⟨revoked, (raised.others deviceId same).1.trans isRevoked, isReached⟩

theorem load_floorFile (faults : Faults) (isReadable : world.floorFile.readable = true) :
    (load faults world).floorFile = world.floorFile := by
  have notCorrupt : (readAskFloor world.floorFile).2 = false := by
    rw [readAskFloor, if_pos isReadable]
  rcases (load_loaded faults world).outcome with ⟨-, -, same⟩ | ⟨-, ⟨-, same⟩ | ⟨isCorrupt, -⟩⟩
  · exact same
  · exact same
  · rw [notCorrupt] at isCorrupt
    exact Bool.noConfusion isCorrupt

theorem recover_floorFile (faults : Faults) (isReadable : world.floorFile.readable = true) :
    (recover faults world).floorFile = world.floorFile := by
  unfold recover
  split_ifs
  · exact load_floorFile faults isReadable
  · rfl

theorem Stands.recover {through : Nat} (stands : Stands deviceId through world) (faults : Faults) :
    Stands deviceId through (recover faults world) :=
  stands.congr (recover_floorFile faults stands.readable)

theorem issue_floorFile (faults : Faults) (other token : String) (world : World) :
    (issuePhoneAskToken sha256 faults other token world).2.floorFile =
      (recover faults world).floorFile := by
  dsimp only [issuePhoneAskToken]
  split
  · rfl
  · split_ifs
    · rfl
    · exact persist_floorFile _ _
    · exact persist_floorFile _ _

theorem clear_floorFile (faults : Faults) (other : String) (onlyToken : Option String)
    (world : World) :
    (clearPhoneAskToken sha256 faults other onlyToken world).2.floorFile =
      (recover faults world).floorFile := by
  dsimp only [clearPhoneAskToken]
  split
  · rfl
  · split_ifs
    · rfl
    · exact persist_floorFile _ _
    · exact persist_floorFile _ _

theorem revokePhoneAsk_cases (faults : Faults) (other : String) (world : World) :
    ((revokePhoneAsk faults other world).2 = recover faults world ∧
        (revokePhoneAsk faults other world).1.holds = false) ∨
      ∃ device next, (recover faults world).registry.devices.get other = some device ∧
        Raised other (some device.askGeneration) none (recover faults world) next ∧
          (revokePhoneAsk faults other world).2.floorFile = next.floorFile ∧
            (revokePhoneAsk faults other world).1 ≠ .threw false := by
  dsimp only [revokePhoneAsk]
  cases isIn : (recover faults world).registry.devices.get other with
  | none => exact Or.inl ⟨rfl, rfl⟩
  | some device =>
    rcases raiseAskRevokedFloor_cases faults.floor other (some device.askGeneration) none
      (recover faults world) with isKept | ⟨next, isNext, raised⟩
    · simp only [isKept, Bool.false_eq_true, if_false]
      split_ifs
      · exact Or.inl ⟨rfl, rfl⟩
      · exact Or.inl ⟨rfl, rfl⟩
    · simp only [isNext, if_true]
      split_ifs
      · exact Or.inl ⟨rfl, rfl⟩
      · exact Or.inr ⟨device, next, rfl, raised, persist_floorFile _ _, nofun⟩
      · exact Or.inr ⟨device, next, rfl, raised, persist_floorFile _ _, nofun⟩

theorem switchOff_cases (faults : Faults) (other : String) (world : World) :
    ((setShareAskAllowed faults other false world).2 = recover faults world ∧
        (setShareAskAllowed faults other false world).1.holds = false) ∨
      ∃ device next, (recover faults world).registry.devices.get other = some device ∧
        Raised other (some device.askGeneration) (some true) (recover faults world) next ∧
          (setShareAskAllowed faults other false world).2.floorFile = next.floorFile ∧
            (setShareAskAllowed faults other false world).1 ≠ .threw false := by
  dsimp only [setShareAskAllowed]
  cases isIn : (recover faults world).registry.devices.get other with
  | none => exact Or.inl ⟨rfl, rfl⟩
  | some device =>
    simp only [Bool.false_eq_true, if_false]
    rcases raiseAskRevokedFloor_cases faults.floor other (some device.askGeneration) (some true)
      (recover faults world) with isKept | ⟨next, isNext, raised⟩
    · simp only [isKept, Bool.false_eq_true, if_false]
      split_ifs
      · exact Or.inl ⟨rfl, rfl⟩
      · exact Or.inl ⟨rfl, rfl⟩
    · simp only [isNext, if_true]
      split_ifs
      · exact Or.inl ⟨rfl, rfl⟩
      · exact Or.inr ⟨device, next, rfl, raised, persist_floorFile _ _, nofun⟩
      · exact Or.inr ⟨device, next, rfl, raised, persist_floorFile _ _, nofun⟩

theorem switchOn_floorFile (faults : Faults) (other : String) (world : World) :
    (setShareAskAllowed faults other true world).2.floorFile = (recover faults world).floorFile ∨
      ∃ before next, before.floorFile = (recover faults world).floorFile ∧
        Raised other none (some false) before next ∧
          (setShareAskAllowed faults other true world).2.floorFile = next.floorFile := by
  dsimp only [setShareAskAllowed]
  cases isIn : (recover faults world).registry.devices.get other with
  | none => exact Or.inl rfl
  | some device =>
    simp only [if_true]
    rcases raiseAskRevokedFloor_cases faults.floor other none (some false)
      (persist faults.save (setDevice other { device with shareAskOff := false }
        (recover faults world))).2 with isKept | ⟨next, isNext, raised⟩
    · refine Or.inl ?_
      simp only [isKept, Bool.false_eq_true, if_false]
      split_ifs
      · rfl
      · rfl
      · exact (persist_floorFile _ _).trans (persist_floorFile _ _)
      · exact persist_floorFile _ _
    · simp only [isNext, if_true]
      split_ifs
      · exact Or.inl rfl
      · exact Or.inl rfl
      · refine Or.inr ⟨_, next, ?_, raised, rfl⟩
        exact persist_floorFile _ _
      · exact Or.inl (persist_floorFile _ _)

/-- **A revoke that stands stays, while the floor file stays readable.** -/
theorem Stands.step {through : Nat} (stands : Stands deviceId through world)
    (event : Event × Faults) (notSpoiled : event.1 ≠ .spoil) :
    Stands deviceId through (step sha256 world event) := by
  obtain ⟨event, faults⟩ := event
  have recovered := stands.recover faults
  cases event with
  | issue other token => exact recovered.congr (issue_floorFile faults other token world)
  | authenticate token =>
    rcases authenticatePhoneAsk_world sha256 faults token world with same | same
    · exact stands.congr (congrArg World.floorFile same)
    · exact recovered.congr (congrArg World.floorFile same)
  | clear other onlyToken => exact recovered.congr (clear_floorFile faults other onlyToken world)
  | revoke other =>
    rcases revokePhoneAsk_cases faults other world with ⟨same, -⟩ | ⟨device, next, -, raised, isNext, -⟩
    · exact recovered.congr (congrArg World.floorFile same)
    · exact (recovered.raised raised).congr isNext
  | setAllowed other allowed =>
    cases allowed with
    | false =>
      rcases switchOff_cases faults other world with ⟨same, -⟩ | ⟨device, next, -, raised, isNext, -⟩
      · exact recovered.congr (congrArg World.floorFile same)
      · exact (recovered.raised raised).congr isNext
    | true =>
      rcases switchOn_floorFile faults other world with same | ⟨before, next, isBefore, raised, isNext⟩
      · exact recovered.congr same
      · exact ((recovered.congr isBefore).raised raised).congr isNext
  | restart version => exact stands.congr (load_floorFile faults stands.readable)
  | spoil => exact absurd rfl notSpoiled
  | mend => exact ⟨rfl, stands.reached⟩

theorem Stands.run {through : Nat} (stands : Stands deviceId through world)
    (events : List (Event × Faults)) (notSpoiled : ∀ event ∈ events, event.1 ≠ .spoil) :
    Stands deviceId through (run sha256 world events) := by
  induction events generalizing world with
  | nil => exact stands
  | cons event rest ih =>
    exact ih (stands.step event (notSpoiled event List.mem_cons_self))
      fun other isIn => notSpoiled other (List.mem_cons_of_mem _ isIn)

/-! ## Accepted tokens -/

variable {faults : Faults}

/-- **An accepted token is above every revoked generation, and was issued to its device.** -/
theorem accepted {version count : Nat} (sound : Sound world)
    (traced : Traced sha256 version count world) {token : String} {generation : Nat}
    (isAccepted : (authenticatePhoneAsk sha256 faults token world).1 = some (deviceId, generation)) :
    (∀ revoked, (recover faults world).floorFile.floor.through deviceId = some revoked →
      revoked < generation) ∧
      ∃ mint ∈ (recover faults world).minted.drop count, sha256 mint.token = sha256 token ∧
        mint.deviceId = deviceId ∧ mint.generation = generation := by
  dsimp only [authenticatePhoneAsk] at isAccepted
  split_ifs at isAccepted with isToken
  · cases isFound : (recover faults world).registry.devices.entries.find?
      (·.2.ask = some (sha256 token)) with
    | none =>
      rw [isFound] at isAccepted
      exact nomatch isAccepted
    | some entry =>
      rw [isFound] at isAccepted
      dsimp only at isAccepted
      split_ifs at isAccepted with isRefused
      obtain ⟨rfl, rfl⟩ := Prod.mk.inj (Option.some.inj isAccepted)
      have isIn := OrderedMap.get_of_mem_entries (List.mem_of_find?_eq_some isFound)
      have isAsk : entry.2.ask = some (sha256 token) := by simpa using List.find?_some isFound
      have notRefused : ¬ entry.2.askGeneration <
          (recover faults world).registry.askFloor entry.1 := by
        simp only [askRefused, Bool.or_eq_true, decide_eq_true_eq, not_or] at isRefused
        exact isRefused.2
      have soundAt := (sound.recover faults).devices entry.1 entry.2 isIn
      refine ⟨fun revoked isRevoked => ?_, ?_⟩
      · rcases soundAt.above revoked isRevoked (by rw [isAsk]; rfl) with isAbove | refused
        · exact isAbove
        · exact absurd refused notRefused
      · exact (traced.recover faults).process entry.1 entry.2 isIn _ isAsk

theorem recover_minted (faults : Faults) (world : World) :
    (recover faults world).minted = world.minted := by
  unfold recover
  split_ifs
  · exact (load_loaded faults world).minted
  · rfl

theorem Raised.minted {through : Option Nat} {off : Option Bool}
    (raised : Raised deviceId through off world next) : next.minted = world.minted := by
  obtain ⟨file, rfl⟩ := raised.only
  rfl

theorem issue_minted (faults : Faults) (other token : String) (world : World) :
    ∃ more, (issuePhoneAskToken sha256 faults other token world).2.minted = world.minted ++ more := by
  rw [← recover_minted faults world]
  dsimp only [issuePhoneAskToken]
  split
  · exact ⟨[], (List.append_nil _).symm⟩
  · split_ifs
    · exact ⟨[], (List.append_nil _).symm⟩
    · exact ⟨_, congrArg (· ++ _) (persist_minted _ _)⟩
    · exact ⟨[], (persist_minted _ _).trans (List.append_nil _).symm⟩

theorem clear_minted (faults : Faults) (other : String) (onlyToken : Option String)
    (world : World) :
    (clearPhoneAskToken sha256 faults other onlyToken world).2.minted = world.minted := by
  rw [← recover_minted faults world]
  dsimp only [clearPhoneAskToken]
  split
  · rfl
  · split_ifs
    · rfl
    · exact persist_minted _ _
    · exact persist_minted _ _

theorem revoke_minted (faults : Faults) (other : String) (world : World) :
    (revokePhoneAsk faults other world).2.minted = world.minted := by
  rw [← recover_minted faults world]
  dsimp only [revokePhoneAsk]
  cases isIn : (recover faults world).registry.devices.get other with
  | none => rfl
  | some device =>
    rcases raiseAskRevokedFloor_cases faults.floor other (some device.askGeneration) none
      (recover faults world) with isKept | ⟨next, isNext, raised⟩
    · simp only [isKept, Bool.false_eq_true, if_false]
      split_ifs <;> rfl
    · simp only [isNext, if_true]
      split_ifs
      · rfl
      · exact (persist_minted _ _).trans raised.minted
      · exact (persist_minted _ _).trans raised.minted

theorem setAllowed_minted (faults : Faults) (other : String) (allowed : Bool) (world : World) :
    (setShareAskAllowed faults other allowed world).2.minted = world.minted := by
  rw [← recover_minted faults world]
  dsimp only [setShareAskAllowed]
  cases isIn : (recover faults world).registry.devices.get other with
  | none => rfl
  | some device =>
    cases allowed with
    | false =>
      simp only [Bool.false_eq_true, if_false]
      rcases raiseAskRevokedFloor_cases faults.floor other (some device.askGeneration)
        (some true) (recover faults world) with isKept | ⟨next, isNext, raised⟩
      · simp only [isKept, Bool.false_eq_true, if_false]
        split_ifs <;> rfl
      · simp only [isNext, if_true]
        split_ifs
        · rfl
        · exact (persist_minted _ _).trans raised.minted
        · exact (persist_minted _ _).trans raised.minted
    | true =>
      simp only [if_true]
      rcases raiseAskRevokedFloor_cases faults.floor other none (some false)
        (persist faults.save (setDevice other { device with shareAskOff := false }
          (recover faults world))).2 with isKept | ⟨next, isNext, raised⟩
      · simp only [isKept, Bool.false_eq_true, if_false]
        split_ifs
        · rfl
        · rfl
        · exact (persist_minted _ _).trans (persist_minted _ _)
        · exact persist_minted _ _
      · simp only [isNext, if_true]
        split_ifs
        · rfl
        · rfl
        · exact raised.minted.trans (persist_minted _ _)
        · exact persist_minted _ _

theorem step_minted (sha256 : String → String) (event : Event × Faults) (world : World) :
    ∃ more, (step sha256 world event).minted = world.minted ++ more := by
  obtain ⟨event, faults⟩ := event
  have same : ∀ {minted : List Mint}, minted = world.minted → ∃ more, minted = world.minted ++ more :=
    fun isSame => ⟨[], isSame.trans (List.append_nil _).symm⟩
  cases event with
  | issue other token => exact issue_minted faults other token world
  | authenticate token =>
    rcases authenticatePhoneAsk_world sha256 faults token world with isSame | isSame
    · exact same (congrArg World.minted isSame)
    · exact same ((congrArg World.minted isSame).trans (recover_minted faults world))
  | clear other onlyToken => exact same (clear_minted faults other onlyToken world)
  | revoke other => exact same (revoke_minted faults other world)
  | setAllowed other allowed => exact same (setAllowed_minted faults other allowed world)
  | restart version => exact same (load_loaded faults _).minted
  | spoil => exact same rfl
  | mend => exact same rfl

theorem run_minted (sha256 : String → String) (events : List (Event × Faults)) (world : World) :
    ∃ more, (run sha256 world events).minted = world.minted ++ more := by
  induction events generalizing world with
  | nil => exact ⟨[], (List.append_nil _).symm⟩
  | cons event rest ih =>
    obtain ⟨first, isFirst⟩ := step_minted sha256 event world
    obtain ⟨others, areOthers⟩ := ih (step sha256 world event)
    exact ⟨first ++ others, areOthers.trans (by rw [isFirst, List.append_assoc])⟩

/-! ## What a revoke is worth -/

inductive Revokes (faults : Faults) (deviceId : String) (world : World) : World → Prop
  | revoke (holds : (revokePhoneAsk faults deviceId world).1.holds = true) :
      Revokes faults deviceId world (revokePhoneAsk faults deviceId world).2
  | switchOff (holds : (setShareAskAllowed faults deviceId false world).1.holds = true) :
      Revokes faults deviceId world (setShareAskAllowed faults deviceId false world).2

theorem Revokes.stands (revokes : Revokes faults deviceId world next) {device : Device}
    (isIn : (recover faults world).registry.devices.get deviceId = some device) :
    Stands deviceId device.askGeneration next ∧ next.minted = world.minted := by
  have ofRaised : ∀ {other raised : World} {off : Option Bool},
      (recover faults world).registry.devices.get deviceId = some device →
        Raised deviceId (some device.askGeneration) off (recover faults world) raised →
          other.floorFile = raised.floorFile → Stands deviceId device.askGeneration other := by
    intro other raised off _ isRaised isFile
    obtain ⟨revoked, isRevoked, isReached, -⟩ := isRaised.reached _ rfl
    exact Stands.congr ⟨isRaised.readable, revoked, isRevoked, isReached⟩ isFile
  cases revokes with
  | revoke holds =>
    refine ⟨?_, revoke_minted faults deviceId world⟩
    rcases revokePhoneAsk_cases faults deviceId world with ⟨-, notHeld⟩ | ⟨other, raised, isOther, isRaised, isFile, -⟩
    · rw [notHeld] at holds
      exact Bool.noConfusion holds
    · rw [isIn] at isOther
      obtain rfl := Option.some.inj isOther
      exact ofRaised isIn isRaised isFile
  | switchOff holds =>
    refine ⟨?_, setAllowed_minted faults deviceId false world⟩
    rcases switchOff_cases faults deviceId world with ⟨-, notHeld⟩ | ⟨other, raised, isOther, isRaised, isFile, -⟩
    · rw [notHeld] at holds
      exact Bool.noConfusion holds
    · rw [isIn] at isOther
      obtain rfl := Option.some.inj isOther
      exact ofRaised isIn isRaised isFile

theorem load_unreadable (faults : Faults) (isCorrupt : world.floorFile.readable = false)
    {device : Device} (isIn : (load faults world).registry.devices.get deviceId = some device) :
    device.ask = none := by
  have corrupt : (readAskFloor world.floorFile).2 = true := by
    rw [readAskFloor, if_neg (by rw [isCorrupt]; exact Bool.false_ne_true)]
  rcases (load_loaded faults world).outcome with ⟨noDevices, -⟩ | ⟨isLoaded, -⟩
  · rw [noDevices] at isIn
    exact absurd isIn (by simp)
  · have isDevice : (loadedDevices world).get deviceId = some device := by
      rw [isLoaded] at isIn
      exact isIn
    rw [get_loadedDevices] at isDevice
    obtain ⟨disk, -, rfl⟩ := Option.map_eq_some_iff.mp isDevice
    cases isAsk : (loadedDevice (readAskFloor world.floorFile).1 (readAskFloor world.floorFile).2
      (known world.registry world.registry.devices deviceId) deviceId disk).ask with
    | none => rfl
    | some hash =>
      rw [(loadedDevice_ask _ _ _ _ _ isAsk).1] at corrupt
      exact Bool.noConfusion corrupt

theorem authenticate_of_noTokens (token : String)
    (noTokens : ∀ deviceId device, (recover faults world).registry.devices.get deviceId =
      some device → device.ask = none) :
    (authenticatePhoneAsk sha256 faults token world).1 = none := by
  have isNone : (recover faults world).registry.devices.entries.find?
      (·.2.ask = some (sha256 token)) = none := by
    rw [List.find?_eq_none]
    intro entry isIn isHeld
    have noAsk := noTokens entry.1 entry.2 (OrderedMap.get_of_mem_entries isIn)
    rw [decide_eq_true_iff, noAsk] at isHeld
    exact nomatch isHeld
  dsimp only [authenticatePhoneAsk]
  split_ifs
  · rw [isNone]
  · rfl

/-- A load that found the floor unreadable accepts no token, nor does the next load if this one
could not be saved. -/
theorem load_unreadable_accepts (faults later : Faults) (token : String)
    (isCorrupt : world.floorFile.readable = false) :
    (authenticatePhoneAsk sha256 later token (load faults world)).1 = none := by
  refine authenticate_of_noTokens token fun deviceId device isIn => ?_
  unfold recover at isIn
  split_ifs at isIn with isDue
  · refine load_unreadable later ?_ isIn
    rcases (load_loaded faults world).outcome with ⟨-, -, same⟩ | ⟨isLoaded, -⟩
    · rw [same, isCorrupt]
    · rw [isLoaded] at isDue
      exact Bool.noConfusion isDue
  · exact load_unreadable faults isCorrupt isIn

theorem load_unreadable_traced (faults : Faults) (isCorrupt : world.floorFile.readable = false)
    (isServed : (load faults world).registry.unavailable = false) :
    Traced sha256 world.saved.length world.minted.length (load faults world) := by
  have loaded := load_loaded faults world
  have corrupt : (readAskFloor world.floorFile).2 = true := by
    rw [readAskFloor, if_neg (by rw [isCorrupt]; exact Bool.false_ne_true)]
  rcases loaded.outcome with ⟨-, isUnavailable, -⟩ | ⟨isLoaded, ⟨notCorrupt, -⟩ | ⟨-, -, isFile⟩⟩
  · rw [isUnavailable] at isServed
    exact Bool.noConfusion isServed
  · rw [notCorrupt] at corrupt
    exact Bool.noConfusion corrupt
  have noTokens : ∀ mints, FromMints sha256 mints (loadedDevices world) := by
    intro mints deviceId device isThere
    have isServedDevice : (load faults world).registry.devices.get deviceId = some device := by
      rw [isLoaded]
      exact isThere
    exact Device.fromMints_of_none (load_unreadable faults isCorrupt isServedDevice)
  have isProcess : (load faults world).registry.devices = loadedDevices world := by rw [isLoaded]; rfl
  refine ⟨?_, Nat.le_of_eq (congrArg List.length loaded.minted).symm, ?_, ?_, ?_⟩
  · rcases loaded.files with ⟨-, isSaved⟩ | ⟨-, isSaved⟩
    · exact Nat.le_of_eq (congrArg List.length isSaved).symm
    · rw [isSaved, List.length_append]
      exact Nat.le_add_right _ _
  · rw [isProcess]
    exact noTokens _
  · rw [isFile]
    exact noTokens _
  · intro devices isIn
    rcases loaded.files with ⟨-, isSaved⟩ | ⟨-, isSaved⟩
    · rw [isSaved, List.drop_length] at isIn
      exact absurd isIn List.not_mem_nil
    · rw [isSaved, List.drop_left, List.mem_singleton] at isIn
      exact isIn ▸ noTokens _

/-- What revoking share and ask is worth in a world. `revoked`: as long as the floor file stays
readable. `unreadable`: as long as restarts load only versions saved since. -/
structure AskRevoked (sha256 : String → String) (world : World) : Prop where
  covers : ∀ faults deviceId device,
    (recover faults world).registry.devices.get deviceId = some device →
      ∀ mint ∈ (recover faults world).mintedHere, mint.deviceId = deviceId →
        mint.generation ≤ device.askGeneration
  revoked : ∀ faults deviceId device next,
    (recover faults world).registry.devices.get deviceId = some device →
      Revokes faults deviceId world next →
        ∀ later : List (Event × Faults), (∀ event ∈ later, event.1 ≠ .spoil) →
          ((run sha256 next later).minted.map (·.token)).Nodup →
            ∀ mint ∈ world.minted, mint.deviceId = deviceId →
              mint.generation ≤ device.askGeneration →
                ∀ check, (authenticatePhoneAsk sha256 check mint.token
                  (run sha256 next later)).1 = none
  off : ∀ faults deviceId token generation,
    (issuePhoneAskToken sha256 faults deviceId token world).1 = .issued generation →
      (issuePhoneAskToken sha256 faults deviceId token world).2.floorFile.floor.off deviceId = false
  untouched : ∀ faults deviceId,
    ((revokePhoneAsk faults deviceId world).1 = .threw false →
        (revokePhoneAsk faults deviceId world).2 = recover faults world) ∧
      ((setShareAskAllowed faults deviceId false world).1 = .threw false →
        (setShareAskAllowed faults deviceId false world).2 = recover faults world)
  unreadable : ∀ faults, world.floorFile.readable = false →
    (∀ check token, (authenticatePhoneAsk sha256 check token (load faults world)).1 = none) ∧
      ((load faults world).registry.unavailable = false →
        ∀ later : List (Event × Faults),
          (∀ event ∈ later, Traced.Loads world.saved.length event) →
            ((run sha256 (load faults world) later).minted.map (·.token)).Nodup →
              ∀ mint ∈ world.minted, ∀ check, (authenticatePhoneAsk sha256 check mint.token
                (run sha256 (load faults world) later)).1 = none)

theorem accepted_mint {version count : Nat} (sound : Sound world)
    (traced : Traced sha256 version count world) (isInjective : Function.Injective sha256)
    (areFresh : (world.minted.map (·.token)).Nodup) {mint : Mint} (isMint : mint ∈ world.minted)
    {answer : String × Nat}
    (isAccepted : (authenticatePhoneAsk sha256 faults mint.token world).1 = some answer) :
    answer = (mint.deviceId, mint.generation) ∧ mint ∈ world.minted.drop count ∧
      ∀ revoked, (recover faults world).floorFile.floor.through mint.deviceId = some revoked →
        revoked < mint.generation := by
  obtain ⟨isAbove, other, isOther, sameHash, isDevice, isGeneration⟩ :=
    accepted sound traced isAccepted
  rw [recover_minted] at isOther
  have same : other = mint :=
    List.inj_on_of_nodup_map areFresh (List.mem_of_mem_drop isOther) isMint (isInjective sameHash)
  subst same
  refine ⟨Prod.ext isDevice.symm isGeneration.symm, isOther, ?_⟩
  rw [isDevice, isGeneration]
  exact isAbove

theorem boot_run_sound (devices : Devices) (events : List (Event × Faults)) :
    Sound (run sha256 (boot devices) events) :=
  (boot_sound devices).run events

theorem loads_zero (events : List (Event × Faults)) : ∀ event ∈ events, Traced.Loads 0 event := by
  rintro ⟨event, faults⟩ -
  cases event <;> first | exact Nat.zero_le _ | exact trivial

theorem issued_off (sound : Sound world) {token : String} {generation : Nat}
    (isIssued : (issuePhoneAskToken sha256 faults deviceId token world).1 = .issued generation) :
    (issuePhoneAskToken sha256 faults deviceId token world).2.floorFile.floor.off deviceId =
      false := by
  rw [issue_floorFile]
  dsimp only [issuePhoneAskToken] at isIssued
  cases isIn : (recover faults world).registry.devices.get deviceId with
  | none =>
    rw [isIn] at isIssued
    exact nomatch isIssued
  | some device =>
    rw [isIn] at isIssued
    dsimp only at isIssued
    split_ifs at isIssued with isRefused isSaved
    obtain ⟨notOff, -⟩ := Bool.or_eq_false_iff.mp (Bool.eq_false_iff.mpr isRefused)
    rw [Bool.eq_false_iff]
    intro isOff
    rw [((sound.recover faults).devices deviceId device isIn).off isOff] at notOff
    exact Bool.noConfusion notOff

def examplePhone : Devices := OrderedMap.set ∅ "phone" {}

def exampleToken : String := "murage_pa_0123456789012345678901234567890123456789012"

theorem examplePhone_noTokens : ∀ deviceId device, examplePhone.get deviceId = some device →
    device.ask = none := by
  intro deviceId device isIn
  rw [examplePhone, OrderedMap.get_set] at isIn
  split_ifs at isIn
  · rw [← Option.some.inj isIn]
  · exact absurd isIn (by simp)

end Murage.PhoneAsk
