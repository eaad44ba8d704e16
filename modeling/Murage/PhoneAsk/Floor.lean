import Murage.PhoneAsk.Model

/-!
Owns what holds between the devices of the process and the revoke floor after every call: a
revoked generation is never above a device's, and a token at a revoked generation is refused.

Does not own: where a token came from.
-/

namespace Murage.PhoneAsk

open Murage.Library

def FloorFile.floor (file : FloorFile) : Floor := file.content.getD emptyFloor

/-! ## What holds of a device -/

/-- A device of the process against the floor file. -/
structure SoundAt (world : World) (deviceId : String) (device : Device) : Prop where
  below : ∀ revoked, world.floorFile.floor.through deviceId = some revoked →
    revoked ≤ device.askGeneration
  above : ∀ revoked, world.floorFile.floor.through deviceId = some revoked →
    device.ask.isSome = true →
      revoked < device.askGeneration ∨ device.askGeneration < world.registry.askFloor deviceId
  off : world.floorFile.floor.off deviceId = true → device.shareAskOff = true
  here : ∀ mint ∈ world.mintedHere, mint.deviceId = deviceId →
    mint.generation ≤ device.askGeneration

structure Sound (world : World) : Prop where
  devices : ∀ deviceId device, world.registry.devices.get deviceId = some device →
    SoundAt world deviceId device
  here : ∀ mint ∈ world.mintedHere, mint.generation ≤ world.registry.askFloor mint.deviceId

/-- Nothing but one device has changed. -/
structure OnlyDevice (deviceId : String) (world next : World) : Prop where
  device : ∀ other, other ≠ deviceId →
    next.registry.devices.get other = world.registry.devices.get other
  through : ∀ other, other ≠ deviceId →
    next.floorFile.floor.through other = world.floorFile.floor.through other
  off : ∀ other, other ≠ deviceId → next.floorFile.floor.off other = world.floorFile.floor.off other
  askFloor : ∀ other, other ≠ deviceId →
    next.registry.askFloor other = world.registry.askFloor other
  here : ∀ mint ∈ next.mintedHere, mint.deviceId ≠ deviceId → mint ∈ world.mintedHere

variable {deviceId : String}

theorem Sound.only {world next : World} (sound : Sound world)
    (only : OnlyDevice deviceId world next)
    (device : ∀ device, next.registry.devices.get deviceId = some device →
      SoundAt next deviceId device)
    (here : ∀ mint ∈ next.mintedHere, mint.deviceId = deviceId →
      mint.generation ≤ next.registry.askFloor deviceId) : Sound next := by
  constructor
  · intro other otherDevice isThere
    by_cases same : other = deviceId
    · subst same
      exact device otherDevice isThere
    · rw [only.device other same] at isThere
      have soundAt := sound.devices other otherDevice isThere
      exact {
        below := fun revoked isRevoked => soundAt.below revoked (only.through other same ▸ isRevoked)
        above := fun revoked isRevoked holds => by
          rw [only.askFloor other same]
          exact soundAt.above revoked (only.through other same ▸ isRevoked) holds
        off := fun isOff => soundAt.off (only.off other same ▸ isOff)
        here := fun mint isIn isOther =>
          soundAt.here mint (only.here mint isIn (isOther ▸ same)) isOther }
  · intro mint isIn
    by_cases same : mint.deviceId = deviceId
    · rw [same]
      exact here mint isIn same
    · rw [only.askFloor _ same]
      exact sound.here mint (only.here mint isIn same)

theorem Sound.congr {world next : World} (sound : Sound world)
    (registry : next.registry = world.registry) (floor : next.floorFile.floor = world.floorFile.floor)
    (here : next.mintedHere = world.mintedHere) : Sound next := by
  constructor
  · intro deviceId device isIn
    rw [registry] at isIn
    have soundAt := sound.devices deviceId device isIn
    exact {
      below := by rw [floor]; exact soundAt.below
      above := by rw [floor, registry]; exact soundAt.above
      off := by rw [floor]; exact soundAt.off
      here := by rw [here]; exact soundAt.here }
  · rw [here, registry]
    exact sound.here

/-! ## Saving and raising the floor -/

section Persist

variable (fails : Bool) (world : World)

@[simp] theorem persist_registry : (persist fails world).2.registry = world.registry := by
  unfold persist
  split_ifs <;> rfl

@[simp] theorem persist_floorFile : (persist fails world).2.floorFile = world.floorFile := by
  unfold persist
  split_ifs <;> rfl

@[simp] theorem persist_mintedHere : (persist fails world).2.mintedHere = world.mintedHere := by
  unfold persist
  split_ifs <;> rfl

@[simp] theorem persist_minted : (persist fails world).2.minted = world.minted := by
  unfold persist
  split_ifs <;> rfl

end Persist

/-- A floor that was raised: it is readable, and only the device's revoke and bit have changed. -/
structure Raised (deviceId : String) (through : Option Nat) (off : Option Bool)
    (world next : World) : Prop where
  only : ∃ file, next = { world with floorFile := file }
  readable : next.floorFile.readable = true
  others : ∀ other, other ≠ deviceId →
    next.floorFile.floor.through other = world.floorFile.floor.through other ∧
      next.floorFile.floor.off other = world.floorFile.floor.off other
  kept : through = none →
    next.floorFile.floor.through deviceId = world.floorFile.floor.through deviceId
  reached : ∀ generation, through = some generation →
    ∃ revoked, next.floorFile.floor.through deviceId = some revoked ∧ generation ≤ revoked ∧
      (revoked = generation ∨ world.floorFile.floor.through deviceId = some revoked)
  grows : ∀ revoked, world.floorFile.floor.through deviceId = some revoked →
    ∃ higher, next.floorFile.floor.through deviceId = some higher ∧ revoked ≤ higher
  off : next.floorFile.floor.off deviceId = off.getD (world.floorFile.floor.off deviceId)

theorem readAskFloor_readable {file : FloorFile} (isReadable : (readAskFloor file).2 = false) :
    file.readable = true ∧ (readAskFloor file).1 = file.floor := by
  unfold readAskFloor at *
  split_ifs at * with readable
  exact ⟨readable, rfl⟩

variable {off : Option Bool} {through : Option Nat}

theorem raisedFloor_eq_self {floor : Floor} (notRaised : raises floor deviceId through = false)
    (notSwitched : switches floor deviceId off = false) :
    raisedFloor floor deviceId through off = floor := by
  have sameOff : off.getD (floor.off deviceId) = floor.off deviceId := by
    cases off with
    | none => rfl
    | some isOff =>
      have same : floor.off deviceId = isOff := by simpa [switches] using notSwitched
      exact same.symm
  unfold raisedFloor
  rw [notRaised, sameOff, Function.update_eq_self]
  rfl

theorem raisedFloor_reached {floor : Floor} {generation : Nat}
    :
    ∃ revoked, (raisedFloor floor deviceId (some generation) off).through deviceId = some revoked ∧
      generation ≤ revoked ∧
        (revoked = generation ∨ floor.through deviceId = some revoked) := by
  unfold raisedFloor
  by_cases isRaised : raises floor deviceId (some generation) = true
  · exact ⟨generation, by simp [isRaised], Nat.le_refl _, Or.inl rfl⟩
  · cases isThrough : floor.through deviceId with
    | none => exact absurd (by simp [raises, isThrough]) isRaised
    | some revoked =>
      have isBelow : generation ≤ revoked := by simpa [raises, isThrough] using isRaised
      exact ⟨revoked, by simp [isRaised, isThrough], isBelow, Or.inr rfl⟩

theorem raisedFloor_grows {floor : Floor} {revoked : Nat}
    (isRevoked : floor.through deviceId = some revoked) :
    ∃ higher, (raisedFloor floor deviceId through off).through deviceId = some higher ∧
      revoked ≤ higher := by
  unfold raisedFloor
  by_cases isRaised : raises floor deviceId through = true
  · cases through with
    | none => exact Bool.noConfusion isRaised
    | some generation =>
      have isAbove : revoked < generation := by simpa [raises, isRevoked] using isRaised
      exact ⟨generation, by simp [isRaised], Nat.le_of_lt isAbove⟩
  · exact ⟨revoked, by simp [isRaised, isRevoked], Nat.le_refl _⟩

theorem Raised.of_floor {world : World} {file : FloorFile} (isReadable : file.readable = true)
    (isFloor : file.floor = raisedFloor world.floorFile.floor deviceId through off) :
    Raised deviceId through off world { world with floorFile := file } where
  only := ⟨file, rfl⟩
  readable := isReadable
  others := by
    intro other different
    show file.floor.through other = _ ∧ file.floor.off other = _
    rw [isFloor, raisedFloor]
    refine ⟨?_, Function.update_of_ne different _ _⟩
    split_ifs
    · exact Function.update_of_ne different _ _
    · rfl
  kept := by
    rintro rfl
    show file.floor.through deviceId = _
    rw [isFloor]
    rfl
  reached := by
    rintro generation rfl
    show ∃ revoked, file.floor.through deviceId = some revoked ∧ _
    rw [isFloor]
    exact raisedFloor_reached
  grows := by
    intro revoked isRevoked
    show ∃ higher, file.floor.through deviceId = some higher ∧ _
    rw [isFloor]
    exact raisedFloor_grows isRevoked
  off := by
    show file.floor.off deviceId = _
    rw [isFloor]
    exact Function.update_self _ _ _

theorem raiseAskRevokedFloor_cases (fails : Bool) (deviceId : String) (through : Option Nat)
    (off : Option Bool) (world : World) :
    raiseAskRevokedFloor fails deviceId through off world = (false, world) ∨
      ∃ next, raiseAskRevokedFloor fails deviceId through off world = (true, next) ∧
        Raised deviceId through off world next := by
  unfold raiseAskRevokedFloor
  by_cases isCorrupt : (readAskFloor world.floorFile).2 = true
  · exact Or.inl (if_pos isCorrupt)
  obtain ⟨isReadable, isFloor⟩ := readAskFloor_readable (Bool.eq_false_iff.mpr isCorrupt)
  simp only [if_neg isCorrupt, isFloor]
  by_cases changed : (raises world.floorFile.floor deviceId through ||
      switches world.floorFile.floor deviceId off) = true
  · rw [if_pos changed]
    cases fails with
    | true => exact Or.inl rfl
    | false => exact Or.inr ⟨_, rfl, Raised.of_floor rfl rfl⟩
  · rw [if_neg changed]
    obtain ⟨notRaised, notSwitched⟩ := Bool.or_eq_false_iff.mp (Bool.eq_false_iff.mpr changed)
    exact Or.inr ⟨world, rfl, Raised.of_floor isReadable
      (raisedFloor_eq_self notRaised notSwitched).symm⟩

/-! ## What a load leaves -/

section LoadedDevice

variable (floor : Floor) (corrupt : Bool) (seen : Nat) (deviceId : String) (device : Device)

theorem known_le_loadedDevice :
    seen ≤ (loadedDevice floor corrupt seen deviceId device).askGeneration := by
  unfold loadedDevice
  dsimp only
  split_ifs <;> omega

theorem off_loadedDevice (isOff : floor.off deviceId = true) :
    (loadedDevice floor corrupt seen deviceId device).shareAskOff = true := by
  unfold loadedDevice
  dsimp only
  rw [isOff, Bool.or_true]

theorem revoked_lt_loadedDevice {revoked : Nat} (isRevoked : floor.through deviceId = some revoked) :
    revoked < (loadedDevice floor corrupt seen deviceId device).askGeneration := by
  unfold loadedDevice
  simp only [isRevoked, Option.elim_some, Option.any_some, decide_eq_true_eq]
  split_ifs <;> omega

theorem loadedDevice_ask {hash : String}
    (isLeft : (loadedDevice floor corrupt seen deviceId device).ask = some hash) :
    corrupt = false ∧ device.ask = some hash ∧
      (loadedDevice floor corrupt seen deviceId device).askGeneration = device.askGeneration := by
  have notDropped : drops floor corrupt seen deviceId device = false := by
    cases isDropped : drops floor corrupt seen deviceId device with
    | false => rfl
    | true => simp [loadedDevice, isDropped] at isLeft
  have isAsk : device.ask = some hash := by simpa [loadedDevice, notDropped] using isLeft
  have kept := notDropped
  simp only [drops, isAsk, Option.isSome_some, Bool.true_and, Bool.or_eq_false_iff,
    decide_eq_false_iff_not] at kept
  obtain ⟨⟨⟨⟨notCorrupt, -⟩, -⟩, notRevoked⟩, notOlder⟩ := kept
  refine ⟨notCorrupt, isAsk, ?_⟩
  simp only [loadedDevice, notDropped, notRevoked, Bool.false_eq_true, if_false]
  exact Nat.max_eq_left (Nat.le_of_not_lt notOlder)

end LoadedDevice

theorem get_loadedDevices (world : World) (deviceId : String) :
    (loadedDevices world).get deviceId = (world.devicesFile.get deviceId).map
      (loadedDevice (readAskFloor world.floorFile).1 (readAskFloor world.floorFile).2
        (known world.registry world.registry.devices deviceId) deviceId) :=
  OrderedMap.get_mapValues _ _ _

/-- What a load makes of the process and its files. -/
structure Loaded (world next : World) : Prop where
  minted : next.minted = world.minted
  mintedHere : next.mintedHere = world.mintedHere
  askFloor : next.registry.askFloor = (loadedRegistry world).askFloor
  files : (next.devicesFile = world.devicesFile ∧ next.saved = world.saved) ∨
    (next.devicesFile = loadedDevices world ∧ next.saved = world.saved ++ [loadedDevices world])
  outcome :
    (next.registry.devices = ∅ ∧ next.registry.unavailable = true ∧
        next.floorFile = world.floorFile) ∨
      next.registry = loadedRegistry world ∧
        (((readAskFloor world.floorFile).2 = false ∧ next.floorFile = world.floorFile) ∨
          ((readAskFloor world.floorFile).2 = true ∧
            next.floorFile = { content := some (rebuiltAskFloor (loadedDevices world)) } ∧
              next.devicesFile = loadedDevices world))

theorem persist_cases (fails : Bool) (world : World) :
    persist fails world = (false, world) ∨
      (world.registry.unavailable = false ∧
        persist fails world =
          (true,
            { world with
              devicesFile := world.registry.devices
              saved := world.saved ++ [world.registry.devices] })) := by
  unfold persist
  by_cases isRefused : (world.registry.unavailable || fails) = true
  · exact Or.inl (if_pos isRefused)
  · exact Or.inr ⟨(Bool.or_eq_false_iff.mp (Bool.eq_false_iff.mpr isRefused)).1, if_neg isRefused⟩

theorem load_loaded (faults : Faults) (world : World) : Loaded world (load faults world) := by
  unfold load
  by_cases writes : (decide ((loadedRegistry world).devices.entries ≠ world.devicesFile.entries) ||
      (readAskFloor world.floorFile).2) = true
  · simp only [if_pos writes]
    rcases persist_cases faults.loadSave { world with registry := loadedRegistry world } with
      isFailed | ⟨-, isSaved⟩
    · rw [isFailed]
      exact ⟨rfl, rfl, rfl, Or.inl ⟨rfl, rfl⟩, Or.inl ⟨rfl, rfl, rfl⟩⟩
    · rw [isSaved]
      cases isCorrupt : (readAskFloor world.floorFile).2 with
      | false => exact ⟨rfl, rfl, rfl, Or.inr ⟨rfl, rfl⟩, Or.inr ⟨rfl, Or.inl ⟨isCorrupt, rfl⟩⟩⟩
      | true =>
        cases isLost : faults.loadFloor with
        | true => exact ⟨rfl, rfl, rfl, Or.inr ⟨rfl, rfl⟩, Or.inl ⟨rfl, rfl, rfl⟩⟩
        | false =>
          exact ⟨rfl, rfl, rfl, Or.inr ⟨rfl, rfl⟩,
            Or.inr ⟨rfl, Or.inr ⟨isCorrupt, rfl, rfl⟩⟩⟩
  · simp only [if_neg writes]
    have isReadable := (Bool.or_eq_false_iff.mp (Bool.eq_false_iff.mpr writes)).2
    exact ⟨rfl, rfl, rfl, Or.inl ⟨rfl, rfl⟩, Or.inr ⟨rfl, Or.inl ⟨isReadable, rfl⟩⟩⟩

/-- **A load is sound, whatever version of the devices' file it reads.** -/
theorem Loaded.sound {world next : World} (loaded : Loaded world next)
    (here : ∀ mint ∈ world.mintedHere,
      mint.generation ≤ known world.registry world.registry.devices mint.deviceId) :
    Sound next := by
  constructor
  · intro deviceId device isThere
    rcases loaded.outcome with ⟨noDevices, -, -⟩ | ⟨isLoaded, floorIs⟩
    · rw [noDevices] at isThere
      exact absurd isThere (by simp)
    have isDevice : (loadedDevices world).get deviceId = some device := by
      rw [isLoaded] at isThere
      exact isThere
    obtain ⟨disk, -, rfl⟩ := Option.map_eq_some_iff.mp (get_loadedDevices world deviceId ▸ isDevice)
    have isKnown : ∀ mint ∈ next.mintedHere, mint.deviceId = deviceId → mint.generation ≤
        (loadedDevice (readAskFloor world.floorFile).1 (readAskFloor world.floorFile).2
          (known world.registry world.registry.devices deviceId) deviceId disk).askGeneration := by
      intro mint isIn isHere
      rw [loaded.mintedHere] at isIn
      exact Nat.le_trans (isHere ▸ here mint isIn) (known_le_loadedDevice _ _ _ _ _)
    rcases floorIs with ⟨notCorrupt, sameFile⟩ | ⟨isCorrupt, isRebuilt, -⟩
    · obtain ⟨-, isFloor⟩ := readAskFloor_readable notCorrupt
      have isBelow : ∀ revoked, next.floorFile.floor.through deviceId = some revoked → revoked <
          (loadedDevice (readAskFloor world.floorFile).1 (readAskFloor world.floorFile).2
            (known world.registry world.registry.devices deviceId) deviceId disk).askGeneration := by
        intro revoked isRevoked
        rw [sameFile, ← isFloor] at isRevoked
        exact revoked_lt_loadedDevice _ _ _ _ _ isRevoked
      exact {
        below := fun revoked isRevoked => Nat.le_of_lt (isBelow revoked isRevoked)
        above := fun revoked isRevoked _ => Or.inl (isBelow revoked isRevoked)
        off := fun isOff => off_loadedDevice _ _ _ _ _ (by rwa [sameFile, ← isFloor] at isOff)
        here := isKnown }
    · have isBelow : ∀ revoked, next.floorFile.floor.through deviceId = some revoked → revoked <
          (loadedDevice (readAskFloor world.floorFile).1 (readAskFloor world.floorFile).2
            (known world.registry world.registry.devices deviceId) deviceId disk).askGeneration := by
        intro revoked isRevoked
        rw [isRebuilt] at isRevoked
        simp only [FloorFile.floor, Option.getD_some, rebuiltAskFloor, isDevice, Option.bind_some,
          Option.ite_none_right_eq_some, Option.some.injEq] at isRevoked
        omega
      exact {
        below := fun revoked isRevoked => Nat.le_of_lt (isBelow revoked isRevoked)
        above := fun revoked isRevoked _ => Or.inl (isBelow revoked isRevoked)
        off := fun isOff => by
          rw [isRebuilt] at isOff
          simpa [FloorFile.floor, rebuiltAskFloor, isDevice] using isOff
        here := isKnown }
  · intro mint isIn
    rw [loaded.mintedHere] at isIn
    rw [loaded.askFloor]
    exact Nat.le_trans (here mint isIn) (Nat.le_max_left _ _)

theorem Sound.recover {world : World} (sound : Sound world) (faults : Faults) :
    Sound (recover faults world) := by
  unfold PhoneAsk.recover
  split_ifs
  · exact (load_loaded faults world).sound fun mint isIn =>
      Nat.le_trans (sound.here mint isIn) (Nat.le_max_left _ _)
  · exact sound

theorem restart_sound (faults : Faults) (version : Nat) (world : World) :
    Sound (restart faults version world) :=
  (load_loaded faults _).sound fun _ isIn => absurd isIn List.not_mem_nil

/-! ## What a call leaves -/

section Calls

variable {sha256 : String → String} {deviceId : String} {world : World}

@[simp] theorem setDevice_self (device : Device) :
    (setDevice deviceId device world).registry.devices.get deviceId = some device :=
  OrderedMap.get_set_self _ _ _

theorem OnlyDevice.setDevice (device : Device) :
    OnlyDevice deviceId world (setDevice deviceId device world) where
  device := fun other different => by
    rw [PhoneAsk.setDevice, OrderedMap.get_set, if_neg different]
  through := fun _ _ => rfl
  off := fun _ _ => rfl
  askFloor := fun _ _ => rfl
  here := fun _ isIn _ => isIn

theorem OnlyDevice.raiseAskFloor (generation : Nat) :
    OnlyDevice deviceId world (raiseAskFloor deviceId generation world) where
  device := fun _ _ => rfl
  through := fun _ _ => rfl
  off := fun _ _ => rfl
  askFloor := fun _ different => Function.update_of_ne different _ _
  here := fun _ isIn _ => isIn

variable {next : World}

theorem OnlyDevice.raised (raised : Raised deviceId through off world next) :
    OnlyDevice deviceId world next := by
  obtain ⟨file, rfl⟩ := raised.only
  exact {
    device := fun _ _ => rfl
    through := fun other different => (raised.others other different).1
    off := fun other different => (raised.others other different).2
    askFloor := fun _ _ => rfl
    here := fun _ isIn _ => isIn }

theorem OnlyDevice.persist (fails : Bool) : OnlyDevice deviceId world (persist fails world).2 where
  device := fun _ _ => by rw [persist_registry]
  through := fun _ _ => by rw [persist_floorFile]
  off := fun _ _ => by rw [persist_floorFile]
  askFloor := fun _ _ => by rw [persist_registry]
  here := fun _ isIn _ => by rwa [persist_mintedHere] at isIn

theorem OnlyDevice.trans {first second third : World} (one : OnlyDevice deviceId first second)
    (two : OnlyDevice deviceId second third) : OnlyDevice deviceId first third where
  device := fun other different => (two.device other different).trans (one.device other different)
  through := fun other different => (two.through other different).trans (one.through other different)
  off := fun other different => (two.off other different).trans (one.off other different)
  askFloor := fun other different =>
    (two.askFloor other different).trans (one.askFloor other different)
  here := fun mint isIn different => one.here mint (two.here mint isIn different) different

theorem Sound.device (sound : Sound world) (only : OnlyDevice deviceId world next)
    {device : Device} (isIn : next.registry.devices.get deviceId = some device)
    (soundAt : SoundAt next deviceId device)
    (here : ∀ mint ∈ next.mintedHere, mint.deviceId = deviceId →
      mint.generation ≤ next.registry.askFloor deviceId) : Sound next :=
  sound.only only (fun other isOther => by
    rw [isIn] at isOther
    exact Option.some.inj isOther ▸ soundAt) here

theorem SoundAt.congr {device : Device} (soundAt : SoundAt world deviceId device)
    (floor : next.floorFile.floor = world.floorFile.floor)
    (askFloor : next.registry.askFloor = world.registry.askFloor)
    (here : next.mintedHere = world.mintedHere) : SoundAt next deviceId device where
  below := by rw [floor]; exact soundAt.below
  above := by rw [floor, askFloor]; exact soundAt.above
  off := by rw [floor]; exact soundAt.off
  here := by rw [here]; exact soundAt.here

theorem Sound.undo (sound : Sound world) {device other : Device} (fails : Bool)
    (isThere : world.registry.devices.get deviceId = some device) :
    Sound (PhoneAsk.setDevice deviceId device
      (PhoneAsk.persist fails (PhoneAsk.setDevice deviceId other world)).2) := by
  have only := ((OnlyDevice.setDevice other : OnlyDevice deviceId world _).trans
    (OnlyDevice.persist fails)).trans (OnlyDevice.setDevice device)
  refine sound.device only (setDevice_self device)
    ((sound.devices deviceId device isThere).congr ?_ ?_ ?_) ?_
  · show (PhoneAsk.persist fails (PhoneAsk.setDevice deviceId other world)).2.floorFile.floor = _
    rw [persist_floorFile]
    rfl
  · show (PhoneAsk.persist fails (PhoneAsk.setDevice deviceId other world)).2.registry.askFloor = _
    rw [persist_registry]
    rfl
  · exact persist_mintedHere _ _
  · intro mint isIn isHere
    have isOld : mint ∈ world.mintedHere :=
      (persist_mintedHere fails (PhoneAsk.setDevice deviceId other world)) ▸ isIn
    show mint.generation ≤
      (PhoneAsk.persist fails (PhoneAsk.setDevice deviceId other world)).2.registry.askFloor deviceId
    rw [persist_registry]
    exact isHere ▸ sound.here mint isOld

theorem Sound.saved (sound : Sound world) {device : Device} (next : Device) (fails : Bool)
    (isThere : world.registry.devices.get deviceId = some device)
    (grows : device.askGeneration ≤ next.askGeneration)
    (newer : next.ask.isSome = true → device.askGeneration < next.askGeneration)
    (off : world.floorFile.floor.off deviceId = true → next.shareAskOff = true) :
    Sound (PhoneAsk.persist fails (PhoneAsk.setDevice deviceId next world)).2 := by
  have soundAt := sound.devices deviceId device isThere
  have only := (OnlyDevice.setDevice next : OnlyDevice deviceId world _).trans
    (OnlyDevice.persist fails)
  have isNext : (PhoneAsk.persist fails
      (PhoneAsk.setDevice deviceId next world)).2.registry.devices.get deviceId = some next := by
    rw [persist_registry]
    exact setDevice_self next
  have isSound : SoundAt (PhoneAsk.setDevice deviceId next world) deviceId next := {
    below := fun revoked isRevoked => Nat.le_trans (soundAt.below revoked isRevoked) grows
    above := fun revoked isRevoked holds =>
      Or.inl (Nat.lt_of_le_of_lt (soundAt.below revoked isRevoked) (newer holds))
    off := off
    here := fun mint isIn isHere => Nat.le_trans (soundAt.here mint isIn isHere) grows }
  refine sound.device only isNext (isSound.congr ?_ ?_ ?_) ?_
  · rw [persist_floorFile]
  · rw [persist_registry]
  · rw [persist_mintedHere]
  · intro mint isIn isHere
    rw [persist_mintedHere] at isIn
    rw [persist_registry]
    exact isHere ▸ sound.here mint isIn

theorem le_raiseAskFloor (generation : Nat) (world : World) :
    generation ≤ (PhoneAsk.raiseAskFloor deviceId generation world).registry.askFloor deviceId := by
  rw [PhoneAsk.raiseAskFloor]
  dsimp only
  rw [Function.update_self]
  exact Nat.le_max_right _ _

theorem askFloor_le_raiseAskFloor (generation : Nat) (world : World) (other : String) :
    world.registry.askFloor other ≤
      (PhoneAsk.raiseAskFloor deviceId generation world).registry.askFloor other := by
  rw [PhoneAsk.raiseAskFloor]
  dsimp only
  by_cases same : other = deviceId
  · rw [same, Function.update_self]
    exact Nat.le_max_left _ _
  · exact Nat.le_of_eq (Function.update_of_ne same _ _).symm

theorem Sound.raiseAskFloor (sound : Sound world) (deviceId : String) (generation : Nat) :
    Sound (PhoneAsk.raiseAskFloor deviceId generation world) := by
  have grows : ∀ other, world.registry.askFloor other ≤
      (PhoneAsk.raiseAskFloor deviceId generation world).registry.askFloor other :=
    askFloor_le_raiseAskFloor generation world
  constructor
  · intro other device isThere
    have soundAt := sound.devices other device isThere
    exact {
      below := soundAt.below
      above := fun revoked isRevoked holds => (soundAt.above revoked isRevoked holds).imp_right
        fun isRefused => Nat.lt_of_lt_of_le isRefused (grows other)
      off := soundAt.off
      here := soundAt.here }
  · exact fun mint isIn => Nat.le_trans (sound.here mint isIn) (grows mint.deviceId)

theorem Sound.mint (sound : Sound world) (mint : Mint)
    (isKnown : mint.generation ≤ world.registry.askFloor mint.deviceId)
    (isHeld : ∀ device, world.registry.devices.get mint.deviceId = some device →
      mint.generation ≤ device.askGeneration) :
    Sound
      { world with
        minted := world.minted ++ [mint]
        mintedHere := world.mintedHere ++ [mint] } := by
  constructor
  · intro other device isThere
    have soundAt := sound.devices other device isThere
    refine ⟨soundAt.below, soundAt.above, soundAt.off, fun issued isIn isOther => ?_⟩
    rcases List.mem_append.mp isIn with isOld | isNew
    · exact soundAt.here issued isOld isOther
    · rw [List.mem_singleton.mp isNew] at isOther ⊢
      subst isOther
      exact isHeld device isThere
  · intro issued isIn
    rcases List.mem_append.mp isIn with isOld | isNew
    · exact sound.here issued isOld
    · rw [List.mem_singleton.mp isNew]
      exact isKnown

theorem Sound.issue (sound : Sound world) (faults : Faults) (deviceId token : String) :
    Sound (issuePhoneAskToken sha256 faults deviceId token world).2 := by
  have recovered := sound.recover faults
  dsimp only [issuePhoneAskToken]
  cases isIn : (PhoneAsk.recover faults world).registry.devices.get deviceId with
  | none => exact recovered
  | some device =>
    dsimp only
    split_ifs with isRefused isSaved
    · exact recovered
    · obtain ⟨notOff, -⟩ := Bool.or_eq_false_iff.mp (Bool.eq_false_iff.mpr isRefused)
      have isSound := recovered.saved (device.minted (sha256 token)) faults.save isIn
        (Nat.le_succ _) (fun _ => Nat.lt_succ_self _)
        fun isOff => (recovered.devices deviceId device isIn).off isOff
      refine (isSound.raiseAskFloor deviceId (device.askGeneration + 1)).mint
        { token := token
          deviceId := deviceId
          generation := device.askGeneration + 1 } ?_ ?_
      · exact le_raiseAskFloor _ _
      · intro other isOther
        have isSame : (PhoneAsk.persist faults.save (PhoneAsk.setDevice deviceId
            (device.minted (sha256 token))
            (PhoneAsk.recover faults world))).2.registry.devices.get deviceId = some other := isOther
        rw [persist_registry, setDevice_self] at isSame
        exact Option.some.inj isSame ▸ Nat.le_refl _
    · exact recovered.undo faults.save isIn

theorem Sound.clear (sound : Sound world) (faults : Faults) (deviceId : String)
    (onlyToken : Option String) :
    Sound (clearPhoneAskToken sha256 faults deviceId onlyToken world).2 := by
  have recovered := sound.recover faults
  dsimp only [clearPhoneAskToken]
  cases isIn : (PhoneAsk.recover faults world).registry.devices.get deviceId with
  | none => exact recovered
  | some device =>
    dsimp only
    split_ifs with isNothing isSaved
    · exact recovered
    · exact recovered.saved _ faults.save isIn (Nat.le_refl _) (fun holds => nomatch holds)
        fun isOff => (recovered.devices deviceId device isIn).off isOff
    · exact recovered.undo faults.save isIn

theorem authenticatePhoneAsk_world (sha256 : String → String) (faults : Faults) (token : String) (world : World) :
    (authenticatePhoneAsk sha256 faults token world).2 = world ∨
      (authenticatePhoneAsk sha256 faults token world).2 = PhoneAsk.recover faults world := by
  dsimp only [authenticatePhoneAsk]
  split_ifs
  · refine Or.inr ?_
    split
    · rfl
    · split_ifs <;> rfl
  · exact Or.inl rfl

theorem Sound.authenticate (sound : Sound world) (faults : Faults) (token : String) :
    Sound (authenticatePhoneAsk sha256 faults token world).2 := by
  rcases authenticatePhoneAsk_world sha256 faults token world with isSame | isSame
  · rw [isSame]
    exact sound
  · rw [isSame]
    exact sound.recover faults

theorem Sound.afterRaise {next final : World} (sound : Sound world) {device : Device}
    (isThere : world.registry.devices.get deviceId = some device)
    (raised : Raised deviceId (some device.askGeneration) off world next)
    (only : OnlyDevice deviceId world final) (left : Device)
    (isLeft : final.registry.devices.get deviceId = some left)
    (floorFile : final.floorFile = next.floorFile) (here : final.mintedHere = world.mintedHere)
    (askFloor : device.askGeneration + 1 ≤ final.registry.askFloor deviceId)
    (moved : left.askGeneration = device.askGeneration + 1 ∨
      left.askGeneration = device.askGeneration)
    (isOff : off.getD (world.floorFile.floor.off deviceId) = true → left.shareAskOff = true) :
    Sound final := by
  have soundAt := sound.devices deviceId device isThere
  obtain ⟨revoked, isRevoked, -, isOld⟩ := raised.reached _ rfl
  have isBelow : revoked ≤ device.askGeneration := by
    rcases isOld with rfl | isOld
    · exact Nat.le_refl _
    · exact soundAt.below revoked isOld
  have grows : device.askGeneration ≤ left.askGeneration := by omega
  refine sound.device only isLeft ?_ ?_
  · constructor
    · intro other isOther
      rw [floorFile, isRevoked] at isOther
      exact Option.some.inj isOther ▸ Nat.le_trans isBelow grows
    · intro other isOther _
      rw [floorFile, isRevoked] at isOther
      obtain rfl := Option.some.inj isOther
      rcases moved with movedOn | stays
      · exact Or.inl (by omega)
      · exact Or.inr (by omega)
    · rw [floorFile, raised.off]
      exact isOff
    · intro mint isIn isHere
      rw [here] at isIn
      exact Nat.le_trans (soundAt.here mint isIn isHere) grows
  · intro mint isIn isHere
    rw [here] at isIn
    have isKnown := soundAt.here mint isIn isHere
    omega

theorem Raised.registry (raised : Raised deviceId through off world next) :
    next.registry = world.registry ∧ next.mintedHere = world.mintedHere := by
  obtain ⟨file, rfl⟩ := raised.only
  exact ⟨rfl, rfl⟩

theorem Sound.revokeSaved (sound : Sound world) {device : Device}
    (isIn : world.registry.devices.get deviceId = some device)
    (raised : Raised deviceId (some device.askGeneration) off world next) (fails : Bool)
    (left : Device) (moved : left.askGeneration = device.askGeneration + 1)
    (isOff : off.getD (world.floorFile.floor.off deviceId) = true → left.shareAskOff = true) :
    Sound (PhoneAsk.raiseAskFloor deviceId (device.askGeneration + 1)
      (PhoneAsk.persist fails (PhoneAsk.setDevice deviceId left next)).2) := by
  have only := (((OnlyDevice.raised raised).trans (OnlyDevice.setDevice left)).trans
    (OnlyDevice.persist fails)).trans (OnlyDevice.raiseAskFloor (device.askGeneration + 1))
  refine sound.afterRaise isIn raised only left ?_ ?_ ?_ (le_raiseAskFloor _ _)
    (Or.inl moved) isOff
  · show (PhoneAsk.persist fails _).2.registry.devices.get deviceId = _
    rw [persist_registry, setDevice_self]
  · show (PhoneAsk.persist fails _).2.floorFile = _
    rw [persist_floorFile]
    rfl
  · show (PhoneAsk.persist fails _).2.mintedHere = _
    rw [persist_mintedHere]
    exact raised.registry.2

theorem Sound.revokeFailed (sound : Sound world) {device : Device}
    (isIn : world.registry.devices.get deviceId = some device)
    (raised : Raised deviceId (some device.askGeneration) off world next) (fails : Bool)
    (other left : Device) (stays : left.askGeneration = device.askGeneration)
    (isOff : off.getD (world.floorFile.floor.off deviceId) = true → left.shareAskOff = true) :
    Sound (PhoneAsk.raiseAskFloor deviceId (device.askGeneration + 1)
      (PhoneAsk.setDevice deviceId left
        (PhoneAsk.persist fails (PhoneAsk.setDevice deviceId other next)).2)) := by
  have only := ((((OnlyDevice.raised raised).trans (OnlyDevice.setDevice other)).trans
    (OnlyDevice.persist fails)).trans (OnlyDevice.setDevice left)).trans
    (OnlyDevice.raiseAskFloor (device.askGeneration + 1))
  refine sound.afterRaise isIn raised only left (setDevice_self left) ?_ ?_
    (le_raiseAskFloor _ _) (Or.inr stays) isOff
  · show (PhoneAsk.persist fails _).2.floorFile = _
    rw [persist_floorFile]
    rfl
  · show (PhoneAsk.persist fails _).2.mintedHere = _
    rw [persist_mintedHere]
    exact raised.registry.2

theorem Sound.revoke (sound : Sound world) (faults : Faults) (deviceId : String) :
    Sound (revokePhoneAsk faults deviceId world).2 := by
  have recovered := sound.recover faults
  dsimp only [revokePhoneAsk]
  cases isIn : (PhoneAsk.recover faults world).registry.devices.get deviceId with
  | none => exact recovered
  | some device =>
    have isOff := (recovered.devices deviceId device isIn).off
    rcases raiseAskRevokedFloor_cases faults.floor deviceId (some device.askGeneration) none
      (PhoneAsk.recover faults world) with isKept | ⟨next, isNext, raised⟩
    · simp only [isKept, Bool.false_eq_true, if_false]
      split_ifs
      · exact recovered
      · exact recovered
    · simp only [isNext, if_true]
      split_ifs
      · exact recovered
      · exact recovered.revokeSaved isIn raised faults.save _ rfl isOff
      · exact recovered.revokeFailed isIn raised faults.save _ _ rfl isOff

theorem Sound.persist (sound : Sound world) (fails : Bool) :
    Sound (PhoneAsk.persist fails world).2 :=
  sound.congr (persist_registry _ _) (by rw [persist_floorFile]) (persist_mintedHere _ _)

theorem Sound.switchedOn (sound : Sound world) {device : Device}
    (isThere : world.registry.devices.get deviceId = some device) (fails : Bool)
    (raised : Raised deviceId none (some false)
      (PhoneAsk.persist fails (PhoneAsk.setDevice deviceId
        { device with shareAskOff := false } world)).2 next) : Sound next := by
  have soundAt := sound.devices deviceId device isThere
  have sameThrough : next.floorFile.floor.through deviceId =
      world.floorFile.floor.through deviceId := by
    rw [raised.kept rfl, persist_floorFile]
    rfl
  have sameAskFloor : next.registry.askFloor = world.registry.askFloor := by
    rw [raised.registry.1, persist_registry]
    rfl
  have sameHere : next.mintedHere = world.mintedHere := by
    rw [raised.registry.2, persist_mintedHere]
    rfl
  have isNext : next.registry.devices.get deviceId = some { device with shareAskOff := false } := by
    rw [raised.registry.1, persist_registry, setDevice_self]
  have only : OnlyDevice deviceId world next :=
    ((OnlyDevice.setDevice _).trans (OnlyDevice.persist fails)).trans (OnlyDevice.raised raised)
  refine sound.device only isNext ?_ ?_
  · constructor
    · rw [sameThrough]
      exact soundAt.below
    · rw [sameThrough, sameAskFloor]
      exact soundAt.above
    · rw [raised.off]
      exact fun isOff => Bool.noConfusion isOff
    · rw [sameHere]
      exact soundAt.here
  · intro mint isIn isHere
    rw [sameHere] at isIn
    rw [sameAskFloor]
    exact isHere ▸ sound.here mint isIn

theorem Sound.setAllowed (sound : Sound world) (faults : Faults) (deviceId : String)
    (allowed : Bool) : Sound (setShareAskAllowed faults deviceId allowed world).2 := by
  have recovered := sound.recover faults
  dsimp only [setShareAskAllowed]
  cases isIn : (PhoneAsk.recover faults world).registry.devices.get deviceId with
  | none => exact recovered
  | some device =>
    cases allowed with
    | false =>
      simp only [Bool.false_eq_true, if_false]
      rcases raiseAskRevokedFloor_cases faults.floor deviceId (some device.askGeneration)
        (some true) (PhoneAsk.recover faults world) with isKept | ⟨next, isNext, raised⟩
      · simp only [isKept, Bool.false_eq_true, if_false]
        split_ifs
        · exact recovered
        · exact recovered
      · simp only [isNext, if_true]
        split_ifs
        · exact recovered
        · exact recovered.revokeSaved isIn raised faults.save _ rfl fun _ => rfl
        · exact recovered.revokeFailed isIn raised faults.save _ _ rfl fun _ => rfl
    | true =>
      simp only [if_true]
      rcases raiseAskRevokedFloor_cases faults.floor deviceId none (some false)
        (PhoneAsk.persist faults.save (PhoneAsk.setDevice deviceId
          { device with shareAskOff := false } (PhoneAsk.recover faults world))).2 with
        isKept | ⟨next, isNext, raised⟩
      · simp only [isKept, Bool.false_eq_true, if_false]
        split_ifs
        · exact recovered
        · exact recovered
        · exact (recovered.undo faults.save isIn).persist faults.undo
        · exact recovered.undo faults.save isIn
      · simp only [isNext, if_true]
        split_ifs
        · exact recovered
        · exact recovered
        · exact recovered.switchedOn isIn faults.save raised
        · exact recovered.undo faults.save isIn

end Calls

/-! ## Runs -/

/-- **Every call keeps the devices sound against the floor.** -/
theorem Sound.step {sha256 : String → String} {world : World} (sound : Sound world)
    (event : Event × Faults) : Sound (step sha256 world event) := by
  obtain ⟨event, faults⟩ := event
  cases event with
  | issue deviceId token => exact sound.issue faults deviceId token
  | authenticate token => exact sound.authenticate faults token
  | clear deviceId onlyToken => exact sound.clear faults deviceId onlyToken
  | revoke deviceId => exact sound.revoke faults deviceId
  | setAllowed deviceId allowed => exact sound.setAllowed faults deviceId allowed
  | restart version => exact restart_sound faults version world
  | spoil => exact sound.congr rfl rfl rfl
  | mend => exact sound.congr rfl rfl rfl

theorem Sound.run {sha256 : String → String} {world : World} (sound : Sound world)
    (events : List (Event × Faults)) : Sound (run sha256 world events) := by
  induction events generalizing world with
  | nil => exact sound
  | cons event rest ih => exact ih (sound.step event)

theorem boot_sound (devices : Devices) : Sound (boot devices) := restart_sound _ _ _

end Murage.PhoneAsk
