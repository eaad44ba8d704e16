import Murage.PhoneAsk.Floor

/-!
Owns where the tokens of the devices come from: every token of the process and of a saved version
was issued to its device, at the generation that stands beside it.

Does not own: which of them are refused.
-/

namespace Murage.PhoneAsk

open Murage.Library

variable (sha256 : String → String)

def Device.FromMints (mints : List Mint) (deviceId : String) (device : Device) : Prop :=
  ∀ hash, device.ask = some hash → ∃ mint ∈ mints, sha256 mint.token = hash ∧
    mint.deviceId = deviceId ∧ mint.generation = device.askGeneration

def FromMints (mints : List Mint) (devices : Devices) : Prop :=
  ∀ deviceId device, devices.get deviceId = some device →
    device.FromMints sha256 mints deviceId

/-- Tokens of the process, of the file, and of the versions from `version` on were issued after
the first `count` mints. -/
structure Traced (version count : Nat) (world : World) : Prop where
  inSaved : version ≤ world.saved.length
  inMinted : count ≤ world.minted.length
  process : FromMints sha256 (world.minted.drop count) world.registry.devices
  file : FromMints sha256 (world.minted.drop count) world.devicesFile
  saved : ∀ devices ∈ world.saved.drop version,
    FromMints sha256 (world.minted.drop count) devices

variable {sha256} {version count : Nat} {world : World} {deviceId : String} {device : Device}

theorem FromMints.set {mints : List Mint} {devices : Devices}
    (fromMints : FromMints sha256 mints devices) (isFrom : device.FromMints sha256 mints deviceId) :
    FromMints sha256 mints (devices.set deviceId device) := by
  intro other otherDevice isIn
  rw [OrderedMap.get_set] at isIn
  split_ifs at isIn with same
  · rw [same, ← Option.some.inj isIn]
    exact isFrom
  · exact fromMints other otherDevice isIn

theorem FromMints.mono {mints more : List Mint} {devices : Devices}
    (fromMints : FromMints sha256 mints devices) (isMore : ∀ mint ∈ mints, mint ∈ more) :
    FromMints sha256 more devices := by
  intro other device isThere hash isAsk
  obtain ⟨mint, isIn, isMint⟩ := fromMints other device isThere hash isAsk
  exact ⟨mint, isMore mint isIn, isMint⟩

theorem fromMints_empty (mints : List Mint) : FromMints sha256 mints ∅ :=
  fun _ _ isIn => absurd isIn (by simp)

theorem Device.fromMints_of_none {mints : List Mint} (isNone : device.ask = none) :
    device.FromMints sha256 mints deviceId :=
  fun _ isAsk => absurd isAsk (by rw [isNone]; exact nofun)

namespace Traced

theorem congr {next : World} (traced : Traced sha256 version count world)
    (minted : next.minted = world.minted) (devices : next.registry.devices = world.registry.devices)
    (file : next.devicesFile = world.devicesFile) (saved : next.saved = world.saved) :
    Traced sha256 version count next where
  inSaved := saved ▸ traced.inSaved
  inMinted := minted ▸ traced.inMinted
  process := by rw [minted, devices]; exact traced.process
  file := by rw [minted, file]; exact traced.file
  saved := by rw [minted, saved]; exact traced.saved

theorem setDevice (traced : Traced sha256 version count world)
    (isFrom : device.FromMints sha256 (world.minted.drop count) deviceId) :
    Traced sha256 version count (setDevice deviceId device world) where
  inSaved := traced.inSaved
  inMinted := traced.inMinted
  process := traced.process.set isFrom
  file := traced.file
  saved := traced.saved

theorem mem_drop_append {α : Type} {items : List α} {item other : α} {number : Nat}
    (inItems : number ≤ items.length) (isIn : item ∈ (items ++ [other]).drop number) :
    item ∈ items.drop number ∨ item = other := by
  rw [List.drop_append_of_le_length inItems] at isIn
  exact (List.mem_append.mp isIn).imp_right List.mem_singleton.mp

theorem persist (traced : Traced sha256 version count world) (fails : Bool) :
    Traced sha256 version count (persist fails world).2 := by
  rcases persist_cases fails world with isFailed | ⟨-, isSaved⟩
  · rw [isFailed]
    exact traced
  · rw [isSaved]
    exact {
      inSaved := by
        show version ≤ (world.saved ++ [world.registry.devices]).length
        rw [List.length_append]
        exact Nat.le_add_right_of_le traced.inSaved
      inMinted := traced.inMinted
      process := traced.process
      file := traced.process
      saved := fun devices isIn =>
        (mem_drop_append traced.inSaved isIn).elim (traced.saved devices)
          fun same => same ▸ traced.process }

theorem raised (traced : Traced sha256 version count world) {through : Option Nat}
    {off : Option Bool} {next : World} (raised : Raised deviceId through off world next) :
    Traced sha256 version count next := by
  obtain ⟨file, rfl⟩ := raised.only
  exact traced.congr rfl rfl rfl rfl

/-- **What a load leaves on a device was there in the file.** -/
theorem load (traced : Traced sha256 version count world) (faults : Faults) :
    Traced sha256 version count (load faults world) := by
  have loaded := load_loaded faults world
  have isLoaded : FromMints sha256 (world.minted.drop count) (loadedDevices world) := by
    intro deviceId device isThere hash isAsk
    rw [get_loadedDevices] at isThere
    obtain ⟨disk, isDisk, rfl⟩ := Option.map_eq_some_iff.mp isThere
    obtain ⟨-, diskAsk, sameGeneration⟩ := loadedDevice_ask _ _ _ _ _ isAsk
    rw [sameGeneration]
    exact traced.file deviceId disk isDisk hash diskAsk
  have process : FromMints sha256 (world.minted.drop count) (PhoneAsk.load faults world).registry.devices := by
    rcases loaded.outcome with ⟨noDevices, -, -⟩ | ⟨isRegistry, -⟩
    · rw [noDevices]
      exact fromMints_empty _
    · rw [isRegistry]
      exact isLoaded
  rcases loaded.files with ⟨sameFile, sameSaved⟩ | ⟨isFile, isSaved⟩
  · exact {
      inSaved := sameSaved ▸ traced.inSaved
      inMinted := loaded.minted ▸ traced.inMinted
      process := loaded.minted ▸ process
      file := by rw [loaded.minted, sameFile]; exact traced.file
      saved := by rw [loaded.minted, sameSaved]; exact traced.saved }
  · exact {
      inSaved := by
        rw [isSaved, List.length_append]
        exact Nat.le_add_right_of_le traced.inSaved
      inMinted := loaded.minted ▸ traced.inMinted
      process := loaded.minted ▸ process
      file := by rw [loaded.minted, isFile]; exact isLoaded
      saved := by
        rw [loaded.minted, isSaved]
        exact fun devices isIn =>
          (mem_drop_append traced.inSaved isIn).elim (traced.saved devices)
            fun same => same ▸ isLoaded }

theorem recover (traced : Traced sha256 version count world) (faults : Faults) :
    Traced sha256 version count (recover faults world) := by
  unfold PhoneAsk.recover
  split_ifs
  · exact traced.load faults
  · exact traced

/-! ## Calls -/

theorem undo (traced : Traced sha256 version count world) {device left : Device} (other : Device)
    (isIn : world.registry.devices.get deviceId = some device)
    (sameAsk : left.ask = device.ask) (sameGeneration : left.askGeneration = device.askGeneration) :
    Traced sha256 version count
      (PhoneAsk.setDevice deviceId left (PhoneAsk.setDevice deviceId other world)) where
  inSaved := traced.inSaved
  inMinted := traced.inMinted
  process := by
    intro third thirdDevice isThird
    have isGet : ((world.registry.devices.set deviceId other).set deviceId left).get third =
        some thirdDevice := isThird
    rw [OrderedMap.get_set, OrderedMap.get_set] at isGet
    split_ifs at isGet with same
    · intro hash isAsk
      rw [← Option.some.inj isGet] at isAsk ⊢
      rw [same, sameGeneration]
      exact traced.process deviceId device isIn hash (sameAsk ▸ isAsk)
    · exact traced.process third thirdDevice isGet
  file := traced.file
  saved := traced.saved

theorem mint (traced : Traced sha256 version count world) (mint : Mint)
    (isHeld : ∀ hash, device.ask = some hash → sha256 mint.token = hash ∧
      mint.generation = device.askGeneration) :
    Traced sha256 version count
      { world with
        registry :=
          { world.registry with devices := world.registry.devices.set mint.deviceId device }
        devicesFile := world.registry.devices.set mint.deviceId device
        saved := world.saved ++ [world.registry.devices.set mint.deviceId device]
        minted := world.minted ++ [mint] } := by
  have isMore : ∀ old ∈ world.minted.drop count, old ∈ (world.minted ++ [mint]).drop count := by
    intro old isIn
    rw [List.drop_append_of_le_length traced.inMinted]
    exact List.mem_append_left _ isIn
  have isLast : mint ∈ (world.minted ++ [mint]).drop count := by
    rw [List.drop_append_of_le_length traced.inMinted]
    exact List.mem_append_right _ List.mem_cons_self
  have isNew : FromMints sha256 ((world.minted ++ [mint]).drop count)
      (world.registry.devices.set mint.deviceId device) :=
    (traced.process.mono isMore).set fun hash isAsk =>
      ⟨mint, isLast, (isHeld hash isAsk).1, rfl, (isHeld hash isAsk).2⟩
  exact {
    inSaved := by
      show version ≤ (world.saved ++ [_]).length
      rw [List.length_append]
      exact Nat.le_add_right_of_le traced.inSaved
    inMinted := by
      show count ≤ (world.minted ++ [mint]).length
      rw [List.length_append]
      exact Nat.le_add_right_of_le traced.inMinted
    process := isNew
    file := isNew
    saved := fun devices isIn =>
      (mem_drop_append traced.inSaved isIn).elim
        (fun isOld => (traced.saved devices isOld).mono isMore) fun same => same ▸ isNew }

theorem issue (traced : Traced sha256 version count world) (faults : Faults)
    (deviceId token : String) :
    Traced sha256 version count (issuePhoneAskToken sha256 faults deviceId token world).2 := by
  have recovered := traced.recover faults
  dsimp only [issuePhoneAskToken]
  cases isIn : (PhoneAsk.recover faults world).registry.devices.get deviceId with
  | none => exact recovered
  | some device =>
    rcases persist_cases faults.save (PhoneAsk.setDevice deviceId (device.minted (sha256 token))
      (PhoneAsk.recover faults world)) with isFailed | ⟨-, isSaved⟩
    · simp only [isFailed, Bool.false_eq_true, if_false]
      split_ifs
      · exact recovered
      · exact recovered.undo _ isIn rfl rfl
    · simp only [isSaved, if_true]
      split_ifs
      · exact recovered
      · exact (recovered.mint
          { token := token
            deviceId := deviceId
            generation := device.askGeneration + 1 }
          fun hash isAsk => ⟨Option.some.inj isAsk, rfl⟩).congr rfl rfl rfl rfl

theorem clear (traced : Traced sha256 version count world) (faults : Faults) (deviceId : String)
    (onlyToken : Option String) :
    Traced sha256 version count (clearPhoneAskToken sha256 faults deviceId onlyToken world).2 := by
  have recovered := traced.recover faults
  dsimp only [clearPhoneAskToken]
  cases isIn : (PhoneAsk.recover faults world).registry.devices.get deviceId with
  | none => exact recovered
  | some device =>
    have isCleared : Traced sha256 version count (PhoneAsk.persist faults.save
        (PhoneAsk.setDevice deviceId { device with ask := none }
          (PhoneAsk.recover faults world))).2 :=
      (recovered.setDevice (Device.fromMints_of_none rfl)).persist faults.save
    dsimp only
    split_ifs
    · exact recovered
    · exact isCleared
    · refine isCleared.setDevice fun hash isAsk => ?_
      rw [persist_minted]
      exact recovered.process deviceId device isIn hash isAsk

theorem revoke (traced : Traced sha256 version count world)
    (isIn : world.registry.devices.get deviceId = some device) {through : Option Nat}
    {off : Option Bool} {next : World} (isRaised : Raised deviceId through off world next)
    (fails : Bool) (revoked left : Device) (noAsk : revoked.ask = none)
    (sameAsk : left.ask = device.ask) (sameGeneration : left.askGeneration = device.askGeneration) :
    Traced sha256 version count
        (PhoneAsk.persist fails (PhoneAsk.setDevice deviceId revoked next)).2 ∧
      Traced sha256 version count (PhoneAsk.setDevice deviceId left
        (PhoneAsk.persist fails (PhoneAsk.setDevice deviceId revoked next)).2) := by
  have isSaved : Traced sha256 version count
      (PhoneAsk.persist fails (PhoneAsk.setDevice deviceId revoked next)).2 :=
    ((traced.raised isRaised).setDevice (Device.fromMints_of_none noAsk)).persist fails
  refine ⟨isSaved, isSaved.setDevice fun hash isAsk => ?_⟩
  obtain ⟨file, rfl⟩ := isRaised.only
  rw [persist_minted, sameGeneration]
  exact traced.process deviceId device isIn hash (sameAsk ▸ isAsk)

theorem revokePhoneAsk (traced : Traced sha256 version count world) (faults : Faults)
    (deviceId : String) :
    Traced sha256 version count (revokePhoneAsk faults deviceId world).2 := by
  have recovered := traced.recover faults
  dsimp only [PhoneAsk.revokePhoneAsk]
  cases isIn : (PhoneAsk.recover faults world).registry.devices.get deviceId with
  | none => exact recovered
  | some device =>
    rcases raiseAskRevokedFloor_cases faults.floor deviceId (some device.askGeneration) none
      (PhoneAsk.recover faults world) with isKept | ⟨next, isNext, isRaised⟩
    · simp only [isKept, Bool.false_eq_true, if_false]
      split_ifs
      · exact recovered
      · exact recovered
    · obtain ⟨isSaved, isUndone⟩ := recovered.revoke isIn isRaised faults.save device.revoked
        device rfl rfl rfl
      simp only [isNext, if_true]
      split_ifs
      · exact recovered
      · exact isSaved.congr rfl rfl rfl rfl
      · exact isUndone.congr rfl rfl rfl rfl

theorem setAllowed (traced : Traced sha256 version count world) (faults : Faults)
    (deviceId : String) (allowed : Bool) :
    Traced sha256 version count (setShareAskAllowed faults deviceId allowed world).2 := by
  have recovered := traced.recover faults
  dsimp only [setShareAskAllowed]
  cases isIn : (PhoneAsk.recover faults world).registry.devices.get deviceId with
  | none => exact recovered
  | some device =>
    cases allowed with
    | false =>
      simp only [Bool.false_eq_true, if_false]
      rcases raiseAskRevokedFloor_cases faults.floor deviceId (some device.askGeneration)
        (some true) (PhoneAsk.recover faults world) with isKept | ⟨next, isNext, isRaised⟩
      · simp only [isKept, Bool.false_eq_true, if_false]
        split_ifs
        · exact recovered
        · exact recovered
      · obtain ⟨isSaved, isUndone⟩ := recovered.revoke isIn isRaised faults.save
          { device.revoked with shareAskOff := true } { device with shareAskOff := true }
          rfl rfl rfl
        simp only [isNext, if_true]
        split_ifs
        · exact recovered
        · exact isSaved.congr rfl rfl rfl rfl
        · exact isUndone.congr rfl rfl rfl rfl
    | true =>
      have isOld : device.FromMints sha256
          ((PhoneAsk.recover faults world).minted.drop count) deviceId :=
        recovered.process deviceId device isIn
      have isOn : Device.FromMints sha256 ((PhoneAsk.recover faults world).minted.drop count)
          deviceId { device with shareAskOff := false } := isOld
      have isSaved := (recovered.setDevice isOn).persist faults.save
      have isKnown : device.FromMints sha256 ((PhoneAsk.persist faults.save
          (PhoneAsk.setDevice deviceId { device with shareAskOff := false }
            (PhoneAsk.recover faults world))).2.minted.drop count) deviceId := by
        rw [persist_minted]
        exact isOld
      have isUndone := isSaved.setDevice isKnown
      simp only [if_true]
      rcases raiseAskRevokedFloor_cases faults.floor deviceId none (some false)
        (PhoneAsk.persist faults.save (PhoneAsk.setDevice deviceId
          { device with shareAskOff := false } (PhoneAsk.recover faults world))).2 with
        isKept | ⟨next, isNext, isRaised⟩
      · simp only [isKept, Bool.false_eq_true, if_false]
        split_ifs
        · exact recovered
        · exact recovered
        · exact isUndone.persist faults.undo
        · exact isUndone
      · simp only [isNext, if_true]
        split_ifs
        · exact recovered
        · exact recovered
        · exact isSaved.raised isRaised
        · exact isUndone

theorem authenticate (traced : Traced sha256 version count world) (faults : Faults)
    (token : String) :
    Traced sha256 version count (authenticatePhoneAsk sha256 faults token world).2 := by
  rcases authenticatePhoneAsk_world sha256 faults token world with isSame | isSame
  · rw [isSame]
    exact traced
  · rw [isSame]
    exact traced.recover faults

/-! ## Runs -/

def Loads (version : Nat) (event : Event × Faults) : Prop :=
  match event.1 with
  | .restart loaded => version ≤ loaded
  | _ => True

theorem restart (traced : Traced sha256 version count world) (faults : Faults) {loaded : Nat}
    (isLater : version ≤ loaded) : Traced sha256 version count (restart faults loaded world) := by
  refine Traced.load ?_ faults
  exact {
    inSaved := traced.inSaved
    inMinted := traced.inMinted
    process := fromMints_empty _
    file := by
      show FromMints sha256 _ (world.saved.getD loaded world.devicesFile)
      rw [List.getD_eq_getElem?_getD]
      cases isVersion : world.saved[loaded]? with
      | none => exact traced.file
      | some devices =>
        refine traced.saved devices (List.mem_of_getElem? (i := loaded - version) ?_)
        rw [List.getElem?_drop, Nat.add_sub_cancel' isLater]
        exact isVersion
    saved := traced.saved }

/-- **Every call keeps the tokens traced, while restarts load no older version.** -/
theorem step (traced : Traced sha256 version count world) (event : Event × Faults)
    (isLater : Loads version event) : Traced sha256 version count (step sha256 world event) := by
  obtain ⟨event, faults⟩ := event
  cases event with
  | issue deviceId token => exact traced.issue faults deviceId token
  | authenticate token => exact traced.authenticate faults token
  | clear deviceId onlyToken => exact traced.clear faults deviceId onlyToken
  | revoke deviceId => exact traced.revokePhoneAsk faults deviceId
  | setAllowed deviceId allowed => exact traced.setAllowed faults deviceId allowed
  | restart loaded => exact traced.restart faults isLater
  | spoil => exact traced.congr rfl rfl rfl rfl
  | mend => exact traced.congr rfl rfl rfl rfl

theorem run (traced : Traced sha256 version count world) (events : List (Event × Faults))
    (areLater : ∀ event ∈ events, Loads version event) :
    Traced sha256 version count (run sha256 world events) := by
  induction events generalizing world with
  | nil => exact traced
  | cons event rest ih =>
    exact ih (traced.step event (areLater event List.mem_cons_self))
      fun other isIn => areLater other (List.mem_cons_of_mem _ isIn)

end Traced

theorem boot_traced {devices : Devices}
    (noTokens : ∀ deviceId device, devices.get deviceId = some device → device.ask = none) :
    Traced sha256 0 0 (boot devices) := by
  have noMints : FromMints sha256 [] devices := fun deviceId device isThere =>
    Device.fromMints_of_none (noTokens deviceId device isThere)
  refine Traced.restart ?_ _ (Nat.le_refl 0)
  exact {
    inSaved := Nat.zero_le _
    inMinted := Nat.zero_le _
    process := fromMints_empty _
    file := noMints
    saved := fun others isIn => by
      rw [List.mem_singleton.mp isIn]
      exact noMints }

end Murage.PhoneAsk
