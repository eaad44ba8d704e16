import Murage.Library.OrderedMap

/-!
Owns the share-and-ask tokens of the paired devices: the device records and their file, the
revoke floor and its file, what a load makes of both, and the calls that issue, clear, check and
revoke a token or switch the device off.

Does not own: pairing, removal, and the other fields of a device.
-/

namespace Murage.PhoneAsk

open Murage.Library

/-! ## Devices and their files -/

/-- `ask`: the hash of the token that the device holds. `askGeneration`: zero for none. -/
structure Device where
  ask : Option String := none
  askGeneration : Nat := 0
  shareAskOff : Bool := false
  removalPending : Bool := false
  deriving DecidableEq

/-- A new token spends a generation. -/
def Device.minted (device : Device) (hash : String) : Device :=
  { device with
    ask := some hash
    askGeneration := device.askGeneration + 1 }

/-- The generation moves on and the hash goes. -/
def Device.revoked (device : Device) : Device :=
  { device with
    ask := none
    askGeneration := device.askGeneration + 1 }

abbrev Devices := OrderedMap String Device

/-- `through`: the highest revoked generation of a device. -/
structure Floor where
  through : String → Option Nat
  off : String → Bool

def emptyFloor : Floor :=
  { through := fun _ => none
    off := fun _ => false }

/-- The floor file. Without `content` it is missing, which is a first run. -/
structure FloorFile where
  content : Option Floor := none
  readable : Bool := true

/-- What the process knows. `askFloor`: the highest generation that it has seen of a device. -/
structure Registry where
  devices : Devices := ∅
  unavailable : Bool := false
  askFloor : String → Nat := fun _ => 0

/-- A token that was issued. -/
structure Mint where
  token : String
  deviceId : String
  generation : Nat
  deriving DecidableEq

/-- The process, its files, and what has happened. `saved`: every version of the devices' file;
`minted`: every token issued; `mintedHere`: those of this process. -/
structure World where
  registry : Registry := {}
  devicesFile : Devices
  floorFile : FloorFile := {}
  saved : List Devices
  minted : List Mint := []
  mintedHere : List Mint := []

/-- What fails in a call. `due`: an unavailable registry is read again. -/
structure Faults where
  due : Bool := false
  loadSave : Bool := false
  loadFloor : Bool := false
  save : Bool := false
  floor : Bool := false
  undo : Bool := false

def setDevice (deviceId : String) (device : Device) (world : World) : World :=
  { world with
    registry := { world.registry with devices := world.registry.devices.set deviceId device } }

/-- `Math.max` over what was known. -/
def raiseAskFloor (deviceId : String) (generation : Nat) (world : World) : World :=
  { world with
    registry :=
      { world.registry with
        askFloor := Function.update world.registry.askFloor deviceId
          (max (world.registry.askFloor deviceId) generation) } }

/-- The list is never written while it could not be read. -/
def persist (fails : Bool) (world : World) : Bool × World :=
  if world.registry.unavailable || fails then (false, world)
  else
    (true,
      { world with
        devicesFile := world.registry.devices
        saved := world.saved ++ [world.registry.devices] })

/-! ## The floor file -/

def readAskFloor (file : FloorFile) : Floor × Bool :=
  if file.readable then (file.content.getD emptyFloor, false) else (emptyFloor, true)

def writeAskFloor (fails : Bool) (floor : Floor) (world : World) : Bool × World :=
  if fails then (false, world)
  else
    (true,
      { world with
        floorFile :=
          { content := some floor
            readable := true } })

/-- Every generation below the one now on a device is refused. -/
def rebuiltAskFloor (devices : Devices) : Floor :=
  { through := fun deviceId => (devices.get deviceId).bind fun device =>
      if 0 < device.askGeneration then some (device.askGeneration - 1) else none
    off := fun deviceId => (devices.get deviceId).any (·.shareAskOff) }

/-- The revoke is above what the floor holds. -/
def raises (floor : Floor) (deviceId : String) (through : Option Nat) : Bool :=
  through.any fun generation => (floor.through deviceId).all fun known => known < generation

def switches (floor : Floor) (deviceId : String) (off : Option Bool) : Bool :=
  off.any fun isOff => floor.off deviceId ≠ isOff

def raisedFloor (floor : Floor) (deviceId : String) (through : Option Nat) (off : Option Bool) :
    Floor :=
  { through :=
      if raises floor deviceId through then Function.update floor.through deviceId through
      else floor.through
    off := Function.update floor.off deviceId (off.getD (floor.off deviceId)) }

/-- `through` and `off` are absent where they stay as they are. Never writes a lower floor. -/
def raiseAskRevokedFloor (fails : Bool) (deviceId : String) (through : Option Nat)
    (off : Option Bool) (world : World) : Bool × World :=
  let (floor, corrupt) := readAskFloor world.floorFile
  if corrupt then (false, world)
  else if raises floor deviceId through || switches floor deviceId off then
    writeAskFloor fails (raisedFloor floor deviceId through off) world
  else (true, world)

/-! ## Loading -/

/-- The hash of a loaded device goes. -/
def drops (floor : Floor) (corrupt : Bool) (known : Nat) (deviceId : String) (device : Device) :
    Bool :=
  device.ask.isSome && (corrupt || device.shareAskOff || floor.off deviceId ||
    ((floor.through deviceId).any (device.askGeneration ≤ ·)) || device.askGeneration < known)

def loadedDevice (floor : Floor) (corrupt : Bool) (known : Nat) (deviceId : String)
    (device : Device) : Device :=
  let disk := device.askGeneration
  let drop := drops floor corrupt known deviceId device
  let above := (floor.through deviceId).elim 0 (· + 1)
  let next :=
    if drop then max (max (disk + 1) known) above
    else max (if (floor.through deviceId).any (disk ≤ ·) then above else disk) known
  { device with
    ask := if drop then none else device.ask
    askGeneration := next
    shareAskOff := device.shareAskOff || floor.off deviceId }

def markUnavailable (world : World) : World :=
  { world with
    registry :=
      { world.registry with
        devices := ∅
        unavailable := true } }

def known (registry : Registry) (devices : Devices) (deviceId : String) : Nat :=
  max (registry.askFloor deviceId) ((devices.get deviceId).elim 0 (·.askGeneration))

/-- The devices of the file, each as the floor and the process leave it. -/
def loadedDevices (world : World) : Devices :=
  let (floor, corrupt) := readAskFloor world.floorFile
  world.devicesFile.mapValues fun deviceId =>
    loadedDevice floor corrupt (known world.registry world.registry.devices deviceId) deviceId

def loadedRegistry (world : World) : Registry :=
  let devices := loadedDevices world
  { devices := devices
    unavailable := false
    askFloor :=
      known { world.registry with askFloor := known world.registry world.registry.devices }
        devices }

/-- What was stripped is written down before anything is served. -/
def load (faults : Faults) (world : World) : World :=
  let corrupt := (readAskFloor world.floorFile).2
  let loaded := { world with registry := loadedRegistry world }
  let stripped := loaded.registry.devices.entries ≠ world.devicesFile.entries
  if stripped || corrupt then
    let saved := persist faults.loadSave loaded
    if saved.1 then
      if corrupt then
        let rebuilt :=
          writeAskFloor faults.loadFloor (rebuiltAskFloor loaded.registry.devices) saved.2
        if rebuilt.1 then rebuilt.2 else markUnavailable rebuilt.2
      else saved.2
    else markUnavailable saved.2
  else loaded

/-- Only an unavailable registry is read again. -/
def recover (faults : Faults) (world : World) : World :=
  if world.registry.unavailable && faults.due then load faults world else world

/-! ## Calls -/

inductive IssueAnswer
  | refused
  | issued (generation : Nat)
  | threw
  deriving DecidableEq

inductive ClearAnswer
  | nothing
  | cleared
  | threw
  deriving DecidableEq

/-- `floorWritten`: the floor file holds the revoke. -/
inductive RevokeAnswer
  | unknownDevice
  | revoked (through : Nat)
  | threw (floorWritten : Bool)
  deriving DecidableEq

inductive SwitchAnswer
  | unknownDevice
  | switched
  | threw (floorWritten : Bool)
  deriving DecidableEq

/-- The call returned from a revoke, or threw after the floor file was written. -/
def RevokeAnswer.holds : RevokeAnswer → Bool
  | .revoked _ => true
  | .threw floorWritten => floorWritten
  | .unknownDevice => false

def SwitchAnswer.holds : SwitchAnswer → Bool
  | .switched => true
  | .threw floorWritten => floorWritten
  | .unknownDevice => false

/-- `murage_pa_` and 43 letters of the url alphabet. -/
def phoneAskToken (token : String) : Bool :=
  let start := "murage_pa_".toList
  let letters := token.toList
  letters.take start.length = start && (letters.drop start.length).length = 43 &&
    (letters.drop start.length).all fun letter =>
      letter.isAlphanum || letter = '_' || letter = '-'

section Calls

variable (sha256 : String → String)

/-- A failed save leaves the device as it was. `token` is random. -/
def issuePhoneAskToken (faults : Faults) (deviceId token : String) (world : World) :
    IssueAnswer × World :=
  let world := recover faults world
  match world.registry.devices.get deviceId with
  | none => (.refused, world)
  | some device =>
    if device.shareAskOff || device.removalPending then (.refused, world)
    else
      let generation := device.askGeneration + 1
      let saved := persist faults.save
        (setDevice deviceId (device.minted (sha256 token)) world)
      if saved.1 then
        let mint : Mint :=
          { token := token
            deviceId := deviceId
            generation := generation }
        let after := raiseAskFloor deviceId generation saved.2
        (.issued generation,
          { after with
            minted := after.minted ++ [mint]
            mintedHere := after.mintedHere ++ [mint] })
      else (.threw, setDevice deviceId device saved.2)

/-- The process knows a newer generation than the record holds. -/
def askRefused (registry : Registry) (deviceId : String) (device : Device) : Bool :=
  device.askGeneration < registry.askFloor deviceId

/-- The device that holds the token, with its generation. -/
def authenticatePhoneAsk (faults : Faults) (token : String) (world : World) :
    Option (String × Nat) × World :=
  if phoneAskToken token then
    let world := recover faults world
    match world.registry.devices.entries.find? (·.2.ask = some (sha256 token)) with
    | none => (none, world)
    | some (deviceId, device) =>
      if device.removalPending || askRefused world.registry deviceId device then (none, world)
      else (some (deviceId, device.askGeneration), world)
  else (none, world)

def clearPhoneAskToken (faults : Faults) (deviceId : String) (onlyToken : Option String)
    (world : World) : ClearAnswer × World :=
  let world := recover faults world
  match world.registry.devices.get deviceId with
  | none => (.nothing, world)
  | some device =>
    if device.ask.isNone || onlyToken.any (fun token => device.ask ≠ some (sha256 token)) then
      (.nothing, world)
    else
      let saved := persist faults.save (setDevice deviceId { device with ask := none } world)
      if saved.1 then (.cleared, saved.2) else (.threw, setDevice deviceId device saved.2)

end Calls

/-- The floor file is raised first and never goes down. -/
def revokePhoneAsk (faults : Faults) (deviceId : String) (world : World) :
    RevokeAnswer × World :=
  let world := recover faults world
  match world.registry.devices.get deviceId with
  | none => (.unknownDevice, world)
  | some device =>
    let through := device.askGeneration
    if world.registry.unavailable then (.threw false, world)
    else
      let raised := raiseAskRevokedFloor faults.floor deviceId (some through) none world
      if raised.1 then
        let saved := persist faults.save (setDevice deviceId device.revoked raised.2)
        if saved.1 then (.revoked through, raiseAskFloor deviceId (through + 1) saved.2)
        else
          (.threw true,
            raiseAskFloor deviceId (through + 1) (setDevice deviceId device saved.2))
      else (.threw false, raised.2)

/-- Off also revokes. The off bit is cleared only after the devices' file is saved. -/
def setShareAskAllowed (faults : Faults) (deviceId : String) (allowed : Bool) (world : World) :
    SwitchAnswer × World :=
  let world := recover faults world
  match world.registry.devices.get deviceId with
  | none => (.unknownDevice, world)
  | some device =>
    if allowed then
      if !device.shareAskOff then (.switched, world)
      else if (readAskFloor world.floorFile).2 then (.threw false, world)
      else
        let saved := persist faults.save
          (setDevice deviceId { device with shareAskOff := false } world)
        if saved.1 then
          let raised := raiseAskRevokedFloor faults.floor deviceId none (some false) saved.2
          if raised.1 then (.switched, raised.2)
          else (.threw false, (persist faults.undo (setDevice deviceId device raised.2)).2)
        else (.threw false, setDevice deviceId device saved.2)
    else
      let through := device.askGeneration
      if world.registry.unavailable then (.threw false, world)
      else
        let raised := raiseAskRevokedFloor faults.floor deviceId (some through) (some true) world
        if raised.1 then
          let saved := persist faults.save
            (setDevice deviceId { device.revoked with shareAskOff := true } raised.2)
          if saved.1 then (.switched, raiseAskFloor deviceId (through + 1) saved.2)
          else
            (.threw true,
              raiseAskFloor deviceId (through + 1)
                (setDevice deviceId { device with shareAskOff := true } saved.2))
        else (.threw false, raised.2)

/-! ## Runs -/

/-- `restart`: a new process over a saved version of the devices' file. `spoil`, `mend`: the
floor file becomes unreadable, or readable again. -/
inductive Event
  | issue (deviceId token : String)
  | authenticate (token : String)
  | clear (deviceId : String) (onlyToken : Option String)
  | revoke (deviceId : String)
  | setAllowed (deviceId : String) (allowed : Bool)
  | restart (version : Nat)
  | spoil
  | mend

def restart (faults : Faults) (version : Nat) (world : World) : World :=
  load faults
    { world with
      registry := {}
      devicesFile := world.saved.getD version world.devicesFile
      mintedHere := [] }

def step (sha256 : String → String) (world : World) (event : Event × Faults) : World :=
  match event.1 with
  | .issue deviceId token => (issuePhoneAskToken sha256 event.2 deviceId token world).2
  | .authenticate token => (authenticatePhoneAsk sha256 event.2 token world).2
  | .clear deviceId onlyToken => (clearPhoneAskToken sha256 event.2 deviceId onlyToken world).2
  | .revoke deviceId => (revokePhoneAsk event.2 deviceId world).2
  | .setAllowed deviceId allowed => (setShareAskAllowed event.2 deviceId allowed world).2
  | .restart version => restart event.2 version world
  | .spoil => { world with floorFile := { world.floorFile with readable := false } }
  | .mend => { world with floorFile := { world.floorFile with readable := true } }

def run (sha256 : String → String) (world : World) (events : List (Event × Faults)) : World :=
  events.foldl (step sha256) world

/-- The first process, over devices that were never issued a token. -/
def boot (devices : Devices) : World :=
  restart {} 0
    { devicesFile := devices
      saved := [devices] }

end Murage.PhoneAsk
