import Mathlib
import Murage.Mdns.Names

/-!
Owns the messages (`decodeMessage`, the records, `encodeRecord` and `encodeResponse`) and the
answers to a query: `serviceRecords`, `answersFor`, `isOnLink` and `MdnsResponder.handle`.

Does not own: the built-in functions of the language that texts go through, which are a
parameter, and what the socket does with a packet. A send that fails is caught.
-/

namespace Murage.Mdns

open Murage.Library
open Murage.Library.Utf8 (Bytes)

/-! ## Numbers in a buffer -/

/-- `writeUInt16BE`. -/
def writeUInt16BE (value : Nat) : Except String Bytes :=
  if value ≤ 0xFFFF then .ok [UInt8.ofNat (value / 2 ^ 8), UInt8.ofNat (value % 2 ^ 8)]
  else .error "ERR_OUT_OF_RANGE"

/-- `readUInt16BE`, inside the buffer. -/
def readUInt16BE (buf : Bytes) (offset : Nat) : Nat :=
  (buf.getD offset 0).toNat * 2 ^ 8 + (buf.getD (offset + 1) 0).toNat

theorem readUInt16BE_le (buf : Bytes) (offset : Nat) : readUInt16BE buf offset ≤ 0xFFFF := by
  have isHigh := (buf.getD offset 0).toNat_lt
  have isLow := (buf.getD (offset + 1) 0).toNat_lt
  unfold readUInt16BE
  omega

/-! ## Questions -/

namespace TYPE

def A : Nat := 1
def PTR : Nat := 12
def TXT : Nat := 16
def SRV : Nat := 33
def ANY : Nat := 255

end TYPE

def CLASS_IN : Nat := 1

/-- Both the bit of a record's class that replaces what was cached and that of a question's class
that asks for a unicast answer. -/
def FLUSH : Nat := 0x8000

structure Question where
  name : Text
  type : Nat
  unicast : Bool

structure DnsMessage where
  id : Nat
  response : Bool
  questions : List Question

/-- The questions from an offset on. `none`: the packet is not one that can be read. -/
def readQuestions (buf : Bytes) : Nat → Nat → Option (List Question)
  | 0, _ => some []
  | count + 1, offset =>
    match decodeName buf offset with
    | .error _ => none
    | .ok decoded =>
      if buf.length < decoded.offset + 4 then none
      else
        (readQuestions buf count (decoded.offset + 4)).map fun later =>
          { name := decoded.name
            type := readUInt16BE buf decoded.offset
            unicast := readUInt16BE buf (decoded.offset + 2) &&& FLUSH ≠ 0 } :: later

def decodeMessage (buf : Bytes) : Option DnsMessage :=
  if buf.length < 12 then none
  else
    (readQuestions buf (readUInt16BE buf 4) 12).map fun questions =>
      { id := readUInt16BE buf 0
        response := readUInt16BE buf 2 &&& 0x8000 ≠ 0
        questions := questions }

/-! ## Records -/

inductive RecordData where
  | address (data : Text)
  | pointer (data : Text)
  | text (data : List Text)
  | service (port : Nat) (target : Text)
  deriving DecidableEq

structure ResourceRecord where
  name : Text
  data : RecordData
  deriving DecidableEq

def ResourceRecord.type (record : ResourceRecord) : Nat :=
  match record.data with
  | .address _ => TYPE.A
  | .pointer _ => TYPE.PTR
  | .text _ => TYPE.TXT
  | .service .. => TYPE.SRV

/-- `toNumber`: what `Number` makes of a text, where that is a whole number. -/
structure Builtins where
  toLowerCase : Text → Text
  toNumber : Text → Option Nat
  stringify : RecordData → Text

def TTL_HOST : Nat := 120

def TTL_SERVICE : Nat := 4500

def mayFlush (record : ResourceRecord) (legacy : Bool) : Bool := !legacy && record.type != TYPE.PTR

def encodeEntries : List Text → Except String Bytes
  | [] => .ok []
  | entry :: rest =>
    let bytes := Utf8.encode entry
    if 255 < bytes.length then .error ("TXT entry longer than 255 bytes: " ++ String.ofList entry)
    else (encodeEntries rest).map fun later => UInt8.ofNat bytes.length :: (bytes ++ later)

def encodeAddress (builtins : Builtins) (data : Text) : Except String Bytes :=
  let octets := (data.splitOn '.').map builtins.toNumber
  if octets.length ≠ 4 ∨ octets.any (fun octet => octet.all (255 < ·)) then
    .error ("not an IPv4 address: " ++ String.ofList data)
  else .ok (octets.map fun octet => UInt8.ofNat (octet.getD 0))

def encodeData (builtins : Builtins) : RecordData → Except String (Bytes × Nat)
  | .address data => (encodeAddress builtins data).map (·, TTL_HOST)
  | .pointer data => (encodeName data).map (·, TTL_SERVICE)
  | .text data =>
    -- An empty TXT record is one zero-length string.
    (encodeEntries data).map fun bytes => (if data = [] then [0] else bytes, TTL_SERVICE)
  | .service port target => do
      let written ← writeUInt16BE port
      let name ← encodeName target
      return ([0, 0, 0, 2] ++ written ++ name, TTL_HOST)

def encodeRecord (builtins : Builtins) (record : ResourceRecord) (ttlOverride : Option Nat) (flush : Bool) :
    Except String Bytes := do
  let (rdata, ttl) ← encodeData builtins record.data
  let name ← encodeName record.name
  let type ← writeUInt16BE record.type
  let klass ← writeUInt16BE (if flush then CLASS_IN ||| FLUSH else CLASS_IN)
  let ttl := ttlOverride.getD ttl
  let length ← writeUInt16BE rdata.length
  return name ++ type ++ klass ++ [UInt8.ofNat (ttl / 2 ^ 24), UInt8.ofNat (ttl / 2 ^ 16),
    UInt8.ofNat (ttl / 2 ^ 8), UInt8.ofNat ttl] ++ length ++ rdata

def encodeRecords (builtins : Builtins) (ttl : Option Nat) (legacy : Bool) :
    List ResourceRecord → Except String Bytes
  | [] => .ok []
  | record :: rest => do
      let bytes ← encodeRecord builtins record ttl (mayFlush record legacy)
      let later ← encodeRecords builtins ttl legacy rest
      return bytes ++ later

/-! ## Responses -/

structure ResponseOptions where
  id : Nat := 0
  ttl : Option Nat := none
  questions : List Question := []
  legacy : Bool := false

def encodeQuestions : List Question → Except String Bytes
  | [] => .ok []
  | question :: rest => do
      let type ← writeUInt16BE question.type
      let klass ← writeUInt16BE CLASS_IN
      let name ← encodeName question.name
      let later ← encodeQuestions rest
      return name ++ type ++ klass ++ later

def encodeResponse (builtins : Builtins) (answers additionals : List ResourceRecord)
    (opts : ResponseOptions) : Except String Bytes := do
  let id ← writeUInt16BE opts.id
  let questionCount ← writeUInt16BE opts.questions.length
  let answerCount ← writeUInt16BE answers.length
  let additionalCount ← writeUInt16BE additionals.length
  let questions ← encodeQuestions opts.questions
  let answerBytes ← encodeRecords builtins opts.ttl opts.legacy answers
  let additionalBytes ← encodeRecords builtins opts.ttl opts.legacy additionals
  return id ++ [0x84, 0x00] ++ questionCount ++ answerCount ++ [0, 0] ++ additionalCount ++ questions
    ++ answerBytes ++ additionalBytes

/-! ## The link -/

structure Interface where
  isIPv4 : Bool
  address : Text
  netmask : Text

/-- The value of at most three digits. -/
def octet (part : Text) : Option Nat :=
  if part ≠ [] ∧ part.length ≤ 3 ∧ part.all Char.isDigit then
    let value := part.foldl (fun value digit => value * 10 + (digit.toNat - 48)) 0
    if 255 < value then none else some value
  else none

/-- An address in the mapped form, without the form. -/
def unmapped (address : Text) : Text :=
  if (address.take 7).map Char.toLower = "::ffff:".toList then address.drop 7 else address

def toIpv4 (address : Text) : Option Nat :=
  match (((unmapped address).splitOn '%').headD []).splitOn '.' with
  | [first, second, third, fourth] => do
      let first ← octet first
      let second ← octet second
      let third ← octet third
      let fourth ← octet fourth
      return ((first * 256 + second) * 256 + third) * 256 + fourth
  | _ => none

def isOnLink (source : Text) (interfaces : List Interface) : Bool :=
  match toIpv4 source with
  | none => false
  | some source =>
    interfaces.any fun entry =>
      entry.isIPv4 &&
        match toIpv4 entry.address, toIpv4 entry.netmask with
        | some address, some mask => (source ^^^ address) &&& mask = 0
        | _, _ => false

/-! ## The service -/

structure ServiceInfo where
  name : Text
  type : Text
  port : Nat
  host : Text
  addresses : List Text
  txt : List Text

def SERVICE_ENUMERATION : Text := "_services._dns-sd._udp.local".toList

namespace ServiceInfo

variable (service : ServiceInfo)

def serviceName : Text := service.type ++ ".local".toList

def instanceName : Text := service.name ++ '.' :: service.serviceName

def ptr : ResourceRecord :=
  { name := service.serviceName
    data := .pointer service.instanceName }

def srv : ResourceRecord :=
  { name := service.instanceName
    data := .service service.port service.host }

def txtRecord : ResourceRecord :=
  { name := service.instanceName
    data := .text service.txt }

def addressRecords : List ResourceRecord :=
  service.addresses.map fun address =>
    { name := service.host
      data := .address address }

def enumeration : ResourceRecord :=
  { name := SERVICE_ENUMERATION
    data := .pointer service.serviceName }

def records : List ResourceRecord :=
  service.enumeration :: service.ptr :: service.srv :: service.txtRecord :: service.addressRecords

end ServiceInfo

/-! ## Answers -/

def recordKey (builtins : Builtins) (record : ResourceRecord) : Text :=
  builtins.toLowerCase record.name ++ '|' :: (toString record.type).toList ++
    '|' :: builtins.stringify record.data

instance decidableIsKey (key : Text) (keys : List Text) : Decidable (key ∈ keys) :=
  decidable_of_iff (keys.elem key = true) List.elem_iff

/-- The records whose key was not seen, each once. -/
def dedupeFrom (builtins : Builtins) : List Text → List ResourceRecord → List ResourceRecord
  | _, [] => []
  | seen, record :: rest =>
    if recordKey builtins record ∈ seen then dedupeFrom builtins seen rest
    else record :: dedupeFrom builtins (recordKey builtins record :: seen) rest

def dedupe (builtins : Builtins) (records exclude : List ResourceRecord) : List ResourceRecord :=
  dedupeFrom builtins (exclude.map (recordKey builtins)) records

def Question.asks (question : Question) (type : Nat) : Bool :=
  question.type = type || question.type = TYPE.ANY

def answerTo (builtins : Builtins) (service : ServiceInfo) (question : Question) :
    List ResourceRecord × List ResourceRecord :=
  let name := builtins.toLowerCase question.name
  if name = SERVICE_ENUMERATION ∧ question.asks TYPE.PTR then ([service.enumeration], [])
  else if name = builtins.toLowerCase service.serviceName ∧ question.asks TYPE.PTR then
    ([service.ptr], service.srv :: service.txtRecord :: service.addressRecords)
  else if name = builtins.toLowerCase service.instanceName then
    ((if question.asks TYPE.SRV then [service.srv] else []) ++
      (if question.asks TYPE.TXT then [service.txtRecord] else []),
      if question.asks TYPE.SRV then service.addressRecords else [])
  else if name = builtins.toLowerCase service.host ∧ question.asks TYPE.A then (service.addressRecords, [])
  else ([], [])

structure Answers where
  answers : List ResourceRecord
  additionals : List ResourceRecord

def answersFor (builtins : Builtins) (message : DnsMessage) (service : ServiceInfo) : Answers :=
  if message.response then
    { answers := []
      additionals := [] }
  else
    let answers := message.questions.flatMap fun question => (answerTo builtins service question).1
    let additionals := message.questions.flatMap fun question => (answerTo builtins service question).2
    let deduped := dedupe builtins answers []
    { answers := deduped
      additionals := dedupe builtins additionals deduped }

/-! ## One packet -/

def MDNS_PORT : Nat := 5353

structure Reply where
  packet : Bytes
  unicast : Bool
  deriving DecidableEq

/-- A query from a port other than that of multicast DNS is answered with its own questions. -/
def optionsFor (message : DnsMessage) (fromPort : Nat) : ResponseOptions :=
  if fromPort ≠ MDNS_PORT then
    { id := message.id
      questions := message.questions
      legacy := true }
  else {}

/-- `handle` of a responder that is up. A throw leaves it into the socket's handler. -/
def handle (builtins : Builtins) (interfaces : List Interface) (service : ServiceInfo) (buf : Bytes)
    (source : Text) (fromPort : Nat) : Except String (Option Reply) :=
  if isOnLink source interfaces = false then .ok none
  else
    match decodeMessage buf with
    | none => .ok none
    | some message =>
      if message.response ∨ message.questions = [] then .ok none
      else
        let found := answersFor builtins message service
        if found.answers = [] then .ok none
        else
          (encodeResponse builtins found.answers found.additionals (optionsFor message fromPort)).map
            fun packet => some
              { packet := packet
                unicast := fromPort ≠ MDNS_PORT ∨ message.questions.any (·.unicast) }

end Murage.Mdns
