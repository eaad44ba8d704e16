import Mathlib
import Murage.Mdns.Messages

/-!
Owns the link on which responders hear each other: what is sent on it, and that no responder answers
what a responder sent.

Does not own: which packets a network loses, and a throw of `handle`, which sends nothing.
-/

namespace Murage.Mdns

open Murage.Library.Utf8 (Bytes)

/-- `announcement`: also what is sent when a responder stops. -/
def ServiceInfo.announcement (service : ServiceInfo) : List ResourceRecord :=
  service.ptr :: service.srv :: service.txtRecord :: service.addressRecords

inductive Sender where
  /-- Not a responder. -/
  | other
  | announcement
  /-- A reply to the packet at that place. -/
  | reply (asked : Nat)

structure Sent where
  packet : Bytes
  sender : Sender

/-- Anyone sends anything, a responder announces its service (or, with `ttl` zero, that it is gone),
or a packet that was sent reaches a responder: any number of times, and as if from anywhere. -/
inductive LinkEvent where
  | other (packet : Bytes)
  | announce (service : ServiceInfo) (ttl : Option Nat)
  | deliver (place : Nat) (interfaces : List Interface) (service : ServiceInfo) (source : Text)
      (fromPort : Nat)

def send (builtins : Builtins) (link : List Sent) : LinkEvent → List Sent
  | .other packet => link ++ [⟨packet, .other⟩]
  | .announce service ttl =>
    match encodeResponse builtins service.announcement [] { ttl := ttl } with
    | .error _ => link
    | .ok packet => link ++ [⟨packet, .announcement⟩]
  | .deliver place interfaces service source fromPort =>
    match link[place]? with
    | none => link
    | some sent =>
      match handle builtins interfaces service sent.packet source fromPort with
      | .ok (some reply) => link ++ [⟨reply.packet, .reply place⟩]
      | _ => link

/-! ## What a responder sends -/

theorem ok_of_bind {α β : Type} {first : Except String α} {next : α → Except String β} {value : β}
    (isOk : first >>= next = .ok value) : ∃ middle, first = .ok middle ∧ next middle = .ok value := by
  cases first with
  | error message => cases isOk
  | ok middle => exact ⟨middle, rfl, isOk⟩

variable {builtins : Builtins} {packet : Bytes}

/-- No responder replies to this packet. -/
def Unanswered (builtins : Builtins) (packet : Bytes) : Prop :=
  ∀ interfaces service source fromPort,
    handle builtins interfaces service packet source fromPort = .ok none

/-- Behind the id of a response is the bit that says so. -/
theorem encodeResponse_unanswered {answers additionals : List ResourceRecord} {opts : ResponseOptions}
    (isPacket : encodeResponse builtins answers additionals opts = .ok packet) :
    Unanswered builtins packet := by
  obtain ⟨high, low, rest, rfl⟩ : ∃ high low rest, packet = high :: low :: 0x84 :: 0x00 :: rest := by
    obtain ⟨id, isId, isPacket⟩ := ok_of_bind isPacket
    iterate 6 obtain ⟨_, _, isPacket⟩ := ok_of_bind isPacket
    obtain rfl := Except.ok.inj isPacket
    rw [writeUInt16BE] at isId
    split at isId
    · obtain rfl := Except.ok.inj isId
      exact ⟨_, _, _, rfl⟩
    · cases isId
  intro interfaces service source fromPort
  rw [handle]
  split
  · rfl
  cases isMessage : decodeMessage _ with
  | none => rfl
  | some message =>
    rw [decodeMessage] at isMessage
    split at isMessage
    · cases isMessage
    · obtain ⟨_, _, rfl⟩ := Option.map_eq_some_iff.1 isMessage
      exact if_pos (.inl (by simp [readUInt16BE]))

theorem handle_unanswered {interfaces : List Interface} {service : ServiceInfo} {source : Text}
    {fromPort : Nat} {reply : Reply}
    (isReply : handle builtins interfaces service packet source fromPort = .ok (some reply)) :
    Unanswered builtins reply.packet := by
  rw [handle] at isReply
  split at isReply
  · cases isReply
  split at isReply
  · cases isReply
  dsimp only at isReply
  split at isReply
  · cases isReply
  split at isReply
  · cases isReply
  rename_i message _ _ _
  cases isPacket : encodeResponse builtins (answersFor builtins message service).answers
      (answersFor builtins message service).additionals (optionsFor message fromPort) with
  | error text =>
    rw [isPacket] at isReply
    cases isReply
  | ok packet =>
    rw [isPacket] at isReply
    obtain rfl := Option.some.inj (Except.ok.inj isReply)
    exact encodeResponse_unanswered isPacket

/-! ## Every run -/

/-- What a responder sent is not answered, and what was answered is not a responder's. -/
structure Quiet (builtins : Builtins) (link : List Sent) : Prop where
  own : ∀ sent ∈ link, sent.sender ≠ .other → Unanswered builtins sent.packet
  asked : ∀ sent ∈ link, ∀ place, sent.sender = .reply place →
    ∃ asked ∈ link[place]?, asked.sender = .other

theorem Quiet.append {link : List Sent} (quiet : Quiet builtins link) {sent : Sent}
    (isOwn : sent.sender ≠ .other → Unanswered builtins sent.packet)
    (isAsked : ∀ place, sent.sender = .reply place → ∃ asked ∈ link[place]?, asked.sender = .other) :
    Quiet builtins (link ++ [sent]) := by
  refine ⟨fun next isNext => ?_, fun next isNext place isReply => ?_⟩
  · rcases List.mem_append.1 isNext with isOld | isNew
    · exact quiet.own next isOld
    · exact List.mem_singleton.1 isNew ▸ isOwn
  · obtain ⟨asked, isThere, isOther⟩ : ∃ asked ∈ link[place]?, asked.sender = .other := by
      rcases List.mem_append.1 isNext with isOld | isNew
      · exact quiet.asked next isOld place isReply
      · exact isAsked place (List.mem_singleton.1 isNew ▸ isReply)
    exact ⟨asked, List.getElem?_append_left (List.getElem?_eq_some_iff.1 isThere).1 ▸ isThere, isOther⟩

theorem Quiet.send {link : List Sent} (quiet : Quiet builtins link) (event : LinkEvent) :
    Quiet builtins (send builtins link event) := by
  cases event with
  | other packet => exact quiet.append (absurd rfl) nofun
  | announce service ttl =>
    rw [Mdns.send]
    split
    · exact quiet
    · rename_i isPacket
      exact quiet.append (fun _ => encodeResponse_unanswered isPacket) nofun
  | deliver place interfaces service source fromPort =>
    rw [Mdns.send]
    split
    · exact quiet
    split
    · rename_i sent isThere _ reply isReply
      refine quiet.append (fun _ => handle_unanswered isReply) fun _ isPlace => ?_
      obtain rfl := Sender.reply.inj isPlace
      refine ⟨sent, isThere, ?_⟩
      by_contra isOwn
      rw [quiet.own sent (List.mem_of_getElem? isThere) isOwn] at isReply
      cases isReply
    · exact quiet

/-- **Responders never answer each other.** However many responders share a link, and whatever else is
sent on it, heard late or heard again: no packet that a responder sent is answered by any, and every
reply is to a packet that none of them sent. -/
theorem link_quiet (builtins : Builtins) (events : List LinkEvent) :
    Quiet builtins (events.foldl (send builtins) []) :=
  List.foldlRecOn events _ ⟨nofun, nofun⟩ fun _ quiet event _ => quiet.send event

end Murage.Mdns
