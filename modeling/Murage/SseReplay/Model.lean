import Mathlib.Tactic.Common

/-!
Owns the replay buffer of the event stream: what an appended frame leaves in it, what leaves it
again by count and by bytes, and what a client that resumes is given.

Does not own: the writer of a stream, and who may see an entry (`accepts`).
-/

namespace Murage.SseReplay

/-- A text in UTF-16 code units. -/
abbrev Frame := List UInt16

def isHighSurrogate (c : UInt16) : Bool := 0xd800 ≤ c && c < 0xdc00

def isLowSurrogate (c : UInt16) : Bool := 0xdc00 ≤ c && c < 0xe000

/-- `Buffer.byteLength`: a surrogate pair is four bytes, one half alone three. -/
def byteLength : Frame → Nat
  | [] => 0
  | [c] => if c < 0x80 then 1 else if c < 0x800 then 2 else 3
  | c :: d :: rest =>
    if c < 0x80 then 1 + byteLength (d :: rest)
    else if c < 0x800 then 2 + byteLength (d :: rest)
    else if isHighSurrogate c ∧ isLowSurrogate d then 4 + byteLength rest
    else 3 + byteLength (d :: rest)

def WRITE_OVERHEAD_BYTES : Nat := 32

/-- What is told of a frame when it is appended. -/
structure Meta (Subject : Type) where
  seq : Int
  kind : String
  subject : Subject
  besideOnly : Bool := false

structure SseReplayEntry (Subject : Type) extends Meta Subject where
  frame : Option Frame
  bytes : Nat
  /-- A required frame was too large to replay; matching clients need a snapshot. -/
  gap : Bool

structure Limits where
  maxBytes : Int
  maxEntries : Int
  maxFrameBytes : Int

structure Budget where
  maxBytes : Int
  maxFrames : Int

structure SseReplay (Subject : Type) where
  entries : List (SseReplayEntry Subject) := []
  bytes : Int := 0

variable {Subject : Type}

def entryOf (limits : Limits) (about : Meta Subject) (frame : Frame) : SseReplayEntry Subject :=
  let size := byteLength frame
  let screen := about.kind == "screen"
  let gap := !screen && (limits.maxFrameBytes < size || limits.maxBytes < size)
  { about with
    frame := if screen || gap then none else some frame
    bytes := if screen || gap then 0 else size
    gap := gap }

/-- Entries leave from the front while they are too many or too large; true when an entry is asked
for and there is none, which throws. -/
def evict (limits : Limits) : List (SseReplayEntry Subject) → Int → SseReplay Subject × Bool
  | [], bytes => (⟨[], bytes⟩, limits.maxEntries < 0 || limits.maxBytes < bytes)
  | entry :: rest, bytes =>
    if limits.maxEntries < (entry :: rest).length ∨ limits.maxBytes < bytes then
      evict limits rest (bytes - entry.bytes)
    else (⟨entry :: rest, bytes⟩, false)

/-- The buffer after an append, and the entry unless it throws. -/
def SseReplay.append (limits : Limits) (replay : SseReplay Subject) (about : Meta Subject)
    (frame : Frame) : SseReplay Subject × Option (SseReplayEntry Subject) :=
  let entry := entryOf limits about frame
  let (evicted, throws) :=
    evict limits (replay.entries ++ [entry]) (replay.bytes + entry.bytes)
  (evicted, if throws then none else some entry)

/-- The frames after `since`, none when one of them is missing or the budget is used up. -/
def collect (since : Int) (accepts : SseReplayEntry Subject → Bool) (budget : Budget) :
    List (SseReplayEntry Subject) → Int → List Frame → Option (List Frame)
  | [], _, frames => some frames
  | entry :: rest, bytes, frames =>
    if entry.seq ≤ since ∨ accepts entry = false then collect since accepts budget rest bytes frames
    else if entry.gap then none
    else
      match entry.frame with
      | none | some [] => collect since accepts budget rest bytes frames
      | some frame =>
        let bytes := bytes + entry.bytes + WRITE_OVERHEAD_BYTES
        if budget.maxBytes < bytes ∨ budget.maxFrames ≤ frames.length then none
        else collect since accepts budget rest bytes (frames ++ [frame])

/-- Whether frames after `since` may be gone. -/
def SseReplay.fellOff (replay : SseReplay Subject) (since lastSeq : Int) : Bool :=
  match replay.entries with
  | [] => since != lastSeq
  | oldest :: _ => since + 1 < oldest.seq

/-- The frames to resume with, none when the stream cannot be resumed from there. -/
def SseReplay.prepare (replay : SseReplay Subject) (since : Option Int) (lastSeq : Int)
    (accepts : SseReplayEntry Subject → Bool) (budget : Budget) : Option (List Frame) :=
  match since with
  | none => none
  | some since =>
    if lastSeq < since ∨ replay.fellOff since lastSeq then none
    else collect since accepts budget replay.entries 0 []

end Murage.SseReplay
