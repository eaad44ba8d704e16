import Mathlib
import Murage.SseReplay.Model

/-!
Owns the writer of an event stream: the bounded queue in front of a response, and what every run of
sends, drains and closes keeps of it.

Does not own: the response, which answers each write as it likes, and the writer's peaks.
-/

namespace Murage.SseReplay

inductive SseCloseReason where
  | closed
  | error
  | backpressure
  | oversized
deriving DecidableEq, Repr

structure WriterLimits where
  maxBytes : Nat
  maxFrames : Nat
  maxFrameBytes : Nat

structure QueuedFrame where
  frame : Frame
  bytes : Nat

/-- How the response answers a write: it throws, or it takes the frame, tells whether more may come,
and holds so many bytes. -/
inductive Written where
  | throws
  | taken (more : Bool) (writableLength : Nat)

/-- `writableLength` is the response's. `accepted` is every frame that passed the checks, `written`
every frame the response took, `closes` the calls of `onClose`. -/
structure SseWriter where
  queue : List QueuedFrame := []
  queueBytes : Nat := 0
  blocked : Bool := false
  stopped : Bool := false
  acceptedBytes : Nat := 0
  writableLength : Nat
  accepted : List Frame := []
  written : List Frame := []
  closes : List SseCloseReason := []

namespace SseWriter

def pendingBytes (writer : SseWriter) : Nat :=
  if writer.stopped then 0 else writer.queueBytes + writer.writableLength

def close (reason : SseCloseReason) (writer : SseWriter) : SseWriter :=
  if writer.stopped then writer
  else
    { writer with
      stopped := true
      queue := []
      queueBytes := 0
      closes := writer.closes ++ [reason] }

def write (limits : WriterLimits) (frame : Frame) (answer : Written) (writer : SseWriter) :
    SseWriter × Bool :=
  match answer with
  | .throws => (writer.close .error, false)
  | .taken more writableLength =>
    let after :=
      { writer with
        blocked := !more
        writableLength := writableLength
        written := writer.written ++ [frame] }
    if limits.maxBytes < after.pendingBytes then (after.close .backpressure, false) else (after, true)

def send (limits : WriterLimits) (frame : Frame) (destroyed : Bool) (answer : Written)
    (writer : SseWriter) : SseWriter × Bool :=
  let size := byteLength frame
  let bytes := size + WRITE_OVERHEAD_BYTES
  if writer.stopped then (writer, false)
  else if destroyed then (writer.close .closed, false)
  else if limits.maxFrameBytes < size then (writer.close .oversized, false)
  else if limits.maxBytes < writer.pendingBytes + bytes ∨
      writer.blocked ∧ limits.maxFrames ≤ writer.queue.length then
    (writer.close .backpressure, false)
  else
    let taken :=
      { writer with
        acceptedBytes := writer.acceptedBytes + size
        accepted := writer.accepted ++ [frame] }
    if writer.blocked then
      ({ taken with
        queue := writer.queue ++ [⟨frame, bytes⟩]
        queueBytes := writer.queueBytes + bytes }, true)
    else taken.write limits frame answer

/-- The loop of `drain` over the queue; an answer for each write. -/
def drainFrom (limits : WriterLimits) (answers : Nat → Written) :
    List QueuedFrame → SseWriter → SseWriter
  | [], writer => writer
  | next :: rest, writer =>
    if writer.blocked ∨ writer.stopped then writer
    else
      drainFrom limits answers rest
        (write limits next.frame (answers rest.length)
          { writer with queue := rest, queueBytes := writer.queueBytes - next.bytes }).1

def drain (limits : WriterLimits) (answers : Nat → Written) (writer : SseWriter) : SseWriter :=
  if writer.stopped then writer
  else drainFrom limits answers writer.queue { writer with blocked := false }

/-- A call, or `flushed`: so many bytes left the response. -/
inductive Act where
  | send (frame : Frame) (destroyed : Bool) (answer : Written)
  | drain (answers : Nat → Written)
  | flushed (bytes : Nat)
  | close (reason : SseCloseReason)

def apply (limits : WriterLimits) (writer : SseWriter) : Act → SseWriter
  | .send frame destroyed answer => (writer.send limits frame destroyed answer).1
  | .drain answers => writer.drain limits answers
  | .flushed bytes => { writer with writableLength := writer.writableLength - bytes }
  | .close reason => writer.close reason

/-! ## Every run -/

/-- What holds of a writer also while it drains: what is written and what waits is what was accepted,
in order. -/
structure Sound (limits : WriterLimits) (most : Nat) (writer : SseWriter) : Prop where
  inOrder : writer.stopped = false → writer.accepted = writer.written ++ writer.queue.map (·.frame)
  isStart : writer.written <+: writer.accepted
  isEmpty : writer.stopped = true → writer.queue = []
  bytes : writer.queueBytes = (writer.queue.map (·.bytes)).sum
  isShort : writer.queue.length ≤ limits.maxFrames
  pending : writer.pendingBytes ≤ most
  counted : writer.acceptedBytes = (writer.accepted.map byteLength).sum
  closes : writer.closes.length = if writer.stopped then 1 else 0

variable {limits : WriterLimits} {most : Nat} {writer : SseWriter}

theorem Sound.unclosed (sound : Sound limits most writer) (isOpen : writer.stopped = false) :
    writer.closes = [] := by
  have isLength := sound.closes
  rw [isOpen] at isLength
  exact List.eq_nil_of_length_eq_zero isLength

theorem sound_close (isOpen : writer.stopped = false) (isStart : writer.written <+: writer.accepted)
    (counted : writer.acceptedBytes = (writer.accepted.map byteLength).sum)
    (closes : writer.closes = []) (reason : SseCloseReason) :
    Sound limits most (writer.close reason) := by
  rw [close, if_neg (by rw [isOpen]; decide)]
  refine ⟨nofun, isStart, fun _ => rfl, rfl, Nat.zero_le _, Nat.zero_le _, counted, ?_⟩
  rw [closes]
  rfl

/-- Sound, and what waits waits for a drain. -/
def Settled (limits : WriterLimits) (most : Nat) (writer : SseWriter) : Prop :=
  Sound limits most writer ∧ (writer.queue ≠ [] → writer.blocked = true)

theorem Settled.close (settled : Settled limits most writer) (reason : SseCloseReason) :
    Settled limits most (writer.close reason) := by
  obtain ⟨sound, waits⟩ := settled
  cases isStopped : writer.stopped with
  | true =>
    rw [SseWriter.close, if_pos isStopped]
    exact ⟨sound, waits⟩
  | false =>
    have isSound : Sound limits most (writer.close reason) :=
      sound_close isStopped sound.isStart sound.counted (sound.unclosed isStopped) reason
    refine ⟨isSound, fun isWaiting => absurd (isSound.isEmpty ?_) isWaiting⟩
    rw [SseWriter.close, if_neg (by rw [isStopped]; decide)]

/-- A frame that was accepted and waits no longer is written, or the writer stops. -/
theorem write_sound {frame : Frame} (isMost : limits.maxBytes ≤ most) (isOpen : writer.stopped = false)
    (inOrder : writer.accepted = writer.written ++ frame :: writer.queue.map (·.frame))
    (isBytes : writer.queueBytes = (writer.queue.map (·.bytes)).sum)
    (isShort : writer.queue.length ≤ limits.maxFrames)
    (counted : writer.acceptedBytes = (writer.accepted.map byteLength).sum)
    (closes : writer.closes = []) (answer : Written) :
    Sound limits most (write limits frame answer writer).1 ∧
      ((write limits frame answer writer).1.stopped = false →
        (write limits frame answer writer).1.queue = writer.queue) := by
  have isNext : writer.written ++ [frame] <+: writer.accepted := by
    rw [inOrder]
    exact List.prefix_append_right_inj _ |>.2 ⟨_, rfl⟩
  have isClosed : ∀ before : SseWriter, before.stopped = false → ∀ reason,
      (before.close reason).stopped = false → (before.close reason).queue = writer.queue := by
    intro before isBefore reason isAfter
    rw [close, if_neg (by rw [isBefore]; decide)] at isAfter
    cases isAfter
  cases answer with
  | throws =>
    exact ⟨sound_close isOpen ((List.prefix_append _ _).trans isNext) counted closes _,
      isClosed _ isOpen _⟩
  | taken more writableLength =>
    rw [write]
    split
    · refine ⟨sound_close ?_ ?_ ?_ ?_ _, isClosed _ ?_ _⟩
      exacts [isOpen, isNext, counted, closes, isOpen]
    · rename_i isWithin
      refine ⟨⟨fun _ => ?_, isNext, fun isStopped => absurd isStopped (by rw [isOpen]; decide), isBytes,
        isShort, Nat.le_trans (Nat.le_of_not_lt isWithin) isMost, counted, ?_⟩, fun _ => rfl⟩
      · rw [inOrder, List.append_assoc]
        rfl
      · rw [closes, isOpen]
        rfl

theorem Sound.drainFrom (isMost : limits.maxBytes ≤ most) (answers : Nat → Written)
    {queue : List QueuedFrame} (sound : Sound limits most writer)
    (isQueue : writer.stopped = false → writer.queue = queue) :
    Settled limits most (drainFrom limits answers queue writer) := by
  induction queue generalizing writer with
  | nil =>
    refine ⟨sound, fun isWaiting => absurd ?_ isWaiting⟩
    cases isStopped : writer.stopped with
    | false => exact isQueue isStopped
    | true => exact sound.isEmpty isStopped
  | cons next rest ih =>
    rw [SseWriter.drainFrom]
    split
    · rename_i isOver
      exact ⟨sound, fun isWaiting => isOver.resolve_right fun isStopped =>
        isWaiting (sound.isEmpty isStopped)⟩
    · rename_i goesOn
      have isOpen : writer.stopped = false := Bool.eq_false_iff.2 fun isStopped => goesOn (.inr isStopped)
      have inOrder := sound.inOrder isOpen
      have isBytes := sound.bytes
      have isShort := sound.isShort
      rw [isQueue isOpen] at inOrder isBytes isShort
      rw [List.map_cons, List.sum_cons] at isBytes
      obtain ⟨isSound, isRest⟩ := @write_sound _ most
        { writer with queue := rest, queueBytes := writer.queueBytes - next.bytes } next.frame isMost
        isOpen inOrder (by dsimp only; omega) (Nat.le_of_succ_le isShort) sound.counted
        (sound.unclosed isOpen) (answers rest.length)
      exact ih isSound isRest

theorem Settled.send (settled : Settled limits most writer) (isMost : limits.maxBytes ≤ most)
    (frame : Frame) (destroyed : Bool) (answer : Written) :
    Settled limits most (writer.send limits frame destroyed answer).1 := by
  rw [SseWriter.send]
  dsimp only
  split
  · exact settled
  rename_i isRunning
  have isOpen := Bool.eq_false_iff.2 isRunning
  split
  · exact settled.close _
  split
  · exact settled.close _
  split
  · exact settled.close _
  rename_i isWithin
  obtain ⟨isSmall, isFree⟩ := not_or.1 isWithin
  obtain ⟨sound, waits⟩ := settled
  have isCounted : writer.acceptedBytes + byteLength frame =
      ((writer.accepted ++ [frame]).map byteLength).sum := by
    rw [List.map_append, List.sum_append, sound.counted]
    rfl
  split
  · rename_i isBlocked
    refine ⟨⟨fun _ => ?_, sound.isStart.trans (List.prefix_append _ _),
      fun isStopped => absurd isStopped isRunning, ?_, ?_, ?_, isCounted, sound.closes⟩,
      fun _ => isBlocked⟩ <;> dsimp only
    · rw [sound.inOrder isOpen, List.map_append, List.append_assoc]
      rfl
    · rw [List.map_append, List.sum_append, sound.bytes]
      rfl
    · rw [List.length_append]
      exact Nat.lt_of_not_le fun isFull => isFree ⟨isBlocked, isFull⟩
    · rw [pendingBytes, if_neg isRunning] at isSmall ⊢
      dsimp only
      omega
  · rename_i isReady
    have isNone : writer.queue = [] := by
      by_contra isWaiting
      exact isReady (waits isWaiting)
    have inOrder : writer.accepted ++ [frame] =
        writer.written ++ frame :: writer.queue.map (·.frame) := by
      rw [sound.inOrder isOpen, isNone, List.map_nil, List.append_nil]
    obtain ⟨isSound, isRest⟩ := @write_sound limits most
      { writer with
        acceptedBytes := writer.acceptedBytes + byteLength frame
        accepted := writer.accepted ++ [frame] } frame isMost isOpen inOrder sound.bytes
      sound.isShort isCounted (sound.unclosed isOpen) answer
    refine ⟨isSound, fun isWaiting => absurd ?_ isWaiting⟩
    cases isStopped : SseWriter.stopped (write limits frame answer _).1 with
    | true => exact isSound.isEmpty isStopped
    | false => exact (isRest isStopped).trans isNone

/-- **What was accepted is written once, in order, within the bounds.** In every run, whatever the
response answers: what is written and what waits is what was accepted; at most `maxFrames` wait, and
at most `maxBytes` are pending; a writer that stops calls `onClose` once, keeps nothing, and has
written a start of what it accepted; and nothing waits but for a drain. -/
theorem writer_settled (limits : WriterLimits) (writableLength : Nat) (acts : List Act) :
    Settled limits (max writableLength limits.maxBytes)
      (acts.foldl (apply limits) { writableLength := writableLength }) := by
  have isMost := Nat.le_max_right writableLength limits.maxBytes
  refine List.foldlRecOn acts _ ⟨⟨fun _ => rfl, List.prefix_rfl, fun _ => rfl, rfl, Nat.zero_le _, ?_,
    rfl, rfl⟩, fun isWaiting => absurd rfl isWaiting⟩ fun writer settled act _ => ?_
  · exact Nat.le_trans (Nat.le_of_eq (Nat.zero_add _)) (Nat.le_max_left _ _)
  cases act with
  | send frame destroyed answer => exact settled.send isMost frame destroyed answer
  | drain answers =>
    rw [apply, drain]
    split
    · exact settled
    · exact Sound.drainFrom isMost answers { settled.1 with } fun _ => rfl
  | flushed bytes =>
    refine ⟨{ settled.1 with pending := Nat.le_trans ?_ settled.1.pending }, settled.2⟩
    rw [apply, pendingBytes, pendingBytes]
    split
    · exact Nat.le_refl _
    · exact Nat.add_le_add_left (Nat.sub_le _ _) _
  | close reason => exact settled.close reason

end SseWriter

end Murage.SseReplay
