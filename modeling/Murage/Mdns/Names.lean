import Murage.Library.Utf8
import Mathlib.Data.Nat.Basic

/-!
Owns the names of a DNS message: `encodeName` and `decodeName`, and what it is for a name to
stand written in a packet, compression pointers followed.

Does not own: the other fields of a message. A name is a text without lone surrogates.
-/

namespace Murage.Mdns

open Murage.Library
open Murage.Library.Utf8 (Bytes)

abbrev Text := List Char

/-! ## The functions of the source -/

def labelsOf (name : Text) : List Text := (name.splitOn '.').filter (· ≠ [])

def encodeLabels : List Text → Except String Bytes
  | [] => .ok [0]
  | label :: rest =>
    let bytes := Utf8.encode label
    if 63 < bytes.length then
      .error ("label longer than 63 bytes: " ++ String.ofList label)
    else
      (encodeLabels rest).map fun later => UInt8.ofNat bytes.length :: (bytes ++ later)

def encodeName (name : Text) : Except String Bytes := encodeLabels (labelsOf name)

/-- The variables of the loop. `ending` is `end`. -/
structure Walk where
  labels : List Text
  pos : Nat
  ending : Nat
  jumped : Bool
  hops : Nat

structure Decoded where
  name : Text
  offset : Nat
  deriving DecidableEq

inductive Turn where
  | goOn (walk : Walk)
  | stop (outcome : Except String Decoded)

def Walk.turn (buf : Bytes) (walk : Walk) : Turn :=
  match buf[walk.pos]? with
  | none => .stop (.error "truncated name")
  | some first =>
    let length := first.toNat
    if length = 0 then
      .stop (.ok
        { name := ['.'].intercalate walk.labels
          offset := if walk.jumped then walk.ending else walk.pos + 1 })
    else if length &&& 0xC0 = 0xC0 then
      match buf[walk.pos + 1]? with
      | none => .stop (.error "truncated pointer")
      | some second =>
        -- A packet is free to point at itself.
        if 16 < walk.hops + 1 then .stop (.error "compression pointer loop")
        else .goOn
          { labels := walk.labels
            pos := ((length &&& 0x3F) <<< 8) ||| second.toNat
            ending := if walk.jumped then walk.ending else walk.pos + 2
            jumped := true
            hops := walk.hops + 1 }
    else
      let start := walk.pos + 1
      if buf.length < start + length then .stop (.error "truncated label")
      else .goOn
        { labels := walk.labels ++ [Utf8.decodeLossy ((buf.drop start).take length)]
          pos := start + length
          ending := if walk.jumped then walk.ending else start + length
          jumped := walk.jumped
          hops := walk.hops }

def Walk.loop (buf : Bytes) : Nat → Walk → Option (Except String Decoded)
  | 0, _ => none
  | turns + 1, walk =>
    match walk.turn buf with
    | .goOn next => next.loop buf turns
    | .stop outcome => some outcome

def Walk.start (pos : Nat) : Walk :=
  { labels := []
    pos := pos
    ending := pos
    jumped := false
    hops := 0 }

/-! ## The loop ends -/

/-- A pointer spends a hop, a label a byte of the buffer. -/
def Walk.measure (buf : Bytes) (walk : Walk) : Nat :=
  (17 - walk.hops) * (buf.length + 1) + (buf.length - walk.pos)

theorem Walk.turn_measure {buf : Bytes} {walk next : Walk} (isTurn : walk.turn buf = .goOn next) :
    next.measure buf < walk.measure buf := by
  unfold Walk.turn at isTurn
  cases isByte : buf[walk.pos]? with
  | none =>
    rw [isByte] at isTurn
    exact nomatch isTurn
  | some first =>
    have inside : walk.pos < buf.length := (List.getElem?_eq_some_iff.mp isByte).1
    rw [isByte] at isTurn
    dsimp only at isTurn
    split at isTurn
    · exact nomatch isTurn
    split at isTurn
    · split at isTurn
      · exact nomatch isTurn
      · split at isTurn
        · exact nomatch isTurn
        · rename_i fewHops
          obtain rfl := Turn.goOn.inj isTurn
          unfold Walk.measure
          dsimp only
          have isLess : 17 - walk.hops = (17 - (walk.hops + 1)) + 1 := by omega
          rw [isLess, Nat.add_mul, Nat.one_mul]
          omega
    · split at isTurn
      · exact nomatch isTurn
      · obtain rfl := Turn.goOn.inj isTurn
        unfold Walk.measure
        dsimp only
        omega

theorem Walk.loop_of_measure_lt {buf : Bytes} {turns : Nat} {walk : Walk}
    (isEnough : walk.measure buf < turns) : (walk.loop buf turns).isSome := by
  induction turns generalizing walk with
  | zero => exact absurd isEnough (Nat.not_lt_zero _)
  | succ turns ih =>
    unfold Walk.loop
    cases isTurn : walk.turn buf with
    | stop outcome => rfl
    | goOn next =>
      have less := Walk.turn_measure isTurn
      exact ih (by omega)

/-- The most turns a walk through the buffer takes. -/
def turnBound (buf : Bytes) : Nat := 18 * (buf.length + 1)

theorem Walk.start_measure_lt (buf : Bytes) (pos : Nat) :
    (Walk.start pos).measure buf < turnBound buf := by
  unfold Walk.measure Walk.start turnBound
  dsimp only
  omega

def decodeName (buf : Bytes) (start : Nat) : Except String Decoded :=
  ((Walk.start start).loop buf (turnBound buf)).get
    (Walk.loop_of_measure_lt (Walk.start_measure_lt buf start))

/-! ## Where a name ends -/

theorem Walk.loop_inside {buf : Bytes} {start turns : Nat} {walk : Walk} {decoded : Decoded}
    (isLoop : walk.loop buf turns = some (.ok decoded))
    (inside : walk.jumped = true → start < walk.ending ∧ walk.ending ≤ buf.length)
    (isPast : walk.jumped = false → start ≤ walk.pos) :
    start < decoded.offset ∧ decoded.offset ≤ buf.length := by
  induction turns generalizing walk with
  | zero => exact (Option.some_ne_none _ isLoop.symm).elim
  | succ turns ih =>
    unfold Walk.loop Walk.turn at isLoop
    cases isByte : buf[walk.pos]? with
    | none =>
      rw [isByte] at isLoop
      exact nomatch isLoop
    | some first =>
      have isBelow : walk.pos < buf.length := (List.getElem?_eq_some_iff.mp isByte).1
      rw [isByte] at isLoop
      dsimp only at isLoop
      by_cases isRoot : first.toNat = 0
      · rw [if_pos isRoot] at isLoop
        obtain rfl := Except.ok.inj (Option.some.inj isLoop)
        dsimp only
        cases hasJumped : walk.jumped with
        | true => exact inside hasJumped
        | false => exact ⟨Nat.lt_succ_of_le (isPast hasJumped), isBelow⟩
      rw [if_neg isRoot] at isLoop
      by_cases isPointer : first.toNat &&& 0xC0 = 0xC0
      · rw [if_pos isPointer] at isLoop
        cases isSecond : buf[walk.pos + 1]? with
        | none =>
          rw [isSecond] at isLoop
          exact nomatch isLoop
        | some second =>
          have isSecondBelow : walk.pos + 1 < buf.length :=
            (List.getElem?_eq_some_iff.mp isSecond).1
          rw [isSecond] at isLoop
          dsimp only at isLoop
          by_cases tooMany : 16 < walk.hops + 1
          · rw [if_pos tooMany] at isLoop
            exact nomatch isLoop
          · rw [if_neg tooMany] at isLoop
            refine ih isLoop (fun _ => ?_) (nomatch ·)
            dsimp only
            cases hasJumped : walk.jumped with
            | true => exact inside hasJumped
            | false =>
              have isStart := isPast hasJumped
              simp only [Bool.false_eq_true, if_false]
              omega
      · rw [if_neg isPointer] at isLoop
        by_cases isShort : buf.length < walk.pos + 1 + first.toNat
        · rw [if_pos isShort] at isLoop
          exact nomatch isLoop
        · rw [if_neg isShort] at isLoop
          refine ih isLoop (fun hasJumped => ?_) fun hasJumped => ?_
          · dsimp only at hasJumped ⊢
            rw [if_pos hasJumped]
            exact inside hasJumped
          · have isStart := isPast hasJumped
            dsimp only
            omega

end Murage.Mdns
