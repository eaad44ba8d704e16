import Mathlib
import Murage.Mdns.Names

/-!
Owns that a name written in a packet is decoded to its labels, compressed or not, and that
decoding ends inside the buffer on everything else.
-/

namespace Murage.Mdns

open Murage.Library
open Murage.Library.Utf8 (Bytes)

/-! ## Written names -/

/-- A label of one to sixty-three bytes, without dots. -/
structure IsLabel (label : Text) : Prop where
  nonempty : label ≠ []
  undotted : '.' ∉ label
  short : (Utf8.encode label).length ≤ 63

/-- The labels stand in the buffer from a position on, over so many pointers, and the name as
written there ends before `ending`. -/
inductive Written (buf : Bytes) : Nat → List Text → Nat → Nat → Prop
  | root {pos : Nat} (isRoot : buf[pos]? = some 0) : Written buf pos [] 0 (pos + 1)
  | label {pos hops ending : Nat} {label : Text} {rest : List Text}
      (isLength : buf[pos]? = some (UInt8.ofNat (Utf8.encode label).length))
      (isLabel : (buf.drop (pos + 1)).take (Utf8.encode label).length = Utf8.encode label)
      (isRest : Written buf (pos + 1 + (Utf8.encode label).length) rest hops ending) :
      Written buf pos (label :: rest) hops ending
  | pointer {pos target hops ending : Nat} {labels : List Text} (isTarget : target < 2 ^ 14)
      (isFirst : buf[pos]? = some (UInt8.ofNat (0xC0 + target / 2 ^ 8)))
      (isSecond : buf[pos + 1]? = some (UInt8.ofNat (target % 2 ^ 8)))
      (isTargetWritten : Written buf target labels hops ending) :
      Written buf pos labels (hops + 1) (pos + 2)

theorem IsLabel.encode_pos {label : Text} (isLabel : IsLabel label) :
    0 < (Utf8.encode label).length := by
  rw [List.length_pos_iff]
  intro isEmpty
  exact isLabel.nonempty (Utf8.encode_injective (isEmpty.trans Utf8.encode_nil.symm))

variable {labels : List Text}

theorem written_of_encodeLabels {bytes : Bytes} (isEncoded : encodeLabels labels = .ok bytes)
    (front back : Bytes) :
    Written (front ++ (bytes ++ back)) front.length labels 0 (front.length + bytes.length) := by
  induction labels generalizing front bytes with
  | nil =>
    obtain rfl := Except.ok.inj isEncoded
    exact Written.root (by simp)
  | cons label rest ih =>
    unfold encodeLabels at isEncoded
    dsimp only at isEncoded
    split at isEncoded
    · exact nomatch isEncoded
    · cases isLater : encodeLabels rest with
      | error message =>
        rw [isLater] at isEncoded
        exact nomatch isEncoded
      | ok later =>
        rw [isLater] at isEncoded
        obtain rfl := Except.ok.inj isEncoded
        have isRest := ih isLater
          (front ++ (UInt8.ofNat (Utf8.encode label).length :: Utf8.encode label))
        have sameBuffer : front ++ (UInt8.ofNat (Utf8.encode label).length :: Utf8.encode label)
            ++ (later ++ back) =
            front ++ (UInt8.ofNat (Utf8.encode label).length :: (Utf8.encode label ++ later) ++ back) := by
          simp
        have samePos : (front ++ (UInt8.ofNat (Utf8.encode label).length :: Utf8.encode label)).length =
            front.length + 1 + (Utf8.encode label).length := by
          rw [List.length_append, List.length_cons]
          omega
        have sameEnd : front.length + 1 + (Utf8.encode label).length + later.length =
            front.length +
              (UInt8.ofNat (Utf8.encode label).length :: (Utf8.encode label ++ later)).length := by
          rw [List.length_cons, List.length_append]
          omega
        rw [sameBuffer, samePos, sameEnd] at isRest
        refine Written.label (by simp) ?_ isRest
        have isDropped : (front ++ (UInt8.ofNat (Utf8.encode label).length ::
            (Utf8.encode label ++ later) ++ back)).drop (front.length + 1) =
            Utf8.encode label ++ (later ++ back) := by
          rw [List.drop_append, List.drop_eq_nil_of_le (by omega)]
          simp
        rw [isDropped, List.take_left]

theorem encodeLabels_isOk (good : ∀ label ∈ labels, IsLabel label) :
    ∃ bytes, encodeLabels labels = .ok bytes := by
  induction labels with
  | nil => exact ⟨_, rfl⟩
  | cons label rest ih =>
    obtain ⟨later, isLater⟩ := ih fun other isOther =>
      good other (List.mem_cons_of_mem _ isOther)
    have isShort := (good label List.mem_cons_self).short
    unfold encodeLabels
    dsimp only
    rw [if_neg (by omega), isLater]
    exact ⟨_, rfl⟩

/-! ## One turn -/

theorem Walk.turn_root {buf : Bytes} {walk : Walk} (isRoot : buf[walk.pos]? = some 0) :
    walk.turn buf = .stop (.ok
      { name := ['.'].intercalate walk.labels
        offset := if walk.jumped then walk.ending else walk.pos + 1 }) := by
  unfold Walk.turn
  rw [isRoot]
  rfl

theorem Walk.turn_label {buf : Bytes} {walk : Walk} {label : Text} (good : IsLabel label)
    (isLength : buf[walk.pos]? = some (UInt8.ofNat (Utf8.encode label).length))
    (isLabel : (buf.drop (walk.pos + 1)).take (Utf8.encode label).length = Utf8.encode label) :
    walk.turn buf = .goOn
      { labels := walk.labels ++ [label]
        pos := walk.pos + 1 + (Utf8.encode label).length
        ending := if walk.jumped then walk.ending else walk.pos + 1 + (Utf8.encode label).length
        jumped := walk.jumped
        hops := walk.hops } := by
  have isShort := good.short
  have isPositive := good.encode_pos
  have isSize : (UInt8.ofNat (Utf8.encode label).length).toNat = (Utf8.encode label).length := by
    rw [UInt8.toNat_ofNat']
    omega
  have notPointer : (Utf8.encode label).length &&& 0xC0 ≠ 0xC0 := by
    have isBelow := Nat.and_le_left (n := (Utf8.encode label).length) (m := 0xC0)
    omega
  have isInside : ¬buf.length < walk.pos + 1 + (Utf8.encode label).length := by
    have sameLength := congrArg List.length isLabel
    rw [List.length_take, List.length_drop] at sameLength
    omega
  unfold Walk.turn
  rw [isLength]
  dsimp only
  rw [isSize, if_neg (by omega), if_neg notPointer, if_neg isInside, isLabel, Utf8.decodeLossy_encode]

theorem pointer_bits : ∀ high < 64, (0xC0 + high) &&& 0xC0 = 0xC0 ∧ (0xC0 + high) &&& 0x3F = high := by
  decide

theorem Walk.turn_pointer {buf : Bytes} {walk : Walk} {target : Nat} (isTarget : target < 2 ^ 14)
    (isFirst : buf[walk.pos]? = some (UInt8.ofNat (0xC0 + target / 2 ^ 8)))
    (isSecond : buf[walk.pos + 1]? = some (UInt8.ofNat (target % 2 ^ 8))) (fewHops : walk.hops < 16) :
    walk.turn buf = .goOn
      { labels := walk.labels
        pos := target
        ending := if walk.jumped then walk.ending else walk.pos + 2
        jumped := true
        hops := walk.hops + 1 } := by
  have isHigh : (UInt8.ofNat (0xC0 + target / 2 ^ 8)).toNat = 0xC0 + target / 2 ^ 8 := by
    rw [UInt8.toNat_ofNat']
    omega
  have isLow : (UInt8.ofNat (target % 2 ^ 8)).toNat = target % 2 ^ 8 := by
    rw [UInt8.toNat_ofNat']
    omega
  obtain ⟨isPointer, isRest⟩ := pointer_bits (target / 2 ^ 8) (by omega)
  have isPos : (target / 2 ^ 8) <<< 8 ||| target % 2 ^ 8 = target := by
    have isByte : target % 2 ^ 8 < 2 ^ 8 := Nat.mod_lt _ (by decide)
    rw [← Nat.shiftLeft_add_eq_or_of_lt isByte, Nat.shiftLeft_eq]
    omega
  unfold Walk.turn
  rw [isFirst, isSecond]
  dsimp only
  rw [isHigh, if_neg (by omega), if_pos isPointer, if_neg (by omega), isLow, isRest, isPos]

/-! ## The round trip -/

theorem Written.loop {buf : Bytes} {pos hops ending : Nat}
    (written : Written buf pos labels hops ending) (good : ∀ label ∈ labels, IsLabel label) :
    ∀ (walk : Walk) (turns : Nat), walk.pos = pos → walk.hops + hops ≤ 16 → walk.measure buf < turns →
      walk.loop buf turns = some (.ok
        { name := ['.'].intercalate (walk.labels ++ labels)
          offset := if walk.jumped then walk.ending else ending }) := by
  induction written with
  | root isRoot =>
    rintro walk turns rfl - isEnough
    obtain ⟨fewer, rfl⟩ : ∃ fewer, turns = fewer + 1 := ⟨turns - 1, by omega⟩
    unfold Walk.loop
    rw [Walk.turn_root isRoot, List.append_nil]
  | @label _ hops ending label rest isLength isLabel _ ih =>
    rintro walk turns rfl fewHops isEnough
    obtain ⟨fewer, rfl⟩ : ∃ fewer, turns = fewer + 1 := ⟨turns - 1, by omega⟩
    have isTurn := Walk.turn_label (good label List.mem_cons_self) isLength isLabel
    have isLess := Walk.turn_measure isTurn
    unfold Walk.loop
    rw [isTurn]
    dsimp only
    refine (ih (fun later isLater => good later (List.mem_cons_of_mem _ isLater)) _ fewer
      ?_ ?_ (by omega)).trans ?_
    · rfl
    · exact fewHops
    cases hasJumped : walk.jumped with
    | true => simp
    | false => simp
  | @pointer _ target hops ending labels isTarget isFirst isSecond _ ih =>
    rintro walk turns rfl fewHops isEnough
    obtain ⟨fewer, rfl⟩ : ∃ fewer, turns = fewer + 1 := ⟨turns - 1, by omega⟩
    have isTurn := Walk.turn_pointer isTarget isFirst isSecond (by omega)
    have isLess := Walk.turn_measure isTurn
    unfold Walk.loop
    rw [isTurn]
    dsimp only
    refine (ih good _ fewer ?_ (by dsimp only; omega) (by omega)).trans ?_
    · rfl
    · rfl

theorem labelsOf_intercalate (good : ∀ label ∈ labels, IsLabel label) :
    labelsOf (['.'].intercalate labels) = labels := by
  unfold labelsOf
  by_cases isEmpty : labels = []
  · subst isEmpty
    rfl
  · rw [List.splitOn_intercalate '.' (fun label isLabel => (good label isLabel).undotted) isEmpty,
      List.filter_eq_self]
    exact fun label isLabel => decide_eq_true (good label isLabel).nonempty

theorem decodeName_eq {buf : Bytes} {start : Nat} {outcome : Except String Decoded} :
    decodeName buf start = outcome ↔ (Walk.start start).loop buf (turnBound buf) = some outcome := by
  unfold decodeName
  exact ⟨fun isOutcome => Option.eq_some_of_isSome _ |>.trans (congrArg some isOutcome),
    fun isOutcome => Option.get_of_eq_some _ isOutcome⟩

/-- **Names round-trip.** Labels of one to sixty-three bytes without dots that stand written in a
packet, over sixteen pointers at most, are decoded to exactly these labels and to the end of
the name as written; what `encodeName` makes of them stands so written wherever it is put. -/
theorem decodeName_written (buf : Bytes) (pos hops ending : Nat) (labels : List Text)
    (isWritten : Written buf pos labels hops ending) (fewHops : hops ≤ 16)
    (good : ∀ label ∈ labels, IsLabel label) :
    decodeName buf pos = .ok
        { name := ['.'].intercalate labels
          offset := ending } ∧
      labelsOf (['.'].intercalate labels) = labels := by
  refine ⟨decodeName_eq.mpr ?_, labelsOf_intercalate good⟩
  have isFirst : (Walk.start pos).hops + hops ≤ 16 := by
    show 0 + hops ≤ 16
    omega
  exact isWritten.loop good (Walk.start pos) (turnBound buf) rfl isFirst (Walk.start_measure_lt buf pos)

/-- **Decoding stops.** Whatever the bytes are, the loop comes to an outcome in a number of turns
that the length of the buffer bounds, and a name it answers ends inside the buffer, past its
start. -/
theorem decodeName_stops (buf : Bytes) (start : Nat) :
    (Walk.start start).loop buf (turnBound buf) = some (decodeName buf start) ∧
      ∀ decoded, decodeName buf start = .ok decoded →
        start < decoded.offset ∧ decoded.offset ≤ buf.length := by
  have isLoop := decodeName_eq.mp (rfl : decodeName buf start = decodeName buf start)
  refine ⟨isLoop, fun decoded isDecoded => ?_⟩
  rw [isDecoded] at isLoop
  exact Walk.loop_inside isLoop (nomatch ·) fun _ => Nat.le_refl _

/-- **DNS names round-trip and decoding terminates.** What `encodeName` makes of labels of one to
sixty-three bytes without dots stands written wherever it is put; labels that stand written,
suffixes replaced by sixteen pointers at most, are decoded to exactly themselves and to the end
of the name as written; and any buffer and offset at all come to an outcome in a bounded number
of turns, a name that is answered ending inside the buffer. -/
theorem names_roundTrip (buf : Bytes) (pos hops ending : Nat) (labels : List Text)
    (good : ∀ label ∈ labels, IsLabel label) :
    (∃ bytes, encodeName (['.'].intercalate labels) = .ok bytes ∧ ∀ front back,
        Written (front ++ (bytes ++ back)) front.length labels 0 (front.length + bytes.length)) ∧
      (Written buf pos labels hops ending → hops ≤ 16 →
        decodeName buf pos = .ok
            { name := ['.'].intercalate labels
              offset := ending } ∧
          labelsOf (['.'].intercalate labels) = labels) ∧
      (Walk.start pos).loop buf (turnBound buf) = some (decodeName buf pos) ∧
      ∀ decoded, decodeName buf pos = .ok decoded → pos < decoded.offset ∧ decoded.offset ≤ buf.length := by
  obtain ⟨isLoop, isInside⟩ := decodeName_stops buf pos
  refine ⟨?_, fun isWritten fewHops => decodeName_written buf pos hops ending labels isWritten fewHops good,
    isLoop, isInside⟩
  obtain ⟨bytes, isEncoded⟩ := encodeLabels_isOk good
  refine ⟨bytes, ?_, written_of_encodeLabels isEncoded⟩
  unfold encodeName
  rw [labelsOf_intercalate good, isEncoded]

/-- A second name in a packet, whose suffix is a pointer to the first. -/
theorem names_roundTrip_example :
    decodeName [1, 97, 0, 1, 98, 0xC0, 0] 3 = .ok
      { name := ['b', '.', 'a']
        offset := 7 } := by
  have good : ∀ label ∈ [['b'], ['a']], IsLabel label := by
    intro label isLabel
    rcases List.mem_cons.mp isLabel with rfl | isLabel
    · exact ⟨by decide, by decide, by decide⟩
    · obtain rfl := List.mem_singleton.mp isLabel
      exact ⟨by decide, by decide, by decide⟩
  have isFirst : Written [1, 97, 0, 1, 98, 0xC0, 0] 0 [['a']] 0 3 :=
    Written.label (by decide) (by decide) (Written.root (by decide))
  have isPointed : Written [1, 97, 0, 1, 98, 0xC0, 0] 5 [['a']] 1 7 :=
    Written.pointer (by decide) (by decide) (by decide) isFirst
  have isSecond : Written [1, 97, 0, 1, 98, 0xC0, 0] 3 [['b'], ['a']] 1 7 :=
    Written.label (by decide) (by decide) isPointed
  exact ((names_roundTrip _ 3 1 7 _ good).2.1 isSecond (by decide)).1

end Murage.Mdns
