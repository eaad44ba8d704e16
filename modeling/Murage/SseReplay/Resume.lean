import Mathlib
import Murage.SseReplay.Model

/-!
Owns what a resumed stream is given: of all frames that were ever appended, those after the
client's cursor that it may see, none missing; and what the buffer counts.

Does not own: when a resume is refused although the frames are there.
-/

namespace Murage.SseReplay

variable {Subject : Type}

/-- A call of `append`. -/
abbrev Call (Subject : Type) := Meta Subject × Frame

def Call.entry (limits : Limits) (call : Call Subject) : SseReplayEntry Subject :=
  entryOf limits call.1 call.2

/-- The buffer after the calls. One that throws leaves what it did until then. -/
def replayOf (limits : Limits) (calls : List (Call Subject)) : SseReplay Subject :=
  calls.foldl (fun replay call => (replay.append limits call.1 call.2).1) {}

def Consecutive (calls : List (Call Subject)) : Prop :=
  calls.IsChain fun call next => next.1.seq = call.1.seq + 1

/-- The frames a client that resumes from `since` has to be given. -/
def missed (limits : Limits) (since lastSeq : Int) (accepts : SseReplayEntry Subject → Bool)
    (calls : List (Call Subject)) : List Frame :=
  (calls.filter fun call =>
    since < call.1.seq ∧ call.1.seq ≤ lastSeq ∧ call.1.kind ≠ "screen" ∧
      accepts (call.entry limits) = true).map Prod.snd

/-! ## What the buffer holds -/

def counted (entries : List (SseReplayEntry Subject)) : Int :=
  (entries.map fun entry => (entry.bytes : Int)).sum

/-- The buffer holds the newest entries and their bytes. -/
structure Holds (limits : Limits) (calls : List (Call Subject)) (replay : SseReplay Subject) :
    Prop where
  kept : ∃ gone held, calls = gone ++ held ∧ replay.entries = held.map (Call.entry limits)
  bytes : replay.bytes = counted replay.entries

theorem evict_keeps (limits : Limits) {entries : List (SseReplayEntry Subject)} {bytes : Int}
    (isCounted : bytes = counted entries) :
    (∃ gone, entries = gone ++ (evict limits entries bytes).1.entries) ∧
      (evict limits entries bytes).1.bytes = counted (evict limits entries bytes).1.entries := by
  induction entries generalizing bytes with
  | nil => exact ⟨⟨[], rfl⟩, isCounted⟩
  | cons entry rest ih =>
    rw [evict]
    split
    · have isRest : bytes - entry.bytes = counted rest := by
        rw [isCounted, counted, List.map_cons, List.sum_cons, counted]
        omega
      obtain ⟨⟨gone, isSplit⟩, isBytes⟩ := ih isRest
      exact ⟨⟨entry :: gone, congrArg (entry :: ·) isSplit⟩, isBytes⟩
    · exact ⟨⟨[], rfl⟩, isCounted⟩

theorem append_holds {limits : Limits} {calls : List (Call Subject)} {replay : SseReplay Subject}
    (holds : Holds limits calls replay) (call : Call Subject) :
    Holds limits (calls ++ [call]) (replay.append limits call.1 call.2).1 := by
  obtain ⟨gone, held, rfl, areHeld⟩ := holds.kept
  have isCounted : replay.bytes + (call.entry limits).bytes
      = counted (replay.entries ++ [call.entry limits]) := by
    rw [holds.bytes, counted, counted, List.map_append, List.sum_append, List.map_singleton,
      List.sum_singleton]
  obtain ⟨⟨evicted, isSplit⟩, isBytes⟩ := evict_keeps limits isCounted
  refine ⟨?_, isBytes⟩
  have isAll : (held ++ [call]).map (Call.entry limits) = replay.entries ++ [call.entry limits] := by
    rw [List.map_append, areHeld, List.map_singleton]
  obtain ⟨first, second, isCalls, areGone, areLeft⟩ :=
    List.map_eq_append_iff.1 (isAll.trans isSplit)
  exact ⟨gone ++ first, second, by rw [List.append_assoc, isCalls, List.append_assoc], areLeft.symm⟩

/-- **Every run of appends keeps the newest entries and counts them.** -/
theorem replayOf_holds (limits : Limits) (calls : List (Call Subject)) :
    Holds limits calls (replayOf limits calls) := by
  induction calls using List.reverseRecOn with
  | nil => exact ⟨⟨[], [], rfl, rfl⟩, rfl⟩
  | append_singleton calls call ih =>
    rw [replayOf, List.foldl_append]
    exact append_holds ih call

/-! ## Numbers in order -/

theorem Consecutive.first_le {calls : List (Call Subject)} {first : Call Subject}
    (isConsecutive : Consecutive (first :: calls)) :
    ∀ call ∈ first :: calls, first.1.seq ≤ call.1.seq := by
  induction calls generalizing first with
  | nil =>
    intro call isCall
    cases List.mem_singleton.1 isCall
    exact Int.le_refl _
  | cons next rest ih =>
    intro call isCall
    rcases List.mem_cons.1 isCall with rfl | isLater
    · exact Int.le_refl _
    · have isNext := (List.isChain_cons_cons.1 isConsecutive).1
      have isAfter := ih (List.isChain_cons_cons.1 isConsecutive).2 call isLater
      omega

theorem Consecutive.lt_of_before {gone held : List (Call Subject)} {oldest : Call Subject}
    (isConsecutive : Consecutive (gone ++ oldest :: held)) :
    ∀ call ∈ gone, call.1.seq < oldest.1.seq := by
  induction gone with
  | nil => exact fun _ isCall => nomatch isCall
  | cons first rest ih =>
    intro call isCall
    rcases List.mem_cons.1 isCall with rfl | isLater
    · cases rest with
      | nil =>
        have isNext := (List.isChain_cons_cons.1 isConsecutive).1
        omega
      | cons next others =>
        have isNext := (List.isChain_cons_cons.1 isConsecutive).1
        have isAfter := Consecutive.first_le (List.isChain_cons_cons.1 isConsecutive).2 oldest
          (List.mem_append_right (next :: others) List.mem_cons_self)
        omega
    · exact ih (List.isChain_of_isChain_cons isConsecutive) call isLater

theorem Consecutive.le_last {calls : List (Call Subject)} (isConsecutive : Consecutive calls)
    {last : Call Subject} (isLast : calls.getLast? = some last) :
    ∀ call ∈ calls, call.1.seq ≤ last.1.seq := by
  obtain ⟨before, rfl⟩ := List.getLast?_eq_some_iff.1 isLast
  intro call isCall
  rcases List.mem_append.1 isCall with isBefore | isEnd
  · exact Int.le_of_lt (isConsecutive.lt_of_before call isBefore)
  · cases List.mem_singleton.1 isEnd
    exact Int.le_refl _

/-! ## What is collected -/

theorem entry_frame {limits : Limits} {call : Call Subject}
    (notGap : (call.entry limits).gap = false) :
    (call.entry limits).frame = (if call.1.kind = "screen" then none else some call.2) ∧
      (call.1.kind ≠ "screen" → (call.entry limits).bytes = byteLength call.2) := by
  by_cases isScreen : call.1.kind = "screen"
  · simp [Call.entry, entryOf, isScreen]
  · have isPlain : (call.1.kind == "screen") = false := beq_eq_false_iff_ne.2 isScreen
    simp only [Call.entry, entryOf, isPlain, Bool.not_false, Bool.true_and] at notGap
    simp only [Call.entry, entryOf, isPlain, Bool.not_false, Bool.true_and, Bool.false_or, notGap,
      if_neg isScreen]
    exact ⟨rfl, fun _ => rfl⟩

/-- Whether a client that resumes from `since` is given the frame of a held call. -/
def isGiven (limits : Limits) (since : Int) (accepts : SseReplayEntry Subject → Bool)
    (call : Call Subject) : Bool :=
  since < call.1.seq ∧ call.1.kind ≠ "screen" ∧ accepts (call.entry limits) = true ∧ call.2 ≠ []

theorem collect_exact {limits : Limits} {since : Int} {accepts : SseReplayEntry Subject → Bool}
    {budget : Budget} {held : List (Call Subject)} {bytes : Int} {frames out : List Frame}
    (isCollected :
      collect since accepts budget (held.map (Call.entry limits)) bytes frames = some out) :
    ∃ found, out = frames ++ found ∧
      found = (held.filter (isGiven limits since accepts)).map Prod.snd ∧
      (found = [] ∨ bytes + (found.map fun frame =>
        ((byteLength frame + WRITE_OVERHEAD_BYTES : Nat) : Int)).sum ≤ budget.maxBytes ∧
          (out.length : Int) ≤ budget.maxFrames) := by
  induction held generalizing bytes frames with
  | nil =>
    cases isCollected
    exact ⟨[], (List.append_nil _).symm, rfl, Or.inl rfl⟩
  | cons call rest ih =>
    rw [List.map_cons, collect] at isCollected
    split at isCollected
    · rename_i isPassed
      have notGiven : isGiven limits since accepts call = false := by
        refine decide_eq_false fun isGiven => ?_
        rcases isPassed with isOld | isRefused
        · exact absurd isGiven.1 (Int.not_lt.2 isOld)
        · exact absurd isGiven.2.2.1 (by rw [isRefused]; exact nofun)
      rw [List.filter_cons_of_neg (by rw [notGiven]; exact nofun)]
      exact ih isCollected
    rename_i isWanted
    split at isCollected
    · cases isCollected
    rename_i notGap
    obtain ⟨isFrame, isSize⟩ := entry_frame (Bool.eq_false_iff.2 notGap)
    by_cases isScreen : call.1.kind = "screen"
    · rw [isFrame, if_pos isScreen] at isCollected
      have notGiven : isGiven limits since accepts call = false :=
        decide_eq_false fun isGiven => isGiven.2.1 isScreen
      rw [List.filter_cons_of_neg (by rw [notGiven]; exact nofun)]
      exact ih isCollected
    rw [isFrame, if_neg isScreen, isSize isScreen] at isCollected
    cases isText : call.2 with
    | nil =>
      rw [isText] at isCollected
      have notGiven : isGiven limits since accepts call = false :=
        decide_eq_false fun isGiven => isGiven.2.2.2 isText
      rw [List.filter_cons_of_neg (by rw [notGiven]; exact nofun)]
      exact ih isCollected
    | cons c others =>
      rw [isText] at isCollected
      dsimp only at isCollected
      have isHere : isGiven limits since accepts call = true := by
        refine decide_eq_true ⟨?_, isScreen, ?_, by rw [isText]; exact nofun⟩
        · exact Int.not_le.1 fun isOld => isWanted (Or.inl isOld)
        · exact Bool.of_not_eq_false fun isRefused => isWanted (Or.inr isRefused)
      split at isCollected
      · cases isCollected
      rename_i isWithin
      obtain ⟨found, isOut, areFound, isBudget⟩ := ih isCollected
      refine ⟨(c :: others) :: found, ?_, ?_, Or.inr ?_⟩
      · rw [isOut, List.append_assoc, List.singleton_append]
      · rw [List.filter_cons_of_pos isHere, List.map_cons, areFound, isText]
      · rw [List.map_cons, List.sum_cons]
        rcases isBudget with rfl | ⟨isBytes, isCount⟩
        · rw [isOut, List.append_nil, List.length_append, List.length_singleton]
          simp only [List.map_nil, List.sum_nil]
          push_cast
          omega
        · push_cast at isBytes ⊢
          omega

theorem filter_held {limits : Limits} {gone held : List (Call Subject)} {since lastSeq : Int}
    {accepts : SseReplayEntry Subject → Bool} (isConsecutive : Consecutive (gone ++ held))
    (isLast : ∀ last ∈ (gone ++ held).getLast?, last.1.seq = lastSeq)
    (reaches : ∀ call ∈ gone, call.1.seq ≤ since) :
    (held.filter (isGiven limits since accepts)).map Prod.snd
      = (missed limits since lastSeq accepts (gone ++ held)).filter (· ≠ []) := by
  have isWithin : ∀ call ∈ gone ++ held, call.1.seq ≤ lastSeq := by
    cases isEnd : (gone ++ held).getLast? with
    | none =>
      rw [List.getLast?_eq_none_iff.1 isEnd]
      exact fun _ isCall => nomatch isCall
    | some last =>
      rw [← isLast last isEnd]
      exact isConsecutive.le_last isEnd
  rw [missed, List.filter_map, List.filter_filter, List.filter_append, List.map_append]
  have nothing : gone.filter (fun call : Call Subject =>
      ((fun frame : Frame => decide (frame ≠ [])) ∘ Prod.snd) call &&
        decide (since < call.1.seq ∧ call.1.seq ≤ lastSeq ∧ call.1.kind ≠ "screen" ∧
        accepts (call.entry limits) = true)) = [] := by
    refine List.filter_eq_nil_iff.2 fun call isCall isWanted => ?_
    have isOld := reaches call isCall
    simp only [Bool.and_eq_true, decide_eq_true_eq] at isWanted
    omega
  rw [nothing, List.map_nil, List.nil_append]
  refine congrArg (List.map Prod.snd) (List.filter_congr fun call isCall => ?_)
  have isLow := isWithin call (List.mem_append_right _ isCall)
  rw [isGiven, Bool.eq_iff_iff]
  simp only [Bool.and_eq_true, decide_eq_true_eq, Function.comp_apply]
  tauto

/-- **A resumed stream has no silent gap.** After any appends the buffer counts the bytes it holds,
and a resume gives exactly the missed frames that are not empty, in order and within the budget. -/
theorem prepare_exact (limits : Limits) {calls : List (Call Subject)}
    (isConsecutive : Consecutive calls) {lastSeq : Int}
    (isLast : ∀ last ∈ calls.getLast?, last.1.seq = lastSeq) :
    (replayOf limits calls).bytes = counted (replayOf limits calls).entries ∧
      ∀ (since : Option Int) (accepts : SseReplayEntry Subject → Bool) (budget : Budget)
        (frames : List Frame),
        (replayOf limits calls).prepare since lastSeq accepts budget = some frames →
          ∃ cursor, since = some cursor ∧
            frames = (missed limits cursor lastSeq accepts calls).filter (· ≠ []) ∧
            (frames = [] ∨ (frames.map fun frame =>
              ((byteLength frame + WRITE_OVERHEAD_BYTES : Nat) : Int)).sum ≤ budget.maxBytes ∧
                (frames.length : Int) ≤ budget.maxFrames) := by
  have holds := replayOf_holds limits calls
  refine ⟨holds.bytes, fun since accepts budget frames isResumed => ?_⟩
  obtain ⟨gone, held, rfl, areHeld⟩ := holds.kept
  cases since with
  | none => cases isResumed
  | some cursor => ?_
  rw [SseReplay.prepare] at isResumed
  split at isResumed
  · cases isResumed
  rename_i isReachable
  rw [areHeld] at isResumed
  obtain ⟨found, isOut, areFound, isBudget⟩ := collect_exact isResumed
  rw [List.nil_append] at isOut
  subst isOut
  refine ⟨cursor, rfl, ?_, by simpa using isBudget⟩
  rw [areFound]
  refine filter_held isConsecutive isLast fun call isCall => ?_
  have notOff := fun isOff => isReachable (Or.inr isOff)
  rw [SseReplay.fellOff, areHeld] at notOff
  cases held with
  | nil =>
    -- nothing is held: the client is where the stream is
    have isEnd : cursor = lastSeq := by simpa using notOff
    rw [List.append_nil] at isConsecutive isLast
    cases isFound : gone.getLast? with
    | none =>
      rw [List.getLast?_eq_none_iff.1 isFound] at isCall
      cases isCall
    | some last =>
      rw [isEnd, ← isLast last isFound]
      exact isConsecutive.le_last isFound call isCall
  | cons oldest others =>
    have isOldest : (oldest.entry limits).seq ≤ cursor + 1 := by simpa using notOff
    have isBefore := isConsecutive.lt_of_before call isCall
    have isSeq : (oldest.entry limits).seq = oldest.1.seq := rfl
    omega

def threeCalls : List (Call Unit) :=
  [(⟨1, "note", (), false⟩, [97]), (⟨2, "screen", (), false⟩, [98]), (⟨3, "note", (), false⟩, [99])]

theorem prepare_exact_example :
    (replayOf ⟨2, 2, 4⟩ threeCalls).bytes = 1 ∧
      (replayOf ⟨2, 2, 4⟩ threeCalls).prepare (some 1) 3 (fun _ => true) ⟨100, 4⟩ = some [[99]] ∧
      [[99]] = (missed ⟨2, 2, 4⟩ 1 3 (fun _ => true) threeCalls).filter (· ≠ []) := by
  have exact' := prepare_exact ⟨2, 2, 4⟩ (show Consecutive threeCalls by
    simp [Consecutive, threeCalls])
    (show ∀ last ∈ threeCalls.getLast?, last.1.seq = 3 by rintro last ⟨⟩; rfl)
  have isResumed : (replayOf ⟨2, 2, 4⟩ threeCalls).prepare (some 1) 3 (fun _ => true) ⟨100, 4⟩
      = some [[99]] := by rfl
  obtain ⟨cursor, isCursor, areFrames, _⟩ := exact'.2 _ _ _ _ isResumed
  cases isCursor
  exact ⟨exact'.1.trans rfl, isResumed, areFrames⟩

/-- An empty frame is appended and held, and a resume leaves it out. -/
theorem prepare_skips_empty :
    (replayOf ⟨9, 9, 9⟩ [((⟨1, "note", (), false⟩ : Meta Unit), [])]).prepare (some 0) 1
        (fun _ => true) ⟨100, 4⟩ = some [] ∧
      missed ⟨9, 9, 9⟩ 0 1 (fun _ => true) [((⟨1, "note", (), false⟩ : Meta Unit), [])] = [[]] := by
  decide

end Murage.SseReplay
