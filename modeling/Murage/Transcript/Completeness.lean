import Murage.Library.Transition
import Murage.Transcript.NextPage

/-!
Owns the agreement of the two readings of a numbered transcript over whole
sessions: nothing is left to ask exactly when it is complete. The invariant is
that every vouched row lies at or below the tail. A tail that was forgotten is
learned again from whatever vouched input comes next, so the invariant needs that
input to be no older than the vouched rows held.

Does not own: that paging reaches such a state.
-/

namespace Murage.Transcript

open Murage.Library.Transition

variable {Content : Type}

inductive TranscriptEvent (Content : Type) where
  | receive (input : TranscriptInput Content)
  | hydrate (sameRun : Bool)

def TranscriptEvent.apply (t : SeqTranscript Content) : TranscriptEvent Content →
    SeqTranscript Content
  | .receive input => applyTranscriptInput t input
  | .hydrate sameRun => hydrateTranscript t sameRun

/-- A numbered input's rows lie in `1..newestSeq`. -/
def TranscriptEvent.WithinNewest : TranscriptEvent Content → Prop
  | .receive input => inputShape input.rows input.newestSeq = .numbered →
      ∀ row ∈ input.rows, 1 ≤ row.number ∧ ∀ newest ∈ input.newestSeq, row.number ≤ newest
  | .hydrate _ => True

def TranscriptStep (t : SeqTranscript Content) (event : TranscriptEvent Content)
    (next : SeqTranscript Content) : Prop :=
  event.WithinNewest ∧ next = event.apply t

def unloadedTranscript : SeqTranscript Content := { messages := [], messagesUnloaded := true }

/-- A tail is learned again only from an input at least as new as every vouched
row held: the event is no vouched numbered page or frame, or the tail is known,
or its `newestSeq` reaches those rows. -/
def RelearnsTail (t : SeqTranscript Content) : TranscriptEvent Content → Prop
  | .receive input =>
    t.numbered = true → t.tail = none → inputShape input.rows input.newestSeq = .numbered →
      pageIsSound input = true → input.vouched = true →
      ∀ newest ∈ input.newestSeq, ∀ row ∈ t.messages, row.unvouched = false → row.number ≤ newest
  | .hydrate _ => True

/-- The invariant of a numbered transcript: numbered rows, and no vouched one
above the tail. -/
structure TailBounds (t : SeqTranscript Content) : Prop where
  wellNumbered : WellNumbered t.messages
  bounded : ∀ tail ∈ t.tail, ∀ row ∈ t.messages, row.unvouched = false → row.number ≤ tail

/-! ## What an input keeps -/

theorem WellNumbered.nil : WellNumbered ([] : List (Message Content)) :=
  ⟨Ordered.nil, by simp⟩

theorem WellNumbered.holdRows {held rows : List (Message Content)} {options : HoldOptions}
    (wellNumbered : WellNumbered held) (positive : ∀ row ∈ rows, 1 ≤ row.number) :
    WellNumbered (Transcript.holdRows held rows options) := by
  refine ⟨(holdRows_spec wellNumbered.ordered rows options).1, fun found isIn => ?_⟩
  rcases origin_of_mem_holdRows wellNumbered.ordered isIn with heldMember |
    ⟨row, rowMember, numbered, -, -⟩
  · exact wellNumbered.positive found heldMember
  · have := positive row rowMember
    rwa [Message.number_of_seq numbered] at this

theorem WellNumbered.unvouch {rows : List (Message Content)} (wellNumbered : WellNumbered rows) :
    WellNumbered (rows.map (·.copy true)) := by
  obtain ⟨⟨numbered, ascending, distinct⟩, positive⟩ := wellNumbered
  refine ⟨⟨fun row isIn => ?_, List.pairwise_map.mpr ascending, ?_⟩, fun row isIn => ?_⟩
  · obtain ⟨source, sourceMember, rfl⟩ := List.mem_map.mp isIn
    exact numbered source sourceMember
  · rwa [List.map_map]
  · obtain ⟨source, sourceMember, rfl⟩ := List.mem_map.mp isIn
    exact positive source sourceMember

variable {input : TranscriptInput Content}

theorem mem_admitted {t : SeqTranscript Content} {row : Message Content}
    (isIn : row ∈ admitted t input) : row ∈ input.rows := by
  unfold admitted at isIn
  split at isIn
  · split_ifs at isIn
    · exact isIn
    · exact List.mem_of_mem_filter isIn
  · exact isIn

/-- A tail after an input is the tail before it or, from an input that vouches,
at least its `newestSeq` and the tail before it. -/
theorem raise_bounds {before : Option Nat} {tail : Nat} (raised : raise input before = some tail) :
    (∀ old ∈ before, old ≤ tail) ∧
      (input.vouched = true → ∀ newest ∈ input.newestSeq, newest ≤ tail ∧
        (before = none → tail = newest)) ∧
      (input.vouched = false ∨ input.newestSeq = none → before = some tail) := by
  unfold raise at raised
  split at raised
  · rename_i newest vouches isNewest
    obtain rfl := Option.some.inj raised
    refine ⟨?_, fun _ other isOther => ?_, fun without => ?_⟩
    · rintro old rfl
      exact le_max_left _ _
    · have same : newest = other := Option.some.inj (isNewest.symm.trans isOther)
      refine ⟨same ▸ le_max_right _ _, ?_⟩
      rintro rfl
      simp [same]
    · rcases without with quiet | absent
      · exact absurd (vouches.symm.trans quiet) (by simp)
      · exact absurd (isNewest.symm.trans absent) (by simp)
  · rename_i other
    refine ⟨fun old isOld => ?_, fun vouches newest isNewest => ?_, fun _ => raised⟩
    · exact le_of_eq (Option.some.inj (isOld.symm.trans raised))
    · exact absurd isNewest (other newest vouches)

theorem numbered_newestSeq {rows : List (Message Content)} {newestSeq : Option Nat}
    (shape : inputShape rows newestSeq = .numbered) : ∃ newest, newestSeq = some newest := by
  cases newestSeq with
  | some newest => exact ⟨newest, rfl⟩
  | none =>
    unfold inputShape at shape
    dsimp only at shape
    split_ifs at shape

namespace TailBounds

variable {t : SeqTranscript Content} {input : TranscriptInput Content}

theorem askNewest (bounds : TailBounds t) : TailBounds (Transcript.askNewest t) := by
  unfold Transcript.askNewest
  split_ifs
  · exact ⟨bounds.wellNumbered, by simp⟩
  · exact bounds

theorem promote (within : (TranscriptEvent.receive input).WithinNewest)
    (shape : inputShape input.rows input.newestSeq = .numbered) :
    TailBounds (Transcript.promote t input) := by
  have rowBounds := within shape
  obtain ⟨newest, isNewest⟩ := numbered_newestSeq shape
  refine ⟨WellNumbered.nil.holdRows fun row isIn => (rowBounds row isIn).1, ?_⟩
  intro tail isTail found isIn vouched
  have raised : raise input none = some tail := isTail
  obtain ⟨-, fromNewest, unraised⟩ := raise_bounds raised
  have vouches : input.vouched = true := by
    by_contra quiet
    exact absurd (unraised (Or.inl (by simpa using quiet))) (by simp)
  rcases origin_of_mem_holdRows Ordered.nil isIn with heldMember |
    ⟨row, rowMember, numbered, -, -⟩
  · exact absurd heldMember (by simp)
  · have rowBound := (rowBounds row rowMember).2 newest isNewest
    rw [Message.number_of_seq numbered] at rowBound
    exact rowBound.trans (fromNewest vouches newest isNewest).1

/-- A numbered input on a numbered transcript. A row it leaves vouched is its
own, and then at most its `newestSeq`, or was vouched before: then it lies below
the old tail or, where that was unknown, below the input's `newestSeq`. -/
theorem holdInput (bounds : TailBounds t) (numbered : t.numbered = true)
    (within : (TranscriptEvent.receive input).WithinNewest)
    (relearns : RelearnsTail t (.receive input))
    (shape : inputShape input.rows input.newestSeq = .numbered) (sound : pageIsSound input = true) :
    TailBounds (Transcript.holdInput t input) := by
  have rowBounds := within shape
  obtain ⟨newest, isNewest⟩ := numbered_newestSeq shape
  refine ⟨bounds.wellNumbered.holdRows fun row isIn =>
    (rowBounds row (mem_admitted isIn)).1, ?_⟩
  intro tail isTail found isIn vouched
  have raised : raise input t.tail = some tail := isTail
  obtain ⟨above, fromNewest, unraised⟩ := raise_bounds raised
  have before : ∀ row ∈ t.messages, row.unvouched = false → row.number ≤ tail := by
    intro row rowMember rowVouched
    cases known : t.tail with
    | some old => exact (bounds.bounded old known row rowMember rowVouched).trans (above old known)
    | none =>
      have vouches : input.vouched = true := by
        by_contra quiet
        have isOld := unraised (Or.inl (by simpa using quiet))
        exact absurd (known.symm.trans isOld) (by simp)
      have learned := relearns numbered known shape sound vouches newest isNewest row rowMember
      exact (learned rowVouched).trans (fromNewest vouches newest isNewest).1
  rcases origin_of_mem_holdRows bounds.wellNumbered.ordered isIn with heldMember |
    ⟨row, rowMember, rowSeq, -, source⟩
  · exact before found heldMember vouched
  · rcases source vouched with vouches | ⟨holder, holderMember, same, holderVouched⟩
    · have rowBound := (rowBounds row (mem_admitted rowMember)).2 newest isNewest
      rw [Message.number_of_seq rowSeq] at rowBound
      exact rowBound.trans (fromNewest vouches newest isNewest).1
    · exact same ▸ before holder holderMember holderVouched

end TailBounds

/-! ## Sessions -/

def SessionInvariant (t : SeqTranscript Content) : Prop := t.numbered = true → TailBounds t

theorem legacyTranscriptInput_numbered (t : SeqTranscript Content)
    (input : TranscriptInput Content) :
    (legacyTranscriptInput t input).numbered = t.numbered := by
  have gapPage : ∀ anchor, (legacyGapPage t input anchor).numbered = t.numbered := by
    intro anchor
    unfold legacyGapPage
    dsimp only
    split_ifs <;> rfl
  unfold legacyTranscriptInput
  split
  · unfold legacyLive
    split_ifs <;> rfl
  · unfold legacyPatch
    split_ifs <;> rfl
  · unfold legacyOlder
    split
    · exact gapPage _
    · rfl
  all_goals
    unfold legacyPage
    split_ifs <;> rfl

theorem SessionInvariant.receive {t : SeqTranscript Content} (invariant : SessionInvariant t)
    (within : (TranscriptEvent.receive input).WithinNewest)
    (relearns : RelearnsTail t (.receive input)) :
    SessionInvariant (applyTranscriptInput t input) := by
  have asked : SessionInvariant (askNewest t) := by
    intro numbered
    refine (invariant ?_).askNewest
    unfold askNewest at numbered
    split_ifs at numbered <;> exact numbered
  have legacy : t.numbered ≠ true → SessionInvariant (legacyTranscriptInput t input) := by
    intro unnumbered numbered
    rw [legacyTranscriptInput_numbered] at numbered
    exact absurd numbered unnumbered
  unfold applyTranscriptInput
  cases shape : inputShape input.rows input.newestSeq with
  | mixed => exact asked
  | empty =>
    dsimp only
    split_ifs with numbered
    · exact invariant
    · exact legacy numbered
  | legacy =>
    dsimp only
    split_ifs with numbered
    · exact asked
    · exact legacy numbered
  | numbered =>
    dsimp only
    split_ifs with unsound unloaded unnumbered quiet
    · exact asked
    · exact invariant
    · exact invariant
    · exact fun _ => TailBounds.promote within shape
    · have numbered : t.numbered = true := by simpa using unnumbered
      exact fun _ => (invariant numbered).holdInput numbered within relearns shape
        (by simpa using unsound)

theorem SessionInvariant.hydrate {t : SeqTranscript Content} (invariant : SessionInvariant t)
    (sameRun : Bool) : SessionInvariant (hydrateTranscript t sameRun) := by
  unfold hydrateTranscript
  split_ifs
  · exact fun numbered => ⟨(invariant numbered).wellNumbered.unvouch, by simp⟩
  · exact fun _ => ⟨WellNumbered.nil, by simp⟩

theorem SessionInvariant.step {t next : SeqTranscript Content} {event : TranscriptEvent Content}
    (invariant : SessionInvariant t) (step : Restrict TranscriptStep RelearnsTail t event next) :
    SessionInvariant next := by
  obtain ⟨⟨within, rfl⟩, relearns⟩ := step
  cases event with
  | receive input => exact invariant.receive within relearns
  | hydrate sameRun => exact invariant.hydrate sameRun

/-- **Nothing left to ask is complete, and conversely**, in every state of every
session in which a forgotten tail is learned only from an input at least as new
as the vouched rows held. -/
theorem nextPage_none_iff_complete {events : List (TranscriptEvent Content)}
    {t : SeqTranscript Content}
    (session : Run (Restrict TranscriptStep RelearnsTail) unloadedTranscript events t)
    (numbered : t.numbered = true) :
    nextPage t = none ↔ transcriptState t = .complete := by
  have invariant : SessionInvariant t := session.invariant
    (fun promoted => absurd promoted (by simp [unloadedTranscript]))
    (fun _ _ _ before step => before.step step)
  have bounds := invariant numbered
  rw [nextPage_eq_none_iff numbered bounds.wellNumbered,
    transcriptState_eq_complete_iff numbered bounds.wellNumbered]
  refine and_congr_right fun unbroken => ⟨?_, fun known => ⟨_, known, le_refl _⟩⟩
  rintro ⟨tail, known, reached⟩
  -- the highest row is vouched, so it is at most the tail
  have atMost : t.messages.length ≤ tail := by
    cases length : t.messages.length with
    | zero => exact Nat.zero_le _
    | succ n =>
      obtain ⟨row, member, isTop⟩ := (unbroken.mem_number (n := n + 1)).mpr ⟨by omega, by omega⟩
      exact isTop ▸ bounds.bounded tail known row member (unbroken.vouched row member)
  rw [known, Nat.le_antisymm reached atMost]

def firstPage : TranscriptInput Unit :=
  { kind := .newest, rows := [plainRow 1 "a", plainRow 2 "b"], newestSeq := some 2, vouched := true }

theorem nextPage_none_iff_complete_firstPage :
    nextPage (applyTranscriptInput unloadedTranscript firstPage) = none ↔
      transcriptState (applyTranscriptInput unloadedTranscript firstPage) = .complete := by
  have session : Run (Restrict TranscriptStep RelearnsTail) unloadedTranscript
      [.receive firstPage] (applyTranscriptInput unloadedTranscript firstPage) := by
    refine Run.nil.snoc ⟨⟨fun _ row member => ?_, rfl⟩, ?_⟩
    · simp only [firstPage, List.mem_cons, List.not_mem_nil, or_false] at member
      rcases member with rfl | rfl <;> simp [firstPage, plainRow, Message.number]
    · exact fun numbered => absurd numbered (by simp [unloadedTranscript])
  exact nextPage_none_iff_complete session (by decide)

/-- A page whose rows are not contiguous numbers. -/
def brokenPage : TranscriptInput Unit :=
  { kind := .statement, rows := [plainRow 2 "b", plainRow 1 "a"], newestSeq := some 2,
    vouched := true }

def replayedFrame : TranscriptInput Unit :=
  { kind := .live, rows := [plainRow 1 "a"], newestSeq := some 1, vouched := true }

/-- After a page, a defect and a replayed frame the tail lies below a vouched row:
nothing is asked, and the transcript is not complete. -/
theorem replayed_tail_asks_nothing :
    ¬∀ (events : List (TranscriptEvent Unit)) (t : SeqTranscript Unit),
      Run TranscriptStep unloadedTranscript events t → t.numbered = true →
        (nextPage t = none ↔ transcriptState t = .complete) := by
  intro agreement
  let paged := applyTranscriptInput unloadedTranscript firstPage
  let forgotten := applyTranscriptInput paged brokenPage
  let replayed := applyTranscriptInput forgotten replayedFrame
  have pageStep : TranscriptStep unloadedTranscript (.receive firstPage) paged := by
    refine ⟨fun _ row member => ?_, rfl⟩
    simp only [firstPage, List.mem_cons, List.not_mem_nil, or_false] at member
    rcases member with rfl | rfl <;> simp [firstPage, plainRow, Message.number]
  have defectStep : TranscriptStep paged (.receive brokenPage) forgotten := by
    refine ⟨fun _ row member => ?_, rfl⟩
    simp only [brokenPage, List.mem_cons, List.not_mem_nil, or_false] at member
    rcases member with rfl | rfl <;> simp [brokenPage, plainRow, Message.number]
  have replayStep : TranscriptStep forgotten (.receive replayedFrame) replayed := by
    refine ⟨fun _ row member => ?_, rfl⟩
    obtain rfl := List.mem_singleton.mp member
    simp [replayedFrame, plainRow, Message.number]
  have session := ((Run.nil.snoc pageStep).snoc defectStep).snoc replayStep
  have asksNothing : nextPage replayed = none := by decide
  have notComplete : transcriptState replayed ≠ .complete := by decide
  exact notComplete ((agreement _ replayed session (by decide)).mp asksNothing)

end Murage.Transcript
