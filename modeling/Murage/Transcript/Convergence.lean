import Mathlib.Order.Interval.Finset.Nat
import Murage.Library.Transition
import Murage.Transcript.HoldRows
import Murage.Transcript.NextPage

/-!
Owns order independence of the merge and paging to the end. Whatever order pages and live rows
arrive in, every number a vouched input mentions ends held by its assigned row, vouched. The
argument is on the partial map: vouched numbers never change hands, and a vouched row that does not
take its number finds its own id there already.

Against the server that holds its thread, every ask can be answered, every answer shrinks what is
missing, and paging that has asked at all stops on the whole thread. What is missing is the set of
the thread's numbers at which no vouched row is held; each ask names one of them (`AskCase`) and
each answer carries it.

Does not own: patches, which renew the copy of a held row, and how the transcript came to hold its
rows.
-/

namespace Murage.Transcript

variable {Content : Type}

/-- A page or a live row of a numbered transcript, as `holdRows` receives it. -/
structure RowsInput (Content : Type) where
  rows : List (Message Content)
  vouched : Bool

def RowsInput.options (input : RowsInput Content) : HoldOptions := { vouched := input.vouched }

def holdAll (inputs : List (RowsInput Content)) : List (Message Content) :=
  inputs.foldl (fun held input => holdRows held input.rows input.options) []

/-- The vouched inputs name rows by `assign`, which gives an id one number. The
unvouched ones are arbitrary. -/
structure Agrees (assign : Nat → Option String) (inputs : List (RowsInput Content)) : Prop where
  injective : ∀ m n id, assign m = some id → assign n = some id → m = n
  vouched : ∀ input ∈ inputs, input.vouched = true → ∀ row ∈ input.rows, ∀ n,
    row.seq = some n → assign n = some row.id

/-- A row that some vouched input of `inputs` carries. -/
def VouchedRow (inputs : List (RowsInput Content)) (row : Message Content) : Prop :=
  ∃ input ∈ inputs, input.vouched = true ∧ row ∈ input.rows

def Settled (assign : Nat → Option String) (inputs : List (RowsInput Content))
    (view : View Content) : Prop :=
  ∀ n held, view n = some held → held.unvouched = false →
    assign n = some held.id ∧ ∃ row, VouchedRow inputs row ∧ row.seq = some n ∧ held = row.copy false

/-- The number `n` is held by a vouched row. -/
def VouchedAt (view : View Content) (n : Nat) : Prop :=
  ∃ held, view n = some held ∧ held.unvouched = false

section Steps

variable {assign : Nat → Option String} {inputs : List (RowsInput Content)}
  {input : RowsInput Content} {view after : View Content} {row : Message Content}

theorem VouchedAt.kept {options : HoldOptions} {n : Nat} (vouched : VouchedAt view n)
    (step : HoldStep options view row after) : VouchedAt after n := by
  obtain ⟨held, heldAt, flag⟩ := vouched
  obtain ⟨kept, keptAt, keptFlag, -⟩ := step.keeps_vouched heldAt flag
  exact ⟨kept, keptAt, keptFlag⟩

theorem Settled.kept (agrees : Agrees assign inputs) (isIn : input ∈ inputs)
    (rowMember : row ∈ input.rows) (settled : Settled assign inputs view)
    (step : HoldStep input.options view row after) : Settled assign inputs after := by
  intro n held heldAt vouched
  rcases step.origin heldAt with before | ⟨numbered, ⟨flag, isCopy⟩, source⟩
  · exact settled n held before vouched
  · rcases source vouched with inputVouches | ⟨replace, -⟩
    · have flagFalse : flag = false := by simpa [isCopy] using vouched
      refine ⟨?_, row, ⟨input, isIn, inputVouches, rowMember⟩, numbered, flagFalse ▸ isCopy⟩
      rw [isCopy, Message.copy_id]
      exact agrees.vouched input isIn inputVouches row rowMember n numbered
    · exact absurd replace (by simp [RowsInput.options])

/-- A vouched row leaves its number vouched: it takes it, or finds it held by a
vouched row, which is then its own. -/
theorem vouchedAt_of_step (agrees : Agrees assign inputs) (isIn : input ∈ inputs)
    (vouches : input.vouched = true) (rowMember : row ∈ input.rows) {n : Nat}
    (numbered : row.seq = some n) (settled : Settled assign inputs view)
    (step : HoldStep input.options view row after) : VouchedAt after n := by
  have assigned := agrees.vouched input isIn vouches row rowMember n numbered
  have optionsVouch : input.options.vouched = true := vouches
  have holderVouched : ∀ holder : Message Content,
      ¬(holder.unvouched = true ∧ input.options.vouched = true) → holder.unvouched = false := by
    intro holder stays
    simpa [optionsVouch] using stays
  cases step with
  | unnumbered seq => exact absurd (numbered.symm.trans seq) (by simp)
  | @blocked seq holder seqEq held stays same =>
    have here : seq = n := Option.some.inj (seqEq.symm.trans numbered)
    exact ⟨holder, here ▸ held, holderVouched holder stays⟩
  | @elsewhere seq other holder seqEq held same apart stays =>
    -- the assignment gives the id one number, so a vouched holder is not elsewhere
    have here : seq = n := Option.some.inj (seqEq.symm.trans numbered)
    have holderAssigned := (settled other holder held (holderVouched holder stays)).1
    exact absurd (here ▸ agrees.injective other n row.id (same ▸ holderAssigned) assigned) apart
  | @placed seq seqEq displaces moves =>
    have here : seq = n := Option.some.inj (seqEq.symm.trans numbered)
    refine ⟨row.copy !input.options.vouched, by simp [View.placed, here], ?_⟩
    simp [optionsVouch]
  | @renewed seq holder seqEq held same newer =>
    have here : seq = n := Option.some.inj (seqEq.symm.trans numbered)
    refine ⟨row.copy (holder.unvouched && !input.options.vouched), by simp [here], ?_⟩
    simp [optionsVouch]

theorem HoldRun.settles (agrees : Agrees assign inputs) (isIn : input ∈ inputs)
    {rows : List (Message Content)} (run : HoldRun input.options view rows after)
    (within : ∀ row ∈ rows, row ∈ input.rows) (settled : Settled assign inputs view) :
    Settled assign inputs after ∧ (∀ n, VouchedAt view n → VouchedAt after n) ∧
      (input.vouched = true → ∀ row ∈ rows, ∀ n, row.seq = some n → VouchedAt after n) := by
  induction run with
  | nil => exact ⟨settled, fun _ vouched => vouched, by simp⟩
  | @cons before next final row rest first later ih =>
    have nextSettled := settled.kept agrees isIn (within row (by simp)) first
    obtain ⟨finalSettled, kept, rowsVouched⟩ := ih
      (fun other otherMember => within other (List.mem_cons_of_mem _ otherMember)) nextSettled
    refine ⟨finalSettled, fun n vouched => kept n (vouched.kept first), fun vouches other => ?_⟩
    intro otherMember n numbered
    rcases List.mem_cons.mp otherMember with rfl | otherMember
    · exact kept n (vouchedAt_of_step agrees isIn vouches (within other (by simp)) numbered
        settled first)
    · exact rowsVouched vouches other otherMember n numbered

end Steps

theorem holdAll_settles {assign : Nat → Option String}
    {inputs : List (RowsInput Content)} (agrees : Agrees assign inputs)
    (order : List (RowsInput Content)) (within : ∀ input ∈ order, input ∈ inputs) :
    Ordered (holdAll order) ∧ Settled assign inputs (viewOf (holdAll order)) ∧
      ∀ input ∈ order, input.vouched = true → ∀ row ∈ input.rows, ∀ n, row.seq = some n →
        VouchedAt (viewOf (holdAll order)) n := by
  induction order using List.reverseRecOn with
  | nil => exact ⟨Ordered.nil, fun n held heldAt => by simp [holdAll, viewOf] at heldAt, by simp⟩
  | append_singleton earlier input ih =>
    obtain ⟨ordered, settled, vouched⟩ := ih fun other isIn =>
      within other (List.mem_append_left _ isIn)
    have unfolded : holdAll (earlier ++ [input]) =
        holdRows (holdAll earlier) input.rows input.options := by
      simp [holdAll]
    obtain ⟨finalOrdered, run⟩ := holdRows_spec ordered input.rows input.options
    obtain ⟨finalSettled, kept, rowsVouched⟩ :=
      run.settles agrees (within input (by simp)) (fun _ => id) settled
    rw [unfolded]
    refine ⟨finalOrdered, finalSettled, fun other otherMember vouches row rowMember n numbered => ?_⟩
    rcases List.mem_append.mp otherMember with otherEarlier | isInput
    · exact kept n (vouched other otherEarlier vouches row rowMember n numbered)
    · rw [List.mem_singleton.mp isInput] at rowMember vouches
      exact rowsVouched vouches row rowMember n numbered

/-- **Order independence.** In every order of the inputs the final list is
strictly ascending with no id and no number twice, and every number a vouched
input mentions holds the assigned row: a copy of a vouched input's row, without
the flag. -/
theorem holdAll_order_independent {assign : Nat → Option String}
    {inputs order : List (RowsInput Content)} (agrees : Agrees assign inputs)
    (permuted : order.Perm inputs) :
    ((holdAll order).Pairwise fun below above => below.number < above.number) ∧
      (∀ row ∈ holdAll order, row.seq = some row.number) ∧
      ((holdAll order).map (·.id)).Nodup ∧ ((holdAll order).map (·.seq)).Nodup ∧
      ∀ input ∈ inputs, input.vouched = true → ∀ row ∈ input.rows, ∀ n, row.seq = some n →
        ∃ held ∈ holdAll order, held.seq = some n ∧ assign n = some held.id ∧
          held.unvouched = false ∧ (∀ other ∈ holdAll order, other.seq = some n → other = held) ∧
          ∃ source, VouchedRow inputs source ∧ source.seq = some n ∧ held = source.copy false := by
  obtain ⟨ordered, settled, vouched⟩ :=
    holdAll_settles agrees order fun input member => permuted.mem_iff.mp member
  refine ⟨ordered.ascending, ordered.numbered, ordered.distinct, ?_, ?_⟩
  · refine List.pairwise_map.mpr (ordered.ascending.imp_of_mem fun {below above} belowMember
      aboveMember less same => ?_)
    rw [ordered.numbered below belowMember, ordered.numbered above aboveMember] at same
    exact absurd (Option.some.inj same) (Nat.ne_of_lt less)
  · intro input member vouches row rowMember n numbered
    obtain ⟨held, heldAt, flag⟩ :=
      vouched input (permuted.mem_iff.mpr member) vouches row rowMember n numbered
    obtain ⟨heldMember, heldSeq⟩ := ordered.viewOf_eq_some.mp heldAt
    obtain ⟨assigned, source⟩ := settled n held heldAt flag
    refine ⟨held, heldMember, heldSeq, assigned, flag, fun other otherMember otherSeq => ?_, source⟩
    exact Option.some.inj ((ordered.viewOf_eq_some.mpr ⟨otherMember, otherSeq⟩).symm.trans heldAt)

/-- An unvouched page that swaps two ids, then the two vouched rows, in an order
where each vouched row meets the other's unvouched copy. -/
def swappedInputs : List (RowsInput Unit) :=
  [⟨[plainRow 2 "a", plainRow 1 "b"], false⟩, ⟨[plainRow 1 "a"], true⟩, ⟨[plainRow 2 "b"], true⟩]

/-- The numbers the vouched rows of `swappedInputs` carry. -/
def swappedAssign (n : Nat) : Option String :=
  if n = 1 then some "a" else if n = 2 then some "b" else none

theorem holdAll_order_independent_swapped :
    ∃ held ∈ holdAll swappedInputs, held.seq = some 1 ∧ swappedAssign 1 = some held.id ∧
      held.unvouched = false := by
  have agrees : Agrees swappedAssign swappedInputs.reverse := by
    refine ⟨fun m n id left right => ?_, ?_⟩
    · unfold swappedAssign at left right
      split_ifs at left right <;>
        first | omega | exact absurd (left.trans right.symm) (by decide)
    · intro input member vouches row rowMember n numbered
      simp only [swappedInputs, List.reverse_cons, List.reverse_nil, List.nil_append,
        List.cons_append, List.mem_cons, List.not_mem_nil, or_false] at member
      rcases member with rfl | rfl | rfl
      · obtain rfl := List.mem_singleton.mp rowMember
        rw [← Option.some.inj numbered]
        rfl
      · obtain rfl := List.mem_singleton.mp rowMember
        rw [← Option.some.inj numbered]
        rfl
      · exact absurd vouches (by decide)
  obtain ⟨-, -, -, -, settled⟩ :=
    holdAll_order_independent agrees (List.reverse_perm swappedInputs).symm
  obtain ⟨held, member, numbered, assigned, vouched, -⟩ :=
    settled ⟨[plainRow 1 "a"], true⟩ (by simp [swappedInputs]) rfl (plainRow 1 "a") (by simp) 1 rfl
  exact ⟨held, member, numbered, assigned, vouched⟩

end Murage.Transcript

namespace Murage.Transcript

open Murage.Library.Transition

variable {Content : Type}

/-! ## The server's thread and its answers -/

/-- A thread as the server stores it: rows numbered from 1 without a gap, each
id once. -/
structure Thread (Content : Type) where
  rows : List (Message Content)
  contiguous : rows.map (·.seq) = (List.range' 1 rows.length).map some
  distinct : (rows.map (·.id)).Nodup
  vouched : ∀ row ∈ rows, row.unvouched = false

/-- The pages that answer an ask: the thread's last rows, or a nonempty run that
ends just below the asked row and says so when it starts at 1. -/
inductive Answers (thread : Thread Content) : PageAsk → TranscriptInput Content → Prop
  | newest {older run : List (Message Content)} {hasMore : Option Bool}
      {olderFrom : Option (Option String)} (split : thread.rows = older ++ run)
      (nonempty : thread.rows ≠ [] → run ≠ []) :
      Answers thread .newest
        { kind := .newest, rows := run, newestSeq := some thread.rows.length, vouched := true,
          hasMore := hasMore, olderFrom := olderFrom }
  | before {older run newer : List (Message Content)} {row : Message Content}
      {cursor : Option String} {hasMore : Bool} {olderFrom : Option (Option String)}
      (split : thread.rows = older ++ run ++ row :: newer) (nonempty : run ≠ [])
      (more : hasMore = false ↔ older = []) :
      Answers thread (.before row.id cursor)
        { kind := .older, rows := run, newestSeq := some thread.rows.length, vouched := true,
          hasMore := some hasMore, olderFrom := olderFrom, before := some row.id }

/-- One turn of paging: ask, answer, apply. -/
def PageStep (thread : Thread Content) (t : SeqTranscript Content) (page : TranscriptInput Content)
    (next : SeqTranscript Content) : Prop :=
  ∃ ask, nextPage t = some ask ∧ Answers thread ask page ∧ next = applyTranscriptInput t page

/-- A numbered transcript whose rows are the thread's: each has the number and
the id of one, a vouched one is it, and the tail is at most the thread's. -/
structure HeldFrom (thread : Thread Content) (t : SeqTranscript Content) : Prop where
  numbered : t.numbered = true
  ordered : Ordered t.messages
  subset : ∀ row ∈ t.messages, ∃ source ∈ thread.rows, source.seq = row.seq ∧ source.id = row.id ∧
    (row.unvouched = false → row = source)
  tail : ∀ tail ∈ t.tail, tail ≤ thread.rows.length

namespace Thread

variable (thread : Thread Content)

theorem seq_of_mem {row : Message Content} (isIn : row ∈ thread.rows) :
    row.seq = some row.number ∧ 1 ≤ row.number ∧ row.number ≤ thread.rows.length := by
  have listed := List.mem_map_of_mem (f := (·.seq)) isIn
  rw [thread.contiguous] at listed
  obtain ⟨n, inRange, isSeq⟩ := List.mem_map.mp listed
  have isNumber : row.number = n := Message.number_of_seq isSeq.symm
  rw [List.mem_range'_1] at inRange
  exact ⟨isNumber ▸ isSeq.symm, by omega, by omega⟩

theorem numbers : thread.rows.map (·.number) = List.range' 1 thread.rows.length := by
  have mapped := congrArg (List.map fun seq : Option Nat => seq.getD 0) thread.contiguous
  rw [List.map_map, List.map_map] at mapped
  have identity : ((fun seq : Option Nat => seq.getD 0) ∘ some) = id := rfl
  rw [identity, List.map_id] at mapped
  exact mapped

theorem ordered : Ordered thread.rows := by
  refine ⟨fun row isIn => (thread.seq_of_mem isIn).1, ?_, thread.distinct⟩
  have ascending : (thread.rows.map (·.number)).Pairwise (· < ·) := by
    rw [thread.numbers]
    exact List.pairwise_lt_range'
  exact List.pairwise_map.mp ascending

theorem run_numbers {older run newer : List (Message Content)}
    (split : thread.rows = older ++ run ++ newer) :
    run.map (·.number) = List.range' (1 + older.length) run.length := by
  have numbers := thread.numbers
  rw [split, List.map_append, List.map_append, List.length_append, List.length_append,
    ← List.range'_append_1, ← List.range'_append_1] at numbers
  have front := (List.append_inj numbers (by simp)).1
  exact (List.append_inj front (by simp)).2

end Thread

/-! ## An answer, applied -/

theorem contiguous_of_numbers {rows : List (Message Content)} :
    ∀ {start : Nat}, rows.map (·.number) = List.range' start rows.length →
      contiguous rows = true := by
  induction rows with
  | nil => exact fun _ => rfl
  | cons below rest ih =>
    intro start numbers
    cases rest with
    | nil => rfl
    | cons above rest =>
      rw [List.map_cons, List.length_cons, List.range'_succ] at numbers
      obtain ⟨isBelow, tail⟩ := List.cons.inj numbers
      have isAbove := tail
      rw [List.map_cons, List.length_cons, List.range'_succ] at isAbove
      have next : above.number = below.number + 1 := by
        rw [(List.cons.inj isAbove).1, isBelow]
      unfold contiguous
      rw [ih tail, next]
      simp

/-- What every answer is: a vouched numbered page of the thread's rows. -/
private structure ThreadPage (thread : Thread Content) (page : TranscriptInput Content) : Prop where
  shape : inputShape page.rows page.newestSeq = .numbered
  sound : pageIsSound page = true
  vouched : page.vouched = true
  newest : page.newestSeq = some thread.rows.length
  asked : page.kind ≠ .live ∧ page.kind ≠ .patch
  rows : ∀ row ∈ page.rows, row ∈ thread.rows

variable {thread : Thread Content} {page : TranscriptInput Content}

theorem threadPage_of_split {older newer : List (Message Content)}
    (split : thread.rows = older ++ page.rows ++ newer) (vouched : page.vouched = true)
    (newest : page.newestSeq = some thread.rows.length)
    (asked : page.kind ≠ .live ∧ page.kind ≠ .patch)
    (start : page.kind = .older → page.hasMore = some false → older = []) :
    ThreadPage thread page := by
  have isIn : ∀ row ∈ page.rows, row ∈ thread.rows := fun row rowMember => by
    rw [split]
    simp [rowMember]
  have numbers := thread.run_numbers split
  refine ⟨?_, ?_, vouched, newest, asked, isIn⟩
  · have allNumbered : page.rows.filter (·.seq.isSome) = page.rows :=
      List.filter_eq_self.mpr fun row rowMember => by
        simp [(thread.seq_of_mem (isIn row rowMember)).1]
    simp [inputShape, newest, allNumbered]
  · unfold pageIsSound
    rw [if_neg (by simp [asked]), contiguous_of_numbers numbers]
    have startsAtOne : ¬(page.kind = .older ∧ page.hasMore = some false ∧
        page.rows.head?.any (·.seq != some 1) = true) := by
      rintro ⟨isOlder, noMore, notOne⟩
      obtain ⟨first, isFirst, other⟩ := (Option.any_eq_true _ _).mp notOne
      obtain ⟨rest, isRows⟩ := List.head?_eq_some_iff.mp isFirst
      rw [start isOlder noMore, isRows, List.map_cons, List.length_cons, List.range'_succ] at numbers
      have isOne : first.number = 1 := (List.cons.inj numbers).1
      have seq := (thread.seq_of_mem (isIn first (by simp [isRows]))).1
      simp [seq, isOne] at other
    rw [if_neg (by simp), if_neg startsAtOne, newest]
    cases isLast : page.rows.getLast? with
    | none => rfl
    | some last =>
      have := (thread.seq_of_mem (isIn last (List.mem_of_getLast? isLast))).2.2
      simpa using this

theorem Answers.threadPage {ask : PageAsk} (answers : Answers thread ask page) :
    ThreadPage thread page := by
  cases answers with
  | @newest older run _ _ split nonempty =>
    have whole : thread.rows = older ++ run ++ [] := by simpa using split
    exact threadPage_of_split whole rfl rfl (by simp) (by simp)
  | before split nonempty more =>
    exact threadPage_of_split split rfl rfl (by simp) fun _ noMore => more.mp (by simpa using noMore)

theorem ThreadPage.apply (threadPage : ThreadPage thread page) {t : SeqTranscript Content}
    (numbered : t.numbered = true) :
    applyTranscriptInput t page = holdInput t page := by
  unfold applyTranscriptInput
  rw [threadPage.shape]
  simp [threadPage.sound, threadPage.vouched, threadPage.asked, numbered]

def Thread.assign (thread : Thread Content) (n : Nat) : Option String :=
  (viewOf thread.rows n).map (·.id)

def Thread.whole (thread : Thread Content) : RowsInput Content := ⟨thread.rows, true⟩

theorem Thread.agrees (thread : Thread Content) :
    Agrees thread.assign [thread.whole] := by
  refine ⟨fun m n id left right => ?_, fun input isIn _ row rowMember n numbered => ?_⟩
  · obtain ⟨leftRow, leftAt, leftId⟩ := Option.map_eq_some_iff.mp left
    obtain ⟨rightRow, rightAt, rightId⟩ := Option.map_eq_some_iff.mp right
    exact thread.ordered.id_injective leftAt rightAt (leftId.trans rightId.symm)
  · rw [List.mem_singleton.mp isIn] at rowMember
    unfold Thread.assign
    rw [thread.ordered.viewOf_eq_some.mpr ⟨rowMember, numbered⟩]
    rfl

/-- **An answer.** The rows held stay the thread's, vouched numbers stay vouched,
every row of the page is vouched afterwards, and the tail is the thread's. -/
theorem HeldFrom.holdPage {t : SeqTranscript Content} (heldFrom : HeldFrom thread t)
    (threadPage : ThreadPage thread page) :
    HeldFrom thread (holdInput t page) ∧
      (∀ n, VouchedAt (viewOf t.messages) n → VouchedAt (viewOf (holdInput t page).messages) n) ∧
      (∀ row ∈ page.rows, VouchedAt (viewOf (holdInput t page).messages) row.number) ∧
      (holdInput t page).tail = some thread.rows.length := by
  have isHeld :
      (holdInput t page).messages = holdRows t.messages page.rows thread.whole.options := by
    have rowsAdmitted : admitted t page = page.rows := by
      unfold admitted
      split
      · rw [if_pos threadPage.vouched]
      · rfl
    simp [holdInput, rowsAdmitted, threadPage.vouched, threadPage.asked, RowsInput.options,
      Thread.whole]
  have isTail : (holdInput t page).tail = some thread.rows.length := by
    change raise page t.tail = _
    unfold raise
    rw [threadPage.vouched, threadPage.newest]
    have atMost : t.tail.getD thread.rows.length ≤ thread.rows.length := by
      cases known : t.tail with
      | none => exact Nat.le_refl _
      | some tail => exact heldFrom.tail tail known
    simp [max_eq_right atMost]
  have settled : Settled thread.assign [thread.whole] (viewOf t.messages) := by
    intro n held heldAt vouched
    obtain ⟨isIn, seq⟩ := heldFrom.ordered.viewOf_eq_some.mp heldAt
    obtain ⟨source, sourceMember, -, -, isSource⟩ := heldFrom.subset held isIn
    obtain rfl := isSource vouched
    refine ⟨?_, held, ⟨thread.whole, by simp, rfl, sourceMember⟩, seq, ?_⟩
    · exact thread.agrees.vouched thread.whole (by simp) rfl held sourceMember n seq
    · rw [← vouched, Message.copy_self]
  obtain ⟨ordered, run⟩ := holdRows_spec heldFrom.ordered page.rows thread.whole.options
  obtain ⟨settledAfter, kept, rowsVouched⟩ :=
    run.settles thread.agrees (List.mem_singleton_self _) threadPage.rows settled
  rw [← isHeld] at ordered settledAfter kept rowsVouched
  refine ⟨⟨heldFrom.numbered, ordered, fun found isIn => ?_, ?_⟩, kept, fun row isIn => ?_, isTail⟩
  · have vouchedSource : found.unvouched = false → found ∈ thread.rows := by
      intro vouched
      obtain ⟨-, row, ⟨input, inputMember, -, rowMember⟩, -, isCopy⟩ :=
        settledAfter found.number found (ordered.viewOf_number isIn) vouched
      rw [List.mem_singleton.mp inputMember] at rowMember
      rw [isCopy, ← thread.vouched row rowMember, Message.copy_self]
      exact rowMember
    rw [isHeld] at isIn
    rcases origin_of_mem_holdRows heldFrom.ordered isIn with heldMember |
      ⟨row, rowMember, rowSeq, ⟨flag, isCopy⟩, -⟩
    · exact heldFrom.subset found heldMember
    · have rowInThread := threadPage.rows row rowMember
      refine ⟨row, rowInThread, by rw [isCopy, Message.copy_seq], by rw [isCopy, Message.copy_id],
        fun vouched => ?_⟩
      refine thread.ordered.eq_of_number (vouchedSource vouched) rowInThread ?_
      rw [isCopy, Message.copy_number]
  · rw [isTail]
    intro tail isThreads
    exact le_of_eq (Option.some.inj isThreads).symm
  · exact rowsVouched rfl row isIn row.number
      (thread.seq_of_mem (threadPage.rows row isIn)).1

/-! ## What is missing -/

/-- The thread's numbers at which no vouched row is held. -/
def missing (thread : Thread Content) (t : SeqTranscript Content) : Finset Nat :=
  (Finset.Icc 1 thread.rows.length).filter fun n => (viewOf t.messages n).all (·.unvouched)

/-- What every answer lowers: the missing numbers, and one for an unknown tail. -/
def pagingRank (thread : Thread Content) (t : SeqTranscript Content) : Nat :=
  (if t.tail = none then 1 else 0) + (missing thread t).card

theorem mem_missing {t : SeqTranscript Content} {n : Nat} :
    n ∈ missing thread t ↔
      (1 ≤ n ∧ n ≤ thread.rows.length) ∧ ¬VouchedAt (viewOf t.messages) n := by
  unfold missing VouchedAt
  rw [Finset.mem_filter, Finset.mem_Icc]
  refine and_congr_right fun _ => ?_
  cases viewOf t.messages n <;> simp

theorem pagingRank_le (thread : Thread Content) (t : SeqTranscript Content) :
    pagingRank thread t ≤ thread.rows.length + 1 := by
  have card := Finset.card_filter_le (Finset.Icc 1 thread.rows.length)
    fun n => (viewOf t.messages n).all (·.unvouched) = true
  rw [Nat.card_Icc] at card
  unfold pagingRank missing
  split_ifs <;> omega

namespace HeldFrom

variable {thread : Thread Content} {t next : SeqTranscript Content} {page : TranscriptInput Content}

theorem wellNumbered (heldFrom : HeldFrom thread t) : WellNumbered t.messages := by
  refine ⟨heldFrom.ordered, fun row isIn => ?_⟩
  obtain ⟨source, sourceMember, seq, -, -⟩ := heldFrom.subset row isIn
  have bounds := thread.seq_of_mem sourceMember
  rw [bounds.1] at seq
  exact (Message.number_of_seq seq.symm).symm ▸ bounds.2.1

theorem number_le (heldFrom : HeldFrom thread t) {row : Message Content}
    (isIn : row ∈ t.messages) : row.number ≤ thread.rows.length := by
  obtain ⟨source, sourceMember, seq, -, -⟩ := heldFrom.subset row isIn
  have bounds := thread.seq_of_mem sourceMember
  rw [bounds.1] at seq
  exact (Message.number_of_seq seq.symm).symm ▸ bounds.2.2

/-- Each answer carries the number its ask names as lacking, or teaches the
tail. -/
theorem answer_carries (heldFrom : HeldFrom thread t) {ask : PageAsk}
    (asks : AskCase t (some ask)) (answers : Answers thread ask page) :
    t.tail = none ∨ ∃ row ∈ page.rows, row.number ∈ missing thread t := by
  cases asks with
  | unknownTail unknown => exact Or.inl unknown
  | @top tail n known positive isTop lacks =>
    right
    have within : n ≤ thread.rows.length := by
      rcases isTop with isTail | ⟨row, isIn, rfl⟩
      · exact isTail ▸ heldFrom.tail tail known
      · exact heldFrom.number_le isIn
    cases answers with
    | @newest older run _ _ split nonempty =>
      have runNonempty : run ≠ [] := nonempty fun empty => by
        rw [empty, List.length_nil] at within
        omega
      have whole : thread.rows = older ++ run ++ [] := by simpa using split
      have numbers := thread.run_numbers whole
      have lengths : thread.rows.length = older.length + run.length := by
        rw [split, List.length_append]
      have positiveRun := List.length_pos_iff.mpr runNonempty
      have last : thread.rows.length ∈ run.map (·.number) := by
        rw [numbers, List.mem_range'_1]
        omega
      obtain ⟨row, isIn, isLast⟩ := List.mem_map.mp last
      refine ⟨row, isIn, mem_missing.mpr ⟨by omega, ?_⟩⟩
      rintro ⟨held, heldAt, vouched⟩
      obtain ⟨heldMember, seq⟩ := heldFrom.ordered.viewOf_eq_some.mp heldAt
      have := lacks held heldMember vouched
      rw [Message.number_of_seq seq] at this
      omega
  | @below tail row known isIn large lacks =>
    right
    generalize isAsk : PageAsk.before row.id none = ask at answers
    cases answers with
    | newest => exact absurd isAsk (by simp)
    | @before older run newer asked cursor hasMore olderFrom split nonempty more =>
      have sameId : row.id = asked.id := (PageAsk.before.inj isAsk).1
      obtain ⟨source, sourceMember, seq, sourceId, -⟩ := heldFrom.subset row isIn
      have askedMember : asked ∈ thread.rows := by
        rw [split]
        simp
      have isAsked : source = asked :=
        List.inj_on_of_nodup_map thread.distinct sourceMember askedMember
          (sourceId.trans sameId)
      have askedNumber : asked.number = row.number := by
        rw [← isAsked, Message.number, Message.number, seq]
      -- the run ends one below the asked row
      have fromAsked : thread.rows = (older ++ run) ++ (asked :: newer) ++ [] := by
        simpa using split
      have askedRun := thread.run_numbers fromAsked
      rw [List.map_cons, List.length_cons, List.range'_succ, List.length_append] at askedRun
      have askedAt : asked.number = 1 + (older.length + run.length) := (List.cons.inj askedRun).1
      have numbers := thread.run_numbers split
      have positiveRun := List.length_pos_iff.mpr nonempty
      have last : row.number - 1 ∈ run.map (·.number) := by
        rw [numbers, List.mem_range'_1]
        omega
      obtain ⟨below, belowMember, isBelow⟩ := List.mem_map.mp last
      have within := heldFrom.number_le isIn
      refine ⟨below, belowMember, mem_missing.mpr ⟨by omega, ?_⟩⟩
      rintro ⟨held, heldAt, vouched⟩
      obtain ⟨heldMember, heldSeq⟩ := heldFrom.ordered.viewOf_eq_some.mp heldAt
      have unvouched := lacks held heldMember
        ((Message.number_of_seq heldSeq).trans isBelow)
      exact absurd (vouched.symm.trans unvouched) (by simp)

/-- One turn of paging keeps the rows the thread's, lowers the rank and learns
the thread's tail. -/
theorem pageStep (heldFrom : HeldFrom thread t) (step : PageStep thread t page next) :
    HeldFrom thread next ∧ pagingRank thread next < pagingRank thread t ∧
      next.tail = some thread.rows.length := by
  obtain ⟨ask, asked, answers, rfl⟩ := step
  have threadPage := answers.threadPage
  have asks := nextPage_case heldFrom.numbered heldFrom.wellNumbered
  rw [asked] at asks
  rw [threadPage.apply heldFrom.numbered]
  obtain ⟨heldAfter, kept, rowsVouched, isTail⟩ := heldFrom.holdPage threadPage
  refine ⟨heldAfter, ?_, isTail⟩
  have fewer : missing thread (holdInput t page) ⊆ missing thread t := fun n lacking => by
    obtain ⟨range, unvouched⟩ := mem_missing.mp lacking
    exact mem_missing.mpr ⟨range, fun vouched => unvouched (kept n vouched)⟩
  unfold pagingRank
  rw [isTail, if_neg (by simp)]
  rcases heldFrom.answer_carries asks answers with unknown | ⟨row, isIn, lacking⟩
  · have := Finset.card_le_card fewer
    rw [if_pos unknown]
    omega
  · have strict : missing thread (holdInput t page) ⊂ missing thread t := by
      refine ⟨fewer, fun back => ?_⟩
      exact (mem_missing.mp (back lacking)).2 (rowsVouched row isIn)
    have := Finset.card_lt_card strict
    omega

theorem messages_eq_take (heldFrom : HeldFrom thread t) (unbroken : Unbroken t.messages) :
    t.messages = thread.rows.take t.messages.length := by
  have within : t.messages.length ≤ thread.rows.length := by
    cases length : t.messages.length with
    | zero => exact Nat.zero_le _
    | succ n =>
      obtain ⟨row, isIn, isTop⟩ := (unbroken.mem_number (n := n + 1)).mpr ⟨by omega, by omega⟩
      exact isTop ▸ heldFrom.number_le isIn
  refine List.ext_getElem (by simp [within]) fun index left right => ?_
  have number : t.messages[index].number = index + 1 := by
    have listed := List.getElem_of_eq unbroken.numbers (i := index) (by simpa using left)
    rw [List.getElem_map, List.getElem_range'] at listed
    omega
  have sourceNumber : thread.rows[index].number = index + 1 := by
    have listed := List.getElem_of_eq thread.numbers (i := index) (by simp; omega)
    rw [List.getElem_map, List.getElem_range'] at listed
    omega
  obtain ⟨source, sourceMember, -, -, isSource⟩ :=
    heldFrom.subset t.messages[index] (List.getElem_mem left)
  have isHeld := isSource (unbroken.vouched _ (List.getElem_mem left))
  rw [List.getElem_take]
  refine thread.ordered.eq_of_number (isHeld ▸ sourceMember) (List.getElem_mem _) ?_
  rw [number, sourceNumber]

theorem answerable (heldFrom : HeldFrom thread t) {ask : PageAsk} (asked : nextPage t = some ask) :
    ∃ page, Answers thread ask page := by
  have asks := nextPage_case heldFrom.numbered heldFrom.wellNumbered
  rw [asked] at asks
  have newestPage : ∃ page, Answers thread .newest page :=
    ⟨_, @Answers.newest _ thread [] thread.rows none none rfl id⟩
  cases asks with
  | unknownTail | top => exact newestPage
  | @below tail row known isIn large lacks =>
    obtain ⟨source, sourceMember, seq, sameId, -⟩ := heldFrom.subset row isIn
    obtain ⟨older, newer, split⟩ := List.append_of_mem sourceMember
    have fromSource : thread.rows = older ++ (source :: newer) ++ [] := by simpa using split
    have numbers := thread.run_numbers fromSource
    rw [List.map_cons, List.length_cons, List.range'_succ] at numbers
    have position : source.number = 1 + older.length := (List.cons.inj numbers).1
    have sameNumber : source.number = row.number := by
      rw [Message.number, Message.number, seq]
    have nonempty : older ≠ [] := by
      rintro rfl
      rw [List.length_nil] at position
      omega
    rw [← sameId]
    exact ⟨_, @Answers.before _ thread [] older newer source _ false none
      (by simpa using split) nonempty (by simp)⟩

end HeldFrom

/-- **Paging ends, on the whole thread.** From any transcript that holds rows of
the thread, paging takes at most one page more than the thread has rows, and
every ask can be answered. When it stops the transcript holds the thread's first
rows, vouched; it holds all of them, `complete`, when it asked for a page or
started from the thread's own tail. -/
theorem paging_reaches_whole_thread {thread : Thread Content} {t final : SeqTranscript Content}
    {pages : List (TranscriptInput Content)} (heldFrom : HeldFrom thread t)
    (paging : Run (PageStep thread) t pages final) :
    pages.length ≤ thread.rows.length + 1 ∧
      (∀ ask, nextPage final = some ask → ∃ page next, Answers thread ask page ∧
        PageStep thread final page next) ∧
      (nextPage final = none →
        (pages ≠ [] ∨ t.tail = none ∨ t.tail = some thread.rows.length →
          transcriptState final = .complete ∧ final.messages = thread.rows) ∧
        final.messages = thread.rows.take final.messages.length ∧
        ∃ tail ≤ final.messages.length, final.tail = some tail ∧
          (transcriptState final = .complete ↔ tail = final.messages.length)) := by
  have kept : ∀ before page after, HeldFrom thread before → PageStep thread before page after →
      HeldFrom thread after := fun _ _ _ held step => (held.pageStep step).1
  have finalHeld := paging.invariant heldFrom kept
  have lowers : ∀ before page after, HeldFrom thread before → PageStep thread before page after →
      pagingRank thread after < pagingRank thread before :=
    fun _ _ _ held step => (held.pageStep step).2.1
  have bound := paging.length_add_rank_le heldFrom kept lowers
  have startRank := pagingRank_le thread t
  refine ⟨by omega, fun ask asked => ?_, fun stopped => ?_⟩
  · obtain ⟨page, answers⟩ := finalHeld.answerable asked
    exact ⟨page, _, answers, ask, asked, answers, rfl⟩
  · obtain ⟨unbroken, tail, known, reached⟩ :=
      (nextPage_eq_none_iff finalHeld.numbered finalHeld.wellNumbered).mp stopped
    have isTake := finalHeld.messages_eq_take unbroken
    have completeIff := transcriptState_eq_complete_iff finalHeld.numbered finalHeld.wellNumbered
    refine ⟨fun source => ?_, isTake, tail, reached, known, ?_⟩
    · have isTail : final.tail = some thread.rows.length := by
        rcases paging.eq_or_last with ⟨empty, rfl⟩ | ⟨before, page, prior, priorRun, last⟩
        · rcases source with asked | unknown | whole
          · exact absurd empty asked
          · exact absurd (known.symm.trans unknown) (by simp)
          · exact whole
        · exact ((priorRun.invariant heldFrom kept).pageStep last).2.2
      have tailIs : tail = thread.rows.length := Option.some.inj (known.symm.trans isTail)
      have lengths := congrArg List.length isTake
      rw [List.length_take] at lengths
      have whole : final.messages.length = thread.rows.length := by omega
      refine ⟨completeIff.mpr ⟨unbroken, by rw [isTail, whole]⟩, ?_⟩
      rw [isTake, whole, List.take_length]
    · rw [completeIff, known, Option.some.injEq]
      exact ⟨And.right, fun same => ⟨unbroken, same⟩⟩

def twoRows : Thread Unit where
  rows := [plainRow 1 "a", plainRow 2 "b"]
  contiguous := by decide
  distinct := by decide
  vouched := by decide

/-- The first row held since before a hydrate. -/
def hydratedRow : SeqTranscript Unit :=
  { messages := [plainRow 1 "a" true], numbered := true }

def newestRow : TranscriptInput Unit :=
  { kind := .newest, rows := [plainRow 2 "b"], newestSeq := some 2, vouched := true }

def oldestRow : TranscriptInput Unit :=
  { kind := .older, rows := [plainRow 1 "a"], newestSeq := some 2, vouched := true,
    hasMore := some false, before := some "b" }

theorem paging_reaches_whole_thread_hydrated :
    transcriptState (applyTranscriptInput (applyTranscriptInput hydratedRow newestRow) oldestRow) =
      .complete := by
  have heldFrom : HeldFrom twoRows hydratedRow := by
    refine ⟨rfl, ⟨by decide, by simp [hydratedRow], by simp [hydratedRow]⟩, ?_, by simp [hydratedRow]⟩
    intro row member
    obtain rfl := List.mem_singleton.mp member
    exact ⟨plainRow 1 "a", by simp [twoRows], rfl, rfl, by decide⟩
  have first : PageStep twoRows hydratedRow newestRow (applyTranscriptInput hydratedRow newestRow) :=
    ⟨.newest, by decide, @Answers.newest _ twoRows [plainRow 1 "a"] _ _ _ rfl (by simp), rfl⟩
  have second : PageStep twoRows (applyTranscriptInput hydratedRow newestRow) oldestRow
      (applyTranscriptInput (applyTranscriptInput hydratedRow newestRow) oldestRow) :=
    ⟨.before "b" none, by decide,
      @Answers.before _ twoRows [] _ [] (plainRow 2 "b") _ _ _ rfl (by simp) (by simp), rfl⟩
  obtain ⟨-, -, stopped⟩ :=
    paging_reaches_whole_thread heldFrom ((Run.nil.snoc first).snoc second)
  exact ((stopped (by decide)).1 (Or.inl (by simp))).1

/-- One vouched row, and the tail of when it was the newest. -/
def staleTail : SeqTranscript Unit :=
  { messages := [plainRow 1 "a"], numbered := true, tail := some 1 }

/-- From a tail below the thread's, paging may stop at once and below the newest
row. -/
theorem stale_tail_stops_paging :
    ¬∀ (thread : Thread Unit) (t final : SeqTranscript Unit) (pages : List (TranscriptInput Unit)),
      HeldFrom thread t → Run (PageStep thread) t pages final → nextPage final = none →
        transcriptState final = .complete ∧ final.messages = thread.rows := by
  intro reaches
  have heldFrom : HeldFrom twoRows staleTail := by
    refine ⟨rfl, ⟨by decide, by simp [staleTail], by simp [staleTail]⟩, ?_, by decide⟩
    intro row member
    obtain rfl := List.mem_singleton.mp member
    exact ⟨plainRow 1 "a", by simp [twoRows], rfl, rfl, by simp⟩
  have short : staleTail.messages ≠ twoRows.rows := by decide
  exact short (reaches twoRows staleTail staleTail [] heldFrom Run.nil (by decide)).2

end Murage.Transcript
