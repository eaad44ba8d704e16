import Murage.ChannelDelivery.Pages

/-!
Owns what the pages of a ledger keep: every row, in its order, within the limits of a page; and
that a write that ends anywhere leaves the ledger before or the ledger written.

Does not own: how large a row can be.
-/

namespace Murage.ChannelDelivery.Pages

open Murage.Library.FileOps

variable {maxResponse : Nat} {state : State} {packing : Packing} {files after : Files Name Page}
  {records : List StoredRecord} {tombstones : List StoredTombstone}

/-! ## Filling pages -/

def Packing.pages (packing : Packing) : List Page := packing.closed ++ [packing.current]

/-- The bytes of the rows of a page, each with a comma. -/
def Page.weight (page : Page) : Nat :=
  (page.records.map (·.bytes + 1)).sum + (page.tombstones.map (·.bytes + 1)).sum

/-- Rows of which each fits into the half of a file. -/
def Light (records : List StoredRecord) (tombstones : List StoredTombstone) : Prop :=
  (∀ row ∈ records, row.bytes + 1 ≤ fileMax / 2) ∧ ∀ row ∈ tombstones, row.bytes + 1 ≤ fileMax / 2

structure PageOf (state : State) (page : Page) : Prop where
  bindingKey : page.bindingKey = state.bindingKey
  recipient : page.recipient = state.recipient
  overflow : page.overflow = none
  fewRecords : page.records.length ≤ recordsMax
  fewTombstones : page.tombstones.length ≤ tombstonesMax

/-- The rows so far are those of the pages, in their order. -/
structure Packs (state : State) (records : List StoredRecord) (tombstones : List StoredTombstone)
    (packing : Packing) : Prop where
  allRecords : packing.pages.flatMap (·.records) = records
  allTombstones : packing.pages.flatMap (·.tombstones) = tombstones
  pageOf : ∀ page ∈ packing.pages, PageOf state page
  size : packing.current.weight = packing.size
  light : Light records tombstones → ∀ page ∈ packing.pages, page.weight ≤ fileMax / 2

theorem recordsMax_pos : 0 < recordsMax := by decide

theorem tombstonesMax_pos : 0 < tombstonesMax := by decide

theorem pageOf_empty (state : State) : PageOf state state.emptyPage :=
  ⟨rfl, rfl, rfl, Nat.zero_le _, Nat.zero_le _⟩

theorem packs_start (state : State) : Packs state [] [] { current := state.emptyPage } where
  allRecords := rfl
  allTombstones := rfl
  pageOf := by
    intro page isPage
    obtain rfl := List.mem_singleton.mp isPage
    exact pageOf_empty state
  size := rfl
  light := by
    intro _ page isPage
    obtain rfl := List.mem_singleton.mp isPage
    exact Nat.zero_le _

theorem turned_pages (packing : Packing) (empty : Page) :
    (packing.turned empty).pages = packing.pages ++ [empty] := rfl

theorem Packs.turned (packs : Packs state records tombstones packing) :
    Packs state records tombstones (packing.turned state.emptyPage) where
  allRecords := by
    rw [turned_pages, List.flatMap_append, packs.allRecords]
    exact List.append_nil _
  allTombstones := by
    rw [turned_pages, List.flatMap_append, packs.allTombstones]
    exact List.append_nil _
  pageOf := by
    intro page isPage
    rw [turned_pages] at isPage
    rcases List.mem_append.mp isPage with isOld | isNew
    · exact packs.pageOf page isOld
    · obtain rfl := List.mem_singleton.mp isNew
      exact pageOf_empty state
  size := rfl
  light := by
    intro light page isPage
    rw [turned_pages] at isPage
    rcases List.mem_append.mp isPage with isOld | isNew
    · exact packs.light light page isOld
    · obtain rfl := List.mem_singleton.mp isNew
      exact Nat.zero_le _

theorem room_of_not_full {count limit bytes : Nat} (notFull : ¬packing.isFull count limit bytes = true) :
    count < limit ∧ packing.size + bytes ≤ fileMax / 2 := by
  unfold Packing.isFull at notFull
  rw [Bool.or_eq_true, decide_eq_true_iff, decide_eq_true_iff, not_or, not_le, not_lt] at notFull
  exact notFull

theorem Packs.filled (packs : Packs state records tombstones packing) (moreRecords : List StoredRecord)
    (moreTombstones : List StoredTombstone) {page : Page} {bytes : Nat}
    (isRecords : page.records = packing.current.records ++ moreRecords)
    (isTombstones : page.tombstones = packing.current.tombstones ++ moreTombstones)
    (isPageOf : PageOf state page) (isWeight : page.weight = packing.current.weight + bytes)
    (isLight : Light moreRecords moreTombstones → packing.size + bytes ≤ fileMax / 2) :
    Packs state (records ++ moreRecords) (tombstones ++ moreTombstones)
      { packing with
        current := page
        size := packing.size + bytes } where
  allRecords := by
    have isBefore := packs.allRecords
    unfold Packing.pages at isBefore ⊢
    rw [List.flatMap_append, List.flatMap_singleton] at isBefore ⊢
    rw [isRecords, ← List.append_assoc, isBefore]
  allTombstones := by
    have isBefore := packs.allTombstones
    unfold Packing.pages at isBefore ⊢
    rw [List.flatMap_append, List.flatMap_singleton] at isBefore ⊢
    rw [isTombstones, ← List.append_assoc, isBefore]
  pageOf := by
    intro other isOther
    rcases List.mem_append.mp isOther with isClosed | isLast
    · exact packs.pageOf other (List.mem_append_left _ isClosed)
    · obtain rfl := List.mem_singleton.mp isLast
      exact isPageOf
  size := by
    show page.weight = packing.size + bytes
    rw [isWeight, packs.size]
  light := by
    intro light other isOther
    have isBefore : Light records tombstones :=
      ⟨fun row isRow => light.1 row (List.mem_append_left _ isRow),
        fun row isRow => light.2 row (List.mem_append_left _ isRow)⟩
    rcases List.mem_append.mp isOther with isClosed | isLast
    · exact packs.light isBefore other (List.mem_append_left _ isClosed)
    · obtain rfl := List.mem_singleton.mp isLast
      rw [isWeight, packs.size]
      exact isLight ⟨fun row isRow => light.1 row (List.mem_append_right _ isRow),
        fun row isRow => light.2 row (List.mem_append_right _ isRow)⟩

theorem Packs.last (packs : Packs state records tombstones packing) : PageOf state packing.current :=
  packs.pageOf packing.current (List.mem_append_right _ (List.mem_singleton_self _))

theorem Packs.addRecord (packs : Packs state records [] packing) (row : StoredRecord) :
    Packs state (records ++ [row]) [] (packing.addRecord state.emptyPage row) := by
  have fill : ∀ {roomy : Packing}, Packs state records [] roomy →
      roomy.current.records.length < recordsMax →
      (row.bytes + 1 ≤ fileMax / 2 → roomy.size + (row.bytes + 1) ≤ fileMax / 2) →
      Packs state (records ++ [row]) []
        { roomy with
          current := { roomy.current with records := roomy.current.records ++ [row] }
          size := roomy.size + (row.bytes + 1) } := by
    intro roomy packs isFew isLight
    have isLast := packs.last
    refine packs.filled [row] [] rfl (List.append_nil _).symm ?_ ?_ fun light => ?_
    · refine ⟨isLast.bindingKey, isLast.recipient, isLast.overflow, ?_, isLast.fewTombstones⟩
      show (roomy.current.records ++ [row]).length ≤ recordsMax
      rw [List.length_append, List.length_singleton]
      exact isFew
    · unfold Page.weight
      dsimp only
      rw [List.map_append, List.sum_append, List.map_singleton, List.sum_singleton]
      omega
    · exact isLight (light.1 row (List.mem_singleton_self _))
  unfold Packing.addRecord
  dsimp only
  split_ifs with isFull
  · exact fill packs.turned recordsMax_pos fun isLight => (Nat.zero_add _).le.trans isLight
  · obtain ⟨isFew, isRoom⟩ := room_of_not_full isFull
    exact fill packs isFew fun _ => isRoom

theorem Packs.addTombstone (packs : Packs state records tombstones packing) (row : StoredTombstone) :
    Packs state records (tombstones ++ [row]) (packing.addTombstone state.emptyPage row) := by
  have fill : ∀ {roomy : Packing}, Packs state records tombstones roomy →
      roomy.current.tombstones.length < tombstonesMax →
      (row.bytes + 1 ≤ fileMax / 2 → roomy.size + (row.bytes + 1) ≤ fileMax / 2) →
      Packs state records (tombstones ++ [row])
        { roomy with
          current := { roomy.current with tombstones := roomy.current.tombstones ++ [row] }
          size := roomy.size + (row.bytes + 1) } := by
    intro roomy packs isFew isLight
    have isLast := packs.last
    rw [← List.append_nil records]
    refine packs.filled [] [row] (List.append_nil _).symm rfl ?_ ?_ fun light => ?_
    · refine ⟨isLast.bindingKey, isLast.recipient, isLast.overflow, isLast.fewRecords, ?_⟩
      show (roomy.current.tombstones ++ [row]).length ≤ tombstonesMax
      rw [List.length_append, List.length_singleton]
      exact isFew
    · unfold Page.weight
      dsimp only
      rw [List.map_append, List.sum_append, List.map_singleton, List.sum_singleton]
      omega
    · exact isLight (light.2 row (List.mem_singleton_self _))
  unfold Packing.addTombstone
  dsimp only
  split_ifs with isFull
  · exact fill packs.turned tombstonesMax_pos fun isLight => (Nat.zero_add _).le.trans isLight
  · obtain ⟨isFew, isRoom⟩ := room_of_not_full isFull
    exact fill packs isFew fun _ => isRoom

/-- **The pages of a ledger** hold all its rows, in their order. -/
theorem packs_pack (state : State) : Packs state state.records state.tombstones (pack state) := by
  have first : ∀ (rows earlier : List StoredRecord) (packing : Packing), Packs state earlier [] packing →
      Packs state (earlier ++ rows) [] (rows.foldl (Packing.addRecord state.emptyPage) packing) := by
    intro rows
    induction rows with
    | nil =>
      intro earlier packing packs
      rw [List.append_nil]
      exact packs
    | cons row rest ih =>
      intro earlier packing packs
      have more := ih (earlier ++ [row]) _ (packs.addRecord row)
      rw [List.append_assoc] at more
      exact more
  have second : ∀ (rows earlier : List StoredTombstone) (packing : Packing),
      Packs state state.records earlier packing → Packs state state.records (earlier ++ rows)
        (rows.foldl (Packing.addTombstone state.emptyPage) packing) := by
    intro rows
    induction rows with
    | nil =>
      intro earlier packing packs
      rw [List.append_nil]
      exact packs
    | cons row rest ih =>
      intro earlier packing packs
      have more := ih (earlier ++ [row]) _ (packs.addTombstone row)
      rw [List.append_assoc] at more
      exact more
  exact second state.tombstones [] _ (first state.records [] _ (packs_start state))

theorem parted_pages (packing : Packing) : packing.parted.1 :: packing.parted.2 = packing.pages := by
  unfold Packing.parted Packing.pages
  cases packing.closed <;> rfl

/-! ## Reading pages -/

structure Stored (maxResponse : Nat) (files : Files Name Page) (state : State) (part : Uuid) (page : Page) :
    Prop where
  isThere : files (.part part) = some page
  reads : readPage maxResponse (some page) = .ok page
  pageOf : PageOf state page

theorem readParts_of_stored {parts : List Uuid} {pages : List Page}
    (stored : List.Forall₂ (Stored maxResponse files state) parts pages) :
    ∀ earlier : State, earlier.bindingKey = state.bindingKey → earlier.recipient = state.recipient →
      readParts maxResponse files parts earlier =
        .ok
          { earlier with
            records := earlier.records ++ pages.flatMap (·.records)
            tombstones := earlier.tombstones ++ pages.flatMap (·.tombstones) } := by
  induction stored with
  | nil =>
    intro earlier _ _
    rw [readParts, List.flatMap_nil, List.flatMap_nil, List.append_nil, List.append_nil]
  | @cons part page parts pages isStored _ ih =>
    intro earlier isKey isRecipient
    have isOurs : ¬(page.overflow.isSome = true ∨ page.bindingKey ≠ earlier.bindingKey ∨
        page.recipient ≠ earlier.recipient) := by
      rw [isStored.pageOf.overflow, isStored.pageOf.bindingKey, isStored.pageOf.recipient, isKey, isRecipient]
      rintro (isSome | isOther | isOther)
      · exact nomatch isSome
      · exact isOther rfl
      · exact isOther rfl
    rw [readParts, isStored.isThere, isStored.reads]
    dsimp only
    rw [if_neg isOurs, ih (earlier.extended page) isKey isRecipient]
    unfold State.extended
    rw [List.flatMap_cons, List.flatMap_cons, ← List.append_assoc, ← List.append_assoc]

theorem readParts_congr {parts : List Uuid}
    (same : ∀ part ∈ parts, after (.part part) = files (.part part)) :
    ∀ earlier : State, readParts maxResponse after parts earlier = readParts maxResponse files parts earlier := by
  induction parts with
  | nil => exact fun _ => rfl
  | cons part rest ih =>
    intro earlier
    have sameRest := ih fun part isRest => same part (List.mem_cons_of_mem _ isRest)
    rw [readParts, readParts, same part List.mem_cons_self]
    split
    · rfl
    · split_ifs
      · rfl
      · exact sameRest _

theorem readLedger_congr {previous : List Uuid} (isBefore : previousParts maxResponse files = .ok previous)
    (sameRoot : after .root = files .root)
    (same : ∀ part ∈ previous, after (.part part) = files (.part part)) :
    readLedger maxResponse after = readLedger maxResponse files := by
  unfold readLedger
  rw [sameRoot]
  unfold previousParts at isBefore
  cases isRoot : readPage maxResponse (files .root) with
  | error error => rfl
  | ok root =>
    rw [isRoot] at isBefore
    obtain rfl := Except.ok.inj isBefore
    exact readParts_congr same root.state

/-! ## Writing a ledger -/

/-- The names a write draws are drawn once and are none of the pages before. -/
structure Fresh (previous parts : List Uuid) : Prop where
  once : parts.Nodup
  unused : ∀ part ∈ parts, part ∉ previous

/-- The names of the pages of a ledger but for the first. -/
def writtenParts (state : State) (names : Nat → Uuid) : List Uuid := partsOf names (pack state).parted.2

def writtenPages (state : State) (names : Nat → Uuid) : List Page :=
  rootOf (pack state).parted.1 (writtenParts state names) :: (pack state).parted.2

theorem partsOf_length (names : Nat → Uuid) (rest : List Page) : (partsOf names rest).length = rest.length := by
  unfold partsOf
  rw [List.length_map, List.length_range]

theorem rootOf_overflow {first : Page} (parts : List Uuid) (isNone : first.overflow = none) :
    (rootOf first parts).overflow.getD [] = parts := by
  unfold rootOf
  dsimp only
  split_ifs with isEmpty
  · exact isEmpty.symm
  · rfl

section

variable {names : Nat → Uuid}

theorem pageOf_of_mem {page : Page} (isPage : page ∈ (pack state).parted.1 :: (pack state).parted.2) :
    PageOf state page := by
  rw [parted_pages] at isPage
  exact (packs_pack state).pageOf page isPage

theorem page_parses {page : Page} (parses : state.parses maxResponse = true)
    (isPage : page ∈ (pack state).parted.1 :: (pack state).parted.2) : page.parses maxResponse = true := by
  have isPageOf := pageOf_of_mem isPage
  have packs := packs_pack state
  rw [parted_pages] at isPage
  unfold State.parses at parses
  simp only [Bool.and_eq_true, List.all_eq_true] at parses
  obtain ⟨⟨⟨isKey, isRecipient⟩, eachRecord⟩, eachTombstone⟩ := parses
  have isRecords : page.records.all (·.parses maxResponse) = true := by
    refine List.all_eq_true.mpr fun row isRow => eachRecord row ?_
    rw [← packs.allRecords]
    exact List.mem_flatMap.mpr ⟨page, isPage, isRow⟩
  have isTombstones : page.tombstones.all (·.parses) = true := by
    refine List.all_eq_true.mpr fun row isRow => eachTombstone row ?_
    rw [← packs.allTombstones]
    exact List.mem_flatMap.mpr ⟨page, isPage, isRow⟩
  unfold Page.parses
  rw [isPageOf.bindingKey, isPageOf.recipient, isKey, isRecipient, isRecords, isTombstones,
    decide_eq_true isPageOf.fewRecords, decide_eq_true isPageOf.fewTombstones]
  rfl

theorem writtenPages_parses (parses : state.parses maxResponse = true) {page : Page}
    (isPage : page ∈ writtenPages state names) : page.parses maxResponse = true := by
  rcases List.mem_cons.mp isPage with rfl | inRest
  · show (pack state).parted.1.parses maxResponse = true
    exact page_parses parses List.mem_cons_self
  · exact page_parses parses (List.mem_cons_of_mem _ inRest)

def operations (state : State) (names : Nat → Uuid) (previous : List Uuid) : List (Op Name Page) :=
  List.zipWith (fun part page => Op.write (.part part) page) (writtenParts state names) (pack state).parted.2 ++
    Op.write .root (rootOf (pack state).parted.1 (writtenParts state names)) ::
      previous.map fun part => Op.remove (.part part)

theorem writeLedger_eq {previous : List Uuid} (isBefore : previousParts maxResponse files = .ok previous)
    (parses : state.parses maxResponse = true) : writeLedger maxResponse files state names =
      if (writtenPages state names).any (fileMax < ·.bytes) then .error .sizeLimit
      else .ok (operations state names previous) := by
  have eachParses : (writtenPages state names).all (·.parses maxResponse) = true :=
    List.all_eq_true.mpr fun page isPage => writtenPages_parses parses isPage
  unfold writeLedger
  rw [isBefore]
  dsimp only
  rw [show rootOf (pack state).parted.1 (partsOf names (pack state).parted.2) :: (pack state).parted.2 =
    writtenPages state names from rfl, eachParses]
  rfl

theorem readPage_of_fits (parses : state.parses maxResponse = true) {page : Page}
    (isPage : page ∈ writtenPages state names) (isFit : page.bytes ≤ fileMax) :
    readPage maxResponse (some page) = .ok page := by
  unfold readPage
  dsimp only
  rw [if_neg (not_lt.mpr isFit), if_pos (writtenPages_parses parses isPage)]

theorem forall₂_zipWith {Left Right Out : Type} {relation : Left → Right → Prop} (combine : Left → Right → Out)
    {left : List Left} {right : List Right} (sameLength : left.length = right.length)
    (each : ∀ l r, r ∈ right → combine l r ∈ List.zipWith combine left right → relation l r) :
    List.Forall₂ relation left right := by
  induction left generalizing right with
  | nil =>
    cases right with
    | nil => exact List.Forall₂.nil
    | cons r rest => exact nomatch sameLength
  | cons l left ih =>
    cases right with
    | nil => exact nomatch sameLength
    | cons r rest =>
      refine List.Forall₂.cons (each l r List.mem_cons_self List.mem_cons_self) ?_
      refine ih (Nat.succ.inj sameLength) fun l' r' isRight isOut => ?_
      exact each l' r' (List.mem_cons_of_mem _ isRight) (List.mem_cons_of_mem _ isOut)

theorem mem_zipWith {Left Right Out : Type} {combine : Left → Right → Out} {left : List Left} {right : List Right}
    {out : Out} (isOut : out ∈ List.zipWith combine left right) :
    ∃ l r, l ∈ left ∧ r ∈ right ∧ combine l r = out := by
  rw [← List.map_uncurry_zip_eq_zipWith, List.mem_map] at isOut
  obtain ⟨⟨l, r⟩, isPair, isSame⟩ := isOut
  obtain ⟨isLeft, isRight⟩ := List.of_mem_zip isPair
  exact ⟨l, r, isLeft, isRight, isSame⟩

theorem zipWith_names {parts : List Uuid} {pages : List Page} (sameLength : parts.length = pages.length) :
    (List.zipWith (fun part page => Op.write (Name.part part) page) parts pages).map Op.name =
      parts.map Name.part := by
  induction parts generalizing pages with
  | nil => rfl
  | cons part parts ih =>
    cases pages with
    | nil => exact nomatch sameLength
    | cons page pages =>
      rw [List.zipWith_cons_cons, List.map_cons, List.map_cons, ih (Nat.succ.inj sameLength)]
      rfl

/-- The operations up to the root. -/
def pageWrites (state : State) (names : Nat → Uuid) : List (Op Name Page) :=
  List.zipWith (fun part page => Op.write (.part part) page) (writtenParts state names) (pack state).parted.2

theorem pageWrites_names (state : State) (names : Nat → Uuid) :
    (pageWrites state names).map Op.name = (writtenParts state names).map Name.part :=
  zipWith_names (partsOf_length names _)

theorem pageWrites_name {op : Op Name Page} (isWrite : op ∈ pageWrites state names) :
    ∃ part ∈ writtenParts state names, op.name = .part part := by
  have isName : op.name ∈ (pageWrites state names).map Op.name := List.mem_map_of_mem isWrite
  rw [pageWrites_names] at isName
  obtain ⟨part, isPart, isSame⟩ := List.mem_map.mp isName
  exact ⟨part, isPart, isSame.symm⟩

theorem readLedger_before {previous : List Uuid} (isBefore : previousParts maxResponse files = .ok previous)
    (fresh : Fresh previous (writtenParts state names)) (ends : Ends (pageWrites state names) files after) :
    readLedger maxResponse after = readLedger maxResponse files := by
  refine readLedger_congr isBefore ?_ fun part isPrevious => ?_
  · refine ends.untouched fun op isWrite isRoot => ?_
    obtain ⟨part, -, isPart⟩ := pageWrites_name isWrite
    exact nomatch isPart.symm.trans isRoot
  · refine ends.untouched fun op isWrite isSame => ?_
    obtain ⟨other, isOther, isPart⟩ := pageWrites_name isWrite
    obtain rfl := Name.part.inj (isPart.symm.trans isSame)
    exact fresh.unused other isOther isPrevious

theorem readLedger_after {previous : List Uuid} {between : Files Name Page} (parses : state.parses maxResponse = true)
    (fits : ∀ page ∈ writtenPages state names, page.bytes ≤ fileMax)
    (fresh : Fresh previous (writtenParts state names)) (through : Completes (pageWrites state names) files between)
    (ends : Ends (previous.map fun part => Op.remove (.part part))
      (Op.perform between (.write .root (rootOf (pack state).parted.1 (writtenParts state names)))) after) :
    readLedger maxResponse after = .ok state := by
  have removes : ∀ op ∈ previous.map (fun part => (Op.remove (Name.part part) : Op Name Page)),
      ∃ part ∈ previous, op.name = .part part := by
    intro op isRemove
    obtain ⟨part, isPart, rfl⟩ := List.mem_map.mp isRemove
    exact ⟨part, isPart, rfl⟩
  have isRoot : after .root = some (rootOf (pack state).parted.1 (writtenParts state names)) := by
    refine (ends.untouched fun op isRemove isSame => ?_).trans (Op.perform_write _ _ _)
    obtain ⟨part, -, isPart⟩ := removes op isRemove
    exact nomatch isPart.symm.trans isSame
  have stored : List.Forall₂ (Stored maxResponse after state) (writtenParts state names) (pack state).parted.2 := by
    have sameLength : (writtenParts state names).length = (pack state).parted.2.length := partsOf_length names _
    refine forall₂_zipWith (fun part page => Op.write (Name.part part) page) sameLength
      fun part page isPage isWrite => ?_
    have isPart : part ∈ writtenParts state names := by
      obtain ⟨other, isOther, isSame⟩ := pageWrites_name isWrite
      obtain rfl := Name.part.inj isSame
      exact isOther
    refine ⟨?_, ?_, pageOf_of_mem (List.mem_cons_of_mem _ isPage)⟩
    · have stays : after (.part part) = between (.part part) := by
        refine (ends.untouched fun op isRemove isSame => ?_).trans (Op.perform_of_ne nofun)
        obtain ⟨other, isOther, isName⟩ := removes op isRemove
        obtain rfl := Name.part.inj (isName.symm.trans isSame)
        exact fresh.unused other isPart isOther
      refine stays.trans (through.wrote ?_ isWrite)
      rw [pageWrites_names]
      exact fresh.once.map fun left right isSame => Name.part.inj isSame
    · have isWritten : page ∈ writtenPages state names := List.mem_cons_of_mem _ isPage
      exact readPage_of_fits parses isWritten (fits page isWritten)
  have isFirst : PageOf state (pack state).parted.1 := pageOf_of_mem List.mem_cons_self
  have isRecords := (packs_pack state).allRecords
  have isTombstones := (packs_pack state).allTombstones
  rw [← parted_pages, List.flatMap_cons] at isRecords isTombstones
  unfold readLedger
  rw [isRoot, readPage_of_fits parses List.mem_cons_self (fits _ List.mem_cons_self)]
  dsimp only
  rw [rootOf_overflow _ isFirst.overflow,
    readParts_of_stored stored (rootOf (pack state).parted.1 (writtenParts state names)).state
      isFirst.bindingKey isFirst.recipient]
  show Except.ok (State.mk (pack state).parted.1.bindingKey (pack state).parted.1.recipient
    ((pack state).parted.1.records ++ (pack state).parted.2.flatMap (·.records))
    ((pack state).parted.1.tombstones ++ (pack state).parted.2.flatMap (·.tombstones))) = _
  rw [isRecords, isTombstones, isFirst.bindingKey, isFirst.recipient]

end

end Murage.ChannelDelivery.Pages
