import Murage.ChannelDelivery.Paging

/-!
Owns how large rows and pages can be, and from it when a ledger can be written, that a write which
ends anywhere leaves the ledger before or the ledger written, and a ledger that is too large.

Does not own: how pages are filled and read.
-/

namespace Murage.ChannelDelivery.Pages

open Murage.Library.FileOps

variable {maxResponse : Nat} {state : State} {files : Files Name Page} {names : Nat → Uuid}

/-! ## Texts and numbers -/

theorem letterBytes_le (letter : Char) : letterBytes letter ≤ 6 := by
  unfold letterBytes
  split_ifs <;> omega

theorem textBytes_le {text : String} {limit : Nat} (isFit : utf16Length text ≤ limit) :
    textBytes text ≤ 6 * limit + 2 := by
  have each : ∀ letters : List Char, (letters.map letterBytes).sum ≤
      6 * (letters.map fun letter => if letter.toNat < 65536 then 1 else 2).sum := by
    intro letters
    induction letters with
    | nil => exact Nat.le_refl _
    | cons letter rest ih =>
      have isLetter := letterBytes_le letter
      rw [List.map_cons, List.map_cons, List.sum_cons, List.sum_cons]
      split_ifs <;> omega
  have whole := each text.toList
  unfold utf16Length at isFit
  unfold textBytes
  omega

theorem isId_fits {text : String} (isIdText : isId text = true) : utf16Length text ≤ 400 := by
  unfold isId at isIdText
  simp only [Bool.and_eq_true, decide_eq_true_eq] at isIdText
  exact isIdText.1.2

theorem idBytes_le {text : String} (isIdText : isId text = true) : textBytes text ≤ 2402 :=
  textBytes_le (isId_fits isIdText)

theorem fitBytes_le {limit : Nat} {text : String} (isFit : fits limit text = true) :
    textBytes text ≤ 6 * limit + 2 := textBytes_le (of_decide_eq_true isFit)

theorem wholeBytes_le {n digits : Nat} (isPositive : 1 ≤ digits) (isBelow : n < 10 ^ digits) :
    wholeBytes n ≤ digits :=
  max_le isPositive ((Nat.digits_length_le_iff (by decide) n).mpr isBelow)

theorem flagBytes_le (flag : Bool) : flagBytes flag ≤ 5 := by
  cases flag <;> decide

/-! ## Objects -/

/-- What a field adds to its object, with a comma. -/
def weigh : Option Nat → Nat
  | none => 0
  | some bytes => bytes + 1

theorem listBytes_le (parts : List Nat) : listBytes parts ≤ 2 + (parts.map (· + 1)).sum := by
  have isSum : (parts.map (· + 1)).sum = parts.sum + parts.length := by
    induction parts with
    | nil => rfl
    | cons part rest ih =>
      rw [List.map_cons, List.sum_cons, List.sum_cons, ih, List.length_cons]
      omega
  unfold listBytes
  omega

theorem objectBytes_le (fields : List (Option Nat)) : objectBytes fields ≤ 2 + (fields.map weigh).sum := by
  have isSum : ((fields.filterMap id).map (· + 1)).sum = (fields.map weigh).sum := by
    induction fields with
    | nil => rfl
    | cons part rest ih =>
      cases part with
      | none =>
        rw [List.filterMap_cons_none rfl, List.map_cons, List.sum_cons, ih]
        exact (Nat.zero_add _).symm
      | some bytes =>
        show ((bytes :: rest.filterMap id).map (· + 1)).sum = _
        rw [List.map_cons, List.map_cons, List.sum_cons, List.sum_cons, ih]
        rfl
  have isBelow := listBytes_le (fields.filterMap id)
  rw [isSum] at isBelow
  exact isBelow

theorem weigh_field {name : String} {value limit : Nat} (isShort : name.toList.length ≤ 12)
    (isBelow : value ≤ limit) : weigh (field name value) ≤ limit + 16 := by
  show name.toList.length + 3 + value + 1 ≤ limit + 16
  omega

theorem weigh_optional {Value : Type} {name : String} {bytes : Value → Nat} {value : Option Value} {limit : Nat}
    (isShort : name.toList.length ≤ 12) (isBelow : ∀ found, value = some found → bytes found ≤ limit) :
    weigh (optional name bytes value) ≤ limit + 16 := by
  cases value with
  | none => exact Nat.zero_le _
  | some found => exact weigh_field isShort (isBelow found rfl)

theorem all_found {Value : Type} {check : Value → Bool} {value : Option Value} (isChecked : value.all check = true)
    {found : Value} (isFound : value = some found) : check found = true := by
  rw [isFound] at isChecked
  exact isChecked

/-! ## Rows -/

theorem Quote.bytes_le {quote : Quote} (parses : quote.parses = true) : quote.bytes ≤ 10900 := by
  unfold Quote.parses at parses
  simp only [Bool.and_eq_true] at parses
  obtain ⟨⟨⟨isIdText, isJid⟩, isParticipant⟩, isText⟩ := parses
  have weighed := objectBytes_le
    [field "id" (textBytes quote.id), optional "remoteJid" textBytes quote.remoteJid,
      optional "participant" textBytes quote.participant, optional "fromMe" flagBytes quote.fromMe,
      optional "text" textBytes quote.text]
  have first : weigh (field "id" (textBytes quote.id)) ≤ 2402 + 16 := weigh_field (by decide) (idBytes_le isIdText)
  have second : weigh (optional "remoteJid" textBytes quote.remoteJid) ≤ 2402 + 16 :=
    weigh_optional (by decide) fun _ isFound => idBytes_le (all_found isJid isFound)
  have third : weigh (optional "participant" textBytes quote.participant) ≤ 2402 + 16 :=
    weigh_optional (by decide) fun _ isFound => idBytes_le (all_found isParticipant isFound)
  have fourth : weigh (optional "fromMe" flagBytes quote.fromMe) ≤ 5 + 16 :=
    weigh_optional (by decide) fun found _ => flagBytes_le found
  have fifth : weigh (optional "text" textBytes quote.text) ≤ 6 * 600 + 2 + 16 :=
    weigh_optional (by decide) fun _ isFound => fitBytes_le (all_found isText isFound)
  unfold Quote.bytes
  simp only [List.map_cons, List.map_nil, List.sum_cons, List.sum_nil] at weighed
  omega

theorem Media.jsonBytes_le {media : Media} (parses : media.parses = true) : media.jsonBytes ≤ 4400 := by
  unfold Media.parses at parses
  simp only [Bool.and_eq_true, decide_eq_true_eq] at parses
  obtain ⟨⟨⟨-, isPath⟩, isMime⟩, isBelow⟩ := parses
  have weighed := objectBytes_le
    [field "path" (textBytes media.path), field "mime" (textBytes media.mime),
      field "bytes" (wholeBytes media.bytes)]
  have first : weigh (field "path" (textBytes media.path)) ≤ 6 * 600 + 2 + 16 :=
    weigh_field (by decide) (fitBytes_le isPath)
  have second : weigh (field "mime" (textBytes media.mime)) ≤ 6 * 120 + 2 + 16 :=
    weigh_field (by decide) (fitBytes_le isMime)
  have third : weigh (field "bytes" (wholeBytes media.bytes)) ≤ 16 + 16 :=
    weigh_field (by decide) (wholeBytes_le (by decide) (by omega))
  unfold Media.jsonBytes
  simp only [List.map_cons, List.map_nil, List.sum_cons, List.sum_nil] at weighed
  omega

theorem mediaBytes_le {media : List Media} (isFew : media.length ≤ 8) (parses : media.all (·.parses) = true) :
    listBytes (media.map (·.jsonBytes)) ≤ 35210 := by
  have each : ∀ rows : List Media, (∀ row ∈ rows, row.parses = true) →
      ((rows.map (·.jsonBytes)).map (· + 1)).sum ≤ 4401 * rows.length := by
    intro rows
    induction rows with
    | nil => exact fun _ => Nat.le_refl _
    | cons row rest ih =>
      intro eachParses
      have isRow := Media.jsonBytes_le (eachParses row List.mem_cons_self)
      have isRest := ih fun row isRow => eachParses row (List.mem_cons_of_mem _ isRow)
      rw [List.map_cons, List.map_cons, List.sum_cons, List.length_cons]
      omega
  have isBelow := listBytes_le (media.map (·.jsonBytes))
  have isSum := each media (List.all_eq_true.mp parses)
  omega

theorem stateText_bytes (recordState : RecordState) : textBytes (stateText recordState) ≤ 14 := by
  cases recordState <;> decide

theorem StoredRecord.bytes_le {row : StoredRecord} (parses : row.parses maxResponse = true)
    (isShort : maxResponse ≤ 20000) : row.bytes ≤ 250000 := by
  unfold StoredRecord.parses at parses
  simp only [Bool.and_eq_true, decide_eq_true_eq] at parses
  obtain ⟨⟨⟨⟨⟨⟨⟨⟨⟨isDelivery, isDedupe⟩, isPrompt⟩, isRun⟩, isResponse⟩, isAttempts⟩, isMessage⟩, isError⟩,
    isQuote⟩, isMedia⟩ := parses
  have weighed := objectBytes_le
    [field "deliveryId" (textBytes row.deliveryId), optional "dedupeId" textBytes row.dedupeId,
      field "prompt" (textBytes row.prompt), field "occurredAt" row.occurredAt.bytes,
      optional "runId" textBytes row.runId, field "state" (textBytes (stateText row.state)),
      optional "response" textBytes row.response, field "attempts" (wholeBytes row.attempts),
      optional "retryAt" Numeral.bytes row.retryAt, optional "messageId" textBytes row.messageId,
      optional "error" textBytes row.error, optional "quote" Quote.bytes row.quote,
      optional "media" (fun media => listBytes (media.map (·.jsonBytes))) row.media,
      optional "noticeSent" flagBytes row.noticeSent]
  have delivery : weigh (field "deliveryId" (textBytes row.deliveryId)) ≤ 2402 + 16 :=
    weigh_field (by decide) (idBytes_le isDelivery)
  have dedupe : weigh (optional "dedupeId" textBytes row.dedupeId) ≤ 2402 + 16 :=
    weigh_optional (by decide) fun _ isFound => idBytes_le (all_found isDedupe isFound)
  have prompt : weigh (field "prompt" (textBytes row.prompt)) ≤ 6 * 6000 + 2 + 16 :=
    weigh_field (by decide) (fitBytes_le isPrompt)
  have occurred : weigh (field "occurredAt" row.occurredAt.bytes) ≤ 25 + 16 :=
    weigh_field (by decide) row.occurredAt.isShort
  have run : weigh (optional "runId" textBytes row.runId) ≤ 2402 + 16 :=
    weigh_optional (by decide) fun _ isFound => idBytes_le (all_found isRun isFound)
  have stands : weigh (field "state" (textBytes (stateText row.state))) ≤ 14 + 16 :=
    weigh_field (by decide) (stateText_bytes row.state)
  have response : weigh (optional "response" textBytes row.response) ≤ 6 * maxResponse + 2 + 16 :=
    weigh_optional (by decide) fun _ isFound => fitBytes_le (all_found isResponse isFound)
  have attempts : weigh (field "attempts" (wholeBytes row.attempts)) ≤ 1 + 16 :=
    weigh_field (by decide) (wholeBytes_le (by decide) (by omega))
  have retry : weigh (optional "retryAt" Numeral.bytes row.retryAt) ≤ 25 + 16 :=
    weigh_optional (by decide) fun found _ => found.isShort
  have message : weigh (optional "messageId" textBytes row.messageId) ≤ 2402 + 16 :=
    weigh_optional (by decide) fun _ isFound => idBytes_le (all_found isMessage isFound)
  have error : weigh (optional "error" textBytes row.error) ≤ 6 * 60 + 2 + 16 :=
    weigh_optional (by decide) fun _ isFound => fitBytes_le (all_found isError isFound)
  have quote : weigh (optional "quote" Quote.bytes row.quote) ≤ 10900 + 16 :=
    weigh_optional (by decide) fun _ isFound => Quote.bytes_le (all_found isQuote isFound)
  have media : weigh (optional "media" (fun media => listBytes (media.map (·.jsonBytes))) row.media) ≤ 35210 + 16 := by
    refine weigh_optional (by decide) fun found isFound => ?_
    have isChecked := all_found isMedia isFound
    rw [Bool.and_eq_true, decide_eq_true_eq] at isChecked
    exact mediaBytes_le isChecked.1 isChecked.2
  have notice : weigh (optional "noticeSent" flagBytes row.noticeSent) ≤ 5 + 16 :=
    weigh_optional (by decide) fun found _ => flagBytes_le found
  unfold StoredRecord.bytes
  simp only [List.map_cons, List.map_nil, List.sum_cons, List.sum_nil] at weighed
  omega

theorem StoredTombstone.bytes_le {row : StoredTombstone} (parses : row.parses = true) : row.bytes ≤ 5000 := by
  unfold StoredTombstone.parses at parses
  rw [Bool.and_eq_true] at parses
  have weighed := objectBytes_le
    [field "deliveryId" (textBytes row.deliveryId), optional "dedupeId" textBytes row.dedupeId,
      field "occurredAt" row.occurredAt.bytes]
  have delivery : weigh (field "deliveryId" (textBytes row.deliveryId)) ≤ 2402 + 16 :=
    weigh_field (by decide) (idBytes_le parses.1)
  have dedupe : weigh (optional "dedupeId" textBytes row.dedupeId) ≤ 2402 + 16 :=
    weigh_optional (by decide) fun _ isFound => idBytes_le (all_found parses.2 isFound)
  have occurred : weigh (field "occurredAt" row.occurredAt.bytes) ≤ 25 + 16 :=
    weigh_field (by decide) row.occurredAt.isShort
  unfold StoredTombstone.bytes
  simp only [List.map_cons, List.map_nil, List.sum_cons, List.sum_nil] at weighed
  omega

theorem light_of_parses (parses : state.parses maxResponse = true) (isShort : maxResponse ≤ 20000) :
    Light state.records state.tombstones := by
  unfold State.parses at parses
  simp only [Bool.and_eq_true, List.all_eq_true] at parses
  obtain ⟨⟨-, eachRecord⟩, eachTombstone⟩ := parses
  have isHalf : fileMax / 2 = 2097152 := by decide
  rw [Light, isHalf]
  refine ⟨fun row isRow => ?_, fun row isRow => ?_⟩
  · have isSmall := StoredRecord.bytes_le (eachRecord row isRow) isShort
    omega
  · have isSmall := StoredTombstone.bytes_le (eachTombstone row isRow)
    omega

/-! ## Pages -/

theorem refs_sum (parts : List Uuid) : ((parts.map fun _ => uuidBytes).map (· + 1)).sum = 39 * parts.length := by
  induction parts with
  | nil => rfl
  | cons part rest ih =>
    rw [List.map_cons, List.map_cons, List.sum_cons, ih, List.length_cons]
    unfold uuidBytes
    omega

theorem Page.bytes_le {page : Page} (parses : page.parses maxResponse = true) :
    page.bytes ≤ page.weight + 39 * (page.overflow.getD []).length + 5000 := by
  unfold Page.parses at parses
  simp only [Bool.and_eq_true] at parses
  obtain ⟨⟨⟨⟨⟨isKey, isRecipient⟩, -⟩, -⟩, -⟩, -⟩ := parses
  have weighed := objectBytes_le
    [field "version" 1, field "bindingKey" (textBytes page.bindingKey),
      field "recipient" (textBytes page.recipient),
      field "records" (listBytes (page.records.map (·.bytes))),
      field "tombstones" (listBytes (page.tombstones.map (·.bytes))),
      optional "overflow" (fun parts => listBytes (parts.map fun _ => uuidBytes)) page.overflow]
  have version : weigh (field "version" 1) ≤ 1 + 16 := weigh_field (by decide) (Nat.le_refl _)
  have key : weigh (field "bindingKey" (textBytes page.bindingKey)) ≤ 2402 + 16 :=
    weigh_field (by decide) (idBytes_le isKey)
  have recipient : weigh (field "recipient" (textBytes page.recipient)) ≤ 2402 + 16 :=
    weigh_field (by decide) (idBytes_le isRecipient)
  have records : weigh (field "records" (listBytes (page.records.map (·.bytes)))) ≤
      2 + ((page.records.map (·.bytes)).map (· + 1)).sum + 16 := weigh_field (by decide) (listBytes_le _)
  have tombstones : weigh (field "tombstones" (listBytes (page.tombstones.map (·.bytes)))) ≤
      2 + ((page.tombstones.map (·.bytes)).map (· + 1)).sum + 16 := weigh_field (by decide) (listBytes_le _)
  have overflow : weigh (optional "overflow" (fun parts => listBytes (parts.map fun _ => uuidBytes))
      page.overflow) ≤ 2 + 39 * (page.overflow.getD []).length + 16 := by
    refine weigh_optional (by decide) fun parts isParts => ?_
    rw [isParts, ← refs_sum]
    exact listBytes_le _
  rw [List.map_map] at records tombstones
  unfold Page.bytes Page.weight
  simp only [List.map_cons, List.map_nil, List.sum_cons, List.sum_nil] at weighed
  have sameRecords : (page.records.map ((· + 1) ∘ (·.bytes))).sum = (page.records.map (·.bytes + 1)).sum := rfl
  have sameTombstones : (page.tombstones.map ((· + 1) ∘ (·.bytes))).sum =
      (page.tombstones.map (·.bytes + 1)).sum := rfl
  omega

/-- **A ledger of fifty thousand pages** can be written, whatever its rows are. -/
theorem writtenPages_fit (parses : state.parses maxResponse = true) (isShort : maxResponse ≤ 20000)
    (isFew : (pack state).parted.2.length ≤ 50000) {page : Page} (isPage : page ∈ writtenPages state names) :
    page.bytes ≤ fileMax := by
  have isMax : fileMax = 4194304 := by decide
  have isHalf : fileMax / 2 = 2097152 := by decide
  have light : ∀ page ∈ (pack state).parted.1 :: (pack state).parted.2, page.weight ≤ 2097152 := by
    intro page isPage
    rw [parted_pages] at isPage
    exact isHalf ▸ (packs_pack state).light (light_of_parses parses isShort) page isPage
  have isBelow := Page.bytes_le (writtenPages_parses parses isPage)
  rcases List.mem_cons.mp isPage with rfl | inRest
  · have isOverflow := rootOf_overflow (writtenParts state names)
      (pageOf_of_mem (List.mem_cons_self : (pack state).parted.1 ∈ _ :: (pack state).parted.2)).overflow
    have isWeight : (rootOf (pack state).parted.1 (writtenParts state names)).weight ≤ 2097152 :=
      light (pack state).parted.1 List.mem_cons_self
    have isCount : (writtenParts state names).length = (pack state).parted.2.length := partsOf_length names _
    rw [isOverflow] at isBelow
    omega
  · have isNone := (pageOf_of_mem (List.mem_cons_of_mem (pack state).parted.1 inRest)).overflow
    have isWeight := light page (List.mem_cons_of_mem _ inRest)
    rw [isNone] at isBelow
    have isZero : ((none : Option (List Uuid)).getD []).length = 0 := rfl
    omega

/-! ## Every write -/

/-- **A write is atomic and loses nothing.** Over every ledger before, a ledger within the limits of its
rows is written, where its pages are small enough: a write that goes through leaves exactly the ledger
written, one that ends anywhere leaves it or the ledger before, and every page can be read. A ledger
with a page that is too large is refused before anything is written; none of fifty thousand pages is. -/
theorem writeLedger_atomic {previous : List Uuid} (isBefore : previousParts maxResponse files = .ok previous)
    (parses : state.parses maxResponse = true) (fresh : Fresh previous (writtenParts state names)) :
    ((∀ page ∈ writtenPages state names, page.bytes ≤ fileMax) →
      ∃ ops, writeLedger maxResponse files state names = .ok ops ∧
        (∀ after, Completes ops files after → readLedger maxResponse after = .ok state) ∧
        (∀ after, Ends ops files after →
          readLedger maxResponse after = readLedger maxResponse files ∨ readLedger maxResponse after = .ok state) ∧
        ∀ name page, Op.write name page ∈ ops → readPage maxResponse (some page) = .ok page) ∧
      (¬(∀ page ∈ writtenPages state names, page.bytes ≤ fileMax) →
        writeLedger maxResponse files state names = .error .sizeLimit) ∧
      (maxResponse ≤ 20000 → (writtenPages state names).length ≤ 50001 →
        ∀ page ∈ writtenPages state names, page.bytes ≤ fileMax) := by
  have isLarge : (writtenPages state names).any (fileMax < ·.bytes) = true ↔
      ¬∀ page ∈ writtenPages state names, page.bytes ≤ fileMax := by
    simp only [List.any_eq_true, decide_eq_true_eq, not_forall, not_le, exists_prop]
  refine ⟨fun fits => ?_, fun notFits => ?_, fun isShort isFew page isPage => ?_⟩
  · refine ⟨operations state names previous, ?_, fun after completes => ?_, fun after ends => ?_,
      fun name page isWrite => ?_⟩
    · rw [writeLedger_eq isBefore parses, if_neg fun isOver => isLarge.mp isOver fits]
    · obtain ⟨between, through, atRoot⟩ := Completes.append completes
      cases atRoot with
      | step removes => exact readLedger_after parses fits fresh through removes.ends
    · refine Ends.commit ends (fun reached inPages => readLedger_before isBefore fresh inPages)
        (fun between reached through removes => readLedger_after parses fits fresh through removes) ?_
      exact ⟨_, _, rfl⟩
    · have isPage : page ∈ writtenPages state names := by
        rcases List.mem_append.mp isWrite with isPart | isRest
        · obtain ⟨_, other, -, isRest, isSame⟩ := mem_zipWith isPart
          rw [← (Op.write.inj isSame).2]
          exact List.mem_cons_of_mem _ isRest
        · rcases List.mem_cons.mp isRest with isRoot | isRemove
          · rw [(Op.write.inj isRoot).2]
            exact List.mem_cons_self
          · obtain ⟨part, -, isSame⟩ := List.mem_map.mp isRemove
            exact nomatch isSame
      exact readPage_of_fits parses isPage (fits page isPage)
  · rw [writeLedger_eq isBefore parses, if_pos (isLarge.mpr notFits)]
  · refine writtenPages_fit parses isShort ?_ isPage
    have isCount : (writtenPages state names).length = (pack state).parted.2.length + 1 := rfl
    omega

/-! ## A ledger that is too large -/

theorem le_listBytes {parts : List Nat} {part : Nat} (isPart : part ∈ parts) : part ≤ listBytes parts := by
  have isBelow : part ≤ parts.sum := List.le_sum_of_mem isPart
  unfold listBytes
  omega

theorem rootBytes_ge (first : Page) {parts : List Uuid} (isSome : parts ≠ []) :
    38 * parts.length ≤ (rootOf first parts).bytes := by
  have isOverflow : (rootOf first parts).overflow = some parts := if_neg isSome
  have isSum : (parts.map fun _ => uuidBytes).sum = 38 * parts.length := by
    clear isSome isOverflow
    induction parts with
    | nil => rfl
    | cons part rest ih =>
      rw [List.map_cons, List.sum_cons, ih, List.length_cons]
      unfold uuidBytes
      omega
  have isList : 38 * parts.length ≤ listBytes (parts.map fun _ => uuidBytes) := by
    unfold listBytes
    omega
  have isField : "overflow".toList.length + 3 + listBytes (parts.map fun _ => uuidBytes) ≤
      (rootOf first parts).bytes := by
    unfold Page.bytes objectBytes
    refine le_listBytes (List.mem_filterMap.mpr ⟨some _, ?_, rfl⟩)
    rw [isOverflow]
    simp only [optional, field, Option.bind_some, List.mem_cons, true_or, or_true]
  omega

theorem records_le (state : State) :
    state.records.length ≤ recordsMax * ((pack state).parted.2.length + 1) := by
  have packs := packs_pack state
  have each : ∀ pages : List Page, (∀ page ∈ pages, page.records.length ≤ recordsMax) →
      (pages.flatMap (·.records)).length ≤ recordsMax * pages.length := by
    intro pages
    induction pages with
    | nil => exact fun _ => Nat.le_refl _
    | cons page rest ih =>
      intro few
      have isPage := few page List.mem_cons_self
      have isRest := ih fun page isRest => few page (List.mem_cons_of_mem _ isRest)
      rw [List.flatMap_cons, List.length_append, List.length_cons, Nat.mul_succ]
      omega
  have isBelow := each (pack state).pages fun page isPage => (packs.pageOf page isPage).fewRecords
  rw [packs.allRecords, ← parted_pages, List.length_cons] at isBelow
  exact isBelow

theorem crowded_refused {previous : List Uuid} (isBefore : previousParts maxResponse files = .ok previous)
    (parses : state.parses maxResponse = true) (isMany : 22100000 ≤ state.records.length) :
    writeLedger maxResponse files state names = .error .sizeLimit := by
  have isPages := records_le state
  have isCount : (writtenParts state names).length = (pack state).parted.2.length := partsOf_length names _
  rw [show recordsMax = 200 from rfl] at isPages
  have isMax : fileMax = 4194304 := by decide
  have isSome : writtenParts state names ≠ [] := by
    intro isNone
    rw [isNone, List.length_nil] at isCount
    omega
  have isLarge := rootBytes_ge (pack state).parted.1 isSome
  rw [writeLedger_eq isBefore parses, if_pos]
  refine List.any_eq_true.mpr ⟨_, List.mem_cons_self, decide_eq_true ?_⟩
  omega

/-! ## Two ledgers -/

def shortRecord : StoredRecord where
  deliveryId := "m"
  prompt := ""
  occurredAt := ⟨"0", by decide⟩
  state := .accepted

def crowdedState : State where
  bindingKey := "binding"
  recipient := "chat"
  records := List.replicate 22100000 shortRecord

def noFiles : Files Name Page := fun _ => none

def numbered (i : Nat) : Uuid := BitVec.ofNat 128 i

/-- Twenty-two million records, each within its limits, are not written. -/
theorem crowdedState_refused : crowdedState.parses 4000 = true ∧
    writeLedger 4000 noFiles crowdedState numbered = .error .sizeLimit := by
  have parses : crowdedState.parses 4000 = true := by
    have each : crowdedState.records.all (·.parses 4000) = true := by
      refine List.all_eq_true.mpr fun row isRow => ?_
      rw [List.eq_of_mem_replicate isRow]
      decide
    unfold State.parses
    rw [each]
    decide
  have isBefore : previousParts 4000 noFiles = .ok [] := rfl
  exact ⟨parses, crowded_refused isBefore parses (List.length_replicate).ge⟩

def smallState : State where
  bindingKey := "binding"
  recipient := "chat"
  records := [shortRecord]

/-- The ledger before: a root with one further page. -/
def smallFiles : Files Name Page
  | .root => some
      { bindingKey := "binding"
        recipient := "chat"
        overflow := some [7] }
  | .part _ => some
      { bindingKey := "binding"
        recipient := "chat" }

theorem writeLedger_atomic_example :
    ∃ ops, writeLedger 4000 smallFiles smallState numbered = .ok ops ∧
      ∀ after, Completes ops smallFiles after → readLedger 4000 after = .ok smallState := by
  have isNone : writtenParts smallState numbered = [] := by decide
  have fresh : Fresh [7] (writtenParts smallState numbered) := by
    rw [isNone]
    exact ⟨List.nodup_nil, fun part isPart => absurd isPart List.not_mem_nil⟩
  have isBefore : previousParts 4000 smallFiles = .ok [7] := by decide
  have parses : smallState.parses 4000 = true := by decide
  obtain ⟨written, -, fits⟩ := writeLedger_atomic isBefore parses fresh
  have isSingle : (writtenPages smallState numbered).length = 1 := by decide
  obtain ⟨ops, isOps, completes, -, -⟩ := written (fits (by decide) (isSingle ▸ by decide))
  exact ⟨ops, isOps, completes⟩

end Murage.ChannelDelivery.Pages
