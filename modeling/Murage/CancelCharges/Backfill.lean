import Murage.CancelCharges.Recording

/-!
Owns that a backfill leaves every paid invoice of its subscription tracked, and what holds of
every run of the system.

Does not own: the promise itself.
-/

namespace Murage.CancelCharges

open Murage.Library.Resumption
open Murage.Library.Transition

/-! ## Listings -/

section

variable {p : ChargePromise} {w : World}

def Paid (xs : List Invoice) (w : World) : Prop :=
  ∀ x ∈ xs, x ∈ w.stripe.invoices ∧ x.status = .paid

variable {next : World} {xs : List Invoice}

theorem Paid.later (paid : Paid xs w) (moved : Later w next) :
    Paid xs next :=
  fun x isPaid => ⟨moved.paid x (paid x isPaid).1 (paid x isPaid).2, (paid x isPaid).2⟩

/-- Where a paid invoice lies past a cursor. -/
def Ahead (w : World) (x : Invoice) (after : Option String) : Prop :=
  ∀ id, after = some id → ∃ c ∈ w.stripe.invoices, c.id = id ∧ c.status = .paid ∧ x.seq < c.seq

variable {after : Option String}

theorem Ahead.later {x : Invoice} (moved : Later w next) (ahead : Ahead w x after) :
    Ahead next x after := by
  intro id isAfter
  obtain ⟨c, isHere, sameId, isPaid, isPast⟩ := ahead id isAfter
  exact ⟨c, moved.paid c isHere isPaid, sameId, isPaid, isPast⟩

theorem find_of_mem (sound : Sound p.subscriptionId p.promisedEndAt w) {i : Invoice}
    (isHere : i ∈ w.stripe.invoices) : w.stripe.find i.id = some i := by
  unfold Stripe.find
  cases found : w.stripe.invoices.find? (·.id = i.id) with
  | none => exact absurd (List.find?_eq_none.mp found i isHere) (by simp)
  | some j =>
    have isIn := List.mem_of_find?_eq_some found
    rw [sound.invoice_eq isIn isHere (by simpa using List.find?_some found)]

variable {status : InvoiceStatus}

theorem matching_mem {s : Stripe} {rows : List Invoice}
    (isRows : s.matching status after = some rows) {i : Invoice} (isRow : i ∈ rows) :
    i ∈ s.invoices ∧ i.status = status := by
  unfold Stripe.matching at isRows
  split at isRows
  · cases isRows
    exact ⟨List.mem_of_mem_filter isRow, by simpa using (List.mem_filter.mp isRow).2⟩
  · obtain ⟨cursor, _, isFiltered⟩ := Option.map_eq_some_iff.mp isRows
    rw [← isFiltered] at isRow
    have isMatch := (List.mem_filter.mp isRow).2
    simp only [Bool.and_eq_true, decide_eq_true_eq] at isMatch
    exact ⟨List.mem_of_mem_filter isRow, isMatch.2⟩

theorem matching_spec (sound : Sound p.subscriptionId p.promisedEndAt w)
    {rows : List Invoice} (isRows : w.stripe.matching status after = some rows) :
    rows.Pairwise (fun a b => b.seq < a.seq) ∧
      ∀ x ∈ w.stripe.invoices, x.status = status → Ahead w x after → x ∈ rows := by
  unfold Stripe.matching at isRows
  split at isRows
  · cases isRows
    exact ⟨sound.newest.filter _, fun x isHere isStatus _ =>
      List.mem_filter.mpr ⟨isHere, by simpa using isStatus⟩⟩
  · rename_i id
    obtain ⟨cursor, isCursor, isFiltered⟩ := Option.map_eq_some_iff.mp isRows
    rw [← isFiltered]
    refine ⟨sound.newest.filter _, fun x isHere isStatus ahead => ?_⟩
    obtain ⟨c, isIn, rfl, _, isPast⟩ := ahead id rfl
    rw [find_of_mem sound isIn] at isCursor
    cases isCursor
    exact List.mem_filter.mpr ⟨isHere, by simp [isPast, isStatus]⟩

theorem page_cases {rows : List Invoice} (newest : rows.Pairwise fun a b => b.seq < a.seq)
    {x : Invoice} (isRow : x ∈ rows) (size : Nat) :
    x ∈ rows.take size ∨ (size < rows.length ∧
      ∀ c, (rows.take size).getLast? = some c → x.seq < c.seq) := by
  rw [← List.take_append_drop size rows] at isRow newest
  rcases List.mem_append.mp isRow with onPage | isPast
  · exact Or.inl onPage
  · refine Or.inr ⟨?_, fun c isLast => ?_⟩
    · by_contra isAll
      rw [List.drop_eq_nil_of_le (Nat.not_lt.mp isAll)] at isPast
      cases isPast
    · exact (List.pairwise_append.mp newest).2.2 c (List.mem_of_getLast? isLast) x isPast

/-- What a page gives out of the invoices that were paid. -/
private structure OnPage (status : InvoiceStatus) (xs : List Invoice) (w : World)
    (out : List InvoiceView) (page : List InvoiceView × Bool) : Prop where
  answered : ∀ v ∈ page.1, v ∈ w.stripe.answered
  paid : status = .paid → ∀ x ∈ xs, x.view ∈ out ++ page.1 ∨ (page.2 = true ∧
    ∀ last, page.1.getLast? = some last → Ahead w x (some last.id))

theorem listPage_meets {out : List InvoiceView} (paid : Paid xs w)
    (onPage : status = .paid → ∀ x ∈ xs, x.view ∈ out ∨ Ahead w x after) :
    Meets (Sound p.subscriptionId p.promisedEndAt) Later
      (fun value next => Later w next ∧ ∀ page, value = .ok page → OnPage status xs next out page)
      (listPage status after) w := by
  refine ask_meets ?_ ?_ ?_
  · intro s page isPage v isView
    obtain ⟨rows, isRows, rfl⟩ := Option.map_eq_some_iff.mp isPage
    obtain ⟨i, isTaken, rfl⟩ := List.mem_map.mp isView
    exact Invoice.shown (matching_mem isRows (List.mem_of_mem_take isTaken)).1 (Or.inl rfl)
  · intro next page last moved sound isPage more isOut
    refine ⟨moved.trans more, fun other isOther => ?_⟩
    cases isOther
    refine ⟨isOut, fun isListing x isX => ?_⟩
    obtain ⟨isHere, isPaid⟩ := paid.later moved x isX
    obtain ⟨rows, isRows, rfl⟩ := Option.map_eq_some_iff.mp isPage
    obtain ⟨newest, among⟩ := matching_spec sound isRows
    rcases onPage isListing x isX with wasOut | ahead
    · exact Or.inl (List.mem_append_left _ wasOut)
    have isRow := among x isHere (isPaid.trans isListing.symm) (ahead.later moved)
    rcases page_cases newest isRow LIST_PAGE with isTaken | ⟨hasMore, isPast⟩
    · exact Or.inl (List.mem_append_right _ (List.mem_map_of_mem isTaken))
    · refine Or.inr ⟨by simpa using hasMore, fun view isLast id isId => ?_⟩
      rw [List.getLast?_map] at isLast
      obtain ⟨c, isCursor, rfl⟩ := Option.map_eq_some_iff.mp isLast
      cases isId
      have isRowC := List.mem_of_mem_take (List.mem_of_getLast? isCursor)
      obtain ⟨isIn, isStatus⟩ := matching_mem isRows isRowC
      have paidC : c.status = .paid := isStatus.trans isListing
      exact ⟨c, more.paid c isIn paidC, rfl, paidC, isPast c isCursor⟩
  · exact fun error last moved => ⟨moved, fun page isPage => by cases isPage⟩

structure Listed (status : InvoiceStatus) (xs : List Invoice) (w : World) (out : List InvoiceView) :
    Prop where
  answered : ∀ v ∈ out, v ∈ w.stripe.answered
  paid : status = .paid → ∀ x ∈ xs, x.view ∈ out

theorem listPages_meets (pages : Nat) {out : List InvoiceView} (paid : Paid xs w)
    (answered : ∀ v ∈ out, v ∈ w.stripe.answered)
    (onPage : status = .paid → ∀ x ∈ xs, x.view ∈ out ∨ Ahead w x after) :
    Meets (Sound p.subscriptionId p.promisedEndAt) Later
      (fun value next => Later w next ∧ ∀ out, value = .ok out → Listed status xs next out)
      (listPages status pages after out) w := by
  induction pages generalizing after out w with
  | zero => exact Meets.fail fun next moved _ => ⟨moved, fun out isOut => by cases isOut⟩
  | succ pages ih =>
    refine Meets.seq Later.refl (listPage_meets paid onPage) (fun page a _ ended => ?_)
      fun error a _ ended => ⟨ended.1, fun out isOut => by cases isOut⟩
    obtain ⟨toA, isPage⟩ := ended
    have read := isPage page rfl
    have answeredA : ∀ v ∈ out ++ page.1, v ∈ a.stripe.answered := fun v isView =>
      (List.mem_append.mp isView).elim (fun isOld => toA.answered v (answered v isOld))
        (read.answered v)
    have failed : ∀ next, Later a next → Later w next ∧ ∀ out,
        Except.error "invoices_incomplete" = Except.ok out → Listed status xs next out :=
      fun next moved => ⟨toA.trans moved, fun out isOut => by cases isOut⟩
    split_ifs with isLast
    · refine Meets.pure fun next moved _ => ⟨toA.trans moved, fun all isAll => ?_⟩
      cases isAll
      refine ⟨fun v isView => moved.answered v (answeredA v isView), fun isListing x isX => ?_⟩
      rcases read.paid isListing x isX with isOut | ⟨hasMore, _⟩
      · exact isOut
      · rw [isLast] at hasMore
        cases hasMore
    split
    · exact Meets.fail fun next moved _ => failed next moved
    rename_i last isCursor
    split_ifs
    · exact Meets.fail fun next moved _ => failed next moved
    refine (ih (paid.later toA) answeredA fun isListing x isX => ?_).imp
      fun value next _ ended => ⟨toA.trans ended.1, ended.2⟩
    exact (read.paid isListing x isX).imp_right fun more => more.2 last isCursor

/-! ## The backfill -/

theorem attempt_seq {α β : Type} {program : Prog World α}
    {rest : Except String α → Prog World β} {mid : World → Prop}
    {ends : Except String β → World → Prop}
    (meets : Meets (Sound p.subscriptionId p.promisedEndAt) Later (fun _ next => mid next) program w)
    (goes : ∀ value next, Sound p.subscriptionId p.promisedEndAt next → mid next →
      Meets (Sound p.subscriptionId p.promisedEndAt) Later ends (rest value) next) :
    Meets (Sound p.subscriptionId p.promisedEndAt) Later ends (program.attempt >>= rest) w :=
  Meets.bind Later.refl (Meets.attempt (meets.imp fun value next sound ended => goes value next sound ended))

theorem passed {α : Type} {program : Prog World α} {post : Except String α → World → Prop}
    (meets : Meets (Sound p.subscriptionId p.promisedEndAt) Later post program w) :
    Meets (Sound p.subscriptionId p.promisedEndAt) Later
      (fun value next => Later w next ∧ post value next) program w :=
  meets.and_later fun _ _ _ => Later.trans

/-- What the loops keep: the awaits that passed, and that an invoice set apart is tracked. -/
private structure Apart (p : ChargePromise) (w : World) (done : List String) (next : World) : Prop where
  later : Later w next
  tracks : ∀ id ∈ done, Tracks p.subscriptionId next id

theorem Apart.go {done : List String} {last : World} (apart : Apart p w done next)
    (moved : Later next last) : Apart p w done last where
  later := apart.later.trans moved
  tracks id isDone := moved.tracks _ _ (apart.tracks id isDone)

theorem getInvoice_meets (id : String) :
    Meets (Sound p.subscriptionId p.promisedEndAt) Later
      (fun value next => ∀ inv, value = .ok inv → inv ∈ next.stripe.answered) (getInvoice id) w := by
  refine ask_meets ?_ ?_ fun error last _ inv isInv => by cases isInv
  · intro s value isValue v isView
    obtain ⟨i, isFound, rfl⟩ := Option.map_eq_some_iff.mp isValue
    rw [List.mem_singleton.mp isView]
    exact Invoice.shown (List.mem_of_find?_eq_some isFound) (Or.inl rfl)
  · intro next value last _ _ _ _ isAnswered inv isInv
    cases isInv
    exact isAnswered value List.mem_cons_self

theorem recheck_meets {now : Int} {acc : Nat × List String} {t : InvoiceCheck}
    (apart : Apart p w acc.2 next) (isTracked : Tracks p.subscriptionId next t.invoiceId) :
    Meets (Sound p.subscriptionId p.promisedEndAt) Later
      (fun value last => ∃ acc, value = .ok acc ∧ Apart p w acc.2 last) (recheck p now acc t) next := by
  unfold recheck
  split_ifs with isFinal
  · refine Meets.pure fun last moved _ => ⟨_, rfl, (apart.go moved).later, fun id isDone => ?_⟩
    rcases List.mem_append.mp isDone with wasDone | isNew
    · exact (apart.go moved).tracks id wasDone
    · rw [List.mem_singleton.mp isNew]
      exact moved.tracks _ _ isTracked
  have read : Meets (Sound p.subscriptionId p.promisedEndAt) Later (fun _ _ => True)
      (do
        let inv ← getInvoice t.invoiceId
        if inv.id = "" then pure .final else recordInvoice p inv now) next := by
    refine Meets.seq Later.refl (getInvoice_meets t.invoiceId) (fun inv last _ isAnswered => ?_)
      fun _ _ _ _ => trivial
    split_ifs with isNamed
    · exact Meets.pure fun _ _ _ => trivial
    · exact (recordInvoice_meets (isAnswered inv rfl) isNamed now).imp fun _ _ _ _ => trivial
  refine attempt_seq (passed read) fun value last _ ended => ?_
  exact Meets.pure fun final more _ => ⟨_, rfl, apart.go (ended.1.trans more)⟩

theorem recordListed_meets {now : Int} {done : List String} {recorded : Nat}
    {inv : InvoiceView} (apart : Apart p w done next) (isAnswered : inv ∈ next.stripe.answered) :
    Meets (Sound p.subscriptionId p.promisedEndAt) Later
      (fun value last => ∃ recorded, value = .ok recorded ∧ Apart p w done last ∧
        (inv.id ≠ "" → Tracks p.subscriptionId last inv.id))
      (recordListed p status now done recorded inv) next := by
  unfold recordListed
  split_ifs with isDone
  · exact Meets.pure fun last moved _ =>
      ⟨_, rfl, apart.go moved, fun _ => (apart.go moved).tracks inv.id isDone⟩
  refine Meets.intro Later.refl fun a toA sound => ?_
  have hasStatus := (sound.answered inv (toA.answered inv isAnswered)).hasStatus
  have sameView : { inv with status := inv.status.or (some status) } = inv := by
    cases isStatus : inv.status with
    | none =>
      rw [isStatus] at hasStatus
      cases hasStatus
    | some read => rw [Option.or_some, Option.getD_some, ← isStatus]
  rw [sameView]
  have recording : Meets (Sound p.subscriptionId p.promisedEndAt) Later
      (fun _ last => inv.id ≠ "" → Tracks p.subscriptionId last inv.id) (recordInvoice p inv now)
      a := by
    by_cases isNamed : inv.id = ""
    · unfold recordInvoice
      rw [if_pos isNamed]
      exact Meets.pure fun _ _ _ notNamed => absurd isNamed notNamed
    · exact (recordInvoice_meets (toA.answered inv isAnswered) isNamed now).imp
        fun _ _ _ tracks _ => tracks
  have recordingLater : Meets (Sound p.subscriptionId p.promisedEndAt) Later
      (fun _ last => Later a last ∧ (inv.id ≠ "" → Tracks p.subscriptionId last inv.id))
      (recordInvoice p inv now) a := passed recording
  refine attempt_seq recordingLater fun value last _ ended => ?_
  exact Meets.pure fun final more _ => ⟨_, rfl, apart.go ((toA.trans ended.1).trans more),
    fun isNamed => more.tracks _ _ (ended.2 isNamed)⟩

private structure Listing (p : ChargePromise) (w : World) (done : List String)
    (status : InvoiceStatus) (xs : List Invoice) (rest : List InvoiceView) (next : World) : Prop where
  apart : Apart p w done next
  answered : ∀ v ∈ rest, v ∈ next.stripe.answered
  paid : status = .paid → ∀ x ∈ xs, x.id ≠ "" ∧ (Tracks p.subscriptionId next x.id ∨ x.view ∈ rest)

theorem backfillListing_meets {now : Int} {done : List String} {recorded : Nat}
    (paid : Paid xs next) (apart : Apart p w done next) :
    Meets (Sound p.subscriptionId p.promisedEndAt) Later
      (fun value last => ∀ recorded, value = .ok recorded → Apart p w done last ∧
        (status = .paid → ∀ x ∈ xs, Tracks p.subscriptionId last x.id))
      (backfillListing p now done recorded status) next := by
  refine Meets.seq Later.refl (listPages_meets LIST_PAGES paid (fun v isView => by cases isView)
    fun _ x _ => Or.inr fun id isId => by cases isId) (fun listed a soundA ended => ?_)
      fun error a _ _ recorded isOk => by cases isOk
  obtain ⟨toA, isListed⟩ := ended
  have listing := isListed listed rfl
  refine (Meets.foldlM Later.refl
    (fun rest _ last => Listing p w done status xs rest last) (fun _ _ => False)
    (fun v rest recorded b _ holds => ?_) (fun rows value b c moved holds => ?_)
    ⟨apart.go toA, listing.answered, fun isPaid x isX =>
      ⟨soundA.named x (paid.later toA x isX).1, Or.inr (listing.paid isPaid x isX)⟩⟩).imp
      fun value last _ ended recorded isOk => ?_
  · refine (passed (recordListed_meets holds.apart (holds.answered v List.mem_cons_self))).imp
      fun value c _ ended => ?_
    obtain ⟨moved, again, rfl, apart, tracks⟩ := ended
    refine ⟨apart, fun other isRest => moved.answered other (holds.answered other (List.mem_cons_of_mem _ isRest)),
      fun isPaid x isX => ⟨(holds.paid isPaid x isX).1, ?_⟩⟩
    rcases (holds.paid isPaid x isX).2 with isTracked | isListed
    · exact Or.inl (moved.tracks _ _ isTracked)
    · rcases List.mem_cons.mp isListed with isThis | isRest
      · have sameId : v.id = x.id := isThis ▸ rfl
        exact Or.inl (sameId ▸ tracks (sameId ▸ (holds.paid isPaid x isX).1))
      · exact Or.inr isRest
  · exact ⟨holds.apart.go moved, fun v isView => moved.answered v (holds.answered v isView),
      fun isPaid x isX => ⟨(holds.paid isPaid x isX).1,
        (holds.paid isPaid x isX).2.imp_left (moved.tracks _ _)⟩⟩
  · subst isOk
    refine ⟨ended.apart, fun isPaid x isX => ?_⟩
    rcases (ended.paid isPaid x isX).2 with tracks | isRest
    · exact tracks
    · cases isRest

theorem Sound.judged (sound : Sound p.subscriptionId p.promisedEndAt w) {x : Invoice}
    (isHere : x ∈ w.stripe.invoices) (isPaid : x.status = .paid)
    (tracks : Tracks p.subscriptionId w x.id)
    (noneOpen : ∀ c ∈ w.db.tracked p.subscriptionId, finalStatus c.status = true) :
    Judged p.promisedEndAt w.db x := by
  obtain ⟨c, isRow, isSub, isInvoice⟩ := tracks
  have isFinal := noneOpen c (List.mem_filter.mpr ⟨isRow, by simpa using isSub⟩)
  have checked := sound.checks c isRow isSub
  have same {i : Invoice} (isIn : i ∈ w.stripe.invoices) (sameId : i.id = c.invoiceId) : i = x :=
    sound.invoice_eq isIn isHere (sameId.trans isInvoice)
  unfold finalStatus at isFinal
  simp only [Bool.or_eq_true, decide_eq_true_eq] at isFinal
  rcases isFinal with (wasPaid | wasVoid) | wasUncollectible
  · obtain ⟨i, isIn, sameId, _, judged⟩ := checked.paid wasPaid
    exact same isIn sameId ▸ judged
  · obtain ⟨i, isIn, sameId, isVoid⟩ := checked.stands .void wasVoid
    rw [same isIn sameId, isPaid] at isVoid
    cases isVoid
  · obtain ⟨i, isIn, sameId, notPaid⟩ := checked.stands .uncollectible wasUncollectible
    rw [same isIn sameId, isPaid] at notPaid
    rcases notPaid with wrong | wrong <;> cases wrong

/-- **A backfill.** It keeps what holds at every await, whatever runs beside it, and when it
reports nothing pending, what was paid when it began is judged. -/
theorem backfillCharges_meets (paid : Paid xs w) (now : Int) :
    Meets (Sound p.subscriptionId p.promisedEndAt) Later
      (fun value last => ∀ recorded, value = .ok { recorded := recorded, pending := 0 } →
        ∀ x ∈ xs, Judged p.promisedEndAt last.db x) (backfillCharges p now) w := by
  refine Meets.statement_seq Later.refl fun a toA soundA => ⟨⟨soundA, Later.refl a⟩, fun b toB _ => ?_⟩
  have tracked : ∀ t ∈ a.db.tracked p.subscriptionId, Tracks p.subscriptionId b t.invoiceId := by
    intro t isTracked
    have isSub := (List.mem_filter.mp isTracked).2
    exact toB.tracks _ _ ⟨t, List.mem_of_mem_filter isTracked, by simpa using isSub, rfl⟩
  -- what was tracked is read again, and what is final is set apart
  have rechecked : Meets (Sound p.subscriptionId p.promisedEndAt) Later
      (fun value next => ∀ acc, value = .ok acc → Apart p b acc.2 next)
      ((a.db.tracked p.subscriptionId).foldlM (recheck p now) (0, [])) b := by
    refine (Meets.foldlM Later.refl
      (fun rest acc next => Apart p b acc.2 next ∧
        ∀ t ∈ rest, Tracks p.subscriptionId next t.invoiceId) (fun _ _ => False)
      (fun t rest acc c _ holds => ?_) (fun rest acc c d moved holds => ?_)
      ⟨⟨Later.refl b, fun id isDone => by cases isDone⟩, tracked⟩).imp
      fun value next _ ended acc isOk => ?_
    · refine (passed (recheck_meets holds.1 (holds.2 t List.mem_cons_self))).imp
        fun value d _ ended => ?_
      obtain ⟨moved, acc, rfl, apart⟩ := ended
      exact ⟨apart, fun u isRest => moved.tracks _ _ (holds.2 u (List.mem_cons_of_mem _ isRest))⟩
    · exact ⟨holds.1.go moved, fun t isRest => moved.tracks _ _ (holds.2 t isRest)⟩
    · subst isOk
      exact ended.1
  refine Meets.seq Later.refl (passed rechecked) (fun acc c _ ended => ?_)
    fun error c _ _ recorded isOk => by cases isOk
  obtain ⟨toC, isApart⟩ := ended
  have toHere := (toA.trans toB).trans toC
  have listed : Meets (Sound p.subscriptionId p.promisedEndAt) Later
      (fun value next => ∀ recorded, value = .ok recorded →
        ∀ x ∈ xs, Tracks p.subscriptionId next x.id)
      ([InvoiceStatus.draft, .open, .paid].foldlM (backfillListing p now acc.2) acc.1) c := by
    refine (Meets.foldlM Later.refl
      (fun rest _ next => Later w next ∧ Apart p b acc.2 next ∧
        (InvoiceStatus.paid ∉ rest → ∀ x ∈ xs, Tracks p.subscriptionId next x.id))
      (fun _ _ => True) (fun status rest recorded d _ holds => ?_)
      (fun rest recorded d e moved holds => ?_)
      ⟨toHere, isApart acc rfl, fun notPaid => absurd (by simp) notPaid⟩).imp
      fun value next _ ended recorded isOk => ?_
    · obtain ⟨toD, apart, tracksD⟩ := holds
      refine (passed (backfillListing_meets (paid.later toD) apart)).imp fun value e _ ended => ?_
      cases value with
      | error error => trivial
      | ok recorded =>
        obtain ⟨toE, isListed⟩ := ended
        obtain ⟨apartE, tracksE⟩ := isListed recorded rfl
        refine ⟨toD.trans toE, apartE, fun notLater x isX => ?_⟩
        by_cases isPaid : status = .paid
        · exact tracksE isPaid x isX
        · refine toE.tracks _ _ (tracksD (fun isRest => ?_) x isX)
          rcases List.mem_cons.mp isRest with isThis | isRest
          · exact isPaid isThis.symm
          · exact notLater isRest
    · exact ⟨holds.1.trans moved, holds.2.1.go moved,
        fun notPaid x isX => moved.tracks _ _ (holds.2.2 notPaid x isX)⟩
    · subst isOk
      exact ended.2.2 List.not_mem_nil
  refine Meets.seq Later.refl (passed listed) (fun recorded d _ ended => ?_)
    fun error d _ _ recorded isOk => by cases isOk
  obtain ⟨toD, tracks⟩ := ended
  refine Meets.statement_seq Later.refl fun e toE soundE => ⟨⟨soundE, Later.refl e⟩, fun f toF _ => ?_⟩
  refine Meets.pure fun g toG _ other isOk x isX => ?_
  have noneOpen : ∀ c ∈ e.db.tracked p.subscriptionId, finalStatus c.status = true := by
    have isZero : ((e.db.tracked p.subscriptionId).filter fun c => !finalStatus c.status).length = 0 :=
      congrArg Backfilled.pending (Except.ok.inj isOk)
    intro c isRow
    have notOpen := List.filter_eq_nil_iff.mp (List.eq_nil_of_length_eq_zero isZero) c isRow
    simpa using notOpen
  have paidE := (paid.later ((toHere.trans toD).trans toE)) x isX
  have judged := soundE.judged paidE.1 paidE.2 (toE.tracks _ _ (tracks recorded rfl x isX)) noneOpen
  exact (judged.later toF).later toG

end

end Murage.CancelCharges
