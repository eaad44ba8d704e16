import Mathlib.Data.List.Nodup
import Murage.CancelCharges.Model

/-!
Owns what the tables and Stripe's answers hold of a subscription at every await, and that a
recording keeps it and leaves its invoice tracked.

Does not own: the backfill, and runs of the system.
-/

namespace Murage.CancelCharges

open Murage.Library.Resumption

/-! ## What holds at every await -/

/-- What a status that was once read still says. -/
def Stands (s : Stripe) (id : String) (status : InvoiceStatus) : Prop :=
  match status with
  | .void => ∃ i ∈ s.invoices, i.id = id ∧ i.status = .void
  | .uncollectible => ∃ i ∈ s.invoices, i.id = id ∧ (i.status = .uncollectible ∨ i.status = .void)
  | _ => True

structure PaidAs (i : Invoice) (v : InvoiceView) : Prop where
  id : i.id = v.id
  status : i.status = .paid
  amountPaid : v.amountPaid = i.amountPaid
  created : v.created = i.created
  paidAt : v.paidAt = i.paidAt
  lines : v.lines = i.view.lines

/-- What a view that was given out still says. -/
structure Shown (s : Stripe) (v : InvoiceView) : Prop where
  hasStatus : v.status.isSome
  stands : ∀ status, v.status = some status → Stands s v.id status
  paid : v.status = some .paid → ∃ i ∈ s.invoices, PaidAs i v

/-- The invoice collected nothing, is no charge after the promise, or has its record. -/
def Judged (promisedEndAt : Int) (db : Db) (i : Invoice) : Prop :=
  i.amountPaid ≤ 0 ∨ afterPromise i.view i.lines promisedEndAt = false ∨
    ∃ r ∈ db.lateRefunds, r.invoiceId = i.id

/-- A tracked status that may be written of an invoice. -/
structure Checked (promisedEndAt : Int) (w : World) (id : String) (status : Option CheckStatus) :
    Prop where
  stands : ∀ read, status = some (.read read) → Stands w.stripe id read
  seen : status = some (.read .uncollectible) → ∃ v ∈ w.stripe.answered, v.id = id ∧
    v.status = some .uncollectible
  paid : status = some (.read .paid) → ∃ i ∈ w.stripe.invoices, i.id = id ∧ i.status = .paid ∧
    Judged promisedEndAt w.db i

def recordId (subscriptionId invoiceId : String) : String :=
  "cxr-late:" ++ subscriptionId ++ ":" ++ invoiceId

structure Sound (subscriptionId : String) (promisedEndAt : Int) (w : World) : Prop where
  ids : (w.stripe.invoices.map (·.id)).Nodup
  named : ∀ i ∈ w.stripe.invoices, i.id ≠ ""
  newest : w.stripe.invoices.Pairwise fun a b => b.seq < a.seq
  answered : ∀ v ∈ w.stripe.answered, Shown w.stripe v
  checks : ∀ c ∈ w.db.checks, c.subscriptionId = subscriptionId →
    Checked promisedEndAt w c.invoiceId c.status
  once : (w.db.lateRefunds.map (·.invoiceId)).Nodup
  keys : ∀ r ∈ w.db.lateRefunds, r.id = recordId subscriptionId r.invoiceId

def Tracks (subscriptionId : String) (w : World) (id : String) : Prop :=
  ∃ c ∈ w.db.checks, c.subscriptionId = subscriptionId ∧ c.invoiceId = id

/-- What no step takes back. -/
structure Later (w next : World) : Prop where
  paid : ∀ i ∈ w.stripe.invoices, i.status = .paid → i ∈ next.stripe.invoices
  answered : ∀ v ∈ w.stripe.answered, v ∈ next.stripe.answered
  tracks : ∀ subscriptionId id, Tracks subscriptionId w id → Tracks subscriptionId next id
  refunds : ∀ r ∈ w.db.lateRefunds, r ∈ next.db.lateRefunds

theorem Later.refl (w : World) : Later w w :=
  ⟨fun _ isHere _ => isHere, fun _ isHere => isHere, fun _ _ tracks => tracks, fun _ isHere => isHere⟩

theorem Later.trans {a b c : World} (first : Later a b) (second : Later b c) : Later a c where
  paid i isHere isPaid := second.paid i (first.paid i isHere isPaid) isPaid
  answered v isHere := second.answered v (first.answered v isHere)
  tracks subscriptionId id tracks := second.tracks subscriptionId id (first.tracks _ _ tracks)
  refunds r isHere := second.refunds r (first.refunds r isHere)

variable {i : Invoice}

theorem Judged.later {promisedEndAt : Int} {w next : World} (moved : Later w next)
    (judged : Judged promisedEndAt w.db i) : Judged promisedEndAt next.db i := by
  rcases judged with isZero | isBefore | ⟨r, isHere, sameInvoice⟩
  · exact Or.inl isZero
  · exact Or.inr (Or.inl isBefore)
  · exact Or.inr (Or.inr ⟨r, moved.refunds r isHere, sameInvoice⟩)

/-! ## Statements -/

section

variable {subscriptionId : String} {promisedEndAt : Int} {w : World}

theorem Sound.invoice_eq (sound : Sound subscriptionId promisedEndAt w) {i j : Invoice}
    (isHere : i ∈ w.stripe.invoices) (isIn : j ∈ w.stripe.invoices) (sameId : i.id = j.id) :
    i = j :=
  List.inj_on_of_nodup_map sound.ids isHere isIn sameId

theorem Checked.congr {w next : World} {id : String} {status : Option CheckStatus}
    (checked : Checked promisedEndAt w id status) (stripe : next.stripe = w.stripe)
    (refunds : ∀ r ∈ w.db.lateRefunds, r ∈ next.db.lateRefunds) :
    Checked promisedEndAt next id status := by
  refine ⟨fun read isRead => ?_, fun isSeen => ?_, fun isPaid => ?_⟩
  · rw [stripe]
    exact checked.stands read isRead
  · rw [stripe]
    exact checked.seen isSeen
  · obtain ⟨i, isHere, sameId, wasPaid, judged⟩ := checked.paid isPaid
    refine ⟨i, stripe ▸ isHere, sameId, wasPaid, ?_⟩
    rcases judged with isZero | isBefore | ⟨r, isRecord, sameInvoice⟩
    · exact Or.inl isZero
    · exact Or.inr (Or.inl isBefore)
    · exact Or.inr (Or.inr ⟨r, refunds r isRecord, sameInvoice⟩)

theorem upsertCheck_rows (subscriptionId : String) (db : Db) (id : String)
    (status : Option CheckStatus) (now : Int) :
    (db.upsertCheck subscriptionId id status now).lateRefunds = db.lateRefunds ∧
      (∀ c ∈ (db.upsertCheck subscriptionId id status now).checks, c ∈ db.checks ∨
        (c.subscriptionId = subscriptionId ∧ c.invoiceId = id ∧ c.status = status)) ∧
      (∀ c ∈ db.checks, ∃ d ∈ (db.upsertCheck subscriptionId id status now).checks,
        d.subscriptionId = c.subscriptionId ∧ d.invoiceId = c.invoiceId) ∧
      ∃ d ∈ (db.upsertCheck subscriptionId id status now).checks,
        d.subscriptionId = subscriptionId ∧ d.invoiceId = id := by
  unfold Db.upsertCheck
  split_ifs with isTracked
  · obtain ⟨row, isRow, isMatch⟩ := List.any_eq_true.mp isTracked
    simp only [Bool.and_eq_true, beq_iff_eq] at isMatch
    refine ⟨rfl, fun c isHere => ?_, fun c isHere => ⟨_, List.mem_map_of_mem isHere, ?_⟩,
      _, List.mem_map_of_mem isRow, ?_⟩
    · obtain ⟨before, isBefore, rfl⟩ := List.mem_map.mp isHere
      split_ifs with isMatch
      · exact Or.inr ⟨isMatch.1, isMatch.2, rfl⟩
      · exact Or.inl isBefore
    · split_ifs <;> exact ⟨rfl, rfl⟩
    · rw [if_pos isMatch]
      exact isMatch
  · refine ⟨rfl, fun c isHere => ?_, fun c isHere => ⟨c, List.mem_append_left _ isHere, rfl, rfl⟩,
      _, List.mem_append_right _ List.mem_cons_self, rfl, rfl⟩
    rcases List.mem_append.mp isHere with isOld | isNew
    · exact Or.inl isOld
    · rw [List.mem_singleton.mp isNew]
      exact Or.inr ⟨rfl, rfl, rfl⟩

theorem Sound.upsertCheck (sound : Sound subscriptionId promisedEndAt w) (id : String)
    (status : Option CheckStatus) (now : Int) (checked : Checked promisedEndAt w id status) :
    Sound subscriptionId promisedEndAt
        { w with db := w.db.upsertCheck subscriptionId id status now } ∧
      Later w { w with db := w.db.upsertCheck subscriptionId id status now } ∧
        Tracks subscriptionId { w with db := w.db.upsertCheck subscriptionId id status now } id := by
  obtain ⟨sameRefunds, rows, kept, isTracked⟩ :=
    upsertCheck_rows subscriptionId w.db id status now
  have refunds : ∀ r ∈ w.db.lateRefunds,
      r ∈ (w.db.upsertCheck subscriptionId id status now).lateRefunds := fun r isHere =>
    sameRefunds ▸ isHere
  refine ⟨⟨sound.ids, sound.named, sound.newest, sound.answered, fun c isHere isSub => ?_,
    sameRefunds ▸ sound.once, sameRefunds ▸ sound.keys⟩,
    ⟨fun i isHere _ => isHere, fun v isHere => isHere, fun other invoiceId tracks => ?_, refunds⟩,
    isTracked⟩
  · rcases rows c isHere with isOld | ⟨_, sameInvoice, isStatus⟩
    · exact (sound.checks c isOld isSub).congr rfl refunds
    · rw [sameInvoice, isStatus]
      exact checked.congr rfl refunds
  · obtain ⟨c, isOld, isSub, isInvoice⟩ := tracks
    obtain ⟨d, isHere, sameSub, sameInvoice⟩ := kept c isOld
    exact ⟨d, isHere, sameSub.trans isSub, sameInvoice.trans isInvoice⟩

theorem Sound.insertLateRefund (sound : Sound subscriptionId promisedEndAt w)
    (row : LateRefund) (isKey : row.id = recordId subscriptionId row.invoiceId) :
    Sound subscriptionId promisedEndAt { w with db := (w.db.insertLateRefund row).1 } ∧
      Later w { w with db := (w.db.insertLateRefund row).1 } ∧
        ∃ r ∈ (w.db.insertLateRefund row).1.lateRefunds, r.invoiceId = row.invoiceId := by
  unfold Db.insertLateRefund
  split_ifs with isTaken
  · refine ⟨sound, Later.refl w, ?_⟩
    obtain ⟨r, isHere, isMatch⟩ := List.any_eq_true.mp isTaken
    refine ⟨r, isHere, ?_⟩
    simp only [Bool.or_eq_true, beq_iff_eq] at isMatch
    rcases isMatch with sameId | sameInvoice
    · rw [sound.keys r isHere, isKey] at sameId
      exact String.append_right_inj _ |>.mp sameId
    · exact sameInvoice
  · have refunds : ∀ r ∈ w.db.lateRefunds, r ∈ w.db.lateRefunds ++ [row] := fun r isHere =>
      List.mem_append_left _ isHere
    refine ⟨⟨sound.ids, sound.named, sound.newest, sound.answered,
      fun c isHere isSub => (sound.checks c isHere isSub).congr rfl refunds, ?_, fun r isHere => ?_⟩,
      ⟨fun i isHere _ => isHere, fun v isHere => isHere, fun _ _ tracks => tracks, refunds⟩,
      row, List.mem_append_right _ List.mem_cons_self, rfl⟩
    · rw [List.map_append, List.nodup_append]
      refine ⟨sound.once, List.nodup_singleton _, ?_⟩
      rintro invoiceId isOld other isNew rfl
      obtain ⟨r, isHere, sameInvoice⟩ := List.mem_map.mp isOld
      rw [List.map_singleton, List.mem_singleton] at isNew
      exact isTaken (List.any_eq_true.mpr ⟨r, isHere, by simp [sameInvoice.trans isNew]⟩)
    · rcases List.mem_append.mp isHere with isOld | isNew
      · exact sound.keys r isOld
      · rw [List.mem_singleton.mp isNew]
        exact isKey

end

/-! ## Awaits -/

section

variable {p : ChargePromise} {w : World} {α : Type} {post : Except String α → World → Prop}

theorem select_meets {run : Db → α}
    (ends : ∀ next last, Later w next → Later next last → post (.ok (run next.db)) last) :
    Meets (Sound p.subscriptionId p.promisedEndAt) Later post (select run) w :=
  Meets.statement fun next moved sound =>
    ⟨⟨sound, Later.refl next⟩, fun last more _ => ends next last moved more⟩

theorem Invoice.shown {s : Stripe} (isHere : i ∈ s.invoices) {v : InvoiceView}
    (isView : v = i.view ∨ v = i.delivered) : Shown s v := by
  have stands (read : InvoiceStatus) (isRead : some i.status = some read) : Stands s i.id read := by
    cases Option.some.inj isRead
    unfold Stands
    split
    · exact ⟨i, isHere, rfl, by assumption⟩
    · exact ⟨i, isHere, rfl, Or.inl (by assumption)⟩
    · trivial
  rcases isView with rfl | rfl
  · exact ⟨rfl, stands, fun isPaid => ⟨i, isHere, rfl, Option.some.inj isPaid, rfl, rfl, rfl, rfl⟩⟩
  · exact ⟨rfl, stands, fun isPaid => ⟨i, isHere, rfl, Option.some.inj isPaid, rfl, rfl, rfl, rfl⟩⟩

theorem Sound.log {subscriptionId : String} {promisedEndAt : Int}
    (sound : Sound subscriptionId promisedEndAt w) {views : List InvoiceView}
    (shown : ∀ v ∈ views, Shown w.stripe v) :
    Sound subscriptionId promisedEndAt { w with stripe := w.stripe.log views } ∧
      Later w { w with stripe := w.stripe.log views } := by
  refine ⟨⟨sound.ids, sound.named, sound.newest, fun v isHere => ?_, fun c isHere isSub => ?_,
    sound.once, sound.keys⟩,
    fun i isHere _ => isHere, fun v isHere => List.mem_append_left _ isHere, fun _ _ tracks => tracks,
    fun r isHere => isHere⟩
  · obtain ⟨hasStatus, stands, paid⟩ :=
      (List.mem_append.mp isHere).elim (sound.answered v) (shown v)
    exact ⟨hasStatus, stands, paid⟩
  · obtain ⟨stands, seen, paid⟩ := sound.checks c isHere isSub
    refine ⟨stands, fun isSeen => ?_, paid⟩
    obtain ⟨v, isAnswered, isView⟩ := seen isSeen
    exact ⟨v, List.mem_append_left _ isAnswered, isView⟩

theorem ask_meets {answer : Stripe → Option α} {views : α → List InvoiceView}
    (shown : ∀ s value, answer s = some value → ∀ v ∈ views value, Shown s v)
    (ends : ∀ next value last, Later w next → Sound p.subscriptionId p.promisedEndAt next →
      answer next.stripe = some value → Later next last → (∀ v ∈ views value, v ∈ last.stripe.answered) →
        post (.ok value) last)
    (errors : ∀ error last, Later w last → post (.error error) last) :
    Meets (Sound p.subscriptionId p.promisedEndAt) Later post (ask answer views) w := by
  refine Meets.call Later.refl (fun next moved sound => ?_)
    fun next moved _ last more _ => errors _ last (moved.trans more)
  cases isAnswer : answer next.stripe with
  | none => exact ⟨⟨sound, Later.refl next⟩, fun last more _ => errors _ last (moved.trans more)⟩
  | some value =>
    obtain ⟨soundAfter, logged⟩ := sound.log (shown next.stripe value isAnswer)
    refine ⟨⟨soundAfter, logged⟩, fun last more _ => ?_⟩
    refine ends next value last moved sound isAnswer (logged.trans more) fun v isView => ?_
    exact more.answered v (List.mem_append_right _ isView)

/-! ## A recording -/

/-- A paid invoice that is being recorded. -/
private structure Judging (p : ChargePromise) (w : World) (inv : InvoiceView) (i : Invoice) : Prop where
  isHere : i ∈ w.stripe.invoices
  paidAs : PaidAs i inv
  tracks : Tracks p.subscriptionId w inv.id

variable {inv : InvoiceView}

theorem Judging.later {next : World} (judging : Judging p w inv i) (moved : Later w next) :
    Judging p next inv i where
  isHere := moved.paid i judging.isHere judging.paidAs.status
  paidAs := judging.paidAs
  tracks := moved.tracks _ _ judging.tracks

theorem track_meets {now : Int} {status : Option CheckStatus}
    {post : Except String Unit → World → Prop}
    (checked : ∀ next, Later w next → Sound p.subscriptionId p.promisedEndAt next →
      Checked p.promisedEndAt next inv.id status)
    (ends : ∀ last, Later w last → Tracks p.subscriptionId last inv.id → post (.ok ()) last) :
    Meets (Sound p.subscriptionId p.promisedEndAt) Later post (track p inv now status) w := by
  refine Meets.statement fun next moved sound => ?_
  obtain ⟨soundAfter, written, tracks⟩ := sound.upsertCheck inv.id status now (checked next moved sound)
  exact ⟨⟨soundAfter, written⟩,
    fun last more _ => ends last ((moved.trans written).trans more) (more.tracks _ _ tracks)⟩

private abbrev Tracked (p : ChargePromise) (inv : InvoiceView) {α : Type} :
    Except String α → World → Prop :=
  fun _ next => Tracks p.subscriptionId next inv.id

theorem judged_meets (judging : Judging p w inv i) (isJudged : Judged p.promisedEndAt w.db i)
    (now : Int) (result : Recorded) :
    Meets (Sound p.subscriptionId p.promisedEndAt) Later (Tracked p inv) (judged p inv now result) w := by
  refine Meets.bind Later.refl (track_meets (fun next moved _ => ?_) fun last _ tracks => ?_)
  · refine ⟨fun read isRead => ?_, fun isSeen => ?_, fun _ => ?_⟩
    · cases isRead
      trivial
    · cases isSeen
    · exact ⟨i, (judging.later moved).isHere, judging.paidAs.id, judging.paidAs.status,
        isJudged.later moved⟩
  · exact Meets.pure fun _ moved _ => moved.tracks _ _ tracks

theorem usageTypeOf_meets (l : InvoiceLineView) :
    Meets (Sound p.subscriptionId p.promisedEndAt) Later (fun _ next => Later w next)
      (usageTypeOf l) w := by
  unfold usageTypeOf
  split
  · exact Meets.pure fun _ moved _ => moved
  · exact Meets.pure fun _ moved _ => moved
  · refine Meets.bind Later.refl (Meets.attempt (ask_meets ?_ ?_ ?_))
    · exact fun s value _ v isView => absurd isView List.not_mem_nil
    · exact fun next value last moved _ _ more _ => Meets.pure fun _ then_ _ =>
        (moved.trans more).trans then_
    · exact fun error last moved => Meets.pure fun _ more _ => moved.trans more

theorem snapshotLines_meets (raw : List InvoiceLineView) :
    Meets (Sound p.subscriptionId p.promisedEndAt) Later (fun _ next => Later w next)
      (snapshotLines p raw) w := by
  refine (Meets.foldlM Later.refl (fun _ _ next => Later w next) (fun _ next => Later w next)
    (fun l _ lines next _ moved => ?_) (fun _ _ _ _ more moved => moved.trans more)
    (Later.refl w)).imp fun value next _ ends => ?_
  · refine Meets.seq Later.refl (usageTypeOf_meets l) (fun usage last _ more => ?_)
      fun error last _ more => moved.trans more
    exact Meets.pure fun _ then_ _ => (moved.trans more).trans then_
  · cases value with
    | ok lines => exact ends
    | error error => exact ends

theorem requestOf_meets :
    Meets (Sound p.subscriptionId p.promisedEndAt) Later (fun _ next => Later w next) (requestOf p)
      w := by
  unfold requestOf
  split
  · exact Meets.pure fun _ moved _ => moved
  · exact select_meets fun _ _ moved more => moved.trans more

theorem insertAlert_rows (db : Db) (alert : Alert) :
    (db.insertAlert alert).checks = db.checks ∧
      (db.insertAlert alert).lateRefunds = db.lateRefunds := by
  unfold Db.insertAlert
  split_ifs <;> exact ⟨rfl, rfl⟩

theorem Sound.insertAlert {subscriptionId : String} {promisedEndAt : Int}
    (sound : Sound subscriptionId promisedEndAt w) (alert : Alert) :
    Sound subscriptionId promisedEndAt { w with db := w.db.insertAlert alert } ∧
      Later w { w with db := w.db.insertAlert alert } := by
  obtain ⟨sameChecks, sameRefunds⟩ := insertAlert_rows w.db alert
  have refunds : ∀ r ∈ w.db.lateRefunds, r ∈ (w.db.insertAlert alert).lateRefunds :=
    fun r isHere => sameRefunds ▸ isHere
  refine ⟨⟨sound.ids, sound.named, sound.newest, sound.answered, fun c isHere isSub => ?_,
    sameRefunds ▸ sound.once, sameRefunds ▸ sound.keys⟩,
    fun i isHere _ => isHere, fun v isHere => isHere, fun subscription id tracks => ?_, refunds⟩
  · exact (sound.checks c (sameChecks ▸ isHere) isSub).congr rfl refunds
  · unfold Tracks
    rw [sameChecks]
    exact tracks

theorem fileCharge_meets (judging : Judging p w inv i) {row : LateRefund}
    (isKey : row.id = recordId p.subscriptionId row.invoiceId) (isRow : row.invoiceId = inv.id)
    (now : Int) :
    Meets (Sound p.subscriptionId p.promisedEndAt) Later (Tracked p inv)
      (fileCharge p inv row now) w := by
  refine Meets.statement_seq Later.refl fun a toA sound => ?_
  obtain ⟨soundAfter, written, r, isRecord, sameInvoice⟩ := sound.insertLateRefund row isKey
  have filed := (judging.later toA).later written
  have isJudged : Judged p.promisedEndAt (a.db.insertLateRefund row).1 i :=
    Or.inr (Or.inr ⟨r, isRecord, sameInvoice.trans (isRow.trans judging.paidAs.id.symm)⟩)
  refine ⟨⟨soundAfter, written⟩, fun b toB _ => ?_⟩
  split_ifs
  · exact judged_meets (filed.later toB) (isJudged.later toB) now .final
  · refine Meets.statement_seq Later.refl fun c toC soundC => ?_
    obtain ⟨soundAlert, alerted⟩ := soundC.insertAlert _
    have toD := (toB.trans toC).trans alerted
    exact ⟨⟨soundAlert, alerted⟩, fun d more _ =>
      judged_meets (filed.later (toD.trans more)) (isJudged.later (toD.trans more)) now .recorded⟩

theorem recordCharge_meets (judging : Judging p w inv i) (raw : List InvoiceLineView) (now : Int) :
    Meets (Sound p.subscriptionId p.promisedEndAt) Later (Tracked p inv)
      (recordCharge p inv raw now) w := by
  refine Meets.seq Later.refl (snapshotLines_meets raw) (fun lines a _ toA => ?_)
    fun _ a _ toA => (judging.later toA).tracks
  refine Meets.statement_seq Later.refl fun b toB soundB => ⟨⟨soundB, Later.refl b⟩, fun c toC _ => ?_⟩
  refine Meets.statement_seq Later.refl fun d toD soundD => ⟨⟨soundD, Later.refl d⟩, fun e toE _ => ?_⟩
  have toLast := ((toA.trans toB).trans toC).trans (toD.trans toE)
  refine Meets.seq Later.refl requestOf_meets (fun requestId f _ toF => ?_)
    fun _ f _ toF => (judging.later (toLast.trans toF)).tracks
  exact fileCharge_meets (judging.later (toLast.trans toF)) rfl rfl now

theorem completeLines_meets (judging : Judging p w inv i) :
    Meets (Sound p.subscriptionId p.promisedEndAt) Later
      (fun value next => Later w next ∧ ∀ raw, value = .ok raw → raw = i.lines)
      (completeLines inv) w := by
  unfold completeLines
  split_ifs with hasMore
  · refine ask_meets (fun s value _ v isView => absurd isView List.not_mem_nil) ?_ ?_
    · intro next value last moved sound isAnswer more _
      refine ⟨moved.trans more, fun raw isRaw => ?_⟩
      cases isRaw
      obtain ⟨j, isFound, isLines⟩ := Option.bind_eq_some_iff.mp isAnswer
      have isIn := List.mem_of_find?_eq_some isFound
      have sameId : j.id = inv.id := by simpa using List.find?_some isFound
      have isSame : j = i := sound.invoice_eq isIn (judging.later moved).isHere
        (sameId.trans judging.paidAs.id.symm)
      split_ifs at isLines
      cases isLines
      rw [isSame]
    · exact fun error last moved => ⟨moved, fun raw isRaw => by cases isRaw⟩
  · refine Meets.pure fun next moved _ => ⟨moved, fun raw isRaw => ?_⟩
    cases isRaw
    have isPage := judging.paidAs.lines
    have isAll : i.lines.length ≤ i.inline := by
      rw [isPage] at hasMore
      simpa [Invoice.view] using hasMore
    rw [isPage]
    exact List.take_of_length_le isAll

theorem judgeCharge_meets (judging : Judging p w inv i) (now : Int) :
    Meets (Sound p.subscriptionId p.promisedEndAt) Later (Tracked p inv) (judgeCharge p inv now)
      w := by
  refine Meets.seq Later.refl (completeLines_meets judging) (fun raw a _ ended => ?_)
    fun _ a _ ended => (judging.later ended.1).tracks
  obtain ⟨toA, isLines⟩ := ended
  obtain rfl := isLines raw rfl
  split_ifs with isBefore
  · refine judged_meets (judging.later toA) (Or.inr (Or.inl ?_)) now .final
    unfold afterPromise at isBefore ⊢
    rw [judging.paidAs.paidAt, judging.paidAs.created] at isBefore
    exact isBefore
  · exact recordCharge_meets (judging.later toA) i.lines now

theorem judgePaid_meets (judging : Judging p w inv i) (now : Int) :
    Meets (Sound p.subscriptionId p.promisedEndAt) Later (Tracked p inv) (judgePaid p inv now) w := by
  unfold judgePaid
  split_ifs with isZero
  · exact judged_meets judging (Or.inl (judging.paidAs.amountPaid ▸ isZero)) now .final
  refine Meets.statement_seq Later.refl fun a toA soundA => ⟨⟨soundA, Later.refl a⟩, fun b toB _ => ?_⟩
  split_ifs with isKnown
  · obtain ⟨r, isRecord, sameInvoice⟩ := List.any_eq_true.mp isKnown
    have isJudged : Judged p.promisedEndAt a.db i :=
      Or.inr (Or.inr ⟨r, isRecord, (beq_iff_eq.mp sameInvoice).trans judging.paidAs.id.symm⟩)
    exact judged_meets (judging.later (toA.trans toB)) (isJudged.later toB) now .final
  · exact judgeCharge_meets (judging.later (toA.trans toB)) now

/-- **A recording.** It keeps what holds at every await, whatever runs beside it, and however it
ends its invoice is tracked. -/
theorem recordInvoice_meets (isAnswered : inv ∈ w.stripe.answered) (isNamed : inv.id ≠ "")
    (now : Int) :
    Meets (Sound p.subscriptionId p.promisedEndAt) Later
      (fun _ next => Tracks p.subscriptionId next inv.id) (recordInvoice p inv now) w := by
  unfold recordInvoice
  rw [if_neg isNamed]
  refine Meets.intro Later.refl fun a toA soundA => ?_
  have shown := soundA.answered inv (toA.answered inv isAnswered)
  have tracked : Meets (Sound p.subscriptionId p.promisedEndAt) Later
      (fun _ next => Later a next ∧ Tracks p.subscriptionId next inv.id)
      (track p inv now
        (if inv.status = some .paid then some .paid_unjudged else inv.status.map .read)) a := by
    refine track_meets (fun next moved sound => ?_) fun last moved tracks => ⟨moved, tracks⟩
    have shownNext := sound.answered inv (moved.answered inv (toA.answered inv isAnswered))
    split_ifs with isPaid
    · refine ⟨fun read isRead => ?_, fun isRead => ?_, fun isRead => ?_⟩
      · cases isRead
      · cases isRead
      · cases isRead
    · refine ⟨fun read isRead => ?_, fun isRead => ?_, fun isRead => ?_⟩
      · obtain ⟨status, isStatus, isSame⟩ := Option.map_eq_some_iff.mp isRead
        cases isSame
        exact shownNext.stands read isStatus
      · obtain ⟨status, isStatus, isSame⟩ := Option.map_eq_some_iff.mp isRead
        cases isSame
        exact ⟨inv, moved.answered inv (toA.answered inv isAnswered), rfl, isStatus⟩
      · obtain ⟨status, isStatus, isSame⟩ := Option.map_eq_some_iff.mp isRead
        cases isSame
        exact absurd isStatus isPaid
  refine Meets.seq Later.refl tracked (fun _ b _ ended => ?_) fun _ b _ ended => ended.2
  obtain ⟨toB, tracks⟩ := ended
  split_ifs with notPaid
  · exact Meets.pure fun _ moved _ => moved.tracks _ _ tracks
  · exact Meets.pure fun _ moved _ => moved.tracks _ _ tracks
  · obtain ⟨i, isHere, paidAs⟩ := shown.paid (not_ne_iff.mp notPaid)
    exact judgePaid_meets ⟨toB.paid i isHere paidAs.status, paidAs, tracks⟩ now

end

end Murage.CancelCharges
