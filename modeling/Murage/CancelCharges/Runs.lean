import Murage.CancelCharges.Backfill

/-!
Owns what holds of every run of the system in which no invoice given out as uncollectible is
paid, and a run in which one is.

Does not own: the promise itself.
-/

namespace Murage.CancelCharges

open Murage.Library.Resumption
open Murage.Library.Transition

section

variable {p : ChargePromise} {w : World}

/-! ## The lifecycle -/

theorem Sound.of_invoices (sound : Sound p.subscriptionId p.promisedEndAt w)
    {invoices : List Invoice} (ids : (invoices.map (·.id)).Nodup)
    (named : ∀ i ∈ invoices, i.id ≠ "") (newest : invoices.Pairwise fun a b => b.seq < a.seq)
    (paid : ∀ i ∈ w.stripe.invoices, i.status = .paid → i ∈ invoices)
    (void : ∀ i ∈ w.stripe.invoices, i.status = .void → i ∈ invoices)
    (uncollectible : ∀ i ∈ w.stripe.invoices, i.status = .uncollectible →
      ∀ v ∈ w.stripe.answered, v.id = i.id → v.status = some .uncollectible →
        ∃ j ∈ invoices, j.id = i.id ∧ (j.status = .uncollectible ∨ j.status = .void)) :
    Sound p.subscriptionId p.promisedEndAt
        { w with stripe := { w.stripe with invoices := invoices } } ∧
      Later w { w with stripe := { w.stripe with invoices := invoices } } := by
  have stands {id : String} {read : InvoiceStatus} (stood : Stands w.stripe id read)
      (isSeen : read = .uncollectible → ∃ v ∈ w.stripe.answered, v.id = id ∧
        v.status = some .uncollectible) :
      Stands { w.stripe with invoices := invoices } id read := by
    cases read with
    | draft => trivial
    | «open» => trivial
    | paid => trivial
    | void =>
      obtain ⟨i, isHere, sameId, isVoid⟩ := stood
      exact ⟨i, void i isHere isVoid, sameId, isVoid⟩
    | uncollectible =>
      obtain ⟨i, isHere, rfl, isUncollectible | isVoid⟩ := stood
      · obtain ⟨v, isAnswered, sameView, isView⟩ := isSeen rfl
        exact uncollectible i isHere isUncollectible v isAnswered sameView isView
      · exact ⟨i, void i isHere isVoid, rfl, Or.inr isVoid⟩
  refine ⟨⟨ids, named, newest, fun v isHere => ?_, fun c isHere isSub => ?_, sound.once, sound.keys⟩,
    paid, fun v isHere => isHere, fun _ _ tracks => tracks, fun r isHere => isHere⟩
  · obtain ⟨hasStatus, stood, wasPaid⟩ := sound.answered v isHere
    refine ⟨hasStatus, fun read isRead => stands (stood read isRead) fun isUncollectible => ?_,
      fun isPaid => ?_⟩
    · exact ⟨v, isHere, rfl, isUncollectible ▸ isRead⟩
    · obtain ⟨i, isInvoice, paidAs⟩ := wasPaid isPaid
      exact ⟨i, paid i isInvoice paidAs.status, paidAs⟩
  · obtain ⟨stood, seen, wasPaid⟩ := sound.checks c isHere isSub
    refine ⟨fun read isRead => stands (stood read isRead) fun isUncollectible => ?_, seen,
      fun isPaid => ?_⟩
    · exact seen (isUncollectible ▸ isRead)
    · obtain ⟨i, isInvoice, sameId, isStatus, judged⟩ := wasPaid isPaid
      exact ⟨i, paid i isInvoice isStatus, sameId, isStatus, judged⟩

theorem create_keeps (sound : Sound p.subscriptionId p.promisedEndAt w) (invoice : Invoice) :
    Sound p.subscriptionId p.promisedEndAt { w with stripe := w.stripe.create invoice } ∧
      Later w { w with stripe := w.stripe.create invoice } := by
  unfold Stripe.create
  split_ifs with isNew
  · obtain ⟨isNamed, _, isFree, isNewest⟩ := isNew
    refine sound.of_invoices ?_ ?_ ?_ (fun i isHere _ => List.mem_cons_of_mem _ isHere)
      (fun i isHere _ => List.mem_cons_of_mem _ isHere)
      fun i isHere isUncollectible _ _ _ _ =>
        ⟨i, List.mem_cons_of_mem _ isHere, rfl, Or.inl isUncollectible⟩
    · rw [List.map_cons, List.nodup_cons]
      refine ⟨fun isTaken => ?_, sound.ids⟩
      obtain ⟨other, isHere, sameId⟩ := List.mem_map.mp isTaken
      exact absurd (List.find?_eq_none.mp isFree other isHere) (by simp [sameId])
    · intro i isHere
      rcases List.mem_cons.mp isHere with rfl | isOld
      · exact isNamed
      · exact sound.named i isOld
    · refine List.pairwise_cons.mpr ⟨fun other isHere => ?_, sound.newest⟩
      simpa using List.all_eq_true.mp isNewest other isHere
  · exact ⟨sound, Later.refl w⟩

theorem Invoice.becomes_key (before after : Invoice) :
    (before.becomes after).id = before.id ∧ (before.becomes after).seq = before.seq := by
  unfold Invoice.becomes
  split_ifs with isMoved
  · exact ⟨isMoved.1.symm, isMoved.2.1.symm⟩
  · exact ⟨rfl, rfl⟩

theorem Invoice.becomes_of_final {before : Invoice} (after : Invoice)
    (isFinal : before.status.moves after.status = false) : before.becomes after = before := by
  unfold Invoice.becomes
  refine if_neg ?_
  rintro ⟨_, _, isMoved⟩
  rw [isFinal] at isMoved
  cases isMoved

theorem move_keeps (sound : Sound p.subscriptionId p.promisedEndAt w) (invoice : Invoice)
    (stays : invoice.status = .paid → ∀ view ∈ w.stripe.answered, view.id = invoice.id →
      view.status ≠ some .uncollectible) :
    Sound p.subscriptionId p.promisedEndAt { w with stripe := w.stripe.move invoice } ∧
      Later w { w with stripe := w.stripe.move invoice } := by
  have kept {i : Invoice} (isHere : i ∈ w.stripe.invoices)
      (isFinal : i.status.moves invoice.status = false) :
      i ∈ w.stripe.invoices.map (·.becomes invoice) :=
    List.mem_map.mpr ⟨i, isHere, Invoice.becomes_of_final invoice isFinal⟩
  refine sound.of_invoices ?_ ?_ ?_ (fun i isHere isPaid => kept isHere (by rw [isPaid]; rfl))
    (fun i isHere isVoid => kept isHere (by rw [isVoid]; rfl)) ?_
  · have sameIds : (w.stripe.invoices.map (·.becomes invoice)).map (·.id) =
        w.stripe.invoices.map (·.id) := by
      rw [List.map_map]
      exact List.map_congr_left fun before _ => (Invoice.becomes_key before invoice).1
    rw [sameIds]
    exact sound.ids
  · intro i isHere
    obtain ⟨before, isBefore, rfl⟩ := List.mem_map.mp isHere
    rw [(Invoice.becomes_key before invoice).1]
    exact sound.named before isBefore
  · refine List.pairwise_map.mpr (sound.newest.imp fun {a b} isNewer => ?_)
    rw [(Invoice.becomes_key a invoice).2, (Invoice.becomes_key b invoice).2]
    exact isNewer
  · intro i isHere isUncollectible v isAnswered sameView isView
    refine ⟨_, List.mem_map_of_mem isHere, (Invoice.becomes_key i invoice).1, ?_⟩
    unfold Invoice.becomes
    split_ifs with isMoved
    · obtain ⟨sameId, _, moves⟩ := isMoved
      rw [isUncollectible] at moves
      cases isStatus : invoice.status with
      | draft =>
        rw [isStatus] at moves
        cases moves
      | «open» =>
        rw [isStatus] at moves
        cases moves
      | paid => exact absurd isView (stays isStatus v isAnswered (sameView.trans sameId))
      | void => exact Or.inr rfl
      | uncollectible => exact Or.inl rfl
    · exact Or.inl isUncollectible

theorem delete_keeps (sound : Sound p.subscriptionId p.promisedEndAt w) (id : String) :
    Sound p.subscriptionId p.promisedEndAt { w with stripe := w.stripe.delete id } ∧
      Later w { w with stripe := w.stripe.delete id } := by
  unfold Stripe.delete
  have kept {i : Invoice} (isHere : i ∈ w.stripe.invoices) (notDraft : i.status ≠ .draft) :
      i ∈ w.stripe.invoices.filter fun i => !(decide (i.id = id) && decide (i.status = .draft)) :=
    List.mem_filter.mpr ⟨isHere, by simp [notDraft]⟩
  refine sound.of_invoices (List.Nodup.sublist (List.filter_sublist.map _) sound.ids)
    (fun i isHere => sound.named i (List.mem_of_mem_filter isHere)) (sound.newest.filter _)
    (fun i isHere isPaid => kept isHere (by simp [isPaid]))
    (fun i isHere isVoid => kept isHere (by simp [isVoid]))
    fun i isHere isUncollectible _ _ _ _ => ⟨i, kept isHere (by simp [isUncollectible]), rfl,
      Or.inl isUncollectible⟩

theorem deliver_keeps (sound : Sound p.subscriptionId p.promisedEndAt w) (id : String) :
    Sound p.subscriptionId p.promisedEndAt { w with stripe := w.stripe.deliver id } ∧
      Later w { w with stripe := w.stripe.deliver id } := by
  unfold Stripe.deliver
  split
  · exact ⟨sound, Later.refl w⟩
  rename_i i isFound
  split_ifs
  · refine sound.log fun v isView => ?_
    rw [List.mem_singleton.mp isView]
    exact Invoice.shown (List.mem_of_find?_eq_some isFound) (Or.inr rfl)
  · exact ⟨sound, Later.refl w⟩

/-! ## Runs -/

private abbrev Keeps (p : ChargePromise) (ends : Nat → Except String Returned → World → Prop)
    (s : System) : Prop :=
  s.Keeps (Sound p.subscriptionId p.promisedEndAt) Later ends

variable {ends : Nat → Except String Returned → World → Prop}

theorem Keeps.written {s : System} (keeps : Keeps p ends s) {next : World}
    (kept : Sound p.subscriptionId p.promisedEndAt next ∧ Later s.world next) :
    Keeps p ends { s with world := next } := by
  refine Pool.Keeps.moved ?_ keeps kept.1 kept.2
  exact fun _ _ _ => Later.trans

theorem recording_meets {requestId : Option String} {inv : InvoiceView}
    (isAnswered : inv ∈ w.stripe.answered) (now : Int) :
    Meets (Sound p.subscriptionId p.promisedEndAt) Later (fun _ _ => True)
      (Returned.recorded <$> recordInvoice (p.under requestId) inv now) w := by
  have recording : Meets (Sound p.subscriptionId p.promisedEndAt) Later (fun _ _ => True)
      (recordInvoice (p.under requestId) inv now) w := by
    by_cases isNamed : inv.id = ""
    · unfold recordInvoice
      rw [if_pos isNamed]
      exact Meets.pure fun _ _ _ => trivial
    · exact (recordInvoice_meets (p := p.under requestId) isAnswered isNamed now).imp
        fun _ _ _ _ => trivial
  exact Meets.seq Later.refl recording (fun _ _ _ _ => Meets.pure fun _ _ _ => trivial)
    fun _ _ _ _ => trivial

/-- What a backfill that reports nothing pending leaves of the invoices that were paid. -/
def Judges (p : ChargePromise) (xs : List Invoice) (value : Except String Returned)
    (w : World) : Prop :=
  ∀ recorded, value = .ok (.backfilled { recorded := recorded, pending := 0 }) →
    ∀ x ∈ xs, Judged p.promisedEndAt w.db x

theorem backfilling_meets {requestId : Option String} {xs : List Invoice} (paid : Paid xs w)
    (now : Int) :
    Meets (Sound p.subscriptionId p.promisedEndAt) Later (Judges p xs)
      (Returned.backfilled <$> backfillCharges (p.under requestId) now) w := by
  refine Meets.seq Later.refl (backfillCharges_meets (p := p.under requestId) paid now)
    (fun value next _ ended => ?_) fun error next _ _ recorded isOk => by cases isOk
  refine Meets.pure fun last moved _ recorded isOk x isX => ?_
  have isValue : value = { recorded := recorded, pending := 0 } :=
    Returned.backfilled.inj (Except.ok.inj isOk)
  exact (ended recorded (congrArg Except.ok isValue) x isX).later moved

/-- **One step.** Whatever happens, in which no invoice given out as uncollectible is paid, keeps
what holds at every await and what every call goes on to. -/
theorem apply_keeps {s : System} (keeps : Keeps p ends s) (event : Event)
    (stays : StaysUncollectible s event) (starts : ∀ value w, ends s.programs.length value w) :
    Keeps p ends (apply p s event) := by
  cases event with
  | create invoice => exact Keeps.written keeps (create_keeps keeps.1 invoice)
  | move invoice => exact Keeps.written keeps (move_keeps keeps.1 invoice stays)
  | delete id => exact Keeps.written keeps (delete_keeps keeps.1 id)
  | deliver id => exact Keeps.written keeps (deliver_keeps keeps.1 id)
  | record inv requestId now =>
    unfold apply
    simp only
    split_ifs with isAnswered
    · exact keeps.start ((recording_meets isAnswered now).imp fun value next _ _ => starts value next)
    · exact keeps
  | backfill requestId now =>
    have nonePaid : Paid ([] : List Invoice) s.world := fun _ isX => by cases isX
    exact keeps.start
      ((backfilling_meets nonePaid now).imp fun value next _ _ => starts value next)
  | run call fails =>
    refine Pool.Keeps.step Later.refl ?_ keeps call fails
    exact fun _ _ _ => Later.trans
  | others usageTypes refundOps owners standingRequest =>
    refine Keeps.written keeps ⟨⟨keeps.1.ids, keeps.1.named, keeps.1.newest, fun v isHere => ?_,
      fun c isHere isSub => ?_, keeps.1.once, keeps.1.keys⟩,
      fun i isHere _ => isHere, fun v isHere => isHere, fun _ _ tracks => tracks, fun r isHere => isHere⟩
    · obtain ⟨hasStatus, stands, paid⟩ := keeps.1.answered v isHere
      exact ⟨hasStatus, stands, paid⟩
    · obtain ⟨stands, seen, paid⟩ := keeps.1.checks c isHere isSub
      exact ⟨stands, seen, paid⟩

theorem length_apply (p : ChargePromise) (s : System) (event : Event) :
    s.programs.length ≤ (apply p s event).programs.length := by
  have started (program : Prog World Returned) :
      s.programs.length ≤ (s.start program).programs.length := by
    unfold Pool.start
    simp
  cases event with
  | create invoice => exact Nat.le_refl _
  | move invoice => exact Nat.le_refl _
  | delete id => exact Nat.le_refl _
  | deliver id => exact Nat.le_refl _
  | record inv requestId now =>
    unfold apply
    simp only
    split_ifs
    · exact started _
    · exact Nat.le_refl _
  | backfill requestId now => exact started _
  | run call fails => exact Nat.le_of_eq (s.length_step call fails).symm
  | others usageTypes refundOps owners standingRequest => exact Nat.le_refl _

/-- A run in which no invoice given out as uncollectible is paid. -/
abbrev PromisedRun (p : ChargePromise) : System → List Event → System → Prop :=
  Run (Restrict (Step p) StaysUncollectible)

private structure Running (p : ChargePromise) (ends : Nat → Except String Returned → World → Prop)
    (started : Nat) (s : System) : Prop where
  keeps : Keeps p ends s
  calls : started ≤ s.programs.length

theorem keeps_of_run {s t : System} {events : List Event} (run : PromisedRun p s events t)
    (keeps : Keeps p ends s) (starts : ∀ call value w, s.programs.length ≤ call → ends call value w) :
    Keeps p ends t := by
  have step (u : System) (event : Event) (next : System)
      (running : Running p ends s.programs.length u)
      (taken : Restrict (Step p) StaysUncollectible u event next) :
      Running p ends s.programs.length next := by
    obtain ⟨rfl, stays⟩ := taken
    exact ⟨apply_keeps running.keeps event stays fun value w => starts _ value w running.calls,
      Nat.le_trans running.calls (length_apply p u event)⟩
  have running : Running p ends s.programs.length t := run.invariant ⟨keeps, Nat.le_refl _⟩ step
  exact running.keeps

theorem keeps_start (p : ChargePromise) (ends : Nat → Except String Returned → World → Prop) :
    Keeps p ends { world := {} } := by
  refine ⟨⟨List.nodup_nil, List.forall_mem_nil _, List.Pairwise.nil, List.forall_mem_nil _,
    List.forall_mem_nil _, List.nodup_nil, List.forall_mem_nil _⟩, fun which program isHere => ?_⟩
  cases isHere

/-- **No charge after a promised end is missed or recorded twice**, in every run in which no
invoice that was given out as uncollectible is paid: an invoice has one record at most, and
what was paid when a backfill began that reports nothing pending has its record, if it collected
money and is a charge after the promise. -/
theorem charges_recorded_once (p : ChargePromise) {s : System} {events : List Event}
    (before : PromisedRun p { world := {} } events s) :
    (s.world.db.lateRefunds.map (·.invoiceId)).Nodup ∧
      ∀ (requestId : Option String) (now : Int) (later : List Event) (t : System) (recorded : Nat),
        PromisedRun p (apply p s (.backfill requestId now)) later t →
        t.programs[s.programs.length]? =
          some (.done (.ok (.backfilled { recorded := recorded, pending := 0 }))) →
        ∀ x ∈ s.world.stripe.invoices, x.status = .paid → 0 < x.amountPaid →
          afterPromise x.view x.lines p.promisedEndAt = true →
            ∃ r ∈ t.world.db.lateRefunds, r.invoiceId = x.id := by
  have keeps := keeps_of_run before (keeps_start p fun _ _ _ => True) fun _ _ _ _ => trivial
  refine ⟨keeps.1.once, fun requestId now later t recorded after isDone x isHere isPaid collected
    isCharge => ?_⟩
  -- the backfill's own end is set apart from what the other calls end with
  let xs := s.world.stripe.invoices.filter fun i => decide (i.status = .paid)
  let ends : Nat → Except String Returned → World → Prop := fun call value w =>
    call = s.programs.length → Judges p xs value w
  have paid : Paid xs s.world := fun i isX =>
    ⟨List.mem_of_mem_filter isX, by simpa using (List.mem_filter.mp isX).2⟩
  have keepsEnds : Keeps p ends s := by
    refine ⟨keeps.1, fun which program isProgram => (keeps.2 which program isProgram).imp
      fun value w _ _ isCall => ?_⟩
    have isShort := (List.getElem?_eq_some_iff.mp isProgram).1
    exact absurd isCall (Nat.ne_of_lt isShort)
  have started : Keeps p ends (apply p s (.backfill requestId now)) :=
    keepsEnds.start ((backfilling_meets paid now).imp fun value w _ ended _ => ended)
  have atEnd := keeps_of_run after started fun call value w isLate isCall => by
    have isLonger : (apply p s (.backfill requestId now)).programs.length =
        s.programs.length + 1 := by
      simp [apply, Pool.start]
    omega
  have judged : Judges p xs (.ok (.backfilled { recorded := recorded, pending := 0 })) t.world :=
    Pool.Keeps.ended Later.refl atEnd isDone rfl
  rcases judged recorded rfl x (List.mem_filter.mpr ⟨isHere, by simpa using isPaid⟩) with
    isZero | isBefore | isRecord
  · exact absurd isZero (Int.not_le.mpr collected)
  · rw [isCharge] at isBefore
    cases isBefore
  · exact isRecord

end

/-! An invoice that was read as uncollectible and then is paid. -/

def promise : ChargePromise where
  subscriptionId := "sub"
  homeId := "home"
  promisedEndAt := 1000000
  requestId := none

/-- A renewal for time after the promised end. -/
def renewal (status : InvoiceStatus) (amountPaid : Int) (paidAt : Option Int) : Invoice where
  id := "in"
  seq := 1
  status := status
  amountPaid := amountPaid
  amountDue := some 500
  total := some 500
  tax := 0
  currency := some "eur"
  created := 2000
  paidAt := paidAt
  billingReason := none
  paymentIntent := none
  lines := []
  inline := 10

def play (s : System) (events : List Event) : System := events.foldl (apply promise) s

/-- The awaits of a backfill that begins now. -/
def awaits (s : System) (count : Nat) : List Event :=
  List.replicate count (.run s.programs.length false)

def backfilled (s : System) (count : Nat) : System :=
  play (apply promise s (.backfill none 0)) (awaits s count)

theorem awaits_along (s start : System) (count : Nat) :
    Along (apply promise) StaysUncollectible start (awaits s count) := by
  unfold awaits
  induction count generalizing start with
  | zero => exact trivial
  | succ count ih => exact ⟨trivial, ih _⟩

def settled : List Event :=
  [.create (renewal .draft 0 none), .move (renewal .open 0 none),
    .move (renewal .paid 500 (some 2500))]

theorem charges_recorded_once_settled :
    ∃ r ∈ (backfilled (play { world := {} } settled) 13).world.db.lateRefunds, r.invoiceId = "in" := by
  have before : PromisedRun promise { world := {} } settled (play { world := {} } settled) := by
    refine Run.foldl_along ⟨trivial, fun isPaid => ?_, fun _ _ isView => ?_, trivial⟩
    · cases isPaid
    · cases isView
  have isDone : (backfilled (play { world := {} } settled) 13).programs[
      (play { world := {} } settled).programs.length]? =
      some (.done (.ok (.backfilled { recorded := 1, pending := 0 }))) := rfl
  have isHere : renewal .paid 500 (some 2500) ∈ (play { world := {} } settled).world.stripe.invoices := by
    decide
  have isCharge : afterPromise (renewal .paid 500 (some 2500)).view
      (renewal .paid 500 (some 2500)).lines promise.promisedEndAt = true := by
    decide
  exact (charges_recorded_once promise before).2 none 0 _ _ 1
    (Run.foldl_along (awaits_along (play { world := {} } settled) _ 13)) isDone
    (renewal .paid 500 (some 2500)) isHere rfl (by decide) isCharge

def uncollectible : System :=
  let tracked := backfilled
    (play { world := {} } [.create (renewal .draft 0 none), .move (renewal .open 0 none)]) 6
  let reread := backfilled (play tracked [.move (renewal .uncollectible 0 none)]) 7
  play reread [.move (renewal .paid 500 (some 2500))]

theorem uncollectible_charge_missed :
    renewal .paid 500 (some 2500) ∈ uncollectible.world.stripe.invoices ∧
      afterPromise (renewal .paid 500 (some 2500)).view [] promise.promisedEndAt = true ∧
      (backfilled uncollectible 5).programs[uncollectible.programs.length]? =
        some (.done (.ok (.backfilled { recorded := 0, pending := 0 }))) ∧
      (backfilled uncollectible 5).world.db.lateRefunds = [] := by
  exact ⟨by decide, by decide, rfl, rfl⟩

end Murage.CancelCharges
