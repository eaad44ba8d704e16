import Mathlib.Data.List.Induction
import Mathlib.Data.List.Nodup
import Mathlib.Logic.Function.Basic
import Mathlib.Tactic.Common
import Murage.Transcript.Rows

/-!
Owns the meaning of `holdRows`. A held transcript is a partial map from numbers
to rows (`View`); `HoldStep` says everything one input row can do to it, and
`hold_refines` shows that the two-map loop of the source does exactly that. On
an ordered list the whole merge is the fold of these steps.

Does not own: what a sequence of inputs converges to.
-/

namespace Murage.Transcript

variable {Content : Type}

/-! ## Ordered lists of numbered rows -/

/-- The data invariant of a numbered transcript's rows: every row has its
number, numbers strictly ascend and no id is held twice. -/
structure Ordered (rows : List (Message Content)) : Prop where
  numbered : ∀ row ∈ rows, row.seq = some row.number
  ascending : rows.Pairwise fun below above => below.number < above.number
  distinct : (rows.map (·.id)).Nodup

namespace Ordered

theorem nil : Ordered ([] : List (Message Content)) :=
  ⟨by simp, List.Pairwise.nil, List.nodup_nil⟩

theorem cons_iff {row : Message Content} {rows : List (Message Content)} :
    Ordered (row :: rows) ↔
      row.seq = some row.number ∧ (∀ above ∈ rows, row.number < above.number) ∧
        (∀ above ∈ rows, above.id ≠ row.id) ∧ Ordered rows := by
  constructor
  · intro ordered
    have distinct := ordered.distinct
    rw [List.map_cons, List.nodup_cons] at distinct
    have ascending := List.pairwise_cons.mp ordered.ascending
    refine ⟨ordered.numbered row (by simp), ascending.1, fun above isIn equal => ?_, ?_⟩
    · exact distinct.1 (equal ▸ List.mem_map_of_mem isIn)
    · exact ⟨fun other isIn => ordered.numbered other (List.mem_cons_of_mem _ isIn),
        ascending.2, distinct.2⟩
  · rintro ⟨numbered, above, fresh, ordered⟩
    refine ⟨fun other isIn => ?_, List.pairwise_cons.mpr ⟨above, ordered.ascending⟩, ?_⟩
    · rcases List.mem_cons.mp isIn with rfl | isIn
      · exact numbered
      · exact ordered.numbered other isIn
    · rw [List.map_cons, List.nodup_cons]
      refine ⟨fun isIn => ?_, ordered.distinct⟩
      obtain ⟨other, otherMember, equal⟩ := List.mem_map.mp isIn
      exact fresh other otherMember equal

theorem eq_of_number {rows : List (Message Content)} (ordered : Ordered rows)
    {left right : Message Content} (leftMember : left ∈ rows) (rightMember : right ∈ rows)
    (same : left.number = right.number) : left = right := by
  induction rows with
  | nil => simp at leftMember
  | cons head tail ih =>
    obtain ⟨-, above, -, rest⟩ := cons_iff.mp ordered
    rcases List.mem_cons.mp leftMember with rfl | leftTail <;>
      rcases List.mem_cons.mp rightMember with rfl | rightTail
    · rfl
    · have := above right rightTail
      omega
    · have := above left leftTail
      omega
    · exact ih rest leftTail rightTail

theorem ext {left right : List (Message Content)} (leftOrdered : Ordered left)
    (rightOrdered : Ordered right) (same : ∀ row, row ∈ left ↔ row ∈ right) : left = right := by
  let before : Message Content → Message Content → Prop := fun a b => a.number < b.number
  have irreflexive : Std.Irrefl before := ⟨fun _ => Nat.lt_irrefl _⟩
  have antisymmetric : Std.Antisymm before :=
    ⟨fun _ _ forth back => absurd back (Nat.lt_asymm forth)⟩
  exact leftOrdered.ascending.eq_of_mem_iff rightOrdered.ascending same

end Ordered

/-! ## The held rows as a partial map -/

/-- What a transcript holds at each number. -/
abbrev View (Content : Type) := Nat → Option (Message Content)

def viewOf (rows : List (Message Content)) : View Content :=
  fun n => rows.find? fun row => row.seq == some n

/-- `row` at `seq`, every other number without a row of the same id. -/
def View.placed (view : View Content) (seq : Nat) (row : Message Content) : View Content :=
  fun n => if n = seq then some row else (view n).filter (·.id != row.id)

/-- Everything one input row can do to the held map: nothing (it has no number,
its number is held by a row it does not displace, or its id is held elsewhere by
a row it does not move), a placement, or a renewal of its own number. -/
inductive HoldStep (options : HoldOptions) (view : View Content) (row : Message Content) :
    View Content → Prop
  | unnumbered (seq : row.seq = none) : HoldStep options view row view
  | blocked {seq : Nat} {holder : Message Content} (numbered : row.seq = some seq)
      (held : view seq = some holder) (stays : ¬(holder.unvouched = true ∧ options.vouched = true))
      (same : holder.id = row.id → options.replace = false) : HoldStep options view row view
  | elsewhere {seq other : Nat} {holder : Message Content} (numbered : row.seq = some seq)
      (held : view other = some holder) (same : holder.id = row.id) (apart : other ≠ seq)
      (stays : ¬(holder.unvouched = true ∧ options.vouched = true)) :
      HoldStep options view row view
  | placed {seq : Nat} (numbered : row.seq = some seq)
      (displaces : ∀ holder, view seq = some holder →
        holder.id ≠ row.id ∧ holder.unvouched = true ∧ options.vouched = true)
      (moves : ∀ other holder, view other = some holder → holder.id = row.id →
        holder.unvouched = true ∧ options.vouched = true) :
      HoldStep options view row (view.placed seq (row.copy !options.vouched))
  | renewed {seq : Nat} {holder : Message Content} (numbered : row.seq = some seq)
      (held : view seq = some holder) (same : holder.id = row.id)
      (newer : options.replace = true ∨ holder.unvouched = true ∧ options.vouched = true) :
      HoldStep options view row
        (Function.update view seq (some (row.copy (holder.unvouched && !options.vouched))))

namespace HoldStep

variable {options : HoldOptions} {view after : View Content} {row : Message Content}

/-- A vouched number stays vouched and keeps its id; only a patch renews its
copy. -/
theorem keeps_vouched (step : HoldStep options view row after) {n : Nat}
    {holder : Message Content} (held : view n = some holder) (vouched : holder.unvouched = false) :
    ∃ kept, after n = some kept ∧ kept.unvouched = false ∧ kept.id = holder.id ∧
      (options.replace = false → kept = holder) := by
  have unchanged : ∃ kept, view n = some kept ∧ kept.unvouched = false ∧ kept.id = holder.id ∧
      (options.replace = false → kept = holder) := ⟨holder, held, vouched, rfl, fun _ => rfl⟩
  cases step with
  | unnumbered | blocked | elsewhere => exact unchanged
  | @placed seq numbered displaces moves =>
    have apart : n ≠ seq := by
      rintro rfl
      exact absurd (displaces holder held).2.1 (by simp [vouched])
    have other : holder.id ≠ row.id := fun same =>
      absurd (moves n holder held same).1 (by simp [vouched])
    refine ⟨holder, ?_, vouched, rfl, fun _ => rfl⟩
    simp [View.placed, apart, held, Option.filter, other]
  | @renewed seq current numbered currentAt same newer =>
    rw [Function.update_apply]
    split_ifs with here
    · have isHolder : current = holder := by
        rw [here, currentAt] at held
        exact Option.some.inj held
      refine ⟨_, rfl, by simp [isHolder, vouched], ?_, fun noReplace => ?_⟩
      · rw [Message.copy_id, ← same, isHolder]
      · rcases newer with replace | ⟨unvouched, -⟩
        · exact absurd replace (by simp [noReplace])
        · exact absurd unvouched (by simp [isHolder, vouched])
    · exact unchanged

/-- Every row held after a step was held before it at the same number, or is the
input row at its own number; it is vouched only when the input vouches, or when a
patch renewed a vouched holder. -/
theorem origin (step : HoldStep options view row after) {n : Nat} {found : Message Content}
    (held : after n = some found) :
    view n = some found ∨
      row.seq = some n ∧ (∃ flag, found = row.copy flag) ∧
        (found.unvouched = false → options.vouched = true ∨
          options.replace = true ∧ ∃ holder, view n = some holder ∧ holder.unvouched = false) := by
  cases step with
  | unnumbered | blocked | elsewhere => exact Or.inl held
  | @placed seq numbered displaces moves =>
    unfold View.placed at held
    split_ifs at held with here
    · right
      have isCopy := (Option.some.inj held).symm
      refine ⟨here ▸ numbered, ⟨_, isCopy⟩, fun vouched => Or.inl ?_⟩
      simpa [isCopy] using vouched
    · exact Or.inl (Option.filter_eq_some_iff.mp held).1
  | @renewed seq current numbered currentAt same newer =>
    rw [Function.update_apply] at held
    split_ifs at held with here
    · right
      have isCopy := (Option.some.inj held).symm
      refine ⟨here ▸ numbered, ⟨_, isCopy⟩, fun vouched => ?_⟩
      have flags : current.unvouched = true → options.vouched = true := by
        simpa [isCopy] using vouched
      cases unvouched : current.unvouched with
      | true => exact Or.inl (flags unvouched)
      | false =>
        rcases newer with replace | ⟨old, -⟩
        · exact Or.inr ⟨replace, current, here ▸ currentAt, unvouched⟩
        · exact absurd old (by simp [unvouched])
    · exact Or.inl held

end HoldStep

namespace Held

/-- The two maps are inverse to each other, and each row sits at its number. -/
structure Consistent (held : Held Content) : Prop where
  seq : ∀ n row, held.bySeq.lookup n = some row → row.seq = some n
  ids : ∀ id n, held.seqOf.lookup id = some n ↔ ∃ row, held.bySeq.lookup n = some row ∧ row.id = id

/-- The partial map of a loop state. -/
def view (held : Held Content) : View Content := fun n => held.bySeq.lookup n

theorem Consistent.id_injective {held : Held Content} (consistent : held.Consistent)
    {m n : Nat} {left right : Message Content} (leftAt : held.bySeq.lookup m = some left)
    (rightAt : held.bySeq.lookup n = some right) (same : left.id = right.id) : m = n := by
  have first := (consistent.ids right.id m).mpr ⟨left, leftAt, same⟩
  have second := (consistent.ids right.id n).mpr ⟨right, rightAt, rfl⟩
  exact Option.some.inj (first.symm.trans second)

theorem Consistent.empty : (Held.empty : Held Content).Consistent :=
  ⟨by simp [Held.empty], by simp [Held.empty]⟩

section Maps

variable {Key Value : Type} [DecidableEq Key]

theorem lookup_insert_eq (map : AList fun _ : Key => Value) (key other : Key)
    (value : Value) :
    (map.insert key value).lookup other = if other = key then some value else map.lookup other := by
  by_cases equal : other = key
  · subst equal
    rw [if_pos rfl, AList.lookup_insert]
  · rw [if_neg equal, AList.lookup_insert_ne equal]

theorem lookup_erase_eq (map : AList fun _ : Key => Value) (key other : Key) :
    (map.erase key).lookup other = if other = key then none else map.lookup other := by
  by_cases equal : other = key
  · subst equal
    rw [if_pos rfl, AList.lookup_erase]
  · rw [if_neg equal, AList.lookup_erase_ne equal]

end Maps

/-! ### The loop body -/

/-- The write at the end of a placement, from maps that no longer hold the row's
id and from which the displaced holder has gone. -/
theorem write_spec {held : Held Content} (consistent : held.Consistent) {seq : Nat}
    {row : Message Content} {bySeq : AList fun _ : Nat => Message Content}
    {seqOf : AList fun _ : String => Nat} (numbered : row.seq = some seq)
    (rows : ∀ n, n ≠ seq → bySeq.lookup n = (held.bySeq.lookup n).filter (·.id != row.id))
    (ids : ∀ id, id ≠ row.id → ∀ n, seqOf.lookup id = some n ↔
      held.seqOf.lookup id = some n ∧ n ≠ seq) (changed : Bool) :
    (⟨bySeq.insert seq row, seqOf.insert row.id seq, changed⟩ : Held Content).Consistent ∧
      (⟨bySeq.insert seq row, seqOf.insert row.id seq, changed⟩ : Held Content).view =
        held.view.placed seq row := by
  have viewEq : ∀ n, (bySeq.insert seq row).lookup n = held.view.placed seq row n := by
    intro n
    rw [lookup_insert_eq]
    unfold View.placed view
    split_ifs with here
    · rfl
    · exact rows n here
  refine ⟨⟨fun n found lookup => ?_, fun id n => ?_⟩, funext viewEq⟩
  · rw [viewEq] at lookup
    unfold View.placed at lookup
    split_ifs at lookup with here
    · rw [here, ← Option.some.inj lookup, numbered]
    · exact consistent.seq n found (Option.filter_eq_some_iff.mp lookup).1
  · change (seqOf.insert row.id seq).lookup id = some n ↔
      ∃ found, (bySeq.insert seq row).lookup n = some found ∧ found.id = id
    simp only [viewEq]
    rw [lookup_insert_eq]
    unfold View.placed view
    by_cases own : id = row.id
    · rw [if_pos own, own]
      constructor
      · intro equal
        rw [if_pos (Option.some.inj equal).symm]
        exact ⟨row, rfl, rfl⟩
      · rintro ⟨found, lookup, same⟩
        split_ifs at lookup with here
        · rw [here]
        · have kept := (Option.filter_eq_some_iff.mp lookup).2
          simp [same] at kept
    · rw [if_neg own, ids id own n, consistent.ids id n]
      constructor
      · rintro ⟨⟨found, lookup, same⟩, apart⟩
        rw [if_neg apart]
        refine ⟨found, Option.filter_eq_some_iff.mpr ⟨lookup, ?_⟩, same⟩
        simpa [same] using own
      · rintro ⟨found, lookup, same⟩
        split_ifs at lookup with here
        · exact absurd (same.symm.trans (congrArg Message.id (Option.some.inj lookup).symm)) own
        · exact ⟨⟨found, (Option.filter_eq_some_iff.mp lookup).1, same⟩, here⟩

theorem ids_without_holder {held : Held Content} (consistent : held.Consistent)
    {seq : Nat} (current : Option (Message Content)) (at_seq : held.bySeq.lookup seq = current)
    (id : String) (n : Nat) :
    (match current with
      | some holder => held.seqOf.erase holder.id
      | none => held.seqOf).lookup id = some n ↔ held.seqOf.lookup id = some n ∧ n ≠ seq := by
  cases current with
  | none =>
    refine ⟨fun lookup => ⟨lookup, fun here => ?_⟩, And.left⟩
    obtain ⟨found, foundAt, -⟩ := (consistent.ids id n).mp lookup
    rw [here, at_seq] at foundAt
    exact absurd foundAt (by simp)
  | some holder =>
    rw [lookup_erase_eq]
    by_cases own : id = holder.id
    · rw [if_pos own]
      refine ⟨fun lookup => absurd lookup (by simp), fun ⟨lookup, apart⟩ => ?_⟩
      have holderAt := (consistent.ids id seq).mpr ⟨holder, at_seq, own.symm⟩
      exact absurd (Option.some.inj (lookup.symm.trans holderAt)) apart
    · rw [if_neg own]
      refine ⟨fun lookup => ⟨lookup, fun here => ?_⟩, And.left⟩
      obtain ⟨found, foundAt, same⟩ := (consistent.ids id n).mp lookup
      rw [here, at_seq] at foundAt
      exact own (same.symm.trans (congrArg Message.id (Option.some.inj foundAt).symm))

theorem place_spec {held : Held Content} (consistent : held.Consistent)
    (options : HoldOptions) {seq : Nat} {row : Message Content} (numbered : row.seq = some seq)
    (current : Option (Message Content)) (at_seq : held.bySeq.lookup seq = current)
    (other : ∀ holder, current = some holder → holder.id ≠ row.id) :
    (held.place options.vouched seq row current).Consistent ∧
      HoldStep options held.view row (held.place options.vouched seq row current).view := by
  unfold place
  split_ifs with stays
  · -- a vouched holder, or an unvouched input
    obtain ⟨holder, isHolder, kept⟩ := (Option.any_eq_true _ _).mp stays
    refine ⟨consistent, .blocked numbered (at_seq.trans isHolder) ?_ fun same => ?_⟩
    · rintro ⟨unvouched, vouches⟩
      simp [unvouched, vouches] at kept
    · exact absurd same (other holder isHolder)
  · have displaces : ∀ holder, held.view seq = some holder →
        holder.id ≠ row.id ∧ holder.unvouched = true ∧ options.vouched = true := by
      intro holder held'
      have isHolder : current = some holder := at_seq.symm.trans held'
      refine ⟨other holder isHolder, ?_⟩
      rw [isHolder] at stays
      simpa using stays
    have numberedCopy : (row.copy !options.vouched).seq = some seq := numbered
    cases found : held.seqOf.lookup row.id with
    | none =>
      have absent : ∀ n holder, held.bySeq.lookup n = some holder → holder.id ≠ row.id := by
        intro n holder lookup same
        have := (consistent.ids row.id n).mpr ⟨holder, lookup, same⟩
        rw [found] at this
        exact absurd this (by simp)
      have spec := @write_spec _ _ consistent _ (row.copy !options.vouched) held.bySeq _
        numberedCopy
        (fun n _ => by
          cases lookup : held.bySeq.lookup n with
          | none => rfl
          | some holder => simpa [Option.filter] using absent n holder lookup)
        (fun id _ n => ids_without_holder consistent current at_seq id n) true
      refine ⟨spec.1, ?_⟩
      have step := @HoldStep.placed _ _ held.view _ _ numbered displaces
        fun n holder lookup same => absurd same (absent n holder lookup)
      rw [← spec.2] at step
      exact step
    | some elsewhere =>
      obtain ⟨mover, moverAt, moverId⟩ := (consistent.ids row.id elsewhere).mp found
      have apart : elsewhere ≠ seq := by
        intro here
        rw [here] at moverAt
        exact (displaces mover moverAt).1 moverId
      by_cases moves : (options.vouched &&
          (held.bySeq.lookup elsewhere).any (·.unvouched)) = true
      · dsimp only
        rw [if_pos moves]
        have moverUnvouched : mover.unvouched = true ∧ options.vouched = true := by
          rw [moverAt] at moves
          simpa [and_comm] using moves
        have spec := @write_spec _ _ consistent _ (row.copy !options.vouched)
          (held.bySeq.erase elsewhere) _ numberedCopy
          (fun n _ => by
            rw [lookup_erase_eq]
            split_ifs with here
            · rw [here, moverAt]
              simp [Option.filter, moverId]
            · cases lookup : held.bySeq.lookup n with
              | none => rfl
              | some holder =>
                have different : holder.id ≠ row.id := fun same =>
                  here (consistent.id_injective lookup moverAt (same.trans moverId.symm))
                simpa [Option.filter] using different)
          (fun id _ n => ids_without_holder consistent current at_seq id n) true
        refine ⟨spec.1, ?_⟩
        have step := @HoldStep.placed _ _ held.view _ _ numbered displaces
          fun n holder lookup same => by
            have here := consistent.id_injective lookup moverAt (same.trans moverId.symm)
            rw [here] at lookup
            have equal : mover = holder := Option.some.inj (moverAt.symm.trans lookup)
            exact equal ▸ moverUnvouched
        rw [← spec.2] at step
        exact step
      · dsimp only
        rw [if_neg moves]
        refine ⟨consistent, .elsewhere numbered moverAt moverId apart ?_⟩
        rw [moverAt] at moves
        rintro ⟨unvouched, vouches⟩
        simp [unvouched, vouches] at moves

theorem renew_spec {held : Held Content} (consistent : held.Consistent)
    (options : HoldOptions) {seq : Nat} {row holder : Message Content}
    (numbered : row.seq = some seq) (holderAt : held.bySeq.lookup seq = some holder)
    (same : holder.id = row.id) :
    (held.renew options seq row holder).Consistent ∧
      HoldStep options held.view row (held.renew options seq row holder).view := by
  have write : ∀ flag changed,
      ({ held with bySeq := held.bySeq.insert seq (row.copy flag), changed := changed }
        : Held Content).Consistent ∧
      ({ held with bySeq := held.bySeq.insert seq (row.copy flag), changed := changed }
        : Held Content).view = Function.update held.view seq (some (row.copy flag)) := by
    intro flag changed
    refine ⟨⟨fun n found lookup => ?_, fun id n => ?_⟩, funext fun n => ?_⟩
    · rw [lookup_insert_eq] at lookup
      split_ifs at lookup with here
      · rw [here, ← Option.some.inj lookup]
        exact numbered
      · exact consistent.seq n found lookup
    · rw [consistent.ids id n]
      simp only [lookup_insert_eq]
      by_cases here : n = seq
      · rw [if_pos here, here, holderAt]
        simp [same]
      · rw [if_neg here]
    · change (held.bySeq.insert seq (row.copy flag)).lookup n = _
      rw [lookup_insert_eq, Function.update_apply]
      rfl
  unfold renew
  split_ifs with replace vouches
  · refine ⟨(write _ _).1, ?_⟩
    rw [(write _ _).2]
    exact .renewed numbered holderAt same (Or.inl replace)
  · have flags : holder.unvouched = true ∧ options.vouched = true := by simpa using vouches
    refine ⟨(write _ _).1, ?_⟩
    have step := @HoldStep.renewed _ _ held.view _ _ _ numbered holderAt same (Or.inr flags)
    rw [(write _ _).2]
    simpa [flags.1, flags.2] using step
  · refine ⟨consistent, .blocked numbered holderAt ?_ fun _ => by simpa using replace⟩
    rintro ⟨unvouched, vouched⟩
    simp [unvouched, vouched] at vouches

/-- **Refinement of the loop body.** One turn of the two-map loop is one step on
the partial map, and it keeps the maps inverse. -/
theorem hold_refines {held : Held Content} (consistent : held.Consistent) (options : HoldOptions)
    (row : Message Content) :
    (held.hold options row).Consistent ∧
      HoldStep options held.view row (held.hold options row).view := by
  unfold hold
  cases numbered : row.seq with
  | none => exact ⟨consistent, .unnumbered numbered⟩
  | some seq =>
    cases lookup : held.bySeq.lookup seq with
    | none =>
      simpa only [lookup] using place_spec consistent options numbered none lookup (by simp)
    | some holder =>
      simp only [lookup]
      by_cases same : holder.id = row.id
      · rw [if_neg (not_not_intro same)]
        exact renew_spec consistent options numbered lookup same
      · rw [if_pos same]
        exact place_spec consistent options numbered (some holder) lookup
          (fun found isFound => Option.some.inj isFound ▸ same)

/-! ### Listing the held rows -/

theorem mem_rows {held : Held Content} (row : Message Content) :
    row ∈ held.rows ↔ ∃ n, held.view n = some row := by
  unfold rows view
  rw [List.mem_filterMap]
  refine ⟨fun ⟨n, _, found⟩ => ⟨n, found⟩, fun ⟨n, found⟩ => ⟨n, ?_, found⟩⟩
  rw [List.mem_insertionSort, ← AList.mem_keys, ← AList.lookup_isSome, found]
  rfl

theorem rows_ordered {held : Held Content} (consistent : held.Consistent) :
    Ordered held.rows := by
  have sorted : (held.bySeq.keys.insertionSort (· ≤ ·)).Pairwise (· < ·) := by
    have distinct : (held.bySeq.keys.insertionSort (· ≤ ·)).Nodup :=
      (List.perm_insertionSort _ _).nodup_iff.mpr held.bySeq.keys_nodup
    have ascending := List.pairwise_insertionSort (· ≤ ·) held.bySeq.keys
    exact (ascending.and distinct).imp fun ⟨le, ne⟩ => Nat.lt_of_le_of_ne le ne
  refine ⟨fun row isIn => ?_, ?_, ?_⟩
  · obtain ⟨n, found⟩ := (mem_rows row).mp isIn
    have seq := consistent.seq n row found
    rw [seq, Message.number_of_seq seq]
  · refine List.pairwise_filterMap.mpr (sorted.imp fun less left leftAt right rightAt => ?_)
    rw [Message.number_of_seq (consistent.seq _ left leftAt),
      Message.number_of_seq (consistent.seq _ right rightAt)]
    exact less
  · refine List.pairwise_map.mpr (List.pairwise_filterMap.mpr
      (sorted.imp fun less left leftAt right rightAt same => ?_))
    exact absurd (consistent.id_injective leftAt rightAt same) (Nat.ne_of_lt less)

end Held

/-! ## The partial map of an ordered list -/

namespace Ordered

theorem viewOf_eq_some {rows : List (Message Content)} (ordered : Ordered rows) {n : Nat}
    {row : Message Content} : viewOf rows n = some row ↔ row ∈ rows ∧ row.seq = some n := by
  unfold viewOf
  constructor
  · intro found
    exact ⟨List.mem_of_find?_eq_some found, by simpa using List.find?_some found⟩
  · rintro ⟨isIn, seq⟩
    cases found : rows.find? fun row => row.seq == some n with
    | none =>
      have absent := List.find?_eq_none.mp found row isIn
      simp [seq] at absent
    | some other =>
      have otherSeq : other.seq = some n := by simpa using List.find?_some found
      have same : other.number = row.number := by
        rw [Message.number_of_seq otherSeq, Message.number_of_seq seq]
      rw [ordered.eq_of_number (List.mem_of_find?_eq_some found) isIn same]

theorem viewOf_number {rows : List (Message Content)} (ordered : Ordered rows)
    {row : Message Content} (isIn : row ∈ rows) : viewOf rows row.number = some row :=
  ordered.viewOf_eq_some.mpr ⟨isIn, ordered.numbered row isIn⟩

theorem mem_iff_view {rows : List (Message Content)} (ordered : Ordered rows)
    {row : Message Content} : row ∈ rows ↔ ∃ n, viewOf rows n = some row :=
  ⟨fun isIn => ⟨_, ordered.viewOf_number isIn⟩,
    fun ⟨_, found⟩ => (ordered.viewOf_eq_some.mp found).1⟩

theorem id_injective {rows : List (Message Content)} (ordered : Ordered rows) {m n : Nat}
    {left right : Message Content} (leftAt : viewOf rows m = some left)
    (rightAt : viewOf rows n = some right) (same : left.id = right.id) : m = n := by
  obtain ⟨leftMember, leftSeq⟩ := ordered.viewOf_eq_some.mp leftAt
  obtain ⟨rightMember, rightSeq⟩ := ordered.viewOf_eq_some.mp rightAt
  have equal : left = right :=
    List.inj_on_of_nodup_map ordered.distinct leftMember rightMember same
  exact Option.some.inj (leftSeq.symm.trans (equal ▸ rightSeq))

end Ordered

namespace Held

theorem viewOf_rows {held : Held Content} (consistent : held.Consistent) :
    viewOf held.rows = held.view := by
  funext n
  refine Option.ext fun row => ?_
  rw [(rows_ordered consistent).viewOf_eq_some, mem_rows]
  constructor
  · rintro ⟨⟨m, found⟩, seq⟩
    have here : m = n := Option.some.inj ((consistent.seq m row found).symm.trans seq)
    exact here ▸ found
  · intro found
    exact ⟨⟨n, found⟩, consistent.seq n row found⟩

theorem load_spec {held : Held Content} (consistent : held.Consistent)
    {row : Message Content} {seq : Nat} (numbered : row.seq = some seq)
    (free : held.view seq = none)
    (fresh : ∀ n other, held.view n = some other → other.id ≠ row.id) :
    (held.load row).Consistent ∧
      (held.load row).view = Function.update held.view seq (some row) := by
  have keep : ∀ n, (held.bySeq.lookup n).filter (·.id != row.id) = held.bySeq.lookup n := by
    intro n
    cases lookup : held.bySeq.lookup n with
    | none => rfl
    | some other => simpa [Option.filter] using fresh n other lookup
  have spec := @write_spec _ _ consistent _ _ held.bySeq held.seqOf numbered
    (fun n _ => (keep n).symm)
    (fun id _ n => by
      refine ⟨fun lookup => ⟨lookup, fun here => ?_⟩, And.left⟩
      obtain ⟨found, foundAt, -⟩ := (consistent.ids id n).mp lookup
      rw [here] at foundAt
      exact absurd (free.symm.trans foundAt) (by simp)) held.changed
  have loaded : held.load row =
      ⟨held.bySeq.insert seq row, held.seqOf.insert row.id seq, held.changed⟩ := by
    unfold load
    rw [numbered]
  rw [loaded]
  refine ⟨spec.1, spec.2.trans (funext fun n => ?_)⟩
  unfold View.placed
  rw [Function.update_apply]
  split_ifs with here
  · rfl
  · exact keep n

theorem load_rows {rows : List (Message Content)} (ordered : Ordered rows) :
    ∀ {held : Held Content}, held.Consistent →
      (∀ row ∈ rows, ∀ n other, held.view n = some other →
        n ≠ row.number ∧ other.id ≠ row.id) →
      (rows.foldl load held).Consistent ∧
        ∀ n, (rows.foldl load held).view n = (viewOf rows n).or (held.view n) := by
  induction rows with
  | nil => exact fun consistent _ => ⟨consistent, fun n => by simp [viewOf]⟩
  | cons row rest ih =>
    intro held consistent apart
    obtain ⟨numbered, above, fresh, restOrdered⟩ := Ordered.cons_iff.mp ordered
    have free : held.view row.number = none := by
      cases lookup : held.view row.number with
      | none => rfl
      | some other => exact absurd rfl (apart row (by simp) _ other lookup).1
    have loaded := load_spec consistent numbered free
      fun n other lookup => (apart row (by simp) n other lookup).2
    have spec := ih restOrdered loaded.1 fun later isIn n other lookup => by
      rw [loaded.2, Function.update_apply] at lookup
      split_ifs at lookup with here
      · rw [here, ← Option.some.inj lookup]
        exact ⟨Nat.ne_of_lt (above later isIn), fun same => fresh later isIn same.symm⟩
      · exact apart later (List.mem_cons_of_mem _ isIn) n other lookup
    refine ⟨spec.1, fun n => ?_⟩
    rw [List.foldl_cons, spec.2 n, loaded.2, Function.update_apply]
    by_cases here : n = row.number
    · have absent : viewOf rest n = none := by
        cases lookup : viewOf rest n with
        | none => rfl
        | some other =>
          obtain ⟨isIn, seq⟩ := restOrdered.viewOf_eq_some.mp lookup
          have := above other isIn
          rw [Message.number_of_seq seq] at this
          omega
      have found : viewOf (row :: rest) n = some row := by
        rw [here]
        exact ordered.viewOf_number (by simp)
      rw [absent, found, if_pos here]
      rfl
    · have skipped : viewOf (row :: rest) n = viewOf rest n := by
        unfold viewOf
        rw [List.find?_cons_of_neg]
        rw [numbered]
        simpa using Ne.symm here
      rw [skipped, if_neg here]

theorem load_ordered {rows : List (Message Content)} (ordered : Ordered rows) :
    (rows.foldl load Held.empty).Consistent ∧ (rows.foldl load Held.empty).view = viewOf rows := by
  have spec := load_rows ordered Consistent.empty (by simp [view, Held.empty])
  refine ⟨spec.1, funext fun n => ?_⟩
  rw [spec.2 n]
  cases viewOf rows n <;> rfl

theorem hold_unchanged (options : HoldOptions) (held : Held Content)
    (row : Message Content) :
    held.hold options row = held ∨ (held.hold options row).changed = true := by
  unfold hold place renew
  split
  · exact Or.inl rfl
  · split
    · dsimp only
      split_ifs
      · exact Or.inl rfl
      · split <;> (try split_ifs) <;> simp
    · split_ifs
      · exact Or.inl rfl
      · dsimp only
        split <;> (try split_ifs) <;> simp
      · exact Or.inr rfl
      · exact Or.inr rfl
      · exact Or.inl rfl

end Held

/-! ## The whole merge -/

/-- The steps of the rows of one input, in order. -/
inductive HoldRun (options : HoldOptions) :
    View Content → List (Message Content) → View Content → Prop
  | nil (view : View Content) : HoldRun options view [] view
  | cons {view next final : View Content} {row : Message Content}
      {rows : List (Message Content)} (first : HoldStep options view row next)
      (rest : HoldRun options next rows final) : HoldRun options view (row :: rows) final

variable {options : HoldOptions}

theorem HoldRun.invariant {view final : View Content}
    {rows : List (Message Content)} {Inv : View Content → Prop}
    (run : HoldRun options view rows final) (initial : Inv view)
    (kept : ∀ before row after, row ∈ rows → Inv before →
      HoldStep options before row after → Inv after) : Inv final := by
  induction run with
  | nil => exact initial
  | cons first _ ih =>
    exact ih (kept _ _ _ (by simp) initial first)
      fun before row after isIn => kept before row after (List.mem_cons_of_mem _ isIn)

theorem foldl_hold (rows : List (Message Content)) :
    ∀ {held : Held Content}, held.Consistent →
      (rows.foldl (Held.hold options) held).Consistent ∧
        HoldRun options held.view rows (rows.foldl (Held.hold options) held).view := by
  induction rows with
  | nil => exact fun consistent => ⟨consistent, .nil _⟩
  | cons row rest ih =>
    intro held consistent
    have first := Held.hold_refines consistent options row
    have later := ih first.1
    exact ⟨later.1, .cons first.2 later.2⟩

theorem foldl_hold_unchanged (rows : List (Message Content)) :
    ∀ held : Held Content, rows.foldl (Held.hold options) held = held ∨
      (rows.foldl (Held.hold options) held).changed = true := by
  induction rows using List.reverseRecOn with
  | nil => exact fun _ => Or.inl rfl
  | append_singleton rest row ih =>
    intro held
    rw [List.foldl_append, List.foldl_cons, List.foldl_nil]
    rcases Held.hold_unchanged options (rest.foldl (Held.hold options) held) row with same | changed
    · rw [same]
      exact ih held
    · exact Or.inr changed

/-- **The merge.** On an ordered list `holdRows` yields an ordered list, and it
is the run of its rows' steps on the partial map. -/
theorem holdRows_spec {held : List (Message Content)} (ordered : Ordered held)
    (rows : List (Message Content)) (options : HoldOptions) :
    Ordered (holdRows held rows options) ∧
      HoldRun options (viewOf held) rows (viewOf (holdRows held rows options)) := by
  obtain ⟨consistent, loadedView⟩ := Held.load_ordered ordered
  let loaded := held.foldl Held.load Held.empty
  let start : Held Content := { loaded with changed := held.length != loaded.bySeq.keys.length }
  have startConsistent : start.Consistent := ⟨consistent.seq, consistent.ids⟩
  have startView : start.view = viewOf held := loadedView
  have folded := @foldl_hold _ options rows _ startConsistent
  have unfolded : holdRows held rows options =
      if (rows.foldl (Held.hold options) start).changed then
        (rows.foldl (Held.hold options) start).rows else held := rfl
  have listed : holdRows held rows options = (rows.foldl (Held.hold options) start).rows := by
    rw [unfolded]
    split_ifs with changed
    · rfl
    · have same := (@foldl_hold_unchanged _ options rows start).resolve_right changed
      rw [same]
      refine ordered.ext (Held.rows_ordered startConsistent) fun row => ?_
      rw [ordered.mem_iff_view, Held.mem_rows, startView]
  rw [listed, Held.viewOf_rows folded.1, ← startView]
  exact ⟨Held.rows_ordered folded.1, folded.2⟩

/-- Every row of the merge was held, or is a copy of an input row at its own
number; an unvouched input makes no row vouched where none was. -/
theorem origin_of_mem_holdRows {held : List (Message Content)} (ordered : Ordered held)
    {rows : List (Message Content)} {found : Message Content}
    (isIn : found ∈ holdRows held rows options) :
    found ∈ held ∨ ∃ row ∈ rows, row.seq = some found.number ∧ (∃ flag, found = row.copy flag) ∧
      (found.unvouched = false → options.vouched = true ∨
        ∃ holder ∈ held, holder.number = found.number ∧ holder.unvouched = false) := by
  let Origin : View Content → Prop := fun view => ∀ n found, view n = some found →
    viewOf held n = some found ∨ ∃ row ∈ rows, row.seq = some n ∧ (∃ flag, found = row.copy flag) ∧
      (found.unvouched = false → options.vouched = true ∨
        ∃ holder, viewOf held n = some holder ∧ holder.unvouched = false)
  obtain ⟨resultOrdered, run⟩ := holdRows_spec ordered rows options
  have origin : Origin (viewOf (holdRows held rows options)) := by
    refine run.invariant (fun n found foundAt => Or.inl foundAt) ?_
    intro before row after rowMember ih step n found foundAt
    rcases step.origin foundAt with kept | ⟨numbered, isCopy, source⟩
    · exact ih n found kept
    · refine Or.inr ⟨row, rowMember, numbered, isCopy, fun vouched => ?_⟩
      rcases source vouched with vouches | ⟨-, holder, holderAt, holderVouched⟩
      · exact Or.inl vouches
      · -- a patch of a vouched row: the holder is itself held, or a vouched input's
        rcases ih n holder holderAt with heldAt | ⟨_, _, _, _, earlier⟩
        · exact Or.inr ⟨holder, heldAt, holderVouched⟩
        · exact earlier holderVouched
  rcases origin found.number found (resultOrdered.viewOf_number isIn) with heldAt |
    ⟨row, rowMember, numbered, isCopy, source⟩
  · exact Or.inl (ordered.viewOf_eq_some.mp heldAt).1
  · refine Or.inr ⟨row, rowMember, numbered, isCopy, fun vouched => (source vouched).imp_right ?_⟩
    rintro ⟨holder, holderAt, holderVouched⟩
    obtain ⟨holderMember, holderSeq⟩ := ordered.viewOf_eq_some.mp holderAt
    exact ⟨holder, holderMember, Message.number_of_seq holderSeq, holderVouched⟩

end Murage.Transcript
