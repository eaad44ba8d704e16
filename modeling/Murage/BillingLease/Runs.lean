import Murage.BillingLease.System

/-!
Owns what every run keeps: each fenced statement does what the statement alone does while the
lease is held and nothing once it is gone, no one but its holder moves a lease row, and
acquisitions answer with rising generations.
-/

namespace Murage.BillingLease

open Murage.Library.Resumption
open Murage.Library.SqlText
open Murage.Library.Transition

section

variable {Tables Row : Type} {e : Engine Tables Row} {w next last : World Tables}
  {before after : Db Tables}

/-! ## Lease rows under statements that take none -/

/-- Lease rows stay, their generations do not fall, and no one becomes a holder. -/
structure KeepsHolders (before after : Db Tables) : Prop where
  stays : ∀ homeId row, before.leases homeId = some row →
    ∃ row', after.leases homeId = some row' ∧ row.generation ≤ row'.generation
  holders : ∀ homeId row' holder, after.leases homeId = some row' → row'.holder = some holder →
    ∃ row, before.leases homeId = some row ∧ row.holder = some holder ∧
      row.generation = row'.generation

theorem KeepsHolders.of_leases (isSame : after.leases = before.leases) :
    KeepsHolders before after := by
  refine ⟨fun homeId row isHere => ⟨row, isSame ▸ isHere, Int.le_refl _⟩,
    fun homeId row holder isHere isHolder => ⟨row, isSame ▸ isHere, isHolder, rfl⟩⟩

theorem KeepsHolders.trans {middle : Db Tables} (first : KeepsHolders before middle)
    (second : KeepsHolders middle after) : KeepsHolders before after := by
  refine ⟨fun homeId row isHere => ?_, fun homeId row' holder isHere isHolder => ?_⟩
  · obtain ⟨row₁, isHere₁, le₁⟩ := first.stays homeId row isHere
    obtain ⟨row₂, isHere₂, le₂⟩ := second.stays homeId row₁ isHere₁
    exact ⟨row₂, isHere₂, Int.le_trans le₁ le₂⟩
  · obtain ⟨row₁, isHere₁, isHolder₁, same₁⟩ := second.holders homeId row' holder isHere isHolder
    obtain ⟨row₂, isHere₂, isHolder₂, same₂⟩ := first.holders homeId row₁ holder isHere₁ isHolder₁
    exact ⟨row₂, isHere₂, isHolder₂, same₂.trans same₁⟩

variable (db : Db Tables) (homeId : String)

theorem updateLease_leases (guard : LeaseRow → Bool) (set : LeaseRow → LeaseRow) (other : String) :
    (db.updateLease homeId guard set).1.leases other =
      if other = homeId then
        (db.leases homeId).map fun row => if guard row then set row else row
      else db.leases other := by
  unfold Db.updateLease
  split
  · rename_i row isHere
    split_ifs with isGuarded isHome isHome
    · rw [isHome, isHere, Option.map_some, if_pos isGuarded]
      exact Function.update_self _ _ _
    · exact Function.update_of_ne isHome _ _
    · rw [isHome, isHere, Option.map_some, if_neg isGuarded]
    · rfl
  · rename_i isNone
    split_ifs with isHome
    · rw [isHome, isNone]
      rfl
    · rfl

theorem updateLease_keeps (guard : LeaseRow → Bool) {set : LeaseRow → LeaseRow}
    (sameGeneration : ∀ row, (set row).generation = row.generation)
    (noHolder : ∀ row, (set row).holder = row.holder ∨ (set row).holder = none) :
    KeepsHolders db (db.updateLease homeId guard set).1 := by
  refine ⟨fun other row isHere => ?_, fun other row' holder isHere isHolder => ?_⟩
  · rw [updateLease_leases]
    split_ifs with isHome
    · rw [isHome] at isHere
      rw [isHere]
      refine ⟨_, rfl, ?_⟩
      simp only
      split_ifs
      · exact Int.le_of_eq (sameGeneration row).symm
      · exact Int.le_refl _
    · exact ⟨row, isHere, Int.le_refl _⟩
  · rw [updateLease_leases] at isHere
    split_ifs at isHere with isHome
    · obtain ⟨row, isRow, isSet⟩ := Option.map_eq_some_iff.mp isHere
      refine ⟨row, isHome ▸ isRow, ?_⟩
      split_ifs at isSet
      · rw [← isSet] at isHolder ⊢
        rcases noHolder row with isSame | isNone
        · exact ⟨isSame ▸ isHolder, (sameGeneration row).symm⟩
        · rw [isNone] at isHolder
          cases isHolder
      · rw [isSet]
        exact ⟨isHolder, rfl⟩
    · exact ⟨row', isHere, isHolder, rfl⟩

theorem updateLease_leaves {lease : HomeLease} {guard : LeaseRow → Bool} (set : LeaseRow → LeaseRow)
    (isGuarded : ∀ row, guard row = true → row.isOf lease = true) :
    LeavesOthers lease db (db.updateLease lease.homeId guard set).1 := by
  intro homeId row isHere isOther
  rw [updateLease_leases]
  split_ifs with isHome
  · rw [isHome] at isHere
    rw [isHere, Option.map_some, if_neg fun guarded => isOther ⟨isHome, isGuarded row guarded⟩]
  · exact isHere

theorem renewLease_keeps (lease : HomeLease) :
    KeepsHolders db (db.renewLease lease).1 :=
  updateLease_keeps db _ _ (fun _ => rfl) fun _ => Or.inl rfl

theorem insertLease_keeps :
    KeepsHolders db (db.insertLease homeId) := by
  unfold Db.insertLease
  split
  · exact KeepsHolders.of_leases rfl
  · rename_i isNone
    refine ⟨fun other row isHere => ?_, fun other row' holder isHere isHolder => ?_⟩
    · refine ⟨row, (Function.update_of_ne ?_ _ _).trans isHere, Int.le_refl _⟩
      rintro rfl
      exact Option.some_ne_none row (isHere.symm.trans isNone)
    · by_cases isHome : other = homeId
      · rw [isHome] at isHere
        simp only [Function.update_self, Option.some_inj] at isHere
        rw [← isHere] at isHolder
        cases isHolder
      · simp only [Function.update_of_ne isHome] at isHere
        exact ⟨row', isHere, isHolder, rfl⟩

theorem executeItem_spec {db db' : Db Tables} {item : Item} {n : Nat}
    (isDone : e.executeItem db item = .ok (db', n)) :
    db'.leases = db.leases ∨ ∃ lease, item = .renew lease ∧ db' = (db.renewLease lease).1 := by
  cases item with
  | write sql binds =>
    simp only [Engine.executeItem] at isDone
    cases executed : e.execute db sql binds with
    | error error =>
      rw [executed] at isDone
      cases isDone
    | ok result =>
      rw [executed] at isDone
      cases isDone
      exact Or.inl rfl
  | renew lease =>
    exact Or.inr ⟨lease, rfl, (congrArg Prod.fst (Except.ok.inj isDone)).symm⟩

theorem executeItem_keeps {db db' : Db Tables} {item : Item} {n : Nat}
    (isDone : e.executeItem db item = .ok (db', n)) :
    KeepsHolders db db' ∧ ∀ homeId row, db.leases homeId = some row →
      (∀ lease, .renew lease = item → ¬ (homeId = lease.homeId ∧ row.isOf lease = true)) →
        db'.leases homeId = some row := by
  rcases executeItem_spec isDone with isSame | ⟨lease, rfl, rfl⟩
  · exact ⟨KeepsHolders.of_leases isSame, fun homeId row isHere _ => isSame ▸ isHere⟩
  · refine ⟨renewLease_keeps db lease, fun homeId row isHere isOther => ?_⟩
    exact updateLease_leaves db _ (fun _ guarded => guarded) homeId row isHere (isOther lease rfl)

theorem executeAll_keeps {db db' : Db Tables} {stmts : List Item} {counts : List Nat}
    (isDone : e.executeAll db stmts = .ok (db', counts)) :
    KeepsHolders db db' ∧ ∀ homeId row, db.leases homeId = some row →
      (∀ lease, .renew lease ∈ stmts → ¬ (homeId = lease.homeId ∧ row.isOf lease = true)) →
        db'.leases homeId = some row := by
  induction stmts generalizing db counts with
  | nil =>
    cases isDone
    exact ⟨KeepsHolders.of_leases rfl, fun _ _ isHere _ => isHere⟩
  | cons item rest ih =>
    unfold Engine.executeAll at isDone
    cases executed : e.executeItem db item with
    | error error =>
      rw [executed] at isDone
      cases isDone
    | ok result =>
      obtain ⟨middle, n⟩ := result
      rw [executed] at isDone
      change (e.executeAll middle rest >>= fun result => _) = _ at isDone
      cases more : e.executeAll middle rest with
      | error error =>
        rw [more] at isDone
        cases isDone
      | ok result =>
        rw [more] at isDone
        cases isDone
        obtain ⟨keeps, leaves⟩ := ih more
        obtain ⟨itemKeeps, itemLeaves⟩ := executeItem_keeps executed
        refine ⟨itemKeeps.trans keeps, fun homeId row isHere isOther => ?_⟩
        have isStill : middle.leases homeId = some row :=
          itemLeaves homeId row isHere fun lease isItem =>
            isOther lease (isItem ▸ List.mem_cons_self)
        exact leaves homeId row isStill fun lease isIn =>
          isOther lease (List.mem_cons_of_mem _ isIn)

/-! ## What holds at every await -/

structure Sound (e : Engine Tables Row) (w : World Tables) : Prop where
  fenced : ∀ o ∈ w.trace, o.Covered e → o.Fenced e
  taken : ∀ homeId holder generation, .took homeId holder generation ∈ w.trace →
    ∃ row, w.db.leases homeId = some row ∧ generation ≤ row.generation
  rising : ∀ (i j : Nat) homeId first second generation later, i < j →
    w.trace[i]? = some (.took homeId first generation) →
      w.trace[j]? = some (.took homeId second later) → generation < later
  acquired : ∀ (position : Nat) lease since, w.trace[position]? = some (.acquired lease since) →
    (∀ between generation, since < between → between < position →
      w.trace[between]? ≠ some (.took lease.homeId lease.holder generation)) →
        w.trace[since]? = some (.took lease.homeId lease.holder lease.generation)

/-- What may become of the world between two awaits of a call: a holder that is new took the
lease in between. -/
structure Later (w next : World Tables) : Prop where
  trace : w.trace <+: next.trace
  holders : ∀ homeId row' holder, next.db.leases homeId = some row' → row'.holder = some holder →
    (∃ row, w.db.leases homeId = some row ∧ row.holder = some holder ∧
      row.generation = row'.generation) ∨
    ∃ (position : Nat) (generation : Int), w.trace.length ≤ position ∧
      next.trace[position]? = some (.took homeId holder generation)

variable {o : Observation Tables}

theorem getElem?_along {position : Nat} {trace more : List (Observation Tables)}
    (isPrefix : trace <+: more) (isHere : (trace)[position]? = some o) :
    (more)[position]? = some o := by
  obtain ⟨rest, rfl⟩ := isPrefix
  rw [List.getElem?_append_left (List.getElem?_eq_some_iff.mp isHere).1]
  exact isHere

theorem Later.refl (w : World Tables) : Later w w :=
  ⟨List.prefix_refl _, fun _ row _ isHere isHolder => Or.inl ⟨row, isHere, isHolder, rfl⟩⟩

theorem Later.trans (w next last : World Tables) (first : Later w next) (second : Later next last) :
    Later w last := by
  refine ⟨first.trace.trans second.trace, fun homeId row' holder isHere isHolder => ?_⟩
  rcases second.holders homeId row' holder isHere isHolder with
    ⟨row, isRow, sameHolder, sameGeneration⟩ | ⟨position, generation, isAfter, isTook⟩
  · rcases first.holders homeId row holder isRow sameHolder with
      ⟨row₀, isRow₀, sameHolder₀, sameGeneration₀⟩ | ⟨position, generation, isAfter, isTook⟩
    · exact Or.inl ⟨row₀, isRow₀, sameHolder₀, sameGeneration₀.trans sameGeneration⟩
    · exact Or.inr ⟨position, generation, isAfter, getElem?_along second.trace isTook⟩
  · exact Or.inr ⟨position, generation, Nat.le_trans first.trace.length_le isAfter, isTook⟩

/-- An observation of a statement that takes no lease. -/
def Observation.isWrite : Observation Tables → Bool
  | .took _ _ _ => false
  | .acquired _ _ => false
  | _ => true

theorem getElem?_saw {other : Observation Tables} {after : Db Tables} {position : Nat}
    (isHere : (w.saw after o).trace[position]? = some other) :
    w.trace[position]? = some other ∨ (position = w.trace.length ∧ other = o) := by
  unfold World.saw at isHere
  rw [List.getElem?_append] at isHere
  split_ifs at isHere with isOld
  · exact Or.inl isHere
  · rw [List.getElem?_singleton] at isHere
    split_ifs at isHere with isLast
    exact Or.inr ⟨by omega, (Option.some.inj isHere).symm⟩

theorem lt_length {position : Nat} (isHere : w.trace[position]? = some o) :
    position < w.trace.length :=
  (List.getElem?_eq_some_iff.mp isHere).1

/-- **A statement that takes no lease.** It keeps what holds at every await. -/
theorem Sound.saw (sound : Sound e w) (isWrite : o.isWrite = true) (keeps : KeepsHolders w.db after)
    (fenced : o.Covered e → o.Fenced e) :
    Sound e (w.saw after o) ∧ Later w (w.saw after o) := by
  refine ⟨⟨fun other isHere covered => ?_, fun homeId holder generation isHere => ?_,
    fun i j homeId first second generation later isBefore isFirst isSecond => ?_,
    fun position lease since isHere noOverlap => ?_⟩,
    ⟨List.prefix_append _ _, fun homeId row' holder isHere isHolder =>
      Or.inl (keeps.holders homeId row' holder isHere isHolder)⟩⟩
  · rcases List.mem_append.mp isHere with isOld | isNew
    · exact sound.fenced other isOld covered
    · rw [List.mem_singleton.mp isNew] at covered ⊢
      exact fenced covered
  · rcases List.mem_append.mp isHere with isOld | isNew
    · obtain ⟨row, isRow, le⟩ := sound.taken homeId holder generation isOld
      obtain ⟨row', isRow', le'⟩ := keeps.stays homeId row isRow
      exact ⟨row', isRow', Int.le_trans le le'⟩
    · rw [← List.mem_singleton.mp isNew] at isWrite
      cases isWrite
  · rcases getElem?_saw isFirst with isFirst | ⟨-, rfl⟩
    · rcases getElem?_saw isSecond with isSecond | ⟨-, rfl⟩
      · exact sound.rising i j homeId first second generation later isBefore isFirst isSecond
      · cases isWrite
    · cases isWrite
  · rcases getElem?_saw isHere with isOld | ⟨-, rfl⟩
    · have isBefore := lt_length isOld
      refine getElem?_along (List.prefix_append w.trace [o])
        (sound.acquired position lease since isOld fun between generation isAfter isEarlier => ?_)
      intro isTook
      exact noOverlap between generation isAfter isEarlier
        (getElem?_along (List.prefix_append w.trace [o]) isTook)
    · cases isWrite

theorem Sound.moved (sound : Sound e w) (keeps : KeepsHolders w.db after) :
    Sound e { w with db := after } ∧ Later w { w with db := after } := by
  refine ⟨⟨sound.fenced, fun homeId holder generation isHere => ?_, sound.rising, sound.acquired⟩,
    ⟨List.prefix_refl _, fun homeId row' holder isHere isHolder =>
      Or.inl (keeps.holders homeId row' holder isHere isHolder)⟩⟩
  obtain ⟨row, isRow, le⟩ := sound.taken homeId holder generation isHere
  obtain ⟨row', isRow', le'⟩ := keeps.stays homeId row isRow
  exact ⟨row', isRow', Int.le_trans le le'⟩

/-! ## The statements of the calls -/

theorem runFenced_keeps (sound : Sound e w) {lease : HomeLease} {sql : Text}
    {binds : List Value} {fenced : Text × List Value}
    (isFenced : fenceSql sql binds lease = .ok fenced) :
    Sound e (runFenced e lease sql binds fenced w).1 ∧
      Later w (runFenced e lease sql binds fenced w).1 := by
  unfold runFenced
  split
  · rename_i tables n executed
    refine sound.saw rfl (KeepsHolders.of_leases rfl) fun fences => ?_
    obtain ⟨whileHeld, onceLost⟩ := fenced_effect fences isFenced
    refine ⟨fun isHeld => ?_, fun isLost => ?_⟩
    · rw [← whileHeld isHeld, executed]
      exact ⟨rfl, rfl⟩
    · rw [onceLost isLost tables n executed]
  · rename_i error executed
    refine sound.saw rfl (KeepsHolders.of_leases rfl) fun fences => ?_
    obtain ⟨whileHeld, -⟩ := fenced_effect fences isFenced
    refine ⟨fun isHeld => ?_, fun _ => rfl⟩
    rw [← whileHeld isHeld, executed]
    exact ⟨rfl, rfl⟩

theorem runBatch_keeps (sound : Sound e w) (lease : HomeLease) (stmts : List Item) :
    Sound e (runBatch e lease stmts w).1 ∧ Later w (runBatch e lease stmts w).1 := by
  unfold runBatch
  simp only
  split
  · rename_i after counts executed
    split_ifs at executed with isHeld
    obtain ⟨keeps, leaves⟩ := executeAll_keeps executed
    refine sound.saw rfl keeps fun _ => ⟨fun _ => ?_, fun isLost => ?_, leaves⟩
    · rw [executed]
      exact ⟨rfl, rfl⟩
    · exact absurd (isHeld.symm.trans isLost) (by decide)
  · rename_i error executed
    refine sound.saw rfl (KeepsHolders.of_leases rfl) fun _ =>
      ⟨fun isHeld => ?_, fun _ => rfl, fun _ _ isHere _ => isHere⟩
    rw [if_pos isHeld] at executed
    rw [executed]
    exact ⟨rfl, rfl⟩

theorem extend_keeps (sound : Sound e w) (lease : HomeLease) :
    Sound e (w.saw (w.db.extendLease lease).1 (.extended lease w.db (w.db.extendLease lease).1)) ∧
      Later w
        (w.saw (w.db.extendLease lease).1 (.extended lease w.db (w.db.extendLease lease).1)) := by
  refine sound.saw rfl (updateLease_keeps _ _ _ (fun _ => rfl) fun _ => Or.inl rfl) fun _ => ?_
  exact updateLease_leaves w.db _ fun row guarded => (Bool.and_eq_true_iff.mp guarded).1

theorem release_keeps (sound : Sound e w) (lease : HomeLease) :
    Sound e (w.saw (w.db.releaseLease lease).1 (.released lease w.db (w.db.releaseLease lease).1)) ∧
      Later w
        (w.saw (w.db.releaseLease lease).1 (.released lease w.db (w.db.releaseLease lease).1)) := by
  refine sound.saw rfl (updateLease_keeps _ _ _ (fun _ => rfl) fun _ => Or.inr rfl) fun _ => ?_
  exact updateLease_leaves w.db _ fun _ guarded => guarded

theorem takeLease_spec {db after : Db Tables} {homeId holder : String}
    (isTaken : db.takeLease homeId holder = (after, 1)) :
    ∃ row leaseUntil, db.leases homeId = some row ∧
      after =
        { db with
          leases :=
            Function.update db.leases homeId
              (some ⟨some holder, leaseUntil, row.generation + 1⟩) } := by
  unfold Db.takeLease Db.updateLease at isTaken
  split at isTaken
  · rename_i row isHere
    split_ifs at isTaken
    · exact ⟨row, _, isHere, ((Prod.mk.inj isTaken).1).symm⟩
    · cases isTaken
  · cases isTaken

/-- An acquisition has just taken the lease row. -/
def Took (homeId holder : String) (since : Nat) (w : World Tables) : Prop :=
  ∃ row, w.db.leases homeId = some row ∧ row.holder = some holder ∧ w.trace.length = since + 1 ∧
    w.trace[since]? = some (.took homeId holder row.generation)

/-- **A taking.** Its generation is greater than every earlier one. -/
theorem runTake_keeps (sound : Sound e w) (homeId holder : String) :
    (Sound e (runTake homeId holder w).1 ∧ Later w (runTake homeId holder w).1) ∧
      ∀ since, (runTake homeId holder w).2 = .ok (1, since) →
        Took homeId holder since (runTake homeId holder w).1 := by
  unfold runTake
  split
  · rename_i after isTaken
    obtain ⟨row, leaseUntil, isHere, rfl⟩ := takeLease_spec isTaken
    have isAfter : ((Function.update w.db.leases homeId
        (some ⟨some holder, leaseUntil, row.generation + 1⟩) homeId).map (·.generation)).getD 0 =
          row.generation + 1 := by
      rw [Function.update_self]
      rfl
    simp only [isAfter]
    refine ⟨⟨⟨fun other isIn covered => ?_, fun other who generation isIn => ?_,
      fun i j other first second generation later isBefore isFirst isSecond => ?_,
      fun position lease since isIn noOverlap => ?_⟩,
      ⟨List.prefix_append _ _, fun other row' who isRow isHolder => ?_⟩⟩, fun since isSince => ?_⟩
    · rcases List.mem_append.mp isIn with isOld | isNew
      · exact sound.fenced other isOld covered
      · rw [List.mem_singleton.mp isNew]
        trivial
    · have isTop : ∀ generation, generation ≤ row.generation + 1 → other = homeId →
          ∃ row', (Function.update w.db.leases homeId
              (some ⟨some holder, leaseUntil, row.generation + 1⟩)) other = some row' ∧
            generation ≤ row'.generation := by
        rintro generation le rfl
        exact ⟨_, Function.update_self _ _ _, le⟩
      rcases List.mem_append.mp isIn with isOld | isNew
      · obtain ⟨before, isBefore, le⟩ := sound.taken other who generation isOld
        by_cases isHome : other = homeId
        · rw [isHome, isHere] at isBefore
          cases isBefore
          exact isTop generation (by omega) isHome
        · exact ⟨before, (Function.update_of_ne isHome _ _).trans isBefore, le⟩
      · obtain ⟨isHome, -, isGeneration⟩ := Observation.took.inj (List.mem_singleton.mp isNew)
        exact isTop generation (Int.le_of_eq isGeneration) isHome
    · rcases getElem?_saw isFirst with isOld | ⟨isLast, -⟩
      · rcases getElem?_saw isSecond with isOldToo | ⟨-, isNew⟩
        · exact sound.rising i j other first second generation later isBefore isOld isOldToo
        · obtain ⟨rfl, -, rfl⟩ := Observation.took.inj isNew
          obtain ⟨before, isRow, le⟩ :=
            sound.taken _ first generation (List.mem_of_getElem? isOld)
          rw [isHere] at isRow
          cases isRow
          omega
      · have isShort := lt_length isSecond
        unfold World.saw at isShort
        simp only [List.length_append, List.length_singleton] at isShort
        omega
    · rcases getElem?_saw isIn with isOld | ⟨-, isNew⟩
      · have isEarly := lt_length isOld
        refine getElem?_along (List.prefix_append w.trace _)
          (sound.acquired position lease since isOld fun between generation isAfter isEarlier => ?_)
        intro isTook
        exact noOverlap between generation isAfter isEarlier
          (getElem?_along (List.prefix_append w.trace _) isTook)
      · cases isNew
    · by_cases isHome : other = homeId
      · unfold World.saw at isRow
        simp only [isHome, Function.update_self, Option.some_inj] at isRow
        rw [← isRow] at isHolder
        cases isHolder
        refine Or.inr ⟨w.trace.length, row.generation + 1, Nat.le_refl _, ?_⟩
        rw [isHome]
        exact List.getElem?_concat_length
      · unfold World.saw at isRow
        simp only [Function.update_of_ne isHome] at isRow
        exact Or.inl ⟨row', isRow, isHolder, rfl⟩
    · cases isSince
      refine ⟨_, Function.update_self _ _ _, rfl, List.length_append, ?_⟩
      exact List.getElem?_concat_length
  · rename_i isNot _
    refine ⟨⟨sound, Later.refl w⟩, fun since isSince => ?_⟩
    exact absurd (Prod.mk.inj (Except.ok.inj isSince)).1 isNot

/-- **A reading.** It finds the generation of its own taking, unless its holder took the lease
again since. -/
theorem runRead_keeps {homeId holder : String} {since : Nat}
    (took : Took homeId holder since w) (moved : Later w next) (sound : Sound e next) :
    Sound e (runRead homeId holder since next).1 ∧
      Later next (runRead homeId holder since next).1 := by
  unfold runRead
  split
  · exact ⟨sound, Later.refl next⟩
  · rename_i row isRead
    obtain ⟨isHere, isHolder⟩ := Option.filter_eq_some_iff.mp isRead
    have sameHolder : row.holder = some holder := beq_iff_eq.mp isHolder
    refine ⟨⟨fun other isIn covered => ?_, fun other who generation isIn => ?_,
      fun i j other first second generation later isBefore isFirst isSecond => ?_,
      fun position lease since' isIn noOverlap => ?_⟩,
      ⟨List.prefix_append _ _, fun other row' who isRow isHolder =>
        Or.inl ⟨row', isRow, isHolder, rfl⟩⟩⟩
    · rcases List.mem_append.mp isIn with isOld | isNew
      · exact sound.fenced other isOld covered
      · rw [List.mem_singleton.mp isNew]
        trivial
    · rcases List.mem_append.mp isIn with isOld | isNew
      · exact sound.taken other who generation isOld
      · cases List.mem_singleton.mp isNew
    · rcases getElem?_saw isFirst with isOld | ⟨-, isNew⟩
      · rcases getElem?_saw isSecond with isOldToo | ⟨-, isNew⟩
        · exact sound.rising i j other first second generation later isBefore isOld isOldToo
        · cases isNew
      · cases isNew
    · have stillOld : ∀ between generation,
          next.trace[between]? = some (Observation.took lease.homeId lease.holder generation) →
            (next.saw next.db (.acquired { homeId, holder, generation := row.generation }
              since)).trace[between]? =
                some (Observation.took lease.homeId lease.holder generation) :=
        fun between generation isTook => getElem?_along (List.prefix_append next.trace _) isTook
      rcases getElem?_saw isIn with isOld | ⟨isLast, isNew⟩
      · refine stillOld since' lease.generation
          (sound.acquired position lease since' isOld fun between generation isAfter isEarlier => ?_)
        exact fun isTook =>
          noOverlap between generation isAfter isEarlier (stillOld between generation isTook)
      · obtain ⟨rfl, rfl⟩ := Observation.acquired.inj isNew
        obtain ⟨taken, isTaken, takenHolder, isLength, isTook⟩ := took
        rcases moved.holders homeId row holder isHere sameHolder with
          ⟨before, isBefore, -, sameGeneration⟩ | ⟨between, generation, isAfter, isAgain⟩
        · rw [isTaken] at isBefore
          cases isBefore
          rw [sameGeneration] at isTook
          exact stillOld since' row.generation (getElem?_along moved.trace isTook)
        · refine absurd (stillOld between generation isAgain) (noOverlap between generation ?_ ?_)
          · omega
          · rw [isLast]
            exact lt_length isAgain

/-! ## The calls -/

theorem query_meets {α : Type} {run : World Tables → World Tables × Except String α}
    {post : Except String α → World Tables → Prop}
    (step : ∀ next, Later w next → Sound e next →
      (Sound e (run next).1 ∧ Later next (run next).1) ∧
        ∀ last, Later (run next).1 last → Sound e last → post (run next).2 last)
    (fails : ∀ error last, Sound e last → post (.error error) last) :
    Meets (Sound e) Later post (query run) w := by
  intro next moved sound isFailed
  cases isFailed with
  | true =>
    exact ⟨⟨sound, Later.refl next⟩, fun last _ soundLast => fails _ last soundLast⟩
  | false =>
    obtain ⟨kept, ends⟩ := step next moved sound
    refine ⟨kept, fun last movedOn soundLast isLost => ⟨⟨soundLast, Later.refl last⟩, ?_⟩⟩
    cases isLost with
    | true => exact fun more _ soundMore => fails _ more soundMore
    | false =>
      exact fun more movedMore soundMore =>
        ends more (Later.trans _ _ _ movedOn movedMore) soundMore

abbrev Keeps {α : Type} (e : Engine Tables Row) (program : Prog (World Tables) α)
    (w : World Tables) : Prop :=
  Meets (Sound e) Later (fun _ _ => True) program w

theorem query_keeps {α : Type} {run : World Tables → World Tables × Except String α}
    (step : ∀ next, Sound e next → Sound e (run next).1 ∧ Later next (run next).1) :
    Keeps e (query run) w :=
  query_meets (fun next _ sound => ⟨step next sound, fun _ _ _ => trivial⟩) fun _ _ _ => trivial

theorem Keeps.seq {α β : Type} {program : Prog (World Tables) α}
    {rest : α → Prog (World Tables) β} (keeps : Keeps e program w)
    (more : ∀ value next, Keeps e (rest value) next) : Keeps e (program >>= rest) w :=
  Meets.seq Later.refl keeps (fun value next _ _ => more value next) fun _ _ _ _ => trivial

theorem keeps_done {α : Type} (value : Except String α) :
    Keeps e (Prog.done value : Prog (World Tables) α) w := fun _ _ _ => trivial

variable (lease : HomeLease)

theorem stillHeld_keeps : Keeps e (stillHeld lease) w :=
  query_keeps fun next sound => ⟨sound, Later.refl next⟩

theorem acquireHomeLease_keeps (holder : String) :
    Keeps e (acquireHomeLease homeId holder) w := by
  unfold acquireHomeLease
  refine Keeps.seq (query_keeps fun next sound => sound.moved (insertLease_keeps next.db homeId))
    fun _ next => ?_
  have taking : Meets (Sound e) Later
      (fun value last => ∀ since, value = .ok (1, since) →
        ∃ taken, Took homeId holder since taken ∧ Later taken last)
      (query (runTake homeId holder)) next := by
    refine query_meets (fun found _ sound => ?_) fun error last _ since isSince => by cases isSince
    obtain ⟨kept, takes⟩ := runTake_keeps sound homeId holder
    exact ⟨kept, fun last moved _ since isSince => ⟨_, takes since isSince, moved⟩⟩
  refine Meets.seq Later.refl taking (fun value last _ took => ?_) fun _ _ _ _ => trivial
  obtain ⟨changes, since⟩ := value
  simp only
  split_ifs with isNone
  · exact keeps_done _
  · have isOne : changes = 1 := not_not.mp isNone
    obtain ⟨taken, isTaken, moved⟩ := took since (by rw [isOne])
    exact query_meets (fun found movedOn sound =>
      ⟨runRead_keeps isTaken (Later.trans _ _ _ moved movedOn) sound, fun _ _ _ => trivial⟩)
      fun _ _ _ => trivial

theorem fence_keeps : Keeps e (fence lease) w := by
  unfold fence
  refine Keeps.seq (query_keeps fun next sound => extend_keeps sound lease) fun changes next => ?_
  split_ifs
  · exact keeps_done _
  · exact keeps_done _

theorem fencedRun_keeps (sql : Text) (binds : List Value) :
    Keeps e (fencedRun e lease sql binds) w := by
  unfold fencedRun
  split
  · exact keeps_done _
  · rename_i fenced isFenced
    refine Keeps.seq (query_keeps fun next sound => runFenced_keeps sound isFenced)
      fun changes next => ?_
    split_ifs
    · refine Keeps.seq (stillHeld_keeps lease) fun isHeld next => ?_
      split_ifs
      · exact keeps_done _
      · exact keeps_done _
    · exact keeps_done _

theorem fencedBatch_keeps (stmts : List Item) :
    Keeps e (fencedBatch e lease stmts) w := by
  unfold fencedBatch
  refine Keeps.seq (Meets.attempt (query_keeps fun next sound => runBatch_keeps sound lease stmts))
    fun result next => ?_
  cases result with
  | ok changes => exact keeps_done _
  | error error =>
    refine Keeps.seq (stillHeld_keeps lease) fun isHeld next => ?_
    split_ifs
    · exact keeps_done _
    · exact keeps_done _

theorem releaseHomeLease_keeps : Keeps e (releaseHomeLease lease) w :=
  query_keeps fun _ sound => release_keeps sound lease

/-- **Every worker** keeps what holds at every await. -/
theorem Works.keeps {α : Type} {program : Prog (World Tables) α} (works : Works e program) :
    ∀ w, Keeps e program w := by
  induction works with
  | done value => exact fun w => keeps_done value
  | elsewhere next _ ih =>
    exact fun w found _ sound fails =>
      ⟨⟨sound, Later.refl found⟩, ih found fails found⟩
  | acquireHomeLease homeId holder => exact fun w => acquireHomeLease_keeps homeId holder
  | fence lease => exact fun w => fence_keeps lease
  | fencedRun lease sql binds => exact fun w => fencedRun_keeps lease sql binds
  | fencedBatch lease stmts => exact fun w => fencedBatch_keeps lease stmts
  | releaseHomeLease lease => exact fun w => releaseHomeLease_keeps lease
  | bind _ _ first rest => exact fun w => (first w).seq fun value next => rest value next
  | attempt _ ih => exact fun w => Meets.attempt (ih w)

/-! ## Runs -/

theorem apply_keeps {s : System Tables} (event : Event e)
    (keeps : s.Keeps (Sound e) Later fun _ _ _ => True) :
    (apply e s event).Keeps (Sound e) Later fun _ _ _ => True := by
  cases event with
  | start worker => exact keeps.start (worker.works.keeps _)
  | run worker fails => exact keeps.step Later.refl Later.trans worker fails
  | tick ms =>
    have ticked : KeepsHolders s.world.db { s.world.db with now := s.world.db.now + ms } :=
      KeepsHolders.of_leases rfl
    exact keeps.moved Later.trans (keeps.1.moved ticked).1 (keeps.1.moved ticked).2
  | others tables =>
    have written : KeepsHolders s.world.db { s.world.db with tables } :=
      KeepsHolders.of_leases rfl
    exact keeps.moved Later.trans (keeps.1.moved written).1 (keeps.1.moved written).2

theorem sound_of_run {db : Db Tables} {events : List (Event e)} {s : System Tables}
    (run : Run (Step e) (start db) events s) : Sound e s.world := by
  have keeps : s.Keeps (Sound e) Later fun _ _ _ => True := by
    refine run.invariant ?_ ?_
    · refine ⟨⟨?_, ?_, ?_, ?_⟩, ?_⟩
      · exact fun o isHere => absurd isHere List.not_mem_nil
      · exact fun _ _ _ isHere => absurd isHere List.not_mem_nil
      · intro i j _ _ _ _ _ _ isFirst
        cases isFirst
      · intro _ _ _ isHere
        cases isHere
      · intro which program isHere
        cases isHere
    · rintro before event after keeps rfl
      exact apply_keeps event keeps
  exact keeps.1

/-- **Billing writes are fenced.** In every run whose statements are ones the lease condition
fences, and in which no holder takes the lease again between the two statements of an
acquisition of its own: each statement or batch under a lease does what it would alone while the
lease is held and nothing once it is gone, no call moves another holder's lease row, and later
acquisitions answer with greater generations. -/
theorem billing_writes_fenced {db : Db Tables} {events : List (Event e)} {s : System Tables}
    (run : Run (Step e) (start db) events s)
    (covered : ∀ o ∈ s.world.trace, o.Covered e) (noOverlap : NoOverlap s.world.trace) :
    (∀ o ∈ s.world.trace, o.Fenced e) ∧ Increasing s.world.trace := by
  have sound := sound_of_run run
  refine ⟨fun o isHere => sound.fenced o isHere (covered o isHere),
    fun first second since later isFirst isSecond sameHome isBefore => ?_⟩
  obtain ⟨i, isAtFirst⟩ := List.getElem?_of_mem isFirst
  obtain ⟨j, isAtSecond⟩ := List.getElem?_of_mem isSecond
  have firstTook := sound.acquired i first since isAtFirst (noOverlap i first since isAtFirst)
  have secondTook := sound.acquired j second later isAtSecond (noOverlap j second later isAtSecond)
  rw [sameHome] at firstTook
  exact sound.rising since later _ _ _ _ _ isBefore firstTook secondTook

end

/-! ## Two runs over one table of subscriptions -/

private abbrev Subscription := String × String

def Tok.given : Tok → Option Value
  | .value v => some v
  | _ => none

def subscriptionTest (db : Db (List Subscription)) (row : Option Subscription)
    (factor : Text) : Option Bool :=
  match factor, row with
  | .word "EXISTS" :: rest, _ =>
    match rest.filterMap Tok.given with
    | [.text homeId, .text holder, .integer generation] =>
      some (db.held { homeId, holder, generation })
    | _ => none
  | [.word "home_id", .word "=", .literal homeId], some row => some (row.1 == homeId)
  | [.word "status", .word "=", .literal status], some row => some (row.2 == status)
  | _, _ => none

/-- A database whose one billing table holds subscriptions, and which sets their status. -/
def subscriptions : Engine (List Subscription) Subscription where
  rows := fun db _ => db.tables
  test := subscriptionTest
  change := fun db head rows _ =>
    match head, rows with
    | _, [] => .ok (db.tables, 0)
    | [.keyword .UPDATE, .word "billing_subscriptions", .word "SET", .word "status", .word "=",
        .literal status], rows =>
        .ok (db.tables.map fun row => if row ∈ rows then (row.1, status) else row, rows.length)
    | _, _ => .error "no_such_column"
  insert := fun _ _ _ _ => .error "no_such_table"
  test_held := fun db row l => by cases row <;> rfl
  change_none := fun db head tail => by cases head <;> rfl

def isHome : Text := [.word "home_id", .word "=", .literal "fence-home"]

def cancelWhere (condition : Text) : Text :=
  [.keyword .UPDATE, .word "billing_subscriptions", .word "SET", .word "status", .word "=",
    .literal "canceled", .keyword .WHERE] ++ condition

def play (db : Db (List Subscription)) (events : List (Event subscriptions)) :
    System (List Subscription) := events.foldl (apply subscriptions) (start db)

def noLease : Db (List Subscription) where
  leases := fun _ => none
  tables := [("fence-home", "active")]
  now := 0

def acquiring (holder : String) (sql : Text) : Worker subscriptions where
  program := acquireHomeLease "fence-home" holder >>= fun lease =>
    match lease with
    | none => pure ()
    | some lease => fencedRun subscriptions lease sql [] >>= fun _ => pure ()
  works := (Works.acquireHomeLease _ _).bind fun lease => by
    cases lease with
    | none => exact Works.done _
    | some lease => exact (Works.fencedRun _ _ _).bind fun _ => Works.done _

/-- A worker stalls with its lease until another took it, and then writes where one of two
conditions holds. -/
def stale : List (Event subscriptions) :=
  [.start (acquiring "worker-old"
      (cancelWhere (isHome ++ [.keyword .OR, .word "status", .word "=", .literal "past_due"])))] ++
    List.replicate 6 (.run 0 false) ++ [.tick (2 * 60000 + 1), .start (acquiring "worker-new" [])] ++
    List.replicate 6 (.run 1 false) ++ [.run 0 false]

def strays : Observation (List Subscription) → Bool
  | .ran lease _ _ before after _ => !before.held lease && before.tables != after.tables
  | _ => false

/-- The stale worker's write is not fenced: the lease condition went to the second condition. -/
theorem stale_or_writes : ∃ s, Run (Step subscriptions) (start noLease) stale s ∧
    ∃ o ∈ s.world.trace, ¬ o.Fenced subscriptions := by
  have isSeen : (play noLease stale).world.trace.any strays = true := by decide
  refine ⟨play noLease stale, Run.foldl _ _ _, ?_⟩
  obtain ⟨o, isHere, isStray⟩ := List.any_eq_true.mp isSeen
  refine ⟨o, isHere, fun isFenced => ?_⟩
  cases o with
  | ran lease sql binds before after changes =>
    obtain ⟨isLost, isChanged⟩ := Bool.and_eq_true_iff.mp isStray
    rw [isFenced.2 (by simpa using isLost)] at isChanged
    exact absurd isChanged (by simp)
  | _ => cases isStray

def held : Db (List Subscription) where
  leases := fun _ => some ⟨some "worker", some 120000, 1⟩
  tables := [("fence-home", "active"), ("other-home", "active")]
  now := 0

def ownLease : HomeLease := ⟨"fence-home", "worker", 1⟩

def writesTwice : Worker subscriptions where
  program := fencedRun subscriptions ownLease (cancelWhere isHome) [] >>= fun _ =>
    fencedRun subscriptions ownLease (cancelWhere isHome) [] >>= fun _ => pure ()
  works := (Works.fencedRun _ _ _).bind fun _ => (Works.fencedRun _ _ _).bind fun _ => Works.done _

/-- A worker writes under its lease, and again once the lease has expired. -/
def expiring : List (Event subscriptions) :=
  [.start writesTwice, .run 0 false, .run 0 false, .tick 120001, .others [("fence-home", "active")],
    .run 0 false]

def cancels : Observation (List Subscription) → Bool
  | .ran _ sql binds _ _ _ => sql == cancelWhere isHome && binds == []
  | _ => false

theorem cancels_covered {o : Observation (List Subscription)} (isCancel : cancels o = true) :
    o.Covered subscriptions := by
  cases o with
  | ran lease sql binds before after changes =>
    obtain ⟨isSql, isBinds⟩ := Bool.and_eq_true_iff.mp isCancel
    rw [beq_iff_eq] at isSql isBinds
    rw [isSql, isBinds]
    exact Or.inl ⟨_, isHome, rfl, Or.inr fun _ _ => rfl⟩
  | _ => trivial

theorem billing_writes_fenced_expiring :
    (∀ o ∈ (play held expiring).world.trace, o.Fenced subscriptions) ∧
      Increasing (play held expiring).world.trace := by
  have areCancels : (play held expiring).world.trace.all cancels = true := by decide
  rw [List.all_eq_true] at areCancels
  refine billing_writes_fenced (Run.foldl _ _ _)
    (fun o isHere => cancels_covered (areCancels o isHere)) fun position lease since isHere => ?_
  have isCancel := areCancels _ (List.mem_of_getElem? isHere)
  cases isCancel

end Murage.BillingLease
