import Murage.TurnHolds.Model

/-!
Owns the completeness of the copy index: under which writes every stored copy stays indexed, at
its place, under every stored original at any depth, and that after the rounds of its fill every
stored line is indexed under every line that a chain of at most nine copies leads to.
-/

namespace Murage.TurnHolds

open Relation Murage.Library.Links

variable {json : String → Option Fields} {world : World} {key : Key} {role : Role}
  {text : String} {position : Nat}

/-! ## Edges -/

theorem mem_putEdge {edges : List Edge} {edge other : Edge} :
    other ∈ putEdge edges edge ↔ (other ∈ edges ∧ other.samePair edge = false) ∨ other = edge := by
  simp [putEdge]

variable {edge : Edge}

theorem mem_put_of_mem {edges news : List Edge} (isIn : edge ∈ edges)
    (others : ∀ new ∈ news, edge.samePair new = false) : edge ∈ news.foldl putEdge edges := by
  induction news generalizing edges with
  | nil => exact isIn
  | cons new rest ih =>
    refine ih ?_ fun later isLater => others later (List.mem_cons_of_mem _ isLater)
    exact mem_putEdge.mpr (Or.inl ⟨isIn, others new List.mem_cons_self⟩)

theorem mem_put_of_new {edges news : List Edge} (isIn : edge ∈ news)
    (one : ∀ new ∈ news, edge.copy = new.copy → edge.position = new.position) :
    edge ∈ news.foldl putEdge edges := by
  induction news generalizing edges with
  | nil => exact absurd isIn List.not_mem_nil
  | cons new rest ih =>
    have oneRest : ∀ later ∈ rest, edge.copy = later.copy → edge.position = later.position :=
      fun later isLater => one later (List.mem_cons_of_mem _ isLater)
    by_cases deeper : edge ∈ rest
    · exact ih deeper oneRest
    · obtain rfl := (List.mem_cons.mp isIn).resolve_right deeper
      rw [List.foldl_cons]
      refine mem_put_of_mem (mem_putEdge.mpr (Or.inr rfl)) fun later isLater => ?_
      refine Bool.eq_false_iff.mpr fun same => deeper ?_
      obtain ⟨sameOrigin, sameCopy⟩ := of_decide_eq_true same
      have samePosition := oneRest later isLater sameCopy
      have isIt : edge = later := by
        cases edge
        cases later
        simp_all
      exact isIt ▸ isLater

theorem mem_of_mem_put {edges news : List Edge} (isIn : edge ∈ news.foldl putEdge edges) :
    edge ∈ edges ∨ edge ∈ news := by
  induction news generalizing edges with
  | nil => exact Or.inl isIn
  | cons new rest ih =>
    rcases ih isIn with before | later
    · rcases mem_putEdge.mp before with ⟨old, -⟩ | rfl
      · exact Or.inl old
      · exact Or.inr List.mem_cons_self
    · exact Or.inr (List.mem_cons_of_mem _ later)

/-! ## The trigger after an insert -/

section

variable {line : Line} {edges : List Edge}

theorem indexCopies_other (isIn : edge ∈ edges) (isOther : edge.copy ≠ line.key) :
    edge ∈ indexCopies json line edges := by
  have differs : ∀ new : Edge, new.copy = line.key → edge.samePair new = false := by
    intro new isNew
    refine Bool.eq_false_iff.mpr fun same => isOther ?_
    exact (of_decide_eq_true same).2.trans isNew
  refine mem_put_of_mem (mem_put_of_mem isIn fun new isNew => ?_) fun new isNew => ?_
  · obtain ⟨origin, -, rfl⟩ := List.mem_map.mp isNew
    exact differs _ rfl
  · obtain ⟨origin, -, above⟩ := List.mem_flatMap.mp isNew
    obtain ⟨up, -, rfl⟩ := List.mem_map.mp above
    exact differs _ rfl

theorem above_spec {direct : List Edge} {new : Edge}
    (isNew : new ∈ (originals json line.json).flatMap fun origin =>
      (direct.filter (·.copy = origin)).map fun up => Edge.mk up.origin line.key line.position) :
    new.copy = line.key ∧ new.position = line.position := by
  obtain ⟨origin, -, above⟩ := List.mem_flatMap.mp isNew
  obtain ⟨up, -, rfl⟩ := List.mem_map.mp above
  exact ⟨rfl, rfl⟩

variable {origin : Key}

theorem direct_mem (isNamed : origin ∈ originals json line.json) :
    Edge.mk origin line.key line.position ∈
      ((originals json line.json).map fun origin =>
        Edge.mk origin line.key line.position).foldl putEdge edges := by
  refine mem_put_of_new (List.mem_map_of_mem isNamed) fun new isNew _ => ?_
  obtain ⟨other, -, rfl⟩ := List.mem_map.mp isNew
  rfl

theorem indexCopies_direct (isNamed : origin ∈ originals json line.json) :
    Edge.mk origin line.key line.position ∈ indexCopies json line edges := by
  let direct := ((originals json line.json).map fun origin =>
    Edge.mk origin line.key line.position).foldl putEdge edges
  by_cases isAbove : Edge.mk origin line.key line.position ∈
      (originals json line.json).flatMap fun named =>
        (direct.filter (·.copy = named)).map fun up => Edge.mk up.origin line.key line.position
  · exact mem_put_of_new isAbove fun new isNew _ => (above_spec isNew).2.symm
  · refine mem_put_of_mem (direct_mem isNamed) fun new isNew => ?_
    refine Bool.eq_false_iff.mpr fun same => isAbove ?_
    obtain ⟨sameOrigin, -⟩ := of_decide_eq_true same
    obtain ⟨isCopy, isPlace⟩ := above_spec isNew
    have isIt : Edge.mk origin line.key line.position = new := by
      cases new
      simp_all
    exact isIt ▸ isNew

theorem indexCopies_above {origin named : Key} {place : Nat}
    (isNamed : named ∈ originals json line.json) (isEdge : Edge.mk origin named place ∈ edges) :
    Edge.mk origin line.key line.position ∈ indexCopies json line edges := by
  by_cases isDirect : origin ∈ originals json line.json
  · exact indexCopies_direct isDirect
  refine mem_put_of_new (List.mem_flatMap.mpr ⟨named, isNamed, ?_⟩)
    fun new isNew _ => (above_spec isNew).2.symm
  refine List.mem_map.mpr ⟨Edge.mk origin named place, ?_, rfl⟩
  refine List.mem_filter.mpr ⟨mem_put_of_mem isEdge fun new isNew => ?_, by simp⟩
  obtain ⟨other, isOther, rfl⟩ := List.mem_map.mp isNew
  refine Bool.eq_false_iff.mpr fun same => isDirect ?_
  have sameOrigin : origin = other := (of_decide_eq_true same).1
  rw [sameOrigin]
  exact isOther

end

/-! ## Completeness -/

def Names (json : String → Option Fields) (lines : List Line) (copy origin : Key) : Prop :=
  ∃ line ∈ lines, line.key = copy ∧ origin ∈ originals json line.json

def Stored (lines : List Line) (key : Key) : Prop := ∃ line ∈ lines, line.key = key

/-- **Every stored copy is indexed, at its place, under every stored original.** -/
def Complete (json : String → Option Fields) (lines : List Line) (edges : List Edge) : Prop :=
  ∀ line ∈ lines, ∀ origin, TransGen (Names json lines) line.key origin → Stored lines origin →
    Edge.mk origin line.key line.position ∈ edges

def Rests (json : String → Option Fields) (lines : List Line) (text : String) (origin : Key) :
    Prop :=
  ∃ named ∈ originals json text, named = origin ∨ TransGen (Names json lines) named origin

/-- The stored lines that copy the line are indexed under it, and under every stored line that the
text rests on. -/
def Covers (json : String → Option Fields) (world : World) (key : Key) (text : String) : Prop :=
  ∀ line ∈ world.lines, line.key ≠ key → TransGen (Names json world.lines) line.key key →
    Edge.mk key line.key line.position ∈ world.edges ∧
      ∀ origin, Rests json world.lines text origin → Stored world.lines origin →
        Edge.mk origin line.key line.position ∈ world.edges

section

variable {lines : List Line} {edges : List Edge}

theorem stored_of_transGen {copy origin : Key} (above : TransGen (Names json lines) copy origin) :
    Stored lines copy := by
  induction above with
  | single names =>
    obtain ⟨line, isIn, isKey, -⟩ := names
    exact ⟨line, isIn, isKey⟩
  | tail _ _ ih => exact ih

def storedLines (line : Line) (lines : List Line) : List Line :=
  lines.filter (·.key ≠ line.key) ++ [line]

theorem mem_storedLines {line other : Line} :
    other ∈ storedLines line lines ↔ (other ∈ lines ∧ other.key ≠ line.key) ∨ other = line := by
  simp [storedLines]

theorem storedLines_edit (line : Line) :
    EditedAt line.key (Names json lines) (Names json (storedLines line lines)) := by
  intro copy origin isOther
  constructor
  · rintro ⟨other, isIn, rfl, isOrigin⟩
    rcases mem_storedLines.mp isIn with ⟨before, -⟩ | rfl
    · exact ⟨other, before, rfl, isOrigin⟩
    · exact absurd rfl isOther
  · rintro ⟨other, isIn, rfl, isOrigin⟩
    exact ⟨other, mem_storedLines.mpr (Or.inl ⟨isIn, isOther⟩), rfl, isOrigin⟩

theorem storedLines_names {line : Line} :
    Names json (storedLines line lines) line.key origin ↔ origin ∈ originals json line.json := by
  constructor
  · rintro ⟨other, isIn, same, isOrigin⟩
    rcases mem_storedLines.mp isIn with ⟨-, isOther⟩ | rfl
    · exact absurd same isOther
    · exact isOrigin
  · exact fun isOrigin => ⟨line, mem_storedLines.mpr (Or.inr rfl), rfl, isOrigin⟩

theorem stored_of_ne {line : Line} (isOther : origin ≠ line.key)
    (stored : Stored (storedLines line lines) origin) : Stored lines origin := by
  obtain ⟨other, isIn, rfl⟩ := stored
  rcases mem_storedLines.mp isIn with ⟨before, -⟩ | rfl
  · exact ⟨other, before, rfl⟩
  · exact absurd rfl isOther

/-- **Storing a line keeps the index complete** when the lines that copy it are covered. -/
theorem Complete.store (complete : Complete json world.lines world.edges) (line : Line)
    (covers : Covers json world line.key line.json) :
    Complete json (storedLines line world.lines) (indexCopies json line world.edges) := by
  intro copy isCopy origin above isStored
  rcases (storedLines_edit line).cases above with ⟨isOther, before⟩ | ⟨leads, named, link, onward⟩
  · have isIn := (mem_storedLines.mp isCopy).resolve_right fun same => isOther (same ▸ rfl)
    refine indexCopies_other ?_ isOther
    by_cases isKey : origin = line.key
    · rw [isKey] at before ⊢
      exact (covers copy isIn.1 isOther before).1
    · exact complete copy isIn.1 origin before (stored_of_ne isKey isStored)
  rw [storedLines_names] at link
  rcases leads with isLine | ⟨isOther, below⟩
  · have same : copy = line := by
      rcases mem_storedLines.mp isCopy with ⟨-, isOther⟩ | same
      · exact absurd isLine isOther
      · exact same
    rw [same]
    rcases onward with rfl | ⟨isOther, further⟩
    · exact indexCopies_direct link
    obtain ⟨middle, isMiddle, rfl⟩ := stored_of_transGen further
    by_cases isKey : origin = line.key
    · rw [isKey] at further ⊢
      exact indexCopies_above link (covers middle isMiddle isOther further).1
    · exact indexCopies_above link
        (complete middle isMiddle origin further (stored_of_ne isKey isStored))
  · have isIn := (mem_storedLines.mp isCopy).resolve_right fun same => isOther (same ▸ rfl)
    refine indexCopies_other ?_ isOther
    obtain ⟨underLine, underOthers⟩ := covers copy isIn.1 isOther below
    by_cases isKey : origin = line.key
    · rw [isKey]
      exact underLine
    · refine underOthers origin ⟨named, link, ?_⟩ (stored_of_ne isKey isStored)
      exact onward.imp_right fun further => further.2

def updatedLines (key : Key) (role : Role) (text : String) (lines : List Line) : List Line :=
  lines.map fun line =>
    if line.key = key then
      { line with
        role := role
        json := text }
    else line

theorem mem_updatedLines {line : Line} (isIn : line ∈ updatedLines key role text lines) :
    ∃ before ∈ lines, line.key = before.key ∧ line.position = before.position ∧
      (before.key = key ∧ line.json = text ∧ line.role = role ∨
        before.key ≠ key ∧ line = before) := by
  obtain ⟨before, isBefore, rfl⟩ := List.mem_map.mp isIn
  refine ⟨before, isBefore, ?_⟩
  by_cases isKey : before.key = key
  · rw [if_pos isKey]
    exact ⟨rfl, rfl, Or.inl ⟨isKey, rfl, rfl⟩⟩
  · rw [if_neg isKey]
    exact ⟨rfl, rfl, Or.inr ⟨isKey, rfl⟩⟩

theorem updatedLines_edit :
    EditedAt key (Names json lines) (Names json (updatedLines key role text lines)) := by
  intro copy origin isOther
  constructor
  · rintro ⟨line, isIn, rfl, isOrigin⟩
    obtain ⟨before, isBefore, sameKey, -, ⟨isKey, -⟩ | ⟨-, rfl⟩⟩ := mem_updatedLines isIn
    · exact absurd (sameKey.trans isKey) isOther
    · exact ⟨line, isBefore, rfl, isOrigin⟩
  · rintro ⟨line, isIn, rfl, isOrigin⟩
    refine ⟨line, List.mem_map.mpr ⟨line, isIn, if_neg isOther⟩, rfl, isOrigin⟩

theorem updatedLines_stored (stored : Stored (updatedLines key role text lines) origin) :
    Stored lines origin := by
  obtain ⟨line, isIn, rfl⟩ := stored
  obtain ⟨before, isBefore, sameKey, -⟩ := mem_updatedLines isIn
  exact ⟨before, isBefore, sameKey.symm⟩

/-- The new text of a line brings no original that the line is not indexed under. -/
def CoversSelf (json : String → Option Fields) (world : World) (key : Key) (text : String) :
    Prop :=
  ∀ line ∈ world.lines, line.key = key → ∀ origin, Rests json world.lines text origin →
    Stored world.lines origin → Edge.mk origin line.key line.position ∈ world.edges

/-- **Writing a line anew keeps the index complete** when its new originals are in the index. -/
theorem Complete.update (complete : Complete json world.lines world.edges)
    (covers : Covers json world key text) (coversSelf : CoversSelf json world key text) :
    Complete json (updatedLines key role text world.lines) world.edges := by
  intro line isLine origin above isStored
  obtain ⟨before, isBefore, sameKey, samePlace, -⟩ := mem_updatedLines isLine
  have stored := updatedLines_stored isStored
  rw [sameKey, samePlace]
  rw [sameKey] at above
  rcases updatedLines_edit.cases above with ⟨-, old⟩ | ⟨leads, named, link, onward⟩
  · exact complete before isBefore origin old stored
  obtain ⟨renewed, isRenewed, isKey, isNamed⟩ := link
  have rests : Rests json world.lines text origin := by
    obtain ⟨_, _, same, _, ⟨-, isText, -⟩ | ⟨isOther, -⟩⟩ := mem_updatedLines isRenewed
    · rw [isText] at isNamed
      exact ⟨named, isNamed, onward.imp_right fun further => further.2⟩
    · exact absurd (same.symm.trans isKey) isOther
  rcases leads with isIt | ⟨isOther, below⟩
  · exact coversSelf before isBefore isIt origin rests stored
  · exact (covers before isBefore isOther below).2 origin rests stored

theorem Complete.update_same (complete : Complete json world.lines world.edges)
    (same : ∀ line ∈ world.lines, line.key = key →
      originals json text = originals json line.json) :
    Complete json (updatedLines key role text world.lines) world.edges := by
  have sameNames : ∀ copy origin, Names json (updatedLines key role text world.lines) copy origin →
      Names json world.lines copy origin := by
    rintro copy origin ⟨line, isIn, rfl, isOrigin⟩
    obtain ⟨before, isBefore, sameKey, -, ⟨isKey, isText, -⟩ | ⟨-, rfl⟩⟩ := mem_updatedLines isIn
    · rw [isText, same before isBefore isKey] at isOrigin
      exact ⟨before, isBefore, sameKey.symm, isOrigin⟩
    · exact ⟨line, isBefore, rfl, isOrigin⟩
  intro line isLine origin above isStored
  obtain ⟨before, isBefore, sameKey, samePlace, -⟩ := mem_updatedLines isLine
  rw [sameKey, samePlace]
  rw [sameKey] at above
  exact complete before isBefore origin (TransGen.mono sameNames _ _ above)
    (updatedLines_stored isStored)

/-- **Deleting a line keeps the index complete.** -/
theorem Complete.delete (complete : Complete json world.lines world.edges) (key : Key) :
    Complete json (world.lines.filter (·.key ≠ key))
      (world.edges.filter fun edge => edge.origin ≠ key ∧ edge.copy ≠ key) := by
  intro line isLine origin above isStored
  obtain ⟨isIn, isOther⟩ := List.mem_filter.mp isLine
  obtain ⟨upper, isUpper, rfl⟩ := isStored
  obtain ⟨upperMember, isOtherUpper⟩ := List.mem_filter.mp isUpper
  have before : TransGen (Names json world.lines) line.key upper.key := by
    refine TransGen.mono ?_ _ _ above
    rintro copy named ⟨namer, isNamer, isCopy, isNamed⟩
    exact ⟨namer, (List.mem_filter.mp isNamer).1, isCopy, isNamed⟩
  refine List.mem_filter.mpr ⟨complete line isIn _ before ⟨upper, upperMember, rfl⟩, ?_⟩
  simpa using ⟨of_decide_eq_true isOtherUpper, of_decide_eq_true isOther⟩

end

end Murage.TurnHolds

namespace Murage.TurnHolds

open Relation Murage.Library.Links

variable {json : String → Option Fields} {lines : List Line} {edges : List Edge}

def Current (lines : List Line) (edges : List Edge) : Prop :=
  ∀ edge ∈ edges, ∀ line ∈ lines, line.key = edge.copy → edge.position = line.position

/-- Every stored line is indexed under what chains of bounded length lead to. -/
def Reaches (json : String → Option Fields) (lines : List Line) (edges : List Edge) (n : Nat) :
    Prop :=
  ∀ line ∈ lines, ∀ origin, ∀ k ≤ n, Chain (Names json lines) k line.key origin →
    Edge.mk origin line.key line.position ∈ edges

theorem line_eq_of_key (distinct : (lines.map (·.key)).Nodup) {line other : Line}
    (isLine : line ∈ lines) (isOther : other ∈ lines) (same : line.key = other.key) :
    line = other :=
  List.inj_on_of_nodup_map distinct isLine isOther same

theorem names_iff (distinct : (lines.map (·.key)).Nodup) {line : Line} (isLine : line ∈ lines)
    :
    Names json lines line.key origin ↔ origin ∈ originals json line.json := by
  constructor
  · rintro ⟨other, isOther, same, isOrigin⟩
    rw [line_eq_of_key distinct isOther isLine same] at isOrigin
    exact isOrigin
  · exact fun isOrigin => ⟨line, isLine, rfl, isOrigin⟩

theorem mem_directEdges :
    edge ∈ directEdges json lines ↔ ∃ line ∈ lines, ∃ origin ∈ originals json line.json,
      Edge.mk origin line.key line.position = edge := by
  simp [directEdges]

theorem directEdges_current (distinct : (lines.map (·.key)).Nodup) :
    Current lines (directEdges json lines) := by
  intro edge isIn line isLine same
  obtain ⟨other, isOther, origin, -, rfl⟩ := mem_directEdges.mp isIn
  rw [line_eq_of_key distinct isOther isLine same.symm]

theorem Current.put (current : Current lines edges) {news : List Edge}
    (currentNews : Current lines news) : Current lines (news.foldl putEdge edges) :=
  fun edge isIn => (mem_of_mem_put isIn).elim (current edge) (currentNews edge)

theorem reaches_direct (distinct : (lines.map (·.key)).Nodup) :
    Reaches json lines ((directEdges json lines).foldl putEdge edges) 0 := by
  intro line isLine origin k isZero chain
  obtain rfl := Nat.le_zero.mp isZero
  have isNamed := (names_iff distinct isLine).mp chain
  refine mem_put_of_new (mem_directEdges.mpr ⟨line, isLine, origin, isNamed, rfl⟩) ?_
  intro new isNew sameCopy
  exact (directEdges_current distinct new isNew line isLine sameCopy).symm

/-! ## Rounds -/

theorem mem_addEdge_of_mem (news : List Edge) (isIn : edge ∈ edges) :
    edge ∈ news.foldl addEdge edges := by
  induction news generalizing edges with
  | nil => exact isIn
  | cons new rest ih =>
    refine ih ?_
    unfold addEdge
    split_ifs
    · exact isIn
    · exact List.mem_append_left _ isIn

theorem mem_of_mem_addEdge {news : List Edge} (isIn : edge ∈ news.foldl addEdge edges) :
    edge ∈ edges ∨ edge ∈ news := by
  induction news generalizing edges with
  | nil => exact Or.inl isIn
  | cons new rest ih =>
    rcases ih isIn with before | later
    · unfold addEdge at before
      split_ifs at before
      · exact Or.inl before
      · rcases List.mem_append.mp before with old | isNew
        · exact Or.inl old
        · exact Or.inr (List.mem_cons.mpr (Or.inl (List.mem_singleton.mp isNew)))
    · exact Or.inr (List.mem_cons_of_mem _ later)

theorem addEdge_pair (edges : List Edge) {news : List Edge} {new : Edge} (isNew : new ∈ news) :
    ∃ edge ∈ news.foldl addEdge edges, edge.samePair new = true := by
  induction news generalizing edges with
  | nil => exact absurd isNew List.not_mem_nil
  | cons first rest ih =>
    rcases List.mem_cons.mp isNew with rfl | later
    · by_cases isThere : edges.any (·.samePair new) = true
      · obtain ⟨edge, isIn, same⟩ := List.any_eq_true.mp isThere
        exact ⟨edge, mem_addEdge_of_mem (new :: rest) isIn, same⟩
      · refine ⟨new, ?_, by simp [Edge.samePair]⟩
        rw [List.foldl_cons, addEdge, if_neg isThere]
        exact mem_addEdge_of_mem rest (List.mem_append_right _ List.mem_cons_self)
    · exact ih _ later

theorem addEdge_length (edges news : List Edge) :
    edges.length ≤ (news.foldl addEdge edges).length ∧
      ((news.foldl addEdge edges).length = edges.length → news.foldl addEdge edges = edges) := by
  induction news generalizing edges with
  | nil => exact ⟨Nat.le_refl _, fun _ => rfl⟩
  | cons new rest ih =>
    rw [List.foldl_cons]
    by_cases isIn : edges.any (·.samePair new) = true
    · rw [addEdge, if_pos isIn]
      exact ih edges
    · have grows := (ih (edges ++ [new])).1
      rw [List.length_append, List.length_singleton] at grows
      rw [addEdge, if_neg isIn]
      exact ⟨by omega, fun same => by omega⟩

theorem mem_joinedEdges :
    edge ∈ joinedEdges edges ↔ ∃ below ∈ edges, ∃ up ∈ edges, up.copy = below.origin ∧
      Edge.mk up.origin below.copy below.position = edge := by
  simp [joinedEdges, and_assoc]

theorem Current.join (current : Current lines edges) :
    Current lines ((joinedEdges edges).foldl addEdge edges) := by
  intro edge isIn
  rcases mem_of_mem_addEdge isIn with old | joined
  · exact current edge old
  · obtain ⟨below, isBelow, up, -, -, rfl⟩ := mem_joinedEdges.mp joined
    exact fun line isLine same => current below isBelow line isLine same

theorem Reaches.mono {n k : Nat} (reaches : Reaches json lines edges n) (le : k ≤ n) :
    Reaches json lines edges k :=
  fun line isLine origin j isLe => reaches line isLine origin j (Nat.le_trans isLe le)

theorem Reaches.join {n : Nat} (reaches : Reaches json lines edges n)
    (current : Current lines edges) :
    Reaches json lines ((joinedEdges edges).foldl addEdge edges) (n + 1) := by
  intro line isLine origin k isLe chain
  cases k with
  | zero => exact mem_addEdge_of_mem _ (reaches line isLine origin 0 (Nat.zero_le n) chain)
  | succ k =>
    obtain ⟨next, isNext, further⟩ := chain
    have isStored : Stored lines next := by
      cases k with
      | zero =>
        obtain ⟨other, isOther, same, -⟩ := further
        exact ⟨other, isOther, same⟩
      | succ k =>
        obtain ⟨_, ⟨other, isOther, same, -⟩, -⟩ := further
        exact ⟨other, isOther, same⟩
    obtain ⟨upper, isUpper, rfl⟩ := isStored
    have below := reaches line isLine upper.key 0 (Nat.zero_le n) isNext
    have above := reaches upper isUpper origin k (by omega) further
    have joined : Edge.mk origin line.key line.position ∈ joinedEdges edges :=
      mem_joinedEdges.mpr ⟨_, below, _, above, rfl, rfl⟩
    obtain ⟨edge, isIn, same⟩ := addEdge_pair edges joined
    obtain ⟨sameOrigin, sameCopy⟩ := of_decide_eq_true same
    have samePlace := current.join edge isIn line isLine sameCopy.symm
    have isIt : edge = Edge.mk origin line.key line.position := by
      cases edge
      simp_all
    exact isIt ▸ isIn

theorem Reaches.rounds {n : Nat} (reaches : Reaches json lines edges n)
    (current : Current lines edges) (r : Nat) :
    Reaches json lines (rounds r edges) (n + r) := by
  induction r generalizing edges n with
  | zero => exact reaches
  | succ r ih =>
    rw [TurnHolds.rounds]
    split_ifs with isLast
    · have isFixed := (addEdge_length edges (joinedEdges edges)).2 isLast
      have onward : ∀ j, Reaches json lines edges (n + j) := by
        intro j
        induction j with
        | zero => exact reaches
        | succ j further =>
          have next := further.join current
          rw [isFixed] at next
          exact next
      exact onward (r + 1)
    · refine (ih (reaches.join current) current.join).mono ?_
      omega

/-- **The fill completes the index** of lines whose copies are chained at most nine deep. -/
theorem complete_filled (distinct : (lines.map (·.key)).Nodup) (current : Current lines edges)
    (shallow : Shallow (Names json lines) 9) :
    Complete json lines (rounds 8 ((directEdges json lines).foldl putEdge edges)) := by
  intro line isLine origin above _
  obtain ⟨n, isShort, chain⟩ := shallow _ _ above
  have direct : Reaches json lines ((directEdges json lines).foldl putEdge edges) 0 :=
    reaches_direct distinct
  have reaches := direct.rounds (current.put (directEdges_current distinct)) 8
  exact reaches line isLine origin n (by omega) chain

end Murage.TurnHolds
