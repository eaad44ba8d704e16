import Murage.InProject.Model

/-!
Owns where a path opens: the system's own resolution of a path from a base, and that a
placed path is the one the system opens, or creates.

Does not own: the walk of a search root.
-/

namespace Murage.InProject

open Murage.Library.Posix

/-! ## What the system does -/

/-- The path a tool reads: the owner's home in place of a leading `~`. -/
def homeRead (home : Option Text) (path : Text) : Text :=
  match home with
  | none => path
  | some home => if path = ['~'] ∨ ['~', '/'].isPrefixOf path then home ++ path.drop 1 else path

/-- The parts the system resolves: those of the path, after those of the base unless the
path is absolute. -/
def partsFrom (base path : Text) : List Name :=
  if isAbsolute path then segments path else segments base ++ segments path

/-- What opening the path from the base reaches, when at most `budget` links are followed. -/
def Host.opens (host : Host) (budget : Nat) (base path : Text) : Except Errno RealPath :=
  host.fs.namei opening budget [] (partsFrom base path)

def Host.creates (host : Host) (budget : Nat) (base path : Text) : Except Errno RealPath :=
  host.fs.namei creating budget [] (partsFrom base path)

theorem Host.creates_of_opens {host : Host} {budget : Nat} {base path : Text} {found : RealPath}
    (opened : host.opens budget base path = .ok found) :
    host.creates budget base path = .ok found :=
  FileTree.namei_of_opening opened

/-! ## The segment loop -/

section Walk

variable {host : Host} {mustExist : Bool} {cur reached : RealPath} {parts : List Name}
  {before intermediates : List RealPath}

theorem Host.lstat_cases {seg : Name} (solid : host.fs.Solid cur) {answer : Except Errno Node}
    (isAnswer : host.lstat (cur ++ [seg]) = answer) :
    (∃ node, answer = .ok node ∧ host.fs.node (cur ++ [seg]) = some node) ∨
      (answer = .error .noEntry ∧ host.fs.node (cur ++ [seg]) = none) ∨
      ∃ error, answer = .error error ∧ error ≠ .noEntry := by
  subst isAnswer
  unfold Host.lstat
  rcases @FileTree.lstat_solid _ host.links _ seg solid with isStat | isStat
  · rw [isStat]
    cases isNode : host.fs.node (cur ++ [seg]) with
    | some node => exact Or.inl ⟨node, rfl, rfl⟩
    | none =>
      dsimp only
      split_ifs
      · exact Or.inr (Or.inl ⟨rfl, rfl⟩)
      · exact Or.inr (Or.inr ⟨_, rfl, by decide⟩)
  · exact Or.inr (Or.inr ⟨_, isStat, by decide⟩)

theorem link_followed {seg : Name} {real : RealPath} (solid : host.fs.Solid cur)
    (isReal : host.realOf (cur ++ [seg]) = .ok real) :
    host.fs.namei opening host.links cur [seg] = .ok real := by
  unfold Host.realOf at isReal
  rcases @FileTree.namei_through _ opening host.links [] [seg] cur solid with through | refused
  · rw [through, List.nil_append] at isReal
    exact isReal
  · rw [refused] at isReal
    cases isReal

/-- One part of the loop: the system, meeting the same part, goes on from where the loop
goes on; or the part is not there, and the loop keeps the rest as written. -/
theorem Host.walk_cases {seg : Name} {missing : Bool} (solid : host.fs.Solid cur)
    (walked : host.walk mustExist cur (seg :: parts) before = .walked reached intermediates missing) :
    (∃ next after, host.walk mustExist next parts after = .walked reached intermediates missing ∧
        host.fs.Solid next ∧ ∀ (absent : Missing) (budget : Nat) (rest : List Name) (real : RealPath),
          host.fs.namei absent budget cur (seg :: rest) = .ok real →
            ∃ left, host.fs.namei absent left next rest = .ok real) ∨
      (missing = true ∧ ¬(seg = [] ∨ seg = dot) ∧ seg ≠ dotdot ∧
        host.fs.node (cur ++ [seg]) = none ∧ reached = cur ++ names (seg :: parts)) := by
  unfold Host.walk at walked
  by_cases isSkip : seg = [] ∨ seg = dot
  · rw [if_pos isSkip] at walked
    exact Or.inl ⟨cur, _, walked, solid, fun _ budget _ _ resolved =>
      ⟨budget, FileTree.namei_skip isSkip resolved⟩⟩
  rw [if_neg isSkip] at walked
  by_cases isClimb : seg = dotdot
  · subst isClimb
    rw [if_pos rfl] at walked
    exact Or.inl ⟨cur.dropLast, _, walked, Or.inl solid.dropLast, fun _ budget _ _ resolved =>
      ⟨budget, FileTree.namei_climb resolved⟩⟩
  rw [if_neg isClimb] at walked
  rcases @Host.lstat_cases _ _ seg solid _ rfl with
    ⟨node, isStat, isNode⟩ | ⟨isStat, isAbsent⟩ | ⟨error, isStat, isOther⟩
  · rw [isStat] at walked
    have through (isSolid : host.fs.Solid (cur ++ [seg])) (absent : Missing) (budget : Nat)
        (rest : List Name) (real : RealPath)
        (resolved : host.fs.namei absent budget cur (seg :: rest) = .ok real) :
        ∃ left, host.fs.namei absent left (cur ++ [seg]) rest = .ok real := by
      rcases @FileTree.namei_through _ absent budget _ rest _ isSolid with
        isThrough | refused
      · exact ⟨budget, isThrough ▸ resolved⟩
      · rw [List.singleton_append, resolved] at refused
        cases refused
    cases node with
    | file => exact Or.inl ⟨_, _, walked, Or.inr isNode, through (Or.inr isNode)⟩
    | dir => exact Or.inl ⟨_, _, walked, Or.inl isNode, through (Or.inl isNode)⟩
    | link target =>
      cases isReal : host.realOf (cur ++ [seg]) with
      | error error =>
        rw [isReal] at walked
        cases walked
      | ok real =>
        rw [isReal] at walked
        have followed := link_followed solid isReal
        exact Or.inl ⟨real, _, walked, FileTree.namei_solid solid followed,
          fun _ _ _ _ resolved => FileTree.namei_append followed resolved⟩
  · rw [isStat] at walked
    dsimp only at walked
    split_ifs at walked
    cases walked
    exact Or.inr ⟨rfl, isSkip, isClimb, isAbsent, rfl⟩
  · rw [isStat] at walked
    cases error with
    | noEntry => exact absurd rfl isOther
    | notDirectory => cases walked
    | access => cases walked
    | loop => cases walked

theorem Host.walk_found (solid : host.fs.Solid cur)
    (walked : host.walk mustExist cur parts before = .walked reached intermediates false) :
    host.fs.Solid reached ∧ ∀ (absent : Missing) (budget : Nat) (rest : List Name) (real : RealPath),
      host.fs.namei absent budget cur (parts ++ rest) = .ok real →
        ∃ left, host.fs.namei absent left reached rest = .ok real := by
  induction parts generalizing cur before with
  | nil =>
    cases walked
    exact ⟨solid, fun _ budget _ _ resolved => ⟨budget, resolved⟩⟩
  | cons seg later ih =>
    rcases Host.walk_cases solid walked with ⟨next, after, isWalked, isSolid, step⟩ | ⟨isMissing, _⟩
    · obtain ⟨reachedSolid, onward⟩ := ih isSolid isWalked
      refine ⟨reachedSolid, fun absent budget rest real resolved => ?_⟩
      obtain ⟨left, isLeft⟩ := step absent budget (later ++ rest) real resolved
      exact onward absent left rest real isLeft
    · cases isMissing

theorem Host.walk_missing (solid : host.fs.Solid cur)
    (walked : host.walk mustExist cur parts before = .walked reached intermediates true) :
    ∀ (budget : Nat) (rest : List Name) (real : RealPath),
      host.fs.namei creating budget cur (parts ++ rest) = .ok real →
        dotdot ∉ rest ∧ real = reached ++ names rest := by
  induction parts generalizing cur before with
  | nil => cases walked
  | cons seg later ih =>
    intro budget rest real resolved
    rcases Host.walk_cases solid walked with
      ⟨next, after, isWalked, isSolid, step⟩ | ⟨_, isName, notClimb, isAbsent, isReached⟩
    · obtain ⟨left, isLeft⟩ := step creating budget (later ++ rest) real resolved
      exact ih isSolid isWalked left rest real isLeft
    · rw [List.cons_append] at resolved
      have created := FileTree.namei_absent isName notClimb isAbsent resolved
      unfold creating at created
      split_ifs at created with climbs
      refine ⟨fun isClimb => climbs (List.mem_append_right _ isClimb), ?_⟩
      have isFirst : names (seg :: later) = seg :: names later :=
        List.filter_cons_of_pos (decide_eq_true (not_or.mp isName))
      rw [isReached, isFirst, ← Except.ok.inj created, names_append]
      simp

theorem Host.walk_unslashed {missing : Bool} (solid : host.fs.Solid cur)
    (unslashed : ∀ part ∈ parts, '/' ∉ part)
    (walked : host.walk mustExist cur parts before = .walked reached intermediates missing) :
    ∀ part ∈ reached, '/' ∉ part := by
  induction parts generalizing cur before with
  | nil =>
    cases walked
    exact fun part isPart => (solid.plain part isPart).unslashed
  | cons seg later ih =>
    rcases Host.walk_cases solid walked with
      ⟨next, after, isWalked, isSolid, _⟩ | ⟨_, _, _, _, isReached⟩
    · exact ih isSolid
        (fun part isPart => unslashed part (List.mem_cons_of_mem _ isPart)) isWalked
    · rw [isReached]
      intro part isPart
      rcases List.mem_append.mp isPart with isAbove | isTail
      · exact (solid.plain part isAbove).unslashed
      · exact unslashed part (mem_names.mp isTail).1

end Walk

/-! ## A path from its base -/

section Base

variable {host : Host} {mustExist missing : Bool} {given base : Text} {reached : RealPath}
  {intermediates : List RealPath}

theorem walkAbsolute_eq (absolute : isAbsolute given = true) :
    host.walkAbsolute mustExist given = host.walk mustExist [] (segments given) [] := by
  cases given with
  | nil => cases absolute
  | cons c rest =>
    obtain rfl : c = '/' := by simpa [isAbsolute] using absolute
    have isSplit : segments ('/' :: rest) = [] :: segments rest := segments_slash [] rest
    unfold Host.walkAbsolute Host.realOf
    rw [FileTree.namei_nil, isSplit]
    dsimp only
    rw [Host.walk, if_pos (Or.inl rfl)]
    rfl

theorem dotdot_of_names {parts : List Name} (notClimb : ¬dotdot ∈ names parts) :
    dotdot ∉ parts :=
  fun isClimb => notClimb (dotdot_mem_names.mpr isClimb)

/-- How a path from its base is walked: as one walk of its parts from the root, or as the
walk of a base that is not there with the path kept as written. -/
theorem Host.placeGiven_cases
    (placed : host.placeGiven mustExist given base = .walked reached intermediates missing) :
    (isAbsolute given = true ∧
        host.walk mustExist [] (segments given) [] = .walked reached intermediates missing) ∨
      (isAbsolute given = false ∧ ∃ cur passed,
        host.walk mustExist [] (segments base) [] = .walked cur passed true ∧
        dotdot ∉ segments given ∧ reached = cur ++ names (segments given) ∧ missing = true) ∨
      (isAbsolute given = false ∧ ∃ cur passed,
        host.walk mustExist [] (segments base) [] = .walked cur passed false ∧
        host.walk mustExist cur (segments given) [] = .walked reached intermediates missing) := by
  unfold Host.placeGiven at placed
  by_cases absolute : isAbsolute given = true
  · rw [if_pos absolute, walkAbsolute_eq absolute] at placed
    exact Or.inl ⟨absolute, placed⟩
  rw [if_neg absolute] at placed
  rw [Bool.not_eq_true] at absolute
  by_cases fromRoot : isAbsolute base = true
  · rw [fromRoot, Bool.not_true, if_neg Bool.false_ne_true, walkAbsolute_eq fromRoot] at placed
    cases isBase : host.walk mustExist [] (segments base) [] with
    | cannot why =>
      rw [isBase] at placed
      cases placed
    | walked cur passed isMissing =>
      rw [isBase] at placed
      cases isMissing with
      | false => exact Or.inr (Or.inr ⟨absolute, cur, passed, rfl, placed⟩)
      | true =>
        dsimp only at placed
        split_ifs at placed with isClimb
        cases placed
        exact Or.inr (Or.inl ⟨absolute, cur, passed, rfl, dotdot_of_names isClimb, rfl, rfl⟩)
  · rw [Bool.not_eq_true] at fromRoot
    rw [fromRoot, Bool.not_false, if_pos rfl] at placed
    cases placed

/-- **A path from its base is walked to where the system opens or creates it.** -/
theorem Host.placeGiven_creates
    (placed : host.placeGiven mustExist given base = .walked reached intermediates missing)
    {budget : Nat} {real : RealPath} (created : host.creates budget base given = .ok real) :
    real = reached := by
  have atRoot : host.fs.Solid [] := Or.inl host.fs.root
  have ends {cur : RealPath} {parts : List Name} {before passed : List RealPath} {left : Nat}
      (isSolid : host.fs.Solid cur)
      (isWalk : host.walk mustExist cur parts before = .walked reached passed missing)
      (isMade : host.fs.namei creating left cur parts = .ok real) : real = reached := by
    rw [← List.append_nil parts] at isMade
    cases missing with
    | false =>
      obtain ⟨rest, isRest⟩ := (Host.walk_found isSolid isWalk).2 creating left [] real isMade
      rw [FileTree.namei_nil] at isRest
      exact (Except.ok.inj isRest).symm
    | true =>
      rw [(Host.walk_missing isSolid isWalk left [] real isMade).2]
      exact List.append_nil reached
  unfold Host.creates partsFrom at created
  rcases Host.placeGiven_cases placed with ⟨absolute, isWalk⟩ |
    ⟨relative, cur, passed, isBase, _, isReached, _⟩ | ⟨relative, cur, passed, isBase, isWalk⟩
  · rw [if_pos absolute] at created
    exact ends atRoot isWalk created
  · rw [if_neg (Bool.eq_false_iff.mp relative)] at created
    rw [isReached]
    exact (Host.walk_missing atRoot isBase budget _ real created).2
  · rw [if_neg (Bool.eq_false_iff.mp relative)] at created
    obtain ⟨isSolid, onward⟩ := Host.walk_found atRoot isBase
    obtain ⟨left, isMade⟩ := onward creating budget _ real created
    exact ends isSolid isWalk isMade

theorem Host.placeGiven_unslashed
    (placed : host.placeGiven mustExist given base = .walked reached intermediates missing) :
    ∀ part ∈ reached, '/' ∉ part := by
  have atRoot : host.fs.Solid [] := Or.inl host.fs.root
  rcases Host.placeGiven_cases placed with ⟨_, isWalk⟩ | ⟨_, cur, passed, isBase, _, isReached, _⟩ |
    ⟨_, cur, passed, isBase, isWalk⟩
  · exact Host.walk_unslashed atRoot (fun _ => unslashed_of_mem_segments) isWalk
  · intro part isPart
    rw [isReached] at isPart
    rcases List.mem_append.mp isPart with isAbove | isTail
    · exact Host.walk_unslashed atRoot (fun _ => unslashed_of_mem_segments) isBase part isAbove
    · exact unslashed_of_mem_segments (mem_names.mp isTail).1
  · exact Host.walk_unslashed (Host.walk_found atRoot isBase).1
      (fun _ => unslashed_of_mem_segments) isWalk

end Base

/-! ## Inside the project -/

theorem segments_flatMap {path : RealPath} (unslashed : ∀ name ∈ path, '/' ∉ name)
    (before : Text) :
    segments (before ++ path.flatMap fun name => '/' :: name) = segments before ++ path := by
  induction path generalizing before with
  | nil => rw [List.flatMap_nil, List.append_nil, List.append_nil]
  | cons name later ih =>
    have isOne : segments name = [name] := List.splitOn_eq_singleton (unslashed name List.mem_cons_self)
    rw [List.flatMap_cons, List.cons_append, segments_slash,
      ih (fun part isPart => unslashed part (List.mem_cons_of_mem _ isPart)), isOne,
      List.singleton_append]

theorem segments_render {path : RealPath} (isBelow : path ≠ [])
    (unslashed : ∀ name ∈ path, '/' ∉ name) : segments (render path) = [] :: path := by
  unfold render
  rw [if_neg isBelow]
  exact segments_flatMap unslashed []

theorem render_unslashed {fs : FileTree} {path : RealPath} (isBelow : path ≠ [])
    (solid : fs.Solid path) : (render path).getLast? ≠ some '/' := by
  obtain ⟨above, last, rfl⟩ : ∃ above last, path = above ++ [last] :=
    ⟨_, _, (List.dropLast_concat_getLast isBelow).symm⟩
  have plain := solid.plain last (List.mem_append_right _ List.mem_cons_self)
  obtain ⟨front, c, isLast⟩ : ∃ front c, last = front ++ [c] :=
    ⟨_, _, (List.dropLast_concat_getLast plain.named).symm⟩
  unfold render
  rw [if_neg isBelow, List.flatMap_append, List.flatMap_singleton, isLast, ← List.cons_append,
    ← List.append_assoc, List.getLast?_concat]
  intro isSlash
  obtain rfl := Option.some.inj isSlash
  exact plain.unslashed (isLast ▸ List.mem_append_right _ List.mem_cons_self)

theorem prefix_of_within {fs : FileTree} {root target : RealPath} (solid : fs.Solid root)
    (unslashed : ∀ name ∈ target, '/' ∉ name) (isWithin : within root target = true) :
    root <+: target := by
  by_cases isRoot : root = []
  · rw [isRoot]
    exact List.nil_prefix
  have rootParts := segments_render isRoot fun name isName => (solid.plain name isName).unslashed
  unfold within at isWithin
  rw [Bool.or_eq_true, beq_iff_eq, if_neg (render_unslashed isRoot solid)] at isWithin
  have isLonger : 1 ≤ root.length := List.length_pos_iff.mpr isRoot
  by_cases isTop : target = []
  · have topParts : segments (render target) = [[], []] := by
      rw [isTop]
      rfl
    rcases isWithin with isSame | isBelow
    · rw [← isSame, rootParts] at topParts
      obtain ⟨-, isNone⟩ := List.cons.inj topParts
      exact absurd rfl (solid.plain [] (isNone ▸ List.mem_cons_self)).named
    · obtain ⟨rest, isRest⟩ := List.isPrefixOf_iff_prefix.mp isBelow
      rw [← isRest, List.append_assoc, List.singleton_append, segments_slash, rootParts] at topParts
      have isLength := congrArg List.length topParts
      have isSplit : 1 ≤ (segments rest).length :=
        List.length_pos_iff.mpr (List.splitOn_ne_nil '/' rest)
      rw [List.length_append, List.length_cons] at isLength
      have isTwo : [([] : Name), []].length = 2 := rfl
      omega
  · have targetParts := segments_render isTop unslashed
    rcases isWithin with isSame | isBelow
    · rw [← isSame, rootParts] at targetParts
      exact (List.cons.inj targetParts).2 ▸ List.prefix_rfl
    · obtain ⟨rest, isRest⟩ := List.isPrefixOf_iff_prefix.mp isBelow
      rw [← isRest, List.append_assoc, List.singleton_append, segments_slash, rootParts] at targetParts
      exact ⟨_, (List.cons.inj targetParts).2⟩

theorem homeRead_of_expandHome {home : Option Text} {path given : Text}
    (expanded : expandHome home path = .ok given) : homeRead home path = given := by
  unfold expandHome at expanded
  by_cases isHome : path = ['~'] ∨ ['~', '/'].isPrefixOf path
  · rw [if_pos isHome] at expanded
    cases home with
    | none => cases expanded
    | some home =>
      unfold homeRead
      dsimp only
      rw [if_pos isHome]
      cases home with
      | nil => cases expanded
      | cons c later =>
        rw [← Except.ok.inj expanded]
        rcases isHome with rfl | isBelow
        · exact List.append_nil _
        · obtain ⟨rest, rfl⟩ := List.isPrefixOf_iff_prefix.mp isBelow
          rw [if_neg (by simp)]
          rfl
  · rw [if_neg isHome] at expanded
    split_ifs at expanded
    obtain rfl := Except.ok.inj expanded
    unfold homeRead
    cases home with
    | none => rfl
    | some home => exact if_neg isHome

structure TrueTo (host : Host) (base path : Text) (answer : RealResult) : Prop where
  /-- An object that opens is answered by its real path, or not at all. -/
  opened : ∀ budget found, host.opens budget base path = .ok found →
    (∃ intermediates, answer = .real found intermediates) ∨ ∃ why, answer = .cannot why
  /-- A path that is answered is the one that creating would make. -/
  created : ∀ budget made, host.creates budget base path = .ok made →
    ∀ real intermediates, answer = .real real intermediates → real = made

def InsideTrue (host : Host) (root : Text) (base : Option Text) (path : Text) (placed : Placement) :
    Prop :=
  ∀ real intermediates, placed = .inside real intermediates →
    ∃ realRoot, host.realOfText root = .ok realRoot ∧ realRoot <+: real ∧
      ∀ budget found, host.opens budget (base.getD (render realRoot)) path = .ok found → found = real

theorem Host.realPathInOrder_real {host : Host} {path base : Text} {home : Option Text}
    {mustExist : Bool} {real : RealPath} {intermediates : List RealPath}
    (isReal : host.realPathInOrder path base home mustExist = .real real intermediates) :
    ∃ missing passed, host.placeGiven mustExist (homeRead home path) base =
      .walked real passed missing := by
  unfold Host.realPathInOrder at isReal
  split_ifs at isReal
  cases expanded : expandHome home path with
  | error why =>
    rw [expanded] at isReal
    cases isReal
  | ok given =>
    rw [expanded] at isReal
    dsimp only at isReal
    rw [homeRead_of_expandHome expanded]
    cases isPlaced : host.placeGiven mustExist given base with
    | cannot why =>
      rw [isPlaced] at isReal
      cases isReal
    | walked cur passed missing =>
      rw [isPlaced] at isReal
      cases isReal
      exact ⟨missing, _, rfl⟩

theorem realPathInOrder_trueTo (host : Host) (path base : Text) (home : Option Text)
    (mustExist : Bool) :
    TrueTo host base (homeRead home path) (host.realPathInOrder path base home mustExist) := by
  have created : ∀ budget made, host.creates budget base (homeRead home path) = .ok made →
      ∀ real intermediates,
        host.realPathInOrder path base home mustExist = .real real intermediates → real = made := by
    intro budget made isMade real intermediates isReal
    obtain ⟨missing, passed, isPlaced⟩ := Host.realPathInOrder_real isReal
    exact (Host.placeGiven_creates isPlaced isMade).symm
  refine ⟨fun budget found isOpened => ?_, created⟩
  cases isReal : host.realPathInOrder path base home mustExist with
  | cannot why => exact Or.inr ⟨why, rfl⟩
  | real real intermediates =>
    obtain rfl := created budget found (Host.creates_of_opens isOpened) real intermediates isReal
    exact Or.inl ⟨intermediates, rfl⟩

theorem realPathInOrder_unslashed {host : Host} {path base : Text} {home : Option Text}
    {mustExist : Bool} {real : RealPath} {intermediates : List RealPath}
    (isReal : host.realPathInOrder path base home mustExist = .real real intermediates) :
    ∀ part ∈ real, '/' ∉ part := by
  obtain ⟨missing, passed, isPlaced⟩ := Host.realPathInOrder_real isReal
  exact Host.placeGiven_unslashed isPlaced

theorem realOfText_solid {host : Host} {root : Text} {realRoot : RealPath}
    (here : host.fs.Solid host.cwd) (isRoot : host.realOfText root = .ok realRoot) :
    host.fs.Solid realRoot := by
  unfold Host.realOfText at isRoot
  split_ifs at isRoot
  · exact FileTree.namei_solid (Or.inl host.fs.root) isRoot
  · exact FileTree.namei_solid here isRoot

/-- A project `/p` with a file, beside a folder `/e/d`, and two links out of the project: `l`
to `/e/d`, and one that is called `~`, to `/e`. -/
def linkedHost : Host where
  fs := FileTree.ofNodes
    [([text "p"], .dir), ([text "e"], .dir), ([text "e", text "d"], .dir),
      ([text "e", text "x"], .file), ([text "p", text "x"], .file),
      ([text "p", text "l"], .link (text "/e/d")), ([text "p", text "~"], .link (text "/e"))]
    (by decide +kernel) (fun _ => true) (fun _ => true)
  links := 40
  cwd := []
  here := Or.inl rfl

/-- The climb is made from where the link points. -/
example : linkedHost.placePath (text "l/..//./x") (text "/p") {} =
    .outside [text "e", text "x"] [[text "e", text "d"], [text "e"], [text "e", text "x"]] := by
  decide +kernel

end Murage.InProject
