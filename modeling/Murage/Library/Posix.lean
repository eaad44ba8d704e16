import Mathlib.Data.List.Basic
import Mathlib.Data.List.Induction
import Mathlib.Tactic.Common

/-!
Owns POSIX file trees with symbolic links and the resolution of a path in one: component
by component, each link followed before the next component, under a bound on the links.
It names no system.
-/

namespace Murage.Library.Posix

/-- One part of a path. -/
abbrev Name := List Char

/-- An absolute path without links, as its parts. -/
abbrev RealPath := List Name

def dot : Name := ['.']

def dotdot : Name := ['.', '.']

instance decidableIsPart (part : Name) (parts : List Name) : Decidable (part ∈ parts) :=
  inferInstance

/-- What a directory entry may be called. -/
structure Plain (name : Name) : Prop where
  named : name ≠ []
  unslashed : '/' ∉ name
  notDot : name ≠ dot
  notDotdot : name ≠ dotdot

inductive Node where
  | file
  | dir
  | link (target : List Char)
deriving DecidableEq, Repr

inductive Errno where
  | noEntry
  | notDirectory
  | access
  | loop
deriving DecidableEq, Repr

structure FileTree where
  node : RealPath → Option Node
  entries : RealPath → List Name
  searchable : RealPath → Bool
  readable : RealPath → Bool
  root : node [] = some .dir
  parent : ∀ path name, (node (path ++ [name])).isSome → node path = some .dir
  plain : ∀ path name, (node (path ++ [name])).isSome → Plain name
  mem_entries : ∀ path name, name ∈ entries path ↔ (node (path ++ [name])).isSome

/-- The parts of a path. A run of slashes gives empty parts. -/
def segments (path : List Char) : List Name := path.splitOn '/'

def isAbsolute (path : List Char) : Bool := path.head? == some '/'

def names (parts : List Name) : List Name := parts.filter fun part => part ≠ [] ∧ part ≠ dot

/-- What happens at a part that is not there: the path so far, with it, and the parts that
are left. -/
abbrev Missing := RealPath → List Name → Except Errno RealPath

def opening : Missing := fun _ _ => .error .noEntry

/-- Creating makes the parts that are left. -/
def creating : Missing := fun path rest =>
  if dotdot ∈ rest then .error .noEntry else .ok (path ++ names rest)

/-! ## Paths as text -/

theorem segments_slash (before after : List Char) :
    segments (before ++ '/' :: after) = segments before ++ segments after :=
  List.splitOn_append_cons_self _ _

theorem unslashed_of_mem_segments {path : List Char} {part : Name} (isPart : part ∈ segments path) :
    '/' ∉ part := by
  induction path generalizing part with
  | nil =>
    obtain rfl := List.mem_singleton.mp isPart
    exact List.not_mem_nil
  | cons c path ih =>
    unfold segments at isPart ih
    rw [List.splitOn_cons_eq_if_modifyHead] at isPart
    split_ifs at isPart with isSlash
    · rcases List.mem_cons.mp isPart with rfl | isLater
      · exact List.not_mem_nil
      · exact ih isLater
    · obtain ⟨first, later, isSplit⟩ := List.exists_cons_of_ne_nil (List.splitOn_ne_nil '/' path)
      rw [isSplit] at isPart ih
      rcases List.mem_cons.mp isPart with rfl | isLater
      · refine List.not_mem_cons_of_ne_of_not_mem ?_ (ih List.mem_cons_self)
        exact fun isEq => isSlash (beq_iff_eq.mpr isEq.symm)
      · exact ih (List.mem_cons_of_mem _ isLater)

theorem mem_names {parts : List Name} {part : Name} :
    part ∈ names parts ↔ part ∈ parts ∧ part ≠ [] ∧ part ≠ dot := by
  unfold names
  rw [List.mem_filter, decide_eq_true_iff]

theorem names_append (front back : List Name) : names (front ++ back) = names front ++ names back :=
  List.filter_append _ _

theorem dotdot_mem_names {parts : List Name} : dotdot ∈ names parts ↔ dotdot ∈ parts := by
  rw [mem_names]
  exact ⟨And.left, fun isPart => ⟨isPart, by decide, by decide⟩⟩

namespace FileTree

section

variable (fs : FileTree) (missing : Missing)

/-- The resolution of parts from a directory; `follow` resolves on from a link. -/
def nameiWith (follow : RealPath → List Name → Except Errno RealPath) :
    RealPath → List Name → Except Errno RealPath
  | cur, [] => .ok cur
  | cur, part :: rest =>
    if fs.node cur ≠ some .dir then .error .notDirectory
    else if part = [] then nameiWith follow cur rest
    else if fs.searchable cur = false then .error .access
    else if part = dot then nameiWith follow cur rest
    else if part = dotdot then nameiWith follow cur.dropLast rest
    else match fs.node (cur ++ [part]) with
      | none => missing (cur ++ [part]) rest
      | some (.link target) =>
        follow (if isAbsolute target then [] else cur) (segments target ++ rest)
      | some _ => nameiWith follow (cur ++ [part]) rest

/-- The resolution of parts under a bound on the links followed. -/
def namei : Nat → RealPath → List Name → Except Errno RealPath
  | 0 => nameiWith fs missing fun _ _ => .error .loop
  | budget + 1 => nameiWith fs missing (namei budget)

end

/-- The file itself, its last part not followed. -/
def lstat (fs : FileTree) (budget : Nat) (path : RealPath) : Except Errno Node :=
  match path.getLast? with
  | none => .ok .dir
  | some last =>
    match fs.namei opening budget [] path.dropLast with
    | .error error => .error error
    | .ok folder =>
      if fs.node folder ≠ some .dir then .error .notDirectory
      else if fs.searchable folder = false then .error .access
      else match fs.node (folder ++ [last]) with
        | none => .error .noEntry
        | some node => .ok node

/-- Something that is there and is no link. -/
def Solid (fs : FileTree) (path : RealPath) : Prop := fs.node path = some .dir ∨ fs.node path = some .file

variable {fs : FileTree} {missing : Missing}

theorem Solid.isSome {path : RealPath} (solid : fs.Solid path) : (fs.node path).isSome := by
  rcases solid with isDir | isFile
  · rw [isDir]
    rfl
  · rw [isFile]
    rfl

theorem Solid.dropLast {path : RealPath} (solid : fs.Solid path) : fs.node path.dropLast = some .dir := by
  rcases List.eq_nil_or_concat path with rfl | ⟨parent, name, rfl⟩
  · exact fs.root
  · rw [List.concat_eq_append, List.dropLast_concat]
    rw [List.concat_eq_append] at solid
    exact fs.parent parent name solid.isSome

/-- No proper part of a path that is there is a link. -/
theorem node_above {above below : RealPath} (isIn : (fs.node (above ++ below)).isSome)
    (isBelow : below ≠ []) : fs.node above = some .dir := by
  induction below using List.reverseRecOn with
  | nil => exact absurd rfl isBelow
  | append_singleton earlier name ih =>
    rw [← List.append_assoc] at isIn
    have isParent := fs.parent _ _ isIn
    by_cases isLast : earlier = []
    · rw [isLast, List.append_nil] at isParent
      exact isParent
    · exact ih (by rw [isParent]; rfl) isLast

/-- What is there is called something all the way down. -/
theorem Solid.plain {path : RealPath} (solid : fs.Solid path) : ∀ name ∈ path, Plain name := by
  intro name isName
  obtain ⟨above, below, rfl⟩ := List.append_of_mem isName
  refine fs.plain above name ?_
  by_cases isLast : below = []
  · rw [isLast] at solid
    exact solid.isSome
  · have isPath : above ++ name :: below = above ++ [name] ++ below := by simp
    rw [isPath] at solid
    rw [node_above solid.isSome isLast]
    rfl

section Resolution

variable {budget : Nat} {cur : RealPath} {part : Name} {rest : List Name}

/-- One part, in the words of the bounded resolution. -/
theorem namei_cons (fs : FileTree) (missing : Missing) (budget : Nat) (cur : RealPath) (part : Name)
    (rest : List Name) :
    fs.namei missing budget cur (part :: rest) =
      if fs.node cur ≠ some .dir then .error .notDirectory
      else if part = [] then fs.namei missing budget cur rest
      else if fs.searchable cur = false then .error .access
      else if part = dot then fs.namei missing budget cur rest
      else if part = dotdot then fs.namei missing budget cur.dropLast rest
      else match fs.node (cur ++ [part]) with
        | none => missing (cur ++ [part]) rest
        | some (.link target) =>
          match budget with
          | 0 => .error .loop
          | budget + 1 => fs.namei missing budget (if isAbsolute target then [] else cur)
              (segments target ++ rest)
        | some _ => fs.namei missing budget (cur ++ [part]) rest := by
  cases budget <;> rfl

theorem namei_nil (fs : FileTree) (missing : Missing) (budget : Nat) (cur : RealPath) :
    fs.namei missing budget cur [] = .ok cur := by
  cases budget <;> rfl

/-- What a path opens is there and is no link. -/
theorem namei_solid {found : RealPath} {parts : List Name} (solid : fs.Solid cur)
    (opened : fs.namei opening budget cur parts = .ok found) : fs.Solid found := by
  induction budget using Nat.strongRecOn generalizing cur parts with
  | _ budget fewer =>
  induction parts generalizing cur with
  | nil =>
    rw [namei_nil] at opened
    exact Except.ok.inj opened ▸ solid
  | cons part rest ih =>
    rw [namei_cons] at opened
    split_ifs at opened
    · exact ih solid opened
    · exact ih solid opened
    · exact ih (Or.inl solid.dropLast) opened
    · cases isNode : fs.node (cur ++ [part]) with
      | none =>
        rw [isNode] at opened
        cases opened
      | some node =>
        rw [isNode] at opened
        cases node with
        | file => exact ih (Or.inr isNode) opened
        | dir => exact ih (Or.inl isNode) opened
        | link target =>
          cases budget with
          | zero => cases opened
          | succ budget =>
            refine fewer budget (Nat.lt_succ_self budget) ?_ opened
            split_ifs
            · exact Or.inl fs.root
            · exact solid

/-- What opens is what creating leaves alone. -/
theorem namei_of_opening {found : RealPath} {parts : List Name}
    (opened : fs.namei opening budget cur parts = .ok found) :
    fs.namei missing budget cur parts = .ok found := by
  induction budget using Nat.strongRecOn generalizing cur parts with
  | _ budget fewer =>
  induction parts generalizing cur with
  | nil =>
    rw [namei_nil] at opened ⊢
    exact opened
  | cons part rest ih =>
    rw [namei_cons] at opened ⊢
    split_ifs at opened ⊢
    · exact ih opened
    · exact ih opened
    · exact ih opened
    · cases isNode : fs.node (cur ++ [part]) with
      | none =>
        rw [isNode] at opened
        cases opened
      | some node =>
        rw [isNode] at opened
        cases node with
        | file => exact ih opened
        | dir => exact ih opened
        | link target =>
          cases budget with
          | zero => cases opened
          | succ budget => exact fewer budget (Nat.lt_succ_self budget) opened

/-- **Resolution in order.** A path that begins with parts that open goes on from what
they open, whatever bound they were opened under. -/
theorem namei_append {limit : Nat} {found real : RealPath} {parts : List Name}
    (opened : fs.namei opening limit cur parts = .ok found)
    (resolved : fs.namei missing budget cur (parts ++ rest) = .ok real) :
    ∃ left, fs.namei missing left found rest = .ok real := by
  induction limit using Nat.strongRecOn generalizing budget cur parts with
  | _ limit fewer =>
  induction parts generalizing cur with
  | nil =>
    rw [namei_nil] at opened
    obtain rfl := Except.ok.inj opened
    exact ⟨budget, resolved⟩
  | cons part later ih =>
    rw [namei_cons] at opened
    rw [List.cons_append, namei_cons] at resolved
    split_ifs at opened resolved
    · exact ih opened resolved
    · exact ih opened resolved
    · exact ih opened resolved
    · cases isNode : fs.node (cur ++ [part]) with
      | none =>
        rw [isNode] at opened
        cases opened
      | some node =>
        rw [isNode] at opened resolved
        cases node with
        | file => exact ih opened resolved
        | dir => exact ih opened resolved
        | link target =>
          cases limit with
          | zero => cases opened
          | succ limit =>
            cases budget with
            | zero => cases resolved
            | succ budget =>
              refine @fewer limit (Nat.lt_succ_self limit) budget _ _ opened ?_
              rw [List.append_assoc]
              exact resolved

/-- A real path is passed through, or a folder on its way may not be searched. -/
theorem namei_through {below : RealPath} (solid : fs.Solid (cur ++ below)) :
    fs.namei missing budget cur (below ++ rest) = fs.namei missing budget (cur ++ below) rest ∨
      fs.namei missing budget cur (below ++ rest) = .error .access := by
  induction below generalizing cur with
  | nil =>
    rw [List.nil_append, List.append_nil]
    exact Or.inl rfl
  | cons name later ih =>
    have isPath : cur ++ name :: later = cur ++ [name] ++ later := by simp
    have isFolder : fs.node cur = some .dir := node_above solid.isSome (List.cons_ne_nil _ _)
    rw [isPath] at solid ⊢
    have isSolid : fs.Solid (cur ++ [name]) := by
      by_cases isLast : later = []
      · rw [isLast, List.append_nil] at solid
        exact solid
      · exact Or.inl (node_above solid.isSome isLast)
    have plain := fs.plain cur name isSolid.isSome
    rw [List.cons_append, namei_cons, if_neg (not_not.mpr isFolder), if_neg plain.named,
      if_neg plain.notDot, if_neg plain.notDotdot]
    split_ifs
    · exact Or.inr rfl
    · rcases isSolid with isDir | isFile
      · rw [isDir]
        exact ih solid
      · rw [isFile]
        exact ih solid

/-- A real path opens itself, or a folder on its way may not be searched. -/
theorem namei_real {below : RealPath} (solid : fs.Solid (cur ++ below)) :
    fs.namei missing budget cur below = .ok (cur ++ below) ∨
      fs.namei missing budget cur below = .error .access := by
  have through := @namei_through _ missing budget _ [] _ solid
  rwa [List.append_nil, namei_nil] at through

/-- A part that names nothing leaves the resolution where it is. -/
theorem namei_skip {real : RealPath} (isSkip : part = [] ∨ part = dot)
    (resolved : fs.namei missing budget cur (part :: rest) = .ok real) :
    fs.namei missing budget cur rest = .ok real := by
  rw [namei_cons] at resolved
  split_ifs at resolved with notDir isEmpty isSearched isDot isDotdot
  · exact resolved
  · exact resolved
  · exact absurd (isSkip.resolve_left isEmpty) isDot
  · exact absurd (isSkip.resolve_left isEmpty) isDot

theorem namei_climb {real : RealPath}
    (resolved : fs.namei missing budget cur (dotdot :: rest) = .ok real) :
    fs.namei missing budget cur.dropLast rest = .ok real := by
  rw [namei_cons] at resolved
  split_ifs at resolved with notDir isEmpty isSearched isDot
  · exact absurd isEmpty (by decide)
  · exact absurd isDot (by decide)
  · exact resolved
  · contradiction

/-- A part that is not there, as a resolution meets it. -/
theorem namei_absent {real : RealPath} (isName : ¬(part = [] ∨ part = dot)) (notClimb : part ≠ dotdot)
    (absent : fs.node (cur ++ [part]) = none)
    (resolved : fs.namei missing budget cur (part :: rest) = .ok real) :
    missing (cur ++ [part]) rest = .ok real := by
  rw [namei_cons] at resolved
  split_ifs at resolved with notDir isEmpty isSearched isDot
  · exact absurd (Or.inl isEmpty) isName
  · exact absurd (Or.inr isDot) isName
  · rw [absent] at resolved
    exact resolved

/-- What `lstat` says below something solid. -/
theorem lstat_solid (solid : fs.Solid cur) :
    fs.lstat budget (cur ++ [part]) =
      (match fs.node (cur ++ [part]) with
        | none => if fs.node cur = some .dir then .error .noEntry else .error .notDirectory
        | some node => .ok node) ∨
      fs.lstat budget (cur ++ [part]) = .error .access := by
  unfold lstat
  rw [List.getLast?_concat, List.dropLast_concat]
  dsimp only
  rcases @namei_real fs opening budget [] _ solid with
    opened | refused
  · rw [opened, List.nil_append]
    dsimp only
    by_cases isFolder : fs.node cur = some .dir
    · rw [if_neg (not_not.mpr isFolder), if_pos isFolder]
      by_cases isSearched : fs.searchable cur = false
      · exact Or.inr (if_pos isSearched)
      · rw [if_neg isSearched]
        left
        cases fs.node (cur ++ [part]) <;> rfl
    · rw [if_pos isFolder, if_neg isFolder]
      left
      cases isNode : fs.node (cur ++ [part]) with
      | none => rfl
      | some node => exact absurd (fs.parent cur part (by rw [isNode]; rfl)) isFolder
  · rw [refused]
    exact Or.inr rfl

end Resolution

/-! ## Trees given as a list -/

def nodeOf (nodes : List (RealPath × Node)) (path : RealPath) : Option Node :=
  if path = [] then some .dir else nodes.lookup path

def Listed (nodes : List (RealPath × Node)) : Prop :=
  ∀ entry ∈ nodes, nodeOf nodes entry.1.dropLast = some .dir ∧
    ∀ name ∈ entry.1.getLast?, name ≠ [] ∧ '/' ∉ name ∧ name ≠ dot ∧ name ≠ dotdot

instance (nodes : List (RealPath × Node)) : Decidable (Listed nodes) :=
  inferInstanceAs (Decidable (∀ entry ∈ nodes, _ ∧ _))

theorem mem_of_nodeOf {nodes : List (RealPath × Node)} {path : RealPath} {name : Name}
    (isIn : (nodeOf nodes (path ++ [name])).isSome) : ∃ node, (path ++ [name], node) ∈ nodes := by
  unfold nodeOf at isIn
  rw [if_neg (List.append_ne_nil_of_right_ne_nil _ (List.cons_ne_nil _ _)),
    List.lookup_isSome_iff] at isIn
  obtain ⟨⟨entryPath, node⟩, isEntry, isPath⟩ := isIn
  obtain rfl := beq_iff_eq.mp isPath
  exact ⟨node, isEntry⟩

def ofNodes (nodes : List (RealPath × Node)) (listed : Listed nodes)
    (searchable readable : RealPath → Bool) : FileTree where
  node := nodeOf nodes
  entries path := nodes.filterMap fun entry =>
    if entry.1.dropLast = path then entry.1.getLast? else none
  searchable := searchable
  readable := readable
  root := rfl
  parent path name isThere := by
    obtain ⟨node, isEntry⟩ := mem_of_nodeOf isThere
    have isParent := (listed _ isEntry).1
    rwa [List.dropLast_concat] at isParent
  plain path name isThere := by
    obtain ⟨node, isEntry⟩ := mem_of_nodeOf isThere
    obtain ⟨named, unslashed, notDot, notDotdot⟩ :=
      (listed _ isEntry).2 name (by rw [List.getLast?_concat]; rfl)
    exact ⟨named, unslashed, notDot, notDotdot⟩
  mem_entries path name := by
    rw [List.mem_filterMap]
    constructor
    · rintro ⟨⟨entryPath, node⟩, isEntry, isName⟩
      dsimp only at isName
      split_ifs at isName with isFolder
      obtain ⟨front, rfl⟩ := List.getLast?_eq_some_iff.mp isName
      rw [List.dropLast_concat] at isFolder
      subst isFolder
      unfold nodeOf
      rw [if_neg (List.append_ne_nil_of_right_ne_nil _ (List.cons_ne_nil _ _)),
        List.lookup_isSome_iff]
      exact ⟨_, isEntry, beq_self_eq_true _⟩
    · intro isThere
      obtain ⟨node, isEntry⟩ := mem_of_nodeOf isThere
      refine ⟨_, isEntry, ?_⟩
      dsimp only
      rw [List.dropLast_concat, if_pos rfl, List.getLast?_concat]

end FileTree

end Murage.Library.Posix
