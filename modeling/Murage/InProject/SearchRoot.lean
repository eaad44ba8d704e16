import Murage.InProject.Model

/-!
Owns the walk of a search root on POSIX: the breadth-first walk under its bounds, the key
guard of every entry, and what a recursive reader reaches below the same root.

A name is its bytes. What Node reads of it and gives back to the system is `decoded`.

Does not own: the rows of the sensitive list, the cache of walks, and the Windows branches.
-/

namespace Murage.InProject

open Murage.Library.Posix

/-- What the walk is run with beside the tree: the names Node reads, the order it sorts
them in, and the sensitive list. -/
structure Reading where
  decoded : Name → Name
  sorted : Name → Name → Bool
  sensitivePathRow : Text → (inProject onTheWay template : Bool) → Option String

structure WalkOptions extends PlaceOptions where
  maxEntries : Nat := 100000
  maxMs : Int := 3000
  /-- The clock, by how often it has been read. -/
  now : Nat → Int

structure WalkHit where
  path : Text
  dir : Bool
  rule : String
deriving DecidableEq, Repr

inductive WalkResult where
  | ok (hits : List WalkHit) (unwalked : List Text)
  | notOk (why : String)
deriving DecidableEq, Repr

structure WalkDir where
  real : RealPath
  rel : Text
deriving DecidableEq, Repr

structure Walk where
  hits : List WalkHit := []
  unwalked : List Text := []
  queue : List WalkDir := []
  seen : List RealPath := []
  entries : Nat := 0

/-! ## The key guard -/

def templateBasenames : List Text :=
  [text ".env.example", text ".env.sample", text ".env.template", text ".env.dist"]

/-- The path as given, and with its backslashes as slashes. -/
def spellings (path : Text) : List Text :=
  let slashed := path.map fun c => if c = '\\' then '/' else c
  if slashed = path then [path] else [path, slashed]

def keyGuard (reading : Reading) (paths : List Text) (inProject onTheWay : Bool) : Option String :=
  paths.findSome? fun path =>
    let basename := ((segments path).getLast?.getD []).map Char.toLower
    let template := inProject && templateBasenames.contains basename
    (spellings path).findSome? fun spelling =>
      reading.sensitivePathRow spelling inProject onTheWay template

/-! ## The folders of the system -/

def isOnePart (name : Name) : Bool :=
  !(name = [] || name = dot || name = dotdot || '/' ∈ name || '\\' ∈ name || '\x00' ∈ name)

def joinReal (base : RealPath) (name : Name) : Option RealPath :=
  if isOnePart name then some (base ++ [name]) else none

namespace Host

section

variable (host : Host)

def stat (path : RealPath) : Except Errno Node :=
  match host.realOf path with
  | .error error => .error error
  | .ok found =>
    match host.fs.node found with
    | none => .error .noEntry
    | some node => .ok node

def readdir (reading : Reading) (path : RealPath) : Except Errno (List Name) :=
  match host.realOf path with
  | .error error => .error error
  | .ok found =>
    if host.fs.node found ≠ some .dir then .error .notDirectory
    else if host.fs.readable found = false then .error .access
    else .ok ((host.fs.entries found).map reading.decoded)

/-- The folder a relative path is taken from: the running process's own. -/
def hereFor (path : Text) : Option Text :=
  if isAbsolute path then some []
  else
    match host.realOfText ['.'] with
    | .error _ => none
    | .ok here => some (render here)

def realDir (path : Text) : Option RealPath :=
  match host.hereFor path with
  | none => none
  | some here =>
    match host.realPathInOrder path here none true with
    | .cannot _ => none
    | .real real _ =>
      match host.stat real with
      | .ok .dir => some real
      | _ => none

end

end Host

/-! ## The walk -/

/-- The spelling of an entry, below the spelling of its folder. -/
def child (rel : Text) (name : Name) : Text := if rel = [] then name else rel ++ '/' :: name

/-- The spelling of a folder as `unwalked` lists it. -/
def listed (rel : Text) : Text := if rel = [] then ['.'] else rel

def entryRule (reading : Reading) (realProject : RealPath) (rel : Text) (name : Name) (abs real : RealPath)
    (isDir : Bool) : Option String :=
  if isDir && name = text ".git" then some "project-git"
  else keyGuard reading [rel, render abs, render real] (within realProject real) isDir

namespace Host

section

variable (host : Host) (reading : Reading) (realProject : RealPath)

/-- Where an entry is, and whether it is a folder. A link is followed. -/
def entryAt (abs : RealPath) : Option (RealPath × Bool) :=
  match host.lstat abs with
  | .error _ => none
  | .ok (.link _) =>
    match host.realOf abs with
    | .error _ => none
    | .ok real =>
      match host.stat real with
      | .error _ => none
      | .ok node => some (real, decide (node = .dir))
  | .ok node => some (abs, decide (node = .dir))

def walkEntry (dir : WalkDir) (walk : Walk) (name : Name) : Walk :=
  match joinReal dir.real name with
  | none => walk
  | some abs =>
    match host.entryAt abs with
    | none => walk
    | some (real, isDir) =>
      let rel := child dir.rel name
      match entryRule reading realProject rel name abs real isDir with
      | some rule =>
        { walk with hits := walk.hits ++ [{ path := rel, dir := isDir, rule := rule }] }
      | none =>
        if isDir = false then walk
        else if within realProject real = false then
          { walk with unwalked := walk.unwalked ++ [rel] }
        else if real ∈ walk.seen then walk
        else
          match host.realDir (render real) with
          | none =>
            { walk with
              seen := walk.seen ++ [real]
              unwalked := walk.unwalked ++ [rel] }
          | some next =>
            { walk with
              seen := walk.seen ++ [real]
              queue := walk.queue ++ [{ real := next, rel := rel }] }

/-- The entries of one folder. A bound that is met ends the whole walk. -/
def walkNames (opts : WalkOptions) (dir : WalkDir) : Walk → List Name → Except WalkResult Walk
  | walk, [] => .ok walk
  | walk, name :: rest =>
    if walk.entries ≥ opts.maxEntries ∨ opts.now (walk.entries + 1) - opts.now 0 > opts.maxMs then
      .error (.ok walk.hits
        (walk.unwalked ++ [listed dir.rel] ++ walk.queue.map WalkDir.rel))
    else
      walkNames opts dir
        (walkEntry host reading realProject dir { walk with entries := walk.entries + 1 } name) rest

def walkQueue (opts : WalkOptions) : Nat → Bool → Walk → Option WalkResult
  | fuel, first, walk =>
    match walk.queue, fuel with
    | [], _ => some (.ok walk.hits walk.unwalked)
    | _ :: _, 0 => none
    | dir :: queue, fuel + 1 =>
      match host.readdir reading dir.real with
      | .error _ =>
        if first then some (.notOk "the search root cannot be read")
        else walkQueue opts fuel false
          { walk with
            queue := queue
            unwalked := walk.unwalked ++ [listed dir.rel] }
      | .ok names =>
        match host.walkNames reading realProject opts dir { walk with queue := queue }
            (names.mergeSort reading.sorted) with
        | .error result => some result
        | .ok walk => walkQueue opts fuel false walk

end

def searchRoot (host : Host) (root project : Text) (opts : PlaceOptions) : Except String RealPath :=
  match host.placePath root project opts with
  | .cannotPlace why => .error why
  | .inside real _ => .ok real
  | .outside real _ => .ok real

/-- Every folder of the queue was an entry that was counted, or is the root. -/
def walkRoot (host : Host) (reading : Reading) (root project : Text) (opts : WalkOptions) :
    Option WalkResult :=
  match host.searchRoot root project opts.toPlaceOptions with
  | .error why => some (.notOk why)
  | .ok real =>
    match host.realDir project with
    | none => some (.notOk "the project folder cannot be read")
    | some realProject =>
      host.walkQueue reading realProject opts (opts.maxEntries + 1) true
        { queue := [{ real := real, rel := [] }], seen := [real] }

end Host

/-! ## The reader -/

/-- What a recursive reader reaches below the root, no link followed. -/
inductive Reach (fs : FileTree) (root : RealPath) : List Name → Prop where
  | top : Reach fs root []
  | entry {below : List Name} {name : Name} (above : Reach fs root below)
      (isFolder : fs.node (root ++ below) = some .dir)
      (readable : fs.readable (root ++ below) = true)
      (searchable : fs.searchable (root ++ below) = true)
      (isThere : fs.Solid (root ++ below ++ [name])) : Reach fs root (below ++ [name])

/-- The spelling of a place below the root, by its own folders. -/
def relOf (below : List Name) : Text := below.foldl child []

/-- The spellings of a place, from the root: entry by entry, and through links. -/
inductive Spells (host : Host) (root : RealPath) : Text → RealPath → Prop where
  | top : Spells host root [] root
  | entry {rel : Text} {folder : RealPath} {name : Name} (above : Spells host root rel folder)
      (isThere : host.fs.Solid (folder ++ [name])) :
      Spells host root (child rel name) (folder ++ [name])
  | link {rel : Text} {folder : RealPath} {name : Name} {target : Text} {real : RealPath}
      (above : Spells host root rel folder)
      (isLink : host.fs.node (folder ++ [name]) = some (.link target))
      (isReal : host.realOf (folder ++ [name]) = .ok real) :
      Spells host root (child rel name) real

section Reports

variable (host : Host) (reading : Reading) (root realProject : RealPath)

def guardOf (rel : Text) (place : RealPath) : Option String :=
  keyGuard reading [rel, render place] (within realProject place)
    (decide (host.fs.node place = some .dir))

inductive Looked (hits : List WalkHit) (unwalked : List Text) (below : List Name) : Prop where
  | clean (notSensitive : guardOf host reading realProject (relOf below) (root ++ below) = none)
  | hit (hit : WalkHit) (isHit : hit ∈ hits) (place : RealPath) (spells : Spells host root hit.path place)
      (isBelow : place <+: root ++ below)
  | unwalked (rel : Text) (isListed : listed rel ∈ unwalked) (place : RealPath)
      (spells : Spells host root rel place) (isBelow : place <+: root ++ below)
  | walkedAs (rel : Text) (isOther : rel ≠ relOf below) (spells : Spells host root rel (root ++ below))
      (notSensitive : guardOf host reading realProject rel (root ++ below) = none)

end Reports

end Murage.InProject
