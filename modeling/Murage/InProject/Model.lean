import Mathlib
import Murage.Library.Posix

/-!
Owns the placement of a path on POSIX: the real path of a path, resolved part by part, and
whether it is inside the project. A real path is kept as its parts, so that `dirname` drops
the last part and `join` adds parts.

Does not own: the Windows branches, and the list of sensitive paths.
-/

namespace Murage.InProject

open Murage.Library.Posix

abbrev Text := List Char

def text (s : String) : Text := s.toList

def render (path : RealPath) : Text := if path = [] then ['/'] else path.flatMap fun name => '/' :: name

/-- What the running process sees: the tree, the bound on links, and its folder. -/
structure Host where
  fs : FileTree
  links : Nat
  cwd : RealPath
  here : fs.Solid cwd

structure PlaceOptions where
  home : Option Text := none
  base : Option Text := none

/-- A path that cannot be placed says why. -/
inductive RealResult where
  | real (real : RealPath) (intermediates : List RealPath)
  | cannot (why : String)
deriving DecidableEq, Repr

inductive Placement where
  | inside (real : RealPath) (intermediates : List RealPath)
  | outside (real : RealPath) (intermediates : List RealPath)
  | cannotPlace (why : String)
deriving DecidableEq, Repr

inductive Walked where
  | walked (cur : RealPath) (intermediates : List RealPath) (missing : Bool)
  | cannot (why : String)
deriving DecidableEq, Repr

def code : Errno → String
  | .noEntry => "ENOENT"
  | .notDirectory => "ENOTDIR"
  | .access => "EACCES"
  | .loop => "ELOOP"

/-- The text of the path, not its parts: `/ab` is not within `/a`. -/
def within (root target : RealPath) : Bool :=
  let a := render root
  let b := render target
  a == b || (if a.getLast? = some '/' then a else a ++ ['/']).isPrefixOf b

namespace Host

section

variable (host : Host)

/-- `realpathSync.native` of a real path. -/
def realOf (path : RealPath) : Except Errno RealPath := host.fs.namei opening host.links [] path

/-- `realpathSync.native` of a path as it is given. -/
def realOfText (path : Text) : Except Errno RealPath :=
  if path = [] then .error .noEntry
  else host.fs.namei opening host.links (if isAbsolute path then [] else host.cwd) (segments path)

def lstat (path : RealPath) : Except Errno Node := host.fs.lstat host.links path

variable (mustExist : Bool)

/-- The segment loop. The first part that is not there ends it: the rest is kept as
written, unless it climbs. -/
def walk : RealPath → List Name → List RealPath → Walked
  | cur, [], intermediates => .walked cur intermediates false
  | cur, seg :: rest, intermediates =>
    if seg = [] ∨ seg = dot then walk cur rest intermediates
    else if seg = dotdot then walk cur.dropLast rest (intermediates ++ [cur.dropLast])
    else match host.lstat (cur ++ [seg]) with
      | .error .noEntry =>
        if mustExist then .cannot "missing"
        else if dotdot ∈ names (seg :: rest) then .cannot "a climb past a missing folder"
        else .walked (cur ++ names (seg :: rest)) intermediates true
      | .error error => .cannot (code error)
      | .ok (.link _) =>
        match host.realOf (cur ++ [seg]) with
        | .error error =>
          .cannot (if mustExist ∧ error = .noEntry then "missing" else code error)
        | .ok real => walk real rest (intermediates ++ [real])
      | .ok _ => walk (cur ++ [seg]) rest (intermediates ++ [cur ++ [seg]])

def walkAbsolute (given : Text) : Walked :=
  match host.realOf [] with
  | .error _ => .cannot "the drive cannot be read"
  | .ok root => host.walk mustExist root (segments (given.drop 1)) []

end

end Host

/-- A path given as `~/…`, with the owner's home joined as written. -/
def expandHome (home : Option Text) (path : Text) : Except String Text :=
  if path = ['~'] ∨ ['~', '/'].isPrefixOf path then
    match home.filter (· ≠ []) with
    | none => .error "a home path with no home"
    | some home => .ok (if path = ['~'] then home else home ++ '/' :: path.drop 2)
  else if path.head? = some '~' then .error "another account's home"
  else .ok path

namespace Host

section

variable (host : Host)

/-- A path with its home, placed from `base` unless it is absolute. -/
def placeGiven (mustExist : Bool) (given base : Text) : Walked :=
  if isAbsolute given then host.walkAbsolute mustExist given
  else if !isAbsolute base then .cannot "a relative path with no folder to place it from"
  else match host.walkAbsolute mustExist base with
    | .cannot why =>
      .cannot (if why = "missing" then "missing" else
        "the folder it is placed from cannot be read")
    | .walked cur _ true =>
      if dotdot ∈ names (segments given) then .cannot "a climb past a missing folder"
      else .walked (cur ++ names (segments given)) [] true
    | .walked cur _ false => host.walk mustExist cur (segments given) []

def realPathInOrder (path base : Text) (home : Option Text) (mustExist : Bool) : RealResult :=
  if path = [] then .cannot "no path"
  else if '\x00' ∈ path ∨ '\x00' ∈ base then .cannot "a NUL byte"
  else match expandHome home path with
    | .error why => .cannot why
    | .ok given =>
      match host.placeGiven mustExist given base with
      | .cannot why => .cannot why
      | .walked cur intermediates _ => .real cur intermediates

def placePath (path root : Text) (opts : PlaceOptions) : Placement :=
  if path = [] then .cannotPlace "no path"
  else if '\x00' ∈ path ∨ '\x00' ∈ root then .cannotPlace "a NUL byte"
  else match host.realOfText root with
    | .error _ => .cannotPlace "the project folder cannot be read"
    | .ok realRoot =>
      match host.realPathInOrder path (opts.base.getD (render realRoot)) opts.home false with
      | .cannot why => .cannotPlace why
      | .real real intermediates =>
        if within realRoot real then .inside real intermediates
        else .outside real intermediates

end

end Host

end Murage.InProject
