import BuildTree.Text.Lines
import BuildTree.Text.Summary

/-!
# Tree paths — names inside a file tree

A tree path starts with `/`, has no trailing slash (the root itself apart), no empty segment and
no `..` segment.  The functions on plain texts (`parent`, `basename`, `join`, `seenFrom?`) assume a
well-formed path and stay total on any other text; `TreePath` is a text with the proof that it is
well formed.
-/

namespace BuildTree

/-- Why a text is not a tree path. -/
inductive PathError
  | notAbsolute (path : String)
  | trailingSlash (path : String)
  | parentSegment (path : String)
  | emptySegment (path : String)
  deriving DecidableEq, Repr

def PathError.message : PathError → String
  | .notAbsolute path => s!"virtual path '{path}' is not absolute"
  | .trailingSlash path => s!"virtual path '{path}' has a trailing slash"
  | .parentSegment path => s!"virtual path '{path}' contains a '..' segment"
  | .emptySegment path => s!"virtual path '{path}' contains an empty segment"

namespace Path

def root : String := "/"

def isAbsolute (path : String) : Bool :=
  path.toList.head? == some '/'

/-- The segments of an absolute path: what stands between its slashes. -/
def segments (path : String) : List String :=
  ((path.toList.drop 1).splitOn '/').map String.ofList

/-- The first empty or `..` segment, as the error it is. -/
def segmentError? (path : String) : List String → Option PathError
  | [] => none
  | segment :: rest =>
      if segment = "" then some (.emptySegment path)
      else if segment = ".." then some (.parentSegment path)
      else segmentError? path rest

/-- What is wrong with a path, if anything: of several faults the first in the order not absolute,
trailing slash, first bad segment. -/
def error? (path : String) : Option PathError :=
  if !isAbsolute path then some (.notAbsolute path)
  else if path = root then none
  else if path.toList.getLast? == some '/' then some (.trailingSlash path)
  else segmentError? path (segments path)

/-- Accepts exactly the well-formed tree paths. -/
def validate (path : String) : Except PathError Unit :=
  match error? path with
  | none => .ok ()
  | some err => .error err

/-- Everything before the last slash; the root when that is nothing. -/
def parent (path : String) : String :=
  match path.toList.reverse.dropWhile (· != '/') with
  | [] => root
  | [_] => root
  | _ :: before => String.ofList before.reverse

/-- Everything behind the last slash. -/
def basename (path : String) : String :=
  String.ofList (path.toList.reverse.takeWhile (· != '/')).reverse

def join (dir name : String) : String :=
  if dir = root then "/" ++ name else dir ++ "/" ++ name

/-- The path without one trailing slash, if there is one to take; the root keeps its own. -/
def withoutTrailingSlash? (path : String) : Option String :=
  if path ≠ root ∧ path.toList.getLast? = some '/' then
    some (String.ofList path.toList.dropLast)
  else none

/-- Where a path lies below a mount point, seen from there.  Only whole segments count: `/ab` does
not lie below `/a`. -/
def seenFrom? (path mountPoint : String) : Option String :=
  if mountPoint = root then some path
  else
    match mountPoint.toList.isPrefixOf? path.toList with
    | none => none
    | some [] => some root
    | some (c :: rest) => if c = '/' then some (String.ofList (c :: rest)) else none

/-- The path of `inner` once its tree is mounted at a mount point. -/
def mount (mountPoint inner : String) : String :=
  if inner = root then mountPoint
  else if mountPoint = root then inner
  else mountPoint ++ inner

end Path

structure TreePath where
  text : String
  wellFormed : Path.error? text = none
  deriving DecidableEq

namespace TreePath

/-- A text as a tree path, or what is wrong with it. -/
def parse (text : String) : Except PathError TreePath :=
  match h : Path.error? text with
  | none => .ok ⟨text, h⟩
  | some err => .error err

/-- A relative name as a tree path: leading slashes are dropped and one is put in front. -/
def ofRelative (name : String) : Except PathError TreePath :=
  parse ("/" ++ Text.dropSlashes name)

def root : TreePath := ⟨Path.root, by decide⟩

def fileName (path : TreePath) : String :=
  Path.basename path.text

def sorted (paths : List TreePath) : List TreePath :=
  paths.mergeSort fun a b => decide (a.text ≤ b.text)

def summary (path : TreePath) : String :=
  Summary.wrapped "VPath" (Quoted.quote path.text)

instance : ToString TreePath := ⟨TreePath.text⟩

end TreePath

end BuildTree
