import BuildTree.Text.Lines

/-!
# Disk paths — names of files outside the tree

Names of files on disk are texts whose meaning lies in their components: the root, a `.` at the very
start, `..`, and names.  Repeated slashes and other `.` say nothing.  Joining keeps both texts as
they are; stripping a leading path compares components and keeps the rest as it is, its ends apart.
-/

namespace BuildTree
namespace Disk

inductive Component
  | root
  | here
  | up
  | name (s : List Char)
  deriving DecidableEq, Repr

def isAbsolute (path : String) : Bool :=
  path.toList.head? == some '/'

/-- Whether a relative path starts with the component `.`. -/
def startsHere : List Char → Bool
  | ['.'] => true
  | '.' :: '/' :: _ => true
  | _ => false

/-- Whether a piece between slashes says nothing: it is empty, or a `.` that is not at the start. -/
def isSilent (piece : List Char) : Bool :=
  piece == [] || piece == ['.']

def componentOf (piece : List Char) : Component :=
  if piece = ['.', '.'] then .up else .name piece

/-- The components of a path behind its start. -/
def bodyComponents (body : List Char) : List Component :=
  ((body.splitOn '/').filter (!isSilent ·)).map componentOf

/-- The component at the start of a path that is the root or `.`, if it has one, and the body. -/
def splitStart (path : List Char) : Option Component × List Char :=
  if path.head? = some '/' then (some .root, path.drop 1)
  else if startsHere path then (some .here, path.drop 1)
  else (none, path)

def components (path : String) : List Component :=
  let (start?, body) := splitStart path.toList
  start?.toList ++ bodyComponents body

/-! ## Joining -/

/-- A path seen from a base: an absolute path stays as it is, and any other is put behind the base
and a slash. -/
def join (base path : String) : String :=
  if isAbsolute path then path
  else if base.toList.getLast?.all (· == '/') then base ++ path
  else base ++ "/" ++ path

/-! ## Stripping -/

/-- A body without the silent pieces at its start. -/
def dropSilent (body : List Char) : List Char :=
  go body.length body
where
  go : Nat → List Char → List Char
    | 0, body => body
    | fuel + 1, body =>
        if body.isEmpty then []
        else if isSilent (body.takeWhile (· != '/')) then
          go fuel ((body.dropWhile (· != '/')).drop 1)
        else body

/-- A body without its first component and one slash behind that. -/
def dropComponent (body : List Char) : List Char :=
  ((dropSilent body).dropWhile (· != '/')).drop 1

/-- A path without the silent pieces at its end, the first `kept` characters apart. -/
def dropSilentEnd (kept : Nat) (path : List Char) : List Char :=
  path.take kept ++ (dropSilent (path.drop kept).reverse).reverse

/-- How many characters of a path are its start. -/
def startLength (path : List Char) : Nat :=
  path.length - (splitStart path).2.length

/-- What is left of a path once a leading path is taken off, if its components come first. -/
def strip (path leading : String) : Option String :=
  let lead := components leading
  if lead = [] then
    some (String.ofList (dropSilentEnd (startLength path.toList) path.toList))
  else if lead.isPrefixOf (components path) then
    let (start?, body) := splitStart path.toList
    let steps := lead.length - start?.toList.length
    let rest := Nat.repeat dropComponent steps body
    some (String.ofList (dropSilentEnd 0 (dropSilent rest)))
  else none

/-- The path without its last component; `none` if it has none to take off. -/
def parent? (path : String) : Option String :=
  let cs := path.toList
  match (components path).getLast? with
  | none => none
  | some .root => none
  | some .here => some ""
  | some _ =>
      let kept := startLength cs
      let trimmed := dropSilentEnd kept cs
      let body := (trimmed.drop kept).reverse
      let before := ((body.dropWhile (· != '/')).drop 1).reverse
      some (String.ofList (dropSilentEnd kept (trimmed.take kept ++ before)))

end Disk
end BuildTree
