import BuildTree.Archive.Merge
import BuildTree.Path.Basic

/-!
# Notices — remarks on a request that stand in its log

A notice is no finding and changes no answer: it tells whoever reads the log what may be a mistake
in the request.  A line of the log shows its message and then the values it is about.  Controls that
a terminal would follow are made visible in the message; the values stand as they are.
-/

namespace BuildTree

inductive Notice
  /-- Two archives provide a path. -/
  | sharedPath (shared : SharedPath)
  /-- A source hides what dependencies provide at its path. -/
  | sourceUnderRoot (source : TreePath) (dependencyRoot : String)
  /-- A directory was asked for with a slash at its end. -/
  | trailingSlash (dir : String)
  deriving DecidableEq

namespace Notice

def message : Notice → String
  | .sharedPath _ => "dependency path provided by more than one archive"
  | .sourceUnderRoot .. => "source lies under the dependency root"
  | .trailingSlash dir => "trailing slash of directory name: " ++ dir

/-- The values that a notice is about, by name. -/
def fields : Notice → List (String × String)
  | .sharedPath c => [("path", c.path), ("winner", c.winner), ("shadowed", c.shadowed)]
  | .sourceUnderRoot source dependencyRoot =>
      [("source", source.text), ("dependency_root", Quoted.quote dependencyRoot)]
  | .trailingSlash _ => []

/-- The topic of a notice, by which the log is filtered. -/
def topic : Notice → String
  | .sharedPath _ => "vesta_archive::loader"
  | .sourceUnderRoot .. => "vesta_driver::resolve"
  | .trailingSlash _ => "vesta_vfs::snapshot"

def fieldNames (notice : Notice) : List String :=
  "message" :: notice.fields.map (·.1)

/-- How a character of a message stands in the log. -/
def visible (c : Char) : List Char :=
  let n := c.toNat
  if n = 0x07 ∨ n = 0x08 ∨ n = 0x0C ∨ n = 0x1B ∨ n = 0x7F then
    ['\\', 'x', Nat.digitChar (n / 16), Nat.digitChar (n % 16)]
  else if 0x80 ≤ n ∧ n ≤ 0x9F then ['\\', 'u', '\x7b'] ++ Nat.toDigits 16 n ++ ['\x7d']
  else [c]

def shownMessage (notice : Notice) : String :=
  String.ofList (notice.message.toList.flatMap visible)

/-- The line of a log without colours. -/
def plainLine (notice : Notice) : String :=
  " WARN " ++ notice.shownMessage ++
    String.join (notice.fields.map fun (name, value) => " " ++ name ++ "=" ++ value)

/-- The line of a log in colours: the level is yellow, names are slanted and signs faint. -/
def colorLine (notice : Notice) : String :=
  "\x1b[33m WARN\x1b[0m " ++ notice.shownMessage ++
    String.join (notice.fields.map fun (name, value) =>
      " \x1b[3m" ++ name ++ "\x1b[0m\x1b[2m=\x1b[0m" ++ value)

end Notice
end BuildTree
