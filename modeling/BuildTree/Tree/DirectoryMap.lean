import BuildTree.Path.Basic
import Std.Data.ExtTreeMap
import Std.Data.ExtTreeSet

/-!
# Directory maps — the directories that a set of paths implies

A map records directories, each with the names of the directories right below it.  Adding a
directory climbs to the root and stops at the first directory that is already recorded, because its
ancestors are recorded as well.  Paths are not checked here: the climb is the same on any text, and
it ends because a parent is shorter, the empty text apart, whose parent is the root.
-/

namespace BuildTree

/-- Directories, each with the set of names right below it. -/
structure DirectoryMap where
  children : Std.ExtTreeMap String (Std.ExtTreeSet String)

namespace DirectoryMap

def empty : DirectoryMap := ⟨∅⟩

def contains (map : DirectoryMap) (dir : String) : Bool :=
  map.children.contains dir

def size (map : DirectoryMap) : Nat :=
  map.children.size

/-- The names right below a recorded directory, in ascending order. -/
def list? (map : DirectoryMap) (dir : String) : Option (List String) :=
  (map.children[dir]?).map (·.toList)

/-- Records a directory, and below it a name if one is given. -/
def record (map : DirectoryMap) (dir : String) (name? : Option String) : DirectoryMap :=
  let names := (map.children[dir]?).getD ∅
  ⟨map.children.insert dir (match name? with
    | some name => names.insert name
    | none => names)⟩

/-- How many steps a climb from a path can take at most. -/
def climbBound (dir : String) : Nat :=
  dir.toList.length + 2

/-- The climb from a directory that is to be recorded with a name below it, in at most `fuel`
steps. -/
def climb (map : DirectoryMap) : (fuel : Nat) → (dir : String) → (name? : Option String) →
    DirectoryMap
  | 0, _, _ => map
  | fuel + 1, dir, name? =>
      let recorded := map.record dir name?
      if map.contains dir ∨ dir = Path.root then recorded
      else recorded.climb fuel (Path.parent dir) (some (Path.basename dir))

/-- Records a directory and its ancestors. -/
def addDirectory (map : DirectoryMap) (dir : String) : DirectoryMap :=
  map.climb (climbBound dir) dir none

/-- Records the directory of a file and its ancestors. -/
def addFile (map : DirectoryMap) (file : String) : DirectoryMap :=
  map.addDirectory (Path.parent file)

def ofFiles (files : List String) : DirectoryMap :=
  files.foldl addFile empty

end DirectoryMap
end BuildTree
