import BuildTree.Bytes
import BuildTree.Fault
import BuildTree.Text.Summary
import BuildTree.Text.Utf8
import BuildTree.Tree.DirectoryMap

/-!
# File trees — what a compiler can read

A tree answers which files exist, what they hold, which directories exist and which directories
they contain.  There are three kinds: a fixed set of files, a tree mounted at a path, and layers of
which the first that has a file owns it.  A set answers only for absolute names; asking it for
another name is a fault, and so is building it from one.
-/

namespace BuildTree

/-- Files by path, in ascending order. -/
abbrev FileMap := Std.ExtTreeMap String Bytes

/-- The files of a list of pairs; a later pair wins over an earlier one with its path. -/
def FileMap.ofPairs (pairs : List (String × Bytes)) : FileMap :=
  pairs.foldl (fun files entry => files.insert entry.1 entry.2) ∅

/-- A fixed set of files with absolute names, and the directories that they imply. -/
structure FileSet where
  files : FileMap
  directories : DirectoryMap
  absolute : ∀ path ∈ files.keys, Path.isAbsolute path = true
  directories_eq : directories = DirectoryMap.ofFiles files.keys

namespace FileSet

/-- The set of the files of a map; the first name that is not absolute is a fault. -/
def ofFiles (files : FileMap) : Except Fault FileSet :=
  match h : files.keys.find? (fun path => !Path.isAbsolute path) with
  | some path => .error (.relativeFile path)
  | none =>
      .ok ⟨files, DirectoryMap.ofFiles files.keys,
        fun path mem => by simpa using List.find?_eq_none.1 h path mem, rfl⟩

def summary (set : FileSet) : String :=
  Summary.record "SnapshotResolver"
    [("files", toString set.files.size),
      ("directories", toString set.directories.size)]

/-- The contents of a file, whose name has to be absolute. -/
def read (set : FileSet) (path : String) : Except Fault (Option Bytes) :=
  if Path.isAbsolute path then .ok set.files[path]? else .error (.relativeFile path)

/-- The name under which a directory is looked up: one trailing slash does not matter. -/
def listedName (dir : String) : Except Fault String :=
  if Path.isAbsolute dir then .ok ((Path.withoutTrailingSlash? dir).getD dir)
  else .error (.relativeDirectory dir)

def hasDirectory (set : FileSet) (dir : String) : Except Fault Bool :=
  (listedName dir).map set.directories.contains

/-- The names of the directories right below a directory. -/
def list (set : FileSet) (dir : String) : Except Fault (Option (List String)) :=
  (listedName dir).map set.directories.list?

end FileSet

inductive FileTree
  | fileSet (files : FileSet)
  /-- A tree seen under a mount point. -/
  | mounted (mountPoint : TreePath) (inner : FileTree)
  /-- Trees stacked on each other; the first that has a file owns it. -/
  | layered (layers : List FileTree)

namespace FileTree

/-! ## Building -/

def ofFiles (files : FileMap) : Except Fault FileTree :=
  (FileSet.ofFiles files).map .fileSet

/-- A tree mounted at a path, which has to be well formed. -/
def mountAt (mountPoint : String) (inner : FileTree) : Except Fault FileTree :=
  match TreePath.parse mountPoint with
  | .ok path => .ok (.mounted path inner)
  | .error err => .error (.malformedMountPoint err)

/-- The directories that exist because a tree is mounted below them. -/
def mountDirectories (mountPoint : TreePath) : DirectoryMap :=
  DirectoryMap.empty.addDirectory mountPoint.text

/-! ## Files -/

mutual

def hasFile : FileTree → String → Except Fault Bool
  | .fileSet files, path => (files.read path).map Option.isSome
  | .mounted mountPoint inner, path =>
      match Path.seenFrom? path mountPoint.text with
      | none => .ok false
      | some below => inner.hasFile below
  | .layered layers, path => anyHasFile layers path

/-- Whether a file exists in one of the layers. -/
def anyHasFile : List FileTree → String → Except Fault Bool
  | [], _ => .ok false
  | layer :: rest, path =>
      match layer.hasFile path with
      | .error fault => .error fault
      | .ok true => .ok true
      | .ok false => anyHasFile rest path

end

mutual

def read : FileTree → String → Except Fault (Option Bytes)
  | .fileSet files, path => files.read path
  | .mounted mountPoint inner, path =>
      match Path.seenFrom? path mountPoint.text with
      | none => .ok none
      | some below => inner.read below
  | .layered layers, path => readFromOwner layers path

/-- The contents of a file in the first of the layers in which it exists. -/
def readFromOwner : List FileTree → String → Except Fault (Option Bytes)
  | [], _ => .ok none
  | layer :: rest, path =>
      match layer.hasFile path with
      | .error fault => .error fault
      | .ok true => layer.read path
      | .ok false => readFromOwner rest path

end

/-- The contents of a file as text, with U+FFFD for what is not UTF-8. -/
def readText (tree : FileTree) (path : String) : Except Fault (Option String) :=
  (tree.read path).map (·.map Utf8.decodeLossy)

/-! ## Directories -/

mutual

def hasDirectory : FileTree → String → Except Fault Bool
  | .fileSet files, dir => files.hasDirectory dir
  | .mounted mountPoint inner, dir =>
      if (mountDirectories mountPoint).contains dir then .ok true
      else
        match Path.seenFrom? dir mountPoint.text with
        | none => .ok false
        | some below => inner.hasDirectory below
  | .layered layers, dir => anyHasDirectory layers dir

/-- Whether a directory exists in one of the layers. -/
def anyHasDirectory : List FileTree → String → Except Fault Bool
  | [], _ => .ok false
  | layer :: rest, dir =>
      match layer.hasDirectory dir with
      | .error fault => .error fault
      | .ok true => .ok true
      | .ok false => anyHasDirectory rest dir

end

/-- The union of two answers to a listing: unknown only if both are. -/
def unionListing : Option (List String) → Option (List String) → Option (List String)
  | none, other => other
  | some names, none => some names
  | some names, some more => some ((Std.ExtTreeSet.ofList (names ++ more)).toList)

mutual

/-- The names of the directories right below a directory, in ascending order, if it exists. -/
def childDirectories : FileTree → String → Except Fault (Option (List String))
  | .fileSet files, dir => files.list dir
  | .mounted mountPoint inner, dir =>
      -- The mount point is a directory even if the tree below it has none.
      if dir = mountPoint.text then
        match inner.childDirectories Path.root with
        | .error fault => .error fault
        | .ok names? => .ok (some (names?.getD []))
      else
        match (mountDirectories mountPoint).list? dir with
        | some names => .ok (some names)
        | none =>
            match Path.seenFrom? dir mountPoint.text with
            | none => .ok none
            | some below => inner.childDirectories below
  | .layered layers, dir => listLayers layers dir

/-- The union of the listings of those layers in which the directory exists. -/
def listLayers : List FileTree → String → Except Fault (Option (List String))
  | [], _ => .ok none
  | layer :: rest, dir =>
      match layer.hasDirectory dir with
      | .error fault => .error fault
      | .ok false => listLayers rest dir
      | .ok true =>
          match layer.childDirectories dir with
          | .error fault => .error fault
          | .ok names? =>
              match listLayers rest dir with
              | .error fault => .error fault
              | .ok more? => .ok (unionListing names? more?)

end

end FileTree
end BuildTree
