import BuildTree.Text.Utf8
import Std.Data.ExtTreeMap

/-!
# File stores — files and directories on disk

A file store is the disk as a value: files and directories by the names that lead to them from the
root, and the working directory, from which relative names start.  A name is followed component by
component; every component but the last has to be a directory, `.` stays and `..` goes back up.
-/

namespace BuildTree

inductive DiskError
  | notFound
  | notADirectory
  | isADirectory
  | nameTooLong
  | nulInName
  /-- A file to be read as text is not UTF-8. -/
  | notText
  deriving DecidableEq, Repr

def DiskError.message : DiskError → String
  | .notFound => "No such file or directory (os error 2)"
  | .notADirectory => "Not a directory (os error 20)"
  | .isADirectory => "Is a directory (os error 21)"
  | .nameTooLong => "File name too long (os error 36)"
  | .nulInName => "file name contained an unexpected NUL byte"
  | .notText => "stream did not contain valid UTF-8"

inductive DiskNode
  | file (data : Bytes)
  | directory
  deriving DecidableEq

/-- A place on disk: the names that lead to it from the root. -/
abbrev Location := List String

structure FileStore where
  workingDirectory : Location
  nodes : Std.ExtTreeMap Location DiskNode

namespace FileStore

def maxComponent : Nat := 255

def maxName : Nat := 4095

/-- The disk with nothing but the directories that lead to the working directory. -/
def empty (workingDirectory : Location) : FileStore where
  workingDirectory
  nodes := (List.range (workingDirectory.length + 1)).foldl
    (fun nodes depth => nodes.insert (workingDirectory.take depth) .directory) ∅

def workingName (store : FileStore) : String :=
  if store.workingDirectory = [] then "/"
  else String.join (store.workingDirectory.map ("/" ++ ·))

/-- What is at a place; the root is always a directory. -/
def node? (store : FileStore) (location : Location) : Option DiskNode :=
  if location = [] then some .directory else store.nodes[location]?

/-! ## Following names -/

structure Name where
  start : Location
  components : List String
  /-- Whether a slash at the end asks for a directory. -/
  wantsDirectory : Bool

def parseName (store : FileStore) (name : String) : Except DiskError Name :=
  let cs := name.toList
  if cs = [] then .error .notFound
  else if '\x00' ∈ cs then .error .nulInName
  else if maxName < (Bytes.ofString name).length then .error .nameTooLong
  else .ok {
    start := if cs.head? = some '/' then [] else store.workingDirectory
    components := ((cs.splitOn '/').filter (· ≠ [])).map String.ofList
    wantsDirectory := cs.getLast? == some '/' }

/-- One component further from a place, which has to be a directory. -/
def step (store : FileStore) (location : Location) (component : String) :
    Except DiskError Location :=
  match store.node? location with
  | none => .error .notFound
  | some (.file _) => .error .notADirectory
  | some .directory =>
      if component = "." then .ok location
      else if component = ".." then .ok location.dropLast
      else if maxComponent < (Bytes.ofString component).length then .error .nameTooLong
      else .ok (location ++ [component])

/-- The place that components lead to. -/
def follow (store : FileStore) (location : Location) (components : List String) :
    Except DiskError Location :=
  components.foldlM store.step location

/-- The place that a name leads to and what is there. -/
def find (store : FileStore) (name : String) : Except DiskError (Location × DiskNode) := do
  let parsed ← store.parseName name
  let location ← store.follow parsed.start parsed.components
  match store.node? location with
  | none => throw .notFound
  | some (.file data) =>
      if parsed.wantsDirectory then throw .notADirectory else pure (location, .file data)
  | some .directory => pure (location, .directory)

/-! ## Reading -/

def isDirectory (store : FileStore) (name : String) : Bool :=
  match store.find name with
  | .ok (_, .directory) => true
  | _ => false

def read (store : FileStore) (name : String) : Except DiskError Bytes :=
  match store.find name with
  | .error err => .error err
  | .ok (_, .file data) => .ok data
  | .ok (_, .directory) => .error .isADirectory

/-- The contents of a file that has to be text. -/
def readText (store : FileStore) (name : String) : Except DiskError String :=
  match store.read name with
  | .error err => .error err
  | .ok data =>
      match Utf8.decode? data with
      | some text => .ok text
      | none => .error .notText

/-! ## Writing -/

/-- The place at which a file of a name is or can be created. -/
def placeFor (store : FileStore) (name : String) : Except DiskError Location := do
  let parsed ← store.parseName name
  match parsed.components.getLast? with
  | none => throw .isADirectory
  | some last =>
      let directory ← store.follow parsed.start parsed.components.dropLast
      let location ← store.step directory last
      if parsed.wantsDirectory then throw .isADirectory
      match store.node? location with
      | some .directory => throw .isADirectory
      | _ => pure location

def putAt (store : FileStore) (location : Location) (data : Bytes) : FileStore :=
  { store with nodes := store.nodes.insert location (.file data) }

def readAt (store : FileStore) (location : Location) : Bytes :=
  match store.node? location with
  | some (.file data) => data
  | _ => []

def appendAt (store : FileStore) (location : Location) (data : Bytes) : FileStore :=
  store.putAt location (store.readAt location ++ data)

/-- Creates an empty file, or empties the file of that name; the result is its place. -/
def create (store : FileStore) (name : String) : Except DiskError (Location × FileStore) :=
  (store.placeFor name).map fun location => (location, store.putAt location [])

/-- The place that components lead to when missing directories are made. -/
def makeDirectories (store : FileStore) : Location → List String → FileStore × Location
  | location, [] => (store, location)
  | location, component :: rest =>
      if component = "." then store.makeDirectories location rest
      else if component = ".." then store.makeDirectories location.dropLast rest
      else
        let location := location ++ [component]
        let store := match store.node? location with
          | some _ => store
          | none => { store with nodes := store.nodes.insert location .directory }
        store.makeDirectories location rest

/-- Writes a file with the directories that lead to it; a name with a slash at its end makes that
directory. -/
def write (store : FileStore) (name : String) (data : Bytes) : FileStore :=
  match store.parseName name with
  | .error _ => store
  | .ok parsed =>
      if parsed.wantsDirectory then (store.makeDirectories parsed.start parsed.components).1
      else
        match parsed.components.getLast? with
        | none => store
        | some last =>
            let (store, directory) :=
              store.makeDirectories parsed.start parsed.components.dropLast
            match store.step directory last with
            | .ok location => store.putAt location data
            | .error _ => store

def remove (store : FileStore) (name : String) : FileStore :=
  match store.find name with
  | .ok (location, .file _) => { store with nodes := store.nodes.erase location }
  | _ => store

end FileStore
end BuildTree
