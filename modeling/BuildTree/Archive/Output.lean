import BuildTree.Archive.FileError
import BuildTree.Tar.Pack

/-!
# Output archives — writing files one after the other

Creating an output archive empties its file.  Fragments are collected in a buffer that goes to disk
when the next one does not fit; finishing, or giving up, writes what is left.
-/

namespace BuildTree

structure OutputArchive where
  path : String
  place : Location
  /-- What is not on disk yet. -/
  pending : Bytes
  written : Nat

namespace OutputArchive

def bufferSize : Nat := 8192

def create (disk : FileStore) (path : String) : Except FileError (OutputArchive × FileStore) :=
  match disk.create path with
  | .error cause => .error (.io path cause)
  | .ok (place, disk) => .ok (⟨path, place, [], 0⟩, disk)

/-- Adds a fragment: to the buffer if it fits, else the buffer goes to disk first, and the fragment
as well if it is no shorter than the buffer. -/
def push (out : OutputArchive) (disk : FileStore) (fragment : Bytes) : OutputArchive × FileStore :=
  let room := bufferSize - out.pending.length
  if fragment.length < room then
    ({ out with pending := out.pending ++ fragment }, disk)
  else
    let (pending, disk) :=
      if room < fragment.length then ([], disk.appendAt out.place out.pending)
      else (out.pending, disk)
    if bufferSize ≤ fragment.length then
      ({ out with pending }, disk.appendAt out.place fragment)
    else ({ out with pending := pending ++ fragment }, disk)

def writeFile (out : OutputArchive) (disk : FileStore) (name : String) (data : Bytes) :
    Except FileError (OutputArchive × FileStore) :=
  match Tar.pack name data with
  | .error cause => .error (.encode name cause)
  | .ok fragment =>
      let (out, disk) := out.push disk fragment
      .ok ({ out with written := out.written + 1 }, disk)

/-- Writes what is left. -/
def close (out : OutputArchive) (disk : FileStore) : FileStore :=
  disk.appendAt out.place out.pending

end OutputArchive
end BuildTree
