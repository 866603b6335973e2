import BuildTree.Archive.FileError
import BuildTree.Archive.Dependency
import BuildTree.Cache.Lru
import BuildTree.Tar.Unpack

/-!
# Merging dependency archives

A request lists archives, each with a checksum or without.  What an archive with a checksum holds is
kept under the checksum, so it is decoded once for all requests that list it.  A request first looks
up every checksum in list order, then decodes what was not found; only if all of that succeeds is it
kept, again in list order.  The files of all archives are then merged: where two archives have a
path in common the later one wins.
-/

namespace BuildTree

/-- Decoded archives by checksum. -/
abbrev DecodedArchives := LruCache String FileMap

structure SharedPath where
  path : String
  winner : String
  shadowed : String
  deriving DecidableEq, Repr

/-- The merged files of a list of archives. -/
structure MergedArchives where
  files : FileMap
  /-- The archive that each path comes from. -/
  origins : Std.ExtTreeMap String String
  sharedPaths : List SharedPath

namespace MergedArchives

def empty : MergedArchives := ⟨∅, ∅, []⟩

def addFile (archive : String) (merged : MergedArchives) (file : String × Bytes) :
    MergedArchives where
  files := merged.files.insert file.1 file.2
  origins := merged.origins.insert file.1 archive
  sharedPaths :=
    match merged.origins[file.1]? with
    | some previous =>
        if previous = archive then merged.sharedPaths
        else merged.sharedPaths ++ [⟨file.1, archive, previous⟩]
    | none => merged.sharedPaths

/-- The files of an archive merged in, by ascending path. -/
def addArchive (merged : MergedArchives) (archive : String × FileMap) : MergedArchives :=
  archive.2.toList.foldl (addFile archive.1) merged

def merge (archives : List (String × FileMap)) : MergedArchives :=
  archives.foldl addArchive empty

end MergedArchives

namespace DecodedArchives

def defaultCapacity : Nat := 500

/-- Looks up the checksum of an archive, which counts as a use. -/
def probe (cache : DecodedArchives) (archive : DependencyArchive) :
    Option FileMap × DecodedArchives :=
  match archive.checksum with
  | some checksum => cache.get checksum
  | none => (none, cache)

def probeAll (cache : DecodedArchives) :
    List DependencyArchive → List (Option FileMap) × DecodedArchives
  | [] => ([], cache)
  | archive :: rest =>
      let (hit, cache) := cache.probe archive
      let (hits, cache) := cache.probeAll rest
      (hit :: hits, cache)

/-- How many of some archives a cache does not hold, so that they have to be decoded. -/
def missCount (cache : DecodedArchives) (archives : List DependencyArchive) : Nat :=
  ((cache.probeAll archives).1.filter Option.isNone).length

/-- Keeps what was decoded for an archive with a checksum that was not found. -/
def keep (cache : DecodedArchives) (archive : DependencyArchive) (hit : Option FileMap)
    (files : FileMap) : DecodedArchives :=
  match hit, archive.checksum with
  | none, some checksum => (cache.set checksum files).2
  | _, _ => cache

def keepAll (cache : DecodedArchives) :
    List DependencyArchive → List (Option FileMap) → List FileMap → DecodedArchives
  | archive :: archives, hit :: hits, files :: decoded =>
      (cache.keep archive hit files).keepAll archives hits decoded
  | _, _, _ => cache

end DecodedArchives

namespace DependencyArchive

def decode (disk : FileStore) (archive : DependencyArchive) : Except FileError FileMap :=
  match disk.read archive.name with
  | .error cause => .error (.io archive.name cause)
  | .ok bytes =>
      match Tar.unpack bytes with
      | .error cause => .error (.decode archive.name cause)
      | .ok files => .ok files

/-- What an archive holds: what was found for it, or else read from disk. -/
def filesOf (disk : FileStore) (archive : DependencyArchive) :
    Option FileMap → Except FileError FileMap
  | some files => .ok files
  | none => archive.decode disk

/-- What archives hold.  The first archive in list order that cannot be read is the error. -/
def decodeAll (disk : FileStore) :
    List DependencyArchive → List (Option FileMap) → Except FileError (List FileMap)
  | archive :: archives, hit :: hits =>
      match archive.filesOf disk hit with
      | .error err => .error err
      | .ok files =>
          match decodeAll disk archives hits with
          | .error err => .error err
          | .ok rest => .ok (files :: rest)
  | _, _ => .ok []

end DependencyArchive

def loadDependencies (disk : FileStore) (cache : DecodedArchives)
    (archives : List DependencyArchive) : Except FileError MergedArchives × DecodedArchives :=
  let (hits, cache) := cache.probeAll archives
  match DependencyArchive.decodeAll disk archives hits with
  | .error err => (.error err, cache)
  | .ok decoded =>
      (.ok (MergedArchives.merge ((archives.map (·.name)).zip decoded)),
        cache.keepAll archives hits decoded)

end BuildTree
