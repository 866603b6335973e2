import BuildTree.Archive.FileError
import BuildTree.Path.Disk
import BuildTree.Tree.FileTree
import BuildTree.Zip.Entry

/-!
# Source files

A source is a file on disk, or a source archive: a zip file of which the entries with certain
extensions count.  A plain source gets its path in the tree from where it lies below the source
root.  Plain sources come first; between plain sources with one path the later one counts, and so it
does between source archives.
-/

namespace BuildTree

def sourceArchiveExtension : String := ".srcjar"

/-- The path in the tree of a source on disk: below the source root if it lies there, with
backslashes as slashes. -/
def sourcePath (path sourceRoot : String) : Except FileError TreePath :=
  let relative := (Disk.strip path sourceRoot).getD path
  let slashed := String.ofList (relative.toList.map fun c => if c = '\\' then '/' else c)
  match TreePath.ofRelative slashed with
  | .ok place => .ok place
  | .error cause => .error (.sourcePath path cause)

namespace SourceArchive

/-- The file that an entry adds to those of a source archive at a path, if it counts. -/
def fileOf (path : String) (extensions : List String) (opened : Except ZipError ZipEntry) :
    Except FileError (Option (TreePath × Bytes)) :=
  match opened with
  | .error cause => .error (.sourceArchive path cause)
  | .ok entry =>
      if !entry.isFile || !extensions.any (Text.endsWith entry.name ·) then .ok none
      else
        match TreePath.ofRelative entry.name with
        | .error cause => .error (.sourcePath (Disk.join path entry.name) cause)
        | .ok place =>
            match entry.contents with
            | .error cause => .error (.sourceArchive path cause)
            | .ok contents => .ok (some (place, contents))

/-- The files that count among the entries of a source archive; a later one wins over an earlier one
with its path. -/
def filesOf (path : String) (extensions : List String) :
    List (Except ZipError ZipEntry) → FileMap → Except FileError FileMap
  | [], files => .ok files
  | opened :: rest, files =>
      match fileOf path extensions opened with
      | .error err => .error err
      | .ok none => filesOf path extensions rest files
      | .ok (some (place, contents)) =>
          filesOf path extensions rest (files.insert place.text contents)

def read (disk : FileStore) (path : String) (extensions : List String) :
    Except FileError FileMap :=
  match disk.find path with
  | .error cause => .error (.io path cause)
  | .ok (_, .directory) => .error (.sourceArchive path .isDirectory)
  | .ok (_, .file bytes) =>
      match Zip.entries bytes with
      | .error cause => .error (.sourceArchive path cause)
      | .ok entries => filesOf path extensions entries ∅

end SourceArchive

structure SourceFiles where
  plain : FileMap
  archived : FileMap
  /-- The paths of all sources: the plain ones in request order, then those of each source archive
  in ascending order. -/
  paths : List TreePath

namespace SourceFiles

/-- The tree of the sources: a plain source wins over one from an archive. -/
def tree (sources : SourceFiles) : Except Fault FileTree :=
  match FileTree.ofFiles sources.plain with
  | .error fault => .error fault
  | .ok plain =>
      match FileTree.ofFiles sources.archived with
      | .error fault => .error fault
      | .ok archived => .ok (.layered [plain, archived])

end SourceFiles

def readPlain (disk : FileStore) (sourceRoot path : String) :
    Except FileError (TreePath × Bytes) :=
  match sourcePath path sourceRoot with
  | .error err => .error err
  | .ok place =>
      match disk.read path with
      | .error cause => .error (.io path cause)
      | .ok data => .ok (place, data)

/-- Source archives read in order, added to the files and paths of those before. -/
def addSourceArchives (disk : FileStore) (extensions : List String) :
    List String → FileMap → List TreePath → Except FileError (FileMap × List TreePath)
  | [], files, paths => .ok (files, paths)
  | path :: rest, files, paths =>
      match SourceArchive.read disk path extensions with
      | .error err => .error err
      | .ok entries =>
          addSourceArchives disk extensions rest
            (entries.toList.foldl (fun files entry => files.insert entry.1 entry.2) files)
            (paths ++ entries.keys.filterMap fun name => (TreePath.parse name).toOption)

/-- Collects the sources of a request; `extensions` are those of the entries that count in source
archives. -/
def collectSources (disk : FileStore) (sources : List String) (sourceRoot : String)
    (extensions : List String) : Except FileError SourceFiles :=
  let isArchive (path : String) := Text.endsWith path sourceArchiveExtension
  match (sources.filter (!isArchive ·)).mapM (readPlain disk sourceRoot) with
  | .error err => .error err
  | .ok plain =>
      match addSourceArchives disk extensions (sources.filter isArchive) ∅ (plain.map (·.1)) with
      | .error err => .error err
      | .ok (archived, paths) =>
          .ok {
            plain := FileMap.ofPairs (plain.map fun (place, data) => (place.text, data))
            archived
            paths }

end BuildTree
