import BuildTree.FileStore
import BuildTree.Tar.Error
import BuildTree.Zip.Directory

/-!
# File errors — why a request's inputs or outputs fail

Reading dependency archives, sources and source archives, and writing an output archive, all fail
with one of these errors, which name the file concerned.
-/

namespace BuildTree

/-- Why a file of a request cannot be read, decoded or written. -/
inductive FileError
  | io (path : String) (cause : DiskError)
  /-- A dependency archive cannot be read. -/
  | decode (name : String) (cause : TarError)
  /-- A file cannot be put into the output archive. -/
  | encode (name : String) (cause : TarError)
  | sourceArchive (path : String) (cause : ZipError)
  /-- A source has no place in the tree. -/
  | sourcePath (path : String) (cause : PathError)
  deriving DecidableEq, Repr

def FileError.message : FileError → String
  | .io path cause => s!"I/O error at {path}: {cause.message}"
  | .decode name cause => s!"failed to decode archive {name}: {cause.message}"
  | .encode name cause => s!"failed to bundle {name}: {cause.message}"
  | .sourceArchive path cause => s!"failed to read source archive {path}: {cause.message}"
  | .sourcePath path cause =>
      s!"source path {path} cannot be mapped into the virtual tree: {cause.message}"

end BuildTree
