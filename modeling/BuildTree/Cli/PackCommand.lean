import BuildTree.Archive.Output
import BuildTree.Archive.SourceFiles
import BuildTree.Cli.Report

/-!
# The command `pack`

Puts files into an archive, each under its path below a directory, so that the archive can be
mounted as a dependency.
-/

namespace BuildTree
namespace PackCommand

def addFile (root : String) (out : OutputArchive) (disk : FileStore) (file : String) :
    Except FileError (OutputArchive × FileStore) :=
  match readPlain disk root file with
  | .error err => .error err
  | .ok (place, data) => out.writeFile disk place.text data

/-- Adds files in order and closes the archive; after the first that cannot be added, the others are
not. -/
def addFiles (root : String) (out : OutputArchive) (disk : FileStore) :
    List String → Except FileError Nat × FileStore
  | [] => (.ok out.written, out.close disk)
  | file :: rest =>
      match addFile root out disk file with
      | .error err => (.error err, out.close disk)
      | .ok (out, disk) => addFiles root out disk rest

def run (disk : FileStore) (style : Style) (output root : String) (files : List String) :
    CommandReport :=
  match OutputArchive.create disk output with
  | .error err => .failure disk [] err.message
  | .ok (out, disk) =>
      match addFiles root out disk files with
      | (.error err, disk) => .failure disk [] err.message
      | (.ok count, disk) =>
          ⟨0, [], if style.quiet then [] else [s!"      Packed {count} file(s) into {output}"],
            disk⟩

end PackCommand
end BuildTree
