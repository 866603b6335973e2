import BuildTree.Tree.FileTree

/-!
# Traces of directory questions — trailing slashes that were taken off

A set of files notes each directory name that it was asked for with a trailing slash.  The functions
below list those names in the order in which a directory question reaches the sets of a tree; they
follow `hasDirectory` and `childDirectories` question by question.
-/

namespace BuildTree
namespace FileTree

/-- The name a set of files notes, if it was asked with a trailing slash. -/
def notedName (dir : String) : List String :=
  if Path.isAbsolute dir ∧ (Path.withoutTrailingSlash? dir).isSome then [dir] else []

mutual

/-- The names noted while a tree answers whether a directory exists. -/
def existsTrace : FileTree → String → List String
  | .fileSet _, dir => notedName dir
  | .mounted mountPoint inner, dir =>
      if (mountDirectories mountPoint).contains dir then []
      else
        match Path.seenFrom? dir mountPoint.text with
        | none => []
        | some below => inner.existsTrace below
  | .layered layers, dir => anyExistsTrace layers dir

def anyExistsTrace : List FileTree → String → List String
  | [], _ => []
  | layer :: rest, dir =>
      layer.existsTrace dir ++
        match layer.hasDirectory dir with
        | .ok false => anyExistsTrace rest dir
        | _ => []

end

mutual

/-- The names noted while a tree lists a directory. -/
def listTrace : FileTree → String → List String
  | .fileSet _, dir => notedName dir
  | .mounted mountPoint inner, dir =>
      if dir = mountPoint.text then inner.listTrace Path.root
      else if (mountDirectories mountPoint).contains dir then []
      else
        match Path.seenFrom? dir mountPoint.text with
        | none => []
        | some below => inner.listTrace below
  | .layered layers, dir => listLayersTrace layers dir

def listLayersTrace : List FileTree → String → List String
  | [], _ => []
  | layer :: rest, dir =>
      layer.existsTrace dir ++
        (match layer.hasDirectory dir with
          | .ok true => layer.listTrace dir
          | _ => []) ++
        listLayersTrace rest dir

end

end FileTree
end BuildTree
