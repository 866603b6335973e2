import BuildTree.Json.Basic
import BuildTree.Path.Basic

/-!
# Tree paths as JSON

A tree path is written as its text; a text that is not well formed is read as nothing.
-/

namespace BuildTree
namespace TreePath

def toJson (path : TreePath) : Json :=
  .string path.text

def ofJson? (value : Json) : Option TreePath :=
  value.string?.bind fun text => (parse text).toOption

end TreePath
end BuildTree
