import BuildTree.Cache.Parse
import BuildTree.Tree.Trace

/-!
# Compiler views — a tree as a compiler sees it

The compiler stands at the root of the tree, so a name that does not start with `/` is the name
behind a `/`.  Sources are parsed through a cache, whose keys take names as they were given.
-/

namespace BuildTree

universe u

/-- A tree as a compiler sees it. -/
structure CompilerView where
  tree : FileTree

namespace CompilerView

/-- The directory that names start from. -/
def home : String := Path.root

/-- A name as a path from the root. -/
def rooted (name : String) : String :=
  if Path.isAbsolute name then name else "/" ++ name

def hasFile (view : CompilerView) (name : String) : Except Fault Bool :=
  view.tree.hasFile (rooted name)

def read (view : CompilerView) (name : String) : Except Fault (Option Bytes) :=
  view.tree.read (rooted name)

def readText (view : CompilerView) (name : String) : Except Fault (Option String) :=
  view.tree.readText (rooted name)

def hasDirectory (view : CompilerView) (name : String) : Except Fault Bool :=
  view.tree.hasDirectory (rooted name)

/-- The names of the directories right below a directory. -/
def childDirectories (view : CompilerView) (name : String) : Except Fault (Option (List String)) :=
  view.tree.childDirectories (rooted name)

/-- The parsed form of a file, through a cache; `parse` gets its name and its text. -/
def parsedFile {σ : Type u} (view : CompilerView) (sources : ParseCache σ)
    (name languageVersion : String) (parse : String → String → σ) :
    Except Fault (Option σ × ParseCache σ) :=
  match view.readText name with
  | .error fault => .error fault
  | .ok none => .ok (none, sources)
  | .ok (some text) =>
      let (parsed, sources) :=
        sources.getOrParse name text languageVersion fun _ => parse name text
      .ok (some parsed, sources)

end CompilerView
end BuildTree
