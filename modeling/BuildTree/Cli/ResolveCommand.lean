import BuildTree.Build.CompilerView
import BuildTree.Cli.Report

/-!
# The command `resolve`

Assembles the tree of a request without compiling it, and then lists a directory, shows a file, or
does both; if neither is asked for it sums the tree up.  Names are taken as a compiler's.
-/

namespace BuildTree
namespace ResolveCommand

/-- The answer to one question: whether it was found, what is printed, and the messages. -/
structure Answer where
  found : Bool
  output : Bytes
  messages : List String

def Answer.silent : Answer := ⟨true, [], []⟩

/-- Two answers, one behind the other. -/
def Answer.followedBy (first second : Answer) : Answer :=
  ⟨first.found && second.found, first.output ++ second.output, first.messages ++ second.messages⟩

def list (style : Style) (view : CompilerView) (dir : String) : Answer :=
  let noted := style.noticeLines
    ((view.tree.listTrace (CompilerView.rooted dir)).map Notice.trailingSlash)
  match view.childDirectories dir with
  | .ok (some names) => ⟨true, names.flatMap printedLine, noted⟩
  | .ok none => ⟨false, [], noted ++ ["error: no such directory: " ++ dir]⟩
  | .error fault => ⟨false, [], noted ++ ["error: " ++ fault.message]⟩

def cat (view : CompilerView) (file : String) : Answer :=
  match view.read file with
  | .ok (some data) => ⟨true, data, []⟩
  | .ok none => ⟨false, [], ["error: no such file: " ++ file]⟩
  | .error fault => ⟨false, [], ["error: " ++ fault.message]⟩

/-- The warning about a path that two archives provide. -/
def sharedPathLine (c : SharedPath) : String :=
  s!"warning: {c.path} is provided by both {c.shadowed} and {c.winner}; using {c.winner}"

def overview (style : Style) (assembly : Assembly) (dependencyRoot : String) : Answer where
  found := true
  output := if style.verbose then assembly.sources.flatMap (printedLine ·.text) else []
  messages :=
    assembly.sharedPaths.map sharedPathLine ++
      (if style.quiet then []
        else [s!"   Resolved {assembly.sources.length} source(s), " ++
          s!"{assembly.origins.size} file(s) under {dependencyRoot}"])

/-- The answer to what was asked of a tree. -/
def answer (style : Style) (assembly : Assembly) (dependencyRoot : String)
    (listed shown : Option String) : Answer :=
  let view : CompilerView := ⟨assembly.tree⟩
  match listed, shown with
  | none, none => overview style assembly dependencyRoot
  | _, _ =>
      ((listed.map (list style view)).getD .silent).followedBy
        ((shown.map (cat view)).getD .silent)

def run (disk : FileStore) (style : Style) (plan : BuildPlan) (listed shown : Option String) :
    CommandReport :=
  match (BuildCaches.create plan.cache : Except Fault (BuildCaches Unit)) with
  | .error fault => .failure disk [] fault.message
  | .ok caches =>
      let prepared := Assembly.prepare disk caches plan.treeRequest
      let noted := style.noticeLines prepared.notices
      match prepared.result with
      | .error err => .failure disk noted err.message
      | .ok assembly =>
          let given := answer style assembly plan.request.dependencyRoot listed shown
          ⟨if given.found then 0 else 1, given.output, noted ++ given.messages, disk⟩

end ResolveCommand
end BuildTree
