import BuildTree.Plan.Decode
import BuildTree.Toml.Parser

/-!
# Loading plans

A plan is loaded from a text, in which file names stay as they are, or from a file, to whose
directory they are relative.
-/

namespace BuildTree
namespace BuildPlan

def fileName : String := "vesta.toml"

/-- The plan that a text holds, if nothing is wrong with it. -/
def parse (text : String) : Except PlanError BuildPlan :=
  match (Toml.parse text).bind ofToml? with
  | none => .error .malformed
  | some plan =>
      match plan.validate with
      | .error err => .error err
      | .ok () => .ok plan

/-- A plan with its file names seen from the directory of its file. -/
def relativeToFile (path : String) (plan : BuildPlan) : BuildPlan :=
  match Disk.parent? path with
  | none => plan
  | some base => if base = "" then plan else plan.relativeTo base

def loadFile (disk : FileStore) (path : String) : Except PlanError BuildPlan :=
  match disk.readText path with
  | .error cause => .error (.unreadable cause)
  | .ok text => (parse text).map (relativeToFile path)

/-- The plan in the plan file of a directory. -/
def loadDirectory (disk : FileStore) (dir : String) : Except PlanError BuildPlan :=
  loadFile disk (Disk.join dir fileName)

end BuildPlan
end BuildTree
