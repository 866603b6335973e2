import BuildTree.Path.Basic
import BuildTree.Text.Quoted

/-!
# Faults — broken preconditions

A fault is not an answer: it says that a caller broke a rule that the callee relies on, and it ends
the request.
-/

namespace BuildTree

/-- A precondition that did not hold. -/
inductive Fault
  /-- A set of files was asked for, or built from, a name that does not start with `/`. -/
  | relativeFile (path : String)
  /-- A set of files was asked for a directory name that does not start with `/`. -/
  | relativeDirectory (path : String)
  /-- A tree was to be mounted at a malformed path. -/
  | malformedMountPoint (err : PathError)
  | zeroCapacity
  deriving DecidableEq, Repr

def Fault.message : Fault → String
  | .relativeFile path => "non-absolute file name: " ++ Quoted.quote path
  | .relativeDirectory path => "non-absolute directory name: " ++ Quoted.quote path
  | .malformedMountPoint err => "malformed resolver prefix: " ++ err.message
  | .zeroCapacity => "recency cache capacity must be at least 1"

end BuildTree
