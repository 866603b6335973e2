import BuildTree.Dependency.ImportGraph
import BuildTree.Finding.Basic
import BuildTree.Path.Basic

/-!
# Dependency audit — imports against declarations

A build declares its dependencies as labels for archives.  The audit walks the recorded imports
that lie below the dependency root: a file that no archive provides is unowned, a file from an
archive that no declaration names is undeclared.  Then each declared label that is not exempt, and
of whose archives nothing was imported, is unused.
-/

namespace BuildTree

/-- A label declared for an archive. -/
structure DeclaredDependency where
  label : String
  archive : String
  deriving DecidableEq, Repr

namespace Audit

def undeclaredImport : FindingCode := ⟨.dependency, 1⟩

def unusedDependency : FindingCode := ⟨.dependency, 2⟩

def unownedImport : FindingCode := ⟨.dependency, 3⟩

/-- The report of an import that no archive provides. -/
def unowned (source shown : String) : Finding :=
  (Finding.plain .warning unownedImport
    s!"{source} imports {shown}, which no dependency archive provides").withFile source

/-- The report of an import from an archive that is not declared. -/
def undeclared (source shown archive : String) : Finding :=
  ((Finding.plain .error undeclaredImport
    s!"{source} imports {shown} from {archive}, which is not a declared dependency").withFile
      source).withHelp s!"declare the dependency that provides {archive}"

/-- The report of a declared dependency that nothing imports. -/
def unused (declaration : DeclaredDependency) : Finding :=
  (Finding.plain .error unusedDependency
    s!"unused dependency {declaration.label}").withNote
      s!"nothing imports from {declaration.archive}"

/-- What one record says: a finding, or the archive that was used. -/
inductive Verdict
  | outside
  | finding (d : Finding)
  | used (archive : String)

def judge (root : String) (declared : List DeclaredDependency)
    (origins : Std.ExtTreeMap String String) (record : String × String) : Verdict :=
  match Path.seenFrom? record.2 root with
  | none => .outside
  | some inner =>
      let shown := Text.dropSlashes inner
      match origins[inner]? with
      | none => .finding (unowned record.1 shown)
      | some archive =>
          if declared.any (·.archive == archive) then .used archive
          else .finding (undeclared record.1 shown archive)

/-- The findings about declarations, the reported labels being those to pass over. -/
def unusedFindings (usedLabels exempt : List String) :
    List DeclaredDependency → (reported : List String) → List Finding
  | [], _ => []
  | declaration :: rest, reported =>
      if declaration.label ∈ usedLabels ∨ declaration.label ∈ exempt ∨
          declaration.label ∈ reported then
        unusedFindings usedLabels exempt rest reported
      else
        unused declaration ::
          unusedFindings usedLabels exempt rest (declaration.label :: reported)

/-- The findings about a graph of imports, given which archive each path below the root comes
from. -/
def findings (root : String) (declared : List DeclaredDependency) (exempt : List String)
    (imports : ImportGraph) (origins : Std.ExtTreeMap String String) : List Finding :=
  let verdicts := imports.records.map (judge root declared origins)
  let aboutImports := verdicts.filterMap fun
    | .finding d => some d
    | _ => none
  let usedArchives := verdicts.filterMap fun
    | .used archive => some archive
    | _ => none
  let usedLabels := (declared.filter fun d => d.archive ∈ usedArchives).map (·.label)
  aboutImports ++ unusedFindings usedLabels exempt declared []

end Audit
end BuildTree
