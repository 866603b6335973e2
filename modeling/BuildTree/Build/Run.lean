import BuildTree.Archive.Output
import BuildTree.Build.Compilation
import BuildTree.Build.Assembly

/-!
# Builds — from a plan to a summary

A build assembles its tree, compiles, writes the artifacts and audits the imports.  An error of the
compiler ends it before anything is written; a file that cannot be written ends it without a
summary.  What a build leaves behind, the caches and the disk, is part of its run whatever became of
it.
-/

namespace BuildTree

universe u

inductive BuildStatus
  | success
  /-- The compiler reported an error. -/
  | compileFailure
  /-- The audit found an error. -/
  | dependencyViolation
  deriving DecidableEq, Repr

def BuildStatus.code : BuildStatus → Nat
  | .success => 0
  | .compileFailure => 1
  | .dependencyViolation => 3

/-- What a build that came to its end has to say. -/
structure BuildSummary where
  status : BuildStatus
  /-- What the compiler reported. -/
  reported : List Finding
  /-- What the audit found. -/
  audited : List Finding
  artifactsWritten : Nat
  sharedPaths : List SharedPath
  deriving DecidableEq

structure BuildRun (σ : Type u) where
  result : Except BuildError BuildSummary
  caches : BuildCaches σ
  disk : FileStore

/-- An error as a warning, and any other finding as it is. -/
def Finding.softened (d : Finding) : Finding :=
  if d.severity = .error then d.withSeverity .warning else d

/-- The findings about the imports of a build, as the mode of its audit reports them. -/
def BuildPlan.auditFindings (plan : BuildPlan) (imports : ImportGraph)
    (origins : Std.ExtTreeMap String String) : List Finding :=
  let findings := Audit.findings plan.request.dependencyRoot plan.dependencies
    plan.audit.exempt imports origins
  match plan.audit.mode with
  | .off => []
  | .warn => findings.map Finding.softened
  | .error => findings

def BuildStatus.ofAudit (audited : List Finding) : BuildStatus :=
  if audited.any (·.severity.isError) then .dependencyViolation else .success

namespace OutputArchive

/-- Writes artifacts in order and closes the archive; after the first that cannot be written, the
others are not. -/
def writeArtifacts (out : OutputArchive) (disk : FileStore) :
    List Artifact → Except FileError Nat × FileStore
  | [] => (.ok out.written, out.close disk)
  | artifact :: rest =>
      match out.writeFile disk artifact.path artifact.data with
      | .error err => (.error err, out.close disk)
      | .ok (out, disk) => out.writeArtifacts disk rest

end OutputArchive

namespace Build

/-- Writes artifacts to an output archive, if there is to be one; the result is their number. -/
def writeOutput (disk : FileStore) (output : Option String) (artifacts : List Artifact) :
    Except FileError Nat × FileStore :=
  match output with
  | none => (.ok 0, disk)
  | some path =>
      match OutputArchive.create disk path with
      | .error err => (.error err, disk)
      | .ok (out, disk) => out.writeArtifacts disk artifacts

def finish (disk : FileStore) (plan : BuildPlan) (assembly : Assembly)
    (output : Compilation) : Except BuildError BuildSummary × FileStore :=
  if output.hasErrors then
    (.ok {
      status := .compileFailure
      reported := output.findings
      audited := []
      artifactsWritten := 0
      sharedPaths := assembly.sharedPaths }, disk)
  else
    match writeOutput disk plan.request.output output.artifacts with
    | (.error err, disk) => (.error (.archive err), disk)
    | (.ok artifactsWritten, disk) =>
        let audited := plan.auditFindings output.imports assembly.origins
        (.ok {
          status := .ofAudit audited
          reported := output.findings
          audited
          artifactsWritten
          sharedPaths := assembly.sharedPaths }, disk)

def run {σ : Type u} (disk : FileStore) (caches : BuildCaches σ) (plan : BuildPlan)
    (compiler : Compiler σ) : BuildRun σ :=
  let prepared := Assembly.prepare disk caches plan.treeRequest
  let caches := prepared.caches
  match prepared.result with
  | .error err => ⟨.error err, caches, disk⟩
  | .ok assembly =>
      match compiler.compile ⟨assembly.tree⟩ assembly.sources plan.compiler.settings
          caches.sources with
      | .error fault => ⟨.error (.fault fault), caches, disk⟩
      | .ok (output, sources) =>
          let (result, disk) := finish disk plan assembly output
          ⟨result, { caches with sources }, disk⟩

end Build
end BuildTree
