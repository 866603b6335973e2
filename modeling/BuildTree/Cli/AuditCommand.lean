import BuildTree.Build.Run
import BuildTree.Cli.Report
import BuildTree.Finding.Forms
import BuildTree.Finding.Log

/-!
# The command `audit`

Judges a graph of imports that a compiler wrote, as a build that reported those imports would be
judged.  Only the dependency archives are loaded; sources are not read.
-/

namespace BuildTree
namespace AuditCommand

def loadImports (disk : FileStore) (file : String) : Except String ImportGraph :=
  match disk.readText file with
  | .error cause => .error s!"cannot read import table {file}: {cause.message}"
  | .ok text =>
      match ImportGraph.parse? text with
      | none => .error s!"malformed import table {file}: not an object of lists of texts"
      | some imports => .ok imports

def report (disk : FileStore) (style : Style) (format : FindingForm) (noted : List String)
    (imports : ImportGraph) (log : FindingLog) : CommandReport :=
  let (findings, log) := log.drain
  let status : BuildStatus := if log.hasErrors then .dependencyViolation else .success
  match format with
  | .json => ⟨status.code, findings.flatMap (printedLine ·.jsonLine), noted, disk⟩
  | .text =>
      let summary :=
        if style.quiet then []
        else [s!"   Audited {imports.records.length} import(s): {log.errors} error(s), " ++
          s!"{findings.length - log.errors} warning(s)"]
      ⟨status.code, [], noted ++ findings.map (·.terminal style.color) ++ summary, disk⟩

/-- Judges a graph of imports. -/
def judge (disk : FileStore) (style : Style) (plan : BuildPlan) (imports : ImportGraph)
    (format : FindingForm) : CommandReport :=
  match (BuildCaches.create plan.cache : Except Fault (BuildCaches Unit)) with
  | .error fault => .failure disk [] fault.message
  | .ok caches =>
      match (loadDependencies disk caches.archives plan.archives).1 with
      | .error err => .failure disk [] err.message
      | .ok archives =>
          let noted := style.noticeLines (archives.sharedPaths.map Notice.sharedPath)
          report disk style format noted imports
            (FindingLog.empty.reportAll (plan.auditFindings imports archives.origins))

def run (disk : FileStore) (style : Style) (plan : BuildPlan) (file : String)
    (format : FindingForm) : CommandReport :=
  if plan.audit.mode = .off then
    ⟨BuildStatus.success.code, [],
      if style.quiet then [] else ["   Audit disabled by policy"], disk⟩
  else
    match loadImports disk file with
    | .error message => .failure disk [] message
    | .ok imports => judge disk style plan imports format

end AuditCommand
end BuildTree
