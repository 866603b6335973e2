import BuildTree.Cli.Program
import BuildTree.Proofs.Build.Outcome
import BuildTree.Proofs.Build.Served
import BuildTree.Proofs.Dependency.ImportGraph
import BuildTree.Proofs.Plan.Accepted
import BuildTree.Proofs.Text.Utf8

/-!
# The command `audit` — its verdict is that of a build

A build audits the imports of its compiler with the origins of its assembly; the command reads the
imports from a file and loads nothing but the archives.  A graph survives its text and new caches
show nothing but the disk, so both audit the same imports with the same origins.  The log through
which the findings go on their way to the report keeps all of them and counts the errors.  What is
printed is stated in octets: a finding's line and a line feed behind it.
-/

namespace BuildTree

open LruCache

universe u

/-! ## Findings in a log -/

namespace FindingLog

theorem pending_reportAll (log : FindingLog) (ds : List Finding) :
    (log.reportAll ds).pending = log.pending ++ ds := by
  induction ds generalizing log with
  | nil => exact (List.append_nil _).symm
  | cons d ds ih =>
    have hrest := ih (log.report d)
    rw [report, List.append_assoc] at hrest
    exact hrest

theorem errors_reportAll (log : FindingLog) (ds : List Finding) :
    (log.reportAll ds).errors = log.errors + ds.countP (·.severity.isError) := by
  induction ds generalizing log with
  | nil => rfl
  | cons d ds ih =>
    have hrest : (log.reportAll (d :: ds)).errors =
        (log.report d).errors + ds.countP (·.severity.isError) := ih (log.report d)
    rw [hrest, List.countP_cons]
    simp only [report]
    split <;> omega

/-- A log gives back what was reported to it, and the number of errors. -/
theorem drain_reportAll (ds : List Finding) :
    (empty.reportAll ds).drain = (ds, ⟨[], ds.countP (·.severity.isError)⟩) := by
  rw [drain, pending_reportAll, errors_reportAll, empty, List.nil_append, Nat.zero_add]

end FindingLog

/-! ## New caches -/

section Fresh

variable {disk auditDisk : FileStore} {archives : List DependencyArchive}

/-- New caches show nothing but the disk, so files that are the same are loaded as the same. -/
theorem loadDependencies_of_fresh {first second : DecodedArchives} {m n : Nat}
    (hfirst : Shows first m []) (hsecond : Shows second n [])
    (hread : ∀ archive ∈ archives, disk.read archive.name = auditDisk.read archive.name) :
    (loadDependencies disk first archives).1 = (loadDependencies auditDisk second archives).1 := by
  have hfiles : filesOfAll disk [] archives = filesOfAll auditDisk [] archives := by
    refine mapM_congr_of_mem fun archive hmem => ?_
    have hheld : ArchiveEntries.held [] archive = none := by
      rw [ArchiveEntries.held]
      cases archive.checksum <;> rfl
    rw [hheld]
    simp only [DependencyArchive.filesOf, DependencyArchive.decode, hread archive hmem]
  rw [hfirst.loadDependencies_fst, hsecond.loadDependencies_fst, hfiles]

end Fresh

namespace AuditCommand

variable {σ : Type u}

theorem loadImports_of_render {disk : FileStore} {file : String} {imports : ImportGraph}
    (h : disk.read file = .ok (Bytes.ofString imports.render)) :
    loadImports disk file = .ok imports := by
  have hdecoded : Utf8.decode? (Bytes.ofString imports.render) = some imports.render := by
    rw [Bytes.ofString, Utf8.decode?_flatMap, String.ofList_toList]
  have htext : disk.readText file = .ok imports.render := by
    simp only [FileStore.readText, h, hdecoded]
  simp only [loadImports, htext, imports.parse?_render]

/-- The summary line of a text report. -/
def summaryLine (imports : ImportGraph) (errors warnings : Nat) : String :=
  s!"   Audited {imports.records.length} import(s): {errors} error(s), " ++
    s!"{warnings} warning(s)"

/-- A report has the code that a build with its findings has. -/
theorem report_code (disk : FileStore) (style : Style) (format : FindingForm) (noted : List String)
    (imports : ImportGraph) (found : List Finding) :
    (report disk style format noted imports (FindingLog.empty.reportAll found)).code =
      (BuildStatus.ofAudit found).code := by
  have herrors : decide (0 < found.countP (·.severity.isError)) =
      found.any (·.severity.isError) := by
    rw [Bool.eq_iff_iff, decide_eq_true_iff, List.countP_pos_iff, List.any_eq_true]
  rw [BuildStatus.ofAudit, ← herrors]
  cases format <;> simp only [report, FindingLog.drain_reportAll, FindingLog.hasErrors]

theorem report_json (disk : FileStore) (style : Style) (noted : List String)
    (imports : ImportGraph) (found : List Finding) :
    (report disk style .json noted imports (FindingLog.empty.reportAll found)).output =
      found.flatMap fun d => Bytes.ofString (d.jsonLine ++ "\n") := by
  simp only [report, FindingLog.drain_reportAll, printedLine]

/-- A text report counts every finding once, as an error or as a warning. -/
theorem report_text (disk : FileStore) {style : Style} (hloud : style.quiet = false)
    (noted : List String) (imports : ImportGraph) (found : List Finding) :
    ∃ errors warnings,
      (report disk style .text noted imports (FindingLog.empty.reportAll found)).messages =
        noted ++ found.map (·.terminal style.color) ++ [summaryLine imports errors warnings] ∧
      errors = found.countP (·.severity.isError) ∧ errors + warnings = found.length := by
  -- No more errors are counted than there are findings.
  have hle : found.countP (·.severity.isError) ≤ found.length := List.countP_le_length
  refine ⟨_, found.length - found.countP (·.severity.isError), ?_, rfl, Nat.add_sub_of_le hle⟩
  simp only [report, FindingLog.drain_reportAll, hloud, summaryLine, Bool.false_eq_true, if_false]

/-- The command judges with the origins of an assembly that was loaded from the same archives. -/
theorem exists_report {disk auditDisk : FileStore} {sizes : CacheSection} {caches : BuildCaches σ}
    {plan : BuildPlan} {assembly : Assembly} (hvalid : plan.validate = .ok ())
    (hfresh : BuildCaches.create sizes = .ok caches)
    (hprepared : (Assembly.prepare disk caches plan.treeRequest).result = .ok assembly)
    (harchives : ∀ archive ∈ plan.archives, auditDisk.read archive.name = disk.read archive.name)
    {file : String} {imports : ImportGraph}
    (hfile : auditDisk.read file = .ok (Bytes.ofString imports.render))
    (hmode : plan.audit.mode ≠ .off) (style : Style) :
    ∃ noted, ∀ format, run auditDisk style plan file format =
      report auditDisk style format noted imports
        (FindingLog.empty.reportAll (plan.auditFindings imports assembly.origins)) := by
  rcases Assembly.exists_assemble_of_prepare hprepared with
    ⟨merged, collected, hloaded, -, hassembled⟩
  rcases (BuildPlan.validate_eq_ok_iff.1 hvalid).exists_create with
    ⟨(auditCaches : BuildCaches Unit), hcreate⟩
  -- Neither session holds an archive, so both decode the same files.
  have hload : (loadDependencies auditDisk auditCaches.archives plan.archives).1 = .ok merged := by
    rw [loadDependencies_of_fresh (BuildCaches.shows_of_create hcreate).2
      (BuildCaches.shows_of_create hfresh).2 harchives]
    exact hloaded
  refine ⟨style.noticeLines (merged.sharedPaths.map Notice.sharedPath), fun format => ?_⟩
  simp only [run, if_neg hmode, loadImports_of_render hfile, judge, hcreate, hload,
    (Assembly.assemble_eq_ok hassembled).2.2]

/-- The command and a build agree on the same plan, archives and imports: on the exit code and on
the findings, which are printed in their order, each with a line feed behind it.  No findings go
unaccounted for in the counts of a text report. -/
theorem run_agrees_with_build {disk auditDisk : FileStore} {sizes : CacheSection}
    {caches : BuildCaches σ} {plan : BuildPlan} {compiler : Compiler σ} {assembly : Assembly}
    {output : Compilation} {summary : BuildSummary} {file : String}
    (hvalid : plan.validate = .ok ()) (hfresh : BuildCaches.create sizes = .ok caches)
    (hcompiles : Build.Compiles disk caches plan compiler assembly output)
    (hclean : ∀ d ∈ output.findings, d.severity ≠ .error)
    (hbuild : (Build.run disk caches plan compiler).result = .ok summary)
    (harchives : ∀ archive ∈ plan.archives, auditDisk.read archive.name = disk.read archive.name)
    (hfile : auditDisk.read file = .ok (Bytes.ofString output.imports.render)) (style : Style) :
    (∀ format, (run auditDisk style plan file format).code = summary.status.code) ∧
    (run auditDisk style plan file .json).output =
      summary.audited.flatMap (fun d => Bytes.ofString (d.jsonLine ++ "\n")) ∧
    (plan.audit.mode = .off → (run auditDisk style plan file .json).output = []) ∧
    (plan.audit.mode ≠ .off → style.quiet = false → ∃ noted errors warnings,
      (run auditDisk style plan file .text).messages =
        noted ++ summary.audited.map (·.terminal style.color) ++
          [summaryLine output.imports errors warnings] ∧
      errors = summary.audited.countP (·.severity.isError) ∧
      errors + warnings = summary.audited.length) ∧
    ∀ environment words options format, Command.parse words = .ok (options, .audit file format) →
      loadPlan auditDisk options.planFile = .ok plan →
      Program.run auditDisk environment words =
        run auditDisk (Style.of options environment) plan file format := by
  rcases hcompiles.audited_eq (Compilation.hasErrors_eq_false hclean) hbuild with
    ⟨haudited, hstatus⟩
  have hprogram : ∀ environment words options format,
      Command.parse words = .ok (options, .audit file format) →
      loadPlan auditDisk options.planFile = .ok plan →
      Program.run auditDisk environment words =
        run auditDisk (Style.of options environment) plan file format := by
    intro environment words options format hparse hplan
    simp only [Program.run, hparse, Program.withPlan, hplan]
  by_cases hmode : plan.audit.mode = .off
  · -- Without an audit neither has findings, and the file is not even read.
    have hnone : summary.audited = [] := by
      rw [haudited, BuildPlan.auditFindings, hmode]
    have hcode : summary.status.code = BuildStatus.success.code := by
      rw [hstatus, hnone]
      rfl
    refine ⟨fun format => ?_, ?_, fun _ => ?_, fun hother => absurd hmode hother, hprogram⟩
    · simp only [run, if_pos hmode, hcode]
    · simp only [run, if_pos hmode, hnone, List.flatMap_nil]
    · simp only [run, if_pos hmode]
  · rcases exists_report hvalid hfresh hcompiles.prepared harchives hfile hmode style with
      ⟨noted, hreport⟩
    rw [← haudited] at hreport
    refine ⟨fun format => ?_, ?_, fun hoff => absurd hoff hmode, fun _ hloud => ?_, hprogram⟩
    · rw [hreport, report_code, hstatus]
    · rw [hreport, report_json]
    · rw [hreport]
      exact ⟨noted, report_text auditDisk hloud noted output.imports summary.audited⟩

/-- A plan with two archives, of which one is declared. -/
def undeclaredPlan : BuildPlan where
  request := ⟨"src", ["a.ts"], "/deps", none⟩
  archives := [⟨"lib.tar", none⟩, ⟨"other.tar", none⟩]
  dependencies := [⟨"//other", "other.tar"⟩]

/-- A compiler that imports a file of an archive and one that no archive has. -/
def importingCompiler : Compiler Unit where
  compile _ _ _ sources :=
    .ok (⟨[], [], .ofRecords [("/a.ts", "/deps/b.ts"), ("/a.ts", "/deps/x.ts")]⟩, sources)

/-- The disk of a build. -/
def buildDisk : FileStore :=
  .holding [("a.ts", [1]), ("lib.tar", Tar.archiveOf "b.ts" [7]), ("other.tar", [])]

/-- The same archives beside the imports, without the source. -/
def importsDisk : FileStore :=
  .holding
    [("imports.json", Bytes.ofString
        "\x7b\n  \"/a.ts\": [\n    \"/deps/b.ts\",\n    \"/deps/x.ts\"\n  ]\n\x7d"),
      ("lib.tar", Tar.archiveOf "b.ts" [7]), ("other.tar", [])]

theorem run_agrees_with_build_on_three_findings :
    ∃ (caches : BuildCaches Unit) (summary : BuildSummary),
      undeclaredPlan.validate = .ok () ∧ BuildCaches.create ⟨1, 1⟩ = .ok caches ∧
      (Build.run buildDisk caches undeclaredPlan importingCompiler).result = .ok summary ∧
      summary.status.code = 3 ∧
      ∀ style : Style,
        (run importsDisk style undeclaredPlan "imports.json" .json).code = 3 ∧
        (run importsDisk style undeclaredPlan "imports.json" .json).output =
          Bytes.ofString ((Audit.undeclared "/a.ts" "b.ts" "lib.tar").jsonLine ++ "\n") ++
            Bytes.ofString ((Audit.unowned "/a.ts" "x.ts").jsonLine ++ "\n") ++
              Bytes.ofString ((Audit.unused ⟨"//other", "other.tar"⟩).jsonLine ++ "\n") := by
  have hvalid : undeclaredPlan.validate = .ok () := rfl
  obtain ⟨caches, hcreated, hprepares, hbuilds⟩ : ∃ caches : BuildCaches Unit,
      BuildCaches.create ⟨1, 1⟩ = .ok caches ∧
      (Assembly.prepare buildDisk caches undeclaredPlan.treeRequest).result.map (fun _ => ()) =
        .ok () ∧
      (Build.run buildDisk caches undeclaredPlan importingCompiler).result.map
          (fun summary => (summary.audited, summary.status.code)) =
        .ok ([Audit.undeclared "/a.ts" "b.ts" "lib.tar", Audit.unowned "/a.ts" "x.ts",
          Audit.unused ⟨"//other", "other.tar"⟩], 3) :=
    ⟨_, rfl, by decide +kernel, by decide +kernel⟩
  rcases map_eq_ok_iff.1 hprepares with ⟨assembly, hprepared, -⟩
  rcases map_eq_ok_iff.1 hbuilds with ⟨summary, hbuild, hseen⟩
  rcases Prod.mk.inj hseen with ⟨hfound, hthree⟩
  have hcompiles : Build.Compiles buildDisk caches undeclaredPlan importingCompiler assembly
      ⟨[], [], .ofRecords [("/a.ts", "/deps/b.ts"), ("/a.ts", "/deps/x.ts")]⟩ :=
    ⟨hprepared, _, rfl⟩
  have hclean : ∀ d ∈ ([] : List Finding), d.severity ≠ .error := fun _ hd => by cases hd
  have hread : ∀ archive ∈ undeclaredPlan.archives,
      importsDisk.read archive.name = buildDisk.read archive.name := by
    intro archive hmem
    simp only [undeclaredPlan, List.mem_cons, List.not_mem_nil, or_false] at hmem
    rcases hmem with rfl | rfl <;> rfl
  have htable : importsDisk.read "imports.json" = .ok (Bytes.ofString
      (ImportGraph.ofRecords [("/a.ts", "/deps/b.ts"), ("/a.ts", "/deps/x.ts")]).render) := by
    decide +kernel
  refine ⟨caches, summary, hvalid, hcreated, hbuild, hthree, fun style => ?_⟩
  rcases run_agrees_with_build hvalid hcreated hcompiles hclean hbuild hread htable style with
    ⟨hcode, hprinted, -⟩
  refine ⟨(hcode .json).trans hthree, ?_⟩
  rw [hprinted, hfound, List.flatMap_cons, List.flatMap_cons, List.flatMap_singleton,
    List.append_assoc]

end AuditCommand
end BuildTree
