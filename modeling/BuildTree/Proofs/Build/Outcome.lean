import BuildTree.Proofs.Archive.Loading
import BuildTree.Proofs.Archive.Output
import Mathlib.Data.List.Forall2

/-!
# Outcomes — how a build ends

A build without a tree ends before its compiler starts.  Past that, the findings of the compiler
decide whether anything is written or audited: an error among them leaves the disk as it was, and
otherwise the artifacts are the file of the output, an archive from which they are unpacked, and the
imports are audited in the mode of the plan.  Only the mode in which findings fail a build gives it the status of a violation.
-/

namespace BuildTree

universe u

variable {σ : Type u}

/-! ## Audits in a mode -/

/-- A finding with its severity softened: an error is reported as a warning. -/
structure Finding.Softens (d reported : Finding) : Prop where
  severity : reported.severity = if d.severity = .error then .warning else d.severity
  code : reported.code = d.code
  message : reported.message = d.message
  file : reported.file = d.file
  notes : reported.notes = d.notes
  help : reported.help = d.help

theorem Finding.softens_softened (d : Finding) : d.Softens d.softened := by
  unfold softened
  split
  · rename_i herror
    exact ⟨(if_pos herror).symm, rfl, rfl, rfl, rfl, rfl⟩
  · rename_i hother
    exact ⟨(if_neg hother).symm, rfl, rfl, rfl, rfl, rfl⟩

theorem Finding.Softens.severity_ne_error {d reported : Finding} (h : d.Softens reported) :
    reported.severity ≠ .error := by
  rw [h.severity]
  split
  · decide
  · assumption

/-- What a mode makes of all that an audit finds. -/
def AuditMode.Reports : AuditMode → (found reported : List Finding) → Prop
  | .off, _, reported => reported = []
  | .warn, found, reported => List.Forall₂ Finding.Softens found reported
  | .error, found, reported => reported = found

/-- All that an audit of a plan finds, whatever its mode. -/
def BuildPlan.allFindings (plan : BuildPlan) (imports : ImportGraph)
    (origins : Std.ExtTreeMap String String) : List Finding :=
  Audit.findings plan.request.dependencyRoot plan.dependencies plan.audit.exempt imports origins

namespace BuildPlan

variable {plan : BuildPlan} {imports : ImportGraph} {origins : Std.ExtTreeMap String String}

theorem reports_auditFindings : plan.audit.mode.Reports (plan.allFindings imports origins)
    (plan.auditFindings imports origins) := by
  unfold auditFindings allFindings
  cases plan.audit.mode with
  | off => rfl
  | warn => exact List.forall₂_map_right_iff.2 (List.forall₂_same.2 fun d _ => d.softens_softened)
  | error => rfl

end BuildPlan

theorem Compilation.hasErrors_iff {output : Compilation} :
    output.hasErrors = true ↔ ∃ d ∈ output.findings, d.severity = .error := by
  simp [hasErrors, Severity.isError]

theorem Compilation.hasErrors_eq_false {output : Compilation}
    (h : ∀ d ∈ output.findings, d.severity ≠ .error) : output.hasErrors = false := by
  rw [Bool.eq_false_iff, Ne, hasErrors_iff]
  rintro ⟨d, hd, herror⟩
  exact h d hd herror

theorem BuildStatus.ofAudit_eq_dependencyViolation_iff {audited : List Finding} :
    ofAudit audited = .dependencyViolation ↔ ∃ d ∈ audited, d.severity = .error := by
  simp [ofAudit, Severity.isError]

/-- Only errors in the strictest mode are a violation. -/
theorem AuditMode.Reports.ofAudit_iff {mode : AuditMode} {found reported : List Finding}
    (h : mode.Reports found reported) :
    BuildStatus.ofAudit reported = .dependencyViolation ↔
      mode = .error ∧ ∃ d ∈ found, d.severity = .error := by
  rw [BuildStatus.ofAudit_eq_dependencyViolation_iff]
  cases mode with
  | error =>
    cases h
    simp
  | off =>
    cases h
    simp
  | warn =>
    constructor
    · -- Every finding is the softened form of one.
      rintro ⟨d, hd, herror⟩
      rcases List.mem_iff_getElem.1 hd with ⟨i, hi, rfl⟩
      exact absurd herror
        (List.Forall₂.get h (h.length_eq ▸ hi) hi).severity_ne_error
    · rintro ⟨hmode, -⟩
      cases hmode

/-! ## Output -/

namespace Build

/-- What becomes of artifacts: none is written if there is no file for them, and else all are, as
fragments one after the other. -/
inductive Writes (disk : FileStore) : Option String → List Artifact → Nat → FileStore → Prop
  | nowhere (artifacts : List Artifact) : Writes disk none artifacts 0 disk
  | file {path : String} {place : Location} {artifacts : List Artifact} {fragments : List Bytes}
      (creatable : disk.placeFor path = .ok place)
      (packed : OutputArchive.Packed artifacts fragments) :
      Writes disk (some path) artifacts artifacts.length (disk.putAt place fragments.flatten)

variable {disk after : FileStore} {artifacts : List Artifact} {written : Nat}

theorem Writes.writeOutput_eq {output : Option String}
    (h : Writes disk output artifacts written after) :
    writeOutput disk output artifacts = (.ok written, after) := by
  cases h with
  | nowhere => rfl
  | @file path place artifacts fragments creatable packed =>
    rcases OutputArchive.writeArtifacts_of_create creatable packed with
      ⟨out, now, hcreate, hwritten⟩
    simp only [writeOutput, hcreate, hwritten]

/-- An output that fails to be written does so because of its name or of an artifact. -/
theorem exists_error_of_writeOutput {output : Option String}
    (h : ¬∃ written after, Writes disk output artifacts written after) :
    ∃ cause, (writeOutput disk output artifacts).1 = .error cause := by
  cases output with
  | none => exact absurd ⟨0, disk, .nowhere artifacts⟩ h
  | some path =>
    cases hcreate : OutputArchive.create disk path with
    | error cause => exact ⟨cause, by simp only [writeOutput, hcreate]⟩
    | ok created =>
      rcases created with ⟨out, now⟩
      simp only [writeOutput, hcreate]
      cases hwritten : (out.writeArtifacts now artifacts).1 with
      | error cause => exact ⟨cause, rfl⟩
      | ok count =>
        rcases OutputArchive.exists_packed hwritten with ⟨fragments, hpacked⟩
        exact absurd ⟨_, _, .file (OutputArchive.placeFor_of_create hcreate) hpacked⟩ h

/-- The file of the output is what its name reads, and unpacking it gives plain paths back. -/
theorem Writes.read_eq {path : String} (h : Writes disk (some path) artifacts written after) :
    ∃ fragments, OutputArchive.Packed artifacts fragments ∧ written = artifacts.length ∧
      after.read path = .ok fragments.flatten ∧
      ((∀ artifact ∈ artifacts, Tar.IsPlain artifact.path) →
        fragments.flatten.length ≤ Tar.maxOffset →
        ∃ files : FileMap, Tar.unpack fragments.flatten = .ok files ∧ ∀ name, files[name]? =
          (artifacts.map fun artifact => (artifact.path, artifact.data)).reverse.lookup name) := by
  cases h with
  | file creatable packed =>
    exact ⟨_, packed, rfl, FileStore.read_putAt creatable, packed.exists_unpack⟩

/-! ## Outcomes -/

/-- A build in which a compiler gets to an output. -/
structure Compiles (disk : FileStore) (caches : BuildCaches σ) (plan : BuildPlan)
    (compiler : Compiler σ) (assembly : Assembly) (output : Compilation) : Prop where
  prepared : (Assembly.prepare disk caches plan.treeRequest).result = .ok assembly
  compiled : ∃ sources, compiler.compile ⟨assembly.tree⟩ assembly.sources plan.compiler.settings
    (Assembly.prepare disk caches plan.treeRequest).caches.sources = .ok (output, sources)

variable {caches : BuildCaches σ} {plan : BuildPlan} {compiler : Compiler σ} {assembly : Assembly}
  {output : Compilation}

theorem Compiles.run_eq (h : Compiles disk caches plan compiler assembly output) :
    (run disk caches plan compiler).result = (finish disk plan assembly output).1 ∧
      (run disk caches plan compiler).disk = (finish disk plan assembly output).2 := by
  rcases h with ⟨hprepared, sources, hcompiled⟩
  simp only [run, hprepared, hcompiled, and_self]

/-- An error of the compiler ends a build with the disk as it was. -/
theorem finish_of_errors (herrors : output.hasErrors = true) :
    ∃ summary, finish disk plan assembly output = (.ok summary, disk) ∧
      summary.status = .compileFailure ∧ summary.audited = [] ∧ summary.artifactsWritten = 0 := by
  rw [finish, if_pos herrors]
  exact ⟨_, rfl, rfl, rfl, rfl⟩

theorem finish_of_unwritten (herrors : output.hasErrors = false) {cause : FileError}
    (hfailed : (writeOutput disk plan.request.output output.artifacts).1 = .error cause) :
    (finish disk plan assembly output).1 = .error (.archive cause) := by
  rcases hwritten : writeOutput disk plan.request.output output.artifacts with ⟨result, after⟩
  rw [hwritten] at hfailed
  cases hfailed
  simp only [finish, herrors, hwritten, Bool.false_eq_true, if_false]

theorem finish_of_written (herrors : output.hasErrors = false)
    (hwritten : writeOutput disk plan.request.output output.artifacts = (.ok written, after)) :
    ∃ summary, finish disk plan assembly output = (.ok summary, after) ∧
      summary.artifactsWritten = written ∧
      summary.audited = plan.auditFindings output.imports assembly.origins ∧
      summary.status = .ofAudit summary.audited := by
  simp only [finish, herrors, hwritten]
  exact ⟨_, rfl, rfl, rfl, rfl⟩

/-- A build that comes to its end without an error of its compiler reports its audit. -/
theorem Compiles.audited_eq (h : Compiles disk caches plan compiler assembly output)
    (herrors : output.hasErrors = false) {summary : BuildSummary}
    (hsummary : (run disk caches plan compiler).result = .ok summary) :
    summary.audited = plan.auditFindings output.imports assembly.origins ∧
      summary.status = .ofAudit summary.audited := by
  rw [h.run_eq.1] at hsummary
  rcases hwritten : writeOutput disk plan.request.output output.artifacts with ⟨result, after⟩
  cases result with
  | error cause =>
    rw [finish_of_unwritten herrors (congrArg Prod.fst hwritten)] at hsummary
    cases hsummary
  | ok written =>
    rcases finish_of_written herrors hwritten with ⟨finished, hfinish, -, haudited, hstatus⟩
    rw [hfinish] at hsummary
    cases hsummary
    exact ⟨haudited, hstatus⟩

/-- How a build ends.  Without a tree it ends with the error of its request for one, whatever the
compiler.  An error of the compiler is a failure to compile, and nothing is written or audited.
Else every artifact is in the file of the output, from which plain paths are unpacked as they were,
the audit is reported in the mode of the plan, and an error in it is a violation in the strictest
mode only. -/
theorem run_outcome (disk : FileStore) (caches : BuildCaches σ) (plan : BuildPlan)
    (compiler : Compiler σ) :
    (∀ err, (Assembly.prepare disk caches plan.treeRequest).result = .error err →
      ∀ other : Compiler σ, run disk caches plan other =
        ⟨.error err, (Assembly.prepare disk caches plan.treeRequest).caches, disk⟩) ∧
    ∀ assembly output, Compiles disk caches plan compiler assembly output →
      ((∃ d ∈ output.findings, d.severity = .error) →
        ∃ summary, (run disk caches plan compiler).result = .ok summary ∧
          summary.status = .compileFailure ∧ summary.audited = [] ∧
          summary.artifactsWritten = 0 ∧ (run disk caches plan compiler).disk = disk) ∧
      ((∀ d ∈ output.findings, d.severity ≠ .error) →
        (∀ written after, Writes disk plan.request.output output.artifacts written after →
          ∃ summary, (run disk caches plan compiler).result = .ok summary ∧
            summary.artifactsWritten = written ∧ (run disk caches plan compiler).disk = after ∧
            (plan.request.output = none → written = 0 ∧ after = disk) ∧
            (∀ path, plan.request.output = some path → written = output.artifacts.length ∧
              ∃ fragments, OutputArchive.Packed output.artifacts fragments ∧
                after.read path = .ok fragments.flatten ∧
                ((∀ artifact ∈ output.artifacts, Tar.IsPlain artifact.path) →
                  fragments.flatten.length ≤ Tar.maxOffset →
                  ∃ files : FileMap, Tar.unpack fragments.flatten = .ok files ∧
                    ∀ name, files[name]? = (output.artifacts.map fun artifact =>
                      (artifact.path, artifact.data)).reverse.lookup name)) ∧
            plan.audit.mode.Reports (plan.allFindings output.imports assembly.origins)
              summary.audited ∧
            (summary.status = .dependencyViolation ↔ plan.audit.mode = .error ∧
              ∃ d ∈ plan.allFindings output.imports assembly.origins, d.severity = .error) ∧
            summary.status ≠ .compileFailure) ∧
        ((¬∃ written after, Writes disk plan.request.output output.artifacts written after) →
          ∃ cause, (run disk caches plan compiler).result = .error (.archive cause))) := by
  refine ⟨?_, ?_⟩
  · -- No compiler has a part in a request that fails.
    intro err hfailed other
    simp only [run, hfailed]
  intro assembly output hcompiles
  rcases hcompiles.run_eq with ⟨hresult, hdisk⟩
  rw [hresult, hdisk]
  refine ⟨?_, ?_⟩
  · intro herrors
    rcases finish_of_errors (Compilation.hasErrors_iff.2 herrors) with ⟨summary, hfinish, hsummary⟩
    rw [hfinish]
    exact ⟨summary, rfl, hsummary.1, hsummary.2.1, hsummary.2.2, rfl⟩
  intro hclean
  have herrors := Compilation.hasErrors_eq_false hclean
  refine ⟨?_, ?_⟩
  · intro written after hwrites
    rcases finish_of_written herrors hwrites.writeOutput_eq with
      ⟨summary, hfinish, hwritten, haudited, hstatus⟩
    rw [hfinish]
    -- The status is that of the findings as the mode reports them.
    have hreports : plan.audit.mode.Reports (plan.allFindings output.imports assembly.origins)
        summary.audited := haudited ▸ plan.reports_auditFindings
    refine ⟨summary, rfl, hwritten, rfl, ?_, ?_, hreports, hstatus ▸ hreports.ofAudit_iff, ?_⟩
    · intro hnone
      rw [hnone] at hwrites
      cases hwrites
      exact ⟨rfl, rfl⟩
    · intro path hpath
      rw [hpath] at hwrites
      rcases hwrites.read_eq with ⟨fragments, hpacked, hcount, hread, hunpack⟩
      exact ⟨hcount, fragments, hpacked, hread, hunpack⟩
    · rw [hstatus, BuildStatus.ofAudit]
      split <;> decide
  · intro hunwritten
    rcases exists_error_of_writeOutput hunwritten with ⟨cause, hfailed⟩
    exact ⟨cause, finish_of_unwritten herrors hfailed⟩

/-- A compiler that makes two files of anything, and imports nothing. -/
def twoFileCompiler : Compiler Unit where
  compile _ _ _ sources :=
    .ok (⟨[⟨"/a.js", [1]⟩, ⟨"/b.js", [2]⟩], [], ImportGraph.empty⟩, sources)

/-- A plan with a dependency. -/
def oneDependencyPlan : BuildPlan where
  request := ⟨"src", ["a.ts"], "/deps", some "out.tar"⟩
  archives := [⟨"lib.tar", none⟩]
  dependencies := [⟨"//lib", "lib.tar"⟩]

theorem run_outcome_of_unused_dependency :
    ∃ (caches : BuildCaches Unit) (summary : BuildSummary) (files : FileMap),
      BuildCaches.create ⟨1, 1⟩ = .ok caches ∧
      (run (.holding [("a.ts", [1]), ("lib.tar", [])]) caches oneDependencyPlan
        twoFileCompiler).result = .ok summary ∧
      summary.status = .dependencyViolation ∧ summary.artifactsWritten = 2 ∧
      summary.audited = [Audit.unused ⟨"//lib", "lib.tar"⟩] ∧
      (run (.holding [("a.ts", [1]), ("lib.tar", [])]) caches oneDependencyPlan
        twoFileCompiler).disk.read "out.tar" =
          .ok (Tar.archiveOf "a.js" [1] ++ Tar.archiveOf "b.js" [2]) ∧
      Tar.unpack (Tar.archiveOf "a.js" [1] ++ Tar.archiveOf "b.js" [2]) = .ok files ∧
      files["/a.js"]? = some [1] ∧ files["/b.js"]? = some [2] := by
  obtain ⟨caches, assembly, output, hcreated, houtput, hcompiles⟩ :
      ∃ (caches : BuildCaches Unit) (assembly : Assembly) (output : Compilation),
      BuildCaches.create ⟨1, 1⟩ = .ok caches ∧
      output = ⟨[⟨"/a.js", [1]⟩, ⟨"/b.js", [2]⟩], [], ImportGraph.empty⟩ ∧
      Compiles (.holding [("a.ts", [1]), ("lib.tar", [])]) caches oneDependencyPlan
        twoFileCompiler assembly output :=
    ⟨_, _, _, rfl, rfl, rfl, _, rfl⟩
  subst houtput
  have hfirst : Tar.pack "/a.js" [1] = .ok (Tar.archiveOf "a.js" [1]) := by decide +kernel
  have hsecond : Tar.pack "/b.js" [2] = .ok (Tar.archiveOf "b.js" [2]) := by decide +kernel
  have hwrites : ∃ written after, Writes (.holding [("a.ts", [1]), ("lib.tar", [])])
      (some "out.tar") [⟨"/a.js", [1]⟩, ⟨"/b.js", [2]⟩] written after :=
    ⟨_, _, .file rfl (.cons hfirst (.cons hsecond .nil))⟩
  rcases hwrites with ⟨written, after, hwrites⟩
  rcases (((run_outcome (.holding [("a.ts", [1]), ("lib.tar", [])]) caches oneDependencyPlan
    twoFileCompiler).2 assembly _ hcompiles).2 (by simp)).1 written after hwrites with
    ⟨summary, hresult, hcount, hdisk, -, hfile, haudited, hstatus, -⟩
  rcases hfile "out.tar" rfl with ⟨htwo, fragments, hpacked, hread, hunpack⟩
  -- Packing gives no other fragments.
  obtain rfl : fragments = [Tar.archiveOf "a.js" [1], Tar.archiveOf "b.js" [2]] := by
    rcases List.forall₂_cons_left_iff.1 hpacked with ⟨first, rest, hone, hrest, rfl⟩
    rcases List.forall₂_cons_left_iff.1 hrest with ⟨second, none, htwo, hnone, rfl⟩
    rw [List.forall₂_nil_left_iff.1 hnone, Except.ok.inj (hone.symm.trans hfirst),
      Except.ok.inj (htwo.symm.trans hsecond)]
  have hplain : ∀ artifact ∈ [Artifact.mk "/a.js" [1], ⟨"/b.js", [2]⟩],
      Tar.IsPlain artifact.path := by
    intro artifact hartifact
    simp only [List.mem_cons, List.not_mem_nil, or_false] at hartifact
    rcases hartifact with rfl | rfl <;> exact ⟨by decide, by decide, by decide⟩
  rcases hunpack hplain (by decide +kernel) with ⟨files, hfiles, hheld⟩
  rw [← hdisk, List.flatten_cons, List.flatten_singleton] at hread
  rw [List.flatten_cons, List.flatten_singleton] at hfiles
  refine ⟨caches, summary, files, hcreated, hresult, hstatus.2 ⟨rfl, ?_⟩, hcount.trans htwo,
    haudited, hread, hfiles, hheld "/a.js", hheld "/b.js"⟩
  -- Nothing is imported, so the one dependency is unused.
  exact ⟨Audit.unused ⟨"//lib", "lib.tar"⟩, List.mem_cons_self, rfl⟩

end Build
end BuildTree
