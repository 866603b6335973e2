import BuildTree.Dependency.Audit
import Mathlib.Data.List.Forall2
import Mathlib.Data.List.ReduceOption

/-!
# Audits — what the findings of an audit say

A record has at most one finding, which depends on nothing but where its import comes from and which
archives are declared.  A label is unused if it is not exempt and no record below the root comes
from an archive that it is declared for.  An audit reports the records in their order and then the
first declaration of every unused label, so it has nothing to report just if all imports are
declared and all declarations are used.  What it reports is written out with severity, code and
texts, apart from the functions that make them.
-/

namespace BuildTree
namespace Audit

/-! ## Origins and declarations -/

/-- The archive of an import below the root, if any archive provides it. -/
def originOf? (root : String) (origins : Std.ExtTreeMap String String) (imported : String) :
    Option String :=
  (Path.seenFrom? imported root).bind (origins[·]?)

def IsDeclared (declared : List DeclaredDependency) (archive : String) : Prop :=
  ∃ declaration ∈ declared, declaration.archive = archive

/-- A label of which an import below the root comes from a declared archive. -/
def IsUsed (root : String) (declared : List DeclaredDependency) (imports : ImportGraph)
    (origins : Std.ExtTreeMap String String) (label : String) : Prop :=
  ∃ declaration ∈ declared, declaration.label = label ∧
    ∃ record ∈ imports.records, originOf? root origins record.2 = some declaration.archive

instance (root : String) (declared : List DeclaredDependency) (imports : ImportGraph)
    (origins : Std.ExtTreeMap String String) (label : String) :
    Decidable (IsUsed root declared imports origins label) :=
  inferInstanceAs (Decidable (∃ declaration ∈ declared, _ ∧ ∃ record ∈ imports.records, _))

/-- The declarations without those whose label was declared before. -/
def firstDeclarations : List DeclaredDependency → List DeclaredDependency
  | [] => []
  | declaration :: rest =>
      declaration :: (firstDeclarations rest).filter (·.label ≠ declaration.label)

/-- What there is to report about a record, a source and its import: a warning if no archive has
the import, an error if one has it that is not declared, and else nothing. -/
inductive Reports (root : String) (declared : List DeclaredDependency)
    (origins : Std.ExtTreeMap String String) : String × String → Option Finding → Prop
  | outside {source imported : String} (beside : Path.seenFrom? imported root = none) :
      Reports root declared origins (source, imported) none
  | unowned {source imported inner : String} (below : Path.seenFrom? imported root = some inner)
      (missing : origins[inner]? = none) :
      Reports root declared origins (source, imported) (some {
        severity := .warning
        code := ⟨.dependency, 3⟩
        message := source ++ " imports " ++ Text.dropSlashes inner ++
          ", which no dependency archive provides"
        file := some source
        notes := []
        help := [] })
  | undeclared {source imported inner archive : String}
      (below : Path.seenFrom? imported root = some inner) (origin : origins[inner]? = some archive)
      (unnamed : ¬IsDeclared declared archive) :
      Reports root declared origins (source, imported) (some {
        severity := .error
        code := ⟨.dependency, 1⟩
        message := source ++ " imports " ++ Text.dropSlashes inner ++ " from " ++ archive ++
          ", which is not a declared dependency"
        file := some source
        notes := []
        help := ["declare the dependency that provides " ++ archive] })
  | declared {source imported inner archive : String}
      (below : Path.seenFrom? imported root = some inner) (origin : origins[inner]? = some archive)
      (named : IsDeclared declared archive) :
      Reports root declared origins (source, imported) none

/-- What there is to report about a declaration of an unused label. -/
def unusedReport (declaration : DeclaredDependency) : Finding where
  severity := .error
  code := ⟨.dependency, 2⟩
  message := "unused dependency " ++ declaration.label
  file := none
  notes := ["nothing imports from " ++ declaration.archive]
  help := []

/-- A finding with one of the codes of an audit, as it is printed, and the severity of the code. -/
def HasAuditCode (d : Finding) : Prop :=
  (d.severity = .error ∧ (d.code.text = "D001" ∨ d.code.text = "D002")) ∨
    (d.severity = .warning ∧ d.code.text = "D003")

/-! ## Records -/

/-- The finding of a verdict. -/
def Verdict.finding? : Verdict → Option Finding
  | .finding d => some d
  | _ => none

/-- The archive that a verdict counts as used. -/
def Verdict.used? : Verdict → Option String
  | .used archive => some archive
  | _ => none

section Records

variable {root : String} {declared : List DeclaredDependency} {exempt : List String}
  {imports : ImportGraph} {origins : Std.ExtTreeMap String String} {record : String × String}
  {archive : String}

theorem any_archive_iff :
    declared.any (·.archive == archive) = true ↔ IsDeclared declared archive := by
  simp [IsDeclared]

theorem reports_judge (root : String) (declared : List DeclaredDependency)
    (origins : Std.ExtTreeMap String String) (record : String × String) :
    Reports root declared origins record (judge root declared origins record).finding? := by
  rcases record with ⟨source, imported⟩
  unfold judge
  split
  · rename_i beside
    exact Reports.outside beside
  · rename_i inner below
    dsimp only
    split
    · rename_i missing
      exact Reports.unowned below missing
    · rename_i archive origin
      split
      · rename_i named
        exact Reports.declared below origin (any_archive_iff.1 named)
      · rename_i unnamed
        exact Reports.undeclared below origin fun named => unnamed (any_archive_iff.2 named)

theorem text_undeclaredImport : undeclaredImport.text = "D001" := by
  decide

theorem text_unusedDependency : unusedDependency.text = "D002" := by
  decide

theorem text_unownedImport : unownedImport.text = "D003" := by
  decide

theorem Reports.hasAuditCode {finding : Finding}
    (h : Reports root declared origins record (some finding)) : HasAuditCode finding := by
  cases h with
  | unowned below missing => exact Or.inr ⟨rfl, text_unownedImport⟩
  | undeclared below origin unnamed => exact Or.inl ⟨rfl, Or.inl text_undeclaredImport⟩

theorem hasAuditCode_unusedReport (declaration : DeclaredDependency) :
    HasAuditCode (unusedReport declaration) :=
  Or.inl ⟨rfl, Or.inr text_unusedDependency⟩

theorem used?_judge_eq_some_iff :
    (judge root declared origins record).used? = some archive ↔
      originOf? root origins record.2 = some archive ∧ IsDeclared declared archive := by
  rcases record with ⟨source, imported⟩
  unfold judge originOf?
  split
  · rename_i beside
    simp [Verdict.used?, beside]
  · rename_i inner below
    simp only [below, Option.bind_some]
    split
    · rename_i missing
      simp [Verdict.used?, missing]
    · rename_i origin horigin
      rw [horigin, Option.some_inj]
      split
      · rename_i named
        constructor
        · intro h
          obtain rfl : origin = archive := Option.some.inj h
          exact ⟨rfl, any_archive_iff.1 named⟩
        · rintro ⟨rfl, -⟩
          rfl
      · rename_i unnamed
        constructor
        · intro h
          cases h
        · rintro ⟨rfl, named⟩
          exact absurd (any_archive_iff.2 named) unnamed

/-- An import that has an origin is put down to it: as used if the archive is declared, and as
undeclared if not. -/
theorem judge_of_origin {inner : String} (below : Path.seenFrom? record.2 root = some inner)
    (origin : origins[inner]? = some archive) :
    (IsDeclared declared archive ∧ judge root declared origins record = .used archive) ∨
      (¬IsDeclared declared archive ∧ judge root declared origins record =
        .finding (undeclared record.1 (Text.dropSlashes inner) archive)) := by
  rw [← any_archive_iff]
  simp only [judge, below, origin]
  split
  · rename_i named
    exact Or.inl ⟨named, rfl⟩
  · rename_i unnamed
    exact Or.inr ⟨unnamed, rfl⟩

/-- Nothing is reported about a record just if its import lies beside the root or comes from a
declared archive. -/
theorem Reports.eq_none_iff {report : Option Finding}
    (h : Reports root declared origins record report) :
    report = none ↔ ∀ inner, Path.seenFrom? record.2 root = some inner →
      ∃ archive, origins[inner]? = some archive ∧ IsDeclared declared archive := by
  cases h with
  | outside beside =>
    simp [beside]
  | unowned below missing =>
    simp [below, missing]
  | undeclared below origin unnamed =>
    simp [below, origin, unnamed]
  | declared below origin named =>
    simp [below, origin, named]

theorem findings_eq_append (root : String) (declared : List DeclaredDependency)
    (exempt : List String) (imports : ImportGraph) (origins : Std.ExtTreeMap String String) :
    findings root declared exempt imports origins =
      (imports.records.map (judge root declared origins)).filterMap Verdict.finding? ++
        unusedFindings
          ((declared.filter fun declaration => declaration.archive ∈
            (imports.records.map (judge root declared origins)).filterMap Verdict.used?).map
              (·.label))
          exempt declared [] :=
  rfl

/-- The labels that the used archives are declared under are the labels that are used. -/
theorem mem_usedLabels_iff {label : String} :
    label ∈ (declared.filter fun declaration => declaration.archive ∈
        (imports.records.map (judge root declared origins)).filterMap Verdict.used?).map (·.label) ↔
      IsUsed root declared imports origins label := by
  have hused : ∀ declaration ∈ declared, (declaration.archive ∈
        (imports.records.map (judge root declared origins)).filterMap Verdict.used? ↔
      ∃ record ∈ imports.records, originOf? root origins record.2 = some declaration.archive) := by
    intro declaration hdeclared
    rw [List.filterMap_map, List.mem_filterMap]
    refine exists_congr fun record => and_congr_right fun _ => ?_
    rw [Function.comp_apply, used?_judge_eq_some_iff]
    -- The archive is declared by the declaration itself.
    exact and_iff_left ⟨declaration, hdeclared, rfl⟩
  rw [List.mem_map]
  constructor
  · rintro ⟨declaration, hmem, hlabel⟩
    rcases List.mem_filter.1 hmem with ⟨hdeclared, harchive⟩
    exact ⟨declaration, hdeclared, hlabel,
      (hused declaration hdeclared).1 (of_decide_eq_true harchive)⟩
  · rintro ⟨declaration, hdeclared, hlabel, hrecord⟩
    have harchive := (hused declaration hdeclared).2 hrecord
    exact ⟨declaration, List.mem_filter.2 ⟨hdeclared, decide_eq_true harchive⟩, hlabel⟩

end Records

/-! ## Declarations -/

section Declarations

variable {declared : List DeclaredDependency} {label : String}

theorem mem_labels_firstDeclarations :
    label ∈ (firstDeclarations declared).map (·.label) ↔ label ∈ declared.map (·.label) := by
  induction declared with
  | nil => rfl
  | cons declaration rest ih =>
    rw [firstDeclarations, List.map_cons, List.map_cons, List.mem_cons, List.mem_cons, ← ih]
    by_cases hlabel : label = declaration.label
    · exact iff_of_true (Or.inl hlabel) (Or.inl hlabel)
    · -- Another label stays when those with the label of the declaration are left out.
      refine or_congr_right ?_
      simp only [List.mem_map, List.mem_filter, decide_eq_true_eq]
      constructor
      · rintro ⟨other, ⟨hother, -⟩, rfl⟩
        exact ⟨other, hother, rfl⟩
      · rintro ⟨other, hother, rfl⟩
        exact ⟨other, ⟨hother, hlabel⟩, rfl⟩

theorem nodup_labels_firstDeclarations (declared : List DeclaredDependency) :
    ((firstDeclarations declared).map (·.label)).Nodup := by
  induction declared with
  | nil => exact List.nodup_nil
  | cons declaration rest ih =>
    rw [firstDeclarations, List.map_cons, List.nodup_cons]
    constructor
    · intro hmem
      rcases List.mem_map.1 hmem with ⟨other, hother, hlabel⟩
      exact of_decide_eq_true (List.mem_filter.1 hother).2 hlabel
    · exact ih.sublist (List.filter_sublist.map _)

/-- Passing over the labels that were reported is the same as keeping first declarations only. -/
theorem unusedFindings_eq (used exempt : List String) (declared : List DeclaredDependency)
    (reported : List String) :
    unusedFindings used exempt declared reported =
      ((firstDeclarations declared).filter fun declaration =>
        declaration.label ∉ used ∧ declaration.label ∉ exempt ∧
          declaration.label ∉ reported).map unused := by
  -- By induction for all lists of reported labels at once, since a report adds its label.
  induction declared generalizing reported with
  | nil => rfl
  | cons declaration rest ih =>
    rw [unusedFindings, firstDeclarations]
    split
    · rename_i hpass
      rw [ih, List.filter_cons_of_neg (by simpa using by tauto), List.filter_filter]
      refine congrArg (List.map unused) (List.filter_congr fun other _ => ?_)
      rw [← Bool.decide_and, decide_eq_decide]
      -- A label that is not passed over differs from one that is.
      refine ⟨fun hother => ⟨hother, fun heq => ?_⟩, And.left⟩
      rw [heq] at hother
      tauto
    · rename_i hreport
      rw [ih, List.filter_cons_of_pos (by simpa using by tauto), List.filter_filter, List.map_cons]
      refine congrArg (List.cons _) (congrArg (List.map unused) ?_)
      refine List.filter_congr fun other _ => ?_
      rw [← Bool.decide_and, decide_eq_decide, List.mem_cons]
      tauto

theorem unused_eq_unusedReport : unused = unusedReport :=
  rfl

end Declarations

/-! ## Findings -/

section Findings

variable (root : String) (declared : List DeclaredDependency) (exempt : List String)
  (imports : ImportGraph) (origins : Std.ExtTreeMap String String)

/-- The first declaration of each label that is unused and not exempt. -/
def unusedDeclarations : List DeclaredDependency :=
  (firstDeclarations declared).filter fun declaration =>
    ¬IsUsed root declared imports origins declaration.label ∧ declaration.label ∉ exempt

theorem findings_eq :
    findings root declared exempt imports origins =
      (imports.records.map fun record =>
          (judge root declared origins record).finding?).reduceOption ++
        (unusedDeclarations root declared exempt imports origins).map unusedReport := by
  rw [findings_eq_append, unusedFindings_eq, unused_eq_unusedReport]
  refine congrArg₂ (· ++ ·) ?_ (congrArg (List.map unusedReport) ?_)
  · rw [List.reduceOption, List.filterMap_map, List.filterMap_map]
    rfl
  · refine List.filter_congr fun declaration _ => ?_
    simp only [mem_usedLabels_iff, List.not_mem_nil, not_false_eq_true, and_true]

theorem nodup_labels_unusedDeclarations :
    ((unusedDeclarations root declared exempt imports origins).map (·.label)).Nodup :=
  (nodup_labels_firstDeclarations declared).sublist (List.filter_sublist.map _)

theorem mem_labels_unusedDeclarations {label : String} :
    label ∈ (unusedDeclarations root declared exempt imports origins).map (·.label) ↔
      label ∈ declared.map (·.label) ∧ label ∉ exempt ∧
        ¬IsUsed root declared imports origins label := by
  rw [← @mem_labels_firstDeclarations declared label]
  simp only [unusedDeclarations, List.mem_map, List.mem_filter, decide_eq_true_eq]
  constructor
  · rintro ⟨declaration, ⟨hfirst, hunused, hexempt⟩, rfl⟩
    exact ⟨⟨declaration, hfirst, rfl⟩, hexempt, hunused⟩
  · rintro ⟨⟨declaration, hfirst, rfl⟩, hexempt, hunused⟩
    exact ⟨declaration, ⟨hfirst, hunused, hexempt⟩, rfl⟩

/-- A finding is about a record, or about a label that is not used. -/
theorem mem_findings_iff {finding : Finding} :
    finding ∈ findings root declared exempt imports origins ↔
      (∃ record ∈ imports.records, (judge root declared origins record).finding? = some finding) ∨
        ∃ declaration ∈ unusedDeclarations root declared exempt imports origins,
          unusedReport declaration = finding := by
  rw [findings_eq, List.mem_append, List.reduceOption_mem_iff, List.mem_map, List.mem_map]

theorem exists_record_of_unownedImport {finding : Finding}
    (h : finding ∈ findings root declared exempt imports origins)
    (hcode : finding.code = unownedImport) :
    ∃ record ∈ imports.records, ∃ inner, Path.seenFrom? record.2 root = some inner ∧
      origins[inner]? = none ∧ finding = unowned record.1 (Text.dropSlashes inner) := by
  rcases (mem_findings_iff root declared exempt imports origins).1 h with
    ⟨record, hrecord, hreport⟩ | ⟨declaration, -, rfl⟩
  · have hreports := reports_judge root declared origins record
    rw [hreport] at hreports
    cases hreports with
    | unowned below missing => exact ⟨_, hrecord, _, below, missing, rfl⟩
    | undeclared below origin unnamed => cases hcode
  · cases hcode

theorem hasAuditCode_of_mem_findings {finding : Finding}
    (h : finding ∈ findings root declared exempt imports origins) : HasAuditCode finding := by
  rcases (mem_findings_iff root declared exempt imports origins).1 h with
    ⟨record, -, hreport⟩ | ⟨declaration, -, rfl⟩
  · exact (hreport ▸ reports_judge root declared origins record).hasAuditCode
  · exact hasAuditCode_unusedReport declaration

/-- An audit reports the records in their order, an import without an archive as the warning D003
and one from an archive that is not declared as the error D001, and then each unused label that is
not exempt as the error D002, once and in the order of first declaration.  So it finds nothing just
if every import below the root comes from a declared archive and every label that is not exempt is
used. -/
theorem findings_exact :
    (∃ reports, List.Forall₂ (Reports root declared origins) imports.records reports ∧
      findings root declared exempt imports origins =
        reports.reduceOption ++
          (unusedDeclarations root declared exempt imports origins).map unusedReport) ∧
    (∀ finding ∈ findings root declared exempt imports origins, HasAuditCode finding) ∧
    ((unusedDeclarations root declared exempt imports origins).map (·.label)).Nodup ∧
    (∀ label, label ∈ (unusedDeclarations root declared exempt imports origins).map (·.label) ↔
      label ∈ declared.map (·.label) ∧ label ∉ exempt ∧
        ¬IsUsed root declared imports origins label) ∧
    (findings root declared exempt imports origins = [] ↔
      (∀ record ∈ imports.records, ∀ inner, Path.seenFrom? record.2 root = some inner →
        ∃ archive, origins[inner]? = some archive ∧ IsDeclared declared archive) ∧
      ∀ label ∈ declared.map (·.label), label ∉ exempt →
        IsUsed root declared imports origins label) := by
  refine ⟨⟨_, ?_, findings_eq root declared exempt imports origins⟩,
    fun finding => hasAuditCode_of_mem_findings root declared exempt imports origins,
    nodup_labels_unusedDeclarations root declared exempt imports origins,
    fun label => mem_labels_unusedDeclarations root declared exempt imports origins, ?_⟩
  · rw [List.forall₂_map_right_iff, List.forall₂_same]
    exact fun record _ => reports_judge root declared origins record
  · rw [findings_eq, List.append_eq_nil_iff]
    refine and_congr ?_ ?_
    · -- Each record has to be one about which there is nothing to report.
      rw [List.reduceOption, List.filterMap_map, List.filterMap_eq_nil_iff]
      refine forall₂_congr fun record _ => ?_
      exact (reports_judge root declared origins record).eq_none_iff
    · have hnil : (unusedDeclarations root declared exempt imports origins).map unusedReport = [] ↔
          ∀ label, label ∉
            (unusedDeclarations root declared exempt imports origins).map (·.label) := by
        rw [List.map_eq_nil_iff, ← List.map_eq_nil_iff (f := (·.label)),
          List.eq_nil_iff_forall_not_mem]
      rw [hnil]
      refine forall_congr' fun label => ?_
      rw [mem_labels_unusedDeclarations]
      tauto

-- A label is reported by its first declaration, and a root does not own what its name begins.
example :
    (findings "/deps" [⟨"C", "c.tar"⟩, ⟨"A", "a.tar"⟩, ⟨"C", "d.tar"⟩, ⟨"E", "e.tar"⟩] ["E"]
        (.ofRecords [("/m.ts", "/deps/a.ts"), ("/m.ts", "/deps/b.ts"), ("/m.ts", "/depsy.ts"),
          ("/m.ts", "/deps/x.ts")])
        (.ofList [("/a.ts", "a.tar"), ("/b.ts", "b.tar")])).map (·.summary) =
      ["error[D001]: /m.ts imports b.ts from b.tar, which is not a declared dependency",
        "warning[D003]: /m.ts imports x.ts, which no dependency archive provides",
        "error[D002]: unused dependency C"] := by
  rfl

end Findings

end Audit
end BuildTree
