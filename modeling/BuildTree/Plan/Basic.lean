import BuildTree.Archive.Merge
import BuildTree.Cache.Parse
import BuildTree.Dependency.Audit
import BuildTree.Path.Disk

/-!
# Build plans — what one build asks for

A plan names the sources and their root, the dependency archives and where they are mounted, the
declared dependencies and how strictly they are audited, the sizes of the caches and the options of
the compiler.  `BuildPlan.error?` says what is wrong with a plan, the first fault in a fixed order;
`relativeTo` makes its file names relative to another directory.
-/

namespace BuildTree

/-- The sources of a build and where its output goes. -/
structure RequestSection where
  sourceRoot : String := "."
  sources : List String := []
  dependencyRoot : String := "/node_modules"
  output : Option String := none
  deriving DecidableEq, Repr

/-- What findings of the audit do to a build. -/
inductive AuditMode
  /-- They fail it. -/
  | error
  /-- They are reported as warnings. -/
  | warn
  /-- There is no audit. -/
  | off
  deriving DecidableEq, Repr

namespace AuditMode

def name : AuditMode → String
  | .error => "error"
  | .warn => "warn"
  | .off => "off"

def all : List AuditMode := [.error, .warn, .off]

def ofName? (name : String) : Option AuditMode :=
  all.find? (·.name == name)

end AuditMode

/-- How dependencies are audited. -/
structure AuditSection where
  /-- Labels that are never reported as unused. -/
  exempt : List String := []
  mode : AuditMode := .error
  deriving DecidableEq, Repr

structure CacheSection where
  archiveCapacity : Nat := DecodedArchives.defaultCapacity
  sourceCapacity : Nat := ParseCache.defaultCapacity
  deriving DecidableEq, Repr

structure CompilerSection where
  args : List String := []
  /-- The extensions of the entries that count in source archives. -/
  sourceExtensions : List String := [".ts", ".tsx"]
  languageVersion : String := "es2020"
  deriving DecidableEq, Repr

structure BuildPlan where
  request : RequestSection
  archives : List DependencyArchive := []
  dependencies : List DeclaredDependency := []
  audit : AuditSection := {}
  cache : CacheSection := {}
  compiler : CompilerSection := {}
  deriving DecidableEq, Repr

/-- Why there is no plan to build from. -/
inductive PlanError
  /-- Its file cannot be read. -/
  | unreadable (cause : DiskError)
  /-- Its text is not TOML, or a field of it is missing or has a value of the wrong kind. -/
  | malformed
  | noSources
  | namelessArchive
  | namelessDependency
  /-- A dependency is declared for an archive that is not listed. -/
  | unlistedArchive (label archive : String)
  | dependencyRoot (cause : PathError)
  | dependencyRootIsTreeRoot
  | emptyCache
  | extensionWithoutDot (extension : String)
  deriving DecidableEq, Repr

def PlanError.message : PlanError → String
  | .unreadable cause => s!"failed to read configuration: {cause.message}"
  | .malformed => "failed to parse configuration: not a build request"
  | .noSources => "missing required field: request.sources"
  | .namelessArchive => "missing required field: archives.name"
  | .namelessDependency => "missing required field: dependencies.label"
  | .unlistedArchive label archive =>
      s!"dependency '{label}' refers to unlisted archive '{archive}'"
  | .dependencyRoot cause => s!"validation error: request.dependency_root: {cause.message}"
  | .dependencyRootIsTreeRoot => "validation error: request.dependency_root must not be '/'"
  | .emptyCache => "validation error: cache capacities must be at least 1"
  | .extensionWithoutDot extension =>
      s!"validation error: source extension '{extension}' must start with '.'"

/-! ## What is wrong with a plan -/

/-- What is wrong with the path that dependencies are to be mounted at. -/
def RequestSection.rootError? (request : RequestSection) : Option PlanError :=
  match Path.error? request.dependencyRoot with
  | some cause => some (.dependencyRoot cause)
  | none =>
      if request.dependencyRoot = Path.root then some .dependencyRootIsTreeRoot else none

/-- What is wrong with a declaration, given the names of the listed archives. -/
def DeclaredDependency.error? (archives : List String) (declaration : DeclaredDependency) :
    Option PlanError :=
  if declaration.label = "" then some .namelessDependency
  else if declaration.archive ∈ archives then none
  else some (.unlistedArchive declaration.label declaration.archive)

namespace BuildPlan

def archiveNames (plan : BuildPlan) : List String :=
  plan.archives.map (·.name)

/-- What is wrong with a plan, if anything: of several faults the first in the order
sources, dependency root, archives, dependencies, caches, extensions. -/
def error? (plan : BuildPlan) : Option PlanError :=
  (if plan.request.sources = [] then some .noSources else none)
  <|> plan.request.rootError?
  <|> (if "" ∈ plan.archiveNames then some .namelessArchive else none)
  <|> plan.dependencies.findSome? (DeclaredDependency.error? plan.archiveNames)
  <|> (if plan.cache.archiveCapacity = 0 ∨ plan.cache.sourceCapacity = 0 then some .emptyCache
      else none)
  <|> ((plan.compiler.sourceExtensions.find? (!Text.startsWith · ".")).map
      PlanError.extensionWithoutDot)

/-- Accepts exactly the plans with which nothing is wrong. -/
def validate (plan : BuildPlan) : Except PlanError Unit :=
  match plan.error? with
  | none => .ok ()
  | some err => .error err

/-! ## File names -/

/-- A plan with its relative file names seen from a directory.  Archives get the same name
where they are listed and where dependencies are declared for them. -/
def relativeTo (base : String) (plan : BuildPlan) : BuildPlan :=
  let request := plan.request
  { plan with
    request := { request with
      sourceRoot := Disk.join base request.sourceRoot
      sources := request.sources.map (Disk.join base)
      output := request.output.map (Disk.join base) }
    archives := plan.archives.map fun archive =>
      { archive with name := Disk.join base archive.name }
    dependencies := plan.dependencies.map fun declaration =>
      { declaration with archive := Disk.join base declaration.archive } }

end BuildPlan
end BuildTree
