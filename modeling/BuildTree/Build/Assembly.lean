import BuildTree.Archive.SourceFiles
import BuildTree.Build.Notice
import BuildTree.Build.Caches

/-!
# Assemblies — the tree that a build compiles against

The sources lie at the root of the tree, on top of the dependency archives, which are mounted at the
dependency root.  The parts are loaded in a fixed order, root, archives, sources, and the first
failure ends the request; archives that were decoded before it stay in the caches.
-/

namespace BuildTree

universe u

/-- A broken promise of the program itself. -/
structure InternalError where
  message : String
  deriving DecidableEq, Repr

def InternalError.report (err : InternalError) : String :=
  "internal error: " ++ err.message

/-- Why dependencies cannot be mounted at a path. -/
inductive RootError
  | malformed (cause : PathError)
  | treeRoot
  deriving DecidableEq, Repr

def RootError.message : RootError → String
  | .malformed cause => cause.message
  | .treeRoot => "must not be the tree root"

/-- Why a build has no outcome. -/
inductive BuildError
  | archive (cause : FileError)
  | dependencyRoot (root : String) (cause : RootError)
  | internal (cause : InternalError)
  | fault (cause : Fault)
  deriving DecidableEq, Repr

def BuildError.message : BuildError → String
  | .archive cause => cause.message
  | .dependencyRoot root cause => s!"invalid dependency root '{root}': {cause.message}"
  | .internal cause => cause.report
  | .fault cause => cause.message

structure TreeRequest where
  archives : List DependencyArchive
  sources : List String
  sourceRoot : String
  dependencyRoot : String
  /-- The extensions of the entries that count in source archives. -/
  extensions : List String
  deriving DecidableEq, Repr

def BuildPlan.treeRequest (plan : BuildPlan) : TreeRequest where
  archives := plan.archives
  sources := plan.request.sources
  sourceRoot := plan.request.sourceRoot
  dependencyRoot := plan.request.dependencyRoot
  extensions := plan.compiler.sourceExtensions

structure Assembly where
  tree : FileTree
  sources : List TreePath
  /-- The archive of each path below the dependency root. -/
  origins : Std.ExtTreeMap String String
  sharedPaths : List SharedPath

structure Preparation (σ : Type u) where
  result : Except BuildError Assembly
  caches : BuildCaches σ
  /-- The log, in order. -/
  notices : List Notice

namespace Assembly

def rootError? (root : String) : Option RootError :=
  match Path.error? root with
  | some cause => some (.malformed cause)
  | none => if root = Path.root then some .treeRoot else none

def layered (sources : SourceFiles) (archives : MergedArchives) (dependencyRoot : String) :
    Except Fault FileTree :=
  match sources.tree with
  | .error fault => .error fault
  | .ok sourceTree =>
      match FileTree.ofFiles archives.files with
      | .error fault => .error fault
      | .ok archiveTree =>
          match FileTree.mountAt dependencyRoot archiveTree with
          | .error fault => .error fault
          | .ok mounted => .ok (.layered [sourceTree, mounted])

/-- Every source has to be in the tree. -/
def requireSources (tree : FileTree) : List TreePath → Except BuildError Unit
  | [] => .ok ()
  | source :: rest =>
      match tree.hasFile source.text with
      | .error fault => .error (.fault fault)
      | .ok false =>
          .error (.internal ⟨s!"source {source} is missing from the resolved tree"⟩)
      | .ok true => requireSources tree rest

def sourceNotices (dependencyRoot : String) (sources : List TreePath) : List Notice :=
  (sources.filter fun source => (Path.seenFrom? source.text dependencyRoot).isSome).map
    fun source => .sourceUnderRoot source dependencyRoot

def assemble (sources : SourceFiles) (archives : MergedArchives) (dependencyRoot : String) :
    Except BuildError Assembly :=
  match layered sources archives dependencyRoot with
  | .error fault => .error (.fault fault)
  | .ok tree =>
      match requireSources tree sources.paths with
      | .error err => .error err
      | .ok () => .ok ⟨tree, sources.paths, archives.origins, archives.sharedPaths⟩

/-- Loads the inputs of a tree and assembles it. -/
def prepare {σ : Type u} (disk : FileStore) (caches : BuildCaches σ) (request : TreeRequest) :
    Preparation σ :=
  match rootError? request.dependencyRoot with
  | some cause => ⟨.error (.dependencyRoot request.dependencyRoot cause), caches, []⟩
  | none =>
      let (loaded, archiveCache) := loadDependencies disk caches.archives request.archives
      let caches := { caches with archives := archiveCache }
      match loaded with
      | .error err => ⟨.error (.archive err), caches, []⟩
      | .ok archives =>
          let shared := archives.sharedPaths.map Notice.sharedPath
          match collectSources disk request.sources request.sourceRoot request.extensions with
          | .error err => ⟨.error (.archive err), caches, shared⟩
          | .ok sources =>
              ⟨assemble sources archives request.dependencyRoot, caches,
                shared ++ sourceNotices request.dependencyRoot sources.paths⟩

end Assembly
end BuildTree
