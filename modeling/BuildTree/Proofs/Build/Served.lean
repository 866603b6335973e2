import BuildTree.Proofs.Archive.Extensions
import BuildTree.Proofs.Archive.Merge
import BuildTree.Proofs.Build.Sessions

/-!
# Served files — what an assembled tree answers

Four places decide which file is served under a path: a later plain source wins over an earlier one,
and so does a later source archive, plain sources win over source archives and both over
dependencies, and a later dependency archive wins over an earlier one.  An assembled tree answers as
a search of the loaded inputs in that order does.
-/

namespace BuildTree

open LruCache

universe u

/-! ## Answers of trees -/

namespace FileTree

/-- A tree is only mounted at a well-formed path. -/
theorem error?_of_mountAt {mountPoint : String} {inner tree : FileTree}
    (h : mountAt mountPoint inner = .ok tree) : Path.error? mountPoint = none := by
  unfold mountAt TreePath.parse at h
  split at h
  · rename_i place hplace
    split at hplace
    · assumption
    · cases hplace
  · cases h

/-- What a tree answers for a path: its contents and whether it exists. -/
def Serves (tree : FileTree) (path : String) (data? : Option Bytes) : Prop :=
  tree.read path = .ok data? ∧ tree.hasFile path = .ok data?.isSome

namespace Serves

variable {path : String} {data? lower? : Option Bytes}

theorem ofFiles {files : FileMap} {tree : FileTree} (h : FileTree.ofFiles files = .ok tree)
    (hpath : Path.isAbsolute path = true) : tree.Serves path files[path]? := by
  rcases map_eq_ok_iff.1 h with ⟨set, hset, rfl⟩
  have hread : set.read path = .ok files[path]? := by
    unfold FileSet.ofFiles at hset
    split at hset
    · cases hset
    · cases hset
      rw [FileSet.read, if_pos hpath]
  rw [Serves, read, hasFile, hread]
  exact ⟨rfl, rfl⟩

/-- A mounted tree answers what the inner one does for what is seen from the mount point. -/
theorem mountAt {mountPoint : String} {inner tree : FileTree} {held : String → Option Bytes}
    (h : FileTree.mountAt mountPoint inner = .ok tree) (hpath : Path.error? path = none)
    (hinner : ∀ below, Path.error? below = none → inner.Serves below (held below)) :
    tree.Serves path ((Path.seenFrom? path mountPoint).bind held) := by
  unfold FileTree.mountAt TreePath.parse at h
  split at h
  · rename_i place hplace
    split at hplace
    · rename_i hmount
      cases hplace
      cases h
      rw [Serves, read, hasFile]
      cases hseen : Path.seenFrom? path mountPoint with
      | none => exact ⟨rfl, rfl⟩
      | some below =>
        -- What is seen of a well-formed path is well formed.
        exact hinner below ((Path.seenFrom?_eq_some_iff_mount hpath hmount).1 hseen).1
    · cases hplace
  · cases h

/-- A layer answers first, and the one below it only for what the layer does not have. -/
theorem layered_pair {upper lower : FileTree} (hupper : upper.Serves path data?)
    (hlower : lower.Serves path lower?) :
    (layered [upper, lower]).Serves path (data?.or lower?) := by
  rw [Serves, read, hasFile, readFromOwner, anyHasFile, readFromOwner, anyHasFile, hupper.2,
    hlower.2]
  cases data? with
  | some data => exact ⟨hupper.1, rfl⟩
  | none =>
    cases lower? with
    | some data => exact ⟨hlower.1, rfl⟩
    | none => exact ⟨rfl, rfl⟩

end Serves
end FileTree

theorem SourceFiles.serves_tree {sources : SourceFiles} {tree : FileTree}
    (h : sources.tree = .ok tree) {path : String} (hpath : Path.isAbsolute path = true) :
    tree.Serves path (sources.plain[path]?.or sources.archived[path]?) := by
  unfold SourceFiles.tree at h
  split at h
  · cases h
  · rename_i plain hplain
    split at h
    · cases h
    · rename_i archived harchived
      cases h
      exact .layered_pair (.ofFiles hplain hpath) (.ofFiles harchived hpath)

/-! ## Loaded inputs -/

/-- What the inputs of a request hold, each list in request order. -/
structure LoadedInputs where
  plain : List (TreePath × Bytes)
  archived : List FileMap
  dependencies : List FileMap

namespace LoadedInputs

/-- The inputs of a request, read from disk or taken from what a cache holds. -/
structure AreOf (disk : FileStore) (entries : ArchiveEntries) (request : TreeRequest)
    (inputs : LoadedInputs) : Prop where
  plain : List.Forall₂
    (fun path source => sourcePath path request.sourceRoot = .ok source.1 ∧
      disk.read path = .ok source.2)
    (request.sources.filter (!Text.endsWith · sourceArchiveExtension)) inputs.plain
  archived : List.Forall₂
    (fun path files => SourceArchive.read disk path request.extensions = .ok files)
    (request.sources.filter (Text.endsWith · sourceArchiveExtension)) inputs.archived
  dependencies : List.Forall₂
    (fun archive files => archive.filesOf disk (entries.held archive) = .ok files)
    request.archives inputs.dependencies

end LoadedInputs

/-! ## Assembled trees -/

namespace Assembly

variable {σ : Type u} {disk : FileStore} {caches : BuildCaches σ} {request : TreeRequest}
  {assembly : Assembly}

/-- A request that succeeds has loaded its archives and collected its sources, and assembled
them. -/
theorem exists_assemble_of_prepare (h : (prepare disk caches request).result = .ok assembly) :
    ∃ merged collected,
      (loadDependencies disk caches.archives request.archives).1 = .ok merged ∧
        collectSources disk request.sources request.sourceRoot request.extensions =
          .ok collected ∧
        assemble collected merged request.dependencyRoot = .ok assembly := by
  unfold prepare at h
  split at h
  · cases h
  · dsimp only at h
    split at h
    · cases h
    · rename_i merged hmerged
      split at h
      · cases h
      · rename_i collected hcollected
        exact ⟨merged, collected, hmerged, hcollected, h⟩

theorem assemble_eq_ok {sources : SourceFiles} {archives : MergedArchives}
    {dependencyRoot : String} (h : assemble sources archives dependencyRoot = .ok assembly) :
    layered sources archives dependencyRoot = .ok assembly.tree ∧
      assembly.sources = sources.paths ∧ assembly.origins = archives.origins := by
  unfold assemble at h
  split at h
  · cases h
  · rename_i tree htree
    split at h
    · cases h
    · cases h
      exact ⟨htree, rfl, rfl⟩

/-- A tree of sources and archives has two layers, the sources and below them the mounted
archives. -/
theorem layered_eq_ok {sources : SourceFiles} {archives : MergedArchives}
    {dependencyRoot : String} {tree : FileTree}
    (h : layered sources archives dependencyRoot = .ok tree) :
    ∃ sourceLayer dependencyLayer, tree = .layered [sourceLayer, dependencyLayer] ∧
      Path.error? dependencyRoot = none ∧
      ∀ path, Path.error? path = none →
        sourceLayer.Serves path (sources.plain[path]?.or sources.archived[path]?) ∧
          dependencyLayer.Serves path
            ((Path.seenFrom? path dependencyRoot).bind fun below => archives.files[below]?) := by
  unfold layered at h
  split at h
  · cases h
  · rename_i sourceTree hsources
    split at h
    · cases h
    · rename_i archiveTree harchives
      split at h
      · cases h
      · rename_i mountedTree hmount
        cases h
        have hbelow : ∀ below, Path.error? below = none →
            archiveTree.Serves below archives.files[below]? := by
          intro below hbelow
          exact .ofFiles harchives (Path.isAbsolute_of_error? hbelow)
        refine ⟨sourceTree, mountedTree, rfl, FileTree.error?_of_mountAt hmount, ?_⟩
        intro path hpath
        exact ⟨SourceFiles.serves_tree hsources (Path.isAbsolute_of_error? hpath),
          .mountAt hmount hpath hbelow⟩

/-- Loaded sources are searched first, and then what is mounted. -/
theorem serves_of_layered {sources : SourceFiles} {archives : MergedArchives}
    {dependencyRoot : String} {tree : FileTree}
    (h : layered sources archives dependencyRoot = .ok tree) {path : String}
    (hpath : Path.error? path = none) :
    tree.Serves path ((sources.plain[path]?.or sources.archived[path]?).or
      ((Path.seenFrom? path dependencyRoot).bind fun below => archives.files[below]?)) := by
  rcases layered_eq_ok h with ⟨sourceLayer, dependencyLayer, rfl, -, hserves⟩
  exact .layered_pair (hserves path hpath).1 (hserves path hpath).2

end Assembly
end BuildTree
