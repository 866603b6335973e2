import BuildTree.Proofs.Archive.History
import BuildTree.Proofs.Build.Served

/-!
# Requests without faults — nothing that is asked for breaks a promise

Building a tree relies on what other parts have checked: sets of files on absolute names, mounting
on a well-formed root, and the last check of a request on every source being in the tree.  In a
session whose archives were unpacked, each of these promises is kept whatever a request asks for.
So a request fails because of its root, its archives or its sources, or it has a tree, and then no
entry that counts in a source archive is missing from the sources.
-/

namespace BuildTree

open LruCache

universe u

variable {σ : Type u}

/-! ## Sessions with unpacked archives -/

/-- Every archive that is held was unpacked from some octets. -/
def ArchiveEntries.AllUnpacked (entries : ArchiveEntries) : Prop :=
  ∀ entry ∈ entries, ∃ bytes, Tar.unpack bytes = .ok entry.2

/-- The caches that a session can have as long as what its archive cache is told to hold was
unpacked: new ones, and those that a request for a tree, a request to the archive cache itself or a
compiler leaves behind. -/
inductive BuildCaches.Unpacked : BuildCaches σ → Prop
  | created (sizes : CacheSection) {caches : BuildCaches σ}
      (new : BuildCaches.create sizes = .ok caches) : Unpacked caches
  | prepared {caches : BuildCaches σ} (before : Unpacked caches) (disk : FileStore)
      (request : TreeRequest) : Unpacked (Assembly.prepare disk caches request).caches
  | answered {caches : BuildCaches σ} (before : Unpacked caches)
      (request : CacheRequest String FileMap)
      (unpacked : ∀ key files, request = .set key files → ∃ bytes, Tar.unpack bytes = .ok files) :
      Unpacked { caches with archives := (caches.archives.answer request).2 }
  | compiled {caches : BuildCaches σ} (before : Unpacked caches) (sources : ParseCache σ) :
      Unpacked { caches with sources }

namespace ArchiveEntries

variable {disk : FileStore} {capacity : Nat} {entries : ArchiveEntries}
  {archives : List DependencyArchive} {decoded : List FileMap}

/-- What a load takes from such a list or from disk was unpacked. -/
theorem AllUnpacked.exists_unpack (h : AllUnpacked entries)
    (hdecoded : filesOfAll disk entries archives = .ok decoded) {files : FileMap}
    (hfiles : files ∈ decoded) : ∃ bytes, Tar.unpack bytes = .ok files := by
  rcases exists_of_mem_mapM hdecoded hfiles with ⟨archive, -, hof⟩
  cases hheld : entries.held archive with
  | some held =>
    rw [hheld] at hof
    cases hof
    rcases Option.bind_eq_some_iff.1 hheld with ⟨checksum, -, hlookup⟩
    rcases RecencyList.exists_of_lookup hlookup with ⟨front, back, hsplit, -⟩
    exact h (checksum, files) (by simp [hsplit])
  | none =>
    rw [hheld, DependencyArchive.filesOf] at hof
    cases hread : disk.read archive.name with
    | error cause => simp [DependencyArchive.decode, hread] at hof
    | ok bytes => exact ⟨bytes, (DependencyArchive.decode_eq_ok_iff hread).1 hof⟩

theorem AllUnpacked.promote (h : AllUnpacked entries) (archives : List DependencyArchive) :
    AllUnpacked (archives.foldl promote entries) := fun entry hmem =>
  h entry ((foldl_promote_perm archives).mem_iff.1 hmem)

theorem AllUnpacked.setAll_newPairs (h : AllUnpacked entries)
    (hdecoded : filesOfAll disk entries archives = .ok decoded) :
    AllUnpacked ((archives.foldl ArchiveEntries.promote entries).setAll capacity
      (entries.newPairs archives decoded)) := by
  intro entry hmem
  -- An entry was set by this load, or it was there before.
  rcases mem_of_mem_setAll hmem with hnew | hold
  · rcases List.mem_filterMap.1 hnew with ⟨⟨archive, files⟩, hzip, hpair⟩
    dsimp only at hpair
    split at hpair
    · rcases Option.map_eq_some_iff.1 hpair with ⟨checksum, -, rfl⟩
      exact h.exists_unpack hdecoded (List.of_mem_zip hzip).2
    · cases hpair
  · exact h.promote archives entry hold

theorem AllUnpacked.answer (h : AllUnpacked entries) {request : CacheRequest String FileMap}
    (hrequest : ∀ key files, request = .set key files → ∃ bytes, Tar.unpack bytes = .ok files) :
    AllUnpacked (RecencyList.answer capacity entries request).2 := by
  intro entry hmem
  cases request with
  | set key files =>
    rcases RecencyList.mem_of_mem_set hmem with rfl | hold
    · exact hrequest key files rfl
    · exact h entry hold
  | get key => exact h entry ((RecencyList.get_perm entries key).mem_iff.1 hmem)
  | contains key => exact h entry hmem

end ArchiveEntries

namespace BuildCaches.Unpacked

variable {caches : BuildCaches σ}

theorem reachable (h : caches.Unpacked) : caches.Reachable := by
  induction h with
  | created sizes new => exact .created sizes new
  | prepared _ disk request ih => exact ih.prepared disk request
  | answered _ request _ ih => exact ih.answered request
  | compiled _ sources ih => exact ih.compiled sources

theorem entries (h : caches.Unpacked) : ArchiveEntries.AllUnpacked caches.archives.entries := by
  induction h with
  | @created sizes caches new =>
    -- A new cache has nothing that would have to be unpacked.
    rw [(BuildCaches.shows_of_create new).2.entries_eq]
    intro entry hmem
    cases hmem
  | @prepared caches before disk request ih =>
    rcases before.reachable.exists_shows with ⟨capacity, -, hshows⟩
    cases hroot : Assembly.rootError? request.dependencyRoot with
    | some cause =>
      rw [Assembly.prepare_of_rootError hroot]
      exact ih
    | none =>
      rw [Assembly.prepare_caches hroot]
      cases hfiles : filesOfAll disk caches.archives.entries request.archives with
      | error err =>
        rw [(hshows.loadDependencies_error hfiles).entries_eq]
        exact ih.promote request.archives
      | ok decoded =>
        rw [(hshows.loadDependencies_ok hfiles).entries_eq]
        exact ih.setAll_newPairs hfiles
  | @answered caches before request unpacked ih =>
    rcases before.reachable.exists_shows with ⟨capacity, -, hshows⟩
    rw [(hshows.answer request).2.entries_eq]
    exact ih.answer unpacked
  | compiled _ _ ih => exact ih

end BuildCaches.Unpacked

/-! ## Trees that are always built -/

theorem FileTree.exists_mountAt {mountPoint : String} (h : Path.error? mountPoint = none)
    (inner : FileTree) : ∃ tree, mountAt mountPoint inner = .ok tree := by
  unfold mountAt TreePath.parse
  split
  · exact ⟨_, rfl⟩
  · rename_i err herr
    split at herr
    · cases herr
    · rename_i hmalformed
      rw [h] at hmalformed
      cases hmalformed

namespace Assembly

variable {disk : FileStore} {caches : BuildCaches σ} {request : TreeRequest}

theorem error?_of_rootError? {root : String} (h : rootError? root = none) :
    Path.error? root = none := by
  unfold rootError? at h
  split at h
  · cases h
  · assumption

/-- Collected sources and merged archives make a tree. -/
theorem exists_layered {sources : SourceFiles} {archives : MergedArchives} {root : String}
    (hplain : ∀ path data, sources.plain[path]? = some data → Path.error? path = none)
    (harchived : ∀ path data, sources.archived[path]? = some data → Path.error? path = none)
    (hfiles : ∀ path data, archives.files[path]? = some data → Path.error? path = none)
    (hroot : Path.error? root = none) : ∃ tree, layered sources archives root = .ok tree := by
  rcases FileTree.exists_ofFiles hplain with ⟨plain, hplain⟩
  rcases FileTree.exists_ofFiles harchived with ⟨archived, harchived⟩
  rcases FileTree.exists_ofFiles hfiles with ⟨dependencies, hdependencies⟩
  rcases FileTree.exists_mountAt hroot dependencies with ⟨mounted, hmounted⟩
  refine ⟨.layered [.layered [plain, archived], mounted], ?_⟩
  simp only [layered, SourceFiles.tree, hplain, harchived, hdependencies, hmounted]

theorem requireSources_eq_ok {tree : FileTree} {sources : List TreePath}
    (h : ∀ source ∈ sources, tree.hasFile source.text = .ok true) :
    requireSources tree sources = .ok () := by
  induction sources with
  | nil => rfl
  | cons source sources ih =>
    simp only [requireSources, h source List.mem_cons_self]
    exact ih fun later hlater => h later (List.mem_cons_of_mem source hlater)

/-- What is loaded and collected for a well-formed root is assembled. -/
theorem exists_assemble (hcaches : caches.Unpacked) {merged : MergedArchives}
    {collected : SourceFiles} (hroot : rootError? request.dependencyRoot = none)
    (hloaded : (loadDependencies disk caches.archives request.archives).1 = .ok merged)
    (hcollected : collectSources disk request.sources request.sourceRoot request.extensions =
      .ok collected) :
    ∃ assembly, assemble collected merged request.dependencyRoot = .ok assembly := by
  have hfiles : ∀ path data, merged.files[path]? = some data → Path.error? path = none := by
    -- A path of the merge is one of an archive, and those were all unpacked.
    intro path data hheld
    rcases hcaches.reachable.exists_shows with ⟨capacity, -, hshows⟩
    rw [hshows.loadDependencies_fst] at hloaded
    rcases map_eq_ok_iff.1 hloaded with ⟨decoded, hdecoded, rfl⟩
    rcases MergedArchives.exists_of_getElem?_files_merge hheld with ⟨files, hmem, hpath⟩
    rcases hcaches.entries.exists_unpack hdecoded hmem with ⟨bytes, hunpack⟩
    exact Tar.error?_of_unpack hunpack hpath
  rcases exists_layered (fun path data hheld => error?_of_collectSources hcollected (Or.inl hheld))
    (fun path data hheld => error?_of_collectSources hcollected (Or.inr hheld)) hfiles
    (error?_of_rootError? hroot) with ⟨tree, htree⟩
  have hrequired : requireSources tree collected.paths = .ok () := by
    refine requireSources_eq_ok fun source hsource => ?_
    -- The source has a file in the upper layer, so the tree has one.
    have hserved := (serves_of_layered htree source.wellFormed).2
    have hheld := isSome_of_mem_paths hcollected (List.mem_map.2 ⟨source, hsource, rfl⟩)
    rw [hserved, Option.isSome_or, hheld, Bool.true_or]
  refine ⟨⟨tree, collected.paths, merged.origins, merged.sharedPaths⟩, ?_⟩
  simp only [assemble, htree, hrequired]

/-- What a request for a tree can come to: it ends at its root, at its archives or at its sources,
or it has a tree. -/
theorem prepare_cases (hcaches : caches.Unpacked) (disk : FileStore) (request : TreeRequest) :
    (∃ cause, rootError? request.dependencyRoot = some cause ∧
      (prepare disk caches request).result =
        .error (.dependencyRoot request.dependencyRoot cause)) ∨
    (∃ cause, (prepare disk caches request).result = .error (.archive cause) ∧
      ((loadDependencies disk caches.archives request.archives).1 = .error cause ∨
        collectSources disk request.sources request.sourceRoot request.extensions =
          .error cause)) ∨
    ∃ merged collected assembly, rootError? request.dependencyRoot = none ∧
      (loadDependencies disk caches.archives request.archives).1 = .ok merged ∧
      collectSources disk request.sources request.sourceRoot request.extensions = .ok collected ∧
      (prepare disk caches request).result = .ok assembly ∧ assembly.sources = collected.paths := by
  cases hroot : rootError? request.dependencyRoot with
  | some cause => exact Or.inl ⟨cause, rfl, by rw [prepare_of_rootError hroot]⟩
  | none =>
    cases hloaded : (loadDependencies disk caches.archives request.archives).1 with
    | error cause =>
      exact Or.inr (Or.inl ⟨cause, by simp only [prepare, hroot, hloaded], Or.inl rfl⟩)
    | ok merged =>
      cases hcollected : collectSources disk request.sources request.sourceRoot
          request.extensions with
      | error cause =>
        exact Or.inr (Or.inl
          ⟨cause, by simp only [prepare, hroot, hloaded, hcollected], Or.inr rfl⟩)
      | ok collected =>
        -- Past its inputs a request cannot fail.
        rcases exists_assemble hcaches hroot hloaded hcollected with ⟨assembly, hassembled⟩
        refine Or.inr (Or.inr ⟨merged, collected, assembly, rfl, rfl, rfl, ?_,
          (assemble_eq_ok hassembled).2.1⟩)
        simp only [prepare, hroot, hloaded, hcollected, hassembled]

theorem eq_of_prepare_error (hcaches : caches.Unpacked) {err : BuildError}
    (h : (prepare disk caches request).result = .error err) :
    (∃ cause, err = .dependencyRoot request.dependencyRoot cause) ∨
      ∃ cause, err = .archive cause := by
  rcases prepare_cases hcaches disk request with
    ⟨cause, -, hroot⟩ | ⟨cause, hfailed, -⟩ | ⟨_, _, _, -, -, -, hok, -⟩
  · exact Or.inl ⟨cause, Except.error.inj (h.symm.trans hroot)⟩
  · exact Or.inr ⟨cause, Except.error.inj (h.symm.trans hfailed)⟩
  · rw [hok] at h
    cases h

/-- A request for a tree never meets a fault or a broken promise of the program itself.  It has a
tree just if its root can be mounted at, its archives can be loaded and its sources can be
collected, and then every entry that counts in one of its source archives is among the sources. -/
theorem prepare_never_faults (hcaches : caches.Unpacked) :
    (∀ cause, (prepare disk caches request).result ≠ .error (.internal cause)) ∧
    (∀ fault, (prepare disk caches request).result ≠ .error (.fault fault)) ∧
    ((∃ assembly, (prepare disk caches request).result = .ok assembly) ↔
      rootError? request.dependencyRoot = none ∧
        (∃ merged, (loadDependencies disk caches.archives request.archives).1 = .ok merged) ∧
        ∃ collected, collectSources disk request.sources request.sourceRoot request.extensions =
          .ok collected) ∧
    ∀ assembly, (prepare disk caches request).result = .ok assembly →
      ∀ path ∈ request.sources, Text.endsWith path sourceArchiveExtension = true →
        ∀ entry, SourceArchive.Lists disk path request.extensions entry →
          ∃ place ∈ assembly.sources, TreePath.ofRelative entry.name = .ok place := by
  refine ⟨?_, ?_, ⟨?_, ?_⟩, ?_⟩
  · intro internal hresult
    rcases eq_of_prepare_error hcaches hresult with ⟨cause, herr⟩ | ⟨cause, herr⟩ <;> cases herr
  · intro fault hresult
    rcases eq_of_prepare_error hcaches hresult with ⟨cause, herr⟩ | ⟨cause, herr⟩ <;> cases herr
  · rintro ⟨assembly, hresult⟩
    rcases prepare_cases hcaches disk request with
      ⟨cause, -, hroot⟩ | ⟨cause, hfailed, -⟩ | ⟨merged, collected, _, hparts⟩
    · rw [hroot] at hresult
      cases hresult
    · rw [hfailed] at hresult
      cases hresult
    · exact ⟨hparts.1, ⟨merged, hparts.2.1⟩, collected, hparts.2.2.1⟩
  · rintro ⟨hroot, ⟨merged, hloaded⟩, collected, hcollected⟩
    rcases exists_assemble hcaches hroot hloaded hcollected with ⟨assembly, hassembled⟩
    exact ⟨assembly, by simp only [prepare, hroot, hloaded, hcollected, hassembled]⟩
  · intro assembly hresult path hpath harchive entry hlisted
    rcases exists_assemble_of_prepare hresult with ⟨merged, collected, -, hcollected, hassembled⟩
    rw [(assemble_eq_ok hassembled).2.1]
    exact mem_paths_of_lists hcollected hpath harchive hlisted

/-- A source archive with one stored entry, an empty file `a.ts`. -/
def emptySourceArchive : Bytes :=
  [80, 75, 3, 4, 20, 0, 0, 0, 0, 0, 0, 0, 33, 0, 0, 0, 0, 0, 0, 0, 0, 0, 0, 0, 0, 0, 4, 0, 0, 0,
    97, 46, 116, 115] ++
  [80, 75, 1, 2, 20, 3, 20, 0, 0, 0, 0, 0, 0, 0, 33, 0, 0, 0, 0, 0, 0, 0, 0, 0, 0, 0, 0, 0, 4, 0, 0,
    0, 0, 0, 0, 0, 0, 0, 0, 0, 128, 1, 0, 0, 0, 0, 97, 46, 116, 115] ++
  [80, 75, 5, 6, 0, 0, 0, 0, 1, 0, 1, 0, 50, 0, 0, 0, 34, 0, 0, 0, 0, 0]

theorem prepare_lists_entry_with_held_archive :
    ∃ (caches : BuildCaches Unit) (assembly : Assembly) (entry : ZipEntry),
      caches.archives.keys = ["k"] ∧
      (prepare (.holding [("all.srcjar", emptySourceArchive)]) caches
        ⟨[⟨"a.tar", some "k"⟩], ["all.srcjar"], "src", "/deps", [".ts"]⟩).result = .ok assembly ∧
      SourceArchive.Lists (.holding [("all.srcjar", emptySourceArchive)]) "all.srcjar" [".ts"]
        entry ∧
      ∃ place ∈ assembly.sources, TreePath.ofRelative entry.name = .ok place := by
  -- The archive is not on disk any more, but held since the first request of the session.
  obtain ⟨caches, hcaches, hkeys, hloaded, hcollected⟩ : ∃ caches : BuildCaches Unit,
      caches.Unpacked ∧ caches.archives.keys = ["k"] ∧
      (∃ merged, (loadDependencies (.holding [("all.srcjar", emptySourceArchive)]) caches.archives
        [⟨"a.tar", some "k"⟩]).1 = .ok merged) ∧
      ∃ collected, collectSources (.holding [("all.srcjar", emptySourceArchive)]) ["all.srcjar"]
        "src" [".ts"] = .ok collected :=
    ⟨_, (BuildCaches.Unpacked.created ⟨1, 1⟩ rfl).prepared (.holding [("a.tar", [])])
      ⟨[⟨"a.tar", some "k"⟩], [], "src", "/deps", [".ts"]⟩, rfl, ⟨_, rfl⟩, _, rfl⟩
  have htree : ∃ assembly, (prepare (.holding [("all.srcjar", emptySourceArchive)]) caches
      ⟨[⟨"a.tar", some "k"⟩], ["all.srcjar"], "src", "/deps", [".ts"]⟩).result = .ok assembly :=
    (prepare_never_faults hcaches).2.2.1.2 ⟨rfl, hloaded, hcollected⟩
  rcases htree with ⟨assembly, hresult⟩
  have hentry : ∃ entry, SourceArchive.Lists (.holding [("all.srcjar", emptySourceArchive)])
      "all.srcjar" [".ts"] entry :=
    ⟨_, _, _, _, rfl, rfl, List.mem_cons_self, rfl, rfl⟩
  rcases hentry with ⟨entry, hentry⟩
  exact ⟨caches, assembly, entry, hkeys, hresult, hentry,
    (prepare_never_faults hcaches).2.2.2 assembly hresult "all.srcjar" List.mem_cons_self rfl entry
      hentry⟩

end Assembly
end BuildTree
