import BuildTree.Build.Run
import BuildTree.Proofs.Archive.Loading

/-!
# Sessions — what a request leaves to the next one

The caches of a session are new at first, and then what requests leave of them.  A request for a
tree that fails because of its root or of an archive keeps nothing that it decoded.  One that fails
later, at its sources or at the tree, keeps what a request that succeeds would keep.
-/

namespace BuildTree

open LruCache

universe u

variable {σ : Type u}

/-! ## The caches of a session -/

/-- The caches that a session can have: new ones, and those that a request for a tree, a request to
the archive cache itself or a compiler leaves behind. -/
inductive BuildCaches.Reachable : BuildCaches σ → Prop
  | created (sizes : CacheSection) {caches : BuildCaches σ}
      (new : BuildCaches.create sizes = .ok caches) : Reachable caches
  | prepared {caches : BuildCaches σ} (before : Reachable caches) (disk : FileStore)
      (request : TreeRequest) : Reachable (Assembly.prepare disk caches request).caches
  | answered {caches : BuildCaches σ} (before : Reachable caches)
      (request : CacheRequest String FileMap) :
      Reachable { caches with archives := (caches.archives.answer request).2 }
  | compiled {caches : BuildCaches σ} (before : Reachable caches) (sources : ParseCache σ) :
      Reachable { caches with sources }

theorem BuildCaches.archives_of_create {sizes : CacheSection} {caches : BuildCaches σ}
    (new : create sizes = .ok caches) :
    LruCache.create sizes.archiveCapacity = .ok caches.archives := by
  rw [create] at new
  split at new
  · cases new
  · cases new
  · rename_i archives sources harchives hsources
    cases new
    exact harchives

/-- New caches have room for archives and hold none. -/
theorem BuildCaches.shows_of_create {sizes : CacheSection} {caches : BuildCaches σ}
    (new : create sizes = .ok caches) :
    0 < sizes.archiveCapacity ∧ Shows caches.archives sizes.archiveCapacity [] :=
  Shows.of_create (archives_of_create new)

namespace Assembly

variable {disk : FileStore} {caches : BuildCaches σ} {request : TreeRequest}

/-- A malformed root ends a request before anything is looked up. -/
theorem prepare_of_rootError {cause : RootError}
    (h : rootError? request.dependencyRoot = some cause) :
    prepare disk caches request =
      ⟨.error (.dependencyRoot request.dependencyRoot cause), caches, []⟩ := by
  rw [prepare, h]

/-- Past the root, the archives are all that a request changes in the caches. -/
theorem prepare_caches (h : rootError? request.dependencyRoot = none) :
    (prepare disk caches request).caches =
      { caches with archives := (loadDependencies disk caches.archives request.archives).2 } := by
  simp only [prepare, h]
  split
  · rfl
  · split <;> rfl

end Assembly

namespace BuildCaches.Reachable

variable {caches : BuildCaches σ}

/-- The archive cache of a session is one that there can be. -/
theorem archives (h : caches.Reachable) : caches.archives.Reachable := by
  induction h with
  | created sizes new => exact .created (BuildCaches.archives_of_create new)
  | @prepared caches before disk request ih =>
    cases hroot : Assembly.rootError? request.dependencyRoot with
    | some cause =>
      -- The request ended before it came to the archives.
      rw [Assembly.prepare_of_rootError hroot]
      exact ih
    | none =>
      rw [Assembly.prepare_caches hroot]
      exact ih.loadDependencies disk request.archives
  | answered before request ih => exact ih.answered request
  | compiled before sources ih => exact ih

/-- The archives of a session are arranged as a recency list. -/
theorem exists_shows (h : caches.Reachable) :
    ∃ capacity, 0 < capacity ∧ Shows caches.archives capacity caches.archives.entries :=
  h.archives.exists_shows

/-- A build leaves caches that a session can have. -/
theorem run (h : caches.Reachable) (disk : FileStore) (plan : BuildPlan) (compiler : Compiler σ) :
    (Build.run disk caches plan compiler).caches.Reachable := by
  have hprepared := h.prepared disk plan.treeRequest
  simp only [Build.run]
  split
  · exact hprepared
  · split
    · exact hprepared
    · exact hprepared.compiled _

end BuildCaches.Reachable

/-! ## Requests that fail -/

namespace Assembly

variable {disk : FileStore} {caches : BuildCaches σ} {request : TreeRequest} {err : BuildError}

/-- What a request that fails leaves in the archive cache.  If its root is malformed or an archive
cannot be loaded, the entries are those from before.  If it fails later, they are those from before
just if every checksum that it lists was held already. -/
theorem entries_of_failed (hcaches : caches.Reachable)
    (herr : (prepare disk caches request).result = .error err) :
    (∃ cause, rootError? request.dependencyRoot = some cause ∧
        err = .dependencyRoot request.dependencyRoot cause ∧
        (prepare disk caches request).caches = caches) ∨
      (∃ cause, filesOfAll disk caches.archives.entries request.archives = .error cause ∧
        err = .archive cause ∧
        (prepare disk caches request).caches.archives.entries.Perm caches.archives.entries) ∨
      (∃ decoded, filesOfAll disk caches.archives.entries request.archives = .ok decoded ∧
        ((prepare disk caches request).caches.archives.entries.Perm caches.archives.entries ↔
          ∀ archive ∈ request.archives, archive.checksum.isSome →
            (ArchiveEntries.held caches.archives.entries archive).isSome)) := by
  rcases hcaches.exists_shows with ⟨capacity, hcapacity, hshows⟩
  cases hroot : rootError? request.dependencyRoot with
  | some cause =>
    rw [prepare_of_rootError hroot] at herr ⊢
    cases herr
    exact Or.inl ⟨cause, rfl, rfl, rfl⟩
  | none =>
    have hloaded := hshows.loadDependencies_fst disk request.archives
    rw [prepare_caches hroot]
    cases hfiles : filesOfAll disk caches.archives.entries request.archives with
    | error cause =>
      -- Nothing was set, so the archives that were found have only moved to the front.
      refine Or.inr (Or.inl ⟨cause, rfl, ?_, ?_⟩)
      · simp only [prepare, hroot, hloaded, hfiles, Except.map] at herr
        exact (Except.error.inj herr).symm
      · rw [(hshows.loadDependencies_error hfiles).entries_eq]
        exact ArchiveEntries.foldl_promote_perm request.archives
    | ok decoded =>
      -- The archives were kept before the request failed.
      refine Or.inr (Or.inr ⟨decoded, rfl, ?_⟩)
      rw [(hshows.loadDependencies_ok hfiles).entries_eq]
      exact ArchiveEntries.setAll_newPairs_perm_iff hcapacity (length_of_filesOfAll hfiles)

theorem entries_of_failed_at_source :
    ∃ caches : BuildCaches Unit, caches.Reachable ∧ caches.archives.keys = ["k"] ∧
      (prepare (.holding [("a.tar", [])]) caches
        ⟨[⟨"a.tar", some "k"⟩], ["gone.ts"], "src", "/deps", [".ts"]⟩).result =
          .error (.archive (.io "gone.ts" .notFound)) ∧
      (prepare (.holding [("a.tar", [])]) caches
        ⟨[⟨"a.tar", some "k"⟩], ["gone.ts"], "src", "/deps", [".ts"]⟩).caches.archives.entries.Perm
        caches.archives.entries := by
  -- The archive is held since a request without sources, which succeeded.
  obtain ⟨caches, hcaches, hkeys, herr, hheld⟩ : ∃ caches : BuildCaches Unit, caches.Reachable ∧
      caches.archives.keys = ["k"] ∧
      (prepare (.holding [("a.tar", [])]) caches
        ⟨[⟨"a.tar", some "k"⟩], ["gone.ts"], "src", "/deps", [".ts"]⟩).result =
          .error (.archive (.io "gone.ts" .notFound)) ∧
      (ArchiveEntries.held caches.archives.entries ⟨"a.tar", some "k"⟩).isSome :=
    ⟨_, (BuildCaches.Reachable.created ⟨1, 1⟩ rfl).prepared (.holding [("a.tar", [])])
      ⟨[⟨"a.tar", some "k"⟩], [], "src", "/deps", [".ts"]⟩, rfl, rfl, rfl⟩
  refine ⟨caches, hcaches, hkeys, herr, ?_⟩
  rcases entries_of_failed hcaches herr with
    ⟨cause, hroot, -⟩ | ⟨cause, -, -, hperm⟩ | ⟨decoded, -, hiff⟩
  · cases hroot
  · exact hperm
  · refine hiff.2 ?_
    intro archive hmem _
    obtain rfl := List.mem_singleton.1 hmem
    exact hheld

/-- A new session holds an archive after its first request, though a source was missing. -/
theorem archive_kept_though_source_missing :
    ∃ caches : BuildCaches Unit, BuildCaches.create ⟨1, 1⟩ = .ok caches ∧
      (prepare (.holding [("a.tar", [])]) caches
        ⟨[⟨"a.tar", some "k"⟩], ["gone.ts"], "src", "/deps", [".ts"]⟩).result =
          .error (.archive (.io "gone.ts" .notFound)) ∧
      ¬(prepare (.holding [("a.tar", [])]) caches
        ⟨[⟨"a.tar", some "k"⟩], ["gone.ts"], "src", "/deps", [".ts"]⟩).caches.archives.entries.Perm
        caches.archives.entries := by
  refine ⟨_, rfl, rfl, ?_⟩
  intro hperm
  exact absurd hperm.length_eq (by decide)

end Assembly
end BuildTree
