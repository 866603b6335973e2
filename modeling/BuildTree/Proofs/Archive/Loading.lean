import BuildTree.Archive.Merge
import BuildTree.Proofs.Cache.Recency
import BuildTree.Proofs.Calls
import BuildTree.Tar.Pack

/-!
# Loading archives — what a load takes from its cache and leaves there

A load promotes the checksums it finds, in list order, and that is all a failed load does.  One that
succeeds then sets what it decoded, in list order.  What it merges is, for each archive, what was
held before the load or else what is on disk.
-/

namespace BuildTree

open LruCache

/-- A disk with files right below its root, where its user works. -/
def FileStore.holding (files : List (String × Bytes)) : FileStore where
  workingDirectory := []
  nodes := files.foldl (fun nodes file => nodes.insert [file.1] (.file file.2)) ∅

/-- An archive of one file, whose name fits into its header. -/
def Tar.archiveOf (name : String) (data : Bytes) : Bytes :=
  fileHeader (Bytes.ofString name) data.length ++ (data ++ padding data.length)

/-! ## Lists of decoded archives -/

/-- Decoded archives by checksum, the most recently used one first. -/
abbrev ArchiveEntries := RecencyList String FileMap

namespace ArchiveEntries

/-- What is held for an archive. -/
def held (entries : ArchiveEntries) (archive : DependencyArchive) : Option FileMap :=
  archive.checksum.bind fun checksum => entries.lookup checksum

/-- The list after an archive was looked up. -/
def promote (entries : ArchiveEntries) (archive : DependencyArchive) : ArchiveEntries :=
  match archive.checksum with
  | some checksum => (entries.get checksum).2
  | none => entries

/-- What a load keeps: the archives that were decoded though they have a checksum. -/
def newPairs (entries : ArchiveEntries) (archives : List DependencyArchive)
    (decoded : List FileMap) : List (String × FileMap) :=
  (archives.zip decoded).filterMap fun (archive, files) =>
    if (entries.held archive).isNone then archive.checksum.map (·, files) else none

/-- Pairs set one after the other. -/
def setAll (capacity : Nat) (entries : ArchiveEntries) (pairs : List (String × FileMap)) :
    ArchiveEntries :=
  pairs.foldl (fun entries pair => (entries.set capacity pair.1 pair.2).2) entries

section Laws

variable {capacity : Nat} {entries : ArchiveEntries} {archives : List DependencyArchive}
  {decoded : List FileMap}

theorem lookup_promote (archive : DependencyArchive) (key : String) :
    (entries.promote archive).lookup key = entries.lookup key := by
  rw [promote]
  split
  · exact RecencyList.lookup_get entries _ key
  · rfl

theorem held_promote (archive other : DependencyArchive) :
    (entries.promote archive).held other = entries.held other := by
  simp only [held, lookup_promote]

theorem foldl_promote_perm (archives : List DependencyArchive) :
    (archives.foldl promote entries).Perm entries := by
  induction archives generalizing entries with
  | nil => exact List.Perm.refl entries
  | cons archive archives ih =>
    have hone : (entries.promote archive).Perm entries := by
      rw [promote]
      split
      · exact RecencyList.get_perm entries _
      · exact List.Perm.refl entries
    exact ih.trans hone

theorem mem_of_mem_setAll {pairs : List (String × FileMap)} {entry : String × FileMap}
    (h : entry ∈ setAll capacity entries pairs) : entry ∈ pairs ∨ entry ∈ entries := by
  induction pairs generalizing entries with
  | nil => exact Or.inr h
  | cons pair pairs ih =>
    rcases ih h with hpairs | hset
    · exact Or.inl (List.mem_cons_of_mem pair hpairs)
    · rcases RecencyList.mem_of_mem_set hset with rfl | hold
      · exact Or.inl List.mem_cons_self
      · exact Or.inr hold

theorem lookup_of_mem_newPairs {pair : String × FileMap}
    (h : pair ∈ entries.newPairs archives decoded) : entries.lookup pair.1 = none := by
  rcases List.mem_filterMap.1 h with ⟨⟨archive, files⟩, -, hpair⟩
  dsimp only at hpair
  split at hpair
  · rename_i hnew
    rcases Option.map_eq_some_iff.1 hpair with ⟨checksum, hchecksum, rfl⟩
    simpa [held, hchecksum] using hnew
  · cases hpair

/-- Nothing is new just if every checksum that is listed was found. -/
theorem newPairs_eq_nil_iff (hlength : archives.length = decoded.length) :
    entries.newPairs archives decoded = [] ↔
      ∀ archive ∈ archives, archive.checksum.isSome → (entries.held archive).isSome := by
  rw [newPairs, List.filterMap_eq_nil_iff]
  constructor
  · intro hnone archive hmem hchecksum
    rw [← List.map_fst_zip (Nat.le_of_eq hlength)] at hmem
    rcases List.mem_map.1 hmem with ⟨entry, hentry, rfl⟩
    have hkept := hnone entry hentry
    by_contra hheld
    rcases Option.isSome_iff_exists.1 hchecksum with ⟨checksum, hsome⟩
    simp [hsome, Option.not_isSome_iff_eq_none.1 hheld] at hkept
  · rintro hheld ⟨archive, files⟩ hentry
    have hfound := hheld archive (List.of_mem_zip hentry).1
    cases hchecksum : archive.checksum with
    | none => simp [hchecksum]
    | some checksum =>
      rcases Option.isSome_iff_exists.1 (hfound (by simp [hchecksum])) with ⟨held, hsome⟩
      simp [hsome]

/-- The last pair that is set stays. -/
theorem exists_mem_setAll (hcapacity : 0 < capacity) (entries : ArchiveEntries)
    {pairs : List (String × FileMap)} (hpairs : pairs ≠ []) :
    ∃ pair ∈ pairs, pair ∈ setAll capacity entries pairs := by
  rcases List.eq_nil_or_concat pairs with hnil | ⟨earlier, last, rfl⟩
  · exact absurd hnil hpairs
  · refine ⟨last, by simp, ?_⟩
    rw [setAll, List.concat_eq_append, List.foldl_append]
    exact RecencyList.mem_set_self hcapacity

/-- Looking archives up and setting what was new for a load only reorders a list just if nothing was
new. -/
theorem setAll_newPairs_perm_iff (hcapacity : 0 < capacity)
    (hlength : archives.length = decoded.length) :
    ((archives.foldl promote entries).setAll capacity (entries.newPairs archives decoded)).Perm
        entries ↔
      ∀ archive ∈ archives, archive.checksum.isSome → (entries.held archive).isSome := by
  rw [← newPairs_eq_nil_iff hlength]
  constructor
  · -- A new pair would be among the entries, under a key that they do not have.
    intro hperm
    by_contra hnew
    rcases exists_mem_setAll hcapacity (archives.foldl promote entries) hnew with
      ⟨pair, hpair, hmem⟩
    have hfound := List.lookup_eq_none_iff.1 (lookup_of_mem_newPairs hpair) pair
      (hperm.mem_iff.1 hmem)
    simp at hfound
  · intro hnone
    rw [hnone]
    exact foldl_promote_perm archives

end Laws

end ArchiveEntries

/-! ## Loads -/

section Loads

variable {cache : DecodedArchives} {capacity : Nat} {entries : ArchiveEntries}

theorem LruCache.Shows.probe (h : Shows cache capacity entries) (archive : DependencyArchive) :
    (cache.probe archive).1 = entries.held archive ∧
      Shows (cache.probe archive).2 capacity (entries.promote archive) := by
  rw [DecodedArchives.probe, ArchiveEntries.held, ArchiveEntries.promote]
  cases archive.checksum with
  | none => exact ⟨rfl, h⟩
  | some checksum =>
    rcases h.get checksum with ⟨hfound, hafter⟩
    exact ⟨hfound.trans (RecencyList.fst_get entries checksum), hafter⟩

/-- Looking archives up finds what was held before the first was looked up. -/
theorem LruCache.Shows.probeAll (h : Shows cache capacity entries)
    (archives : List DependencyArchive) :
    (cache.probeAll archives).1 = archives.map entries.held ∧
      Shows (cache.probeAll archives).2 capacity (archives.foldl ArchiveEntries.promote entries) := by
  induction archives generalizing cache entries with
  | nil => exact ⟨rfl, h⟩
  | cons archive archives ih =>
    rcases h.probe archive with ⟨hhit, hafter⟩
    rcases ih hafter with ⟨hhits, hrest⟩
    refine ⟨?_, hrest⟩
    rw [DecodedArchives.probeAll, List.map_cons, ← hhit]
    refine congrArg (List.cons _) (hhits.trans ?_)
    -- What was promoted meanwhile is still held, and nothing else is.
    exact List.map_congr_left fun other _ => ArchiveEntries.held_promote archive other

theorem LruCache.Shows.keep (h : Shows cache capacity entries) (before : ArchiveEntries)
    (archive : DependencyArchive) (files : FileMap) :
    Shows (cache.keep archive (before.held archive) files) capacity
      (entries.setAll capacity (before.newPairs [archive] [files])) := by
  cases hheld : before.held archive with
  | some held =>
    simpa [DecodedArchives.keep, ArchiveEntries.newPairs, ArchiveEntries.setAll, hheld] using h
  | none =>
    -- Without a checksum there is nothing to keep the archive under.
    cases hchecksum : archive.checksum with
    | none =>
      simpa [DecodedArchives.keep, ArchiveEntries.newPairs, ArchiveEntries.setAll, hheld,
        hchecksum] using h
    | some checksum =>
      simpa [DecodedArchives.keep, ArchiveEntries.newPairs, ArchiveEntries.setAll, hheld,
        hchecksum] using (h.set checksum files).2

/-- Keeping archives sets the pairs of those that were not held before. -/
theorem LruCache.Shows.keepAll (h : Shows cache capacity entries) (before : ArchiveEntries)
    (archives : List DependencyArchive) (decoded : List FileMap) :
    Shows (cache.keepAll archives (archives.map before.held) decoded) capacity
      (entries.setAll capacity (before.newPairs archives decoded)) := by
  induction archives generalizing cache entries decoded with
  | nil => exact h
  | cons archive archives ih =>
    cases decoded with
    | nil => exact h
    | cons files decoded =>
      have hsplit : before.newPairs (archive :: archives) (files :: decoded) =
          before.newPairs [archive] [files] ++ before.newPairs archives decoded := by
        rw [ArchiveEntries.newPairs, ArchiveEntries.newPairs, ArchiveEntries.newPairs,
          ← List.filterMap_append]
        rfl
      rw [List.map_cons, DecodedArchives.keepAll, hsplit, ArchiveEntries.setAll, List.foldl_append]
      exact ih (h.keep before archive files) decoded

/-- What archives hold, each taken from the cache or from disk. -/
theorem DependencyArchive.decodeAll_map (disk : FileStore)
    (hit : DependencyArchive → Option FileMap) (archives : List DependencyArchive) :
    DependencyArchive.decodeAll disk archives (archives.map hit) =
      archives.mapM fun archive => archive.filesOf disk (hit archive) := by
  induction archives with
  | nil => rfl
  | cons archive archives ih =>
    rw [List.map_cons, DependencyArchive.decodeAll, ih, List.mapM_cons]
    cases archive.filesOf disk (hit archive) with
    | error err => rfl
    | ok files =>
      cases archives.mapM fun archive => archive.filesOf disk (hit archive) <;> rfl

/-- What archives hold, each taken from a list of decoded archives or else from disk. -/
def filesOfAll (disk : FileStore) (entries : ArchiveEntries) (archives : List DependencyArchive) :
    Except FileError (List FileMap) :=
  archives.mapM fun archive => archive.filesOf disk (entries.held archive)

/-- A load merges what is held or decoded for each archive. -/
theorem LruCache.Shows.loadDependencies_fst (h : Shows cache capacity entries) (disk : FileStore)
    (archives : List DependencyArchive) :
    (loadDependencies disk cache archives).1 =
      (filesOfAll disk entries archives).map fun decoded =>
        MergedArchives.merge ((archives.map (·.name)).zip decoded) := by
  rcases h.probeAll archives with ⟨hhits, -⟩
  have hdecode := DependencyArchive.decodeAll_map disk entries.held archives
  simp only [loadDependencies, hhits, hdecode, filesOfAll]
  cases archives.mapM fun archive => archive.filesOf disk (entries.held archive) <;> rfl

theorem length_of_filesOfAll {disk : FileStore} {archives : List DependencyArchive}
    {decoded : List FileMap} (h : filesOfAll disk entries archives = .ok decoded) :
    archives.length = decoded.length :=
  (mapM_eq_ok_iff.1 h).length_eq

/-- A load that fails leaves its cache with the archives that it looked up promoted. -/
theorem LruCache.Shows.loadDependencies_error (h : Shows cache capacity entries) {disk : FileStore}
    {archives : List DependencyArchive} {err : FileError}
    (herr : filesOfAll disk entries archives = .error err) :
    Shows (loadDependencies disk cache archives).2 capacity
      (archives.foldl ArchiveEntries.promote entries) := by
  rcases h.probeAll archives with ⟨hhits, hafter⟩
  have hdecode := DependencyArchive.decodeAll_map disk entries.held archives
  rw [filesOfAll] at herr
  simp only [loadDependencies, hhits, hdecode, herr]
  exact hafter

/-- A load that succeeds then sets what it decoded. -/
theorem LruCache.Shows.loadDependencies_ok (h : Shows cache capacity entries) {disk : FileStore}
    {archives : List DependencyArchive} {decoded : List FileMap}
    (hok : filesOfAll disk entries archives = .ok decoded) :
    Shows (loadDependencies disk cache archives).2 capacity
      ((archives.foldl ArchiveEntries.promote entries).setAll capacity
        (entries.newPairs archives decoded)) := by
  rcases h.probeAll archives with ⟨hhits, hafter⟩
  have hdecode := DependencyArchive.decodeAll_map disk entries.held archives
  rw [filesOfAll] at hok
  simp only [loadDependencies, hhits, hdecode, hok]
  exact hafter.keepAll entries archives decoded

/-! ### Caches in use -/

theorem LruCache.Reachable.probe (h : cache.Reachable) (archive : DependencyArchive) :
    (cache.probe archive).2.Reachable := by
  rw [DecodedArchives.probe]
  cases archive.checksum with
  | none => exact h
  | some checksum => exact h.answered (.get checksum)

theorem LruCache.Reachable.probeAll (h : cache.Reachable) (archives : List DependencyArchive) :
    (cache.probeAll archives).2.Reachable := by
  induction archives generalizing cache with
  | nil => exact h
  | cons archive archives ih => exact ih (h.probe archive)

theorem LruCache.Reachable.keep (h : cache.Reachable) (archive : DependencyArchive)
    (hit : Option FileMap) (files : FileMap) : (cache.keep archive hit files).Reachable := by
  unfold DecodedArchives.keep
  split
  · exact h.answered (.set _ files)
  · exact h

theorem LruCache.Reachable.keepAll (h : cache.Reachable) (archives : List DependencyArchive)
    (hits : List (Option FileMap)) (decoded : List FileMap) :
    (cache.keepAll archives hits decoded).Reachable := by
  induction archives generalizing cache hits decoded with
  | nil => exact h
  | cons archive archives ih =>
    cases hits with
    | nil => exact h
    | cons hit hits =>
      cases decoded with
      | nil => exact h
      | cons files decoded => exact ih (h.keep archive hit files) hits decoded

/-- A load leaves a cache that there can be. -/
theorem LruCache.Reachable.loadDependencies (h : cache.Reachable) (disk : FileStore)
    (archives : List DependencyArchive) : (loadDependencies disk cache archives).2.Reachable := by
  have hprobed := h.probeAll archives
  rw [BuildTree.loadDependencies]
  dsimp only
  split
  · exact hprobed
  · exact hprobed.keepAll archives _ _

end Loads

end BuildTree
