import BuildTree.Proofs.Archive.Loading

/-!
# Failed loads — a cache keeps what it held

A load looks its checksums up before it decodes anything, and it sets what it decoded only after all
of that succeeded.  So a load that fails, wherever in the list the archive is that it fails at, has
done nothing to the cache but look-ups, and those move the checksums that are held to the front, one
after the other.
-/

namespace BuildTree

open LruCache

namespace ArchiveEntries

variable {entries : ArchiveEntries}

/-- Keys after one of them was used; a key that is not there changes nothing. -/
def promoteKey (keys : List String) (key : String) : List String :=
  if key ∈ keys then key :: keys.erase key else keys

theorem map_fst_promote (archive : DependencyArchive) :
    (entries.promote archive).map (·.1) =
      archive.checksum.toList.foldl promoteKey (entries.map (·.1)) := by
  rw [promote]
  cases archive.checksum with
  | none => rfl
  | some checksum =>
    dsimp only
    rw [Option.toList_some, List.foldl_cons, List.foldl_nil, promoteKey]
    by_cases hheld : checksum ∈ entries.map (·.1)
    · rw [if_pos hheld, RecencyList.map_fst_get hheld]
    · have hmissed : entries.lookup checksum = none :=
        Option.not_isSome_iff_eq_none.1 (mt RecencyList.isSome_lookup_iff.1 hheld)
      rw [if_neg hheld, RecencyList.get, hmissed]

/-- Looking archives up promotes their checksums in list order. -/
theorem map_fst_foldl_promote (archives : List DependencyArchive) :
    (archives.foldl promote entries).map (·.1) =
      (archives.filterMap (·.checksum)).foldl promoteKey (entries.map (·.1)) := by
  induction archives generalizing entries with
  | nil => rfl
  | cons archive archives ih =>
    rw [List.foldl_cons, ih, map_fst_promote, ← List.foldl_append, List.filterMap_cons]
    cases archive.checksum <;> rfl

theorem lookup_foldl_promote (archives : List DependencyArchive) (key : String) :
    (archives.foldl promote entries).lookup key = entries.lookup key := by
  induction archives generalizing entries with
  | nil => rfl
  | cons archive archives ih => rw [List.foldl_cons, ih, lookup_promote]

end ArchiveEntries

/-- A cache that differs from an earlier one only in that checksums were promoted. -/
structure DecodedArchives.OnlyPromoted (before after : DecodedArchives) (checksums : List String) :
    Prop where
  reachable : after.Reachable
  capacity_eq : after.capacity = before.capacity
  size_eq : after.size = before.size
  entries_perm : after.entries.Perm before.entries
  get_eq : ∀ checksum, (after.get checksum).1 = (before.get checksum).1
  keys_eq : after.keys = checksums.foldl ArchiveEntries.promoteKey before.keys

section Failure

variable {cache : DecodedArchives} {disk : FileStore} {archives : List DependencyArchive}
  {err : FileError}

theorem LruCache.Shows.fst_get {capacity : Nat} {entries : ArchiveEntries}
    (h : Shows cache capacity entries) (checksum : String) :
    (cache.get checksum).1 = entries.lookup checksum :=
  (h.get checksum).1.trans (RecencyList.fst_get entries checksum)

/-- A load that fails leaves its cache with everything that it held and with nothing else; only the
checksums of the list that were held have been promoted, in list order. -/
theorem loadDependencies_failed (hcache : cache.Reachable)
    (herr : (loadDependencies disk cache archives).1 = .error err) :
    cache.OnlyPromoted (loadDependencies disk cache archives).2
      (archives.filterMap (·.checksum)) := by
  rcases hcache.exists_shows with ⟨capacity, -, hshows⟩
  have hafter : Shows (loadDependencies disk cache archives).2 capacity
      (archives.foldl ArchiveEntries.promote cache.entries) := by
    -- The load failed while it decoded, so that nothing was set.
    rw [hshows.loadDependencies_fst] at herr
    cases hfiles : filesOfAll disk cache.entries archives with
    | error cause => exact hshows.loadDependencies_error hfiles
    | ok decoded =>
      rw [hfiles] at herr
      cases herr
  have hperm : (archives.foldl ArchiveEntries.promote cache.entries).Perm cache.entries :=
    ArchiveEntries.foldl_promote_perm archives
  refine ⟨hcache.loadDependencies disk archives, ?_, ?_, ?_, ?_, ?_⟩
  · rw [hafter.capacity_eq, hshows.capacity_eq]
  · rw [hafter.size_eq, hshows.size_eq, hperm.length_eq]
  · rw [hafter.entries_eq]
    exact hperm
  · intro checksum
    rw [hafter.fst_get, hshows.fst_get, ArchiveEntries.lookup_foldl_promote]
  · rw [hafter.keys_eq, hshows.keys_eq, ArchiveEntries.map_fst_foldl_promote]

theorem loadDependencies_failed_between_hits :
    ∃ cache : DecodedArchives, cache.Reachable ∧ cache.keys = ["n", "m", "k"] ∧
      (loadDependencies (.holding [("new.tar", [])]) cache
        [⟨"m.tar", some "m"⟩, ⟨"new.tar", some "new"⟩, ⟨"gone.tar", none⟩, ⟨"k.tar", some "k"⟩,
          ⟨"m.tar", some "m"⟩]).1 = .error (.io "gone.tar" .notFound) ∧
      (loadDependencies (.holding [("new.tar", [])]) cache
        [⟨"m.tar", some "m"⟩, ⟨"new.tar", some "new"⟩, ⟨"gone.tar", none⟩, ⟨"k.tar", some "k"⟩,
          ⟨"m.tar", some "m"⟩]).2.keys = ["m", "k", "n"] ∧
      (loadDependencies (.holding [("new.tar", [])]) cache
        [⟨"m.tar", some "m"⟩, ⟨"new.tar", some "new"⟩, ⟨"gone.tar", none⟩, ⟨"k.tar", some "k"⟩,
          ⟨"m.tar", some "m"⟩]).2.entries.Perm cache.entries := by
  obtain ⟨cache, hcache, hkeys, herr⟩ : ∃ cache : DecodedArchives, cache.Reachable ∧
      cache.keys = ["n", "m", "k"] ∧
      (loadDependencies (.holding [("new.tar", [])]) cache
        [⟨"m.tar", some "m"⟩, ⟨"new.tar", some "new"⟩, ⟨"gone.tar", none⟩, ⟨"k.tar", some "k"⟩,
          ⟨"m.tar", some "m"⟩]).1 = .error (.io "gone.tar" .notFound) := by
    have hnew : (LruCache.empty 3 : DecodedArchives).Reachable :=
      .created (show LruCache.create 3 = .ok _ from rfl)
    exact ⟨_, ((hnew.answered (.set "k" ∅)).answered (.set "m" ∅)).answered (.set "n" ∅), rfl, rfl⟩
  have hpromoted := loadDependencies_failed hcache herr
  refine ⟨cache, hcache, hkeys, herr, ?_, hpromoted.entries_perm⟩
  rw [hpromoted.keys_eq, hkeys]
  rfl

end Failure

end BuildTree
