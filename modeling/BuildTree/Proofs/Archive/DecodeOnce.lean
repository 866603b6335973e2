import BuildTree.Proofs.Archive.FailedLoads
import BuildTree.Proofs.Archive.History
import BuildTree.Proofs.Cache.ReuseDistance

/-!
# Decoding once — loads that find what earlier loads kept

A load uses each checksum of its list: it looks up those that are held, and it sets the others after
all of them were decoded.  So afterwards the checksums of the list are the ones used last, and if the
cache has room for that many, none of them is forgotten; it does not matter which were held before
and what else the cache held.  A load that finds all of its checksums then sets nothing.
-/

namespace BuildTree

open LruCache

universe u v

/-! ## Caches and histories of uses -/

/-- The keys of a cache that there can be are those that some history of uses leaves. -/
theorem LruCache.Reachable.exists_follows {κ : Type u} {ν : Type v} [Ord κ] [Std.TransOrd κ]
    [DecidableEq κ] [Std.LawfulEqOrd κ] {cache : LruCache κ ν} (h : cache.Reachable) :
    ∃ entries used, 0 < cache.capacity ∧ Shows cache cache.capacity entries ∧
      RecencyList.Follows entries cache.capacity used := by
  induction h with
  | @created capacity cache new =>
    rcases Shows.of_create new with ⟨hcapacity, hshows⟩
    rw [hshows.capacity_eq]
    exact ⟨[], [], hcapacity, hshows, List.take_nil.symm⟩
  | @answered cache before request ih =>
    rcases ih with ⟨entries, used, hcapacity, hshows, hfollows⟩
    have hafter := (hshows.answer request).2
    rw [hafter.capacity_eq]
    cases request with
    | set key value => exact ⟨_, _, hcapacity, hafter, hfollows.set hcapacity key value⟩
    | contains key => exact ⟨_, _, hcapacity, hafter, hfollows⟩
    | get key =>
      by_cases hheld : key ∈ entries.map (·.1)
      · exact ⟨_, _, hcapacity, hafter, hfollows.get hcapacity hheld⟩
      · -- Looking up a key that is not there is no use of it.
        have hmissed : entries.lookup key = none :=
          Option.not_isSome_iff_eq_none.1 (mt RecencyList.isSome_lookup_iff.1 hheld)
        refine ⟨_, used, hcapacity, hafter, ?_⟩
        simpa [RecencyList.answer, RecencyList.get, hmissed] using hfollows

/-! ## The uses of a load -/

namespace ArchiveEntries

variable {capacity : Nat} {entries : ArchiveEntries} {used : List String}
  {archives : List DependencyArchive} {decoded : List FileMap}

/-- The checksums of a list that are held, in list order. -/
def heldChecksums (entries : ArchiveEntries) (archives : List DependencyArchive) : List String :=
  (archives.filterMap (·.checksum)).filter (· ∈ entries.map (·.1))

/-- Looking archives up uses the checksums that are held. -/
theorem follows_foldl_promote (hcapacity : 0 < capacity)
    (h : RecencyList.Follows entries capacity used) (archives : List DependencyArchive) :
    RecencyList.Follows (archives.foldl promote entries) capacity
      (used ++ entries.heldChecksums archives) := by
  induction archives generalizing entries used with
  | nil => rwa [heldChecksums, List.filterMap_nil, List.filter_nil, List.append_nil]
  | cons archive archives ih =>
    rw [List.foldl_cons]
    cases hchecksum : archive.checksum with
    | none =>
      rw [promote, hchecksum, heldChecksums, List.filterMap_cons_none hchecksum]
      exact ih h
    | some checksum =>
      rw [promote, hchecksum, heldChecksums, List.filterMap_cons_some hchecksum]
      dsimp only
      by_cases hheld : checksum ∈ entries.map (·.1)
      · -- Promoting it does not change which checksums are held.
        have hsame : heldChecksums (entries.get checksum).2 archives =
            entries.heldChecksums archives := by
          have hperm := (RecencyList.get_perm entries checksum).map (·.1)
          simp only [heldChecksums, hperm.mem_iff]
        have hrest := ih (h.get hcapacity hheld)
        rw [hsame, List.append_assoc] at hrest
        rw [List.filter_cons_of_pos (by simpa using hheld)]
        exact hrest
      · have hmissed : entries.lookup checksum = none :=
          Option.not_isSome_iff_eq_none.1 (mt RecencyList.isSome_lookup_iff.1 hheld)
        rw [List.filter_cons_of_neg (by simpa using hheld), RecencyList.get, hmissed]
        exact ih h

theorem follows_setAll (hcapacity : 0 < capacity) (h : RecencyList.Follows entries capacity used)
    (pairs : List (String × FileMap)) :
    RecencyList.Follows (entries.setAll capacity pairs) capacity (used ++ pairs.map (·.1)) := by
  induction pairs generalizing entries used with
  | nil => rwa [List.map_nil, List.append_nil]
  | cons pair pairs ih =>
    have hrest := ih (h.set hcapacity pair.1 pair.2)
    rwa [List.append_assoc] at hrest

/-- A load sets the checksums that were not held, in list order. -/
theorem map_fst_newPairs (hlength : archives.length = decoded.length) :
    (entries.newPairs archives decoded).map (·.1) =
      (archives.filterMap (·.checksum)).filter (· ∉ entries.map (·.1)) := by
  induction archives generalizing decoded with
  | nil => rfl
  | cons archive archives ih =>
    rcases List.exists_cons_of_length_eq_add_one hlength.symm with ⟨files, decoded, rfl⟩
    have hrest := ih (Nat.succ.inj hlength)
    rw [newPairs] at hrest ⊢
    rw [List.zip_cons_cons, List.filterMap_cons]
    cases hchecksum : archive.checksum with
    | none => simpa [hchecksum, held] using hrest
    | some checksum =>
      rw [List.filterMap_cons_some hchecksum]
      have hheld_iff : (entries.held archive).isSome ↔ checksum ∈ entries.map (·.1) := by
        rw [held, hchecksum, Option.bind_some, RecencyList.isSome_lookup_iff]
      by_cases hheld : checksum ∈ entries.map (·.1)
      · rcases Option.isSome_iff_exists.1 (hheld_iff.2 hheld) with ⟨found, hfound⟩
        rw [List.filter_cons_of_neg (by simpa using hheld)]
        simpa [hfound] using hrest
      · have hmissed := Option.not_isSome_iff_eq_none.1 (mt hheld_iff.1 hheld)
        rw [List.filter_cons_of_pos (by simpa using hheld), ← hrest]
        simp [hmissed, hchecksum]

/-- A load leaves each of its checksums in a list that has room for all of them. -/
theorem mem_setAll_of_listed (hcapacity : 0 < capacity)
    (h : RecencyList.Follows entries capacity used) (hlength : archives.length = decoded.length)
    (hroom : (archives.filterMap (·.checksum)).toFinset.card ≤ capacity) {checksum : String}
    (hlisted : checksum ∈ archives.filterMap (·.checksum)) :
    checksum ∈ ((archives.foldl promote entries).setAll capacity
      (entries.newPairs archives decoded)).map (·.1) := by
  have hafter := follows_setAll hcapacity (follows_foldl_promote hcapacity h archives)
    (entries.newPairs archives decoded)
  rw [List.append_assoc, map_fst_newPairs hlength] at hafter
  -- What the load used last are the checksums of its list, in another order.
  have hused : ∀ key, key ∈ entries.heldChecksums archives ++
      (archives.filterMap (·.checksum)).filter (· ∉ entries.map (·.1)) ↔
        key ∈ archives.filterMap (·.checksum) := by
    intro key
    rw [heldChecksums, List.mem_append, List.mem_filter, List.mem_filter, ← and_or_left,
      decide_eq_true_iff, decide_eq_true_iff]
    exact and_iff_left (Classical.em _)
  have hsame := List.toFinset.ext hused
  rw [hafter.mem_iff]
  exact mem_take_recentKeys_append (hsame ▸ hroom) used ((hused checksum).2 hlisted)

end ArchiveEntries

/-! ## Loads that repeat -/

/-- A load for which the cache has every archive with a checksum, so that it decodes the others only
and sets nothing. -/
structure DecodedArchives.Supplies (cache : DecodedArchives) (request : LoadRequest) : Prop where
  /-- An archive is found just if it has a checksum. -/
  found_eq : (cache.probeAll request.archives).1.map Option.isSome =
    request.archives.map (·.checksum.isSome)
  missCount_eq : cache.missCount request.archives =
    request.archives.countP (·.checksum.isNone)
  /-- What the disk has of an archive with a checksum makes no difference. -/
  load_eq : ∀ disk : FileStore, (∀ archive ∈ request.archives, archive.checksum = none →
      disk.read archive.name = request.disk.read archive.name) →
    loadDependencies disk cache request.archives =
      loadDependencies request.disk cache request.archives
  /-- The look-ups are all that is done to the cache. -/
  after_eq : (loadDependencies request.disk cache request.archives).2 =
    (cache.probeAll request.archives).2
  entries_perm : (loadDependencies request.disk cache request.archives).2.entries.Perm cache.entries
  contains_eq : ∀ checksum, (loadDependencies request.disk cache request.archives).2.contains
    checksum = cache.contains checksum

section Repeated

variable {cache : DecodedArchives} {capacity : Nat} {entries : ArchiveEntries}
  {disk : FileStore} {archives : List DependencyArchive} {merged : MergedArchives}

/-- Where every archive with a checksum was found, nothing is kept. -/
theorem DecodedArchives.keepAll_of_found {archives : List DependencyArchive}
    {hits : List (Option FileMap)}
    (hfound : hits.map Option.isSome = archives.map (·.checksum.isSome))
    (decoded : List FileMap) : cache.keepAll archives hits decoded = cache := by
  induction archives generalizing hits decoded with
  | nil => rfl
  | cons archive archives ih =>
    cases hits with
    | nil => rfl
    | cons hit hits =>
      rcases List.cons.inj hfound with ⟨hfirst, hrest⟩
      cases decoded with
      | nil => rfl
      | cons files decoded =>
        have hkept : cache.keep archive hit files = cache := by
          unfold keep
          split
          · rename_i hchecksum
            simp [hchecksum] at hfirst
          · rfl
        rw [keepAll, hkept]
        exact ih hrest decoded

/-- A cache that holds the checksums of a list supplies every load of the list. -/
theorem LruCache.Shows.supplies (h : Shows cache capacity entries) {request : LoadRequest}
    (hheld : ∀ checksum ∈ request.archives.filterMap (·.checksum),
      checksum ∈ entries.map (·.1)) : cache.Supplies request := by
  rcases h.probeAll request.archives with ⟨hhits, hprobed⟩
  have hsome : ∀ archive ∈ request.archives,
      (entries.held archive).isSome = archive.checksum.isSome := by
    intro archive hmem
    cases hchecksum : archive.checksum with
    | none => rw [ArchiveEntries.held, hchecksum]; rfl
    | some checksum =>
      rw [ArchiveEntries.held, hchecksum, Option.bind_some, Option.isSome_some,
        RecencyList.isSome_lookup_iff]
      exact hheld checksum (List.mem_filterMap.2 ⟨archive, hmem, hchecksum⟩)
  have hfound : (cache.probeAll request.archives).1.map Option.isSome =
      request.archives.map (·.checksum.isSome) := by
    rw [hhits, List.map_map]
    exact List.map_congr_left hsome
  have hafter : ∀ disk, (loadDependencies disk cache request.archives).2 =
      (cache.probeAll request.archives).2 := by
    intro disk
    rw [loadDependencies]
    dsimp only
    split
    · rfl
    · exact DecodedArchives.keepAll_of_found hfound _
  have hperm : (cache.probeAll request.archives).2.entries.Perm cache.entries := by
    rw [hprobed.entries_eq, h.entries_eq]
    exact ArchiveEntries.foldl_promote_perm request.archives
  have hfiles : ∀ disk : FileStore, (∀ archive ∈ request.archives, archive.checksum = none →
      disk.read archive.name = request.disk.read archive.name) →
      filesOfAll disk entries request.archives = filesOfAll request.disk entries request.archives := by
    intro disk hread
    refine mapM_congr_of_mem fun archive hmem => ?_
    cases hheld : entries.held archive with
    | some files => rfl
    | none =>
      have hchecksum : archive.checksum = none := by
        rw [← Option.isNone_iff_eq_none, ← Option.not_isSome, ← hsome archive hmem, hheld]
        rfl
      simp only [DependencyArchive.filesOf, DependencyArchive.decode, hread archive hmem hchecksum]
  refine ⟨hfound, ?_, ?_, hafter request.disk, ?_, ?_⟩
  · have hcount := congrArg (List.countP (!·)) hfound
    rw [List.countP_map, List.countP_map] at hcount
    rw [DecodedArchives.missCount, ← List.countP_eq_length_filter]
    simpa [Function.comp_def] using hcount
  · intro disk hread
    refine Prod.ext ?_ ((hafter disk).trans (hafter request.disk).symm)
    rw [h.loadDependencies_fst, h.loadDependencies_fst, hfiles disk hread]
  · rw [hafter]
    exact hperm
  · intro checksum
    rw [hafter, hprobed.contains_eq, h.contains_eq, ArchiveEntries.lookup_foldl_promote]

/-- After a load whose checksums fit into the cache all of them are held, whatever was held before
it.  Any later load of some of them decodes no archive with a checksum, gives up no entry, and leaves
the same checksums held. -/
theorem loadDependencies_holds_listed (hcache : cache.Reachable)
    (hloaded : (loadDependencies disk cache archives).1 = .ok merged)
    (hroom : (archives.filterMap (·.checksum)).toFinset.card ≤ cache.capacity) :
    (∀ checksum ∈ archives.filterMap (·.checksum),
      (loadDependencies disk cache archives).2.contains checksum = true) ∧
    ∀ later : LoadRequest,
      later.archives.filterMap (·.checksum) ⊆ archives.filterMap (·.checksum) →
        (loadDependencies disk cache archives).2.Supplies later := by
  rcases hcache.exists_follows with ⟨entries, used, hcapacity, hshows, hfollows⟩
  rw [hshows.loadDependencies_fst] at hloaded
  rcases map_eq_ok_iff.1 hloaded with ⟨decoded, hdecoded, -⟩
  have hafter := hshows.loadDependencies_ok hdecoded
  have hlength := length_of_filesOfAll hdecoded
  have hlisted := fun checksum (hmem : checksum ∈ archives.filterMap (·.checksum)) =>
    ArchiveEntries.mem_setAll_of_listed hcapacity hfollows hlength hroom hmem
  constructor
  · intro checksum hmem
    rw [hafter.contains_eq]
    exact RecencyList.isSome_lookup_iff.2 (hlisted checksum hmem)
  · intro later hlater
    exact hafter.supplies fun checksum hmem => hlisted checksum (hlater hmem)

theorem loadDependencies_holds_listed_full_cache :
    ∃ cache : DecodedArchives, cache.Reachable ∧ cache.capacity = 2 ∧ cache.keys = ["x", "k"] ∧
      (loadDependencies (.holding [("n.tar", [])]) cache
        [⟨"k.tar", some "k"⟩, ⟨"n.tar", some "n"⟩, ⟨"n.tar", some "n"⟩]).1 = .ok .empty ∧
      (loadDependencies (.holding [("n.tar", [])]) cache
        [⟨"k.tar", some "k"⟩, ⟨"n.tar", some "n"⟩, ⟨"n.tar", some "n"⟩]).2.contains "k" = true ∧
      (loadDependencies (.holding [("n.tar", [])]) cache
        [⟨"k.tar", some "k"⟩, ⟨"n.tar", some "n"⟩, ⟨"n.tar", some "n"⟩]).2.Supplies
          ⟨.holding [("free.tar", [])], [⟨"n.tar", some "n"⟩, ⟨"free.tar", none⟩]⟩ := by
  obtain ⟨cache, hcache, hcapacity, hkeys, hloaded⟩ : ∃ cache : DecodedArchives,
      cache.Reachable ∧ cache.capacity = 2 ∧ cache.keys = ["x", "k"] ∧
      (loadDependencies (.holding [("n.tar", [])]) cache
        [⟨"k.tar", some "k"⟩, ⟨"n.tar", some "n"⟩, ⟨"n.tar", some "n"⟩]).1 = .ok .empty := by
    have hnew : (LruCache.empty 2 : DecodedArchives).Reachable :=
      .created (show LruCache.create 2 = .ok _ from rfl)
    exact ⟨_, (hnew.answered (.set "k" ∅)).answered (.set "x" ∅), rfl, rfl, rfl⟩
  have hroom : ([⟨"k.tar", some "k"⟩, ⟨"n.tar", some "n"⟩, ⟨"n.tar", some "n"⟩].filterMap
      DependencyArchive.checksum).toFinset.card ≤ cache.capacity := by
    rw [hcapacity]
    decide
  rcases loadDependencies_holds_listed hcache hloaded hroom with ⟨hheld, hsupplies⟩
  exact ⟨cache, hcache, hcapacity, hkeys, hloaded, hheld "k" (by decide),
    hsupplies _ (by decide)⟩

end Repeated

end BuildTree
