import BuildTree.Proofs.Archive.Loading
import BuildTree.Proofs.Archive.Merge

/-!
# Histories of loads — a cache that cannot be told from decoding

A checksum stands for contents: every archive that is listed with it has those contents on the disk
at hand.  As long as requests keep to that, what a cache holds under a checksum is what its contents
decode to, whatever was promoted, overwritten or evicted and whichever loads failed.  So no load of
a history differs from one that decodes every archive.
-/

namespace BuildTree

open LruCache

/-- A load that is asked for, and the disk as it is by then. -/
structure LoadRequest where
  disk : FileStore
  archives : List DependencyArchive

namespace LoadRequest

/-- The load without a cache: every archive is decoded. -/
def afresh (request : LoadRequest) : Except FileError MergedArchives :=
  (request.archives.mapM (DependencyArchive.decode request.disk)).map fun decoded =>
    MergedArchives.merge ((request.archives.map (·.name)).zip decoded)

/-- Every archive with a checksum has the contents that the checksum stands for. -/
def KeepsTo (contents : String → Bytes) (request : LoadRequest) : Prop :=
  ∀ archive ∈ request.archives, ∀ checksum, archive.checksum = some checksum →
    request.disk.read archive.name = .ok (contents checksum)

/-- Loads through one cache, one after the other. -/
def runAll : DecodedArchives → List LoadRequest → List (Except FileError MergedArchives)
  | _, [] => []
  | cache, request :: requests =>
      let (loaded, cache) := loadDependencies request.disk cache request.archives
      loaded :: runAll cache requests

end LoadRequest

/-- Every archive that is held is what the contents of its checksum decode to. -/
def ArchiveEntries.AllDecoded (contents : String → Bytes) (entries : ArchiveEntries) : Prop :=
  ∀ entry ∈ entries, Tar.unpack (contents entry.1) = .ok entry.2

/-! ## What one load preserves -/

section Step

variable {contents : String → Bytes} {cache : DecodedArchives} {capacity : Nat}
  {entries : ArchiveEntries} {request : LoadRequest}

theorem DependencyArchive.decode_eq_ok_iff {disk : FileStore} {archive : DependencyArchive}
    {bytes : Bytes} {files : FileMap} (hread : disk.read archive.name = .ok bytes) :
    archive.decode disk = .ok files ↔ Tar.unpack bytes = .ok files := by
  simp only [decode, hread]
  cases Tar.unpack bytes <;> simp

theorem DependencyArchive.error?_of_decode {disk : FileStore} {archive : DependencyArchive}
    {files : FileMap} (h : archive.decode disk = .ok files) {path : String} {data : Bytes}
    (hheld : files[path]? = some data) : Path.error? path = none := by
  cases hread : disk.read archive.name with
  | error cause => simp [decode, hread] at h
  | ok bytes => exact Tar.error?_of_unpack ((decode_eq_ok_iff hread).1 h) hheld

namespace ArchiveEntries

theorem AllDecoded.decode_of_held (h : AllDecoded contents entries)
    (hrequest : request.KeepsTo contents) {archive : DependencyArchive} {files : FileMap}
    (hmem : archive ∈ request.archives) (hheld : entries.held archive = some files) :
    archive.decode request.disk = .ok files := by
  rcases Option.bind_eq_some_iff.1 hheld with ⟨checksum, hchecksum, hlookup⟩
  rcases RecencyList.exists_of_lookup hlookup with ⟨front, back, hsplit, -⟩
  have hentry : (checksum, files) ∈ entries := by simp [hsplit]
  have hread := hrequest archive hmem checksum hchecksum
  exact (DependencyArchive.decode_eq_ok_iff hread).2 (h _ hentry)

/-- What is held makes no difference to what a load decodes. -/
theorem AllDecoded.filesOfAll_eq (h : AllDecoded contents entries)
    (hrequest : request.KeepsTo contents) :
    filesOfAll request.disk entries request.archives =
      request.archives.mapM (DependencyArchive.decode request.disk) := by
  refine mapM_congr_of_mem fun archive hmem => ?_
  cases hheld : entries.held archive with
  | none => rfl
  | some files => exact (h.decode_of_held hrequest hmem hheld).symm

theorem AllDecoded.foldl_promote (h : AllDecoded contents entries)
    (archives : List DependencyArchive) :
    AllDecoded contents (archives.foldl promote entries) := by
  intro entry hmem
  exact h entry ((foldl_promote_perm archives).mem_iff.1 hmem)

theorem AllDecoded.setAll (h : AllDecoded contents entries) {pairs : List (String × FileMap)}
    (hpairs : ∀ pair ∈ pairs, Tar.unpack (contents pair.1) = .ok pair.2) :
    AllDecoded contents (entries.setAll capacity pairs) := by
  intro entry hmem
  rcases mem_of_mem_setAll hmem with hnew | hold
  · exact hpairs entry hnew
  · exact h entry hold

/-- What a load keeps is decoded from the contents of the checksums. -/
theorem unpack_of_mem_newPairs (hrequest : request.KeepsTo contents) {decoded : List FileMap}
    (hdecoded : request.archives.mapM (DependencyArchive.decode request.disk) = .ok decoded)
    {pair : String × FileMap} (hmem : pair ∈ entries.newPairs request.archives decoded) :
    Tar.unpack (contents pair.1) = .ok pair.2 := by
  rcases List.mem_filterMap.1 hmem with ⟨⟨archive, files⟩, hzip, hpair⟩
  have hdecode := List.forall₂_zip (mapM_eq_ok_iff.1 hdecoded) hzip
  dsimp only at hpair
  split at hpair
  · rcases Option.map_eq_some_iff.1 hpair with ⟨checksum, hchecksum, rfl⟩
    have hread := hrequest archive (List.of_mem_zip hzip).1 checksum hchecksum
    exact (DependencyArchive.decode_eq_ok_iff hread).1 hdecode
  · cases hpair

end ArchiveEntries

/-- A load through a cache that holds decoded archives gives what decoding gives, and the cache
holds decoded archives afterwards. -/
theorem LruCache.Shows.loadDependencies_decoded (h : Shows cache capacity entries)
    (hdecoded : entries.AllDecoded contents) (hrequest : request.KeepsTo contents) :
    (loadDependencies request.disk cache request.archives).1 = request.afresh ∧
      ∃ after : ArchiveEntries, after.AllDecoded contents ∧
        Shows (loadDependencies request.disk cache request.archives).2 capacity after := by
  have hsame := hdecoded.filesOfAll_eq hrequest
  constructor
  · rw [h.loadDependencies_fst, hsame]
    rfl
  · -- Only a load that succeeds sets anything, and then what it decoded.
    have hpromoted := hdecoded.foldl_promote request.archives
    cases hfiles : filesOfAll request.disk entries request.archives with
    | error err => exact ⟨_, hpromoted, h.loadDependencies_error hfiles⟩
    | ok decoded =>
      refine ⟨_, hpromoted.setAll ?_, h.loadDependencies_ok hfiles⟩
      intro pair hpair
      exact ArchiveEntries.unpack_of_mem_newPairs hrequest (hsame.symm.trans hfiles) hpair

end Step

/-! ## Whole histories -/

namespace LoadRequest

variable {contents : String → Bytes}

theorem runAll_eq_map_afresh {cache : DecodedArchives} {capacity : Nat} {entries : ArchiveEntries}
    (h : Shows cache capacity entries) (hdecoded : entries.AllDecoded contents)
    {requests : List LoadRequest} (hrequests : ∀ request ∈ requests, request.KeepsTo contents) :
    runAll cache requests = requests.map afresh := by
  induction requests generalizing cache entries with
  | nil => rfl
  | cons request requests ih =>
    -- The invariant is that some decoded entries are shown; the load hands it on.
    rcases h.loadDependencies_decoded hdecoded (hrequests request List.mem_cons_self) with
      ⟨hloaded, after, hafter, hshows⟩
    have hlater := ih hshows hafter fun later hlater =>
      hrequests later (List.mem_cons_of_mem request hlater)
    calc
      runAll cache (request :: requests) =
          (loadDependencies request.disk cache request.archives).1 ::
            runAll (loadDependencies request.disk cache request.archives).2 requests := rfl
      _ = (request :: requests).map afresh := by rw [hloaded, hlater, List.map_cons]

/-- The files of a load can always be made a tree. -/
theorem exists_ofFiles_of_afresh {request : LoadRequest} {merged : MergedArchives}
    (h : request.afresh = .ok merged) : ∃ tree, FileTree.ofFiles merged.files = .ok tree := by
  rcases map_eq_ok_iff.1 h with ⟨decoded, hdecoded, rfl⟩
  have hpaths : ∀ path data,
      (MergedArchives.merge ((request.archives.map (·.name)).zip decoded)).files[path]? =
        some data → Path.error? path = none := by
    -- A path of the merge is one of an archive, and those were all unpacked.
    intro path data hheld
    rcases MergedArchives.exists_of_getElem?_files_merge hheld with ⟨files, hfiles, hpath⟩
    rcases exists_of_mem_mapM hdecoded hfiles with ⟨archive, -, hdecode⟩
    exact DependencyArchive.error?_of_decode hdecode hpath
  exact FileTree.exists_ofFiles hpaths

/-- No load of a history shows that there is a cache: each gives the files, origins and shared paths
that decoding all of its archives gives, or the same error. -/
theorem runAll_new_cache {capacity : Nat} (hcapacity : 0 < capacity)
    {requests : List LoadRequest} (hrequests : ∀ request ∈ requests, request.KeepsTo contents) :
    ∃ cache, LruCache.create capacity = .ok cache ∧
      runAll cache requests = requests.map afresh ∧
      ∀ merged, .ok merged ∈ runAll cache requests →
        ∃ tree, FileTree.ofFiles merged.files = .ok tree := by
  have hnew : Shows (LruCache.empty capacity : DecodedArchives) capacity [] :=
    Shows.empty hcapacity
  have hruns := runAll_eq_map_afresh hnew (by intro entry hmem; cases hmem) hrequests
  refine ⟨LruCache.empty capacity, ?_, hruns, ?_⟩
  · rw [LruCache.create, if_neg (Nat.ne_of_gt hcapacity)]
  · intro merged hmem
    rw [hruns] at hmem
    rcases List.mem_map.1 hmem with ⟨request, -, hrequest⟩
    exact exists_ofFiles_of_afresh hrequest

/-- A load after which one slot holds the second archive. -/
def evictingLoad : LoadRequest where
  disk := .holding
    [("one.tar", Tar.archiveOf "a.ts" [1]), ("two.tar", Tar.archiveOf "a.ts" [2])]
  archives := [⟨"one.tar", some "k1"⟩, ⟨"two.tar", some "k2"⟩]

/-- Loads of what is held and of what was evicted, and two that fail. -/
def laterLoads : List LoadRequest :=
  [⟨.holding [("two.tar", Tar.archiveOf "a.ts" [2])], [⟨"two.tar", some "k2"⟩]⟩,
    ⟨.holding [("copy.tar", Tar.archiveOf "a.ts" [1])], [⟨"copy.tar", some "k1"⟩]⟩,
    ⟨.holding [("one.tar", Tar.archiveOf "a.ts" [1]), ("short.tar", [1])],
      [⟨"one.tar", some "k1"⟩, ⟨"short.tar", some "short"⟩]⟩,
    ⟨.holding [("one.tar", Tar.archiveOf "a.ts" [1])],
      [⟨"one.tar", some "k1"⟩, ⟨"gone.tar", none⟩]⟩]

theorem runAll_new_cache_one_slot :
    ∃ cache, LruCache.create 1 = .ok cache ∧
      (loadDependencies evictingLoad.disk cache evictingLoad.archives).2.keys = ["k2"] ∧
      (runAll cache (evictingLoad :: laterLoads)).map
          (·.toOption.map fun merged => (merged.files.toList, merged.origins.toList)) =
        [some ([("/a.ts", [2])], [("/a.ts", "two.tar")]),
          some ([("/a.ts", [2])], [("/a.ts", "two.tar")]),
          some ([("/a.ts", [1])], [("/a.ts", "copy.tar")]), none, none] := by
  have hkeeps : ∀ request ∈ evictingLoad :: laterLoads, request.KeepsTo fun checksum =>
      if checksum = "k1" then Tar.archiveOf "a.ts" [1]
      else if checksum = "k2" then Tar.archiveOf "a.ts" [2] else [1] := by
    intro request hrequest archive harchive checksum hchecksum
    simp only [laterLoads, List.mem_cons, List.not_mem_nil, or_false] at hrequest
    rcases hrequest with rfl | rfl | rfl | rfl | rfl <;>
      simp only [evictingLoad, List.mem_cons, List.not_mem_nil, or_false] at harchive
    · rcases harchive with rfl | rfl <;> cases hchecksum <;> rfl
    · subst harchive
      cases hchecksum
      rfl
    · subst harchive
      cases hchecksum
      rfl
    · rcases harchive with rfl | rfl <;> cases hchecksum <;> rfl
    · rcases harchive with rfl | rfl <;> cases hchecksum
      rfl
  have hcapacity : 0 < 1 := by decide
  rcases runAll_new_cache hcapacity hkeeps with ⟨cache, hcreate, hruns, -⟩
  obtain rfl : LruCache.empty 1 = cache := Except.ok.inj hcreate
  refine ⟨LruCache.empty 1, hcreate, by decide +kernel, ?_⟩
  rw [hruns]
  decide +kernel

end LoadRequest
end BuildTree
