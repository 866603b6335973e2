import BuildTree.Proofs.Archive.Merge

/-!
# Shared paths — which archives replaced which

While archives are merged, the origin of a path is the last archive so far that has it.  So when the
next archive brings the path, what is recorded is a contest of two consecutive providers, unless
they have the same name.  An archive may be listed twice and may win a path back.  The record of a
merge is ranked by the place of the winning archive in the list, and then by path.
-/

namespace BuildTree
namespace MergedArchives

/-! ## Providers and contests -/

/-- The names of the archives that have a path, in list order. -/
def providers (archives : List (String × FileMap)) (path : String) : List String :=
  (archives.filter fun archive => archive.2.contains path).map (·.1)

/-- What is recorded of a path that an archive brings and that came from `previous?` so far. -/
def contest? (path archive : String) (previous? : Option String) : Option SharedPath :=
  match previous? with
  | some previous => if previous = archive then none else some ⟨path, archive, previous⟩
  | none => none

/-- What is recorded of the paths that an archive brings, one after the other. -/
def contestsOf (archive : String) (origin? : String → Option String) (paths : List String) :
    List SharedPath :=
  paths.filterMap fun path => contest? path archive (origin? path)

/-- The contests of a path between consecutive providers. -/
def contests (path : String) : List String → List SharedPath
  | first :: second :: rest =>
      (contest? path second (some first)).toList ++ contests path (second :: rest)
  | _ => []

section Contests

variable {path archive name : String} {previous? : Option String} {names : List String}
  {shared : SharedPath}

theorem contest?_eq_some_iff : contest? path archive previous? = some shared ↔
    shared.path = path ∧ shared.winner = archive ∧ previous? = some shared.shadowed ∧
      shared.shadowed ≠ shared.winner := by
  rcases shared with ⟨sharedPath, winner, shadowed⟩
  cases previous? with
  | none => simp [contest?]
  | some previous =>
    by_cases hsame : previous = archive
    · -- An archive does not contest a path with itself.
      rw [contest?, if_pos hsame]
      refine iff_of_false nofun ?_
      rintro ⟨-, rfl, hprevious, hne⟩
      exact hne ((Option.some.inj hprevious).symm.trans hsame)
    · rw [contest?, if_neg hsame]
      simp only [Option.some.injEq, SharedPath.mk.injEq]
      constructor
      · rintro ⟨rfl, rfl, rfl⟩
        exact ⟨rfl, rfl, rfl, hsame⟩
      · rintro ⟨rfl, rfl, rfl, -⟩
        exact ⟨rfl, rfl, rfl⟩

theorem contest?_eq_none_iff :
    contest? path archive previous? = none ↔ ∀ previous, previous? = some previous →
      previous = archive := by
  cases previous? with
  | none => simp [contest?]
  | some previous => simp [contest?]

theorem contestsOf_cons (archive : String) (origin? : String → Option String) (path : String)
    (paths : List String) : contestsOf archive origin? (path :: paths) =
      (contest? path archive (origin? path)).toList ++ contestsOf archive origin? paths := by
  rw [contestsOf, List.filterMap_cons, ← contestsOf]
  cases contest? path archive (origin? path) <;> rfl

theorem mem_contestsOf_iff {origin? : String → Option String} {paths : List String} :
    shared ∈ contestsOf archive origin? paths ↔
      shared.path ∈ paths ∧ contest? shared.path archive (origin? shared.path) = some shared := by
  rw [contestsOf, List.mem_filterMap]
  constructor
  · rintro ⟨path, hpath, hcontest⟩
    obtain rfl := (contest?_eq_some_iff.1 hcontest).1
    exact ⟨hpath, hcontest⟩
  · rintro ⟨hpath, hcontest⟩
    exact ⟨shared.path, hpath, hcontest⟩

/-- Of what an archive contests, each path has its own contest. -/
theorem filter_contestsOf (archive : String) (origin? : String → Option String)
    {paths : List String} (hpaths : paths.Nodup) :
    (contestsOf archive origin? paths).filter (·.path = path) =
      if path ∈ paths then (contest? path archive (origin? path)).toList else [] := by
  induction paths with
  | nil => rfl
  | cons first rest ih =>
    rw [List.nodup_cons] at hpaths
    have hfirst : (contest? first archive (origin? first)).toList.filter (·.path = path) =
        if path = first then (contest? first archive (origin? first)).toList else [] := by
      cases hcontest : contest? first archive (origin? first) with
      | none => simp
      | some shared =>
        have hpath := (contest?_eq_some_iff.1 hcontest).1
        by_cases heq : path = first
        · simp [heq, hpath]
        · simp [heq, hpath, Ne.symm heq]
    rw [contestsOf_cons, List.filter_append, hfirst, ih hpaths.2]
    by_cases heq : path = first
    · -- The path comes only once.
      subst heq
      rw [if_pos rfl, if_neg hpaths.1, if_pos List.mem_cons_self, List.append_nil]
    · simp [heq]

/-- One more provider can only contest with the last one before. -/
theorem contests_concat (path : String) (names : List String) (name : String) :
    contests path (names ++ [name]) =
      contests path names ++ (contest? path name names.getLast?).toList := by
  induction names with
  | nil => rfl
  | cons first rest ih =>
    cases rest with
    | nil => simp [contests]
    | cons second rest =>
      rw [List.cons_append, List.cons_append, contests, ← List.cons_append, ih, contests,
        List.append_assoc, List.getLast?_cons_cons]

/-- Nobody contests a path just if all of its providers have one name. -/
theorem contests_eq_nil_iff {first : String} {rest : List String} :
    contests path (first :: rest) = [] ↔ ∀ name ∈ rest, name = first := by
  induction rest generalizing first with
  | nil => simp [contests]
  | cons second rest ih =>
    rw [contests, List.append_eq_nil_iff, Option.toList_eq_nil_iff, contest?_eq_none_iff, ih]
    constructor
    · rintro ⟨hsecond, hrest⟩ name hname
      have hfirst : first = second := hsecond first rfl
      rcases List.mem_cons.1 hname with rfl | hlater
      · exact hfirst.symm
      · rw [hrest name hlater, hfirst]
    · intro hall
      have hsecond : second = first := hall second List.mem_cons_self
      refine ⟨?_, ?_⟩
      · rintro previous hprevious
        rw [← Option.some.inj hprevious, hsecond]
      · intro name hname
        rw [hall name (List.mem_cons_of_mem second hname), hsecond]

theorem exists_mem_contests_iff : (∃ shared, shared ∈ contests path names) ↔
    ∃ first ∈ names, ∃ second ∈ names, first ≠ second := by
  have hsome : (∃ shared, shared ∈ contests path names) ↔ contests path names ≠ [] :=
    ⟨fun ⟨_, hmem⟩ => List.ne_nil_of_mem hmem, List.exists_mem_of_ne_nil _⟩
  rw [hsome]
  cases names with
  | nil => simp [contests]
  | cons first rest =>
    rw [Ne, contests_eq_nil_iff]
    constructor
    · intro hother
      rcases not_forall₂.1 hother with ⟨name, hname, hne⟩
      exact ⟨name, List.mem_cons_of_mem first hname, first, List.mem_cons_self, hne⟩
    · rintro ⟨name, hname, other, hother, hne⟩ hall
      have hsame : ∀ same ∈ first :: rest, same = first := List.forall_mem_cons.2 ⟨rfl, hall⟩
      exact hne ((hsame name hname).trans (hsame other hother).symm)

/-- The last contest was won by the last provider. -/
theorem getLast?_of_contests (h : (contests path names).getLast? = some shared) :
    names.getLast? = some shared.winner := by
  induction names using List.reverseRecOn with
  | nil => cases h
  | append_singleton names name ih =>
    rw [contests_concat] at h
    rw [List.getLast?_concat]
    cases hcontest : contest? path name names.getLast? with
    | some last =>
      rw [hcontest, Option.toList_some, List.getLast?_concat] at h
      rw [← Option.some.inj h, (contest?_eq_some_iff.1 hcontest).2.1]
    | none =>
      -- The last contest is an earlier one, and its winner is the name that came again.
      rw [hcontest, Option.toList_none, List.append_nil] at h
      rw [contest?_eq_none_iff.1 hcontest _ (ih h)]

/-- Each contest takes the path from the winner of the contest before. -/
theorem isChain_contests (path : String) (names : List String) :
    (contests path names).IsChain fun earlier later => later.shadowed = earlier.winner := by
  induction names using List.reverseRecOn with
  | nil => exact List.isChain_nil
  | append_singleton names name ih =>
    rw [contests_concat, List.isChain_append]
    refine ⟨ih, ?_, ?_⟩
    · cases contest? path name names.getLast? with
      | none => exact List.isChain_nil
      | some last => exact List.isChain_singleton last
    · intro earlier hearlier later hlater
      have hcontest : contest? path name names.getLast? = some later := by
        rw [Option.head?_toList] at hlater
        exact hlater
      have hlast := (contest?_eq_some_iff.1 hcontest).2.2.1
      rw [getLast?_of_contests hearlier] at hlast
      exact (Option.some.inj hlast).symm

end Contests

/-! ## What one archive adds -/

theorem sharedPaths_foldl_addFile (archive : String) {pairs : List (String × Bytes)}
    (hpairs : (pairs.map (·.1)).Nodup) (merged : MergedArchives) :
    (pairs.foldl (addFile archive) merged).sharedPaths =
      merged.sharedPaths ++ contestsOf archive (merged.origins[·]?) (pairs.map (·.1)) := by
  induction pairs generalizing merged with
  | nil => exact (List.append_nil merged.sharedPaths).symm
  | cons pair pairs ih =>
    rw [List.map_cons, List.nodup_cons] at hpairs
    have hfirst : (addFile archive merged pair).sharedPaths =
        merged.sharedPaths ++ (contest? pair.1 archive merged.origins[pair.1]?).toList := by
      rw [addFile]
      cases merged.origins[pair.1]? with
      | none => simp [contest?]
      | some previous =>
        by_cases hsame : previous = archive
        · simp [contest?, hsame]
        · simp [contest?, hsame]
    -- The other paths still come from where they came from.
    have hothers : contestsOf archive ((addFile archive merged pair).origins[·]?)
        (pairs.map (·.1)) = contestsOf archive (merged.origins[·]?) (pairs.map (·.1)) := by
      apply List.filterMap_congr
      intro path hpath
      have hne : pair.1 ≠ path := fun heq => hpairs.1 (heq ▸ hpath)
      have hother : (addFile archive merged pair).origins[path]? = merged.origins[path]? := by
        rw [addFile, Std.ExtTreeMap.getElem?_insert, if_neg (by simpa using hne)]
      exact congrArg (contest? path archive) hother
    rw [List.foldl_cons, ih hpairs.2, hothers, hfirst, List.map_cons, contestsOf_cons,
      List.append_assoc]

/-- Merging an archive in records its contests with the origins so far, by ascending path. -/
theorem sharedPaths_addArchive (merged : MergedArchives) (archive : String × FileMap) :
    (merged.addArchive archive).sharedPaths =
      merged.sharedPaths ++ contestsOf archive.1 (merged.origins[·]?) archive.2.keys := by
  have hkeys : archive.2.toList.map (·.1) = archive.2.keys := Std.ExtTreeMap.map_fst_toList_eq_keys
  rw [addArchive, sharedPaths_foldl_addFile archive.1 (hkeys ▸ archive.2.keys_nodup), hkeys]

/-! ## What a merge records -/

section Merge

variable {archives : List (String × FileMap)} {archive : String × FileMap} {path : String}
  {index : Nat} {shared : SharedPath}

theorem providers_concat (archives : List (String × FileMap)) (archive : String × FileMap)
    (path : String) : providers (archives ++ [archive]) path =
      providers archives path ++ if path ∈ archive.2 then [archive.1] else [] := by
  rw [providers, providers, List.filter_append, List.map_append, List.filter_cons,
    List.filter_nil]
  by_cases hmem : path ∈ archive.2
  · simp [hmem]
  · simp [hmem]

theorem getElem?_origins_merge (archives : List (String × FileMap)) (path : String) :
    (merge archives).origins[path]? = (providers archives path).getLast? := by
  induction archives using List.reverseRecOn with
  | nil => rfl
  | append_singleton archives archive ih =>
    rw [merge_concat, getElem?_origins_addArchive, providers_concat, ih]
    -- An archive that has the path becomes its origin and its last provider.
    by_cases hmem : path ∈ archive.2
    · rw [if_pos hmem, List.getLast?_concat, Std.ExtTreeMap.getElem?_eq_some_getElem hmem]
      rfl
    · rw [if_neg hmem, List.append_nil, Std.ExtTreeMap.getElem?_eq_none hmem]
      rfl

/-- What a merge records of a path are the contests of its providers. -/
theorem filter_sharedPaths_merge (archives : List (String × FileMap)) (path : String) :
    (merge archives).sharedPaths.filter (·.path = path) =
      contests path (providers archives path) := by
  induction archives using List.reverseRecOn with
  | nil => rfl
  | append_singleton archives archive ih =>
    rw [merge_concat, sharedPaths_addArchive, List.filter_append, ih, providers_concat,
      filter_contestsOf _ _ archive.2.keys_nodup, getElem?_origins_merge]
    simp only [Std.ExtTreeMap.mem_keys]
    by_cases hmem : path ∈ archive.2
    · rw [if_pos hmem, if_pos hmem, contests_concat]
    · rw [if_neg hmem, if_neg hmem, List.append_nil, List.append_nil]

/-! ### The order of the record -/

/-- The archive at an index takes a path from the last of the providers before it. -/
structure Replaces (archives : List (String × FileMap)) (index : Nat) (shared : SharedPath) :
    Prop where
  provides : ∃ files, archives[index]? = some (shared.winner, files) ∧ shared.path ∈ files
  previous : (providers (archives.take index) shared.path).getLast? = some shared.shadowed
  ne_winner : shared.shadowed ≠ shared.winner

theorem Replaces.lt_length (h : Replaces archives index shared) : index < archives.length := by
  rcases h.provides with ⟨files, hfiles, -⟩
  exact (List.getElem?_eq_some_iff.1 hfiles).1

theorem replaces_concat_iff : Replaces (archives ++ [archive]) index shared ↔
    Replaces archives index shared ∨
      index = archives.length ∧ shared.path ∈ archive.2 ∧
        contest? shared.path archive.1 (merge archives).origins[shared.path]? = some shared := by
  constructor
  · intro h
    rcases h.provides with ⟨files, hfiles, hmem⟩
    have hprevious := h.previous
    -- Up to its end the longer list has the same archives, with the same ones before them.
    rcases Nat.lt_or_ge index archives.length with hlt | hge
    · rw [List.getElem?_append_left hlt] at hfiles
      rw [List.take_append_of_le_length (Nat.le_of_lt hlt)] at hprevious
      exact Or.inl ⟨⟨files, hfiles, hmem⟩, hprevious, h.ne_winner⟩
    · have hlength : index < archives.length + 1 := by
        simpa using h.lt_length
      obtain rfl : index = archives.length := by omega
      rw [List.getElem?_concat_length] at hfiles
      obtain rfl := Option.some.inj hfiles
      rw [List.take_left] at hprevious
      refine Or.inr ⟨rfl, hmem, contest?_eq_some_iff.2 ⟨rfl, rfl, ?_, h.ne_winner⟩⟩
      rw [getElem?_origins_merge, hprevious]
  · rintro (h | ⟨rfl, hmem, hcontest⟩)
    · rcases h.provides with ⟨files, hfiles, hmem⟩
      refine ⟨⟨files, ?_, hmem⟩, ?_, h.ne_winner⟩
      · rw [List.getElem?_append_left h.lt_length, hfiles]
      · rw [List.take_append_of_le_length (Nat.le_of_lt h.lt_length)]
        exact h.previous
    · rcases contest?_eq_some_iff.1 hcontest with ⟨-, hwinner, hprevious, hne⟩
      refine ⟨⟨archive.2, ?_, hmem⟩, ?_, hne⟩
      · rw [List.getElem?_concat_length, hwinner]
      · rw [List.take_left, ← getElem?_origins_merge, hprevious]

/-- The order in which shared paths are recorded: by the index of the winner, then by path. -/
def Precedes (first second : Nat × SharedPath) : Prop :=
  first.1 < second.1 ∨ first.1 = second.1 ∧ first.2.path < second.2.path

/-- A merge records each replacement once, and in order. -/
theorem exists_ranked (archives : List (String × FileMap)) :
    ∃ ranked : List (Nat × SharedPath), ranked.map (·.2) = (merge archives).sharedPaths ∧
      ranked.Pairwise Precedes ∧
      ∀ index shared, (index, shared) ∈ ranked ↔ Replaces archives index shared := by
  induction archives using List.reverseRecOn with
  | nil =>
    refine ⟨[], rfl, List.Pairwise.nil, ?_⟩
    intro index shared
    refine iff_of_false List.not_mem_nil ?_
    intro hreplaces
    exact absurd hreplaces.lt_length (Nat.not_lt_zero index)
  | append_singleton archives archive ih =>
    -- The contests of the archive at the end come behind all others.
    rcases ih with ⟨ranked, hmap, hordered, hmem⟩
    refine ⟨ranked ++ (contestsOf archive.1 ((merge archives).origins[·]?) archive.2.keys).map
      (archives.length, ·), ?_, ?_, ?_⟩
    · rw [List.map_append, hmap, merge_concat, sharedPaths_addArchive, List.map_map]
      exact congrArg _ (List.map_id _)
    · rw [List.pairwise_append, List.pairwise_map, contestsOf, List.pairwise_filterMap]
      refine ⟨hordered, ?_, ?_⟩
      · -- The paths of one archive come in their own order.
        apply archive.2.keys_ascending.imp
        intro first second hlt earlier hearlier later hlater
        rw [← (contest?_eq_some_iff.1 hearlier).1, ← (contest?_eq_some_iff.1 hlater).1] at hlt
        exact Or.inr ⟨rfl, hlt⟩
      · rintro ⟨index, shared⟩ hearlier later hlater
        rcases List.mem_map.1 hlater with ⟨last, -, rfl⟩
        exact Or.inl ((hmem index shared).1 hearlier).lt_length
    · intro index shared
      rw [List.mem_append, hmem, replaces_concat_iff, List.mem_map]
      apply or_congr_right
      constructor
      · rintro ⟨last, hlast, heq⟩
        obtain ⟨rfl, rfl⟩ := Prod.mk.inj heq
        rcases mem_contestsOf_iff.1 hlast with ⟨hpath, hcontest⟩
        exact ⟨rfl, Std.ExtTreeMap.mem_keys.1 hpath, hcontest⟩
      · rintro ⟨rfl, hpath, hcontest⟩
        have hlast := mem_contestsOf_iff.2 ⟨Std.ExtTreeMap.mem_keys.2 hpath, hcontest⟩
        exact ⟨shared, hlast, rfl⟩

/-! ### Merges -/

theorem mem_files_merge_iff :
    path ∈ (merge archives).files ↔ ∃ archive ∈ archives, path ∈ archive.2 := by
  rw [← not_iff_not, Std.ExtTreeMap.mem_iff_isSome_getElem?, ← isSome_origins_merge,
    Option.not_isSome_iff_eq_none, getElem?_origins_merge_eq_none_iff]
  simp only [Std.ExtTreeMap.mem_iff_isSome_getElem?, not_exists, not_and,
    Option.not_isSome_iff_eq_none]

theorem mem_origins_merge_iff : path ∈ (merge archives).origins ↔ path ∈ (merge archives).files := by
  rw [← Std.ExtTreeMap.isSome_getElem?_iff_mem, isSome_origins_merge,
    Std.ExtTreeMap.isSome_getElem?_iff_mem]

/-- What merged archives say about the archives that they come from. -/
structure IsMergeOf (merged : MergedArchives) (archives : List (String × FileMap)) : Prop where
  mem_files_iff : ∀ path, path ∈ merged.files ↔ ∃ archive ∈ archives, path ∈ archive.2
  mem_origins_iff : ∀ path, path ∈ merged.origins ↔ path ∈ merged.files
  -- The files make a tree, which serves them.
  served : ∃ tree, FileTree.ofFiles merged.files = .ok tree ∧
    ∀ path, Path.isAbsolute path = true → tree.read path = .ok merged.files[path]?
  -- What is served, and under which name, is what the last provider has.
  lastProvider_iff : ∀ path name data, LastProvider archives path name data ↔
    merged.origins[path]? = some name ∧ merged.files[path]? = some data
  -- What is recorded of a path are the contests of consecutive providers.
  contested : ∀ path, merged.sharedPaths.filter (·.path = path) =
    contests path (providers archives path)
  -- These lead from one provider to the next, up to the origin.
  chained : ∀ path, (merged.sharedPaths.filter (·.path = path)).IsChain fun earlier later =>
    later.shadowed = earlier.winner
  won : ∀ path shared, (merged.sharedPaths.filter (·.path = path)).getLast? = some shared →
    merged.origins[path]? = some shared.winner
  shared_iff : ∀ path, (∃ shared ∈ merged.sharedPaths, shared.path = path) ↔
    ∃ first ∈ providers archives path, ∃ second ∈ providers archives path, first ≠ second
  -- Each replacement is recorded once, by the index of the winner and then by path.
  ranked : ∃ ranked : List (Nat × SharedPath), ranked.map (·.2) = merged.sharedPaths ∧
    ranked.Pairwise Precedes ∧
    ∀ index shared, (index, shared) ∈ ranked ↔ Replaces archives index shared

/-- A merge of archives with well-formed paths has the files, the origins and the shared paths that
it has to have. -/
theorem isMergeOf_merge (hpaths : ∀ archive ∈ archives, ∀ path ∈ archive.2,
    Path.error? path = none) : (merge archives).IsMergeOf archives := by
  have hfiles : ∀ path data, (merge archives).files[path]? = some data →
      Path.error? path = none := by
    intro path data hheld
    have hmem : path ∈ (merge archives).files :=
      Std.ExtTreeMap.isSome_getElem?_iff_mem.1 (by rw [hheld]; rfl)
    rcases mem_files_merge_iff.1 hmem with ⟨archive, harchive, hpath⟩
    exact hpaths archive harchive path hpath
  have hserved : ∃ tree, FileTree.ofFiles (merge archives).files = .ok tree ∧
      ∀ path, Path.isAbsolute path = true →
        tree.read path = .ok (merge archives).files[path]? := by
    rcases FileSet.exists_ofFiles_eq_ok hfiles with ⟨set, hset, hsame⟩
    refine ⟨.fileSet set, by rw [FileTree.ofFiles, hset]; rfl, ?_⟩
    intro path hpath
    rw [FileTree.read, FileSet.read, if_pos hpath, hsame]
  have hwon : ∀ path shared, ((merge archives).sharedPaths.filter (·.path = path)).getLast? =
      some shared → (merge archives).origins[path]? = some shared.winner := by
    intro path shared hlast
    rw [filter_sharedPaths_merge] at hlast
    rw [getElem?_origins_merge, getLast?_of_contests hlast]
  have hshared : ∀ path, (∃ shared ∈ (merge archives).sharedPaths, shared.path = path) ↔
      ∃ first ∈ providers archives path, ∃ second ∈ providers archives path, first ≠ second := by
    intro path
    rw [← @exists_mem_contests_iff path, ← filter_sharedPaths_merge]
    simp
  refine ⟨fun _ => mem_files_merge_iff, fun _ => mem_origins_merge_iff, hserved,
    fun _ _ _ => lastProvider_iff, filter_sharedPaths_merge archives, ?_, hwon, hshared,
    exists_ranked archives⟩
  intro path
  rw [filter_sharedPaths_merge]
  exact isChain_contests path _

theorem isMergeOf_merge_won_back :
    ∃ archives : List (String × FileMap),
      archives = [("A", [("/x", [1]), ("/y", [1])]), ("B", [("/x", [2])]), ("A", [("/x", [3])])].map
        (fun archive => (archive.1, FileMap.ofPairs archive.2)) ∧
      (merge archives).files["/x"]? = some [3] ∧ (merge archives).origins["/x"]? = some "A" ∧
      (merge archives).sharedPaths.filter (·.path = "/x") =
        [⟨"/x", "B", "A"⟩, ⟨"/x", "A", "B"⟩] ∧
      ¬∃ shared ∈ (merge archives).sharedPaths, shared.path = "/y" := by
  have hpairs : ∀ archive ∈ [("A", [("/x", ([1] : Bytes)), ("/y", [1])]), ("B", [("/x", [2])]),
      ("A", [("/x", [3])])], ∀ pair ∈ archive.2, Path.error? pair.1 = none := by decide
  have hpaths : ∀ archive ∈ [("A", [("/x", [1]), ("/y", [1])]), ("B", [("/x", [2])]),
      ("A", [("/x", [3])])].map (fun archive => (archive.1, FileMap.ofPairs archive.2)),
      ∀ path ∈ archive.2, Path.error? path = none := by
    intro archive harchive path hpath
    rcases List.mem_map.1 harchive with ⟨listed, hlisted, rfl⟩
    have hheld := Std.ExtTreeMap.getElem?_eq_some_getElem hpath
    have hmem := FileMap.mem_of_getElem?_ofPairs hheld
    exact hpairs listed hlisted (path, _) hmem
  have hmerge := isMergeOf_merge hpaths
  have hlast := (hmerge.lastProvider_iff "/x" "A" [3]).1
    ⟨[_, _], FileMap.ofPairs [("/x", [3])], [], rfl, rfl, by simp⟩
  refine ⟨_, rfl, hlast.2, hlast.1, (hmerge.contested "/x").trans rfl, ?_⟩
  rw [hmerge.shared_iff "/y"]
  decide

end Merge

end MergedArchives
end BuildTree
