import BuildTree.Archive.Merge
import BuildTree.Proofs.Calls
import BuildTree.Proofs.Tree.Files

/-!
# Merged archives — what a merge of archives holds

Of the archives that have a path the last one counts, both for the file and for its origin.  The
paths that unpacking yields are well formed, and so are those of a merge, which can therefore be
made a tree.
-/

namespace BuildTree

/-! ## Merging -/

namespace MergedArchives

theorem files_foldl_addFile (name : String) (pairs : List (String × Bytes))
    (merged : MergedArchives) :
    (pairs.foldl (addFile name) merged).files =
      pairs.foldl (fun files entry => files.insert entry.1 entry.2) merged.files := by
  induction pairs generalizing merged with
  | nil => rfl
  | cons pair pairs ih => rw [List.foldl_cons, List.foldl_cons, ih, addFile]

theorem getElem?_files_addArchive (merged : MergedArchives) (archive : String × FileMap)
    (path : String) :
    (merged.addArchive archive).files[path]? = archive.2[path]?.or merged.files[path]? := by
  rw [addArchive, files_foldl_addFile, FileMap.getElem?_foldl_toList]

/-- A merge holds at a path what the last of the archives with that path holds there. -/
theorem getElem?_files_merge (archives : List (String × FileMap)) (path : String) :
    (merge archives).files[path]? = (archives.map (·.2)).reverse.findSome? (·[path]?) := by
  -- The fold is generalized to any merge that it starts from.
  have hfold : ∀ merged : MergedArchives, (archives.foldl addArchive merged).files[path]? =
      ((archives.map (·.2)).reverse.findSome? (·[path]?)).or merged.files[path]? := by
    induction archives with
    | nil =>
      intro merged
      rfl
    | cons archive archives ih =>
      intro merged
      rw [List.foldl_cons, ih, getElem?_files_addArchive, List.map_cons, List.reverse_cons,
        List.findSome?_append, Option.or_assoc]
      simp
  rw [merge, hfold]
  simp [MergedArchives.empty]

/-- The paths of a merge are paths of its archives. -/
theorem exists_of_getElem?_files_merge {names : List String} {decoded : List FileMap}
    {path : String} {data : Bytes}
    (h : (merge (names.zip decoded)).files[path]? = some data) :
    ∃ files ∈ decoded, files[path]? = some data := by
  rw [getElem?_files_merge] at h
  rcases List.exists_of_findSome?_eq_some h with ⟨files, hfiles, hheld⟩
  rcases List.mem_map.1 (List.mem_reverse.1 hfiles) with ⟨⟨name, same⟩, hzip, rfl⟩
  exact ⟨same, (List.of_mem_zip hzip).2, hheld⟩

/-! ### Origins -/

/-- The last of named archives that has a path, and what it has there. -/
def LastProvider (archives : List (String × FileMap)) (path name : String) (data : Bytes) : Prop :=
  ∃ before files behind, archives = before ++ (name, files) :: behind ∧
    files[path]? = some data ∧ ∀ later ∈ behind, later.2[path]? = none

theorem lastProvider_concat_iff {archives : List (String × FileMap)} {archive : String × FileMap}
    {path name : String} {data : Bytes} :
    LastProvider (archives ++ [archive]) path name data ↔
      (archive.1 = name ∧ archive.2[path]? = some data) ∨
        (archive.2[path]? = none ∧ LastProvider archives path name data) := by
  constructor
  · rintro ⟨before, files, behind, hsplit, hheld, hbehind⟩
    rcases List.eq_nil_or_concat behind with rfl | ⟨earlier, last, rfl⟩
    · -- The provider is the archive at the end.
      rcases List.append_inj' hsplit rfl with ⟨-, hlast⟩
      obtain rfl := List.singleton_inj.1 hlast
      exact Or.inl ⟨rfl, hheld⟩
    · rw [List.concat_eq_append, ← List.cons_append, ← List.append_assoc] at hsplit
      rcases List.append_inj' hsplit rfl with ⟨hfront, hlast⟩
      obtain rfl := List.singleton_inj.1 hlast
      refine Or.inr ⟨hbehind archive (by simp), before, files, earlier, hfront, hheld, ?_⟩
      exact fun later hlater => hbehind later (by simp [hlater])
  · rintro (⟨rfl, hheld⟩ | ⟨hnone, before, files, behind, rfl, hheld, hbehind⟩)
    · exact ⟨archives, archive.2, [], rfl, hheld, by simp⟩
    · refine ⟨before, files, behind ++ [archive], by simp, hheld, ?_⟩
      intro later hlater
      rcases List.mem_append.1 hlater with hmem | hmem
      · exact hbehind later hmem
      · rw [List.mem_singleton.1 hmem]
        exact hnone

theorem getElem?_origins_foldl_addFile (name : String) (pairs : List (String × Bytes))
    (merged : MergedArchives) (path : String) :
    (pairs.foldl (addFile name) merged).origins[path]? =
      if path ∈ pairs.map (·.1) then some name else merged.origins[path]? := by
  induction pairs generalizing merged with
  | nil => rfl
  | cons pair pairs ih =>
    rw [List.foldl_cons, ih, addFile, Std.ExtTreeMap.getElem?_insert, List.map_cons]
    by_cases hlater : path ∈ pairs.map (·.1)
    · rw [if_pos hlater, if_pos (List.mem_cons_of_mem _ hlater)]
    · by_cases hpath : pair.1 = path
      · simp [hpath]
      · simp [hlater, hpath, Ne.symm hpath]

/-- Merging an archive in makes it the origin of each of its paths. -/
theorem getElem?_origins_addArchive (merged : MergedArchives) (archive : String × FileMap)
    (path : String) :
    (merged.addArchive archive).origins[path]? =
      (archive.2[path]?.map fun _ => archive.1).or merged.origins[path]? := by
  rw [addArchive, getElem?_origins_foldl_addFile, Std.ExtTreeMap.map_fst_toList_eq_keys]
  cases hheld : archive.2[path]? with
  | none =>
    have hnone : path ∉ archive.2 := by
      rw [← Std.ExtTreeMap.isSome_getElem?_iff_mem, hheld]
      exact Bool.false_ne_true
    rw [if_neg (mt Std.ExtTreeMap.mem_keys.1 hnone)]
    rfl
  | some data =>
    have hmem : path ∈ archive.2 := Std.ExtTreeMap.isSome_getElem?_iff_mem.1 (by rw [hheld]; rfl)
    rw [if_pos (Std.ExtTreeMap.mem_keys.2 hmem)]
    rfl

theorem merge_concat (archives : List (String × FileMap)) (archive : String × FileMap) :
    merge (archives ++ [archive]) = (merge archives).addArchive archive := by
  rw [merge, List.foldl_append]
  rfl

/-- Origins and files are kept in step: they name and hold what the last provider of a path has. -/
theorem lastProvider_iff {archives : List (String × FileMap)} {path name : String} {data : Bytes} :
    LastProvider archives path name data ↔
      (merge archives).origins[path]? = some name ∧ (merge archives).files[path]? = some data := by
  induction archives using List.reverseRecOn with
  | nil =>
    refine iff_of_false ?_ ?_
    · rintro ⟨before, files, behind, hsplit, -⟩
      simp at hsplit
    · rintro ⟨horigin, -⟩
      simp [merge, MergedArchives.empty] at horigin
  | append_singleton archives archive ih =>
    rw [lastProvider_concat_iff, ih, merge_concat, getElem?_origins_addArchive,
      getElem?_files_addArchive]
    cases archive.2[path]? with
    | none => simp
    | some found => simp

/-- A path has an origin just if it has a file. -/
theorem isSome_origins_merge (archives : List (String × FileMap)) (path : String) :
    (merge archives).origins[path]?.isSome = (merge archives).files[path]?.isSome := by
  induction archives using List.reverseRecOn with
  | nil => rfl
  | append_singleton archives archive ih =>
    rw [merge_concat, getElem?_origins_addArchive, getElem?_files_addArchive, Option.isSome_or,
      Option.isSome_or, Option.isSome_map, ih]

/-- A path without an origin is in none of the archives. -/
theorem getElem?_origins_merge_eq_none_iff {archives : List (String × FileMap)} {path : String} :
    (merge archives).origins[path]? = none ↔ ∀ archive ∈ archives, archive.2[path]? = none := by
  rw [← Option.not_isSome_iff_eq_none, isSome_origins_merge, Option.not_isSome_iff_eq_none,
    getElem?_files_merge, List.findSome?_eq_none_iff]
  constructor
  · intro hnone archive hmem
    exact hnone archive.2 (List.mem_reverse.2 (List.mem_map_of_mem hmem))
  · intro hnone files hfiles
    rcases List.mem_map.1 (List.mem_reverse.1 hfiles) with ⟨archive, hmem, rfl⟩
    exact hnone archive hmem

end MergedArchives

/-! ## Well-formed paths -/

namespace Tar

variable {stream : ByteStream}

theorem error?_of_placeOf {name path : String} (h : placeOf name = .ok path) :
    Path.error? path = none := by
  unfold placeOf at h
  split at h
  · rename_i place hplace
    cases h
    exact place.wellFormed
  · cases h

theorem error?_of_fileOf {member : Member} {file : String × Bytes}
    (h : fileOf stream member = .ok file) : Path.error? file.1 = none := by
  unfold fileOf at h
  -- How the name was decoded does not matter, only that it was placed.
  extract_lets name at h
  clear_value name
  split at h
  · cases h
  · rename_i path hplace
    split at h
    · cases h
      exact error?_of_placeOf hplace
    · split at h <;> cases h

/-- The files of a stream have well-formed paths. -/
theorem error?_of_filesFrom {fuel : Nat} {rest : Bytes} {files : List (String × Bytes)}
    (h : filesFrom stream fuel rest = .ok files) :
    ∀ file ∈ files, Path.error? file.1 = none := by
  induction fuel generalizing rest files with
  | zero =>
    cases h
    simp
  | succ fuel ih =>
    rw [filesFrom] at h
    split at h
    · cases h
    · cases h
      simp
    · rename_i member hmember
      split at h
      · cases h
      · rename_i file? hfile
        split at h
        · cases h
        · split at h
          · cases h
          · -- The member is a file or passed over, and the others come from the rest.
            rename_i later hlater
            cases h
            intro file hmem
            rcases List.mem_append.1 hmem with hfirst | hrest
            · obtain rfl : file? = some file := by simpa using hfirst
              split at hfile
              · cases hfound : fileOf stream member with
                | error err =>
                  rw [hfound] at hfile
                  cases hfile
                | ok found =>
                  rw [hfound] at hfile
                  cases hfile
                  exact error?_of_fileOf hfound
              · cases hfile
            · exact ih hlater file hrest

theorem error?_of_unpack {bytes : Bytes} {files : FileMap} (h : unpack bytes = .ok files)
    {path : String} {data : Bytes} (hheld : files[path]? = some data) :
    Path.error? path = none := by
  unfold unpack at h
  rcases map_eq_ok_iff.1 h with ⟨pairs, hpairs, rfl⟩
  exact error?_of_filesFrom hpairs (path, data) (FileMap.mem_of_getElem?_ofPairs hheld)

end Tar
end BuildTree
