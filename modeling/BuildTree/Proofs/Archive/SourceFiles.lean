import BuildTree.Archive.SourceFiles
import BuildTree.Proofs.Archive.Loading
import BuildTree.Proofs.Path.Grammar
import BuildTree.Proofs.Tree.FileMap

/-!
# Source files — what is collected from sources

Collecting reads every plain source and every source archive.  The files of the source archives are
put over each other, so the last one that has a path counts, and the paths that are collected are
exactly those of the plain sources and of the files that the archives hold.
-/

namespace BuildTree

/-! ## Source archives -/

namespace SourceArchive

variable {disk : FileStore} {path : String} {extensions : List String}

/-- The files of a source archive have well-formed paths if those collected before do. -/
theorem error?_of_filesOf {opened : List (Except ZipError ZipEntry)} {before files : FileMap}
    (hbefore : ∀ name ∈ before, Path.error? name = none)
    (h : filesOf path extensions opened before = .ok files) :
    ∀ name ∈ files, Path.error? name = none := by
  induction opened generalizing before with
  | nil =>
    cases h
    exact hbefore
  | cons entry opened ih =>
    rw [filesOf] at h
    split at h
    · cases h
    · exact ih hbefore h
    · rename_i place contents hentry
      refine ih ?_ h
      intro name hname
      rcases Std.ExtTreeMap.mem_insert.1 hname with hnew | hold
      · rw [← Std.LawfulEqOrd.eq_of_compare hnew]
        exact place.wellFormed
      · exact hbefore name hold

theorem error?_of_read {files : FileMap} (h : read disk path extensions = .ok files) :
    ∀ name ∈ files, Path.error? name = none := by
  rw [read] at h
  split at h
  · cases h
  · cases h
  · split at h
    · cases h
    · exact error?_of_filesOf (by simp) h

/-- The file entries of a source archive on disk that have one of the extensions. -/
def Lists (disk : FileStore) (path : String) (extensions : List String) (entry : ZipEntry) : Prop :=
  ∃ location bytes entries, disk.find path = .ok (location, .file bytes) ∧
    Zip.entries bytes = .ok entries ∧ .ok entry ∈ entries ∧
    entry.isFile = true ∧ extensions.any (Text.endsWith entry.name ·) = true

/-- What an entry has to be to add a file at a place. -/
structure Adds (extensions : List String) (entry : ZipEntry) (place : TreePath)
    (contents : Bytes) : Prop where
  isFile : entry.isFile = true
  extension : extensions.any (Text.endsWith entry.name ·) = true
  place : TreePath.ofRelative entry.name = .ok place
  contents : entry.contents = .ok contents

theorem exists_adds_of_fileOf {opened : Except ZipError ZipEntry} {place : TreePath}
    {contents : Bytes} (h : fileOf path extensions opened = .ok (some (place, contents))) :
    ∃ entry, opened = .ok entry ∧ Adds extensions entry place contents := by
  cases opened with
  | error cause => cases h
  | ok entry =>
    unfold fileOf at h
    dsimp only at h
    split at h
    · cases h
    · rename_i hcounts
      rw [Bool.not_eq_true, Bool.or_eq_false_iff, Bool.not_eq_false', Bool.not_eq_false'] at hcounts
      split at h
      · cases h
      · rename_i own hown
        split at h
        · cases h
        · rename_i data hdata
          cases h
          exact ⟨entry, rfl, hcounts.1, hcounts.2, hown, hdata⟩

/-- An entry that counts is not passed over. -/
theorem fileOf_ne_none {entry : ZipEntry} (hfile : entry.isFile = true)
    (hextension : extensions.any (Text.endsWith entry.name ·) = true) :
    fileOf path extensions (.ok entry) ≠ .ok none := by
  intro hnone
  simp only [fileOf, hfile, hextension, Bool.not_true, Bool.or_self, Bool.false_eq_true,
    if_false] at hnone
  split at hnone
  · cases hnone
  · split at hnone <;> cases hnone

/-- Files that were there before stay, and every entry that counts is added. -/
theorem mem_filesOf {opened : List (Except ZipError ZipEntry)} {before files : FileMap}
    (h : filesOf path extensions opened before = .ok files) :
    (∀ name ∈ before, name ∈ files) ∧ ∀ entry, .ok entry ∈ opened → entry.isFile = true →
      extensions.any (Text.endsWith entry.name ·) = true →
      ∃ place, TreePath.ofRelative entry.name = .ok place ∧ place.text ∈ files := by
  induction opened generalizing before with
  | nil =>
    cases h
    exact ⟨fun _ hname => hname, fun _ hentry => absurd hentry List.not_mem_nil⟩
  | cons first opened ih =>
    rw [filesOf] at h
    split at h
    · cases h
    · rename_i hnone
      rcases ih h with ⟨hbefore, hlater⟩
      refine ⟨hbefore, fun entry hentry hfile hextension => ?_⟩
      rcases List.mem_cons.1 hentry with rfl | hmem
      · exact absurd hnone (fileOf_ne_none hfile hextension)
      · exact hlater entry hmem hfile hextension
    · rename_i place contents hfirst
      rcases ih h with ⟨hbefore, hlater⟩
      refine ⟨fun name hname => hbefore name (Std.ExtTreeMap.mem_insert.2 (Or.inr hname)), ?_⟩
      intro entry hentry hfile hextension
      rcases List.mem_cons.1 hentry with rfl | hmem
      · rcases exists_adds_of_fileOf hfirst with ⟨own, heq, hadds⟩
        cases heq
        exact ⟨place, hadds.place, hbefore _ Std.ExtTreeMap.mem_insert_self⟩
      · exact hlater entry hmem hfile hextension

theorem mem_of_lists {files : FileMap} (h : read disk path extensions = .ok files)
    {entry : ZipEntry} (hlisted : Lists disk path extensions entry) :
    ∃ place, TreePath.ofRelative entry.name = .ok place ∧ place.text ∈ files := by
  rcases hlisted with ⟨location, bytes, entries, hfind, hentries, hmem, hfile, hextension⟩
  simp only [read, hfind, hentries] at h
  exact (mem_filesOf h).2 entry hmem hfile hextension

end SourceArchive

/-- Well-formed names are all parsed, each to the path with its text. -/
theorem TreePath.map_text_filterMap_parse {names : List String}
    (h : ∀ name ∈ names, Path.error? name = none) :
    (names.filterMap fun name => (TreePath.parse name).toOption).map (·.text) = names := by
  induction names with
  | nil => rfl
  | cons name names ih =>
    have hparse : (TreePath.parse name).toOption = some ⟨name, h name List.mem_cons_self⟩ := by
      rw [TreePath.parse_of_wellFormed (h name List.mem_cons_self)]
      rfl
    have hrest := ih fun other hother => h other (List.mem_cons_of_mem name hother)
    rw [List.filterMap_cons, hparse]
    exact congrArg (List.cons name) hrest

/-! ## All sources -/

section Collecting

variable {disk : FileStore} {extensions : List String}

/-- Reading source archives puts each over those before and lists its paths behind theirs. -/
theorem addSourceArchives_eq_ok {archives : List String} {before files : FileMap}
    {listed paths : List TreePath}
    (h : addSourceArchives disk extensions archives before listed = .ok (files, paths)) :
    ∃ archived, archives.mapM (SourceArchive.read disk · extensions) = .ok archived ∧
      (∀ name : String, files[name]? = (archived.reverse.findSome? (·[name]?)).or before[name]?) ∧
      paths.map (·.text) = listed.map (·.text) ++ archived.flatMap (·.keys) := by
  induction archives generalizing before listed with
  | nil =>
    cases h
    exact ⟨[], rfl, fun name => rfl, by simp⟩
  | cons archive archives ih =>
    rw [addSourceArchives] at h
    split at h
    · cases h
    · rename_i first hfirst
      rcases ih h with ⟨archived, hread, hfiles, hpaths⟩
      refine ⟨first :: archived, ?_, ?_, ?_⟩
      · rw [mapM_eq_ok_iff] at hread ⊢
        exact List.Forall₂.cons hfirst hread
      · intro name
        rw [hfiles, FileMap.getElem?_foldl_toList, List.reverse_cons, List.findSome?_append,
          Option.or_assoc]
        simp
      · -- None of the names is dropped, since an archive only yields well-formed ones.
        have hnames : ∀ name ∈ first.keys, Path.error? name = none := by
          intro name hname
          exact SourceArchive.error?_of_read hfirst name (Std.ExtTreeMap.mem_keys.1 hname)
        rw [hpaths, List.map_append, TreePath.map_text_filterMap_parse hnames, List.flatMap_cons,
          List.append_assoc]

theorem readPlain_eq_ok_iff {sourceRoot path : String} {source : TreePath × Bytes} :
    readPlain disk sourceRoot path = .ok source ↔
      sourcePath path sourceRoot = .ok source.1 ∧ disk.read path = .ok source.2 := by
  unfold readPlain
  generalize sourcePath path sourceRoot = placed
  generalize disk.read path = contents
  cases placed with
  | error err => simp
  | ok place =>
    cases contents with
    | error cause => simp
    | ok data => simp [Prod.ext_iff]

/-- What collecting the sources of a request yields. -/
theorem collectSources_eq_ok {sources : List String} {sourceRoot : String} {collected : SourceFiles}
    (h : collectSources disk sources sourceRoot extensions = .ok collected) :
    ∃ (plain : List (TreePath × Bytes)) (archived : List FileMap),
      (sources.filter (!Text.endsWith · sourceArchiveExtension)).mapM (readPlain disk sourceRoot) =
          .ok plain ∧
        (sources.filter (Text.endsWith · sourceArchiveExtension)).mapM
          (SourceArchive.read disk · extensions) = .ok archived ∧
        collected.plain = FileMap.ofPairs (plain.map fun source => (source.1.text, source.2)) ∧
        (∀ name : String, collected.archived[name]? = archived.reverse.findSome? (·[name]?)) ∧
        collected.paths.map (·.text) =
          plain.map (·.1.text) ++ archived.flatMap (·.keys) := by
  rw [collectSources] at h
  split at h
  · cases h
  · rename_i plain hplain
    split at h
    · cases h
    · rename_i files paths hadded
      cases h
      rcases addSourceArchives_eq_ok hadded with ⟨archived, hread, hfiles, hpaths⟩
      refine ⟨plain, archived, hplain, hread, rfl, ?_, ?_⟩
      · intro name
        rw [hfiles, Std.ExtTreeMap.getElem?_empty, Option.or_none]
      · rw [hpaths, List.map_map]
        rfl

/-- A path that is not among those collected has no source. -/
theorem getElem?_of_notMem_paths {sources : List String} {sourceRoot : String}
    {collected : SourceFiles}
    (h : collectSources disk sources sourceRoot extensions = .ok collected) {path : String}
    (hpath : path ∉ collected.paths.map (·.text)) :
    collected.plain[path]?.or collected.archived[path]? = none := by
  rcases collectSources_eq_ok h with
    ⟨plain, archived, -, -, hplainFiles, harchivedFiles, hpaths⟩
  rw [hpaths, List.mem_append, not_or] at hpath
  rcases hpath with ⟨hplain, harchived⟩
  have hnone : collected.plain[path]? = none := by
    by_contra hheld
    rcases Option.ne_none_iff_exists'.1 hheld with ⟨data, hdata⟩
    rw [hplainFiles] at hdata
    rcases List.mem_map.1 (FileMap.mem_of_getElem?_ofPairs hdata) with ⟨source, hsource, heq⟩
    exact hplain (List.mem_map.2 ⟨source, hsource, congrArg Prod.fst heq⟩)
  rw [hnone, Option.none_or, harchivedFiles, List.findSome?_eq_none_iff]
  intro files hfiles
  by_contra hheld
  have hmem : path ∈ files := Std.ExtTreeMap.isSome_getElem?_iff_mem.1
    (Option.isSome_iff_ne_none.2 hheld)
  exact harchived (List.mem_flatMap.2
    ⟨files, List.mem_reverse.1 hfiles, Std.ExtTreeMap.mem_keys.2 hmem⟩)

/-- The files that are collected have well-formed paths. -/
theorem error?_of_collectSources {sources : List String} {sourceRoot : String}
    {collected : SourceFiles}
    (h : collectSources disk sources sourceRoot extensions = .ok collected) {path : String}
    {data : Bytes}
    (hheld : collected.plain[path]? = some data ∨ collected.archived[path]? = some data) :
    Path.error? path = none := by
  rcases collectSources_eq_ok h with ⟨plain, archived, -, hread, hplainFiles, harchivedFiles, -⟩
  rcases hheld with hplain | harchived
  · rw [hplainFiles] at hplain
    rcases List.mem_map.1 (FileMap.mem_of_getElem?_ofPairs hplain) with ⟨source, -, hsource⟩
    have hpath : source.1.text = path := congrArg Prod.fst hsource
    rw [← hpath]
    exact source.1.wellFormed
  · rw [harchivedFiles] at harchived
    rcases List.exists_of_findSome?_eq_some harchived with ⟨files, hfiles, hpath⟩
    rcases exists_of_mem_mapM hread (List.mem_reverse.1 hfiles) with ⟨archive, -, hone⟩
    exact SourceArchive.error?_of_read hone path
      (Std.ExtTreeMap.isSome_getElem?_iff_mem.1 (by rw [hpath]; rfl))

/-- Every entry that counts in a source archive that was collected is among the paths. -/
theorem mem_paths_of_lists {sources : List String} {sourceRoot path : String}
    {collected : SourceFiles} {entry : ZipEntry}
    (h : collectSources disk sources sourceRoot extensions = .ok collected) (hpath : path ∈ sources)
    (harchive : Text.endsWith path sourceArchiveExtension = true)
    (hlisted : SourceArchive.Lists disk path extensions entry) :
    ∃ place ∈ collected.paths, TreePath.ofRelative entry.name = .ok place := by
  rcases collectSources_eq_ok h with ⟨plain, archived, -, hread, -, -, hpaths⟩
  rcases exists_of_mapM hread (List.mem_filter.2 ⟨hpath, harchive⟩) with ⟨files, hfiles, hone⟩
  rcases SourceArchive.mem_of_lists hone hlisted with ⟨place, hplace, hmem⟩
  have htext : place.text ∈ collected.paths.map (·.text) := by
    rw [hpaths]
    exact List.mem_append_right _
      (List.mem_flatMap.2 ⟨files, hfiles, Std.ExtTreeMap.mem_keys.2 hmem⟩)
  rcases List.mem_map.1 htext with ⟨other, hother, heq⟩
  cases place
  cases other
  cases heq
  exact ⟨_, hother, hplace⟩

/-- Every path that is collected has a file. -/
theorem isSome_of_mem_paths {sources : List String} {sourceRoot : String} {collected : SourceFiles}
    (h : collectSources disk sources sourceRoot extensions = .ok collected) {path : String}
    (hpath : path ∈ collected.paths.map (·.text)) :
    (collected.plain[path]?.or collected.archived[path]?).isSome := by
  rcases collectSources_eq_ok h with ⟨plain, archived, -, -, hplainFiles, harchivedFiles, hpaths⟩
  rw [hpaths, List.mem_append] at hpath
  rw [Option.isSome_or, Bool.or_eq_true]
  rcases hpath with hplain | harchived
  · left
    rcases List.mem_map.1 hplain with ⟨source, hsource, rfl⟩
    rw [hplainFiles, FileMap.getElem?_ofPairs, List.lookup_isSome_iff]
    exact ⟨(source.1.text, source.2),
      List.mem_reverse.2 (List.mem_map.2 ⟨source, hsource, rfl⟩), by simp⟩
  · right
    rcases List.mem_flatMap.1 harchived with ⟨files, hfiles, hkey⟩
    rw [harchivedFiles, List.findSome?_isSome_iff]
    exact ⟨files, List.mem_reverse.2 hfiles,
      Std.ExtTreeMap.isSome_getElem?_iff_mem.2 (Std.ExtTreeMap.mem_keys.1 hkey)⟩

end Collecting

end BuildTree
