import BuildTree.Proofs.Archive.SourceFiles
import BuildTree.Proofs.Text.Ends

/-!
# Extensions — what a longer list of extensions adds to a source archive

Whether an entry counts is told by its name, and it is kept below a path without the slashes in
front of the name.  An extension starts with a dot, so it does not reach back to those slashes, and
the entries with one path count together or not at all.  An entry that does not count is passed over
before its name and its contents can fail.  So with fewer extensions reading succeeds as well, and
it gives those of the files that have one of them.
-/

namespace BuildTree

namespace SourceArchive

section Narrowing

variable {path : String} {narrow wide : List String}

theorem any_endsWith_of_subset {name : String} (hsub : ∀ extension ∈ narrow, extension ∈ wide)
    (h : narrow.any (Text.endsWith name ·) = true) : wide.any (Text.endsWith name ·) = true := by
  rcases List.any_eq_true.1 h with ⟨extension, hmem, hends⟩
  exact List.any_eq_true.2 ⟨extension, hsub extension hmem, hends⟩

/-- The path of an entry has one of the extensions just if the name of the entry has one. -/
theorem any_endsWith_ofRelative {extensions : List String} {name : String} {place : TreePath}
    (hdot : ∀ extension ∈ extensions, Text.startsWith extension "." = true)
    (h : TreePath.ofRelative name = .ok place) :
    extensions.any (Text.endsWith place.text ·) = extensions.any (Text.endsWith name ·) := by
  have hends : ∀ extension ∈ extensions,
      (Text.endsWith place.text extension = true ↔ Text.endsWith name extension = true) := by
    intro extension hmem
    rw [TreePath.parse_eq_ok_iff.1 h, Text.endsWith_dropSlashes (hdot extension hmem)]
  rw [Bool.eq_iff_iff, List.any_eq_true, List.any_eq_true]
  exact exists_congr fun extension => and_congr_right (hends extension)

/-! ## One entry -/

/-- An entry that is read for the longer list is read for the shorter one, as a file just if its path
has one of the extensions. -/
theorem fileOf_narrow (hsub : ∀ extension ∈ narrow, extension ∈ wide)
    (hdot : ∀ extension ∈ narrow, Text.startsWith extension "." = true)
    {opened : Except ZipError ZipEntry} {file : Option (TreePath × Bytes)}
    (h : fileOf path wide opened = .ok file) :
    fileOf path narrow opened =
      .ok (file.filter fun file => narrow.any (Text.endsWith file.1.text ·)) := by
  cases opened with
  | error cause => cases h
  | ok entry =>
    have hfilter : file.filter (fun file => narrow.any (Text.endsWith file.1.text ·)) =
        if narrow.any (Text.endsWith entry.name ·) then file else none := by
      cases file with
      | none => simp
      | some added =>
        rcases exists_adds_of_fileOf h with ⟨own, heq, hadds⟩
        cases heq
        rw [Option.filter_some, any_endsWith_ofRelative hdot hadds.place]
    rw [hfilter]
    cases hname : narrow.any (Text.endsWith entry.name ·) with
    | false => simp [fileOf, hname]
    | true =>
      -- The longer list has the extension as well, so for both lists the entry is taken up.
      rw [if_pos rfl, ← h]
      simp only [fileOf, hname, any_endsWith_of_subset hsub hname]

/-! ## All entries -/

/-- The part is what the files hold at paths that have one of the extensions. -/
def IsPart (extensions : List String) (part files : FileMap) : Prop :=
  ∀ name, part[name]? = (files[name]?).filter fun _ => extensions.any (Text.endsWith name ·)

theorem IsPart.insert {part files : FileMap} {place : String} (h : IsPart narrow part files)
    (hplace : narrow.any (Text.endsWith place ·) = true) (contents : Bytes) :
    IsPart narrow (part.insert place contents) (files.insert place contents) := by
  intro name
  rw [Std.ExtTreeMap.getElem?_insert, Std.ExtTreeMap.getElem?_insert, h name]
  by_cases hname : place = name
  · subst hname
    simp [hplace, Option.filter_some]
  · simp [hname]

theorem IsPart.insert_other {part files : FileMap} {place : String} (h : IsPart narrow part files)
    (hplace : narrow.any (Text.endsWith place ·) = false) (contents : Bytes) :
    IsPart narrow part (files.insert place contents) := by
  intro name
  rw [Std.ExtTreeMap.getElem?_insert, h name]
  by_cases hname : place = name
  · subst hname
    simp [hplace]
  · simp [hname]

/-- The files of a source archive for the shorter list are a part of those for the longer one. -/
theorem filesOf_narrow (hsub : ∀ extension ∈ narrow, extension ∈ wide)
    (hdot : ∀ extension ∈ narrow, Text.startsWith extension "." = true)
    {opened : List (Except ZipError ZipEntry)} {part before files : FileMap}
    (hbefore : IsPart narrow part before) (h : filesOf path wide opened before = .ok files) :
    ∃ narrowed, filesOf path narrow opened part = .ok narrowed ∧ IsPart narrow narrowed files := by
  induction opened generalizing part before with
  | nil =>
    cases h
    exact ⟨part, rfl, hbefore⟩
  | cons entry opened ih =>
    rw [filesOf] at h
    split at h
    · cases h
    · rename_i hentry
      rw [filesOf, fileOf_narrow hsub hdot hentry]
      exact ih hbefore h
    · rename_i place contents hentry
      rw [filesOf, fileOf_narrow hsub hdot hentry, Option.filter_some]
      cases hplace : narrow.any (Text.endsWith place.text ·) with
      | false => exact ih (hbefore.insert_other hplace contents) h
      | true => exact ih (hbefore.insert hplace contents) h

/-- A source archive that is read for a list of extensions is read for any part of the list as well,
and then it holds just those of the files whose paths have one of the fewer extensions. -/
theorem read_narrow {disk : FileStore} {files : FileMap}
    (hsub : ∀ extension ∈ narrow, extension ∈ wide)
    (hdot : ∀ extension ∈ narrow, Text.startsWith extension "." = true)
    (h : read disk path wide = .ok files) :
    ∃ part, read disk path narrow = .ok part ∧
      ∀ name data, part[name]? = some data ↔
        files[name]? = some data ∧ ∃ extension ∈ narrow, Text.endsWith name extension = true := by
  obtain ⟨part, hpart, hheld⟩ : ∃ part, read disk path narrow = .ok part ∧
      IsPart narrow part files := by
    rw [read] at h ⊢
    split at h
    · cases h
    · cases h
    · split at h
      · cases h
      · exact filesOf_narrow hsub hdot (fun name => rfl) h
  refine ⟨part, hpart, fun name data => ?_⟩
  rw [hheld, Option.filter_eq_some_iff, List.any_eq_true]

end Narrowing

/-- A source archive with the stored entries `a.ts`, `/a.ts` and `b.js`; the first two have one path. -/
def sharedPathArchive : Bytes :=
  [80, 75, 3, 4, 20, 0, 0, 0, 0, 0, 0, 0, 33, 0, 183, 239, 220, 131, 1, 0, 0, 0, 1, 0, 0, 0, 4, 0, 0,
    0, 97, 46, 116, 115, 49] ++
  [80, 75, 3, 4, 20, 0, 0, 0, 0, 0, 0, 0, 33, 0, 13, 190, 213, 26, 1, 0, 0, 0, 1, 0, 0, 0, 5, 0, 0,
    0, 47, 97, 46, 116, 115, 50] ++
  [80, 75, 3, 4, 20, 0, 0, 0, 0, 0, 0, 0, 33, 0, 155, 142, 210, 109, 1, 0, 0, 0, 1, 0, 0, 0, 4, 0, 0,
    0, 98, 46, 106, 115, 51] ++
  [80, 75, 1, 2, 20, 3, 20, 0, 0, 0, 0, 0, 0, 0, 33, 0, 183, 239, 220, 131, 1, 0, 0, 0, 1, 0, 0, 0,
    4, 0, 0, 0, 0, 0, 0, 0, 0, 0, 0, 0, 128, 1, 0, 0, 0, 0, 97, 46, 116, 115] ++
  [80, 75, 1, 2, 20, 3, 20, 0, 0, 0, 0, 0, 0, 0, 33, 0, 13, 190, 213, 26, 1, 0, 0, 0, 1, 0, 0, 0, 5,
    0, 0, 0, 0, 0, 0, 0, 0, 0, 0, 0, 128, 1, 35, 0, 0, 0, 47, 97, 46, 116, 115] ++
  [80, 75, 1, 2, 20, 3, 20, 0, 0, 0, 0, 0, 0, 0, 33, 0, 155, 142, 210, 109, 1, 0, 0, 0, 1, 0, 0, 0,
    4, 0, 0, 0, 0, 0, 0, 0, 0, 0, 0, 0, 128, 1, 71, 0, 0, 0, 98, 46, 106, 115] ++
  [80, 75, 5, 6, 0, 0, 0, 0, 3, 0, 3, 0, 151, 0, 0, 0, 106, 0, 0, 0, 0, 0]

theorem read_narrow_shared_path :
    ∃ files part : FileMap,
      read (.holding [("all.srcjar", sharedPathArchive)]) "all.srcjar" [".js", ".ts"] = .ok files ∧
      (∀ extension ∈ [".ts"], extension ∈ [".js", ".ts"]) ∧
      (∀ extension ∈ [".ts"], Text.startsWith extension "." = true) ∧
      read (.holding [("all.srcjar", sharedPathArchive)]) "all.srcjar" [".ts"] = .ok part ∧
      part["/a.ts"]? = some [50] ∧ part["/b.js"]? = none := by
  -- Of the two entries with one path the later one counts.
  obtain ⟨files, hfiles, hlisted⟩ : ∃ files : FileMap,
      read (.holding [("all.srcjar", sharedPathArchive)]) "all.srcjar" [".js", ".ts"] = .ok files ∧
      files.toList = [("/a.ts", [50]), ("/b.js", [51])] :=
    map_eq_ok_iff.1 (by decide +kernel)
  have hsub : ∀ extension ∈ [".ts"], extension ∈ [".js", ".ts"] := by decide
  have hdot : ∀ extension ∈ [".ts"], Text.startsWith extension "." = true := by decide
  rcases read_narrow hsub hdot hfiles with ⟨part, hpart, hheld⟩
  refine ⟨files, part, hfiles, hsub, hdot, hpart, (hheld _ _).2 ⟨?_, ".ts", by decide, by decide⟩, ?_⟩
  · rw [← Std.ExtTreeMap.mem_toList_iff_getElem?_eq_some, hlisted]
    exact List.mem_cons_self
  · rw [Option.eq_none_iff_forall_ne_some]
    intro data hdata
    rcases ((hheld _ _).1 hdata).2 with ⟨extension, hmem, hends⟩
    obtain rfl := List.mem_singleton.1 hmem
    exact absurd hends (by decide)

end SourceArchive
end BuildTree
