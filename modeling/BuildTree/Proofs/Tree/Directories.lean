import BuildTree.Proofs.Text.Utf8
import BuildTree.Proofs.Tree.DirectoryMap
import BuildTree.Proofs.Tree.Files

/-!
# Directories of trees — every tree has one set of directories

A set of files implies the directories above its files, a mount adds the way to the mount point,
and layers join their directories.  A tree of well-formed paths knows a directory and lists what is
right below it by this one set, so that existence and listings never disagree and a walk over the
listings meets every directory.
-/

namespace BuildTree

/-! ## Sets of directories -/

/-- A set of well-formed paths that has the parent of each of its members. -/
structure IsDirectorySet (dirs : Set String) : Prop where
  wellFormed : ∀ dir ∈ dirs, Path.error? dir = none
  parent_mem : ∀ dir ∈ dirs, Path.parent dir ∈ dirs

namespace IsDirectorySet

variable {dirs more : Set String} {dir name mountPoint : String}

theorem ancestry (h : Path.error? dir = none) : IsDirectorySet (Path.ancestry dir) where
  wellFormed _ hdir := Path.error?_of_mem_ancestry h hdir
  parent_mem _ hdir := Path.parent_mem_ancestry hdir

theorem empty : IsDirectorySet ∅ where
  wellFormed dir hdir := absurd hdir (Set.notMem_empty dir)
  parent_mem dir hdir := absurd hdir (Set.notMem_empty dir)

theorem union (h : IsDirectorySet dirs) (hmore : IsDirectorySet more) :
    IsDirectorySet (dirs ∪ more) where
  wellFormed dir hdir := hdir.elim (h.wellFormed dir) (hmore.wellFormed dir)
  parent_mem dir hdir := hdir.imp (h.parent_mem dir) (hmore.parent_mem dir)

/-- The root is in every set of directories that has any. -/
theorem root_mem (h : IsDirectorySet dirs) (hdir : dir ∈ dirs) : Path.root ∈ dirs := by
  rcases Path.exists_names (h.wellFormed dir hdir) with ⟨names, hnames, rfl⟩
  have hroot := (Path.mem_ancestry_ofNames hnames (List.forall_mem_nil _)).2 List.nil_prefix
  exact Path.ancestry_subset h.parent_mem hdir hroot

/-- Below an unknown directory nothing is known. -/
theorem join_notMem (h : IsDirectorySet dirs) (hdir : Path.error? dir = none)
    (hunknown : dir ∉ dirs) (hname : Path.IsName name) : Path.join dir name ∉ dirs := by
  intro hchild
  have hparent := h.parent_mem _ hchild
  rw [Path.parent_join hdir hname] at hparent
  exact hunknown hparent

/-- What a finished map lists below a directory are the names that lead to directories. -/
theorem mem_namesBelow_iff (h : IsDirectorySet dirs) (hdir : Path.error? dir = none) :
    name ∈ DirectoryMap.namesBelow dirs none dir ↔
      Path.IsName name ∧ Path.join dir name ∈ dirs := by
  constructor
  · rintro ⟨child, hchild, hroot, -, rfl, rfl⟩
    rcases Path.join_parent_basename (h.wellFormed child hchild) hroot with ⟨hname, hjoin⟩
    rw [hjoin]
    exact ⟨hname, hchild⟩
  · rintro ⟨hname, hchild⟩
    exact ⟨Path.join dir name, hchild, Path.join_ne_root hdir hname, by simp,
      Path.parent_join hdir hname, Path.basename_join hdir hname⟩

/-- The directories of a mounted tree: the way to the mount point, and what lies below it. -/
theorem mounted (h : IsDirectorySet dirs) (hmount : Path.error? mountPoint = none) :
    IsDirectorySet (Path.ancestry mountPoint ∪ Path.mount mountPoint '' dirs) where
  wellFormed := by
    rintro dir (hdir | ⟨inner, hinner, rfl⟩)
    · exact Path.error?_of_mem_ancestry hmount hdir
    · exact Path.error?_mount hmount (h.wellFormed inner hinner)
  parent_mem := by
    rintro dir (hdir | ⟨inner, hinner, rfl⟩)
    · exact Or.inl (Path.parent_mem_ancestry hdir)
    · by_cases hroot : inner = Path.root
      · rw [hroot, Path.mount_root]
        exact Or.inl (Path.parent_mem_ancestry (Path.mem_ancestry_self mountPoint))
      · have hwell := h.wellFormed inner hinner
        have hparent := h.parent_mem inner hinner
        rcases Path.join_parent_basename hwell hroot with ⟨hname, hjoin⟩
        refine Or.inr ⟨Path.parent inner, hparent, ?_⟩
        calc
          Path.mount mountPoint (Path.parent inner) = Path.parent
              (Path.join (Path.mount mountPoint (Path.parent inner)) (Path.basename inner)) := by
            rw [Path.parent_join (Path.error?_mount hmount (h.wellFormed _ hparent)) hname]
          _ = Path.parent (Path.mount mountPoint inner) := by
            rw [← Path.mount_join hmount (h.wellFormed _ hparent) hname, hjoin]

end IsDirectorySet

/-! ## Listings -/

/-- What a listing of a directory in a set of directories has to be: nothing for an unknown
directory, and else the names that lead to directories, each once and in ascending order. -/
inductive IsListing (dirs : Set String) (dir : String) : Option (List String) → Prop
  | unknown (notMem : dir ∉ dirs) : IsListing dirs dir none
  | known {names : List String} (mem : dir ∈ dirs) (ascending : names.Pairwise (compare · · = .lt))
      (mem_iff : ∀ name, name ∈ names ↔ Path.IsName name ∧ Path.join dir name ∈ dirs) :
      IsListing dirs dir (some names)

namespace IsListing

variable {dirs more : Set String} {dir mountPoint : String} {names? more? : Option (List String)}

/-- A finished map gives listings. -/
theorem of_records {map : DirectoryMap} (h : map.Records dirs none) (hdirs : IsDirectorySet dirs)
    (hdir : Path.error? dir = none) : IsListing dirs dir (map.list? dir) := by
  rcases h.list?_eq dir with ⟨hunknown, hlist⟩ | ⟨hknown, names, hlist, hascending, hmem⟩
  · rw [hlist]
    exact .unknown hunknown
  · rw [hlist]
    refine .known hknown hascending ?_
    intro name
    rw [hmem, hdirs.mem_namesBelow_iff hdir]

/-- Only the listed directory and what is right below it matters for a listing. -/
theorem of_iff {other : String} (h : IsListing dirs dir names?) (hdir : dir ∈ dirs ↔ other ∈ more)
    (hbelow : ∀ name, Path.IsName name →
      (Path.join dir name ∈ dirs ↔ Path.join other name ∈ more)) :
    IsListing more other names? := by
  cases h with
  | unknown notMem => exact .unknown fun hmem => notMem (hdir.2 hmem)
  | known mem ascending mem_iff =>
    refine .known (hdir.1 mem) ascending ?_
    intro name
    rw [mem_iff]
    exact and_congr_right (hbelow name)

/-- The union of two listings lists the union of two sets of directories, if in each of them a name
leads from the directory only if the directory is there. -/
theorem union (h : IsListing dirs dir names?) (hmore : IsListing more dir more?)
    (hdirs : ∀ name, Path.IsName name → Path.join dir name ∈ dirs → dir ∈ dirs)
    (hmores : ∀ name, Path.IsName name → Path.join dir name ∈ more → dir ∈ more) :
    IsListing (dirs ∪ more) dir (FileTree.unionListing names? more?) := by
  cases h with
  | unknown notMem =>
    apply hmore.of_iff
    · simp [notMem]
    · intro name hname
      simp [mt (hdirs name hname) notMem]
  | @known names mem ascending mem_iff =>
    cases hmore with
    | unknown notMem =>
      apply (IsListing.known mem ascending mem_iff).of_iff
      · simp [mem]
      · intro name hname
        simp [mt (hmores name hname) notMem]
    | @known others memMore ascendingMore mem_iffMore =>
      -- The two lists go through a set, which sorts them and drops repetitions.
      refine .known (Or.inl mem) Std.ExtTreeSet.ordered_toList ?_
      intro name
      rw [Std.ExtTreeSet.mem_toList, Std.ExtTreeSet.mem_ofList, List.contains_iff_mem,
        List.mem_append, mem_iff, mem_iffMore, ← and_or_left, Set.mem_union]

/-- One set of directories has one listing of a directory. -/
theorem unique (h : IsListing dirs dir names?) (hmore : IsListing dirs dir more?) :
    names? = more? := by
  cases h with
  | unknown notMem =>
    cases hmore with
    | unknown => rfl
    | known mem => exact absurd mem notMem
  | @known names mem ascending mem_iff =>
    cases hmore with
    | unknown notMem => exact absurd mem notMem
    | @known others memMore ascendingMore mem_iffMore =>
      -- The two have the same names, each once, and in the one order there is.
      have hne : ∀ {first second : String}, compare first second = .lt → first ≠ second := by
        rintro first _ hlt rfl
        rw [Std.compare_self] at hlt
        cases hlt
      have hsame : names.Perm others := by
        apply (List.perm_ext_iff_of_nodup (ascending.imp hne) (ascendingMore.imp hne)).2
        intro name
        rw [mem_iff, mem_iffMore]
      have heq : names = others := by
        apply hsame.eq_of_pairwise _ ascending ascendingMore
        intro first second _ _ hlt hgt
        exact absurd hgt (Std.OrientedCmp.not_lt_of_lt hlt)
      rw [heq]

/-- Listings by two sets are equal just if the sets agree on the directory and on what is right
below it. -/
theorem eq_iff (h : IsListing dirs dir names?) (hmore : IsListing more dir more?)
    (hdirs : ∀ name, Path.IsName name → Path.join dir name ∈ dirs → dir ∈ dirs)
    (hmores : ∀ name, Path.IsName name → Path.join dir name ∈ more → dir ∈ more) :
    names? = more? ↔ (dir ∈ dirs ↔ dir ∈ more) ∧
      ∀ name, Path.IsName name → (Path.join dir name ∈ dirs ↔ Path.join dir name ∈ more) := by
  constructor
  · rintro rfl
    cases h with
    | unknown notMem =>
      cases hmore with
      | unknown notMem' =>
        refine ⟨iff_of_false notMem notMem', ?_⟩
        intro name hname
        exact iff_of_false (mt (hdirs name hname) notMem) (mt (hmores name hname) notMem')
    | known mem ascending mem_iff =>
      cases hmore with
      | known mem' ascending' mem_iff' =>
        refine ⟨iff_of_true mem mem', ?_⟩
        intro name hname
        have hsame := (mem_iff name).symm.trans (mem_iff' name)
        rwa [and_congr_right_iff, imp_iff_right hname] at hsame
  · rintro ⟨hself, hbelow⟩
    exact (h.of_iff hself hbelow).unique hmore

end IsListing

/-! ## Mounted sets of directories -/

section Mounted

variable {dirs : Set String} {dir mountPoint : String} {names? : Option (List String)}

/-- A directory seen from the mount point is known from outside just if it is known inside. -/
theorem mount_mem_image_iff (hdirs : IsDirectorySet dirs)
    {inner : String} (hmount : Path.error? mountPoint = none)
    (hinner : Path.error? inner = none) :
    Path.mount mountPoint inner ∈ Path.mount mountPoint '' dirs ↔ inner ∈ dirs := by
  constructor
  · rintro ⟨other, hother, hsame⟩
    rw [Path.mount_inj hmount hinner (hdirs.wellFormed other hother) hsame.symm]
    exact hother
  · intro h
    exact ⟨inner, h, rfl⟩

/-- Above the mount point only the way to it is listed. -/
theorem join_mem_ancestry_of_mem_image (hdirs : IsDirectorySet dirs)
    {name : String} (hmount : Path.error? mountPoint = none)
    (hdir : dir ∈ Path.ancestry mountPoint) (hne : dir ≠ mountPoint) (hname : Path.IsName name)
    (h : Path.join dir name ∈ Path.mount mountPoint '' dirs) :
    Path.join dir name ∈ Path.ancestry mountPoint := by
  have hwell := Path.error?_of_mem_ancestry hmount hdir
  rcases h with ⟨inner, hinner, hmounted⟩
  have hinside := hdirs.wellFormed inner hinner
  by_cases hroot : inner = Path.root
  · rw [← hmounted, hroot, Path.mount_root]
    exact Path.mem_ancestry_self mountPoint
  · -- A directory inside of the tree has its parent at or below the mount point.
    rcases Path.join_parent_basename hinside hroot with ⟨hbase, hjoin⟩
    have hparent := Path.error?_parent hinside
    have hbelow : Path.mount mountPoint (Path.parent inner) = dir := by
      calc
        Path.mount mountPoint (Path.parent inner) = Path.parent
            (Path.join (Path.mount mountPoint (Path.parent inner)) (Path.basename inner)) := by
          rw [Path.parent_join (Path.error?_mount hmount hparent) hbase]
        _ = Path.parent (Path.join dir name) := by
          rw [← Path.mount_join hmount hparent hbase, hjoin, hmounted]
        _ = dir := Path.parent_join hwell hname
    exact absurd (Path.eq_of_mount_mem_ancestry hmount hparent (hbelow ▸ hdir)) (hbelow ▸ hne)

/-- Inside of a mounted tree a name leads where it leads in the tree. -/
theorem join_mount_mem_iff (hdirs : IsDirectorySet dirs) (hmount : Path.error? mountPoint = none)
    {inner name : String} (hinner : Path.error? inner = none) (hname : Path.IsName name)
    (hway : Path.join (Path.mount mountPoint inner) name ∉ Path.ancestry mountPoint) :
    Path.join (Path.mount mountPoint inner) name ∈
      Path.ancestry mountPoint ∪ Path.mount mountPoint '' dirs ↔ Path.join inner name ∈ dirs := by
  rw [Set.mem_union, ← Path.mount_join hmount hinner hname,
    mount_mem_image_iff hdirs hmount (Path.error?_join hinner hname)]
  rw [← Path.mount_join hmount hinner hname] at hway
  simp [hway]

/-- A mount point lists the root of the inner tree, and nothing if that is unknown. -/
theorem IsListing.at_mountPoint (h : IsListing dirs Path.root names?) (hdirs : IsDirectorySet dirs)
    (hmount : Path.error? mountPoint = none) :
    IsListing (Path.ancestry mountPoint ∪ Path.mount mountPoint '' dirs) mountPoint
      (some (names?.getD [])) := by
  have hself : mountPoint ∈ Path.ancestry mountPoint ∪ Path.mount mountPoint '' dirs :=
    Or.inl (Path.mem_ancestry_self mountPoint)
  have hbelow : ∀ name, Path.IsName name → (Path.join Path.root name ∈ dirs ↔
      Path.join mountPoint name ∈ Path.ancestry mountPoint ∪ Path.mount mountPoint '' dirs) := by
    intro name hname
    have hway := Path.join_notMem_ancestry hmount hname
    have hiff := join_mount_mem_iff hdirs hmount Path.error?_root hname
    rw [Path.mount_root] at hiff
    exact (hiff hway).symm
  cases h with
  | unknown notMem =>
    refine .known hself List.Pairwise.nil ?_
    intro name
    -- Without a root the inner tree has no directories at all.
    constructor
    · intro hmem
      exact absurd hmem List.not_mem_nil
    · rintro ⟨hname, hchild⟩
      exact absurd ((hbelow name hname).2 hchild)
        (hdirs.join_notMem Path.error?_root notMem hname)
  | known mem ascending mem_iff =>
    exact (IsListing.known mem ascending mem_iff).of_iff (iff_of_true mem hself) hbelow

/-- On the way to a mount point the way is listed. -/
theorem IsListing.above_mountPoint (h : IsListing (Path.ancestry mountPoint) dir names?)
    (hdirs : IsDirectorySet dirs) (hmount : Path.error? mountPoint = none)
    (hdir : dir ∈ Path.ancestry mountPoint) (hne : dir ≠ mountPoint) :
    IsListing (Path.ancestry mountPoint ∪ Path.mount mountPoint '' dirs) dir names? := by
  apply h.of_iff (iff_of_true hdir (Or.inl hdir))
  intro name hname
  constructor
  · exact Or.inl
  · rintro (hway | hinside)
    · exact hway
    · exact join_mem_ancestry_of_mem_image hdirs hmount hdir hne hname hinside

/-- Off the way to a mount point the inner tree is listed. -/
theorem IsListing.below_mountPoint {inner : String} (h : IsListing dirs inner names?)
    (hdirs : IsDirectorySet dirs) (hmount : Path.error? mountPoint = none)
    (hinner : Path.error? inner = none)
    (hway : Path.mount mountPoint inner ∉ Path.ancestry mountPoint) :
    IsListing (Path.ancestry mountPoint ∪ Path.mount mountPoint '' dirs)
      (Path.mount mountPoint inner) names? := by
  apply h.of_iff
  · rw [Set.mem_union, mount_mem_image_iff hdirs hmount hinner]
    simp [hway]
  · intro name hname
    have hchild := (IsDirectorySet.ancestry hmount).join_notMem
      (Path.error?_mount hmount hinner) hway hname
    exact (join_mount_mem_iff hdirs hmount hinner hname hchild).symm

end Mounted

namespace FileTree

/-! ## The directories of a tree -/

mutual

/-- The directories of a tree. -/
def directories : FileTree → Set String
  | .fileSet set => {dir | ∃ file data, set.files[file]? = some data ∧
      dir ∈ Path.ancestry (Path.parent file)}
  | .mounted mountPoint inner => Path.ancestry mountPoint.text ∪
      Path.mount mountPoint.text '' inner.directories
  | .layered layers => layersDirectories layers

/-- The directories of layers together. -/
def layersDirectories : List FileTree → Set String
  | [] => ∅
  | layer :: rest => layer.directories ∪ layersDirectories rest

end

theorem layersDirectories_eq (layers : List FileTree) :
    layersDirectories layers = {dir | ∃ layer ∈ layers, dir ∈ layer.directories} := by
  induction layers with
  | nil =>
    rw [layersDirectories]
    simp
  | cons layer rest ih =>
    rw [layersDirectories, ih]
    apply Set.ext
    intro dir
    simp

theorem isDirectorySet_layersDirectories {layers : List FileTree}
    (h : ∀ layer ∈ layers, IsDirectorySet layer.directories) :
    IsDirectorySet (layersDirectories layers) := by
  induction layers with
  | nil =>
    rw [layersDirectories]
    exact .empty
  | cons layer rest ih =>
    rw [layersDirectories]
    have hrest := ih fun below hbelow => h below (List.mem_cons_of_mem layer hbelow)
    exact (h layer List.mem_cons_self).union hrest

theorem isDirectorySet_directories {tree : FileTree} (htree : tree.IsWellFormed) :
    IsDirectorySet tree.directories := by
  induction htree with
  | @fileSet set paths =>
    rw [directories]
    constructor
    · rintro dir ⟨file, data, hfile, hdir⟩
      exact Path.error?_of_mem_ancestry (Path.error?_parent (paths file data hfile)) hdir
    · rintro dir ⟨file, data, hfile, hdir⟩
      exact ⟨file, data, hfile, Path.parent_mem_ancestry hdir⟩
  | @mounted mountPoint inner inside ih =>
    rw [directories]
    exact ih.mounted mountPoint.wellFormed
  | @layered layers each ih =>
    rw [directories]
    exact isDirectorySet_layersDirectories ih

/-! ## What a tree answers about one directory -/

/-- A tree that answers about a directory by a set of directories. -/
structure AnswersAt (tree : FileTree) (dirs : Set String) (dir : String) : Prop where
  has : ∃ known, tree.hasDirectory dir = .ok known ∧ (known = true ↔ dir ∈ dirs)
  lists : ∃ names?, tree.childDirectories dir = .ok names? ∧ IsListing dirs dir names?

/-- A tree that answers a question, which is about a directory however it is put, by a set of
directories. -/
structure AnswersTo (tree : FileTree) (question : String) (dirs : Set String) (dir : String) :
    Prop where
  has : ∃ known, tree.hasDirectory question = .ok known ∧ (known = true ↔ dir ∈ dirs)
  lists : ∃ names?, tree.childDirectories question = .ok names? ∧ IsListing dirs dir names?

theorem AnswersTo.hasDirectory_eq_iff {tree : FileTree} {question other dir : String}
    {dirs more : Set String} (h : tree.AnswersTo question dirs dir)
    (hother : tree.AnswersTo other more dir) :
    tree.hasDirectory question = tree.hasDirectory other ↔ (dir ∈ dirs ↔ dir ∈ more) := by
  rcases h.has with ⟨known, hhas, hknown⟩
  rcases hother.has with ⟨known', hhas', hknown'⟩
  rw [hhas, hhas', Except.ok.injEq, ← hknown, ← hknown', Bool.eq_iff_iff]

theorem AnswersTo.childDirectories_eq_iff {tree : FileTree} {question other dir : String}
    {dirs more : Set String} (h : tree.AnswersTo question dirs dir)
    (hother : tree.AnswersTo other more dir)
    (hdirs : ∀ name, Path.IsName name → Path.join dir name ∈ dirs → dir ∈ dirs)
    (hmores : ∀ name, Path.IsName name → Path.join dir name ∈ more → dir ∈ more) :
    tree.childDirectories question = tree.childDirectories other ↔ (dir ∈ dirs ↔ dir ∈ more) ∧
      ∀ name, Path.IsName name → (Path.join dir name ∈ dirs ↔ Path.join dir name ∈ more) := by
  rcases h.lists with ⟨names?, hlist, hlisting⟩
  rcases hother.lists with ⟨more?, hlist', hlisting'⟩
  rw [hlist, hlist', Except.ok.injEq, hlisting.eq_iff hlisting' hdirs hmores]

/-- A tree answers about a directory by answering the question that is its name. -/
theorem answersAt_iff {tree : FileTree} {dirs : Set String} {dir : String} :
    tree.AnswersAt dirs dir ↔ tree.AnswersTo dir dirs dir :=
  ⟨fun h => ⟨h.has, h.lists⟩, fun h => ⟨h.has, h.lists⟩⟩

section Answers

variable {dir : String}

theorem listedName_eq (hdir : Path.error? dir = none) : FileSet.listedName dir = .ok dir := by
  -- Only a malformed path has a slash to lose.
  have hslash : Path.withoutTrailingSlash? dir = none := by
    rw [Path.withoutTrailingSlash?, if_neg]
    rintro ⟨hroot, hlast⟩
    exact Path.error?_of_last_slash hroot hlast hdir
  rw [FileSet.listedName, if_pos (Path.isAbsolute_of_error? hdir), hslash]
  rfl

/-- A set of files answers by the directories above its files. -/
theorem answersAt_fileSet {set : FileSet} (htree : (fileSet set).IsWellFormed)
    (hdir : Path.error? dir = none) : AnswersAt (.fileSet set) (fileSet set).directories dir := by
  have hrecords := DirectoryMap.records_ofFiles set.files.keys
  -- The keys of the map are the paths that it holds a file for.
  have hsets : {dir | ∃ file ∈ set.files.keys, dir ∈ Path.ancestry (Path.parent file)} =
      (fileSet set).directories := by
    rw [directories]
    apply Set.ext
    intro dir
    constructor
    · rintro ⟨file, hfile, habove⟩
      have hmem := Std.ExtTreeMap.mem_keys.1 hfile
      exact ⟨file, _, Std.ExtTreeMap.getElem?_eq_some_getElem hmem, habove⟩
    · rintro ⟨file, data, hfile, habove⟩
      refine ⟨file, Std.ExtTreeMap.mem_keys.2 ?_, habove⟩
      exact Std.ExtTreeMap.mem_iff_isSome_getElem?.2 (by rw [hfile]; rfl)
  rw [hsets, ← set.directories_eq] at hrecords
  constructor
  · refine ⟨_, ?_, hrecords.contains_iff dir⟩
    rw [hasDirectory, FileSet.hasDirectory, listedName_eq hdir]
    rfl
  · refine ⟨_, ?_, .of_records hrecords (isDirectorySet_directories htree) hdir⟩
    rw [childDirectories, FileSet.list, listedName_eq hdir]
    rfl

theorem records_mountDirectories (mountPoint : TreePath) :
    (mountDirectories mountPoint).Records (Path.ancestry mountPoint.text) none := by
  have h := DirectoryMap.records_empty.addDirectory mountPoint.text
  rw [Set.empty_union] at h
  exact h

/-- A mounted tree answers by the way to its mount point and by what it mounts. -/
theorem answersAt_mounted {mountPoint : TreePath} {inner : FileTree} {dirs : Set String}
    (hdirs : IsDirectorySet dirs)
    (hinner : ∀ {below}, Path.error? below = none → inner.AnswersAt dirs below)
    (hdir : Path.error? dir = none) :
    AnswersAt (.mounted mountPoint inner)
      (Path.ancestry mountPoint.text ∪ Path.mount mountPoint.text '' dirs) dir := by
  have hmount := mountPoint.wellFormed
  have hway := records_mountDirectories mountPoint
  have hancestry := IsDirectorySet.ancestry hmount
  have hseen : ∀ {below}, Path.seenFrom? dir mountPoint.text = some below ↔
      Path.error? below = none ∧ Path.mount mountPoint.text below = dir :=
    Path.seenFrom?_eq_some_iff_mount hdir hmount
  have hunseen : Path.seenFrom? dir mountPoint.text = none →
      dir ∉ Path.mount mountPoint.text '' dirs := by
    rintro hnone ⟨below, hbelow, hmounted⟩
    have hsome := hseen.2 ⟨hdirs.wellFormed below hbelow, hmounted⟩
    rw [hnone] at hsome
    exact absurd hsome (by simp)
  constructor
  · rw [hasDirectory]
    by_cases habove : (mountDirectories mountPoint).contains dir = true
    · rw [if_pos habove]
      exact ⟨true, rfl, by simp [(hway.contains_iff dir).1 habove]⟩
    · -- The directory is not on the way, so only the inner tree can know it.
      rw [if_neg habove]
      rw [hway.contains_iff] at habove
      cases hbelow : Path.seenFrom? dir mountPoint.text with
      | none => exact ⟨false, rfl, by simp only [Set.mem_union, habove, hunseen hbelow]; simp⟩
      | some below =>
        rcases hseen.1 hbelow with ⟨hwell, rfl⟩
        rcases (hinner hwell).has with ⟨known, hhas, hknown⟩
        refine ⟨known, hhas, ?_⟩
        rw [hknown, Set.mem_union, mount_mem_image_iff hdirs hmount hwell]
        simp [habove]
  · rw [childDirectories]
    by_cases hhere : dir = mountPoint.text
    · rw [if_pos hhere]
      rcases (hinner Path.error?_root).lists with ⟨names?, hlist, hlisting⟩
      refine ⟨some (names?.getD []), by rw [hlist], ?_⟩
      rw [hhere]
      exact hlisting.at_mountPoint hdirs hmount
    · rw [if_neg hhere]
      have hlisting := IsListing.of_records hway hancestry hdir
      cases hlist : (mountDirectories mountPoint).list? dir with
      | some names =>
        rw [hlist] at hlisting
        refine ⟨some names, rfl, ?_⟩
        cases hlisting with
        | known mem ascending mem_iff =>
          exact (IsListing.known mem ascending mem_iff).above_mountPoint hdirs hmount mem hhere
      | none =>
        -- The way does not lead through the directory, so the inner tree is asked.
        rw [hlist] at hlisting
        cases hlisting with
        | unknown notMem =>
        cases hbelow : Path.seenFrom? dir mountPoint.text with
        | none =>
          refine ⟨none, rfl, .unknown ?_⟩
          rintro (habove | hinside)
          · exact notMem habove
          · exact hunseen hbelow hinside
        | some below =>
          rcases hseen.1 hbelow with ⟨hwell, rfl⟩
          rcases (hinner hwell).lists with ⟨names?, hlist, hinside⟩
          exact ⟨names?, hlist, hinside.below_mountPoint hdirs hmount hwell notMem⟩

/-- Layers that answer a question about a directory by sets of directories answer it together by
the union of the sets. -/
theorem AnswersTo.layered {layers : List FileTree} {question : String}
    {known : FileTree → Set String}
    (h : ∀ layer ∈ layers, layer.AnswersTo question (known layer) dir)
    (hparent : ∀ layer ∈ layers, ∀ name, Path.IsName name → Path.join dir name ∈ known layer →
      dir ∈ known layer) :
    AnswersTo (.layered layers) question {place | ∃ layer ∈ layers, place ∈ known layer} dir := by
  suffices hlayers : (∃ found, anyHasDirectory layers question = .ok found ∧
      (found = true ↔ ∃ layer ∈ layers, dir ∈ known layer)) ∧
      ∃ names?, listLayers layers question = .ok names? ∧
        IsListing {place | ∃ layer ∈ layers, place ∈ known layer} dir names? by
    constructor
    · rw [hasDirectory]
      exact hlayers.1
    · rw [childDirectories]
      exact hlayers.2
  induction layers with
  | nil =>
    rw [anyHasDirectory, listLayers]
    exact ⟨⟨false, rfl, by simp⟩, none, rfl, .unknown (by simp)⟩
  | cons layer rest ih =>
    have hbelow : ∀ other ∈ rest, other.AnswersTo question (known other) dir :=
      fun other hother => h other (List.mem_cons_of_mem layer hother)
    have hparents : ∀ other ∈ rest, ∀ name, Path.IsName name →
        Path.join dir name ∈ known other → dir ∈ known other :=
      fun other hother => hparent other (List.mem_cons_of_mem layer hother)
    rcases h layer List.mem_cons_self with ⟨⟨found, hhas, hfound⟩, names?, hlist, hlisting⟩
    rcases ih hbelow hparents with ⟨⟨more, hmore, hmoreFound⟩, more?, hmoreList, hmoreListing⟩
    -- The union of the listings is the listing of the union, in each of the two cases below.
    have hunion := hlisting.union hmoreListing (hparent layer List.mem_cons_self) (by
      rintro name hname ⟨other, hother, hchild⟩
      exact ⟨other, hother, hparents other hother name hname hchild⟩)
    have hsets : known layer ∪ {place | ∃ other ∈ rest, place ∈ known other} =
        {place | ∃ other ∈ layer :: rest, place ∈ known other} := by
      apply Set.ext
      intro place
      simp
    rw [hsets] at hunion
    rw [anyHasDirectory, listLayers, hhas]
    cases found with
    | true =>
      refine ⟨⟨true, rfl, ?_⟩, _, by rw [hlist, hmoreList], hunion⟩
      exact iff_of_true rfl ⟨layer, List.mem_cons_self, hfound.1 rfl⟩
    | false =>
      -- A layer without the directory is passed over, which is what an unknown listing does.
      have hunknown : dir ∉ known layer := fun hmem => absurd (hfound.2 hmem) (by decide)
      refine ⟨⟨more, hmore, ?_⟩, more?, hmoreList, ?_⟩
      · rw [hmoreFound]
        simp [hunknown]
      · cases hlisting with
        | unknown notMem => exact hunion
        | known mem ascending mem_iff => exact absurd mem hunknown

end Answers

/-- A tree answers about every directory by its set of directories. -/
theorem answersAt_directories {tree : FileTree} (htree : tree.IsWellFormed) {dir : String}
    (hdir : Path.error? dir = none) : tree.AnswersAt tree.directories dir := by
  induction htree generalizing dir with
  | @fileSet set paths => exact answersAt_fileSet (.fileSet paths) hdir
  | @mounted mountPoint inner inside ih =>
    rw [directories]
    exact answersAt_mounted (isDirectorySet_directories inside) ih hdir
  | @layered layers each ih =>
    rw [answersAt_iff, directories, layersDirectories_eq]
    apply AnswersTo.layered
    · intro layer hlayer
      exact answersAt_iff.1 (ih layer hlayer hdir)
    · intro layer hlayer name hname
      exact not_imp_not.1 fun hunknown =>
        (isDirectorySet_directories (each layer hlayer)).join_notMem hdir hunknown hname

/-! ## Walking a tree -/

/-- The directories that are met on walks from the root along the listings of a tree. -/
inductive Walked (tree : FileTree) : String → Prop
  | root : Walked tree Path.root
  | child {dir name : String} {names : List String} (above : Walked tree dir)
      (listed : tree.childDirectories dir = .ok (some names)) (mem : name ∈ names) :
      Walked tree (Path.join dir name)

/-- A tree that knows and lists its directories by one set. -/
structure AnswersBy (tree : FileTree) (dirs : Set String) : Prop where
  /-- A directory exists just if it is in the set. -/
  hasDirectory_eq : ∀ dir, Path.error? dir = none →
    ∃ known, tree.hasDirectory dir = .ok known ∧ (known = true ↔ dir ∈ dirs)
  /-- A directory outside of the set is not listed. -/
  childDirectories_eq_none : ∀ dir, Path.error? dir = none →
    (tree.childDirectories dir = .ok none ↔ dir ∉ dirs)
  /-- The listing of a directory in the set has its children, each once and in the order of their
  octets. -/
  childDirectories_eq_some : ∀ dir, Path.error? dir = none → dir ∈ dirs →
    ∃ names, tree.childDirectories dir = .ok (some names) ∧
      names.Pairwise (fun a b => Bytes.ofString a < Bytes.ofString b) ∧
      ∀ name, name ∈ names ↔ Path.IsName name ∧ Path.join dir name ∈ dirs
  /-- What exists is listed, and what is listed exists. -/
  agree : ∀ dir, Path.error? dir = none → (tree.hasDirectory dir = .ok true ↔
    ∃ names, tree.childDirectories dir = .ok (some names))
  child_exists : ∀ dir names, Path.error? dir = none →
    tree.childDirectories dir = .ok (some names) →
    ∀ name ∈ names, tree.hasDirectory (Path.join dir name) = .ok true
  listed_by_parent : ∀ dir, Path.error? dir = none → dir ≠ Path.root →
    tree.hasDirectory dir = .ok true →
    ∃ names, tree.childDirectories (Path.parent dir) = .ok (some names) ∧
      Path.basename dir ∈ names
  /-- Unless there are none, a walk from the root meets the directories and nothing else. -/
  walked_iff : dirs.Nonempty → ∀ dir, tree.Walked dir ↔ dir ∈ dirs

section Walks

variable {tree : FileTree} {dirs : Set String} {dir : String}

theorem AnswersAt.hasDirectory_iff (h : tree.AnswersAt dirs dir) :
    tree.hasDirectory dir = .ok true ↔ dir ∈ dirs := by
  rcases h.has with ⟨known, hhas, hknown⟩
  rw [hhas, ← hknown, Except.ok.injEq]

theorem AnswersAt.isListing (h : tree.AnswersAt dirs dir) {names? : Option (List String)}
    (hlist : tree.childDirectories dir = .ok names?) : IsListing dirs dir names? := by
  rcases h.lists with ⟨listed?, hlisted, hlisting⟩
  rw [Except.ok.inj (hlist.symm.trans hlisted)]
  exact hlisting

theorem AnswersAt.exists_names (h : tree.AnswersAt dirs dir) (hdir : dir ∈ dirs) :
    ∃ names, tree.childDirectories dir = .ok (some names) ∧
      names.Pairwise (compare · · = .lt) ∧
      ∀ name, name ∈ names ↔ Path.IsName name ∧ Path.join dir name ∈ dirs := by
  rcases h.lists with ⟨names?, hlist, hlisting⟩
  cases hlisting with
  | unknown notMem => exact absurd hdir notMem
  | @known names mem ascending mem_iff => exact ⟨names, hlist, ascending, mem_iff⟩

/-- A walk along the listings of a set of directories meets all of it. -/
theorem walked_iff_mem (hdirs : IsDirectorySet dirs)
    (h : ∀ {dir}, Path.error? dir = none → tree.AnswersAt dirs dir) (hroot : Path.root ∈ dirs) :
    tree.Walked dir ↔ dir ∈ dirs := by
  constructor
  · intro hwalk
    -- Each step of a walk takes a listed name, and listed names lead to directories.
    induction hwalk with
    | root => exact hroot
    | @child dir name names above listed mem ih =>
      cases (h (hdirs.wellFormed dir ih)).isListing listed with
      | known _ _ mem_iff => exact ((mem_iff name).1 mem).2
  · intro hmem
    rcases Path.exists_names (hdirs.wellFormed dir hmem) with ⟨names, hnames, rfl⟩
    -- The walk goes down name by name, and the last step is the last name.
    induction names using List.reverseRecOn with
    | nil => exact .root
    | append_singleton before last ih =>
      have hbefore : ∀ n ∈ before, Path.IsName n := (List.forall_mem_append.1 hnames).1
      have hlast : Path.IsName last := hnames last (by simp)
      have hparent := hdirs.parent_mem _ hmem
      rw [Path.parent_ofNames_append hlast.no_slash] at hparent
      rw [← Path.join_ofNames hbefore] at hmem ⊢
      rcases (h (Path.error?_ofNames hbefore)).exists_names hparent with
        ⟨listed, hlist, -, hlisted⟩
      exact .child (ih hbefore hparent) hlist ((hlisted last).2 ⟨hlast, hmem⟩)

end Walks

/-- A tree of well-formed paths knows and lists its directories by one set. -/
theorem answersBy_directories {tree : FileTree} (htree : tree.IsWellFormed) :
    tree.AnswersBy tree.directories := by
  have hdirs := isDirectorySet_directories htree
  have hanswers : ∀ {dir}, Path.error? dir = none → tree.AnswersAt tree.directories dir :=
    answersAt_directories htree
  refine ⟨?_, ?_, ?_, ?_, ?_, ?_, ?_⟩
  · intro dir hdir
    exact (hanswers hdir).has
  · intro dir hdir
    constructor
    · intro hlist
      cases (hanswers hdir).isListing hlist with
      | unknown notMem => exact notMem
    · intro hunknown
      rcases (hanswers hdir).lists with ⟨names?, hlist, hlisting⟩
      cases hlisting with
      | unknown notMem => exact hlist
      | known mem ascending mem_iff => exact absurd mem hunknown
  · intro dir hdir hmem
    rcases (hanswers hdir).exists_names hmem with ⟨names, hlist, hascending, hnames⟩
    refine ⟨names, hlist, ?_, hnames⟩
    exact hascending.imp Utf8.ofString_lt
  · intro dir hdir
    rw [(hanswers hdir).hasDirectory_iff]
    constructor
    · intro hmem
      rcases (hanswers hdir).exists_names hmem with ⟨names, hlist, -⟩
      exact ⟨names, hlist⟩
    · rintro ⟨names, hlist⟩
      cases (hanswers hdir).isListing hlist with
      | known mem ascending mem_iff => exact mem
  · intro dir names hdir hlist name hname
    cases (hanswers hdir).isListing hlist with
    | known mem ascending mem_iff =>
      rcases (mem_iff name).1 hname with ⟨hseg, hchild⟩
      exact (hanswers (Path.error?_join hdir hseg)).hasDirectory_iff.2 hchild
  · intro dir hdir hroot hhas
    have hmem := (hanswers hdir).hasDirectory_iff.1 hhas
    have hparent := hdirs.parent_mem dir hmem
    rcases Path.join_parent_basename hdir hroot with ⟨hseg, hjoin⟩
    rcases (hanswers (Path.error?_parent hdir)).exists_names hparent with
      ⟨names, hlist, -, hnames⟩
    refine ⟨names, hlist, (hnames _).2 ⟨hseg, ?_⟩⟩
    rw [hjoin]
    exact hmem
  · rintro ⟨some_dir, hsome⟩ dir
    exact walked_iff_mem hdirs hanswers (hdirs.root_mem hsome)

theorem answersBy_directories_below_vendor :
    ∃ set : FileSet, FileSet.ofFiles (FileMap.ofPairs [("/pkg/a.ts", [1])]) = .ok set ∧
      (mounted ⟨"/vendor", by decide⟩ (.fileSet set)).Walked "/vendor/pkg" ∧
      (mounted ⟨"/vendor", by decide⟩ (.fileSet set)).childDirectories "/vendored" = .ok none := by
  have hpairs : ∀ pair ∈ [("/pkg/a.ts", ([1] : Bytes))], Path.error? pair.1 = none := by decide
  rcases exists_fileSet_ofPairs hpairs with ⟨set, hset, hfiles, hwell⟩
  have htree : (mounted ⟨"/vendor", by decide⟩ (.fileSet set)).IsWellFormed := .mounted hwell
  have hanswers := answersBy_directories htree
  have hmem : "/vendor/pkg" ∈ (mounted ⟨"/vendor", by decide⟩ (.fileSet set)).directories := by
    rw [directories, directories]
    have hheld : set.files["/pkg/a.ts"]? = some [1] := by
      rw [hfiles, FileMap.getElem?_ofPairs]
      rfl
    have habove : "/pkg" ∈ Path.ancestry (Path.parent "/pkg/a.ts") := ⟨0, by decide⟩
    exact Or.inr ⟨"/pkg", ⟨"/pkg/a.ts", [1], hheld, habove⟩, by decide⟩
  refine ⟨set, hset, (hanswers.walked_iff ⟨_, hmem⟩ _).2 hmem, ?_⟩
  apply (hanswers.childDirectories_eq_none "/vendored" (by decide)).2
  rw [directories]
  rintro (hway | ⟨inner, hinner, hmounted⟩)
  · have hparent : Path.parent "/vendor" = Path.root := by decide
    rw [Path.ancestry_eq_insert, hparent, Path.ancestry_root] at hway
    exact absurd hway (by decide)
  · have hinside := (isDirectorySet_directories hwell).wellFormed inner hinner
    have hbeside : Path.error? "/vendored" = none := by decide
    have hunseen : Path.seenFrom? "/vendored" "/vendor" = none := by decide
    have hseen := (Path.seenFrom?_eq_some_iff_mount hbeside (by decide)).2 ⟨hinside, hmounted⟩
    exact absurd (hunseen.symm.trans hseen) (by simp)

end FileTree
end BuildTree
