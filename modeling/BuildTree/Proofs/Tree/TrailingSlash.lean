import BuildTree.Proofs.Tree.Directories

/-!
# Trailing slashes — directories asked for with a slash behind

A set of files takes the slash off, and a mount hands it on to its tree.  But the way to a mount
point is looked up as it is, so a directory that only leads to a mount point is not found with a
slash behind it, and neither is a mount point whose tree has no directories.  What a tree finds is
stated without its functions by `Finds`.  The answers with a slash are exact for it, and they are
those without just if nothing is lost; nothing is lost where nothing is mounted at or below.
-/

namespace BuildTree
namespace Path

/-! ## Paths with a slash behind them -/

section Slashed

variable {path dir mountPoint : String}

/-- A path with a slash behind it, which the root has anyway. -/
def slashed (path : String) : String :=
  if path = root then root else path ++ "/"

theorem slashed_root : slashed root = root := if_pos rfl

theorem slashed_eq (hroot : path ≠ root) : slashed path = path ++ "/" := if_neg hroot

theorem toList_slashed (hroot : path ≠ root) : (slashed path).toList = path.toList ++ ['/'] := by
  rw [slashed_eq hroot, String.toList_append]
  rfl

theorem slashed_ne_root (h : error? path = none) (hroot : path ≠ root) : slashed path ≠ root := by
  intro heq
  have htext := congrArg String.toList heq
  rw [toList_slashed hroot] at htext
  -- Only the empty text could become the root, and that is no path.
  have hempty : path = "" := by simpa [root] using htext
  rw [hempty] at h
  exact absurd h (by decide)

theorem error?_slashed (h : error? path = none) (hroot : path ≠ root) :
    error? (slashed path) ≠ none := by
  apply error?_of_last_slash (slashed_ne_root h hroot)
  rw [toList_slashed hroot, List.getLast?_concat]

theorem slashed_notMem_ancestry (hdir : error? dir = none) (hroot : dir ≠ root)
    (hmount : error? mountPoint = none) : slashed dir ∉ ancestry mountPoint := fun hmem =>
  error?_slashed hdir hroot (error?_of_mem_ancestry hmount hmem)

theorem withoutTrailingSlash?_slashed (h : error? path = none) (hroot : path ≠ root) :
    withoutTrailingSlash? (slashed path) = some path := by
  have hlast : (slashed path).toList.getLast? = some '/' := by
    rw [toList_slashed hroot, List.getLast?_concat]
  rw [withoutTrailingSlash?, if_pos ⟨slashed_ne_root h hroot, hlast⟩, toList_slashed hroot,
    List.dropLast_concat, String.ofList_toList]

theorem isPrefixOf?_concat {first second : List Char} {c : Char} (h : first ≠ second ++ [c]) :
    first.isPrefixOf? (second ++ [c]) = (first.isPrefixOf? second).map (· ++ [c]) := by
  apply Option.ext
  intro rest
  rw [isPrefixOf?_eq_some_iff, Option.map_eq_some_iff]
  constructor
  · intro hsplit
    -- The added character belongs to the rest, since the prefix is not everything.
    rcases List.eq_nil_or_concat rest with rfl | ⟨before, last, rfl⟩
    · rw [List.append_nil] at hsplit
      exact absurd hsplit.symm h
    · rw [List.concat_eq_append, ← List.append_assoc] at hsplit
      rcases List.append_inj' hsplit rfl with ⟨hfront, hlast⟩
      exact ⟨before, isPrefixOf?_eq_some_iff.2 hfront, by rw [List.concat_eq_append, hlast]⟩
  · rintro ⟨before, hbefore, rfl⟩
    rw [isPrefixOf?_eq_some_iff.1 hbefore, List.append_assoc]

theorem seenFrom?_root (hmount : error? mountPoint = none) (htop : mountPoint ≠ root) :
    seenFrom? root mountPoint = none := by
  rcases exists_names hmount with ⟨above, habove, rfl⟩
  rw [← ofNames_nil, Option.eq_none_iff_forall_ne_some]
  intro seen hseen
  rcases (seenFrom?_ofNames_eq_some_iff (List.forall_mem_nil _) habove).1 hseen with
    ⟨below, hsplit, -⟩
  rw [(List.append_eq_nil_iff.1 hsplit.symm).1] at htop
  exact htop ofNames_nil

theorem seenFrom?_slashed (hdir : error? dir = none) (hmount : error? mountPoint = none) :
    seenFrom? (slashed dir) mountPoint = (seenFrom? dir mountPoint).map slashed := by
  -- The mount point keeps what is behind it, and with that the slash at the end.
  by_cases htop : mountPoint = root
  · rw [seenFrom?, seenFrom?, if_pos htop, if_pos htop, Option.map_some]
  by_cases hroot : dir = root
  · rw [hroot, slashed_root, seenFrom?_root hmount htop, Option.map_none]
  have hlast : mountPoint.toList ≠ dir.toList ++ ['/'] := by
    intro heq
    exact error?_of_last_slash htop (by rw [heq, List.getLast?_concat]) hmount
  simp only [seenFrom?, htop, if_false, toList_slashed hroot, isPrefixOf?_concat hlast]
  cases hrest : mountPoint.toList.isPrefixOf? dir.toList with
  | none => rfl
  | some rest =>
    cases rest with
    | nil => rfl
    | cons c rest =>
      by_cases hslash : c = '/'
      · subst hslash
        -- What is seen is not the root, or else the directory would have a slash at its end.
        have hbelow : String.ofList ('/' :: rest) ≠ root := by
          intro heq
          have hnil : rest = [] := by simpa [root] using congrArg String.toList heq
          have htext := isPrefixOf?_eq_some_iff.1 hrest
          rw [hnil] at htext
          exact error?_of_last_slash hroot (by rw [htext, List.getLast?_concat]) hdir
        have hseen : slashed (String.ofList ('/' :: rest)) = String.ofList ('/' :: rest ++ ['/']) := by
          apply String.toList_inj.1
          rw [toList_slashed hbelow, String.toList_ofList, String.toList_ofList]
        simp only [Option.map_some, List.cons_append, if_true, hseen]
      · simp [hslash]

theorem isAbsolute_slashed (h : error? path = none) : isAbsolute (slashed path) = true := by
  by_cases hroot : path = root
  · rw [hroot]
    rfl
  · have habsolute := isAbsolute_of_error? h
    rw [isAbsolute, beq_iff_eq] at habsolute ⊢
    rw [toList_slashed hroot, List.head?_append, habsolute, Option.some_or]

end Slashed

end Path

namespace FileTree

/-! ## What is found with a slash behind -/

/-- What counts when a tree is asked for a directory with a slash behind it.  A set of files takes
the slash off.  A tree that is mounted right there is asked for its root, and one that is mounted
above is asked with a slash for what is seen from its mount point.  The way to a mount point counts
for nothing. -/
inductive Finds : FileTree → String → String → Prop
  | inFiles {set : FileSet} {dir place : String} (known : place ∈ (fileSet set).directories) :
      Finds (.fileSet set) dir place
  | atMountPoint {mountPoint : TreePath} {inner : FileTree} {inside : String}
      (known : inside ∈ inner.directories) :
      Finds (.mounted mountPoint inner) mountPoint.text (Path.mount mountPoint.text inside)
  | belowMountPoint {mountPoint : TreePath} {inner : FileTree} {below inside : String}
      (wellFormed : Path.error? below = none) (notRoot : below ≠ Path.root)
      (found : Finds inner below inside) :
      Finds (.mounted mountPoint inner) (Path.mount mountPoint.text below)
        (Path.mount mountPoint.text inside)
  | inLayer {layers : List FileTree} {layer : FileTree} {dir place : String}
      (mem : layer ∈ layers) (found : Finds layer dir place) : Finds (.layered layers) dir place

section Finds

variable {tree inner : FileTree} {mountPoint : TreePath} {dir place below inside name : String}

theorem Finds.mem_directories (h : tree.Finds dir place) : place ∈ tree.directories := by
  induction h with
  | inFiles known => exact known
  | atMountPoint known =>
    rw [directories]
    exact Or.inr (Set.mem_image_of_mem _ known)
  | belowMountPoint wellFormed notRoot found ih =>
    rw [directories]
    exact Or.inr (Set.mem_image_of_mem _ ih)
  | inLayer mem found ih =>
    rw [directories, layersDirectories_eq]
    exact ⟨_, mem, ih⟩

theorem Finds.of_mounted (h : (mounted mountPoint inner).Finds dir place) :
    (dir = mountPoint.text ∧
      ∃ inside ∈ inner.directories, Path.mount mountPoint.text inside = place) ∨
    ∃ below inside, Path.error? below = none ∧ below ≠ Path.root ∧
      Path.mount mountPoint.text below = dir ∧ inner.Finds below inside ∧
      Path.mount mountPoint.text inside = place := by
  cases h with
  | atMountPoint known => exact Or.inl ⟨rfl, _, known, rfl⟩
  | belowMountPoint wellFormed notRoot found =>
    exact Or.inr ⟨_, _, wellFormed, notRoot, rfl, found, rfl⟩

theorem finds_atMountPoint_iff (hinner : inner.IsWellFormed) (hinside : Path.error? inside = none) :
    (mounted mountPoint inner).Finds mountPoint.text (Path.mount mountPoint.text inside) ↔
      inside ∈ inner.directories := by
  have hmount := mountPoint.wellFormed
  constructor
  · intro h
    rcases h.of_mounted with ⟨-, other, hother, hplace⟩ | ⟨below, other, hbelow, hroot, hhere, -⟩
    · have hwell := (isDirectorySet_directories hinner).wellFormed other hother
      rw [← Path.mount_inj hmount hwell hinside hplace]
      exact hother
    · rw [← Path.mount_root mountPoint.text] at hhere
      exact absurd (Path.mount_inj hmount hbelow Path.error?_root hhere) hroot
  · exact .atMountPoint

theorem finds_belowMountPoint_iff (hinner : inner.IsWellFormed) (hbelow : Path.error? below = none)
    (hroot : below ≠ Path.root) (hinside : Path.error? inside = none) :
    (mounted mountPoint inner).Finds (Path.mount mountPoint.text below)
      (Path.mount mountPoint.text inside) ↔ inner.Finds below inside := by
  have hmount := mountPoint.wellFormed
  constructor
  · intro h
    rcases h.of_mounted with ⟨hhere, -⟩ | ⟨other, found, hother, -, hdir, hfound, hplace⟩
    · rw [← Path.mount_root mountPoint.text] at hhere
      exact absurd (Path.mount_inj hmount hbelow Path.error?_root hhere) hroot
    · have hwell := (isDirectorySet_directories hinner).wellFormed found hfound.mem_directories
      rw [Path.mount_inj hmount hother hbelow hdir,
        Path.mount_inj hmount hwell hinside hplace] at hfound
      exact hfound
  · exact .belowMountPoint hbelow hroot

/-- A directory that has something right below it is found itself. -/
theorem Finds.of_join (htree : tree.IsWellFormed) (hdir : Path.error? dir = none)
    (hname : Path.IsName name) (h : tree.Finds dir (Path.join dir name)) : tree.Finds dir dir := by
  induction htree generalizing dir with
  | @fileSet set paths =>
    apply Finds.inFiles
    have hparent := (isDirectorySet_directories (.fileSet paths)).parent_mem _ h.mem_directories
    rw [Path.parent_join hdir hname] at hparent
    exact hparent
  | @mounted mountPoint inner inside ih =>
    have hmount := mountPoint.wellFormed
    have hdirs := isDirectorySet_directories inside
    rcases h.of_mounted with ⟨rfl, found, hfound, -⟩ | ⟨below, found, hbelow, hroot, rfl, hfound, hplace⟩
    · -- A tree that has any directory has its root.
      have hhere : (mounted mountPoint inner).Finds mountPoint.text
          (Path.mount mountPoint.text Path.root) := .atMountPoint (hdirs.root_mem hfound)
      rw [Path.mount_root] at hhere
      exact hhere
    · have hwell := hdirs.wellFormed found hfound.mem_directories
      rw [← Path.mount_join hmount hbelow hname] at hplace
      rw [Path.mount_inj hmount hwell (Path.error?_join hbelow hname) hplace] at hfound
      exact .belowMountPoint hbelow hroot (ih hbelow hfound)
  | @layered layers each ih =>
    cases h with
    | @inLayer _ layer _ _ mem found => exact .inLayer mem (ih layer mem hdir found)

end Finds

/-! ## Answers to questions with a slash behind -/

section Slashed

variable {tree inner : FileTree} {mountPoint : TreePath} {dir : String}

theorem listedName_slashed (hdir : Path.error? dir = none) (hroot : dir ≠ Path.root) :
    FileSet.listedName (Path.slashed dir) = .ok dir := by
  rw [FileSet.listedName, if_pos (Path.isAbsolute_slashed hdir),
    Path.withoutTrailingSlash?_slashed hdir hroot]
  rfl

/-- A mounted tree does not know the way to its mount point by names with a slash behind. -/
theorem mounted_slashed (mountPoint : TreePath) (inner : FileTree) (hdir : Path.error? dir = none)
    (hroot : dir ≠ Path.root) :
    hasDirectory (.mounted mountPoint inner) (Path.slashed dir) =
      (match Path.seenFrom? dir mountPoint.text with
        | none => .ok false
        | some below => inner.hasDirectory (Path.slashed below)) ∧
    childDirectories (.mounted mountPoint inner) (Path.slashed dir) =
      (match Path.seenFrom? dir mountPoint.text with
        | none => .ok none
        | some below => inner.childDirectories (Path.slashed below)) := by
  have hway := records_mountDirectories mountPoint
  have hnotWay := Path.slashed_notMem_ancestry hdir hroot mountPoint.wellFormed
  have hseen := Path.seenFrom?_slashed hdir mountPoint.wellFormed
  constructor
  · rw [hasDirectory, if_neg (mt (hway.contains_iff _).1 hnotWay), hseen]
    cases Path.seenFrom? dir mountPoint.text <;> rfl
  · have hne : Path.slashed dir ≠ mountPoint.text := by
      intro heq
      exact hnotWay (heq ▸ Path.mem_ancestry_self mountPoint.text)
    rcases hway.list?_eq (Path.slashed dir) with ⟨-, hlist⟩ | ⟨hmem, -⟩
    · rw [childDirectories, if_neg hne, hlist, hseen]
      cases Path.seenFrom? dir mountPoint.text <;> rfl
    · exact absurd hmem hnotWay

/-- A mounted tree answers by what its tree answers about what is seen from the mount point. -/
theorem AnswersTo.mounted_slashed {below : String} {known : Set String}
    (h : inner.AnswersTo (Path.slashed below) known below) (hbelow : Path.error? below = none)
    (hroot : Path.mount mountPoint.text below ≠ Path.root)
    (hknown : ∀ inside, Path.error? inside = none →
      ((mounted mountPoint inner).Finds (Path.mount mountPoint.text below)
        (Path.mount mountPoint.text inside) ↔ inside ∈ known)) :
    AnswersTo (.mounted mountPoint inner) (Path.slashed (Path.mount mountPoint.text below))
      {place | (mounted mountPoint inner).Finds (Path.mount mountPoint.text below) place}
      (Path.mount mountPoint.text below) := by
  have hmount := mountPoint.wellFormed
  have hdir := Path.error?_mount hmount hbelow
  have hseen := (Path.seenFrom?_eq_some_iff_mount hdir hmount).2 ⟨hbelow, rfl⟩
  rcases FileTree.mounted_slashed mountPoint inner hdir hroot with ⟨hhas, hlist⟩
  rw [hseen] at hhas hlist
  constructor
  · rcases h.has with ⟨found, hfound, hiff⟩
    exact ⟨found, hhas.trans hfound, hiff.trans (hknown below hbelow).symm⟩
  · rcases h.lists with ⟨names?, hnames, hlisting⟩
    refine ⟨names?, hlist.trans hnames, hlisting.of_iff (hknown below hbelow).symm ?_⟩
    intro name hname
    rw [← Path.mount_join hmount hbelow hname]
    exact (hknown _ (Path.error?_join hbelow hname)).symm

/-- A tree answers about a directory with a slash behind it by what it finds then. -/
theorem answersTo_slashed (htree : tree.IsWellFormed)
    (hdir : Path.error? dir = none) (hroot : dir ≠ Path.root) :
    tree.AnswersTo (Path.slashed dir) {place | tree.Finds dir place} dir := by
  induction htree generalizing dir with
  | @fileSet set paths =>
    have hplain := answersAt_fileSet (.fileSet paths) hdir
    have hsets : {place | (fileSet set).Finds dir place} = (fileSet set).directories :=
      Set.ext fun place => ⟨Finds.mem_directories, .inFiles⟩
    -- The name that is looked up is the same with a slash and without.
    have hname : FileSet.listedName (Path.slashed dir) = FileSet.listedName dir :=
      (listedName_slashed hdir hroot).trans (listedName_eq hdir).symm
    rw [hsets]
    constructor
    · rw [hasDirectory, FileSet.hasDirectory, hname]
      exact hplain.has
    · rw [childDirectories, FileSet.list, hname]
      exact hplain.lists
  | @mounted mountPoint inner inside ih =>
    have hmount := mountPoint.wellFormed
    -- The directory is beside or above the mount point, or it is the mount point, or below it.
    cases hseen : Path.seenFrom? dir mountPoint.text with
    | none =>
      have hnothing : ∀ place, ¬(mounted mountPoint inner).Finds dir place := by
        intro place hfound
        have hbelow : ∃ below, Path.error? below = none ∧
            Path.mount mountPoint.text below = dir := by
          rcases hfound.of_mounted with ⟨rfl, -⟩ | ⟨below, -, hbelow, -, hdir, -⟩
          · exact ⟨Path.root, Path.error?_root, Path.mount_root _⟩
          · exact ⟨below, hbelow, hdir⟩
        rcases hbelow with ⟨below, hbelow⟩
        rw [(Path.seenFrom?_eq_some_iff_mount hdir hmount).2 hbelow] at hseen
        cases hseen
      rcases mounted_slashed mountPoint inner hdir hroot with ⟨hhas, hlist⟩
      rw [hseen] at hhas hlist
      exact ⟨⟨false, hhas, by simp [hnothing]⟩, none, hlist, .unknown (hnothing dir)⟩
    | some below =>
      rcases (Path.seenFrom?_eq_some_iff_mount hdir hmount).1 hseen with ⟨hbelow, rfl⟩
      by_cases htop : below = Path.root
      · -- The root of the inner tree needs no slash.
        subst htop
        have hplain := answersAt_iff.1 (answersAt_directories inside Path.error?_root)
        apply AnswersTo.mounted_slashed hplain Path.error?_root hroot
        intro place hplace
        rw [Path.mount_root]
        exact finds_atMountPoint_iff inside hplace
      · apply AnswersTo.mounted_slashed (ih hbelow htop) hbelow hroot
        intro place hplace
        exact finds_belowMountPoint_iff inside hbelow htop hplace
  | @layered layers each ih =>
    have hsets : {place | (layered layers).Finds dir place} =
        {place | ∃ layer ∈ layers, place ∈ {place | layer.Finds dir place}} := by
      apply Set.ext
      intro place
      constructor
      · intro hfound
        cases hfound with
        | inLayer mem found => exact ⟨_, mem, found⟩
      · rintro ⟨layer, hlayer, hfound⟩
        exact .inLayer hlayer hfound
    rw [hsets]
    apply AnswersTo.layered
    · intro layer hlayer
      exact ih layer hlayer hdir hroot
    · intro layer hlayer name hname hchild
      exact Finds.of_join (each layer hlayer) hdir hname hchild

end Slashed

/-! ## Mount points -/

/-- The places at which trees are mounted in a tree. -/
inductive MountsAt : FileTree → String → Prop
  | here (mountPoint : TreePath) (inner : FileTree) :
      MountsAt (.mounted mountPoint inner) mountPoint.text
  | inside {mountPoint : TreePath} {inner : FileTree} {place : String}
      (within : MountsAt inner place) :
      MountsAt (.mounted mountPoint inner) (Path.mount mountPoint.text place)
  | inLayer {layers : List FileTree} {layer : FileTree} {place : String} (mem : layer ∈ layers)
      (within : MountsAt layer place) : MountsAt (.layered layers) place

section Mounts

variable {tree : FileTree} {dir place : String}

theorem MountsAt.error?_eq_none (h : tree.MountsAt place) : Path.error? place = none := by
  induction h with
  | here mountPoint inner => exact mountPoint.wellFormed
  | @inside mountPoint inner place within ih => exact Path.error?_mount mountPoint.wellFormed ih
  | inLayer mem within ih => exact ih

/-- Where nothing is mounted at or below a directory, all that is there is found. -/
theorem finds_of_unmounted (htree : tree.IsWellFormed)
    (hmounts : ∀ place, tree.MountsAt place → dir ∉ Path.ancestry place)
    (hplace : place ∈ tree.directories) (habove : dir ∈ Path.ancestry place) :
    tree.Finds dir place := by
  induction htree generalizing dir place with
  | fileSet paths => exact .inFiles hplace
  | @mounted mountPoint inner inside ih =>
    have hhere := hmounts mountPoint.text (.here mountPoint inner)
    rw [directories] at hplace
    rcases hplace with hway | ⟨found, hfound, rfl⟩
    · -- What is above a place on the way to the mount point is on the way itself.
      have hclosed : ∀ d ∈ Path.ancestry mountPoint.text,
          Path.parent d ∈ Path.ancestry mountPoint.text := fun d => Path.parent_mem_ancestry
      exact absurd (Path.ancestry_subset hclosed hway habove) hhere
    · have hwell := (isDirectorySet_directories inside).wellFormed found hfound
      rcases Path.mem_ancestry_mount mountPoint.wellFormed hwell habove with
        hway | ⟨below, hbelow, hroot, rfl⟩
      · exact absurd hway hhere
      · apply Finds.belowMountPoint (Path.error?_of_mem_ancestry hwell hbelow) hroot
        -- Whatever is mounted inside is seen from outside below the mount point.
        apply ih _ hfound hbelow
        intro other hother hmem
        exact hmounts _ (.inside hother)
          (Path.mount_mem_ancestry_mount mountPoint.wellFormed hother.error?_eq_none hmem)
  | @layered layers each ih =>
    rw [directories, layersDirectories_eq] at hplace
    rcases hplace with ⟨layer, hlayer, hknown⟩
    exact .inLayer hlayer
      (ih layer hlayer (fun other hother => hmounts other (.inLayer hlayer hother)) hknown habove)

end Mounts

/-! ## What a slash changes -/

/-- What a slash behind a directory does to the answers of a tree. -/
structure SlashAnswers (tree : FileTree) (dir : String) : Prop where
  -- With a slash a tree answers by what it finds then.
  answersTo : tree.AnswersTo (dir ++ "/") {place | tree.Finds dir place} dir
  -- A slash makes nothing appear.
  mem_directories : ∀ place, tree.Finds dir place → place ∈ tree.directories
  -- Existence stays the same just if a directory that is known is found.
  hasDirectory_eq_iff : tree.hasDirectory (dir ++ "/") = tree.hasDirectory dir ↔
    (dir ∈ tree.directories → tree.Finds dir dir)
  -- A listing stays the same just if moreover all that is right below is found.
  childDirectories_eq_iff : tree.childDirectories (dir ++ "/") = tree.childDirectories dir ↔
    (dir ∈ tree.directories → tree.Finds dir dir) ∧
      ∀ name, Path.IsName name → Path.join dir name ∈ tree.directories →
        tree.Finds dir (Path.join dir name)
  -- Both stay the same where nothing is mounted at or below the directory.
  eq_of_unmounted : (∀ place, tree.MountsAt place → dir ∉ Path.ancestry place) →
    tree.hasDirectory (dir ++ "/") = tree.hasDirectory dir ∧
      tree.childDirectories (dir ++ "/") = tree.childDirectories dir

/-- What a tree of well-formed paths answers about a directory with a slash behind it, and when that
is what it answers without. -/
theorem slashAnswers {tree : FileTree} (htree : tree.IsWellFormed) {dir : String}
    (hdir : Path.error? dir = none) (hroot : dir ≠ Path.root) : tree.SlashAnswers dir := by
  have hdirs := isDirectorySet_directories htree
  have hplain := answersAt_iff.1 (answersAt_directories htree hdir)
  have hslashed := answersTo_slashed htree hdir hroot
  rw [Path.slashed_eq hroot] at hslashed
  have hparents : ∀ name, Path.IsName name → Path.join dir name ∈ tree.directories →
      dir ∈ tree.directories := fun name hname =>
    not_imp_not.1 fun hunknown => hdirs.join_notMem hdir hunknown hname
  -- What is found is known, so it is only the other direction that can fail.
  have hfound : ∀ place, (tree.Finds dir place ↔ place ∈ tree.directories) ↔
      (place ∈ tree.directories → tree.Finds dir place) := fun place =>
    ⟨Iff.mpr, fun hknown => ⟨Finds.mem_directories, hknown⟩⟩
  have hhas : tree.hasDirectory (dir ++ "/") = tree.hasDirectory dir ↔
      (dir ∈ tree.directories → tree.Finds dir dir) :=
    (hslashed.hasDirectory_eq_iff hplain).trans (hfound dir)
  have hlists : tree.childDirectories (dir ++ "/") = tree.childDirectories dir ↔
      (dir ∈ tree.directories → tree.Finds dir dir) ∧
        ∀ name, Path.IsName name → Path.join dir name ∈ tree.directories →
          tree.Finds dir (Path.join dir name) := by
    rw [hslashed.childDirectories_eq_iff hplain
      (fun name hname => Finds.of_join htree hdir hname) hparents]
    exact and_congr (hfound dir) (forall₂_congr fun name _ => hfound (Path.join dir name))
  refine ⟨hslashed, fun place => Finds.mem_directories, hhas, hlists, ?_⟩
  intro hmounts
  have hself : dir ∈ tree.directories → tree.Finds dir dir := fun hknown =>
    finds_of_unmounted htree hmounts hknown (Path.mem_ancestry_self dir)
  refine ⟨hhas.2 hself, hlists.2 ⟨hself, ?_⟩⟩
  intro name hname hknown
  apply finds_of_unmounted htree hmounts hknown
  rw [Path.ancestry_eq_insert, Path.parent_join hdir hname]
  exact Or.inr (Path.mem_ancestry_self dir)

theorem slashAnswers_below_vendor :
    ∃ set : FileSet, FileSet.ofFiles (FileMap.ofPairs [("/lib/a.ts", [1])]) = .ok set ∧
      (mounted ⟨"/vendor", by decide⟩ (.fileSet set)).IsWellFormed ∧
      Path.error? "/vendor/lib" = none ∧ "/vendor/lib" ≠ Path.root ∧
      (mounted ⟨"/vendor", by decide⟩ (.fileSet set)).hasDirectory ("/vendor/lib" ++ "/") =
        .ok true ∧
      (mounted ⟨"/vendor", by decide⟩ (.fileSet set)).childDirectories ("/vendor/lib" ++ "/") =
        .ok (some []) := by
  obtain ⟨set, hset, hhas, hlists⟩ : ∃ set : FileSet,
      FileSet.ofFiles (FileMap.ofPairs [("/lib/a.ts", [1])]) = .ok set ∧
      set.hasDirectory "/lib" = .ok true ∧ set.list "/lib" = .ok (some []) := ⟨_, rfl, rfl, rfl⟩
  have hpairs : ∀ pair ∈ [("/lib/a.ts", ([1] : Bytes))], Path.error? pair.1 = none := by decide
  rcases exists_fileSet_ofPairs hpairs with ⟨same, hsame, -, hwell⟩
  obtain rfl : same = set := Except.ok.inj (hsame.symm.trans hset)
  have htree : (mounted ⟨"/vendor", by decide⟩ (.fileSet same)).IsWellFormed := .mounted hwell
  have hdir : Path.error? "/vendor/lib" = none := by decide
  have hroot : "/vendor/lib" ≠ Path.root := by decide
  -- The one mount point is above the directory, not at it or below.
  have hmounts : ∀ place, (mounted ⟨"/vendor", by decide⟩ (.fileSet same)).MountsAt place →
      "/vendor/lib" ∉ Path.ancestry place := by
    intro place hplace
    cases hplace with
    | here =>
      have hname : Path.IsName "lib" := ⟨by decide, by decide, by decide⟩
      have hbelow : Path.join "/vendor" "lib" ∉ Path.ancestry "/vendor" :=
        Path.join_notMem_ancestry (by decide) hname
      exact hbelow
    | inside within => cases within
  have hhere : (mounted ⟨"/vendor", by decide⟩ (.fileSet same)).hasDirectory "/vendor/lib" =
      same.hasDirectory "/lib" := rfl
  have hlisted : (mounted ⟨"/vendor", by decide⟩ (.fileSet same)).childDirectories "/vendor/lib" =
      same.list "/lib" := rfl
  rcases (slashAnswers htree hdir hroot).eq_of_unmounted hmounts with ⟨hslashed, hslashes⟩
  exact ⟨_, hset, htree, hdir, hroot, (hslashed.trans hhere).trans hhas,
    (hslashes.trans hlisted).trans hlists⟩

theorem slash_hides_way_to_mountPoint :
    ∃ set : FileSet, FileSet.ofFiles (FileMap.ofPairs [("/lib/a.ts", [1])]) = .ok set ∧
      (mounted ⟨"/etc/node_modules", by decide⟩ (.fileSet set)).IsWellFormed ∧
      Path.error? "/etc" = none ∧ "/etc" ≠ Path.root ∧
      (mounted ⟨"/etc/node_modules", by decide⟩ (.fileSet set)).hasDirectory "/etc" = .ok true ∧
      (mounted ⟨"/etc/node_modules", by decide⟩ (.fileSet set)).hasDirectory ("/etc" ++ "/") =
        .ok false ∧
      (mounted ⟨"/etc/node_modules", by decide⟩ (.fileSet set)).childDirectories "/etc" =
        .ok (some ["node_modules"]) ∧
      (mounted ⟨"/etc/node_modules", by decide⟩ (.fileSet set)).childDirectories ("/etc" ++ "/") =
        .ok none := by
  have hpairs : ∀ pair ∈ [("/lib/a.ts", ([1] : Bytes))], Path.error? pair.1 = none := by decide
  rcases exists_fileSet_ofPairs hpairs with ⟨set, hset, -, hwell⟩
  have hdir : Path.error? "/etc" = none := by decide
  have hroot : "/etc" ≠ Path.root := by decide
  -- The directory is above the mount point, so the inner tree is not asked.
  have hunseen : Path.seenFrom? "/etc" "/etc/node_modules" = none := by decide
  rcases mounted_slashed ⟨"/etc/node_modules", by decide⟩ (.fileSet set) hdir hroot with
    ⟨hhas, hlists⟩
  rw [hunseen] at hhas hlists
  exact ⟨set, hset, .mounted hwell, hdir, hroot, rfl, hhas, rfl, hlists⟩

end FileTree
end BuildTree
