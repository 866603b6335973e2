import BuildTree.Proofs.Tree.FileMap

/-!
# Files of trees — every tree reads like one flat map

Flattening a tree gives a single map of files.  A mount moves the files of the inner tree, and of
layers the first that has a file owns it.  A tree of well-formed paths answers every question about
files as its flat map does.
-/

namespace BuildTree

/-- A set can be built from every map of well-formed paths. -/
theorem FileSet.exists_ofFiles_eq_ok {files : FileMap}
    (h : ∀ path data, files[path]? = some data → Path.error? path = none) :
    ∃ set, FileSet.ofFiles files = .ok set ∧ set.files = files := by
  unfold FileSet.ofFiles
  split
  · -- A relative name would be the path of a file, and those are well formed.
    rename_i path hfind
    have hmem : path ∈ files := Std.ExtTreeMap.mem_keys.1 (List.mem_of_find?_eq_some hfind)
    have hrelative := List.find?_some hfind
    have hheld : files[path]? = some files[path] := Std.ExtTreeMap.getElem?_eq_some_getElem hmem
    rw [Path.isAbsolute_of_error? (h path _ hheld)] at hrelative
    exact absurd hrelative (by decide)
  · exact ⟨_, rfl, rfl⟩

namespace FileTree

/-- A tree in which every file has a well-formed path.  Mount points are well formed by their
type. -/
inductive IsWellFormed : FileTree → Prop
  | fileSet {set : FileSet} (paths : ∀ path data, set.files[path]? = some data →
      Path.error? path = none) : IsWellFormed (.fileSet set)
  | mounted {mountPoint : TreePath} {inner : FileTree} (inside : IsWellFormed inner) :
      IsWellFormed (.mounted mountPoint inner)
  | layered {layers : List FileTree} (each : ∀ layer ∈ layers, IsWellFormed layer) :
      IsWellFormed (.layered layers)

/-- Pairs with well-formed paths make a well-formed tree. -/
theorem exists_fileSet_ofPairs {pairs : List (String × Bytes)}
    (h : ∀ pair ∈ pairs, Path.error? pair.1 = none) :
    ∃ set, FileSet.ofFiles (FileMap.ofPairs pairs) = .ok set ∧
      set.files = FileMap.ofPairs pairs ∧ (fileSet set).IsWellFormed := by
  have hpaths : ∀ path data, (FileMap.ofPairs pairs)[path]? = some data →
      Path.error? path = none := by
    intro path data hheld
    exact h (path, data) (FileMap.mem_of_getElem?_ofPairs hheld)
  rcases FileSet.exists_ofFiles_eq_ok hpaths with ⟨set, hset, hfiles⟩
  exact ⟨set, hset, hfiles, .fileSet (hfiles ▸ hpaths)⟩

theorem exists_ofFiles {files : FileMap}
    (h : ∀ path data, files[path]? = some data → Path.error? path = none) :
    ∃ tree, ofFiles files = .ok tree := by
  rcases FileSet.exists_ofFiles_eq_ok h with ⟨set, hset, -⟩
  exact ⟨.fileSet set, by rw [ofFiles, hset, Except.map]⟩

/-! ### Answers without a fault -/

mutual

/-- A tree answers for every absolute name, and a file exists just if it can be read. -/
theorem exists_read (tree : FileTree) {path : String} (hpath : Path.isAbsolute path = true) :
    ∃ data?, tree.read path = .ok data? ∧ tree.hasFile path = .ok data?.isSome := by
  cases tree with
  | fileSet set =>
    rw [read, hasFile, FileSet.read, if_pos hpath]
    exact ⟨_, rfl, rfl⟩
  | mounted mountPoint inner =>
    rw [read, hasFile]
    cases hseen : Path.seenFrom? path mountPoint.text with
    | none => exact ⟨none, rfl, rfl⟩
    | some below => exact exists_read inner (Path.isAbsolute_of_seenFrom? hpath hseen)
  | layered layers =>
    rw [read, hasFile]
    exact exists_readFromOwner layers hpath

theorem exists_readFromOwner (layers : List FileTree) {path : String}
    (hpath : Path.isAbsolute path = true) :
    ∃ data?, readFromOwner layers path = .ok data? ∧
      anyHasFile layers path = .ok data?.isSome := by
  cases layers with
  | nil => exact ⟨none, rfl, rfl⟩
  | cons layer rest =>
    rcases exists_read layer hpath with ⟨data?, hread, hhas⟩
    rw [readFromOwner, anyHasFile, hhas]
    cases data? with
    | none => exact exists_readFromOwner rest hpath
    | some data => exact ⟨some data, hread, rfl⟩

end

/-! ### Flat maps -/

mutual

/-- All files of a tree as one map. -/
def flatten : FileTree → FileMap
  | .fileSet set => set.files
  | .mounted mountPoint inner => FileMap.moved mountPoint.text inner.flatten
  | .layered layers => flattenLayers layers

/-- The union of the maps of layers, in which an upper layer wins over those below. -/
def flattenLayers : List FileTree → FileMap
  | [] => ∅
  | layer :: rest => flattenLayers rest ∪ layer.flatten

end

/-- In a union of layers a file is that of the first layer that has it. -/
theorem getElem?_flattenLayers_cons (layer : FileTree) (rest : List FileTree) (path : String) :
    (flattenLayers (layer :: rest))[path]? = layer.flatten[path]?.or (flattenLayers rest)[path]? := by
  rw [flattenLayers, Std.ExtTreeMap.getElem?_union]

/-- Some layer holds each file of a union. -/
theorem exists_of_getElem?_flattenLayers {layers : List FileTree} {path : String} {data : Bytes}
    (h : (flattenLayers layers)[path]? = some data) :
    ∃ layer ∈ layers, layer.flatten[path]? = some data := by
  induction layers with
  | nil => simp [flattenLayers] at h
  | cons layer rest ih =>
    rw [getElem?_flattenLayers_cons] at h
    rcases Option.or_eq_some_iff.1 h with hlayer | ⟨-, hrest⟩
    · exact ⟨layer, List.mem_cons_self, hlayer⟩
    · rcases ih hrest with ⟨owner, howner, hheld⟩
      exact ⟨owner, List.mem_cons_of_mem layer howner, hheld⟩

/-- Flattening keeps paths well formed. -/
theorem error?_of_getElem?_flatten {tree : FileTree} (htree : tree.IsWellFormed) :
    ∀ {path : String} {data : Bytes}, tree.flatten[path]? = some data →
      Path.error? path = none := by
  induction htree with
  | @fileSet set paths =>
    intro path data h
    rw [flatten] at h
    exact paths path data h
  | @mounted mountPoint inner inside ih =>
    intro path data h
    rw [flatten] at h
    rcases FileMap.exists_of_getElem?_moved h with ⟨below, hbelow, rfl⟩
    exact Path.error?_mount mountPoint.wellFormed (ih hbelow)
  | @layered layers each ih =>
    intro path data h
    rw [flatten] at h
    rcases exists_of_getElem?_flattenLayers h with ⟨layer, hlayer, hheld⟩
    exact ih layer hlayer hheld

/-- Layers that answer like their maps answer together like the union of their maps. -/
theorem readFromOwner_eq_flattenLayers {layers : List FileTree} {path : String}
    (h : ∀ layer ∈ layers, layer.read path = .ok layer.flatten[path]? ∧
      layer.hasFile path = .ok layer.flatten[path]?.isSome) :
    readFromOwner layers path = .ok (flattenLayers layers)[path]? ∧
      anyHasFile layers path = .ok (flattenLayers layers)[path]?.isSome := by
  induction layers with
  | nil => simp [readFromOwner, anyHasFile, flattenLayers]
  | cons layer rest ih =>
    rcases h layer List.mem_cons_self with ⟨hread, hhas⟩
    have hrest := ih fun below hbelow => h below (List.mem_cons_of_mem layer hbelow)
    rw [readFromOwner, anyHasFile, getElem?_flattenLayers_cons]
    cases hheld : layer.flatten[path]? with
    | none =>
      -- This layer does not have the file, so the layers below answer.
      rw [hheld] at hhas
      rw [hhas]
      exact hrest
    | some data =>
      -- This layer owns the file, and the ones below are not asked.
      rw [hheld] at hhas hread
      rw [hhas, hread]
      exact ⟨rfl, rfl⟩

/-- A tree reads like its flat map, and a file exists just if it can be read. -/
theorem read_eq_flatten {tree : FileTree} (htree : tree.IsWellFormed) {path : String}
    (hpath : Path.error? path = none) :
    tree.read path = .ok tree.flatten[path]? ∧
      tree.hasFile path = .ok tree.flatten[path]?.isSome := by
  induction htree generalizing path with
  | @fileSet set paths =>
    have habs : Path.isAbsolute path = true := Path.isAbsolute_of_error? hpath
    rw [read, hasFile, FileSet.read, if_pos habs, flatten]
    exact ⟨rfl, rfl⟩
  | @mounted mountPoint inner inside ih =>
    have hmoved := FileMap.getElem?_moved mountPoint.wellFormed
      (fun below data => error?_of_getElem?_flatten inside) hpath
    rw [read, hasFile, flatten, hmoved]
    cases hseen : Path.seenFrom? path mountPoint.text with
    | none => exact ⟨rfl, rfl⟩
    | some below =>
      -- What is seen from the mount point is well formed, so the inner tree can be asked.
      have hbelow := (Path.seenFrom?_eq_some_iff_mount hpath mountPoint.wellFormed).1 hseen
      exact ih hbelow.1
  | @layered layers each ih =>
    rw [read, hasFile, flatten]
    exact readFromOwner_eq_flattenLayers fun layer hlayer => ih layer hlayer hpath

theorem read_eq_flatten_below_vendor :
    ∃ set : FileSet, FileSet.ofFiles (FileMap.ofPairs [("/a.ts", [1])]) = .ok set ∧
      (mounted ⟨"/vendor", by decide⟩ (.fileSet set)).read "/vendor/a.ts" = .ok (some [1]) ∧
      (mounted ⟨"/vendor", by decide⟩ (.fileSet set)).hasFile "/vendored/a.ts" = .ok false := by
  have hpairs : ∀ pair ∈ [("/a.ts", ([1] : Bytes))], Path.error? pair.1 = none := by decide
  rcases exists_fileSet_ofPairs hpairs with ⟨set, hset, hfiles, hwell⟩
  have htree : (mounted ⟨"/vendor", by decide⟩ (.fileSet set)).IsWellFormed := .mounted hwell
  have hpaths : ∀ path data, (fileSet set).flatten[path]? = some data → Path.error? path = none :=
    fun path data => error?_of_getElem?_flatten hwell
  have hbelow : Path.error? "/vendor/a.ts" = none := by decide
  have hbeside : Path.error? "/vendored/a.ts" = none := by decide
  rcases read_eq_flatten htree hbelow with ⟨hread, -⟩
  rcases read_eq_flatten htree hbeside with ⟨-, hnone⟩
  refine ⟨set, hset, ?_, ?_⟩
  · have hseen : Path.seenFrom? "/vendor/a.ts" "/vendor" = some "/a.ts" := by decide
    rw [hread, flatten, FileMap.getElem?_moved (by decide) hpaths hbelow, hseen, Option.bind_some,
      flatten, hfiles, FileMap.getElem?_ofPairs]
    rfl
  · have hunseen : Path.seenFrom? "/vendored/a.ts" "/vendor" = none := by decide
    rw [hnone, flatten, FileMap.getElem?_moved (by decide) hpaths hbeside, hunseen]
    rfl

end FileTree
end BuildTree
