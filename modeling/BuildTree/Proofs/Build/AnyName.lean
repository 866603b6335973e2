import BuildTree.Proofs.Build.ParsedFiles
import BuildTree.Proofs.Tree.Directories

/-!
# Any name — what a compiler asks for has an answer

A set of files faults on a name that is not absolute.  The view of a compiler puts a slash in front
of such a name, and whatever a tree does to a name on its way down keeps it absolute: a mount point
sees only names that start with a slash, and a slash at the end is taken off only behind another
character.  So every text is answered, however malformed, and a file or a directory exists just if
it can be read or listed.
-/

namespace BuildTree

open LruCache

universe u

/-! ## Directories by any absolute name -/

namespace FileTree

theorem isSome_unionListing (names? more? : Option (List String)) :
    (unionListing names? more?).isSome = (names?.isSome || more?.isSome) := by
  cases names? <;> cases more? <;> rfl

mutual

/-- A tree answers for every absolute name, and a directory exists just if it can be listed. -/
theorem exists_childDirectories (tree : FileTree) {dir : String}
    (hdir : Path.isAbsolute dir = true) :
    ∃ names?, tree.childDirectories dir = .ok names? ∧ tree.hasDirectory dir = .ok names?.isSome := by
  cases tree with
  | fileSet set =>
    rw [childDirectories, hasDirectory, FileSet.list, FileSet.hasDirectory, FileSet.listedName,
      if_pos hdir]
    refine ⟨_, rfl, ?_⟩
    rw [DirectoryMap.isSome_list?]
    rfl
  | mounted mountPoint inner =>
    rw [childDirectories, hasDirectory]
    by_cases hhere : dir = mountPoint.text
    · -- At the mount point it is the root that is listed, whatever is there.
      subst hhere
      have hway := (records_mountDirectories mountPoint).contains_iff mountPoint.text
      rw [if_pos rfl, if_pos (hway.2 (Path.mem_ancestry_self mountPoint.text))]
      have hroot : Path.isAbsolute Path.root = true := by decide
      rcases exists_childDirectories inner hroot with ⟨names?, hlist, -⟩
      rw [hlist]
      exact ⟨_, rfl, rfl⟩
    · -- The way to the mount point lists itself, and off it the inner tree is asked.
      rw [if_neg hhere, ← DirectoryMap.isSome_list?]
      cases hway : (mountDirectories mountPoint).list? dir with
      | some names => exact ⟨some names, rfl, rfl⟩
      | none =>
        cases hseen : Path.seenFrom? dir mountPoint.text with
        | none => exact ⟨none, rfl, rfl⟩
        | some below =>
          exact exists_childDirectories inner (Path.isAbsolute_of_seenFrom? hdir hseen)
  | layered layers =>
    rw [childDirectories, hasDirectory]
    exact exists_listLayers layers hdir

theorem exists_listLayers (layers : List FileTree) {dir : String}
    (hdir : Path.isAbsolute dir = true) :
    ∃ names?, listLayers layers dir = .ok names? ∧
      anyHasDirectory layers dir = .ok names?.isSome := by
  cases layers with
  | nil => exact ⟨none, rfl, rfl⟩
  | cons layer rest =>
    rcases exists_childDirectories layer hdir with ⟨names?, hlist, hhas⟩
    rcases exists_listLayers rest hdir with ⟨more?, hmore, hanyMore⟩
    rw [listLayers, anyHasDirectory, hhas, hlist, hmore]
    cases names? with
    | none => exact ⟨more?, rfl, hanyMore⟩
    | some names =>
      -- One layer with the directory is enough for a union.
      refine ⟨unionListing (some names) more?, rfl, ?_⟩
      rw [isSome_unionListing]
      rfl

end

end FileTree

/-! ## Answers to a compiler -/

namespace CompilerView

variable {σ : Type u}

/-- A call for a parsed file asks the cache at most once. -/
theorem parsedFile_cases (view : CompilerView) (name : String) (sources : ParseCache σ)
    (languageVersion : String) (parse : String → String → σ) :
    (view.hasFile name = .ok false ∧
      view.parsedFile sources name languageVersion parse = .ok (none, sources)) ∨
    ∃ text parsed, view.hasFile name = .ok true ∧ view.readText name = .ok (some text) ∧
      view.parsedFile sources name languageVersion parse =
        .ok (some parsed, sources.after (.parsed name text languageVersion fun _ =>
          parse name text)) := by
  rcases view.exists_read name with ⟨data?, -, hhas, htext⟩
  cases data? with
  | none =>
    refine Or.inl ⟨hhas, ?_⟩
    rw [parsedFile, htext]
    rfl
  | some data =>
    exact Or.inr ⟨_, _, hhas, htext, parsedFile_of_readText htext sources languageVersion parse⟩

/-- How a compiler that parses files to `σ` is answered about a name, whatever text it is. -/
structure AnswersName (view : CompilerView) (name : String) (σ : Type u) : Prop where
  -- A file exists just if it can be read, and then it has a text.
  reads : ∃ data?, view.read name = .ok data? ∧ view.hasFile name = .ok data?.isSome ∧
    view.readText name = .ok (data?.map Utf8.decodeLossy)
  -- A directory exists just if it can be listed.
  lists : ∃ names?, view.childDirectories name = .ok names? ∧
    view.hasDirectory name = .ok names?.isSome
  -- A file exists just if it is parsed, and the slots of the cache stay arranged.
  parses : ∀ {sources : ParseCache σ}, sources.cache.Reachable →
    ∀ (languageVersion : String) (parse : String → String → σ), ∃ parsed? later,
      view.parsedFile sources name languageVersion parse = .ok (parsed?, later) ∧
        view.hasFile name = .ok parsed?.isSome ∧ later.cache.Reachable ∧
        ∃ capacity, Shows later.cache capacity later.cache.entries
  -- A relative name is the one behind a slash.
  rooted : Path.isAbsolute name = false →
    view.hasFile name = view.hasFile ("/" ++ name) ∧ view.read name = view.read ("/" ++ name) ∧
      view.readText name = view.readText ("/" ++ name) ∧
      view.hasDirectory name = view.hasDirectory ("/" ++ name) ∧
      view.childDirectories name = view.childDirectories ("/" ++ name)

/-- Every tree answers whatever a compiler asks for. -/
theorem answersName (view : CompilerView) (name : String) (σ : Type u) :
    view.AnswersName name σ := by
  refine ⟨view.exists_read name, ?_, ?_, ?_⟩
  · exact FileTree.exists_childDirectories view.tree (isAbsolute_rooted name)
  · intro sources hsources languageVersion parse
    -- A cache is arranged however it was used, so only its use has to be followed.
    have harranged : ∀ {later : ParseCache σ}, later.cache.Reachable →
        ∃ capacity, Shows later.cache capacity later.cache.entries := fun hlater =>
      hlater.exists_shows.imp fun _ hshows => hshows.2
    rcases view.parsedFile_cases name sources languageVersion parse with
      ⟨hhas, hparsed⟩ | ⟨text, parsed, hhas, -, hparsed⟩
    · exact ⟨none, sources, hparsed, hhas, hsources, harranged hsources⟩
    · have hlater := ParseCache.reachable_after hsources
        (.parsed name text languageVersion fun _ => parse name text)
      exact ⟨some parsed, _, hparsed, hhas, hlater, harranged hlater⟩
  · intro hrelative
    have hname : CompilerView.rooted name = "/" ++ name := by
      rw [CompilerView.rooted, if_neg (Bool.eq_false_iff.1 hrelative)]
    have hsame : CompilerView.rooted ("/" ++ name) = "/" ++ name := by
      rw [← hname, CompilerView.rooted, if_pos (isAbsolute_rooted name)]
    rw [hasFile, hasFile, read, read, readText, readText, hasDirectory, hasDirectory,
      childDirectories, childDirectories, hname, hsame]
    exact ⟨rfl, rfl, rfl, rfl, rfl⟩

theorem answersName_around_vendor :
    ∃ (inner tree : FileTree) (new : ParseCache String),
      FileTree.ofFiles (FileMap.ofPairs [("//a.ts", Bytes.ofString "x")]) = .ok inner ∧
      FileTree.mountAt "/vendor" inner = .ok tree ∧ new.cache.Reachable ∧
      (CompilerView.mk tree).readText "vendor//a.ts" = .ok (some "x") ∧
      (CompilerView.mk tree).hasDirectory "vendor" = .ok true ∧
      ∀ name ∈ ["", "..", "vendor//", "vendored/a.ts", "//vendor"],
        (∃ names?, (CompilerView.mk tree).childDirectories name = .ok names?) ∧
        ∃ parsed? later, (CompilerView.mk tree).parsedFile new name "es5" (fun name text =>
          name ++ text) = .ok (parsed?, later) := by
  obtain ⟨inner, tree, hinner, htree, htext, hhas⟩ : ∃ inner tree : FileTree,
      FileTree.ofFiles (FileMap.ofPairs [("//a.ts", Bytes.ofString "x")]) = .ok inner ∧
      FileTree.mountAt "/vendor" inner = .ok tree ∧
      (CompilerView.mk tree).readText "/vendor//a.ts" = .ok (some "x") ∧
      (CompilerView.mk tree).hasDirectory "/vendor" = .ok true := ⟨_, _, rfl, rfl, rfl, rfl⟩
  obtain ⟨new, hnew⟩ : ∃ new : ParseCache String, new.cache.Reachable :=
    ⟨⟨LruCache.empty 1, 0⟩, .created (show LruCache.create 1 = .ok _ from rfl)⟩
  have hfile := (answersName ⟨tree⟩ "vendor//a.ts" String).rooted (by decide)
  have hdirectory := (answersName ⟨tree⟩ "vendor" String).rooted (by decide)
  refine ⟨inner, tree, new, hinner, htree, hnew, hfile.2.2.1.trans htext,
    hdirectory.2.2.2.1.trans hhas, ?_⟩
  intro name _
  have hanswers := answersName ⟨tree⟩ name String
  rcases hanswers.lists with ⟨names?, hlist, -⟩
  rcases hanswers.parses hnew "es5" (fun name text => name ++ text) with
    ⟨parsed?, later, hparsed, -⟩
  exact ⟨⟨names?, hlist⟩, parsed?, later, hparsed⟩

end CompilerView
end BuildTree
