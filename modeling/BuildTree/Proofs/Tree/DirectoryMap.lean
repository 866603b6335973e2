import BuildTree.Proofs.Path.Ancestors
import BuildTree.Tree.DirectoryMap

/-!
# Directory maps — what a map records

A finished map records a set of directories that is closed under parents, and below each directory
the last segments of the recorded directories whose parent it is.  During a climb one directory is
recorded but not yet listed by its parent; it is pending.  Each step of a climb settles the pending
directory, and the climb ends when none is left.  All of this holds for any texts.
-/

namespace BuildTree
namespace DirectoryMap

/-- The names right below a directory in a set of directories, apart from a pending one. -/
def namesBelow (dirs : Set String) (pending : Option String) (dir : String) : Set String :=
  {name | ∃ child ∈ dirs, child ≠ Path.root ∧ some child ≠ pending ∧ Path.parent child = dir ∧
    Path.basename child = name}

/-- A map that records a set of directories of which one may be pending. -/
structure Records (map : DirectoryMap) (dirs : Set String) (pending : Option String) : Prop where
  contains_iff : ∀ dir, map.contains dir = true ↔ dir ∈ dirs
  mem_iff : ∀ dir names, map.children[dir]? = some names →
    ∀ name, name ∈ names ↔ name ∈ namesBelow dirs pending dir
  parent_mem : ∀ dir ∈ dirs, dir ≠ Path.root → some dir ≠ pending → Path.parent dir ∈ dirs

variable {map : DirectoryMap} {dirs : Set String} {pending : Option String} {dir : String}

theorem records_empty : empty.Records ∅ none where
  contains_iff := by
    intro dir
    simp [contains, empty]
  mem_iff := by
    intro dir names h
    simp [empty] at h
  parent_mem := by
    intro dir hdir
    exact absurd hdir (Set.notMem_empty dir)

theorem contains_record (map : DirectoryMap) (dir other : String) (name? : Option String) :
    (map.record dir name?).contains other = true ↔ dir = other ∨ map.contains other = true := by
  simp [contains, record, Std.ExtTreeMap.contains_insert]

/-- What is recorded below a directory once a name was recorded there. -/
theorem getElem?_record_self (map : DirectoryMap) (dir : String) (name? : Option String) :
    ∃ names, (map.record dir name?).children[dir]? = some names ∧
      ∀ name, name ∈ names ↔ some name = name? ∨ name ∈ (map.children[dir]?).getD ∅ := by
  refine ⟨_, Std.ExtTreeMap.getElem?_insert_self, ?_⟩
  intro name
  cases name? with
  | none => simp
  | some added =>
    rw [Std.ExtTreeSet.mem_insert, Std.LawfulEqCmp.compare_eq_iff_eq, Option.some.injEq,
      eq_comm]

theorem getElem?_record_of_ne {other : String} (h : dir ≠ other) (name? : Option String) :
    (map.record dir name?).children[other]? = map.children[other]? := by
  have hinsert : (map.record dir name?).children[other]? =
      if compare dir other = .eq then some _ else map.children[other]? :=
    Std.ExtTreeMap.getElem?_insert
  rw [hinsert, if_neg]
  rw [Std.LawfulEqCmp.compare_eq_iff_eq]
  exact h

namespace Records

/-- Nothing is listed below a directory that is not recorded. -/
theorem mem_getD_iff (h : map.Records dirs pending) (dir name : String) :
    name ∈ (map.children[dir]?).getD ∅ ↔ name ∈ namesBelow dirs pending dir := by
  cases hnames : map.children[dir]? with
  | some names => exact h.mem_iff dir names hnames name
  | none =>
    have hunknown : dir ∉ dirs := by
      intro hdir
      have hcontains := (h.contains_iff dir).2 hdir
      rw [contains, Std.ExtTreeMap.contains_eq_isSome_getElem?, hnames] at hcontains
      exact absurd hcontains (by decide)
    constructor
    · intro hname
      exact absurd hname Std.ExtTreeSet.not_mem_empty
    · -- A recorded child would have its parent recorded.
      rintro ⟨child, hchild, hroot, hsettled, rfl, -⟩
      exact absurd (h.parent_mem child hchild hroot hsettled) hunknown

/-- Recording the parent of the pending directory settles it.  The next pending directory is the
one just recorded, unless it was known or is the root. -/
theorem record {next : Option String} (h : map.Records dirs pending)
    (hpending : ∀ child, pending = some child →
      child ∈ dirs ∧ child ≠ Path.root ∧ Path.parent child = dir)
    (hnext : ∀ child, child ∈ insert dir dirs ∧ child ≠ Path.root ∧ some child ≠ next ↔
      child ∈ dirs ∧ child ≠ Path.root) :
    (map.record dir (pending.map Path.basename)).Records (insert dir dirs) next := by
  -- The children that count afterwards are all of the children that were recorded before.
  have hbelow : ∀ other name, name ∈ namesBelow (insert dir dirs) next other ↔
      (dir = other ∧ some name = pending.map Path.basename) ∨
        name ∈ namesBelow dirs pending other := by
    intro other name
    constructor
    · rintro ⟨child, hchild, hroot, hsettled, hparent, hname⟩
      rcases (hnext child).1 ⟨hchild, hroot, hsettled⟩ with ⟨hknown, -⟩
      -- The child that was pending is the one whose name was added.
      by_cases hlast : pending = some child
      · refine Or.inl ⟨?_, ?_⟩
        · rw [← hparent, (hpending child hlast).2.2]
        · rw [hlast, Option.map_some, hname]
      · exact Or.inr ⟨child, hknown, hroot, Ne.symm hlast, hparent, hname⟩
    · intro hname
      rcases hname with ⟨rfl, hname⟩ | ⟨child, hchild, hroot, -, hparent, hname⟩
      · rcases Option.map_eq_some_iff.1 hname.symm with ⟨child, hlast, hbase⟩
        rcases hpending child hlast with ⟨hchild, hroot, hparent⟩
        rcases (hnext child).2 ⟨hchild, hroot⟩ with ⟨hmem, -, hsettled⟩
        exact ⟨child, hmem, hroot, hsettled, hparent, hbase⟩
      · rcases (hnext child).2 ⟨hchild, hroot⟩ with ⟨hmem, -, hsettled⟩
        exact ⟨child, hmem, hroot, hsettled, hparent, hname⟩
  refine ⟨?_, ?_, ?_⟩
  · intro other
    rw [contains_record, h.contains_iff, Set.mem_insert_iff, eq_comm]
  · intro other names hnames name
    rw [hbelow]
    by_cases hother : dir = other
    · subst hother
      rcases getElem?_record_self map dir (pending.map Path.basename) with ⟨held, hheld, hmem⟩
      have hsame : held = names := Option.some.inj (hheld.symm.trans hnames)
      rw [← hsame, hmem, h.mem_getD_iff]
      simp
    · rw [getElem?_record_of_ne hother] at hnames
      rw [h.mem_iff other names hnames]
      simp [hother]
  · intro child hchild hroot hsettled
    rcases (hnext child).1 ⟨hchild, hroot, hsettled⟩ with ⟨hknown, -⟩
    by_cases hlast : pending = some child
    · rw [(hpending child hlast).2.2]
      exact Set.mem_insert dir dirs
    · exact Set.mem_insert_of_mem dir (h.parent_mem child hknown hroot (Ne.symm hlast))

/-- A map without a pending directory records ancestors with every directory. -/
theorem ancestry_subset (h : map.Records dirs none) (hdir : dir ∈ dirs) :
    Path.ancestry dir ⊆ dirs := by
  apply Path.ancestry_subset ?_ hdir
  intro child hchild
  -- The root is its own parent.
  by_cases hroot : child = Path.root
  · rw [hroot, Path.parent_root, ← hroot]
    exact hchild
  · exact h.parent_mem child hchild hroot (by simp)

/-- A climb with enough steps records a directory and its ancestors, and leaves none pending. -/
theorem climb {fuel : Nat} (h : map.Records dirs pending)
    (hpending : ∀ child, pending = some child →
      child ∈ dirs ∧ child ≠ Path.root ∧ Path.parent child = dir)
    (hfuel : 0 < fuel ∧ (dir = Path.root ∨ dir.toList.length + 1 < fuel)) :
    (map.climb fuel dir (pending.map Path.basename)).Records (dirs ∪ Path.ancestry dir) none := by
  induction fuel generalizing map dirs pending dir with
  | zero => exact absurd hfuel.1 (Nat.lt_irrefl 0)
  | succ fuel ih =>
    simp only [DirectoryMap.climb]
    by_cases hend : map.contains dir = true ∨ dir = Path.root
    · rw [if_pos hend]
      rw [h.contains_iff] at hend
      -- The climb ends at a known directory or at the root, and nothing is pending any more.
      have hrecord : (map.record dir (pending.map Path.basename)).Records (insert dir dirs) none := by
        apply h.record hpending
        intro child
        constructor
        · rintro ⟨hchild, hroot, -⟩
          rcases hchild with rfl | hchild
          · exact ⟨hend.resolve_right hroot, hroot⟩
          · exact ⟨hchild, hroot⟩
        · rintro ⟨hchild, hroot⟩
          exact ⟨Set.mem_insert_of_mem dir hchild, hroot, by simp⟩
      -- All that is above the directory was recorded with it or before it.
      have hsame : dirs ∪ Path.ancestry dir = insert dir dirs := by
        apply Set.Subset.antisymm
        · exact Set.union_subset (Set.subset_insert dir dirs)
            (hrecord.ancestry_subset (Set.mem_insert dir dirs))
        · exact Set.insert_subset (Or.inr (Path.mem_ancestry_self dir)) Set.subset_union_left
      rw [hsame]
      exact hrecord
    · rw [if_neg hend]
      rw [h.contains_iff] at hend
      rcases not_or.1 hend with ⟨hnew, hroot⟩
      -- The directory is new, and its parent does not list it yet.
      have hrecord : (map.record dir (pending.map Path.basename)).Records (insert dir dirs)
          (some dir) := by
        apply h.record hpending
        intro child
        constructor
        · rintro ⟨hchild, hne, hsettled⟩
          rcases hchild with rfl | hchild
          · exact absurd rfl hsettled
          · exact ⟨hchild, hne⟩
        · rintro ⟨hchild, hne⟩
          refine ⟨Set.mem_insert_of_mem dir hchild, hne, ?_⟩
          intro hsame
          exact hnew (Option.some.inj hsame ▸ hchild)
      have hparent : ∀ child, some dir = some child →
          child ∈ insert dir dirs ∧ child ≠ Path.root ∧ Path.parent child = Path.parent dir := by
        intro child hchild
        rw [← Option.some.inj hchild]
        exact ⟨Set.mem_insert dir dirs, hroot, rfl⟩
      -- The parent is the root or shorter, so one step less is enough for it.
      have hsteps : 0 < fuel ∧ (Path.parent dir = Path.root ∨
          (Path.parent dir).toList.length + 1 < fuel) := by
        have hlong := hfuel.2.resolve_left hroot
        refine ⟨by omega, ?_⟩
        rcases Path.parent_eq_root_or_length_lt dir with htop | hshorter
        · exact Or.inl htop
        · exact Or.inr (by omega)
      have hclimb := ih hrecord hparent hsteps
      rw [Path.ancestry_eq_insert, Set.union_insert, ← Set.insert_union]
      exact hclimb

theorem addDirectory (h : map.Records dirs none) (dir : String) :
    (map.addDirectory dir).Records (dirs ∪ Path.ancestry dir) none := by
  have hfuel : 0 < climbBound dir ∧
      (dir = Path.root ∨ dir.toList.length + 1 < climbBound dir) := by
    unfold climbBound
    exact ⟨by omega, Or.inr (by omega)⟩
  exact h.climb (by simp) hfuel

/-- Adding directories one after the other records the ancestry of each. -/
theorem foldl_addDirectory (h : map.Records dirs none) (places : List String) :
    (places.foldl DirectoryMap.addDirectory map).Records
      (dirs ∪ {dir | ∃ place ∈ places, dir ∈ Path.ancestry place}) none := by
  induction places generalizing map dirs with
  | nil => simpa using h
  | cons place places ih =>
    have hrest := ih (h.addDirectory place)
    have hsets : Path.ancestry place ∪ {dir | ∃ other ∈ places, dir ∈ Path.ancestry other} =
        {dir | ∃ other ∈ place :: places, dir ∈ Path.ancestry other} := by
      apply Set.ext
      intro dir
      simp
    rwa [Set.union_assoc, hsets] at hrest

end Records

/-- The map of some files records the ancestry of the directory of each file. -/
theorem records_ofFiles (files : List String) :
    (ofFiles files).Records {dir | ∃ file ∈ files, dir ∈ Path.ancestry (Path.parent file)}
      none := by
  have h := records_empty.foldl_addDirectory (files.map Path.parent)
  rw [List.foldl_map, Set.empty_union] at h
  simp only [List.mem_map, exists_exists_and_eq_and] at h
  exact h

theorem isSome_list? (map : DirectoryMap) (dir : String) :
    (map.list? dir).isSome = map.contains dir := by
  rw [list?, Option.isSome_map, contains, Std.ExtTreeMap.contains_eq_isSome_getElem?]

/-- A finished map lists the directories that it records, each name once and in order. -/
theorem Records.list?_eq (h : map.Records dirs none) (dir : String) :
    (dir ∉ dirs ∧ map.list? dir = none) ∨
      dir ∈ dirs ∧ ∃ names, map.list? dir = some names ∧ names.Pairwise (compare · · = .lt) ∧
        ∀ name, name ∈ names ↔ name ∈ namesBelow dirs none dir := by
  have hknown := h.contains_iff dir
  rw [contains, Std.ExtTreeMap.contains_eq_isSome_getElem?] at hknown
  cases hnames : map.children[dir]? with
  | none =>
    rw [hnames] at hknown
    exact Or.inl ⟨fun hdir => absurd (hknown.2 hdir) (by decide), by rw [list?, hnames]; rfl⟩
  | some names =>
    rw [hnames] at hknown
    refine Or.inr ⟨hknown.1 rfl, names.toList, by rw [list?, hnames]; rfl, ?_, ?_⟩
    · exact Std.ExtTreeSet.ordered_toList
    · intro name
      rw [Std.ExtTreeSet.mem_toList]
      exact h.mem_iff dir names hnames name

end DirectoryMap
end BuildTree
