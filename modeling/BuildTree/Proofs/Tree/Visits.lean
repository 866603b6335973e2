import BuildTree.Proofs.Tree.DirectoryMap

/-!
# Visits — what a directory map comes to

Files and directories are visited in any order, under any texts.  Each visit climbs until it reaches
a directory that is recorded already or the root, and that happens: a parent is the root or a shorter
text.  What is recorded afterwards is the least set with the visited directories that is closed under
parents, and the names that are listed are those of its members, so that a map depends on nothing but
the set of visited directories.
-/

namespace BuildTree

/-- Something that is visited. -/
inductive Visit
  | file (path : String)
  | directory (path : String)
  deriving DecidableEq

/-- The directory that a visit records. -/
def Visit.place : Visit → String
  | .file path => Path.parent path
  | .directory path => path

/-- The directories that visits record themselves. -/
def Visit.places (visits : List Visit) : Set String :=
  {dir | ∃ visited ∈ visits, visited.place = dir}

namespace DirectoryMap

/-- The map after a visit. -/
def visit (map : DirectoryMap) : Visit → DirectoryMap
  | .file path => map.addFile path
  | .directory path => map.addDirectory path

def visitAll (map : DirectoryMap) (visits : List Visit) : DirectoryMap :=
  visits.foldl visit map

/-! ## Climbs end -/

/-- The climb with no bound on its steps.  It ends where a directory was recorded before and at the
root, and it goes on at the parent everywhere else. -/
inductive Climbs : DirectoryMap → String → Option String → DirectoryMap → Prop
  | ended {map : DirectoryMap} {dir : String} {name? : Option String}
      (reached : map.contains dir = true ∨ dir = Path.root) :
      Climbs map dir name? (map.record dir name?)
  | continued {map after : DirectoryMap} {dir : String} {name? : Option String}
      (below : ¬(map.contains dir = true ∨ dir = Path.root))
      (rest : Climbs (map.record dir name?) (Path.parent dir) (some (Path.basename dir)) after) :
      Climbs map dir name? after

section Climbs

variable {map after other : DirectoryMap} {dir : String} {name? : Option String}

theorem Climbs.unique (h : Climbs map dir name? after) (h' : Climbs map dir name? other) :
    after = other := by
  induction h with
  | ended reached =>
    cases h' with
    | ended reached' => rfl
    | continued below rest => exact absurd reached below
  | continued below rest ih =>
    cases h' with
    | ended reached => exact absurd reached below
    | continued below' rest' => exact ih rest'

/-- A climb with enough steps is a climb with no bound. -/
theorem climbs_climb {fuel : Nat}
    (hfuel : 0 < fuel ∧ (dir = Path.root ∨ dir.toList.length + 1 < fuel)) :
    Climbs map dir name? (map.climb fuel dir name?) := by
  induction fuel generalizing map dir name? with
  | zero => exact absurd hfuel.1 (Nat.lt_irrefl 0)
  | succ fuel ih =>
    rw [climb]
    split
    · rename_i reached
      exact .ended reached
    · rename_i below
      refine .continued below (ih ?_)
      -- The parent is the root or shorter, so one step less is enough for it.
      have hlong := hfuel.2.resolve_left fun hroot => below (Or.inr hroot)
      refine ⟨by omega, ?_⟩
      rcases Path.parent_eq_root_or_length_lt dir with htop | hshorter
      · exact Or.inl htop
      · exact Or.inr (by omega)

/-- Every climb ends, from any text and in any map. -/
theorem climbs_iff (map after : DirectoryMap) (dir : String) :
    Climbs map dir none after ↔ after = map.addDirectory dir := by
  have hends : Climbs map dir none (map.addDirectory dir) := by
    apply climbs_climb
    unfold climbBound
    exact ⟨by omega, Or.inr (by omega)⟩
  constructor
  · exact fun h => h.unique hends
  · rintro rfl
    exact hends

theorem visit_eq (map : DirectoryMap) (visited : Visit) :
    map.visit visited = map.addDirectory visited.place := by
  cases visited <;> rfl

end Climbs

/-! ## What is recorded -/

/-- A map that records what follows from some visited directories, and lists it. -/
structure IndexOf (map : DirectoryMap) (visited : Set String) : Prop where
  /-- The recorded directories are the least set with the visited ones and the parents of its
  members. -/
  isLeast : IsLeast {dirs : Set String | visited ⊆ dirs ∧
      ∀ dir ∈ dirs, dir ≠ Path.root → Path.parent dir ∈ dirs}
    {dir | map.contains dir = true}
  list?_eq_none_iff : ∀ dir, map.list? dir = none ↔ ¬map.contains dir = true
  /-- A recorded directory lists the names of the recorded ones whose parent it is, each once. -/
  list?_eq_some : ∀ dir names, map.list? dir = some names →
    names.Pairwise (compare · · = .lt) ∧
      ∀ name, name ∈ names ↔ ∃ child, map.contains child = true ∧ child ≠ Path.root ∧
        Path.parent child = dir ∧ Path.basename child = name

section Recorded

variable {map other : DirectoryMap} {dirs : Set String}

theorem records_visitAll (visits : List Visit) :
    (empty.visitAll visits).Records
      {dir | ∃ place ∈ Visit.places visits, dir ∈ Path.ancestry place} none := by
  have h := records_empty.foldl_addDirectory (visits.map Visit.place)
  rw [List.foldl_map, Set.empty_union] at h
  simp only [← visit_eq, List.mem_map] at h
  exact h

theorem Records.isSome_iff (h : map.Records dirs none) (dir : String) :
    (map.children[dir]?).isSome = true ↔ dir ∈ dirs := by
  rw [← Std.ExtTreeMap.contains_eq_isSome_getElem?]
  exact h.contains_iff dir

/-- What a map records is all there is to it. -/
theorem Records.ext (h : map.Records dirs none) (h' : other.Records dirs none) : map = other := by
  have hchildren : ∀ dir : String, map.children[dir]? = other.children[dir]? := by
    intro dir
    have hknown := (h.isSome_iff dir).trans (h'.isSome_iff dir).symm
    cases hnames : map.children[dir]? with
    | none =>
      rw [hnames] at hknown
      exact (Option.not_isSome_iff_eq_none.1 fun hsome => by cases hknown.2 hsome).symm
    | some names =>
      rw [hnames] at hknown
      rcases Option.isSome_iff_exists.1 (hknown.1 rfl) with ⟨names', hnames'⟩
      rw [hnames', Option.some.injEq]
      apply Std.ExtTreeSet.ext_mem
      intro name
      rw [h.mem_iff dir names hnames, h'.mem_iff dir names' hnames']
  cases map
  cases other
  exact congrArg DirectoryMap.mk (Std.ExtTreeMap.ext_getElem? hchildren)

/-- A map that records the ancestors of visited directories records what follows from them. -/
theorem Records.indexOf {visited : Set String}
    (h : map.Records {dir | ∃ place ∈ visited, dir ∈ Path.ancestry place} none) :
    map.IndexOf visited := by
  refine ⟨⟨⟨?_, ?_⟩, ?_⟩, ?_, ?_⟩
  · intro place hplace
    exact (h.contains_iff place).2 ⟨place, hplace, Path.mem_ancestry_self place⟩
  · intro dir hdir _
    rcases (h.contains_iff dir).1 hdir with ⟨place, hplace, hancestor⟩
    exact (h.contains_iff _).2 ⟨place, hplace, Path.parent_mem_ancestry hancestor⟩
  · -- Any other such set has the ancestors of its members.
    rintro dirs ⟨hvisited, hclosed⟩ dir hdir
    rcases (h.contains_iff dir).1 hdir with ⟨place, hplace, hancestor⟩
    refine Path.ancestry_subset ?_ (hvisited hplace) hancestor
    intro child hchild
    by_cases hroot : child = Path.root
    · rwa [hroot, Path.parent_root, ← hroot]
    · exact hclosed child hchild hroot
  · intro dir
    rw [← isSome_list?, Option.not_isSome_iff_eq_none]
  · intro dir names hnames
    rcases h.list?_eq dir with ⟨-, hnone⟩ | ⟨-, listed, hlisted, hordered, hmem⟩
    · rw [hnone] at hnames
      cases hnames
    · rw [hlisted, Option.some.injEq] at hnames
      subst hnames
      refine ⟨hordered, fun name => (hmem name).trans ?_⟩
      simp only [namesBelow, Set.mem_ofPred_eq, h.contains_iff, ne_eq, reduceCtorEq,
        not_false_eq_true, true_and]

/-- After any visits a map records the least set of directories that follows from the visited ones,
and lists just the names in it.  Every visit ends, and the map is the same for any visits to the same
directories. -/
theorem indexOf_visited (visits : List Visit) :
    (∀ earlier visited after, Climbs (empty.visitAll earlier) visited.place none after ↔
      after = empty.visitAll (earlier ++ [visited])) ∧
    (empty.visitAll visits).IndexOf (Visit.places visits) ∧
    ∀ others, Visit.places others = Visit.places visits →
      empty.visitAll others = empty.visitAll visits := by
  refine ⟨?_, (records_visitAll visits).indexOf, ?_⟩
  · intro earlier visited after
    rw [climbs_iff, visitAll, visitAll, List.foldl_concat, visit_eq]
  · intro others hsame
    have hothers := records_visitAll others
    rw [hsame] at hothers
    exact hothers.ext (records_visitAll visits)

/-- The parent of the empty text is the root, which lists it under its empty name. -/
example : (empty.visitAll [.directory "", .file "/a//b/x.ts"]).list? "/" = some ["", "a"] := by
  decide +kernel

end Recorded

end DirectoryMap
end BuildTree
