import BuildTree.Proofs.Path.Grammar

/-!
# Ancestors — the directories on the way from a path to the root

Taking parents again and again leads to the root and stays there.  On any text a parent is the root
or a shorter text.  On a path of names the ancestors are the paths of the leading names: the parent
drops the last name, and the root is reached after as many steps as there are names.
-/

namespace BuildTree
namespace Path

/-- A path and all of its ancestors. -/
def ancestry (path : String) : Set String :=
  {dir | ∃ steps, parent^[steps] path = dir}

section AnyText

variable {path dir : String}

theorem mem_ancestry_self (path : String) : path ∈ ancestry path :=
  ⟨0, rfl⟩

theorem parent_mem_ancestry (h : dir ∈ ancestry path) : parent dir ∈ ancestry path := by
  rcases h with ⟨steps, rfl⟩
  exact ⟨steps + 1, Function.iterate_succ_apply' parent steps path⟩

/-- The ancestors of a path are the path and the ancestors of its parent. -/
theorem ancestry_eq_insert (path : String) :
    ancestry path = insert path (ancestry (parent path)) := by
  apply Set.ext
  intro dir
  constructor
  · rintro ⟨steps, rfl⟩
    cases steps with
    | zero => exact Or.inl rfl
    | succ steps => exact Or.inr ⟨steps, rfl⟩
  · intro h
    rcases h with rfl | ⟨steps, rfl⟩
    · exact mem_ancestry_self dir
    · exact ⟨steps + 1, rfl⟩

theorem ancestry_root : ancestry root = {root} := by
  apply Set.ext
  intro dir
  constructor
  · rintro ⟨steps, rfl⟩
    exact Function.iterate_fixed parent_root steps
  · intro h
    rw [Set.mem_singleton_iff.1 h]
    exact mem_ancestry_self root

/-- A set that has the parents of its members has all of their ancestors. -/
theorem ancestry_subset {dirs : Set String} (hclosed : ∀ d ∈ dirs, parent d ∈ dirs)
    (h : path ∈ dirs) : ancestry path ⊆ dirs := by
  rintro dir ⟨steps, rfl⟩
  induction steps with
  | zero => exact h
  | succ steps ih =>
    rw [Function.iterate_succ_apply']
    exact hclosed _ ih

/-- Climbing ends: a parent that is not the root is shorter. -/
theorem parent_eq_root_or_length_lt (path : String) :
    parent path = root ∨ (parent path).toList.length < path.toList.length := by
  have hlength := List.IsSuffix.length_le
    (List.dropWhile_suffix (p := (· != '/')) (l := path.toList.reverse))
  rw [List.length_reverse] at hlength
  rw [parent]
  split
  · exact Or.inl rfl
  · exact Or.inl rfl
  · -- The last slash and what is behind it are dropped.
    rename_i slash before hne heq
    refine Or.inr ?_
    rw [heq, List.length_cons] at hlength
    rw [String.toList_ofList, List.length_reverse]
    omega

end AnyText

section Names

variable {names above : List String}

/-- A path of names lies above another one just if its names lead there. -/
theorem mem_ancestry_ofNames (hnames : ∀ n ∈ names, IsName n) (habove : ∀ n ∈ above, IsName n) :
    ofNames above ∈ ancestry (ofNames names) ↔ above <+: names := by
  constructor
  · rintro ⟨steps, hsteps⟩
    rw [parent_iterate_ofNames hnames] at hsteps
    have htake : ∀ n ∈ names.take (names.length - steps), IsName n := by
      intro n hn
      exact hnames n (List.mem_of_mem_take hn)
    rw [← (ofNames_inj htake habove).1 hsteps]
    exact List.take_prefix _ names
  · rintro ⟨below, rfl⟩
    refine ⟨below.length, ?_⟩
    rw [parent_iterate_ofNames hnames, List.length_append, Nat.add_sub_cancel, List.take_left]

end Names

theorem error?_parent {path : String} (h : error? path = none) : error? (parent path) = none := by
  rcases exists_names h with ⟨names, hnames, rfl⟩
  have hparent := parent_iterate_ofNames hnames 1
  rw [Function.iterate_one] at hparent
  rw [hparent]
  exact error?_ofNames fun n hn => hnames n (List.mem_of_mem_take hn)

theorem error?_of_mem_ancestry {path dir : String} (h : error? path = none)
    (hdir : dir ∈ ancestry path) : error? dir = none := by
  rcases hdir with ⟨steps, rfl⟩
  induction steps with
  | zero => exact h
  | succ steps ih =>
    rw [Function.iterate_succ_apply']
    exact error?_parent ih

/-- Of the directories below a mount point only the mount point itself lies on the way to it. -/
theorem eq_of_mount_mem_ancestry {mountPoint inner : String} (hmount : error? mountPoint = none)
    (hinner : error? inner = none) (h : mount mountPoint inner ∈ ancestry mountPoint) :
    mount mountPoint inner = mountPoint := by
  rcases exists_names hmount with ⟨above, habove, rfl⟩
  rcases exists_names hinner with ⟨below, hbelow, rfl⟩
  have hboth : ∀ n ∈ above ++ below, IsName n := List.forall_mem_append.2 ⟨habove, hbelow⟩
  rw [mount_ofNames habove hbelow] at h ⊢
  have hlength := List.IsPrefix.length_le ((mem_ancestry_ofNames habove hboth).1 h)
  rw [List.length_append] at hlength
  have hnil : below = [] := List.eq_nil_of_length_eq_zero (by omega)
  rw [hnil, List.append_nil]

/-- The ancestors of a mounted path are those of the mount point, and its own ones mounted. -/
theorem mem_ancestry_mount {mountPoint inner dir : String} (hmount : error? mountPoint = none)
    (hinner : error? inner = none) (h : dir ∈ ancestry (mount mountPoint inner)) :
    dir ∈ ancestry mountPoint ∨
      ∃ below ∈ ancestry inner, below ≠ root ∧ mount mountPoint below = dir := by
  have hdir := error?_of_mem_ancestry (error?_mount hmount hinner) h
  rcases exists_names hmount with ⟨above, habove, rfl⟩
  rcases exists_names hinner with ⟨inside, hinside, rfl⟩
  rcases exists_names hdir with ⟨names, hnames, rfl⟩
  have hboth : ∀ n ∈ above ++ inside, IsName n := List.forall_mem_append.2 ⟨habove, hinside⟩
  rw [mount_ofNames habove hinside, mem_ancestry_ofNames hboth hnames] at h
  rw [mem_ancestry_ofNames habove hnames]
  -- The names lead at most to the mount point, or past it.
  rcases List.prefix_or_prefix_of_prefix h (List.prefix_append above inside) with hshort | hlong
  · exact Or.inl hshort
  · rcases hlong with ⟨below, rfl⟩
    have hbelow : ∀ n ∈ below, IsName n := fun n hn => hnames n (List.mem_append_right above hn)
    by_cases hnil : below = []
    · exact Or.inl (by rw [hnil, List.append_nil])
    · have hroot : ofNames below ≠ root := mt (ofNames_eq_root_iff hbelow).1 hnil
      refine Or.inr ⟨ofNames below, ?_, hroot, mount_ofNames habove hbelow⟩
      exact (mem_ancestry_ofNames hinside hbelow).2 ((List.prefix_append_right_inj above).1 h)

theorem mount_mem_ancestry_mount {mountPoint inner dir : String} (hmount : error? mountPoint = none)
    (hinner : error? inner = none) (h : dir ∈ ancestry inner) :
    mount mountPoint dir ∈ ancestry (mount mountPoint inner) := by
  have hdir := error?_of_mem_ancestry hinner h
  rcases exists_names hmount with ⟨above, habove, rfl⟩
  rcases exists_names hinner with ⟨inside, hinside, rfl⟩
  rcases exists_names hdir with ⟨names, hnames, rfl⟩
  rw [mem_ancestry_ofNames hinside hnames] at h
  rw [mount_ofNames habove hnames, mount_ofNames habove hinside,
    mem_ancestry_ofNames (List.forall_mem_append.2 ⟨habove, hinside⟩)
      (List.forall_mem_append.2 ⟨habove, hnames⟩)]
  exact (List.prefix_append_right_inj above).2 h

theorem join_notMem_ancestry {dir name : String} (hdir : error? dir = none) (hname : IsName name) :
    join dir name ∉ ancestry dir := by
  rcases exists_names hdir with ⟨names, hnames, rfl⟩
  have hchild : ∀ n ∈ names ++ [name], IsName n :=
    List.forall_mem_append.2 ⟨hnames, List.forall_mem_singleton.2 hname⟩
  rw [join_ofNames hnames, mem_ancestry_ofNames hnames hchild]
  intro hlong
  have hlength := List.IsPrefix.length_le hlong
  rw [List.length_append, List.length_singleton] at hlength
  omega

end Path

/-! ## Parents of paths -/

namespace TreePath

/-- The directory that a path lies in; the root lies in itself. -/
def parent (path : TreePath) : TreePath :=
  ⟨Path.parent path.text, Path.error?_parent path.wellFormed⟩

variable {path : TreePath}

theorem text_ne_root (h : path ≠ root) : path.text ≠ Path.root := by
  intro htext
  apply h
  cases path
  cases htext
  rfl

/-- The climb ends after as many steps as there are names, and not before. -/
theorem parent_iterate_eq_root_iff (path : TreePath) (steps : Nat) :
    Path.parent^[steps] path.text = Path.root ↔ path.names.length ≤ steps := by
  have hnames := path.isName_of_mem_names
  have hleading : ∀ n ∈ path.names.take (path.names.length - steps), Path.IsName n :=
    fun n hn => hnames n (List.mem_of_mem_take hn)
  rw [← path.ofNames_names, Path.parent_iterate_ofNames hnames, Path.ofNames_eq_root_iff hleading,
    List.take_eq_nil_iff, List.length_eq_zero_iff.symm]
  omega

end TreePath

namespace Path

/-- Parent, last name and child of a path belong together: a path other than the root is the child
of its parent by its last name, a child leads back to its directory and its name, and the climb from
a path takes as many steps as it has names. -/
theorem parent_basename_join (path dir : TreePath) :
    (path ≠ TreePath.root →
      validate (parent path.text) = .ok () ∧ IsName path.fileName ∧
        join path.parent.text path.fileName = path.text) ∧
      (∀ name, IsName name →
        validate (join dir.text name) = .ok () ∧ parent (join dir.text name) = dir.text ∧
          basename (join dir.text name) = name) ∧
      ∀ steps, parent^[steps] path.text = root ↔ path.names.length ≤ steps := by
  refine ⟨?_, ?_, path.parent_iterate_eq_root_iff⟩
  · intro hroot
    rcases join_parent_basename path.wellFormed (TreePath.text_ne_root hroot) with ⟨hname, hjoin⟩
    exact ⟨validate_eq_ok_iff.2 (error?_parent path.wellFormed), hname, hjoin⟩
  · intro name hname
    exact ⟨validate_eq_ok_iff.2 (error?_join dir.wellFormed hname),
      parent_join dir.wellFormed hname, basename_join dir.wellFormed hname⟩

/-- A path of three names, one of them `...`, and its child of the same last name. -/
theorem parent_basename_join_three_names :
    let path : TreePath := ⟨"/a/.../b", by decide⟩
    path ≠ TreePath.root ∧ IsName "b" ∧
      (validate (parent path.text) = .ok () ∧ IsName path.fileName ∧
        join path.parent.text path.fileName = path.text) ∧
      (validate (join path.text "b") = .ok () ∧ parent (join path.text "b") = path.text ∧
        basename (join path.text "b") = "b") ∧
      parent^[2] path.text ≠ root ∧ parent^[3] path.text = root := by
  intro path
  have hroot : path ≠ TreePath.root := by decide
  have hname : IsName "b" := ⟨by decide, by decide, by decide⟩
  rcases parent_basename_join path path with ⟨hpath, hchild, hclimb⟩
  have hnames : path.names.length = 3 := by decide
  refine ⟨hroot, hname, hpath hroot, hchild "b" hname, ?_, ?_⟩
  · rw [Ne, hclimb, hnames]
    decide
  · rw [hclimb, hnames]

end Path
end BuildTree
