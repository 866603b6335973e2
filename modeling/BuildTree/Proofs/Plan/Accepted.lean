import BuildTree.Build.Assembly
import BuildTree.Plan.Load
import BuildTree.Proofs.Calls
import BuildTree.Proofs.Path.Disk
import BuildTree.Proofs.Text.Ends

/-!
# Accepted plans — what a build can rely on

A plan is accepted just if it is sound, and a sound plan stays sound wherever its file names are seen
from: archives get the same name where they are listed and where they are declared.  So caches can be
made for an accepted plan and its dependencies can be mounted, whatever else fails.
-/

namespace BuildTree

universe u

/-- A check reports nothing just if its condition does not hold. -/
theorem check_eq_none_iff {ε : Type u} {fault : Prop} [Decidable fault] {err : ε} :
    (if fault then some err else none) = none ↔ ¬fault := by
  split <;> simp [*]

/-- Dependencies can be mounted at the paths of at least one name. -/
theorem Assembly.rootError?_eq_none_iff {root : String} : rootError? root = none ↔
    ∃ names, names ≠ [] ∧ (∀ n ∈ names, Path.IsName n) ∧ root = Path.ofNames names := by
  rw [← Path.exists_names_iff, rootError?]
  cases Path.error? root with
  | some cause => exact iff_of_false nofun fun hvalid => nomatch hvalid.1
  | none => exact check_eq_none_iff.trans (and_iff_right rfl).symm

namespace BuildPlan

/-- What has to hold of a plan for a build to start from it. -/
structure IsSound (plan : BuildPlan) : Prop where
  sources_ne_nil : plan.request.sources ≠ []
  /-- The dependency root is a path of at least one name. -/
  exists_rootNames : ∃ names, names ≠ [] ∧ (∀ n ∈ names, Path.IsName n) ∧
    plan.request.dependencyRoot = Path.ofNames names
  name_ne_empty : ∀ archive ∈ plan.archives, archive.name ≠ ""
  label_ne_empty : ∀ declaration ∈ plan.dependencies, declaration.label ≠ ""
  exists_listed : ∀ declaration ∈ plan.dependencies,
    ∃ archive ∈ plan.archives, archive.name = declaration.archive
  capacities_pos : 0 < plan.cache.archiveCapacity ∧ 0 < plan.cache.sourceCapacity
  extension_head : ∀ extension ∈ plan.compiler.sourceExtensions,
    extension.toList.head? = some '.'

variable {plan : BuildPlan}

/-! ## Validation -/

theorem validate_eq_ok_iff_error? : plan.validate = .ok () ↔ plan.error? = none := by
  rw [validate]
  cases plan.error? <;> simp

/-- A plan and a request for its tree look at the dependency root alike. -/
theorem rootError?_eq_none_iff {request : RequestSection} :
    request.rootError? = none ↔ Assembly.rootError? request.dependencyRoot = none := by
  rw [RequestSection.rootError?, Assembly.rootError?]
  cases Path.error? request.dependencyRoot with
  | some cause => exact iff_of_false nofun nofun
  | none => exact check_eq_none_iff.trans check_eq_none_iff.symm

theorem declaration_error?_eq_none_iff {archives : List String} {declaration : DeclaredDependency} :
    declaration.error? archives = none ↔ declaration.label ≠ "" ∧ declaration.archive ∈ archives := by
  rw [DeclaredDependency.error?]
  split
  · simp [*]
  · split <;> simp [*]

/-- Nothing is wrong with a plan just if it is sound. -/
theorem error?_eq_none_iff : plan.error? = none ↔ plan.IsSound := by
  simp only [error?, Option.orElse_eq_none, check_eq_none_iff, rootError?_eq_none_iff,
    Assembly.rootError?_eq_none_iff, List.findSome?_eq_none_iff, declaration_error?_eq_none_iff,
    Option.map_eq_none_iff, List.find?_eq_none, Bool.not_eq_false, Text.startsWith_dot_iff, not_or,
    archiveNames, List.mem_map, not_exists, not_and, Bool.not_eq_eq_eq_not, Bool.not_true]
  constructor
  · rintro ⟨hsources, hroot, hnames, hdependencies, hcaches, hextensions⟩
    exact ⟨hsources, hroot, hnames, fun d hd => (hdependencies d hd).1,
      fun d hd => (hdependencies d hd).2,
      ⟨Nat.pos_of_ne_zero hcaches.1, Nat.pos_of_ne_zero hcaches.2⟩, hextensions⟩
  · intro h
    exact ⟨h.sources_ne_nil, h.exists_rootNames, h.name_ne_empty,
      fun d hd => ⟨h.label_ne_empty d hd, h.exists_listed d hd⟩,
      ⟨Nat.ne_of_gt h.capacities_pos.1, Nat.ne_of_gt h.capacities_pos.2⟩, h.extension_head⟩

theorem validate_eq_ok_iff : plan.validate = .ok () ↔ plan.IsSound :=
  validate_eq_ok_iff_error?.trans error?_eq_none_iff

/-! ## File names seen from elsewhere -/

/-- A sound plan stays sound wherever its file names are seen from. -/
theorem IsSound.relativeTo (h : plan.IsSound) (base : String) : (plan.relativeTo base).IsSound where
  sources_ne_nil := mt List.map_eq_nil_iff.1 h.sources_ne_nil
  exists_rootNames := h.exists_rootNames
  name_ne_empty archive hmem := by
    rcases List.mem_map.1 hmem with ⟨listed, hlisted, rfl⟩
    exact fun hempty => h.name_ne_empty listed hlisted (Disk.join_eq_empty_iff.1 hempty).2
  label_ne_empty declaration hmem := by
    rcases List.mem_map.1 hmem with ⟨declared, hdeclared, rfl⟩
    exact h.label_ne_empty declared hdeclared
  exists_listed declaration hmem := by
    -- The archive of a declaration and the listed one have one name, and get one name again.
    rcases List.mem_map.1 hmem with ⟨declared, hdeclared, rfl⟩
    rcases h.exists_listed declared hdeclared with ⟨listed, hlisted, hname⟩
    exact ⟨_, List.mem_map_of_mem hlisted, congrArg (Disk.join base) hname⟩
  capacities_pos := h.capacities_pos
  extension_head := h.extension_head

/-- File names seen from a directory that starts at the root of the disk are final. -/
theorem relativeTo_relativeTo {base : String} (h : Disk.isAbsolute base = true) (plan : BuildPlan)
    (other : String) : (plan.relativeTo base).relativeTo other = plan.relativeTo base := by
  have hjoin : Disk.join other ∘ Disk.join base = Disk.join base :=
    funext fun path => Disk.join_of_isAbsolute (Disk.isAbsolute_join h path) other
  have hname : ∀ path, Disk.join other (Disk.join base path) = Disk.join base path := congrFun hjoin
  simp [relativeTo, hjoin, hname, Function.comp_def]

/-! ## Builds of accepted plans -/

/-- The plans that builds start from: those of a text or of a file, and these with their file names
seen from any directory. -/
inductive Accepted : BuildPlan → Prop
  | parsed {text : String} {plan : BuildPlan} (read : parse text = .ok plan) : Accepted plan
  | loaded {disk : FileStore} {path : String} {plan : BuildPlan}
      (read : loadFile disk path = .ok plan) : Accepted plan
  | moved {plan : BuildPlan} (before : Accepted plan) (base : String) :
      Accepted (plan.relativeTo base)

theorem isSound_of_parse {text : String} (h : parse text = .ok plan) : plan.IsSound := by
  unfold parse at h
  split at h
  · cases h
  · split at h
    · cases h
    · rename_i hvalid
      cases h
      exact validate_eq_ok_iff.1 hvalid

theorem isSound_of_loadFile {disk : FileStore} {path : String} (h : loadFile disk path = .ok plan) :
    plan.IsSound := by
  unfold loadFile at h
  split at h
  · cases h
  · rcases map_eq_ok_iff.1 h with ⟨parsed, hparsed, rfl⟩
    have hsound := isSound_of_parse hparsed
    -- A file right where its user works leaves the names as they are.
    unfold relativeToFile
    split
    · exact hsound
    · split
      · exact hsound
      · exact hsound.relativeTo _

theorem Accepted.isSound (h : plan.Accepted) : plan.IsSound := by
  induction h with
  | parsed read => exact isSound_of_parse read
  | loaded read => exact isSound_of_loadFile read
  | moved before base ih => exact ih.relativeTo base

theorem IsSound.exists_create {σ : Type u} (h : plan.IsSound) :
    ∃ caches : BuildCaches σ, BuildCaches.create plan.cache = .ok caches := by
  refine ⟨⟨.empty plan.cache.archiveCapacity, .empty plan.cache.sourceCapacity, 0⟩, ?_⟩
  simp only [BuildCaches.create, ParseCache.create, LruCache.create,
    if_neg (Nat.ne_of_gt h.capacities_pos.1), if_neg (Nat.ne_of_gt h.capacities_pos.2), Except.map]

end BuildPlan

namespace Assembly

variable {cause : RootError} {err : BuildError}

/-- A source that is not in the tree is a fault or a broken promise. -/
theorem eq_of_requireSources_error {tree : FileTree} {sources : List TreePath}
    (h : requireSources tree sources = .error err) :
    (∃ fault, err = .fault fault) ∨ ∃ broken, err = .internal broken := by
  induction sources with
  | nil => cases h
  | cons source rest ih =>
    rw [requireSources] at h
    split at h
    · cases h
      exact Or.inl ⟨_, rfl⟩
    · cases h
      exact Or.inr ⟨_, rfl⟩
    · exact ih h

theorem eq_of_assemble_error {sources : SourceFiles} {archives : MergedArchives} {root : String}
    (h : assemble sources archives root = .error err) :
    (∃ fault, err = .fault fault) ∨ ∃ broken, err = .internal broken := by
  rw [assemble] at h
  split at h
  · cases h
    exact Or.inl ⟨_, rfl⟩
  · split at h
    · rename_i hmissing
      cases h
      exact eq_of_requireSources_error hmissing
    · cases h

/-- A request for a tree blames its dependency root only if that is what is wrong. -/
theorem rootError?_of_prepare {σ : Type u} {disk : FileStore} {caches : BuildCaches σ}
    {request : TreeRequest} {root : String}
    (h : (prepare disk caches request).result = .error (.dependencyRoot root cause)) :
    rootError? request.dependencyRoot = some cause := by
  unfold prepare at h
  split at h
  · rename_i found hroot
    cases h
    exact hroot
  · -- What comes after the root is blamed on archives, on sources or on the program itself.
    dsimp only at h
    split at h
    · cases h
    · split at h
      · cases h
      · rcases eq_of_assemble_error h with ⟨fault, herr⟩ | ⟨broken, herr⟩ <;> cases herr

end Assembly

namespace BuildPlan

theorem IsSound.prepare_ne_dependencyRoot {σ : Type u} {plan : BuildPlan} (h : plan.IsSound)
    (disk : FileStore) (caches : BuildCaches σ) (root : String) (cause : RootError) :
    (Assembly.prepare disk caches plan.treeRequest).result ≠ .error (.dependencyRoot root cause) := by
  intro hresult
  have hblamed := Assembly.rootError?_of_prepare hresult
  rw [treeRequest, Assembly.rootError?_eq_none_iff.2 h.exists_rootNames] at hblamed
  cases hblamed

/-- Validation accepts just the sound plans.  Plans that were accepted are sound, wherever their file
names are seen from; caches can be made for them, and no request for their tree fails at the
dependency root.  File names seen from an absolute directory do not change again. -/
theorem accepted_is_sound {σ : Type u} :
    (∀ plan : BuildPlan, plan.validate = .ok () ↔ plan.IsSound) ∧
    (∀ plan : BuildPlan, plan.Accepted → plan.IsSound ∧
      (∃ caches : BuildCaches σ, BuildCaches.create plan.cache = .ok caches) ∧
      ∀ disk (caches : BuildCaches σ) root cause,
        (Assembly.prepare disk caches plan.treeRequest).result ≠
          .error (.dependencyRoot root cause)) ∧
    ∀ (plan : BuildPlan) base other, Disk.isAbsolute base = true →
      (plan.relativeTo base).relativeTo other = plan.relativeTo base := by
  refine ⟨fun plan => validate_eq_ok_iff, fun plan haccepted => ?_, fun plan base other hbase => ?_⟩
  · have hsound := haccepted.isSound
    exact ⟨hsound, hsound.exists_create, hsound.prepare_ne_dependencyRoot⟩
  · exact relativeTo_relativeTo hbase plan other

/-- The plan of a text is accepted and stays sound in an absolute directory: the dependency on `react`
is still declared for the archive that is listed. -/
theorem accepted_is_sound_from_work :
    ∃ plan, parse ("[request]\nsources = [\"a.ts\"]\n[[archives]]\nname = \"react.tar\"\n" ++
        "[[dependencies]]\nlabel = \"react\"\narchive = \"react.tar\"\n") = .ok plan ∧
      (plan.relativeTo "/work").IsSound ∧
      (plan.relativeTo "/work").dependencies = [⟨"react", "/work/react.tar"⟩] ∧
      (plan.relativeTo "/work").relativeTo "/home" = plan.relativeTo "/work" := by
  let plan : BuildPlan :=
    { request := { sources := ["a.ts"] }
      archives := [⟨"react.tar", none⟩]
      dependencies := [⟨"react", "react.tar"⟩] }
  have hread : parse ("[request]\nsources = [\"a.ts\"]\n[[archives]]\nname = \"react.tar\"\n" ++
      "[[dependencies]]\nlabel = \"react\"\narchive = \"react.tar\"\n") = .ok plan := by
    decide +kernel
  have haccepted : (plan.relativeTo "/work").Accepted := (Accepted.parsed hread).moved "/work"
  rcases accepted_is_sound (σ := Unit) with ⟨-, hsound, hfinal⟩
  exact ⟨plan, hread, (hsound _ haccepted).1, by decide +kernel,
    hfinal plan "/work" "/home" (by decide +kernel)⟩

end BuildPlan
end BuildTree
