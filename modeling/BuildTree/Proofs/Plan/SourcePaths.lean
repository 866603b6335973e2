import BuildTree.Archive.SourceFiles
import BuildTree.Plan.Basic
import BuildTree.Proofs.Path.Disk

/-!
# Source paths — where sources lie, wherever a plan is loaded from

File names of a plan are seen from the directory of its file, and the sources get their paths in the
tree from where they lie below the source root.  Both the sources and their root move to that
directory, and stripping takes it off again: the path in the tree tells nothing of it.
-/

namespace BuildTree

namespace Disk

/-- A source root that a path of names lies below: the directory in which the path is looked up, or
the first components of the path. -/
def IsRootOf (root : String) (names : List String) : Prop :=
  root = "." ∨ components root <+: components (ofNames names)

/-- The names of a path below a source root. -/
def namesBelow (root : String) (names : List String) : List String :=
  if root = "." then names else names.drop (components root).length

variable {root base : String} {names : List String}

/-- A leading path of a path of names has the components of its first names. -/
theorem components_of_prefix (h : ∀ n ∈ names, IsPlainName n)
    (hroot : components root <+: components (ofNames names)) :
    (components root).length ≤ names.length ∧
      components root =
        ((names.take (components root).length).map String.toList).map componentOf := by
  rw [components_ofNames h] at hroot
  constructor
  · simpa using hroot.length_le
  · rw [List.map_take, List.map_take]
    exact List.prefix_iff_eq_take.1 hroot

/-- A path of names with its root taken off, or as it is if it does not lie there, is the path of the
names below. -/
theorem getD_strip_ofNames (h : ∀ n ∈ names, IsPlainName n) (hroot : IsRootOf root names) :
    (strip (ofNames names) root).getD (ofNames names) = ofNames (namesBelow root names) := by
  by_cases hhere : root = "."
  · rw [hhere, strip_ofNames_here h, namesBelow, if_pos rfl]
    rfl
  · rcases components_of_prefix h (hroot.resolve_left hhere) with ⟨hsteps, hlead⟩
    rw [strip_ofNames h hsteps hlead, namesBelow, if_neg hhere]
    rfl

/-- Behind a directory, a path of names always lies below its root. -/
theorem strip_join_of_isRootOf (hbase : base ≠ "") (h : ∀ n ∈ names, IsPlainName n)
    (hroot : IsRootOf root names) :
    strip (join base (ofNames names)) (join base root) = some (ofNames (namesBelow root names)) := by
  by_cases hhere : root = "."
  · -- The `.` is behind the directory now, where it says nothing.
    have hsilent : bodyComponents ".".toList = [] := by decide
    rw [hhere, namesBelow, if_pos rfl]
    exact strip_join hbase h (Nat.zero_le _) (by decide) hsilent
  · rcases components_of_prefix h (hroot.resolve_left hhere) with ⟨hsteps, hlead⟩
    rcases bodyComponents_of_components hlead with ⟨hrelative, hbody⟩
    rw [strip_join hbase h hsteps hrelative hbody, namesBelow, if_neg hhere]

end Disk

/-- The place in the tree that a relative path stands for, if it is well formed. -/
def placeOf (relative : String) : Except PathError TreePath :=
  TreePath.parse ("/" ++ Text.dropSlashes
    (String.ofList (relative.toList.map fun c => if c = '\\' then '/' else c)))

/-- A source is placed where it lies below the source root. -/
theorem sourcePath_eq (path sourceRoot : String) :
    sourcePath path sourceRoot =
      (placeOf ((Disk.strip path sourceRoot).getD path)).mapError (.sourcePath path) := by
  unfold sourcePath placeOf TreePath.ofRelative
  dsimp only
  generalize TreePath.parse _ = place
  cases place <;> rfl

namespace BuildPlan

/-- A source gets its place in the tree from its names below the source root, in a plan as in the
same plan seen from any directory; if these make no place, both plans fail with the same cause. -/
theorem sourcePath_relativeTo {plan : BuildPlan} {base : String} {names : List String} {i : Nat}
    (hbase : base ≠ "") (hnames : ∀ n ∈ names, Disk.IsPlainName n)
    (hroot : Disk.IsRootOf plan.request.sourceRoot names)
    (hsource : plan.request.sources[i]? = some (Disk.ofNames names)) :
    sourcePath (Disk.ofNames names) plan.request.sourceRoot =
        (placeOf (Disk.ofNames (Disk.namesBelow plan.request.sourceRoot names))).mapError
          (.sourcePath (Disk.ofNames names)) ∧
      ∃ moved, (plan.relativeTo base).request.sources[i]? = some moved ∧
        sourcePath moved (plan.relativeTo base).request.sourceRoot =
          (placeOf (Disk.ofNames (Disk.namesBelow plan.request.sourceRoot names))).mapError
            (.sourcePath moved) := by
  constructor
  · rw [sourcePath_eq, Disk.getD_strip_ofNames hnames hroot]
  · refine ⟨Disk.join base (Disk.ofNames names), ?_, ?_⟩
    · rw [relativeTo, List.getElem?_map, hsource]
      rfl
    · rw [sourcePath_eq, relativeTo, Disk.strip_join_of_isRootOf hbase hnames hroot]
      rfl

/-- A source below the root `src`, one of its slashes a backslash, has one place in the tree, also in
the plan seen from `work`. -/
theorem sourcePath_relativeTo_work :
    let plan : BuildPlan := { request := { sourceRoot := "src/", sources := ["src/util\\str.ts"] } }
    ∃ moved, (plan.relativeTo "work").request.sources[0]? = some moved ∧
      (sourcePath moved (plan.relativeTo "work").request.sourceRoot).map (·.text) =
        .ok "/util/str.ts" := by
  intro plan
  have hbase : "work" ≠ "" := by decide
  have hnames : ∀ n ∈ ["src", "util\\str.ts"], Disk.IsPlainName n := by
    intro n hn
    fin_cases hn <;> exact ⟨⟨by decide, by decide, by decide⟩, by decide⟩
  have hroot : Disk.IsRootOf plan.request.sourceRoot ["src", "util\\str.ts"] :=
    Or.inr ⟨[.name "util\\str.ts".toList], by decide +kernel⟩
  have hsource : plan.request.sources[0]? = some (Disk.ofNames ["src", "util\\str.ts"]) := by
    decide +kernel
  have hplace : placeOf (Disk.ofNames
      (Disk.namesBelow plan.request.sourceRoot ["src", "util\\str.ts"])) =
      .ok ⟨"/util/str.ts", by decide⟩ := by
    decide +kernel
  rcases (sourcePath_relativeTo hbase hnames hroot hsource).2 with ⟨moved, hmoved, hmoved_place⟩
  refine ⟨moved, hmoved, ?_⟩
  rw [hmoved_place, hplace]
  rfl

end BuildPlan
end BuildTree
