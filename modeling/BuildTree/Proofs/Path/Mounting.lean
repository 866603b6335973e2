import BuildTree.Proofs.Path.Grammar

/-!
# Mounting — where a path lies and what is seen of it

Mounting puts the names of the mount point in front of those of a path, so it is associative and the
root changes nothing.  Looking from a mount point is division from the left: it finds the one path
that was mounted there, and nothing where the names of the mount point do not come first.  To look
from a mount point below another one is to look from the outer one and then from the inner one.
-/

namespace BuildTree
namespace Path

section Mounting

variable {mountPoint further inner path : String}

theorem mount_assoc (hmount : error? mountPoint = none) (hfurther : error? further = none)
    (hinner : error? inner = none) :
    mount (mount mountPoint further) inner = mount mountPoint (mount further inner) := by
  rcases exists_names hmount with ⟨above, habove, rfl⟩
  rcases exists_names hfurther with ⟨between, hbetween, rfl⟩
  rcases exists_names hinner with ⟨below, hbelow, rfl⟩
  calc mount (mount (ofNames above) (ofNames between)) (ofNames below)
      = mount (ofNames (above ++ between)) (ofNames below) := by rw [mount_ofNames habove hbetween]
    _ = ofNames (above ++ between ++ below) :=
        mount_ofNames (List.forall_mem_append.2 ⟨habove, hbetween⟩) hbelow
    _ = ofNames (above ++ (between ++ below)) := by rw [List.append_assoc]
    _ = mount (ofNames above) (ofNames (between ++ below)) :=
        (mount_ofNames habove (List.forall_mem_append.2 ⟨hbetween, hbelow⟩)).symm
    _ = mount (ofNames above) (mount (ofNames between) (ofNames below)) := by
        rw [mount_ofNames hbetween hbelow]

/-- Looking from a mount point below another one goes through the outer one. -/
theorem seenFrom?_mount_eq_bind (hpath : error? path = none) (hmount : error? mountPoint = none)
    (hfurther : error? further = none) :
    seenFrom? path (mount mountPoint further) =
      (seenFrom? path mountPoint).bind (seenFrom? · further) := by
  apply Option.ext
  intro seen
  rw [Option.bind_eq_some_iff, seenFrom?_eq_some_iff_mount hpath (error?_mount hmount hfurther)]
  constructor
  · rintro ⟨hseen, hmounted⟩
    have hmiddle : error? (mount further seen) = none := error?_mount hfurther hseen
    rw [mount_assoc hmount hfurther hseen] at hmounted
    exact ⟨mount further seen, (seenFrom?_eq_some_iff_mount hpath hmount).2 ⟨hmiddle, hmounted⟩,
      seenFrom?_mount hfurther hseen⟩
  · rintro ⟨middle, houter, hinner⟩
    rcases (seenFrom?_eq_some_iff_mount hpath hmount).1 houter with ⟨hmiddle, rfl⟩
    rcases (seenFrom?_eq_some_iff_mount hmiddle hfurther).1 hinner with ⟨hseen, rfl⟩
    exact ⟨hseen, mount_assoc hmount hfurther hseen⟩

end Mounting

/-- Nothing is seen of a path just if the names of the mount point are not its first ones. -/
theorem seenFrom?_eq_none_iff (path mountPoint : TreePath) :
    seenFrom? path.text mountPoint.text = none ↔ ¬mountPoint.names <+: path.names := by
  have hseen : (∃ seen, seenFrom? path.text mountPoint.text = some seen) ↔
      mountPoint.names <+: path.names := by
    rw [← path.ofNames_names, ← mountPoint.ofNames_names]
    simp only [seenFrom?_ofNames_eq_some_iff path.isName_of_mem_names mountPoint.isName_of_mem_names]
    constructor
    · rintro ⟨seen, below, hnames, rfl⟩
      exact ⟨below, hnames.symm⟩
    · rintro ⟨below, hnames⟩
      exact ⟨ofNames below, below, hnames.symm, rfl⟩
  rw [← hseen, ← Option.ne_none_iff_exists', not_not]

/-- Looking from a mount point inverts mounting there: it finds every path that was mounted and no
other, it finds none just where the names of the mount point do not come first, and it composes. -/
theorem seenFrom?_inverts_mount (mountPoint inner path further : TreePath) :
    seenFrom? (mount mountPoint.text inner.text) mountPoint.text = some inner.text ∧
      (∀ seen, seenFrom? path.text mountPoint.text = some seen ↔
        validate seen = .ok () ∧ mount mountPoint.text seen = path.text) ∧
      (seenFrom? path.text mountPoint.text = none ↔ ¬mountPoint.names <+: path.names) ∧
      seenFrom? path.text (mount mountPoint.text further.text) =
        (seenFrom? path.text mountPoint.text).bind (seenFrom? · further.text) := by
  refine ⟨seenFrom?_mount mountPoint.wellFormed inner.wellFormed, ?_,
    seenFrom?_eq_none_iff path mountPoint,
    seenFrom?_mount_eq_bind path.wellFormed mountPoint.wellFormed further.wellFormed⟩
  intro seen
  rw [validate_eq_ok_iff]
  exact seenFrom?_eq_some_iff_mount path.wellFormed mountPoint.wellFormed

end Path
end BuildTree
