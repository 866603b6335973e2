import BuildTree.FileStore
import BuildTree.Proofs.Calls

/-!
# File stores — a file that was put is there

A name leads through directories only, so a file that is put where there is none changes nothing on
the way to it.  What is put at the place of a name is therefore what the name reads.
-/

namespace BuildTree
namespace FileStore

variable {store : FileStore} {place location : Location} {data : Bytes}

@[simp] theorem node?_root : store.node? [] = some .directory := if_pos rfl

theorem node?_putAt_self (h : place ≠ []) :
    (store.putAt place data).node? place = some (.file data) := by
  rw [node?, if_neg h, putAt, Std.ExtTreeMap.getElem?_insert_self]

theorem node?_putAt_of_ne (h : location ≠ place) :
    (store.putAt place data).node? location = store.node? location := by
  have hcompare : ¬compare place location = .eq := fun heq =>
    h (Std.LawfulEqOrd.eq_of_compare heq).symm
  rw [node?, node?, putAt, Std.ExtTreeMap.getElem?_insert, if_neg hcompare]

/-- Of two files put at one place, the later one counts. -/
@[simp] theorem putAt_putAt (before : Bytes) :
    (store.putAt place before).putAt place data = store.putAt place data := by
  rw [putAt, putAt, putAt, FileStore.mk.injEq]
  refine ⟨rfl, Std.ExtTreeMap.ext_getElem? fun other => ?_⟩
  simp only [Std.ExtTreeMap.getElem?_insert]
  split <;> rfl

theorem appendAt_putAt (h : place ≠ []) (before : Bytes) :
    (store.putAt place before).appendAt place data = store.putAt place (before ++ data) := by
  rw [appendAt, readAt, node?_putAt_self h, putAt_putAt]

/-! ## The way to a file -/

theorem node?_of_step {component : String} (h : store.step location component = .ok place) :
    store.node? location = some .directory := by
  unfold step at h
  split at h
  · cases h
  · cases h
  · assumption

/-- A file in place of no directory blocks no step. -/
theorem step_putAt {component : String} (hplace : store.node? place ≠ some .directory)
    {next : Location} (h : store.step location component = .ok next) :
    (store.putAt place data).step location component = .ok next := by
  have hdirectory := node?_of_step h
  have hne : location ≠ place := fun heq => hplace (heq ▸ hdirectory)
  rw [← h, step, step, node?_putAt_of_ne hne]

theorem follow_cons {component : String} {components : List String} :
    store.follow location (component :: components) =
      (store.step location component).bind (store.follow · components) :=
  rfl

theorem follow_putAt (hplace : store.node? place ≠ some .directory) {components : List String}
    {last : Location} (h : store.follow location components = .ok last) :
    (store.putAt place data).follow location components = .ok last := by
  induction components generalizing location with
  | nil => exact h
  | cons component components ih =>
    rw [follow_cons] at h ⊢
    cases hstep : store.step location component with
    | error err =>
      rw [hstep] at h
      cases h
    | ok next =>
      rw [hstep] at h
      rw [step_putAt hplace hstep]
      exact ih h

theorem follow_concat {components : List String} {component : String} :
    store.follow location (components ++ [component]) =
      (store.follow location components).bind (store.step · component) := by
  simp only [follow, List.foldlM_append, List.foldlM_cons, List.foldlM_nil, bind_pure]
  rfl

/-- The place of a file to be created lies at the end of its name and is no directory. -/
theorem placeFor_eq_ok {name : String} (h : store.placeFor name = .ok place) :
    ∃ parsed, store.parseName name = .ok parsed ∧ parsed.wantsDirectory = false ∧
      store.follow parsed.start parsed.components = .ok place ∧
      store.node? place ≠ some .directory := by
  unfold placeFor at h
  cases hparsed : store.parseName name with
  | error err =>
    rw [hparsed] at h
    cases h
  | ok parsed =>
    rw [hparsed] at h
    simp only [bind, Except.bind] at h
    split at h
    · cases h
    · rename_i last hlast
      -- The last component is followed like those in front of it.
      have hcomponents : parsed.components = parsed.components.dropLast ++ [last] :=
        (List.dropLast_append_getLast? last hlast).symm
      cases hdirectory : store.follow parsed.start parsed.components.dropLast with
      | error err => simp [hdirectory] at h
      | ok directory =>
        cases hstep : store.step directory last with
        | error err => simp [hdirectory, hstep] at h
        | ok next =>
          simp only [hdirectory, hstep] at h
          split at h
          · cases h
          · rename_i hwants
            split at h
            · cases h
            · rename_i hnode
              cases h
              refine ⟨parsed, rfl, Bool.eq_false_iff.2 hwants, ?_, hnode⟩
              rw [hcomponents, follow_concat, hdirectory]
              exact hstep

theorem ne_root_of_placeFor {name : String} (h : store.placeFor name = .ok place) : place ≠ [] := by
  rcases placeFor_eq_ok h with ⟨-, -, -, -, hplace⟩
  rintro rfl
  exact hplace node?_root

/-- What is put at the place of a name is what the name reads. -/
theorem read_putAt {name : String} (h : store.placeFor name = .ok place) :
    (store.putAt place data).read name = .ok data := by
  rcases placeFor_eq_ok h with ⟨parsed, hparsed, hfile, hfollow, hplace⟩
  have hfind : (store.putAt place data).find name = .ok (place, .file data) := by
    have hparsed' : (store.putAt place data).parseName name = .ok parsed := hparsed
    rw [find, hparsed']
    simp only [bind, Except.bind, follow_putAt hplace hfollow, 
      node?_putAt_self (ne_root_of_placeFor h), hfile]
    rfl
  rw [read, hfind]

theorem create_eq_ok_iff {name : String} {after : FileStore} :
    store.create name = .ok (place, after) ↔
      store.placeFor name = .ok place ∧ after = store.putAt place [] := by
  rw [create, map_eq_ok_iff]
  constructor
  · rintro ⟨location, hplace, hcreated⟩
    cases hcreated
    exact ⟨hplace, rfl⟩
  · rintro ⟨hplace, rfl⟩
    exact ⟨place, hplace, rfl⟩

end FileStore
end BuildTree
