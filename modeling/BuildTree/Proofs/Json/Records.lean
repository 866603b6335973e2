import BuildTree.Proofs.Calls
import BuildTree.Proofs.Json.RoundTrip

/-!
# JSON records — fields are read back from members

A record is written as an object without the fields that say nothing.  If no two fields have one
name, the reader of a record finds each of them, and takes one that was left out for a field that
says nothing.
-/

namespace BuildTree
namespace Json

/-- Texts are read back from an array of them. -/
theorem strings?_map_string (texts : List String) :
    (Json.array (texts.map .string)).strings? = some texts := by
  have hread : ∀ text, (Json.string text).string? = some text := fun _ => rfl
  exact mapM_map_eq_some hread texts

section Records

variable {fields : List (String × Option Json)}

/-- The members of a record: its fields without those that are left out. -/
def membersOf (fields : List (String × Option Json)) : List (String × Json) :=
  fields.filterMap fun field => field.2.map (field.1, ·)

theorem plain_membersOf (h : ∀ field ∈ fields, ∀ value ∈ field.2, value.Plain) :
    (Json.object (membersOf fields)).Plain := by
  refine .object fun member hmember => ?_
  rcases List.mem_filterMap.1 hmember with ⟨field, hfield, hvalue⟩
  rcases Option.map_eq_some_iff.1 hvalue with ⟨value, hheld, rfl⟩
  exact h field hfield value hheld

theorem filter_membersOf_of_notMem {name : String} (h : name ∉ fields.map Prod.fst) :
    (membersOf fields).filter (·.1 == name) = [] := by
  rw [List.filter_eq_nil_iff]
  intro member hmember
  rcases List.mem_filterMap.1 hmember with ⟨field, hfield, hvalue⟩
  rcases Option.map_eq_some_iff.1 hvalue with ⟨value, -, rfl⟩
  simp only [beq_iff_eq]
  rintro rfl
  exact h (List.mem_map_of_mem hfield)

/-- A field is found among the members of its record, or found to be left out. -/
theorem uniqueMember?_membersOf (h : (fields.map Prod.fst).Nodup) {field : String × Option Json}
    (hfield : field ∈ fields) : uniqueMember? (membersOf fields) field.1 = some field.2 := by
  suffices hfound : (membersOf fields).filter (·.1 == field.1) =
      field.2.toList.map (field.1, ·) by
    rw [uniqueMember?, hfound]
    cases field.2 <;> rfl
  induction fields with
  | nil => cases hfield
  | cons first fields ih =>
    rw [List.map_cons, List.nodup_cons] at h
    have hmembers : membersOf (first :: fields) =
        first.2.toList.map (first.1, ·) ++ membersOf fields := by
      rw [membersOf, List.filterMap_cons]
      cases first.2 <;> rfl
    rw [hmembers, List.filter_append]
    rcases List.mem_cons.1 hfield with rfl | hlater
    · -- No other field has the name, so only this one can be found.
      rw [filter_membersOf_of_notMem h.1, List.append_nil]
      cases field.2 <;> simp
    · have hne : first.1 ≠ field.1 := by
        intro heq
        exact h.1 (heq ▸ List.mem_map_of_mem hlater)
      rw [ih h.2 hlater]
      cases first.2 <;> simp [hne]

/-- A record is read back from its members. -/
theorem record?_membersOf (h : (fields.map Prod.fst).Nodup) :
    record? (fields.map Prod.fst) (.object (membersOf fields)) = some (fields.map Prod.snd) := by
  have hread : ∀ chosen : List (String × Option Json), (∀ field ∈ chosen, field ∈ fields) →
      (chosen.map Prod.fst).mapM (uniqueMember? (membersOf fields)) =
        some (chosen.map Prod.snd) := by
    intro chosen hmem
    induction chosen with
    | nil => rfl
    | cons field more ih =>
      have hmore := ih fun other hother => hmem other (List.mem_cons_of_mem field hother)
      rw [List.map_cons, List.mapM_cons, uniqueMember?_membersOf h (hmem field List.mem_cons_self),
        hmore]
      rfl
  exact hread fields fun _ hfield => hfield

end Records

end Json
end BuildTree
