import BuildTree.Finding.Forms
import BuildTree.Proofs.Json.OneLine
import BuildTree.Proofs.Json.Records

/-!
# Findings on one line — a finding is one line of JSON, and the line tells which

The line of a finding leaves out the fields that say nothing, and the reader takes a field that is
left out for one that says nothing.  So every finding is read back from its line, and the line has no
control characters, whatever the texts of the finding hold.
-/

namespace BuildTree
namespace Finding

open Json

theorem ofName?_name (severity : Severity) : Severity.ofName? severity.name = some severity := by
  cases severity <;> decide

theorem codeFamily_ofName?_name (family : CodeFamily) :
    CodeFamily.ofName? family.name = some family := by
  cases family <;> decide

/-- Texts as a field, which is left out if there are none. -/
def textsField (texts : List String) : Option Json :=
  if texts.isEmpty then none else some (.array (texts.map .string))

theorem textsOfJson?_textsField (texts : List String) :
    textsOfJson? (textsField texts) = some texts := by
  cases texts with
  | nil => rfl
  | cons text texts => exact strings?_map_string (text :: texts)

/-! ## Codes -/

/-- The fields of a code. -/
def codeFields (code : FindingCode) : List (String × Option Json) :=
  [("category", some (.string code.family.name)),
    ("number", some (.number (.natural code.number.toNat)))]

theorem codeOfJson?_codeFields (code : FindingCode) :
    codeOfJson? (.object (membersOf (codeFields code))) = some code := by
  have hrecord : record? ["category", "number"] (.object (membersOf (codeFields code))) =
      some ((codeFields code).map Prod.snd) :=
    record?_membersOf (by decide : (["category", "number"] : List String).Nodup)
  have hnumber : UInt16.ofNat code.number.toNat = code.number := UInt16.ofNat_toNat
  have hlt : code.number.toNat < 65536 := code.number.toNat_lt
  rw [codeOfJson?, hrecord]
  simp [codeFields, choice?, natural?, codeFamily_ofName?_name, hnumber, hlt]

theorem plain_codeFields (code : FindingCode) :
    (Json.object (membersOf (codeFields code))).Plain := by
  refine plain_membersOf fun field hfield value hvalue => ?_
  simp only [codeFields, List.mem_cons, List.not_mem_nil, or_false] at hfield
  rcases hfield with rfl | rfl
  · cases hvalue
    exact .string code.family.name
  · cases hvalue
    exact .natural code.number.toNat

/-! ## Findings -/

/-- The fields of a finding, with those that may say nothing at the end. -/
def fields (d : Finding) : List (String × Option Json) :=
  [("severity", some (.string d.severity.name)),
    ("code", some (.object (membersOf (codeFields d.code)))),
    ("message", some (.string d.message)),
    ("file", d.file.map .string),
    ("notes", textsField d.notes),
    ("help", textsField d.help)]

theorem toJson_eq (d : Finding) : d.toJson = .object (membersOf d.fields) := by
  have hlist : ∀ name texts, listMember name texts =
      ((textsField texts).map fun value => (name, value)).toList := by
    intro name texts
    cases texts <;> rfl
  simp only [toJson, hlist, fields, membersOf]
  cases d.file <;> cases textsField d.notes <;> cases textsField d.help <;> rfl

theorem ofJson?_toJson (d : Finding) : ofJson? d.toJson = some d := by
  have hrecord : record? ["severity", "code", "message", "file", "notes", "help"] d.toJson =
      some (d.fields.map Prod.snd) := by
    rw [toJson_eq]
    exact record?_membersOf
      (by decide : (["severity", "code", "message", "file", "notes", "help"] : List String).Nodup)
  have hfile : optionalString? (d.file.map .string) = some d.file := by
    cases d.file <;> rfl
  rw [ofJson?, hrecord]
  simp [fields, Severity.ofJson?, choice?, ofName?_name, string?, codeOfJson?_codeFields, hfile,
    textsOfJson?_textsField]

theorem plain_of_mem_textsField {texts : List String} {value : Json}
    (h : value ∈ textsField texts) : value.Plain := by
  unfold textsField at h
  split at h
  · cases h
  · cases h
    refine .array fun element helement => ?_
    rcases List.mem_map.1 helement with ⟨text, -, rfl⟩
    exact .string text

theorem plain_toJson (d : Finding) : d.toJson.Plain := by
  rw [toJson_eq]
  refine plain_membersOf fun field hfield value hvalue => ?_
  simp only [fields, List.mem_cons, List.not_mem_nil, or_false] at hfield
  rcases hfield with rfl | rfl | rfl | rfl | rfl | rfl
  · cases hvalue
    exact .string d.severity.name
  · cases hvalue
    exact plain_codeFields d.code
  · cases hvalue
    exact .string d.message
  · rcases Option.map_eq_some_iff.1 hvalue with ⟨file, -, rfl⟩
    exact .string file
  · exact plain_of_mem_textsField hvalue
  · exact plain_of_mem_textsField hvalue

/-- Every finding is written on one line without control characters and read back from it, so no two
findings are written alike. -/
theorem jsonLine_framing :
    (∀ d : Finding, (∀ c ∈ d.jsonLine.toList, 0x20 ≤ c.toNat) ∧ parse? d.jsonLine = some d) ∧
      Function.Injective jsonLine := by
  have hread : ∀ d : Finding, parse? d.jsonLine = some d := by
    intro d
    rw [parse?, jsonLine, parse_compact d.plain_toJson, Option.bind_some, ofJson?_toJson]
  refine ⟨fun d => ⟨?_, hread d⟩, ?_⟩
  · rw [jsonLine, compact, String.toList_ofList]
    exact d.plain_toJson.isPrintable
  · intro first second heq
    have hboth := hread first
    rw [heq, hread second] at hboth
    exact (Option.some.inj hboth).symm

end Finding
end BuildTree
