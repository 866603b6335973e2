import BuildTree.Json.Basic

/-!
# Dependency archives — what a request lists
-/

namespace BuildTree

/-- A dependency archive: its file, and the checksum under which what it holds is kept. -/
structure DependencyArchive where
  name : String
  checksum : Option String
  deriving DecidableEq, Repr

namespace DependencyArchive

/-- A dependency archive as JSON; an absent checksum is left out. -/
def toJson (archive : DependencyArchive) : Json :=
  .object (("name", .string archive.name) ::
    archive.checksum.toList.map fun checksum => ("checksum", .string checksum))

def ofJson? (value : Json) : Option DependencyArchive := do
  let [name, checksum] ← value.record? ["name", "checksum"] | none
  pure ⟨← (← name).string?, ← Json.optionalString? checksum⟩

end DependencyArchive
end BuildTree
