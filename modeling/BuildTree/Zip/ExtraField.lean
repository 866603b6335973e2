import BuildTree.Digest.Crc32
import BuildTree.Text.Utf8
import BuildTree.Zip.EndRecord

/-!
# Extra fields — what a zip directory adds to its entries

Behind the name of an entry stands an area of extra fields, each with a kind and a length.  A field
that is known is read by its own layout, which may take it beyond its length.  Where the area ends
inside a field, the fields before it count, and so does what was read of it.
-/

namespace BuildTree
namespace Zip

/-- What the directory says about a file. -/
structure DirectoryEntry where
  name : String
  rawName : Bytes
  /-- The comment in UTF-8. -/
  comment : Bytes
  encrypted : Bool
  /-- The strength of its encryption, if a key of its own is needed. -/
  strength? : Option Nat
  method : Nat
  crc32 : Nat
  compressedSize : Nat
  uncompressedSize : Nat
  headerStart : Nat
  /-- Whether the file was put in by a Unix system. -/
  fromUnix : Bool
  attributes : Nat

namespace DirectoryEntry

def isDirectory (entry : DirectoryEntry) : Bool :=
  match entry.name.toList.getLast? with
  | some c => c == '/' || c == '\\'
  | none => false

def isSymlink (entry : DirectoryEntry) : Bool :=
  entry.fromUnix && (entry.attributes / 65536).toUInt32 &&& 0xA000 == 0xA000

/-- Whether the entry is neither a directory nor a symbolic link. -/
def isFile (entry : DirectoryEntry) : Bool :=
  !entry.isDirectory && !entry.isSymlink

end DirectoryEntry

/-! ## Reading the area -/

/-- An entry, and what is left to read of its extra fields. -/
structure ExtraArea where
  entry : DirectoryEntry
  rest : Bytes

/-- Why extra fields are not read on. -/
inductive ExtraStop
  /-- The area ended; the entry is as it was then. -/
  | cut (entry : DirectoryEntry)
  /-- A field breaks the format. -/
  | fault (error : ZipError)

namespace ExtraArea

def octets (area : ExtraArea) (count : Nat) : Except ExtraStop (Bytes × ExtraArea) :=
  if area.rest.length < count then .error (.cut area.entry)
  else .ok (area.rest.take count, { area with rest := area.rest.drop count })

/-- The next number of the area, least significant octet first. -/
def number (area : ExtraArea) (width : Nat) : Except ExtraStop (Nat × ExtraArea) :=
  (area.octets width).map fun (octets, area) => (Bytes.toNatLE octets, area)

/-- Reads a number of eight octets into the entry, if it is wanted. -/
def wideNumber (area : ExtraArea) (wanted : Bool)
    (put : DirectoryEntry → Nat → DirectoryEntry) : Except ExtraStop ExtraArea := do
  if wanted then
    let (n, area) ← area.number 8
    pure { area with entry := put area.entry n }
  else pure area

/-- Numbers of eight octets: each stands for one that is at its maximum, or all three are there if
the field is long enough. -/
def wideNumbers (area : ExtraArea) (length : Nat) : Except ExtraStop ExtraArea := do
  let all := decide (24 ≤ length)
  let start := area.rest.length
  let area ← area.wideNumber (all || area.entry.uncompressedSize == max32)
    fun entry n => { entry with uncompressedSize := n }
  let area ← area.wideNumber (all || area.entry.compressedSize == max32)
    fun entry n => { entry with compressedSize := n }
  let area ← area.wideNumber (all || area.entry.headerStart == max32)
    fun entry n => { entry with headerStart := n }
  let taken := start - area.rest.length
  if length < taken then throw (.fault .badExtraField)
  let (_, area) ← area.octets (length - taken)
  pure area

/-- Three times of eight octets each, behind a fixed start. -/
def wideTimes (area : ExtraArea) (length : Nat) : Except ExtraStop ExtraArea := do
  if length ≠ 32 then throw (.fault .badExtraField)
  let (_, area) ← area.number 4
  let (tag, area) ← area.number 2
  if tag ≠ 1 then throw (.fault .badExtraField)
  let (size, area) ← area.number 2
  if size ≠ 24 then throw (.fault .badExtraField)
  let (_, area) ← area.octets 24
  pure area

/-- Times of four octets each, of which flags tell which are there; a field of five octets holds
the first of them, whatever its flags say of the others. -/
def times (area : ExtraArea) (length : Nat) : Except ExtraStop ExtraArea := do
  let (flags, area) ← area.number 1
  let count := ((List.range 8).filter flags.testBit).length
  if (length ≠ 5 ∧ length ≠ 1 + 4 * count) ∨ 8 ≤ flags then throw (.fault .badExtraField)
  let (_, area) ← area.octets (if length = 5 then 4 else 4 * count)
  pure area

/-- The encryption of the entry, and how its contents are compressed below it. -/
def encryption (area : ExtraArea) (length : Nat) : Except ExtraStop ExtraArea := do
  if length ≠ 7 then throw (.fault .badExtraField)
  let (version, area) ← area.number 2
  let (vendor, area) ← area.number 2
  let (strength, area) ← area.number 1
  let (method, area) ← area.number 2
  if vendor ≠ 0x4541 ∨ version = 0 ∨ 2 < version ∨ strength = 0 ∨ 3 < strength then
    throw (.fault .badExtraField)
  pure { area with entry := { area.entry with method, strength? := some strength } }

/-- A text in UTF-8 that stands for another one, whose checksum it gives. -/
def textFor (area : ExtraArea) (length : Nat) (plain : Bytes) :
    Except ExtraStop (String × Bytes × ExtraArea) := do
  let (_, area) ← area.number 1
  let (check, area) ← area.number 4
  if length < 5 then throw (.fault .badExtraField)
  let (content, area) ← area.octets (length - 5)
  if check ≠ (Crc32.ofBytes plain).toNat then throw (.fault .badExtraField)
  match Utf8.decode? content with
  | none => throw (.fault .badExtraField)
  | some text => pure (text, content, area)

def field (area : ExtraArea) (kind length : Nat) : Except ExtraStop ExtraArea :=
  if kind = 0x0001 then area.wideNumbers length
  else if kind = 0x000A then area.wideTimes length
  else if kind = 0x5455 then area.times length
  else if kind = 0x9901 then area.encryption length
  else if kind = 0x6375 then
    (area.textFor length area.entry.comment).map fun (_, comment, area) =>
      { area with entry := { area.entry with comment } }
  else if kind = 0x7075 then
    (area.textFor length area.entry.rawName).map fun (name, rawName, area) =>
      { area with entry := { area.entry with name, rawName } }
  else (area.octets length).map (·.2)

def fields : (fuel : Nat) → ExtraArea → Except ExtraStop ExtraArea
  | 0, area => .ok area
  | fuel + 1, area => do
      let (kind, area) ← area.number 2
      let (length, area) ← area.number 2
      fields fuel (← area.field kind length)

end ExtraArea

/-- An entry with what its extra fields change in it. -/
def applyExtra (entry : DirectoryEntry) (extra : Bytes) : Except ZipError DirectoryEntry :=
  match ExtraArea.fields (extra.length + 1) ⟨entry, extra⟩ with
  | .ok area => .ok area.entry
  | .error (.cut entry) => .ok entry
  | .error (.fault err) => .error err

end Zip
end BuildTree
