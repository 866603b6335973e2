import BuildTree.Text.Cp437
import BuildTree.Zip.ExtraField

/-!
# Zip directories — the entries of a zip file

Each end record found, going backwards, is tried.  If the directory that it leads to breaks the
format, the next end record further to the front is tried.  What stands at the entries themselves
is not looked at before they are opened.
-/

namespace BuildTree
namespace Zip

/-- The method of entries whose extra fields tell how they are encrypted. -/
def encryptedMethod : Nat := 99

/-- The directory entry at an offset, and the offset behind it. -/
def entryAt (file : Bytes) (info : DirectoryInfo) (offset : Nat) :
    Except ZipError (DirectoryEntry × Nat) :=
  let nameLength := numberAt file (offset + 28) 2
  let extraLength := numberAt file (offset + 30) 2
  let commentLength := numberAt file (offset + 32) 2
  let stop := offset + 46 + nameLength + extraLength + commentLength
  if file.length < stop ∨ !signatureAt file entrySignature file.length offset then
    .error .badDirectory
  else do
    let flags := numberAt file (offset + 8) 2
    let rawName := file.slice (offset + 46) nameLength
    let extra := file.slice (offset + 46 + nameLength) extraLength
    let comment := file.slice (offset + 46 + nameLength + extraLength) commentLength
    let text (bytes : Bytes) : String :=
      -- Bit 11 says that the texts of the entry are UTF-8.
      if flags.testBit 11 then Utf8.decodeLossy bytes else Cp437.decode bytes
    let entry : DirectoryEntry := {
      name := text rawName
      rawName
      comment := Bytes.ofString (text comment)
      encrypted := flags.testBit 0
      strength? := none
      method := numberAt file (offset + 10) 2
      crc32 := numberAt file (offset + 16) 4
      compressedSize := numberAt file (offset + 20) 4
      uncompressedSize := numberAt file (offset + 24) 4
      headerStart := numberAt file (offset + 42) 4
      fromUnix := numberAt file (offset + 5) 1 == 3
      attributes := numberAt file (offset + 38) 4 }
    let entry ← applyExtra entry extra
    if entry.method = encryptedMethod ∧ entry.strength?.isNone then throw .badDirectory
    if max64 < entry.headerStart + info.shift then throw .badDirectory
    pure ({ entry with headerStart := entry.headerStart + info.shift }, stop)

def entriesAt (file : Bytes) (info : DirectoryInfo) :
    (count offset : Nat) → Except ZipError (List DirectoryEntry)
  | 0, _ => .ok []
  | count + 1, offset =>
      match entryAt file info offset with
      | .error err => .error err
      | .ok (entry, offset) =>
          match entriesAt file info count offset with
          | .error err => .error err
          | .ok entries => .ok (entry :: entries)

/-- Entries with one for each name: the last of several, at the place of the first. -/
def lastOfEach (entries : List DirectoryEntry) : List DirectoryEntry :=
  entries.foldl (fun kept entry =>
    if kept.any (·.name == entry.name) then
      kept.map fun old => if old.name == entry.name then entry else old
    else kept ++ [entry]) []

/-- The entries of the directory that the end record at an offset leads to. -/
def directoryEntriesAt (file : Bytes) (offset : Nat) : Except ZipError (List DirectoryEntry) := do
  let info ← directoryAt file offset
  if info.disk ≠ info.directoryDisk then throw .severalDisks
  entriesAt file info info.entries info.start

/-- The entries of a zip file: of the last end record whose directory can be read. -/
def directory (file : Bytes) : Except ZipError (List DirectoryEntry) :=
  match ((occurrences file endSignature 0 file.length).reverse.findSome? fun offset =>
      (directoryEntriesAt file offset).toOption) with
  | some entries => .ok (lastOfEach entries)
  | none => .error .noDirectory

end Zip
end BuildTree
