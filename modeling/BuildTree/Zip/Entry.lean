import BuildTree.Compress.Inflate
import BuildTree.Zip.Directory

/-!
# Zip entries — the files of a zip file, one after the other

Every entry of the directory is opened in turn.  Opening fails for an entry without a local header,
for an encrypted one, and for one that is compressed in another way than by deflation; reading an
opened entry fails if its compressed stream has no proper end, or if its contents do not have the
checksum that the directory gives.
-/

namespace BuildTree

structure ZipEntry where
  name : String
  isFile : Bool
  /-- The contents, or why they cannot be read. -/
  contents : Except ZipError Bytes

namespace Zip

/-- Where the contents of an entry start: behind its local header. -/
def dataStart (file : Bytes) (entry : DirectoryEntry) : Except ZipError Nat :=
  let start := entry.headerStart
  if start + 30 ≤ file.length ∧ signatureAt file localSignature file.length start then
    .ok (start + 30 + numberAt file (start + 26) 2 + numberAt file (start + 28) 2)
  else .error .badLocalHeader

/-- The decompressed contents of an entry. -/
def decompress (method : Nat) (stored : Bytes) : Except ZipError Bytes :=
  if method = 0 then .ok stored
  else
    let result := Inflate.inflate stored
    match result.ending with
    | .finished _ => .ok result.output.toList
    | _ => .error .corruptData

/-- The contents of an entry, which have to have the right checksum. -/
def contentsOf (file : Bytes) (entry : DirectoryEntry) (start : Nat) : Except ZipError Bytes :=
  match decompress entry.method (file.slice start entry.compressedSize) with
  | .error err => .error err
  | .ok contents =>
      if (Crc32.ofBytes contents).toNat = entry.crc32 then .ok contents else .error .badChecksum

def openEntry (file : Bytes) (entry : DirectoryEntry) : Except ZipError ZipEntry := do
  if entry.encrypted || entry.strength?.isSome then throw .passwordRequired
  let start ← dataStart file entry
  if entry.method ≠ 0 ∧ entry.method ≠ 8 then throw .unsupportedMethod
  pure ⟨entry.name, entry.isFile, contentsOf file entry start⟩

/-- The entries of a zip file, each as far as it can be opened. -/
def entries (file : Bytes) : Except ZipError (List (Except ZipError ZipEntry)) :=
  (directory file).map (·.map (openEntry file))

end Zip
end BuildTree
