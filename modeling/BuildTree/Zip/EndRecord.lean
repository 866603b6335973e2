import BuildTree.Bytes
import BuildTree.Zip.Error

/-!
# End records — where the directory of a zip file is

A zip file is read from its end.  An end record says where the central directory starts, and the
first directory entry found from there on says how far the whole file is shifted: it may have
anything in front.  An end record whose numbers are too small for the file is helped by a wide one,
to which a locator in front of it leads.
-/

namespace BuildTree
namespace Zip

def endSignature : Bytes := [0x50, 0x4B, 5, 6]

def entrySignature : Bytes := [0x50, 0x4B, 1, 2]

def localSignature : Bytes := [0x50, 0x4B, 3, 4]

def locatorSignature : Bytes := [0x50, 0x4B, 6, 7]

def wideEndSignature : Bytes := [0x50, 0x4B, 6, 6]

def max16 : Nat := 0xFFFF

def max32 : Nat := 0xFFFFFFFF

def max64 : Nat := 0xFFFFFFFFFFFFFFFF

/-- The number in `width` octets at an offset, least significant first; zero octets stand behind
the end. -/
def numberAt (file : Bytes) (offset width : Nat) : Nat :=
  Bytes.toNatLE (file.slice offset width)

/-- Whether a signature stands at an offset, in front of `stop`. -/
def signatureAt (file signature : Bytes) (stop offset : Nat) : Bool :=
  decide (offset + signature.length ≤ stop) && signature.isPrefixOf (file.drop offset)

/-- The offsets in `start..stop` at which a signature stands, in ascending order. -/
def occurrences (file signature : Bytes) (start stop : Nat) : List Nat :=
  go signature stop (stop - start) start (file.drop start)
where
  go (signature : Bytes) (stop : Nat) : (fuel offset : Nat) → Bytes → List Nat
    | 0, _, _ => []
    | fuel + 1, offset, rest =>
        let later := go signature stop fuel (offset + 1) (rest.drop 1)
        if offset + signature.length ≤ stop ∧ signature.isPrefixOf rest then offset :: later
        else later

/-! ## End records -/

/-- Where a directory is. -/
structure DirectoryInfo where
  /-- How far the zip file is shifted inside the file. -/
  shift : Nat
  start : Nat
  entries : Nat
  disk : Nat
  directoryDisk : Nat

/-- What the end record at an offset says, or why it does not count. -/
structure EndRecord where
  offset : Nat
  disk : Nat
  directoryDisk : Nat
  entriesHere : Nat
  entries : Nat
  directoryOffset : Nat

/-- The end record at an offset, if it and its comment fit. -/
def endRecordAt? (file : Bytes) (offset : Nat) : Option EndRecord :=
  if offset + 22 ≤ file.length ∧ offset + 22 + numberAt file (offset + 20) 2 ≤ file.length then
    some {
      offset
      disk := numberAt file (offset + 4) 2
      directoryDisk := numberAt file (offset + 6) 2
      entriesHere := numberAt file (offset + 8) 2
      entries := numberAt file (offset + 10) 2
      directoryOffset := numberAt file (offset + 16) 4 }
  else none

/-- The directory of an end record with numbers of ordinary size. -/
def narrowDirectory (file : Bytes) (record : EndRecord) : Except ZipError DirectoryInfo :=
  let info (shift : Nat) : DirectoryInfo := {
    shift
    start := record.directoryOffset + shift
    entries := record.entriesHere
    disk := record.disk
    directoryDisk := record.directoryDisk }
  -- Octets in front of the archive shift its offsets: the first entry found tells by how much, and
  -- the end record if there is none.
  if record.entries = 0 then .ok (info (record.offset - record.directoryOffset))
  else if record.offset ≤ record.directoryOffset then .error .badEndRecord
  else
    match (occurrences file entrySignature record.directoryOffset record.offset).head? with
    | some found => .ok (info (found - record.directoryOffset))
    | none => .error .badEndRecord

/-- An end record for numbers of eight octets. -/
structure WideEndRecord where
  madeBy : Nat
  needed : Nat
  disk : Nat
  directoryDisk : Nat
  entriesHere : Nat
  entries : Nat
  directoryOffset : Nat

/-- The wide end record at an offset, if it ends where its locator starts and agrees with it. -/
def wideRecordAt? (file : Bytes) (locator found : Nat) : Option WideEndRecord :=
  let size := numberAt file (found + 4) 8
  let record : WideEndRecord := {
    madeBy := numberAt file (found + 12) 2
    needed := numberAt file (found + 14) 2
    disk := numberAt file (found + 16) 4
    directoryDisk := numberAt file (found + 20) 4
    entriesHere := numberAt file (found + 24) 8
    entries := numberAt file (found + 32) 8
    directoryOffset := numberAt file (found + 48) 8 }
  if found + 56 ≤ file.length ∧ 44 ≤ size ∧ size + 12 = locator - found ∧
      record.directoryDisk = numberAt file (locator + 4) 4 ∧
      record.entries * 46 + record.directoryOffset ≤ found then some record
  else none

/-- The directory of an end record whose numbers are too great for it, from the wide end record
that the locator in front of it leads to. -/
def wideDirectory (file : Bytes) (locator : Nat) : Except ZipError DirectoryInfo :=
  let wideOffset := numberAt file (locator + 8) 8
  if locator ≤ wideOffset ∨ 1 < numberAt file (locator + 16) 4 then .error .badEndRecord
  else
    -- The locator's offset may be too small by the octets in front of the archive.
    match (occurrences file wideEndSignature wideOffset locator).findSome? fun found =>
        (wideRecordAt? file locator found).map fun record => (found, record) with
    | none => .error .badEndRecord
    | some (found, record) =>
        if record.entries < record.entriesHere ∨ record.madeBy < record.needed then
          .error .badEndRecord
        else .ok {
          shift := found - wideOffset
          start := record.directoryOffset + (found - wideOffset)
          entries := record.entries
          disk := record.disk
          directoryDisk := record.directoryDisk }

/-- The directory that the end record at an offset leads to. -/
def directoryAt (file : Bytes) (offset : Nat) : Except ZipError DirectoryInfo :=
  match endRecordAt? file offset with
  | none => .error .badEndRecord
  | some record =>
      let locator := offset - 20
      if (record.entries = max16 ∨ record.directoryOffset = max32) ∧ 20 ≤ offset ∧
          signatureAt file locatorSignature file.length locator then
        wideDirectory file locator
      else narrowDirectory file record

end Zip
end BuildTree
