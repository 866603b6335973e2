import BuildTree.Compress.Gzip
import BuildTree.Tar.Error
import BuildTree.Tar.Field
import BuildTree.Tree.FileTree

/-!
# Unpacking — archives read as files

An archive is a sequence of headers, each followed by contents that are padded to whole blocks.  It
ends at the first header of zeros, or where the stream ends between two entries.  Extension entries
in front of a member give it a longer name or another size; members that are not regular files are
passed over.  A member that declares more than the stream holds makes the whole archive unreadable,
and so does a name that cannot be mapped into a tree.
-/

namespace BuildTree
namespace Tar

/-! ## Headers -/

def gnuMagic : Bytes := Bytes.ofString "ustar  " ++ [0]

def ustarMagic : Bytes := Bytes.ofString "ustar" ++ [0] ++ Bytes.ofString "00"

structure Header where
  block : Bytes

namespace Header

/-- The octet that tells what kind of entry follows. -/
def kind (header : Header) : UInt8 :=
  (header.block[156]?).getD 0

def isGnu (header : Header) : Bool :=
  header.block.slice 257 8 == gnuMagic

def isUstar (header : Header) : Bool :=
  header.block.slice 257 8 == ustarMagic

def isRegular (header : Header) : Bool :=
  header.kind == 0 || header.kind == '0'.toUInt8

/-- Whether this is an extension entry of a kind; only headers with magic octets can be. -/
def isExtension (header : Header) (kind : Char) : Bool :=
  (header.isGnu || header.isUstar) && header.kind == kind.toUInt8

/-- Whether the kind is one of those that say something about other entries. -/
def extendsOthers (header : Header) : Bool :=
  ['L', 'K', 'x', 'g'].any (header.kind == ·.toUInt8)

def size? (header : Header) : Option Nat :=
  number? (header.block.slice 124 12)

def checksumMatches (header : Header) : Option Bool :=
  (octal? (header.block.slice 148 8)).map (· == checksum header.block)

/-- The name in the header; a POSIX header can have a directory to put in front. -/
def name (header : Header) : Bytes :=
  let name := Bytes.untilNul (header.block.slice 0 100)
  let directory := Bytes.untilNul (header.block.slice 345 155)
  if header.isUstar && !directory.isEmpty then directory ++ '/'.toUInt8 :: name else name

end Header

/-! ## Extensions -/

/-- What the extension entries in front of a member say. -/
structure Extensions where
  longName : Option Bytes
  longLink : Option Bytes
  records : Option Bytes

def Extensions.empty : Extensions := ⟨none, none, none⟩

def Extensions.isPending (ext : Extensions) : Bool :=
  ext.longName.isSome || ext.longLink.isSome || ext.records.isSome

/-- The value of decimal digits, of which there has to be one; a plus sign may stand in front. -/
def decimal? (text : Bytes) : Option Nat :=
  let text := if text.head? = some '+'.toUInt8 then text.drop 1 else text
  match text with
  | [] => none
  | ds =>
      (ds.foldl (fun acc b =>
        acc.bind fun n => if 48 ≤ b ∧ b ≤ 57 then some (10 * n + (b.toNat - 48)) else none)
          (some 0)).filter (· ≤ maxOffset)

/-- A record of a member: its own length, a blank, a key, `=` and a value. -/
def record? (line : Bytes) : Option (Bytes × Bytes) := do
  let length ← if line.contains 32 then decimal? (line.takeWhile (· != 32)) else none
  let rest := (line.dropWhile (· != 32)).drop 1
  if length = line.length + 1 ∧ rest.contains 61 then
    some (rest.takeWhile (· != 61), (rest.dropWhile (· != 61)).drop 1)
  else none

/-- The records of an extension entry: one a line, up to an empty line; `none` for a malformed
one. -/
def recordsOf (data : Bytes) : List (Option (Bytes × Bytes)) :=
  ((data.splitOn 10).takeWhile (!·.isEmpty)).map record?

/-- The first value of a key among well-formed records. -/
def recordValue? (data : Bytes) (key : String) : Option Bytes :=
  ((recordsOf data).filterMap id).lookup (Bytes.ofString key)

/-- The size given by records, unless a malformed record stands before it. -/
def recordSize? (data : Bytes) : Option Nat :=
  match (recordsOf data).find? (fun r => r.all (·.1 == Bytes.ofString "size")) with
  | some (some (_, value)) => decimal? value
  | _ => none

/-- The name of a member: from a long-name entry, else from a record, else from its header. -/
def effectiveName (header : Header) (ext : Extensions) : Bytes :=
  match ext.longName with
  | some name => if name.getLast? = some 0 then name.dropLast else name
  | none => ((ext.records.bind (recordValue? · "path")).getD header.name)

/-- The size of an entry: from a record, else from its header.  Records tell nothing about the
entries that extend others. -/
def effectiveSize (header : Header) (headerSize : Nat) (ext : Extensions) : Nat :=
  if header.extendsOthers then headerSize else (ext.records.bind recordSize?).getD headerSize

/-! ## Sparse files -/

/-- What a sparse file's map has covered: the end of the last piece in the file, and how much of
the contents is left. -/
structure SparseCover where
  covered : Nat
  remaining : Nat

/-- One entry of a sparse file's map, an offset and a length. -/
def SparseCover.add (size : Nat) (cover : SparseCover) (entry : Bytes) :
    Except BlockError SparseCover :=
  if entry.head? = some 0 ∨ (entry.drop 12).head? = some 0 then .ok cover
  else
    match number? (entry.take 12), number? (entry.slice 12 12) with
    | some offset, some length =>
        -- A piece starts on a block of the stored contents, and pieces come in order.
        if (length ≠ 0 ∧ (size - cover.remaining) % blockSize ≠ 0) ∨ offset < cover.covered ∨
            maxOffset < offset + length ∨ cover.remaining < length then .error .sparseMap
        else .ok ⟨offset + length, cover.remaining - length⟩
    | _, _ => .error .number

def SparseCover.addAll (size : Nat) (cover : SparseCover) (count : Nat) (map : Bytes) :
    Except BlockError SparseCover :=
  (List.range count).foldlM (fun cover i => cover.add size (map.slice (24 * i) 24)) cover

/-- Checks the blocks of a map that are behind the header, and gives what is behind them. -/
def sparseBlocks (stream : ByteStream) (size : Nat) :
    (fuel : Nat) → SparseCover → Bytes → Except BlockError (SparseCover × Bytes)
  | 0, _, _ => .error .sparseMap
  | fuel + 1, cover, rest =>
      if rest.length < blockSize then
        .error (if stream.broken then .brokenStream else .incompleteBlock)
      else
        match cover.addAll size 21 (rest.take blockSize) with
        | .error err => .error err
        | .ok cover =>
            if rest[504]? = some 1 then sparseBlocks stream size fuel cover (rest.drop blockSize)
            else .ok (cover, rest.drop blockSize)

/-- Checks the map of a sparse file, which starts in its header, and gives what is behind it. -/
def afterSparseMap (stream : ByteStream) (header : Header) (size : Nat) (rest : Bytes) :
    Except BlockError Bytes := do
  if !header.isGnu then throw .sparseMap
  let cover ← SparseCover.addAll size ⟨0, size⟩ 4 (header.block.slice 386 96)
  let (cover, rest) ←
    if header.block[482]? = some 1 then sparseBlocks stream size (rest.length + 1) cover rest
    else pure (cover, rest)
  match number? (header.block.slice 483 12) with
  | none => throw .number
  | some realSize =>
      if cover.covered ≠ realSize ∨ 0 < cover.remaining then throw .sparseMap else pure rest

/-! ## Entries -/

/-- An entry behind its header: what the header says, and the stream from its contents on. -/
structure Entry where
  header : Header
  size : Nat
  rest : Bytes

/-- What an entry's stream holds once its contents and their padding are passed over. -/
def Entry.skip (entry : Entry) (stream : ByteStream) : Except BlockError Bytes :=
  let length := paddedLength entry.size
  if length ≤ entry.rest.length then .ok (entry.rest.drop length)
  else .error (if stream.broken then .brokenStream else .unexpectedEnd)

/-- The entry at the start of what is left of a stream; `none` at the end of the archive.  The place
behind its contents has to be one that an offset can have. -/
def entryAt (stream : ByteStream) (ext : Extensions) (rest : Bytes) :
    Except BlockError (Option Entry) :=
  if rest.isEmpty && !stream.broken then .ok none
  else if rest.length < blockSize then
    .error (if stream.broken then .brokenStream else .incompleteBlock)
  else
    let start := stream.data.length - rest.length + blockSize
    let header : Header := ⟨rest.take blockSize⟩
    -- One block of zeros ends the archive; what is behind it is not read.
    if header.block.all (· == 0) then .ok none
    else
      match header.checksumMatches with
      | none => .error .number
      | some false => .error .checksum
      | some true =>
          match header.size? with
          | none => .error .number
          | some headerSize =>
              let size := effectiveSize header headerSize ext
              if maxOffset < size + (blockSize - 1) ∨ maxOffset < start + paddedLength size then
                .error .sizeOverflow
              else .ok (some ⟨header, size, rest.drop blockSize⟩)

/-- A member: its entry and what the extension entries in front of it said. -/
structure Member where
  entry : Entry
  extensions : Extensions

/-- The extension that an entry adds to those met so far: `none` if it is a member, an error if it
repeats one. -/
def Extensions.add? (ext : Extensions) (entry : Entry) : Except BlockError (Option Extensions) :=
  let data := entry.rest.take entry.size
  if entry.header.isExtension 'L' then
    if ext.longName.isSome then .error .repeatedExtension
    else .ok (some { ext with longName := some data })
  else if entry.header.isExtension 'K' then
    if ext.longLink.isSome then .error .repeatedExtension
    else .ok (some { ext with longLink := some data })
  else if entry.header.isExtension 'x' then
    if ext.records.isSome then .error .repeatedExtension
    else .ok (some { ext with records := some data })
  else .ok none

/-- The next member of a stream, behind its extension entries; `none` at the end of the archive. -/
def memberAt (stream : ByteStream) : (fuel : Nat) → Extensions → Bytes →
    Except BlockError (Option Member)
  | 0, _, _ => .error .missingMember
  | fuel + 1, ext, rest =>
      match entryAt stream ext rest with
      | .error err => .error err
      -- The archive may not end between an extension and the member it is for.
      | .ok none => if ext.isPending then .error .missingMember else .ok none
      | .ok (some entry) =>
          match ext.add? entry with
          | .error err => .error err
          | .ok none => .ok (some ⟨entry, ext⟩)
          | .ok (some more) =>
              match entry.skip stream with
              | .error err => .error err
              | .ok rest => memberAt stream fuel more rest

/-! ## Files -/

/-- The path of an entry: leading `./` are dropped, then leading slashes, and one is put in
front. -/
def placeOf (name : String) : Except TarError String :=
  match TreePath.ofRelative (String.ofList (Text.dropHere name.toList)) with
  | .ok path => .ok path.text
  | .error cause => .error (.invalidEntry name cause)

def fileOf (stream : ByteStream) (member : Member) : Except TarError (String × Bytes) :=
  let name := Utf8.decodeLossy (effectiveName member.entry.header member.extensions)
  match placeOf name with
  | .error err => .error err
  | .ok path =>
      let size := member.entry.size
      let held := member.entry.rest.length
      if size ≤ held then .ok (path, member.entry.rest.take size)
      else if stream.broken then .error (.io .brokenStream)
      else .error (.shortEntry name size held)

def afterMember (stream : ByteStream) (member : Member) : Except BlockError Bytes :=
  if member.entry.header.kind = 'S'.toUInt8 then
    -- The blocks of the map lie between the header and the contents.
    match afterSparseMap stream member.entry.header member.entry.size member.entry.rest with
    | .error err => .error err
    | .ok rest => ({ member.entry with rest } : Entry).skip stream
  else member.entry.skip stream

def filesFrom (stream : ByteStream) : (fuel : Nat) → Bytes → Except TarError (List (String × Bytes))
  | 0, _ => .ok []
  | fuel + 1, rest =>
      match memberAt stream (rest.length + 1) .empty rest with
      | .error err => .error (.io err)
      | .ok none => .ok []
      | .ok (some member) =>
          match if member.entry.header.isRegular then (fileOf stream member).map some
              else .ok none with
          | .error err => .error err
          | .ok file? =>
              match afterMember stream member with
              | .error err => .error (.io err)
              | .ok rest =>
                  match filesFrom stream fuel rest with
                  | .error err => .error err
                  | .ok files => .ok (file?.toList ++ files)

/-- The stream of an archive that may be compressed. -/
def streamOf (bytes : Bytes) : ByteStream :=
  if Gzip.isGzip bytes then Gzip.stream bytes else ⟨bytes, false⟩

/-- The files of an archive by path; of several entries with one path the last counts. -/
def unpack (bytes : Bytes) : Except TarError FileMap :=
  let stream := streamOf bytes
  (filesFrom stream (stream.data.length + 1) stream.data).map FileMap.ofPairs

end Tar
end BuildTree
