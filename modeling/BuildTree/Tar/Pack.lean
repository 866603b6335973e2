import BuildTree.Path.Disk
import BuildTree.Tar.Error
import BuildTree.Tar.Field

/-!
# Packing — files written as archives

A file becomes a fragment: a header, its contents, and zeros up to a whole block.  Fragments one
after the other form an archive.  The header holds the name by components if it fits; a longer name
goes into an extension entry in front, and the header holds as much of it as fits.
-/

namespace BuildTree
namespace Tar

def nameWidth : Nat := 100

/-- A text in a field of `width` octets, filled up with zeros. -/
def field (width : Nat) (content : Bytes) : Bytes :=
  content ++ Bytes.zeros (width - content.length)

/-- A header block in which the checksum is still to be filled in: what stands before it and what
stands behind it. -/
structure HeaderParts where
  before : Bytes
  after : Bytes

def headerParts (name owner : Bytes) (size : Nat) (kind : UInt8) : HeaderParts where
  before := field nameWidth name ++ octal 8 0o644 ++ owner ++ numeric 12 size ++ octal 12 0
  after := field 101 [kind] ++ field 255 (Bytes.ofString "ustar  ")

def HeaderParts.block (parts : HeaderParts) : Bytes :=
  let sum := Bytes.sum (parts.before ++ parts.after) + 8 * 32
  parts.before ++ octal 8 sum ++ parts.after

/-- The header of a regular file; it names no owner. -/
def fileHeader (name : Bytes) (size : Nat) : Bytes :=
  (headerParts name (Bytes.zeros 16) size 0).block

/-- The name of the entries that hold a long name. -/
def longNameMarker : Bytes :=
  Bytes.ofString "././@LongLink"

/-- The entry in front of a file whose name is too long for a header: the name and a NUL. -/
def longNameEntry (name : Bytes) : Bytes :=
  let content := name ++ [0]
  (headerParts longNameMarker (octal 8 0 ++ octal 8 0) content.length 'L'.toUInt8).block ++
    content ++ padding content.length

/-! ## Names -/

/-- The octets of a component as it is written. -/
def componentText : Disk.Component → Bytes
  | .root => ['/'.toUInt8]
  | .here => ['.'.toUInt8]
  | .up => Bytes.ofString ".."
  | .name s => s.flatMap String.utf8EncodeChar

/-- The components that are written: a `.` only if it is the only one. -/
def writtenComponents (components : List Disk.Component) : List Disk.Component :=
  if components = [.here] then components else components.filter (· != .here)

def slash : Bytes :=
  ['/'.toUInt8]

/-- The pieces of the component at a place among `count` others: its text, behind a slash unless it
is the first.  The last component may be `..` only if the name was cut off behind it. -/
def componentPieces (cut : Bool) (count : Nat) (component : Disk.Component) (place : Nat) :
    List (Except BlockError Bytes) :=
  if component = .root ∨ (component = .up ∧ !(cut && place + 1 == count)) then
    [.error .parentComponent]
  else if place = 0 then [.ok (componentText component)]
  else [.ok slash, .ok (componentText component)]

/-- The pieces of a name as they are written: those of its components, and a slash behind if the
name has one. -/
def namePieces (name : String) (cut : Bool) : List (Except BlockError Bytes) :=
  let written := writtenComponents (Disk.components name)
  let pieces := written.zipIdx.flatMap fun entry =>
    componentPieces cut written.length entry.1 entry.2
  if written = [] then [.error .noComponent]
  else if name.toList.getLast? = some '/' then pieces ++ [.ok slash]
  else pieces

/-- What pieces put into a field of some room, and the fault that ends them. -/
def writePieces : (room : Nat) → List (Except BlockError Bytes) → Bytes × Option BlockError
  | _, [] => ([], none)
  | _, .error err :: _ => ([], some err)
  | room, .ok piece :: pieces =>
      if room < piece.length then ([], some .nameTooLong)
      else if piece.contains 0 then ([], some .nulInName)
      else
        let (text, fault) := writePieces (room - piece.length) pieces
        (piece ++ text, fault)

/-- A field in which a text with a NUL behind it goes over what was there. -/
def overwrite (field text : Bytes) : Bytes :=
  let text := text ++ [0]
  (text ++ field.drop text.length).take field.length

/-- A name field over which a name is written, and the fault that ends the name. -/
def writeName (field : Bytes) (name : String) (cut : Bool) : Bytes × Option BlockError :=
  let (text, fault) := writePieces field.length (namePieces name cut)
  (overwrite field text, fault)

/-- The longest leading part of a text that has at most `room` octets. -/
def fitting (room : Nat) : List Char → List Char
  | [] => []
  | c :: cs =>
      let width := (String.utf8EncodeChar c).length
      if width ≤ room then c :: fitting (room - width) cs else []

/-- What stands in front of a file's contents. -/
def headers (name : String) (size : Nat) : Except BlockError Bytes :=
  match writeName (Bytes.zeros nameWidth) name false with
  | (field, none) => .ok (fileHeader field size)
  | (field, some err) =>
      let octets := Bytes.ofString name
      if octets.length < nameWidth then .error err
      else
        match writeName field (String.ofList (fitting nameWidth name.toList)) true with
        | (_, some err) => .error err
        | (field, none) => .ok (longNameEntry octets ++ fileHeader field size)

/-- The fragment of an archive that holds one file.  Leading slashes of the path are dropped, and
nothing but slashes is no name. -/
def pack (path : String) (data : Bytes) : Except TarError Bytes :=
  let name := Text.dropSlashes path
  if name = "" then .error (.nameless path)
  else
    match headers name data.length with
    | .error err => .error (.io err)
    | .ok front => .ok (front ++ data ++ padding data.length)

end Tar
end BuildTree
