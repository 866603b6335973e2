import BuildTree.Compress.Inflate
import BuildTree.Digest.Crc32

/-!
# Gzip — compressed files as streams

A gzip file is turned into a stream: the octets that can be read, and whether reading on meets the
end or a fault.  Only the first member counts.  Its checksum and length are compared when its end is
read, so octets before a wrong trailer are still there to be read.
-/

namespace BuildTree

/-- Octets that are read one after the other. -/
structure ByteStream where
  data : Bytes
  /-- Whether reading on behind `data` meets a fault instead of the end. -/
  broken : Bool

namespace Gzip

def magic : Bytes := [0x1F, 0x8B]

def isGzip (bytes : Bytes) : Bool :=
  magic.isPrefixOf bytes

def maxText : Nat := 65535

/-- What stands behind a text that ends in a zero octet. -/
def afterNul (bytes : Bytes) : Option Bytes :=
  let text := bytes.takeWhile (· != 0)
  match bytes.drop text.length with
  | [] => none
  | _ :: rest => if maxText < text.length then none else some rest

/-- What stands behind an extra field: two octets of length, then that many. -/
def afterExtra (bytes : Bytes) : Option Bytes :=
  match bytes with
  | a :: b :: rest =>
      let len := Bytes.toNatLE [a, b]
      if len ≤ rest.length then some (rest.drop len) else none
  | _ => none

/-- What stands behind a checksum of the header before it, if the checksum is right. -/
def afterChecksum (bytes rest : Bytes) : Option Bytes :=
  match rest with
  | a :: b :: after =>
      let header := bytes.take (bytes.length - rest.length)
      if Bytes.toNatLE [a, b] = (Crc32.ofBytes header).toNat % 65536 then some after else none
  | _ => none

/-- What stands behind the header. -/
def afterHeader (bytes : Bytes) : Option Bytes := do
  let method ← bytes[2]?
  let flags ← bytes[3]?
  if method ≠ 8 ∨ flags &&& 0xE0 ≠ 0 ∨ bytes.length < 10 then none
  let rest := bytes.drop 10
  let rest ← if flags &&& 0x04 ≠ 0 then afterExtra rest else some rest
  let rest ← if flags &&& 0x08 ≠ 0 then afterNul rest else some rest
  let rest ← if flags &&& 0x10 ≠ 0 then afterNul rest else some rest
  if flags &&& 0x02 ≠ 0 then afterChecksum bytes rest else some rest

/-- A file is taken in chunks of this many octets. -/
def chunkSize : Nat := 32768

/-- Decompressed octets go through a window of this many. -/
def windowSize : Nat := 32768

/-- How many octets can be read before a fault.  A run decompresses up to the end of the window or
of the chunk, and a fault takes with it all that its run gave.  `offset` octets of the file are in
front of the body, `faulty` octets of the body show the fault, and `before` octets were
decompressed in front of it. -/
def readable (body : Bytes) (offset faulty before : Nat) : Nat :=
  let chunk := (offset + faulty - 1) / chunkSize * chunkSize
  max ((before - 1) / windowSize * windowSize)
    (Inflate.inflate (body.take (chunk - offset))).output.size

/-- Whether a trailer holds the checksum and the length of the decompressed octets. -/
def trailerMatches (trailer output : Bytes) : Bool :=
  trailer.take 8 ==
    Bytes.littleEndian 4 (Crc32.ofBytes output).toNat ++ Bytes.littleEndian 4 output.length

/-- The stream of a gzip file. -/
def stream (bytes : Bytes) : ByteStream :=
  match afterHeader bytes with
  | none => ⟨[], true⟩
  | some body =>
      let result := Inflate.inflate body
      let output := result.output.toList
      match result.ending with
      | .finished octets => ⟨output, !trailerMatches (body.drop octets) output⟩
      | .truncated => ⟨output, true⟩
      | .corrupt faulty =>
          ⟨output.take (readable body (bytes.length - body.length) faulty output.length), true⟩

end Gzip
end BuildTree
