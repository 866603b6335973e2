import BuildTree.Digest.Xxh3
import BuildTree.Json.Basic
import BuildTree.Text.Summary
import Std.Data.ExtTreeMap

/-!
# Content keys — keys made from several byte strings

The parts are written one after the other, each behind its length in eight octets, so that no two
lists of parts are written alike; the key is the digest of what was written.
-/

namespace BuildTree

/-- A key of sixteen octets. -/
structure ContentKey where
  octets : Bytes
  length_eq : octets.length = 16
  deriving DecidableEq

namespace ContentKey

/-- What is digested for a list of parts. -/
def stream (parts : List Bytes) : Bytes :=
  parts.flatMap fun part => Bytes.littleEndian 8 part.length ++ part

def ofParts (parts : List Bytes) : ContentKey :=
  ⟨(Xxh3.digest (stream parts)).octets, by simp [Xxh3.Word128.octets]⟩

/-- The key with the given octets, of which there have to be sixteen. -/
def ofOctets? (octets : Bytes) : Option ContentKey :=
  if h : octets.length = 16 then some ⟨octets, h⟩ else none

/-- The octets as 32 hexadecimal digits. -/
def display (key : ContentKey) : String :=
  Bytes.hex key.octets

/-- A key shown by its first two octets. -/
def summary (key : ContentKey) : String :=
  Summary.wrapped "ContentHash" (Bytes.hex (key.octets.take 2) ++ "..")

/-- A key as JSON: the numbers of its octets. -/
def toJson (key : ContentKey) : Json :=
  .array (key.octets.map fun b => .number (.natural b.toNat))

def octetOfJson? (value : Json) : Option UInt8 :=
  value.natural?.bind fun n => if n < 256 then some (UInt8.ofNat n) else none

def ofJson? (value : Json) : Option ContentKey :=
  (value.array?.bind (·.mapM octetOfJson?)).bind ofOctets?

instance : Ord ContentKey := ⟨fun a b => compare a.octets b.octets⟩

instance : Std.TransOrd ContentKey where
  eq_swap {a b} := Std.OrientedOrd.eq_swap (a := a.octets) (b := b.octets)
  isLE_trans {a b c} := Std.TransOrd.isLE_trans (a := a.octets) (b := b.octets) (c := c.octets)

instance : Std.LawfulEqOrd ContentKey where
  eq_of_compare {a b} h := by
    have : a.octets = b.octets := Std.LawfulEqOrd.eq_of_compare h
    cases a
    cases b
    simp_all

end ContentKey
end BuildTree
