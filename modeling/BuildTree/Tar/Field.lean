import BuildTree.Bytes
import BuildTree.Text.Lines
import BuildTree.Text.Utf8

/-!
# Header fields — numbers in a tar header

A number is written as octal digits up to a NUL.  When it is read, blanks around the digits and a
plus sign in front do not matter, and a field whose first octet has its top bit set holds the number
itself in its last eight octets.
-/

namespace BuildTree
namespace Tar

/-- The size of a block: headers take one, and contents are padded to whole ones. -/
def blockSize : Nat := 512

/-- The greatest number that sizes and offsets can have. -/
def maxOffset : Nat := 18446744073709551615

/-- A number as octal digits with leading zeros, in a field of `width` octets with a NUL at its
end. -/
def octal (width n : Nat) : Bytes :=
  digits (width - 1) n ++ [0]
where
  digits : Nat → Nat → Bytes
    | 0, _ => []
    | width + 1, n => digits width (n / 8) ++ [UInt8.ofNat (48 + n % 8)]

/-- A number in a field of `width` octets: in octal if its digits have room there, else as it is in
the last eight octets, with the top bit of the first octet set. -/
def numeric (width n : Nat) : Bytes :=
  if n < Nat.pow 8 (width - 1) then octal width n
  else 0x80 :: (Bytes.zeros (width - 9) ++ (Bytes.littleEndian 8 n).reverse)

/-- The value of octal digits, of which there has to be one. -/
def octalDigits? : List Char → Option Nat
  | [] => none
  | ds =>
      ds.foldl (fun acc c =>
        acc.bind fun n =>
          if '0' ≤ c ∧ c ≤ '7' then some (8 * n + (c.toNat - 48)) else none) (some 0)

def octal? (field : Bytes) : Option Nat :=
  match Utf8.decode? (Bytes.untilNul field) with
  | none => none
  | some text =>
      let n? := match Text.trim text.toList with
        | '+' :: ds => octalDigits? ds
        | ds => octalDigits? ds
      n?.filter (· ≤ maxOffset)

/-- The number that a field holds, in octal or as it is. -/
def number? (field : Bytes) : Option Nat :=
  match field with
  | [] => none
  | b :: _ =>
      if b &&& 0x80 ≠ 0 then some (Bytes.toNatBE (field.drop (field.length - 8)))
      else octal? field

/-- The length of some contents with their padding. -/
def paddedLength (n : Nat) : Nat :=
  (n + (blockSize - 1)) / blockSize * blockSize

/-- The zeros that pad contents of a length. -/
def padding (n : Nat) : Bytes :=
  Bytes.zeros (paddedLength n - n)

/-- The sum of the octets of a block, the checksum field counted as blanks. -/
def checksum (block : Bytes) : Nat :=
  Bytes.sum (block.take 148 ++ block.drop 156) + 8 * 32

end Tar
end BuildTree
