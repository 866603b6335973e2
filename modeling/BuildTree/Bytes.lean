/-!
# Bytes — byte strings and fixed-width numbers

File contents and archive fragments are lists of octets, so that every format below is stated by
`++`, `take` and `drop`.  This module holds the list type, the UTF-8 octets of a text, and numbers
written in a fixed count of octets with the least significant octet first.
-/

namespace BuildTree

abbrev Bytes := List UInt8

namespace Bytes

/-- The UTF-8 octets of a text. -/
def ofString (s : String) : Bytes :=
  s.toList.flatMap String.utf8EncodeChar

/-- `n` in `width` octets, least significant first; higher octets are dropped. -/
def littleEndian : (width : Nat) → (n : Nat) → Bytes
  | 0, _ => []
  | width + 1, n => UInt8.ofNat (n % 256) :: littleEndian width (n / 256)

/-- The number written by octets, least significant first. -/
def toNatLE : Bytes → Nat
  | [] => 0
  | b :: bs => b.toNat + 256 * toNatLE bs

/-- The number written by octets, most significant first. -/
def toNatBE (bs : Bytes) : Nat :=
  bs.foldl (fun acc b => 256 * acc + b.toNat) 0

def zeros (count : Nat) : Bytes :=
  List.replicate count 0

/-- The `count` octets at `start`, fewer if the string ends before. -/
def slice (bs : Bytes) (start count : Nat) : Bytes :=
  (bs.drop start).take count

/-- The octets before the first zero octet. -/
def untilNul (bs : Bytes) : Bytes :=
  bs.takeWhile (· != 0)

def sum (bs : Bytes) : Nat :=
  bs.foldr (fun b total => b.toNat + total) 0

/-- The two lower-case hexadecimal digits of an octet. -/
def hexOctet (b : UInt8) : List Char :=
  [Nat.digitChar (b.toNat / 16), Nat.digitChar (b.toNat % 16)]

def hex (bs : Bytes) : String :=
  String.ofList (bs.flatMap hexOctet)

@[simp] theorem length_littleEndian (width n : Nat) : (littleEndian width n).length = width := by
  induction width generalizing n with
  | zero => rfl
  | succ width ih => simp [littleEndian, ih]

@[simp] theorem length_zeros (count : Nat) : (zeros count).length = count := by
  simp [zeros]

/-- A piece is cut out of a string by the length of what is in front of it and by its own. -/
theorem slice_append {front piece rest : Bytes} {start count : Nat} (hstart : front.length = start)
    (hcount : piece.length = count) : (front ++ (piece ++ rest)).slice start count = piece := by
  subst hstart hcount
  simp [slice]

theorem mem_of_mem_slice {bs : Bytes} {start count : Nat} {b : UInt8}
    (h : b ∈ bs.slice start count) : b ∈ bs :=
  List.mem_of_mem_drop (List.mem_of_mem_take h)

theorem sum_le (bs : Bytes) : bs.sum ≤ 255 * bs.length := by
  induction bs with
  | nil => exact Nat.le_refl _
  | cons b bs ih =>
      have hb : b.toNat ≤ 255 := Nat.le_of_lt_succ b.toNat_lt
      have hsum : sum (b :: bs) = b.toNat + sum bs := rfl
      rw [hsum, List.length_cons]
      omega

end Bytes

end BuildTree
