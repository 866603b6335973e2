import BuildTree.Bytes

/-!
# XXH3 — a 128-bit digest of a byte string

The XXH3 hash with seed zero and its standard secret, in the variant with 128 bits.  Inputs of up
to 240 octets are mixed as a whole, by rules that depend on the length; longer ones go through
eight accumulators in stripes of 64 octets.  All arithmetic is modulo `2 ^ 64`.
-/

namespace BuildTree
namespace Xxh3

/-- The secret that the input is mixed with. -/
def secret : Array UInt8 := #[
  0xb8, 0xfe, 0x6c, 0x39, 0x23, 0xa4, 0x4b, 0xbe, 0x7c, 0x01, 0x81, 0x2c, 0xf7, 0x21, 0xad, 0x1c,
  0xde, 0xd4, 0x6d, 0xe9, 0x83, 0x90, 0x97, 0xdb, 0x72, 0x40, 0xa4, 0xa4, 0xb7, 0xb3, 0x67, 0x1f,
  0xcb, 0x79, 0xe6, 0x4e, 0xcc, 0xc0, 0xe5, 0x78, 0x82, 0x5a, 0xd0, 0x7d, 0xcc, 0xff, 0x72, 0x21,
  0xb8, 0x08, 0x46, 0x74, 0xf7, 0x43, 0x24, 0x8e, 0xe0, 0x35, 0x90, 0xe6, 0x81, 0x3a, 0x26, 0x4c,
  0x3c, 0x28, 0x52, 0xbb, 0x91, 0xc3, 0x00, 0xcb, 0x88, 0xd0, 0x65, 0x8b, 0x1b, 0x53, 0x2e, 0xa3,
  0x71, 0x64, 0x48, 0x97, 0xa2, 0x0d, 0xf9, 0x4e, 0x38, 0x19, 0xef, 0x46, 0xa9, 0xde, 0xac, 0xd8,
  0xa8, 0xfa, 0x76, 0x3f, 0xe3, 0x9c, 0x34, 0x3f, 0xf9, 0xdc, 0xbb, 0xc7, 0xc7, 0x0b, 0x4f, 0x1d,
  0x8a, 0x51, 0xe0, 0x4b, 0xcd, 0xb4, 0x59, 0x31, 0xc8, 0x9f, 0x7e, 0xc9, 0xd9, 0x78, 0x73, 0x64,
  0xea, 0xc5, 0xac, 0x83, 0x34, 0xd3, 0xeb, 0xc3, 0xc5, 0x81, 0xa0, 0xff, 0xfa, 0x13, 0x63, 0xeb,
  0x17, 0x0d, 0xdd, 0x51, 0xb7, 0xf0, 0xda, 0x49, 0xd3, 0x16, 0x55, 0x26, 0x29, 0xd4, 0x68, 0x9e,
  0x2b, 0x16, 0xbe, 0x58, 0x7d, 0x47, 0xa1, 0xfc, 0x8f, 0xf8, 0xb8, 0xd1, 0x7a, 0xd0, 0x31, 0xce,
  0x45, 0xcb, 0x3a, 0x8f, 0x95, 0x16, 0x04, 0x28, 0xaf, 0xd7, 0xfb, 0xca, 0xbb, 0x4b, 0x40, 0x7e]

def prime32x1 : UInt64 := 0x9E3779B1

def prime32x2 : UInt64 := 0x85EBCA77

def prime32x3 : UInt64 := 0xC2B2AE3D

def prime64x1 : UInt64 := 0x9E3779B185EBCA87

def prime64x2 : UInt64 := 0xC2B2AE3D27D4EB4F

def prime64x3 : UInt64 := 0x165667B19E3779F9

def prime64x4 : UInt64 := 0x85EBCA77C2B2AE63

def prime64x5 : UInt64 := 0x27D4EB2F165667C5

/-- The multiplier of the final mix. -/
def primeMix1 : UInt64 := 0x165667919E3779F9

/-- The multiplier of the final mix of four to eight octets. -/
def primeMix2 : UInt64 := 0x9FB21C651E98DF25

/-- Two words, the less significant one first. -/
structure Word128 where
  low : UInt64
  high : UInt64

/-! ## Words -/

/-- The octet at a position, zero beyond the end. -/
def octet (data : Array UInt8) (i : Nat) : UInt64 :=
  (data.getD i 0).toUInt64

/-- The 32-bit word at a position, least significant octet first. -/
def read32 (data : Array UInt8) (i : Nat) : UInt64 :=
  octet data i ||| (octet data (i + 1) <<< 8) ||| (octet data (i + 2) <<< 16) |||
    (octet data (i + 3) <<< 24)

def read64 (data : Array UInt8) (i : Nat) : UInt64 :=
  read32 data i ||| (read32 data (i + 4) <<< 32)

def half (x : UInt64) : UInt64 :=
  x &&& 0xFFFFFFFF

/-- The octets of a 32-bit word in reverse order. -/
def swap32 (x : UInt64) : UInt64 :=
  let mask : UInt64 := 0xFF
  ((x &&& mask) <<< 24) ||| (((x >>> 8) &&& mask) <<< 16) ||| (((x >>> 16) &&& mask) <<< 8) |||
    ((x >>> 24) &&& mask)

def swap64 (x : UInt64) : UInt64 :=
  (swap32 (half x) <<< 32) ||| swap32 (x >>> 32)

def rotate32 (x : UInt64) (amount : UInt64) : UInt64 :=
  half (x <<< amount) ||| (x >>> (32 - amount))

/-- The full product of two words. -/
def mul128 (x y : UInt64) : Word128 :=
  let product := x.toNat * y.toNat
  ⟨UInt64.ofNat product, UInt64.ofNat (product / 18446744073709551616)⟩

/-- The full product of two words, its halves combined. -/
def mulFold (x y : UInt64) : UInt64 :=
  let product := mul128 x y
  product.low ^^^ product.high

/-- A word combined with itself shifted right. -/
def xorShift (x : UInt64) (amount : UInt64) : UInt64 :=
  x ^^^ (x >>> amount)

/-- The final mix of the long-input rules. -/
def avalanche (x : UInt64) : UInt64 :=
  xorShift (xorShift x 37 * primeMix1) 32

/-- The final mix of the rules for at most three octets. -/
def avalancheShort (x : UInt64) : UInt64 :=
  xorShift (xorShift (xorShift x 33 * prime64x2) 29 * prime64x3) 32

/-! ## Short inputs -/

def digestEmpty : Word128 :=
  ⟨avalancheShort (read64 secret 64 ^^^ read64 secret 72),
    avalancheShort (read64 secret 80 ^^^ read64 secret 88)⟩

def digestTo3 (data : Array UInt8) : Word128 :=
  let len := data.size
  let low := (octet data 0 <<< 16) ||| (octet data (len / 2) <<< 24) ||| octet data (len - 1) |||
    (UInt64.ofNat len <<< 8)
  let high := rotate32 (swap32 low) 13
  ⟨avalancheShort (low ^^^ (read32 secret 0 ^^^ read32 secret 4)),
    avalancheShort (high ^^^ (read32 secret 8 ^^^ read32 secret 12))⟩

def digestTo8 (data : Array UInt8) : Word128 :=
  let len := data.size
  let input := read32 data 0 + (read32 data (len - 4) <<< 32)
  let keyed := input ^^^ (read64 secret 16 ^^^ read64 secret 24)
  let m := mul128 keyed (prime64x1 + (UInt64.ofNat len <<< 2))
  let high := m.high + (m.low <<< 1)
  let low := m.low ^^^ (high >>> 3)
  ⟨xorShift (xorShift low 35 * primeMix2) 28, avalanche high⟩

def digestTo16 (data : Array UInt8) : Word128 :=
  let len := data.size
  let inputLow := read64 data 0
  let inputHigh := read64 data (len - 8)
  let m := mul128 (inputLow ^^^ inputHigh ^^^ (read64 secret 32 ^^^ read64 secret 40)) prime64x1
  let low := m.low + (UInt64.ofNat (len - 1) <<< 54)
  let keyed := inputHigh ^^^ (read64 secret 48 ^^^ read64 secret 56)
  let high := m.high + (keyed + half keyed * (prime32x2 - 1))
  let h := mul128 (low ^^^ swap64 high) prime64x2
  ⟨avalanche h.low, avalanche (h.high + high * prime64x2)⟩

/-! ## Medium inputs -/

/-- Sixteen octets of input mixed with sixteen of the secret. -/
def mix16 (data : Array UInt8) (i s : Nat) : UInt64 :=
  mulFold (read64 data i ^^^ read64 secret s) (read64 data (i + 8) ^^^ read64 secret (s + 8))

/-- Two runs of sixteen octets mixed into the accumulator. -/
def mix32 (data : Array UInt8) (acc : Word128) (i j s : Nat) : Word128 :=
  ⟨(acc.low + mix16 data i s) ^^^ (read64 data j + read64 data (j + 8)),
    (acc.high + mix16 data j (s + 16)) ^^^ (read64 data i + read64 data (i + 8))⟩

/-- The digest that a medium-sized input's accumulator ends in. -/
def finishMedium (len : Nat) (acc : Word128) : Word128 :=
  ⟨avalanche (acc.low + acc.high),
    0 - avalanche (acc.low * prime64x1 + acc.high * prime64x4 + UInt64.ofNat len * prime64x2)⟩

/-- The accumulator of a medium-sized input before it is mixed. -/
def startMedium (len : Nat) : Word128 :=
  ⟨UInt64.ofNat len * prime64x1, 0⟩

/-- The digest of 17 to 128 octets: pairs of runs from both ends, the innermost first. -/
def digestTo128 (data : Array UInt8) : Word128 :=
  let len := data.size
  let pairs := (len - 1) / 32
  finishMedium len <| (List.range (pairs + 1)).reverse.foldl
    (fun acc k => mix32 data acc (16 * k) (len - 16 * (k + 1)) (32 * k)) (startMedium len)

/-- The digest of 129 to 240 octets: runs from the start, then the last 32 octets. -/
def digestTo240 (data : Array UInt8) : Word128 :=
  let len := data.size
  let acc := (List.range 4).foldl
    (fun acc k => mix32 data acc (32 * k) (32 * k + 16) (32 * k)) (startMedium len)
  let acc : Word128 := ⟨avalanche acc.low, avalanche acc.high⟩
  let acc := (List.range (len / 32 - 4)).foldl
    (fun acc k => mix32 data acc (32 * (k + 4)) (32 * (k + 4) + 16) (3 + 32 * k)) acc
  finishMedium len (mix32 data acc (len - 16) (len - 32) 103)

/-! ## Long inputs -/

def startLong : Array UInt64 :=
  #[prime32x3, prime64x1, prime64x2, prime64x3, prime64x4, prime32x2, prime64x5, prime32x1]

/-- One stripe of 64 octets, added to the accumulators. -/
def addStripe (data : Array UInt8) (i s : Nat) (acc : Array UInt64) : Array UInt64 :=
  (List.range 8).foldl (fun acc k =>
    let value := read64 data (i + 8 * k)
    let key := value ^^^ read64 secret (s + 8 * k)
    let acc := acc.modify (k ^^^ 1) (· + value)
    acc.modify k (· + half key * (key >>> 32))) acc

/-- The accumulators after the sixteen stripes of a block. -/
def scramble (acc : Array UInt64) : Array UInt64 :=
  acc.mapIdx fun k x => (xorShift x 47 ^^^ read64 secret (128 + 8 * k)) * prime32x1

/-- The first `count` stripes of the block at a position. -/
def addStripes (data : Array UInt8) (i count : Nat) (acc : Array UInt64) : Array UInt64 :=
  (List.range count).foldl (fun acc k => addStripe data (i + 64 * k) (8 * k) acc) acc

/-- The accumulators combined into one word. -/
def merge (acc : Array UInt64) (s : Nat) (start : UInt64) : UInt64 :=
  avalanche <| (List.range 4).foldl (fun sum k =>
    sum + mulFold (acc.getD (2 * k) 0 ^^^ read64 secret (s + 16 * k))
      (acc.getD (2 * k + 1) 0 ^^^ read64 secret (s + 16 * k + 8))) start

def digestLong (data : Array UInt8) : Word128 :=
  let len := data.size
  let blocks := (len - 1) / 1024
  let acc := (List.range blocks).foldl
    (fun acc k => scramble (addStripes data (1024 * k) 16 acc)) startLong
  let acc := addStripes data (1024 * blocks) ((len - 1 - 1024 * blocks) / 64) acc
  let acc := addStripe data (len - 64) 121 acc
  ⟨merge acc 11 (UInt64.ofNat len * prime64x1),
    merge acc 117 (~~~(UInt64.ofNat len * prime64x2))⟩

def digest (bytes : Bytes) : Word128 :=
  let data := bytes.toArray
  if data.size = 0 then digestEmpty
  else if data.size ≤ 3 then digestTo3 data
  else if data.size ≤ 8 then digestTo8 data
  else if data.size ≤ 16 then digestTo16 data
  else if data.size ≤ 128 then digestTo128 data
  else if data.size ≤ 240 then digestTo240 data
  else digestLong data

/-- The sixteen octets of a digest, least significant first. -/
def Word128.octets (w : Word128) : Bytes :=
  Bytes.littleEndian 8 w.low.toNat ++ Bytes.littleEndian 8 w.high.toNat

end Xxh3
end BuildTree
