import BuildTree.Bytes
import BuildTree.Compress.Huffman

/-!
# Inflate — decompression of deflated streams

A compressed stream is a sequence of blocks: stored octets, or symbols under a fixed code or under a
code of the block's own.  A symbol is an octet, the end of the block, or a length, behind which a
distance says from where that many octets of the output are repeated.  A distance that reaches
beyond the start of the output repeats zeros.  What was decompressed before a fault is kept, and so
is the place of the fault, because a reader may never come to it.
-/

namespace BuildTree
namespace Inflate

/-- How a compressed stream ended. -/
inductive Ending
  /-- The last block was complete; the stream takes up this many octets. -/
  | finished (octets : Nat)
  | truncated
  /-- A block breaks the format, as this many octets show. -/
  | corrupt (octets : Nat)
  deriving DecidableEq, Repr

structure Result where
  output : Array UInt8
  ending : Ending

/-- Why a block was not read to its end. -/
inductive Stop
  | truncated
  /-- The bits in front of this position show that the block breaks the format. -/
  | corrupt (pos : Nat)
  deriving DecidableEq

/-- The bit at a position, least significant bit of an octet first. -/
def bit? (data : Array UInt8) (pos : Nat) : Option Bool :=
  (data[pos / 8]?).map fun b => b.toNat.testBit (pos % 8)

/-- A number of `count` bits, least significant first, and the position behind it. -/
def bits (data : Array UInt8) : (count pos : Nat) → Except Stop (Nat × Nat)
  | 0, pos => .ok (0, pos)
  | count + 1, pos =>
      match bit? data pos with
      | none => .error .truncated
      | some bit =>
          match bits data count (pos + 1) with
          | .error stop => .error stop
          | .ok (n, pos) => .ok (bit.toNat + 2 * n, pos)

def symbol (data : Array UInt8) (code : HuffmanCode) (pos : Nat) : Except Stop (Nat × Nat) :=
  match code.decode (bit? data) pos with
  | none => .error .truncated
  | some (none, pos) => .error (.corrupt pos)
  | some (some s, pos) => .ok (s, pos)

/-! ## Lengths and distances -/

/-- The least length of each length symbol from 257 on, and the bits that add to it. -/
def lengthTable : Array (Nat × Nat) := #[
  (3, 0), (4, 0), (5, 0), (6, 0), (7, 0), (8, 0), (9, 0), (10, 0), (11, 1), (13, 1), (15, 1),
  (17, 1), (19, 2), (23, 2), (27, 2), (31, 2), (35, 3), (43, 3), (51, 3), (59, 3), (67, 4), (83, 4),
  (99, 4), (115, 4), (131, 5), (163, 5), (195, 5), (227, 5), (258, 0)]

/-- The least distance of each distance symbol, and the bits that add to it. -/
def distanceTable : Array (Nat × Nat) := #[
  (1, 0), (2, 0), (3, 0), (4, 0), (5, 1), (7, 1), (9, 2), (13, 2), (17, 3), (25, 3), (33, 4),
  (49, 4), (65, 5), (97, 5), (129, 6), (193, 6), (257, 7), (385, 7), (513, 8), (769, 8), (1025, 9),
  (1537, 9), (2049, 10), (3073, 10), (4097, 11), (6145, 11), (8193, 12), (12289, 12), (16385, 13),
  (24577, 13)]

/-- A table's number for a symbol, with the extra bits that follow at the position. -/
def extended (data : Array UInt8) (table : Array (Nat × Nat)) (s pos : Nat) :
    Except Stop (Nat × Nat) :=
  match table[s]? with
  | none => .error (.corrupt pos)
  | some (least, extra) => (bits data extra pos).map fun (n, pos) => (least + n, pos)

/-- The output with `count` octets repeated from `distance` back. -/
def copyBack (distance : Nat) : (count : Nat) → Array UInt8 → Array UInt8
  | 0, out => out
  | count + 1, out =>
      let b := if distance ≤ out.size then out.getD (out.size - distance) 0 else 0
      copyBack distance count (out.push b)

/-! ## Blocks -/

def blockSymbols (data : Array UInt8) (literals distances : HuffmanCode) :
    (fuel pos : Nat) → Array UInt8 → Array UInt8 × Except Stop Nat
  | 0, _, out => (out, .error .truncated)
  | fuel + 1, pos, out =>
      match symbol data literals pos with
      | .error stop => (out, .error stop)
      | .ok (s, pos) =>
          if s < 256 then blockSymbols data literals distances fuel pos (out.push (UInt8.ofNat s))
          else if s = 256 then (out, .ok pos)
          else
            let reference : Except Stop (Nat × Nat × Nat) := do
              let (length, pos) ← extended data lengthTable (s - 257) pos
              let (d, pos) ← symbol data distances pos
              let (distance, pos) ← extended data distanceTable d pos
              pure (length, distance, pos)
            match reference with
            | .error stop => (out, .error stop)
            | .ok (length, distance, pos) =>
                blockSymbols data literals distances fuel pos (copyBack distance length out)

/-- A block of stored octets: two lengths that contradict each other bit by bit, then the octets. -/
def storedBlock (data : Array UInt8) (pos : Nat) (out : Array UInt8) :
    Array UInt8 × Except Stop Nat :=
  let start := (pos + 7) / 8
  match bits data 16 (8 * start), bits data 16 (8 * start + 16) with
  | .ok (len, _), .ok (check, _) =>
      if len + check ≠ 0xFFFF then (out, .error (.corrupt (8 * (start + 4))))
      else
        let stored := data.extract (start + 4) (start + 4 + len)
        (out ++ stored,
          if stored.size = len then .ok (8 * (start + 4 + len)) else .error .truncated)
  | _, _ => (out, .error .truncated)

/-- The code of literals and lengths in blocks without one of their own. -/
def fixedLiterals : HuffmanCode :=
  .ofLengths (List.replicate 144 8 ++ List.replicate 112 9 ++ List.replicate 24 7 ++
    List.replicate 8 8)

def fixedDistances : HuffmanCode :=
  .ofLengths (List.replicate 32 5)

/-- The order in which the lengths of the code for code lengths are written. -/
def lengthOrder : List Nat :=
  [16, 17, 18, 0, 8, 7, 9, 6, 10, 5, 11, 4, 12, 3, 13, 2, 14, 1, 15]

/-- `count` lengths of three bits each. -/
def threeBitLengths (data : Array UInt8) : (count pos : Nat) → Except Stop (List Nat × Nat)
  | 0, pos => .ok ([], pos)
  | count + 1, pos => do
      let (n, pos) ← bits data 3 pos
      let (ns, pos) ← threeBitLengths data count pos
      pure (n :: ns, pos)

/-- Code lengths up to `count` of them, the latest first in `acc`: a length, or a repetition of the
latest length or of zero.  A repetition beyond `count` breaks the format. -/
def codeLengths (data : Array UInt8) (code : HuffmanCode) (count : Nat) :
    (fuel pos : Nat) → (acc : List Nat) → Except Stop (List Nat × Nat)
  | 0, pos, _ => .error (.corrupt pos)
  | fuel + 1, pos, acc => do
      if acc.length = count then pure (acc.reverse, pos)
      else if count < acc.length then throw (.corrupt pos)
      else
        let (s, pos) ← symbol data code pos
        if s < 16 then codeLengths data code count fuel pos (s :: acc)
        -- The symbols above 15 stand for runs: of the length before, of few zeros, of many zeros.
        else if s = 16 then
          match acc with
          | [] => throw (.corrupt pos)
          | latest :: _ =>
              let (n, pos) ← bits data 2 pos
              codeLengths data code count fuel pos (List.replicate (3 + n) latest ++ acc)
        else if s = 17 then
          let (n, pos) ← bits data 3 pos
          codeLengths data code count fuel pos (List.replicate (3 + n) 0 ++ acc)
        else
          let (n, pos) ← bits data 7 pos
          codeLengths data code count fuel pos (List.replicate (11 + n) 0 ++ acc)

def codeOf (lengths : List Nat) (pos : Nat) : Except Stop HuffmanCode :=
  let code := HuffmanCode.ofLengths lengths
  if code.isUsable then .ok code else .error (.corrupt pos)

/-- The greatest number of symbols that are octets, ends of blocks or lengths. -/
def maxLiterals : Nat := 286

/-- The greatest number of symbols that are distances. -/
def maxDistances : Nat := 30

/-- The two codes that a block brings along, and the position behind them. -/
def ownCodes (data : Array UInt8) (pos : Nat) :
    Except Stop (HuffmanCode × HuffmanCode × Nat) := do
  let (hlit, pos) ← bits data 5 pos
  let (hdist, pos) ← bits data 5 pos
  let (hclen, pos) ← bits data 4 pos
  let literalCount := hlit + 257
  let distanceCount := hdist + 1
  if maxLiterals < literalCount ∨ maxDistances < distanceCount then throw (.corrupt pos)
  let (short, pos) ← threeBitLengths data (hclen + 4) pos
  let written := lengthOrder.zip short
  let code := HuffmanCode.ofLengths ((List.range 19).map fun s => (written.lookup s).getD 0)
  -- The code for the lengths has to use up all its bits; `codeOf` asks less of the other two.
  if !code.isComplete then throw (.corrupt pos)
  let count := literalCount + distanceCount
  let (lengths, pos) ← codeLengths data code count (count + 1) pos []
  let literals ← codeOf (lengths.take literalCount) pos
  let distances ← codeOf (lengths.drop literalCount) pos
  pure (literals, distances, pos)

def blocks (data : Array UInt8) : (fuel pos : Nat) → Array UInt8 → Array UInt8 × Except Stop Nat
  | 0, _, out => (out, .error .truncated)
  | fuel + 1, pos, out =>
      match bits data 1 pos, bits data 2 (pos + 1) with
      | .ok (last, _), .ok (kind, start) =>
          let (out, next) :=
            if kind = 0 then storedBlock data start out
            else if kind = 1 then
              blockSymbols data fixedLiterals fixedDistances (8 * data.size + 1) start out
            else if kind = 2 then
              match ownCodes data start with
              | .error stop => (out, .error stop)
              | .ok (literals, distances, start) =>
                  blockSymbols data literals distances (8 * data.size + 1) start out
            else (out, .error (.corrupt start))
          match next with
          | .error stop => (out, .error stop)
          | .ok next => if last = 1 then (out, .ok next) else blocks data fuel next out
      | _, _ => (out, .error .truncated)

/-- Decompresses the stream at the start of some octets. -/
def inflate (compressed : Bytes) : Result :=
  let data := compressed.toArray
  match blocks data (8 * data.size + 1) 0 #[] with
  | (output, .ok pos) => ⟨output, .finished ((pos + 7) / 8)⟩
  | (output, .error .truncated) => ⟨output, .truncated⟩
  | (output, .error (.corrupt pos)) => ⟨output, .corrupt ((pos + 7) / 8)⟩

end Inflate
end BuildTree
