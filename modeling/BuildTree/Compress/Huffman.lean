/-!
# Canonical Huffman codes — codes given by their lengths

A code is given by the length of each symbol's codeword.  Codewords of one length are consecutive
numbers in the order of the symbols, so the number of codewords of each length and the symbols
sorted by length are enough to decode.
-/

namespace BuildTree

structure HuffmanCode where
  /-- How many codewords have length 0, 1, … 15. -/
  counts : Array Nat
  /-- The symbols that have a codeword, by length and then by number. -/
  symbols : Array Nat

namespace HuffmanCode

def maxLength : Nat := 15

def ofLengths (lengths : List Nat) : HuffmanCode :=
  let numbered := lengths.zipIdx
  { counts := ((List.range (maxLength + 1)).map fun len => lengths.count len).toArray
    symbols := ((List.range maxLength).flatMap fun len =>
      (numbered.filter (·.1 == len + 1)).map (·.2)).toArray }

/-- The number of symbols that have a codeword. -/
def used (code : HuffmanCode) : Nat :=
  code.symbols.size

/-- The share of all codewords of greatest length that the code takes up. -/
def share (code : HuffmanCode) : Nat :=
  (List.range maxLength).foldl (fun total len =>
    total + code.counts.getD (len + 1) 0 * Nat.pow 2 (maxLength - (len + 1))) 0

/-- Whether every sequence of bits starts with a codeword, and with one only. -/
def isComplete (code : HuffmanCode) : Bool :=
  code.share == Nat.pow 2 maxLength

/-- Whether every sequence of bits is read as codewords, or the code is so small that one bit tells
a codeword from what is none: it has no codeword, or a single one of one bit. -/
def isUsable (code : HuffmanCode) : Bool :=
  code.isComplete || code.used == 0 || (code.used == 1 && code.counts.getD 1 0 == 1)

/-- Reads bits until they form a codeword: `len` bits form the number `word` so far, the codewords
of the next length start with the number `first`, and their symbols at `index`.  The result is the
symbol and the position behind it; `none` inside means that no codeword is as long as the bits that
were read, `none` outside that the bits end too early. -/
def decodeFrom (code : HuffmanCode) (bit? : Nat → Option Bool) :
    (fuel len word first index pos : Nat) → Option (Option Nat × Nat)
  | 0, _, _, _, _, pos => some (none, pos)
  | fuel + 1, len, word, first, index, pos =>
      match bit? pos with
      | none => none
      | some bit =>
          let word := 2 * word + bit.toNat
          let count := code.counts.getD (len + 1) 0
          if word < first + count then
            some (code.symbols[index + (word - first)]?, pos + 1)
          else if code.used ≤ index + count then some (none, pos + 1)
          else
            code.decodeFrom bit? fuel (len + 1) word (2 * (first + count)) (index + count) (pos + 1)

def decode (code : HuffmanCode) (bit? : Nat → Option Bool) (pos : Nat) :
    Option (Option Nat × Nat) :=
  code.decodeFrom bit? maxLength 0 0 0 0 pos

end HuffmanCode
end BuildTree
