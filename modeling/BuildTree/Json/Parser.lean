import BuildTree.Json.Basic
import BuildTree.Text.Digit

/-!
# Reading JSON

A strict reader: nothing but white space around the value, no leading zeros, no raw control
characters in strings.  A string is first cut into characters and 16-bit units, then units are
paired; a unit left alone makes the string unreadable.  `parse` gives the reader as much fuel as the
text has characters, which is more than a value of that length can use.
-/

namespace BuildTree
namespace Json

def isSpace (c : Char) : Bool :=
  c == ' ' || c == '\n' || c == '\t' || c == '\r'

/-- A text from its first token on. -/
def skipSpace (text : List Char) : List Char :=
  text.dropWhile isSpace

/-! ## Strings -/

/-- A piece of a string: a character, or a 16-bit unit given by number. -/
inductive Piece
  | char (c : Char)
  | unit (n : Nat)
  deriving DecidableEq

/-- The character that a one-letter escape stands for. -/
def escaped? (c : Char) : Option Char :=
  if c = '"' ∨ c = '\\' ∨ c = '/' then some c
  else if c = 'b' then some '\x08'
  else if c = 'f' then some '\x0c'
  else if c = 'n' then some '\n'
  else if c = 'r' then some '\r'
  else if c = 't' then some '\t'
  else none

/-- The pieces of a string up to its closing quote, and the text behind it. -/
def pieces : List Char → Option (List Piece × List Char)
  | [] => none
  | '"' :: rest => some ([], rest)
  | '\\' :: 'u' :: a :: b :: c :: d :: rest =>
      match Digit.hexNumber? [a, b, c, d] with
      | none => none
      | some n => (pieces rest).map fun (ps, after) => (.unit n :: ps, after)
  | '\\' :: c :: rest =>
      match escaped? c with
      | none => none
      | some e => (pieces rest).map fun (ps, after) => (.char e :: ps, after)
  | c :: rest =>
      if c = '\\' ∨ c.toNat < 0x20 then none
      else (pieces rest).map fun (ps, after) => (.char c :: ps, after)

/-- Whether a unit is the first half of a pair. -/
def isHighHalf (n : Nat) : Bool := 0xD800 ≤ n && n < 0xDC00

def isLowHalf (n : Nat) : Bool := 0xDC00 ≤ n && n < 0xE000

/-- The character that two halves make. -/
def pairUnits (high low : Nat) : Char :=
  Char.ofNat (0x10000 + (high - 0xD800) * 0x400 + (low - 0xDC00))

/-- The characters of a string, unless one of its units stands alone. -/
def assemble : List Piece → Option (List Char)
  | [] => some []
  | .char c :: rest => (assemble rest).map (c :: ·)
  | .unit high :: .unit low :: rest =>
      if isHighHalf high then
        if isLowHalf low then (assemble rest).map (pairUnits high low :: ·) else none
      else if isLowHalf high then none
      else (assemble (.unit low :: rest)).map (Char.ofNat high :: ·)
  | .unit n :: rest =>
      if isHighHalf n || isLowHalf n then none
      else (assemble rest).map (Char.ofNat n :: ·)

/-- A string behind its opening quote, `none` for one that cannot be read, and the text behind
it. -/
def stringBody (text : List Char) : Option (Option String × List Char) :=
  (pieces text).map fun (ps, after) => ((assemble ps).map String.ofList, after)

/-! ## Numbers -/

/-- The digits that a text starts with, of which there has to be one. -/
def digits (text : List Char) : Option (List Char × List Char) :=
  match text.takeWhile Char.isDigit with
  | [] => none
  | ds => some (ds, text.dropWhile Char.isDigit)

/-- A whole number without leading zeros. -/
def wholePart (text : List Char) : Option (List Char × List Char) :=
  match digits text with
  | some (ds, rest) => if ds.length = 1 ∨ ds.head? ≠ some '0' then some (ds, rest) else none
  | none => none

def fraction : List Char → Option (List Char × List Char)
  | '.' :: rest => (digits rest).map fun (ds, after) => ('.' :: ds, after)
  | text => some ([], text)

def exponent : List Char → Option (List Char × List Char)
  | e :: rest =>
      if e = 'e' ∨ e = 'E' then
        match rest with
        | s :: more =>
            if s = '+' ∨ s = '-' then
              (digits more).map fun (ds, after) => (e :: s :: ds, after)
            else (digits rest).map fun (ds, after) => (e :: ds, after)
        | [] => none
      else some ([], e :: rest)
  | [] => some ([], [])

/-- A number without its sign; `sign` is what stood before it. -/
def unsigned (sign : List Char) (text : List Char) : Option (JsonNumber × List Char) := do
  let (whole, rest) ← wholePart text
  let (frac, rest) ← fraction rest
  let (expo, rest) ← exponent rest
  if sign.isEmpty && frac.isEmpty && expo.isEmpty then
    pure (.natural (Nat.ofDigitChars 10 whole 0), rest)
  else
    pure (.literal (String.ofList (sign ++ whole ++ frac ++ expo)), rest)

def numberToken : List Char → Option (JsonNumber × List Char)
  | '-' :: rest => unsigned ['-'] rest
  | text => unsigned [] text

/-! ## Values -/

mutual

/-- A value at the start of a text, and the text behind it. -/
def value : (fuel : Nat) → List Char → Option (Json × List Char)
  | 0, _ => none
  | fuel + 1, text =>
      match skipSpace text with
      | 'n' :: 'u' :: 'l' :: 'l' :: rest => some (.null, rest)
      | 't' :: 'r' :: 'u' :: 'e' :: rest => some (.bool true, rest)
      | 'f' :: 'a' :: 'l' :: 's' :: 'e' :: rest => some (.bool false, rest)
      | '"' :: rest =>
          match stringBody rest with
          | some (some s, after) => some (.string s, after)
          | some (none, after) => some (.unreadable, after)
          | none => none
      | '[' :: rest =>
          match skipSpace rest with
          | ']' :: after => some (.array [], after)
          | _ => (elements fuel rest).map fun (es, after) => (.array es, after)
      | '\x7b' :: rest =>
          match skipSpace rest with
          | '\x7d' :: after => some (.object [], after)
          | _ =>
              match members fuel rest with
              | some (some ms, after) => some (.object ms, after)
              | some (none, after) => some (.unreadable, after)
              | none => none
      | rest => (numberToken rest).map fun (n, after) => (.number n, after)

/-- The elements of an array up to its closing bracket. -/
def elements : (fuel : Nat) → List Char → Option (List Json × List Char)
  | 0, _ => none
  | fuel + 1, text =>
      match value fuel text with
      | none => none
      | some (v, rest) =>
          match skipSpace rest with
          | ']' :: after => some ([v], after)
          | ',' :: after => (elements fuel after).map fun (vs, after) => (v :: vs, after)
          | _ => none

/-- The members of an object up to its closing brace; `none` in front if a name cannot be read. -/
def members : (fuel : Nat) → List Char → Option (Option (List (String × Json)) × List Char)
  | 0, _ => none
  | fuel + 1, text =>
      match skipSpace text with
      | '"' :: rest =>
          match stringBody rest with
          | none => none
          | some (name?, rest) =>
              match skipSpace rest with
              | ':' :: rest =>
                  match value fuel rest with
                  | none => none
                  | some (v, rest) =>
                      let member? := name?.map fun name => (name, v)
                      match skipSpace rest with
                      | '\x7d' :: after => some (member?.map ([·]), after)
                      | ',' :: after =>
                          (members fuel after).map fun (ms?, after) =>
                            (member?.bind fun m => ms?.map (m :: ·), after)
                      | _ => none
              | _ => none
      | _ => none

end

def parse (text : String) : Option Json :=
  match value (text.toList.length + 1) text.toList with
  | some (v, rest) => if (skipSpace rest).isEmpty then some v else none
  | none => none

end Json
end BuildTree
