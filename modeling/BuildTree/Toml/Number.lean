import BuildTree.Text.Digit
import BuildTree.Toml.Basic

/-!
# TOML numbers, dates and times

Numbers are read for their kind: an integer for its value too, which has to fit into 64 bits with a
sign.  A float that is too great to be one is refused.  Dates have to exist in the calendar.
-/

namespace BuildTree
namespace Toml

/-- Digits, with an underscore allowed between two of them: the digits, and the text behind. -/
def digitRun (isDigit : Char → Bool) : List Char → Option (List Char × List Char)
  | [] => none
  | c :: rest => if isDigit c then some (go [c] rest) else none
where
  /-- The digits read so far, the latest first. -/
  go (acc : List Char) : List Char → List Char × List Char
    | [] => (acc.reverse, [])
    | '_' :: d :: rest =>
        if isDigit d then go (d :: acc) rest else (acc.reverse, '_' :: d :: rest)
    | d :: rest => if isDigit d then go (d :: acc) rest else (acc.reverse, d :: rest)

def valueOf (base : Nat) (ds : List Char) : Nat :=
  ds.foldl (fun n c => base * n + (Digit.hex? c).getD 0) 0

/-- A sign, and the text behind it; a missing one counts as plus. -/
def signOf : List Char → Bool × List Char
  | '-' :: rest => (true, rest)
  | '+' :: rest => (false, rest)
  | text => (false, text)

def wholeDigits (text : List Char) : Option (List Char × List Char) :=
  match text with
  | '0' :: rest => some (['0'], rest)
  | _ => digitRun Char.isDigit text

/-- An integer, if it has at most 64 bits, one of them for the sign. -/
def fitting (n : Int) : Option Toml :=
  if -9223372036854775808 ≤ n ∧ n < 9223372036854775808 then some (.integer n) else none

/-- An integer to a base, behind the letter for the base. -/
def basedInteger (base : Nat) (isDigit : Char → Bool) (text : List Char) :
    Option (Toml × List Char) := do
  let (ds, rest) ← digitRun isDigit text
  let n ← fitting (valueOf base ds)
  pure (n, rest)

def exponentPart : List Char → Option (Option (Bool × List Char) × List Char)
  | e :: rest =>
      if e = 'e' ∨ e = 'E' then
        let (negative, rest) := signOf rest
        (digitRun Char.isDigit rest).map fun (ds, after) => (some (negative, ds), after)
      else some (none, e :: rest)
  | [] => some (none, [])

def fractionPart : List Char → Option (Option (List Char) × List Char)
  | '.' :: rest => (digitRun Char.isDigit rest).map fun (ds, after) => (some ds, after)
  | text => some (none, text)

/-- The least number that is too great for a float of 64 bits. -/
def floatLimit : Nat := Nat.pow 2 1024 - Nat.pow 2 970

/-- Whether digits times a power of ten are too great for a float of 64 bits. -/
def overflows (ds : List Char) (power : Int) : Bool :=
  let significant := ds.dropWhile (· == '0')
  let magnitude : Int := significant.length + power
  if significant.isEmpty || magnitude < 300 then false
  else if 320 < magnitude then true
  else
    let n := valueOf 10 significant
    if 0 ≤ power then floatLimit ≤ n * Nat.pow 10 power.toNat
    else floatLimit * Nat.pow 10 (-power).toNat ≤ n

/-- A decimal number: an integer, or a float if a fraction or an exponent follows. -/
def decimal (text : List Char) : Option (Toml × List Char) := do
  let (negative, rest) := signOf text
  let (whole, rest) ← wholeDigits rest
  let (fraction?, rest) ← fractionPart rest
  let (exponent?, rest) ← exponentPart rest
  match fraction?, exponent? with
  | none, none =>
      let n : Int := valueOf 10 whole
      let n ← fitting (if negative then -n else n)
      pure (n, rest)
  | _, _ =>
      let fraction := fraction?.getD []
      let power : Int := match exponent? with
        | some (true, ds) => -(valueOf 10 ds : Int)
        | some (false, ds) => valueOf 10 ds
        | none => 0
      if !negative && overflows (whole ++ fraction) (power - fraction.length) then none
      else pure (.float, rest)

/-! ## Dates and times -/

def fixedDigits (count low high : Nat) (text : List Char) : Option (Nat × List Char) :=
  let ds := text.take count
  let n := valueOf 10 ds
  if ds.length = count ∧ ds.all Char.isDigit ∧ low ≤ n ∧ n ≤ high then some (n, text.drop count)
  else none

/-- The text behind a character that has to be there. -/
def expect (c : Char) : List Char → Option (List Char)
  | d :: rest => if d = c then some rest else none
  | [] => none

/-- The number of days of a month. -/
def daysOf (year month : Nat) : Nat :=
  if month = 2 then
    if (year % 4 = 0 ∧ year % 100 ≠ 0) ∨ year % 400 = 0 then 29 else 28
  else if month = 4 ∨ month = 6 ∨ month = 9 ∨ month = 11 then 30
  else 31

def date? (text : List Char) : Option (List Char) := do
  let (year, rest) ← fixedDigits 4 0 9999 text
  let rest ← expect '-' rest
  let (month, rest) ← fixedDigits 2 1 12 rest
  let rest ← expect '-' rest
  let (_, rest) ← fixedDigits 2 1 (daysOf year month) rest
  pure rest

def time? (text : List Char) : Option (List Char) := do
  let (_, rest) ← fixedDigits 2 0 23 text
  let rest ← expect ':' rest
  let (_, rest) ← fixedDigits 2 0 59 rest
  let rest ← expect ':' rest
  let (_, rest) ← fixedDigits 2 0 60 rest
  match rest with
  | '.' :: d :: more => if d.isDigit then pure (more.dropWhile Char.isDigit) else none
  | _ => pure rest

/-- The text behind an offset from universal time, if there is one. -/
def skipOffset (text : List Char) : Option (List Char) :=
  match text with
  | 'Z' :: rest => some rest
  | 'z' :: rest => some rest
  | s :: rest =>
      if s = '+' ∨ s = '-' then do
        let (_, rest) ← fixedDigits 2 0 23 rest
        let rest ← expect ':' rest
        let (_, rest) ← fixedDigits 2 0 59 rest
        pure rest
      else some text
  | [] => some []

/-- The text behind a date, a time, or a date with a time. -/
def datetime? (text : List Char) : Option (List Char) :=
  match date? text with
  | none => time? text
  | some rest =>
      match rest with
      | d :: more =>
          if d = 'T' ∨ d = 't' ∨ d = ' ' then
            match time? more with
            | some after => skipOffset after
            | none => some rest
          else some rest
      | [] => some []

/-! ## All together -/

def word? (word : String) (text : List Char) : Option (List Char) :=
  word.toList.isPrefixOf? text

/-- A value that is neither a string nor holds others. -/
def scalarValue (text : List Char) : Option (Toml × List Char) :=
  match word? "true" text with
  | some rest => some (.boolean true, rest)
  | none =>
  match word? "false" text with
  | some rest => some (.boolean false, rest)
  | none =>
  match datetime? text with
  | some rest => some (.datetime, rest)
  | none =>
  match (let rest := (signOf text).2; (word? "inf" rest).or (word? "nan" rest)) with
  | some rest => some (.float, rest)
  | none =>
      match text with
      | '0' :: 'x' :: rest => basedInteger 16 (fun c => (Digit.hex? c).isSome) rest
      | '0' :: 'o' :: rest => basedInteger 8 (fun c => '0' ≤ c && c ≤ '7') rest
      | '0' :: 'b' :: rest => basedInteger 2 (fun c => c == '0' || c == '1') rest
      | _ => decimal text

end Toml
end BuildTree
