import BuildTree.Text.Digit
import BuildTree.Text.Lines

/-!
# TOML texts — blanks, comments, strings and keys

Readers on lists of characters.  Each gives what it read and the text behind it, or nothing if the
text breaks the format.
-/

namespace BuildTree
namespace Toml

def isBlank (c : Char) : Bool :=
  c == ' ' || c == '\t'

/-- A text without the blanks at its start. -/
def skipBlanks (text : List Char) : List Char :=
  text.dropWhile isBlank

/-- A character that may stand in a comment or, quotes and backslashes apart, in a string. -/
def isTextChar (c : Char) : Bool :=
  c == '\t' || (0x20 ≤ c.toNat && c.toNat != 0x7F)

/-- What follows a line end: a line feed, or a carriage return and a line feed. -/
def newline? : List Char → Option (List Char)
  | '\n' :: rest => some rest
  | '\r' :: '\n' :: rest => some rest
  | _ => none

/-- A text without the comment at its start, if there is one. -/
def skipComment : List Char → List Char
  | '#' :: rest => rest.dropWhile isTextChar
  | text => text

/-- What follows a line of which nothing but blanks and a comment is left. -/
def lineEnd? (text : List Char) : Option (List Char) :=
  match skipComment (skipBlanks text) with
  | [] => some []
  | rest => newline? rest

/-- A text without the blanks, line ends and comments at its start. -/
def skipLines : (fuel : Nat) → List Char → List Char
  | 0, text => text
  | fuel + 1, text =>
      let rest := skipBlanks text
      match newline? rest with
      | some after => skipLines fuel after
      | none =>
          match rest with
          | '#' :: _ =>
              match newline? (skipComment rest) with
              | some after => skipLines fuel after
              | none => rest
          | _ => rest

/-! ## Strings -/

/-- The character with a number in hexadecimal, if there is one. -/
def scalar? (ds : List Char) : Option Char := do
  let n ← Digit.hexNumber? ds
  if n < 0xD800 ∨ (0xE000 ≤ n ∧ n < 0x110000) then some (Char.ofNat n) else none

/-- What an escape behind its backslash stands for. -/
def escape? : List Char → Option (Char × List Char)
  | 'b' :: rest => some ('\x08', rest)
  | 't' :: rest => some ('\t', rest)
  | 'n' :: rest => some ('\n', rest)
  | 'f' :: rest => some ('\x0c', rest)
  | 'r' :: rest => some ('\r', rest)
  | '"' :: rest => some ('"', rest)
  | '\\' :: rest => some ('\\', rest)
  | 'u' :: rest =>
      if rest.length < 4 then none else (scalar? (rest.take 4)).map fun c => (c, rest.drop 4)
  | 'U' :: rest =>
      if rest.length < 8 then none else (scalar? (rest.take 8)).map fun c => (c, rest.drop 8)
  | _ => none

/-- A string in double quotes, behind the opening one. -/
def basicString : (fuel : Nat) → List Char → Option (List Char × List Char)
  | 0, _ => none
  | _, [] => none
  | fuel + 1, c :: rest =>
      if c = '"' then some ([], rest)
      else if c = '\\' then
        match escape? rest with
        | none => none
        | some (e, rest) => (basicString fuel rest).map fun (cs, after) => (e :: cs, after)
      else if isTextChar c then (basicString fuel rest).map fun (cs, after) => (c :: cs, after)
      else none

/-- A string in single quotes, behind the opening one. -/
def literalString : List Char → Option (List Char × List Char)
  | [] => none
  | c :: rest =>
      if c = '\'' then some ([], rest)
      else if isTextChar c then (literalString rest).map fun (cs, after) => (c :: cs, after)
      else none

/-- What follows a backslash at the end of a line: the text without the blanks and line ends before
its next character. -/
def continuation? (text : List Char) : Option (List Char) :=
  (newline? (skipBlanks text)).map fun after => go after.length after
where
  go : Nat → List Char → List Char
    | 0, text => text
    | fuel + 1, text =>
        match newline? (skipBlanks text) with
        | some after => go fuel after
        | none => skipBlanks text

/-- The end of a string over several lines, if its closing quotes start here: up to two more quotes
belong to the string. -/
def closing? (quote : Char) (text : List Char) : Option (List Char × List Char) :=
  let quotes := (text.takeWhile (· == quote)).length
  if quotes < 3 then none
  else
    let kept := min (quotes - 3) 2
    some (List.replicate kept quote, text.drop (kept + 3))

/-- A string over several lines, behind its opening quotes and the line end there. -/
def multilineString (quote : Char) (escapes : Bool) :
    (fuel : Nat) → List Char → Option (List Char × List Char)
  | 0, _ => none
  | fuel + 1, text =>
      match closing? quote text with
      | some result => some result
      | none =>
          match newline? text with
          | some rest =>
              (multilineString quote escapes fuel rest).map fun (cs, after) => ('\n' :: cs, after)
          | none =>
              match text with
              | [] => none
              | c :: rest =>
                  if c = '\\' ∧ escapes then
                    match continuation? rest with
                    | some rest => multilineString quote escapes fuel rest
                    | none =>
                        match escape? rest with
                        | none => none
                        | some (e, rest) =>
                            (multilineString quote escapes fuel rest).map fun (cs, after) =>
                              (e :: cs, after)
                  else if isTextChar c then
                    (multilineString quote escapes fuel rest).map fun (cs, after) =>
                      (c :: cs, after)
                  else none

/-- The text behind the line end at its start, if there is one. -/
def skipNewline (text : List Char) : List Char :=
  (newline? text).getD text

def stringToken (text : List Char) : Option (String × List Char) :=
  let read? :=
    match text with
    | '"' :: '"' :: '"' :: rest => multilineString '"' true (text.length + 1) (skipNewline rest)
    | '"' :: rest => basicString (text.length + 1) rest
    | '\'' :: '\'' :: '\'' :: rest =>
        multilineString '\'' false (text.length + 1) (skipNewline rest)
    | '\'' :: rest => literalString rest
    | _ => none
  read?.map fun (cs, after) => (String.ofList cs, after)

/-! ## Keys -/

/-- The greatest number of parts of a key, and the greatest depth of values. -/
def depthLimit : Nat := 80

def isKeyChar (c : Char) : Bool :=
  c.isAlphanum || c == '_' || c == '-'

/-- One part of a key: bare, or a string on one line. -/
def keyPart (text : List Char) : Option (String × List Char) :=
  match text with
  | '"' :: rest =>
      (basicString (text.length + 1) rest).map fun (cs, after) => (String.ofList cs, after)
  | '\'' :: rest => (literalString rest).map fun (cs, after) => (String.ofList cs, after)
  | _ =>
      match text.takeWhile isKeyChar with
      | [] => none
      | cs => some (String.ofList cs, text.dropWhile isKeyChar)

/-- The parts of a key, with blanks and dots between them, and the text behind the blanks that
follow. -/
def keyParts : (fuel : Nat) → List Char → Option (List String × List Char)
  | 0, _ => none
  | fuel + 1, text =>
      match keyPart (skipBlanks text) with
      | none => none
      | some (part, rest) =>
          match skipBlanks rest with
          | '.' :: rest => (keyParts fuel rest).map fun (parts, after) => (part :: parts, after)
          | rest => some ([part], rest)

def key (text : List Char) : Option (List String × List Char) :=
  (keyParts (text.length + 1) text).filter (·.1.length < depthLimit)

end Toml
end BuildTree
