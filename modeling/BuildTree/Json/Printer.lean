import BuildTree.Json.Basic

/-!
# Writing JSON

Strings are written with short escapes where JSON has them, `\u00xx` for the other control
characters, and every other character as itself.  `compact` puts a value on one line without
blanks; `pretty` gives each element and member a line of its own, indented by two blanks.
-/

namespace BuildTree
namespace Json

/-- How a character stands in a string. -/
def escapeChar (c : Char) : List Char :=
  if c = '"' then ['\\', '"']
  else if c = '\\' then ['\\', '\\']
  else if c = '\n' then ['\\', 'n']
  else if c = '\r' then ['\\', 'r']
  else if c = '\t' then ['\\', 't']
  else if c = '\x08' then ['\\', 'b']
  else if c = '\x0c' then ['\\', 'f']
  else if c.toNat < 0x20 then
    ['\\', 'u', '0', '0', Nat.digitChar (c.toNat / 16), Nat.digitChar (c.toNat % 16)]
  else [c]

/-- A string between its quotes. -/
def quoteChars (s : String) : List Char :=
  '"' :: s.toList.flatMap escapeChar ++ ['"']

def numberChars : JsonNumber → List Char
  | .natural n => Nat.toDigits 10 n
  | .literal text => text.toList

mutual

def compactChars : Json → List Char
  | .null => "null".toList
  | .bool true => "true".toList
  | .bool false => "false".toList
  | .number n => numberChars n
  | .string s => quoteChars s
  | .array es => '[' :: compactElements es ++ [']']
  | .object ms => '\x7b' :: compactMembers ms ++ ['\x7d']
  | .unreadable => "null".toList

/-- Elements with commas between them. -/
def compactElements : List Json → List Char
  | [] => []
  | [v] => compactChars v
  | v :: vs => compactChars v ++ ',' :: compactElements vs

def compactMembers : List (String × Json) → List Char
  | [] => []
  | [(name, v)] => quoteChars name ++ ':' :: compactChars v
  | (name, v) :: ms => quoteChars name ++ ':' :: compactChars v ++ ',' :: compactMembers ms

end

/-- A value on one line. -/
def compact (v : Json) : String :=
  String.ofList (compactChars v)

/-- A line feed and the indentation of a depth. -/
def newline (depth : Nat) : List Char :=
  '\n' :: List.replicate (2 * depth) ' '

mutual

/-- A value over several lines, inside `depth` others. -/
def prettyChars (depth : Nat) : Json → List Char
  | .array [] => ['[', ']']
  | .array (v :: vs) =>
      '[' :: newline (depth + 1) ++ prettyElements (depth + 1) (v :: vs) ++ newline depth ++ [']']
  | .object [] => ['\x7b', '\x7d']
  | .object (m :: ms) =>
      '\x7b' :: newline (depth + 1) ++ prettyMembers (depth + 1) (m :: ms) ++ newline depth ++
        ['\x7d']
  | .null => "null".toList
  | .bool true => "true".toList
  | .bool false => "false".toList
  | .number n => numberChars n
  | .string s => quoteChars s
  | .unreadable => "null".toList

/-- Elements, each on a line of its own. -/
def prettyElements (depth : Nat) : List Json → List Char
  | [] => []
  | [v] => prettyChars depth v
  | v :: vs => prettyChars depth v ++ ',' :: newline depth ++ prettyElements depth vs

def prettyMembers (depth : Nat) : List (String × Json) → List Char
  | [] => []
  | [(name, v)] => quoteChars name ++ ':' :: ' ' :: prettyChars depth v
  | (name, v) :: ms =>
      quoteChars name ++ ':' :: ' ' :: prettyChars depth v ++ ',' :: newline depth ++
        prettyMembers depth ms

end

def pretty (v : Json) : String :=
  String.ofList (prettyChars 0 v)

end Json
end BuildTree
