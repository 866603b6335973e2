/-!
# Lines and ends — cutting texts

The few ways in which texts are cut here: into lines, before a suffix, behind repeated leading
pieces.  All work on lists of characters.
-/

namespace BuildTree
namespace Text

/-- A line without the carriage return at its end, if it has one. -/
def dropReturn (line : List Char) : List Char :=
  if line.getLast? = some '\r' then line.dropLast else line

/-- The lines of a text.  A line that ends in a line feed loses it and one carriage return before
it; a last line without a line feed is kept as it stands, and an empty one is none. -/
def lines (text : String) : List String :=
  (go (text.toList.splitOn '\n')).map String.ofList
where
  go : List (List Char) → List (List Char)
    | [] => []
    | [last] => if last.isEmpty then [] else [last]
    | line :: rest => dropReturn line :: go rest

def endsWith (text suffix : String) : Bool :=
  suffix.toList.isSuffixOf text.toList

def startsWith (text start : String) : Bool :=
  start.toList.isPrefixOf text.toList

/-- What follows as many leading `/` as there are. -/
def dropSlashes (text : String) : String :=
  String.ofList (text.toList.dropWhile (· == '/'))

/-- What follows as many leading `./` as there are. -/
def dropHere : List Char → List Char
  | '.' :: '/' :: rest => dropHere rest
  | text => text

/-- A text with every occurrence of a non-empty piece, found from the left, replaced. -/
def replaceAll (text piece substitute : List Char) : List Char :=
  go text.length text
where
  go : Nat → List Char → List Char
    | 0, text => text
    | _, [] => []
    | fuel + 1, c :: rest =>
        match piece.isPrefixOf? (c :: rest) with
        | some after => substitute ++ go fuel after
        | none => c :: go fuel rest

/-- The characters Unicode counts as white space. -/
def isBlank (c : Char) : Bool :=
  let n := c.toNat
  (0x09 ≤ n && n ≤ 0x0D) || n == 0x20 || n == 0x85 || n == 0xA0 || n == 0x1680 ||
    (0x2000 ≤ n && n ≤ 0x200A) || n == 0x2028 || n == 0x2029 || n == 0x202F || n == 0x205F ||
    n == 0x3000

def trim (text : List Char) : List Char :=
  ((text.dropWhile isBlank).reverse.dropWhile isBlank).reverse

end Text
end BuildTree
