import BuildTree.Text.Hidden

/-!
# Quoted text — a text shown inside a message

A quoted text stands between double quotes.  A quote and a backslash get a backslash, line feed,
carriage return, tab and NUL have letters of their own, and any other character without a picture is
written by its number in hexadecimal between braces.
-/

namespace BuildTree
namespace Quoted

/-- How a character stands between the quotes. -/
def escape (c : Char) : List Char :=
  if c = '"' then ['\\', '"']
  else if c = '\\' then ['\\', '\\']
  else if c = '\n' then ['\\', 'n']
  else if c = '\r' then ['\\', 'r']
  else if c = '\t' then ['\\', 't']
  else if c.toNat = 0 then ['\\', '0']
  else if Hidden.isHidden c then
    ['\\', 'u', '\x7b'] ++ Nat.toDigits 16 c.toNat ++ ['\x7d']
  else [c]

def quote (s : String) : String :=
  String.ofList ('"' :: s.toList.flatMap escape ++ ['"'])

/-- Texts between quotes, as a list in brackets. -/
def quoteList (texts : List String) : String :=
  "[" ++ String.intercalate ", " (texts.map quote) ++ "]"

end Quoted
end BuildTree
