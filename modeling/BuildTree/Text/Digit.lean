/-!
# Digits — characters that stand for numbers

Escapes and numbers in several formats are written in hexadecimal, with letters of either case.  The
value of a character is `none` exactly if it is no digit.
-/

namespace BuildTree
namespace Digit

def hex? (c : Char) : Option Nat :=
  if '0' ≤ c ∧ c ≤ '9' then some (c.toNat - 48)
  else if 'a' ≤ c ∧ c ≤ 'f' then some (c.toNat - 87)
  else if 'A' ≤ c ∧ c ≤ 'F' then some (c.toNat - 55)
  else none

/-- The number that hexadecimal digits stand for; no digits stand for zero. -/
def hexNumber? (digits : List Char) : Option Nat :=
  digits.foldlM (fun n c => (hex? c).map (16 * n + ·)) 0

end Digit
end BuildTree
