import BuildTree.Text.Digit

/-!
# Log patterns — which values of fields can be looked for

The value of a field is given as a regular expression.  Values of notices are never looked at, so
all that counts is whether an expression is well formed.  No closing brace comes into a value: it
would end the field.
-/

namespace BuildTree
namespace LogPattern

/-- What stands behind the hexadecimal digits of an escaped character. -/
def afterHex? (count : Nat) (text : List Char) : Option (List Char) :=
  let digits := text.take count
  if digits.length = count ∧ (Digit.hexNumber? digits).any Nat.isValidChar then
    some (text.drop count)
  else none

/-- What stands behind an escape, from the character behind its backslash on. -/
def afterEscape? : List Char → Option (List Char)
  | [] => none
  | c :: rest =>
      if c = 'x' then afterHex? 2 rest
      else if c = 'u' then afterHex? 4 rest
      else if c = 'U' then afterHex? 8 rest
      else if c = 'p' ∨ c = 'P' then
        if rest.head?.any fun kind => "CLMNPSZ".toList.contains kind then some (rest.drop 1)
        else none
      else if c.isAlphanum then
        if "AzdDsSwWnrtfav".toList.contains c then some rest else none
      else if 0x20 ≤ c.toNat ∧ c.toNat < 0x7F ∧ c ≠ '<' ∧ c ≠ '>' then some rest
      else none

/-- What stands behind a class of characters, from the character behind its bracket on; classes
are nested `depth` deep. -/
def afterClass? : (fuel depth : Nat) → (first : Bool) → List Char → Option (List Char)
  | 0, _, _, _ => none
  | fuel + 1, depth, first, text =>
      match text with
      | [] => none
      | '^' :: rest => afterClass? fuel depth first rest
      | ']' :: rest =>
          if first then afterClass? fuel depth false rest
          else if depth = 0 then some rest
          else afterClass? fuel (depth - 1) false rest
      | '[' :: rest => afterClass? fuel (depth + 1) true rest
      | '\\' :: rest => (afterEscape? rest).bind (afterClass? fuel depth false)
      | c :: '-' :: d :: rest =>
          if d = ']' ∨ d = '[' ∨ d = '\\' then afterClass? fuel depth false ('-' :: d :: rest)
          else if c ≤ d then afterClass? fuel depth false rest
          else none
      | _ :: rest => afterClass? fuel depth false rest

def afterName? (text : List Char) : Option (List Char) :=
  let name := text.takeWhile fun c => c.isAlphanum || c == '_'
  match name, text.drop name.length with
  | c :: _, '>' :: rest => if c.isDigit then none else some rest
  | _, _ => none

/-- What stands behind the flags at the start of a group, and whether a group follows them. -/
def afterFlags? (text : List Char) : Option (Bool × List Char) :=
  let flags := text.takeWhile ("imsUuxR-".toList.contains ·)
  match text.drop flags.length with
  | ':' :: rest => some (true, rest)
  | ')' :: rest => if flags.isEmpty then none else some (false, rest)
  | _ => none

/-- Whether an expression is well formed from a place on, with some groups open in front of it;
`loose` says whether what stands there has nothing before it that could be repeated. -/
def isWellFormedFrom : (fuel groups : Nat) → (loose : Bool) → List Char → Bool
  | 0, _, _, _ => false
  | fuel + 1, groups, loose, text =>
      match text with
      | [] => groups == 0
      | '\\' :: rest => (afterEscape? rest).any (isWellFormedFrom fuel groups false)
      | '[' :: rest => (afterClass? (rest.length + 1) 0 true rest).any
          (isWellFormedFrom fuel groups false)
      | '(' :: '?' :: 'P' :: '<' :: rest =>
          (afterName? rest).any (isWellFormedFrom fuel (groups + 1) true)
      | '(' :: '?' :: '<' :: rest =>
          (afterName? rest).any (isWellFormedFrom fuel (groups + 1) true)
      | '(' :: '?' :: rest =>
          (afterFlags? rest).any fun (opens, rest) =>
            isWellFormedFrom fuel (if opens then groups + 1 else groups) true rest
      | '(' :: rest => isWellFormedFrom fuel (groups + 1) true rest
      | ')' :: rest => groups != 0 && isWellFormedFrom fuel (groups - 1) false rest
      | '|' :: rest => isWellFormedFrom fuel groups true rest
      -- A count of repetitions ends with a closing brace, which no value holds.
      | '\x7b' :: _ => false
      | c :: rest =>
          if c = '*' ∨ c = '+' ∨ c = '?' then !loose && isWellFormedFrom fuel groups false rest
          else isWellFormedFrom fuel groups false rest

def isWellFormed (text : List Char) : Bool :=
  isWellFormedFrom (text.length + 1) 0 true text

end LogPattern
end BuildTree
