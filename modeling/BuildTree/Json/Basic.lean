/-!
# JSON values

The values that the programs around a build exchange.  An object keeps its members in the order in
which they were written, repeated names included; what a repetition means is up to the reader of
the object.
-/

namespace BuildTree

/-- A number as it was written. -/
inductive JsonNumber
  /-- Digits only. -/
  | natural (n : Nat)
  /-- Anything with a sign, a fraction or an exponent. -/
  | literal (text : String)
  deriving DecidableEq, Repr

inductive Json
  | null
  | bool (b : Bool)
  | number (n : JsonNumber)
  | string (s : String)
  | array (elements : List Json)
  | object (members : List (String × Json))
  /-- A value that is written correctly but says nothing, because an escape in it is half of a
  character: it can be skipped, but not read. -/
  | unreadable
  deriving Repr, Inhabited

namespace Json

def string? : Json → Option String
  | .string s => some s
  | _ => none

/-- The number, if it was written with digits only. -/
def natural? : Json → Option Nat
  | .number (.natural n) => some n
  | _ => none

def array? : Json → Option (List Json)
  | .array elements => some elements
  | _ => none

/-- The texts of an array of strings. -/
def strings? (value : Json) : Option (List String) :=
  value.array?.bind (·.mapM string?)

/-- The value of the one member with a name: `some none` if there is none, `none` if there are
several. -/
def uniqueMember? (members : List (String × Json)) (name : String) : Option (Option Json) :=
  match members.filter (·.1 == name) with
  | [] => some none
  | [member] => some (some member.2)
  | _ => none

/-- The fields of a record, in the order of their names.  A record is an object, in which no field
may occur twice and other members do not matter, or an array of its leading fields. -/
def record? (names : List String) : Json → Option (List (Option Json))
  | .object members => names.mapM (uniqueMember? members)
  | .array elements =>
      if elements.length ≤ names.length then
        some (elements.map some ++ List.replicate (names.length - elements.length) none)
      else none
  | _ => none

/-- The name of a plain choice: a string, or an object with the name alone and no value. -/
def choice? : Json → Option String
  | .string s => some s
  | .object [(name, .null)] => some name
  | _ => none

/-- A text that may be left out or null. -/
def optionalString? : Option Json → Option (Option String)
  | none => some none
  | some .null => some none
  | some value => value.string?.map some

end Json
end BuildTree
