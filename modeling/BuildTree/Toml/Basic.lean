/-!
# TOML values

A document is a table.  Tables remember how they came about, because that decides how they may still
be extended: written in braces, under a header of their own, on the way to another header, or by a
dotted key.
-/

namespace BuildTree

/-- How a table came about. -/
inductive TableKind
  /-- In braces: nothing can be added. -/
  | inline
  /-- Under a header of its own. -/
  | header
  /-- On the way to the table of a header: a header of its own may follow. -/
  | implicit
  /-- By a dotted key: more dotted keys may follow. -/
  | dotted
  deriving DecidableEq, Repr

/-- Whether a table was never written as such. -/
def TableKind.isImplicit : TableKind → Bool
  | .implicit | .dotted => true
  | _ => false

inductive Toml
  | string (s : String)
  | integer (n : Int)
  | float
  | boolean (b : Bool)
  | datetime
  | array (elements : List Toml)
  | table (kind : TableKind) (entries : List (String × Toml))
  /-- The tables of repeated `[[…]]` headers. -/
  | tables (elements : List (List (String × Toml)))
  deriving Repr

/-- The entries of a table, in the order in which their keys were first written. -/
abbrev TomlEntries := List (String × Toml)

namespace TomlEntries

/-- The entries with the value of a key replaced, or added behind the others. -/
def put (entries : TomlEntries) (key : String) (value : Toml) : TomlEntries :=
  if entries.any (·.1 == key) then
    entries.map fun entry => if entry.1 == key then (key, value) else entry
  else entries ++ [(key, value)]

def remove (entries : TomlEntries) (key : String) : TomlEntries :=
  entries.filter (·.1 != key)

end TomlEntries

namespace Toml

/-! ## Reading values -/

def string? : Toml → Option String
  | .string s => some s
  | _ => none

/-- A whole number that is not negative. -/
def natural? : Toml → Option Nat
  | .integer n => n.toNat?
  | _ => none

/-- The elements of an array, or the tables of a repeated header. -/
def elements? : Toml → Option (List Toml)
  | .array elements => some elements
  | .tables elements => some (elements.map (.table .header))
  | _ => none

def strings? (value : Toml) : Option (List String) :=
  value.elements?.bind (·.mapM string?)

/-- The fields of a record, in the order of their names.  A record is a table, of which other
entries do not matter, or an array that starts with the fields.  A date has parts, but none of them
is a field. -/
def record? (names : List String) : Toml → Option (List (Option Toml))
  | .table _ entries => some (names.map fun name => entries.lookup name)
  | .datetime => some (names.map fun _ => none)
  | value => value.elements?.map fun elements => (List.range names.length).map (elements[·]?)

def isEmpty : Toml → Bool
  | .table _ [] | .array [] | .tables [] => true
  | _ => false

/-- The name of a plain choice: a string, or a table with the name alone and an empty value. -/
def choice? : Toml → Option String
  | .string s => some s
  | .table _ [(name, value)] => if value.isEmpty then some name else none
  | _ => none

end Toml
end BuildTree
