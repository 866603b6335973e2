/-!
# Log levels — how much a log holds

A level is written as its name, in letters of either case, or as its number.
-/

namespace BuildTree

/-- How much a log holds. -/
inductive LogLevel
  | off
  | error
  | warn
  | info
  | debug
  | trace
  deriving DecidableEq, Repr

namespace LogLevel

def name : LogLevel → String
  | .off => "off"
  | .error => "error"
  | .warn => "warn"
  | .info => "info"
  | .debug => "debug"
  | .trace => "trace"

/-- Every level, from the emptiest log to the fullest. -/
def all : List LogLevel := [.off, .error, .warn, .info, .debug, .trace]

/-- The level of a number, which may have zeros and a plus sign in front. -/
def ofNumber? (text : List Char) : Option LogLevel :=
  let digits := if text.head? = some '+' then text.drop 1 else text
  if digits.isEmpty || !digits.all Char.isDigit then none
  else all[digits.foldl (fun n c => 10 * n + (c.toNat - '0'.toNat)) 0]?

def ofText? (text : List Char) : Option LogLevel :=
  match ofNumber? text with
  | some level => some level
  | none => all.find? fun level => level.name.toList == text.map Char.toLower

/-- Whether a log of this level holds notices. -/
def holdsNotices : LogLevel → Bool
  | .off | .error => false
  | _ => true

end LogLevel
end BuildTree
