/-!
# Findings — what a compiler or an audit reports

A finding has a severity, a code made of a family and a number, a message, and optionally the file
it is about, notes and help.
-/

namespace BuildTree

/-- How bad a finding is, from harmless to fatal. -/
inductive Severity
  | note
  | warning
  | error
  deriving DecidableEq, Repr

namespace Severity

def name : Severity → String
  | .note => "note"
  | .warning => "warning"
  | .error => "error"

def all : List Severity := [.note, .warning, .error]

def ofName? (name : String) : Option Severity :=
  all.find? (·.name == name)

def rank : Severity → Nat
  | .note => 0
  | .warning => 1
  | .error => 2

/-- Whether this is the severity that makes a build fail. -/
def isError (severity : Severity) : Bool :=
  severity == .error

def sorted (severities : List Severity) : List Severity :=
  severities.mergeSort fun a b => decide (a.rank ≤ b.rank)

end Severity

/-- The family of rules that a code belongs to. -/
inductive CodeFamily
  | error
  | warning
  | dependency
  deriving DecidableEq, Repr

namespace CodeFamily

def name : CodeFamily → String
  | .error => "Error"
  | .warning => "Warning"
  | .dependency => "Dependency"

def all : List CodeFamily := [.error, .warning, .dependency]

def ofName? (name : String) : Option CodeFamily :=
  all.find? (·.name == name)

/-- The letter that codes of a family start with. -/
def letter : CodeFamily → Char
  | .error => 'E'
  | .warning => 'W'
  | .dependency => 'D'

end CodeFamily

structure FindingCode where
  family : CodeFamily
  number : UInt16
  deriving DecidableEq, Repr

/-- A number with at least three digits. -/
def threeDigits (n : Nat) : List Char :=
  let digits := Nat.toDigits 10 n
  List.replicate (3 - digits.length) '0' ++ digits

/-- The letter of the family and the number with at least three digits. -/
def FindingCode.text (code : FindingCode) : String :=
  String.ofList (code.family.letter :: threeDigits code.number.toNat)

structure Finding where
  severity : Severity
  code : FindingCode
  message : String
  file : Option String
  notes : List String
  help : List String
  deriving DecidableEq, Repr

namespace Finding

/-- A finding without a file, notes or help. -/
def plain (severity : Severity) (code : FindingCode) (message : String) : Finding :=
  { severity, code, message, file := none, notes := [], help := [] }

def withFile (d : Finding) (file : String) : Finding :=
  { d with file := some file }

/-- The same finding with one more note. -/
def withNote (d : Finding) (note : String) : Finding :=
  { d with notes := d.notes ++ [note] }

/-- The same finding with one more help text. -/
def withHelp (d : Finding) (help : String) : Finding :=
  { d with help := d.help ++ [help] }

def withSeverity (d : Finding) (severity : Severity) : Finding :=
  { d with severity }

/-- A finding on one line, unless its message has several. -/
def summary (d : Finding) : String :=
  d.severity.name ++ "[" ++ d.code.text ++ "]: " ++ d.message

end Finding
end BuildTree
