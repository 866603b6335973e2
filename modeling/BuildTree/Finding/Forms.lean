import BuildTree.Finding.Basic
import BuildTree.Json.Parser
import BuildTree.Json.Printer

/-!
# Forms of findings — for people and for programs

For people: the summary, then the file, the notes and the help on lines of their own, with the
severity in colour if wanted.  For programs: one JSON object on one line, whose absent parts are
left out; `ofJson?` reads it back.
-/

namespace BuildTree

/-- The terminal's colour for a severity. -/
def Severity.ansi : Severity → String
  | .error => "1;31"
  | .warning => "1;33"
  | .note => "1;36"

/-- The name of a severity, in colour if wanted. -/
def Severity.styled (severity : Severity) (color : Bool) : String :=
  if color then "\x1b[" ++ severity.ansi ++ "m" ++ severity.name ++ "\x1b[0m" else severity.name

def Severity.ofJson? (value : Json) : Option Severity :=
  value.choice?.bind ofName?

namespace Finding

/-- A finding for people. -/
def terminal (d : Finding) (color : Bool) : String :=
  d.severity.styled color ++ "[" ++ d.code.text ++ "]: " ++ d.message ++
    String.join (d.file.toList.map ("\n  --> " ++ ·)) ++
    String.join (d.notes.map ("\n   = note: " ++ ·)) ++
    String.join (d.help.map ("\n   = help: " ++ ·))

/-- A list of texts as a member, left out if empty. -/
def listMember (name : String) (texts : List String) : List (String × Json) :=
  if texts.isEmpty then [] else [(name, .array (texts.map .string))]

def toJson (d : Finding) : Json :=
  .object <|
    [("severity", .string d.severity.name),
      ("code", .object [("category", .string d.code.family.name),
        ("number", .number (.natural d.code.number.toNat))]),
      ("message", .string d.message)] ++
    d.file.toList.map (fun file => ("file", .string file)) ++
    listMember "notes" d.notes ++ listMember "help" d.help

/-- A finding for programs, on one line. -/
def jsonLine (d : Finding) : String :=
  d.toJson.compact

/-- A code, from a record of its family and its number. -/
def codeOfJson? (value : Json) : Option FindingCode := do
  let [family, number] ← value.record? ["category", "number"] | none
  let family ← (← family).choice?.bind CodeFamily.ofName?
  let number ← (← number).natural?
  if number < 65536 then pure ⟨family, UInt16.ofNat number⟩ else none

/-- A list of texts that may be absent. -/
def textsOfJson? : Option Json → Option (List String)
  | none => some []
  | some value => value.strings?

/-- A finding, from a record of its fields. -/
def ofJson? (value : Json) : Option Finding := do
  let [severity, code, message, file, notes, help] ←
    value.record? ["severity", "code", "message", "file", "notes", "help"] | none
  let severity ← Severity.ofJson? (← severity)
  let code ← codeOfJson? (← code)
  let message ← (← message).string?
  let file ← Json.optionalString? file
  let notes ← textsOfJson? notes
  let help ← textsOfJson? help
  pure { severity, code, message, file, notes, help }

def parse? (text : String) : Option Finding :=
  (Json.parse text).bind ofJson?

end Finding
end BuildTree
