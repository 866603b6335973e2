import BuildTree.Build.Notice
import BuildTree.Cli.LogLevel
import BuildTree.Cli.LogPattern
import BuildTree.Text.Sign

/-!
# Log rules — the parts of a log filter

A rule is a level, a topic, or both with an equals sign between them.  Behind the topic may stand
what else the rule is about, in brackets: the name of a stretch of work, and in braces a field of
the log's lines, maybe with the value that it has to have.  Notices are no stretches of work and
their values are not looked at, so only rules without the name of a stretch and without a value tell
whether notices are written.

The parts of a rule are found in its text without the blanks around it, but they are taken from the
same places of the text as it stands.
-/

namespace BuildTree

structure LogField where
  name : String
  value : Option String
  deriving DecidableEq, Repr

/-- Which lines of the log a rule is about: all of them where it says nothing. -/
structure LogScope where
  /-- How the topic starts. -/
  topic : Option String
  /-- The stretch of work. -/
  span : Option String
  field : Option LogField
  deriving DecidableEq, Repr

/-- A part of a filter: how much is logged of what. -/
structure LogRule where
  scope : LogScope
  level : LogLevel
  deriving DecidableEq, Repr

namespace LogField

/-- A field from its text: its name, or its name and a value behind an equals sign.  A value is a
number or a pattern. -/
def ofText? (text : List Char) : Option LogField :=
  match text.splitOn '=' with
  | name :: value :: _ =>
      if LogPattern.isWellFormed (dropPlus value) then
        some ⟨String.ofList name, some (String.ofList value)⟩
      else none
  | _ => if text.isEmpty then none else some ⟨String.ofList text, none⟩
where
  /-- A value without the plus sign in front of a number. -/
  dropPlus : List Char → List Char
    | '+' :: c :: rest => if c.isDigit || c == '.' then c :: rest else '+' :: c :: rest
    | value => value

end LogField

namespace LogScope

def everything : LogScope := ⟨none, none, none⟩

/-- Whether a scope tells apart notices: it is not about a stretch of work or a value. -/
def isPlain (scope : LogScope) : Bool :=
  scope.span.isNone && scope.field.all (·.value.isNone)

/-- Whether a scope holds the lines of a notice. -/
def holds (scope : LogScope) (notice : Notice) : Bool :=
  scope.isPlain && scope.topic.all (Text.startsWith notice.topic) &&
    scope.field.all (notice.fieldNames.contains ·.name)

end LogScope

namespace LogRule

def part (whole : List Char) (start stop : Nat) : List Char :=
  (whole.drop start).take (stop - start)

/-- The first place from `start` on with one of some characters, or the end. -/
def find (text : List Char) (wanted : List Char) (start : Nat) : Nat :=
  start + ((text.drop start).takeWhile (!wanted.contains ·)).length

/-- A rule from its scope and the text of its level; everything is logged if that is empty. -/
def withLevel? (scope : LogScope) (text : List Char) : Option LogRule :=
  if text.isEmpty then some ⟨scope, .trace⟩
  else (LogLevel.ofText? text).map fun level => ⟨scope, level⟩

/-- A rule from the place behind its brackets on: there is nothing, or a level. -/
def behindBrackets? (whole trimmed : List Char) (scope : LogScope) (start : Nat) :
    Option LogRule :=
  match trimmed.drop start with
  | [] => some ⟨scope, .trace⟩
  | '=' :: _ => withLevel? scope (whole.drop (start + 1))
  | _ => none

/-- A rule from the place behind its opening bracket on. -/
def inBrackets? (whole trimmed : List Char) (topic : Option String) (start : Nat) :
    Option LogRule := do
  let stop := find trimmed [']', '\x7b'] start
  let name := part whole start stop
  let span := String.ofList name
  if trimmed[stop]? = some ']' then
    behindBrackets? whole trimmed ⟨topic, some span, none⟩ (stop + 1)
  else
    let last := find trimmed ['\x7d'] (stop + 1)
    if trimmed[last]? ≠ some '\x7d' ∨ trimmed[last + 1]? ≠ some ']' then none
    let field ← LogField.ofText? (part whole (stop + 1) last)
    let span? := if name.isEmpty then none else some span
    behindBrackets? whole trimmed ⟨topic, span?, some field⟩ (last + 2)

def startsTopic (c : Char) : Bool :=
  Sign.isAlphanumeric c || c == '_' || c == ':' || c == '-'

def ofText? (whole : List Char) : Option LogRule :=
  let trimmed := Text.trim whole
  match trimmed with
  | [] => none
  | '[' :: _ => inBrackets? whole trimmed none 1
  | c :: _ =>
      let stop := find trimmed ['=', '['] 0
      let topic := some (String.ofList (part whole 0 stop))
      if !startsTopic c then none
      else if stop = trimmed.length then
        some (match LogLevel.ofText? whole with
          | some level => ⟨.everything, level⟩
          | none => ⟨⟨some (String.ofList whole), none, none⟩, .trace⟩)
      else if trimmed[stop]? = some '=' then
        withLevel? ⟨topic, none, none⟩ (whole.drop (stop + 1))
      else inBrackets? whole trimmed topic (stop + 1)

end LogRule
end BuildTree
