import BuildTree.Cli.Options

/-!
# Commands — what a command line asks for

There are three commands: `resolve` looks into the tree of a request, `audit` judges a graph of
imports, `pack` puts files into an archive.  Some options can stand before the command as well as
behind it; behind it they count.
-/

namespace BuildTree

inductive ColorMode
  | auto
  | always
  | never
  deriving DecidableEq, Repr

/-- How findings are reported. -/
inductive FindingForm
  | text
  | json
  deriving DecidableEq, Repr

structure GlobalOptions where
  quiet : Bool
  verbose : Bool
  color : ColorMode
  /-- The plan file, or its directory. -/
  planFile : Option String
  deriving DecidableEq, Repr

inductive Command
  /-- Lists a directory, shows a file, or sums up the tree if neither is asked for. -/
  | resolve (list cat : Option String)
  | audit (imports : String) (format : FindingForm)
  | pack (output root : String) (files : List String)
  deriving DecidableEq, Repr

namespace Command

def sharedSpecs : List OptionSpec := [
  { name := "quiet", letter := some 'q', takesValue := false },
  { name := "verbose", letter := some 'v', takesValue := false },
  { name := "color", letter := none, takesValue := true, choices := ["auto", "always", "never"] },
  { name := "config", letter := none, takesValue := true }]

/-- What can stand before the command. -/
def mainTable : OptionTable := ⟨sharedSpecs, true⟩

def resolveTable : OptionTable where
  specs := sharedSpecs ++ [
    { name := "list", letter := none, takesValue := true },
    { name := "cat", letter := none, takesValue := true }]
  showsVersion := false

def auditTable : OptionTable where
  specs := sharedSpecs ++ [
    { name := "imports", letter := none, takesValue := true },
    { name := "format", letter := some 'f', takesValue := true, choices := ["text", "json"] }]
  showsVersion := false

def packTable : OptionTable where
  specs := sharedSpecs ++ [
    { name := "output", letter := some 'o', takesValue := true },
    { name := "root", letter := none, takesValue := true }]
  showsVersion := false

def table? (name : String) : Option OptionTable :=
  if name = "resolve" then some resolveTable
  else if name = "audit" then some auditTable
  else if name = "pack" then some packTable
  else none

def colorMode (name : Option String) : ColorMode :=
  if name = some "always" then .always
  else if name = some "never" then .never
  else .auto

/-- The options of every command, those behind the command first. -/
def globalOptions (given : GivenOptions) : GlobalOptions where
  quiet := (given.lookup "quiet").isSome
  verbose := (given.lookup "verbose").isSome
  color := colorMode (given.lookup "color")
  planFile := given.lookup "config"

/-- The command of a name, from the options and operands behind it. -/
def build (name : String) (given : GivenOptions) (operands : List String) :
    Except Halt Command :=
  if name = "resolve" then
    if operands = [] then .ok (.resolve (given.lookup "list") (given.lookup "cat"))
    else .error .usage
  else if name = "audit" then
    match given.lookup "imports", operands with
    | some imports, [] =>
        .ok (.audit imports (if given.lookup "format" = some "json" then .json else .text))
    | _, _ => .error .usage
  else
    match given.lookup "output", operands with
    | some output, _ :: _ => .ok (.pack output ((given.lookup "root").getD ".") operands)
    | _, _ => .error .usage

/-- A request for help: it may name one command. -/
def helpRequest (words : List String) : Halt :=
  match words with
  | [] => .help
  | [name] => if (table? name).isSome ∨ name = "help" then .help else .usage
  | _ => .usage

/-- The options and the command of a command line. -/
def parse (words : List String) : Except Halt (GlobalOptions × Command) :=
  match mainTable.readLeading [] words with
  | .error halt => .error halt
  | .ok (_, true, _) => .error .usage
  | .ok (_, false, []) => .error .usage
  | .ok (before, false, name :: rest) =>
      match table? name with
      | none => .error (if name = "help" then helpRequest rest else .usage)
      | some table =>
          match table.readAll (rest.length + 1) [] rest with
          | .error halt => .error halt
          | .ok (given, operands) =>
              (build name given operands).map fun command =>
                (globalOptions (given ++ before), command)

end Command
end BuildTree
