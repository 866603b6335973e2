import BuildTree.Cli.AuditCommand
import BuildTree.Cli.PackCommand
import BuildTree.Cli.ResolveCommand

/-!
# The program — from a command line to a report

A command line that cannot be read has the exit code 2, a command that failed the code 1.  A program
that runs against a real disk needs to know which files a command looks at: `inputs` names them,
given those that are known so far.
-/

namespace BuildTree
namespace Program

def usageCode : Nat := 2

def versionLine : String := "vesta 0.1.0"

def usageLines : List String := [
  "Usage: vesta [OPTIONS] <COMMAND>",
  "",
  "Commands:",
  "  resolve [--list DIR] [--cat FILE]            look into the tree of a build request",
  "  audit --imports FILE [-f text|json]          judge a table of imports",
  "  pack -o FILE [--root DIR] FILES...           bundle files into an archive",
  "",
  "Options:",
  "  -q, --quiet    -v, --verbose    --color auto|always|never    --config PATH",
  "  -h, --help     -V, --version"]

/-- The report of a command line without a command. -/
def haltReport (disk : FileStore) : Halt → CommandReport
  | .usage => ⟨usageCode, [], usageLines, disk⟩
  | .help => ⟨0, usageLines.flatMap printedLine, [], disk⟩
  | .version => ⟨0, printedLine versionLine, [], disk⟩

def withPlan (disk : FileStore) (options : GlobalOptions)
    (command : BuildPlan → CommandReport) : CommandReport :=
  match loadPlan disk options.planFile with
  | .error err => .failure disk [] err.message
  | .ok plan => command plan

def run (disk : FileStore) (environment : Environment) (words : List String) : CommandReport :=
  match Command.parse words with
  | .error halt => haltReport disk halt
  | .ok (options, command) =>
      let style := Style.of options environment
      match command with
      | .resolve listed shown =>
          withPlan disk options fun plan =>
            ResolveCommand.run disk style plan listed shown
      | .audit imports format =>
          withPlan disk options fun plan =>
            AuditCommand.run disk style plan imports format
      | .pack output root files => PackCommand.run disk style output root files

/-! ## Files that a command looks at -/

/-- The files in which the plan of a command may be. -/
def planFiles (disk : FileStore) (options : GlobalOptions) : List String :=
  match options.planFile with
  | none => [Disk.join disk.workingName BuildPlan.fileName]
  | some name => [name, Disk.join name BuildPlan.fileName]

def planInputs (plan : BuildPlan) : List String :=
  plan.archiveNames ++ plan.request.sources

/-- The files that a command looks at, as far as they can be told from the files known so far. -/
def inputs (disk : FileStore) (words : List String) : List String :=
  match Command.parse words with
  | .error _ => []
  | .ok (_, .pack output _ files) => output :: files
  | .ok (options, command) =>
      let table := match command with
        | .audit imports _ => [imports]
        | _ => []
      let named := match loadPlan disk options.planFile with
        | .ok plan => planInputs plan
        | .error _ => []
      table ++ planFiles disk options ++ named

def written? (words : List String) : Option String :=
  match Command.parse words with
  | .ok (_, .pack output _ _) => some output
  | _ => none

end Program
end BuildTree
