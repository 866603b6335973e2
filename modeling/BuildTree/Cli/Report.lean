import BuildTree.Build.Assembly
import BuildTree.Cli.Command
import BuildTree.Cli.LogFilter
import BuildTree.Plan.Load

/-!
# Reports — what a command leaves behind

A command answers with an exit code, what it prints, its lines of messages, and the disk.  How it
prints depends on its options and on the environment.
-/

namespace BuildTree

structure Environment where
  /-- Set if reports are not to be coloured. -/
  noColor : Option String
  /-- The kind of terminal. -/
  terminal : Option String
  logFilter : Option String
  deriving DecidableEq, Repr

structure Style where
  quiet : Bool
  verbose : Bool
  /-- Whether findings are coloured. -/
  color : Bool
  logFilter : LogFilter
  /-- Whether the log is coloured. -/
  colorsNotices : Bool
  deriving DecidableEq, Repr

def Style.of (options : GlobalOptions) (environment : Environment) : Style where
  quiet := options.quiet
  verbose := options.verbose
  color :=
    match options.color with
    | .auto => environment.noColor.isNone && environment.terminal.isSome
    | .always => true
    | .never => false
  logFilter := .choose environment.logFilter options.quiet
  colorsNotices := environment.noColor.all (· == "")

/-- The lines of the log for notices. -/
def Style.noticeLines (style : Style) (notices : List Notice) : List String :=
  (notices.filter style.logFilter.writes).map fun notice =>
    if style.colorsNotices then notice.colorLine else notice.plainLine

structure CommandReport where
  code : Nat
  output : Bytes
  messages : List String
  disk : FileStore

namespace CommandReport

/-- The report of a command that failed behind some messages. -/
def failure (disk : FileStore) (before : List String) (message : String) : CommandReport :=
  ⟨1, [], before ++ ["error: " ++ message], disk⟩

def messageText (report : CommandReport) : String :=
  String.join (report.messages.map (· ++ "\n"))

end CommandReport

def printedLine (line : String) : Bytes :=
  Bytes.ofString (line ++ "\n")

/-- The plan of a command: that of the working directory unless a file or a directory is
named. -/
def loadPlan (disk : FileStore) (named : Option String) : Except PlanError BuildPlan :=
  match named with
  | none => BuildPlan.loadDirectory disk disk.workingName
  | some name =>
      if disk.isDirectory name then BuildPlan.loadDirectory disk name
      else BuildPlan.loadFile disk name

end BuildTree
