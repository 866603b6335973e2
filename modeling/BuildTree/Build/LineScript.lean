import BuildTree.Build.Compilation

/-!
# Line scripts — the smallest language to build

A line script is a text of commands, one on a line: a word, a blank and the rest of the line.
Commands name the files that a script imports, report something, or emit a file; any other line says
nothing.  Compiling a script carries its commands out and emits its lines under a name for compiled
scripts.
-/

namespace BuildTree
namespace LineScript

/-- The word before the first blank of a line and what follows the blank, if there is one. -/
def command? (line : String) : Option (String × String) :=
  let cs := line.toList
  match cs.dropWhile (· != ' ') with
  | [] => none
  | _ :: rest => some (String.ofList (cs.takeWhile (· != ' ')), String.ofList rest)

def report (severity : Severity) (family : CodeFamily) (script message : String) : Finding :=
  (Finding.plain severity ⟨family, 1⟩ message).withFile script

def addReport (output : Compilation) (d : Finding) : Compilation :=
  { output with findings := output.findings ++ [d] }

def addImport (output : Compilation) (script imported : String) : Compilation :=
  { output with imports := (output.imports.note script imported).2 }

def addArtifact (output : Compilation) (path text : String) : Compilation :=
  { output with artifacts := output.artifacts ++ [⟨path, Bytes.ofString text⟩] }

/-- Carries out one line of a script. -/
def runLine (view : CompilerView) (script : String) (output : Compilation) (line : String) :
    Except Fault Compilation :=
  match command? line with
  | some ("import", path) =>
      (view.hasFile path).map fun found =>
        if found then addImport output script path
        else addReport output (report .error .error script path)
  | some ("force", path) => .ok (addImport output script path)
  | some ("error", message) => .ok (addReport output (report .error .error script message))
  | some ("warn", message) => .ok (addReport output (report .warning .warning script message))
  | some ("note", message) => .ok (addReport output (report .note .warning script message))
  | some ("emit", path) => .ok (addArtifact output path script)
  | _ => .ok output

def compiledName (script : String) : String :=
  String.ofList (Text.replaceAll script.toList ".ts".toList ".js".toList)

def joined (lines : List String) : String :=
  String.intercalate "\n" lines

/-- Compiles one script; one that is not in the tree adds nothing. -/
def compileScript (view : CompilerView) (settings : CompilerSettings)
    (progress : Compilation × ParseCache (List String)) (script : TreePath) :
    Except Fault (Compilation × ParseCache (List String)) := do
  let (output, sources) := progress
  let (lines?, sources) ←
    view.parsedFile sources script.text settings.languageVersion fun _ text => Text.lines text
  match lines? with
  | none => pure (output, sources)
  | some lines =>
      let output ← lines.foldlM (runLine view script.text) output
      pure (addArtifact output (compiledName script.text) (joined lines), sources)

/-- What is emitted before any script: the arguments, if there are some. -/
def initial (settings : CompilerSettings) : Compilation :=
  if settings.args = [] then Compilation.empty
  else addArtifact Compilation.empty "/args.txt" (joined settings.args)

def compiler : Compiler (List String) where
  compile view scripts settings sources :=
    scripts.foldlM (compileScript view settings) (initial settings, sources)

end LineScript
end BuildTree
