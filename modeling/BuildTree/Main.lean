import BuildTree.Cli.Program

/-!
# Main — the program against a real disk

The files that a command looks at are read into a file store, the command runs on the store, and
what it printed and wrote is put out.
-/

open BuildTree

def leadsToDirectory (name : String) : IO Bool := do
  try (← IO.FS.realPath name).isDir
  catch _ => pure false

/-- A store with what the disk holds under a name and with the directory before it. -/
def fetch (store : FileStore) (name : String) : IO FileStore := do
  let dir := (Disk.parent? name).getD ""
  let store := if ← leadsToDirectory dir then store.write (dir ++ "/") [] else store
  if ← leadsToDirectory name then pure (store.write (name ++ "/") [])
  else
    try pure (store.write name (← IO.FS.readBinFile name).toList)
    catch _ => pure store

/-- Fetches the files that a command looks at: first those that its words name, then those that its
plan names. -/
def fetchInputs (store : FileStore) (words : List String) : IO FileStore := do
  let store ← (Program.inputs store words).foldlM fetch store
  (Program.inputs store words).foldlM fetch store

def main (words : List String) : IO UInt32 := do
  let here := (← IO.currentDir).toString
  let empty := FileStore.empty ((here.splitOn "/").filter (· ≠ ""))
  let store ← fetchInputs empty words
  let environment : Environment := {
    noColor := ← IO.getEnv "NO_COLOR"
    terminal := ← IO.getEnv "TERM"
    logFilter := ← IO.getEnv "RUST_LOG" }
  let report := Program.run store environment words
  if let some name := Program.written? words then
    match report.disk.read name with
    | .ok data => IO.FS.writeBinFile name ⟨data.toArray⟩
    | .error _ => pure ()
  (← IO.getStderr).putStr report.messageText
  (← IO.getStdout).write ⟨report.output.toArray⟩
  return UInt32.ofNat report.code
