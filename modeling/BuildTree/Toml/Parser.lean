import BuildTree.Toml.Number
import BuildTree.Toml.Text

/-!
# Reading TOML

Values are read recursively; arrays may spread over lines, tables in braces may not.  A document is
read line by line into the table that the last header named, which is put in its place in the
document when the next header, or the end, comes.  A key may be given once, a table may be opened by
one header, and what was written as a value cannot be extended.
-/

namespace BuildTree
namespace Toml

/-! ## Paths into tables -/

/-- Changes the table that a path leads to, making the tables on the way that are missing; `kind` is
what they become.  The change gets the kind and the entries of the table.  A path does not lead
through a value, and a dotted one not through a table that was written as such. -/
def changeAt (kind : TableKind) (change : TableKind → TomlEntries → Option TomlEntries) :
    List String → (own : TableKind) → TomlEntries → Option TomlEntries
  | [], own, entries => change own entries
  | part :: path, _, entries =>
      match entries.lookup part with
      | none =>
          (changeAt kind change path kind []).map fun below =>
            entries.put part (.table kind below)
      | some (.table .inline _) => none
      | some (.table child below) =>
          if kind = .dotted ∧ !child.isImplicit then none
          else
            (changeAt kind change path child below).map fun below =>
              entries.put part (.table child below)
      | some (.tables elements) =>
          -- A header below repeated tables speaks of the one written last.
          match elements.getLast? with
          | none => none
          | some below =>
              (changeAt kind change path .header below).map fun below =>
                entries.put part (.tables (elements.dropLast ++ [below]))
      | some _ => none

/-- Adds a value under a key to the table that the rest of the key leads to.  A dotted key only adds
to tables that dotted keys made. -/
def addValue (path : List String) (name : String) (value : Toml) (entries : TomlEntries) :
    Option TomlEntries :=
  changeAt .dotted (fun own entries =>
    if (own == .dotted) == path.isEmpty ∨ (entries.lookup name).isSome then none
    else some (entries ++ [(name, value)])) path .header entries

def splitKey (parts : List String) : List String × String :=
  (parts.dropLast, parts.getLastD "")

/-! ## Values -/

mutual

/-- A value inside `depth` others. -/
def value : (fuel depth : Nat) → List Char → Option (Toml × List Char)
  | 0, _, _ => none
  | fuel + 1, depth, text =>
      match text with
      | '[' :: rest =>
          if depthLimit ≤ depth + 1 then none
          else (arrayElements fuel (depth + 1) rest).map fun (es, after) => (.array es, after)
      | '\x7b' :: rest =>
          if depthLimit ≤ depth + 1 then none
          else
            match skipBlanks rest with
            | '\x7d' :: after => some (.table .inline [], after)
            | _ =>
                (inlineEntries fuel (depth + 1) rest []).map fun (entries, after) =>
                  (.table .inline entries, after)
      | '"' :: _ => (stringToken text).map fun (s, after) => (.string s, after)
      | '\'' :: _ => (stringToken text).map fun (s, after) => (.string s, after)
      | _ => scalarValue text

/-- The elements of an array up to its closing bracket; a comma may follow the last one. -/
def arrayElements : (fuel depth : Nat) → List Char → Option (List Toml × List Char)
  | 0, _, _ => none
  | fuel + 1, depth, text =>
      match skipLines text.length text with
      | ']' :: after => some ([], after)
      | rest =>
          match value fuel depth rest with
          | none => none
          | some (v, rest) =>
              match skipLines rest.length rest with
              | ']' :: after => some ([v], after)
              | ',' :: rest =>
                  (arrayElements fuel depth rest).map fun (vs, after) => (v :: vs, after)
              | _ => none

def inlineEntries : (fuel depth : Nat) → List Char → TomlEntries →
    Option (TomlEntries × List Char)
  | 0, _, _, _ => none
  | fuel + 1, depth, text, entries =>
      match key text with
      | some (parts, '=' :: rest) =>
          match value fuel depth (skipBlanks rest) with
          | none => none
          | some (v, rest) =>
              let (path, name) := splitKey parts
              match addValue path name v entries with
              | none => none
              | some entries =>
                  match skipBlanks rest with
                  | '\x7d' :: after => some (entries, after)
                  | ',' :: rest => inlineEntries fuel depth rest entries
                  | _ => none
      | _ => none

end

/-! ## Documents -/

/-- A document being read: what is in place, and the table of the last header. -/
structure Draft where
  root : TomlEntries
  current : TomlEntries
  path : List String
  /-- Whether the last header was one of repeated ones. -/
  repeated : Bool

def Draft.empty : Draft := ⟨[], [], [], false⟩

def Draft.finish (draft : Draft) : Option TomlEntries :=
  if draft.path = [] then some draft.current
  else
    let (path, name) := splitKey draft.path
    changeAt .implicit (fun _ entries =>
      if draft.repeated then
        match entries.lookup name with
        | some (.tables elements) => some (entries.put name (.tables (elements ++ [draft.current])))
        | none => some (entries.put name (.tables [draft.current]))
        | some _ => none
      else
        match entries.lookup name with
        | none => some (entries.put name (.table .header draft.current))
        | some _ => none) path .header draft.root

/-- Opens the table of a header.  A table that was only implied so far may be opened, and keeps what
it holds. -/
def Draft.openTable (draft : Draft) (parts : List String) : Option Draft := do
  let root ← draft.finish
  let (path, name) := splitKey parts
  let held ← tableAt path root
  match held.lookup name with
  | none => pure { root, current := [], path := parts, repeated := false }
  | some (.table .implicit entries) =>
      let root ← changeAt .implicit (fun _ entries => some (entries.remove name)) path .header root
      pure { root, current := entries, path := parts, repeated := false }
  | some _ => none
where
  /-- The entries of the table that a path leads to. -/
  tableAt : List String → TomlEntries → Option TomlEntries
    | [], entries => some entries
    | part :: path, entries =>
        match entries.lookup part with
        | none => some []
        | some (.table .inline _) => none
        | some (.table _ below) => tableAt path below
        | some (.tables elements) => (elements.getLast?).bind (tableAt path)
        | some _ => none

/-- Opens one more table of a repeated header. -/
def Draft.openRepeated (draft : Draft) (parts : List String) : Option Draft := do
  let root ← draft.finish
  let (path, name) := splitKey parts
  let root ← changeAt .implicit (fun _ entries =>
    match entries.lookup name with
    | none => some entries
    | some (.tables _) => some entries
    | some _ => none) path .header root
  pure { root, current := [], path := parts, repeated := true }

/-- One line that is not empty: a header, or a key with its value. -/
def statement (draft : Draft) (text : List Char) : Option (Draft × List Char) := do
  match text with
  | '[' :: '[' :: rest =>
      match ← key rest with
      | (parts, ']' :: ']' :: rest) => pure (← draft.openRepeated parts, ← lineEnd? rest)
      | _ => none
  | '[' :: rest =>
      match ← key rest with
      | (parts, ']' :: rest) => pure (← draft.openTable parts, ← lineEnd? rest)
      | _ => none
  | _ =>
      match ← key text with
      | (parts, '=' :: rest) =>
          let (v, rest) ← value (2 * text.length + 2) 0 (skipBlanks rest)
          let (path, name) := splitKey parts
          let current ← addValue path name v draft.current
          pure ({ draft with current }, ← lineEnd? rest)
      | _ => none

def statements : (fuel : Nat) → Draft → List Char → Option Draft
  | 0, _, _ => none
  | fuel + 1, draft, text =>
      match skipBlanks text with
      | [] => some draft
      | '#' :: rest => (lineEnd? ('#' :: rest)).bind (statements fuel draft)
      | '\n' :: rest => statements fuel draft rest
      | '\r' :: '\n' :: rest => statements fuel draft rest
      | rest =>
          match statement draft rest with
          | none => none
          | some (draft, rest) => statements fuel draft rest

/-- The table of a document, which may start with a byte order mark. -/
def parse (text : String) : Option TomlEntries :=
  let cs := match text.toList with
    | '\ufeff' :: rest => rest
    | cs => cs
  (statements (cs.length + 1) Draft.empty cs).bind Draft.finish

end Toml
end BuildTree
