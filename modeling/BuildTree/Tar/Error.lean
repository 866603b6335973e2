import BuildTree.Path.Basic

/-!
# Tar errors — why an archive cannot be read or written
-/

namespace BuildTree

/-- What goes wrong with the stream of blocks. -/
inductive BlockError
  | incompleteBlock
  | brokenStream
  | unexpectedEnd
  | checksum
  | number
  | sizeOverflow
  | repeatedExtension
  | missingMember
  | sparseMap
  | parentComponent
  | nulInName
  | nameTooLong
  | noComponent
  deriving DecidableEq, Repr

def BlockError.message : BlockError → String
  | .incompleteBlock => "failed to read entire block"
  | .brokenStream => "corrupt compressed stream"
  | .unexpectedEnd => "unexpected EOF during skip"
  | .checksum => "archive header checksum mismatch"
  | .number => "numeric field was not a number"
  | .sizeOverflow => "size overflow"
  | .repeatedExtension => "two extension entries describing the same member"
  | .missingMember => "members found describing a future member but no future member found"
  | .sparseMap => "malformed map of a sparse file"
  | .parentComponent => "paths in archives must not have `..`"
  | .nulInName => "provided value contains a nul byte"
  | .nameTooLong => "provided value is too long"
  | .noComponent => "paths in archives must have at least one component"

/-- Why an archive cannot be read, or a file cannot be put into one. -/
inductive TarError
  /-- A file holds less than its header declares. -/
  | shortEntry (entry : String) (declared held : Nat)
  | nameless (path : String)
  /-- The name of a file cannot be mapped into a tree. -/
  | invalidEntry (entry : String) (cause : PathError)
  /-- The stream of blocks is broken. -/
  | io (cause : BlockError)
  deriving DecidableEq, Repr

def TarError.message : TarError → String
  | .shortEntry entry declared held =>
      s!"malformed bundle: entry '{entry}' declares {declared} bytes but holds {held}"
  | .nameless path => s!"malformed bundle: cannot bundle a file at '{path}'"
  | .invalidEntry entry cause => s!"invalid entry name '{entry}': {cause.message}"
  | .io cause => s!"bundle I/O error: {cause.message}"

end BuildTree
