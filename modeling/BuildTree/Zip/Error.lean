/-!
# Zip errors — why a zip file cannot be read

Some faults spoil the whole file and some only one entry, which is reported when the entry is
opened or read.
-/

namespace BuildTree

/-- Why a zip file cannot be read. -/
inductive ZipError
  | noDirectory
  | badEndRecord
  | badDirectory
  | badExtraField
  | badLocalHeader
  | severalDisks
  | passwordRequired
  | unsupportedMethod
  | corruptData
  | badChecksum
  | isDirectory
  deriving DecidableEq, Repr

def ZipError.message : ZipError → String
  | .noDirectory => "invalid Zip archive: Could not find EOCD"
  | .badEndRecord => "invalid Zip archive: Invalid EOCD"
  | .badDirectory => "invalid Zip archive: Invalid Central Directory header"
  | .badExtraField => "invalid Zip archive: Invalid extra field"
  | .badLocalHeader => "invalid Zip archive: Invalid local file header"
  | .severalDisks => "unsupported Zip archive: Support for multi-disk files is not implemented"
  | .passwordRequired => "unsupported Zip archive: Password required to decrypt file"
  | .unsupportedMethod => "unsupported Zip archive: Compression method not supported"
  | .corruptData => "i/o error: corrupt deflate stream"
  | .badChecksum => "i/o error: Invalid checksum"
  | .isDirectory => "i/o error: Is a directory (os error 21)"

end BuildTree
