import BuildTree.Bytes

/-!
# CRC-32 — the checksum of compressed files

The cyclic redundancy check with the reflected polynomial `0xEDB88320`.
-/

namespace BuildTree
namespace Crc32

/-- One bit shifted out of the register. -/
def shift (register : UInt32) : UInt32 :=
  if register &&& 1 = 1 then (register >>> 1) ^^^ 0xEDB88320 else register >>> 1

/-- One octet taken into the register. -/
def update (register : UInt32) (b : UInt8) : UInt32 :=
  Nat.repeat shift 8 (register ^^^ b.toUInt32)

def ofBytes (bytes : Bytes) : UInt32 :=
  bytes.foldl update 0xFFFFFFFF ^^^ 0xFFFFFFFF

end Crc32
end BuildTree
