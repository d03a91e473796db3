/-!
# Checksums

The 32-bit cyclic redundancy check of archives, with the reflected polynomial.
-/
namespace JniHeader.Crc32

def polynomial : UInt32 := 0xEDB88320

/-- Divide out one bit. -/
def shift (c : UInt32) : UInt32 :=
  if c &&& 1 = 1 then (c >>> 1) ^^^ polynomial else c >>> 1

/-- Take in one byte. -/
def update (c : UInt32) (b : UInt8) : UInt32 :=
  shift (shift (shift (shift (shift (shift (shift (shift (c ^^^ b.toUInt32))))))))

def checksum (bytes : List UInt8) : UInt32 :=
  bytes.foldl update 0xFFFFFFFF ^^^ 0xFFFFFFFF

end JniHeader.Crc32
