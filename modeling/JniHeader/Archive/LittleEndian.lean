/-!
# Numbers in a byte array

Fields of an archive are unsigned numbers, least significant byte first. Bytes
beyond the end read as zero; callers check lengths where that matters.
-/
namespace JniHeader

/-- The number in `size` bytes from position `i`, least significant first. -/
def littleEndian (b : ByteArray) (i : Nat) : (size : Nat) → Nat
  | 0 => 0
  | size + 1 => (b.data[i]?.getD 0).toNat + 256 * littleEndian b (i + 1) size

/-- At most `size` bytes from position `i`. -/
def slice (b : ByteArray) (i size : Nat) : List UInt8 := (b.extract i (i + size)).data.toList

end JniHeader
