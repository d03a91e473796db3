import JniHeader.ClassFile.Basic

/-!
# Reading bytes in order

A reader takes bytes from the front of its input and keeps count of those taken,
so that a truncation can be located.
-/
namespace JniHeader.ClassFile

/-- The bytes still to come and the count of those taken. -/
structure Cursor where
  rest : List UInt8
  offset : Nat

abbrev Reader := StateT Cursor (Except ParseError)

/-- Take `size` bytes, or refuse without taking any. -/
def take (size : Nat) : Reader (List UInt8) := fun c =>
  let chunk := c.rest.take size
  if chunk.length < size then .error (.truncated size c.offset)
  else .ok (chunk, ⟨c.rest.drop size, c.offset + size⟩)

/-- The number that bytes spell, most significant first. -/
def bigEndian (bytes : List UInt8) : Nat := bytes.foldl (fun n b => n * 256 + b.toNat) 0

/-- An unsigned number of `size` bytes. -/
def unsigned (size : Nat) : Reader Nat := bigEndian <$> take size

/-- A number of `size` bytes in two's complement. -/
def signed (size : Nat) : Reader Int :=
  (fun n => if 2 * n < Nat.pow 256 size then (n : Int) else n - Nat.pow 256 size) <$>
    unsigned size

/-- Run a reader `count` times. -/
def repeated {α : Type} (count : Nat) (item : Reader α) : Reader (List α) :=
  match count with
  | 0 => pure []
  | n + 1 => do
    let x ← item
    let xs ← repeated n item
    pure (x :: xs)

/-- A two-byte count and that many items. -/
def counted {α : Type} (item : Reader α) : Reader (List α) := do
  let count ← unsigned 2
  repeated count item

end JniHeader.ClassFile
