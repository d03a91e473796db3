import JniHeader.Text.Numeral
import JniHeader.Text.Utf16

/-!
# UTF-8

Bytes of a text, and the reading of bytes with an exact account of the first
fault. Surrogates are written as three bytes; a reader may accept or refuse
them. Modified UTF-8, the form of class files, writes U+0000 as two bytes and a
supplementary code point as two separately written surrogates.
-/
namespace JniHeader

/-- The one to four bytes of a code point; a surrogate takes three. -/
def CodePoint.utf8 (c : CodePoint) : List UInt8 :=
  let n := c.val
  if n < 0x80 then [n.toUInt8]
  else if n < 0x800 then [(0xC0 + n / 0x40).toUInt8, (0x80 + n % 0x40).toUInt8]
  else if n < 0x10000 then
    [(0xE0 + n / 0x1000).toUInt8, (0x80 + n / 0x40 % 0x40).toUInt8, (0x80 + n % 0x40).toUInt8]
  else
    [(0xF0 + n / 0x40000).toUInt8, (0x80 + n / 0x1000 % 0x40).toUInt8,
      (0x80 + n / 0x40 % 0x40).toUInt8, (0x80 + n % 0x40).toUInt8]

def Text.utf8 (t : Text) : List UInt8 := t.flatMap CodePoint.utf8

namespace Utf8

/-- Why a byte sequence is refused. -/
inductive Reason where
  | startByte
  | continuationByte
  | endOfData
deriving DecidableEq, Repr

def Reason.message : Reason → Text
  | .startByte => "invalid start byte"
  | .continuationByte => "invalid continuation byte"
  | .endOfData => "unexpected end of data"

/-- The bytes at fault: `length` bytes from `position`, the first of which is `byte`. -/
structure Fault where
  position : Nat
  length : Nat
  byte : UInt8
  reason : Reason
deriving DecidableEq, Repr

def Fault.message (f : Fault) : Text :=
  if f.length ≤ 1 then
    "'utf-8' codec can't decode byte 0x" ++ Text.lowerHex 2 f.byte.toNat ++ " in position "
      ++ Text.ofNat f.position ++ ": " ++ f.reason.message
  else
    "'utf-8' codec can't decode bytes in position " ++ Text.ofNat f.position ++ "-"
      ++ Text.ofNat (f.position + f.length - 1) ++ ": " ++ f.reason.message

/-- What a lead byte announces: its own bits, the count of continuation bytes, and the range of
the first of them. -/
structure Lead where
  bits : Nat
  count : Nat
  low : UInt8
  high : UInt8

/-- Lead bytes of sequences of two to four bytes; overlong forms, surrogates and numbers beyond
the last code point are excluded by the range of the second byte. -/
def lead? (b : UInt8) : Option Lead :=
  if b < 0xC2 then none
  else if b < 0xE0 then some ⟨b.toNat - 0xC0, 1, 0x80, 0xBF⟩
  else if b = 0xE0 then some ⟨0, 2, 0xA0, 0xBF⟩
  else if b = 0xED then some ⟨0xD, 2, 0x80, 0x9F⟩
  else if b < 0xF0 then some ⟨b.toNat - 0xE0, 2, 0x80, 0xBF⟩
  else if b = 0xF0 then some ⟨0, 3, 0x90, 0xBF⟩
  else if b < 0xF4 then some ⟨b.toNat - 0xF0, 3, 0x80, 0xBF⟩
  else if b = 0xF4 then some ⟨4, 3, 0x80, 0x8F⟩
  else none

/-- Read `count` continuation bytes, the first of them within a range. `seen` counts the bytes of
the sequence read so far. -/
def continuation : (count : Nat) → (low high : UInt8) → (value seen : Nat) → List UInt8 →
    Except (Nat × Reason) (Nat × List UInt8)
  | 0, _, _, value, _, rest => .ok (value, rest)
  | _ + 1, _, _, _, seen, [] => .error (seen, .endOfData)
  | count + 1, low, high, value, seen, b :: rest =>
    if low ≤ b ∧ b ≤ high then
      continuation count 0x80 0xBF (value * 0x40 + b.toNat % 0x40) (seen + 1) rest
    else .error (seen, .continuationByte)

/-- A surrogate written in three bytes, the first of which has been read. -/
def surrogate? (b : UInt8) : List UInt8 → Option (CodePoint × List UInt8)
  | c :: d :: rest =>
    if b = 0xED ∧ 0xA0 ≤ c ∧ c ≤ 0xBF ∧ 0x80 ≤ d ∧ d ≤ 0xBF then
      some (.ofNat (0xD000 + c.toNat % 0x40 * 0x40 + d.toNat % 0x40), rest)
    else none
  | _ => none

/-- Read one code point that starts with byte `b`; a refusal says how many bytes are at fault. -/
def decodeOne (surrogates : Bool) (b : UInt8) (rest : List UInt8) :
    Except (Nat × Reason) (CodePoint × List UInt8) :=
  if b < 0x80 then .ok (.ofNat b.toNat, rest)
  else
    match if surrogates then surrogate? b rest else none with
    | some found => .ok found
    | none =>
      match lead? b with
      | none => .error (1, .startByte)
      | some l =>
        match continuation l.count l.low l.high l.bits 1 rest with
        | .ok (n, rest) => .ok (.ofNat n, rest)
        | .error e => .error e

/-- Read all bytes. `position` counts the bytes already read, and `fuel` bounds those to come. -/
def decodeFrom (surrogates : Bool) : (fuel position : Nat) → List UInt8 → Except Fault Text
  | 0, _, _ => .ok []
  | _ + 1, _, [] => .ok []
  | fuel + 1, position, b :: rest =>
    match decodeOne surrogates b rest with
    | .error (length, reason) => .error ⟨position, length, b, reason⟩
    | .ok (c, rest') =>
      (decodeFrom surrogates fuel (position + 1 + (rest.length - rest'.length)) rest').map (c :: ·)

/-- The text that the bytes spell, or the first fault in them. -/
def decode (surrogates : Bool) (bytes : List UInt8) : Except Fault Text :=
  decodeFrom surrogates bytes.length 0 bytes

end Utf8

namespace ModifiedUtf8

/-- The one to three bytes of a 16-bit unit; unit 0 takes two. -/
def encodeUnit (u : UInt16) : List UInt8 :=
  if u = 0 then [0xC0, 0x80] else (CodePoint.ofUnit u).utf8

def encode (us : List UInt16) : List UInt8 := us.flatMap encodeUnit

/-- Replace every `C0 80` by a zero byte. -/
def collapseNul : List UInt8 → List UInt8
  | [] => []
  | [b] => [b]
  | b :: c :: r => if b = 0xC0 ∧ c = 0x80 then 0 :: collapseNul r else b :: collapseNul (c :: r)

/-- The text of a class-file constant. Positions in a fault count a two-byte zero as one byte. -/
def decode (bytes : List UInt8) : Except Utf8.Fault Text :=
  (Utf8.decode true (collapseNul bytes)).map Text.joinSurrogates

end ModifiedUtf8

end JniHeader
