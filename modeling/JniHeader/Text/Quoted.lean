import JniHeader.Text.Numeral
import JniHeader.Text.Printable

/-!
# Quoted texts

The form in which messages show a text: between single quotes, or between double
quotes when it holds single quotes only, with everything unprintable escaped.
-/
namespace JniHeader

/-- The quote that needs the fewest escapes. -/
def Text.quoteMark (t : Text) : CodePoint :=
  if t.contains (CodePoint.ofChar '\'') && !t.contains (CodePoint.ofChar '"') then '"' else '\''

/-- One code point inside quotes. -/
def CodePoint.quotedWithin (mark c : CodePoint) : Text :=
  if c = mark ∨ c = '\\' then [CodePoint.ofChar '\\', c]
  else if c = '\n' then "\\n"
  else if c = '\r' then "\\r"
  else if c = '\t' then "\\t"
  else if c.isPrintable then [c]
  else if c.val < 0x100 then "\\x" ++ Text.lowerHex 2 c.val
  else if c.val < 0x10000 then "\\u" ++ Text.lowerHex 4 c.val
  else "\\U" ++ Text.lowerHex 8 c.val

def Text.quoted (t : Text) : Text :=
  let mark := t.quoteMark
  mark :: t.flatMap (CodePoint.quotedWithin mark) ++ [mark]

/-- One byte inside quotes: bytes have no printable form outside ASCII. -/
def quotedByteWithin (mark : CodePoint) (b : UInt8) : Text :=
  let c := CodePoint.ofNat b.toNat
  if c.isPlain then CodePoint.quotedWithin mark c
  else if c = '\n' then "\\n"
  else if c = '\r' then "\\r"
  else if c = '\t' then "\\t"
  else "\\x" ++ Text.lowerHex 2 b.toNat

/-- A byte string in quotes, with the mark `b` in front. -/
def quotedBytes (bs : List UInt8) : Text :=
  let mark := Text.quoteMark (bs.map fun b => CodePoint.ofNat b.toNat)
  CodePoint.ofChar 'b' :: mark :: bs.flatMap (quotedByteWithin mark) ++ [mark]

end JniHeader
