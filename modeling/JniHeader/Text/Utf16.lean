import JniHeader.Text.CodePoint

/-!
# UTF-16 code units

`Text.units` writes a text as 16-bit units and `Text.ofUnits` reads units back,
joining a high surrogate to a low one that follows it. A text in which no high
surrogate precedes a low one is read back unchanged.
-/
namespace JniHeader

/-- The one or two units of a code point; a surrogate is its own unit. -/
def CodePoint.units (c : CodePoint) : List UInt16 :=
  if c.val < 0x10000 then [c.val.toUInt16]
  else
    let v := c.val - 0x10000
    [(0xD800 + v / 0x400).toUInt16, (0xDC00 + v % 0x400).toUInt16]

/-- The code point that a single unit stands for. -/
def CodePoint.ofUnit (u : UInt16) : CodePoint :=
  ⟨u.toNat, by have := u.toNat_lt; omega⟩

/-- The supplementary code point of a high and a low surrogate. -/
def CodePoint.ofPair (high low : UInt16) : CodePoint :=
  .ofNat (0x10000 + (high.toNat - 0xD800) * 0x400 + (low.toNat - 0xDC00))

def isHighUnit (u : UInt16) : Bool := 0xD800 ≤ u && u ≤ 0xDBFF

def isLowUnit (u : UInt16) : Bool := 0xDC00 ≤ u && u ≤ 0xDFFF

namespace Text

def units (t : Text) : List UInt16 := t.flatMap CodePoint.units

/-- Read units, joining each high surrogate to a low one that follows it. -/
def ofUnits : List UInt16 → Text
  | [] => []
  | [u] => [.ofUnit u]
  | u :: v :: r =>
    if isHighUnit u && isLowUnit v then .ofPair u v :: ofUnits r
    else .ofUnit u :: ofUnits (v :: r)

/-- Join split surrogate pairs. -/
def joinSurrogates (t : Text) : Text := ofUnits t.units

end Text

end JniHeader
