import JniHeader.Text.CodePoint

/-!
# Blanks

The code points that count as white space in a name: the Unicode white space,
and the four information separators U+001C to U+001F.
-/
namespace JniHeader

/-- Ranges of white space, ascending. -/
def blankRanges : List (Nat × Nat) :=
  [(0x09, 0x0D), (0x1C, 0x20), (0x85, 0x85), (0xA0, 0xA0), (0x1680, 0x1680), (0x2000, 0x200A),
    (0x2028, 0x2029), (0x202F, 0x202F), (0x205F, 0x205F), (0x3000, 0x3000)]

def CodePoint.isBlank (c : CodePoint) : Bool :=
  blankRanges.any fun (lo, hi) => c.within lo hi

/-- There are twenty-nine of them. -/
example : (blankRanges.map fun (lo, hi) => hi + 1 - lo).sum = 29 := by decide

end JniHeader
