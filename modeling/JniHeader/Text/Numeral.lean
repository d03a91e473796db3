import JniHeader.Text.CodePoint

/-!
# Numerals

Whole numbers as text: plain decimal, decimal in groups of three, and a fixed
number of digits in any radix up to sixteen.
-/
namespace JniHeader

/-- The digit of value `d`, with upper-case letters from ten on. -/
def upperDigit (d : Nat) : CodePoint :=
  .ofNat (if d < 10 then 0x30 + d else 0x41 + (d - 10))

/-- The digit of value `d`, with lower-case letters from ten on. -/
def lowerDigit (d : Nat) : CodePoint :=
  .ofNat (if d < 10 then 0x30 + d else 0x61 + (d - 10))

namespace Text

/-- The last `width` digits of `n` in base `radix`, most significant first. -/
def fixedDigits (digit : Nat → CodePoint) (radix : Nat) : Nat → Nat → Text
  | 0, _ => []
  | width + 1, n => fixedDigits digit radix width (n / radix) ++ [digit (n % radix)]

theorem length_fixedDigits (digit : Nat → CodePoint) (radix width n : Nat) :
    (fixedDigits digit radix width n).length = width := by
  induction width generalizing n with
  | zero => rfl
  | succ w ih => simp [fixedDigits, ih]

/-- Upper-case hexadecimal with exactly `width` digits. -/
def upperHex (width n : Nat) : Text := fixedDigits upperDigit 16 width n

/-- Lower-case hexadecimal with exactly `width` digits. -/
def lowerHex (width n : Nat) : Text := fixedDigits lowerDigit 16 width n

/-- Octal with exactly three digits. -/
def octal (n : Nat) : Text := fixedDigits upperDigit 8 3 n

def ofNat (n : Nat) : Text := (Nat.toDigits 10 n).map .ofChar

def ofInt : Int → Text
  | .ofNat n => ofNat n
  | .negSucc n => CodePoint.ofChar '-' :: ofNat (n + 1)

/-- Put a comma before every group of three, counted from the right; the digits come reversed. -/
def groupThousands : Text → Text
  | a :: b :: c :: d :: r => a :: b :: c :: CodePoint.ofChar ',' :: groupThousands (d :: r)
  | short => short

/-- Decimal with a comma between thousands. -/
def grouped : Int → Text
  | .ofNat n => (groupThousands (ofNat n).reverse).reverse
  | .negSucc n => CodePoint.ofChar '-' :: (groupThousands (ofNat (n + 1)).reverse).reverse

end Text

end JniHeader
