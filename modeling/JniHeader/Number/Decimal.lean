import JniHeader.Number.Binary
import JniHeader.Text.Numeral

/-!
# Decimal text of binary numbers

Two ways to choose digits: a given count of significant digits, rounded with
half going to even; and the fewest digits that read back as the same number.
Both are laid out positionally for moderate exponents and otherwise with an
exponent of at least two digits.
-/
namespace JniHeader

/-- `digits · 10 ^ exponent`. -/
structure Decimal where
  digits : Nat
  exponent : Int
deriving DecidableEq, Repr

def digitCount (n : Nat) : Nat := (Nat.toDigits 10 n).length

/-- The power of ten of the first significant digit of a positive ratio. -/
def leadingPower (num den : Nat) : Int :=
  if den ≤ num then digitCount (num / den) - 1
  else -(digitCount ((den + num - 1) / num - 1) : Int)

namespace Decimal

/-- Numerator and denominator. -/
def ratio (d : Decimal) : Nat × Nat := scaleRatio 10 d.digits 1 d.exponent

/-- A significand that rounding has carried to one digit too many gives up its last zero. -/
def carry (count : Nat) (d : Decimal) : Decimal :=
  if d.digits = Nat.pow 10 count then ⟨d.digits / 10, d.exponent + 1⟩ else d

/-- A positive ratio rounded to `count` significant digits. -/
def significant (count num den : Nat) : Decimal :=
  let e := leadingPower num den - (count - 1 : Nat)
  let (n, d) := scaleRatio 10 num den (-e)
  carry count ⟨roundHalfEven n d, e⟩

/-- The decimal reads as exactly the number `significand · 2 ^ exponent` of the format. -/
def readsAs (f : BinaryFormat) (significand : Nat) (exponent : Int) (d : Decimal) : Bool :=
  let (n, den) := d.ratio
  match f.roundRatio n den with
  | none => false
  | some (m, e) => FloatDatum.sameNumber (.finite false m e) (.finite false significand exponent)

/-- Of the two decimals with `count` digits beside a number, the nearer one that reads as it, or
else the other if that does. -/
def closest? (f : BinaryFormat) (significand : Nat) (exponent : Int) (count : Nat) :
    Option Decimal :=
  let (num, den) := scaleRatio 2 significand 1 exponent
  let e := leadingPower num den - (count - 1 : Nat)
  let (n, d) := scaleRatio 10 num den (-e)
  let below := n / d
  let near := roundHalfEven n d
  let far := if near = below then below + 1 else below
  [near, far].map (fun digits => carry count ⟨digits, e⟩) |>.find? (readsAs f significand exponent)

/-- The fewest digits, up to seventeen, that read as a positive binary64 number. -/
def shortest (significand : Nat) (exponent : Int) : Decimal :=
  let found := (List.range 17).findSome? fun k => closest? binary64 significand exponent (k + 1)
  found.getD ⟨significand, exponent⟩

/-- The digits without trailing zeros, and the power of ten of the first of them. -/
def plain (d : Decimal) : Text × Int :=
  let all := Text.ofNat d.digits
  let zero := CodePoint.ofChar '0'
  ((all.reverse.dropWhile (· == zero)).reverse, d.exponent + all.length - 1)

/-- An exponent with its sign and at least two digits. -/
def exponentText (e : Int) : Text :=
  let n := Text.ofNat e.natAbs
  let n := if n.length < 2 then CodePoint.ofChar '0' :: n else n
  "e" ++ (if e < 0 then "-" else "+" : Text) ++ n

/-- Lay the digits out: positional when the power of the first digit is at least -4 and less than
`limit`, else with an exponent. -/
def layout (limit : Int) (d : Decimal) : Text :=
  let (digits, power) := d.plain
  let zeros (n : Nat) : Text := List.replicate n (CodePoint.ofChar '0')
  if power < -4 ∨ limit ≤ power then
    match digits with
    | first :: second :: more => [first] ++ "." ++ (second :: more) ++ exponentText power
    | _ => digits ++ exponentText power
  else if power < 0 then "0." ++ zeros (-power - 1).toNat ++ digits
  else
    let whole := power.toNat + 1
    if digits.length ≤ whole then digits ++ zeros (whole - digits.length)
    else digits.take whole ++ "." ++ digits.drop whole

end Decimal

namespace FloatDatum

def signText (negative : Bool) : Text := if negative then "-" else []

/-- A finite number with at most `count` significant digits, laid out positionally while its first
digit's power of ten is less than `count`. -/
def generalText (count : Nat) (negative : Bool) (significand : Nat) (exponent : Int) : Text :=
  if significand = 0 then signText negative ++ "0"
  else
    let (n, d) := scaleRatio 2 significand 1 exponent
    signText negative ++ (Decimal.significant count n d).layout count

/-- The datum that the decimal text of `count` significant digits is read as: first the nearest
binary64 number, then the nearest binary32 number to that. -/
def rereadSingle? (count : Nat) (negative : Bool) (significand : Nat) (exponent : Int) :
    Option FloatDatum :=
  if significand = 0 then some (.finite negative 0 0)
  else
    let (n, d) := scaleRatio 2 significand 1 exponent
    let (n, d) := (Decimal.significant count n d).ratio
    match binary64.roundRatio n d with
    | none => some (.infinite negative)
    | some (m, e) => binary32.round? (.finite negative m e)

/-- `.0` marks a numeral that would else read as a whole number. -/
def withPoint (t : Text) : Text :=
  if t.contains (CodePoint.ofChar '.') || t.contains (CodePoint.ofChar 'e') then t else t ++ ".0"

/-- The fewest digits that read as a binary64 number, positional below ten to the sixteenth. -/
def shortestText (negative : Bool) (significand : Nat) (exponent : Int) : Text :=
  if significand = 0 then signText negative ++ "0.0"
  else withPoint (signText negative ++ (Decimal.shortest significand exponent).layout 16)

/-- The fewest digits, up to nine, that read back through binary32 as the number; the shortest
binary64 text when none do. -/
def shortestSingleText (negative : Bool) (significand : Nat) (exponent : Int) : Text :=
  let fits (count : Nat) : Bool :=
    match rereadSingle? count negative significand exponent with
    | none => false
    | some x => x.sameNumber (.finite negative significand exponent)
  match (List.range 9).find? fun k => fits (k + 1) with
  | some k => generalText (k + 1) negative significand exponent
  | none => shortestText negative significand exponent

/-- Any datum as text. -/
def text : FloatDatum → Text
  | .nan => "nan"
  | .infinite negative => signText negative ++ "inf"
  | .finite negative m e => shortestText negative m e

end FloatDatum

end JniHeader
